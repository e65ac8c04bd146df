import TypeIgnore.Render.Basic

/-!
# Summaries

The lines printed after a run: its counts, and for the diagnostics that were left alone how many there are for each
reason and what to do about it.
-/

namespace TypeIgnore

/-- A number of errors as the start of a sentence. -/
def countStem (n : Nat) : Text := Text.ofNat n ++ (if n = 1 then " error was " else " errors were ").toList

/-- What to do about diagnostics that were left alone for a reason. -/
def hint? (reason : Text) : Option Text :=
  if reason = "mid-region" then
    some ("reformat backslash continuations and multi-line strings (e.g. with black) " ++
      "so the statement ends on the reported line")
  else if reason = "unparseable-source" ∨ reason = "syntax-error" then
    some "resolve the syntax errors and rerun the checker"
  else if reason = "line-out-of-range" ∨ reason = "file-not-found" then
    some "the report is stale or uses other paths; rerun the checker from --root"
  else if reason = "encoding-error" then some "save the file as UTF-8"
  else if reason = "io-error" then some "check file permissions"
  else none

namespace RunView

/-- The reasons that occur, in order. -/
def reasons (v : RunView) : List Text := ((v.rejected.map (·.reason)).mergeSort Text.le).eraseDups

def reasonLine (v : RunView) (reason : Text) : Text :=
  "  " ++ reason ++ ": " ++ Text.ofNat (v.rejected.countP (·.reason == reason)) ++ "\n"

def hintLine (reason : Text) : Text :=
  match hint? reason with
  | some hint => "  " ++ reason ++ ": " ++ hint ++ "\n"
  | none => []

/-- How many diagnostics were left alone for each reason. -/
def breakdown (v : RunView) : Text :=
  "\nNot silenced:\n" ++ v.reasons.flatMap v.reasonLine ++
    "\nTo resolve:\n" ++ v.reasons.flatMap hintLine ++
    "Run `typeshush explain <reason>` for examples.\n"

def summary (v : RunView) : Text :=
  (if v.dryRun then "Dry run: no files were written.\n" else "").toList ++
    countStem v.counts.silenced ++ "silenced.\n" ++
    countStem v.counts.notSilenced ++ "not silenced.\n" ++
    countStem v.counts.ignored ++ "ignored.\n" ++
    if v.rejected.isEmpty then [] else v.breakdown

end RunView

end TypeIgnore
