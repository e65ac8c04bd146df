import TypeIgnore.Diagnostic.Reason

/-!
# Explanations

For each reason why a diagnostic is left alone: when it arises, what to do about it, and an example.
-/

namespace TypeIgnore

structure Explanation where
  title : Text
  description : Text
  remediation : Text
  /-- Code whose diagnostic is left alone. -/
  before : Text
  /-- Code whose diagnostic can be silenced. -/
  after : Text
  deriving DecidableEq, Repr

/-- The text of several lines. -/
def block (lines : List String) : Text := Text.joinWith "\n" (lines.map String.toList)

namespace Reason

def midRegionExplanation : Explanation where
  title := "Diagnostic Inside a Multi-line Construct"
  description := block [
    "The diagnostic points at a line that is not the last line of its logical statement.",
    "",
    "A trailing comment cannot be placed there:",
    "- after a backslash continuation nothing may follow the backslash",
    "- inside a triple-quoted string or multi-line f-string a `#` is part of the text",
    "- inside open brackets the checker attributes the marker to a different line"]
  remediation := block [
    "Reshape the statement so the reported line ends it:",
    "- replace backslash continuations with parentheses (black does this)",
    "- hoist a multi-line f-string into a variable built on one line",
    "- or fix the underlying type error"]
  before := block [
    "total = first_value + \\",
    "    second_value"]
  after := block [
    "total = (",
    "    first_value + second_value",
    ")"]

def unparseableSourceExplanation : Explanation where
  title := "Source Could Not Be Tokenized"
  description := block [
    "The file failed lexical analysis (unterminated string, unbalanced brackets, or a",
    "stray character after a continuation backslash). Without a reliable split between",
    "code and comments no line in the file is edited."]
  remediation := "Fix the lexical error first, re-run the type checker, then run typeshush again."
  before := "name = \"unterminated"
  after := "name = \"terminated\""

def syntaxErrorExplanation : Explanation where
  title := "Syntax Error"
  description := block [
    "The checker reported a syntax error. A suppression marker on a line the checker",
    "cannot parse is never read, so these are always left alone."]
  remediation := "Resolve the syntax error by hand."
  before := block [
    "def f(:",
    "    pass"]
  after := block [
    "def f():",
    "    pass"]

def lineOutOfRangeExplanation : Explanation where
  title := "Line Beyond End of File"
  description := block [
    "The diagnostic names a line number past the last line of the file. The report is",
    "usually stale: the file changed after the checker ran."]
  remediation := "Re-run the type checker on the current sources and feed the fresh report."
  before := "mod.py:40: error: ...  (mod.py has 12 lines)"
  after := "mod.py:12: error: ..."

def fileNotFoundExplanation : Explanation where
  title := "Reported File Not Found"
  description := block [
    "The file named in the report does not exist relative to the working root.",
    "Reports written from a different directory carry paths that do not resolve."]
  remediation := block [
    "Run the checker with `--show-absolute-path`, or pass `--root` pointing at the",
    "directory the checker ran from."]
  before := "mypy src/ > report.txt   # paths like pkg/mod.py"
  after := "mypy --show-absolute-path src/ > report.txt"

def encodingErrorExplanation : Explanation where
  title := "Source Is Not UTF-8"
  description := "The file could not be decoded as UTF-8, so it is neither tokenized nor rewritten."
  remediation := "Convert the file to UTF-8."
  before := "# -*- coding: latin-1 -*-"
  after := "# (file saved as UTF-8)"

def ioErrorExplanation : Explanation where
  title := "File Could Not Be Read or Written"
  description := block [
    "Reading or writing the file failed (permissions, read-only filesystem, disk full).",
    "The edit is all-or-nothing: the original file is left untouched."]
  remediation := "Check permissions on the file and its directory, then run again."
  before := "-r--r--r--  pkg/mod.py"
  after := "-rw-r--r--  pkg/mod.py"

def explanation : Reason → Explanation
  | .midRegion => midRegionExplanation
  | .unparseableSource => unparseableSourceExplanation
  | .syntaxError => syntaxErrorExplanation
  | .lineOutOfRange => lineOutOfRangeExplanation
  | .fileNotFound => fileNotFoundExplanation
  | .encodingError => encodingErrorExplanation
  | .ioError => ioErrorExplanation

end Reason

/-- A line under a title, as long as the title. -/
def underline (c : Char) (title : Text) : Text := title ++ "\n" ++ List.replicate title.length c ++ "\n"

/-- A block of code with a heading. -/
def codeBlock (heading code : Text) : Text := heading ++ ":\n```python\n" ++ code ++ "\n```\n"

/-- The explanation as it is printed. -/
def Explanation.text (e : Explanation) : Text :=
  underline '=' e.title ++ "\n" ++ e.description ++ "\n\n" ++
    underline '-' "Remediation" ++ e.remediation ++ "\n\n" ++
    underline '-' "Examples" ++ "\n" ++
    codeBlock "Before (left alone)" e.before ++ "\n" ++ codeBlock "After (silenceable)" e.after

def reasonItem (r : Reason) : Text := "  - " ++ r.text ++ "\n"

/-- What is printed for a reason that there is not. -/
def unknownReason (t : Text) : Text :=
  "Unknown reason: " ++ t ++ "\n\nAvailable reasons:\n" ++
    Reason.all.flatMap reasonItem

end TypeIgnore
