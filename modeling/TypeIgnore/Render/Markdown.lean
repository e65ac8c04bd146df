import TypeIgnore.Render.Basic

/-!
# Markdown

A run as a Markdown document: counts, warnings, a table of the diagnostics that were left alone, and the changes.
-/

namespace TypeIgnore

/-- A bar inside a cell of a table stands behind a backslash. -/
def escapeCell (t : Text) : Text := t.flatMap fun c => if c = '|' then "\\|".toList else [c]

/-- A row of the table. -/
def RejectedView.row (r : RejectedView) : Text :=
  let code : Text := match r.code with
    | some code => "`" ++ code ++ "`"
    | none => []
  "| `" ++ r.path ++ ":" ++ Text.ofNat r.line ++ "` | " ++ code ++ " | `" ++ r.reason ++ "` | " ++
    escapeCell r.message ++ " |\n"

namespace RunView

def markdownCounts (v : RunView) : Text :=
  "- Silenced: **" ++ Text.ofNat v.counts.silenced ++ "**\n" ++
    "- Not silenced: **" ++ Text.ofNat v.counts.notSilenced ++ "**\n" ++
    "- Ignored: " ++ Text.ofNat v.counts.ignored ++ "\n" ++
    "- Files edited: " ++ Text.ofNat v.counts.filesEdited ++ "\n\n"

def markdownWarning (w : Text) : Text := "> Warning: " ++ w ++ "\n\n"

def markdownTable (v : RunView) : Text :=
  if v.rejected.isEmpty then "Every selected error was silenced.\n"
  else
    "## Not silenced\n\n| Location | Code | Reason | Message |\n|---|---|---|---|\n" ++
      v.rejected.flatMap RejectedView.row

def markdownChanges (v : RunView) : Text :=
  if v.changes.isEmpty then [] else "\n## Changes\n\n```diff\n" ++ v.changeList ++ "```\n"

def markdown (v : RunView) : Text :=
  "# typeshush report\n\n" ++
    (if v.dryRun then "> Dry run: no files were written.\n\n" else "").toList ++
    v.markdownCounts ++
    v.warnings.flatMap markdownWarning ++
    v.markdownTable ++ v.markdownChanges

end RunView

end TypeIgnore
