import TypeIgnore.Edit.Silence
import TypeIgnore.Path.Basic
import TypeIgnore.Run.Notice
import TypeIgnore.Tree.Access

/-!
# File tasks

The work on one file: read it, plan the edit, write it.

* `FileTask` — the diagnostics of one file, however the report spells its path;
* `groupByFile` — diagnostics as tasks, in the order of paths;
* `FileState` — how far a task has come;
* `FileTask.perform` — a task done.
-/

namespace TypeIgnore

structure FileTask where
  /-- Where the file is. -/
  location : Path
  /-- The first spelling of its path in the report. -/
  path : ReportPath
  diagnostics : List Diagnostic
  deriving DecidableEq, Repr

/-- `d` added to the task of its file, or as a new task in its place. -/
def addToTasks (location : Path) (d : Diagnostic) : List FileTask → List FileTask
  | [] => [⟨location, d.path, [d]⟩]
  | t :: tasks =>
    if t.location = location then { t with diagnostics := t.diagnostics ++ [d] } :: tasks
    else if location.before t.location then ⟨location, d.path, [d]⟩ :: t :: tasks
    else t :: addToTasks location d tasks

/-- One task for each file. -/
def groupByFile (root : Path) (ds : List Diagnostic) : List FileTask :=
  ds.foldl (fun tasks d => addToTasks (absolutize root d.path) d tasks) []

/-! ## States -/

inductive FileState
  | pending
  | tokenizing
  | filtering
  | editing
  | done
  | failed (reason : Reason)
  deriving DecidableEq, Repr

/-- The reason as one word. -/
def Reason.word : Reason → Text
  | .midRegion => "MidRegion"
  | .unparseableSource => "UnparseableSource"
  | .syntaxError => "SyntaxError"
  | .lineOutOfRange => "LineOutOfRange"
  | .fileNotFound => "FileNotFound"
  | .encodingError => "EncodingError"
  | .ioError => "IoError"

def FileState.text : FileState → Text
  | .pending => "Pending"
  | .tokenizing => "Tokenizing"
  | .filtering => "Filtering"
  | .editing => "Editing"
  | .done => "Done"
  | .failed reason => "Failed(" ++ reason.word ++ ")"

/-! ## Results -/

structure FileResult where
  path : ReportPath
  /-- The states that the task went through before the last. -/
  passed : List FileState
  state : FileState
  silenced : List Diagnostic := []
  rejected : List Rejected := []
  changes : List LineChange := []
  warnings : List Text := []
  deriving DecidableEq, Repr

namespace FileResult

/-- A line of the log for each step from state to state. -/
def trace (r : FileResult) : List Notice :=
  let states := r.passed ++ [r.state]
  (states.zip states.tail).map fun (a, b) =>
    .log ⟨.debug, .run, r.path.text ++ ": " ++ a.text ++ " -> " ++ b.text⟩

/-- What is told of a result. -/
def notices (r : FileResult) : List Notice :=
  r.silenced.map .silenced ++ r.rejected.map .notSilenced ++ r.warnings.map .warning

end FileResult

namespace FileTask

/-- The states of a task whose source has been read. -/
def readStates : List FileState := [.pending, .tokenizing]

/-- The states of a task whose edit has been planned. -/
def plannedStates : List FileState := readStates ++ [.filtering, .editing]

/-- What is told of a file that cannot be read. -/
def readWarning (t : FileTask) (root : Text) (e : SourceError) : Text :=
  if e.reason = .fileNotFound ∧ !t.path.isAbsolute then
    t.path.text ++ ": file not found under " ++ root ++
      "; if mypy ran from another directory, regenerate the report with `mypy --show-absolute-path`"
  else e.message

/-- The result for a file that cannot be read. -/
def unread (t : FileTask) (root : Text) (e : SourceError) : FileResult where
  path := t.path
  passed := readStates
  state := .failed e.reason
  rejected := t.diagnostics.map fun d => ⟨d, e.reason⟩
  warnings := [t.readWarning root e]

/-- The result for a source that has no map. -/
def unmapped (t : FileTask) (rejected : List Rejected) (e : LexError) : FileResult where
  path := t.path
  passed := readStates
  state := .failed .unparseableSource
  rejected := rejected
  warnings := [t.path.text ++ ": source does not tokenize (" ++ e.message ++ "); left unchanged"]

/-- The result for an edit that cannot be written: what it would have silenced is left alone. -/
def unwritten (t : FileTask) (o : FileOutcome) (e : SourceError) : FileResult where
  path := t.path
  passed := plannedStates
  state := .failed .ioError
  rejected := o.rejected ++ o.silenced.map fun d => ⟨d, .ioError⟩
  warnings := [e.message]

/-- The result for an edit that is written, or need not be. -/
def finished (t : FileTask) (o : FileOutcome) (e : FileEdit) : FileResult where
  path := t.path
  passed := plannedStates
  state := .done
  silenced := o.silenced
  rejected := o.rejected
  changes := e.changes

/-- Reads the file, plans its edit, and writes it unless nothing changes or nothing is to be written. -/
def perform {m : Type → Type} [Monad m] [FileAccess m] (root : Text) (policy : Policy) (dryRun : Bool)
    (t : FileTask) : m FileResult := do
  match ← readSource t.location.text with
  | .error e => return t.unread root e
  | .ok source =>
    let outcome := silenceSource source t.diagnostics policy
    match outcome.edit with
    | .error e => return t.unmapped outcome.rejected e
    | .ok edit =>
      if edit.isNoop || dryRun then
        return t.finished outcome edit
      else
        match ← writeSource t.location.text edit.text with
        | .error e => return t.unwritten outcome e
        | .ok () => return t.finished outcome edit

end FileTask

end TypeIgnore
