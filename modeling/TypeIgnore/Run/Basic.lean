import TypeIgnore.Config.Settings
import TypeIgnore.Receipt.Basic
import TypeIgnore.Report.Basic
import TypeIgnore.Run.FileTask
import TypeIgnore.Run.Scope

/-!
# Runs

A run reads settings and report, selects the diagnostics to act on, works on their files one by one, and leaves a
receipt. Only settings, report or selectors that cannot be read stop it; what goes wrong with a file is told of in
the receipt.

* `RunInput` — what a run is given;
* `RunError` — why a run stops;
* `RunPlan` — what a run is going to do, fixed before the first file is touched;
* `runSilence` — a run, with what it tells on the way.
-/

namespace TypeIgnore

/-! ## Input -/

inductive ReportSource
  | file (path : Text)
  /-- From standard input. -/
  | given (bytes : List UInt8)
  deriving DecidableEq, Repr

structure RunInput where
  /-- Where reported paths and selectors start. -/
  root : Text
  /-- A settings file; blank if there is none. -/
  settings : Text := []
  overrides : Overrides := {}
  report : ReportSource
  selectors : Selectors := {}
  /-- Write nothing. -/
  dryRun : Bool := false
  deriving DecidableEq, Repr

/-! ## Errors -/

inductive RunError
  | malformedSettings
  | config (e : ConfigError)
  | report (path : Text) (e : OsError)
  | scope (e : ScopeError)
  deriving DecidableEq, Repr

def RunError.message : RunError → Text
  | .malformedSettings => "parse config: not a settings file"
  | .config e => "resolve config: " ++ e.message
  | .report path e =>
    -- A directory can be opened like a file, and only then not read.
    let action : Text := if e = .isDirectory then "read report " else "open report "
    "read checker report: " ++ action ++ path ++ ": " ++ e.message
  | .scope e => "resolve selectors: " ++ e.message

/-! ## Output -/

structure RunOutput where
  receipt : Receipt
  configuration : Configuration
  /-- The last state of each file. -/
  states : List (ReportPath × FileState)
  deriving DecidableEq, Repr

structure RunResult where
  notices : List Notice
  outcome : Except RunError RunOutput

/-! ## Steps -/

def configure (settings : Text) (overrides : Overrides) : Except RunError Configuration := do
  let file ← if Text.isAllBlank settings then pure {} else
    match Settings.ofText? settings with
    | some s => .ok s
    | none => .error .malformedSettings
  (resolve file overrides).mapError .config

/-- What settings, report and selectors come to. -/
structure RunPlan where
  configuration : Configuration
  report : Report
  scope : Scope

namespace RunPlan

def policy (p : RunPlan) : Policy := p.configuration.policy

/-- The diagnostics to act on, and the others. -/
def selection (p : RunPlan) : Selection := select p.report.diagnostics p.policy p.scope.contains

/-- The tasks of the run. -/
def tasks (p : RunPlan) (root : Path) : List FileTask := groupByFile root p.selection.selected

end RunPlan

/-- What is told of lines that look like entries and are none. -/
def malformedNotices (report : Report) : List Notice :=
  if report.unparsed = 0 then []
  else [.log ⟨.debug, .run, "skipped " ++ Text.ofNat report.unparsed ++ " malformed report line(s)"⟩]

/-- The warning that diagnostics have no codes. -/
def codeWarnings (report : Report) (policy : Policy) : List Text :=
  if report.uncoded = 0 ∨ policy.allowNoCodes then []
  else [Text.ofNat report.uncoded ++ " error(s) in the report carry no error code and get blanket markers; " ++
    "run mypy with --show-error-codes for targeted suppressions (or pass --allow-no-error-codes)"]

def changeRecords (r : FileResult) : List ChangeView :=
  r.changes.map fun c => ⟨r.path.text, c.line, c.before, c.after⟩

/-- The receipt of a run from the results for its files. -/
def makeReceipt (startedAt finishedAt : Timestamp) (dryRun : Bool) (ignored : List Diagnostic)
    (warnings : List Text) (results : List FileResult) : Receipt :=
  let silenced := results.flatMap (·.silenced)
  let rejected := results.flatMap (·.rejected)
  { startedAt, finishedAt, dryRun
    counts := {
      silenced := Text.saturate silenced.length
      notSilenced := Text.saturate rejected.length
      ignored := Text.saturate ignored.length
      filesEdited := Text.saturate (results.countP fun r => !r.changes.isEmpty) }
    silenced := silenced.map Diagnostic.record
    rejected := rejected.map Rejected.toRecord
    changes := results.flatMap changeRecords
    warnings := warnings ++ results.flatMap (·.warnings) }

section Run

variable {m : Type → Type} [Monad m] [FileAccess m]

def readReport : ReportSource → m (Except RunError Report)
  | .given bytes => return .ok (Report.ofBytes bytes)
  | .file path => do
    match ← FileAccess.read path with
    | .ok bytes => return .ok (Report.ofBytes bytes)
    | .error e => return .error (.report path e)

/-- Settings, report and selectors read, with what is told of them. -/
def planRun (input : RunInput) : m (List Notice × Except RunError RunPlan) := do
  match configure input.settings input.overrides with
  | .error e => return ([], .error e)
  | .ok configuration =>
    match ← readReport input.report with
    | .error e => return ([], .error e)
    | .ok report =>
      let told := malformedNotices report ++ (codeWarnings report configuration.policy).map .warning
      let (scopeNotices, scope) ← resolveScope (.ofText input.root) configuration.searchPaths input.selectors
        configuration.exclude
      return (told ++ scopeNotices,
        match scope with
        | .error e => .error (.scope e)
        | .ok scope => .ok { configuration, report, scope })

/-- A run. `now` is the time it is. -/
def runSilence (now : m Timestamp) (input : RunInput) : m RunResult := do
  let startedAt ← now
  let (told, plan) ← planRun input
  match plan with
  | .error e => return ⟨told, .error e⟩
  | .ok plan =>
    let results ← (plan.tasks (.ofText input.root)).mapM (FileTask.perform input.root plan.policy input.dryRun)
    let finishedAt ← now
    return {
      notices := told ++ results.flatMap (·.trace) ++ results.flatMap (·.notices)
      outcome := .ok {
        receipt := makeReceipt startedAt finishedAt input.dryRun plan.selection.ignored
          (codeWarnings plan.report plan.policy) results
        configuration := plan.configuration
        states := results.map fun r => (r.path, r.state) } }

end Run

end TypeIgnore
