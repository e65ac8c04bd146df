import TypeIgnore.Command.Invocation
import TypeIgnore.Command.Schema
import TypeIgnore.Receipt.Format
import TypeIgnore.Render.Annotation
import TypeIgnore.Render.Explain
import TypeIgnore.Render.Markdown
import TypeIgnore.Render.Summary
import TypeIgnore.Run.Basic

/-!
# Commands

What each command does and prints.

* `CommandResult` — what is printed, what is logged, and the exit code;
* `runCommand` — a command done;
* `runCommandLine` — a command line read and done.
-/

namespace TypeIgnore

structure CommandResult where
  exit : Nat := 0
  stdout : Text := []
  /-- What is printed on standard error besides the log. -/
  stderr : Text := []
  notices : List Notice := []
  deriving DecidableEq, Repr

namespace CommandResult

/-- The result of a command that stops with an error. -/
def failed (message : Text) : CommandResult :=
  { exit := 1, stderr := "typeshush error: " ++ message ++ "\n" }

/-- `r` after `stdout` has been printed and `notices` have been told. -/
def after (stdout : Text) (notices : List Notice) (r : CommandResult) : CommandResult :=
  { r with stdout := stdout ++ r.stdout, notices := notices ++ r.notices }

/-- All that is printed on standard error: the records of the log that are shown, and then the error. -/
def errorText (r : CommandResult) (verbosity : Nat) : Text :=
  ((r.notices.map Notice.record).filter fun record => record.level.rank ≤ verbosity).flatMap LogRecord.line ++ r.stderr

end CommandResult

/-- Where settings are looked for in the root. -/
def settingsFile : Text := "typeshush.toml"

section Commands

variable {m : Type → Type} [Monad m] [FileAccess m]

/-- The text of a file, or what is told of it. -/
def readTextFile (role path : Text) : m (Except Text Text) := do
  return (readText (← FileAccess.read path)).mapError fun e => role ++ ": " ++ path ++ ": " ++ e.message

/-- Writes a file and makes its directory. -/
def writeTextFile (role path text : Text) : m (Except Text Unit) := do
  let made ← match parentText? path with
    | some (c :: parent) => do
      pure ((← FileAccess.makeDirs (c :: parent)).mapError fun e =>
        "create directory: " ++ (c :: parent) ++ ": " ++ e.message)
    | _ => pure (.ok ())
  match made with
  | .error message => return .error message
  | .ok () =>
    return (← FileAccess.write path (Utf8.encode text)).mapError fun e =>
      role ++ ": " ++ path ++ ": " ++ e.message

/-- Writes a file if there is a name for it. -/
def writeOutput (context role : Text) (path : Option Text) (text : Text) : m (Except Text Unit) := do
  match path with
  | none => return .ok ()
  | some path => return (← writeTextFile role path text).mapError fun e => context ++ ": " ++ e

/-- The settings file that is named, or else the one of the root, if there is one. -/
def loadSettings (config : Option Text) (root : Text) : m (Except Text Text) := do
  match config with
  | some path => readTextFile "read config" path
  | none =>
    let path := joinText root settingsFile
    if ← FileAccess.isFile path then readTextFile "read config" path else return .ok []

def runInput (o : SilenceOptions) (root settings : Text) (report : ReportSource) : RunInput where
  root := root
  settings := settings
  overrides := {
    descriptionStyle := o.descriptionStyle
    followUp := o.followUp
    silenceCodes := if o.silenceCodes.isEmpty then none else some o.silenceCodes
    allowNoCodes := if o.allowNoCodes then some true else none }
  report := report
  selectors := { paths := o.files, modules := o.modules, packages := o.packages, globs := o.globs }
  dryRun := o.dryRun

/-- Writes what is asked for of a receipt. -/
def writeOutputs (o : SilenceOptions) (r : Receipt) : m CommandResult := do
  match ← writeOutput "write receipt json" "write receipt" o.receiptOut r.text with
  | .error message => return .failed message
  | .ok () =>
    match ← writeOutput "write markdown" "write text" o.markdownOut r.view.markdown with
    | .error message => return .failed message
    | .ok () => return {}

def commandSilence (now : m Timestamp) (stdin : m (List UInt8)) (i : Invocation) (o : SilenceOptions) :
    m CommandResult := do
  let root := (← FileAccess.canonical? i.root).getD i.root
  if !(← FileAccess.isDirectory root) then
    return .failed ("root is not a directory: " ++ root)
  match ← loadSettings i.config root with
  | .error message => return .failed message
  | .ok settings =>
    let report ← match o.report with
      | some path => pure (.file path)
      | none => ReportSource.given <$> stdin
    let result ← runSilence now (runInput o root settings report)
    match result.outcome with
    | .error e => return (CommandResult.failed e.message).after [] result.notices
    | .ok output =>
      let view := output.receipt.view
      let changes := if o.dryRun then view.changeList else []
      return (← writeOutputs o output.receipt).after (changes ++ view.summary) result.notices

/-- Reads a receipt and shows it. -/
def withReceipt (path : Text) (use : Receipt → m CommandResult) : m CommandResult := do
  match ← readTextFile "read receipt" path with
  | .error message => return .failed message
  | .ok text =>
    match Receipt.ofText text with
    | .error e => return .failed e.message
    | .ok r => use r

def showMarkdown (output : Option Text) (r : Receipt) : m CommandResult := do
  match output with
  | none => return { stdout := r.view.markdown }
  | some _ =>
    match ← writeOutput "write markdown output" "write text" output r.view.markdown with
    | .error message => return .failed message
    | .ok () => return {}

def showAnnotations (max : Nat) (r : Receipt) : CommandResult :=
  { stdout := (r.view.annotations.take max).flatMap (· ++ ['\n']) }

def showExplanation (reason : Text) : CommandResult :=
  match Reason.ofText? reason with
  | some r => { stdout := r.explanation.text }
  | none => { exit := 1, stderr := unknownReason reason }

def runCommand (now : m Timestamp) (stdin : m (List UInt8)) (i : Invocation) : m CommandResult :=
  match i.command with
  | .silence o => commandSilence now stdin i o
  | .explain reason => return showExplanation reason
  | .markdown receipt output => withReceipt receipt (showMarkdown output)
  | .annotations receipt max => withReceipt receipt fun r => return showAnnotations max r
  | .schema kind => return { stdout := Schema.print kind }

def versionText : Text := thisTool.name ++ " " ++ thisTool.version ++ "\n"

def usageText : Text := "Usage: typeshush [OPTIONS] <COMMAND>\n"

/-- What a command line leads to, and how much of the log is shown. -/
def runCommandLine (now : m Timestamp) (stdin : m (List UInt8)) (args : List Text) : m (CommandResult × Nat) := do
  match Invocation.ofArguments args with
  | .error .usage => return ({ exit := 2, stderr := usageText }, 0)
  | .error .version => return ({ stdout := versionText }, 0)
  | .error .help => return ({ stdout := usageText }, 0)
  | .ok i => return (← runCommand now stdin i, i.verbosity)

end Commands

end TypeIgnore
