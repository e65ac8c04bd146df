import TypeIgnore.Command.Arguments

/-!
# Invocations

A command with its options, read from a command line. Options for all commands may stand before the command or after
it; after it they win.
-/

namespace TypeIgnore

structure SilenceOptions where
  /-- Standard input if it is missing. -/
  report : Option Text := none
  files : List Text := []
  modules : List Text := []
  packages : List Text := []
  globs : List Text := []
  descriptionStyle : Option Text := none
  followUp : Option Text := none
  silenceCodes : List Text := []
  allowNoCodes : Bool := false
  dryRun : Bool := false
  receiptOut : Option Text := none
  markdownOut : Option Text := none
  deriving DecidableEq, Repr

/-- Files that there is a schema for. -/
inductive SchemaKind
  | config
  | receipt
  deriving DecidableEq, Repr

inductive Command
  | silence (options : SilenceOptions)
  | explain (reason : Text)
  /-- A receipt as Markdown, printed if there is no file for it. -/
  | markdown (receipt : Text) (output : Option Text)
  | annotations (receipt : Text) (max : Nat)
  | schema (kind : SchemaKind)
  deriving DecidableEq, Repr

structure Invocation where
  root : Text
  config : Option Text
  verbosity : Nat
  command : Command
  deriving DecidableEq, Repr

/-! ## Options -/

def commonOptions : List OptionSpec := [
  { long := "root" },
  { long := "config" },
  { long := "verbose", short := some 'v', kind := .none, repeatable := true },
  helpOption]

def silenceOptions : List OptionSpec := [
  { long := "report", short := some 'r' },
  { long := "module", short := some 'm', repeatable := true },
  { long := "package", short := some 'p', repeatable := true },
  { long := "glob", repeatable := true },
  { long := "description-style", kind := .oneOf ["none", "full"] },
  { long := "fix-me" },
  { long := "silence-code", repeatable := true },
  { long := "allow-no-error-codes", kind := .none },
  { long := "dry-run", kind := .none },
  { long := "receipt-out" },
  { long := "markdown-out" }]

def markdownOptions : List OptionSpec := [
  { long := "receipt" },
  { long := "output", short := some 'o' }]

def annotationsOptions : List OptionSpec := [
  { long := "receipt" },
  { long := "max", kind := .number }]

/-! ## Commands -/

/-- A value without which a command makes no sense. -/
def needed (value : Option α) : Except Stop α :=
  match value with
  | some a => .ok a
  | none => .error .usage

def readSilence (a : Arguments) : SilenceOptions where
  report := a.value? "report"
  files := a.others
  modules := a.values "module"
  packages := a.values "package"
  globs := a.values "glob"
  descriptionStyle := a.value? "description-style"
  followUp := a.value? "fix-me"
  silenceCodes := a.values "silence-code"
  allowNoCodes := a.has "allow-no-error-codes"
  dryRun := a.has "dry-run"
  receiptOut := a.value? "receipt-out"
  markdownOut := a.value? "markdown-out"

namespace SchemaKind

def all : List SchemaKind := [.config, .receipt]

def text : SchemaKind → Text
  | .config => "config"
  | .receipt => "receipt"

def ofText? (t : Text) : Option SchemaKind := all.find? (·.text == t)

end SchemaKind

/-- How many annotations are printed at most, if nothing is said. -/
def defaultMax : Nat := 10

structure CommandSpec where
  name : Text
  options : List OptionSpec := []
  maxOthers : Option Nat := some 0
  otherKind : ValueKind := .text
  read : Arguments → Except Stop Command

def commands : List CommandSpec := [
  { name := "silence"
    options := silenceOptions
    maxOthers := none
    read a := .ok (.silence (readSilence a)) },
  { name := "explain"
    maxOthers := some 1
    read a := do return .explain (← needed a.others.head?) },
  { name := "md"
    options := markdownOptions
    read a := do return .markdown (← needed (a.value? "receipt")) (a.value? "output") },
  { name := "annotations"
    options := annotationsOptions
    read a := do
      return .annotations (← needed (a.value? "receipt")) (((a.value? "max").bind readNumber?).getD defaultMax) },
  { name := "schema"
    maxOthers := some 1
    otherKind := .oneOf (SchemaKind.all.map SchemaKind.text)
    read a := do return .schema (← needed (a.others.head?.bind SchemaKind.ofText?)) }]

def helpCommand : Text := "help"

def commandNames : List Text := helpCommand :: commands.map (·.name)

/-- What asking for help ends in. It is for all commands or for one, and has no options. -/
def helpStop : List Text → Stop
  | [] => .help
  | [name] => if commandNames.contains name then .help else .usage
  | _ => .usage

/-- What may stand before the command. -/
def commonGrammar : Grammar where
  options := commonOptions ++ [versionOption]
  commands := commandNames

def CommandSpec.grammar (c : CommandSpec) : Grammar where
  options := commonOptions ++ c.options
  maxOthers := c.maxOthers
  otherKind := c.otherKind

/-- What a command line asks for. -/
def Invocation.ofArguments (ts : List Text) : Except Stop Invocation := do
  let (common, rest) ← commonGrammar.read ts
  let (name, ts) ← needed rest
  if name = helpCommand then throw (helpStop ts)
  let spec ← needed (commands.find? (·.name == name))
  let (own, _) ← spec.grammar.read ts
  let command ← spec.read own
  return {
    root := (own.value? "root" <|> common.value? "root").getD "."
    config := own.value? "config" <|> common.value? "config"
    verbosity := if own.has "verbose" then own.count "verbose" else common.count "verbose"
    command }

end TypeIgnore
