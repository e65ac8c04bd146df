import TypeIgnore.Text.Number

/-!
# Arguments

Options and other arguments as they stand on a command line. An option is `--name value`, `--name=value`, `-n value`,
`-nvalue` or `-n=value`; options without value can share one dash; after `--` nothing is an option. A value that
starts with a dash needs the form with `=`.

* `OptionSpec` — an option that there is;
* `Grammar` — the arguments that may be given;
* `Arguments` — those that were given;
* `Grammar.read` — arguments read, up to the name of a command.
-/

namespace TypeIgnore

/-- The values of an option or of another argument. -/
inductive ValueKind
  /-- It has no value. -/
  | none
  | text
  | oneOf (values : List Text)
  /-- Below `2 ^ 64`; a plus sign may stand before it. -/
  | number
  deriving DecidableEq, Repr

/-- A number below `2 ^ 64`. -/
def readNumber? (t : Text) : Option Nat := Text.natBelow? (Nat.pow 2 64) ((Text.after? "+" t).getD t)

def ValueKind.allows (kind : ValueKind) (value : Text) : Bool :=
  match kind with
  | .none => value.isEmpty
  | .text => true
  | .oneOf values => values.contains value
  | .number => (readNumber? value).isSome

structure OptionSpec where
  long : Text
  short : Option Char := none
  kind : ValueKind := .text
  /-- May be given more than once. -/
  repeatable : Bool := false
  deriving DecidableEq, Repr

def OptionSpec.takesValue (s : OptionSpec) : Bool := s.kind != .none

/-- Why reading ends without a command. -/
inductive Stop
  | usage
  | version
  | help
  deriving DecidableEq, Repr

def helpOption : OptionSpec := { long := "help", short := some 'h', kind := .none }

def versionOption : OptionSpec := { long := "version", short := some 'V', kind := .none }

structure Arguments where
  /-- Names and values in order; the value of an option without value is empty. -/
  options : List (Text × Text) := []
  /-- What is no option. -/
  others : List Text := []
  deriving DecidableEq, Repr

namespace Arguments

def values (a : Arguments) (name : Text) : List Text := (a.options.filter (·.1 == name)).map (·.2)

def value? (a : Arguments) (name : Text) : Option Text := a.options.lookup name

def count (a : Arguments) (name : Text) : Nat := (a.values name).length

def has (a : Arguments) (name : Text) : Bool := a.count name != 0

/-- One more option. Asking for help or for the version ends the reading. -/
def add (a : Arguments) (spec : OptionSpec) (value : Text) : Except Stop Arguments :=
  if spec = helpOption then .error .help
  else if spec = versionOption then .error .version
  else if !spec.repeatable && a.has spec.long then .error .usage
  else if spec.kind.allows value then .ok { a with options := a.options ++ [(spec.long, value)] }
  else .error .usage

end Arguments

/-- The arguments of a command. -/
structure Grammar where
  options : List OptionSpec
  /-- How many arguments that are no options it takes; `none` for any number. -/
  maxOthers : Option Nat := some 0
  /-- What those can be. -/
  otherKind : ValueKind := .text
  /-- The names of the commands that can follow. -/
  commands : List Text := []

namespace Grammar

/-- The arguments, and an option that still needs its value. -/
abbrev Pending := Arguments × Option OptionSpec

/-- The options after one dash. -/
def readShort (g : Grammar) (a : Arguments) : Text → Except Stop Pending
  | [] => .ok (a, none)
  | c :: rest =>
    match g.options.find? (·.short == some c) with
    | none => .error .usage
    | some spec =>
      if spec.takesValue then
        match rest with
        | [] => .ok (a, some spec)
        | '=' :: value => do return (← a.add spec value, none)
        | value => do return (← a.add spec value, none)
      else do g.readShort (← a.add spec []) rest

/-- The option after two dashes. -/
def readLong (g : Grammar) (a : Arguments) (t : Text) : Except Stop Pending :=
  let isNameChar (c : Char) := c != '='
  match g.options.find? (·.long == t.takeWhile isNameChar), t.dropWhile isNameChar with
  | none, _ => .error .usage
  | some spec, [] => if spec.takesValue then .ok (a, some spec) else do return (← a.add spec [], none)
  | some spec, _ :: value => if spec.takesValue then do return (← a.add spec value, none) else .error .usage

/-- Arguments that are no options. -/
def addOthers (g : Grammar) (a : Arguments) (ts : List Text) : Except Stop Arguments :=
  let others := a.others ++ ts
  if g.maxOthers.all (others.length ≤ ·) && ts.all g.otherKind.allows then .ok { a with others } else .error .usage

/-- The arguments up to a command, whose name and arguments are given apart. -/
def readFrom (g : Grammar) (pending : Pending) :
    List Text → Except Stop (Arguments × Option (Text × List Text))
  | [] => if pending.2.isSome then .error .usage else .ok (pending.1, none)
  | t :: ts =>
    match t, pending with
    | '-' :: c :: rest, (a, none) =>
      if c = '-' then
        if rest.isEmpty then do return (← g.addOthers a ts, none)
        else do g.readFrom (← g.readLong a rest) ts
      else do g.readFrom (← g.readShort a (c :: rest)) ts
    | '-' :: _ :: _, (_, some _) => .error .usage
    | t, (a, some spec) => do g.readFrom (← a.add spec t, none) ts
    | t, (a, none) =>
      if g.commands.contains t then .ok (a, some (t, ts))
      else do g.readFrom (← g.addOthers a [t], none) ts

def read (g : Grammar) (ts : List Text) : Except Stop (Arguments × Option (Text × List Text)) :=
  g.readFrom ({}, none) ts

end Grammar

end TypeIgnore
