import TypeIgnore.Diagnostic.Basic

/-!
# Report entries

An entry is a line `path:line[:col][:endLine:endCol]: error: message  [code]`, or `note` in place of `error` and
no code. Two numbers after the line number are the end position; one is the column.

* `RawEntry.ofText?` — the parts of an entry as written;
* `Entry.ofText?` — the entry, its numbers read: a line number of 32 bits is needed, other numbers that do not
  fit are dropped.
-/

namespace TypeIgnore

inductive EntryKind
  | error
  | note
  deriving DecidableEq, Repr

/-- The parts of an entry, as written. -/
structure RawEntry where
  path : Text
  line : Text
  col : Option Text
  ending : Option (Text × Text)
  kind : EntryKind
  message : Text
  deriving DecidableEq, Repr

namespace RawEntry

def isPathChar (c : Char) : Bool := c != ':' && c != '\r' && c != '\n'

/-- The path that `t` starts with, and the text from the colon after it on. -/
def path? (t : Text) : Option (Text × Text) :=
  match t.takeWhile isPathChar, t.dropWhile isPathChar with
  | c :: path, ':' :: rest => some (c :: path, ':' :: rest)
  | _, _ => none

/-- The same for a path with a drive letter in front. -/
def drivePath? : Text → Option (Text × Text)
  | letter :: ':' :: t =>
    if letter.isAlpha then (path? t).map fun (path, rest) => (letter :: ':' :: path, rest) else none
  | _ => none

/-- At most `count` numbers, each after a colon, and what follows them. -/
def numbers : (count : Nat) → Text → List Text × Text
  | count + 1, ':' :: t =>
    match t.takeWhile Text.isDigit with
    | [] => ([], ':' :: t)
    | digits =>
      let (more, rest) := numbers count (t.dropWhile Text.isDigit)
      (digits :: more, rest)
  | _, t => ([], t)

/-- The kind and the message at the start of `t`. -/
def message? (t : Text) : Option (EntryKind × Text) :=
  match Text.after? ": error: " t, Text.after? ": note: " t with
  | some message, _ => some (.error, message)
  | none, some message => some (.note, message)
  | none, none => none

/-- The entry with the path `path` whose other parts are `t`. -/
def ofParts? (path t : Text) : Option RawEntry := do
  let (ns, rest) := numbers 4 t
  let (kind, message) ← message? rest
  match ns with
  | [line] => some ⟨path, line, none, none, kind, message⟩
  | [line, col] => some ⟨path, line, some col, none, kind, message⟩
  | [line, endLine, endCol] => some ⟨path, line, none, some (endLine, endCol), kind, message⟩
  | [line, col, endLine, endCol] => some ⟨path, line, some col, some (endLine, endCol), kind, message⟩
  | _ => none

/-- The parts of the entry that the line `t` is. A path with a drive letter comes first. -/
def ofText? (t : Text) : Option RawEntry :=
  match (drivePath? t).bind fun (path, rest) => ofParts? path rest with
  | some entry => some entry
  | none => (path? t).bind fun (path, rest) => ofParts? path rest

end RawEntry

/-! ## Codes -/

/-- A message cut before the blanks and the code in brackets that it ends with. -/
def splitCode (message : Text) : Text × Option Text :=
  let (front, code) := Text.spanEnd isCodeChar message.dropLast
  let before := front.dropLast
  if message.getLast? = some ']' && front.getLast? = some '[' && code.head?.any startsCode &&
      before.getLast?.any Text.isBlank then
    (Text.trimEnd before, some code)
  else (message, none)

/-! ## Entries -/

inductive Entry
  | error (d : Diagnostic)
  | note (path : ReportPath) (line : Nat) (text : Text)
  deriving DecidableEq, Repr

namespace Entry

/-- The diagnostic of an error entry. Without a code, a message that starts so is a syntax error. -/
def diagnostic (raw : RawEntry) (line : Nat) : Diagnostic :=
  let (text, code) := splitCode (Text.trim raw.message)
  let ending := raw.ending.bind fun (endLine, endCol) => do return (← Text.word? endLine, ← Text.word? endCol)
  let d : Diagnostic :=
    { path := ReportPath.ofText (Text.trim raw.path)
      line
      col := raw.col.bind Text.word?
      endLine := ending.map (·.1)
      endCol := ending.map (·.2)
      message := text }
  match code with
  | some code => d.withCode code
  | none => if Text.startsWith text "invalid syntax" then { d with severity := .syntaxError } else d

def ofText? (t : Text) : Option Entry := do
  let raw ← RawEntry.ofText? t
  let line ← Text.word? raw.line
  match raw.kind with
  | .error => return .error (diagnostic raw line)
  | .note => return .note (ReportPath.ofText (Text.trim raw.path)) line (Text.trim raw.message)

end Entry

end TypeIgnore
