import TypeIgnore.Text.Utf8

/-!
# Plain text

A log is plain text: what would move the cursor or colour the screen of a terminal is left out. Such a sequence starts
with the escape character; what follows it says how far it goes.

* `EscapeState` — how far a sequence has come;
* `PlainReader.step` — one more character;
* `plain t` — the characters of `t` that are shown.
-/

namespace TypeIgnore

/-- Where in a sequence a character stands. -/
inductive EscapeState
  /-- In none. -/
  | ground
  /-- After the escape character. -/
  | escape
  /-- After the first characters of a short sequence, which one more character ends. -/
  | intermediate
  /-- In a control sequence, which a letter ends. -/
  | control
  /-- In a command to the system, which a bell ends. -/
  | command
  /-- At the start of a string for a device. -/
  | device
  | deviceParameter
  | deviceIntermediate
  /-- In a string for a device or a program. -/
  | data
  deriving DecidableEq, Repr

def escapeChar : Char := '\x1b'

/-- Between the two, both included. -/
def isBetween (first last c : Char) : Bool := first ≤ c && c ≤ last

/-- Control characters that end every sequence. -/
def isCancel (c : Char) : Bool := c == '\x18' || c == '\x1a'

/-- Control characters that are shown. -/
def isLayout (c : Char) : Bool := c == '\t' || c == '\n' || c == '\x0c' || c == '\r'

def isAscii (c : Char) : Bool := c.toNat < 128

namespace EscapeState

/-- After the character that follows the escape character. -/
def afterEscape (c : Char) : EscapeState :=
  if c == '[' then .control
  else if c == ']' then .command
  else if c == 'P' then .device
  else if c == 'X' || c == '^' || c == '_' then .data
  else if isBetween ' ' '/' c then .intermediate
  else if isBetween '0' '~' c then .ground
  else .escape

/-- After one more character of ASCII that neither starts nor ends every sequence. -/
def onAscii (s : EscapeState) (c : Char) : EscapeState :=
  match s with
  | .ground => .ground
  | .escape => afterEscape c
  | .intermediate => if isBetween '0' '~' c then .ground else .intermediate
  | .control => if isBetween '@' '~' c then .ground else .control
  | .command => if c == '\x07' then .ground else .command
  | .device =>
    if isBetween '@' '~' c then .data
    else if isBetween '0' '?' c then .deviceParameter
    else if isBetween ' ' '/' c then .deviceIntermediate
    else .device
  | .deviceParameter =>
    if isBetween '<' '~' c then .data else if isBetween ' ' '/' c then .deviceIntermediate else .deviceParameter
  | .deviceIntermediate => if isBetween '0' '~' c then .data else .deviceIntermediate
  | .data => .data

/-- The byte that ends a string for a device or a program. -/
def stringEnd : UInt8 := 0x9C

def next (s : EscapeState) (c : Char) : EscapeState :=
  if c == escapeChar then .escape
  else if isCancel c then .ground
  else if isAscii c then s.onAscii c
  else if s = .data && (Utf8.encode [c]).contains stringEnd then .ground
  else s

/-- The character is shown. -/
def shows (s : EscapeState) (c : Char) : Bool :=
  match s with
  | .ground => isLayout c || isBetween ' ' '~' c || !isAscii c
  | .escape | .intermediate | .control => isLayout c
  | _ => false

end EscapeState

/-- A sequence that layout interrupts goes on after the next control character that is not shown; `showing` says that
this one is still to come. -/
structure PlainReader where
  state : EscapeState := .ground
  showing : Bool := false
  deriving DecidableEq, Repr

namespace PlainReader

/-- The character `c` is shown. -/
def shows (r : PlainReader) (c : Char) : Bool := (if r.showing then .ground else r.state).shows c

def step (r : PlainReader) (c : Char) : PlainReader where
  showing := r.shows c
  state :=
    if r.showing && r.shows c then if isAscii c then r.state else .ground
    else r.state.next c

def read (r : PlainReader) : Text → Text
  | [] => []
  | c :: t => if r.shows c then c :: (r.step c).read t else (r.step c).read t

end PlainReader

/-- The text without sequences for a terminal. -/
def plain (t : Text) : Text := PlainReader.read {} t

end TypeIgnore
