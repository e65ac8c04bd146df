import TypeIgnore.Source.Line

/-!
# The scanner

The scanner reads a line character by character and knows just enough of the grammar of Python to tell comments
from the contents of literals and to see where a statement goes on in the next line: literals with their
prefixes, triple quotes, replacement fields of formatted literals, brackets and backslashes.

* `Frame` — what the scanner is inside of: a literal, a replacement field of a literal, the format specification
  of a field;
* `Pending` — what the characters just read may still turn into;
* `step line s c` — the scanner after the character `c` of line `line`;
* `scanLine` — a whole line, cut before its trailing comment;
* `breakLine` — what a line break does, and why the statement is left open, if it is;
* `checkEnd` — what may not be open where the source ends.
-/

namespace TypeIgnore

/-! ## Errors -/

inductive LexErrorKind
  | unterminatedString
  | unterminatedTripleQuote
  | eofInStatement
  | afterContinuation
  | unmatchedBracket
  deriving DecidableEq, Repr

def LexErrorKind.message : LexErrorKind → Text
  | .unterminatedString => "unterminated string literal"
  | .unterminatedTripleQuote => "unterminated triple-quoted string literal"
  | .eofInStatement => "EOF in multi-line statement"
  | .afterContinuation => "unexpected character after line continuation character"
  | .unmatchedBracket => "unmatched closing bracket"

structure LexError where
  line : Nat
  kind : LexErrorKind
  deriving DecidableEq, Repr

/-! ## States -/

structure Literal where
  quote : Char
  triple : Bool
  /-- It has replacement fields. -/
  formatted : Bool
  startLine : Nat
  deriving DecidableEq, Repr

inductive Frame
  | literal (l : Literal)
  /-- An expression between braces, with `depth` brackets open in it. -/
  | field (depth : Nat)
  /-- What follows `:` in a field. -/
  | spec
  deriving DecidableEq, Repr

inductive Pending
  | nothing
  /-- A name, its letters in reverse: a quote may make it the prefix of a literal. -/
  | name (letters : Text)
  /-- One quote that opens a literal. -/
  | opened (quote : Char) (formatted : Bool)
  /-- Two quotes: an empty literal, or the start of a triple quote. -/
  | doubled (quote : Char) (formatted : Bool)
  /-- Quotes inside a triple-quoted literal. -/
  | closing (quotes : Nat)
  /-- A backslash inside a literal. -/
  | escape
  /-- An opening brace inside a formatted literal. -/
  | brace
  /-- A backslash in code. -/
  | backslash
  /-- A comment, up to the end of the line. -/
  | comment
  deriving DecidableEq, Repr

structure Scanner where
  /-- The innermost frame first. -/
  frames : List Frame
  /-- Brackets open outside all frames. -/
  depth : Nat
  pending : Pending
  deriving DecidableEq, Repr

namespace Scanner

/-- The scanner at the start of a source. -/
def start : Scanner := ⟨[], 0, .nothing⟩

/-! ## Characters -/

def isQuote (c : Char) : Bool := c == '\'' || c == '"'

def isOpening (c : Char) : Bool := c == '(' || c == '[' || c == '{'

def isClosing (c : Char) : Bool := c == ')' || c == ']' || c == '}'

def startsName (c : Char) : Bool := c.isAlpha || c == '_' || 0x80 ≤ c.toNat

def continuesName (c : Char) : Bool := c.isAlphanum || c == '_' || 0x80 ≤ c.toNat

/-- The prefixes of literals, in lower case. -/
def literalPrefixes : List Text :=
  ["r", "u", "b", "f", "t", "br", "rb", "fr", "rf", "tr", "rt"].map String.toList

/-- The prefix `letters` (reversed) makes a literal formatted. -/
def isFormatted (letters : Text) : Bool :=
  let lower := letters.reverse.map Char.toLower
  literalPrefixes.contains lower && lower.any fun c => c == 'f' || c == 't'

/-! ## One character -/

/-- The same scanner with nothing pending. -/
def settled (s : Scanner) : Scanner := { s with pending := .nothing }

def push (s : Scanner) (f : Frame) : Scanner := ⟨f :: s.frames, s.depth, .nothing⟩

/-- A bracket opens. -/
def openBracket (s : Scanner) : Scanner :=
  match s.frames with
  | .field depth :: below => ⟨.field (depth + 1) :: below, s.depth, .nothing⟩
  | frames => ⟨frames, s.depth + 1, .nothing⟩

/-- The bracket `c` closes: the brace of a field with no other bracket open ends the field. -/
def closeBracket (line : Nat) (s : Scanner) (c : Char) : Except LexError Scanner :=
  match s.frames with
  | .field 0 :: below => if c = '}' then .ok ⟨below, s.depth, .nothing⟩ else .error ⟨line, .unmatchedBracket⟩
  | .field (depth + 1) :: below => .ok ⟨.field depth :: below, s.depth, .nothing⟩
  | frames =>
    match s.depth with
    | 0 => .error ⟨line, .unmatchedBracket⟩
    | depth + 1 => .ok ⟨frames, depth, .nothing⟩

/-- The letters of the name that ends here, in reverse. -/
def letters (s : Scanner) : Text :=
  match s.pending with
  | .name letters => letters
  | _ => []

/-- A character of code. -/
def readCode (line : Nat) (s : Scanner) (c : Char) : Except LexError Scanner :=
  if c = '#' then .ok { s with pending := .comment }
  else if c = '\\' then .ok { s with pending := .backslash }
  else if isQuote c then .ok { s with pending := .opened c (isFormatted s.letters) }
  else if isOpening c then .ok s.openBracket
  else if isClosing c then s.closeBracket line c
  else if c = ':' then
    match s.frames with
    | .field 0 :: _ => .ok (s.push .spec)
    | _ => .ok s.settled
  else if startsName c || (continuesName c && !s.letters.isEmpty) then
    .ok { s with pending := .name (c :: s.letters) }
  else .ok s.settled

/-- How many quotes in a row have been read in a triple-quoted literal. -/
def quotes (s : Scanner) : Nat :=
  match s.pending with
  | .closing quotes => quotes
  | _ => 0

/-- A character inside the literal `l`. -/
def readLiteral (l : Literal) (below : List Frame) (s : Scanner) (c : Char) : Scanner :=
  if c = '\\' then { s with pending := .escape }
  else if c = l.quote then
    if !l.triple || s.quotes = 2 then ⟨below, s.depth, .nothing⟩
    else { s with pending := .closing (s.quotes + 1) }
  else if l.formatted && c = '{' then { s with pending := .brace }
  else s.settled

/-- A character of a format specification. The closing brace ends the field too. -/
def readSpec (below : List Frame) (s : Scanner) (c : Char) : Scanner :=
  if c = '{' then s.push (.field 0)
  else if c = '}' then ⟨below.drop 1, s.depth, .nothing⟩
  else s.settled

/-- A character with nothing pending that would change its meaning. -/
def read (line : Nat) (s : Scanner) (c : Char) : Except LexError Scanner :=
  match s.frames with
  | .literal l :: below => .ok (s.readLiteral l below c)
  | .spec :: below => .ok (s.readSpec below c)
  | _ => s.readCode line c

/-- The innermost frame is a formatted literal. -/
def inFormatted (s : Scanner) : Bool :=
  match s.frames with
  | .literal l :: _ => l.formatted
  | _ => false

/-- The scanner after the character `c` of line `line`. -/
def step (line : Nat) (s : Scanner) (c : Char) : Except LexError Scanner :=
  match s.pending with
  | .comment => .ok s
  | .backslash => .error ⟨line, .afterContinuation⟩
  | .escape => if s.inFormatted && (c = '{' || c = '}') then s.settled.read line c else .ok s.settled
  | .opened quote formatted =>
    if c = quote then .ok { s with pending := .doubled quote formatted }
    else (s.push (.literal ⟨quote, false, formatted, line⟩)).read line c
  | .doubled quote formatted =>
    if c = quote then .ok (s.push (.literal ⟨quote, true, formatted, line⟩))
    else s.settled.read line c
  | .brace => if c = '{' then .ok s.settled else (s.push (.field 0)).read line c
  | .nothing | .name _ | .closing _ => s.read line c

/-! ## A line -/

/-- A comment outside all frames: the trailing comment of the line. -/
def inTrailingComment (s : Scanner) : Bool := s.pending == .comment && s.frames.isEmpty

/-- Reads the line `line`, and cuts it before the `#` of its trailing comment. -/
def scanLine (line : Nat) (s : Scanner) : Text → Except LexError (Scanner × Text × Text)
  | [] => .ok (s, [], [])
  | c :: t => do
    let s ← s.step line c
    if s.inTrailingComment then .ok (s, [], c :: t)
    else
      let (s, code, comment) ← scanLine line s t
      .ok (s, c :: code, comment)

end Scanner

/-! ## Line ends -/

/-- Why a statement goes on in the next line. -/
inductive RegionKind
  /-- A backslash, or an open bracket. -/
  | continuation
  /-- A literal that holds the line break. -/
  | multilineLiteral
  deriving DecidableEq, Repr

namespace Scanner

/-- Why the statement is open after a line break, a backslash before it being `continued`. -/
def leftOpen (continued : Bool) (s : Scanner) : Option RegionKind :=
  if s.depth > 0 || continued then some .continuation
  else if s.frames.isEmpty then none
  else some .multilineLiteral

/-- A line break after line `line`. Only a triple-quoted literal may hold one that no backslash precedes. -/
def breakLine (line : Nat) (s : Scanner) : Except LexError (Scanner × Option RegionKind) :=
  let done (t : Scanner) (continued : Bool) := Except.ok (t, t.leftOpen continued)
  match s.pending with
  | .escape => done s.settled false
  | .opened _ _ => .error ⟨line, .unterminatedString⟩
  | .brace => done (s.push (.field 0)) false
  | .backslash => done s.settled s.frames.isEmpty
  | _ =>
    match s.frames with
    | .literal l :: _ => if l.triple then done s.settled false else .error ⟨l.startLine, .unterminatedString⟩
    | _ => done s.settled false

/-- The innermost literal. -/
def innermostLiteral? : List Frame → Option Literal
  | [] => none
  | .literal l :: _ => some l
  | _ :: frames => innermostLiteral? frames

/-- The source ends in line `line`: no literal and no bracket may be open. -/
def checkEnd (line : Nat) (s : Scanner) : Except LexError Unit :=
  match s.pending with
  | .backslash => .error ⟨line, .afterContinuation⟩
  | .opened _ _ => .error ⟨line, .unterminatedString⟩
  | _ =>
    match innermostLiteral? s.frames with
    | some l => .error ⟨l.startLine, if l.triple then .unterminatedTripleQuote else .unterminatedString⟩
    | none => if s.depth > 0 then .error ⟨line, .eofInStatement⟩ else .ok ()

end Scanner

end TypeIgnore
