import TypeIgnore.Source.Line

/-!
# Trailing comments

A trailing comment is a separator and a remark. The remark starts with a marker, `# type: ignore` or
`# type: ignore[codes]`, or it is a plain remark, which the checker does not look at.

* `marker? t` — the codes of the marker at the start of `t`, and the text after it;
* `TrailingComment.ofText` — a comment read; every text is one.
-/

namespace TypeIgnore

/-- The marker without codes, as it is written. -/
def markerText : Text := "# type: ignore"

/-- The words of a marker after its `#`; blanks may stand before each of them. -/
def markerWords : List Text := ["type", ":", "ignore"].map String.toList

/-- What follows `words` at the start of `t`, blanks before a word apart. -/
def afterWords? : (words : List Text) → Text → Option Text
  | [], t => some t
  | w :: words, t => (Text.after? w (Text.trimStart t)).bind (afterWords? words)

/-- The inside of the bracket at the start of `t`, blanks before it apart, and what follows it. A `#` before the
closing bracket leaves it no bracket. -/
def bracket? (t : Text) : Option (Text × Text) := do
  let t ← Text.after? "[" (Text.trimStart t)
  let inside (c : Char) := c != ']' && c != '#'
  let rest ← Text.after? "]" (t.dropWhile inside)
  return (t.takeWhile inside, rest)

/-- A marker ends at a blank, at a `#` or with the comment. -/
def endsMarker : Text → Bool
  | [] => true
  | c :: _ => Text.isBlank c || c == '#'

/-- The codes of the marker that `t` starts with, as written, and the text after the marker. -/
def marker? (t : Text) : Option (List Text × Text) := do
  let rest ← (Text.after? "#" t).bind (afterWords? markerWords)
  let (inside, trailer) := (bracket? rest).getD ([], rest)
  if endsMarker trailer then some (Text.commaList inside, trailer) else none

inductive Remark
  /-- A marker, blanket if it has no codes, and the text after it. -/
  | marker (codes : List Text) (trailer : Text)
  | plain (text : Text)
  deriving DecidableEq, Repr

structure TrailingComment where
  separator : Text
  remark : Remark
  deriving DecidableEq, Repr

namespace TrailingComment

def ofText (t : Text) : TrailingComment :=
  let body := t.dropWhile isSeparator
  { separator := t.takeWhile isSeparator
    remark := match marker? body with
      | some (codes, trailer) => .marker codes trailer
      | none => .plain body }

def hasMarker (c : TrailingComment) : Bool :=
  match c.remark with
  | .marker _ _ => true
  | .plain _ => false

/-- The codes of the marker. -/
def codes (c : TrailingComment) : List Text :=
  match c.remark with
  | .marker codes _ => codes
  | .plain _ => []

/-- The text after the marker. -/
def trailer (c : TrailingComment) : Text :=
  match c.remark with
  | .marker _ trailer => trailer
  | .plain _ => []

/-- The text of a plain remark. -/
def plainText (c : TrailingComment) : Text :=
  match c.remark with
  | .marker _ _ => []
  | .plain text => text

/-- A marker that silences every code. -/
def isBlanket (c : TrailingComment) : Bool := c.hasMarker && c.codes.isEmpty

end TrailingComment

end TypeIgnore
