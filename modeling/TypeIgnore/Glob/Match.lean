import TypeIgnore.Glob.Syntax
import TypeIgnore.Text.Utf8

/-!
# Matching globs

A glob is matched against the whole of a text, byte by byte, so that a character outside ASCII is several bytes, also
inside a class. Matching carries marks along the text: one for the place before each byte and one for the end, true
where the pieces so far can stop. Each piece moves the marks once over the whole text.

* `takeByte`, `takeAny` — marks moved over one byte, and over any number of bytes;
* `Piece.move` — marks moved over a piece;
* `Glob.covers` — the end is marked after the last piece.
-/

namespace TypeIgnore

def slash : UInt8 := 0x2F

/-- The bytes that a range of characters allows: those of its two ends, and those between the last byte of the lower
end and the first byte of the upper one. -/
def rangeAllows (b : UInt8) (range : Char × Char) : Bool :=
  let low := Utf8.encode [range.1]
  let high := Utf8.encode [range.2]
  low.contains b || high.contains b ||
    (range.1 != range.2 && low.getLast?.any (· ≤ b) && high.head?.any (b ≤ ·))

/-! ## Void branches -/

mutual

/-- A group all of whose branches are void. -/
def Piece.isVoid : Piece → Bool
  | .group branches => areVoid branches
  | _ => false

/-- Without a piece that takes a byte. -/
def isVoid : List Piece → Bool
  | [] => true
  | p :: ps => p.isVoid && isVoid ps

def areVoid : List (List Piece) → Bool
  | [] => true
  | ps :: branches => isVoid ps && areVoid branches

end

/-! ## Marks -/

/-- Marks of places: one for the place before each byte of a text, and one for its end. -/
abbrev Marks := List Bool

namespace Marks

/-- Only the place before the first byte. -/
def start (bytes : List UInt8) : Marks := true :: bytes.map fun _ => false

/-- The places of either. -/
def either (a b : Marks) : Marks := List.zipWith (· || ·) a b

/-- The places one byte on, where `allowed` lets that byte pass. -/
def takeByte (bytes : List UInt8) (allowed : UInt8 → Bool) (marks : Marks) : Marks :=
  false :: List.zipWith (fun mark b => mark && allowed b) marks bytes

/-- All places from the first marked one on, if `before` is false. -/
def spread (before : Bool) : Marks → Marks
  | [] => []
  | mark :: marks => (before || mark) :: spread (before || mark) marks

/-- The places any number of bytes on. -/
def takeAny (marks : Marks) : Marks := spread false marks

/-- The places after a slash. -/
def takeSlash (bytes : List UInt8) (marks : Marks) : Marks := takeByte bytes (· == slash) marks

/-- The places after a slash and any steps that end in one. -/
def takeSteps (bytes : List UInt8) (marks : Marks) : Marks := either marks (takeSlash bytes (takeAny marks))

/-- The end of the text is marked. -/
def atEnd (marks : Marks) : Bool := marks.getLast?.getD false

end Marks

/-! ## Pieces -/

mutual

/-- The marks after a piece. Void branches of a group do not count unless all are void. -/
def Piece.move (bytes : List UInt8) : Piece → Marks → Marks
  | .literal c, marks => (Utf8.encode [c]).foldl (fun marks b => marks.takeByte bytes (· == b)) marks
  | .any, marks => marks.takeByte bytes fun _ => true
  | .star, marks => marks.takeAny
  | .leadingSteps, marks => marks.takeSteps bytes
  | .trailingSteps, marks => (marks.takeSlash bytes).takeAny
  | .innerSteps, marks => (marks.takeSlash bytes).takeSteps bytes
  | .oneOf negated ranges, marks => marks.takeByte bytes fun b => ranges.any (rangeAllows b) != negated
  | .group branches, marks =>
    if areVoid branches then marks else moveBranches bytes branches marks (marks.map fun _ => false)

/-- The marks after all of the pieces. -/
def movePieces (bytes : List UInt8) : List Piece → Marks → Marks
  | [], marks => marks
  | p :: ps, marks => movePieces bytes ps (p.move bytes marks)

/-- The marks after one of the branches, besides those in `done`. -/
def moveBranches (bytes : List UInt8) : List (List Piece) → Marks → Marks → Marks
  | [], _, done => done
  | ps :: branches, marks, done =>
    moveBranches bytes branches marks (if isVoid ps then done else done.either (movePieces bytes ps marks))

end

/-- The glob matches the whole text. `**` alone matches every text. -/
def Glob.covers (g : Glob) (t : Text) : Bool :=
  match g with
  | [.leadingSteps] => true
  | _ =>
    let bytes := Utf8.encode t
    (movePieces bytes g (.start bytes)).atEnd

/-- Some glob of the list matches. -/
def coversAny (globs : List Glob) (t : Text) : Bool := globs.any (·.covers t)

end TypeIgnore
