/-!
# Text

A text is a list of characters, and its order is by code point, which is the order of its UTF-8 bytes.

* `isBlank` — the characters of the property White_Space;
* `trimStart`, `trimEnd`, `trim` — a text without the blanks at its ends;
* `spanEnd p t` — `t` cut before its longest ending that satisfies `p`;
* `after? lead t` — what follows `lead` at the start of `t`;
* `occursIn part t` — `part` stands somewhere in `t`;
* `splitOn sep t` — the pieces of `t` between the characters `sep`;
* `lines t` — the lines of `t`, without their line breaks.
-/

namespace TypeIgnore

abbrev Text := List Char

instance : Coe String Text := ⟨String.toList⟩

namespace Text

/-! ## Blanks -/

/-- The characters of the property White_Space. -/
def isBlank (c : Char) : Bool :=
  let n := c.toNat
  (0x09 ≤ n && n ≤ 0x0D) || n == 0x20 || n == 0x85 || n == 0xA0 || n == 0x1680 ||
    (0x2000 ≤ n && n ≤ 0x200A) || n == 0x2028 || n == 0x2029 || n == 0x202F || n == 0x205F || n == 0x3000

/-- `t` cut in two: the second part is the longest ending all of whose characters satisfy `p`. -/
def spanEnd (p : Char → Bool) : Text → Text × Text
  | [] => ([], [])
  | c :: t =>
    match spanEnd p t with
    | ([], ending) => if p c then ([], c :: ending) else ([c], ending)
    | (front, ending) => (c :: front, ending)

theorem spanEnd_append (p : Char → Bool) (t : Text) : (spanEnd p t).1 ++ (spanEnd p t).2 = t := by
  induction t with
  | nil => rfl
  | cons c t ih =>
    unfold spanEnd
    split
    · rename_i ending h
      rw [h] at ih
      split <;> simpa using ih
    · rename_i front ending _ h
      rw [h] at ih
      simpa using ih

def trimStart (t : Text) : Text := t.dropWhile isBlank

def trimEnd (t : Text) : Text := (spanEnd isBlank t).1

def trim (t : Text) : Text := trimEnd (trimStart t)

/-- All of `t` is blank. -/
def isAllBlank (t : Text) : Bool := t.all isBlank

theorem length_dropWhile_le (p : Char → Bool) (t : Text) : (t.dropWhile p).length ≤ t.length :=
  (List.dropWhile_sublist p).length_le

/-! ## Pieces -/

/-- What follows `lead`, if `t` starts with it. -/
def after? : (lead t : Text) → Option Text
  | [], t => some t
  | _ :: _, [] => none
  | l :: lead, c :: t => if c = l then after? lead t else none

theorem after?_eq_some_iff {lead t rest : Text} : after? lead t = some rest ↔ t = lead ++ rest := by
  induction lead generalizing t with
  | nil => simp [after?]
  | cons l lead ih =>
    cases t with
    | nil => simp [after?]
    | cons c t => by_cases h : c = l <;> simp [after?, h, ih]

def startsWith (t lead : Text) : Bool := (after? lead t).isSome

/-- `part` stands somewhere in the text. -/
def occursIn (part : Text) : Text → Bool
  | [] => part.isEmpty
  | c :: t => startsWith (c :: t) part || occursIn part t

/-- The pieces between the characters `sep`; there is one more of them than of `sep`. -/
def splitOn (sep : Char) : Text → List Text
  | [] => [[]]
  | c :: t =>
    match splitOn sep t with
    | [] => [[c]]
    | piece :: pieces => if c = sep then [] :: piece :: pieces else (c :: piece) :: pieces

/-- The pieces of a list written with commas: blanks around a piece and empty pieces do not count. -/
def commaList (t : Text) : List Text := ((splitOn ',' t).map trim).filter (!·.isEmpty)

/-- `pieces` with `sep` between them. -/
def joinWith (sep : Text) : List Text → Text
  | [] => []
  | [piece] => piece
  | piece :: pieces => piece ++ sep ++ joinWith sep pieces

/-- One carriage return less at the end. -/
def dropReturn (t : Text) : Text :=
  match t.getLast? with
  | some '\r' => t.dropLast
  | _ => t

/-- The lines of a text. A line ends at a line feed, and a carriage return just before it is no part of the
line; nothing after the last line feed is no line. -/
def lines (t : Text) : List Text :=
  let pieces := splitOn '\n' t
  let ended := pieces.dropLast.map dropReturn
  match pieces.getLast? with
  | some [] => ended
  | some rest => ended ++ [rest]
  | none => ended

/-- Each `\r` and `\n` becomes a space. -/
def flatten (t : Text) : Text := t.map fun c => if c = '\r' || c = '\n' then ' ' else c

/-- `\r\n` becomes `\n`. -/
def foldBreaks : Text → Text
  | [] => []
  | '\r' :: '\n' :: t => '\n' :: foldBreaks t
  | c :: t => c :: foldBreaks t

/-! ## Order -/

/-- Code point order, as a test for sorting. -/
def le (a b : Text) : Bool := !decide (b < a)

end Text

end TypeIgnore
