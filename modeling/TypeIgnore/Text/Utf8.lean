import TypeIgnore.Text.Basic

/-!
# UTF-8

* `encode t` — the bytes of a text;
* `pieces bs` — the characters of `bs` in order, `none` for each longest start of a character that is not
  completed and for each byte that starts none;
* `decode? bs` — the text of `bs`, if every piece is a character;
* `decodeLossy bs` — every piece that is no character becomes U+FFFD.
-/

namespace TypeIgnore.Utf8

def encode (t : Text) : List UInt8 := t.flatMap String.utf8EncodeChar

/-- For a first byte of a longer character: its bits, and the ranges the other bytes must lie in. -/
def lead? (b : UInt8) : Option (Nat × List (UInt8 × UInt8)) :=
  let follow : UInt8 × UInt8 := (0x80, 0xBF)
  if 0xC2 ≤ b && b ≤ 0xDF then some (b.toNat - 0xC0, [follow])
  else if b == 0xE0 then some (0, [(0xA0, 0xBF), follow])
  else if b == 0xED then some (0xD, [(0x80, 0x9F), follow])
  else if 0xE1 ≤ b && b ≤ 0xEF then some (b.toNat - 0xE0, [follow, follow])
  else if b == 0xF0 then some (0, [(0x90, 0xBF), follow, follow])
  else if 0xF1 ≤ b && b ≤ 0xF3 then some (b.toNat - 0xF0, [follow, follow, follow])
  else if b == 0xF4 then some (4, [(0x80, 0x8F), follow, follow])
  else none

/-- Reads one byte for each range as long as they fit, and gives the bytes not read. -/
def follow : List (UInt8 × UInt8) → Nat → List UInt8 → Option Nat × List UInt8
  | [], bits, bs => (some bits, bs)
  | _ :: _, _, [] => (none, [])
  | (low, high) :: ranges, bits, b :: bs =>
    if low ≤ b && b ≤ high then follow ranges (64 * bits + (b.toNat - 0x80)) bs else (none, b :: bs)

theorem length_follow_le (ranges : List (UInt8 × UInt8)) (bits : Nat) (bs : List UInt8) :
    (follow ranges bits bs).2.length ≤ bs.length := by
  fun_induction follow ranges bits bs with
  | case1 => exact Nat.le_refl _
  | case2 => exact Nat.le_refl _
  | case3 _ _ _ _ b bs _ ih => exact Nat.le_succ_of_le ih
  | case4 => exact Nat.le_refl _

/-- The piece that starts with `b`, and the bytes after it. -/
def next (b : UInt8) (bs : List UInt8) : Option Char × List UInt8 :=
  if b < 0x80 then (some (Char.ofNat b.toNat), bs)
  else
    match lead? b with
    | none => (none, bs)
    | some (bits, ranges) => ((follow ranges bits bs).1.map Char.ofNat, (follow ranges bits bs).2)

theorem length_next_le (b : UInt8) (bs : List UInt8) : (next b bs).2.length ≤ bs.length := by
  unfold next
  split
  · exact Nat.le_refl _
  · split
    · exact Nat.le_refl _
    · exact length_follow_le _ _ _

def pieces : List UInt8 → List (Option Char)
  | [] => []
  | b :: bs => (next b bs).1 :: pieces (next b bs).2
termination_by bs => bs.length
decreasing_by exact Nat.lt_succ_of_le (length_next_le b bs)

def decode? (bs : List UInt8) : Option Text := (pieces bs).mapM id

def decodeLossy (bs : List UInt8) : Text := (pieces bs).map (·.getD '\uFFFD')

end TypeIgnore.Utf8
