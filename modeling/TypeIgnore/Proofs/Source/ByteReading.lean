import TypeIgnore.Proofs.Source.ByteScanner
import TypeIgnore.Proofs.Text.Utf8

/-!
# What bytes show of their characters

Seen byte by byte, an ASCII character is itself, and any other one is a few bytes that are all letters to the scanner.
So nothing is mistaken for something else, and a position that stands at a character sees it, or a letter in its place.

* `isWide c` — `c` is outside ASCII, and takes several bytes;
* `Alike c x` — `x` can be read in the place of `c`: all that matters to the scanner is the same of the two;
* `Shows bytes i t` — from place `i` on, the bytes are those of `t`;
* `Shows.starts`, `Shows.peek_eq_iff`, `Shows.skip`, `Shows.bytesBetween` — what is then found;
* `isFormatted_reverse` — the prefix of a literal is known by its bytes.
-/

namespace TypeIgnore

open Scanner (isQuote isOpening isClosing startsName continuesName literalPrefixes isFormatted)

/-! ## Wide characters -/

/-- A character outside ASCII: it takes several bytes. -/
def isWide (c : Char) : Bool := 0x80 ≤ c.toNat

section Wide

variable {c x y : Char}

theorem ne_of_isWide (hc : isWide c = true) (hy : isWide y = false) : c ≠ y := by
  rintro rfl
  rw [hy] at hc
  cases hc

theorem not_isBreak_of_isWide (h : isWide c = true) : isBreak c = false := by
  simp [isBreak, ne_of_isWide h (y := '\n') rfl, ne_of_isWide h (y := '\r') rfl]

theorem not_isQuote_of_isWide (h : isWide c = true) : isQuote c = false := by
  simp [isQuote, ne_of_isWide h (y := '\'') rfl, ne_of_isWide h (y := '"') rfl]

theorem not_isOpening_of_isWide (h : isWide c = true) : isOpening c = false := by
  simp [isOpening, ne_of_isWide h (y := '(') rfl, ne_of_isWide h (y := '[') rfl, ne_of_isWide h (y := '{') rfl]

theorem not_isClosing_of_isWide (h : isWide c = true) : isClosing c = false := by
  simp [isClosing, ne_of_isWide h (y := ')') rfl, ne_of_isWide h (y := ']') rfl, ne_of_isWide h (y := '}') rfl]

theorem startsName_of_isWide (h : isWide c = true) : startsName c = true := by
  rw [startsName, Bool.or_eq_true]
  exact .inr h

theorem continuesName_of_isWide (h : isWide c = true) : continuesName c = true :=
  Scanner.continuesName_of_startsName (startsName_of_isWide h)

theorem isWide_eq_false {p : Char → Bool} (hp : ∀ y, isWide y = true → p y = false) (h : p c = true) :
    isWide c = false := by
  rw [Bool.eq_false_iff]
  intro hc
  rw [hp c hc] at h
  cases h

theorem isWide_of_isQuote (h : isQuote c = true) : isWide c = false :=
  isWide_eq_false (fun _ => not_isQuote_of_isWide) h

theorem isWide_of_isBreak (h : isBreak c = true) : isWide c = false :=
  isWide_eq_false (fun _ => not_isBreak_of_isWide) h

theorem isWide_of_isOpening (h : isOpening c = true) : isWide c = false :=
  isWide_eq_false (fun _ => not_isOpening_of_isWide) h

theorem isWide_of_isClosing (h : isClosing c = true) : isWide c = false :=
  isWide_eq_false (fun _ => not_isClosing_of_isWide) h

/-- The byte that is read as `x` can be the first of `c`. -/
def Alike (c x : Char) : Prop := x = c ∨ isWide c = true ∧ isWide x = true

theorem Alike.eq_iff (h : Alike c x) (hy : isWide y = false) : x = y ↔ c = y := by
  rcases h with rfl | ⟨hc, hx⟩
  · rfl
  · exact iff_of_false (ne_of_isWide hx hy) (ne_of_isWide hc hy)

/-- A test that treats all wide characters alike. -/
theorem Alike.test_eq {p : Char → Bool} {value : Bool} (h : Alike c x) (hp : ∀ y, isWide y = true → p y = value) :
    p x = p c := by
  rcases h with rfl | ⟨hc, hx⟩
  · rfl
  · rw [hp c hc, hp x hx]

end Wide

theorem toNat_ofUInt8 {n : Nat} (h : n < 0x100) : (Char.ofUInt8 (UInt8.ofNat n)).toNat = n := by
  have hbyte : (Char.ofUInt8 (UInt8.ofNat n)).toNat = (UInt8.ofNat n).toNat := rfl
  rw [hbyte, UInt8.toNat_ofNat', Nat.mod_eq_of_lt h]

theorem isWide_ofUInt8 {n : Nat} (hlow : 0x80 ≤ n) (hhigh : n < 0x100) :
    isWide (Char.ofUInt8 (UInt8.ofNat n)) = true := by
  rw [isWide, toNat_ofUInt8 hhigh]
  exact decide_eq_true hlow

/-- A first byte of several, and the others. -/
theorem wide_bytes {c : Char} {n : Nat} (ns : List Nat) (hc : isWide c = true) (hlow : 0xC0 ≤ n) (hhigh : n < 0x100)
    (hns : ∀ m ∈ ns, 0x80 ≤ m ∧ m < 0x100) :
    Alike c (Char.ofUInt8 (UInt8.ofNat n)) ∧ (UInt8.ofNat n < 0x80 ∨ 0xC0 ≤ UInt8.ofNat n) ∧
      (∀ b ∈ ns.map UInt8.ofNat, isWide (Char.ofUInt8 b) = true) ∧ (isWide c = false → ns.map UInt8.ofNat = []) := by
  refine ⟨.inr ⟨hc, isWide_ofUInt8 (by omega) hhigh⟩, .inr ?_, ?_, fun h => absurd (hc.symm.trans h) (by decide)⟩
  · rw [UInt8.le_iff_toNat_le, UInt8.toNat_ofNat', Nat.mod_eq_of_lt hhigh]
    exact hlow
  · intro b hb
    obtain ⟨m, hm, rfl⟩ := List.mem_map.1 hb
    exact isWide_ofUInt8 (hns m hm).1 (hns m hm).2

/-- The first byte of a character, and the others. -/
theorem exists_utf8EncodeChar (c : Char) : ∃ b bs, String.utf8EncodeChar c = b :: bs ∧ Alike c (Char.ofUInt8 b) ∧
    (b < 0x80 ∨ 0xC0 ≤ b) ∧ (∀ b' ∈ bs, isWide (Char.ofUInt8 b') = true) ∧ (isWide c = false → bs = []) := by
  have hval : c.val.toNat = c.toNat := rfl
  unfold String.utf8EncodeChar
  simp only [hval]
  split
  · rename_i hv
    have hnat : (Char.ofUInt8 (UInt8.ofNat c.toNat)).toNat = c.toNat := toNat_ofUInt8 (by omega)
    refine ⟨_, [], rfl, .inl ?_, .inl ?_, by simp, fun _ => rfl⟩
    · rw [← Char.ofNat_toNat (Char.ofUInt8 _), hnat, Char.ofNat_toNat]
    · rw [UInt8.lt_iff_toNat_lt, UInt8.toNat_ofNat', Nat.mod_eq_of_lt (by omega)]
      exact Nat.lt_succ_of_le hv
  have hwide : isWide c = true := by
    rw [isWide, decide_eq_true_eq]
    omega
  split
  · exact ⟨_, _, rfl, wide_bytes [c.toNat % 0x40 + 0x80] hwide (by omega) (by omega) (by simp; omega)⟩
  split
  · exact ⟨_, _, rfl, wide_bytes [c.toNat / 64 % 0x40 + 0x80, c.toNat % 0x40 + 0x80] hwide (by omega) (by omega)
      (by simp; omega)⟩
  · exact ⟨_, _, rfl, wide_bytes [c.toNat / 4096 % 0x40 + 0x80, c.toNat / 64 % 0x40 + 0x80,
      c.toNat % 0x40 + 0x80] hwide (by omega) (by omega) (by simp; omega)⟩

/-- The last byte of a character is seen as well as the first. -/
theorem exists_utf8EncodeChar_concat (c : Char) :
    ∃ bs b, String.utf8EncodeChar c = bs ++ [b] ∧ Alike c (Char.ofUInt8 b) := by
  obtain ⟨b, bs, hbytes, halike, -, hhigh, hnarrow⟩ := exists_utf8EncodeChar c
  rcases List.eq_nil_or_concat bs with rfl | ⟨bs', b', rfl⟩
  · exact ⟨[], b, hbytes, halike⟩
  · refine ⟨b :: bs', b', by rw [hbytes, List.concat_eq_append, List.cons_append], .inr ⟨?_, hhigh b' (by simp)⟩⟩
    by_contra hc
    rw [Bool.not_eq_true] at hc
    simpa using hnarrow hc

/-! ## Places -/

/-- From place `i` on, the bytes are those of `t`. -/
def Shows (bytes : List UInt8) (i : Nat) (t : Text) : Prop := bytes.drop i = Utf8.encode t

/-- At place `i` stands the character `c`: its first byte is read as `x`, the others are `cs`, and `t` follows. -/
structure Starts (bytes : List UInt8) (i : Nat) (c : Char) (t : Text) (x : Char) (cs : List UInt8) : Prop where
  byteAt : byteAt bytes i = .ok x
  alike : Alike c x
  drop : bytes.drop (i + 1) = cs ++ Utf8.encode t
  high : ∀ b ∈ cs, isWide (Char.ofUInt8 b) = true
  width : width c = cs.length + 1
  narrow : isWide c = false → cs = []

theorem encode_cons (c : Char) (t : Text) : Utf8.encode (c :: t) = String.utf8EncodeChar c ++ Utf8.encode t :=
  List.flatMap_cons

theorem encode_append (t u : Text) : Utf8.encode (t ++ u) = Utf8.encode t ++ Utf8.encode u := List.flatMap_append

/-- A test that treats all wide characters alike holds of the bytes if it holds of the characters. -/
theorem test_of_mem_encode {p : Char → Bool} {value : Bool} {w : Text} (hwide : ∀ c, isWide c = true → p c = value)
    (hw : ∀ c ∈ w, p c = value) : ∀ b ∈ Utf8.encode w, p (Char.ofUInt8 b) = value := by
  intro b hb
  obtain ⟨c, hc, hb⟩ := List.mem_flatMap.1 hb
  obtain ⟨first, bs, hbytes, halike, -, hhigh, -⟩ := exists_utf8EncodeChar c
  rw [hbytes] at hb
  rcases List.mem_cons.1 hb with rfl | hb
  · rw [halike.test_eq hwide]
    exact hw c hc
  · exact hwide _ (hhigh b hb)

theorem length_encode_cons (c : Char) (t : Text) :
    (Utf8.encode (c :: t)).length = width c + (Utf8.encode t).length := by
  rw [encode_cons, List.length_append, width]

theorem length_encode_append (t u : Text) :
    (Utf8.encode (t ++ u)).length = (Utf8.encode t).length + (Utf8.encode u).length := by
  rw [encode_append, List.length_append]

/-- The last byte of a text. -/
theorem exists_encode_concat (t : Text) (c : Char) : ∃ bs b, Utf8.encode (t ++ [c]) = bs ++ [b] ∧
    Alike c (Char.ofUInt8 b) := by
  obtain ⟨bs, b, hbytes, halike⟩ := exists_utf8EncodeChar_concat c
  refine ⟨Utf8.encode t ++ bs, b, ?_, halike⟩
  rw [encode_append, encode_cons, hbytes, List.append_assoc]
  simp [Utf8.encode]

theorem lt_of_drop_eq_cons {bytes bs : List UInt8} {i : Nat} {b : UInt8} (h : bytes.drop i = b :: bs) :
    i < bytes.length := by
  by_contra hle
  rw [List.drop_eq_nil_of_le (by omega)] at h
  cases h

theorem getElem?_of_drop {bytes bs : List UInt8} {i : Nat} {b : UInt8} (h : bytes.drop i = b :: bs) :
    bytes[i]? = some b := by
  have hhead : (bytes.drop i)[0]? = some b := by rw [h]; rfl
  rwa [List.getElem?_drop] at hhead

theorem drop_succ_of_drop {bytes bs : List UInt8} {i : Nat} {b : UInt8} (h : bytes.drop i = b :: bs) :
    bytes.drop (i + 1) = bs := by
  rw [← List.drop_drop, h]
  rfl

theorem byteAt_of_drop {bytes bs : List UInt8} {i : Nat} {b : UInt8} (h : bytes.drop i = b :: bs) :
    byteAt bytes i = .ok (Char.ofUInt8 b) := by
  rw [byteAt, getElem?_of_drop h]

namespace Shows

variable {bytes : List UInt8} {i j : Nat} {t w : Text} {c y : Char}

theorem self (t : Text) : Shows (Utf8.encode t) 0 t := rfl

theorem length (h : Shows bytes i t) : bytes.length - i = (Utf8.encode t).length := by
  rw [← List.length_drop, h]

theorem place_eq (h : Shows bytes i t) (h' : Shows bytes j t) (hi : i ≤ bytes.length) (hj : j ≤ bytes.length) :
    i = j := by
  have hlength := h.length
  have hlength' := h'.length
  omega

theorem append_le (h : Shows bytes i (w ++ t)) (hle : i ≤ bytes.length) :
    i + (Utf8.encode w).length ≤ bytes.length := by
  have hlength := h.length
  rw [encode_append, List.length_append] at hlength
  omega

theorem le (h : Shows bytes i []) : bytes.length ≤ i := List.drop_eq_nil_iff.1 h

theorem append (h : Shows bytes i (w ++ t)) : Shows bytes (i + (Utf8.encode w).length) t := by
  rw [Shows, encode_append] at h
  rw [Shows, ← List.drop_drop, h, List.drop_left]

theorem starts (h : Shows bytes i (c :: t)) : ∃ x cs, Starts bytes i c t x cs := by
  obtain ⟨b, bs, hbytes, halike, -, hhigh, hnarrow⟩ := exists_utf8EncodeChar c
  rw [Shows, encode_cons, hbytes, List.cons_append] at h
  refine ⟨_, bs, byteAt_of_drop h, halike, drop_succ_of_drop h, hhigh, ?_, hnarrow⟩
  rw [width, hbytes, List.length_cons]

theorem lt (h : Shows bytes i (c :: t)) : i < bytes.length := by
  obtain ⟨b, bs, hbytes, -⟩ := exists_utf8EncodeChar c
  rw [Shows, encode_cons, hbytes, List.cons_append] at h
  exact lt_of_drop_eq_cons h

/-- An ASCII character is its only byte. -/
theorem narrow (h : Shows bytes i (c :: t)) (hc : isWide c = false) :
    byteAt bytes i = .ok c ∧ Shows bytes (i + 1) t ∧ width c = 1 := by
  obtain ⟨x, cs, hstarts⟩ := h.starts
  have hx : x = c := (hstarts.alike.eq_iff hc).2 rfl
  have hcs := hstarts.narrow hc
  subst hx hcs
  exact ⟨hstarts.byteAt, hstarts.drop, hstarts.width⟩

theorem peek_alike (h : Shows bytes i (c :: t)) : Alike c (peek bytes i) := by
  obtain ⟨b, bs, hbytes, halike, -⟩ := exists_utf8EncodeChar c
  rw [Shows, encode_cons, hbytes, List.cons_append] at h
  rw [peek, getElem?_of_drop h]
  exact halike

theorem peek_nil (h : Shows bytes i []) : peek bytes i = '\x00' := by
  rw [peek, List.getElem?_eq_none h.le]
  rfl

theorem peek_eq_iff (h : Shows bytes i t) (hy : isWide y = false) (hnull : y ≠ '\x00') :
    peek bytes i = y ↔ t.head? = some y := by
  cases t with
  | nil =>
    rw [h.peek_nil]
    exact iff_of_false hnull.symm (by simp)
  | cons c t => rw [h.peek_alike.eq_iff hy, List.head?_cons, Option.some_inj]

theorem isBreak_peek (h : Shows bytes i t) : isBreak (peek bytes i) = t.head?.any isBreak := by
  cases t with
  | nil =>
    rw [h.peek_nil]
    rfl
  | cons c t => exact h.peek_alike.test_eq fun _ => not_isBreak_of_isWide

/-- A run of bytes ends with the characters. -/
theorem skip {p : Char → Bool} (h : Shows bytes i (w ++ t)) (hwide : ∀ c, isWide c = true → p c = true)
    (hw : ∀ c ∈ w, p c = true) (ht : ∀ c, t.head? = some c → p c = false) :
    skip bytes p i = .ok (i + (Utf8.encode w).length) := by
  rw [skip_eq, h, encode_append]
  have hstop : (Utf8.encode t).takeWhile (fun b => p (Char.ofUInt8 b)) = [] := by
    cases t with
    | nil => rfl
    | cons c t =>
      obtain ⟨b, bs, hbytes, halike, -⟩ := exists_utf8EncodeChar c
      rw [encode_cons, hbytes, List.cons_append, List.takeWhile_cons_of_neg]
      rw [halike.test_eq hwide, ht c rfl]
      exact Bool.false_ne_true
  rw [List.takeWhile_append_of_pos (test_of_mem_encode hwide hw), hstop, List.append_nil]

theorem bytesBetween (h : Shows bytes i (w ++ t)) (hle : i ≤ bytes.length) :
    bytesBetween bytes i (i + (Utf8.encode w).length) = .ok (Utf8.encode w) := by
  have hlength : bytes.length - i = (Utf8.encode w).length + (Utf8.encode t).length := by
    rw [← List.length_drop, h, encode_append, List.length_append]
  rw [TypeIgnore.bytesBetween, if_pos, h, encode_append, Nat.add_sub_cancel_left, List.take_left]
  simp only [Bool.and_eq_true, decide_eq_true_eq]
  omega

end Shows

/-! ## Prefixes -/

theorem isWide_toLower (c : Char) : isWide c.toLower = isWide c := by
  unfold Char.toLower
  split
  · rename_i h
    have hupper : 65 ≤ c.toNat ∧ c.toNat ≤ 90 := by simpa [UInt32.le_iff_toNat_le] using h
    have hlower : (c.val + ('a'.val - 'A'.val)).toNat = c.toNat + 32 := by
      have hval : c.val.toNat = c.toNat := rfl
      have hdistance : ('a'.val - 'A'.val).toNat = 32 := rfl
      rw [UInt32.toNat_add]
      omega
    rw [isWide, isWide, decide_eq_decide]
    show 0x80 ≤ (c.val + ('a'.val - 'A'.val)).toNat ↔ 0x80 ≤ c.toNat
    omega
  · rfl

theorem lowered_encode {w : Text} (h : ∀ c ∈ w, isWide c = false) : lowered (Utf8.encode w) = w.map Char.toLower := by
  induction w with
  | nil => rfl
  | cons c w ih =>
    obtain ⟨b, bs, hbytes, halike, -, -, hnarrow⟩ := exists_utf8EncodeChar c
    have hc : isWide c = false := h c List.mem_cons_self
    have hb : Char.ofUInt8 b = c := (halike.eq_iff hc).2 rfl
    rw [encode_cons, hbytes, hnarrow hc, List.map_cons, ← ih fun c' hc' => h c' (List.mem_cons_of_mem _ hc'), ← hb]
    rfl

theorem isWide_of_mem_literalPrefixes : ∀ l ∈ literalPrefixes, ∀ c ∈ l, isWide c = false := by
  simp [literalPrefixes, isWide]

/-- A name with a wide character is no prefix. -/
theorem not_contains_of_isWide {l : Text} {c : Char} (hc : c.toLower ∈ l) (hwide : isWide c = true) :
    literalPrefixes.contains l = false := by
  rw [Bool.eq_false_iff]
  intro hcontains
  have hnarrow := isWide_of_mem_literalPrefixes l (List.contains_iff_mem.1 hcontains) _ hc
  rw [isWide_toLower, hwide] at hnarrow
  cases hnarrow

/-- The prefix of a literal is known by its bytes. -/
theorem isFormatted_reverse (w : Text) :
    isFormatted w.reverse = (literalPrefixes.contains (lowered (Utf8.encode w)) &&
      (lowered (Utf8.encode w)).any fun c => c == 'f' || c == 't') := by
  rw [isFormatted, List.reverse_reverse]
  by_cases hw : ∀ c ∈ w, isWide c = false
  · rw [lowered_encode hw]
  · simp only [not_forall, Bool.not_eq_false] at hw
    obtain ⟨c, hc, hwide⟩ := hw
    obtain ⟨b, bs, hbytes, halike, -⟩ := exists_utf8EncodeChar c
    have hb : b ∈ Utf8.encode w := List.mem_flatMap.2 ⟨c, hc, by rw [hbytes]; exact List.mem_cons_self⟩
    have hbyte : isWide (Char.ofUInt8 b) = true := (halike.test_eq fun _ hy => hy).trans hwide
    simp only [not_contains_of_isWide (List.mem_map_of_mem hc) hwide,
      not_contains_of_isWide (l := lowered (Utf8.encode w)) (List.mem_map.2 ⟨b, hb, rfl⟩) hbyte, Bool.false_and]

end TypeIgnore
