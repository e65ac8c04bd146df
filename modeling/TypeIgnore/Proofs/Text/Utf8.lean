import TypeIgnore.Text.Utf8

/-!
# UTF-8 written and read

* `lead?_two`, `lead?_three`, `lead?_four` — the first bytes of characters of each length;
* `follow_ofNat` — one more byte of a character;
* `exists_next_utf8EncodeChar` — the bytes of a character are read as that character, whatever follows;
* `decode?_encode`, `decodeLossy_encode` — hence a text is read back from its bytes;
* `utf8EncodeChar_append_lt`, `encode_lt_encode` — bytes are ordered as the characters and the texts they write.
-/

namespace TypeIgnore.Utf8

/-! ## First bytes -/

/-- What the first two of these bytes could start fits in one byte. -/
theorem lead?_two : ∀ n < 0x20, lead? (UInt8.ofNat (n + 0xC0)) =
    if n < 2 then none else some (n, [(0x80, 0xBF)]) := by decide

theorem lead?_three : ∀ n < 0x10, lead? (UInt8.ofNat (n + 0xE0)) =
    some (n, [(if n = 0 then 0xA0 else 0x80, if n = 0xD then 0x9F else 0xBF), (0x80, 0xBF)]) := by decide

theorem lead?_four : ∀ n < 5, lead? (UInt8.ofNat (n + 0xF0)) =
    some (n, [(if n = 0 then 0x90 else 0x80, if n = 4 then 0x8F else 0xBF), (0x80, 0xBF), (0x80, 0xBF)]) := by decide

/-! ## Characters -/

section Characters

variable {bits n : Nat} {low high : UInt8} {ranges : List (UInt8 × UInt8)}

/-- One more byte in its range. -/
theorem follow_ofNat (hlow : low.toNat ≤ n) (hhigh : n ≤ high.toNat) (bs : List UInt8) :
    follow ((low, high) :: ranges) bits (UInt8.ofNat n :: bs) = follow ranges (64 * bits + (n - 0x80)) bs := by
  have hn : (UInt8.ofNat n).toNat = n := by
    rw [UInt8.toNat_ofNat', Nat.mod_eq_of_lt (Nat.lt_of_le_of_lt hhigh high.toNat_lt)]
  have hrange : (low ≤ UInt8.ofNat n && UInt8.ofNat n ≤ high) = true := by
    simp only [Bool.and_eq_true, decide_eq_true_eq, UInt8.le_iff_toNat_le, hn]
    exact ⟨hlow, hhigh⟩
  rw [follow, if_pos hrange, hn]

/-- One more byte that may be any. -/
theorem follow_any (hn : n < 0x40) (bs : List UInt8) :
    follow ((0x80, 0xBF) :: ranges) bits (UInt8.ofNat (n + 0x80) :: bs) = follow ranges (64 * bits + n) bs := by
  have hlow : (0x80 : UInt8).toNat = 0x80 := rfl
  have hhigh : (0xBF : UInt8).toNat = 0xBF := rfl
  rw [follow_ofNat (by omega) (by omega), Nat.add_sub_cancel]

theorem next_short (h : n < 0x80) (bs : List UInt8) : next (UInt8.ofNat n) bs = (some (Char.ofNat n), bs) := by
  have hn : (UInt8.ofNat n).toNat = n := by rw [UInt8.toNat_ofNat', Nat.mod_eq_of_lt (by omega)]
  have hshort : UInt8.ofNat n < 0x80 := by
    rw [UInt8.lt_iff_toNat_lt, hn]
    exact h
  rw [next, if_pos hshort, hn]

theorem next_long (hlow : 0x80 ≤ n) (hhigh : n < 0x100) {bs rest : List UInt8} {v : Nat}
    (hlead : lead? (UInt8.ofNat n) = some (bits, ranges)) (hfollow : follow ranges bits bs = (some v, rest)) :
    next (UInt8.ofNat n) bs = (some (Char.ofNat v), rest) := by
  have hn : (UInt8.ofNat n).toNat = n := by rw [UInt8.toNat_ofNat', Nat.mod_eq_of_lt hhigh]
  have hlong : ¬ UInt8.ofNat n < 0x80 := by
    rw [UInt8.lt_iff_toNat_lt, hn]
    exact Nat.not_lt.2 hlow
  rw [next, if_neg hlong, hlead]
  simp only [hfollow, Option.map_some]

end Characters

/-- The bytes of a character are read as that character. -/
theorem exists_next_utf8EncodeChar (c : Char) :
    ∃ b bs, String.utf8EncodeChar c = b :: bs ∧ ∀ rest, next b (bs ++ rest) = (some c, rest) := by
  have hvalid : c.toNat < 0xD800 ∨ 0xDFFF < c.toNat ∧ c.toNat < 0x110000 := c.valid
  have hval : c.val.toNat = c.toNat := rfl
  have hofNat : Char.ofNat c.toNat = c := c.ofNat_toNat
  unfold String.utf8EncodeChar
  simp only [hval]
  generalize c.toNat = v at hvalid hofNat ⊢
  subst hofNat
  -- one case for each number of bytes
  split
  · exact ⟨_, _, rfl, next_short (by omega)⟩
  split
  · have hlead := (lead?_two (v / 64 % 0x20) (by omega)).trans (if_neg (by omega))
    refine ⟨_, _, rfl, fun rest => next_long (by omega) (by omega) hlead ?_⟩
    have hv : 64 * (v / 64 % 0x20) + v % 0x40 = v := by omega
    rw [List.cons_append, follow_any (by omega), hv]
    rfl
  split
  · have hlead := lead?_three (v / 4096 % 0x10) (by omega)
    refine ⟨_, _, rfl, fun rest => next_long (by omega) (by omega) hlead ?_⟩
    have hlow : (if v / 4096 % 0x10 = 0 then 0xA0 else 0x80 : UInt8).toNat ≤ v / 64 % 0x40 + 0x80 := by
      split
      · exact (by omega : 0xA0 ≤ v / 64 % 0x40 + 0x80)
      · exact Nat.le_add_left ..
    have hhigh : v / 64 % 0x40 + 0x80 ≤ (if v / 4096 % 0x10 = 0xD then 0x9F else 0xBF : UInt8).toNat := by
      split
      · exact (by omega : v / 64 % 0x40 + 0x80 ≤ 0x9F)
      · exact (by omega : v / 64 % 0x40 + 0x80 ≤ 0xBF)
    have hv : 64 * (64 * (v / 4096 % 0x10) + v / 64 % 0x40) + v % 0x40 = v := by omega
    rw [List.cons_append, follow_ofNat hlow hhigh, Nat.add_sub_cancel, List.cons_append, follow_any (by omega), hv]
    rfl
  · have hlead := lead?_four (v / 262144 % 0x08) (by omega)
    refine ⟨_, _, rfl, fun rest => next_long (by omega) (by omega) hlead ?_⟩
    have hlow : (if v / 262144 % 0x08 = 0 then 0x90 else 0x80 : UInt8).toNat ≤ v / 4096 % 0x40 + 0x80 := by
      split
      · exact (by omega : 0x90 ≤ v / 4096 % 0x40 + 0x80)
      · exact Nat.le_add_left ..
    have hhigh : v / 4096 % 0x40 + 0x80 ≤ (if v / 262144 % 0x08 = 4 then 0x8F else 0xBF : UInt8).toNat := by
      split
      · exact (by omega : v / 4096 % 0x40 + 0x80 ≤ 0x8F)
      · exact (by omega : v / 4096 % 0x40 + 0x80 ≤ 0xBF)
    have hv : 64 * (64 * (64 * (v / 262144 % 0x08) + v / 4096 % 0x40) + v / 64 % 0x40) + v % 0x40 = v := by omega
    rw [List.cons_append, follow_ofNat hlow hhigh, Nat.add_sub_cancel, List.cons_append, follow_any (by omega),
      List.cons_append, follow_any (by omega), hv]
    rfl

/-! ## Texts -/

theorem pieces_encode (t : Text) : pieces (encode t) = t.map some := by
  induction t with
  | nil => exact pieces.eq_1
  | cons c t ih =>
    obtain ⟨b, bs, hbytes, hnext⟩ := exists_next_utf8EncodeChar c
    have hencode : encode (c :: t) = b :: (bs ++ encode t) := by
      rw [encode, List.flatMap_cons, hbytes]
      rfl
    rw [hencode, pieces, hnext, ih]
    rfl

/-- **A text is read back from its bytes.** -/
theorem decode?_encode (t : Text) : decode? (encode t) = some t := by
  rw [decode?, pieces_encode, List.mapM_map]
  exact List.mapM_pure.trans (congrArg some (List.map_id t))

theorem decodeLossy_encode (t : Text) : decodeLossy (encode t) = t := by
  rw [decodeLossy, pieces_encode, List.map_map]
  exact List.map_id t

/-! ## Order -/

section Order

variable {m n : Nat} {l l' : List UInt8}

theorem cons_lt_of_lt (hn : n < 0x100) (h : m < n) : UInt8.ofNat m :: l < UInt8.ofNat n :: l' := by
  refine List.cons_lt_cons_iff.2 (.inl ?_)
  rw [UInt8.lt_iff_toNat_lt, UInt8.toNat_ofNat', UInt8.toNat_ofNat', Nat.mod_eq_of_lt (by omega), Nat.mod_eq_of_lt hn]
  exact h

/-- Of two bytes that are in order the first decides, or if they are the same what follows. -/
theorem cons_lt_of_le (hn : n < 0x100) (h : m ≤ n) (hl : m = n → l < l') :
    UInt8.ofNat m :: l < UInt8.ofNat n :: l' := by
  rcases Nat.lt_or_eq_of_le h with hlt | rfl
  · exact cons_lt_of_lt hn hlt
  · exact List.cons_lt_cons_iff.2 (.inr ⟨rfl, hl rfl⟩)

/-- The bytes of a character come before those of a greater one, whatever follows them. -/
theorem utf8EncodeChar_append_lt {c d : Char} (h : c < d) (bs bs' : List UInt8) :
    String.utf8EncodeChar c ++ bs < String.utf8EncodeChar d ++ bs' := by
  have hd : d.toNat < 0xD800 ∨ 0xDFFF < d.toNat ∧ d.toNat < 0x110000 := d.valid
  have hlt : c.toNat < d.toNat := h
  have hcval : c.val.toNat = c.toNat := rfl
  have hdval : d.val.toNat = d.toNat := rfl
  unfold String.utf8EncodeChar
  simp only [hcval, hdval]
  generalize c.toNat = v at hlt ⊢
  generalize d.toNat = w at hd hlt ⊢
  -- a longer character has a greater first byte; of the same length, the first byte that differs decides
  split
  · split
    · exact cons_lt_of_lt (by omega) hlt
    split
    · exact cons_lt_of_lt (by omega) (by omega)
    split
    · exact cons_lt_of_lt (by omega) (by omega)
    · exact cons_lt_of_lt (by omega) (by omega)
  have hone : ¬ w ≤ 0x7f := by omega
  rw [if_neg hone]
  split
  · split
    · refine cons_lt_of_le (by omega) (by omega) fun h₁ => ?_
      exact cons_lt_of_lt (by omega) (by omega)
    split
    · exact cons_lt_of_lt (by omega) (by omega)
    · exact cons_lt_of_lt (by omega) (by omega)
  have htwo : ¬ w ≤ 0x7ff := by omega
  rw [if_neg htwo]
  split
  · split
    · refine cons_lt_of_le (by omega) (by omega) fun h₁ => ?_
      refine cons_lt_of_le (by omega) (by omega) fun h₂ => ?_
      exact cons_lt_of_lt (by omega) (by omega)
    · exact cons_lt_of_lt (by omega) (by omega)
  · have hthree : ¬ w ≤ 0xffff := by omega
    rw [if_neg hthree]
    refine cons_lt_of_le (by omega) (by omega) fun h₁ => ?_
    refine cons_lt_of_le (by omega) (by omega) fun h₂ => ?_
    refine cons_lt_of_le (by omega) (by omega) fun h₃ => ?_
    exact cons_lt_of_lt (by omega) (by omega)

/-- **The bytes of texts are ordered as the texts.** -/
theorem encode_lt_encode {t u : Text} (h : t < u) : encode t < encode u := by
  induction t generalizing u with
  | nil =>
    cases u with
    | nil => exact absurd h (List.lt_irrefl _)
    | cons d u =>
      obtain ⟨b, bs, hbytes, -⟩ := exists_next_utf8EncodeChar d
      rw [encode, encode, List.flatMap_cons, hbytes]
      exact List.nil_lt_cons _ _
  | cons c t ih =>
    cases u with
    | nil => exact absurd h (List.not_lt_nil _)
    | cons d u =>
      rw [encode, encode, List.flatMap_cons, List.flatMap_cons]
      rcases List.cons_lt_cons_iff.1 h with hlt | ⟨rfl, hlt⟩
      · exact utf8EncodeChar_append_lt hlt _ _
      · exact List.append_left_lt (ih hlt)

end Order

end TypeIgnore.Utf8
