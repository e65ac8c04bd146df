import TypeIgnore.Text.Number

/-!
# Numbers written and read

* `takeWhile_append_stop`, `dropWhile_append_stop` — a run of characters that satisfy `p` ends where one does not;
* `isPlainDigit_of_mem_ofNat`, `digitsValue_ofNat` — a number is written in plain digits, and they have its value;
* `word?_ofNat` — numbers below the limit are read back;
* `digitsValue_append_zeros`, `digitsValue_ofNatPadded` — zeros at the end multiply, and zeros in front change the
  length and nothing else.
-/

namespace TypeIgnore.Text

/-! ## Runs of characters -/

section Span

variable {p : Char → Bool} {t rest : Text}

theorem takeWhile_append_stop (ht : ∀ c ∈ t, p c = true) (hrest : ∀ c ∈ rest.head?, p c = false) :
    (t ++ rest).takeWhile p = t := by
  rw [List.takeWhile_append_of_pos ht]
  cases rest with
  | nil => simp
  | cons c rest => rw [List.takeWhile_cons_of_neg (by simp [hrest c rfl]), List.append_nil]

theorem dropWhile_append_stop (ht : ∀ c ∈ t, p c = true) (hrest : ∀ c ∈ rest.head?, p c = false) :
    (t ++ rest).dropWhile p = rest := by
  rw [List.dropWhile_append_of_pos ht]
  cases rest with
  | nil => rfl
  | cons c rest => rw [List.dropWhile_cons_of_neg (by simp [hrest c rfl])]

end Span

/-! ## Digits -/

theorem isPlainDigit_iff {c : Char} : isPlainDigit c = true ↔ 48 ≤ c.toNat ∧ c.toNat ≤ 57 := by
  simp only [isPlainDigit, Bool.and_eq_true, decide_eq_true_eq, Char.le_def, UInt32.le_iff_toNat_le]
  rfl

theorem isPlainDigit_of_isDigit {c : Char} (h : c.isDigit = true) : isPlainDigit c = true := by
  rw [isPlainDigit_iff]
  simp only [Char.isDigit, Bool.and_eq_true, decide_eq_true_eq, ge_iff_le, UInt32.le_iff_toNat_le] at h
  exact h

/-- Plain digits are digits. -/
theorem isDigit_of_isPlainDigit {c : Char} (h : isPlainDigit c = true) : isDigit c = true := by
  have hrange := isPlainDigit_iff.1 h
  refine List.any_eq_true.2 ⟨(0x30, 0x39), by simp [digitRuns], ?_⟩
  simp only [Bool.and_eq_true, decide_eq_true_eq]
  omega

/-! ## Numbers -/

section Written

variable {n : Nat}

theorem ofNat_ne_nil (n : Nat) : ofNat n ≠ [] := Nat.toDigits_ne_nil

theorem isPlainDigit_of_mem_ofNat {c : Char} (h : c ∈ ofNat n) : isPlainDigit c = true :=
  isPlainDigit_of_isDigit (Nat.isDigit_of_mem_toDigits (by decide) (by decide) h)

@[simp] theorem digitsValue_ofNat (n : Nat) : digitsValue (ofNat n) = n :=
  Nat.ofDigitChars_toDigits (by decide) (by decide)

/-- A number below the limit is read back. -/
theorem natBelow?_ofNat {bound : Nat} (h : n < bound) : natBelow? bound (ofNat n) = some n := by
  have hdigits : (ofNat n).all isPlainDigit = true := List.all_eq_true.2 fun c hc => isPlainDigit_of_mem_ofNat hc
  simp [natBelow?, ofNat_ne_nil, hdigits, h]

theorem word?_ofNat (h : n < wordLimit) : word? (ofNat n) = some n := natBelow?_ofNat h

/-- Only zero is written with a zero in front. -/
theorem head?_ofNat (h : 0 < n) : (ofNat n).head? ≠ some '0' := by
  induction n using Nat.strongRecOn with
  | ind n ih =>
    rcases Nat.lt_or_ge n 10 with hsmall | hlarge
    · have hdigit : ∀ k < 10, 0 < k → some (Nat.digitChar k) ≠ some '0' := by decide
      rw [ofNat, Nat.toDigits_of_lt_base hsmall]
      exact hdigit n hsmall h
    · have hhead := ih (n / 10) (by omega) (by omega)
      obtain ⟨c, t, hdigits⟩ := List.exists_cons_of_ne_nil (ofNat_ne_nil (n / 10))
      have hofNat : ofNat n = ofNat (n / 10) ++ [(n % 10).digitChar] := Nat.toDigits_of_base_le (by decide) hlarge
      rw [hdigits] at hhead
      rw [hofNat, hdigits]
      exact hhead

end Written

/-! ## Numbers of a fixed width -/

section Padded

variable {width n : Nat}

theorem digitsValue_append (t u : Text) :
    digitsValue (t ++ u) = u.foldl (fun n c => 10 * n + digitValue c) (digitsValue t) :=
  List.foldl_append

/-- Each zero at the end multiplies by ten. -/
theorem digitsValue_append_zeros (t : Text) (k : Nat) :
    digitsValue (t ++ List.replicate k '0') = digitsValue t * Nat.pow 10 k := by
  induction k with
  | zero => simp
  | succ k ih =>
    have hzero : digitValue '0' = 0 := rfl
    have hten : Nat.pow 10 (k + 1) = Nat.pow 10 k * 10 := rfl
    rw [List.replicate_succ', ← List.append_assoc, digitsValue_append, List.foldl_cons, List.foldl_nil, ih, hzero,
      hten, Nat.add_zero, Nat.mul_comm 10, Nat.mul_assoc]

theorem digitsValue_zeros (k : Nat) : digitsValue (List.replicate k '0') = 0 :=
  (digitsValue_append_zeros [] k).trans (Nat.zero_mul _)

@[simp] theorem digitsValue_ofNatPadded (width n : Nat) : digitsValue (ofNatPadded width n) = n := by
  rw [ofNatPadded, digitsValue_append, digitsValue_zeros]
  exact digitsValue_ofNat n

theorem isPlainDigit_of_mem_ofNatPadded {c : Char} (h : c ∈ ofNatPadded width n) : isPlainDigit c = true := by
  rcases List.mem_append.1 h with h | h
  · rw [(List.mem_replicate.1 h).2]
    decide
  · exact isPlainDigit_of_mem_ofNat h

theorem length_ofNatPadded (hwidth : 0 < width) (h : n < Nat.pow 10 width) : (ofNatPadded width n).length = width := by
  have hlength : (ofNat n).length ≤ width := (Nat.length_toDigits_le_iff (by decide) hwidth).2 h
  rw [ofNatPadded, List.length_append, List.length_replicate]
  omega

end Padded

end TypeIgnore.Text
