import TypeIgnore.Time.Timestamp
import TypeIgnore.Proofs.Text.Number
import TypeIgnore.Proofs.Text.Trim

/-!
# Times written and read

* `digits?_ofNatPadded` — a number of a fixed width is read back;
* `date?_text`, `clock?_text`, `fraction?_text`, `offset?_text` — so are the parts of a time;
* `Timestamp.ofText?_text` — and the time itself, if its parts are in their ranges.
-/

namespace TypeIgnore.Timestamp

/-! ## Digits -/

theorem digits?_ofNatPadded {width n : Nat} (hwidth : 0 < width) (h : n < Nat.pow 10 width) (rest : Text) :
    digits? width (Text.ofNatPadded width n ++ rest) = some (n, rest) := by
  have hlength := Text.length_ofNatPadded hwidth h
  have htake : (Text.ofNatPadded width n ++ rest).take width = Text.ofNatPadded width n := List.take_left' hlength
  have hdrop : (Text.ofNatPadded width n ++ rest).drop width = rest := List.drop_left' hlength
  have hall : (Text.ofNatPadded width n).all Text.isPlainDigit = true :=
    List.all_eq_true.2 fun c hc => Text.isPlainDigit_of_mem_ofNatPadded hc
  simp only [digits?, htake, hdrop, hlength, hall, and_self, if_true, Text.digitsValue_ofNatPadded]

theorem after?_append (lead rest : Text) : Text.after? lead (lead ++ rest) = some rest :=
  Text.after?_eq_some_iff.2 rfl

/-! ## Date and clock -/

theorem date?_text {year month day : Nat} (hyear : year < 10000) (hmonth : month < 100) (hday : day < 100)
    (rest : Text) :
    date? (Text.ofNatPadded 4 year ++
        ("-" ++ (Text.ofNatPadded 2 month ++ ("-" ++ (Text.ofNatPadded 2 day ++ rest))))) =
      some (year, month, day, rest) := by
  simp only [date?, digits?_ofNatPadded (by decide : 0 < 4) hyear, digits?_ofNatPadded (by decide : 0 < 2) hmonth,
    digits?_ofNatPadded (by decide : 0 < 2) hday, after?_append, Option.bind_eq_bind, Option.bind_some]
  rfl

theorem clock?_text {hour minute second : Nat} (hhour : hour < 100) (hminute : minute < 100) (hsecond : second < 100)
    (rest : Text) :
    clock? (Text.ofNatPadded 2 hour ++
        (":" ++ (Text.ofNatPadded 2 minute ++ (":" ++ (Text.ofNatPadded 2 second ++ rest))))) =
      some (hour, minute, second, rest) := by
  simp only [clock?, digits?_ofNatPadded (by decide : 0 < 2) hhour, digits?_ofNatPadded (by decide : 0 < 2) hminute,
    digits?_ofNatPadded (by decide : 0 < 2) hsecond, after?_append, Option.bind_eq_bind, Option.bind_some]
  rfl

/-! ## Fraction -/

/-- What a fraction is made of: nine digits without the zeros at their end. -/
theorem exists_fractionText {nanosecond : Nat} (hpos : 0 < nanosecond) (h : nanosecond < 1000000000) :
    ∃ digits, fractionText nanosecond = '.' :: digits ∧ digits ≠ [] ∧ digits.length ≤ 9 ∧
      (∀ c ∈ digits, Text.isPlainDigit c = true) ∧
      Text.digitsValue digits * Nat.pow 10 (9 - digits.length) = nanosecond := by
  have happend := Text.spanEnd_append (· == '0') (Text.ofNatPadded 9 nanosecond)
  have hzeros : ∀ c ∈ (Text.spanEnd (· == '0') (Text.ofNatPadded 9 nanosecond)).2, c = '0' := fun c hc => by
    simpa using Text.mem_spanEnd_snd (· == '0') c hc
  have hreplicate := List.eq_replicate_of_mem hzeros
  have hlength := congrArg List.length happend
  have hvalue := congrArg Text.digitsValue happend
  rw [List.length_append, Text.length_ofNatPadded (by decide) h] at hlength
  rw [hreplicate, Text.digitsValue_append_zeros, Text.digitsValue_ofNatPadded] at hvalue
  have hfraction : fractionText nanosecond =
      '.' :: (Text.spanEnd (· == '0') (Text.ofNatPadded 9 nanosecond)).1 := if_neg (by omega)
  refine ⟨_, hfraction, ?_, by omega, ?_, ?_⟩
  · intro hnil
    rw [hnil] at hvalue
    have : Text.digitsValue [] = 0 := rfl
    rw [this, Nat.zero_mul] at hvalue
    omega
  · intro c hc
    exact Text.isPlainDigit_of_mem_ofNatPadded (happend ▸ List.mem_append_left _ hc)
  · have hcount : (Text.spanEnd (· == '0') (Text.ofNatPadded 9 nanosecond)).2.length =
        9 - (Text.spanEnd (· == '0') (Text.ofNatPadded 9 nanosecond)).1.length := by omega
    rw [← hcount]
    exact hvalue

theorem fraction?_text {nanosecond : Nat} (h : nanosecond < 1000000000) {rest : Text}
    (hrest : ∀ c ∈ rest.head?, c ≠ '.' ∧ Text.isPlainDigit c = false) :
    fraction? (fractionText nanosecond ++ rest) = some (nanosecond, rest) := by
  rcases Nat.eq_zero_or_pos nanosecond with rfl | hpos
  · have hnone : fractionText 0 = [] := rfl
    rw [hnone, List.nil_append]
    unfold fraction?
    split
    · rename_i t
      exact absurd rfl (hrest '.' rfl).1
    · rfl
  · obtain ⟨digits, hfraction, hne, hlength, hplain, hvalue⟩ := exists_fractionText hpos h
    have hstop : ∀ c ∈ rest.head?, Text.isPlainDigit c = false := fun c hc => (hrest c hc).2
    rw [hfraction, List.cons_append, fraction?, Text.takeWhile_append_stop hplain hstop,
      Text.dropWhile_append_stop hplain hstop]
    split
    · exact absurd rfl hne
    · simp only [List.take_of_length_le hlength]
      exact congrArg (fun n => some (n, rest)) hvalue

/-! ## Offset -/

/-- A sign, hours and minutes. -/
theorem offset?_signed {sign : Char} (hsign : sign = '+' ∨ sign = '-') {minutes : Nat} (h : minutes < 24 * 60) :
    offset? (sign :: (Text.ofNatPadded 2 (minutes / 60) ++ (":" ++ Text.ofNatPadded 2 (minutes % 60)))) =
      some (if sign = '-' then -(minutes : Int) else minutes) := by
  have hhours := digits?_ofNatPadded (by decide : 0 < 2) (by omega : minutes / 60 < 100)
    (":" ++ Text.ofNatPadded 2 (minutes % 60))
  have hminutes := digits?_ofNatPadded (by decide : 0 < 2) (by omega : minutes % 60 < 100) []
  rw [List.append_nil] at hminutes
  have hranges : ([] : Text).isEmpty ∧ minutes / 60 ≤ 23 ∧ minutes % 60 ≤ 59 := ⟨rfl, by omega, by omega⟩
  have htotal : 60 * (minutes / 60) + minutes % 60 = minutes := by omega
  rw [offset?.eq_3]
  · simp only [hhours, hminutes, after?_append, Option.bind_eq_bind, Option.bind_some, if_pos hranges, htotal]
    rcases hsign with rfl | rfl <;> rfl
  · rintro rfl
    rcases hsign with h | h <;> cases h
  · rintro rfl
    rcases hsign with h | h <;> cases h

theorem offset?_text {offset : Int} (h : offset.natAbs < 24 * 60) : offset? (offsetText offset) = some offset := by
  unfold offsetText
  split
  · rename_i hzero
    rw [hzero]
    rfl
  · rw [List.append_assoc, List.append_assoc]
    split
    · rename_i hneg
      have habs : -(offset.natAbs : Int) = offset := by omega
      exact (offset?_signed (.inr rfl) h).trans (congrArg some habs)
    · rename_i hpos
      have habs : (offset.natAbs : Int) = offset := by omega
      exact (offset?_signed (.inl rfl) h).trans (congrArg some habs)

/-- An offset starts with `Z` or a sign, so a fraction ends before it. -/
theorem head?_offsetText (offset : Int) :
    ∀ c ∈ (offsetText offset).head?, c ≠ '.' ∧ Text.isPlainDigit c = false := by
  unfold offsetText
  split
  · rintro c ⟨⟩
    decide
  · split
    · rintro c ⟨⟩
      decide
    · rintro c ⟨⟩
      decide

/-! ## Times -/

/-- The ranges of the parts of a time. -/
theorem isValid_iff {t : Timestamp} :
    t.isValid = true ↔
      t.year ≤ 9999 ∧ 1 ≤ t.month ∧ t.month ≤ 12 ∧ 1 ≤ t.day ∧ t.day ≤ monthLength t.year t.month ∧
        t.hour ≤ 23 ∧ t.minute ≤ 59 ∧ t.second ≤ 59 ∧ t.nanosecond ≤ 999999999 ∧ t.offset.natAbs < 24 * 60 := by
  simp only [isValid, Bool.and_eq_true, decide_eq_true_eq, and_assoc]

theorem monthLength_le (year month : Nat) : monthLength year month ≤ 31 := by
  unfold monthLength
  repeat' split
  all_goals decide

theorem settle?_of_isValid {t : Timestamp} (h : t.isValid = true) : settle? t = some t := by
  have hsecond : t.second ≠ 60 := by
    have := isValid_iff.1 h
    omega
  rw [settle?, if_neg hsecond, if_pos h]

/-- **A time is read back from what is written for it.** -/
theorem ofText?_text {t : Timestamp} (h : t.isValid = true) : ofText? t.text = some t := by
  obtain ⟨hyear, -, hmonth, -, hday, hhour, hminute, hsecond, hnanosecond, hoffset⟩ := isValid_iff.1 h
  have hlength := monthLength_le t.year t.month
  have htext : t.text = Text.ofNatPadded 4 t.year ++ ("-" ++ (Text.ofNatPadded 2 t.month ++ ("-" ++
      (Text.ofNatPadded 2 t.day ++ ('T' :: (Text.ofNatPadded 2 t.hour ++ (":" ++ (Text.ofNatPadded 2 t.minute ++
      (":" ++ (Text.ofNatPadded 2 t.second ++ (fractionText t.nanosecond ++ offsetText t.offset))))))))))) := by
    simp only [text, List.append_assoc]
    rfl
  have hseparator (rest : Text) : afterSeparator? ('T' :: rest) = some rest := rfl
  rw [ofText?, htext]
  simp only [date?_text (by omega : t.year < 10000) (by omega : t.month < 100) (by omega : t.day < 100), hseparator,
    clock?_text (by omega : t.hour < 100) (by omega : t.minute < 100) (by omega : t.second < 100),
    fraction?_text (by omega : t.nanosecond < 1000000000) (head?_offsetText t.offset), offset?_text hoffset,
    Option.bind_eq_bind, Option.bind_some]
  exact settle?_of_isValid h

end TypeIgnore.Timestamp
