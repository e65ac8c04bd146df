import TypeIgnore.Source.Line

/-!
# Blanks at the ends of a text

* `spanEnd_append_of_all` — an ending that satisfies `p` goes to the second part as a whole;
* `spanEnd_spanEnd_fst`, `getLast?_spanEnd_fst` — the first part has no such ending left;
* `trimEnd_append_of_blank`, `trim_trim` — what the two facts say of blanks;
* `trim_eq_self_iff` — trimmed texts are those with no blank at their ends;
* `isBlank_of_isSeparator` — separators are blanks.
-/

namespace TypeIgnore

namespace Text

/-! ## `spanEnd` -/

section SpanEnd

variable (p : Char → Bool)

theorem spanEnd_cons (c : Char) (t : Text) :
    spanEnd p (c :: t) =
      if (spanEnd p t).1 = [] ∧ p c = true then ([], c :: (spanEnd p t).2)
      else (c :: (spanEnd p t).1, (spanEnd p t).2) := by
  rw [spanEnd]
  split
  · rename_i ending h
    by_cases hc : p c = true <;> simp [h, hc]
  · rename_i front ending hne h
    have hfront : front ≠ [] := hne
    simp [h, hfront]

theorem mem_spanEnd_snd {t : Text} : ∀ c ∈ (spanEnd p t).2, p c = true := by
  induction t with
  | nil => simp [spanEnd]
  | cons c t ih =>
    intro x hx
    rw [spanEnd_cons] at hx
    split at hx
    · rename_i h
      rcases List.mem_cons.1 hx with rfl | hx
      · exact h.2
      · exact ih x hx
    · exact ih x hx

theorem spanEnd_of_all {t : Text} (h : ∀ c ∈ t, p c = true) : spanEnd p t = ([], t) := by
  induction t with
  | nil => rfl
  | cons c t ih =>
    have ht := ih fun x hx => h x (List.mem_cons_of_mem _ hx)
    rw [spanEnd_cons, ht, if_pos ⟨rfl, h c List.mem_cons_self⟩]

theorem spanEnd_append_of_all (t : Text) {ending : Text} (h : ∀ c ∈ ending, p c = true) :
    spanEnd p (t ++ ending) = ((spanEnd p t).1, (spanEnd p t).2 ++ ending) := by
  induction t with
  | nil => simp [spanEnd_of_all p h, spanEnd]
  | cons c t ih =>
    rw [List.cons_append, spanEnd_cons, spanEnd_cons, ih]
    split <;> rfl

theorem spanEnd_spanEnd_fst (t : Text) : spanEnd p (spanEnd p t).1 = ((spanEnd p t).1, []) := by
  induction t with
  | nil => rfl
  | cons c t ih =>
    rw [spanEnd_cons]
    split
    · rfl
    · rename_i h
      rw [spanEnd_cons, ih, if_neg h]

/-- The first part does not end in a character that satisfies `p`. -/
theorem getLast?_spanEnd_fst {t : Text} {c : Char} (h : (spanEnd p t).1.getLast? = some c) : p c = false := by
  obtain ⟨front, hfront⟩ := List.getLast?_eq_some_iff.1 h
  cases hc : p c with
  | false => rfl
  | true =>
    have hall : ∀ x ∈ [c], p x = true := by simpa using hc
    have hspan := spanEnd_spanEnd_fst p t
    rw [hfront, spanEnd_append_of_all p front hall] at hspan
    exact absurd (congrArg Prod.snd hspan) (by simp)

/-- What stands before a character that does not satisfy `p` stays. -/
theorem spanEnd_append_cons_of_not {c : Char} (hc : p c = false) (t u : Text) :
    spanEnd p (t ++ c :: u) = (t ++ c :: (spanEnd p u).1, (spanEnd p u).2) := by
  induction t with
  | nil => simp [spanEnd_cons, hc]
  | cons x t ih =>
    rw [List.cons_append, spanEnd_cons, ih]
    simp

theorem spanEnd_concat_of_not {c : Char} (hc : p c = false) (t : Text) : spanEnd p (t ++ [c]) = (t ++ [c], []) :=
  spanEnd_append_cons_of_not p hc t []

end SpanEnd

/-! ## `trimEnd` and `trim` -/

/-- A text is what `trimEnd` leaves of it and the blanks it takes. -/
theorem exists_trimEnd_append (t : Text) :
    ∃ blanks, t = trimEnd t ++ blanks ∧ ∀ c ∈ blanks, isBlank c = true :=
  ⟨(spanEnd isBlank t).2, (spanEnd_append isBlank t).symm, mem_spanEnd_snd isBlank⟩

theorem trimEnd_append_of_blank (t : Text) {blanks : Text} (h : ∀ c ∈ blanks, isBlank c = true) :
    trimEnd (t ++ blanks) = trimEnd t := by
  unfold trimEnd
  rw [spanEnd_append_of_all isBlank t h]

@[simp] theorem trimEnd_trimEnd (t : Text) : trimEnd (trimEnd t) = trimEnd t := by
  unfold trimEnd
  rw [spanEnd_spanEnd_fst]

theorem mem_of_mem_trimEnd {c : Char} {t : Text} (h : c ∈ trimEnd t) : c ∈ t := by
  obtain ⟨blanks, ht, -⟩ := exists_trimEnd_append t
  rw [ht]
  exact List.mem_append_left blanks h

theorem mem_of_mem_trimStart {c : Char} {t : Text} (h : c ∈ trimStart t) : c ∈ t :=
  (List.dropWhile_sublist _).mem h

theorem mem_of_mem_trim {c : Char} {t : Text} (h : c ∈ trim t) : c ∈ t :=
  mem_of_mem_trimStart (mem_of_mem_trimEnd h)

/-- What `trimStart` leaves does not start with a blank. -/
theorem trimStart_head {c : Char} {t rest : Text} (h : trimStart t = c :: rest) : isBlank c = false := by
  have hne : t.dropWhile isBlank ≠ [] := by
    intro h0
    rw [trimStart, h0] at h
    cases h
  have hhead := List.head_dropWhile_not isBlank hne
  have heq : (t.dropWhile isBlank).head hne = c := by simp only [trimStart] at h; simp [h]
  rwa [heq] at hhead

theorem trimStart_cons_of_not_blank {c : Char} (h : isBlank c = false) (t : Text) :
    trimStart (c :: t) = c :: t := by
  simp [trimStart, h]

theorem trimStart_trimEnd_trimStart (t : Text) : trimStart (trimEnd (trimStart t)) = trimEnd (trimStart t) := by
  obtain ⟨blanks, ht, -⟩ := exists_trimEnd_append (trimStart t)
  cases hu : trimEnd (trimStart t) with
  | nil => rfl
  | cons c rest =>
    rw [hu, List.cons_append] at ht
    exact trimStart_cons_of_not_blank (trimStart_head ht) rest

@[simp] theorem trim_trim (t : Text) : trim (trim t) = trim t := by
  unfold trim
  rw [trimStart_trimEnd_trimStart, trimEnd_trimEnd]

/-- A text without blanks is trimmed. -/
theorem trim_of_not_blank {t : Text} (h : ∀ c ∈ t, isBlank c = false) : trim t = t := by
  have hstart : trimStart t = t := by
    cases t with
    | nil => rfl
    | cons c t => exact trimStart_cons_of_not_blank (h c List.mem_cons_self) t
  obtain ⟨blanks, ht, hblanks⟩ := exists_trimEnd_append t
  have hnil : blanks = [] := by
    refine List.eq_nil_iff_forall_not_mem.2 fun c hc => ?_
    have hblank := hblanks c hc
    rw [h c (ht ▸ List.mem_append_right _ hc)] at hblank
    cases hblank
  rw [hnil, List.append_nil] at ht
  rw [trim, hstart, ← ht]

/-- A text that ends in no blank loses nothing. -/
theorem trimEnd_of_getLast? {t : Text} (h : ∀ c ∈ t.getLast?, isBlank c = false) : trimEnd t = t := by
  cases hlast : t.getLast? with
  | none =>
    rw [List.getLast?_eq_none_iff.1 hlast]
    rfl
  | some c =>
    obtain ⟨front, rfl⟩ := List.getLast?_eq_some_iff.1 hlast
    rw [trimEnd, spanEnd_concat_of_not isBlank (h c hlast)]

theorem trimStart_of_head? {t : Text} (h : ∀ c ∈ t.head?, isBlank c = false) : trimStart t = t := by
  cases t with
  | nil => rfl
  | cons c t => exact trimStart_cons_of_not_blank (h c rfl) t

/-- A text is trimmed if there is no blank at its ends. -/
theorem trim_eq_self_iff {t : Text} :
    trim t = t ↔ (∀ c ∈ t.head?, isBlank c = false) ∧ ∀ c ∈ t.getLast?, isBlank c = false := by
  constructor
  · intro h
    refine ⟨?_, ?_⟩
    · intro c hc
      obtain ⟨rest, hcons⟩ := List.head?_eq_some_iff.1 hc
      have hstart : trimStart t = c :: rest := by
        rw [← h, trim, trimStart_trimEnd_trimStart, ← trim, h, hcons]
      exact trimStart_head hstart
    · intro c hc
      rw [← h] at hc
      exact getLast?_spanEnd_fst isBlank hc
  · rintro ⟨hhead, hlast⟩
    rw [trim, trimStart_of_head? hhead, trimEnd_of_getLast? hlast]

theorem trim_cons_of_blank {c : Char} (h : isBlank c = true) (t : Text) : trim (c :: t) = trim t := by
  simp [trim, trimStart, h]

end Text

/-! ## Separators -/

theorem isBlank_of_isSeparator {c : Char} (h : isSeparator c = true) : Text.isBlank c = true := by
  simp only [isSeparator, Bool.or_eq_true, beq_iff_eq] at h
  rcases h with (rfl | rfl) | rfl <;> decide

end TypeIgnore
