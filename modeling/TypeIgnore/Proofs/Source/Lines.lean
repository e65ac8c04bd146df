import TypeIgnore.Source.Line
import Mathlib.Data.List.Chain
import Mathlib.Data.List.Forall2

/-!
# Splitting into lines and joining them

* `BreakFree t` — no character of `t` ends a line;
* `IsComment t` — `t` is a trailing comment;
* `IsSplit` — what lines and a rest look like that a text is split into: no break inside of them, and no lone line
  feed right after a carriage return;
* `isSplit_splitLines`, `splitLines_joinLines` — these are exactly the values of `splitLines`, and each is the split
  of its own text;
* `IsSplit.replace` — other contents for the lines, as long as no line loses its whole content;
* `lineCount` — how many lines a text has; what lines and breaks add to it.
-/

namespace TypeIgnore

/-! ## Texts without breaks -/

/-- No character of the text ends a line. -/
def BreakFree (t : Text) : Prop := ∀ c ∈ t, isBreak c = false

instance (t : Text) : Decidable (BreakFree t) := t.decidableBAll fun c => isBreak c = false

@[simp] theorem breakFree_nil : BreakFree [] := by
  simp [BreakFree]

@[simp] theorem breakFree_cons {c : Char} {t : Text} :
    BreakFree (c :: t) ↔ isBreak c = false ∧ BreakFree t := by
  simp [BreakFree]

@[simp] theorem breakFree_append {t u : Text} : BreakFree (t ++ u) ↔ BreakFree t ∧ BreakFree u := by
  simp [BreakFree, or_imp, forall_and]

theorem BreakFree.of_subset {t u : Text} (h : BreakFree u) (hsub : ∀ c ∈ t, c ∈ u) : BreakFree t :=
  fun c hc => h c (hsub c hc)

theorem breakFree_of_separators {t : Text} (h : ∀ c ∈ t, isSeparator c = true) : BreakFree t := by
  intro c hc
  have hsep := h c hc
  simp only [isSeparator, Bool.or_eq_true, beq_iff_eq] at hsep
  rcases hsep with (rfl | rfl) | rfl <;> decide

/-- A trailing comment: separators, `#`, and a text on one line. -/
def IsComment (t : Text) : Prop := (t.dropWhile isSeparator).head? = some '#' ∧ BreakFree t

instance (t : Text) : Decidable (IsComment t) :=
  inferInstanceAs (Decidable ((t.dropWhile isSeparator).head? = some '#' ∧ BreakFree t))

theorem isComment_iff {t : Text} :
    IsComment t ↔
      ∃ separator rest, t = separator ++ '#' :: rest ∧ (∀ c ∈ separator, isSeparator c = true) ∧ BreakFree rest := by
  constructor
  · rintro ⟨hhead, hfree⟩
    obtain ⟨rest, hrest⟩ := List.head?_eq_some_iff.1 hhead
    have ht : t = t.takeWhile isSeparator ++ '#' :: rest := by
      rw [← hrest, List.takeWhile_append_dropWhile]
    refine ⟨t.takeWhile isSeparator, rest, ht, List.all_eq_true.1 List.all_takeWhile, ?_⟩
    rw [ht] at hfree
    exact (breakFree_cons.1 (breakFree_append.1 hfree).2).2
  · rintro ⟨separator, rest, rfl, hseparator, hfree⟩
    refine ⟨?_, breakFree_append.2 ⟨breakFree_of_separators hseparator, breakFree_cons.2 ⟨rfl, hfree⟩⟩⟩
    rw [List.dropWhile_append_of_pos hseparator]
    rfl

theorem breakFree_of_isComment {t : Text} (h : t = [] ∨ IsComment t) : BreakFree t := by
  rcases h with rfl | h
  · exact breakFree_nil
  · exact h.2

/-! ## What a text is split into -/

/-- A break between two lines is read as it stands: no line that is a mere line feed follows a carriage return. -/
def KeepsBreak (l l' : EndedLine) : Prop := l.ending = .cr → l'.content = [] → l'.ending ≠ .lf

structure IsSplit (split : List EndedLine × Text) : Prop where
  content : ∀ l ∈ split.1, BreakFree l.content
  rest : BreakFree split.2
  apart : split.1.IsChain KeepsBreak

theorem isChain_cons_of_head {ls : List EndedLine} {l : EndedLine} (h : ls.IsChain KeepsBreak)
    (hl : ∀ l' ls', ls = l' :: ls' → KeepsBreak l l') : (l :: ls).IsChain KeepsBreak := by
  cases ls with
  | nil => exact .singleton l
  | cons l' ls' => exact .cons_cons (hl l' ls' rfl) h

theorem IsSplit.pushChar {split : List EndedLine × Text} (h : IsSplit split) {c : Char} (hc : isBreak c = false) :
    IsSplit (pushChar c split) := by
  obtain ⟨_ | ⟨l, ls⟩, rest⟩ := split
  · exact ⟨by simp [TypeIgnore.pushChar], breakFree_cons.2 ⟨hc, h.rest⟩, .nil⟩
  · have hl := h.content l List.mem_cons_self
    refine ⟨?_, h.rest, ?_⟩
    · intro l' hl'
      rcases List.mem_cons.1 hl' with rfl | hl'
      · exact breakFree_cons.2 ⟨hc, hl⟩
      · exact h.content l' (List.mem_cons_of_mem _ hl')
    · refine isChain_cons_of_head h.apart.of_cons ?_
      rintro l' ls' rfl
      exact h.apart.rel

theorem IsSplit.pushBreak {split : List EndedLine × Text} (h : IsSplit split) {b : LineBreak}
    (hb : b = .cr → (joinLines split).head? ≠ some '\n') : IsSplit (pushBreak b split) := by
  refine ⟨?_, h.rest, ?_⟩
  · intro l hl
    rcases List.mem_cons.1 hl with rfl | hl
    · simp
    · exact h.content l hl
  · refine isChain_cons_of_head h.apart ?_
    intro l ls hls hcr hcontent hlf
    -- the text of `l` is the line feed alone
    apply hb hcr
    simp [joinLines, hls, hcontent, hlf, LineBreak.text]

theorem isSplit_splitLines (t : Text) : IsSplit (splitLines t) := by
  fun_induction splitLines t with
  | case1 => exact ⟨by simp, breakFree_nil, .nil⟩
  | case2 t ih => exact ih.pushBreak (by simp)
  | case3 t hne ih =>
    refine ih.pushBreak fun _ hhead => ?_
    rw [joinLines_splitLines] at hhead
    cases t with
    | nil => cases hhead
    | cons c t =>
      cases hhead
      exact hne t rfl
  | case4 t ih => exact ih.pushBreak (by simp)
  | case5 c t _ hcr hlf ih =>
    have hc : isBreak c = false := by
      simp only [isBreak, Bool.or_eq_false_iff, beq_eq_false_iff_ne]
      exact ⟨hlf, hcr⟩
    exact ih.pushChar hc

/-! ## Splitting what has been joined -/

theorem splitLines_cons_of_not_break {c : Char} (hc : isBreak c = false) (t : Text) :
    splitLines (c :: t) = pushChar c (splitLines t) := by
  simp only [isBreak, Bool.or_eq_false_iff, beq_eq_false_iff_ne] at hc
  rw [splitLines]
  · rintro u rfl
    exact absurd rfl hc.2
  · rintro rfl
    exact hc.2 rfl
  · rintro rfl
    exact hc.1 rfl

theorem splitLines_append_of_breakFree {t : Text} (h : BreakFree t) (u : Text) :
    splitLines (t ++ u) = t.foldr pushChar (splitLines u) := by
  induction t with
  | nil => rfl
  | cons c t ih =>
    obtain ⟨hc, ht⟩ := breakFree_cons.1 h
    rw [List.cons_append, splitLines_cons_of_not_break hc, ih ht, List.foldr_cons]

theorem foldr_pushChar_cons (t : Text) (l : EndedLine) (ls : List EndedLine) (rest : Text) :
    t.foldr pushChar (l :: ls, rest) = ({ l with content := t ++ l.content } :: ls, rest) := by
  induction t with
  | nil => rfl
  | cons c t ih => rw [List.foldr_cons, ih, pushChar, List.cons_append]

theorem foldr_pushChar_nil (t rest : Text) : t.foldr pushChar ([], rest) = ([], t ++ rest) := by
  induction t with
  | nil => rfl
  | cons c t ih => rw [List.foldr_cons, ih, pushChar, List.cons_append]

theorem splitLines_break {b : LineBreak} {t : Text} (hb : b = .cr → t.head? ≠ some '\n') :
    splitLines (b.text ++ t) = pushBreak b (splitLines t) := by
  cases b with
  | lf => simp [LineBreak.text, splitLines]
  | crlf => simp [LineBreak.text, splitLines]
  | cr =>
    have hne : ∀ u, t = '\n' :: u → False := by
      rintro u rfl
      exact hb rfl rfl
    simp only [LineBreak.text, List.cons_append, List.nil_append]
    rw [splitLines]
    exact hne

/-- No line feed follows a carriage return that is a break by itself. -/
theorem IsSplit.head?_joinLines {l : EndedLine} {ls : List EndedLine} {rest : Text} (h : IsSplit (l :: ls, rest))
    (hcr : l.ending = .cr) : (joinLines (ls, rest)).head? ≠ some '\n' := by
  intro hnl
  cases ls with
  | nil =>
    have hmem : '\n' ∈ rest := List.mem_of_mem_head? hnl
    exact absurd (h.rest '\n' hmem) (by decide)
  | cons l' ls =>
    have hkeeps : KeepsBreak l l' := h.apart.rel
    have hfree := h.content l' (by simp)
    obtain ⟨content, ending⟩ := l'
    cases content with
    | nil => cases ending <;> simp_all [joinLines, LineBreak.text, KeepsBreak]
    | cons c content =>
      have hc : c = '\n' := by simpa [joinLines] using hnl
      subst hc
      exact absurd (breakFree_cons.1 hfree).1 (by decide)

theorem joinLines_cons (l : EndedLine) (ls : List EndedLine) (rest : Text) :
    joinLines (l :: ls, rest) = l.content ++ (l.ending.text ++ joinLines (ls, rest)) := by
  simp [joinLines]

theorem IsSplit.of_cons {l : EndedLine} {ls : List EndedLine} {rest : Text} (h : IsSplit (l :: ls, rest)) :
    IsSplit (ls, rest) :=
  ⟨fun l' hl' => h.content l' (List.mem_cons_of_mem _ hl'), h.rest, h.apart.of_cons⟩

theorem splitLines_joinLines {split : List EndedLine × Text} (h : IsSplit split) :
    splitLines (joinLines split) = split := by
  obtain ⟨ls, rest⟩ := split
  induction ls with
  | nil =>
    have hsplit := splitLines_append_of_breakFree h.rest []
    rw [List.append_nil] at hsplit
    rw [show joinLines ([], rest) = rest from rfl, hsplit]
    exact (foldr_pushChar_nil rest []).trans (by rw [List.append_nil])
  | cons l ls ih =>
    rw [joinLines_cons, splitLines_append_of_breakFree (h.content l List.mem_cons_self),
      splitLines_break h.head?_joinLines, ih h.of_cons]
    exact (foldr_pushChar_cons l.content ⟨[], l.ending⟩ ls rest).trans (by rw [List.append_nil])

/-! ## Other contents -/

/-- `l'` has the break of `l`, and some content if `l` has. -/
structure SameBreak (l l' : EndedLine) : Prop where
  ending : l'.ending = l.ending
  content_ne : l'.content = [] → l.content = []
  breakFree : BreakFree l'.content

theorem isChain_replace {ls ls' : List EndedLine} (h : ls.IsChain KeepsBreak)
    (hsame : List.Forall₂ SameBreak ls ls') : ls'.IsChain KeepsBreak := by
  induction hsame with
  | nil => exact .nil
  | cons hl hls ih =>
    refine isChain_cons_of_head (ih h.of_cons) ?_
    rintro l₁' ls₁' rfl hcr hcontent
    obtain ⟨l₁, ls₁, h₁, -, rfl⟩ := List.forall₂_cons_right_iff.1 hls
    rw [h₁.ending]
    exact h.rel (hl.ending ▸ hcr) (h₁.content_ne hcontent)

theorem IsSplit.replace {ls ls' : List EndedLine} {rest rest' : Text} (h : IsSplit (ls, rest))
    (hsame : List.Forall₂ SameBreak ls ls') (hrest : BreakFree rest') : IsSplit (ls', rest') := by
  refine ⟨?_, hrest, isChain_replace h.apart hsame⟩
  intro l' hl'
  obtain ⟨i, hi, rfl⟩ := List.getElem_of_mem hl'
  exact (hsame.get (by rw [hsame.length_eq]; exact hi) hi).breakFree

/-! ## Counting lines -/

/-- The number of lines, with the rest as one unless it is empty. -/
def countSplit : List EndedLine × Text → Nat
  | (ls, []) => ls.length
  | (ls, _ :: _) => ls.length + 1

theorem countSplit_pushChar (c : Char) (split : List EndedLine × Text) :
    countSplit (pushChar c split) = max 1 (countSplit split) := by
  obtain ⟨_ | ⟨l, ls⟩, _ | ⟨x, rest⟩⟩ := split <;> simp [pushChar, countSplit]

theorem countSplit_cons (l : EndedLine) (ls : List EndedLine) (rest : Text) :
    countSplit (l :: ls, rest) = countSplit (ls, rest) + 1 := by
  cases rest <;> rfl

theorem countSplit_pushBreak (b : LineBreak) (split : List EndedLine × Text) :
    countSplit (pushBreak b split) = countSplit split + 1 :=
  countSplit_cons ⟨[], b⟩ split.1 split.2

/-- The number of lines of a text. The last need not be ended. -/
def lineCount (t : Text) : Nat := countSplit (splitLines t)

theorem lineCount_cons_of_not_break {c : Char} (hc : isBreak c = false) (t : Text) :
    lineCount (c :: t) = max 1 (lineCount t) := by
  rw [lineCount, splitLines_cons_of_not_break hc, countSplit_pushChar, lineCount]

theorem lineCount_append_of_breakFree {t : Text} (h : BreakFree t) (u : Text) :
    lineCount (t ++ u) ≤ max 1 (lineCount u) := by
  induction t with
  | nil => exact le_max_right 1 (lineCount u)
  | cons c t ih =>
    obtain ⟨hc, ht⟩ := breakFree_cons.1 h
    rw [List.cons_append, lineCount_cons_of_not_break hc]
    have hrest := ih ht
    omega

/-- A break adds a line, or none where it becomes one with the next. -/
theorem lineCount_break_append_le (b : LineBreak) (t : Text) : lineCount (b.text ++ t) ≤ lineCount t + 1 := by
  by_cases hb : b = .cr → t.head? ≠ some '\n'
  · rw [lineCount, splitLines_break hb, countSplit_pushBreak, lineCount]
  · obtain ⟨rfl, hhead⟩ : b = .cr ∧ t.head? = some '\n' := by simpa using hb
    obtain ⟨u, rfl⟩ : ∃ u, t = '\n' :: u := by
      cases t with
      | nil => cases hhead
      | cons c u => exact ⟨u, by simpa using hhead⟩
    have hone : lineCount ('\r' :: '\n' :: u) = lineCount u + 1 := countSplit_pushBreak .crlf (splitLines u)
    have htwo : lineCount ('\n' :: u) = lineCount u + 1 := countSplit_pushBreak .lf (splitLines u)
    rw [LineBreak.text, List.singleton_append, hone, htwo]
    omega

end TypeIgnore
