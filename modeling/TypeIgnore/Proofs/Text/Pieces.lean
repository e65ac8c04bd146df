import TypeIgnore.Text.Basic

/-!
# Pieces and lines

* `splitOn_append_cons`, `splitOn_of_not_mem` — a piece ends where the separator stands;
* `mem_splitOn` — the characters of pieces; `splitOn_joinWith` — pieces that are joined and split again;
* `IsLines` — the lines of a text, by what it starts with, and `lines_eq_iff` — `lines` finds them;
* `lines_flatMap` — so the lines of a text are those it was put together from.
-/

namespace TypeIgnore.Text

/-! ## Pieces -/

theorem splitOn_ne_nil (sep : Char) (t : Text) : splitOn sep t ≠ [] := by
  cases t with
  | nil => simp [splitOn]
  | cons c t =>
    rw [splitOn]
    split
    · simp
    · split <;> simp

theorem splitOn_cons_self (sep : Char) (t : Text) : splitOn sep (sep :: t) = [] :: splitOn sep t := by
  rw [splitOn]
  split
  · rename_i h
    exact absurd h (splitOn_ne_nil sep t)
  · rename_i piece pieces h
    rw [if_pos rfl, h]

theorem splitOn_cons_of_ne {sep c : Char} (hc : c ≠ sep) {t piece : Text} {pieces : List Text}
    (ht : splitOn sep t = piece :: pieces) : splitOn sep (c :: t) = (c :: piece) :: pieces := by
  rw [splitOn, ht]
  simp [hc]

/-- A piece ends where the separator stands. -/
theorem splitOn_append_cons {sep : Char} {a : Text} (ha : sep ∉ a) (t : Text) :
    splitOn sep (a ++ sep :: t) = a :: splitOn sep t := by
  induction a with
  | nil => exact splitOn_cons_self sep t
  | cons c a ih =>
    have hc : c ≠ sep := fun h => ha (h ▸ List.mem_cons_self)
    exact splitOn_cons_of_ne hc (ih fun h => ha (List.mem_cons_of_mem _ h))

theorem splitOn_of_not_mem {sep : Char} {a : Text} (ha : sep ∉ a) : splitOn sep a = [a] := by
  induction a with
  | nil => rfl
  | cons c a ih =>
    have hc : c ≠ sep := fun h => ha (h ▸ List.mem_cons_self)
    exact splitOn_cons_of_ne hc (ih fun h => ha (List.mem_cons_of_mem _ h))

/-- A piece holds no separator, and no character that the text does not hold. -/
theorem mem_splitOn {sep : Char} {t piece : Text} (h : piece ∈ splitOn sep t) :
    sep ∉ piece ∧ ∀ c ∈ piece, c ∈ t := by
  induction t generalizing piece with
  | nil =>
    rw [List.mem_singleton.1 h]
    simp
  | cons c t ih =>
    by_cases hc : c = sep
    · subst hc
      rw [splitOn_cons_self] at h
      rcases List.mem_cons.1 h with rfl | h
      · simp
      · exact ⟨(ih h).1, fun x hx => List.mem_cons_of_mem _ ((ih h).2 x hx)⟩
    · obtain ⟨first, pieces, hsplit⟩ := List.exists_cons_of_ne_nil (splitOn_ne_nil sep t)
      rw [splitOn_cons_of_ne hc hsplit] at h
      rcases List.mem_cons.1 h with rfl | h
      · obtain ⟨hsep, hsub⟩ := ih (hsplit ▸ List.mem_cons_self)
        refine ⟨?_, ?_⟩
        · intro hmem
          rcases List.mem_cons.1 hmem with heq | hmem
          · exact hc heq.symm
          · exact hsep hmem
        · intro x hx
          rcases List.mem_cons.1 hx with rfl | hx
          · exact List.mem_cons_self
          · exact List.mem_cons_of_mem _ (hsub x hx)
      · obtain ⟨hsep, hsub⟩ := ih (hsplit ▸ List.mem_cons_of_mem _ h)
        exact ⟨hsep, fun x hx => List.mem_cons_of_mem _ (hsub x hx)⟩

/-- The pieces of joined pieces, if there are any. -/
theorem splitOn_joinWith {sep : Char} {pieces : List Text} (hne : pieces ≠ [])
    (h : ∀ piece ∈ pieces, sep ∉ piece) : splitOn sep (joinWith [sep] pieces) = pieces := by
  induction pieces with
  | nil => exact absurd rfl hne
  | cons piece pieces ih =>
    obtain ⟨hpiece, hpieces⟩ := List.forall_mem_cons.1 h
    cases pieces with
    | nil => exact splitOn_of_not_mem hpiece
    | cons next pieces =>
      have hjoin : joinWith [sep] (piece :: next :: pieces) = piece ++ sep :: joinWith [sep] (next :: pieces) := by
        simp [joinWith]
      rw [hjoin, splitOn_append_cons hpiece, ih (by simp) hpieces]

theorem mem_joinWith {sep : Text} {pieces : List Text} {c : Char} (h : c ∈ joinWith sep pieces) :
    c ∈ sep ∨ ∃ piece ∈ pieces, c ∈ piece := by
  induction pieces with
  | nil => cases h
  | cons piece pieces ih =>
    cases pieces with
    | nil => exact .inr ⟨piece, List.mem_cons_self, h⟩
    | cons next pieces =>
      rcases List.mem_append.1 h with h | h
      · rcases List.mem_append.1 h with h | h
        · exact .inr ⟨piece, List.mem_cons_self, h⟩
        · exact .inl h
      · rcases ih h with h | ⟨p, hp, h⟩
        · exact .inl h
        · exact .inr ⟨p, List.mem_cons_of_mem _ hp, h⟩

/-! ## Lines -/

/-- The lines of a text: a line goes to a line feed, a carriage return right before that is no part of it, and what
stands after the last line feed is a line unless it is empty. -/
inductive IsLines : Text → List Text → Prop
  | nil : IsLines [] []
  | last {l : Text} (hne : l ≠ []) (hl : '\n' ∉ l) : IsLines l [l]
  | feed {l t : Text} {ls : List Text} (hl : '\n' ∉ l) (hreturn : l.getLast? ≠ some '\r') (h : IsLines t ls) :
    IsLines (l ++ '\n' :: t) (l :: ls)
  | returnFeed {l t : Text} {ls : List Text} (hl : '\n' ∉ l) (h : IsLines t ls) :
    IsLines (l ++ '\r' :: '\n' :: t) (l :: ls)

theorem dropReturn_of_ne {l : Text} (h : l.getLast? ≠ some '\r') : dropReturn l = l := by
  unfold dropReturn
  split
  · rename_i hlast
    exact absurd hlast h
  · rfl

theorem dropReturn_concat (l : Text) : dropReturn (l ++ ['\r']) = l := by
  rw [dropReturn, List.getLast?_concat]
  exact List.dropLast_concat

theorem lines_of_not_mem {l : Text} (hne : l ≠ []) (h : '\n' ∉ l) : lines l = [l] := by
  cases l with
  | nil => exact absurd rfl hne
  | cons c l =>
    rw [lines, splitOn_of_not_mem h]
    rfl

/-- One line is taken off the front. -/
theorem lines_append_cons {l : Text} (h : '\n' ∉ l) (t : Text) :
    lines (l ++ '\n' :: t) = dropReturn l :: lines t := by
  obtain ⟨piece, pieces, hsplit⟩ := List.exists_cons_of_ne_nil (splitOn_ne_nil '\n' t)
  rw [lines, lines, splitOn_append_cons h, hsplit]
  simp only [List.dropLast_cons_cons, List.map_cons, List.getLast?_cons_cons]
  split <;> rfl

theorem isLines_lines (t : Text) : IsLines t (lines t) := by
  induction hn : t.length using Nat.strongRecOn generalizing t with
  | ind n ih =>
    by_cases hmem : '\n' ∈ t
    · obtain ⟨l, rest, rfl, hl⟩ := List.eq_append_cons_of_mem hmem
      have hrest : IsLines rest (lines rest) := ih rest.length (by simp [← hn]; omega) rest rfl
      rw [lines_append_cons hl]
      by_cases hreturn : l.getLast? = some '\r'
      · obtain ⟨front, rfl⟩ := List.getLast?_eq_some_iff.1 hreturn
        rw [dropReturn_concat, List.append_assoc]
        exact .returnFeed (fun h => hl (List.mem_append_left _ h)) hrest
      · rw [dropReturn_of_ne hreturn]
        exact .feed hl hreturn hrest
    · by_cases hne : t = []
      · subst hne
        exact .nil
      · rw [lines_of_not_mem hne hmem]
        exact .last hne hmem

/-- **The lines of a text.** -/
theorem lines_eq_iff {t : Text} {ls : List Text} : lines t = ls ↔ IsLines t ls := by
  constructor
  · rintro rfl
    exact isLines_lines t
  · intro h
    induction h with
    | nil => rfl
    | last hne hl => exact lines_of_not_mem hne hl
    | feed hl hreturn _ ih => rw [lines_append_cons hl, dropReturn_of_ne hreturn, ih]
    | @returnFeed l t ls hl _ ih =>
      have hjoin : l ++ '\r' :: '\n' :: t = (l ++ ['\r']) ++ '\n' :: t := by simp
      rw [hjoin, lines_append_cons (by simp [hl]), dropReturn_concat, ih]

/-- The lines of a text are those it was put together from. -/
theorem lines_flatMap {ls : List Text} (h : ∀ l ∈ ls, '\n' ∉ l ∧ l.getLast? ≠ some '\r') :
    lines (ls.flatMap fun l => l ++ "\n") = ls := by
  rw [lines_eq_iff]
  induction ls with
  | nil => exact .nil
  | cons l ls ih =>
    obtain ⟨⟨hl, hreturn⟩, hls⟩ := List.forall_mem_cons.1 h
    rw [List.flatMap_cons, List.append_assoc]
    exact .feed hl hreturn (ih hls)

end TypeIgnore.Text
