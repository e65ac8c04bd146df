import TypeIgnore.Path.Basic
import Mathlib.Order.Basic

/-!
# The order of paths

`Path.before` is a strict order in which any two paths can be compared: `Path.before_irrefl`, `Path.before_trans` and
`Path.before_of_not_before`. Each comes from the same fact about lists of steps and about single steps.
-/

namespace TypeIgnore

namespace Component

theorem before_irrefl (a : Component) : a.before a = false := by
  cases a with
  | parent => rfl
  | name t => simp [before]

theorem before_trans {a b c : Component} (hab : a.before b = true) (hbc : b.before c = true) : a.before c = true := by
  cases a with
  | parent =>
    cases c with
    | parent => cases b <;> cases hbc
    | name u => rfl
  | name t =>
    cases b with
    | parent => cases hab
    | name u =>
      cases c with
      | parent => cases hbc
      | name v =>
        simp only [before, decide_eq_true_eq] at hab hbc ⊢
        exact List.lt_trans hab hbc

theorem before_of_not_before {a b : Component} (hne : a ≠ b) (h : a.before b = false) : b.before a = true := by
  cases a with
  | parent =>
    cases b with
    | parent => exact absurd rfl hne
    | name u => cases h
  | name t =>
    cases b with
    | parent => rfl
    | name u =>
      simp only [before, decide_eq_false_iff_not, decide_eq_true_eq] at h ⊢
      by_contra hnot
      have heq : t = u := List.le_antisymm (List.not_lt.1 hnot) (List.not_lt.1 h)
      exact hne (heq ▸ rfl)

end Component

namespace Path

theorem partsBefore_irrefl (p : List Component) : partsBefore p p = false := by
  induction p with
  | nil => rfl
  | cons a p ih => simpa [partsBefore] using ih

theorem partsBefore_trans {p q r : List Component} (hpq : partsBefore p q = true) (hqr : partsBefore q r = true) :
    partsBefore p r = true := by
  induction p generalizing q r with
  | nil =>
    cases r with
    | nil => cases q <;> cases hqr
    | cons c r => rfl
  | cons a p ih =>
    cases q with
    | nil => cases hpq
    | cons b q =>
      cases r with
      | nil => cases hqr
      | cons c r =>
        -- the first difference of the three decides
        unfold partsBefore at hpq hqr ⊢
        by_cases hab : a = b
        · subst hab
          by_cases hac : a = c
          · rw [if_pos rfl] at hpq
            rw [if_pos hac] at hqr ⊢
            exact ih hpq hqr
          · rwa [if_neg hac] at hqr ⊢
        · rw [if_neg hab] at hpq
          by_cases hbc : b = c
          · subst hbc
            rwa [if_neg hab]
          · rw [if_neg hbc] at hqr
            have hac := Component.before_trans hpq hqr
            have hne : a ≠ c := by
              rintro rfl
              rw [Component.before_irrefl] at hac
              cases hac
            rwa [if_neg hne]

theorem partsBefore_of_not_before {p q : List Component} (hne : p ≠ q) (h : partsBefore p q = false) :
    partsBefore q p = true := by
  induction p generalizing q with
  | nil =>
    cases q with
    | nil => exact absurd rfl hne
    | cons b q => cases h
  | cons a p ih =>
    cases q with
    | nil => rfl
    | cons b q =>
      unfold partsBefore at h ⊢
      by_cases hab : a = b
      · subst hab
        rw [if_pos rfl] at h ⊢
        exact ih (fun hpq => hne (hpq ▸ rfl)) h
      · rw [if_neg hab] at h
        rw [if_neg (Ne.symm hab)]
        exact Component.before_of_not_before hab h

theorem before_irrefl (p : Path) : p.before p = false := by
  obtain ⟨rooted, parts⟩ := p
  cases rooted <;> exact partsBefore_irrefl parts

theorem before_trans {p q r : Path} (hpq : p.before q = true) (hqr : q.before r = true) : p.before r = true := by
  obtain ⟨rp, p⟩ := p
  obtain ⟨rq, q⟩ := q
  obtain ⟨rr, r⟩ := r
  cases rp <;> cases rq <;> cases rr
  · exact partsBefore_trans hpq hqr
  · -- the path with no step at all comes before every path from the root directory
    cases p with
    | nil => rfl
    | cons a p => cases q <;> simp_all [before, partsBefore]
  · cases p with
    | nil => cases r <;> simp_all [before, partsBefore]
    | cons a p => cases hpq
  · exact hpq
  · cases r with
    | nil => cases q <;> simp_all [before, partsBefore]
    | cons c r => rfl
  · cases q <;> simp_all [before]
  · exact hqr
  · exact partsBefore_trans hpq hqr

theorem before_of_not_before {p q : Path} (hne : p ≠ q) (h : p.before q = false) : q.before p = true := by
  obtain ⟨rp, p⟩ := p
  obtain ⟨rq, q⟩ := q
  cases rp <;> cases rq
  · exact partsBefore_of_not_before (fun hpq => hne (congrArg (Path.mk false) hpq)) h
  · simpa [before] using h
  · simpa [before] using h
  · exact partsBefore_of_not_before (fun hpq => hne (congrArg (Path.mk true) hpq)) h

end Path

end TypeIgnore
