import TypeIgnore.Marker.CodeSet
import TypeIgnore.Proofs.Text.Pieces
import TypeIgnore.Proofs.Text.Trim
import Mathlib.Data.List.Sort

/-!
# Codes in a marker

* `IsMarkerCode` — a text that is one code when it stands in the bracket of a marker;
* `commaList_joinWith` — such codes, written with commas, are read back;
* `isMarkerCode_of_mem_commaList` — and what is read from a bracket is such codes;
* `CodeSet.Sorted` — the sets as they are kept; with them `insertAll` and `ofList` depend on the members only.
-/

namespace TypeIgnore

/-! ## Codes -/

/-- A text that is one code when it stands in the bracket of a marker. -/
structure IsMarkerCode (code : Text) : Prop where
  ne_nil : code ≠ []
  trim : Text.trim code = code
  no_comma : ',' ∉ code
  no_bracket : ']' ∉ code
  no_hash : '#' ∉ code

section Written

open Text

/-- Between the commas every code but the first has a blank in front. -/
theorem exists_splitOn_joinWith {code : Text} {codes : List Text} (h : ∀ c ∈ code :: codes, IsMarkerCode c) :
    ∃ pieces, splitOn ',' (joinWith ", " (code :: codes)) = code :: pieces ∧ pieces.map Text.trim = codes := by
  induction codes generalizing code with
  | nil => exact ⟨[], splitOn_of_not_mem (h code List.mem_cons_self).no_comma, rfl⟩
  | cons next codes ih =>
    have hcode := h code List.mem_cons_self
    have hnext := h next (by simp)
    obtain ⟨pieces, hsplit, hmap⟩ := ih fun c hc => h c (List.mem_cons_of_mem _ hc)
    have hblank : splitOn ',' (' ' :: joinWith ", " (next :: codes)) = (' ' :: next) :: pieces :=
      splitOn_cons_of_ne (by decide) hsplit
    have hjoin : joinWith ", " (code :: next :: codes) = code ++ ',' :: ' ' :: joinWith ", " (next :: codes) := by
      simp [joinWith]
    refine ⟨(' ' :: next) :: pieces, ?_, ?_⟩
    · rw [hjoin, splitOn_append_cons hcode.no_comma, hblank]
    · rw [List.map_cons, hmap, trim_cons_of_blank (by decide), hnext.trim]

/-- Codes written with commas are read back. -/
theorem commaList_joinWith {codes : List Text} (h : ∀ code ∈ codes, IsMarkerCode code) :
    commaList (joinWith ", " codes) = codes := by
  cases codes with
  | nil => rfl
  | cons code codes =>
    obtain ⟨pieces, hsplit, hmap⟩ := exists_splitOn_joinWith h
    rw [commaList, hsplit, List.map_cons, hmap, (h code List.mem_cons_self).trim, List.filter_eq_self]
    intro c hc
    simpa using (h c hc).ne_nil

end Written

/-- What is read from the inside of a bracket is codes, of the characters that stand there. -/
theorem isMarkerCode_of_mem_commaList {inside code : Text} (hinside : ∀ c ∈ inside, c ≠ ']' ∧ c ≠ '#')
    (h : code ∈ Text.commaList inside) : IsMarkerCode code ∧ ∀ c ∈ code, c ∈ inside := by
  obtain ⟨hmem, hne⟩ := List.mem_filter.1 h
  obtain ⟨piece, hpiece, rfl⟩ := List.mem_map.1 hmem
  obtain ⟨hcomma, hsub⟩ := Text.mem_splitOn hpiece
  have hmem : ∀ c ∈ Text.trim piece, c ∈ inside := fun c hc => hsub c (Text.mem_of_mem_trim hc)
  refine ⟨⟨by simpa using hne, Text.trim_trim piece, ?_, ?_, ?_⟩, hmem⟩
  · exact fun hc => hcomma (Text.mem_of_mem_trim hc)
  · exact fun hc => (hinside _ (hmem _ hc)).1 rfl
  · exact fun hc => (hinside _ (hmem _ hc)).2 rfl

/-! ## Sets of codes -/

namespace CodeSet

/-- A set as it is kept. -/
def Sorted (s : CodeSet) : Prop := s.Pairwise (· < ·)

theorem Sorted.insert {s : CodeSet} (h : Sorted s) (code : Text) : Sorted (CodeSet.insert code s) := by
  induction s with
  | nil => exact List.pairwise_singleton _ _
  | cons c s ih =>
    obtain ⟨hc, hs⟩ := List.pairwise_cons.1 h
    unfold CodeSet.insert
    split
    · rename_i hlt
      refine List.pairwise_cons.2 ⟨?_, h⟩
      intro x hx
      rcases List.mem_cons.1 hx with rfl | hx
      · exact hlt
      · exact List.lt_trans hlt (hc x hx)
    split
    · exact h
    · rename_i hnlt hne
      refine List.pairwise_cons.2 ⟨?_, ih hs⟩
      intro x hx
      rcases mem_insert.1 hx with rfl | hx
      · by_contra hnlt'
        exact hne (List.le_antisymm (List.not_lt.1 hnlt') (List.not_lt.1 hnlt))
      · exact hc x hx

theorem Sorted.insertAll {s : CodeSet} (h : Sorted s) (codes : List Text) : Sorted (CodeSet.insertAll codes s) := by
  induction codes generalizing s with
  | nil => exact h
  | cons c codes ih => exact ih (h.insert c)

theorem sorted_ofList (codes : List Text) : Sorted (ofList codes) := Sorted.insertAll .nil codes

/-- Sets with the same members are the same list. -/
theorem Sorted.ext {s s' : CodeSet} (h : Sorted s) (h' : Sorted s') (hmem : ∀ code, code ∈ s ↔ code ∈ s') : s = s' :=
  h.eq_of_mem_iff h' hmem

theorem Sorted.insertAll_of_subset {s : CodeSet} (h : Sorted s) {codes : List Text} (hsub : ∀ code ∈ codes, code ∈ s) :
    CodeSet.insertAll codes s = s := by
  refine (h.insertAll codes).ext h fun code => ?_
  rw [mem_insertAll]
  exact or_iff_right_of_imp (hsub code)

theorem Sorted.ofList_eq {s : CodeSet} (h : Sorted s) : ofList s = s :=
  (sorted_ofList s).ext h fun _ => mem_ofList

end CodeSet

end TypeIgnore
