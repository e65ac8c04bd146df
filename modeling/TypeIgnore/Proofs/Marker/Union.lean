import TypeIgnore.Proofs.Marker.Removal
import TypeIgnore.Proofs.Text.Number

/-!
# The codes of a new comment

* `LineRequest.WantsCode` — the codes that a request leaves a comment with: those that it had and that are not removed,
  and those that are added;
* `MarkerState.drop_cases_of_not_blanket`, `MarkerState.exists_granted_codes` — these are the codes of the new marker,
  unless a blanket marker stays, and without any of them there is no marker (`MarkerState.granted_eq_absent`);
* `Rewrites` — how a comment is written anew around its marker, `rewrites_synthesize` — it is;
* `synthesize_unionsCodes` — the whole of it: which comments stay, and what codes the others get.
-/

namespace TypeIgnore

/-- The code is one that the comment has got and keeps, or it is added. The wildcard removes every code. -/
def LineRequest.WantsCode (r : LineRequest) (c : TrailingComment) (code : Text) : Prop :=
  (code ∈ c.codes ∧ wildcard ∉ r.remove ∧ code ∉ r.remove) ∨ code ∈ r.add

instance (r : LineRequest) (c : TrailingComment) (code : Text) : Decidable (r.WantsCode c code) :=
  inferInstanceAs (Decidable ((_ ∧ _ ∧ _) ∨ _))

/-- Where the marker is removed, no code is wanted. -/
theorem RemovesMarker.not_wantsCode {c : TrailingComment} {r : LineRequest} (h : RemovesMarker c r) (code : Text) :
    ¬ r.WantsCode c code := by
  obtain ⟨-, ⟨-, hadd⟩, hremoved⟩ := h
  rintro (⟨hcode, hwildcard, hkept⟩ | hcode)
  · exact hremoved.elim hwildcard fun hall => hkept (hall.2 code hcode)
  · rw [hadd] at hcode
    cases hcode

namespace MarkerState

variable {existing : Text} {r : LineRequest}

theorem codes_eq_nil_of_absent (h : ofText existing = .absent) : (TrailingComment.ofText existing).codes = [] := by
  unfold ofText ofComment at h
  unfold TrailingComment.codes
  split at h <;> simp_all

theorem codes_eq_nil_of_blanket (h : ofText existing = .blanket) : (TrailingComment.ofText existing).codes = [] := by
  unfold ofText ofComment at h
  unfold TrailingComment.codes
  split at h <;> simp_all

/-- What is left of a marker that does not stay blanket: the codes that are not removed. -/
theorem drop_cases_of_not_blanket (remove : CodeSet) (h : ¬ (ofText existing = .blanket ∧ wildcard ∉ remove)) :
    ((ofText existing).drop remove = .absent ∧
      ∀ code, ¬ (code ∈ (TrailingComment.ofText existing).codes ∧ wildcard ∉ remove ∧ code ∉ remove)) ∨
    ∃ kept, (ofText existing).drop remove = .codes kept ∧
      ∀ code, code ∈ kept ↔ code ∈ (TrailingComment.ofText existing).codes ∧ wildcard ∉ remove ∧ code ∉ remove := by
  by_cases hwildcard : wildcard ∈ remove
  · refine .inl ⟨?_, fun code hcode => hcode.2.1 hwildcard⟩
    cases ofText existing <;> simp [drop, hwildcard]
  cases hm : ofText existing with
  | absent =>
    refine .inl ⟨rfl, ?_⟩
    simp [codes_eq_nil_of_absent hm]
  | blanket => exact absurd ⟨hm, hwildcard⟩ h
  | codes s =>
    have hmem : ∀ code, code ∈ s.filter (!remove.contains ·) ↔
        code ∈ (TrailingComment.ofText existing).codes ∧ wildcard ∉ remove ∧ code ∉ remove := by
      intro code
      simp [List.mem_filter, mem_codes_iff hm, hwildcard]
    have hcontains : remove.contains wildcard = false := by simpa using hwildcard
    simp only [drop, hcontains, Bool.false_eq_true, if_false]
    split
    · rename_i hnil
      rw [hnil] at hmem
      exact .inl ⟨rfl, fun code hcode => List.not_mem_nil ((hmem code).2 hcode)⟩
    · exact .inr ⟨_, rfl, hmem⟩

/-- A blanket marker stays unless all of it is removed. -/
theorem granted_eq_blanket (hblanket : r.blanket = false) (h : ofText existing = .blanket ∧ wildcard ∉ r.remove) :
    (granted existing r).marker = .blanket := by
  rw [granted, h.1]
  simp [drop, grant, h.2, hblanket]

/-- **The new marker has the codes that are wanted,** unless a blanket marker stays or no code is wanted. -/
theorem exists_granted_codes (hblanket : r.blanket = false)
    (h : ¬ (ofText existing = .blanket ∧ wildcard ∉ r.remove))
    (hwants : ∃ code, r.WantsCode (.ofText existing) code) :
    ∃ s, (granted existing r).marker = .codes s ∧ ∀ code, code ∈ s ↔ r.WantsCode (.ofText existing) code := by
  rcases drop_cases_of_not_blanket r.remove h with ⟨hdrop, hnone⟩ | ⟨kept, hdrop, hkept⟩
  · have hadd : ∀ code, r.WantsCode (.ofText existing) code ↔ code ∈ r.add := fun code =>
      or_iff_right (hnone code)
    have hne : r.add ≠ [] := by
      obtain ⟨code, hcode⟩ := hwants
      exact List.ne_nil_of_mem ((hadd code).1 hcode)
    refine ⟨r.add, ?_, fun code => (hadd code).symm⟩
    rw [granted, hdrop]
    simp [grant, hblanket, hne]
  · refine ⟨kept.insertAll r.add, ?_, ?_⟩
    · rw [granted, hdrop]
      cases hadd : r.add with
      | nil => simp [grant, hblanket, hadd, CodeSet.insertAll]
      | cons code codes => simp [grant, hblanket, hadd]
    · intro code
      rw [CodeSet.mem_insertAll, hkept, LineRequest.WantsCode, or_comm]

/-- Where no code is wanted, no marker is left. -/
theorem granted_eq_absent (hblanket : r.blanket = false) (h : ¬ (ofText existing = .blanket ∧ wildcard ∉ r.remove))
    (hwants : ¬ ∃ code, r.WantsCode (.ofText existing) code) : (granted existing r).marker = .absent := by
  have hadd : r.add = [] := List.eq_nil_iff_forall_not_mem.2 fun code hcode => hwants ⟨code, .inr hcode⟩
  have hdrop : (ofText existing).drop r.remove = .absent := by
    rcases drop_cases_of_not_blanket r.remove h with ⟨hdrop, -⟩ | ⟨kept, hdrop, hkept⟩
    · exact hdrop
    · have hcanonical := (canonical_ofText existing).drop r.remove
      rw [hdrop] at hcanonical
      obtain ⟨code, hcode⟩ := List.exists_mem_of_ne_nil kept hcanonical.1
      exact absurd ⟨code, .inl ((hkept code).1 hcode)⟩ hwants
  exact grant_eq_absent_iff.2 ⟨⟨hblanket, hadd⟩, hdrop⟩

end MarkerState

/-! ## Comments written anew -/

/-- What a comment says besides its marker. -/
def TrailingComment.remarkText (c : TrailingComment) : Text :=
  match c.remark with
  | .marker _ trailer => trailer
  | .plain text => text

/-- The comment `result` is `c` with another marker: its codes ascend, its separator is that of `c` if there is one,
and behind the marker it ends as `c` does. -/
structure Rewrites (c : TrailingComment) (result : Text) : Prop where
  ascending : (TrailingComment.ofText result).codes.Pairwise (· < ·)
  separator : c.separator ≠ [] → (TrailingComment.ofText result).separator = c.separator
  trailer : c.remarkText <:+ (TrailingComment.ofText result).trailer
  ending : c.remarkText <:+ result

theorem remarkText_suffix_keptTail (c : TrailingComment) : c.remarkText <:+ keptTail c := by
  unfold TrailingComment.remarkText keptTail
  cases c.remark with
  | marker codes trailer => exact List.suffix_rfl
  | plain text =>
    cases text with
    | nil => exact List.suffix_rfl
    | cons x text => exact List.suffix_append _ _

section Synthesize

variable {existing : Text} {r : LineRequest} {style : CommentStyle}

theorem separator_synthesize (style : CommentStyle) {s : CodeSet}
    (hne : (MarkerState.granted existing r).marker ≠ MarkerState.ofText existing)
    (hs : (MarkerState.granted existing r).marker = .codes s) :
    (TrailingComment.ofText (synthesize existing r style)).separator = newSeparator (.ofText existing) := by
  have htext : (MarkerState.granted existing r).marker.text? =
      some (markerText ++ "[" ++ Text.joinWith ", " s ++ "]") := by
    rw [hs]
    rfl
  have hstop : ∀ rest : Text, ∀ c ∈ ('#' :: rest).head?, isSeparator c = false := by
    rintro rest c ⟨⟩
    rfl
  rw [synthesize_of_text hne htext]
  exact Text.takeWhile_append_stop (isSeparator_of_mem_newSeparator existing) (hstop _)

theorem rewrites_synthesize {s : CodeSet} (hsorted : CodeSet.Sorted r.add) (hcodes : ∀ code ∈ r.add, IsMarkerCode code)
    (hne : (MarkerState.granted existing r).marker ≠ MarkerState.ofText existing)
    (hs : (MarkerState.granted existing r).marker = .codes s) :
    Rewrites (.ofText existing) (synthesize existing r style) := by
  have hremark := TrailingComment.remark_synthesize style hcodes hne hs
  have hcanonical := MarkerState.canonical_granted existing hsorted
  rw [hs] at hcanonical
  have htrailer : TrailingComment.remarkText (.ofText existing) <:+
      (TrailingComment.ofText (synthesize existing r style)).trailer := by
    rw [TrailingComment.trailer, hremark]
    exact (remarkText_suffix_keptTail _).trans (List.suffix_append _ _)
  refine ⟨?_, ?_, htrailer, htrailer.trans (trailer_suffix _)⟩
  · rw [TrailingComment.codes, hremark]
    exact hcanonical.2
  · intro hseparator
    rw [separator_synthesize style hne hs, newSeparator, if_neg (by simpa using hseparator)]

/-- The marker stays exactly where the wanted codes are those that are there. -/
theorem granted_eq_ofText_iff {s : CodeSet} (hsorted : CodeSet.Sorted r.add)
    (hs : (MarkerState.granted existing r).marker = .codes s)
    (hmem : ∀ code, code ∈ s ↔ r.WantsCode (.ofText existing) code) :
    (MarkerState.granted existing r).marker = MarkerState.ofText existing ↔
      (TrailingComment.ofText existing).hasMarker = true ∧
        ∀ code, r.WantsCode (.ofText existing) code ↔ code ∈ (TrailingComment.ofText existing).codes := by
  have hcanonical := MarkerState.canonical_granted existing hsorted
  rw [hs] at hcanonical ⊢
  constructor
  · intro hsame
    refine ⟨MarkerState.hasMarker_of_codes hsame.symm, fun code => ?_⟩
    rw [MarkerState.mem_codes_iff hsame.symm, hmem]
  · rintro ⟨hmarker, hcodes⟩
    obtain ⟨code, hcode⟩ := List.exists_mem_of_ne_nil s hcanonical.1
    have hthere := (hcodes code).1 ((hmem code).1 hcode)
    have hcanonical' := MarkerState.canonical_ofText existing
    cases hm : MarkerState.ofText existing with
    | absent => simp [MarkerState.codes_eq_nil_of_absent hm] at hthere
    | blanket => simp [MarkerState.codes_eq_nil_of_blanket hm] at hthere
    | codes s' =>
      rw [hm] at hcanonical'
      refine congrArg MarkerState.codes (hcanonical.2.ext hcanonical'.2 fun code => ?_)
      rw [hmem, hcodes, MarkerState.mem_codes_iff hm]

end Synthesize

/-- **The codes of a new comment.** A blanket marker that is not removed stays. Otherwise the codes are those that are
wanted, if there are any: where they are those of the comment it stays to the letter, else it is written anew. -/
theorem synthesize_unionsCodes (existing : Text) (r : LineRequest) (style : CommentStyle) (hblanket : r.blanket = false)
    (hsorted : CodeSet.Sorted r.add) (hcodes : ∀ code ∈ r.add, IsMarkerCode code) :
    let c := TrailingComment.ofText existing
    let result := synthesize existing r style
    let stays := c.hasMarker = true ∧ ∀ code, r.WantsCode c code ↔ code ∈ c.codes
    (c.isBlanket = true ∧ wildcard ∉ r.remove → result = existing) ∧
      (¬ (c.isBlanket = true ∧ wildcard ∉ r.remove) → (∃ code, r.WantsCode c code) →
        ((TrailingComment.ofText result).hasMarker = true ∧
          ∀ code, code ∈ (TrailingComment.ofText result).codes ↔ r.WantsCode c code) ∧
        (stays → result = existing) ∧ (¬ stays → Rewrites c result)) := by
  intro c result stays
  have hisBlanket : c.isBlanket = true ↔ MarkerState.ofText existing = .blanket :=
    MarkerState.ofText_eq_blanket_iff.symm
  constructor
  · rintro ⟨hc, hwildcard⟩
    refine synthesize_of_same ?_
    rw [MarkerState.granted, hisBlanket.1 hc]
    simp [MarkerState.drop, MarkerState.grant, hwildcard, hblanket]
  · intro hnot hwants
    rw [hisBlanket] at hnot
    obtain ⟨s, hs, hmem⟩ := MarkerState.exists_granted_codes hblanket hnot hwants
    have hread : MarkerState.ofText result = .codes s := MarkerState.ofText_synthesize hsorted hcodes hs
    have hstays := granted_eq_ofText_iff hsorted hs hmem
    refine ⟨⟨MarkerState.hasMarker_of_codes hread, fun code => ?_⟩, fun h => ?_, fun h => ?_⟩
    · rw [MarkerState.mem_codes_iff hread, hmem]
    · exact synthesize_of_same (hstays.2 h)
    · exact rewrites_synthesize hsorted hcodes (fun hsame => h (hstays.1 hsame)) hs

/-- One of two codes goes, one comes, and the remark behind them stays. -/
theorem synthesize_unionsCodes_loose :
    let existing : Text := "\t#type : ignore [b , a,b]  why # not".toList
    let r : LineRequest := { add := ["a".toList, "c d".toList], remove := ["b".toList] }
    let style : CommentStyle := ⟨"FIX ME".toList, .full⟩
    let result := synthesize existing r style
    (r.blanket = false ∧ CodeSet.Sorted r.add ∧ ∀ code ∈ r.add, IsMarkerCode code) ∧
      ((TrailingComment.ofText result).hasMarker = true ∧
        ∀ code, code ∈ (TrailingComment.ofText result).codes ↔ r.WantsCode (.ofText existing) code) ∧
      Rewrites (.ofText existing) result := by
  intro existing r style result
  have hsorted : CodeSet.Sorted r.add := List.pairwise_pair.2 (by decide)
  have hcodes : ∀ code ∈ r.add, IsMarkerCode code := by
    intro code hcode
    rcases List.mem_pair.1 hcode with rfl | rfl
    · exact ⟨by decide, by decide, by decide, by decide, by decide⟩
    · exact ⟨by decide, by decide, by decide, by decide, by decide⟩
  have hchanges : ¬ ∀ code, r.WantsCode (.ofText existing) code ↔ code ∈ (TrailingComment.ofText existing).codes :=
    fun h => absurd ((h "b".toList).2 (by decide)) (by decide)
  obtain ⟨hread, -, hrewrites⟩ := (synthesize_unionsCodes existing r style rfl hsorted hcodes).2 (by decide)
    ⟨"a".toList, by decide⟩
  exact ⟨⟨rfl, hsorted, hcodes⟩, hread, hrewrites fun h => hchanges h.2⟩

end TypeIgnore
