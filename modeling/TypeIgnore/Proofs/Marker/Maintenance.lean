import TypeIgnore.Proofs.Marker.Requests
import TypeIgnore.Proofs.Marker.Union

/-!
# Diagnostics about markers

* `Diagnostic.IsMaintenance` — a diagnostic about a marker, and `Diagnostic.suggestedCodes` — the codes it wants there;
* `LineRequest.push_of_isMaintenance`, `LineRequest.ofDiagnostics_of_isMaintenance` — what one such diagnostic and what
  all of them ask for;
* `TrailingComment.Suppresses` — what a comment silences: `suppresses_synthesize_of_wants` and
  `suppresses_synthesize_of_removesMarker` say it of the new comment, `narrows_iff_of_not_blanket` compares the two;
* `synthesize_narrows_iff` — when such diagnostics leave a comment with nothing that it did not silence before.
-/

namespace TypeIgnore

/-! ## Diagnostics about markers -/

/-- A diagnostic about a marker: it silences nothing, or it should name codes. -/
def Diagnostic.IsMaintenance (d : Diagnostic) : Prop :=
  d.code = some unusedIgnoreCode ∨ d.code = some ignoreWithoutCodeCode

instance (d : Diagnostic) : Decidable d.IsMaintenance :=
  inferInstanceAs (Decidable (_ ∨ _))

theorem Diagnostic.IsMaintenance.wellCoded {d : Diagnostic} (h : d.IsMaintenance) : d.WellCoded := by
  intro code hcode
  rcases h with h | h
  · obtain rfl := Option.some.inj (hcode.symm.trans h)
    decide
  · obtain rfl := Option.some.inj (hcode.symm.trans h)
    decide

/-- The codes that the marker should name. -/
def Diagnostic.suggestedCodes (d : Diagnostic) : List Text :=
  if d.code = some ignoreWithoutCodeCode then quotedCodes d.message else []

/-- What a diagnostic about a marker does to a request. -/
theorem LineRequest.push_of_isMaintenance (r : LineRequest) {d : Diagnostic} (hd : d.IsMaintenance) :
    ∃ remove, r.push d = { r with remove := remove, add := r.add.insertAll d.suggestedCodes } := by
  rcases hd with hcode | hcode
  · have hnone : d.suggestedCodes = [] := by
      rw [Diagnostic.suggestedCodes, hcode, if_neg (by decide)]
    rw [push, hcode, hnone]
    simp only [if_true]
    split
    · exact ⟨_, rfl⟩
    · exact ⟨_, rfl⟩
  · have hquoted : d.suggestedCodes = quotedCodes d.message := by
      rw [Diagnostic.suggestedCodes, hcode, if_pos rfl]
    have hother : ignoreWithoutCodeCode ≠ unusedIgnoreCode := by decide
    rw [push, hcode, hquoted]
    simp only [hother, if_false, if_true]
    exact ⟨_, rfl⟩

/-- Such diagnostics ask for no blanket marker, and for the codes that they suggest. -/
theorem LineRequest.ofDiagnostics_of_isMaintenance {ds : List Diagnostic} (h : ∀ d ∈ ds, d.IsMaintenance) :
    (ofDiagnostics ds).blanket = false ∧
      ∀ code, code ∈ (ofDiagnostics ds).add ↔ ∃ d ∈ ds, code ∈ d.suggestedCodes := by
  induction ds using List.reverseRecOn with
  | nil => exact ⟨rfl, by simp [ofDiagnostics]⟩
  | append_singleton ds d ih =>
    obtain ⟨hblanket, hadd⟩ := ih fun x hx => h x (List.mem_append_left _ hx)
    obtain ⟨remove, hpush⟩ := push_of_isMaintenance (ofDiagnostics ds) (h d (by simp))
    rw [ofDiagnostics_append_singleton, hpush]
    refine ⟨hblanket, fun code => ?_⟩
    rw [CodeSet.mem_insertAll, hadd, exists_mem_concat]

/-! ## What a comment silences -/

/-- The marker of the comment silences the code. -/
def TrailingComment.Suppresses (c : TrailingComment) (code : Text) : Prop := c.isBlanket = true ∨ code ∈ c.codes

instance (c : TrailingComment) (code : Text) : Decidable (c.Suppresses code) :=
  inferInstanceAs (Decidable (_ ∨ _))

theorem TrailingComment.suppresses_of_not_blanket {c : TrailingComment} (h : c.isBlanket = false) (code : Text) :
    c.Suppresses code ↔ code ∈ c.codes := by
  simp [Suppresses, h]

/-- The separator has no part in what a comment silences. -/
theorem TrailingComment.suppresses_congr {t u : Text} (h : t.dropWhile isSeparator = u.dropWhile isSeparator)
    (code : Text) : (ofText t).Suppresses code ↔ (ofText u).Suppresses code := by
  simp only [Suppresses, isBlanket, hasMarker, codes, remark_ofText_congr h]

section Synthesize

variable {existing : Text} {r : LineRequest} {style : CommentStyle}

/-- Without its marker a comment silences what the text behind it does. -/
theorem suppresses_synthesize_of_removesMarker (hremoves : RemovesMarker (.ofText existing) r) (code : Text) :
    (TrailingComment.ofText (synthesize existing r style)).Suppresses code ↔
      (TrailingComment.ofText (leftover (.ofText existing) style)).Suppresses code := by
  apply TrailingComment.suppresses_congr
  rw [dropWhile_synthesize_of_removesMarker style hremoves, dropWhile_leftover]

/-- A comment with codes silences those that are wanted. -/
theorem suppresses_synthesize_of_wants (hr : r.Readable) (hblanket : r.blanket = false)
    (hnot : ¬ (MarkerState.ofText existing = .blanket ∧ wildcard ∉ r.remove))
    (hwants : ∃ code, r.WantsCode (.ofText existing) code) (code : Text) :
    (TrailingComment.ofText (synthesize existing r style)).Suppresses code ↔ r.WantsCode (.ofText existing) code := by
  obtain ⟨s, hs, hmem⟩ := MarkerState.exists_granted_codes hblanket hnot hwants
  have hread : MarkerState.ofText (synthesize existing r style) = .codes s :=
    MarkerState.ofText_synthesize hr.sorted hr.codes hs
  have hcodes : (TrailingComment.ofText (synthesize existing r style)).isBlanket = false := by
    rw [← Bool.not_eq_true, ← MarkerState.ofText_eq_blanket_iff, hread]
    simp
  rw [TrailingComment.suppresses_of_not_blanket hcodes, MarkerState.mem_codes_iff hread, hmem]

/-- A request without blanket marker widens nothing exactly where the codes that it adds are there, and a marker that it
uncovers by removing the first one has no other codes. -/
theorem narrows_iff_of_not_blanket (hr : r.Readable) (hblanket : r.blanket = false)
    (hbefore : (TrailingComment.ofText existing).isBlanket = false) :
    let c := TrailingComment.ofText existing
    (∀ code, (TrailingComment.ofText (synthesize existing r style)).Suppresses code → code ∈ c.codes) ↔
      (∀ code ∈ r.add, code ∈ c.codes) ∧
        (RemovesMarker c r → ∀ code, (TrailingComment.ofText (leftover c style)).Suppresses code → code ∈ c.codes) := by
  intro c
  have hnot : ¬ (MarkerState.ofText existing = .blanket ∧ wildcard ∉ r.remove) := by
    rintro ⟨hm, -⟩
    rw [MarkerState.ofText_eq_blanket_iff.1 hm] at hbefore
    cases hbefore
  by_cases hwants : ∃ code, r.WantsCode c code
  · have hkeeps : ¬ RemovesMarker c r := fun hremoves => hwants.elim hremoves.not_wantsCode
    simp only [suppresses_synthesize_of_wants hr hblanket hnot hwants, LineRequest.WantsCode, hkeeps, false_imp_iff,
      and_true]
    exact ⟨fun h code hcode => h code (.inr hcode), fun h code hcode => hcode.elim And.left (h code)⟩
  -- no code is added, and either there was no marker or it is removed
  have hnone : ∀ code ∈ r.add, code ∈ c.codes := fun code hcode => absurd ⟨code, .inr hcode⟩ hwants
  rw [and_iff_right hnone]
  by_cases hsame : (MarkerState.granted existing r).marker = MarkerState.ofText existing
  · have hkeeps : ¬ RemovesMarker c r := fun hremoves => (removesMarker_iff.1 hremoves).1 hsame
    rw [synthesize_of_same hsame]
    exact iff_of_true (fun code => (TrailingComment.suppresses_of_not_blanket hbefore code).1)
      fun hremoves => absurd hremoves hkeeps
  · have hremoves : RemovesMarker c r :=
      removesMarker_iff.2 ⟨hsame, MarkerState.granted_eq_absent hblanket hnot hwants⟩
    simp only [suppresses_synthesize_of_removesMarker hremoves, hremoves, true_imp_iff, c]

end Synthesize

/-- **When diagnostics about markers widen nothing.** The comment is blanket, or the codes that they suggest are
among its codes and a marker that they uncover by removing the first one has no other codes. -/
theorem synthesize_narrows_iff (existing : Text) (ds : List Diagnostic) (style : CommentStyle)
    (hds : ∀ d ∈ ds, d.IsMaintenance) :
    let r := LineRequest.ofDiagnostics ds
    let c := TrailingComment.ofText existing
    (∀ code, (TrailingComment.ofText (synthesize existing r style)).Suppresses code → c.Suppresses code) ↔
      c.isBlanket = true ∨
        (∀ d ∈ ds, ∀ code ∈ d.suggestedCodes, code ∈ c.codes) ∧
          (RemovesMarker c r →
            ∀ code, (TrailingComment.ofText (leftover c style)).Suppresses code → code ∈ c.codes) := by
  intro r c
  have hr : r.Readable := LineRequest.readable_ofDiagnostics fun d hd => (hds d hd).wellCoded
  obtain ⟨hblanket, hadd⟩ : r.blanket = false ∧ ∀ code, code ∈ r.add ↔ ∃ d ∈ ds, code ∈ d.suggestedCodes :=
    LineRequest.ofDiagnostics_of_isMaintenance hds
  have hsuggested : (∀ d ∈ ds, ∀ code ∈ d.suggestedCodes, code ∈ c.codes) ↔ ∀ code ∈ r.add, code ∈ c.codes := by
    simp only [hadd, forall_exists_index, and_imp]
    exact ⟨fun h code d hd hcode => h d hd code hcode, fun h d hd code hcode => h code d hd hcode⟩
  cases hbefore : c.isBlanket with
  | true => exact iff_of_true (fun code _ => .inl hbefore) (.inl rfl)
  | false =>
    simp only [TrailingComment.suppresses_of_not_blanket hbefore, Bool.false_eq_true, false_or, hsuggested]
    exact narrows_iff_of_not_blanket hr hblanket hbefore

/-- One of two codes is suggested, the other is removed. -/
theorem synthesize_narrows_to_suggested :
    let existing : Text := "  # type: ignore [b, a]  # why".toList
    let ds := [Diagnostic.onFirstLine ignoreWithoutCodeCode "(consider \"type: ignore[a]\" instead)".toList,
      Diagnostic.onFirstLine unusedIgnoreCode "Unused \"type: ignore[b]\" comment".toList]
    let r := LineRequest.ofDiagnostics ds
    let style : CommentStyle := ⟨[], .plain⟩
    (∀ d ∈ ds, d.IsMaintenance) ∧ synthesize existing r style = "  # type: ignore[a]  # why".toList ∧
      ∀ code, (TrailingComment.ofText (synthesize existing r style)).Suppresses code →
        (TrailingComment.ofText existing).Suppresses code := by
  intro existing ds r style
  have hds : ∀ d ∈ ds, d.IsMaintenance := by decide
  have hkeeps : ¬ RemovesMarker (.ofText existing) r := by decide +kernel
  refine ⟨hds, by decide +kernel, (synthesize_narrows_iff existing ds style hds).2 (.inr ⟨?_, ?_⟩)⟩
  · decide +kernel
  · exact fun hremoves => absurd hremoves hkeeps

/-- A line without a marker gets one with the codes that are suggested. -/
theorem synthesize_widens_without_marker :
    let ds := [Diagnostic.onFirstLine ignoreWithoutCodeCode
      "\"type: ignore\" comment without error code (consider \"type: ignore[operator]\" instead)".toList]
    let result := synthesize [] (LineRequest.ofDiagnostics ds) ⟨"FIX ME".toList, .plain⟩
    (∀ d ∈ ds, d.IsMaintenance) ∧ result = "  # type: ignore[operator]  # FIX ME".toList ∧
      (TrailingComment.ofText result).Suppresses "operator".toList ∧
      ¬ (TrailingComment.ofText []).Suppresses "operator".toList := by
  decide +kernel

end TypeIgnore
