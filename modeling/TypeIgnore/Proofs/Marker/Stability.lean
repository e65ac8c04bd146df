import TypeIgnore.Proofs.Marker.Blanket
import TypeIgnore.Proofs.Marker.Requests
import TypeIgnore.Proofs.Marker.Union

/-!
# Asking twice

* `synthesize_eq_self_iff` — a comment stays as it is exactly where its marker does; since no marker is read as its own
  trailer (`length_lt_of_marker?`), another marker is another text;
* `granted_synthesize_of_wants` — a marker with the codes that are wanted is not asked for anything more;
* `LineRequest.Touches r c` — the request takes codes from the marker of `c`, or all of it;
* `synthesize_idempotent_iff` — the second request changes something in two cases only: a removed marker uncovers
  another one that the request touches, or a new blanket marker is read together with a bracket behind it.
-/

namespace TypeIgnore

/-! ## What a reader leaves is shorter -/

theorem length_lt_of_after? {l : Char} {lead t rest : Text} (h : Text.after? (l :: lead) t = some rest) :
    rest.length < t.length := by
  rw [Text.after?_eq_some_iff.1 h]
  simp only [List.cons_append, List.length_cons, List.length_append]
  omega

theorem length_lt_of_bracket? {t inside rest : Text} (h : bracket? t = some (inside, rest)) :
    rest.length < t.length := by
  obtain ⟨u, hu, h⟩ := Option.bind_eq_some_iff.1 h
  obtain ⟨v, hv, h⟩ := Option.bind_eq_some_iff.1 h
  obtain ⟨-, rfl⟩ := Prod.mk.inj (Option.some.inj h)
  have hblanks : (Text.trimStart t).length ≤ t.length := Text.length_dropWhile_le Text.isBlank t
  have hopen : u.length < (Text.trimStart t).length := length_lt_of_after? hu
  have hinside := Text.length_dropWhile_le (fun c => c != ']' && c != '#') u
  have hclose := length_lt_of_after? hv
  omega

/-- The text after a marker is shorter than the text that starts with it. -/
theorem length_lt_of_marker? {t trailer : Text} {codes : List Text} (h : marker? t = some (codes, trailer)) :
    trailer.length < t.length := by
  obtain ⟨rest, hrest, h⟩ := Option.bind_eq_some_iff.1 h
  obtain ⟨u, hu, hwords⟩ := Option.bind_eq_some_iff.1 hrest
  have hhash : u.length < t.length := length_lt_of_after? hu
  have hwords := (suffix_of_afterWords? hwords).length_le
  cases hbracket : bracket? rest with
  | none =>
    simp only [hbracket, Option.getD_none] at h
    split at h <;> cases h
    omega
  | some result =>
    have hshorter := length_lt_of_bracket? hbracket
    simp only [hbracket, Option.getD_some] at h
    split at h <;> cases h
    omega

/-! ## Another marker is another text -/

section Synthesize

variable {existing : Text} {r : LineRequest} {style : CommentStyle}

/-- What a removed marker leaves is shorter than the comment. -/
theorem synthesize_ne_of_removesMarker (hremoves : RemovesMarker (.ofText existing) r) :
    synthesize existing r style ≠ existing := by
  intro hself
  have hbody := dropWhile_synthesize_of_removesMarker style hremoves
  rw [hself] at hbody
  have hleft := (leftover_suffix (.ofText existing) style).length_le
  have hmarker := hremoves.1
  cases hremark : (TrailingComment.ofText existing).remark with
  | plain text => simp [TrailingComment.hasMarker, hremark] at hmarker
  | marker codes trailer =>
    have hshorter := length_lt_of_marker? (TrailingComment.marker?_of_remark_ofText hremark)
    rw [hbody] at hshorter
    simp only [TrailingComment.trailer, hremark] at hleft
    omega

/-- A comment that gets a blanket marker has another one, or none, where the new one stands. -/
theorem synthesize_ne_of_granted_blanket (hmarker : (MarkerState.granted existing r).marker = .blanket)
    (hchanges : (MarkerState.granted existing r).marker ≠ MarkerState.ofText existing) :
    synthesize existing r style ≠ existing := by
  intro hself
  have htext : (MarkerState.granted existing r).marker.text? = some markerText := by
    rw [hmarker]
    rfl
  have hbody := dropWhile_synthesize_of_text style hchanges htext
  rw [hself] at hbody
  have hkept := (remarkText_suffix_keptTail (.ofText existing)).length_le
  cases hremark : (TrailingComment.ofText existing).remark with
  | plain text =>
    -- the whole remark would stand behind a marker in itself
    have hlength := congrArg List.length hbody
    rw [← TrailingComment.plain_of_remark_ofText hremark] at hlength
    have hwritten : markerText.length = 14 := rfl
    simp only [TrailingComment.remarkText, hremark] at hkept
    simp only [List.length_append] at hlength
    omega
  | marker codes trailer =>
    have htail : keptTail (.ofText existing) = trailer := by simp only [keptTail, hremark]
    have hcodes : codes ≠ [] := by
      rintro rfl
      have hblanket : MarkerState.ofText existing = .blanket := by
        simp only [MarkerState.ofText, MarkerState.ofComment, hremark]
      exact hchanges (hmarker.trans hblanket.symm)
    have hread := TrailingComment.marker?_of_remark_ofText hremark
    rw [hbody, htail] at hread
    -- the text behind the marker would have to start with a bracket that it is itself behind
    obtain ⟨inside, hbracket⟩ := exists_bracket?_of_marker? hcodes hread
    rcases annotations_eq_nil_or_bracket? r style (MarkerState.granted existing r) trailer with hnil | ⟨-, hnone⟩
    · rw [hnil, List.nil_append] at hbracket
      exact lt_irrefl _ (length_lt_of_bracket? hbracket)
    · rw [hnone] at hbracket
      cases hbracket

/-- **A comment stays as it is exactly where its marker does.** -/
theorem synthesize_eq_self_iff (hr : r.Readable) :
    synthesize existing r style = existing ↔
      (MarkerState.granted existing r).marker = MarkerState.ofText existing := by
  refine ⟨fun hself => ?_, synthesize_of_same⟩
  by_contra hchanges
  cases hmarker : (MarkerState.granted existing r).marker with
  | absent => exact synthesize_ne_of_removesMarker (removesMarker_iff.2 ⟨hchanges, hmarker⟩) hself
  | blanket => exact synthesize_ne_of_granted_blanket hmarker hchanges hself
  | codes s =>
    have hread : MarkerState.ofText (synthesize existing r style) = .codes s :=
      MarkerState.ofText_synthesize hr.sorted hr.codes hmarker
    rw [hself] at hread
    exact hchanges (hmarker.trans hread.symm)

/-! ## The second request -/

/-- A marker with the codes that are wanted is not asked for anything more. -/
theorem granted_synthesize_of_wants (hr : r.Readable) (hblanket : r.blanket = false)
    (hstays : ¬ (MarkerState.ofText existing = .blanket ∧ wildcard ∉ r.remove))
    (hwants : ∃ code, r.WantsCode (.ofText existing) code) :
    (MarkerState.granted (synthesize existing r style) r).marker =
      MarkerState.ofText (synthesize existing r style) := by
  obtain ⟨s, hs, hmem⟩ := MarkerState.exists_granted_codes hblanket hstays hwants
  have hread : MarkerState.ofText (synthesize existing r style) = .codes s :=
    MarkerState.ofText_synthesize hr.sorted hr.codes hs
  have hagain : ∀ code, r.WantsCode (.ofText (synthesize existing r style)) code ↔ code ∈ s := by
    intro code
    rw [LineRequest.WantsCode, MarkerState.mem_codes_iff hread, hmem, LineRequest.WantsCode]
    tauto
  have hwants' : ∃ code, r.WantsCode (.ofText (synthesize existing r style)) code :=
    hwants.imp fun code hcode => (hagain code).2 ((hmem code).2 hcode)
  obtain ⟨s', hs', hmem'⟩ := MarkerState.exists_granted_codes hblanket (by simp [hread]) hwants'
  refine (granted_eq_ofText_iff hr.sorted hs' hmem').2 ⟨MarkerState.hasMarker_of_codes hread, fun code => ?_⟩
  rw [hagain, MarkerState.mem_codes_iff hread]

/-- The request takes codes from the marker of `c`, or all of it. -/
def LineRequest.Touches (r : LineRequest) (c : TrailingComment) : Prop :=
  c.hasMarker = true ∧ (wildcard ∈ r.remove ∨ ∃ code ∈ c.codes, code ∈ r.remove)

instance (r : LineRequest) (c : TrailingComment) : Decidable (r.Touches c) :=
  inferInstanceAs (Decidable (_ ∧ _))

theorem MarkerState.drop_eq_self_iff {t : Text} :
    (ofText t).drop r.remove = ofText t ↔ ¬ r.Touches (.ofText t) := by
  rw [LineRequest.Touches]
  cases hm : ofText t with
  | absent => simp [drop, ofText_eq_absent_iff.1 hm]
  | blanket =>
    have hmarker := (Bool.and_eq_true_iff.1 (ofText_eq_blanket_iff.1 hm)).1
    by_cases hwildcard : wildcard ∈ r.remove
    · simp [drop, hmarker, hwildcard]
    · simp [drop, hmarker, hwildcard, codes_eq_nil_of_blanket hm]
  | codes s =>
    have hfilter : s.filter (!r.remove.contains ·) = s ↔ ∀ code ∈ s, code ∉ r.remove := by
      simp [List.filter_eq_self]
    have hcanonical := canonical_ofText t
    rw [hm] at hcanonical
    simp only [hasMarker_of_codes hm, mem_codes_iff hm, true_and, not_or, not_exists, not_and]
    by_cases hwildcard : wildcard ∈ r.remove
    · simp [drop, hwildcard]
    · rw [← hfilter]
      simp only [drop, List.contains_iff_mem, hwildcard, if_false, not_false_eq_true, true_and]
      split
      · rename_i hnil
        rw [hnil]
        simp [Ne.symm hcanonical.1]
      · rw [MarkerState.codes.injEq]

/-- A comment that has lost its marker stays as it is exactly where the request does not touch what was behind it. -/
theorem granted_synthesize_of_removesMarker (hremoves : RemovesMarker (.ofText existing) r) :
    (MarkerState.granted (synthesize existing r style) r).marker = MarkerState.ofText (synthesize existing r style) ↔
      ¬ r.Touches (.ofText (leftover (.ofText existing) style)) := by
  obtain ⟨hblanket, hadd⟩ := hremoves.2.1
  have hread : MarkerState.ofText (synthesize existing r style) =
      MarkerState.ofText (leftover (.ofText existing) style) := by
    refine MarkerState.ofText_congr ?_
    rw [dropWhile_synthesize_of_removesMarker style hremoves, dropWhile_leftover]
  have hgranted : (MarkerState.granted (synthesize existing r style) r).marker =
      (MarkerState.ofText (synthesize existing r style)).drop r.remove := by
    simp [MarkerState.granted, MarkerState.grant, hblanket, hadd]
  rw [hgranted, hread, MarkerState.drop_eq_self_iff]

/-- A comment that was to get a blanket marker stays as it is exactly where it has got it. -/
theorem granted_synthesize_of_blanket (hblanket : r.blanket = true)
    (hnot : (TrailingComment.ofText existing).isBlanket = false) :
    (MarkerState.granted (synthesize existing r style) r).marker = MarkerState.ofText (synthesize existing r style) ↔
      ¬ LosesBlanket (.ofText existing) r style := by
  rw [granted_eq_ofText_iff_of_blanket hblanket, isBlanket_synthesize_iff_of_not hblanket hnot, LosesBlanket,
    and_iff_right hnot]

end Synthesize

/-- **When a second request changes nothing.** The diagnostics are as reports have them. The comment stays unless its
marker was removed and what was behind it has a marker that the request touches, or it was to get a blanket marker and
this is read together with a bracket behind it. -/
theorem synthesize_idempotent_iff (existing : Text) (ds : List Diagnostic) (style : CommentStyle)
    (hds : ∀ d ∈ ds, d.WellCoded) :
    let r := LineRequest.ofDiagnostics ds
    let c := TrailingComment.ofText existing
    synthesize (synthesize existing r style) r style = synthesize existing r style ↔
      ¬ (RemovesMarker c r ∧ r.Touches (.ofText (leftover c style))) ∧
        ¬ (r.blanket = true ∧ LosesBlanket c r style) := by
  intro r c
  have hr : r.Readable := LineRequest.readable_ofDiagnostics hds
  rw [synthesize_eq_self_iff hr]
  by_cases hsame : (MarkerState.granted existing r).marker = MarkerState.ofText existing
  · -- the first request changes nothing
    rw [synthesize_of_same hsame]
    refine iff_of_true hsame ⟨fun h => (removesMarker_iff.1 h.1).1 hsame, ?_⟩
    rintro ⟨hblanket, hnot, -⟩
    rw [(granted_eq_ofText_iff_of_blanket hblanket).1 hsame] at hnot
    cases hnot
  cases hblanket : r.blanket with
  | true =>
    have hkeeps : ¬ RemovesMarker c r := fun h => by simp [h.2.1.1] at hblanket
    have hnot : c.isBlanket = false := by
      simpa using mt (granted_eq_ofText_iff_of_blanket hblanket).2 hsame
    rw [granted_synthesize_of_blanket hblanket hnot]
    simp [hkeeps, c]
  | false =>
    have hstays : ¬ (MarkerState.ofText existing = .blanket ∧ wildcard ∉ r.remove) := fun h =>
      hsame ((MarkerState.granted_eq_blanket hblanket h).trans h.1.symm)
    by_cases hwants : ∃ code, r.WantsCode c code
    · have hkeeps : ¬ RemovesMarker c r := fun hremoves => hwants.elim hremoves.not_wantsCode
      simp [granted_synthesize_of_wants hr hblanket hstays hwants, hkeeps]
    · have hremoves : RemovesMarker c r :=
        removesMarker_iff.2 ⟨hsame, MarkerState.granted_eq_absent hblanket hstays hwants⟩
      rw [granted_synthesize_of_removesMarker hremoves]
      simp [hremoves, c]

namespace UnusedMarker

/-- The checker takes the marker of a line for unused. -/
def report : Text := "m.py:1: error: Unused \"type: ignore\" comment  [unused-ignore]\n"

theorem diagnostics_report :
    (Report.ofText report).diagnostics = [.onFirstLine unusedIgnoreCode "Unused \"type: ignore\" comment"] :=
  Report.diagnostics_eq_singleton (by decide +kernel)

end UnusedMarker

/-- The marker that is uncovered has codes of its own, and stays. -/
theorem synthesize_idempotent_of_untouched :
    let existing : Text := "  # type: ignore[a] # FIX ME\t# type: ignore[b]".toList
    let ds := [Diagnostic.onFirstLine unusedIgnoreCode "Unused \"type: ignore[a]\" comment".toList]
    let r := LineRequest.ofDiagnostics ds
    let style : CommentStyle := ⟨"FIX ME".toList, .plain⟩
    (∀ d ∈ ds, d.WellCoded) ∧ synthesize existing r style = "  # type: ignore[b]".toList ∧
      synthesize (synthesize existing r style) r style = synthesize existing r style := by
  intro existing ds r style
  have hds : ∀ d ∈ ds, d.WellCoded := by
    intro d hd code hcode
    obtain rfl := List.mem_singleton.1 hd
    cases hcode
    decide
  exact ⟨hds, by decide +kernel, (synthesize_idempotent_iff existing ds style hds).2 (by decide +kernel)⟩

/-- A report of one unused marker, followed twice, removes two of them. -/
theorem synthesize_removes_two_markers :
    let existing : Text := "  # type: ignore  # type: ignore".toList
    let r := LineRequest.ofDiagnostics (Report.ofText UnusedMarker.report).diagnostics
    let style : CommentStyle := ⟨"FIX ME".toList, .plain⟩
    IsComment existing ∧ synthesize existing r style = "  # type: ignore".toList ∧
      synthesize (synthesize existing r style) r style = [] ∧
      ¬ synthesize (synthesize existing r style) r style = synthesize existing r style := by
  rw [UnusedMarker.diagnostics_report]
  decide +kernel

end TypeIgnore
