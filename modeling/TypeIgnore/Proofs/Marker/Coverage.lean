import TypeIgnore.Proofs.Marker.Synthesis
import Mathlib.Data.List.Induction

/-!
# Covered codes

* `IsReportCode`, `Diagnostic.IsOrdinary` — a code as reports have it, and a diagnostic with such a code that is not
  about markers themselves;
* `LineRequest.AddsOnly` — a request for such codes and nothing else; kept by every ordinary diagnostic
  (`LineRequest.AddsOnly.push`), hence what ordinary diagnostics ask for (`LineRequest.addsOnly_ofDiagnostics`);
* `MarkerState.Covers m codes` — the marker silences all of `codes`;
* `LineRequest.AddsOnly.covers_synthesize`, `LineRequest.AddsOnly.synthesize_of_covers` — the new comment covers what
  was asked for, and a comment that covers it stays as it is.
-/

namespace TypeIgnore

/-! ## Codes of a report -/

theorem toNat_of_isCodeChar {c : Char} (h : isCodeChar c = true) :
    (97 ≤ c.toNat ∧ c.toNat ≤ 122) ∨ (48 ≤ c.toNat ∧ c.toNat ≤ 57) ∨ c.toNat = 95 ∨ c.toNat = 45 := by
  simp only [isCodeChar, startsCode, Bool.or_eq_true, Bool.and_eq_true, decide_eq_true_eq, beq_iff_eq, Char.le_def,
    UInt32.le_iff_toNat_le] at h
  rcases h with ((h | h) | rfl) | rfl
  · exact .inl h
  · exact .inr (.inl h)
  · decide
  · decide

theorem not_isBlank_of_isCodeChar {c : Char} (h : isCodeChar c = true) : Text.isBlank c = false := by
  have hrange := toNat_of_isCodeChar h
  simp only [Text.isBlank, Bool.or_eq_false_iff, Bool.and_eq_false_iff, decide_eq_false_iff_not, beq_eq_false_iff_ne]
  omega

/-- A code as reports have it. -/
def IsReportCode (code : Text) : Prop := code.head?.any startsCode = true ∧ code.all isCodeChar = true

instance (code : Text) : Decidable (IsReportCode code) :=
  inferInstanceAs (Decidable (_ ∧ _))

namespace IsReportCode

variable {code : Text}

theorem isCodeChar_of_mem (h : IsReportCode code) {c : Char} (hc : c ∈ code) : isCodeChar c = true :=
  List.all_eq_true.1 h.2 c hc

theorem not_mem (h : IsReportCode code) {c : Char} (hc : isCodeChar c = false) : c ∉ code := by
  intro hmem
  rw [h.isCodeChar_of_mem hmem] at hc
  cases hc

theorem isMarkerCode (h : IsReportCode code) : IsMarkerCode code where
  ne_nil := by
    rintro rfl
    cases h.1
  trim := Text.trim_of_not_blank fun c hc => not_isBlank_of_isCodeChar (h.isCodeChar_of_mem hc)
  no_comma := h.not_mem (by decide)
  no_bracket := h.not_mem (by decide)
  no_hash := h.not_mem (by decide)

theorem breakFree (h : IsReportCode code) : BreakFree code := by
  intro c hc
  by_contra hbreak
  simp only [isBreak, Bool.not_eq_false, Bool.or_eq_true, beq_iff_eq] at hbreak
  rcases hbreak with rfl | rfl
  · exact h.not_mem (by decide) hc
  · exact h.not_mem (by decide) hc

end IsReportCode

/-- A diagnostic with a code of its own, which is not about markers themselves. -/
def Diagnostic.IsOrdinary (d : Diagnostic) : Prop :=
  ∃ code, d.code = some code ∧ IsReportCode code ∧ code ≠ unusedIgnoreCode ∧ code ≠ ignoreWithoutCodeCode

instance (d : Diagnostic) : Decidable d.IsOrdinary :=
  match h : d.code with
  | none => isFalse (by simp [Diagnostic.IsOrdinary, h])
  | some code =>
    decidable_of_iff (IsReportCode code ∧ code ≠ unusedIgnoreCode ∧ code ≠ ignoreWithoutCodeCode)
      (by simp [Diagnostic.IsOrdinary, h])

/-! ## Requests of ordinary diagnostics -/

theorem breakFree_flatten (t : Text) : BreakFree (Text.flatten t) := by
  intro c hc
  obtain ⟨x, -, rfl⟩ := List.mem_map.1 hc
  split
  · rfl
  · rename_i hx
    simpa [isBreak, or_comm] using hx

namespace LineRequest

/-- Describing changes the descriptions only, and adds at most one. -/
theorem exists_describe_eq (r : LineRequest) (code : Option Text) (message : Text) :
    ∃ descriptions, r.describe code message = { r with descriptions := descriptions } ∧
      ∀ d ∈ descriptions, d ∈ r.descriptions ∨ d = ⟨code, Text.flatten message⟩ := by
  unfold describe
  simp only
  split
  · exact ⟨r.descriptions, rfl, fun d hd => .inl hd⟩
  · refine ⟨_, rfl, ?_⟩
    intro d hd
    exact (List.mem_append.1 hd).imp_right List.mem_singleton.1

/-- A request for codes, and for nothing else. -/
structure AddsOnly (r : LineRequest) : Prop where
  blanket : r.blanket = false
  remove : r.remove = []
  sorted : CodeSet.Sorted r.add
  codes : ∀ code ∈ r.add, IsReportCode code
  messages : ∀ d ∈ r.descriptions, BreakFree d.message

/-- What an ordinary diagnostic does to a request. -/
theorem push_of_isOrdinary (r : LineRequest) {d : Diagnostic} (hd : d.IsOrdinary) :
    ∃ code descriptions, d.code = some code ∧ IsReportCode code ∧
      r.push d = { r with add := r.add.insert code, descriptions := descriptions } ∧
      ∀ x ∈ descriptions, x ∈ r.descriptions ∨ x = ⟨some code, Text.flatten d.message⟩ := by
  obtain ⟨code, hcode, hreport, hunused, hwithout⟩ := hd
  obtain ⟨descriptions, hdescribe, hmem⟩ :=
    exists_describe_eq { r with add := r.add.insert code } (some code) d.message
  refine ⟨code, descriptions, hcode, hreport, ?_, hmem⟩
  rw [push, hcode]
  simp only [hunused, hwithout, if_false, hdescribe]

/-- One more ordinary diagnostic. -/
theorem AddsOnly.push {r : LineRequest} (h : AddsOnly r) {d : Diagnostic} (hd : d.IsOrdinary) :
    AddsOnly (r.push d) := by
  obtain ⟨code, descriptions, -, hreport, hpush, hmem⟩ := push_of_isOrdinary r hd
  rw [hpush]
  refine ⟨h.blanket, h.remove, h.sorted.insert code, ?_, ?_⟩
  · intro x hx
    rcases CodeSet.mem_insert.1 hx with rfl | hx
    · exact hreport
    · exact h.codes x hx
  · intro x hx
    rcases hmem x hx with hx | rfl
    · exact h.messages x hx
    · exact breakFree_flatten d.message

theorem ofDiagnostics_append_singleton (ds : List Diagnostic) (d : Diagnostic) :
    ofDiagnostics (ds ++ [d]) = (ofDiagnostics ds).push d :=
  List.foldl_concat ..

/-- What some diagnostic asks for, with one more of them. -/
theorem exists_mem_concat {ds : List Diagnostic} {d : Diagnostic} {P : Diagnostic → Prop} :
    (∃ x ∈ ds ++ [d], P x) ↔ P d ∨ ∃ x ∈ ds, P x := by
  simp only [List.mem_append, List.mem_singleton, or_and_right, exists_or, exists_eq_left]
  exact or_comm

theorem addsOnly_ofDiagnostics {ds : List Diagnostic} (h : ∀ d ∈ ds, d.IsOrdinary) : AddsOnly (ofDiagnostics ds) := by
  induction ds using List.reverseRecOn with
  | nil => exact ⟨rfl, rfl, .nil, by simp [ofDiagnostics], by simp [ofDiagnostics]⟩
  | append_singleton ds d ih =>
    rw [ofDiagnostics_append_singleton]
    exact (ih fun x hx => h x (List.mem_append_left _ hx)).push (h d (by simp))

/-- Ordinary diagnostics ask for their codes. -/
theorem mem_add_ofDiagnostics {ds : List Diagnostic} (h : ∀ d ∈ ds, d.IsOrdinary) {code : Text} :
    code ∈ (ofDiagnostics ds).add ↔ ∃ d ∈ ds, d.code = some code := by
  induction ds using List.reverseRecOn with
  | nil => simp [ofDiagnostics]
  | append_singleton ds d ih =>
    obtain ⟨code', _, hcode', -, hpush, -⟩ := push_of_isOrdinary (ofDiagnostics ds) (h d (by simp))
    rw [ofDiagnostics_append_singleton, hpush, CodeSet.mem_insert, ih fun x hx => h x (List.mem_append_left _ hx),
      exists_mem_concat, hcode', Option.some.injEq, eq_comm]

end LineRequest

/-! ## Markers that cover codes -/

/-- The marker silences all of the codes. -/
def MarkerState.Covers (codes : CodeSet) : MarkerState → Prop
  | .absent => False
  | .blanket => True
  | .codes s => ∀ code ∈ codes, code ∈ s

/-- Without removals a marker stays. -/
theorem MarkerState.drop_nil {m : MarkerState} (h : m.Canonical) : m.drop [] = m := by
  rcases drop_cases m [] with h' | h' | ⟨s, rfl, h', -⟩
  · cases m with
    | absent => rfl
    | blanket => rfl
    | codes s =>
      obtain ⟨code, rest, rfl⟩ := List.exists_cons_of_ne_nil h.1
      simp [drop] at h'
  · exact h'
  · rw [h']
    simp

/-- What a covering marker says of the comment it is read from. -/
theorem MarkerState.Covers.hasMarker {t : Text} {codes : CodeSet} (h : (ofText t).Covers codes) {code : Text}
    (hcode : code ∈ codes) :
    (TrailingComment.ofText t).hasMarker = true ∧
      ((TrailingComment.ofText t).isBlanket = true ∨ code ∈ (TrailingComment.ofText t).codes) := by
  cases hm : ofText t with
  | absent =>
    rw [hm] at h
    exact h.elim
  | blanket =>
    have hblanket := ofText_eq_blanket_iff.1 hm
    exact ⟨(Bool.and_eq_true_iff.1 hblanket).1, .inl hblanket⟩
  | codes s =>
    rw [hm] at h
    exact ⟨hasMarker_of_codes hm, .inr ((mem_codes_iff hm).2 (h code hcode))⟩

namespace LineRequest.AddsOnly

open MarkerState

variable {existing : Text} {r : LineRequest} {style : CommentStyle}

/-- The marker that such a request leads to. -/
theorem granted_marker (h : AddsOnly r) (hadd : r.add ≠ []) (existing : Text) :
    (granted existing r).marker =
      match ofText existing with
      | .absent => .codes r.add
      | .blanket => .blanket
      | .codes s => .codes (s.insertAll r.add) := by
  have hdrop : (ofText existing).drop r.remove = ofText existing := by
    rw [h.remove]
    exact drop_nil (canonical_ofText existing)
  have hempty : r.add.isEmpty = false := by simpa using hadd
  rw [granted, hdrop]
  cases ofText existing <;> simp [grant, h.blanket, hempty]

theorem granted_ne_absent (h : AddsOnly r) (hadd : r.add ≠ []) (existing : Text) :
    (granted existing r).marker ≠ .absent := by
  rw [h.granted_marker hadd]
  cases ofText existing <;> simp

/-- **The new comment covers what was asked for.** -/
theorem covers_synthesize (h : AddsOnly r) (hadd : r.add ≠ []) (existing : Text) (style : CommentStyle) :
    (ofText (synthesize existing r style)).Covers r.add := by
  have hgranted := h.granted_marker hadd existing
  have hwritten : ∀ s, (granted existing r).marker = .codes s → ofText (synthesize existing r style) = .codes s :=
    fun s => ofText_synthesize h.sorted fun code hcode => (h.codes code hcode).isMarkerCode
  cases hm : ofText existing with
  | absent =>
    rw [hm] at hgranted
    rw [hwritten _ hgranted]
    exact fun code hcode => hcode
  | blanket =>
    rw [hm] at hgranted
    rw [synthesize_of_same (hgranted.trans hm.symm), hm]
    trivial
  | codes s =>
    rw [hm] at hgranted
    rw [hwritten _ hgranted]
    exact fun code hcode => CodeSet.mem_insertAll.2 (.inl hcode)

/-- **A comment that covers what is asked for stays as it is.** -/
theorem synthesize_of_covers (h : AddsOnly r) (hadd : r.add ≠ []) (hcovers : (ofText existing).Covers r.add) :
    synthesize existing r style = existing := by
  refine synthesize_of_same ?_
  rw [h.granted_marker hadd]
  have hcanonical := canonical_ofText existing
  cases hm : ofText existing with
  | absent =>
    rw [hm] at hcovers
    exact hcovers.elim
  | blanket => rfl
  | codes s =>
    rw [hm] at hcovers hcanonical
    exact congrArg MarkerState.codes (hcanonical.2.insertAll_of_subset hcovers)

theorem isComment_synthesize (h : AddsOnly r) (hadd : r.add ≠ []) (hexisting : existing = [] ∨ IsComment existing)
    (hfollowUp : BreakFree style.followUp) : IsComment (synthesize existing r style) := by
  refine ⟨head?_dropWhile_synthesize (h.granted_ne_absent hadd existing) (hexisting.imp_right And.left), ?_⟩
  have hcodes : ∀ code ∈ r.add, BreakFree code := fun code hcode => (h.codes code hcode).breakFree
  exact breakFree_synthesize (breakFree_of_isComment hexisting) hcodes h.messages hfollowUp

end LineRequest.AddsOnly

end TypeIgnore
