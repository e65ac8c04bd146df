import TypeIgnore.Proofs.Marker.Requests
import TypeIgnore.Proofs.Marker.Union

/-!
# Messages in comments

A message is described once, with the code of the first diagnostic that says it, and it is copied into the comment if
that code is new there.

* `firstSaying ds message` — the first diagnostic that says `message`;
* `LineRequest.Describes ds r` — the request `r` is for the codes of `ds` and describes each message by the first
  diagnostic that says it; kept by one more diagnostic (`LineRequest.Describes.push`), hence true of what diagnostics
  with codes ask for together (`LineRequest.describes_ofDiagnostics`);
* `mem_newMessages_iff` — the messages that are copied;
* `infix_synthesize_of_mem`, `synthesize_without` — a message that is copied stands in the comment, and one that is not
  has no part in it;
* `synthesize_names_iff` — so a new error is named exactly where the first diagnostic with its message is new too, or
  where its message stands in the comment anyway.
-/

namespace TypeIgnore

/-! ## Diagnostics with codes -/

/-- The diagnostic has got a code, which is not about markers themselves. -/
def Diagnostic.HasCode (d : Diagnostic) : Prop :=
  ∃ code ∈ d.code, code ≠ unusedIgnoreCode ∧ code ≠ ignoreWithoutCodeCode

instance (d : Diagnostic) : Decidable d.HasCode := inferInstanceAs (Decidable (∃ _ ∈ d.code, _ ∧ _))

/-- The diagnostic has got a code, which is not among those of the comment. -/
def Diagnostic.IsNewTo (d : Diagnostic) (c : TrailingComment) : Prop := ∃ code ∈ d.code, code ∉ c.codes

instance (d : Diagnostic) (c : TrailingComment) : Decidable (d.IsNewTo c) :=
  inferInstanceAs (Decidable (∃ _ ∈ d.code, _))

/-- The first diagnostic that says `message`, written on one line. -/
def firstSaying (ds : List Diagnostic) (message : Text) : Option Diagnostic :=
  ds.find? fun d => Text.flatten d.message = message

theorem firstSaying_concat {ds : List Diagnostic} {d first : Diagnostic} {message : Text} :
    firstSaying (ds ++ [d]) message = some first ↔
      firstSaying ds message = some first ∨
        firstSaying ds message = none ∧ Text.flatten d.message = message ∧ d = first := by
  rw [firstSaying, List.find?_append, Option.or_eq_some_iff, List.find?_singleton]
  simp [firstSaying]

namespace LineRequest

variable {ds : List Diagnostic} {r : LineRequest}

/-- A description is there already, or it is the new one and no description has its message. -/
theorem mem_describe {code : Option Text} {message : Text} {x : Description} :
    x ∈ (r.describe code message).descriptions ↔
      x ∈ r.descriptions ∨
        x = ⟨code, Text.flatten message⟩ ∧ ∀ y ∈ r.descriptions, y.message ≠ Text.flatten message := by
  unfold describe
  simp only
  split
  · rename_i hsaid
    have hnot : ¬ ∀ y ∈ r.descriptions, y.message ≠ Text.flatten message := by simpa using hsaid
    simp [hnot]
  · rename_i hsaid
    have hnew : ∀ y ∈ r.descriptions, y.message ≠ Text.flatten message := by simpa using hsaid
    rw [and_iff_left hnew, List.mem_append, List.mem_singleton]

/-- The request is for the codes of the diagnostics, and describes each message by the first of them that says it. -/
structure Describes (ds : List Diagnostic) (r : LineRequest) : Prop where
  blanket : r.blanket = false
  remove : r.remove = []
  add : ∀ code, code ∈ r.add ↔ ∃ d ∈ ds, d.code = some code
  descriptions : ∀ x, x ∈ r.descriptions ↔ ∃ d, firstSaying ds x.message = some d ∧ x.code = d.code

theorem Describes.forall_message_ne_iff (h : r.Describes ds) {message : Text} :
    (∀ y ∈ r.descriptions, y.message ≠ message) ↔ firstSaying ds message = none := by
  constructor
  · intro hne
    by_contra hsome
    obtain ⟨d, hd⟩ := Option.ne_none_iff_exists'.1 hsome
    exact hne ⟨d.code, message⟩ ((h.descriptions _).2 ⟨d, hd, rfl⟩) rfl
  · rintro hnone y hy rfl
    obtain ⟨d, hd, -⟩ := (h.descriptions y).1 hy
    rw [hnone] at hd
    cases hd

/-- One more diagnostic. -/
theorem Describes.push (h : r.Describes ds) {d : Diagnostic} (hd : d.HasCode) : (r.push d).Describes (ds ++ [d]) := by
  obtain ⟨code, hcode, hunused, hwithout⟩ := hd
  rw [Option.mem_def] at hcode
  have hpush : r.push d = { r with add := r.add.insert code }.describe (some code) d.message := by
    simp [LineRequest.push, hcode, hunused, hwithout]
  obtain ⟨descriptions, hdescribe, -⟩ := exists_describe_eq { r with add := r.add.insert code } (some code) d.message
  refine ⟨?_, ?_, ?_, ?_⟩
  · rw [hpush, hdescribe]
    exact h.blanket
  · rw [hpush, hdescribe]
    exact h.remove
  · intro x
    rw [hpush, hdescribe, CodeSet.mem_insert, h.add, exists_mem_concat, hcode, Option.some.injEq, eq_comm]
  · intro x
    rw [hpush, mem_describe, h.forall_message_ne_iff, h.descriptions]
    simp only [firstSaying_concat, or_and_right, exists_or]
    refine or_congr_right ?_
    constructor
    · rintro ⟨rfl, hnone⟩
      exact ⟨d, ⟨hnone, rfl, rfl⟩, hcode.symm⟩
    · rintro ⟨_, ⟨hnone, hmessage, rfl⟩, hx⟩
      obtain ⟨xcode, xmessage⟩ := x
      obtain rfl : xcode = some code := hx.trans hcode
      obtain rfl : Text.flatten d.message = xmessage := hmessage
      exact ⟨rfl, hnone⟩

/-- **What diagnostics with codes ask for,** whatever the codes. -/
theorem describes_ofDiagnostics (h : ∀ d ∈ ds, d.HasCode) : (ofDiagnostics ds).Describes ds := by
  induction ds using List.reverseRecOn with
  | nil => exact ⟨rfl, rfl, by simp [ofDiagnostics], by simp [ofDiagnostics, firstSaying]⟩
  | append_singleton ds d ih =>
    rw [ofDiagnostics_append_singleton]
    exact (ih fun x hx => h x (List.mem_append_left _ hx)).push (h d (by simp))

/-- The request without a message. -/
def without (r : LineRequest) (message : Text) : LineRequest :=
  { r with descriptions := r.descriptions.filter (·.message ≠ message) }

end LineRequest

/-! ## The messages that are copied -/

section Granted

variable {existing : Text} {r : LineRequest}

theorem MarkerState.granted_without (existing : Text) (r : LineRequest) (message : Text) :
    granted existing (r.without message) = granted existing r := rfl

/-- A request for codes leaves a marker that is not blanket with new codes: those that it did not have. -/
theorem MarkerState.granted_of_adds (hbefore : (TrailingComment.ofText existing).isBlanket = false)
    (hblanket : r.blanket = false) (hremove : r.remove = []) :
    (granted existing r).becameBlanket = false ∧
      ∀ code, code ∈ (granted existing r).added ↔ code ∈ r.add ∧ code ∉ (TrailingComment.ofText existing).codes := by
  have hdrop : (ofText existing).drop r.remove = ofText existing := by
    rw [hremove, drop_nil (canonical_ofText existing)]
  rw [granted, hdrop]
  by_cases hadd : r.add = []
  · simp [grant, hblanket, hadd]
  cases hm : ofText existing with
  | absent => simp [grant, hblanket, hadd, codes_eq_nil_of_absent hm]
  | blanket =>
    rw [ofText_eq_blanket_iff.1 hm] at hbefore
    cases hbefore
  | codes s => simp [grant, hblanket, hadd, mem_codes_iff hm]

end Granted

section Messages

variable {existing : Text} {ds : List Diagnostic} {r : LineRequest} {followUp message : Text}

/-- The messages that are copied: those whose first diagnostic is new to the comment. -/
theorem mem_newMessages_iff (h : r.Describes ds) (hbefore : (TrailingComment.ofText existing).isBlanket = false) :
    message ∈ newMessages r ⟨followUp, .full⟩ (MarkerState.granted existing r) ↔
      ∃ first, firstSaying ds message = some first ∧ first.IsNewTo (.ofText existing) := by
  obtain ⟨hbecame, hadded⟩ := MarkerState.granted_of_adds hbefore h.blanket h.remove
  have hnew : ∀ d, d ∈ ds → (d.code.any (MarkerState.granted existing r).added.contains = true ↔
      d.IsNewTo (.ofText existing)) := by
    intro d hd
    cases hcode : d.code with
    | none => simp [Diagnostic.IsNewTo, hcode]
    | some code =>
      have hasked : code ∈ r.add := (h.add code).2 ⟨d, hd, hcode⟩
      simp [Diagnostic.IsNewTo, hcode, hadded, hasked]
  simp only [newMessages, hbecame, Bool.false_or, List.mem_map, List.mem_filter, h.descriptions]
  constructor
  · rintro ⟨x, ⟨⟨first, hfirst, hcode⟩, hany⟩, rfl⟩
    rw [hcode] at hany
    exact ⟨first, hfirst, (hnew first (List.mem_of_find?_eq_some hfirst)).1 hany⟩
  · rintro ⟨first, hfirst, hisNew⟩
    have hany := (hnew first (List.mem_of_find?_eq_some hfirst)).2 hisNew
    exact ⟨⟨first.code, message⟩, ⟨⟨first, hfirst, rfl⟩, hany⟩, rfl⟩

/-- A piece stands in what is joined of it. -/
theorem Text.infix_joinWith {sep piece : Text} {pieces : List Text} (h : piece ∈ pieces) :
    piece <:+: joinWith sep pieces := by
  induction pieces with
  | nil => cases h
  | cons next pieces ih =>
    cases pieces with
    | nil =>
      rw [List.mem_singleton.1 h]
      exact List.infix_rfl
    | cons after pieces =>
      rcases List.mem_cons.1 h with rfl | h
      · exact ⟨[], sep ++ joinWith sep (after :: pieces), by simp [joinWith]⟩
      · exact (ih h).trans ⟨next ++ sep, [], by simp [joinWith]⟩

end Messages

/-! ## Errors named in comments -/

section Synthesize

variable {existing : Text} {ds : List Diagnostic} {r : LineRequest} {style : CommentStyle} {message : Text}

/-- Messages of new codes stand in the notes. -/
theorem infix_annotations {g : MarkerState.Granted} (hadded : g.added ≠ []) (hmessage : message ∈ newMessages r style g)
    (tail : Text) : message <:+: annotations r style g tail := by
  have hmessages : newMessages r style g ≠ [] := List.ne_nil_of_mem hmessage
  rw [annotations_eq, if_neg (by simp [hadded]), if_neg (by simpa using hmessages)]
  exact (Text.infix_joinWith hmessage).trans (List.suffix_append _ _).isInfix

/-- A message that is copied stands in the comment. -/
theorem infix_synthesize_of_mem (h : r.Describes ds) (hbefore : (TrailingComment.ofText existing).isBlanket = false)
    {code : Text} (hcode : code ∈ r.add) (hnew : code ∉ (TrailingComment.ofText existing).codes)
    (hmessage : message ∈ newMessages r style (MarkerState.granted existing r)) :
    message <:+: synthesize existing r style := by
  have hadded := (MarkerState.granted_of_adds hbefore h.blanket h.remove).2 code
  have hnot : ¬ (MarkerState.ofText existing = .blanket ∧ wildcard ∉ r.remove) := by
    rintro ⟨hm, -⟩
    rw [MarkerState.ofText_eq_blanket_iff.1 hm] at hbefore
    cases hbefore
  obtain ⟨s, hs, hmem⟩ := MarkerState.exists_granted_codes h.blanket hnot ⟨code, .inr hcode⟩
  have hchanges : (MarkerState.granted existing r).marker ≠ MarkerState.ofText existing := by
    intro hsame
    rw [hs] at hsame
    exact hnew ((MarkerState.mem_codes_iff hsame.symm).2 ((hmem code).2 (.inr hcode)))
  have htext : (MarkerState.granted existing r).marker.text? =
      some (markerText ++ "[" ++ Text.joinWith ", " s ++ "]") := by
    rw [hs]
    rfl
  have hnotes := infix_annotations (List.ne_nil_of_mem (hadded.2 ⟨hcode, hnew⟩)) hmessage
    (keptTail (.ofText existing))
  rw [synthesize_of_text hchanges htext]
  exact (hnotes.trans (List.prefix_append _ _).isInfix).trans
    (((List.suffix_append _ _).trans (List.suffix_append _ _)).isInfix)

theorem newMessages_without {g : MarkerState.Granted} (h : message ∉ newMessages r style g) :
    newMessages (r.without message) style g = newMessages r style g := by
  unfold newMessages at h ⊢
  cases hstyle : style.descriptions with
  | plain => rfl
  | full =>
    simp only [hstyle, List.mem_map, List.mem_filter, not_exists, not_and, and_imp] at h
    simp only [LineRequest.without, List.filter_filter]
    refine congrArg _ (List.filter_congr fun x hx => ?_)
    by_cases hchosen : (g.becameBlanket || x.code.any g.added.contains) = true
    · simp [hchosen, h x hx hchosen]
    · simp [hchosen]

/-- A message that is not copied has no part in the comment. -/
theorem synthesize_without (h : message ∉ newMessages r style (MarkerState.granted existing r)) :
    synthesize existing (r.without message) style = synthesize existing r style := by
  have hgranted := MarkerState.granted_without existing r message
  by_cases hsame : (MarkerState.granted existing r).marker = MarkerState.ofText existing
  · rw [synthesize_of_same hsame, synthesize_of_same (hgranted ▸ hsame)]
  cases htext : (MarkerState.granted existing r).marker.text? with
  | none =>
    have habsent := MarkerState.text?_eq_none_iff.1 htext
    rw [synthesize_of_absent style hsame habsent, synthesize_of_absent style (hgranted ▸ hsame) (hgranted ▸ habsent)]
  | some marker =>
    rw [synthesize_of_text hsame htext, synthesize_of_text (hgranted ▸ hsame) (hgranted ▸ htext), hgranted,
      annotations_eq, annotations_eq, newMessages_without h]

end Synthesize

/-- **When a new error is named.** Its message stands in the comment if the first diagnostic that says it has a code
that is new there too. Otherwise it is not copied, and the comment is as if nothing said it. -/
theorem synthesize_names_iff (existing : Text) (ds : List Diagnostic) (followUp : Text)
    (hbefore : (TrailingComment.ofText existing).isBlanket = false) (hds : ∀ d ∈ ds, d.HasCode) :
    let c := TrailingComment.ofText existing
    let r := LineRequest.ofDiagnostics ds
    let style : CommentStyle := ⟨followUp, .full⟩
    ∀ d ∈ ds, d.IsNewTo c →
      (Text.flatten d.message <:+: synthesize existing r style ↔
        (∃ first, firstSaying ds (Text.flatten d.message) = some first ∧ first.IsNewTo c) ∨
          Text.flatten d.message <:+: synthesize existing (r.without (Text.flatten d.message)) style) := by
  intro c r style d hd hnew
  have hdescribes : r.Describes ds := LineRequest.describes_ofDiagnostics hds
  have hcopied : Text.flatten d.message ∈ newMessages r style (MarkerState.granted existing r) ↔
      ∃ first, firstSaying ds (Text.flatten d.message) = some first ∧ first.IsNewTo c :=
    mem_newMessages_iff hdescribes hbefore
  rw [← hcopied]
  by_cases hmessage : Text.flatten d.message ∈ newMessages r style (MarkerState.granted existing r)
  · obtain ⟨code, hcode, hfresh⟩ := hnew
    have hadd : code ∈ r.add := (hdescribes.add code).2 ⟨d, hd, hcode⟩
    exact iff_of_true (infix_synthesize_of_mem hdescribes hbefore hadd hfresh hmessage) (.inl hmessage)
  · rw [synthesize_without hmessage, or_iff_right hmessage]

/-- Two new errors say the same, but for the line break, and are named once. -/
theorem synthesize_names_of_first :
    let existing : Text := "  # type: ignore[assignment]  # why".toList
    let d := Diagnostic.onFirstLine "misc".toList "Bad\rargument".toList
    let ds := [Diagnostic.onFirstLine "assignment".toList "Bad default".toList,
      Diagnostic.onFirstLine "arg-type".toList "Bad\nargument".toList, d]
    let result := synthesize existing (.ofDiagnostics ds) ⟨"FIX ME".toList, .full⟩
    (TrailingComment.ofText existing).isBlanket = false ∧ (∀ d ∈ ds, d.HasCode) ∧ d ∈ ds ∧
      d.IsNewTo (.ofText existing) ∧
      result = "  # type: ignore[arg-type, assignment, misc]  # FIX ME  # Bad argument  # why".toList ∧
      Text.flatten d.message <:+: result := by
  intro existing d ds result
  have hbefore : (TrailingComment.ofText existing).isBlanket = false := by decide
  have hds : ∀ d ∈ ds, d.HasCode := by decide
  have hd : d ∈ ds := by decide
  have hnew : d.IsNewTo (.ofText existing) := by decide
  have hfirst : firstSaying ds (Text.flatten d.message) =
      some (Diagnostic.onFirstLine "arg-type".toList "Bad\nargument".toList) := by decide
  refine ⟨hbefore, hds, hd, hnew, by decide +kernel, ?_⟩
  exact (synthesize_names_iff existing ds _ hbefore hds d hd hnew).2 (.inl ⟨_, hfirst, by decide⟩)

/-- The first of two diagnostics that say the same has a code that is there: the other one is not named. -/
theorem synthesize_omits_shared_message :
    let existing : Text := "  # type: ignore[assignment]".toList
    let d := Diagnostic.onFirstLine "arg-type".toList "Bad value".toList
    let ds := [Diagnostic.onFirstLine "assignment".toList "Bad value".toList, d]
    let result := synthesize existing (.ofDiagnostics ds) ⟨"FIX ME".toList, .full⟩
    (TrailingComment.ofText existing).isBlanket = false ∧ (∀ d ∈ ds, d.HasCode) ∧ d ∈ ds ∧
      d.IsNewTo (.ofText existing) ∧ result = "  # type: ignore[arg-type, assignment]  # FIX ME".toList ∧
      ¬ Text.flatten d.message <:+: result := by
  decide +kernel

end TypeIgnore
