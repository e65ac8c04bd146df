import TypeIgnore.Config.Settings
import TypeIgnore.Proofs.Edit.Suppression
import TypeIgnore.Proofs.Marker.Requests

/-!
# Line breaks in edits

* `LineRequest.OnOneLine` — neither the codes nor the messages of a request have a line break; kept by every diagnostic
  whose code has none (`LineRequest.OnOneLine.push`), hence what they ask for (`LineRequest.onOneLine_ofDiagnostics`);
* `breakFree_planned` — nor have the comments that are planned for them;
* `lineCount_render_le` — lines without breaks inside are no more in their text than they are;
* `FileEdit.AddsNoBreak` — an edit writes no line break, and the text has no more lines than it had;
* `addsNoBreak_planEdit` — so it is for the diagnostics of a report if the follow-up has no line break;
* `breakFree_followUp_of_addsNoBreak` — and one with a line break gets into a source.

Hence a configuration can bring line breaks into sources by its follow-up, which is trimmed and nothing else, and in no
other way.
-/

namespace TypeIgnore

/-! ## What diagnostics ask for -/

/-- No quotable character ends a line. -/
theorem breakFree_of_mem_quotedCodes {t code : Text} (h : code ∈ quotedCodes t) : BreakFree code := by
  intro c hc
  rw [Bool.eq_false_iff]
  intro hbreak
  have hchar := (mem_quotedCodes h).2 c hc
  simp only [isBreak, Bool.or_eq_true, beq_iff_eq] at hbreak
  rcases hbreak with rfl | rfl <;> revert hchar <;> decide

namespace LineRequest

/-- Neither the codes to add nor the messages have a line break. -/
structure OnOneLine (r : LineRequest) : Prop where
  codes : ∀ code ∈ r.add, BreakFree code
  messages : ∀ d ∈ r.descriptions, BreakFree d.message

theorem OnOneLine.describe {r : LineRequest} (h : r.OnOneLine) (code : Option Text) (message : Text) :
    (r.describe code message).OnOneLine := by
  obtain ⟨descriptions, hdescribe, hmem⟩ := exists_describe_eq r code message
  rw [hdescribe]
  refine ⟨h.codes, ?_⟩
  intro d hd
  rcases hmem d hd with hd | rfl
  · exact h.messages d hd
  · exact breakFree_flatten message

/-- One more diagnostic. -/
theorem OnOneLine.push {r : LineRequest} (h : r.OnOneLine) {d : Diagnostic} (hd : ∀ code ∈ d.code, BreakFree code) :
    (r.push d).OnOneLine := by
  unfold LineRequest.push
  split
  · have hblanket : OnOneLine { r with blanket := true } := ⟨h.codes, h.messages⟩
    exact hblanket.describe none d.message
  rename_i code hcode
  split
  · split <;> exact ⟨h.codes, h.messages⟩
  split
  · refine ⟨?_, h.messages⟩
    intro x hx
    rcases CodeSet.mem_insertAll.1 hx with hx | hx
    · exact breakFree_of_mem_quotedCodes hx
    · exact h.codes x hx
  · have hadded : OnOneLine { r with add := r.add.insert code } := by
      refine ⟨?_, h.messages⟩
      intro x hx
      rcases CodeSet.mem_insert.1 hx with rfl | hx
      · exact hd x hcode
      · exact h.codes x hx
    exact hadded.describe (some code) d.message

theorem onOneLine_ofDiagnostics {ds : List Diagnostic} (h : ∀ d ∈ ds, ∀ code ∈ d.code, BreakFree code) :
    (ofDiagnostics ds).OnOneLine := by
  induction ds using List.reverseRecOn with
  | nil => exact ⟨by simp [ofDiagnostics], by simp [ofDiagnostics]⟩
  | append_singleton ds d ih =>
    rw [ofDiagnostics_append_singleton]
    exact (ih fun x hx => h x (List.mem_append_left _ hx)).push (h d (by simp))

end LineRequest

/-! ## The lines of an edit -/

theorem lineCount_text_append_le {l : SourceLine} (h : BreakFree l.content) (t : Text) :
    lineCount (l.text ++ t) ≤ lineCount t + 1 := by
  have hcontent := lineCount_append_of_breakFree h (l.endingText ++ t)
  have hending : lineCount (l.endingText ++ t) ≤ lineCount t + 1 := by
    unfold SourceLine.endingText
    cases l.ending with
    | none => exact Nat.le_succ _
    | some b => exact lineCount_break_append_le b t
  rw [SourceLine.text, List.append_assoc]
  omega

theorem lineCount_render_le {lines : List SourceLine} (h : ∀ l ∈ lines, BreakFree l.content) :
    lineCount (render lines) ≤ lines.length := by
  induction lines with
  | nil => exact Nat.le_refl 0
  | cons l lines ih =>
    obtain ⟨hl, hlines⟩ := List.forall_mem_cons.1 h
    have hfirst := lineCount_text_append_le hl (render lines)
    have hothers := ih hlines
    rw [List.length_cons]
    have hcons : render (l :: lines) = l.text ++ render lines := List.flatMap_cons
    rw [hcons]
    omega

/-- No comment of the edit has a line break, and the text has no more lines than it had. -/
def FileEdit.AddsNoBreak (e : FileEdit) (source : Text) : Prop :=
  (∀ c ∈ e.changes, BreakFree c.after) ∧ lineCount e.text ≤ lineCount source

theorem addsNoBreak_applyComments {source : Text} {m : SourceMap} (hm : classify source = .ok m)
    {comments : Nat → Option Text} (hcomments : ∀ l ∈ m.lines, ∀ t, comments l.number = some t → BreakFree t) :
    (applyComments m.lines comments).AddsNoBreak source := by
  constructor
  · intro change hchange
    obtain ⟨l, hl, hline⟩ := List.mem_filterMap.1 hchange
    obtain ⟨t, ht, -, rfl⟩ := lineChange?_eq_some_iff.1 hline
    exact hcomments l hl t ht
  · have hedited : ∀ l' ∈ m.lines.map (SourceLine.edited comments), BreakFree l'.content := by
      intro l' hl'
      obtain ⟨l, hl, rfl⟩ := List.mem_map.1 hl'
      exact breakFree_edited_content (hcomments l hl) (breakFree_content_of_classify hm l hl)
    have hcount := lineCount_render_le hedited
    rw [List.length_map, length_lines_of_classify hm] at hcount
    rw [FileEdit.text, applyComments_lines]
    exact hcount

/-- A planned comment stays on its line. -/
theorem breakFree_planned {source : Text} {m : SourceMap} (hm : classify source = .ok m) {ds : List Diagnostic}
    (hds : ∀ d ∈ ds, ∀ code ∈ d.code, BreakFree code) {policy : Policy} (hpolicy : BreakFree policy.followUp)
    {l : SourceLine} (hl : l ∈ m.lines) {t : Text}
    (ht : plannedComment m (partition m ds).byLine policy l.number = some t) : BreakFree t := by
  obtain ⟨group, hgroup, rfl⟩ := (plannedComment_eq_some_iff hm hl).1 ht
  obtain ⟨-, rfl⟩ := ((groups_partition m ds).lookup l.number group).1 hgroup
  have hplaced : ∀ d ∈ placedOn m l.number ds, ∀ code ∈ d.code, BreakFree code :=
    fun d hd => hds d (mem_placedOn.1 hd).1
  have hrequest := LineRequest.onOneLine_ofDiagnostics hplaced
  exact breakFree_synthesize (breakFree_of_isComment (comment_of_classify hm l hl)) hrequest.codes hrequest.messages
    hpolicy

theorem addsNoBreak_planEdit {source : Text} {m : SourceMap} (hm : classify source = .ok m) {ds : List Diagnostic}
    (hds : ∀ d ∈ ds, d.WellCoded) {policy : Policy} (hpolicy : BreakFree policy.followUp) :
    (planEdit m (partition m ds).byLine policy).AddsNoBreak source := by
  have hcodes : ∀ d ∈ ds, ∀ code ∈ d.code, BreakFree code := fun d hd code hcode => (hds d hd code hcode).breakFree
  rw [planEdit_eq]
  exact addsNoBreak_applyComments hm fun l hl t ht => breakFree_planned hm hcodes hpolicy hl ht

/-! ## A follow-up with a line break -/

namespace OneLine

/-- An error in the only line of a source. -/
def report : Text := "m.py:1: error: bad  [misc]\n"

def source : Text := "x = 1\n"

def diagnostic : Diagnostic where
  path := ⟨"m.py"⟩
  line := 1
  code := some "misc"
  message := "bad"

def map : SourceMap := ⟨[⟨1, "x = 1", [], some .lf, true⟩], []⟩

theorem diagnostics_report : (Report.ofText report).diagnostics = [diagnostic] :=
  Report.diagnostics_eq_singleton (by decide +kernel)

theorem classify_source : classify source = .ok map := by decide +kernel

end OneLine

/-- A new marker is followed by the follow-up. -/
theorem breakFree_followUp_of_synthesize {r : LineRequest} {style : CommentStyle} {marker : Text}
    (htext : (MarkerState.granted [] r).marker.text? = some marker) (hadded : (MarkerState.granted [] r).added ≠ [])
    (h : BreakFree (synthesize [] r style)) : BreakFree (Text.trim style.followUp) := by
  have hne : (MarkerState.granted [] r).marker ≠ MarkerState.ofText [] := by
    intro heq
    rw [heq] at htext
    cases htext
  rw [synthesize_of_text hne htext] at h
  have hnotes := (breakFree_append.1 (breakFree_append.1 (breakFree_append.1 h).2).2).1
  have hnote : BreakFree (followUpNote style []) := by
    rw [annotations_eq, if_neg (by simp [hadded])] at hnotes
    split at hnotes
    · exact hnotes
    · exact (breakFree_append.1 (breakFree_append.1 hnotes).1).1
  unfold followUpNote at hnote
  simp only at hnote
  split at hnote
  · rename_i hnone
    have hempty : Text.trim style.followUp = [] := by simpa [Text.occursIn] using hnone
    rw [hempty]
    exact breakFree_nil
  · exact (breakFree_append.1 hnote).2

theorem breakFree_followUp_of_addsNoBreak {policy : Policy}
    (h : (planEdit OneLine.map (partition OneLine.map [OneLine.diagnostic]).byLine policy).AddsNoBreak
      OneLine.source) : BreakFree (Text.trim policy.followUp) := by
  have hbyLine : (partition OneLine.map [OneLine.diagnostic]).byLine = [(1, [OneLine.diagnostic])] := by
    decide +kernel
  have hfree : BreakFree (synthesize [] (.ofDiagnostics [OneLine.diagnostic]) policy.style) := by
    by_cases hnil : synthesize [] (.ofDiagnostics [OneLine.diagnostic]) policy.style = []
    · rw [hnil]
      exact breakFree_nil
    · refine h.1 ⟨1, [], _⟩ (List.mem_filterMap.2 ⟨_, List.mem_singleton_self _, ?_⟩)
      rw [hbyLine]
      exact lineChange?_eq_some_iff.2 ⟨_, rfl, hnil, rfl⟩
  exact breakFree_followUp_of_synthesize rfl (by decide) hfree

theorem followUp_of_resolve {s : Settings} {o : Overrides} {configuration : Configuration}
    (h : resolve s o = .ok configuration) :
    configuration.policy.followUp = ((o.followUp <|> s.followUp).map Text.trim).getD "FIX ME" := by
  obtain ⟨_, -, h⟩ := exists_of_bind_eq_ok h
  obtain ⟨descriptions, -, h⟩ := exists_of_bind_eq_ok h
  obtain ⟨codes, -, h⟩ := exists_of_bind_eq_ok h
  obtain ⟨_, -, h⟩ := exists_of_bind_eq_ok h
  cases h
  rfl

/-- **A configuration brings line breaks into sources by its follow-up, and in no other way.** -/
theorem resolve_addsNoBreak_iff {s : Settings} {o : Overrides} {configuration : Configuration}
    (h : resolve s o = .ok configuration) :
    (∀ source m report, classify source = .ok m →
      ∃ edit, (silenceSource source (Report.ofText report).diagnostics configuration.policy).edit = .ok edit ∧
        edit.AddsNoBreak source) ↔
      ∀ followUp, (o.followUp <|> s.followUp) = some followUp → BreakFree (Text.trim followUp) := by
  constructor
  · -- one line and one error in it show what a follow-up brings in
    intro hall followUp hfollowUp
    obtain ⟨edit, hedit, hadds⟩ := hall _ _ OneLine.report OneLine.classify_source
    rw [OneLine.diagnostics_report, silenceSource_of_classify OneLine.classify_source] at hedit
    cases hedit
    have hfree := breakFree_followUp_of_addsNoBreak hadds
    rwa [followUp_of_resolve h, hfollowUp, Option.map_some, Option.getD_some, Text.trim_trim] at hfree
  · intro hfollowUp source m report hm
    have hpolicy : BreakFree configuration.policy.followUp := by
      rw [followUp_of_resolve h]
      cases hgiven : o.followUp <|> s.followUp with
      | none => decide
      | some followUp => exact hfollowUp followUp hgiven
    rw [silenceSource_of_classify hm]
    exact ⟨_, rfl, addsNoBreak_planEdit hm (Report.wellCoded_ofText report) hpolicy⟩

theorem resolve_addsNoBreak_of_trimmed :
    resolve { followUp := some "  fix later\n" } {} = .ok { policy := { followUp := "fix later" } } ∧
      ∀ source m report, classify source = .ok m →
        ∃ edit, (silenceSource source (Report.ofText report).diagnostics { followUp := "fix later" }).edit = .ok edit ∧
          edit.AddsNoBreak source := by
  have hresolve : resolve { followUp := some "  fix later\n" } {} = .ok { policy := { followUp := "fix later" } } := by
    decide +kernel
  refine ⟨hresolve, (resolve_addsNoBreak_iff hresolve).2 ?_⟩
  intro followUp hgiven
  cases hgiven
  decide +kernel

/-- A line break inside a follow-up splits the line that gets a marker. -/
theorem followUp_splits_line :
    ∃ settings configuration edit, Settings.ofText? "follow_up = \"a\\nb\"\n" = some settings ∧
      resolve settings {} = .ok configuration ∧
      (silenceSource OneLine.source (Report.ofText OneLine.report).diagnostics configuration.policy).edit =
        .ok edit ∧
      edit.text = "x = 1  # type: ignore[misc]  # a\nb\n" ∧ ¬ edit.AddsNoBreak OneLine.source := by
  have hedit : (silenceSource OneLine.source (Report.ofText OneLine.report).diagnostics
      { followUp := "a\nb" }).edit = .ok (planEdit OneLine.map
        (partition OneLine.map [OneLine.diagnostic]).byLine { followUp := "a\nb" }) := by
    rw [OneLine.diagnostics_report, silenceSource_of_classify OneLine.classify_source]
  refine ⟨{ followUp := some "a\nb" }, { policy := { followUp := "a\nb" } }, _, ?_, ?_, hedit, ?_, ?_⟩
  · decide +kernel
  · decide +kernel
  · decide +kernel
  · intro hadds
    exact absurd hadds.2 (by decide +kernel)

end TypeIgnore
