import TypeIgnore.Proofs.Edit.Partition
import TypeIgnore.Proofs.Edit.Structure
import TypeIgnore.Proofs.Marker.Coverage

/-!
# Silenced diagnostics

* `TrailingComment.Silences c d` — the checker, reading the comment `c`, keeps quiet about `d`;
* `Covered byLine m` — every line with diagnostics has a marker for all of their codes;
* `covered_planEdit` — so it is in the map of the edited text, which has the regions and lines of the source;
* `planEdit_of_covered` — where it is so, there is nothing to edit.

Hence silenced diagnostics are suppressed, and a second run changes nothing.
-/

namespace TypeIgnore

/-- The comment is a marker, and it is for every code or names that of the diagnostic. -/
def TrailingComment.Silences (c : TrailingComment) (d : Diagnostic) : Prop :=
  c.hasMarker = true ∧ (c.isBlanket = true ∨ ∃ code, d.code = some code ∧ code ∈ c.codes)

theorem silenceSource_of_classify {source : Text} {m : SourceMap} (hm : classify source = .ok m) (ds : List Diagnostic)
    (policy : Policy) :
    silenceSource source ds policy =
      ⟨(partition m ds).byLine.flatMap (·.2), (partition m ds).rejected,
        .ok (planEdit m (partition m ds).byLine policy)⟩ := by
  rw [silenceSource, hm]

/-! ## What is planned -/

/-- The comment that the diagnostics of line `n` ask for. -/
def plannedComment (m : SourceMap) (byLine : ByLine) (policy : Policy) (n : Nat) : Option Text := do
  let ds ← byLine.lookup n
  let l ← m.line? n
  return synthesize l.comment (.ofDiagnostics ds) policy.style

theorem planEdit_eq (m : SourceMap) (byLine : ByLine) (policy : Policy) :
    planEdit m byLine policy = applyComments m.lines (plannedComment m byLine policy) := rfl

section Plan

variable {source : Text} {m m' : SourceMap} {ds group : List Diagnostic} {policy : Policy} {n : Nat} {l : SourceLine}
  {t : Text}

theorem plannedComment_eq_some_iff (hm : classify source = .ok m) (hl : l ∈ m.lines) {byLine : ByLine} :
    plannedComment m byLine policy l.number = some t ↔
      ∃ group, byLine.lookup l.number = some group ∧
        synthesize l.comment (.ofDiagnostics group) policy.style = t := by
  have hline : m.line? l.number = some l := (line?_eq_some_iff hm).2 ⟨hl, rfl⟩
  simp [plannedComment, Option.bind_eq_some_iff, hline]

/-- The diagnostics of a group ask for their codes, and for nothing else. -/
theorem addsOnly_of_lookup (hds : ∀ d ∈ ds, d.IsOrdinary) (h : (partition m ds).byLine.lookup n = some group) :
    (LineRequest.ofDiagnostics group).AddsOnly ∧ (LineRequest.ofDiagnostics group).add ≠ [] := by
  obtain ⟨hne, rfl⟩ := ((groups_partition m ds).lookup n group).1 h
  have hgroup : ∀ d ∈ placedOn m n ds, d.IsOrdinary := fun d hd => hds d (mem_placedOn.1 hd).1
  refine ⟨LineRequest.addsOnly_ofDiagnostics hgroup, ?_⟩
  obtain ⟨d, hd⟩ := List.exists_mem_of_ne_nil _ hne
  obtain ⟨code, hcode, -⟩ := hgroup d hd
  exact List.ne_nil_of_mem ((LineRequest.mem_add_ofDiagnostics hgroup).2 ⟨d, hd, hcode⟩)

/-- A group belongs to a line that ends a statement. -/
theorem exists_line_of_lookup (hm : classify source = .ok m) (h : (partition m ds).byLine.lookup n = some group) :
    ∃ l ∈ m.lines, l.number = n ∧ l.endsStatement = true := by
  obtain ⟨hne, rfl⟩ := ((groups_partition m ds).lookup n group).1 h
  obtain ⟨d, hd⟩ := List.exists_mem_of_ne_nil _ hne
  exact (targetLine_eq_ok hm (mem_placedOn.1 hd).2).2

/-- Every line accepts the comment that is planned for it. -/
theorem accepts_planned (hm : classify source = .ok m) (hds : ∀ d ∈ ds, d.IsOrdinary)
    (hpolicy : BreakFree policy.followUp) (hl : l ∈ m.lines)
    (ht : plannedComment m (partition m ds).byLine policy l.number = some t) : Accepts l t := by
  obtain ⟨group, hgroup, rfl⟩ := (plannedComment_eq_some_iff hm hl).1 ht
  obtain ⟨l', hl', hnumber, hends⟩ := exists_line_of_lookup hm hgroup
  have hsame : l' = l := line_eq_of_number_eq hm hl' hl hnumber
  obtain ⟨hadds, hadd⟩ := addsOnly_of_lookup hds hgroup
  have hcomment : IsComment (synthesize l.comment (.ofDiagnostics group) policy.style) :=
    hadds.isComment_synthesize hadd (comment_of_classify hm l hl) hpolicy
  exact ⟨.inl (hsame ▸ hends), .inl hcomment⟩

/-! ## Lines that are covered -/

/-- Every line with diagnostics has a marker for all of their codes. -/
def Covered (byLine : ByLine) (m : SourceMap) : Prop :=
  ∀ n group, byLine.lookup n = some group →
    ∃ l, m.line? n = some l ∧ (MarkerState.ofText l.comment).Covers (LineRequest.ofDiagnostics group).add

theorem exists_line?_of_forall₂ {R : SourceLine → SourceLine → Prop} (h : List.Forall₂ R m.lines m'.lines)
    (hl : m.line? n = some l) : ∃ l', m'.line? n = some l' ∧ R l l' := by
  cases n with
  | zero => cases hl
  | succ k =>
    obtain ⟨hk, rfl⟩ := List.getElem?_eq_some_iff.1 hl
    have hk' : k < m'.lines.length := h.length_eq ▸ hk
    exact ⟨m'.lines.get ⟨k, hk'⟩, List.getElem?_eq_getElem hk', h.get hk hk'⟩

/-- **The edited text is covered,** and it has the regions and the lines of the source. -/
theorem covered_planEdit (hm : classify source = .ok m) (hds : ∀ d ∈ ds, d.IsOrdinary)
    (hpolicy : BreakFree policy.followUp) :
    ∃ m', classify (planEdit m (partition m ds).byLine policy).text = .ok m' ∧
      partition m' ds = partition m ds ∧ Covered (partition m ds).byLine m' := by
  obtain ⟨m', hm', hregions, hkeeps⟩ :=
    classify_edited hm fun l hl t ht => accepts_planned hm hds hpolicy hl ht
  refine ⟨m', hm', partition_congr hregions hkeeps.length_eq.symm ds, ?_⟩
  intro n group hgroup
  obtain ⟨l, hl, rfl, -⟩ := exists_line_of_lookup hm hgroup
  obtain ⟨l', hl', hkeep⟩ := exists_line?_of_forall₂ hkeeps ((line?_eq_some_iff hm).2 ⟨hl, rfl⟩)
  -- the line's comment is the planned one, blanks apart
  have hplanned : plannedComment m (partition m ds).byLine policy l.number =
      some (synthesize l.comment (.ofDiagnostics group) policy.style) :=
    (plannedComment_eq_some_iff hm hl).2 ⟨group, hgroup, rfl⟩
  have hsame := MarkerState.ofText_congr (hkeep.comment _ hplanned)
  obtain ⟨hadds, hadd⟩ := addsOnly_of_lookup hds hgroup
  exact ⟨l', hl', hsame ▸ hadds.covers_synthesize hadd l.comment policy.style⟩

theorem isNoop_applyComments {lines : List SourceLine} {comments : Nat → Option Text}
    (h : ∀ l ∈ lines, lineChange? comments l = none) :
    (applyComments lines comments).isNoop = true ∧ (applyComments lines comments).lines = lines := by
  refine ⟨?_, ?_⟩
  · rw [FileEdit.isNoop, List.isEmpty_iff]
    exact List.filterMap_eq_nil_iff.2 h
  · rw [applyComments_lines]
    have hedited : ∀ l ∈ lines, l.edited comments = id l := by
      intro l hl
      rw [SourceLine.edited, h l hl]
      rfl
    rw [List.map_congr_left hedited, List.map_id]

/-- **Where every line is covered there is nothing to edit.** -/
theorem planEdit_of_covered (hm : classify source = .ok m) (hds : ∀ d ∈ ds, d.IsOrdinary) (policy : Policy)
    (hcovered : Covered (partition m ds).byLine m) :
    (planEdit m (partition m ds).byLine policy).isNoop = true ∧
      (planEdit m (partition m ds).byLine policy).text = source := by
  have hnone : ∀ l ∈ m.lines, lineChange? (plannedComment m (partition m ds).byLine policy) l = none := by
    intro l hl
    rw [lineChange?_eq_none_iff]
    intro t ht
    obtain ⟨group, hgroup, rfl⟩ := (plannedComment_eq_some_iff hm hl).1 ht
    obtain ⟨l', hl', hcovers⟩ := hcovered _ _ hgroup
    rw [(line?_eq_some_iff hm).2 ⟨hl, rfl⟩] at hl'
    cases hl'
    obtain ⟨hadds, hadd⟩ := addsOnly_of_lookup hds hgroup
    exact hadds.synthesize_of_covers hadd hcovers
  obtain ⟨hnoop, hlines⟩ := isNoop_applyComments hnone
  refine ⟨hnoop, ?_⟩
  rw [FileEdit.text, planEdit_eq, hlines, render_of_classify hm]

end Plan

/-! ## Runs -/

/-- **Silenced means suppressed.** The edited text has a map, and the line of each silenced diagnostic carries a marker
in it that silences the diagnostic. -/
theorem silenceSource_suppresses {source : Text} {m : SourceMap} (hm : classify source = .ok m) {ds : List Diagnostic}
    (hds : ∀ d ∈ ds, d.IsOrdinary) {policy : Policy} (hpolicy : BreakFree policy.followUp) :
    ∃ e m', (silenceSource source ds policy).edit = .ok e ∧ classify e.text = .ok m' ∧
      ∀ d ∈ (silenceSource source ds policy).silenced,
        ∃ l, m'.line? d.line = some l ∧ (TrailingComment.ofText l.comment).Silences d := by
  obtain ⟨m', hm', -, hcovered⟩ := covered_planEdit hm hds hpolicy
  rw [silenceSource_of_classify hm]
  refine ⟨_, m', rfl, hm', ?_⟩
  intro d hd
  obtain ⟨n, hplaced, hlookup⟩ := mem_flatMap_byLine.1 hd
  obtain ⟨hmem, htarget⟩ := mem_placedOn.1 hplaced
  obtain ⟨rfl, -⟩ := targetLine_eq_ok hm htarget
  obtain ⟨l, hl, hcovers⟩ := hcovered _ _ hlookup
  obtain ⟨code, hcode, -⟩ := hds d hmem
  have hadd : code ∈ (LineRequest.ofDiagnostics (placedOn m d.line ds)).add :=
    (LineRequest.mem_add_ofDiagnostics fun x hx => hds x (mem_placedOn.1 hx).1).2 ⟨d, hplaced, hcode⟩
  obtain ⟨hmarker, hsilences⟩ := hcovers.hasMarker hadd
  exact ⟨l, hl, hmarker, hsilences.imp_right fun h => ⟨code, hcode, h⟩⟩

/-- A statement over two lines, a line of blanks, and a marker in another spelling at the end of the text. The
diagnostic inside the statement is not silenced. -/
theorem silenceSource_suppresses_mixed :
    let source : Text := "f(\r\n  a)\r  \nx = 1 #type:ignore [b]".toList
    let d (line : Nat) (code : String) : Diagnostic :=
      { path := .ofText "a.py", line := line, code := some code.toList, message := "x\ny".toList }
    let ds := [d 4 "a", d 2 "arg-type", d 3 "misc", d 1 "c"]
    let policy : Policy := { descriptions := .full, followUp := " why ".toList }
    (silenceSource source ds policy).silenced = [d 2 "arg-type", d 3 "misc", d 4 "a"] ∧
      ∃ e m', (silenceSource source ds policy).edit = .ok e ∧ classify e.text = .ok m' ∧
        ∀ d ∈ (silenceSource source ds policy).silenced,
          ∃ l, m'.line? d.line = some l ∧ (TrailingComment.ofText l.comment).Silences d := by
  intro source d ds policy
  obtain ⟨m, hm⟩ : ∃ m, classify source = .ok m := ⟨_, rfl⟩
  exact ⟨rfl, silenceSource_suppresses hm (by decide) (by decide)⟩

/-- **A second run changes nothing.** It has a map to work on, it decides on every diagnostic as the first run did, and
its edit leaves the text as it is. -/
theorem silenceSource_twice {source : Text} {m : SourceMap} (hm : classify source = .ok m) {ds : List Diagnostic}
    (hds : ∀ d ∈ ds, d.IsOrdinary) {policy : Policy} (hpolicy : BreakFree policy.followUp) :
    ∃ e e₂, (silenceSource source ds policy).edit = .ok e ∧ (silenceSource e.text ds policy).edit = .ok e₂ ∧
      (silenceSource e.text ds policy).silenced = (silenceSource source ds policy).silenced ∧
      (silenceSource e.text ds policy).rejected = (silenceSource source ds policy).rejected ∧
      e₂.isNoop = true ∧ e₂.text = e.text := by
  obtain ⟨m', hm', hpartition, hcovered⟩ := covered_planEdit hm hds hpolicy
  rw [← hpartition] at hcovered
  obtain ⟨hnoop, htext⟩ := planEdit_of_covered hm' hds policy hcovered
  rw [silenceSource_of_classify hm]
  refine ⟨_, planEdit m' (partition m' ds).byLine policy, rfl, ?_⟩
  rw [silenceSource_of_classify hm', hpartition]
  rw [hpartition] at hnoop htext
  exact ⟨rfl, rfl, rfl, hnoop, htext⟩

/-- A literal over two lines with a remark behind it, a line of blanks, and a diagnostic that is rejected. -/
theorem silenceSource_twice_mixed :
    let source : Text := "s = \"\"\"\n# \"\"\"\t# note \r\n \t\nif x: y \u00a0".toList
    let d (line : Nat) (code : String) : Diagnostic :=
      { path := .ofText "a.py", line := line, code := some code.toList, message := "x\ny".toList }
    let ds := [d 4 "b", d 2 "misc", d 4 "a", d 3 "a", d 1 "c"]
    let policy : Policy := { descriptions := .full }
    (silenceSource source ds policy).rejected = [⟨d 1 "c", .midRegion⟩] ∧
      ∃ e e₂, (silenceSource source ds policy).edit = .ok e ∧ (silenceSource e.text ds policy).edit = .ok e₂ ∧
        (silenceSource e.text ds policy).silenced = (silenceSource source ds policy).silenced ∧
        (silenceSource e.text ds policy).rejected = (silenceSource source ds policy).rejected ∧
        e₂.isNoop = true ∧ e₂.text = e.text := by
  intro source d ds policy
  obtain ⟨m, hm⟩ : ∃ m, classify source = .ok m := ⟨_, rfl⟩
  exact ⟨rfl, silenceSource_twice hm (by decide) (by decide)⟩

end TypeIgnore
