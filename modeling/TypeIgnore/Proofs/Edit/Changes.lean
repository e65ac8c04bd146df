import TypeIgnore.Proofs.Edit.LineBreaks
import TypeIgnore.Proofs.Source.LineEnds
import TypeIgnore.Proofs.Text.Number

/-!
# The changes of an edit

* `withComment_content_ne` — another comment makes another line, though blanks at the end of its code may go;
* `contents_eq_of_render_eq` — lines with the same breaks have the same text only if each has the same content;
* `filter_changes` — an edit has one change for a line with a new comment, and none for any other;
* `FileEdit.TellsChanges` — the changes of an edit are those of the text, and `tellsChanges_applyComments` — they are
  where comments stay on their lines and are not blank.
-/

namespace TypeIgnore

/-! ## One line -/

section Line

variable {l : SourceLine} {t : Text}

/-- **Another comment makes another line.** Where a line without comment gets one, the blanks that go cannot be what
comes. -/
theorem withComment_content_ne (hne : t ≠ l.comment) (ht : l.comment = [] → ∃ c ∈ t, Text.isBlank c = false) :
    (l.withComment t).content ≠ l.content := by
  intro hsame
  have hcontent : (l.withComment t).content = (l.withComment t).code ++ t := rfl
  by_cases hnil : l.comment = []
  · obtain ⟨blanks, hcode, hblanks⟩ := exists_withComment_code_append l t
    rw [hcontent, SourceLine.content, hnil, List.append_nil, hcode] at hsame
    obtain ⟨c, hc, hblank⟩ := ht hnil
    rw [List.append_cancel_left hsame] at hc
    rw [hblanks c hc] at hblank
    cases hblank
  · have hhas : l.hasComment = true := by simpa [SourceLine.hasComment] using hnil
    rw [hcontent, withComment_code_of_hasComment hhas] at hsame
    exact hne (List.append_cancel_left hsame)

/-- A new comment on a line without one has a marker. -/
theorem mem_synthesize_nil {r : LineRequest} {style : CommentStyle} (hne : synthesize [] r style ≠ []) :
    '#' ∈ synthesize [] r style := by
  have hgranted : (MarkerState.granted [] r).marker ≠ MarkerState.ofText [] := fun h => hne (synthesize_of_same h)
  cases htext : (MarkerState.granted [] r).marker.text? with
  | none => exact absurd (MarkerState.text?_eq_none_iff.1 htext) hgranted
  | some marker =>
    obtain ⟨rest, rfl⟩ := MarkerState.text?_eq_some htext
    rw [synthesize_of_text hgranted htext]
    simp

end Line

/-! ## Texts of lines -/

/-- What stands before the first line break of a text is told by the text. -/
theorem append_break_inj {t t' u u' : Text} {b : LineBreak} (ht : BreakFree t) (ht' : BreakFree t')
    (h : t ++ (b.text ++ u) = t' ++ (b.text ++ u')) : t = t' ∧ u = u' := by
  have hstop (v : Text) : ∀ c ∈ (b.text ++ v).head?, (!isBreak c) = false := by
    cases b <;> simp [LineBreak.text, isBreak]
  have hfree {v : Text} (hv : BreakFree v) : ∀ c ∈ v, (!isBreak c) = true := fun c hc => by simp [hv c hc]
  have hfront := congrArg (List.takeWhile fun c => !isBreak c) h
  rw [Text.takeWhile_append_stop (hfree ht) (hstop u), Text.takeWhile_append_stop (hfree ht') (hstop u')] at hfront
  subst hfront
  exact ⟨rfl, List.append_cancel_left (List.append_cancel_left h)⟩

/-- **Lines with the same breaks have the same text only if each has the same content.** -/
theorem contents_eq_of_render_eq {ls ls' : List SourceLine}
    (hlines : List.Forall₂ (fun l l' => l'.ending = l.ending ∧ BreakFree l.content ∧ BreakFree l'.content) ls ls')
    (hended : ∀ l ∈ ls.dropLast, l.ending ≠ none) (h : render ls = render ls') :
    List.Forall₂ (fun l l' => l'.content = l.content) ls ls' := by
  induction hlines with
  | nil => exact .nil
  | @cons l l' ls ls' hl hls ih =>
    obtain ⟨hending, hfree, hfree'⟩ := hl
    have hcons (x : SourceLine) (xs : List SourceLine) :
        render (x :: xs) = x.content ++ (x.endingText ++ render xs) := by
      simp [render, SourceLine.text]
    rw [hcons, hcons] at h
    cases hbreak : l.ending with
    | some b =>
      have htext : l.endingText = b.text ∧ l'.endingText = b.text := by
        simp [SourceLine.endingText, hending, hbreak]
      rw [htext.1, htext.2] at h
      obtain ⟨hcontent, hrest⟩ := append_break_inj hfree hfree' h
      have htail : ∀ x ∈ ls.dropLast, x.ending ≠ none := by
        intro x hx
        cases ls with
        | nil => cases hx
        | cons y ls => exact hended x (List.mem_cons_of_mem _ hx)
      exact .cons hcontent.symm (ih htail hrest)
    | none =>
      -- only the last line has no break
      cases hls with
      | nil =>
        have htext : l.endingText = [] ∧ l'.endingText = [] := by
          simp [SourceLine.endingText, hending, hbreak]
        rw [htext.1, htext.2] at h
        exact .cons (List.append_cancel_right h).symm .nil
      | cons _ _ => exact absurd hbreak (hended l List.mem_cons_self)

/-! ## Changes -/

section Changes

variable {lines : List SourceLine} {comments : Nat → Option Text}

theorem line_of_lineChange? {l : SourceLine} {change : LineChange} (h : lineChange? comments l = some change) :
    change.line = l.number := by
  obtain ⟨t, -, -, rfl⟩ := lineChange?_eq_some_iff.1 h
  rfl

theorem ascending_changes (h : lines.Pairwise fun l l' => l.number < l'.number) :
    (applyComments lines comments).changes.Pairwise fun c c' => c.line < c'.line := by
  refine List.Pairwise.filterMap _ ?_ h
  intro l l' hlt c hc c' hc'
  rw [line_of_lineChange? hc, line_of_lineChange? hc']
  exact hlt

/-- **An edit has for a line the change that its comment makes, and no other.** -/
theorem filter_changes (comments : Nat → Option Text) (h : lines.Pairwise fun l l' => l.number < l'.number)
    {l : SourceLine} (hl : l ∈ lines) :
    (applyComments lines comments).changes.filter (fun c => c.line = l.number) = (lineChange? comments l).toList := by
  have hother : ∀ ls : List SourceLine, (∀ x ∈ ls, x.number ≠ l.number) →
      (ls.filterMap (lineChange? comments)).filter (fun c => c.line = l.number) = [] := by
    intro ls hls
    rw [List.filter_eq_nil_iff]
    intro c hc
    obtain ⟨x, hx, hchange⟩ := List.mem_filterMap.1 hc
    simpa [line_of_lineChange? hchange] using hls x hx
  obtain ⟨before, after, rfl⟩ := List.append_of_mem hl
  obtain ⟨-, hafter, hbefore⟩ := List.pairwise_append.1 h
  have hfirst := hother before fun x hx => (hbefore x hx l List.mem_cons_self).ne
  have hlast := hother after fun x hx => ((List.pairwise_cons.1 hafter).1 x hx).ne'
  rw [applyComments, List.filterMap_append, List.filter_append, hfirst, List.nil_append]
  cases hchange : lineChange? comments l with
  | none =>
    rw [List.filterMap_cons_none hchange]
    exact hlast
  | some change =>
    rw [List.filterMap_cons_some hchange, List.filter_cons_of_pos (by simp [line_of_lineChange? hchange]), hlast]
    rfl

end Changes

/-- What the changes of an edit tell of a line `l` that has become `l'`. -/
structure TellsLine (changes : List LineChange) (l l' : SourceLine) : Prop where
  ending : l'.ending = l.ending
  changed_iff : l'.content ≠ l.content ↔ ∃ c ∈ changes, c.line = l.number
  /-- A line that is another has one change, with its comments. -/
  change : l'.content ≠ l.content → changes.filter (fun c => c.line = l.number) = [⟨l.number, l.comment, l'.comment⟩]

/-- The changes of an edit are those of its text, and each is for a diagnostic. The edit has the lines of the
source, each in its place. -/
structure FileEdit.TellsChanges (source : Text) (m : SourceMap) (silenced : List Diagnostic) (e : FileEdit) : Prop where
  lines : List.Forall₂ (TellsLine e.changes) m.lines e.lines
  ascending : e.changes.Pairwise fun c c' => c.line < c'.line
  place : ∀ c ∈ e.changes, (∃ d ∈ silenced, d.line = c.line) ∧
    ∃ l ∈ m.lines, l.number = c.line ∧ l.endsStatement = true
  isNoop_iff : e.isNoop = true ↔ e.text = source

section Edit

variable {source : Text} {m : SourceMap} {comments : Nat → Option Text}

theorem pairwise_number_of_classify (hm : classify source = .ok m) :
    m.lines.Pairwise fun l l' => l.number < l'.number := by
  rw [← List.pairwise_map (f := SourceLine.number) (R := (· < ·)), (classify_eq_ok_iff.1 hm).number]
  exact List.pairwise_lt_range'

/-- A line is told of as it is edited. -/
theorem tellsLine_edited (hm : classify source = .ok m) {l : SourceLine} (hl : l ∈ m.lines)
    (hblank : ∀ t, comments l.number = some t → t ≠ l.comment → l.comment = [] → ∃ c ∈ t, Text.isBlank c = false) :
    TellsLine (applyComments m.lines comments).changes l (l.edited comments) := by
  have hfilter := filter_changes comments (pairwise_number_of_classify hm) hl
  have hexists : (∃ c ∈ (applyComments m.lines comments).changes, c.line = l.number) ↔
      lineChange? comments l ≠ none := by
    rw [ne_eq, ← Option.toList_eq_nil_iff, ← hfilter, List.filter_eq_nil_iff]
    simp
  rcases l.edited_cases comments with ⟨hkept, hsame⟩ | ⟨t, ht, hne, hedited⟩
  · have hnone : lineChange? comments l = none := lineChange?_eq_none_iff.2 hsame
    rw [hkept]
    exact ⟨rfl, by simp [hexists, hnone], fun hne => absurd rfl hne⟩
  · have hchange : lineChange? comments l = some ⟨l.number, l.comment, t⟩ := lineChange?_eq_some_iff.2 ⟨t, ht, hne, rfl⟩
    have hcontent : (l.withComment t).content ≠ l.content := withComment_content_ne hne (hblank t ht hne)
    rw [hedited]
    refine ⟨rfl, ?_, fun _ => ?_⟩
    · simp [hexists, hchange, hcontent]
    · rw [hfilter, hchange]
      rfl

/-- An edit without changes leaves the text as it is, and no other does. -/
theorem isNoop_iff_text_eq (hm : classify source = .ok m)
    (hfree : ∀ l ∈ m.lines, ∀ t, comments l.number = some t → BreakFree t)
    (hlines : ∀ l ∈ m.lines, TellsLine (applyComments m.lines comments).changes l (l.edited comments)) :
    (applyComments m.lines comments).isNoop = true ↔ (applyComments m.lines comments).text = source := by
  constructor
  · intro hnoop
    have hnone : ∀ l ∈ m.lines, lineChange? comments l = none :=
      List.filterMap_eq_nil_iff.1 (List.isEmpty_iff.1 hnoop)
    rw [FileEdit.text, (isNoop_applyComments hnone).2, render_of_classify hm]
  · intro htext
    rw [FileEdit.text, applyComments_lines, ← render_of_classify hm] at htext
    have hpairs : List.Forall₂ (fun l l' => l'.ending = l.ending ∧ BreakFree l.content ∧ BreakFree l'.content)
        m.lines (m.lines.map (SourceLine.edited comments)) := by
      rw [List.forall₂_map_right_iff, List.forall₂_same]
      intro l hl
      have hcontent := breakFree_content_of_classify hm l hl
      exact ⟨l.edited_ending comments, hcontent, breakFree_edited_content (hfree l hl) hcontent⟩
    have hsame := contents_eq_of_render_eq hpairs (classify_eq_ok_iff.1 hm).ending htext.symm
    rw [List.forall₂_map_right_iff, List.forall₂_same] at hsame
    -- a change would be for a line that is another
    rw [FileEdit.isNoop, List.isEmpty_iff, List.eq_nil_iff_forall_not_mem]
    intro c hc
    obtain ⟨l, hl, hchange⟩ := List.mem_filterMap.1 hc
    exact ((hlines l hl).changed_iff.2 ⟨c, hc, line_of_lineChange? hchange⟩) (hsame l hl)

end Edit

/-- **The changes of a run are those of the text.** -/
theorem silenceSource_tellsChanges {source : Text} {m : SourceMap} (hm : classify source = .ok m) {ds : List Diagnostic}
    (hds : ∀ d ∈ ds, ∀ code ∈ d.code, BreakFree code) {policy : Policy} (hpolicy : BreakFree policy.followUp) :
    ∃ e, (silenceSource source ds policy).edit = .ok e ∧
      e.TellsChanges source m (silenceSource source ds policy).silenced := by
  rw [silenceSource_of_classify hm]
  refine ⟨_, rfl, ?_⟩
  rw [planEdit_eq]
  have hlines : ∀ l ∈ m.lines, TellsLine
      (applyComments m.lines (plannedComment m (partition m ds).byLine policy)).changes l
      (l.edited (plannedComment m (partition m ds).byLine policy)) := by
    intro l hl
    refine tellsLine_edited hm hl fun t ht hne hnil => ⟨'#', ?_, by decide⟩
    obtain ⟨group, -, rfl⟩ := (plannedComment_eq_some_iff hm hl).1 ht
    rw [hnil] at hne ⊢
    exact mem_synthesize_nil hne
  refine ⟨?_, ascending_changes (pairwise_number_of_classify hm), ?_, ?_⟩
  · rw [applyComments_lines, List.forall₂_map_right_iff, List.forall₂_same]
    exact hlines
  · intro c hc
    obtain ⟨l, hl, hchange⟩ := List.mem_filterMap.1 hc
    obtain ⟨t, ht, -, rfl⟩ := lineChange?_eq_some_iff.1 hchange
    obtain ⟨group, hgroup, -⟩ := (plannedComment_eq_some_iff hm hl).1 ht
    obtain ⟨hne, rfl⟩ := ((groups_partition m ds).lookup l.number group).1 hgroup
    obtain ⟨d, hd⟩ := List.exists_mem_of_ne_nil _ hne
    have hline := (targetLine_eq_ok hm (mem_placedOn.1 hd).2).1
    exact ⟨⟨d, mem_flatMap_byLine.2 ⟨_, hd, hgroup⟩, hline.symm⟩, exists_line_of_lookup hm hgroup⟩
  · exact isNoop_iff_text_eq hm (fun l hl t ht => breakFree_planned hm hds hpolicy hl ht) hlines

/-- Blanks that go, a line of blanks, a marker that goes, one that is there already, and a diagnostic that is
rejected. -/
theorem silenceSource_tellsChanges_mixed :
    let source : Text := "x = 1 \t\r\n   \ry = 2  # type: ignore[a]  # note\nz = '''\n''' # type: ignore[b]\nw "
    let d (line : Nat) (code : String) : Diagnostic :=
      { path := ⟨"m.py"⟩, line := line, code := some code.toList, message := "m\nn".toList }
    let ds := [d 5 "b", d 3 "unused-ignore", d 2 "c", d 1 "b", d 4 "c"]
    ∃ m e, classify source = .ok m ∧ (silenceSource source ds {}).edit = .ok e ∧
      e.changes = [⟨1, [], "  # type: ignore[b]  # FIX ME"⟩, ⟨2, [], "  # type: ignore[c]  # FIX ME"⟩,
        ⟨3, "  # type: ignore[a]  # note", "  # note"⟩] ∧
      e.TellsChanges source m (silenceSource source ds {}).silenced := by
  intro source d ds
  obtain ⟨m, hm⟩ : ∃ m, classify source = .ok m := ⟨_, rfl⟩
  obtain ⟨e, he, htells⟩ : ∃ e, (silenceSource source ds {}).edit = .ok e ∧
      e.TellsChanges source m (silenceSource source ds {}).silenced :=
    silenceSource_tellsChanges hm (by decide) (by decide)
  refine ⟨m, e, hm, he, ?_, htells⟩
  have hchanges : (silenceSource source ds {}).edit.toOption.map FileEdit.changes =
      some [⟨1, [], "  # type: ignore[b]  # FIX ME"⟩, ⟨2, [], "  # type: ignore[c]  # FIX ME"⟩,
        ⟨3, "  # type: ignore[a]  # note", "  # note"⟩] := by decide +kernel
  rw [he] at hchanges
  exact Option.some.inj hchanges

end TypeIgnore
