import TypeIgnore.Proofs.Edit.Suppression
import TypeIgnore.Proofs.Edit.Verdicts
import Mathlib.Data.List.Sort

/-!
# The order of diagnostics

* `Diagnostic.addedCodes`, `Diagnostic.removedCodes` — what one diagnostic asks of a marker, and
  `LineRequest.exists_push_eq` — it asks for nothing else;
* `LineRequest.Asks ds r` — the request `r` is for what the diagnostics `ds` ask, whatever their order; kept by one more
  diagnostic (`LineRequest.Asks.push`), hence true of what they ask for together (`LineRequest.asks_ofDiagnostics`);
* `synthesize_ofDiagnostics_congr` — so comments without messages depend on which diagnostics there are, and on nothing
  else;
* `silenced_perm_filter`, `pairwise_line_silenced` — the silenced diagnostics are those that are placed, line by line;
* `FileOutcome.SameUpToOrder` — two outcomes that differ in the order of what they list.
-/

namespace TypeIgnore

/-! ## What one diagnostic asks for -/

namespace Diagnostic

/-- The codes that the marker is to get. -/
def addedCodes (d : Diagnostic) : List Text :=
  match d.code with
  | none => []
  | some code =>
    if code = unusedIgnoreCode then []
    else if code = ignoreWithoutCodeCode then quotedCodes d.message
    else [code]

/-- The codes that the marker is to lose. -/
def removedCodes (d : Diagnostic) : List Text :=
  match d.code with
  | none => []
  | some code =>
    if code = unusedIgnoreCode then if quotedCodes d.message = [] then [wildcard] else quotedCodes d.message
    else if code = ignoreWithoutCodeCode then [wildcard]
    else []

end Diagnostic

namespace LineRequest

/-- **What a diagnostic does to a request,** descriptions apart. -/
theorem exists_push_eq (r : LineRequest) (d : Diagnostic) :
    ∃ descriptions, r.push d =
      { add := r.add.insertAll d.addedCodes
        blanket := r.blanket || d.code.isNone
        remove := r.remove.insertAll d.removedCodes
        descriptions } := by
  unfold push Diagnostic.addedCodes Diagnostic.removedCodes
  cases d.code with
  | none =>
    obtain ⟨descriptions, hdescribe, -⟩ := exists_describe_eq { r with blanket := true } none d.message
    exact ⟨descriptions, by simp [hdescribe, CodeSet.insertAll]⟩
  | some code =>
    by_cases hunused : code = unusedIgnoreCode
    · refine ⟨r.descriptions, ?_⟩
      cases hquoted : quotedCodes d.message <;> simp [hunused, CodeSet.insertAll]
    by_cases hwithout : code = ignoreWithoutCodeCode
    · subst hwithout
      exact ⟨r.descriptions, by simp [hunused, CodeSet.insertAll]⟩
    · obtain ⟨descriptions, hdescribe, -⟩ :=
        exists_describe_eq { r with add := r.add.insert code } (some code) d.message
      exact ⟨descriptions, by simp [hunused, hwithout, hdescribe, CodeSet.insertAll]⟩

/-! ## What diagnostics ask for together -/

/-- The request is for what the diagnostics ask. -/
structure Asks (ds : List Diagnostic) (r : LineRequest) : Prop where
  sorted_add : CodeSet.Sorted r.add
  sorted_remove : CodeSet.Sorted r.remove
  add : ∀ code, code ∈ r.add ↔ ∃ d ∈ ds, code ∈ d.addedCodes
  remove : ∀ code, code ∈ r.remove ↔ ∃ d ∈ ds, code ∈ d.removedCodes
  blanket : r.blanket = true ↔ ∃ d ∈ ds, d.code = none

/-- One more diagnostic. -/
theorem Asks.push {ds : List Diagnostic} {r : LineRequest} (h : r.Asks ds) (d : Diagnostic) :
    (r.push d).Asks (ds ++ [d]) := by
  obtain ⟨descriptions, hpush⟩ := exists_push_eq r d
  rw [hpush]
  refine ⟨h.sorted_add.insertAll _, h.sorted_remove.insertAll _, ?_, ?_, ?_⟩
  · intro code
    rw [CodeSet.mem_insertAll, h.add, exists_mem_concat]
  · intro code
    rw [CodeSet.mem_insertAll, h.remove, exists_mem_concat]
  · rw [Bool.or_eq_true, h.blanket, Option.isNone_iff_eq_none, exists_mem_concat, or_comm]

theorem asks_ofDiagnostics (ds : List Diagnostic) : (ofDiagnostics ds).Asks ds := by
  induction ds using List.reverseRecOn with
  | nil => exact ⟨.nil, .nil, by simp [ofDiagnostics], by simp [ofDiagnostics], by simp [ofDiagnostics]⟩
  | append_singleton ds d ih =>
    rw [ofDiagnostics_append_singleton]
    exact ih.push d

/-- The same diagnostics ask for the same. -/
theorem Asks.congr {ds ds' : List Diagnostic} {r r' : LineRequest} (h : r.Asks ds) (h' : r'.Asks ds')
    (hmem : ∀ d, d ∈ ds ↔ d ∈ ds') : r' = { r with descriptions := r'.descriptions } := by
  have hadd : r.add = r'.add :=
    h.sorted_add.ext h'.sorted_add fun code => by simp only [h.add, h'.add, hmem]
  have hremove : r.remove = r'.remove :=
    h.sorted_remove.ext h'.sorted_remove fun code => by simp only [h.remove, h'.remove, hmem]
  have hblanket : r.blanket = r'.blanket := by
    rw [Bool.eq_iff_iff, h.blanket, h'.blanket]
    simp only [hmem]
  rw [hadd, hremove, hblanket]

end LineRequest

/-- Without messages, descriptions have no part in the new comment. -/
theorem synthesize_descriptions {style : CommentStyle} (hstyle : style.descriptions = .plain) (existing : Text)
    (r : LineRequest) (descriptions : List Description) :
    synthesize existing { r with descriptions } style = synthesize existing r style := by
  simp only [synthesize, annotations, hstyle, MarkerState.grant]

/-- **A comment without messages depends on which diagnostics there are, and not on their order.** -/
theorem synthesize_ofDiagnostics_congr {style : CommentStyle} (hstyle : style.descriptions = .plain) (existing : Text)
    {ds ds' : List Diagnostic} (hmem : ∀ d, d ∈ ds ↔ d ∈ ds') :
    synthesize existing (.ofDiagnostics ds') style = synthesize existing (.ofDiagnostics ds) style := by
  have hsame := (LineRequest.asks_ofDiagnostics ds).congr (LineRequest.asks_ofDiagnostics ds') hmem
  rw [hsame]
  exact synthesize_descriptions hstyle existing (.ofDiagnostics ds) _

/-! ## Groups -/

section Groups

variable {source : Text} {m : SourceMap} {ds ds' : List Diagnostic}

theorem placedOn_perm (m : SourceMap) (n : Nat) (h : ds.Perm ds') : (placedOn m n ds).Perm (placedOn m n ds') :=
  h.filter _

/-- The groups of the same line are the same, but for the order. -/
theorem exists_lookup_of_perm (h : ds.Perm ds') {n : Nat} {group : List Diagnostic}
    (hgroup : (partition m ds).byLine.lookup n = some group) :
    ∃ group', (partition m ds').byLine.lookup n = some group' ∧ group.Perm group' := by
  obtain ⟨hne, rfl⟩ := ((groups_partition m ds).lookup n group).1 hgroup
  have hperm := placedOn_perm m n h
  have hne' : placedOn m n ds' ≠ [] := fun hnil => hne (List.perm_nil.1 (hnil ▸ hperm))
  exact ⟨_, ((groups_partition m ds').lookup n _).2 ⟨hne', rfl⟩, hperm⟩

/-- The comments that are planned for a line do not depend on the order. -/
theorem plannedComment_perm {policy : Policy} (hplain : policy.descriptions = .plain) (h : ds.Perm ds') (n : Nat) :
    plannedComment m (partition m ds').byLine policy n = plannedComment m (partition m ds).byLine policy n := by
  unfold plannedComment
  cases hgroup : (partition m ds).byLine.lookup n with
  | some group =>
    obtain ⟨group', hgroup', hperm⟩ := exists_lookup_of_perm (m := m) h hgroup
    have hcomment (existing : Text) : synthesize existing (.ofDiagnostics group') policy.style =
        synthesize existing (.ofDiagnostics group) policy.style :=
      synthesize_ofDiagnostics_congr hplain existing fun d => hperm.mem_iff
    simp only [hgroup', Option.bind_eq_bind, Option.bind_some, hcomment]
  | none =>
    cases hgroup' : (partition m ds').byLine.lookup n with
    | none => rfl
    | some group' =>
      obtain ⟨group, hsome, -⟩ := exists_lookup_of_perm (m := m) h.symm hgroup'
      rw [hgroup] at hsome
      cases hsome

/-- The silenced diagnostics are those that are placed on a line. -/
theorem silenced_perm_filter (m : SourceMap) (ds : List Diagnostic) :
    ((partition m ds).byLine.flatMap (·.2)).Perm (ds.filter fun d => (targetLine m d).toOption.isSome) := by
  induction ds using List.reverseRecOn with
  | nil => exact .refl _
  | append_singleton ds d ih =>
    rw [partition_append_singleton, List.filter_append, Partition.place]
    cases htarget : targetLine m d with
    | ok n =>
      refine (ByLine.flatMap_add_perm _ n d).trans ?_
      simpa [htarget, Except.toOption] using ih.append_right [d]
    | error reason => simpa [htarget, Except.toOption] using ih

/-- They come line by line. -/
theorem pairwise_line_silenced (hm : classify source = .ok m) (ds : List Diagnostic) :
    (((partition m ds).byLine.flatMap (·.2)).map Diagnostic.line).Pairwise (· ≤ ·) := by
  have hgroups := groups_partition m ds
  have hline : ∀ group ∈ (partition m ds).byLine, ∀ d ∈ group.2, d.line = group.1 := by
    rintro ⟨n, group⟩ hgroup d hd
    obtain ⟨-, rfl⟩ := (hgroups.lookup n group).1 (hgroups.ascending.mem_iff.1 hgroup)
    exact (targetLine_eq_ok hm (mem_placedOn.1 hd).2).1.symm
  rw [List.pairwise_map, List.pairwise_flatMap]
  constructor
  · intro group hgroup
    refine List.pairwise_of_forall_mem_list fun d hd e he => ?_
    rw [hline group hgroup d hd, hline group hgroup e he]
  · refine hgroups.ascending.imp_of_mem ?_
    intro group group' hgroup hgroup' hlt d hd e he
    rw [hline group hgroup d hd, hline group' hgroup' e he]
    exact hlt.le

/-- A diagnostic is rejected for the reason why it has no line. -/
theorem targetLine_of_mem_rejected {r : Rejected} (h : r ∈ (partition m ds).rejected) :
    targetLine m r.diagnostic = .error r.reason := by
  rw [rejected_partition, List.mem_filterMap] at h
  obtain ⟨d, -, hd⟩ := h
  cases htarget : targetLine m d with
  | ok n =>
    rw [htarget] at hd
    cases hd
  | error reason =>
    rw [htarget] at hd
    cases hd
    exact htarget

end Groups

/-! ## Runs -/

/-- The outcomes differ in the order of what they list, and in nothing else. -/
structure FileOutcome.SameUpToOrder (o o' : FileOutcome) : Prop where
  /-- The same edit, or the same error. -/
  edit : o'.edit = o.edit
  silenced : o.silenced.Perm o'.silenced
  lines : o'.silenced.map Diagnostic.line = o.silenced.map Diagnostic.line
  rejected : o.rejected.Perm o'.rejected
  reason : ∀ r ∈ o.rejected, ∀ r' ∈ o'.rejected, r.diagnostic = r'.diagnostic → r.reason = r'.reason

/-- **The order of the diagnostics does not matter,** as long as their messages are not copied into comments. -/
theorem silenceSource_sameUpToOrder (source : Text) {policy : Policy} (hplain : policy.descriptions = .plain)
    {ds ds' : List Diagnostic} (h : ds.Perm ds') :
    (silenceSource source ds policy).SameUpToOrder (silenceSource source ds' policy) := by
  cases hm : classify source with
  | error e =>
    simp only [silenceSource, hm]
    refine ⟨rfl, .refl _, rfl, h.map _, ?_⟩
    intro r hr r' hr' hsame
    obtain ⟨d, -, rfl⟩ := List.mem_map.1 hr
    obtain ⟨d', -, rfl⟩ := List.mem_map.1 hr'
    obtain rfl : d = d' := hsame
    rfl
  | ok m =>
    rw [silenceSource_of_classify hm, silenceSource_of_classify hm]
    have hsilenced : ((partition m ds).byLine.flatMap (·.2)).Perm ((partition m ds').byLine.flatMap (·.2)) :=
      (silenced_perm_filter m ds).trans ((h.filter _).trans (silenced_perm_filter m ds').symm)
    refine ⟨?_, hsilenced, ?_, ?_, ?_⟩
    · rw [planEdit_eq, planEdit_eq, funext (plannedComment_perm hplain h)]
    · exact (hsilenced.map _).symm.eq_of_pairwise' (pairwise_line_silenced hm ds') (pairwise_line_silenced hm ds)
    · rw [rejected_partition, rejected_partition]
      exact h.filterMap _
    · intro r hr r' hr' hsame
      have hreason := targetLine_of_mem_rejected hr
      rw [hsame, targetLine_of_mem_rejected hr'] at hreason
      exact (Except.error.inj hreason).symm

/-- Codes that are added and removed in one line, a diagnostic without code next to one about the marker, and two
that are rejected. -/
theorem silenceSource_sameUpToOrder_mixed :
    let source : Text := "x = 1  # type: ignore[a, b]\ny = f(\n  2)\nz = 3\n"
    let d (line : Nat) (code : Option String) (message : String) : Diagnostic :=
      { path := ⟨"m.py"⟩, line := line, code := code.map String.toList, message := message.toList }
    let ds := [d 1 "a" "m", d 3 none "n", d 1 "unused-ignore" "Unused \"type: ignore[a, b]\" comment", d 2 "c" "m",
      d 3 "ignore-without-code" "consider \"type: ignore[e]\"", { d 4 "f" "m" with severity := .syntaxError },
      d 1 "c" "o"]
    (ds.Perm ds.reverse ∧
      (silenceSource source ds {}).silenced ≠ (silenceSource source ds.reverse {}).silenced ∧
      (silenceSource source ds {}).rejected ≠ (silenceSource source ds.reverse {}).rejected) ∧
      (silenceSource source ds {}).SameUpToOrder (silenceSource source ds.reverse {}) ∧
      (silenceSource source ds {}).edit.toOption.map FileEdit.text =
        some "x = 1  # type: ignore[a, c]  # FIX ME\ny = f(\n  2)  # type: ignore  # FIX ME\nz = 3\n".toList := by
  intro source d ds
  have hperm : ds.Perm ds.reverse := (List.reverse_perm ds).symm
  exact ⟨⟨hperm, by decide +kernel, by decide +kernel⟩, silenceSource_sameUpToOrder source rfl hperm, by decide +kernel⟩

end TypeIgnore
