import TypeIgnore.Proofs.Edit.Partition
import TypeIgnore.Proofs.Source.Statements

/-!
# Which diagnostics are rejected

* `SourceMap.IsOpen`, `SourceMap.InRegion` — a line that leaves its statement open, and a line of a statement of several
  lines, as looking up a region tells them (`isOpen_iff`, `inRegion_iff`);
* `SourceMap.verdict` — where a diagnostic belongs, told by the lines and their statements;
* `targetLine_eq_verdict` — it is what the lookup of regions decides;
* `rejected_partition` — the rejected diagnostics are those with a reason, in order;
* `ExactPartition` — what a partition is, given by the verdict on each diagnostic.
-/

namespace TypeIgnore

/-! ## Lines inside statements -/

namespace SourceMap

/-- Line `n` leaves its statement open. -/
def IsOpen (m : SourceMap) (n : Nat) : Prop := ∃ l ∈ m.lines, l.number = n ∧ l.endsStatement = false

/-- Line `n` belongs to a statement of several lines. -/
def InRegion (m : SourceMap) (n : Nat) : Prop := ∃ r ∈ m.regions, r.first ≤ n ∧ n ≤ r.last

instance (m : SourceMap) (n : Nat) : Decidable (m.IsOpen n) :=
  inferInstanceAs (Decidable (∃ l ∈ m.lines, _))

instance (m : SourceMap) (n : Nat) : Decidable (m.InRegion n) :=
  inferInstanceAs (Decidable (∃ r ∈ m.regions, _))

/-- The diagnostic is inside a statement: its line leaves its statement open, or it is a statement of its own and the
diagnostic ends in a later line that leaves its statement open. -/
def Inside (m : SourceMap) (d : Diagnostic) : Prop :=
  m.IsOpen d.line ∨ ¬ m.InRegion d.line ∧ ∃ n ∈ d.endLine, d.line < n ∧ m.IsOpen n

instance (m : SourceMap) (d : Diagnostic) : Decidable (m.Inside d) :=
  inferInstanceAs (Decidable (_ ∨ _ ∧ _))

/-- Where a diagnostic belongs, or why nowhere. -/
def verdict (m : SourceMap) (d : Diagnostic) : Except Reason Nat :=
  if d.isSyntax then .error .syntaxError
  else if d.line = 0 ∨ m.lines.length < d.line then .error .lineOutOfRange
  else if m.Inside d then .error .midRegion
  else .ok d.line

/-- The rejection of a diagnostic that belongs nowhere. -/
def rejection? (m : SourceMap) (d : Diagnostic) : Option Rejected :=
  match m.verdict d with
  | .error reason => some ⟨d, reason⟩
  | .ok _ => none

end SourceMap

section Target

variable {source : Text} {m : SourceMap} (hm : classify source = .ok m)

include hm

theorem mem_regions_of_regionAt? {n : Nat} {r : Region} :
    m.regionAt? n = some r ↔ r ∈ m.regions ∧ r.contains n = true :=
  have hregions := (classify_eq_ok_iff.1 hm).regionsFrom (by simp)
  regionAt?_eq_some_iff hregions.ascending hregions.spans

/-- A line is left open exactly inside the region that is looked up for it. -/
theorem isOpen_iff {n : Nat} : m.IsOpen n ↔ ∃ r, m.regionAt? n = some r ∧ r.isInterior n = true := by
  constructor
  · rintro ⟨l, hl, rfl, hopen⟩
    exact regionAt?_of_not_endsStatement hm hl hopen
  · rintro ⟨r, hr, hin⟩
    have hregions := (classify_eq_ok_iff.1 hm).regionsFrom (by simp)
    have hmem := ((mem_regions_of_regionAt? hm).1 hr).1
    have hfirst : 1 ≤ r.first := hregions.first r hmem
    have hlast := (hregions.last r hmem).2
    have hbounds := Region.isInterior_iff.1 hin
    have hle : n ≤ m.lineCount := by
      rw [SourceMap.lineCount]
      omega
    obtain ⟨l, hl, rfl⟩ := exists_line hm (by omega) hle
    exact ⟨l, hl, rfl, (hregions.endsStatement l hl).2 ⟨r, hmem, hin⟩⟩

theorem inRegion_iff {n : Nat} : m.InRegion n ↔ ∃ r, m.regionAt? n = some r := by
  simp only [mem_regions_of_regionAt? hm, Region.contains_iff, SourceMap.InRegion]

/-- A later line is left open exactly inside a region that begins after line `k`, if line `k` is in no region. -/
theorem isOpen_iff_of_later {k n : Nat} (hk : m.regionAt? k = none) (hlt : k < n) :
    m.IsOpen n ↔ (m.regionAt? n).any (fun r => k < r.first && r.isInterior n) = true := by
  rw [isOpen_iff hm, Option.any_eq_true]
  refine exists_congr fun r => and_congr_right fun hr => ?_
  rw [Bool.and_eq_true, decide_eq_true_eq, and_iff_right_of_imp]
  intro hin
  by_contra hle
  -- the region would reach back to line `k`
  have hmem := ((mem_regions_of_regionAt? hm).1 hr).1
  have hbounds := Region.isInterior_iff.1 hin
  have hcontains : r.contains k = true := Region.contains_iff.2 (by omega)
  rw [(mem_regions_of_regionAt? hm).2 ⟨hmem, hcontains⟩] at hk
  cases hk

/-- **The lookup of regions decides by the statements of the lines.** -/
theorem targetLine_eq_verdict (d : Diagnostic) : targetLine m d = m.verdict d := by
  unfold targetLine SourceMap.verdict
  split
  · rfl
  refine ite_congr rfl (fun _ => rfl) fun _ => ?_
  cases hregion : m.regionAt? d.line with
  | some r =>
    have hinside : m.Inside d ↔ r.isInterior d.line = true := by
      have hin : m.InRegion d.line := (inRegion_iff hm).2 ⟨r, hregion⟩
      simp [SourceMap.Inside, hin, isOpen_iff hm, hregion]
    have hcontains := Region.contains_iff.1 ((mem_regions_of_regionAt? hm).1 hregion).2
    by_cases hinterior : r.isInterior d.line = true
    · simp [hinside, hinterior]
    · have hlast : r.last = d.line := by
        have hbounds := mt Region.isInterior_iff.2 hinterior
        omega
      simp [hinside, hinterior, hlast]
  | none =>
    have hinside : m.Inside d ↔ d.endLine.any (fun n =>
        d.line < n && (m.regionAt? n).any fun r => d.line < r.first && r.isInterior n) = true := by
      have hclosed : ¬ m.IsOpen d.line := by simp [isOpen_iff hm, hregion]
      have hout : ¬ m.InRegion d.line := by simp [inRegion_iff hm, hregion]
      rw [SourceMap.Inside, or_iff_right hclosed, and_iff_right hout, Option.any_eq_true]
      refine exists_congr fun n => and_congr_right fun _ => ?_
      rw [Bool.and_eq_true, decide_eq_true_eq]
      exact and_congr_right fun hlt => isOpen_iff_of_later hm hregion hlt
    simp only [hinside]

end Target

/-! ## Partitions -/

/-- The rejected diagnostics are those without a line, in order. -/
theorem rejected_partition (m : SourceMap) (ds : List Diagnostic) :
    (partition m ds).rejected = ds.filterMap fun d =>
      match targetLine m d with
      | .error reason => some ⟨d, reason⟩
      | .ok _ => none := by
  induction ds using List.reverseRecOn with
  | nil => rfl
  | append_singleton ds d ih =>
    rw [partition_append_singleton, List.filterMap_append, ← ih, Partition.place]
    cases htarget : targetLine m d with
    | ok n => simp [htarget]
    | error reason => simp [htarget]

/-- A partition of `ds` by the verdict on each of them. Order is kept in every group and among the rejected. -/
structure ExactPartition (m : SourceMap) (ds : List Diagnostic) (p : Partition) : Prop where
  /-- Nothing is lost, and nothing comes twice. -/
  perm : (p.byLine.flatMap (·.2) ++ p.rejected.map (·.diagnostic)).Perm ds
  ascending : p.byLine.Pairwise fun group group' => group.1 < group'.1
  groups : ∀ n group, (n, group) ∈ p.byLine ↔ group ≠ [] ∧ group = ds.filter fun d => (m.verdict d).toOption == some n
  rejected : p.rejected = ds.filterMap m.rejection?
  /-- A group is under the line of its own diagnostics, which ends a statement. -/
  line : ∀ n group, (n, group) ∈ p.byLine →
    (∀ d ∈ group, d.line = n) ∧ ∃ l ∈ m.lines, l.number = n ∧ l.endsStatement = true

/-- **Each diagnostic is decided on its own, by the statements of the lines.** -/
theorem exactPartition_partition (source : Text) (m : SourceMap) (hm : classify source = .ok m) (ds : List Diagnostic) :
    ExactPartition m ds (partition m ds) := by
  have hgroups := groups_partition m ds
  have htarget : targetLine m = m.verdict := funext (targetLine_eq_verdict hm)
  refine ⟨partition_perm m ds, hgroups.ascending, ?_, ?_, ?_⟩
  · intro n group
    rw [hgroups.ascending.mem_iff, hgroups.lookup, placedOn, htarget]
  · rw [rejected_partition, htarget]
    rfl
  · intro n group hgroup
    obtain ⟨hne, rfl⟩ := (hgroups.lookup n group).1 (hgroups.ascending.mem_iff.1 hgroup)
    have hplaced : ∀ d ∈ placedOn m n ds, n = d.line ∧ ∃ l ∈ m.lines, l.number = n ∧ l.endsStatement = true :=
      fun d hd => targetLine_eq_ok hm (mem_placedOn.1 hd).2
    obtain ⟨d, hd⟩ := List.exists_mem_of_ne_nil _ hne
    exact ⟨fun d hd => (hplaced d hd).1.symm, (hplaced d hd).2⟩

/-- Spans that end inside a later statement, at its end and after the source, and lines of all kinds. -/
theorem exactPartition_partition_mixed :
    let source : Text := "a = 1\nb = (\n  2,\n)\n"
    let span (line : Nat) (endLine : Option Nat) : Diagnostic := { path := ⟨"m.py"⟩, line, endLine, message := "m" }
    let ds := [span 4 none, span 1 (some 3), span 1 (some 4), span 3 (some 4), span 1 (some 9), span 9 none,
      { span 2 none with severity := .syntaxError }, span 4 (some 2)]
    ∃ m, classify source = .ok m ∧
      partition m ds =
        ⟨[(1, [span 1 (some 4), span 1 (some 9)]), (4, [span 4 none, span 4 (some 2)])],
          [⟨span 1 (some 3), .midRegion⟩, ⟨span 3 (some 4), .midRegion⟩, ⟨span 9 none, .lineOutOfRange⟩,
            ⟨{ span 2 none with severity := .syntaxError }, .syntaxError⟩]⟩ ∧
      ExactPartition m ds (partition m ds) := by
  intro source span ds
  have hm : classify source = .ok
      ⟨[⟨1, "a = 1", [], some .lf, true⟩, ⟨2, "b = (", [], some .lf, false⟩, ⟨3, "  2,", [], some .lf, false⟩,
        ⟨4, ")", [], some .lf, true⟩], [⟨2, 4, .continuation⟩]⟩ := by decide +kernel
  exact ⟨_, hm, by decide +kernel, exactPartition_partition source _ hm ds⟩

end TypeIgnore
