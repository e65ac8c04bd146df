import TypeIgnore.Edit.Partition
import TypeIgnore.Proofs.Source.Regions
import Mathlib.Data.List.Induction
import Mathlib.Data.List.Perm.Basic

/-!
# Diagnostics by line

* `targetLine_eq_ok` — a diagnostic is placed on its own line, which ends a statement;
* `ByLine.lookup_add` — adding a diagnostic changes the group of its line and no other;
* `Partition.Groups m ds p` — the groups of `p` are the diagnostics of `ds` by line; kept by one more diagnostic
  (`Partition.Groups.place`), hence true of every partition (`groups_partition`);
* `partition_congr` — only the regions and the number of lines count;
* `partition_perm` — each diagnostic is placed or rejected, once.
-/

namespace TypeIgnore

/-! ## The line of a diagnostic -/

section Target

variable {source : Text} {m m' : SourceMap} {d : Diagnostic} {n : Nat}

theorem regionAt?_contains {r : Region} (h : m.regionAt? n = some r) : r.contains n = true :=
  (Option.filter_eq_some_iff.1 h).2

/-- A diagnostic whose line is in no region, or is the last line of one, is placed on it. -/
theorem targetLine_cases (h : targetLine m d = .ok n) :
    n = d.line ∧ (d.line ≠ 0 ∧ d.line ≤ m.lineCount) ∧
      ∀ r, m.regionAt? d.line = some r → r.isInterior d.line = false := by
  unfold targetLine at h
  split at h
  · cases h
  split at h
  · cases h
  rename_i hrange
  have hrange : d.line ≠ 0 ∧ d.line ≤ m.lineCount := by omega
  split at h
  · rename_i r hr
    split at h
    · cases h
    · rename_i hinterior
      cases h
      have hcontains := Region.contains_iff.1 (regionAt?_contains hr)
      have hlast : ¬ (r.first ≤ d.line ∧ d.line < r.last) := fun hlt => hinterior (Region.isInterior_iff.2 hlt)
      refine ⟨by omega, hrange, ?_⟩
      intro r' hr'
      rw [hr] at hr'
      cases hr'
      simpa using hinterior
  · rename_i hnone
    have hline : n = d.line := by
      simp only at h
      split at h <;> cases h
      rfl
    refine ⟨hline, hrange, ?_⟩
    intro r hr
    rw [hnone] at hr
    cases hr

/-- **A diagnostic is placed on its own line,** which ends a statement. -/
theorem targetLine_eq_ok (hm : classify source = .ok m) (h : targetLine m d = .ok n) :
    n = d.line ∧ ∃ l ∈ m.lines, l.number = n ∧ l.endsStatement = true := by
  obtain ⟨rfl, ⟨hpos, hle⟩, hinterior⟩ := targetLine_cases h
  obtain ⟨l, hmem, hnumber⟩ := exists_line hm hpos hle
  refine ⟨rfl, l, hmem, hnumber, ?_⟩
  by_contra hopen
  obtain ⟨r, hr, hin⟩ := regionAt?_of_not_endsStatement hm hmem (by simpa using hopen)
  rw [hnumber] at hr hin
  rw [hinterior r hr] at hin
  cases hin

/-- Only the regions and the number of lines decide where a diagnostic goes. -/
theorem targetLine_congr (hregions : m'.regions = m.regions) (hcount : m'.lineCount = m.lineCount) (d : Diagnostic) :
    targetLine m' d = targetLine m d := by
  have hregionAt : m'.regionAt? = m.regionAt? := by
    funext k
    have hends : m'.endsBefore k = m.endsBefore k := by
      funext i
      rw [SourceMap.endsBefore, SourceMap.endsBefore, hregions]
    rw [SourceMap.regionAt?, SourceMap.regionAt?, hregions, hends]
  simp only [targetLine, hcount, hregionAt]

theorem partition_congr (hregions : m'.regions = m.regions) (hcount : m'.lineCount = m.lineCount)
    (ds : List Diagnostic) : partition m' ds = partition m ds := by
  have hplace : (fun (p : Partition) d => p.place m' d) = fun p d => p.place m d := by
    funext p d
    rw [Partition.place, Partition.place, targetLine_congr hregions hcount]
  rw [partition, partition, hplace]

end Target

/-! ## Groups in order -/

namespace ByLine

/-- The lines in order, each of them once. -/
def Ascending (b : ByLine) : Prop := b.Pairwise fun group group' => group.1 < group'.1

theorem lookup_cons_of_ne {n k : Nat} (h : n ≠ k) (ds : List Diagnostic) (b : ByLine) :
    List.lookup n ((k, ds) :: b) = b.lookup n := by
  rw [List.lookup_cons, beq_false_of_ne h]

theorem lookup_eq_none {b : ByLine} {n : Nat} (h : ∀ group ∈ b, n < group.1) : b.lookup n = none := by
  rw [List.lookup_eq_none_iff]
  intro group hgroup
  have hlt := h group hgroup
  simp
  omega

theorem mem_add {n : Nat} {d : Diagnostic} {b : ByLine} {group : Nat × List Diagnostic} (h : group ∈ b.add n d) :
    group.1 = n ∨ group ∈ b := by
  induction b with
  | nil => exact .inl (congrArg Prod.fst (List.mem_singleton.1 h))
  | cons first b ih =>
    obtain ⟨k, ds⟩ := first
    unfold ByLine.add at h
    split at h
    · rcases List.mem_cons.1 h with rfl | h
      · exact .inl rfl
      · exact .inr h
    split at h
    · rename_i hn
      rcases List.mem_cons.1 h with rfl | h
      · exact .inl hn.symm
      · exact .inr (List.mem_cons_of_mem _ h)
    · rcases List.mem_cons.1 h with rfl | h
      · exact .inr List.mem_cons_self
      · exact (ih h).imp_right (List.mem_cons_of_mem _)

theorem Ascending.add {b : ByLine} (h : b.Ascending) (n : Nat) (d : Diagnostic) : (b.add n d).Ascending := by
  induction b with
  | nil => exact List.pairwise_singleton _ _
  | cons first b ih =>
    obtain ⟨k, ds⟩ := first
    obtain ⟨hk, hb⟩ := List.pairwise_cons.1 h
    unfold ByLine.add
    split
    · rename_i hlt
      refine List.pairwise_cons.2 ⟨?_, h⟩
      intro group hgroup
      rcases List.mem_cons.1 hgroup with rfl | hgroup
      · exact hlt
      · exact hlt.trans (hk group hgroup)
    split
    · exact List.pairwise_cons.2 ⟨hk, hb⟩
    · rename_i hnlt hne
      refine List.pairwise_cons.2 ⟨?_, ih hb⟩
      intro group hgroup
      rcases mem_add hgroup with heq | hgroup
      · show k < group.1
        omega
      · exact hk group hgroup

/-- **Adding a diagnostic changes the group of its line and no other.** -/
theorem Ascending.lookup_add {b : ByLine} (h : b.Ascending) (n : Nat) (d : Diagnostic) (k : Nat) :
    (b.add n d).lookup k = if k = n then some ((b.lookup n).getD [] ++ [d]) else b.lookup k := by
  induction b with
  | nil =>
    by_cases hk : k = n
    · simp [ByLine.add, hk]
    · rw [if_neg hk]
      exact lookup_cons_of_ne hk [d] []
  | cons first b ih =>
    obtain ⟨j, ds⟩ := first
    obtain ⟨hj, hb⟩ := List.pairwise_cons.1 h
    unfold ByLine.add
    split
    · -- a new first group
      rename_i hlt
      have hnone : List.lookup n ((j, ds) :: b) = none := by
        refine lookup_eq_none ?_
        intro group hgroup
        rcases List.mem_cons.1 hgroup with rfl | hgroup
        · exact hlt
        · exact hlt.trans (hj group hgroup)
      by_cases hk : k = n
      · simp [hk, hnone]
      · rw [if_neg hk, lookup_cons_of_ne hk]
    split
    · rename_i hn
      subst hn
      by_cases hk : k = n
      · simp [hk]
      · rw [if_neg hk, lookup_cons_of_ne hk, lookup_cons_of_ne hk]
    · rename_i hne
      by_cases hk : k = j
      · subst hk
        rw [if_neg (Ne.symm hne), List.lookup_cons_self, List.lookup_cons_self]
      · rw [lookup_cons_of_ne hk, lookup_cons_of_ne hk, lookup_cons_of_ne hne, ih hb]

theorem Ascending.mem_iff {b : ByLine} (h : b.Ascending) {n : Nat} {ds : List Diagnostic} :
    (n, ds) ∈ b ↔ b.lookup n = some ds := by
  induction b with
  | nil => simp
  | cons first b ih =>
    obtain ⟨k, ds'⟩ := first
    obtain ⟨hk, hb⟩ := List.pairwise_cons.1 h
    rw [List.mem_cons]
    by_cases hn : n = k
    · subst hn
      have hnot : (n, ds) ∉ b := fun hmem => Nat.lt_irrefl n (hk _ hmem)
      simp [hnot, eq_comm]
    · rw [lookup_cons_of_ne hn, ← ih hb]
      simp [hn]

end ByLine

/-! ## Partitions -/

/-- The diagnostics that are placed on line `n`. -/
def placedOn (m : SourceMap) (n : Nat) (ds : List Diagnostic) : List Diagnostic :=
  ds.filter fun d => (targetLine m d).toOption == some n

theorem mem_placedOn {m : SourceMap} {n : Nat} {ds : List Diagnostic} {d : Diagnostic} :
    d ∈ placedOn m n ds ↔ d ∈ ds ∧ targetLine m d = .ok n := by
  rw [placedOn, List.mem_filter]
  cases targetLine m d <;> simp [Except.toOption]

/-- The groups of `p` are the diagnostics `ds` by line, in order. -/
structure Partition.Groups (m : SourceMap) (ds : List Diagnostic) (p : Partition) : Prop where
  ascending : p.byLine.Ascending
  lookup : ∀ n group, p.byLine.lookup n = some group ↔ group ≠ [] ∧ group = placedOn m n ds

namespace Partition.Groups

variable {m : SourceMap} {ds : List Diagnostic} {p : Partition}

theorem getD_lookup (h : Groups m ds p) (n : Nat) : (p.byLine.lookup n).getD [] = placedOn m n ds := by
  cases hgroup : p.byLine.lookup n with
  | some group => exact ((h.lookup n group).1 hgroup).2
  | none =>
    by_contra hne
    have hsome := (h.lookup n _).2 ⟨Ne.symm hne, rfl⟩
    rw [hgroup] at hsome
    cases hsome

/-- One more diagnostic. -/
theorem place (h : Groups m ds p) (d : Diagnostic) : Groups m (ds ++ [d]) (p.place m d) := by
  unfold Partition.place
  cases htarget : targetLine m d with
  | error reason =>
    have hsame : ∀ n, placedOn m n (ds ++ [d]) = placedOn m n ds := by
      intro n
      simp [placedOn, htarget, Except.toOption]
    refine ⟨h.ascending, ?_⟩
    intro n group
    rw [hsame]
    exact h.lookup n group
  | ok k =>
    refine ⟨h.ascending.add k d, ?_⟩
    intro n group
    rw [h.ascending.lookup_add, h.getD_lookup]
    by_cases hn : n = k
    · subst hn
      have hplaced : placedOn m n (ds ++ [d]) = placedOn m n ds ++ [d] := by
        simp [placedOn, htarget, Except.toOption]
      rw [if_pos rfl, hplaced, Option.some.injEq]
      constructor
      · rintro rfl
        simp
      · rintro ⟨-, rfl⟩
        rfl
    · have hplaced : placedOn m n (ds ++ [d]) = placedOn m n ds := by
        simp [placedOn, htarget, Except.toOption, Ne.symm hn]
      rw [if_neg hn, hplaced]
      exact h.lookup n group

end Partition.Groups

theorem partition_append_singleton (m : SourceMap) (ds : List Diagnostic) (d : Diagnostic) :
    partition m (ds ++ [d]) = (partition m ds).place m d :=
  List.foldl_concat ..

theorem groups_partition (m : SourceMap) (ds : List Diagnostic) : (partition m ds).Groups m ds := by
  induction ds using List.reverseRecOn with
  | nil => exact ⟨.nil, by simp [partition, placedOn]⟩
  | append_singleton ds d ih =>
    rw [partition_append_singleton]
    exact ih.place d

/-- The silenced diagnostics are those that are placed on some line. -/
theorem mem_flatMap_byLine {m : SourceMap} {ds : List Diagnostic} {d : Diagnostic} :
    d ∈ (partition m ds).byLine.flatMap (·.2) ↔
      ∃ n, d ∈ placedOn m n ds ∧ (partition m ds).byLine.lookup n = some (placedOn m n ds) := by
  have h := groups_partition m ds
  rw [List.mem_flatMap]
  constructor
  · rintro ⟨⟨n, group⟩, hmem, hd⟩
    have hlookup := h.ascending.mem_iff.1 hmem
    obtain ⟨-, rfl⟩ := (h.lookup n group).1 hlookup
    exact ⟨n, hd, hlookup⟩
  · rintro ⟨n, hd, hlookup⟩
    exact ⟨(n, _), h.ascending.mem_iff.2 hlookup, hd⟩

/-! ## Nothing is lost -/

theorem ByLine.flatMap_add_perm (b : ByLine) (n : Nat) (d : Diagnostic) :
    ((b.add n d).flatMap (·.2)).Perm (b.flatMap (·.2) ++ [d]) := by
  induction b with
  | nil => exact .refl _
  | cons first b ih =>
    obtain ⟨k, ds⟩ := first
    unfold ByLine.add
    split
    · exact (List.perm_append_singleton d _).symm
    split
    · simp only [List.flatMap_cons, List.append_assoc]
      exact (List.perm_append_singleton d _).symm.append_left ds
    · simp only [List.flatMap_cons, List.append_assoc]
      exact ih.append_left ds

/-- **Each diagnostic is placed or rejected, once.** -/
theorem partition_perm (m : SourceMap) (ds : List Diagnostic) :
    ((partition m ds).byLine.flatMap (·.2) ++ (partition m ds).rejected.map (·.diagnostic)).Perm ds := by
  induction ds using List.reverseRecOn with
  | nil => exact .refl _
  | append_singleton ds d ih =>
    rw [partition_append_singleton]
    unfold Partition.place
    cases targetLine m d with
    | ok n =>
      -- the placed diagnostic moves behind the rejected ones
      have hadd := ((partition m ds).byLine.flatMap_add_perm n d).append_right
        ((partition m ds).rejected.map (·.diagnostic))
      rw [List.append_assoc] at hadd
      refine hadd.trans ?_
      refine ((List.perm_append_singleton d _).symm.append_left _).trans ?_
      rw [← List.append_assoc]
      exact ih.append_right [d]
    | error reason =>
      simp only [List.map_append, List.map_cons, List.map_nil]
      rw [← List.append_assoc]
      exact ih.append_right [d]

end TypeIgnore
