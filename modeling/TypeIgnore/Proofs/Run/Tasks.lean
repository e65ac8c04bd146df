import TypeIgnore.Proofs.Path.Order
import TypeIgnore.Run.Basic
import Mathlib.Data.List.Induction
import Mathlib.Data.List.Perm.Basic

/-!
# One task for each file

* `mem_addToTasks` — what tasks there are once a diagnostic has been added to those of its file;
* `Grouped root ds tasks` — `tasks` are the diagnostics `ds` by file; kept by one more diagnostic (`Grouped.add`), hence
  true of every grouping (`grouped_groupByFile`). Among the rest it says that no diagnostic is lost or doubled;
* `RunPlan.actedOn`, `RunPlan.leftOut` — the diagnostics that a run acts on, and the others. The tasks of the run are
  the former by file (`RunPlan.grouped_tasks`).
-/

namespace TypeIgnore

/-- The tasks in the order of their files, no file twice. -/
def AscendingTasks (tasks : List FileTask) : Prop := tasks.Pairwise fun t t' => t.location.before t'.location = true

section Add

variable {location : Path} {d : Diagnostic} {tasks : List FileTask}

/-- The location of a task is an old one or that of the new diagnostic. -/
theorem location_of_mem_addToTasks {t : FileTask} (h : t ∈ addToTasks location d tasks) :
    t.location = location ∨ ∃ t' ∈ tasks, t'.location = t.location := by
  induction tasks with
  | nil =>
    rw [List.mem_singleton.1 h]
    exact .inl rfl
  | cons first tasks ih =>
    unfold addToTasks at h
    split at h
    · rename_i hfirst
      rcases List.mem_cons.1 h with rfl | h
      · exact .inl hfirst
      · exact .inr ⟨t, List.mem_cons_of_mem _ h, rfl⟩
    split at h
    · rcases List.mem_cons.1 h with rfl | h
      · exact .inl rfl
      · exact .inr ⟨t, h, rfl⟩
    · rcases List.mem_cons.1 h with rfl | h
      · exact .inr ⟨t, List.mem_cons_self, rfl⟩
      · refine (ih h).imp_right ?_
        rintro ⟨t', ht', hlocation⟩
        exact ⟨t', List.mem_cons_of_mem _ ht', hlocation⟩

theorem AscendingTasks.add (h : AscendingTasks tasks) (location : Path) (d : Diagnostic) :
    AscendingTasks (addToTasks location d tasks) := by
  induction tasks with
  | nil => exact List.pairwise_singleton _ _
  | cons first tasks ih =>
    obtain ⟨hfirst, htasks⟩ := List.pairwise_cons.1 h
    unfold addToTasks
    split
    · exact List.pairwise_cons.2 ⟨hfirst, htasks⟩
    split
    · rename_i hbefore
      refine List.pairwise_cons.2 ⟨?_, h⟩
      intro t ht
      rcases List.mem_cons.1 ht with rfl | ht
      · exact hbefore
      · exact Path.before_trans hbefore (hfirst t ht)
    · rename_i hne hbefore
      refine List.pairwise_cons.2 ⟨?_, ih htasks⟩
      intro t ht
      rcases location_of_mem_addToTasks ht with hlocation | ⟨t', ht', hlocation⟩
      · rw [hlocation]
        exact Path.before_of_not_before (Ne.symm hne) (by simpa using hbefore)
      · rw [← hlocation]
        exact hfirst t' ht'

/-- **A diagnostic is added to the task of its file, or as a task of its own, and no other task changes.** -/
theorem mem_addToTasks (hasc : AscendingTasks tasks) {t : FileTask} (h : t ∈ addToTasks location d tasks) :
    (t ∈ tasks ∧ t.location ≠ location) ∨
      (∃ t' ∈ tasks, t'.location = location ∧ t = { t' with diagnostics := t'.diagnostics ++ [d] }) ∨
      ((∀ t' ∈ tasks, t'.location ≠ location) ∧ t = ⟨location, d.path, [d]⟩) := by
  induction tasks with
  | nil => exact .inr (.inr ⟨by simp, List.mem_singleton.1 h⟩)
  | cons first tasks ih =>
    obtain ⟨hfirst, htasks⟩ := List.pairwise_cons.1 hasc
    unfold addToTasks at h
    split at h
    · rename_i hloc
      rcases List.mem_cons.1 h with rfl | h
      · exact .inr (.inl ⟨first, List.mem_cons_self, hloc, rfl⟩)
      · refine .inl ⟨List.mem_cons_of_mem _ h, ?_⟩
        rintro rfl
        have hbefore := hfirst t h
        rw [hloc, Path.before_irrefl] at hbefore
        cases hbefore
    split at h
    · -- the new task comes first, so all others are of later files
      rename_i hne hbefore
      have hlater : ∀ t' ∈ first :: tasks, t'.location ≠ location := by
        rintro t' ht' rfl
        rcases List.mem_cons.1 ht' with rfl | ht'
        · exact hne rfl
        · have hcycle := Path.before_trans hbefore (hfirst t' ht')
          rw [Path.before_irrefl] at hcycle
          cases hcycle
      rcases List.mem_cons.1 h with rfl | h
      · exact .inr (.inr ⟨hlater, rfl⟩)
      · exact .inl ⟨h, hlater t h⟩
    · rename_i hne hbefore
      rcases List.mem_cons.1 h with rfl | h
      · exact .inl ⟨List.mem_cons_self, hne⟩
      · rcases ih htasks h with ⟨ht, hloc⟩ | ⟨t', ht', hloc, rfl⟩ | ⟨hnone, rfl⟩
        · exact .inl ⟨List.mem_cons_of_mem _ ht, hloc⟩
        · exact .inr (.inl ⟨t', List.mem_cons_of_mem _ ht', hloc, rfl⟩)
        · exact .inr (.inr ⟨List.forall_mem_cons.2 ⟨hne, hnone⟩, rfl⟩)

theorem flatMap_addToTasks_perm (location : Path) (d : Diagnostic) (tasks : List FileTask) :
    ((addToTasks location d tasks).flatMap (·.diagnostics)).Perm (tasks.flatMap (·.diagnostics) ++ [d]) := by
  induction tasks with
  | nil => exact .refl _
  | cons first tasks ih =>
    unfold addToTasks
    split
    · simp only [List.flatMap_cons, List.append_assoc]
      exact (List.perm_append_singleton d _).symm.append_left first.diagnostics
    split
    · exact (List.perm_append_singleton d _).symm
    · simp only [List.flatMap_cons, List.append_assoc]
      exact ih.append_left first.diagnostics

end Add

/-! ## All diagnostics -/

/-- The diagnostics of the file at `location`, as they are reported. -/
def ofFile (root location : Path) (ds : List Diagnostic) : List Diagnostic :=
  ds.filter fun d => absolutize root d.path = location

theorem mem_ofFile {root location : Path} {ds : List Diagnostic} {d : Diagnostic} :
    d ∈ ofFile root location ds ↔ d ∈ ds ∧ absolutize root d.path = location := by
  simp [ofFile]

theorem ofFile_concat (root location : Path) (ds : List Diagnostic) (d : Diagnostic) :
    ofFile root location (ds ++ [d]) =
      if absolutize root d.path = location then ofFile root location ds ++ [d] else ofFile root location ds := by
  by_cases h : absolutize root d.path = location <;> simp [ofFile, h]

/-- The tasks are the diagnostics `ds` by file. -/
structure Grouped (root : Path) (ds : List Diagnostic) (tasks : List FileTask) : Prop where
  ascending : AscendingTasks tasks
  diagnostics : ∀ t ∈ tasks, t.diagnostics = ofFile root t.location ds
  /-- A task is named as one of its diagnostics names its file. -/
  named : ∀ t ∈ tasks, ∃ d ∈ t.diagnostics, d.path = t.path
  perm : (tasks.flatMap (·.diagnostics)).Perm ds

namespace Grouped

variable {root : Path} {ds : List Diagnostic} {tasks : List FileTask}

theorem ofFile_eq_nil (h : Grouped root ds tasks) {location : Path} (hnone : ∀ t ∈ tasks, t.location ≠ location) :
    ofFile root location ds = [] := by
  rw [List.eq_nil_iff_forall_not_mem]
  intro d hd
  obtain ⟨hmem, hlocation⟩ := mem_ofFile.1 hd
  obtain ⟨t, ht, hdt⟩ := List.mem_flatMap.1 (h.perm.mem_iff.2 hmem)
  rw [h.diagnostics t ht] at hdt
  exact hnone t ht ((mem_ofFile.1 hdt).2.symm.trans hlocation)

/-- One more diagnostic. -/
theorem add (h : Grouped root ds tasks) (d : Diagnostic) :
    Grouped root (ds ++ [d]) (addToTasks (absolutize root d.path) d tasks) where
  ascending := h.ascending.add _ d
  diagnostics := by
    intro t ht
    rcases mem_addToTasks h.ascending ht with ⟨ht, hloc⟩ | ⟨t', ht', hloc, rfl⟩ | ⟨hnone, rfl⟩
    · rw [ofFile_concat, if_neg (Ne.symm hloc), h.diagnostics t ht]
    · rw [ofFile_concat, if_pos hloc.symm, h.diagnostics t' ht']
    · rw [ofFile_concat, if_pos rfl, h.ofFile_eq_nil hnone]
      rfl
  named := by
    intro t ht
    rcases mem_addToTasks h.ascending ht with ⟨ht, -⟩ | ⟨t', ht', -, rfl⟩ | ⟨-, rfl⟩
    · exact h.named t ht
    · obtain ⟨x, hx, hpath⟩ := h.named t' ht'
      exact ⟨x, List.mem_append_left _ hx, hpath⟩
    · exact ⟨d, List.mem_singleton_self d, rfl⟩
  perm := (flatMap_addToTasks_perm _ d tasks).trans (h.perm.append_right [d])

/-- No two tasks have one location. -/
theorem nodup_locations (h : Grouped root ds tasks) : (tasks.map (·.location)).Nodup := by
  rw [List.Nodup, List.pairwise_map]
  refine h.ascending.imp ?_
  intro t t' hbefore heq
  rw [heq, Path.before_irrefl] at hbefore
  cases hbefore

section Task

variable {t : FileTask}

/-- The diagnostics of a task name its file. -/
theorem location_of_mem (h : Grouped root ds tasks) (ht : t ∈ tasks) {d : Diagnostic} (hd : d ∈ t.diagnostics) :
    absolutize root d.path = t.location := by
  rw [h.diagnostics t ht] at hd
  exact (mem_ofFile.1 hd).2

theorem path (h : Grouped root ds tasks) (ht : t ∈ tasks) : absolutize root t.path = t.location := by
  obtain ⟨d, hd, hpath⟩ := h.named t ht
  rw [← hpath]
  exact h.location_of_mem ht hd

theorem location_mem (h : Grouped root ds tasks) (ht : t ∈ tasks) :
    t.location ∈ ds.map fun d => absolutize root d.path := by
  obtain ⟨d, hd, -⟩ := h.named t ht
  rw [h.diagnostics t ht] at hd
  obtain ⟨hmem, hlocation⟩ := mem_ofFile.1 hd
  exact List.mem_map.2 ⟨d, hmem, hlocation⟩

end Task

end Grouped

/-- **The tasks of a run are its diagnostics by file.** -/
theorem grouped_groupByFile (root : Path) (ds : List Diagnostic) : Grouped root ds (groupByFile root ds) := by
  induction ds using List.reverseRecOn with
  | nil => exact ⟨.nil, by simp [groupByFile], by simp [groupByFile], .refl _⟩
  | append_singleton ds d ih =>
    have hstep : groupByFile root (ds ++ [d]) = addToTasks (absolutize root d.path) d (groupByFile root ds) :=
      List.foldl_concat ..
    rw [hstep]
    exact ih.add d

/-! ## Selected and ignored -/

/-- The diagnostics of files in scope with a code of the policy. -/
def RunPlan.actedOn (plan : RunPlan) : List Diagnostic :=
  plan.report.diagnostics.filter fun x => plan.scope.contains x.path && plan.policy.covers x.code

/-- All the other diagnostics of the report. -/
def RunPlan.leftOut (plan : RunPlan) : List Diagnostic :=
  plan.report.diagnostics.filter fun x => !(plan.scope.contains x.path && plan.policy.covers x.code)

theorem RunPlan.selection_eq (plan : RunPlan) : plan.selection = ⟨plan.actedOn, plan.leftOut⟩ := by
  unfold selection select actedOn leftOut
  rw [List.partition_eq_filter_filter]
  rfl

theorem RunPlan.grouped_tasks (plan : RunPlan) (root : Path) : Grouped root plan.actedOn (plan.tasks root) := by
  have hselected : plan.selection.selected = plan.actedOn := by rw [selection_eq]
  rw [tasks, hselected]
  exact grouped_groupByFile root plan.actedOn

end TypeIgnore
