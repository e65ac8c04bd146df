import TypeIgnore.Proofs.Run.Independence

/-!
# What runs do to files

* `RunOutput.TouchesOnlyReported` — what a run did to a disk, next to what it says of it: a file changed only if its
  task is done and its changes are in the receipt, and then it holds the text of the edit that its old text and its
  diagnostics come to; all else is as it was;
* `FileTask.Performs.of_done`, `FileTask.Performs.of_rewritten` — so it is for one task;
* `RunPlan.changesFor_output` — the changes that a receipt has for a file are those of the file's result;
* `RunPlan.touchesOnlyReported_output` — so it is for the tasks of a plan, if each has a file of its own.
-/

namespace TypeIgnore

/-- The changes that are reported for a file. -/
def RunOutput.changesFor (out : RunOutput) (p : ReportPath) : List ChangeView :=
  out.receipt.changes.filter fun change => ReportPath.mk change.path = p

/-- A file changed only if its task is done and has changes, and then it has the text of its edit. -/
structure RunOutput.TouchesOnlyReported (out : RunOutput) (root : Path) (plan : RunPlan) (dryRun : Bool)
    (d d' : Disk) : Prop where
  frame : d' = { d with tree := d'.tree }
  changed : ∀ loc, d'.tree.node? loc ≠ d.tree.node? loc → dryRun = false ∧
    ∃ p, (p, FileState.done) ∈ out.states ∧ out.changesFor p ≠ [] ∧ d.fileAt? (absolutize root p).text = some loc
  rewritten : dryRun = false → ∀ p, (p, FileState.done) ∈ out.states → out.changesFor p ≠ [] →
    ∃ loc old source edit, d.fileAt? (absolutize root p).text = some loc ∧ d.tree.node? loc = some (.file old) ∧
      Utf8.decode? old = some source ∧
      (silenceSource source (ofFile root (absolutize root p) plan.actedOn) plan.policy).edit = .ok edit ∧
      out.changesFor p = edit.changes.map (fun c => ⟨p.text, c.line, c.before, c.after⟩) ∧
      d'.tree.node? loc = some (.file (Utf8.encode edit.text))
  failed : ∀ p reason loc, (p, FileState.failed reason) ∈ out.states →
    d.fileAt? (absolutize root p).text = some loc → d'.tree.node? loc = d.tree.node? loc

/-! ## One task -/

theorem Disk.node?_eq_of_walk_eq {d d' : Disk} {path : Text} {loc : Location} (hwalk : d'.walk path = d.walk path)
    (hfile : d.fileAt? path = some loc) : d'.tree.node? loc = d.tree.node? loc := by
  obtain ⟨bytes, hplace⟩ := exists_walk_of_fileAt? hfile
  rw [(node?_of_walk hplace).1, (node?_of_walk (hwalk.trans hplace)).1]

namespace FileTask.Performs

variable {root : Text} {policy : Policy} {dryRun : Bool} {t : FileTask} {d d' : Disk} {r : FileResult}

/-- A task that is done has found a text, and it leaves that or the text of the edit. -/
theorem of_done (h : t.Performs root policy dryRun d r d') (hdone : r.state = .done) :
    ∃ loc old source edit, d.walk t.location.text = .ok (.file loc old) ∧ Utf8.decode? old = some source ∧
      (t.outcome policy source).edit = .ok edit ∧ r.changes = edit.changes ∧
      d'.walk t.location.text =
        .ok (.file loc (if edit.isNoop || dryRun then old else Utf8.encode edit.text)) := by
  cases h with
  | unread hread => cases hdone
  | unmapped hread hedit => cases hdone
  | unwritten hread hedit hnew hreal => cases hdone
  | @kept source e hread hedit hkept =>
    obtain ⟨loc, old, hwalk, hdecode⟩ := Disk.source_eq_ok hread
    refine ⟨loc, old, source, e, hwalk, hdecode, hedit, rfl, ?_⟩
    rw [hwalk, if_pos (by simpa using hkept)]
  | @written source e loc old hread hedit hnew hreal hwalk =>
    obtain ⟨loc', bytes, hplace, hdecode⟩ := Disk.source_eq_ok hread
    rw [hwalk] at hplace
    cases hplace
    refine ⟨loc, old, source, e, hwalk, hdecode, hedit, rfl, ?_⟩
    rw [Disk.walk_withFile (Disk.node?_of_walk hwalk).1, hwalk, if_neg (by simp [hnew, hreal])]
    simp [Except.map, Place.withBytes]

/-- With changes to write, it leaves the text of the edit. -/
theorem of_rewritten (h : t.Performs root policy false d r d') (hdone : r.state = .done) (hchanges : r.changes ≠ []) :
    ∃ loc old source edit, d.walk t.location.text = .ok (.file loc old) ∧ Utf8.decode? old = some source ∧
      (t.outcome policy source).edit = .ok edit ∧ r.changes = edit.changes ∧
      d'.walk t.location.text = .ok (.file loc (Utf8.encode edit.text)) := by
  obtain ⟨loc, old, source, edit, hwalk, hdecode, hedit, hsame, hnew⟩ := h.of_done hdone
  have hnoop : edit.isNoop = false := by simpa [FileEdit.isNoop, hsame] using hchanges
  refine ⟨loc, old, source, edit, hwalk, hdecode, hedit, hsame, ?_⟩
  rw [hnew, hnoop]
  rfl

end FileTask.Performs

/-! ## A run -/

theorem filter_changeRecords (r : FileResult) (p : ReportPath) :
    (changeRecords r).filter (fun change => ReportPath.mk change.path = p) =
      if r.path = p then changeRecords r else [] := by
  simp only [changeRecords, List.filter_map, Function.comp_def]
  split <;> simp_all

/-- Of results for different paths, one has the changes of its path. -/
theorem filter_flatMap_changeRecords {results : List FileResult} (hnodup : (results.map (·.path)).Nodup)
    {r : FileResult} (hr : r ∈ results) :
    (results.flatMap changeRecords).filter (fun change => ReportPath.mk change.path = r.path) = changeRecords r := by
  induction results with
  | nil => cases hr
  | cons first results ih =>
    obtain ⟨hfirst, hothers⟩ := List.nodup_cons.1 (List.map_cons ▸ hnodup)
    rw [List.flatMap_cons, List.filter_append, filter_changeRecords]
    rcases List.mem_cons.1 hr with rfl | hr
    · have hnone : (results.flatMap changeRecords).filter (fun change => ReportPath.mk change.path = r.path) = [] := by
        rw [List.filter_flatMap, List.flatMap_eq_nil_iff]
        intro r' hr'
        have hne : r'.path ≠ r.path := fun heq => hfirst (heq ▸ List.mem_map_of_mem hr')
        rw [filter_changeRecords, if_neg hne]
      rw [hnone, if_pos rfl, List.append_nil]
    · have hne : first.path ≠ r.path := fun heq => hfirst (heq ▸ List.mem_map_of_mem hr)
      rw [if_neg hne, List.nil_append, ih hothers hr]

section Run

variable {root : Text} {base : Path} {plan : RunPlan} {dryRun : Bool} {d d' : Disk} {results : List FileResult}

theorem RunPlan.changesFor_output (startedAt finishedAt : Timestamp)
    (h : PerformsAll root plan.policy dryRun (plan.tasks base) d results d') {r : FileResult} (hr : r ∈ results) :
    (plan.output startedAt finishedAt dryRun results).changesFor r.path = changeRecords r := by
  have hnodup := h.nodup_locations (plan.grouped_tasks base)
  have hpaths : (results.map (·.path)).Nodup := by
    refine List.Nodup.of_map (absolutize base) ?_
    rw [List.map_map]
    exact hnodup
  exact filter_flatMap_changeRecords hpaths hr

/-- What the tasks of a plan do, from what each of them does alone. -/
theorem RunPlan.touchesOnlyReported_output (startedAt finishedAt : Timestamp)
    (h : PerformsAll root plan.policy dryRun (plan.tasks base) d results d') (hown : OwnFiles d (plan.tasks base)) :
    (plan.output startedAt finishedAt dryRun results).TouchesOnlyReported base plan dryRun d d' where
  frame := h.frame
  changed := by
    intro loc hloc
    obtain ⟨t, ht, hfile⟩ : ∃ t ∈ plan.tasks base, d.fileAt? t.location.text = some loc := by
      by_contra hnone
      push Not at hnone
      exact hloc (h.node?_eq hnone)
    obtain ⟨r, hr, d₁, hperforms, hwalk⟩ := h.alone hown t ht
    rcases hperforms.disk_eq_or with rfl | ⟨hreal, hdone, hchanges⟩
    · exact absurd (Disk.node?_eq_of_walk_eq hwalk hfile) hloc
    · refine ⟨hreal, r.path, List.mem_map.2 ⟨r, hr, by rw [hdone]⟩, ?_, ?_⟩
      · rw [changesFor_output startedAt finishedAt h hr]
        simpa [changeRecords] using hchanges
      · rw [hperforms.path_eq, (plan.grouped_tasks base).path ht, hfile]
  rewritten := by
    rintro rfl p hp hchanges
    obtain ⟨r, hr, heq⟩ := List.mem_map.1 hp
    obtain ⟨rfl, hdone⟩ := Prod.mk.inj heq
    rw [changesFor_output startedAt finishedAt h hr] at hchanges ⊢
    obtain ⟨t, ht, d₁, hperforms, hwalk⟩ := h.alone_of_mem (plan.grouped_tasks base) hown hr
    obtain ⟨loc, old, source, edit, hold, hdecode, hedit, hsame, hnew⟩ :=
      hperforms.of_rewritten hdone (by simpa [changeRecords] using hchanges)
    rw [hperforms.path_eq, (plan.grouped_tasks base).path ht, ← (plan.grouped_tasks base).diagnostics t ht]
    refine ⟨loc, old, source, edit, Disk.fileAt?_of_walk hold, (Disk.node?_of_walk hold).1, hdecode, hedit, ?_, ?_⟩
    · rw [changeRecords, hsame, hperforms.path_eq]
    · exact (Disk.node?_of_walk (hwalk.trans hnew)).1
  failed := by
    intro p reason loc hp hfile
    obtain ⟨r, hr, heq⟩ := List.mem_map.1 hp
    obtain ⟨rfl, hfailed⟩ := Prod.mk.inj heq
    obtain ⟨t, ht, d₁, hperforms, hwalk⟩ := h.alone_of_mem (plan.grouped_tasks base) hown hr
    obtain ⟨-, -, rfl⟩ := hperforms.of_failed hfailed
    rw [hperforms.path_eq, (plan.grouped_tasks base).path ht] at hfile
    exact Disk.node?_eq_of_walk_eq hwalk hfile

end Run

/-- **A run touches only what it reports,** whole files at a time, and nothing at all if it stops. -/
theorem runSilence_touchesOnlyReported (time : Disk → Timestamp) (input : RunInput) (d d' : Disk)
    (notices : List Notice) (outcome : Except RunError RunOutput)
    (hapart : ∀ told plan, (planRun input : OnDisk _).run d = ((told, .ok plan), d) →
      d.TellsApart (plan.actedOn.map fun x => absolutize (.ofText input.root) x.path))
    (hrun : (runSilence (OnDisk.clock time) input).run d = (⟨notices, outcome⟩, d')) :
    match outcome with
    | .error _ => d' = d
    | .ok out => ∃ told plan, (planRun input : OnDisk _).run d = ((told, .ok plan), d) ∧
        out.TouchesOnlyReported (.ofText input.root) plan input.dryRun d d' := by
  rcases runSilence_cases time input d with ⟨told, e, -, hstop⟩ | ⟨told, plan, results, d₁, hplan, hall, hdone⟩
  · rw [hstop] at hrun
    cases hrun
    rfl
  · rw [hdone] at hrun
    cases hrun
    have hown := (plan.grouped_tasks (.ofText input.root)).ownFiles (hapart told plan hplan)
    exact ⟨told, plan, hplan, plan.touchesOnlyReported_output _ _ hall hown⟩

theorem runSilence_touchesOnlyReported_sample :
    ∃ notices out d',
      (runSilence (OnDisk.clock (fixedTime 8)) (FourFiles.input false)).run (FourFiles.disk [FourFiles.fault]) =
        (⟨notices, .ok out⟩, d') ∧
      d'.tree.node? ["r", "a.py"] = some (.file (Utf8.encode "x = 1  # type: ignore[misc]  # FIX ME\n")) ∧
      d'.tree.node? ["r", "c.py"] = some (.file (Utf8.encode "y = 2\n")) ∧
      ∃ told plan, (planRun (FourFiles.input false) : OnDisk _).run (FourFiles.disk [FourFiles.fault]) =
          ((told, .ok plan), FourFiles.disk [FourFiles.fault]) ∧
        out.TouchesOnlyReported (.ofText "/r") plan false (FourFiles.disk [FourFiles.fault]) d' := by
  have hapart : ∀ told plan, (planRun (FourFiles.input false) : OnDisk _).run (FourFiles.disk [FourFiles.fault]) =
      ((told, .ok plan), FourFiles.disk [FourFiles.fault]) →
      (FourFiles.disk [FourFiles.fault]).TellsApart (plan.actedOn.map fun x => absolutize (.ofText "/r") x.path) := by
    intro told plan hplan
    rw [FourFiles.run_planRun] at hplan
    cases hplan
    decide +kernel
  have hrun := run_runSilence_of_plan (fixedTime 8) (FourFiles.run_planRun false [FourFiles.fault]) rfl
  refine ⟨_, _, _, hrun, ?_, ?_, runSilence_touchesOnlyReported _ _ _ _ _ _ hapart hrun⟩
  · decide +kernel
  · decide +kernel

end TypeIgnore
