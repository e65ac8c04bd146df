import TypeIgnore.Proofs.Run.Outcome
import TypeIgnore.Proofs.Run.Planning
import TypeIgnore.Proofs.Run.Tasks
import TypeIgnore.Proofs.Text.Utf8
import Mathlib.Data.List.Nodup

/-!
# The stages of a run

* `PerformsAll` — tasks done one after the other, each on the disk that the one before left;
* `PerformsAll.perm` — their results hold the diagnostics of the tasks, each once;
* `PerformsAll.eq_of_location_eq` — no two results are about one file;
* `runSilence_cases` — a run is its plan and then its tasks, and it stops where there is no plan;
* `run_planRun_of_given` — the plan of a run that is given its report and selects everything;
* `FourFiles` — a run on a few files, not all of which can be read or written.
-/

namespace TypeIgnore

/-! ## Tasks one after the other -/

section Tasks

variable {root : Text} {policy : Policy} {dryRun : Bool}

/-- The tasks done one after the other, from the disk `d` on, with their results and the disk after them. -/
inductive PerformsAll (root : Text) (policy : Policy) (dryRun : Bool) :
    List FileTask → Disk → List FileResult → Disk → Prop
  | nil {d : Disk} : PerformsAll root policy dryRun [] d [] d
  | cons {t : FileTask} {tasks : List FileTask} {d d₁ d₂ : Disk} {r : FileResult} {rs : List FileResult}
    (first : t.Performs root policy dryRun d r d₁) (others : PerformsAll root policy dryRun tasks d₁ rs d₂) :
    PerformsAll root policy dryRun (t :: tasks) d (r :: rs) d₂

theorem run_mapM_perform_cons (root : Text) (policy : Policy) (dryRun : Bool) (t : FileTask) (tasks : List FileTask)
    {d d₁ d₂ : Disk} {r : FileResult} {rs : List FileResult}
    (hfirst : (t.perform root policy dryRun : OnDisk _).run d = (r, d₁))
    (hothers : (tasks.mapM (FileTask.perform root policy dryRun) : OnDisk _).run d₁ = (rs, d₂)) :
    ((t :: tasks).mapM (FileTask.perform root policy dryRun) : OnDisk _).run d = (r :: rs, d₂) := by
  rw [List.mapM_cons, OnDisk.run_bind_of _ hfirst, OnDisk.run_bind_of _ hothers]
  rfl

theorem performsAll (root : Text) (policy : Policy) (dryRun : Bool) (tasks : List FileTask) (d : Disk) :
    PerformsAll root policy dryRun tasks d ((tasks.mapM (FileTask.perform root policy dryRun) : OnDisk _).run d).1
      ((tasks.mapM (FileTask.perform root policy dryRun) : OnDisk _).run d).2 := by
  induction tasks generalizing d with
  | nil => exact .nil
  | cons t tasks ih =>
    rw [run_mapM_perform_cons root policy dryRun t tasks rfl rfl]
    exact .cons (t.performs root policy dryRun d) (ih _)

namespace PerformsAll

variable {tasks : List FileTask} {d d' : Disk} {results : List FileResult}

theorem exists_task (h : PerformsAll root policy dryRun tasks d results d') {r : FileResult} (hr : r ∈ results) :
    ∃ t ∈ tasks, ∃ d₁ d₂, t.Performs root policy dryRun d₁ r d₂ := by
  induction h with
  | nil => cases hr
  | @cons t tasks d d₁ d₂ r₁ rs first others ih =>
    rcases List.mem_cons.1 hr with rfl | hr
    · exact ⟨t, List.mem_cons_self, d, d₁, first⟩
    · obtain ⟨t', ht', hperforms⟩ := ih hr
      exact ⟨t', List.mem_cons_of_mem _ ht', hperforms⟩

/-- The results hold the diagnostics of the tasks, each once. -/
theorem perm (h : PerformsAll root policy dryRun tasks d results d') :
    (results.flatMap (·.silenced) ++ (results.flatMap (·.rejected)).map (·.diagnostic)).Perm
      (tasks.flatMap (·.diagnostics)) := by
  induction h with
  | nil => exact .refl _
  | @cons t tasks d d₁ d₂ r rs first others ih =>
    simp only [List.flatMap_cons, List.map_append]
    -- what is rejected of the first task moves before what is silenced of the others
    refine List.Perm.trans ?_ (first.perm.append ih)
    simp only [List.append_assoc]
    refine List.Perm.append_left _ ?_
    rw [← List.append_assoc, ← List.append_assoc]
    exact List.perm_append_comm.append_right _

theorem map_path (h : PerformsAll root policy dryRun tasks d results d') :
    results.map (·.path) = tasks.map (·.path) := by
  induction h with
  | nil => rfl
  | cons first others ih => rw [List.map_cons, List.map_cons, first.path_eq, ih]

section Grouped

variable {base : Path} {ds : List Diagnostic}

/-- A result is about the file that its diagnostics name. -/
theorem location_of_mem (h : PerformsAll root policy dryRun tasks d results d') (hgrouped : Grouped base ds tasks)
    {r : FileResult} (hr : r ∈ results) {x : Diagnostic} (hx : x ∈ r.silenced) :
    absolutize base x.path = absolutize base r.path := by
  obtain ⟨t, ht, d₁, d₂, hperforms⟩ := h.exists_task hr
  have hmem : x ∈ t.diagnostics := hperforms.perm.mem_iff.1 (List.mem_append_left _ hx)
  rw [hgrouped.location_of_mem ht hmem, hperforms.path_eq, hgrouped.path ht]

theorem nodup_locations (h : PerformsAll root policy dryRun tasks d results d') (hgrouped : Grouped base ds tasks) :
    (results.map fun r => absolutize base r.path).Nodup := by
  have hmap : results.map (fun r => absolutize base r.path) = (results.map (·.path)).map (absolutize base) := by
    rw [List.map_map]
    rfl
  have hlocations : (tasks.map (·.path)).map (absolutize base) = tasks.map (·.location) := by
    rw [List.map_map]
    exact List.map_congr_left fun t ht => hgrouped.path ht
  rw [hmap, h.map_path, hlocations]
  exact hgrouped.nodup_locations

/-- No two results are about one file. -/
theorem eq_of_location_eq (h : PerformsAll root policy dryRun tasks d results d') (hgrouped : Grouped base ds tasks)
    {r r' : FileResult} (hr : r ∈ results) (hr' : r' ∈ results)
    (hlocation : absolutize base r.path = absolutize base r'.path) : r = r' :=
  List.inj_on_of_nodup_map (h.nodup_locations hgrouped) hr hr' hlocation

end Grouped

end PerformsAll

end Tasks

/-! ## A run -/

/-- A clock that shows `time d` on the disk `d` and does nothing to it. -/
def OnDisk.clock (time : Disk → Timestamp) : OnDisk Timestamp := do return time (← get)

theorem OnDisk.run_clock (time : Disk → Timestamp) (d : Disk) : (OnDisk.clock time).run d = (time d, d) := rfl

section Run

variable {time : Disk → Timestamp} {input : RunInput} {d d' : Disk} {told : List Notice}

theorem run_runSilence_of_error (time : Disk → Timestamp) {e : RunError}
    (hplan : (planRun input : OnDisk _).run d = ((told, .error e), d)) :
    (runSilence (OnDisk.clock time) input).run d = (⟨told, .error e⟩, d) := by
  rw [runSilence, OnDisk.run_bind_of _ (OnDisk.run_clock time d), OnDisk.run_bind_of _ hplan]
  rfl

/-- What a run comes to, from the results of its tasks. -/
def RunPlan.output (plan : RunPlan) (startedAt finishedAt : Timestamp) (dryRun : Bool) (results : List FileResult) :
    RunOutput where
  receipt := makeReceipt startedAt finishedAt dryRun plan.selection.ignored
    (codeWarnings plan.report plan.policy) results
  configuration := plan.configuration
  states := results.map fun r => (r.path, r.state)

theorem run_runSilence_of_plan (time : Disk → Timestamp) {plan : RunPlan} {results : List FileResult}
    (hplan : (planRun input : OnDisk _).run d = ((told, .ok plan), d))
    (hresults : ((plan.tasks (.ofText input.root)).mapM
      (FileTask.perform input.root plan.policy input.dryRun) : OnDisk _).run d = (results, d')) :
    (runSilence (OnDisk.clock time) input).run d =
      (⟨told ++ results.flatMap (·.trace) ++ results.flatMap (·.notices),
        .ok (plan.output (time d) (time d') input.dryRun results)⟩, d') := by
  rw [runSilence, OnDisk.run_bind_of _ (OnDisk.run_clock time d), OnDisk.run_bind_of _ hplan]
  simp only
  rw [OnDisk.run_bind_of _ hresults, OnDisk.run_bind_of _ (OnDisk.run_clock time d')]
  rfl

/-- **A run is its plan and then its tasks,** and it stops where there is no plan. -/
theorem runSilence_cases (time : Disk → Timestamp) (input : RunInput) (d : Disk) :
    (∃ told e, (planRun input : OnDisk _).run d = ((told, .error e), d) ∧
      (runSilence (OnDisk.clock time) input).run d = (⟨told, .error e⟩, d)) ∨
    ∃ told plan results d', (planRun input : OnDisk _).run d = ((told, .ok plan), d) ∧
      PerformsAll input.root plan.policy input.dryRun (plan.tasks (.ofText input.root)) d results d' ∧
      (runSilence (OnDisk.clock time) input).run d =
        (⟨told ++ results.flatMap (·.trace) ++ results.flatMap (·.notices),
          .ok (plan.output (time d) (time d') input.dryRun results)⟩, d') := by
  have hplan := (OnDisk.readsOnly_planRun input).run_eq d
  rcases hresult : ((planRun input : OnDisk _).run d).1 with ⟨told, e | plan⟩
  · rw [hresult] at hplan
    exact .inl ⟨told, e, hplan, run_runSilence_of_error time hplan⟩
  · rw [hresult] at hplan
    exact .inr ⟨told, plan, _, _, hplan, performsAll input.root plan.policy input.dryRun _ d,
      run_runSilence_of_plan time hplan rfl⟩

end Run

/-! ## Given reports -/

/-- A report whose diagnostics come in order. -/
theorem Report.ofText_of_sorted {text : Text} {ds : List Diagnostic}
    (hfirst : firstOfKey (gather none (Report.items text)) = ds)
    (hsorted : ds.Pairwise fun x y => Diagnostic.le x y = true) :
    Report.ofText text =
      ⟨ds, (Report.items text).countP (· == .other true), ds.countP fun x => x.code.isNone && !x.isSyntax⟩ := by
  simp only [Report.ofText, hfirst, List.mergeSort_of_pairwise hsorted]

/-- The plan for all of a given report. -/
theorem run_planRun_of_given {input : RunInput} {text : Text} {configuration : Configuration} (d : Disk)
    (hgiven : input.report = .given (Utf8.encode text))
    (hconfigure : configure input.settings input.overrides = .ok configuration)
    (hexclude : configuration.exclude = []) (hselectors : input.selectors = {}) :
    (planRun input : OnDisk _).run d =
      ((malformedNotices (.ofText text) ++ (codeWarnings (.ofText text) configuration.policy).map .warning,
        .ok { configuration, report := .ofText text, scope := .all (.ofText input.root) }), d) := by
  have hbytes : input.report.bytes d = .ok (Utf8.encode text) := by
    rw [hgiven]
    rfl
  have hscope : (resolveScope (.ofText input.root) configuration.searchPaths input.selectors configuration.exclude :
      OnDisk _).run d = (([], .ok (.all (.ofText input.root))), d) := by
    rw [hselectors, hexclude]
    rfl
  have hplan := run_planRun_of hconfigure hbytes hscope
  rw [Utf8.decodeLossy_encode] at hplan
  exact hplan.trans (congrArg (fun told => ((told, _), d)) (List.append_nil _))

/-! ## A small run -/

/-- An error in the first line of a file. -/
def firstLineError (path code : Text) : Diagnostic where
  path := ⟨path⟩
  line := 1
  code := some code
  message := "bad"

/-- A time that stays the same, whatever is done. -/
def fixedTime (hour : Nat) : Disk → Timestamp := fun _ => { year := 2026, month := 1, day := 1, hour }

namespace FourFiles

/-- Four errors in as many files. -/
def report : Text :=
  "a.py:1: error: bad  [misc]\nb.py:1: error: bad  [misc]\nc.py:1: error: bad  [misc]\nd.py:1: error: bad  [name]\n"

/-- The errors of one code are to be silenced. -/
def input (dryRun : Bool) : RunInput where
  root := "/r"
  overrides := { silenceCodes := some ["misc"] }
  report := .given (Utf8.encode report)
  dryRun

/-- The second file is no text, and there is no fourth. -/
def disk (faults : List Fault) : Disk where
  tree := .directory "r"
    (.file "a.py" (Utf8.encode "x = 1\n") (.file "b.py" [0xff] (.file "c.py" (Utf8.encode "y = 2\n") .empty))) .empty
  faults

/-- The third file cannot be written as a whole. -/
def fault : Fault := ⟨"/r/c.py", .fill, .tooLarge, 3⟩

def plan : RunPlan where
  configuration := { policy := { codes := some ["misc"] } }
  report := {
    diagnostics :=
      [firstLineError "a.py" "misc", firstLineError "b.py" "misc", firstLineError "c.py" "misc",
        firstLineError "d.py" "name"]
    unparsed := 0
    uncoded := 0 }
  scope := .all (.ofText "/r")

theorem ofText_report : Report.ofText report = plan.report := by
  have hfirst : firstOfKey (gather none (Report.items report)) = plan.report.diagnostics := by decide +kernel
  rw [Report.ofText_of_sorted hfirst (by decide +kernel)]
  decide +kernel

theorem run_planRun (dryRun : Bool) (faults : List Fault) :
    (planRun (input dryRun) : OnDisk _).run (disk faults) = (([], .ok plan), disk faults) := by
  have hconfigure : configure (input dryRun).settings (input dryRun).overrides = .ok plan.configuration := by
    decide +kernel +revert
  rw [run_planRun_of_given (disk faults) rfl hconfigure rfl rfl, ofText_report]
  rfl

end FourFiles

end TypeIgnore
