import TypeIgnore.Proofs.Path.Resolution
import TypeIgnore.Proofs.Run.Effects

/-!
# Spellings of a file

A report may name a file in many ways. What counts is where a path leads (`leadsTo`), and that is not all that
`absolutize` keeps of it.

* `namedAt` — the diagnostics of the file at a location, however it is spelled;
* `SpelledAlike` — all its spellings go up in the root directory equally often;
* `OneTask` — one task has all its diagnostics, and no other task is about it. So it is exactly if it is spelled alike
  (`Grouped.oneTask_iff`);
* `RunOutput.KeepsUpdate` — the file has one result, and what was to be written to it is there in the end. So it is
  wherever there is one task (`RunPlan.keepsUpdate_output`).
-/

namespace TypeIgnore

/-- The diagnostics whose paths lead to a location. -/
def namedAt (root : Text) (loc : Location) (ds : List Diagnostic) : List Diagnostic :=
  ds.filter fun x => leadsTo root x.path = loc

/-- The spellings of the file at `loc` go up in the root directory equally often. -/
def SpelledAlike (root : Text) (loc : Location) (ds : List Diagnostic) : Prop :=
  ∀ x ∈ namedAt root loc ds, ∀ y ∈ namedAt root loc ds, climbsOf root x.path = climbsOf root y.path

instance (root : Text) (loc : Location) (ds : List Diagnostic) : Decidable (SpelledAlike root loc ds) :=
  inferInstanceAs (Decidable (∀ x ∈ namedAt root loc ds, ∀ y ∈ namedAt root loc ds,
    climbsOf root x.path = climbsOf root y.path))

/-- One task has all diagnostics of the file at `loc`, and no other task is about it. -/
def OneTask (root : Text) (loc : Location) (ds : List Diagnostic) (tasks : List FileTask) : Prop :=
  ∃ t, tasks.filter (fun u => leadsTo root u.path = loc) = [t] ∧ t.diagnostics = namedAt root loc ds

/-- What a run does to the file at `loc`: it has one result. If that is done, then the file holds the text of the edit
that all its diagnostics come to, unless nothing is to be written; and else it is as it was. -/
structure RunOutput.KeepsUpdate (out : RunOutput) (root : Text) (plan : RunPlan) (dryRun : Bool) (loc : Location)
    (d d' : Disk) : Prop where
  once : ∃ s, out.states.filter (fun s => leadsTo root s.1 = loc) = [s]
  done : ∀ p, leadsTo root p = loc → (p, FileState.done) ∈ out.states →
    ∃ old source edit, d.tree.node? loc = some (.file old) ∧ Utf8.decode? old = some source ∧
      (silenceSource source (namedAt root loc plan.actedOn) plan.policy).edit = .ok edit ∧
      out.changesFor p = edit.changes.map (fun c => ⟨p.text, c.line, c.before, c.after⟩) ∧
      d'.tree.node? loc = some (.file (if edit.isNoop || dryRun then old else Utf8.encode edit.text))
  failed : ∀ p reason, leadsTo root p = loc → (p, FileState.failed reason) ∈ out.states →
    d'.tree.node? loc = d.tree.node? loc

theorem mem_namedAt {root : Text} {loc : Location} {ds : List Diagnostic} {x : Diagnostic} :
    x ∈ namedAt root loc ds ↔ x ∈ ds ∧ leadsTo root x.path = loc := by
  simp [namedAt]

/-- What alone of a list without repetitions has a property is left of it. -/
theorem filter_eq_singleton {α : Type} {l : List α} {p : α → Bool} {a : α} (hnodup : l.Nodup) (ha : a ∈ l)
    (hp : p a = true) (honly : ∀ b ∈ l, p b = true → b = a) : l.filter p = [a] := by
  rw [← List.perm_singleton, List.perm_ext_iff_of_nodup (hnodup.filter p) (List.nodup_singleton a)]
  intro b
  rw [List.mem_filter, List.mem_singleton]
  constructor
  · rintro ⟨hb, hpb⟩
    exact honly b hb hpb
  · rintro rfl
    exact ⟨ha, hp⟩

/-! ## One task for each file -/

section Tasks

variable {root : Text} {ds : List Diagnostic} {tasks : List FileTask}

/-- Diagnostics of one task go up equally often, since their paths have one normal form. -/
theorem Grouped.spelledAlike (hroot : root.head? = some '/') (h : Grouped (.ofText root) ds tasks) {loc : Location}
    (hone : OneTask root loc ds tasks) : SpelledAlike root loc ds := by
  obtain ⟨t, hfilter, hdiagnostics⟩ := hone
  have ht : t ∈ tasks := (List.mem_filter.1 (hfilter ▸ List.mem_singleton_self t)).1
  intro x hx y hy
  rw [← hdiagnostics] at hx hy
  have hsame := (h.location_of_mem ht hx).trans (h.location_of_mem ht hy).symm
  exact ((absolutize_eq_iff hroot x.path y.path).1 hsame).2

/-- Spellings that go up equally often have one normal form, so they are in one task. -/
theorem Grouped.oneTask (hroot : root.head? = some '/') (h : Grouped (.ofText root) ds tasks) {x : Diagnostic}
    (hx : x ∈ ds) (halike : SpelledAlike root (leadsTo root x.path) ds) :
    OneTask root (leadsTo root x.path) ds tasks := by
  obtain ⟨t, ht, hxt⟩ := List.mem_flatMap.1 (h.perm.mem_iff.2 hx)
  have hlocation := h.location_of_mem ht hxt
  have hnormal : ∀ y ∈ ds,
      absolutize (.ofText root) y.path = t.location ↔ leadsTo root y.path = leadsTo root x.path := by
    intro y hy
    rw [← hlocation, absolutize_eq_iff hroot]
    exact ⟨fun h => h.1, fun h => ⟨h, halike y (mem_namedAt.2 ⟨hy, h⟩) x (mem_namedAt.2 ⟨hx, rfl⟩)⟩⟩
  have hpath : ∀ u ∈ tasks, u.location = t.location ↔ leadsTo root u.path = leadsTo root x.path := by
    intro u hu
    obtain ⟨y, hy, hpath⟩ := h.named u hu
    rw [← h.location_of_mem hu hy, ← hpath]
    rw [h.diagnostics u hu] at hy
    exact hnormal y (mem_ofFile.1 hy).1
  refine ⟨t, filter_eq_singleton h.nodup_locations.of_map ht (by simpa using (hpath t ht).1 rfl) ?_, ?_⟩
  · intro u hu hleads
    exact List.inj_on_of_nodup_map h.nodup_locations hu ht ((hpath u hu).2 (by simpa using hleads))
  · rw [h.diagnostics t ht, ofFile, namedAt]
    exact List.filter_congr fun y hy => by simp only [hnormal y hy]

/-- **There is one task for a file exactly if it is spelled alike.** -/
theorem Grouped.oneTask_iff (hroot : root.head? = some '/') (h : Grouped (.ofText root) ds tasks) {x : Diagnostic}
    (hx : x ∈ ds) :
    OneTask root (leadsTo root x.path) ds tasks ↔ SpelledAlike root (leadsTo root x.path) ds :=
  ⟨h.spelledAlike hroot, h.oneTask hroot hx⟩

end Tasks

/-! ## What becomes of a file -/

section Run

variable {root : Text} {ds : List Diagnostic} {tasks : List FileTask} {policy : Policy} {dryRun : Bool} {d d' : Disk}
  {results : List FileResult} {loc : Location}

/-- A task finds its file where its path leads. -/
theorem Grouped.eq_leadsTo (hroot : root.head? = some '/') (h : Grouped (.ofText root) ds tasks) {t : FileTask}
    (ht : t ∈ tasks) (hfile : d.fileAt? t.location.text = some loc) : loc = leadsTo root t.path := by
  rw [← h.path ht] at hfile
  exact eq_leadsTo_of_fileAt? hroot hfile

theorem Grouped.avoids (hroot : root.head? = some '/') (h : Grouped (.ofText root) ds tasks) {t u : FileTask}
    (ht : t ∈ tasks) (hu : u ∈ tasks) (hne : leadsTo root u.path ≠ leadsTo root t.path) :
    u.Avoids d t.location.text := by
  intro loc huloc htloc
  exact hne ((h.eq_leadsTo hroot hu huloc).symm.trans (h.eq_leadsTo hroot ht htloc))

/-- All tasks but the one for a file are about other files. -/
theorem OneTask.exists_append (h : OneTask root loc ds tasks) :
    ∃ before t after, tasks = before ++ t :: after ∧ t.diagnostics = namedAt root loc ds ∧
      leadsTo root t.path = loc ∧ ∀ u ∈ before ++ after, leadsTo root u.path ≠ loc := by
  obtain ⟨t, hfilter, hdiagnostics⟩ := h
  obtain ⟨before, after, rfl, hbefore, ht, hafter⟩ := List.filter_eq_cons_iff.1 hfilter
  refine ⟨before, t, after, rfl, hdiagnostics, by simpa using ht, List.forall_mem_append.2 ⟨?_, ?_⟩⟩
  · simpa using hbefore
  · simpa using List.filter_eq_nil_iff.1 hafter

/-- The one task for a file has its one result, and ends as it would alone. -/
theorem PerformsAll.alone_of_oneTask (hroot : root.head? = some '/')
    (h : PerformsAll root policy dryRun tasks d results d') (hgrouped : Grouped (.ofText root) ds tasks)
    (hone : OneTask root loc ds tasks) :
    ∃ t ∈ tasks, ∃ r ∈ results, ∃ d₁, t.diagnostics = namedAt root loc ds ∧
      t.Performs root policy dryRun d r d₁ ∧ d'.walk t.location.text = d₁.walk t.location.text ∧
      (∀ u ∈ tasks, leadsTo root u.path = loc ↔ u = t) ∧ results.filter (fun r => leadsTo root r.path = loc) = [r] := by
  obtain ⟨before, t, after, rfl, hdiagnostics, ht, hother⟩ := hone.exists_append
  have hmem : ∀ u, u ∈ before ++ t :: after ↔ u = t ∨ u ∈ before ++ after := by
    intro u
    rw [List.perm_middle.mem_iff, List.mem_cons]
  have hiff : ∀ u ∈ before ++ t :: after, leadsTo root u.path = loc ↔ u = t := by
    intro u hu
    refine ⟨fun hloc => ((hmem u).1 hu).resolve_right fun hrest => hother u hrest hloc, ?_⟩
    rintro rfl
    exact ht
  have htmem : t ∈ before ++ t :: after := (hmem t).2 (.inl rfl)
  obtain ⟨r, hr, d₁, halone, hwalk⟩ := h.alone_of_append fun u hu =>
    hgrouped.avoids hroot htmem ((hmem u).2 (.inr hu)) (ht.symm ▸ hother u hu)
  refine ⟨t, htmem, r, hr, d₁, hdiagnostics, halone, hwalk, hiff, ?_⟩
  -- a result for the file is the result of this task
  refine filter_eq_singleton (h.nodup_locations hgrouped).of_map hr (by simpa [halone.path_eq] using ht) ?_
  intro r' hr' hleads
  obtain ⟨u, hu, d₂, d₃, hperforms⟩ := h.exists_task hr'
  have hpath : r'.path = r.path := by
    rw [hperforms.path_eq, halone.path_eq]
    exact congrArg _ ((hiff u hu).1 (by simpa [hperforms.path_eq] using hleads))
  exact h.eq_of_location_eq hgrouped hr' hr (congrArg _ hpath)

/-- **A file with one task has one result, and keeps what is written to it.** -/
theorem RunPlan.keepsUpdate_output (hroot : root.head? = some '/') (plan : RunPlan) (startedAt finishedAt : Timestamp)
    (h : PerformsAll root plan.policy dryRun (plan.tasks (.ofText root)) d results d')
    (hone : OneTask root loc plan.actedOn (plan.tasks (.ofText root))) :
    (plan.output startedAt finishedAt dryRun results).KeepsUpdate root plan dryRun loc d d' := by
  have hgrouped := plan.grouped_tasks (.ofText root)
  obtain ⟨t, ht, r, hr, d₁, hdiagnostics, halone, hwalk, htask, hfilter⟩ := h.alone_of_oneTask hroot hgrouped hone
  have hstates : (plan.output startedAt finishedAt dryRun results).states.filter (fun s => leadsTo root s.1 = loc) =
      [(r.path, r.state)] := by
    have hmap := congrArg (List.map fun r => (r.path, r.state)) hfilter
    rw [List.map_singleton] at hmap
    rw [← hmap]
    exact List.filter_map
  have honly : ∀ p state, leadsTo root p = loc → (p, state) ∈ (plan.output startedAt finishedAt dryRun results).states →
      p = r.path ∧ state = r.state := by
    intro p state hp hmem
    have hfound : (p, state) ∈ [(r.path, r.state)] := by
      rw [← hstates]
      exact List.mem_filter.2 ⟨hmem, decide_eq_true hp⟩
    exact Prod.mk.inj (List.mem_singleton.1 hfound)
  refine ⟨⟨_, hstates⟩, ?_, ?_⟩
  · intro p hp hdone
    obtain ⟨rfl, hstate⟩ := honly p _ hp hdone
    obtain ⟨l, old, source, edit, hold, hdecode, hedit, hchanges, hnew⟩ := halone.of_done hstate.symm
    have hl : l = loc :=
      (hgrouped.eq_leadsTo hroot ht (Disk.fileAt?_of_walk hold)).trans ((htask t ht).2 rfl)
    subst hl
    rw [FileTask.outcome, hdiagnostics] at hedit
    refine ⟨old, source, edit, (Disk.node?_of_walk hold).1, hdecode, hedit, ?_, ?_⟩
    · rw [changesFor_output startedAt finishedAt h hr, changeRecords, hchanges]
    · exact (Disk.node?_of_walk (hwalk.trans hnew)).1
  · intro p reason hp hfailed
    obtain ⟨rfl, hstate⟩ := honly p _ hp hfailed
    obtain ⟨-, -, hdisk⟩ := halone.of_failed hstate.symm
    rw [hdisk] at hwalk
    by_cases hfile : d.fileAt? t.location.text = some loc
    · exact Disk.node?_eq_of_walk_eq hwalk hfile
    · -- no task finds a file there
      refine h.node?_eq fun u hu huloc => hfile ?_
      rw [← (htask u hu).1 (hgrouped.eq_leadsTo hroot hu huloc).symm, huloc]

end Run

/-- **Two spellings of a file come to one path exactly if they go up in the root directory equally often,** and a file
whose spellings all do has one task and keeps what is written to it. -/
theorem runSilence_oneTaskPerFile (root : Text) (hroot : root.head? = some '/') :
    (∀ p q, absolutize (.ofText root) p = absolutize (.ofText root) q ↔
        leadsTo root p = leadsTo root q ∧ climbsOf root p = climbsOf root q) ∧
      ∀ (time : Disk → Timestamp) (input : RunInput) (d : Disk) (told : List Notice) (plan : RunPlan),
        input.root = root → (planRun input : OnDisk _).run d = ((told, .ok plan), d) →
        ∃ notices out d', (runSilence (OnDisk.clock time) input).run d = (⟨notices, .ok out⟩, d') ∧
          ∀ x ∈ plan.actedOn,
            (OneTask root (leadsTo root x.path) plan.actedOn (plan.tasks (.ofText root)) ↔
              SpelledAlike root (leadsTo root x.path) plan.actedOn) ∧
            (SpelledAlike root (leadsTo root x.path) plan.actedOn →
              out.KeepsUpdate root plan input.dryRun (leadsTo root x.path) d d') := by
  refine ⟨absolutize_eq_iff hroot, ?_⟩
  rintro time input d told plan rfl hplan
  have hall := performsAll input.root plan.policy input.dryRun (plan.tasks (.ofText input.root)) d
  have hgrouped := plan.grouped_tasks (.ofText input.root)
  refine ⟨_, _, _, run_runSilence_of_plan time hplan rfl, ?_⟩
  intro x hx
  have hiff := hgrouped.oneTask_iff hroot hx
  exact ⟨hiff, fun halike => plan.keepsUpdate_output hroot _ _ hall (hiff.2 halike)⟩

namespace Spelled

/-- One file, named in three ways. -/
def report : Text :=
  "/r/m.py:2: error: bad  [name]\nm.py:1: error: bad  [misc]\nx/../m.py:1: error: bad  [arg]\n"

def input : RunInput where
  root := "/r"
  report := .given (Utf8.encode report)

def disk : Disk where
  tree := .directory "r" (.file "m.py" (Utf8.encode "x = 1\ny = 2\n") .empty) .empty

def plan : RunPlan where
  configuration := {}
  report := {
    diagnostics :=
      [{ firstLineError "/r/m.py" "name" with line := 2 }, firstLineError "m.py" "misc",
        firstLineError "x/../m.py" "arg"]
    unparsed := 0
    uncoded := 0 }
  scope := .all (.ofText "/r")

theorem ofText_report : Report.ofText report = plan.report := by
  have hfirst : firstOfKey (gather none (Report.items report)) = plan.report.diagnostics := by decide +kernel
  rw [Report.ofText_of_sorted hfirst (by decide +kernel)]
  decide +kernel

theorem run_planRun : (planRun input : OnDisk _).run disk = (([], .ok plan), disk) := by
  have hconfigure : configure input.settings input.overrides = .ok plan.configuration := by decide +kernel
  rw [run_planRun_of_given disk rfl hconfigure rfl rfl, ofText_report]
  rfl

/-- The tasks of one file in the root directory, which is named in two ways. -/
def apart : List FileTask :=
  groupByFile (.ofText "/r") [firstLineError "/a.py" "misc", firstLineError "../../a.py" "name"]

end Spelled

theorem runSilence_oneTaskPerFile_spelled :
    ∃ notices out d', (runSilence (OnDisk.clock (fixedTime 8)) Spelled.input).run Spelled.disk =
        (⟨notices, .ok out⟩, d') ∧
      out.states = [(⟨"/r/m.py"⟩, .done)] ∧
      d'.tree.node? ["r", "m.py"] = some (.file (Utf8.encode
        "x = 1  # type: ignore[arg, misc]  # FIX ME\ny = 2  # type: ignore[name]  # FIX ME\n")) ∧
      SpelledAlike "/r" ["r", "m.py"] Spelled.plan.actedOn ∧
      out.KeepsUpdate "/r" Spelled.plan false ["r", "m.py"] Spelled.disk d' := by
  obtain ⟨notices, out, d', hrun, hfiles⟩ :=
    (runSilence_oneTaskPerFile "/r" rfl).2 (fixedTime 8) Spelled.input Spelled.disk [] Spelled.plan rfl
      Spelled.run_planRun
  have halike : SpelledAlike "/r" ["r", "m.py"] Spelled.plan.actedOn := by decide +kernel
  have hmem : firstLineError "m.py" "misc" ∈ Spelled.plan.actedOn := by decide +kernel
  have hsame := hrun.symm.trans (run_runSilence_of_plan (fixedTime 8) Spelled.run_planRun rfl)
  refine ⟨notices, out, d', hrun, ?_, ?_, halike, (hfiles _ hmem).2 halike⟩
  · cases hsame
    decide +kernel
  · cases hsame
    decide +kernel

/-- **A file in the root directory has two tasks** if one of its spellings goes up there and the other does not. -/
theorem oneTaskPerFile_fails_above_root :
    leadsTo "/r" (.ofText "/a.py") = leadsTo "/r" (.ofText "../../a.py") ∧
      absolutize (.ofText "/r") (.ofText "/a.py") ≠ absolutize (.ofText "/r") (.ofText "../../a.py") ∧
      Spelled.apart.length = 2 ∧
      ∀ t ∈ Spelled.apart,
        Disk.fileAt? { tree := .file "a.py" [] .empty } t.location.text = some [("a.py" : Text)] := by
  decide +kernel

end TypeIgnore
