import TypeIgnore.Proofs.Run.Independence

/-!
# Dry runs

* `OnDisk.readsOnly_runSilence` — a dry run leaves every disk as it was;
* `FileTask.write?`, `writeResults` — what the writes of tasks come to;
* `FileTask.perform_eq_dry`, `mapM_perform_eq_dry` — a task whose write succeeds has the result that it has in a dry
  run, and so have all tasks of a run, each with a file of its own;
* `RunResult.AgreesWith` — a dry run and a real one come to the same, the marks of the receipt apart.
-/

namespace TypeIgnore

/-! ## Nothing is touched -/

theorem OnDisk.readsOnly_perform (root : Text) (policy : Policy) (t : FileTask) :
    ReadsOnly (t.perform root policy true) := by
  intro d
  rcases (t.performs root policy true d).disk_eq_or with hsame | ⟨hreal, -⟩
  · exact hsame
  · cases hreal

theorem OnDisk.readsOnly_runSilence (time : Disk → Timestamp) {input : RunInput} (hdry : input.dryRun = true) :
    ReadsOnly (runSilence (OnDisk.clock time) input) := by
  have hclock : ReadsOnly (OnDisk.clock time) := fun _ => rfl
  unfold runSilence
  refine hclock.bind fun startedAt => (readsOnly_planRun input).bind fun ⟨told, result⟩ => ?_
  cases result with
  | error e => exact readsOnly_pure _
  | ok plan =>
    rw [hdry]
    refine (readsOnly_mapM (readsOnly_perform _ _) _).bind fun results => ?_
    exact hclock.bind fun finishedAt => readsOnly_pure _

/-! ## The same results -/

/-- What the write of a task comes to, if there is something to write. -/
def FileTask.write? (t : FileTask) (policy : Policy) (d : Disk) : Option (Except SourceError Unit) :=
  match d.source t.location.text with
  | .error _ => none
  | .ok source =>
    match (t.outcome policy source).edit with
    | .error _ => none
    | .ok edit =>
      if edit.isNoop then none
      else some ((writeSource t.location.text edit.text : OnDisk _).run d).1

/-- What the writes of the tasks come to, each on the disk that the task before left. -/
def writeResults (root : Text) (policy : Policy) : List FileTask → Disk → List (Except SourceError Unit)
  | [], _ => []
  | t :: tasks, d =>
    (t.write? policy d).toList ++ writeResults root policy tasks ((t.perform root policy false : OnDisk _).run d).2

/-- A task whose write succeeds has the result that it has in a dry run on a disk with the same file. -/
theorem FileTask.perform_eq_dry (root : Text) {policy : Policy} {t : FileTask} {d d₀ : Disk} (hsame : t.SameFile d d₀)
    (hwrite : ∀ result ∈ t.write? policy d, result = .ok ()) :
    ((t.perform root policy false : OnDisk _).run d).1 = ((t.perform root policy true : OnDisk _).run d₀).1 := by
  cases hread : d.source t.location.text with
  | error e => rw [run_perform_of_unread hread, run_perform_of_unread (hsame.source ▸ hread)]
  | ok source =>
    have hread₀ : d₀.source t.location.text = .ok source := hsame.source ▸ hread
    cases hedit : (t.outcome policy source).edit with
    | error e => rw [run_perform_of_unmapped hread hedit, run_perform_of_unmapped hread₀ hedit]
    | ok edit =>
      rw [run_perform_of_kept hread₀ hedit (.inr rfl)]
      cases hnoop : edit.isNoop with
      | true => rw [run_perform_of_kept hread hedit (.inl hnoop)]
      | false =>
        have hok : ((writeSource t.location.text edit.text : OnDisk _).run d).1 = .ok () := by
          refine hwrite _ ?_
          simp [write?, hread, hedit, hnoop]
        rw [run_perform_of_write hread hedit hnoop (Prod.ext hok rfl)]

/-- So have tasks one after the other. `d` is the disk that writes have reached, `d₀` the one that a dry run stays
on. -/
theorem mapM_perform_eq_dry (root : Text) {policy : Policy} {tasks : List FileTask} {d d₀ : Disk}
    (hown : OwnFiles d tasks) (hsame : ∀ t ∈ tasks, t.SameFile d d₀)
    (hwrites : ∀ result ∈ writeResults root policy tasks d, result = .ok ()) :
    ((tasks.mapM (FileTask.perform root policy false) : OnDisk _).run d).1 =
      ((tasks.mapM (FileTask.perform root policy true) : OnDisk _).run d₀).1 := by
  induction tasks generalizing d with
  | nil => rfl
  | cons t tasks ih =>
    obtain ⟨hfirst, hothers⟩ := List.pairwise_cons.1 hown
    obtain ⟨hsameFirst, hsameOthers⟩ := List.forall_mem_cons.1 hsame
    obtain ⟨hwrite, hlater⟩ := List.forall_mem_append.1 hwrites
    -- what the first task writes does not show in the files of the others
    have hperforms := t.performs root policy false d
    have hresult := t.perform_eq_dry root hsameFirst fun result hr => hwrite result (by simpa using hr)
    have hresults := ih (hperforms.ownFiles hothers)
      (fun u hu => (hperforms.sameFile (hfirst u hu)).trans (hsameOthers u hu)) hlater
    have hdisk : ((t.perform root policy true : OnDisk _).run d₀).2 = d₀ := OnDisk.readsOnly_perform root policy t d₀
    have hcons : ∀ dryRun d, (((t :: tasks).mapM (FileTask.perform root policy dryRun) : OnDisk _).run d).1 =
        ((t.perform root policy dryRun : OnDisk _).run d).1 ::
          ((tasks.mapM (FileTask.perform root policy dryRun) : OnDisk _).run
            ((t.perform root policy dryRun : OnDisk _).run d).2).1 :=
      fun dryRun d => congrArg Prod.fst (run_mapM_perform_cons root policy dryRun t tasks rfl rfl)
    rw [hcons, hcons, hdisk, hresult, hresults]

/-! ## Two runs -/

/-- The same, but for the flag and the times of the receipts. -/
def RunOutput.AgreesWith (dry real : RunOutput) : Prop :=
  dry.receipt.dryRun = true ∧ real.receipt.dryRun = false ∧
    real = { dry with receipt := { dry.receipt with
      dryRun := false, startedAt := real.receipt.startedAt, finishedAt := real.receipt.finishedAt } }

/-- The same is told, and both stop for the same reason or have outputs that agree. -/
def RunResult.AgreesWith (dry real : RunResult) : Prop :=
  dry.notices = real.notices ∧
    match dry.outcome, real.outcome with
    | .error e, .error e' => e = e'
    | .ok out, .ok out' => out.AgreesWith out'
    | _, _ => False

/-- **A dry run touches nothing, and it comes to what the run comes to** if all writes of that succeed. -/
theorem runSilence_agreesWith_dry (time time' : Disk → Timestamp) (input : RunInput) (d : Disk) :
    ((runSilence (OnDisk.clock time) { input with dryRun := true }).run d).2 = d ∧
      ((∀ told plan, (planRun input : OnDisk _).run d = ((told, .ok plan), d) →
          d.TellsApart (plan.actedOn.map fun x => absolutize (.ofText input.root) x.path) ∧
            ∀ result ∈ writeResults input.root plan.policy (plan.tasks (.ofText input.root)) d, result = .ok ()) →
        ((runSilence (OnDisk.clock time) { input with dryRun := true }).run d).1.AgreesWith
          ((runSilence (OnDisk.clock time') { input with dryRun := false }).run d).1) := by
  refine ⟨OnDisk.readsOnly_runSilence time rfl d, ?_⟩
  intro hplans
  have hplan := (OnDisk.readsOnly_planRun input).run_eq d
  rcases hresult : ((planRun input : OnDisk _).run d).1 with ⟨told, e | plan⟩
  · have hplan : ∀ b, (planRun { input with dryRun := b } : OnDisk _).run d = ((told, .error e), d) :=
      fun _ => hresult ▸ hplan
    rw [run_runSilence_of_error time (hplan true), run_runSilence_of_error time' (hplan false)]
    exact ⟨rfl, rfl⟩
  · have hplan : ∀ b, (planRun { input with dryRun := b } : OnDisk _).run d = ((told, .ok plan), d) :=
      fun _ => hresult ▸ hplan
    obtain ⟨hapart, hwrites⟩ := hplans told plan (hplan input.dryRun)
    have hown := (plan.grouped_tasks (.ofText input.root)).ownFiles hapart
    let tasks (dryRun : Bool) : OnDisk (List FileResult) :=
      (plan.tasks (.ofText input.root)).mapM (FileTask.perform input.root plan.policy dryRun)
    have hdry : (tasks true).run d = (((tasks true).run d).1, d) :=
      (OnDisk.readsOnly_mapM (OnDisk.readsOnly_perform input.root plan.policy) _).run_eq d
    have hreal : (tasks false).run d = (((tasks true).run d).1, ((tasks false).run d).2) :=
      Prod.ext (mapM_perform_eq_dry input.root hown (fun _ _ => ⟨rfl, rfl⟩) hwrites) rfl
    rw [run_runSilence_of_plan time (hplan true) hdry, run_runSilence_of_plan time' (hplan false) hreal]
    exact ⟨rfl, rfl, rfl, rfl⟩

theorem runSilence_agreesWith_dry_sample :
    writeResults "/r" FourFiles.plan.policy (FourFiles.plan.tasks (.ofText "/r")) (FourFiles.disk []) =
        [.ok (), .ok ()] ∧
      ((runSilence (OnDisk.clock (fixedTime 8)) (FourFiles.input true)).run (FourFiles.disk [])).2 = FourFiles.disk [] ∧
      ((runSilence (OnDisk.clock (fixedTime 8)) (FourFiles.input true)).run (FourFiles.disk [])).1.AgreesWith
        ((runSilence (OnDisk.clock (fixedTime 9)) (FourFiles.input false)).run (FourFiles.disk [])).1 := by
  have hwrites : writeResults "/r" FourFiles.plan.policy (FourFiles.plan.tasks (.ofText "/r")) (FourFiles.disk []) =
      [.ok (), .ok ()] := by decide +kernel
  obtain ⟨hdisk, hagrees⟩ :=
    runSilence_agreesWith_dry (fixedTime 8) (fixedTime 9) (FourFiles.input false) (FourFiles.disk [])
  refine ⟨hwrites, hdisk, hagrees ?_⟩
  intro told plan hplan
  rw [FourFiles.run_planRun] at hplan
  cases hplan
  refine ⟨by decide +kernel, ?_⟩
  intro result hresult
  have hmem : result ∈ [Except.ok (), Except.ok ()] := hwrites ▸ hresult
  simpa using hmem

end TypeIgnore
