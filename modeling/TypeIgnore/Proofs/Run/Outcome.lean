import TypeIgnore.Edit.Silence
import TypeIgnore.Proofs.Edit.Partition
import TypeIgnore.Proofs.Tree.Programs

/-!
# What becomes of a task

* `silenceSource_perm` — each diagnostic of a source is silenced or rejected, once;
* `FileTask.run_perform_of_unread` and those after it — what a task comes to on a disk;
* `FileTask.Performs` — the five ways in which a task ends, and `FileTask.performs`: it ends in one of them;
* `FileTask.Performs.perm`, `FileTask.Performs.of_failed` — however it ends, each of its diagnostics is silenced or
  rejected, once, and if it failed, then nothing is silenced and nothing changes;
* `FileTask.Performs.disk_eq_or` — only a task that is done and has changes to write touches the disk.
-/

namespace TypeIgnore

/-! ## The diagnostics of a source -/

theorem map_diagnostic_map_mk (reason : Diagnostic → Reason) (ds : List Diagnostic) :
    (ds.map fun d => Rejected.mk d (reason d)).map (·.diagnostic) = ds := by
  rw [List.map_map]
  exact List.map_id ds

/-- **Each diagnostic of a source is silenced or rejected, once.** -/
theorem silenceSource_perm (source : Text) (ds : List Diagnostic) (policy : Policy) :
    ((silenceSource source ds policy).silenced ++ (silenceSource source ds policy).rejected.map (·.diagnostic)).Perm
      ds := by
  unfold silenceSource
  split
  · rw [List.nil_append, rejectUnparseable, map_diagnostic_map_mk]
  · exact partition_perm _ ds

theorem silenced_eq_nil_of_edit_eq_error {source : Text} {ds : List Diagnostic} {policy : Policy} {e : LexError}
    (h : (silenceSource source ds policy).edit = .error e) : (silenceSource source ds policy).silenced = [] := by
  unfold silenceSource at h ⊢
  split
  · rfl
  · rename_i hm
    rw [hm] at h
    cases h

namespace FileTask

/-! ## The ways in which a task ends -/

variable {root : Text} {policy : Policy} {dryRun : Bool} {t : FileTask} {d d' : Disk} {r : FileResult}

/-- What is planned for a source. -/
def outcome (t : FileTask) (policy : Policy) (source : Text) : FileOutcome := silenceSource source t.diagnostics policy

section Run

variable {source : Text} {e : FileEdit}

theorem run_perform_of_unread {err : SourceError} (hread : d.source t.location.text = .error err) :
    (t.perform root policy dryRun : OnDisk _).run d = (t.unread root err, d) := by
  rw [perform, OnDisk.run_bind_of _ (d.run_readSource _), hread]
  rfl

theorem run_perform_of_unmapped {err : LexError} (hread : d.source t.location.text = .ok source)
    (hedit : (t.outcome policy source).edit = .error err) :
    (t.perform root policy dryRun : OnDisk _).run d = (t.unmapped (t.outcome policy source).rejected err, d) := by
  rw [outcome] at hedit
  rw [perform, OnDisk.run_bind_of _ (d.run_readSource _), hread]
  simp only [hedit]
  rfl

theorem run_perform_of_kept (hread : d.source t.location.text = .ok source)
    (hedit : (t.outcome policy source).edit = .ok e) (hkept : e.isNoop = true ∨ dryRun = true) :
    (t.perform root policy dryRun : OnDisk _).run d = (t.finished (t.outcome policy source) e, d) := by
  have hor : (e.isNoop || dryRun) = true := by simpa using hkept
  rw [outcome] at hedit
  rw [perform, OnDisk.run_bind_of _ (d.run_readSource _), hread]
  simp only [hedit, hor, if_true]
  rfl

theorem run_perform_of_write {result : Except SourceError Unit} (hread : d.source t.location.text = .ok source)
    (hedit : (t.outcome policy source).edit = .ok e) (hnew : e.isNoop = false)
    (hwrite : (writeSource t.location.text e.text : OnDisk _).run d = (result, d')) :
    (t.perform root policy false : OnDisk _).run d =
      (match result with
        | .error err => t.unwritten (t.outcome policy source) err
        | .ok () => t.finished (t.outcome policy source) e, d') := by
  rw [outcome] at hedit
  rw [perform, OnDisk.run_bind_of _ (d.run_readSource _), hread]
  simp only [hedit, hnew, Bool.or_false, Bool.false_eq_true, if_false]
  rw [OnDisk.run_bind_of _ hwrite]
  cases result <;> rfl

end Run

/-- How a task on the disk `d` ends: its result, and the disk after it. -/
inductive Performs (root : Text) (policy : Policy) (dryRun : Bool) (t : FileTask) (d : Disk) :
    FileResult → Disk → Prop
  | unread {e : SourceError} (hread : d.source t.location.text = .error e) :
    Performs root policy dryRun t d (t.unread root e) d
  | unmapped {source : Text} {e : LexError} (hread : d.source t.location.text = .ok source)
    (hedit : (t.outcome policy source).edit = .error e) :
    Performs root policy dryRun t d (t.unmapped (t.outcome policy source).rejected e) d
  /-- There is nothing to write, or nothing is to be written. -/
  | kept {source : Text} {e : FileEdit} (hread : d.source t.location.text = .ok source)
    (hedit : (t.outcome policy source).edit = .ok e) (hkept : e.isNoop = true ∨ dryRun = true) :
    Performs root policy dryRun t d (t.finished (t.outcome policy source) e) d
  | unwritten {source : Text} {e : FileEdit} {err : SourceError} (hread : d.source t.location.text = .ok source)
    (hedit : (t.outcome policy source).edit = .ok e) (hnew : e.isNoop = false) (hreal : dryRun = false) :
    Performs root policy dryRun t d (t.unwritten (t.outcome policy source) err) d
  | written {source : Text} {e : FileEdit} {loc : Location} {old : List UInt8}
    (hread : d.source t.location.text = .ok source) (hedit : (t.outcome policy source).edit = .ok e)
    (hnew : e.isNoop = false) (hreal : dryRun = false) (hwalk : d.walk t.location.text = .ok (.file loc old)) :
    Performs root policy dryRun t d (t.finished (t.outcome policy source) e) (d.withFile loc (Utf8.encode e.text))

/-- **A task ends in one of five ways.** -/
theorem performs (root : Text) (policy : Policy) (dryRun : Bool) (t : FileTask) (d : Disk) :
    Performs root policy dryRun t d ((t.perform root policy dryRun : OnDisk _).run d).1
      ((t.perform root policy dryRun : OnDisk _).run d).2 := by
  cases hread : d.source t.location.text with
  | error err =>
    rw [run_perform_of_unread hread]
    exact .unread hread
  | ok source =>
    cases hedit : (t.outcome policy source).edit with
    | error err =>
      rw [run_perform_of_unmapped hread hedit]
      exact .unmapped hread hedit
    | ok e =>
      by_cases hkept : e.isNoop = true ∨ dryRun = true
      · rw [run_perform_of_kept hread hedit hkept]
        exact .kept hread hedit hkept
      · obtain ⟨hnew, rfl⟩ : e.isNoop = false ∧ dryRun = false := by simpa using hkept
        rcases d.run_writeSource_cases t.location.text e.text with ⟨err, hwrite⟩ | ⟨loc, old, hwalk, hwrite⟩
        · rw [run_perform_of_write hread hedit hnew hwrite]
          exact .unwritten hread hedit hnew rfl
        · rw [run_perform_of_write hread hedit hnew hwrite]
          exact .written hread hedit hnew rfl hwalk

namespace Performs

/-- Each diagnostic of a task is silenced or rejected, once. -/
theorem perm (h : Performs root policy dryRun t d r d') :
    (r.silenced ++ r.rejected.map (·.diagnostic)).Perm t.diagnostics := by
  cases h with
  | @unread e hread =>
    have hall := map_diagnostic_map_mk (fun _ => e.reason) t.diagnostics
    exact .of_eq hall
  | @unmapped source e hread hedit =>
    have hperm := silenceSource_perm source t.diagnostics policy
    rw [silenced_eq_nil_of_edit_eq_error hedit] at hperm
    exact hperm
  | @kept source e hread hedit hkept => exact silenceSource_perm source t.diagnostics policy
  | @unwritten source e err hread hedit hnew hreal =>
    have hperm := silenceSource_perm source t.diagnostics policy
    have hback := map_diagnostic_map_mk (fun _ => .ioError) (t.outcome policy source).silenced
    simp only [FileTask.unwritten, List.map_append, hback, List.nil_append]
    exact List.perm_append_comm.trans hperm
  | @written source e loc old hread hedit hnew hreal hwalk => exact silenceSource_perm source t.diagnostics policy

theorem path_eq (h : Performs root policy dryRun t d r d') : r.path = t.path := by
  cases h <;> rfl

/-- A task that failed silences nothing and changes nothing. -/
theorem of_failed (h : Performs root policy dryRun t d r d') {reason : Reason} (hfailed : r.state = .failed reason) :
    r.silenced = [] ∧ r.changes = [] ∧ d' = d := by
  cases h with
  | unread hread => exact ⟨rfl, rfl, rfl⟩
  | unmapped hread hedit => exact ⟨rfl, rfl, rfl⟩
  | kept hread hedit hkept => cases hfailed
  | unwritten hread hedit hnew hreal => exact ⟨rfl, rfl, rfl⟩
  | written hread hedit hnew hreal hwalk => cases hfailed

/-- A task leaves the disk as it was, or it is done and has changes, and they are to be written. -/
theorem disk_eq_or (h : t.Performs root policy dryRun d r d') :
    d' = d ∨ dryRun = false ∧ r.state = .done ∧ r.changes ≠ [] := by
  cases h with
  | unread hread => exact .inl rfl
  | unmapped hread hedit => exact .inl rfl
  | kept hread hedit hkept => exact .inl rfl
  | unwritten hread hedit hnew hreal => exact .inl rfl
  | @written source e loc old hread hedit hnew hreal hwalk =>
    have hchanges : e.changes ≠ [] := by simpa [FileEdit.isNoop] using hnew
    exact .inr ⟨hreal, rfl, hchanges⟩

end Performs

end FileTask

end TypeIgnore
