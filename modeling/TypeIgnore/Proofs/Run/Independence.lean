import TypeIgnore.Proofs.Run.Stages

/-!
# Tasks with files of their own

* `Disk.TellsApart` — no two of some paths lead to one file;
* `OwnFiles` — no two of some tasks work on one file; so it is for the tasks of diagnostics whose paths the disk tells
  apart (`Grouped.ownFiles`);
* `FileTask.Performs.walk_eq`, `FileTask.Performs.source_eq` — a task leaves all other files alone;
* `PerformsAll.alone_of_append` — a task with a file of its own ends as it would on the disk that the first task found,
  and its file is left as it would be; `PerformsAll.alone` says so of tasks that all have files of their own.
-/

namespace TypeIgnore

/-- No two of the paths lead to one file. -/
def Disk.TellsApart (d : Disk) (paths : List Path) : Prop :=
  ∀ p ∈ paths, ∀ q ∈ paths, (d.fileAt? p.text).isSome → d.fileAt? p.text = d.fileAt? q.text → p = q

instance (d : Disk) (paths : List Path) : Decidable (d.TellsApart paths) :=
  inferInstanceAs (Decidable (∀ p ∈ paths, ∀ q ∈ paths,
    (d.fileAt? p.text).isSome → d.fileAt? p.text = d.fileAt? q.text → p = q))

/-- What the path leads to is no file that the task works on. -/
def FileTask.Avoids (t : FileTask) (d : Disk) (path : Text) : Prop :=
  ∀ loc, d.fileAt? t.location.text = some loc → d.fileAt? path ≠ some loc

/-- No two of the tasks work on one file. -/
def OwnFiles (d : Disk) (tasks : List FileTask) : Prop :=
  tasks.Pairwise fun t u => t.Avoids d u.location.text

theorem Grouped.ownFiles {base : Path} {ds : List Diagnostic} {tasks : List FileTask} {d : Disk}
    (h : Grouped base ds tasks) (hapart : d.TellsApart (ds.map fun x => absolutize base x.path)) :
    OwnFiles d tasks := by
  refine h.ascending.imp_of_mem ?_
  intro t u ht hu hbefore loc htloc huloc
  have heq : t.location = u.location := by
    refine hapart _ (h.location_mem ht) _ (h.location_mem hu) ?_ ?_
    · rw [htloc]
      rfl
    · rw [htloc, huloc]
  rw [heq, Path.before_irrefl] at hbefore
  cases hbefore

variable {root : Text} {policy : Policy} {dryRun : Bool}

/-! ## One task -/

/-- The disks have the same file for the task, or the same obstacle. -/
structure FileTask.SameFile (t : FileTask) (d d₀ : Disk) : Prop where
  walk : d.walk t.location.text = d₀.walk t.location.text
  source : d.source t.location.text = d₀.source t.location.text

theorem FileTask.SameFile.trans {t : FileTask} {d₂ d₁ d₀ : Disk} (h : t.SameFile d₂ d₁) (h' : t.SameFile d₁ d₀) :
    t.SameFile d₂ d₀ :=
  ⟨h.walk.trans h'.walk, h.source.trans h'.source⟩

namespace FileTask.Performs

variable {t : FileTask} {d d' d₀ : Disk} {r : FileResult}

/-- A task does nothing to the disk, or it gives its file another content. -/
theorem disk_cases (h : t.Performs root policy dryRun d r d') :
    d' = d ∨ ∃ loc old bytes, d.walk t.location.text = .ok (.file loc old) ∧ d' = d.withFile loc bytes := by
  cases h with
  | unread hread => exact .inl rfl
  | unmapped hread hedit => exact .inl rfl
  | kept hread hedit hkept => exact .inl rfl
  | unwritten hread hedit hnew hreal => exact .inl rfl
  | @written source e loc old hread hedit hnew hreal hwalk => exact .inr ⟨loc, old, _, hwalk, rfl⟩

/-- Nothing but the tree changes. -/
theorem frame (h : t.Performs root policy dryRun d r d') : d' = { d with tree := d'.tree } := by
  rcases h.disk_cases with rfl | ⟨loc, old, bytes, -, rfl⟩ <;> rfl

theorem fileAt?_eq (h : t.Performs root policy dryRun d r d') (path : Text) : d'.fileAt? path = d.fileAt? path := by
  rcases h.disk_cases with rfl | ⟨loc, old, bytes, hwalk, rfl⟩
  · rfl
  · exact Disk.fileAt?_withFile (Disk.node?_of_walk hwalk).1 bytes path

theorem walk_eq (h : t.Performs root policy dryRun d r d') {path : Text} (hother : t.Avoids d path) :
    d'.walk path = d.walk path := by
  rcases h.disk_cases with rfl | ⟨loc, old, bytes, hwalk, rfl⟩
  · rfl
  · exact Disk.walk_withFile_of_ne (Disk.node?_of_walk hwalk).1 bytes (hother loc (Disk.fileAt?_of_walk hwalk))

theorem source_eq (h : t.Performs root policy dryRun d r d') {path : Text} (hother : t.Avoids d path) :
    d'.source path = d.source path := by
  rcases h.disk_cases with rfl | ⟨loc, old, bytes, hwalk, rfl⟩
  · rfl
  · exact Disk.source_withFile (Disk.node?_of_walk hwalk).1 bytes (hother loc (Disk.fileAt?_of_walk hwalk))

theorem sameFile (h : t.Performs root policy dryRun d r d') {u : FileTask} (hother : t.Avoids d u.location.text) :
    u.SameFile d' d :=
  ⟨h.walk_eq hother, h.source_eq hother⟩

theorem node?_eq (h : t.Performs root policy dryRun d r d') {loc : Location}
    (hother : d.fileAt? t.location.text ≠ some loc) : d'.tree.node? loc = d.tree.node? loc := by
  rcases h.disk_cases with rfl | ⟨l, old, bytes, hwalk, rfl⟩
  · rfl
  · have hne : loc ≠ l := by
      rintro rfl
      exact hother (Disk.fileAt?_of_walk hwalk)
    rw [Disk.withFile, Tree.node?_put_file (Disk.node?_of_walk hwalk).1, if_neg hne]

theorem ownFiles (h : t.Performs root policy dryRun d r d') {tasks : List FileTask} (hown : OwnFiles d tasks) :
    OwnFiles d' tasks := by
  refine hown.imp ?_
  intro u v havoids loc hloc
  rw [h.fileAt?_eq] at hloc ⊢
  exact havoids loc hloc

/-- On a disk with the same file, a task can end the same way. -/
theorem of_sameFile (h : t.Performs root policy dryRun d r d') (hsame : t.SameFile d d₀) :
    ∃ d₁, t.Performs root policy dryRun d₀ r d₁ ∧ d'.walk t.location.text = d₁.walk t.location.text := by
  have hsource := hsame.source
  cases h with
  | unread hread => exact ⟨d₀, .unread (hsource ▸ hread), hsame.walk⟩
  | unmapped hread hedit => exact ⟨d₀, .unmapped (hsource ▸ hread) hedit, hsame.walk⟩
  | kept hread hedit hkept => exact ⟨d₀, .kept (hsource ▸ hread) hedit hkept, hsame.walk⟩
  | unwritten hread hedit hnew hreal => exact ⟨d₀, .unwritten (hsource ▸ hread) hedit hnew hreal, hsame.walk⟩
  | @written source e loc old hread hedit hnew hreal hwalk =>
    have hwalk₀ : d₀.walk t.location.text = .ok (.file loc old) := hsame.walk ▸ hwalk
    refine ⟨d₀.withFile loc (Utf8.encode e.text), .written (hsource ▸ hread) hedit hnew hreal hwalk₀, ?_⟩
    rw [Disk.walk_withFile (Disk.node?_of_walk hwalk).1, Disk.walk_withFile (Disk.node?_of_walk hwalk₀).1, hsame.walk]

end FileTask.Performs

/-! ## Tasks one after the other -/

namespace PerformsAll

variable {tasks : List FileTask} {d d' d₀ : Disk} {results : List FileResult}

theorem frame (h : PerformsAll root policy dryRun tasks d results d') : d' = { d with tree := d'.tree } := by
  induction h with
  | nil => rfl
  | @cons t tasks d d₁ d₂ r rs first others ih =>
    rw [ih, first.frame]

/-- What is no task's file stays as it is. -/
theorem node?_eq (h : PerformsAll root policy dryRun tasks d results d') {loc : Location}
    (hother : ∀ t ∈ tasks, d.fileAt? t.location.text ≠ some loc) : d'.tree.node? loc = d.tree.node? loc := by
  induction h with
  | nil => rfl
  | @cons t tasks d d₁ d₂ r rs first others ih =>
    obtain ⟨hfirst, hothers⟩ := List.forall_mem_cons.1 hother
    rw [ih fun u hu => first.fileAt?_eq _ ▸ hothers u hu, first.node?_eq hfirst]

theorem fileAt?_eq (h : PerformsAll root policy dryRun tasks d results d') (path : Text) :
    d'.fileAt? path = d.fileAt? path := by
  induction h with
  | nil => rfl
  | cons first others ih => rw [ih, first.fileAt?_eq]

theorem sameFile (h : PerformsAll root policy dryRun tasks d results d') {u : FileTask}
    (hother : ∀ t ∈ tasks, t.Avoids d u.location.text) : u.SameFile d' d := by
  induction h with
  | nil => exact ⟨rfl, rfl⟩
  | @cons t tasks d d₁ d₂ r rs first others ih =>
    obtain ⟨hfirst, hothers⟩ := List.forall_mem_cons.1 hother
    have hlater : ∀ t ∈ tasks, t.Avoids d₁ u.location.text := by
      intro t ht loc hloc
      rw [first.fileAt?_eq] at hloc ⊢
      exact hothers t ht loc hloc
    exact (ih hlater).trans (first.sameFile hfirst)

theorem of_append {before after : List FileTask}
    (h : PerformsAll root policy dryRun (before ++ after) d results d') :
    ∃ d₁ rs₁ rs₂, PerformsAll root policy dryRun before d rs₁ d₁ ∧ PerformsAll root policy dryRun after d₁ rs₂ d' ∧
      results = rs₁ ++ rs₂ := by
  induction before generalizing d results with
  | nil => exact ⟨d, [], results, .nil, h, rfl⟩
  | cons t before ih =>
    cases h with
    | cons first others =>
      obtain ⟨d₁, rs₁, rs₂, hbefore, hafter, rfl⟩ := ih others
      exact ⟨d₁, _ :: rs₁, rs₂, .cons first hbefore, hafter, rfl⟩

/-- **A task whose file no other task works on ends as it would alone.** -/
theorem alone_of_append {before after : List FileTask} {t : FileTask}
    (h : PerformsAll root policy dryRun (before ++ t :: after) d results d')
    (hother : ∀ u ∈ before ++ after, u.Avoids d t.location.text) : ∃ r ∈ results, ∃ d₁,
      t.Performs root policy dryRun d r d₁ ∧ d'.walk t.location.text = d₁.walk t.location.text := by
  obtain ⟨hbefore, hafter⟩ := List.forall_mem_append.1 hother
  obtain ⟨d₁, rs₁, rs₂, hfirst, hrest, rfl⟩ := h.of_append
  cases hrest with
  | cons hperforms hlast =>
    -- the tasks before leave the file as it is, and so do the tasks after
    obtain ⟨d₂, halone, hwalk⟩ := hperforms.of_sameFile (hfirst.sameFile hbefore)
    refine ⟨_, List.mem_append_right _ List.mem_cons_self, d₂, halone, ?_⟩
    rw [← hwalk]
    refine (hlast.sameFile fun u hu loc huloc => ?_).walk
    rw [hperforms.fileAt?_eq, hfirst.fileAt?_eq] at huloc ⊢
    exact hafter u hu loc huloc

theorem alone (h : PerformsAll root policy dryRun tasks d results d') (hown : OwnFiles d tasks) :
    ∀ t ∈ tasks, ∃ r ∈ results, ∃ d₁,
      t.Performs root policy dryRun d r d₁ ∧ d'.walk t.location.text = d₁.walk t.location.text := by
  intro t ht
  obtain ⟨before, after, rfl⟩ := List.append_of_mem ht
  obtain ⟨-, hafter, hbefore⟩ := List.pairwise_append.1 hown
  refine h.alone_of_append (List.forall_mem_append.2 ⟨?_, ?_⟩)
  · exact fun u hu => hbefore u hu t List.mem_cons_self
  · intro u hu loc huloc htloc
    exact (List.pairwise_cons.1 hafter).1 u hu loc htloc huloc

/-- The same from the result to the task. -/
theorem alone_of_mem (h : PerformsAll root policy dryRun tasks d results d') {base : Path} {ds : List Diagnostic}
    (hgrouped : Grouped base ds tasks) (hown : OwnFiles d tasks) {r : FileResult} (hr : r ∈ results) :
    ∃ t ∈ tasks, ∃ d₁, t.Performs root policy dryRun d r d₁ ∧
      d'.walk t.location.text = d₁.walk t.location.text := by
  obtain ⟨t, ht, d₂, d₃, hperforms⟩ := h.exists_task hr
  obtain ⟨r', hr', d₁, halone, hwalk⟩ := h.alone hown t ht
  have hpath : r'.path = r.path := by rw [halone.path_eq, hperforms.path_eq]
  have heq : r' = r := h.eq_of_location_eq hgrouped hr' hr (by rw [hpath])
  exact ⟨t, ht, d₁, heq ▸ halone, hwalk⟩

end PerformsAll

end TypeIgnore
