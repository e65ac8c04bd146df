import TypeIgnore.Tree.Disk

/-!
# Replaced files

* `Disk.withFile` — a disk on which the file at a location has another content;
* `Disk.replace_cases` — replacing a file fails and leaves the disk as it was, whichever step goes wrong, or it puts the
  new content in the file's place and does nothing else;
* `Disk.walk_withFile` — paths lead to where they led once a file has another content, so that every other file is read
  as before (`Disk.read_withFile`);
* `Disk.fileAt?` — the file that a path leads to.
-/

namespace TypeIgnore

/-! ## Files with another content -/

/-- The place, with the content `bytes` if it is the file at `loc`. -/
def Place.withBytes (loc : Location) (bytes : List UInt8) : Place → Place
  | .file l old => if l = loc then .file l bytes else .file l old
  | place => place

namespace Tree

variable {t : Tree} {here loc : Location} {pieces : List Text} {old bytes : List UInt8}

/-- A path that leads to a file leads to where it stands. -/
theorem node?_of_walk (h : t.walk here pieces = .ok (.file loc bytes)) :
    t.node? loc = some (.file bytes) ∧ ∃ dir name, loc = dir ++ [name] := by
  induction pieces generalizing here with
  | nil => cases h
  | cons piece pieces ih =>
    unfold walk at h
    split at h
    · exact ih h
    split at h
    · exact ih h
    split at h
    · cases h
    split at h
    · exact ih h
    · rename_i hnode
      split at h <;> cases h
      exact ⟨hnode, here, piece, rfl⟩
    · split at h <;> cases h

/-- Another content for a file changes that file and nothing else. -/
theorem node?_put_file (hold : t.node? loc = some (.file old)) (bytes : List UInt8) (l : Location) :
    (t.put (.file bytes) loc).node? l = if l = loc then some (.file bytes) else t.node? l := by
  by_cases hl : l = loc
  · rw [if_pos hl, hl]
    have hne : loc ≠ [] := by
      rintro rfl
      simp at hold
    obtain ⟨dir, name, rfl⟩ : ∃ dir name, loc = dir ++ [name] :=
      ⟨loc.dropLast, loc.getLast hne, (List.dropLast_concat_getLast hne).symm⟩
    have hdir : t.node? dir = some .directory := node?_of_append_singleton hold
    exact node?_put_self _ hdir
  · rw [if_neg hl]
    exact node?_put_of_ne _ hl (by simp [hold])

/-- Another content for a file leaves every way as it was. -/
theorem walk_put_file (hold : t.node? loc = some (.file old)) (bytes : List UInt8) (here : Location)
    (pieces : List Text) :
    (t.put (.file bytes) loc).walk here pieces = (t.walk here pieces).map (Place.withBytes loc bytes) := by
  induction pieces generalizing here with
  | nil => rfl
  | cons piece pieces ih =>
    unfold walk
    rw [node?_put_file hold]
    split
    · exact ih here
    split
    · exact ih here.dropLast
    split
    · rfl
    by_cases hl : here ++ [piece] = loc
    · -- the way ends at the file, or it is none
      simp only [hl, hold, if_true]
      split <;> simp [Except.map, Place.withBytes]
    · simp only [hl, if_false]
      split
      · exact ih (here ++ [piece])
      · split <;> simp [Except.map, Place.withBytes, hl]
      · split <;> rfl

end Tree

namespace Disk

variable {d : Disk} {path : Text} {loc : Location} {old bytes : List UInt8}

/-- The disk with another content for the file at a location. -/
def withFile (d : Disk) (loc : Location) (bytes : List UInt8) : Disk :=
  { d with tree := d.tree.put (.file bytes) loc }

theorem walk_eq (d : Disk) (path : Text) :
    d.walk path = (d.enter path).bind fun start => d.tree.walk start.1 start.2 := rfl

theorem node?_of_walk (h : d.walk path = .ok (.file loc bytes)) :
    d.tree.node? loc = some (.file bytes) ∧ ∃ dir name, loc = dir ++ [name] := by
  rw [walk_eq] at h
  cases hstart : d.enter path with
  | error e =>
    rw [hstart] at h
    cases h
  | ok start =>
    rw [hstart] at h
    exact Tree.node?_of_walk h

/-- Paths lead to where they led once a file has another content. -/
theorem walk_withFile (hold : d.tree.node? loc = some (.file old)) (bytes : List UInt8) (path : Text) :
    (d.withFile loc bytes).walk path = (d.walk path).map (Place.withBytes loc bytes) := by
  have hstart : (d.withFile loc bytes).enter path = d.enter path := rfl
  rw [walk_eq, walk_eq, hstart]
  cases d.enter path with
  | error e => rfl
  | ok start => exact Tree.walk_put_file hold bytes start.1 start.2

/-- The location of the file that a path leads to. -/
def fileAt? (d : Disk) (path : Text) : Option Location :=
  match d.walk path with
  | .ok (.file loc _) => some loc
  | _ => none

theorem fileAt?_of_walk (h : d.walk path = .ok (.file loc bytes)) : d.fileAt? path = some loc := by
  simp [fileAt?, h]

theorem exists_walk_of_fileAt? (h : d.fileAt? path = some loc) : ∃ bytes, d.walk path = .ok (.file loc bytes) := by
  unfold fileAt? at h
  split at h
  · rename_i l bytes hwalk
    cases h
    exact ⟨bytes, hwalk⟩
  · cases h

theorem fileAt?_withFile (hold : d.tree.node? loc = some (.file old)) (bytes : List UInt8) (path : Text) :
    (d.withFile loc bytes).fileAt? path = d.fileAt? path := by
  unfold fileAt?
  rw [walk_withFile hold]
  cases d.walk path with
  | error e => rfl
  | ok place =>
    cases place with
    | directory l => rfl
    | vacant parent name => rfl
    | file l content => by_cases hl : l = loc <;> simp [Except.map, Place.withBytes, hl]

/-- The paths of other files lead to what they led to. -/
theorem walk_withFile_of_ne (hold : d.tree.node? loc = some (.file old)) (bytes : List UInt8)
    (hother : d.fileAt? path ≠ some loc) : (d.withFile loc bytes).walk path = d.walk path := by
  rw [walk_withFile hold]
  cases hplace : d.walk path with
  | error e => rfl
  | ok place =>
    cases place with
    | directory l => rfl
    | vacant parent name => rfl
    | file l content =>
      have hl : l ≠ loc := by
        rintro rfl
        exact hother (fileAt?_of_walk hplace)
      simp [Except.map, Place.withBytes, hl]

/-- Every other file is read as before. -/
theorem read_withFile (hold : d.tree.node? loc = some (.file old)) (bytes : List UInt8)
    (hother : d.fileAt? path ≠ some loc) : (d.withFile loc bytes).read path = d.read path := by
  have hpass : (d.withFile loc bytes).pass path .read = d.pass path .read := rfl
  unfold read
  rw [hpass, walk_withFile_of_ne hold bytes hother]

/-! ## The steps of a replacement -/

theorem inspect_eq_ok {place : Place} (h : d.inspect path = .ok place) : d.walk path = .ok place := by
  unfold inspect at h
  cases hpass : d.pass path .inspect with
  | error e =>
    rw [hpass] at h
    cases h
  | ok u =>
    rw [hpass] at h
    cases hwalk : d.walk path with
    | error e =>
      rw [hwalk] at h
      cases h
    | ok found =>
      rw [hwalk] at h
      cases found <;> cases h <;> rfl

/-- A new file is made where nothing stands. -/
theorem create_eq_ok {dir : Location} (h : d.create path dir = .ok loc) :
    (∃ name, loc = dir ++ [name]) ∧ d.tree.node? loc = none := by
  unfold create at h
  cases hpass : d.pass path .create with
  | error e =>
    rw [hpass] at h
    cases h
  | ok u =>
    rw [hpass] at h
    simp only [bind, Except.bind] at h
    split at h
    · rename_i name hname
      cases h
      exact ⟨⟨name, rfl⟩, by simpa using List.find?_some hname⟩
    · cases h

@[simp] theorem withFile_withFile (d : Disk) (loc : Location) (first second : List UInt8) :
    (d.withFile loc first).withFile loc second = d.withFile loc second := by
  simp [withFile, Tree.put_put]

/-- Writing fails with some content in the file, or the file gets its content. -/
theorem fill_cases (d : Disk) (path : Text) (loc : Location) (first bytes : List UInt8) :
    (∃ e part, (d.withFile loc first).fill path loc bytes = (.error e, d.withFile loc part)) ∨
      (d.withFile loc first).fill path loc bytes = (.ok (), d.withFile loc bytes) := by
  unfold fill
  split
  · rename_i fault _
    exact .inl ⟨_, _, congrArg (Prod.mk _) (withFile_withFile d loc first _)⟩
  split
  · exact .inl ⟨_, first, rfl⟩
  · exact .inr (congrArg (Prod.mk _) (withFile_withFile d loc first bytes))

/-- A file that nothing stood in the way of is renamed to the file that it replaces. -/
theorem rename_eq_ok {beside : Location} {place : Place} {d' : Disk} (hwalk : d.walk path = .ok place)
    (hbeside : (∃ name, beside = place.holder ++ [name]) ∧ d.tree.node? beside = none)
    (h : (d.withFile beside bytes).rename path beside place = .ok d') :
    ∃ loc old, place = .file loc old ∧ d' = d.withFile loc bytes := by
  obtain ⟨⟨name, rfl⟩, hfree⟩ := hbeside
  unfold rename at h
  cases hpass : (d.withFile (place.holder ++ [name]) bytes).pass path .rename with
  | error e =>
    rw [hpass] at h
    cases h
  | ok u =>
    rw [hpass] at h
    simp only [bind, Except.bind] at h
    split at h
    · rename_i loc old content hcontent
      cases h
      -- the directory of the old file is there, so what was written beside it can be read
      obtain ⟨hnode, dir, last, rfl⟩ := node?_of_walk hwalk
      have hholder : (Place.file (dir ++ [last]) old).holder = dir := by simp [Place.holder]
      rw [hholder] at hcontent hfree ⊢
      have hdir : d.tree.node? dir = some .directory := Tree.node?_of_append_singleton hnode
      have hput : (d.tree.put (.file bytes) (dir ++ [name])).node? (dir ++ [name]) = some (.file bytes) :=
        Tree.node?_put_self _ hdir
      have hbytes : content = bytes := by
        simp only [withFile, Tree.bytes?, hput, Option.some.injEq] at hcontent
        exact hcontent.symm
      refine ⟨dir ++ [last], old, rfl, ?_⟩
      simp [withFile, hbytes, Tree.remove_put _ hfree]
    · cases h
    · cases h

/-- A file that is not put in place leaves the disk with nothing but itself. -/
theorem install_cases {beside : Location} {place : Place} (hwalk : d.walk path = .ok place)
    (hbeside : (∃ name, beside = place.holder ++ [name]) ∧ d.tree.node? beside = none) (first bytes : List UInt8) :
    (∃ e part, (d.withFile beside first).install path beside place bytes = (.error e, d.withFile beside part)) ∨
      ∃ loc old, place = .file loc old ∧
        (d.withFile beside first).install path beside place bytes = (.ok (), d.withFile loc bytes) := by
  unfold install
  rcases fill_cases d path beside first bytes with ⟨e, part, hfill⟩ | hfill
  · rw [hfill]
    exact .inl ⟨e, part, rfl⟩
  · rw [hfill]
    simp only
    cases hpermit : (d.withFile beside bytes).pass path .permit with
    | error e => exact .inl ⟨e, bytes, rfl⟩
    | ok u =>
      cases hrename : (d.withFile beside bytes).rename path beside place with
      | error e =>
        left
        exact ⟨e, bytes, rfl⟩
      | ok d' =>
        right
        obtain ⟨loc, old, hplace, rfl⟩ := rename_eq_ok hwalk hbeside hrename
        exact ⟨loc, old, hplace, rfl⟩

/-- **A file is replaced or the disk is left as it was,** whichever step goes wrong. -/
theorem replace_cases (d : Disk) (path : Text) (bytes : List UInt8) :
    (∃ e, d.replace path bytes = (.error e, d)) ∨
      ∃ loc old, d.walk path = .ok (.file loc old) ∧ d.replace path bytes = (.ok (), d.withFile loc bytes) := by
  unfold replace
  cases hinspect : d.inspect path with
  | error e => exact .inl ⟨e, rfl⟩
  | ok place =>
    have hwalk := inspect_eq_ok hinspect
    simp only
    cases hcreate : d.create path place.holder with
    | error e => exact .inl ⟨e, rfl⟩
    | ok beside =>
      have hbeside := create_eq_ok hcreate
      have hmade : { d with tree := d.tree.put (.file []) beside } = d.withFile beside [] := rfl
      simp only [hmade]
      rcases install_cases hwalk hbeside [] bytes with ⟨e, part, hfailed⟩ | ⟨loc, old, rfl, hdone⟩
      · left
        refine ⟨e, ?_⟩
        rw [hfailed]
        simp [withFile, Tree.remove_put _ hbeside.2]
      · right
        exact ⟨loc, old, hwalk, by rw [hdone]⟩

end Disk

end TypeIgnore
