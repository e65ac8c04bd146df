import TypeIgnore.Proofs.Tree.Replacement
import TypeIgnore.Run.Basic
import Mathlib.Control.Basic

/-!
# Programs on a disk

* `OnDisk.ReadsOnly x` — the program `x` leaves every disk as it was. Programs made of such programs are such programs,
  and so is all that a run does before its tasks (`readsOnly_planRun`);
* `Disk.source` — the text of a source; another file's new content does not change it (`source_withFile`);
* `Disk.run_writeSource_cases` — a source is written or the disk is left as it was.
-/

namespace TypeIgnore

namespace OnDisk

variable {α β : Type} {x : OnDisk α} {d d' : Disk}

theorem run_bind_of {a : α} (f : α → OnDisk β) (h : x.run d = (a, d')) : (x >>= f).run d = (f a).run d' := by
  rw [StateT.run_bind, h]
  rfl

/-! ## Programs that change nothing -/

/-- The program leaves every disk as it was. -/
def ReadsOnly (x : OnDisk α) : Prop := ∀ d, (x.run d).2 = d

theorem ReadsOnly.run_eq (h : ReadsOnly x) (d : Disk) : x.run d = ((x.run d).1, d) := Prod.ext rfl (h d)

theorem readsOnly_pure (a : α) : ReadsOnly (pure a) := fun _ => rfl

theorem ReadsOnly.bind (h : ReadsOnly x) {f : α → OnDisk β} (hf : ∀ a, ReadsOnly (f a)) : ReadsOnly (x >>= f) := by
  intro d
  rw [run_bind_of f (h.run_eq d)]
  exact hf _ d

theorem readsOnly_mapM {f : α → OnDisk β} (hf : ∀ a, ReadsOnly (f a)) (l : List α) : ReadsOnly (l.mapM f) := by
  induction l with
  | nil => exact readsOnly_pure []
  | cons a l ih =>
    rw [List.mapM_cons]
    exact (hf a).bind fun b => ih.bind fun bs => readsOnly_pure (b :: bs)

theorem readsOnly_filterM {f : α → OnDisk Bool} (hf : ∀ a, ReadsOnly (f a)) (l : List α) :
    ReadsOnly (l.filterM f) := by
  unfold List.filterM
  refine ReadsOnly.bind ?_ fun kept => readsOnly_pure kept.reverse
  generalize ([] : List α) = kept
  induction l generalizing kept with
  | nil => exact readsOnly_pure kept
  | cons a l ih =>
    unfold List.filterAuxM
    exact (hf a).bind fun b => ih _

theorem readsOnly_read (path : Text) : ReadsOnly (FileAccess.read path) := fun _ => rfl

theorem readsOnly_isFile (path : Text) : ReadsOnly (FileAccess.isFile path) := fun _ => rfl

theorem readsOnly_isDirectory (path : Text) : ReadsOnly (FileAccess.isDirectory path) := fun _ => rfl

theorem readsOnly_filesBelow (path : Text) : ReadsOnly (FileAccess.filesBelow path) := fun _ => rfl

/-! ## Before the tasks -/

theorem readsOnly_readReport (source : ReportSource) : ReadsOnly (readReport source) := by
  cases source with
  | given bytes => exact readsOnly_pure _
  | file path =>
    refine (readsOnly_read path).bind fun result => ?_
    cases result <;> exact readsOnly_pure _

theorem readsOnly_sourcesBelow (directory : Text) : ReadsOnly (sourcesBelow directory) :=
  (readsOnly_filesBelow directory).bind fun _ => readsOnly_pure _

theorem readsOnly_findPath (root : Path) (selector : Text) : ReadsOnly (findPath root selector) := by
  refine (readsOnly_isFile _).bind fun isFile => ?_
  split
  · exact readsOnly_pure _
  · refine (readsOnly_isDirectory _).bind fun isDirectory => ?_
    split
    · exact (readsOnly_sourcesBelow _).bind fun _ => readsOnly_pure _
    · exact readsOnly_pure _

theorem readsOnly_findModule (bases : List Text) (name : Text) : ReadsOnly (findModule bases name) :=
  (readsOnly_filterM readsOnly_isFile _).bind fun _ => readsOnly_pure _

theorem readsOnly_findPackage (bases : List Text) (name : Text) : ReadsOnly (findPackage bases name) :=
  (readsOnly_filterM readsOnly_isDirectory _).bind fun _ =>
    (readsOnly_mapM readsOnly_sourcesBelow _).bind fun _ => readsOnly_pure _

theorem readsOnly_findGlobs (root : Path) (globs : List Glob) : ReadsOnly (findGlobs root globs) :=
  (readsOnly_sourcesBelow _).bind fun _ => readsOnly_pure _

theorem readsOnly_resolveScope (root : Path) (searchPaths : List Text) (selectors : Selectors) (exclude : List Text) :
    ReadsOnly (resolveScope root searchPaths selectors exclude) := by
  unfold resolveScope
  simp only
  split
  · exact readsOnly_pure _
  split
  · exact readsOnly_pure _
  refine (readsOnly_mapM (readsOnly_findPath _) _).bind fun paths => ?_
  refine (readsOnly_mapM (readsOnly_findModule _) _).bind fun modules => ?_
  refine (readsOnly_mapM (readsOnly_findPackage _) _).bind fun packages => ?_
  split
  · exact readsOnly_pure _
  split
  · exact (readsOnly_pure _).bind fun _ => readsOnly_pure _
  · exact (readsOnly_findGlobs _ _).bind fun _ => readsOnly_pure _

/-- **A run looks at settings, report and selectors without touching anything.** -/
theorem readsOnly_planRun (input : RunInput) : ReadsOnly (planRun input) := by
  unfold planRun
  split
  · exact readsOnly_pure _
  refine (readsOnly_readReport _).bind fun report => ?_
  split
  · exact readsOnly_pure _
  · exact (readsOnly_resolveScope _ _ _ _).bind fun _ => readsOnly_pure _

end OnDisk

/-! ## Sources -/

namespace Disk

variable {d : Disk} {path text : Text} {loc : Location} {old bytes : List UInt8}

/-- The text of a source. -/
def source (d : Disk) (path : Text) : Except SourceError Text := ((readSource path : OnDisk _).run d).1

theorem run_readSource (d : Disk) (path : Text) : (readSource path : OnDisk _).run d = (d.source path, d) := by
  refine OnDisk.ReadsOnly.run_eq ?_ d
  refine (OnDisk.readsOnly_read path).bind fun result => ?_
  split <;> exact OnDisk.readsOnly_pure _

theorem source_eq (d : Disk) (path : Text) :
    d.source path =
      match readText (d.read path) with
      | .ok text => .ok text
      | .error (.os e) => .error (.ofOs path e)
      | .error .notUtf8 => .error ⟨path, .encoding⟩ := by
  have hread : (FileAccess.read path : OnDisk _).run d = (d.read path, d) := rfl
  rw [source, readSource, OnDisk.run_bind_of _ hread]
  cases readText (d.read path) with
  | ok text => rfl
  | error e => cases e <;> rfl

theorem read_eq_ok (h : d.read path = .ok bytes) : ∃ loc, d.walk path = .ok (.file loc bytes) := by
  unfold read at h
  cases hpass : d.pass path .read with
  | error e =>
    rw [hpass] at h
    cases h
  | ok u =>
    rw [hpass] at h
    cases hwalk : d.walk path with
    | error e =>
      rw [hwalk] at h
      cases h
    | ok place =>
      rw [hwalk] at h
      cases place with
      | directory loc => cases h
      | vacant parent name => cases h
      | file loc content =>
        cases h
        exact ⟨loc, rfl⟩

/-- A source that can be read is a file of UTF-8 text. -/
theorem source_eq_ok (h : d.source path = .ok text) :
    ∃ loc bytes, d.walk path = .ok (.file loc bytes) ∧ Utf8.decode? bytes = some text := by
  rw [source_eq] at h
  cases hread : d.read path with
  | error e =>
    rw [hread] at h
    cases h
  | ok bytes =>
    obtain ⟨loc, hwalk⟩ := read_eq_ok hread
    refine ⟨loc, bytes, hwalk, ?_⟩
    rw [hread] at h
    cases hdecode : Utf8.decode? bytes with
    | none => simp [readText, hdecode] at h
    | some t => simpa [readText, hdecode] using h

/-- Every other source has the text that it had. -/
theorem source_withFile (hold : d.tree.node? loc = some (.file old)) (bytes : List UInt8)
    (hother : d.fileAt? path ≠ some loc) : (d.withFile loc bytes).source path = d.source path := by
  rw [source_eq, source_eq, read_withFile hold bytes hother]

/-- A source is written, or the disk is left as it was. -/
theorem run_writeSource_cases (d : Disk) (path text : Text) :
    (∃ e, (writeSource path text : OnDisk _).run d = (.error e, d)) ∨
      ∃ loc old, d.walk path = .ok (.file loc old) ∧
        (writeSource path text : OnDisk _).run d = (.ok (), d.withFile loc (Utf8.encode text)) := by
  have hrun : (writeSource path text : OnDisk _).run d =
      ((d.replace path (Utf8.encode text)).1.mapError (.ofOs path), (d.replace path (Utf8.encode text)).2) := rfl
  rcases d.replace_cases path (Utf8.encode text) with ⟨e, h⟩ | ⟨loc, old, hwalk, h⟩
  · exact .inl ⟨.ofOs path e, by rw [hrun, h]; rfl⟩
  · exact .inr ⟨loc, old, hwalk, by rw [hrun, h]; rfl⟩

end Disk

end TypeIgnore
