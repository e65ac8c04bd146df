import TypeIgnore.Proofs.Tree.Programs

/-!
# What a run plans

Before the first file is touched a run reads its settings, its report and its selectors. This module says what comes of
them without the programs that read them.

* `OnDisk.run_mapM`, `OnDisk.run_filterM` — programs that only read, one after the other;
* `Selectors.Names` — the files that selectors name on a disk, one case for each kind of selector;
* `InScope` — the reported paths that are in scope, and `Scope.Resolves.contains_iff` — they are those that a resolved
  scope contains;
* `RunPlan.MadeFrom` — the parts of a plan, and `run_planRun_eq_ok_iff` — a run has a plan exactly where it has them.
-/

namespace TypeIgnore

/-! ## Reading one after the other -/

namespace OnDisk

variable {α β : Type} (d : Disk)

theorem run_mapM {f : α → OnDisk β} (hf : ∀ a, ReadsOnly (f a)) (l : List α) :
    (l.mapM f).run d = (l.map fun a => ((f a).run d).1, d) := by
  induction l with
  | nil => rfl
  | cons a l ih =>
    rw [List.mapM_cons, run_bind_of _ ((hf a).run_eq d), run_bind_of _ ih]
    rfl

theorem run_filterAuxM {f : α → OnDisk Bool} (hf : ∀ a, ReadsOnly (f a)) (l kept : List α) :
    (l.filterAuxM f kept).run d = ((l.filter fun a => ((f a).run d).1).reverse ++ kept, d) := by
  induction l generalizing kept with
  | nil => rfl
  | cons a l ih =>
    rw [List.filterAuxM, run_bind_of _ ((hf a).run_eq d), ih, List.filter_cons]
    cases ((f a).run d).1 <;> simp

theorem run_filterM {f : α → OnDisk Bool} (hf : ∀ a, ReadsOnly (f a)) (l : List α) :
    (l.filterM f).run d = (l.filter fun a => ((f a).run d).1, d) := by
  rw [List.filterM, run_bind_of _ (run_filterAuxM d hf l []), List.append_nil]
  exact congrArg (·, d) (List.reverse_reverse _)

end OnDisk

/-! ## Selectors -/

/-- A source that stands below a directory. -/
def Disk.HasSource (d : Disk) (directory file : Text) : Prop :=
  file ∈ d.filesBelow directory ∧ isSourceName file = true

/-- The selectors name a file on the disk `d`. Paths and globs start at `root`; modules and packages are looked for in
the directories `bases`. -/
inductive Selectors.Names (s : Selectors) (d : Disk) (root : Path) (bases : List Text) (globs : List Glob) :
    Text → Prop
  /-- A path that leads to the file. -/
  | file {selector : Text} (hselector : selector ∈ s.paths)
      (hfile : d.isFile (absolutize root (.ofText selector)).text = true) :
      Names s d root bases globs (absolutize root (.ofText selector)).text
  /-- A path that leads to a directory above it. -/
  | directory {selector file : Text} (hselector : selector ∈ s.paths)
      (hsource : d.HasSource (absolutize root (.ofText selector)).text file) : Names s d root bases globs file
  | moduleName {name base file : Text} (hname : name ∈ s.modules) (hbase : base ∈ bases)
      (hmodule : file ∈ moduleFiles base (dottedPath name)) (hfile : d.isFile file = true) :
      Names s d root bases globs file
  | packageName {name base file : Text} (hname : name ∈ s.packages) (hbase : base ∈ bases)
      (hsource : d.HasSource (joinText base (dottedPath name)) file) : Names s d root bases globs file
  | glob {file : Text} {rest : Path} (hsource : d.HasSource root.text file)
      (hrest : root.below? (.ofText file) = some rest) (hcovers : coversAny globs rest.text = true) :
      Names s d root bases globs file

section Found

variable {d : Disk} {root : Path} {file : Text}

/-- Only a directory has files below it. -/
theorem Disk.isDirectory_of_mem_filesBelow {path : Text} (h : file ∈ d.filesBelow path) :
    d.isDirectory path = true := by
  unfold Disk.filesBelow at h
  unfold Disk.isDirectory
  split at h
  · rfl
  · cases h

theorem Disk.filesBelow_of_not_isDirectory {path : Text} (h : d.isDirectory path = false) : d.filesBelow path = [] :=
  List.eq_nil_iff_forall_not_mem.2 fun _ hmem =>
    Bool.false_ne_true (h.symm.trans (isDirectory_of_mem_filesBelow hmem))

theorem Disk.isDirectory_of_isFile {path : Text} (h : d.isFile path = true) : d.isDirectory path = false := by
  unfold Disk.isFile at h
  unfold Disk.isDirectory
  split at h
  · rename_i hwalk
    rw [hwalk]
  · cases h

theorem run_sourcesBelow (d : Disk) (directory : Text) :
    (sourcesBelow directory : OnDisk _).run d = ((d.filesBelow directory).filter isSourceName, d) := rfl

theorem Disk.hasSource_iff {directory : Text} :
    d.HasSource directory file ↔ file ∈ (d.filesBelow directory).filter isSourceName :=
  List.mem_filter.symm

theorem mem_findPath {selector : Text} :
    file ∈ ((findPath root selector : OnDisk _).run d).1.files ↔
      (file = (absolutize root (.ofText selector)).text ∧ d.isFile file = true) ∨
        d.HasSource (absolutize root (.ofText selector)).text file := by
  unfold findPath
  simp only
  generalize (absolutize root (.ofText selector)).text = path
  have hisFile : (FileAccess.isFile path : OnDisk _).run d = (d.isFile path, d) := rfl
  have hisDirectory : (FileAccess.isDirectory path : OnDisk _).run d = (d.isDirectory path, d) := rfl
  rw [OnDisk.run_bind_of _ hisFile, Disk.hasSource_iff]
  cases hfile : d.isFile path with
  | true =>
    rw [if_pos rfl, Disk.filesBelow_of_not_isDirectory (Disk.isDirectory_of_isFile hfile)]
    refine List.mem_singleton.trans ⟨fun h => .inl ⟨h, h ▸ hfile⟩, ?_⟩
    rintro (⟨h, -⟩ | h)
    · exact h
    · cases h
  | false =>
    have hnot : ¬(file = path ∧ d.isFile file = true) := by
      rintro ⟨rfl, h⟩
      exact Bool.false_ne_true (hfile.symm.trans h)
    rw [if_neg Bool.false_ne_true, OnDisk.run_bind_of _ hisDirectory, or_iff_right hnot]
    cases hdirectory : d.isDirectory path with
    | true =>
      rw [if_pos rfl, OnDisk.run_bind_of _ (run_sourcesBelow d path)]
      rfl
    | false =>
      rw [if_neg Bool.false_ne_true, Disk.filesBelow_of_not_isDirectory hdirectory]
      rfl

theorem mem_findModule {bases : List Text} {name : Text} :
    file ∈ ((findModule bases name : OnDisk _).run d).1.files ↔
      ∃ base ∈ bases, file ∈ moduleFiles base (dottedPath name) ∧ d.isFile file = true := by
  unfold findModule
  rw [OnDisk.run_bind_of _ (OnDisk.run_filterM d OnDisk.readsOnly_isFile _)]
  refine List.mem_filter.trans ?_
  rw [List.mem_flatMap]
  constructor
  · rintro ⟨⟨base, hbase, hmodule⟩, hfile⟩
    exact ⟨base, hbase, hmodule, hfile⟩
  · rintro ⟨base, hbase, hmodule, hfile⟩
    exact ⟨⟨base, hbase, hmodule⟩, hfile⟩

theorem mem_findPackage {bases : List Text} {name : Text} :
    file ∈ ((findPackage bases name : OnDisk _).run d).1.files ↔
      ∃ base ∈ bases, d.HasSource (joinText base (dottedPath name)) file := by
  unfold findPackage
  rw [OnDisk.run_bind_of _ (OnDisk.run_filterM d OnDisk.readsOnly_isDirectory _),
    OnDisk.run_bind_of _ (OnDisk.run_mapM d OnDisk.readsOnly_sourcesBelow _)]
  refine List.mem_flatten.trans ?_
  constructor
  · rintro ⟨_, hsources, hfile⟩
    obtain ⟨_, hdirectory, rfl⟩ := List.mem_map.1 hsources
    obtain ⟨base, hbase, rfl⟩ := List.mem_map.1 (List.mem_filter.1 hdirectory).1
    exact ⟨base, hbase, Disk.hasSource_iff.2 hfile⟩
  · rintro ⟨base, hbase, hsource⟩
    have hdirectory := Disk.isDirectory_of_mem_filesBelow hsource.1
    exact ⟨_, List.mem_map.2 ⟨_, List.mem_filter.2 ⟨List.mem_map.2 ⟨base, hbase, rfl⟩, hdirectory⟩, rfl⟩,
      Disk.hasSource_iff.1 hsource⟩

theorem mem_findGlobs {globs : List Glob} :
    file ∈ ((findGlobs root globs : OnDisk _).run d).1.files ↔
      ∃ rest, d.HasSource root.text file ∧ root.below? (.ofText file) = some rest ∧
        coversAny globs rest.text = true := by
  unfold findGlobs
  rw [OnDisk.run_bind_of _ (run_sourcesBelow d root.text)]
  refine List.mem_filter.trans ?_
  rw [Disk.hasSource_iff, Option.any_eq_true]
  simp only [exists_and_left]

end Found

/-- What is found, selector after selector. -/
theorem files_foldl_append (found : List Found) (start : Found) :
    (found.foldl Found.append start).files = start.files ++ found.flatMap (·.files) := by
  induction found generalizing start with
  | nil => simp
  | cons f found ih =>
    rw [List.foldl_cons, ih, List.flatMap_cons, ← List.append_assoc]
    rfl

section Names

variable {d : Disk} {root : Path} {bases : List Text} {s : Selectors} {globs : List Glob} {file : Text}

/-- What is found for paths, modules and packages. -/
def Selectors.named (s : Selectors) (d : Disk) (root : Path) (bases : List Text) : Found :=
  ((s.paths.map fun selector => ((findPath root selector : OnDisk _).run d).1) ++
    (s.modules.map fun name => ((findModule bases name : OnDisk _).run d).1) ++
    s.packages.map fun name => ((findPackage bases name : OnDisk _).run d).1).foldl Found.append {}

/-- What is found for globs. -/
def Selectors.matching (s : Selectors) (d : Disk) (root : Path) (globs : List Glob) : Found :=
  if s.globs.isEmpty then {} else ((findGlobs root globs : OnDisk _).run d).1

theorem Selectors.mem_named :
    file ∈ (s.named d root bases).files ↔
      (∃ selector ∈ s.paths, file ∈ ((findPath root selector : OnDisk _).run d).1.files) ∨
      (∃ name ∈ s.modules, file ∈ ((findModule bases name : OnDisk _).run d).1.files) ∨
      ∃ name ∈ s.packages, file ∈ ((findPackage bases name : OnDisk _).run d).1.files := by
  rw [named, files_foldl_append]
  simp only [List.nil_append, List.flatMap_append, List.flatMap_map, List.mem_append, List.mem_flatMap, or_assoc]

theorem Selectors.mem_matching (hglobs : readGlobs .selector s.globs = .ok globs) :
    file ∈ (s.matching d root globs).files ↔ file ∈ ((findGlobs root globs : OnDisk _).run d).1.files := by
  unfold matching
  split
  · -- of no texts there are no globs, and these cover no path
    rename_i hnone
    rw [List.isEmpty_iff.1 hnone] at hglobs
    cases hglobs
    simp [mem_findGlobs, coversAny]
  · exact Iff.rfl

/-- **The files found are the files named.** -/
theorem Selectors.names_iff (hglobs : readGlobs .selector s.globs = .ok globs) :
    s.Names d root bases globs file ↔ file ∈ ((s.named d root bases).append (s.matching d root globs)).files := by
  have happend : ((s.named d root bases).append (s.matching d root globs)).files =
    (s.named d root bases).files ++ (s.matching d root globs).files := rfl
  rw [happend, List.mem_append, mem_named, mem_matching hglobs]
  simp only [mem_findPath, mem_findModule, mem_findPackage, mem_findGlobs]
  constructor
  · rintro (⟨hselector, hfile⟩ | ⟨hselector, hsource⟩ | ⟨hname, hbase, hmodule, hfile⟩ | ⟨hname, hbase, hsource⟩ |
      ⟨hsource, hrest, hcovers⟩)
    · exact .inl (.inl ⟨_, hselector, .inl ⟨rfl, hfile⟩⟩)
    · exact .inl (.inl ⟨_, hselector, .inr hsource⟩)
    · exact .inl (.inr (.inl ⟨_, hname, _, hbase, hmodule, hfile⟩))
    · exact .inl (.inr (.inr ⟨_, hname, _, hbase, hsource⟩))
    · exact .inr ⟨_, hsource, hrest, hcovers⟩
  · rintro ((⟨_, hselector, ⟨rfl, hfile⟩ | hsource⟩ | ⟨_, hname, _, hbase, hmodule, hfile⟩ |
      ⟨_, hname, _, hbase, hsource⟩) | ⟨_, hsource, hrest, hcovers⟩)
    · exact .file hselector hfile
    · exact .directory hselector hsource
    · exact .moduleName hname hbase hmodule hfile
    · exact .packageName hname hbase hsource
    · exact .glob hsource hrest hcovers

end Names

/-! ## Scopes -/

/-- The directories in which modules and packages are looked for. -/
def moduleBases (root : Path) (searchPaths : List Text) : List Text :=
  (root :: searchPaths.map fun p => (root.join (.ofText p)).normalize).map (·.text)

/-- A reported path is in scope on the disk `d`: no exclusion covers it, and where there are selectors they name it. -/
structure InScope (d : Disk) (root : Path) (searchPaths : List Text) (selectors : Selectors) (exclude : List Text)
    (p : ReportPath) : Prop where
  notExcluded : ∀ globs rest, readGlobs .exclude exclude = .ok globs →
    root.normalize.below? (absolutize root.normalize p) = some rest → coversAny globs rest.text = false
  selected : selectors.isEmpty = false → ∃ globs file, readGlobs .selector selectors.globs = .ok globs ∧
    selectors.Names d root.normalize (moduleBases root.normalize searchPaths) globs file ∧
    Path.ofText file = absolutize root.normalize p

/-- A scope that is what selectors and exclusions say on the disk `d`. -/
structure Scope.Resolves (d : Disk) (root : Path) (searchPaths : List Text) (selectors : Selectors)
    (exclude : List Text) (scope : Scope) : Prop where
  root_eq : scope.root = root.normalize
  exclude_eq : readGlobs .exclude exclude = .ok scope.exclude
  all : selectors.isEmpty = true → scope.selected = none
  selected : selectors.isEmpty = false → ∃ globs paths, readGlobs .selector selectors.globs = .ok globs ∧
    scope.selected = some paths ∧ ∀ path, path ∈ paths ↔
      ∃ file, selectors.Names d root.normalize (moduleBases root.normalize searchPaths) globs file ∧
        Path.ofText file = path

section Scope

variable {d : Disk} {root : Path} {searchPaths exclude : List Text} {selectors : Selectors} {told : List Notice}
  {scope : Scope}

/-- With selectors, the scope has what is found for them. -/
theorem run_resolveScope_of_selectors (d : Disk) (root : Path) (searchPaths : List Text) {excluded : List Glob}
    (hexclude : readGlobs .exclude exclude = .ok excluded) (hsome : selectors.isEmpty = false) :
    ∃ told, (resolveScope root searchPaths selectors exclude : OnDisk _).run d =
      ((told, (readGlobs .selector selectors.globs).map fun globs =>
        ⟨root.normalize, some (((selectors.named d root.normalize (moduleBases root.normalize searchPaths)).append
          (selectors.matching d root.normalize globs)).files.map Path.ofText).eraseDups, excluded⟩), d) := by
  unfold resolveScope
  simp only [hexclude, hsome]
  rw [if_neg Bool.false_ne_true, ← moduleBases,
    OnDisk.run_bind_of _ (OnDisk.run_mapM d (OnDisk.readsOnly_findPath _) _),
    OnDisk.run_bind_of _ (OnDisk.run_mapM d (OnDisk.readsOnly_findModule _) _),
    OnDisk.run_bind_of _ (OnDisk.run_mapM d (OnDisk.readsOnly_findPackage _) _), ← Selectors.named]
  cases readGlobs .selector selectors.globs with
  | error e => exact ⟨_, rfl⟩
  | ok globs =>
    simp only [Except.map, Selectors.matching]
    split
    · exact ⟨_, rfl⟩
    · rw [OnDisk.run_bind_of _ ((OnDisk.readsOnly_findGlobs _ _).run_eq d)]
      exact ⟨_, rfl⟩

theorem Scope.resolves_of_run
    (h : (resolveScope root searchPaths selectors exclude : OnDisk _).run d = ((told, .ok scope), d)) :
    scope.Resolves d root searchPaths selectors exclude := by
  cases hexclude : readGlobs .exclude exclude with
  | error e =>
    simp only [resolveScope, hexclude] at h
    cases h
  | ok excluded =>
    cases hsome : selectors.isEmpty with
    | true =>
      simp only [resolveScope, hexclude, hsome, if_true] at h
      cases h
      exact ⟨rfl, hexclude, fun _ => rfl, fun hne => absurd (hsome.symm.trans hne) (by decide)⟩
    | false =>
      obtain ⟨told', hrun⟩ := run_resolveScope_of_selectors d root searchPaths hexclude hsome
      cases hglobs : readGlobs .selector selectors.globs with
      | error e =>
        rw [hglobs] at hrun
        cases hrun.symm.trans h
      | ok globs =>
        rw [hglobs] at hrun
        cases hrun.symm.trans h
        refine ⟨rfl, hexclude, fun hall => absurd (hsome.symm.trans hall) (by decide),
          fun _ => ⟨globs, _, hglobs, rfl, fun path => ?_⟩⟩
        rw [List.mem_eraseDups, List.mem_map]
        exact exists_congr fun file => and_congr_left fun _ => (Selectors.names_iff hglobs).symm

/-- **A resolved scope contains the paths that are in scope.** -/
theorem Scope.Resolves.contains_iff (h : scope.Resolves d root searchPaths selectors exclude) (p : ReportPath) :
    scope.contains p = true ↔ InScope d root searchPaths selectors exclude p := by
  have hcontains : scope.contains p = true ↔
      (∀ rest, root.normalize.below? (absolutize root.normalize p) = some rest →
        coversAny scope.exclude rest.text = false) ∧
        scope.selected.all (·.contains (absolutize root.normalize p)) = true := by
    unfold Scope.contains
    simp only [h.root_eq, Bool.and_eq_true, Bool.not_eq_true', Option.any_eq_false]
  rw [hcontains]
  constructor
  · rintro ⟨hnot, hall⟩
    refine ⟨fun globs rest hglobs => ?_, fun hsome => ?_⟩
    · cases hglobs.symm.trans h.exclude_eq
      exact hnot rest
    · obtain ⟨globs, paths, hglobs, hselected, hmem⟩ := h.selected hsome
      rw [hselected, Option.all_some, List.contains_iff_mem, hmem] at hall
      obtain ⟨file, hnames, hfile⟩ := hall
      exact ⟨globs, file, hglobs, hnames, hfile⟩
  · rintro ⟨hnot, hnames⟩
    refine ⟨fun rest => hnot _ rest h.exclude_eq, ?_⟩
    cases hsome : selectors.isEmpty with
    | true => rw [h.all hsome, Option.all_none]
    | false =>
      obtain ⟨globs, paths, hglobs, hselected, hmem⟩ := h.selected hsome
      obtain ⟨globs', file, hglobs', hfile, hpath⟩ := hnames hsome
      cases hglobs'.symm.trans hglobs
      rw [hselected, Option.all_some, List.contains_iff_mem, hmem]
      exact ⟨file, hfile, hpath⟩

end Scope

/-! ## Plans -/

/-- The bytes of a report: as they are given, or as they stand on the disk. -/
def ReportSource.bytes (d : Disk) : ReportSource → Except OsError (List UInt8)
  | .given bytes => .ok bytes
  | .file path => d.read path

/-- What a plan is made of: the settings, the text of the report, and the scope that the selectors have on the
disk `d`. -/
structure RunPlan.MadeFrom (input : RunInput) (d : Disk) (plan : RunPlan) : Prop where
  configuration : configure input.settings input.overrides = .ok plan.configuration
  report : ∃ bytes, input.report.bytes d = .ok bytes ∧ plan.report = .ofText (Utf8.decodeLossy bytes)
  scope : ∃ told, (resolveScope (.ofText input.root) plan.configuration.searchPaths input.selectors
    plan.configuration.exclude : OnDisk _).run d = ((told, .ok plan.scope), d)

section Plan

variable {input : RunInput} {d : Disk} {source : ReportSource}

theorem run_readReport_of_ok {bytes : List UInt8} (h : source.bytes d = .ok bytes) :
    (readReport source : OnDisk _).run d = (.ok (.ofText (Utf8.decodeLossy bytes)), d) := by
  cases source with
  | given bytes' =>
    cases h
    rfl
  | file path =>
    have hread : (FileAccess.read path : OnDisk _).run d = (.ok bytes, d) := congrArg (·, d) h
    rw [readReport, OnDisk.run_bind_of _ hread]
    rfl

theorem run_readReport_of_error {e : OsError} (h : source.bytes d = .error e) :
    ∃ path, (readReport source : OnDisk _).run d = (.error (.report path e), d) := by
  cases source with
  | given bytes => cases h
  | file path =>
    have hread : (FileAccess.read path : OnDisk _).run d = (.error e, d) := congrArg (·, d) h
    rw [readReport, OnDisk.run_bind_of _ hread]
    exact ⟨path, rfl⟩

/-- A plan from its parts, with what is told of them. -/
theorem run_planRun_of {configuration : Configuration} {bytes : List UInt8} {told : List Notice}
    {scope : Except ScopeError Scope} (hconfigure : configure input.settings input.overrides = .ok configuration)
    (hbytes : input.report.bytes d = .ok bytes)
    (hscope : (resolveScope (.ofText input.root) configuration.searchPaths input.selectors configuration.exclude :
      OnDisk _).run d = ((told, scope), d)) :
    let report := Report.ofText (Utf8.decodeLossy bytes)
    (planRun input : OnDisk _).run d =
      ((malformedNotices report ++ (codeWarnings report configuration.policy).map .warning ++ told,
        (scope.mapError .scope).map fun scope => { configuration, report, scope }), d) := by
  intro report
  rw [planRun, hconfigure]
  simp only
  rw [OnDisk.run_bind_of _ (run_readReport_of_ok hbytes)]
  simp only
  rw [OnDisk.run_bind_of _ hscope]
  cases scope <;> rfl

/-- **A run has a plan exactly where it has the parts of one.** -/
theorem run_planRun_eq_ok_iff {plan : RunPlan} :
    (∃ told, (planRun input : OnDisk _).run d = ((told, .ok plan), d)) ↔ plan.MadeFrom input d := by
  constructor
  · rintro ⟨told, h⟩
    cases hconfigure : configure input.settings input.overrides with
    | error e =>
      rw [planRun, hconfigure] at h
      cases h
    | ok configuration =>
      cases hbytes : input.report.bytes d with
      | error e =>
        obtain ⟨path, hreport⟩ := run_readReport_of_error hbytes
        rw [planRun, hconfigure] at h
        simp only at h
        rw [OnDisk.run_bind_of _ hreport] at h
        cases h
      | ok bytes =>
        obtain ⟨⟨told', scope⟩, hscope⟩ : ∃ result, (resolveScope (.ofText input.root) configuration.searchPaths
            input.selectors configuration.exclude : OnDisk _).run d = (result, d) :=
          ⟨_, (OnDisk.readsOnly_resolveScope _ _ _ _).run_eq d⟩
        have hplan := (run_planRun_of hconfigure hbytes hscope).symm.trans h
        cases scope with
        | error e => cases hplan
        | ok scope =>
          cases hplan
          exact ⟨hconfigure, ⟨bytes, hbytes, rfl⟩, told', hscope⟩
  · rintro ⟨hconfigure, ⟨bytes, hbytes, hreport⟩, told, hscope⟩
    have hplan := run_planRun_of hconfigure hbytes hscope
    simp only [← hreport] at hplan
    exact ⟨_, hplan⟩

end Plan

end TypeIgnore
