import TypeIgnore.Run.Notice
import TypeIgnore.Glob.Expression
import TypeIgnore.Path.Basic
import TypeIgnore.Tree.Access

/-!
# Scopes

The files whose diagnostics a run may act on: those that selectors name, or all if there is no selector, without
those that an exclusion matches.

* `Selectors` — files and directories, modules, packages and globs;
* `Scope.contains` — whether a reported path is in the scope;
* `resolveScope` — the scope of selectors. A selector that names nothing is told of and adds nothing.
-/

namespace TypeIgnore

structure Selectors where
  /-- Files or directories. -/
  paths : List Text := []
  /-- Names with dots. -/
  modules : List Text := []
  /-- Names with dots, for every source below them. -/
  packages : List Text := []
  /-- Matched with paths from the root on. -/
  globs : List Text := []
  deriving DecidableEq, Repr

def Selectors.isEmpty (s : Selectors) : Bool :=
  s.paths.isEmpty && s.modules.isEmpty && s.packages.isEmpty && s.globs.isEmpty

structure Scope where
  root : Path
  /-- `none` without selectors. -/
  selected : Option (List Path)
  exclude : List Glob

namespace Scope

/-- Everything. -/
def all (root : Path) : Scope := ⟨root.normalize, none, []⟩

def contains (s : Scope) (p : ReportPath) : Bool :=
  let path := absolutize s.root p
  let excluded := (s.root.below? path).any fun rest => coversAny s.exclude rest.text
  !excluded && s.selected.all (·.contains path)

/-- How many files are selected. -/
def selectedCount (s : Scope) : Option Nat := s.selected.map (·.length)

end Scope

/-! ## Globs -/

/-- Which globs cannot be used. -/
inductive GlobRole
  | exclude
  | selector
  deriving DecidableEq, Repr

def GlobRole.text : GlobRole → Text
  | .exclude => "exclude"
  | .selector => "selector"

/-- Why globs cannot be used. -/
inductive GlobListError
  /-- A text among them is no glob. -/
  | invalid (e : GlobError)
  | tooDeep (e : DepthError)
  deriving DecidableEq, Repr

def GlobListError.message : GlobListError → Text
  | .invalid e => "invalid glob: " ++ e.glob ++ ": " ++ e.message
  | .tooDeep e => e.message

structure ScopeError where
  role : GlobRole
  error : GlobListError
  deriving DecidableEq, Repr

def ScopeError.message (e : ScopeError) : Text :=
  "compile " ++ e.role.text ++ " globset: " ++ e.error.message

def readGlobs (role : GlobRole) (texts : List Text) : Except ScopeError (List Glob) := do
  let globs ← (texts.mapM Glob.ofText).mapError fun e => ⟨role, .invalid e⟩
  (compileGlobs globs).mapError fun e => ⟨role, .tooDeep e⟩

/-! ## Selectors -/

/-- The way to a module or package: dots at the ends go, the others become slashes. -/
def dottedPath (name : Text) : Text :=
  (Text.spanEnd (· == '.') (name.dropWhile (· == '.'))).1.map fun c => if c = '.' then '/' else c

/-- Where the module of this way can be, from the directory `base`. -/
def moduleFiles (base way : Text) : List Text :=
  let package := joinText base way
  [joinText base (way ++ ".py"), joinText base (way ++ ".pyi"),
    joinText package "__init__.py", joinText package "__init__.pyi"]

def isSourceName (path : Text) : Bool :=
  (Path.ofText path).extension?.any fun (ext : Text) => ext == "py" || ext == "pyi"

/-- Files that a selector names, with what is told of it. -/
structure Found where
  notices : List Notice := []
  files : List Text := []

def Found.append (a b : Found) : Found := ⟨a.notices ++ b.notices, a.files ++ b.files⟩

/-- `files`, or a warning if there are none. -/
def Found.orWarn (files : List Text) (warning : Text) : Found :=
  ⟨if files.isEmpty then [.log ⟨.warn, .scope, warning⟩] else [], files⟩

section Resolve

variable {m : Type → Type} [Monad m] [FileAccess m]

/-- The sources below a directory. -/
def sourcesBelow (directory : Text) : m (List Text) := do
  return (← FileAccess.filesBelow directory).filter isSourceName

def findPath (root : Path) (selector : Text) : m Found := do
  let path := (absolutize root (.ofText selector)).text
  if ← FileAccess.isFile path then
    return { files := [path] }
  else if ← FileAccess.isDirectory path then
    return .orWarn (← sourcesBelow path) ("no Python sources under " ++ selector)
  else
    return .orWarn [] ("path selector " ++ selector ++ " does not exist")

def findModule (bases : List Text) (name : Text) : m Found := do
  let files ← (bases.flatMap (moduleFiles · (dottedPath name))).filterM FileAccess.isFile
  return .orWarn files ("module " ++ name ++ " not found under the root or search paths")

def findPackage (bases : List Text) (name : Text) : m Found := do
  let directories ← (bases.map (joinText · (dottedPath name))).filterM FileAccess.isDirectory
  return .orWarn (← directories.mapM sourcesBelow).flatten
    ("package " ++ name ++ " not found under the root or search paths")

def findGlobs (root : Path) (globs : List Glob) : m Found := do
  let matching (file : Text) : Bool :=
    (root.below? (.ofText file)).any fun rest => coversAny globs rest.text
  return .orWarn ((← sourcesBelow root.text).filter matching) "glob selectors matched no Python sources"

/-- The scope of selectors under `root`, and what is told of them. -/
def resolveScope (root : Path) (searchPaths : List Text) (selectors : Selectors) (exclude : List Text) :
    m (List Notice × Except ScopeError Scope) := do
  let root := root.normalize
  match readGlobs .exclude exclude with
  | .error e => return ([], .error e)
  | .ok exclude =>
    if selectors.isEmpty then
      return ([], .ok ⟨root, none, exclude⟩)
    let bases := (root :: searchPaths.map fun p => (root.join (.ofText p)).normalize).map (·.text)
    let named := (← selectors.paths.mapM (findPath root)) ++ (← selectors.modules.mapM (findModule bases)) ++
      (← selectors.packages.mapM (findPackage bases))
    let found := named.foldl Found.append {}
    match readGlobs .selector selectors.globs with
    | .error e => return (found.notices, .error e)
    | .ok globs =>
      let matching ← if selectors.globs.isEmpty then pure {} else findGlobs root globs
      let found := found.append matching
      let selected := (found.files.map Path.ofText).eraseDups
      let resolved := Notice.log ⟨.debug, .scope, "resolved " ++ Text.ofNat selected.length ++ " file(s) in scope"⟩
      return (found.notices ++ [resolved], .ok ⟨root, some selected, exclude⟩)

end Resolve

end TypeIgnore
