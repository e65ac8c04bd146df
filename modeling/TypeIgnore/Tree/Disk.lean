import TypeIgnore.Tree.Basic
import TypeIgnore.Tree.Access
import TypeIgnore.Path.Basic
import TypeIgnore.Text.Number

/-!
# Disks

A disk is a file tree, a working directory, and what goes wrong with reading and writing. `Disk.walk` follows a path
text through the tree; the operations of `FileAccess` on it are pure functions, and `OnDisk` programs are built from
them. `Disk.replace` goes by steps, each of which can fail.
-/

namespace TypeIgnore

/-- The steps of reading a file and of replacing one. -/
inductive FileStep
  | read
  /-- The file to replace is looked up. -/
  | inspect
  /-- An empty file is made beside it. -/
  | create
  /-- The new content goes into the file beside it. -/
  | fill
  /-- The file beside it gets the permissions of the old one. -/
  | permit
  /-- The file beside it takes its name. -/
  | rename
  deriving DecidableEq, Repr

/-- A step of the work on the file that `path` names goes wrong. -/
structure Fault where
  path : Text
  step : FileStep
  error : OsError
  /-- How many bytes of the new content are written before. -/
  written : Nat := 0
  deriving DecidableEq, Repr

structure Disk where
  tree : Tree
  /-- Where relative paths start. -/
  cwd : Location := []
  /-- No byte can be written. -/
  writesFail : Bool := false
  faults : List Fault := []
  deriving DecidableEq, Repr

/-- What a path leads to. -/
inductive Place
  | directory (loc : Location)
  | file (loc : Location) (bytes : List UInt8)
  /-- Nothing yet, in a directory. -/
  | vacant (parent : Location) (name : Text)
  deriving DecidableEq, Repr

namespace Place

def loc? : Place → Option Location
  | .directory loc => some loc
  | .file loc _ => some loc
  | .vacant _ _ => none

/-- The directory that the place is in. -/
def holder : Place → Location
  | .directory loc => loc.dropLast
  | .file loc _ => loc.dropLast
  | .vacant parent _ => parent

end Place

/-- The greatest number of bytes in a name. -/
def nameLimit : Nat := 255

/-- The greatest number of bytes in a path text. -/
def pathLimit : Nat := 4095

/-- Longer than `limit` bytes. -/
def isLonger (limit : Nat) (t : Text) : Bool := limit < (Utf8.encode t).length

namespace Tree

/-- Where `pieces`, the texts between slashes, lead from the directory `here`. Only the last name may be missing, and
nothing but slashes may follow it; a file is followed by nothing at all. -/
def walk (t : Tree) (here : Location) : List Text → Except OsError Place
  | [] => .ok (.directory here)
  | piece :: pieces =>
    if !Path.isStep piece then t.walk here pieces
    else if piece = ".." then t.walk here.dropLast pieces
    else if isLonger nameLimit piece then .error .nameTooLong
    else
      match t.node? (here ++ [piece]) with
      | some .directory => t.walk (here ++ [piece]) pieces
      | some (.file bytes) => if pieces.isEmpty then .ok (.file (here ++ [piece]) bytes) else .error .notDirectory
      | none => if pieces.all (·.isEmpty) then .ok (.vacant here piece) else .error .noEntry

/-- The tree with a directory for every step of `pieces` from the directory `here` on. A file that is no last step is
no directory to look into; after a step that was `made`, every further step is one to make, so that a file there has
the name already. -/
def makeDirs (t : Tree) (here : Location) (made : Bool) : List Text → Except OsError Unit × Tree
  | [] => (.ok (), t)
  | piece :: pieces =>
    if !Path.isStep piece then t.makeDirs here made pieces
    else if piece = ".." then t.makeDirs here.dropLast made pieces
    else if isLonger nameLimit piece then (.error .nameTooLong, t)
    else
      match t.node? (here ++ [piece]) with
      | some .directory => t.makeDirs (here ++ [piece]) made pieces
      | some (.file _) => (.error (if made || pieces.all (·.isEmpty) then .alreadyExists else .notDirectory), t)
      | none => (t.put .directory (here ++ [piece])).makeDirs (here ++ [piece]) true pieces

end Tree

namespace Disk

/-- Where following a path text starts, and the pieces to follow. -/
def start (d : Disk) (path : Text) : Except OsError (Location × List Text) :=
  if path.isEmpty then .error .noEntry
  else if path.contains '\x00' then .error .nulInName
  else .ok (if path.head? == some '/' then [] else d.cwd, Text.splitOn '/' path)

/-- The same for a path text that the system takes as a whole, so that its length counts. -/
def enter (d : Disk) (path : Text) : Except OsError (Location × List Text) := do
  let start ← d.start path
  if isLonger pathLimit path then .error .nameTooLong else .ok start

/-- What a path text leads to. -/
def walk (d : Disk) (path : Text) : Except OsError Place := do
  let (here, pieces) ← d.enter path
  d.tree.walk here pieces

/-- What goes wrong in a step of the work on the file that `path` names. -/
def fault? (d : Disk) (path : Text) (step : FileStep) : Option Fault :=
  d.faults.find? fun f => f.path == path && f.step == step

/-- The step, if it does nothing but succeed or fail. -/
def pass (d : Disk) (path : Text) (step : FileStep) : Except OsError Unit :=
  match d.fault? path step with
  | some fault => .error fault.error
  | none => .ok ()

def read (d : Disk) (path : Text) : Except OsError (List UInt8) := do
  d.pass path .read
  match ← d.walk path with
  | .file _ bytes => .ok bytes
  | .directory _ => .error .isDirectory
  | .vacant _ _ => .error .noEntry

def isFile (d : Disk) (path : Text) : Bool :=
  match d.walk path with
  | .ok (.file _ _) => true
  | _ => false

def isDirectory (d : Disk) (path : Text) : Bool :=
  match d.walk path with
  | .ok (.directory _) => true
  | _ => false

def locationText (loc : Location) : Text := '/' :: Text.joinWith "/" loc

/-- A path is made canonical step by step, whatever the length of its text. -/
def canonical? (d : Disk) (path : Text) : Option Text := do
  let (here, pieces) ← (d.start path).toOption
  let place ← (d.tree.walk here pieces).toOption
  return locationText (← place.loc?)

def filesBelow (d : Disk) (path : Text) : List Text :=
  match d.walk path with
  | .ok (.directory loc) =>
    (((d.tree.content? loc).map Tree.files).getD []).map fun (l, _) => joinText path (Text.joinWith "/" l)
  | _ => []

/-- Bytes that cannot be written now. -/
def refuses (d : Disk) (bytes : List UInt8) : Bool := d.writesFail && !bytes.isEmpty

/-- Why a file cannot take the place of the directory that `path` names. -/
def directoryFault (path : Text) : OsError :=
  match ((Text.splitOn '/' path).filter (!·.isEmpty)).getLast? with
  | some piece =>
    if piece = "." ∨ piece = ".." then .busy
    else if path.getLast? == some '/' then .notDirectory
    else .isDirectory
  | none => .busy

/-! ### Replacing a file -/

/-- The names that are tried for a file beside another. -/
def temporaryNames : List Text := (List.range 100).map fun n => ".tmp" ++ Text.ofNat n

/-- What is to be replaced. -/
def inspect (d : Disk) (path : Text) : Except OsError Place := do
  d.pass path .inspect
  match ← d.walk path with
  | .vacant _ _ => .error .noEntry
  | place => .ok place

/-- The location of a new file in the directory `dir`, whose name is not taken. -/
def create (d : Disk) (path : Text) (dir : Location) : Except OsError Location := do
  d.pass path .create
  match temporaryNames.find? fun name => (d.tree.node? (dir ++ [name])).isNone with
  | some name => .ok (dir ++ [name])
  | none => .error .alreadyExists

/-- The content of the file at `loc` written, or a part of it. -/
def fill (d : Disk) (path : Text) (loc : Location) (bytes : List UInt8) : Except OsError Unit × Disk :=
  match d.fault? path .fill with
  | some fault => (.error fault.error, { d with tree := d.tree.put (.file (bytes.take fault.written)) loc })
  | none =>
    if d.refuses bytes then (.error .tooLarge, d)
    else (.ok (), { d with tree := d.tree.put (.file bytes) loc })

/-- The file at `loc` takes the place that `path` leads to, in one step. -/
def rename (d : Disk) (path : Text) (loc : Location) (place : Place) : Except OsError Disk := do
  d.pass path .rename
  match place, d.tree.bytes? loc with
  | .file target _, some bytes => .ok { d with tree := (d.tree.remove loc).put (.file bytes) target }
  | .directory _, _ => .error (directoryFault path)
  | _, _ => .error .noEntry

/-- The file at `loc`, which is empty, filled and given the name of `place`. -/
def install (d : Disk) (path : Text) (loc : Location) (place : Place) (bytes : List UInt8) :
    Except OsError Unit × Disk :=
  match d.fill path loc bytes with
  | (.error e, d) => (.error e, d)
  | (.ok (), d) =>
    match d.pass path .permit *> d.rename path loc place with
    | .error e => (.error e, d)
    | .ok d => (.ok (), d)

/-- The new content goes to a file beside the old one first, which then takes its place. A file that does not get so
far is dropped. -/
def replace (d : Disk) (path : Text) (bytes : List UInt8) : Except OsError Unit × Disk :=
  match d.inspect path with
  | .error e => (.error e, d)
  | .ok place =>
    match d.create path place.holder with
    | .error e => (.error e, d)
    | .ok beside =>
      match { d with tree := d.tree.put (.file []) beside }.install path beside place bytes with
      | (.ok (), d) => (.ok (), d)
      | (.error e, d) => (.error e, { d with tree := d.tree.remove beside })

/-! ### Writing a file -/

/-- The pieces before a name that a slash follows at the end. -/
def beforeSlashedName? (pieces : List Text) : Option (List Text) :=
  match pieces.reverse with
  | [] :: rest =>
    match rest.dropWhile (·.isEmpty) with
    | [] => none
    | name :: above => if Path.isStep name && name != ".." then some above.reverse else none
  | _ => none

/-- Where a file is written. A name that a slash follows can only be a directory's, whatever stands there. -/
def target (d : Disk) (path : Text) : Except OsError Location := do
  let (here, pieces) ← d.enter path
  match beforeSlashedName? pieces with
  | some above =>
    match ← d.tree.walk here above with
    | .directory _ => .error .isDirectory
    | .file _ _ => .error .notDirectory
    | .vacant _ _ => .error .noEntry
  | none =>
    match ← d.tree.walk here pieces with
    | .directory _ => .error .isDirectory
    | .file loc _ => .ok loc
    | .vacant parent name => .ok (parent ++ [name])

/-- A file is emptied before it is written. -/
def write (d : Disk) (path : Text) (bytes : List UInt8) : Except OsError Unit × Disk :=
  match d.target path with
  | .error e => (.error e, d)
  | .ok loc =>
    if d.refuses bytes then (.error .tooLarge, { d with tree := d.tree.put (.file []) loc })
    else (.ok (), { d with tree := d.tree.put (.file bytes) loc })

def makeDirs (d : Disk) (path : Text) : Except OsError Unit × Disk :=
  match d.enter path with
  | .error e => (.error e, d)
  | .ok (here, pieces) =>
    let (result, tree) := d.tree.makeDirs here false pieces
    (result, { d with tree })

end Disk

/-- Programs on a disk. -/
abbrev OnDisk := StateM Disk

instance : FileAccess OnDisk where
  read path := fun d => (d.read path, d)
  replace path bytes := fun d => d.replace path bytes
  write path bytes := fun d => d.write path bytes
  makeDirs path := fun d => d.makeDirs path
  isFile path := fun d => (d.isFile path, d)
  isDirectory path := fun d => (d.isDirectory path, d)
  canonical? path := fun d => (d.canonical? path, d)
  filesBelow path := fun d => (d.filesBelow path, d)

end TypeIgnore
