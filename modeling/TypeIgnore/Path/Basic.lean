import TypeIgnore.Diagnostic.Path

/-!
# Paths

A path is a way through directories, from the root directory or from somewhere below it. Empty steps and `.` lead
nowhere, so `ofText` leaves them out, and two texts that differ only in them name the same path.

* `Path.ofText`, `Path.text` — a path read and written;
* `Path.before` — the order of paths: step by step, not character by character;
* `Path.normalize` — `..` taken back together with the name before it;
* `absolutize root p` — where the reported path `p` leads from `root`.
-/

namespace TypeIgnore

inductive Component
  /-- The directory above. -/
  | parent
  | name (t : Text)
  deriving DecidableEq, Repr

namespace Component

def ofText (t : Text) : Component := if t = ".." then .parent else .name t

def text : Component → Text
  | .parent => ".."
  | .name t => t

/-- `..` comes before every name. -/
def before : Component → Component → Bool
  | .parent, .name _ => true
  | .name a, .name b => a < b
  | _, .parent => false

end Component

structure Path where
  /-- From the root directory. -/
  rooted : Bool
  parts : List Component
  deriving DecidableEq, Repr

namespace Path

/-- A piece between two slashes that leads somewhere. -/
def isStep (piece : Text) : Bool := !piece.isEmpty && piece != "."

def ofText (t : Text) : Path where
  rooted := t.head? == some '/'
  parts := ((Text.splitOn '/' t).filter isStep).map Component.ofText

def text (p : Path) : Text :=
  let steps := Text.joinWith "/" (p.parts.map Component.text)
  if p.rooted then '/' :: steps else steps

/-! ## Order -/

/-- The order of step after step; a start of a path comes before the path. -/
def partsBefore : List Component → List Component → Bool
  | [], [] => false
  | [], _ :: _ => true
  | _ :: _, [] => false
  | a :: p, b :: q => if a = b then partsBefore p q else a.before b

/-- The path with no step at all comes first, then those from the root directory, then the others. -/
def before (p q : Path) : Bool :=
  match p.rooted, q.rooted with
  | true, false => !q.parts.isEmpty
  | false, true => p.parts.isEmpty
  | _, _ => partsBefore p.parts q.parts

def le (p q : Path) : Bool := !q.before p

/-! ## Steps -/

/-- One more step at the end of a list kept in reverse: `..` takes a name back. -/
def pushReverse (done : List Component) (c : Component) : List Component :=
  match c, done with
  | .parent, .name _ :: rest => rest
  | c, done => c :: done

/-- The path without names that a `..` takes back. A `..` at the root directory stays. -/
def normalize (p : Path) : Path := { p with parts := (p.parts.foldl pushReverse []).reverse }

/-- `q` from where `p` leads. -/
def join (p q : Path) : Path := if q.rooted then q else { p with parts := p.parts ++ q.parts }

/-- The steps that are left of `p` after those of `base`. -/
def below? (base p : Path) : Option Path :=
  if base.parts.isEmpty && !base.rooted then some p
  else if base.rooted = p.rooted then
    (base.parts.isPrefixOf? p.parts).map fun parts => ⟨false, parts⟩
  else none

/-- What follows the last dot of the last name, if something stands before that dot. -/
def extension? (p : Path) : Option Text :=
  match p.parts.getLast? with
  | some (.name t) =>
    match Text.spanEnd (· != '.') t with
    | ([], _) => none
    | (['.'], _) => none
    | (_, ending) => some ending
  | _ => none

end Path

/-! ## Reported paths -/

/-- Where a reported path leads from `root`. -/
def absolutize (root : Path) (p : ReportPath) : Path := (root.join (.ofText p.text)).normalize

/-! ## Path texts -/

/-- The text of `t` from the directory `base`, letter by letter: an absolute `t` stays as it is. -/
def joinText (base t : Text) : Text :=
  if t.head? == some '/' || base.isEmpty then t
  else if base.getLast? == some '/' then base ++ t
  else base ++ "/" ++ t

/-- Pieces of a path text, in reverse, from the first on that is a step. The first piece of the text stays. -/
def dropIdle : List Text → List Text
  | piece :: first :: rest => if Path.isStep piece then piece :: first :: rest else dropIdle (first :: rest)
  | pieces => pieces

/-- The text of the directory that the last step of `t` is taken in, as `t` spells it. -/
def parentText? (t : Text) : Option Text :=
  match dropIdle (Text.splitOn '/' t).reverse with
  | [] | [[]] => none
  | _ :: above =>
    match dropIdle above with
    | [[]] => some "/"
    | pieces => some (Text.joinWith "/" pieces.reverse)

end TypeIgnore
