import TypeIgnore.Edit.Partition
import TypeIgnore.Edit.Policy

/-!
# Edits

* `applyComments` — lines with other trailing comments, and the list of changes;
* `silenceSource` — a source with markers for its diagnostics: classified, its diagnostics parted by line, each
  line's comment written anew.
-/

namespace TypeIgnore

/-- A trailing comment before and after. -/
structure LineChange where
  line : Nat
  before : Text
  after : Text
  deriving DecidableEq, Repr

structure FileEdit where
  lines : List SourceLine
  changes : List LineChange
  deriving DecidableEq, Repr

namespace FileEdit

def isNoop (e : FileEdit) : Bool := e.changes.isEmpty

def text (e : FileEdit) : Text := render e.lines

end FileEdit

/-- The change that giving `l` the comment that `comments` has for it makes. -/
def lineChange? (comments : Nat → Option Text) (l : SourceLine) : Option LineChange :=
  match comments l.number with
  | some comment => if comment = l.comment then none else some ⟨l.number, l.comment, comment⟩
  | none => none

/-- The lines with the comments that `comments` has for them. -/
def applyComments (lines : List SourceLine) (comments : Nat → Option Text) : FileEdit where
  lines := lines.map fun l =>
    match lineChange? comments l with
    | some change => l.withComment change.after
    | none => l
  changes := lines.filterMap (lineChange? comments)

/-- The edit that gives each line of the partition the comment its diagnostics ask for. -/
def planEdit (m : SourceMap) (byLine : ByLine) (policy : Policy) : FileEdit :=
  applyComments m.lines fun n => do
    let ds ← byLine.lookup n
    let l ← m.line? n
    return synthesize l.comment (.ofDiagnostics ds) policy.style

structure FileOutcome where
  silenced : List Diagnostic
  rejected : List Rejected
  /-- The edit, unless the source has no map. -/
  edit : Except LexError FileEdit

/-- A source with markers for the diagnostics `ds`. -/
def silenceSource (source : Text) (ds : List Diagnostic) (policy : Policy) : FileOutcome :=
  match classify source with
  | .error e => ⟨[], rejectUnparseable ds, .error e⟩
  | .ok m =>
    let p := partition m ds
    ⟨p.byLine.flatMap (·.2), p.rejected, .ok (planEdit m p.byLine policy)⟩

end TypeIgnore
