import TypeIgnore.Source.Map
import TypeIgnore.Diagnostic.Basic

/-!
# Partition

The diagnostics of one file, parted into those whose line can carry a marker, grouped by line, and those that are
rejected. Each one is decided on its own, by `targetLine`.
-/

namespace TypeIgnore

/-- The line that carries the marker for `d`, or why there is none. A span that ends inside a later statement is
rejected too. -/
def targetLine (m : SourceMap) (d : Diagnostic) : Except Reason Nat :=
  if d.isSyntax then .error .syntaxError
  else if d.line = 0 ∨ m.lineCount < d.line then .error .lineOutOfRange
  else
    match m.regionAt? d.line with
    | some r => if r.isInterior d.line then .error .midRegion else .ok r.last
    | none =>
      let endsInside (n : Nat) := d.line < n && (m.regionAt? n).any fun r => d.line < r.first && r.isInterior n
      if d.endLine.any endsInside then .error .midRegion else .ok d.line

/-- Diagnostics by line, the lines in order. -/
abbrev ByLine := List (Nat × List Diagnostic)

/-- `d` at the end of the group of line `n`. -/
def ByLine.add (n : Nat) (d : Diagnostic) : ByLine → ByLine
  | [] => [(n, [d])]
  | (k, ds) :: groups =>
    if n < k then (n, [d]) :: (k, ds) :: groups
    else if n = k then (k, ds ++ [d]) :: groups
    else (k, ds) :: ByLine.add n d groups

structure Partition where
  byLine : ByLine
  rejected : List Rejected
  deriving DecidableEq, Repr

/-- One more diagnostic. -/
def Partition.place (m : SourceMap) (p : Partition) (d : Diagnostic) : Partition :=
  match targetLine m d with
  | .ok n => { p with byLine := p.byLine.add n d }
  | .error reason => { p with rejected := p.rejected ++ [⟨d, reason⟩] }

def partition (m : SourceMap) (ds : List Diagnostic) : Partition := ds.foldl (·.place m) ⟨[], []⟩

/-- The rejections of a file whose source has no map. -/
def rejectUnparseable (ds : List Diagnostic) : List Rejected :=
  ds.map fun d => ⟨d, if d.isSyntax then .syntaxError else .unparseableSource⟩

end TypeIgnore
