import TypeIgnore.Source.Scanner

/-!
# Source maps

* `Region` — the lines of a statement that spans several; only the last of them can carry a comment;
* `SourceMap` — the lines of a source and its regions, in order;
* `classify t` — the map of the source `t`, or the first error of the scanner.

A statement is open from the first line that is left open to the first one after it that is not.
-/

namespace TypeIgnore

/-! ## Regions -/

namespace RegionKind

/-- A statement held open in both ways counts as a continuation. -/
def merge : RegionKind → RegionKind → RegionKind
  | .multilineLiteral, .multilineLiteral => .multilineLiteral
  | _, _ => .continuation

def text : RegionKind → Text
  | .continuation => "continuation"
  | .multilineLiteral => "multiline-literal"

end RegionKind

structure Region where
  first : Nat
  last : Nat
  kind : RegionKind
  deriving DecidableEq, Repr

namespace Region

def contains (r : Region) (n : Nat) : Bool := r.first ≤ n && n ≤ r.last

/-- A line of the region after which the statement goes on. -/
def isInterior (r : Region) (n : Nat) : Bool := r.contains n && n != r.last

end Region

/-! ## Maps -/

/-- How many of the first `size` places satisfy `p`, which holds up to some place and not after it: `low` of them, and
as many more as `bits` binary digits can tell, the highest digit first. -/
def bisect (p : Nat → Bool) (size low : Nat) : (bits : Nat) → Nat
  | 0 => low
  | bits + 1 =>
    let next := low + Nat.pow 2 bits
    if next ≤ size && p (next - 1) then bisect p size next bits else bisect p size low bits

/-- How many of the first `size` places satisfy `p`, found by bisection. -/
def partitionPoint (p : Nat → Bool) (size : Nat) : Nat := bisect p size 0 (size.log2 + 1)

structure SourceMap where
  lines : List SourceLine
  /-- In order and disjoint. -/
  regions : List Region
  deriving DecidableEq, Repr

namespace SourceMap

/-- Line `n`, counted from 1. -/
def line? (m : SourceMap) : Nat → Option SourceLine
  | 0 => none
  | n + 1 => m.lines[n]?

def lineCount (m : SourceMap) : Nat := m.lines.length

/-- The region at place `i` ends before line `n`. -/
def endsBefore (m : SourceMap) (n i : Nat) : Bool := m.regions[i]?.any fun r => r.last < n

/-- The region of line `n`: the first that does not end before `n`, if it has begun. -/
def regionAt? (m : SourceMap) (n : Nat) : Option Region :=
  m.regions[partitionPoint (m.endsBefore n) m.regions.length]?.filter (·.contains n)

end SourceMap

/-! ## Classification -/

/-- A statement that is still open: its first line, and how it has been held open. -/
structure OpenStatement where
  first : Nat
  kind : RegionKind
  deriving DecidableEq, Repr

/-- The statement after line `n`, which is left open as `left` says. -/
def OpenStatement.advance (n : Nat) (left : Option RegionKind) (current : Option OpenStatement) :
    Option OpenStatement :=
  left.map fun kind =>
    match current with
    | none => ⟨n, kind⟩
    | some o => ⟨o.first, o.kind.merge kind⟩

/-- The region that line `n` completes. -/
def OpenStatement.close (n : Nat) (left : Option RegionKind) (current : Option OpenStatement) : List Region :=
  match left, current with
  | none, some o => [⟨o.first, n, o.kind⟩]
  | _, _ => []

/-- Line `n`, cut before the `#` of its comment: the separator before it belongs to the comment. -/
def mkLine (n : Nat) (code comment : Text) (ending : Option LineBreak) (left : Option RegionKind) :
    SourceLine :=
  let (front, separator) := if comment.isEmpty then (code, []) else Text.spanEnd isSeparator code
  ⟨n, front, separator ++ comment, ending, left.isNone⟩

/-- The lines from line `n` on: `ls`, and `rest` after their last break. -/
def classifyFrom (n : Nat) (s : Scanner) (current : Option OpenStatement) (rest : Text) :
    List EndedLine → Except LexError SourceMap
  | [] => do
    let (s, code, comment) ← s.scanLine n rest
    s.checkEnd n
    if rest.isEmpty then
      match current with
      | some o => .error ⟨o.first, .eofInStatement⟩
      | none => .ok ⟨[], []⟩
    else .ok ⟨[mkLine n code comment none none], OpenStatement.close n none current⟩
  | l :: ls => do
    let (s, code, comment) ← s.scanLine n l.content
    let (s, left) ← s.breakLine n
    let tail ← classifyFrom (n + 1) s (OpenStatement.advance n left current) rest ls
    .ok ⟨mkLine n code comment (some l.ending) left :: tail.lines,
      OpenStatement.close n left current ++ tail.regions⟩

/-- The lines and regions of a source. -/
def classify (source : Text) : Except LexError SourceMap :=
  let (ls, rest) := splitLines source
  classifyFrom 1 .start none rest ls

/-- The error as a reader sees it. -/
def LexError.message (e : LexError) : Text := "line " ++ Nat.toDigits 10 e.line ++ ": " ++ e.kind.message

end TypeIgnore
