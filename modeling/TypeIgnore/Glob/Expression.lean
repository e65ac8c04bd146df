import TypeIgnore.Glob.Match
import TypeIgnore.Text.Number

/-!
# Globs as expressions

A glob that is more than fixed text with a star at one end is compiled as a regular expression, and those may not nest
too deep. A glob that ends in a fixed extension has an expression of its own; all other globs of a list are compiled
together, and are known by their place among those.

* `Glob.expression` — the regular expression of a glob;
* `Glob.depth` — how deep it nests;
* `Glob.form` — how a glob is compiled;
* `compileGlobs` — fails for the first expression that nests deeper than `depthLimit`.
-/

namespace TypeIgnore

/-! ## Text -/

/-- Characters that mean something else in an expression unless a backslash stands before them. -/
def isOperator (c : Char) : Bool := ("\\.+*?()|[]\x7b\x7d^$#&-~" : Text).contains c

def hexDigits (b : UInt8) : Text := [Nat.digitChar (b.toNat / 16), Nat.digitChar (b.toNat % 16)]

/-- A character as it stands in an expression: outside ASCII byte by byte, in base 16. -/
def literalExpression (c : Char) : Text :=
  if c.toNat < 128 then if isOperator c then ['\\', c] else [c]
  else (Utf8.encode [c]).flatMap fun b => "\\x" ++ hexDigits b

def rangeExpression (range : Char × Char) : Text :=
  if range.1 = range.2 then literalExpression range.1
  else literalExpression range.1 ++ "-" ++ literalExpression range.2

mutual

def Piece.expression : Piece → Text
  | .literal c => literalExpression c
  | .any => "."
  | .star => ".*"
  | .leadingSteps => "(?:/?|.*/)"
  | .trailingSteps => "/.*"
  | .innerSteps => "(?:/|/.*/)"
  | .oneOf negated ranges => (if negated then "[^" else "[") ++ ranges.flatMap rangeExpression ++ "]"
  | .group branches =>
    if areVoid branches then [] else "(?:" ++ Text.joinWith "|" (branchExpressions branches) ++ ")"

def piecesExpression : List Piece → Text
  | [] => []
  | p :: ps => p.expression ++ piecesExpression ps

/-- The branches that are not void. -/
def branchExpressions : List (List Piece) → List Text
  | [] => []
  | ps :: branches =>
    if isVoid ps then branchExpressions branches else piecesExpression ps :: branchExpressions branches

end

/-- The expression for the whole of a text. -/
def Glob.expression (g : Glob) : Text :=
  "(?-u)^" ++ (match g with
    | [.leadingSteps] => ".*"
    | _ => piecesExpression g) ++ "$"

/-! ## Depth -/

/-- How many parts stand side by side, and how deep the deepest of them nests. -/
structure Shape where
  parts : Nat
  depth : Nat
  deriving DecidableEq, Repr

namespace Shape

def beside (a b : Shape) : Shape := ⟨a.parts + b.parts, max a.depth b.depth⟩

/-- The depth of the parts as one: two or more of them are a level of their own. -/
def joined (s : Shape) : Nat := if 2 ≤ s.parts then s.depth + 1 else s.depth

end Shape

/-- How many items a class has: the bytes of its characters, where the two bytes at a dash are one item. -/
def classItems (ranges : List (Char × Char)) : Nat :=
  let size (c : Char) : Nat := (Utf8.encode [c]).length
  ranges.foldl (fun n (low, high) => n + if low = high then size low else size low + size high - 1) 0

mutual

def Piece.shape : Piece → Shape
  | .literal c => ⟨(Utf8.encode [c]).length, 0⟩
  | .any => ⟨1, 0⟩
  | .star => ⟨1, 1⟩
  | .leadingSteps => ⟨1, 4⟩
  | .trailingSteps => ⟨2, 1⟩
  | .innerSteps => ⟨1, 4⟩
  | .oneOf _ ranges => ⟨1, Shape.joined ⟨classItems ranges, 1⟩⟩
  | .group branches => if areVoid branches then ⟨0, 0⟩ else ⟨1, (branchesShape branches).joined + 1⟩

def piecesShape : List Piece → Shape
  | [] => ⟨0, 0⟩
  | p :: ps => p.shape.beside (piecesShape ps)

/-- Each branch that is not void is one part. -/
def branchesShape : List (List Piece) → Shape
  | [] => ⟨0, 0⟩
  | ps :: branches =>
    if isVoid ps then branchesShape branches else Shape.beside ⟨1, (piecesShape ps).joined⟩ (branchesShape branches)

end

/-- How deep the expression nests. It is a sequence, since it says where a text starts and ends. -/
def Glob.depth (g : Glob) : Nat := (piecesShape g).depth + 1

/-- The greatest depth that can be compiled. -/
def depthLimit : Nat := 250

def Glob.isTooDeep (g : Glob) : Bool := depthLimit < g.depth

/-! ## Forms -/

/-- How a glob is compiled. -/
inductive GlobForm
  /-- As a text to compare with. -/
  | fixed
  /-- By itself, since a match ends in a known extension. -/
  | extended
  /-- Together with others. -/
  | general
  deriving DecidableEq, Repr

namespace Glob

/-- The text of pieces that are all literal. -/
def literalText? : List Piece → Option Text
  | [] => some []
  | .literal c :: ps => (literalText? ps).map (c :: ·)
  | _ :: _ => none

/-- A fixed start: literal pieces, and then a star or steps. -/
def isFixedStart (g : Glob) : Bool :=
  match g.getLast? with
  | some .star => (literalText? g.dropLast).any (!·.isEmpty)
  | some .trailingSteps => (literalText? g.dropLast).isSome
  | _ => (literalText? g).any (!·.isEmpty)

/-- A fixed end: steps, a star or both, and then literal pieces. -/
def isFixedEnd (g : Glob) : Bool :=
  match g with
  | .leadingSteps :: .star :: ps | .star :: ps => (literalText? ps).any fun (t : Text) => !t.isEmpty && t != "/"
  | .leadingSteps :: ps => (literalText? ps).any (!·.isEmpty)
  | _ => false

/-- The last pieces, in reverse, write an extension. -/
def endsInExtension : List Piece → Bool
  | .literal c :: ps => c = '.' || (c != '/' && endsInExtension ps)
  | _ => false

def form (g : Glob) : GlobForm :=
  if isFixedStart g || isFixedEnd g then .fixed
  else if endsInExtension g.reverse then .extended
  else .general

end Glob

/-! ## Compiling -/

/-- An expression that nests too deep. -/
inductive DepthError
  /-- One that is compiled by itself. -/
  | expression (text : Text)
  /-- One of those that are compiled together, by its place among them. -/
  | pattern (index : Nat)
  deriving DecidableEq, Repr

def DepthError.message : DepthError → Text
  | .expression text => "error parsing glob '" ++ text ++ "': error parsing pattern 0"
  | .pattern index => "error parsing pattern " ++ Text.ofNat index

/-- Globs that can all be compiled. Those with an expression of their own come first. -/
def compileGlobs (globs : List Glob) : Except DepthError (List Glob) :=
  match globs.find? fun g => g.form == .extended && g.isTooDeep with
  | some g => .error (.expression g.expression)
  | none =>
    match (globs.filter fun g => g.form == .general).findIdx? Glob.isTooDeep with
    | some index => .error (.pattern index)
    | none => .ok globs

end TypeIgnore
