import TypeIgnore.Text.Basic

/-!
# Globs

A glob is a pattern for paths. `?` stands for one byte and `*` for any number of them, slashes included; `**` as a
whole step stands for any number of steps; `[a-z]` and `[!a-z]` for a byte in a class or outside it; `{a,b}` for one
of several globs; a backslash takes the character after it as it is.

* `Piece` — a part of a glob;
* `GlobError` — what is wrong with a text that is no glob;
* `Glob.ofText` — a glob read.

The reader keeps the branches that are open: those of the groups around it and the one it is in.
-/

namespace TypeIgnore

inductive Piece
  | literal (c : Char)
  /-- `?` -/
  | any
  /-- `*` -/
  | star
  /-- `**` as the first step, with the slash after it. -/
  | leadingSteps
  /-- `**` as the last step, with the slash before it. -/
  | trailingSteps
  /-- `**` between two steps, with both slashes. -/
  | innerSteps
  | oneOf (negated : Bool) (ranges : List (Char × Char))
  /-- The branches between braces. -/
  | group (branches : List (List Piece))
  deriving Repr

abbrev Glob := List Piece

inductive GlobFault
  | unclosedClass
  | invalidRange (low high : Char)
  | unopenedGroup
  | unclosedGroup
  | danglingEscape
  deriving DecidableEq, Repr

def GlobFault.message : GlobFault → Text
  | .unclosedClass => "unclosed character class; missing ']'"
  | .invalidRange low high => "invalid range; '" ++ [low] ++ "' > '" ++ [high] ++ "'"
  | .unopenedGroup => "unopened alternate group; missing '\x7b' (maybe escape '\x7d' with '[\x7d]'?)"
  | .unclosedGroup => "unclosed alternate group; missing '\x7d' (maybe escape '\x7b' with '[\x7b]'?)"
  | .danglingEscape => "dangling '\\'"

structure GlobError where
  glob : Text
  fault : GlobFault
  deriving DecidableEq, Repr

def GlobError.message (e : GlobError) : Text := "error parsing glob '" ++ e.glob ++ "': " ++ e.fault.message

namespace Glob

/-! ## Classes -/

/-- The state inside a class: its ranges, the last one first, and whether a `-` waits for the end of a range. -/
structure ClassReader where
  ranges : List (Char × Char) := []
  inRange : Bool := false

/-- One more character of a class. The first character is always taken as it is. -/
def ClassReader.push (r : ClassReader) (c : Char) : Except GlobFault ClassReader :=
  match r.ranges with
  | [] => .ok { ranges := [(c, c)] }
  | (low, high) :: ranges =>
    if r.inRange then
      if c < low then .error (.invalidRange low c) else .ok { ranges := (low, c) :: ranges }
    else if c = '-' then .ok { r with inRange := true }
    else .ok { ranges := (c, c) :: (low, high) :: ranges }

/-- The ranges in order; a `-` at the end stands for itself. -/
def ClassReader.finish (r : ClassReader) : List (Char × Char) :=
  (if r.inRange then ('-', '-') :: r.ranges else r.ranges).reverse

/-- The inside of a class, up to the first `]` after its first character. -/
def classRanges (r : ClassReader) : Text → Except GlobFault (List (Char × Char) × Text)
  | [] => .error .unclosedClass
  | c :: t =>
    if c = ']' && !r.ranges.isEmpty then .ok (r.finish, t)
    else do classRanges (← r.push c) t

/-- Whether a class is negated, and its inside. -/
def classBody : Text → Bool × Text
  | '!' :: t | '^' :: t => (true, t)
  | t => (false, t)

/-- A class, from the character after its `[` on. -/
def readClass (t : Text) : Except GlobFault (Piece × Text) :=
  match classRanges {} (classBody t).2 with
  | .error fault => .error fault
  | .ok (ranges, rest) => .ok (.oneOf (classBody t).1 ranges, rest)

theorem length_classRanges_lt {r : ClassReader} {t rest : Text} {ranges : List (Char × Char)}
    (h : classRanges r t = .ok (ranges, rest)) : rest.length < t.length := by
  fun_induction classRanges r t with
  | case1 => cases h
  | case2 r c t _ => cases h; exact Nat.lt_succ_self _
  | case3 r c t _ ih =>
    cases hp : r.push c with
    | error e => rw [hp] at h; cases h
    | ok r' => rw [hp] at h; exact Nat.lt_succ_of_lt (ih r' h)

theorem length_classBody_le (t : Text) : (classBody t).2.length ≤ t.length := by
  unfold classBody
  split <;> simp

theorem length_readClass_lt {t rest : Text} {p : Piece} (h : readClass t = .ok (p, rest)) :
    rest.length < t.length := by
  unfold readClass at h
  split at h
  · cases h
  · rename_i ranges rest' hc
    cases h
    exact Nat.lt_of_lt_of_le (length_classRanges_lt hc) (length_classBody_le t)

/-! ## Branches -/

/-- A group that is still open: its branches before the current one, and the branch that it stands in, all in
reverse. -/
structure OpenGroup where
  branches : List (List Piece) := []
  outer : List Piece
  deriving Repr

structure Reader where
  /-- The pieces of the current branch, in reverse. -/
  branch : List Piece := []
  /-- The innermost group first. -/
  groups : List OpenGroup := []
  /-- The character read last. -/
  last : Option Char := none

namespace Reader

def push (r : Reader) (c : Char) (p : Piece) : Reader := { r with branch := p :: r.branch, last := some c }

def inGroup (r : Reader) : Bool := !r.groups.isEmpty

def openGroup (r : Reader) : Reader :=
  { branch := [], groups := ⟨[], r.branch⟩ :: r.groups, last := some '\x7b' }

/-- A comma outside groups is a character like others. -/
def comma (r : Reader) : Reader :=
  match r.groups with
  | [] => r.push ',' (.literal ',')
  | g :: groups =>
    { branch := [], groups := { g with branches := r.branch.reverse :: g.branches } :: groups, last := some ',' }

def closeGroup (r : Reader) : Except GlobFault Reader :=
  match r.groups with
  | [] => .error .unopenedGroup
  | g :: groups =>
    let branches := (r.branch.reverse :: g.branches).reverse
    .ok { branch := .group branches :: g.outer, groups, last := some '\x7d' }

/-- Two stars that are not a whole step. -/
def twoStars (r : Reader) : Reader := { r with branch := .star :: .star :: r.branch, last := some '*' }

/-- Steps that end here or go on after a slash, in place of the piece before them; steps in front or at the end
take further ones in. -/
def steps (r : Reader) (isLast : Bool) : Reader :=
  let last := some (if isLast then '*' else '/')
  match r.branch with
  | .leadingSteps :: _ | .trailingSteps :: _ => { r with last }
  | _ :: branch => { r with branch := (if isLast then .trailingSteps else .innerSteps) :: branch, last }
  | [] => { r with last }

/-- Two stars, and the rest of the text after them and after the slash that belongs to them. -/
def doubleStar (r : Reader) (rest : Text) : Reader × Text :=
  if r.branch.isEmpty then
    match rest with
    | [] => (r.push '*' .leadingSteps, [])
    | '/' :: rest => (r.push '/' .leadingSteps, rest)
    | _ => (r.twoStars, rest)
  else if r.last != some '/' && !(r.inGroup && (r.last == some ',' || r.last == some '\x7b')) then
    (r.twoStars, rest)
  else
    match rest with
    | [] => (r.steps true, [])
    | '/' :: rest => (r.steps false, rest)
    | ',' :: _ | '\x7d' :: _ => if r.inGroup then (r.steps true, rest) else (r.twoStars, rest)
    | _ => (r.twoStars, rest)

theorem length_doubleStar_le (r : Reader) (rest : Text) : (r.doubleStar rest).2.length ≤ rest.length := by
  unfold doubleStar
  repeat' split
  all_goals simp

/-- Reads to the end of the text. -/
def read (r : Reader) : Text → Except GlobFault Reader
  | [] => .ok r
  | '?' :: t => read (r.push '?' .any) t
  | '*' :: '*' :: t => read (r.doubleStar t).1 (r.doubleStar t).2
  | '*' :: t => read (r.push '*' .star) t
  | '[' :: t =>
    match _h : readClass t with
    | .error e => .error e
    | .ok (p, rest) => read (r.push ']' p) rest
  | '\x7b' :: t => read r.openGroup t
  | '\x7d' :: t =>
    match r.closeGroup with
    | .error e => .error e
    | .ok r => read r t
  | ',' :: t => read r.comma t
  | '\\' :: c :: t => read (r.push c (.literal c)) t
  | ['\\'] => .error .danglingEscape
  | c :: t => read (r.push c (.literal c)) t
termination_by t => t.length
decreasing_by
  all_goals simp_wf
  all_goals first
    | omega
    | have h := length_doubleStar_le r t
      omega
    | have h := length_readClass_lt _h
      omega

end Reader

/-- The glob that `t` writes. -/
def ofText (t : Text) : Except GlobError Glob :=
  match Reader.read {} t with
  | .error fault => .error ⟨t, fault⟩
  | .ok r => if r.inGroup then .error ⟨t, .unclosedGroup⟩ else .ok r.branch.reverse

end Glob

end TypeIgnore
