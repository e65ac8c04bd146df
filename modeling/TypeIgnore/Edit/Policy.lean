import TypeIgnore.Marker.Synthesis

/-!
# Policy

What a run silences and how it writes markers. `Policy.covers code` says whether diagnostics with this code are
acted on, and `select` parts diagnostics accordingly.
-/

namespace TypeIgnore

structure Policy where
  descriptions : DescriptionStyle := .plain
  /-- A note after new markers; blank for none. -/
  followUp : Text := "FIX ME"
  /-- `none` for every code. -/
  codes : Option CodeSet := none
  /-- Do not warn of diagnostics without code. -/
  allowNoCodes : Bool := false
  deriving DecidableEq, Repr

namespace Policy

def style (p : Policy) : CommentStyle := ⟨p.followUp, p.descriptions⟩

/-- The codes about markers themselves are always acted on, so that old markers can be cleared up. -/
def covers (p : Policy) (code : Option Text) : Bool :=
  match p.codes, code with
  | none, _ => true
  | some _, none => false
  | some codes, some code => code == unusedIgnoreCode || code == ignoreWithoutCodeCode || codes.contains code

end Policy

structure Selection where
  selected : List Diagnostic
  /-- Of another file or code; counted only. -/
  ignored : List Diagnostic
  deriving DecidableEq, Repr

/-- The diagnostics of files in scope with a code of the policy, and the others. -/
def select (ds : List Diagnostic) (policy : Policy) (inScope : ReportPath → Bool) : Selection :=
  let (selected, ignored) := ds.partition fun d => inScope d.path && policy.covers d.code
  ⟨selected, ignored⟩

end TypeIgnore
