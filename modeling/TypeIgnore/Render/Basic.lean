import TypeIgnore.Text.Number

/-!
# What is shown of a run

* `RunView` — a run as far as it is shown: counts, the diagnostics that were left alone, the changes and the warnings;
* `RunView.changeList` — the changed comments, each before and after.
-/

namespace TypeIgnore

structure Counts where
  silenced : Nat := 0
  notSilenced : Nat := 0
  /-- Out of scope. -/
  ignored : Nat := 0
  filesEdited : Nat := 0
  deriving DecidableEq, Repr

/-- A diagnostic that was left alone. -/
structure RejectedView where
  path : Text
  line : Nat
  col : Option Nat
  code : Option Text
  message : Text
  reason : Text
  deriving DecidableEq, Repr

/-- A trailing comment that changed. -/
structure ChangeView where
  path : Text
  line : Nat
  before : Text
  after : Text
  deriving DecidableEq, Repr

structure RunView where
  dryRun : Bool := false
  counts : Counts := {}
  rejected : List RejectedView := []
  changes : List ChangeView := []
  warnings : List Text := []
  deriving DecidableEq, Repr

/-- Place, old comment and new comment on a line each. -/
def ChangeView.text (c : ChangeView) : Text :=
  c.path ++ ":" ++ Text.ofNat c.line ++ "\n-" ++ c.before ++ "\n+" ++ c.after ++ "\n"

def RunView.changeList (v : RunView) : Text := v.changes.flatMap ChangeView.text

end TypeIgnore
