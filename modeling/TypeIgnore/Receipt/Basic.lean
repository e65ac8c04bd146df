import TypeIgnore.Diagnostic.Basic
import TypeIgnore.Render.Basic
import TypeIgnore.Time.Timestamp

/-!
# Receipts

What a run leaves behind: when it ran, its counts, what became of each diagnostic, and the changes.
-/

namespace TypeIgnore

/-- The name of the format of receipts. -/
def receiptSchema : Text := "typeshush.receipt.v1"

structure ToolInfo where
  name : Text
  version : Text
  deriving DecidableEq, Repr

/-- This program. -/
def thisTool : ToolInfo := ⟨"typeshush", "0.1.0"⟩

/-- A diagnostic as it is recorded. -/
structure Record where
  path : ReportPath
  line : Nat
  col : Option Nat
  code : Option Text
  message : Text
  fingerprint : Text
  deriving DecidableEq, Repr

def Diagnostic.record (d : Diagnostic) : Record :=
  ⟨d.path, d.line, d.col, d.code, d.message, d.fingerprint⟩

structure RejectedRecord where
  record : Record
  reason : Reason
  deriving DecidableEq, Repr

def Rejected.toRecord (r : Rejected) : RejectedRecord := ⟨r.diagnostic.record, r.reason⟩

structure Receipt where
  schema : Text := receiptSchema
  tool : ToolInfo := thisTool
  startedAt : Timestamp
  finishedAt : Timestamp
  dryRun : Bool
  counts : Counts
  silenced : List Record
  rejected : List RejectedRecord
  changes : List ChangeView
  warnings : List Text
  deriving DecidableEq, Repr

namespace Receipt

def rejectedView (r : RejectedRecord) : RejectedView :=
  ⟨r.record.path.text, r.record.line, r.record.col, r.record.code, r.record.message, r.reason.text⟩

/-- What is shown of a receipt. -/
def view (r : Receipt) : RunView where
  dryRun := r.dryRun
  counts := r.counts
  rejected := r.rejected.map rejectedView
  changes := r.changes
  warnings := r.warnings

end Receipt

end TypeIgnore
