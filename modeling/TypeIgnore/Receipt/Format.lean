import TypeIgnore.Json.Printer
import TypeIgnore.Json.Reader
import TypeIgnore.Receipt.Basic

/-!
# The format of receipts

* `Receipt.text` — a receipt as JSON;
* `Receipt.ofText` — a receipt read. A record may also be an array of its fields in order, unknown fields do not
  count, and a field may be missing if it is optional or a list;
* `Diagnostic.ofJsonText?` — a diagnostic read.
-/

namespace TypeIgnore

/-! ## Writing -/

namespace Json

def ofNat (n : Nat) : Json := .number (Text.ofNat n)

/-- An object from its fields, some of which may be left out. -/
def ofFields (fields : List (List (Text × Json))) : Json := .object fields.flatten

def field (key : Text) (j : Json) : List (Text × Json) := [(key, j)]

/-- A field that is left out if there is no value. -/
def fieldIf (key : Text) (write : α → Json) : Option α → List (Text × Json)
  | some a => [(key, write a)]
  | none => []

end Json

def ToolInfo.toJson (t : ToolInfo) : Json := .object [("name", .string t.name), ("version", .string t.version)]

def Counts.toJson (c : Counts) : Json :=
  .object [("silenced", .ofNat c.silenced), ("not_silenced", .ofNat c.notSilenced), ("ignored", .ofNat c.ignored),
    ("files_edited", .ofNat c.filesEdited)]

def Record.toJson (r : Record) : Json :=
  .ofFields [Json.field "path" (.string r.path.text), Json.field "line" (.ofNat r.line),
    Json.fieldIf "col" .ofNat r.col, Json.fieldIf "code" .string r.code,
    Json.field "message" (.string r.message), Json.field "fingerprint" (.string r.fingerprint)]

def RejectedRecord.toJson (r : RejectedRecord) : Json :=
  .object [("diagnostic", r.record.toJson), ("reason", .string r.reason.text)]

def ChangeView.toJson (c : ChangeView) : Json :=
  .object [("path", .string c.path), ("line", .ofNat c.line), ("before", .string c.before), ("after", .string c.after)]

namespace Receipt

/-- Warnings are left out if there are none. -/
def toJson (r : Receipt) : Json :=
  .ofFields [
    Json.field "schema" (.string r.schema),
    Json.field "tool" r.tool.toJson,
    Json.field "started_at" (.string r.startedAt.text),
    Json.field "finished_at" (.string r.finishedAt.text),
    Json.field "dry_run" (.bool r.dryRun),
    Json.field "counts" r.counts.toJson,
    Json.field "silenced" (.array (r.silenced.map Record.toJson)),
    Json.field "not_silenced" (.array (r.rejected.map RejectedRecord.toJson)),
    Json.field "changes" (.array (r.changes.map ChangeView.toJson)),
    if r.warnings.isEmpty then [] else Json.field "warnings" (.array (r.warnings.map .string))]

/-- The text of a receipt file. -/
def text (r : Receipt) : Text := r.toJson.pretty 0 ++ "\n"

end Receipt

/-! ## Reading -/

namespace Json

/-- A number of 32 bits, written with digits only. -/
def word? : Json → Option Nat
  | .number lexeme => Text.word? lexeme
  | _ => none

def time? (j : Json) : Option Timestamp := j.text?.bind Timestamp.ofText?

def path? (j : Json) : Option ReportPath := j.text?.map ReportPath.mk

def reason? (j : Json) : Option Reason := j.choice?.bind Reason.ofText?

def severity? (j : Json) : Option Severity := do
  let name ← j.choice?
  if name = "error" then some .error else if name = "syntax" then some .syntaxError else none

def tool? (j : Json) : Option ToolInfo := do
  match ← j.fields? ["name", "version"] with
  | [name, version] => return ⟨← required text? name, ← required text? version⟩
  | _ => none

def counts? (j : Json) : Option Counts := do
  match ← j.fields? ["silenced", "not_silenced", "ignored", "files_edited"] with
  | [silenced, notSilenced, ignored, filesEdited] =>
    return ⟨← required word? silenced, ← required word? notSilenced, ← required word? ignored,
      ← required word? filesEdited⟩
  | _ => none

def record? (j : Json) : Option Record := do
  match ← j.fields? ["path", "line", "col", "code", "message", "fingerprint"] with
  | [path, line, col, code, message, fingerprint] =>
    return ⟨← required path? path, ← required word? line, ← optional word? col, ← optional text? code,
      ← required text? message, ← required text? fingerprint⟩
  | _ => none

def rejectedRecord? (j : Json) : Option RejectedRecord := do
  match ← j.fields? ["diagnostic", "reason"] with
  | [record, reason] => return ⟨← required record? record, ← required reason? reason⟩
  | _ => none

def change? (j : Json) : Option ChangeView := do
  match ← j.fields? ["path", "line", "before", "after"] with
  | [path, line, before, after] =>
    return ⟨← required text? path, ← required word? line, ← required text? before, ← required text? after⟩
  | _ => none

def receipt? (j : Json) : Option Receipt := do
  match ← j.fields? ["schema", "tool", "started_at", "finished_at", "dry_run", "counts", "silenced",
      "not_silenced", "changes", "warnings"] with
  | [schema, tool, startedAt, finishedAt, dryRun, counts, silenced, rejected, changes, warnings] =>
    return {
      schema := ← required text? schema
      tool := ← required tool? tool
      startedAt := ← required time? startedAt
      finishedAt := ← required time? finishedAt
      dryRun := ← required bool? dryRun
      counts := ← required counts? counts
      silenced := ← listOf record? silenced
      rejected := ← listOf rejectedRecord? rejected
      changes := ← listOf change? changes
      warnings := ← listOf text? warnings }
  | _ => none

/-- A severity is an error if it is missing. -/
def diagnostic? (j : Json) : Option Diagnostic := do
  match ← j.fields? ["file_path", "line_no", "col_offset", "end_line_no", "end_col_offset", "error_code", "message",
      "severity"] with
  | [path, line, col, endLine, endCol, code, message, severity] =>
    return {
      path := ← required path? path
      line := ← required word? line
      col := ← optional word? col
      endLine := ← optional word? endLine
      endCol := ← optional word? endCol
      code := ← optional text? code
      message := ← required text? message
      severity := ← severity.elim (some .error) severity? }
  | _ => none

end Json

def Diagnostic.ofJsonText? (t : Text) : Option Diagnostic := (Json.ofText? t).bind Json.diagnostic?

inductive ReceiptError
  | malformed
  | schema (name : Text)
  deriving DecidableEq, Repr

def ReceiptError.message : ReceiptError → Text
  | .malformed => "parse receipt json: not a receipt"
  | .schema name => "unknown receipt schema: " ++ name ++ " (expected " ++ receiptSchema ++ ")"

/-- The receipt that a file holds. -/
def Receipt.ofText (t : Text) : Except ReceiptError Receipt :=
  match (Json.ofText? t).bind Json.receipt? with
  | none => .error .malformed
  | some r => if r.schema = receiptSchema then .ok r else .error (.schema r.schema)

end TypeIgnore
