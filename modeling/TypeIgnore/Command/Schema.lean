import TypeIgnore.Command.Invocation
import TypeIgnore.Receipt.Format

/-!
# Schemas

JSON schemas of settings and receipts. Properties stand in the order of their names, required ones are listed in the
order in which the record has them, and records are defined once and referred to.
-/

namespace TypeIgnore.Schema

abbrev Keyword := Text × Json

def keyword (key : Text) (j : Json) : List Keyword := [(key, j)]

def strings (ts : List String) : Json := .array (ts.map fun t => .string t.toList)

def described (t : Text) : List Keyword := keyword "description" (.string t)

def typed (t : Text) : List Keyword := keyword "type" (.string t)

/-- A type whose values may also be null. -/
def nullable (t : String) : List Keyword := keyword "type" (strings [t, "null"])

/-- What every number of 32 bits satisfies. -/
def wordRange : List Keyword := keyword "format" (.string "uint32") ++ keyword "minimum" (.ofNat 0)

def word : Json := .object (typed "integer" ++ wordRange)

def text : Json := .object (typed "string")

def reference (name : Text) : Json := .object (keyword "$ref" (.string ("#/$defs/".toList ++ name)))

/-- A list that is empty if it is missing. -/
def listOf (items : Json) : Json :=
  .object (typed "array" ++ keyword "default" (.array []) ++ keyword "items" items)

def named (fields : List (String × Json)) : Json := .object (fields.map fun (name, j) => (name.toList, j))

def properties (fields : List (String × Json)) : List Keyword := keyword "properties" (named fields)

def required (names : List String) : List Keyword := keyword "required" (strings names)

def record (fields : List (String × Json)) (needed : List String) : Json :=
  .object (typed "object" ++ properties fields ++ required needed)

/-- The rules of JSON Schema that a schema follows. -/
structure Dialect where
  host : Text
  draft : Text

def Dialect.uri (d : Dialect) : Text :=
  "https:".toList ++ "//".toList ++ d.host ++ "/draft/".toList ++ d.draft ++ "/schema".toList

def dialect : Dialect := ⟨"json-schema.org", "2020-12"⟩

def heading (title : Text) : List Keyword :=
  keyword "$schema" (.string dialect.uri) ++ keyword "title" (.string title)

/-! ## Settings -/

def textSetting (description : Text) : Json := .object (described description ++ nullable "string")

def listSetting (description : Text) (type : List Keyword) : Json :=
  .object (described description ++ type ++ keyword "items" text)

def settings : Json :=
  .object (heading "TypeshushConfigV1" ++ described "`typeshush.toml` schema v1." ++ typed "object" ++
    properties [
      ("allow_no_error_codes",
        .object (described "Do not warn when the report carries no error codes." ++ nullable "boolean")),
      ("description_style", textSetting "Copy checker messages into the comment: `none` (default) or `full`."),
      ("exclude",
        listSetting "Globs (relative to the working root) of files that are never edited." (typed "array")),
      ("follow_up", textSetting "Annotation appended after new markers. Defaults to `FIX ME`; blank disables it."),
      ("schema", textSetting "Optional schema string for tooling (`typeshush.config.v1`)."),
      ("search_paths",
        listSetting "Extra roots (relative to the working root) for `--module`/`--package` lookup." (typed "array")),
      ("silence_codes",
        listSetting "Only silence these error codes. Absent means every code." (nullable "array"))] ++
    keyword "additionalProperties" (.bool false))

/-! ## Receipts -/

def diagnosticRecord : Json :=
  record [
    ("code", .object (nullable "string")),
    ("col", .object (nullable "integer" ++ wordRange)),
    ("fingerprint", text),
    ("line", word),
    ("message", text),
    ("path", reference "SourcePath")]
    ["path", "line", "message", "fingerprint"]

def changeRecord : Json :=
  .object (described "One edited physical line, as trailing-comment text before and after." ++ typed "object" ++
    properties [("after", text), ("before", text), ("line", word), ("path", reference "SourcePath")] ++
    required ["path", "line", "before", "after"])

def reason : Json :=
  .object (described "Why a diagnostic was left untouched." ++ typed "string" ++
    keyword "enum" (.array (Reason.all.map fun r => .string r.text)))

def rejectedRecord : Json :=
  record [("diagnostic", reference "DiagnosticRecord"), ("reason", reference "NotSilencedReason")]
    ["diagnostic", "reason"]

def counts : Json :=
  let ignored := described "Dropped by file or code scope; never listed individually." ++ typed "integer" ++ wordRange
  record [("files_edited", word), ("ignored", .object ignored), ("not_silenced", word), ("silenced", word)]
    ["silenced", "not_silenced", "ignored", "files_edited"]

def pathDescription : Text :=
  Text.joinWith "\n" ([
    "Source file path exactly as a diagnostic report names it.",
    "",
    "Normalization is deliberately shallow so that paths still match the",
    "report text:",
    "- always forward slashes (`/`)",
    "- no leading `./`",
    "- absolute inputs stay absolute"].map String.toList)

def path : Json := .object (described pathDescription ++ typed "string")

def tool : Json := record [("name", text), ("version", text)] ["name", "version"]

def receipt : Json :=
  .object (heading "SilenceReceipt" ++ typed "object" ++
    properties [
      ("changes", listOf (reference "LineChangeRecord")),
      ("counts", reference "RunCounts"),
      ("dry_run", .object (typed "boolean")),
      ("finished_at", text),
      ("not_silenced", listOf (reference "NotSilencedRecord")),
      ("schema", text),
      ("silenced", listOf (reference "DiagnosticRecord")),
      ("started_at", text),
      ("tool", reference "ToolMeta"),
      ("warnings", .object (typed "array" ++ keyword "items" text))] ++
    required ["schema", "tool", "started_at", "finished_at", "dry_run", "counts"] ++
    keyword "$defs" (named [
      ("DiagnosticRecord", diagnosticRecord),
      ("LineChangeRecord", changeRecord),
      ("NotSilencedReason", reason),
      ("NotSilencedRecord", rejectedRecord),
      ("RunCounts", counts),
      ("SourcePath", path),
      ("ToolMeta", tool)]))

/-- The schema as it is printed. -/
def print : SchemaKind → Text
  | .config => settings.pretty 0 ++ "\n"
  | .receipt => receipt.pretty 0 ++ "\n"

end TypeIgnore.Schema
