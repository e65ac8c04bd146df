import TypeIgnore.Text.Basic

/-!
# JSON values

* `Json` — a value; numbers are kept as written, fields in order;
* `Json.fields?` — the fields of a record by name, which can also be given by place;
* `Json.masked` — a value without what changes from run to run.
-/

namespace TypeIgnore

inductive Json
  | null
  | bool (b : Bool)
  | number (lexeme : Text)
  | string (t : Text)
  /-- A string with half of a surrogate pair, or an object with such a key. It stands where nothing reads it. -/
  | unreadable
  | array (items : List Json)
  | object (fields : List (Text × Json))
  deriving Repr

namespace Json

def text? : Json → Option Text
  | .string t => some t
  | _ => none

def bool? : Json → Option Bool
  | .bool b => some b
  | _ => none

def items? : Json → Option (List Json)
  | .array items => some items
  | _ => none

/-- The value of a field of an object. -/
def get? (j : Json) (key : Text) : Option Json :=
  match j with
  | .object fields => fields.lookup key
  | _ => none

/-! ## Records -/

/-- The values of the fields `names` of a record. An object has each of them at most once, and other fields do not
count; an array has their values in the order of `names`, and those missing at its end are not given. -/
def fields? (names : List Text) : Json → Option (List (Option Json))
  | .object fields =>
    let given := (fields.map (·.1)).filter names.contains
    if given.Nodup then some (names.map (List.lookup · fields)) else none
  | .array items =>
    if items.length ≤ names.length then
      some (items.map some ++ List.replicate (names.length - items.length) none)
    else none
  | _ => none

/-- A field that must be given. -/
def required (read : Json → Option α) (field : Option Json) : Option α := field.bind read

/-- A field that may be missing or null. -/
def optional (read : Json → Option α) (field : Option Json) : Option (Option α) :=
  match field with
  | none => some none
  | some .null => some none
  | some j => (read j).map some

/-- A list of values, empty if it is missing. -/
def listOf (read : Json → Option α) (field : Option Json) : Option (List α) :=
  match field with
  | none => some []
  | some j => j.items?.bind (·.mapM read)

/-- The name of a choice without further values, as a string or as the only field of an object. -/
def choice? : Json → Option Text
  | .string t => some t
  | .object [(t, .null)] => some t
  | _ => none

/-! ## Values that change from run to run -/

def maskedTime : Json := .string "__TIMESTAMP__"

def maskedVersion : Json := .string "__VERSION__"

def isTimeKey (key : Text) : Bool := key == "started_at" || key == "finished_at"

mutual

/-- The value with its times masked, at any depth. -/
def maskTimes : Json → Json
  | .array items => .array (maskTimesItems items)
  | .object fields => .object (maskTimesFields fields)
  | j => j

def maskTimesItems : List Json → List Json
  | [] => []
  | j :: items => maskTimes j :: maskTimesItems items

def maskTimesFields : List (Text × Json) → List (Text × Json)
  | [] => []
  | (key, j) :: fields => (key, if isTimeKey key then maskedTime else maskTimes j) :: maskTimesFields fields

end

/-- The tool that a receipt names, without its version. -/
def maskVersion : Json → Json
  | .object fields => .object (fields.map fun (key, j) => (key, if key = "version" then maskedVersion else j))
  | j => j

/-- It has the fields by which receipts are known. -/
def looksLikeReceipt (j : Json) : Bool :=
  (j.get? "schema").isSome && (j.get? "tool").isSome && (j.get? "counts").isSome

/-- The value with its times masked and, if it is a receipt, the version of its tool. -/
def masked (j : Json) : Json :=
  match j with
  | .object fields =>
    if j.looksLikeReceipt then
      maskTimes (.object (fields.map fun (key, j) => (key, if key = "tool" then maskVersion j else j)))
    else maskTimes j
  | j => maskTimes j

end Json

end TypeIgnore
