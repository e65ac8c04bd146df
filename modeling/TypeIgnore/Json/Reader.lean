import TypeIgnore.Json.Basic
import TypeIgnore.Json.Token

/-!
# Reading JSON

The reader goes through the tokens one by one. It keeps the arrays and objects that are still open, the innermost
first, each with what it has got so far, in reverse.

* `Json.Frame` — an array or object inside which a value is being read;
* `Json.State` — what may come next;
* `Json.ofText?` — a text read.
-/

namespace TypeIgnore.Json

/-- An object that is still open. -/
structure OpenObject where
  fields : List (Text × Json) := []
  /-- No key has half of a surrogate pair. -/
  readable : Bool := true

/-- The object with one more field. -/
def OpenObject.add (o : OpenObject) (key : Option Text) (j : Json) : OpenObject :=
  match key with
  | some key => { o with fields := (key, j) :: o.fields }
  | none => { o with readable := false }

def OpenObject.close (o : OpenObject) : Json := if o.readable then .object o.fields.reverse else .unreadable

inductive Frame
  | item (before : List Json)
  | field (before : OpenObject) (key : Option Text)

inductive State
  /-- A value, or the end of the array if it has just been opened. -/
  | value (mayClose : Bool) (frames : List Frame)
  /-- A key, or the end of the object if it has just been opened. -/
  | key (mayClose : Bool) (o : OpenObject) (frames : List Frame)
  | colon (o : OpenObject) (key : Option Text) (frames : List Frame)
  /-- A comma or the end of the array. -/
  | afterItem (items : List Json) (frames : List Frame)
  /-- A comma or the end of the object. -/
  | afterField (o : OpenObject) (frames : List Frame)
  | finished (j : Json)

/-- The state after a whole value. -/
def deliver (j : Json) : List Frame → State
  | [] => .finished j
  | .item before :: frames => .afterItem (j :: before) frames
  | .field before key :: frames => .afterField (before.add key j) frames

/-- A token where a value may stand. -/
def startValue (mayClose : Bool) (frames : List Frame) : Token → Option State
  | .openBracket => some (.value true (.item [] :: frames))
  | .openBrace => some (.key true {} frames)
  | .null => some (deliver .null frames)
  | .bool b => some (deliver (.bool b) frames)
  | .number lexeme => some (deliver (.number lexeme) frames)
  | .string (some t) => some (deliver (.string t) frames)
  | .string none => some (deliver .unreadable frames)
  | .closeBracket =>
    match mayClose, frames with
    | true, _ :: frames => some (deliver (.array []) frames)
    | _, _ => none
  | _ => none

def step : State → Token → Option State
  | .value mayClose frames, token => startValue mayClose frames token
  | .key _ o frames, .string t => some (.colon o t frames)
  | .key true o frames, .closeBrace => some (deliver o.close frames)
  | .colon o key frames, .colon => some (.value false (.field o key :: frames))
  | .afterItem items frames, .comma => some (.value false (.item items :: frames))
  | .afterItem items frames, .closeBracket => some (deliver (.array items.reverse) frames)
  | .afterField o frames, .comma => some (.key false o frames)
  | .afterField o frames, .closeBrace => some (deliver o.close frames)
  | _, _ => none

/-- The value that tokens write. -/
def ofTokens? (tokens : List Token) : Option Json :=
  match tokens.foldlM step (.value false []) with
  | some (.finished j) => some j
  | _ => none

/-- The value that a text writes. -/
def ofText? (t : Text) : Option Json := (tokens? t).bind ofTokens?

end TypeIgnore.Json
