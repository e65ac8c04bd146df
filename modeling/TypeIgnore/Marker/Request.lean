import TypeIgnore.Marker.CodeSet
import TypeIgnore.Marker.Quoted
import TypeIgnore.Diagnostic.Basic

/-!
# Requests

What the diagnostics of one line ask of its comment: codes to add, codes to remove, a blanket marker, and the
messages to describe them with. `LineRequest.push` adds the wish of one diagnostic.
-/

namespace TypeIgnore

structure Description where
  /-- `none` for a diagnostic without code. -/
  code : Option Text
  message : Text
  deriving DecidableEq, Repr

structure LineRequest where
  add : CodeSet := []
  /-- A diagnostic without code needs a marker without codes. -/
  blanket : Bool := false
  /-- The wildcard stands for every code. -/
  remove : CodeSet := []
  descriptions : List Description := []
  deriving DecidableEq, Repr

namespace LineRequest

def isEmpty (r : LineRequest) : Bool := r.add.isEmpty && !r.blanket && r.remove.isEmpty

/-- A message on one line; a message given before is not repeated. -/
def describe (r : LineRequest) (code : Option Text) (message : Text) : LineRequest :=
  let message := Text.flatten message
  if r.descriptions.any (·.message == message) then r
  else { r with descriptions := r.descriptions ++ [⟨code, message⟩] }

/-- An unused marker loses the codes that the message quotes, or all of them; a marker without codes makes way
for the codes that the message quotes; any other diagnostic gets its code, or a blanket marker if it has none. -/
def push (r : LineRequest) (d : Diagnostic) : LineRequest :=
  match d.code with
  | none => { r with blanket := true }.describe none d.message
  | some code =>
    if code = unusedIgnoreCode then
      match quotedCodes d.message with
      | [] => { r with remove := r.remove.insert wildcard }
      | codes => { r with remove := r.remove.insertAll codes }
    else if code = ignoreWithoutCodeCode then
      { r with remove := r.remove.insert wildcard, add := r.add.insertAll (quotedCodes d.message) }
    else { r with add := r.add.insert code }.describe (some code) d.message

def ofDiagnostics (ds : List Diagnostic) : LineRequest := ds.foldl push {}

end LineRequest

end TypeIgnore
