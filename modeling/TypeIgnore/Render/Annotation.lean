import TypeIgnore.Render.Basic

/-!
# Annotations

A diagnostic that was left alone as a workflow command of a GitHub runner,
`::warning file=path,line=1,col=2,title=title::message`. In messages `%` and line breaks are written as percent signs
with a number, and in properties `:` and `,` too, so that the runner can tell the parts apart.
-/

namespace TypeIgnore

/-- `t` with `part` in place of each `c`. -/
def Text.replaceChar (c : Char) (part t : Text) : Text := t.flatMap fun x => if x = c then part else [x]

/-- A message. Its percent signs are replaced before those of the line breaks come in. -/
def escapeData (t : Text) : Text :=
  t |> Text.replaceChar '%' "%25" |> Text.replaceChar '\r' "%0D" |> Text.replaceChar '\n' "%0A"

/-- The value of a property. -/
def escapeProperty (t : Text) : Text :=
  escapeData t |> Text.replaceChar ':' "%3A" |> Text.replaceChar ',' "%2C"

namespace RejectedView

def annotationTitle (r : RejectedView) : Text := "typeshush " ++ r.reason

def annotationMessage (r : RejectedView) : Text :=
  let code : Text := match r.code with
    | some code => "[" ++ code ++ "] "
    | none => []
  code ++ r.message ++ " (not silenced: " ++ r.reason ++ ")"

def annotation (r : RejectedView) : Text :=
  let col : Text := match r.col with
    | some col => ",col=" ++ Text.ofNat col
    | none => []
  "::warning file=" ++ escapeProperty r.path ++ ",line=" ++ Text.ofNat r.line ++ col ++
    ",title=" ++ escapeProperty r.annotationTitle ++ "::" ++ escapeData r.annotationMessage

end RejectedView

def RunView.annotations (v : RunView) : List Text := v.rejected.map RejectedView.annotation

end TypeIgnore
