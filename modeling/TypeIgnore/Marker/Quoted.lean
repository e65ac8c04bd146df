import TypeIgnore.Marker.Comment

/-!
# Markers quoted in messages

A message of the checker can quote a marker, as in `Unused "type: ignore[a, b]" comment`. `quotedCodes` are the
codes of the first marker quoted with codes.
-/

namespace TypeIgnore

/-- A character that may stand in the bracket of a quoted marker. -/
def isQuotedChar (c : Char) : Bool :=
  ('a' ≤ c && c ≤ 'z') || ('0' ≤ c && c ≤ '9') || c == ',' || c == ' ' || c == '_' || c == '-'

/-- The codes of the marker that `t` starts with, its `#` not being quoted; none without a bracket. -/
def quotedAt (t : Text) : List Text :=
  let inside? := do
    let rest ← (Text.after? "type" t).bind (afterWords? (markerWords.drop 1))
    let rest ← Text.after? "[" (Text.trimStart rest)
    let _ ← Text.after? "]" (rest.dropWhile isQuotedChar)
    return rest.takeWhile isQuotedChar
  (inside?.map Text.commaList).getD []

/-- The codes of the first marker in the message that is quoted with codes. -/
def quotedCodes : Text → List Text
  | [] => []
  | c :: t =>
    match quotedAt (c :: t) with
    | [] => quotedCodes t
    | codes => codes

end TypeIgnore
