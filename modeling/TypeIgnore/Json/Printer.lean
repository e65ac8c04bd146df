import TypeIgnore.Json.Basic
import TypeIgnore.Json.Token

/-!
# Printing JSON

A value on several lines: each item and each field on a line of its own, two spaces further in than what it stands in.
-/

namespace TypeIgnore.Json

/-- A new line at a depth. -/
def newline (depth : Nat) : Text := '\n' :: List.replicate (2 * depth) ' '

mutual

/-- A value at a depth. -/
def pretty (depth : Nat) : Json → Text
  | .null => "null"
  | .bool true => "true"
  | .bool false => "false"
  | .number lexeme => lexeme
  | .string t => quote t
  | .unreadable => "null"
  | .array [] => "[]"
  | .array (j :: items) =>
    "[" ++ newline (depth + 1) ++ pretty (depth + 1) j ++ prettyItems (depth + 1) items ++ newline depth ++ "]"
  | .object [] => "\x7b\x7d"
  | .object ((key, j) :: fields) =>
    "\x7b" ++ newline (depth + 1) ++ quote key ++ ": " ++ pretty (depth + 1) j ++ prettyFields (depth + 1) fields ++
      newline depth ++ "\x7d"

/-- The items after the first. -/
def prettyItems (depth : Nat) : List Json → Text
  | [] => []
  | j :: items => "," ++ newline depth ++ pretty depth j ++ prettyItems depth items

/-- The fields after the first. -/
def prettyFields (depth : Nat) : List (Text × Json) → Text
  | [] => []
  | (key, j) :: fields => "," ++ newline depth ++ quote key ++ ": " ++ pretty depth j ++ prettyFields depth fields

end

end TypeIgnore.Json
