import TypeIgnore.Text.Number

/-!
# TOML

The part of TOML that settings are written in: lines `key = value`, where a value is a string, a truth value or an
array of strings. All else that TOML has could not be a setting, so it reads as `none` here like a fault.

* `Toml.Token` — the signs of a document; blanks and comments are none;
* `Toml.tokens?` — a text cut into tokens, its strings decoded;
* `Toml.document?` — the keys and values of the tokens;
* `Toml.entries?` — both together; a key stands at most once.
-/

namespace TypeIgnore.Toml

/-! ## Strings -/

/-- A character that may stand in a string or a comment as it is. -/
def isPlain (c : Char) : Bool := c == '\t' || (' ' ≤ c && c != '\x7f')

/-- The character whose number the first `width` characters of `t` write in base 16. -/
def hexChar? (width : Nat) (t : Text) : Option Char := do
  let digits ← (t.take width).mapM Text.hexValue?
  let n := digits.foldl (fun n d => 16 * n + d) 0
  if digits.length = width ∧ n.isValidChar then some (Char.ofNat n) else none

/-- How many characters follow the letter of an escape by number. -/
def hexWidth? : Char → Option Nat
  | 'x' => some 2
  | 'u' => some 4
  | 'U' => some 8
  | _ => none

/-- What a letter after a backslash stands for. -/
def escaped? : Char → Option Char
  | 'b' => some '\x08'
  | 't' => some '\t'
  | 'n' => some '\n'
  | 'f' => some '\x0c'
  | 'r' => some '\r'
  | 'e' => some '\x1b'
  | '"' => some '"'
  | '\\' => some '\\'
  | _ => none

/-- Drops blanks and line breaks in front, and says whether a line break was among them. -/
def skipBreaks : Text → Bool × Text
  | ' ' :: t | '\t' :: t => skipBreaks t
  | '\n' :: t => (true, (skipBreaks t).2)
  | '\r' :: '\n' :: t => (true, (skipBreaks t).2)
  | t => (false, t)

theorem length_skipBreaks_le (t : Text) : (skipBreaks t).2.length ≤ t.length := by
  fun_induction skipBreaks t <;> simp_all <;> omega

/-- The text of a string with escapes. Line breaks are allowed if `multi`, and then a backslash at the end of a line
takes the break and all blanks after it away. -/
def unescape? (multi : Bool) : Text → Option Text
  | [] => some []
  | '\\' :: c :: t =>
    match hexWidth? c with
    | some width => do
      let value ← hexChar? width t
      return value :: (← unescape? multi (t.drop width))
    | none =>
      match escaped? c with
      | some value => do return value :: (← unescape? multi t)
      | none => if multi && (skipBreaks (c :: t)).1 then unescape? multi (skipBreaks (c :: t)).2 else none
  | '\\' :: [] => none
  | '\r' :: '\n' :: t => if multi then do return '\r' :: '\n' :: (← unescape? multi t) else none
  | c :: t => if isPlain c || (multi && c == '\n') then do return c :: (← unescape? multi t) else none
termination_by t => t.length
decreasing_by
  all_goals simp_wf
  all_goals first
    | omega
    | have h := length_skipBreaks_le (c :: t)
      rw [List.length_cons] at h
      omega

/-- The text of a string without escapes. -/
def literal? (multi : Bool) : Text → Option Text
  | [] => some []
  | '\r' :: '\n' :: t => if multi then do return '\r' :: '\n' :: (← literal? multi t) else none
  | c :: t => if isPlain c || (multi && c == '\n') then do return c :: (← literal? multi t) else none

/-- A line break right after the opening quotes does not count. -/
def dropFirstBreak : Text → Text
  | '\n' :: t => t
  | '\r' :: '\n' :: t => t
  | t => t

/-- The inside of a string up to the quote `q`, and what follows it. A backslash guards the character after it if
there are escapes. -/
def inside? (q : Char) (escapes : Bool) : Text → Option (Text × Text)
  | [] => none
  | '\n' :: _ => none
  | [c] => if c = q then some ([], []) else none
  | c :: d :: t =>
    if c = q then some ([], d :: t)
    else if escapes && c == '\\' then (inside? q escapes t).map fun (raw, rest) => (c :: d :: raw, rest)
    else (inside? q escapes (d :: t)).map fun (raw, rest) => (c :: raw, rest)

/-- The same up to three quotes; one or two more of them belong to the inside. -/
def insideTriple? (q : Char) (escapes : Bool) : Text → Option (Text × Text)
  | a :: b :: c :: t =>
    if a = q ∧ b = q ∧ c = q then
      let extra := (t.take 2).takeWhile (· == q)
      some (extra, t.drop extra.length)
    else if escapes && a == '\\' then
      (insideTriple? q escapes (c :: t)).map fun (raw, rest) => (a :: b :: raw, rest)
    else (insideTriple? q escapes (b :: c :: t)).map fun (raw, rest) => (a :: raw, rest)
  | _ => none

theorem length_inside?_lt {q : Char} {escapes : Bool} {t raw rest : Text}
    (h : inside? q escapes t = some (raw, rest)) : rest.length < t.length := by
  fun_induction inside? q escapes t generalizing raw rest with
  | case1 => cases h
  | case2 => cases h
  | case3 => simp_all
  | case4 => cases h
  | case5 => simp_all
  | case6 c d t _ _ _ ih =>
    obtain ⟨⟨raw', rest'⟩, hi, he⟩ := Option.map_eq_some_iff.1 h
    have := ih hi
    cases he
    simp; omega
  | case7 c d t _ _ _ ih =>
    obtain ⟨⟨raw', rest'⟩, hi, he⟩ := Option.map_eq_some_iff.1 h
    have := ih hi
    cases he
    exact Nat.lt_succ_of_lt this

theorem length_insideTriple?_lt {q : Char} {escapes : Bool} {t raw rest : Text}
    (h : insideTriple? q escapes t = some (raw, rest)) : rest.length < t.length := by
  fun_induction insideTriple? q escapes t generalizing raw rest with
  | case1 =>
    cases h
    simp
    omega
  | case2 a b c t _ _ ih =>
    obtain ⟨⟨raw', rest'⟩, hi, he⟩ := Option.map_eq_some_iff.1 h
    have := ih hi
    cases he
    exact Nat.lt_succ_of_lt (Nat.lt_succ_of_lt this)
  | case3 a b c t _ _ ih =>
    obtain ⟨⟨raw', rest'⟩, hi, he⟩ := Option.map_eq_some_iff.1 h
    have := ih hi
    cases he
    exact Nat.lt_succ_of_lt this
  | case4 => cases h

/-- The text of a string from its inside. -/
def decode? (multi escapes : Bool) (raw : Text) : Option Text :=
  if escapes then unescape? multi raw else literal? multi raw

/-! ## Tokens -/

inductive Token
  | newline
  | equals
  | comma
  | openBracket
  | closeBracket
  /-- A string; one in triple quotes is no key. -/
  | string (multi : Bool) (t : Text)
  /-- A key without quotes, `true` or `false`. -/
  | word (t : Text)
  deriving DecidableEq, Repr

def isWordChar (c : Char) : Bool := c.isAlphanum || c == '_' || c == '-'

/-- A string whose first quote has been read, and what follows it. -/
def string? (q : Char) (escapes : Bool) (t : Text) : Option (Token × Text) :=
  match Text.after? [q, q] t with
  | some t => (insideTriple? q escapes t).bind fun (raw, rest) =>
    (decode? true escapes (dropFirstBreak raw)).map fun s => (.string true s, rest)
  | none => (inside? q escapes t).bind fun (raw, rest) =>
    (decode? false escapes raw).map fun s => (.string false s, rest)

theorem length_string?_le {q : Char} {escapes : Bool} {t rest : Text} {token : Token}
    (h : string? q escapes t = some (token, rest)) : rest.length ≤ t.length := by
  unfold string? at h
  split at h
  · rename_i t' ht
    rw [Text.after?_eq_some_iff] at ht
    obtain ⟨⟨raw, rest'⟩, hi, hd⟩ := Option.bind_eq_some_iff.1 h
    obtain ⟨s, _, he⟩ := Option.map_eq_some_iff.1 hd
    cases he
    have := length_insideTriple?_lt hi
    simp only [ht, List.length_append]
    omega
  · obtain ⟨⟨raw, rest'⟩, hi, hd⟩ := Option.bind_eq_some_iff.1 h
    obtain ⟨s, _, he⟩ := Option.map_eq_some_iff.1 hd
    cases he
    exact Nat.le_of_lt (length_inside?_lt hi)

def isBreakChar (c : Char) : Bool := c == '\n' || c == '\r'

/-- The tokens of a text. -/
def tokens? : Text → Option (List Token)
  | [] => some []
  | ' ' :: t | '\t' :: t => tokens? t
  | '\n' :: t => do return .newline :: (← tokens? t)
  | '\r' :: '\n' :: t => do return .newline :: (← tokens? t)
  | '#' :: t =>
    if (t.takeWhile (!isBreakChar ·)).all isPlain then tokens? (t.dropWhile (!isBreakChar ·)) else none
  | '=' :: t => do return .equals :: (← tokens? t)
  | ',' :: t => do return .comma :: (← tokens? t)
  | '[' :: t => do return .openBracket :: (← tokens? t)
  | ']' :: t => do return .closeBracket :: (← tokens? t)
  | c :: t =>
    if c = '"' ∨ c = '\'' then
      match _h : string? c (c == '"') t with
      | some (token, rest) => do return token :: (← tokens? rest)
      | none => none
    else if isWordChar c then do
      return .word (c :: t.takeWhile isWordChar) :: (← tokens? (t.dropWhile isWordChar))
    else none
termination_by t => t.length
decreasing_by
  all_goals simp_wf
  all_goals first
    | omega
    | have h := length_string?_le _h
      omega
    | have h := Text.length_dropWhile_le (!isBreakChar ·) t
      omega
    | have h := Text.length_dropWhile_le isWordChar t
      omega

/-! ## Documents -/

inductive Value
  | text (t : Text)
  | bool (b : Bool)
  | texts (ts : List Text)
  deriving DecidableEq, Repr

def Value.text? : Value → Option Text
  | .text t => some t
  | _ => none

def Value.bool? : Value → Option Bool
  | .bool b => some b
  | _ => none

def Value.texts? : Value → Option (List Text)
  | .texts ts => some ts
  | _ => none

/-- The strings of an array up to its closing bracket. An item may come next if `ready`, else a comma. -/
def items? (ready : Bool) : List Token → Option (List Text × List Token)
  | .newline :: ts => items? ready ts
  | .closeBracket :: ts => some ([], ts)
  | .comma :: ts => if ready then none else items? true ts
  | .string _ t :: ts => if ready then (items? false ts).map fun (more, rest) => (t :: more, rest) else none
  | _ => none

theorem length_items?_lt {ready : Bool} {ts rest : List Token} {texts : List Text}
    (h : items? ready ts = some (texts, rest)) : rest.length < ts.length := by
  fun_induction items? ready ts generalizing texts rest with
  | case1 ready ts ih => exact Nat.lt_succ_of_lt (ih h)
  | case2 => cases h; simp
  | case3 => cases h
  | case4 ready ts _ ih => exact Nat.lt_succ_of_lt (ih h)
  | case5 multi t ts ih =>
    obtain ⟨⟨more, rest'⟩, hi, he⟩ := Option.map_eq_some_iff.1 h
    have := ih hi
    cases he
    exact Nat.lt_succ_of_lt this
  | case6 => cases h
  | case7 => cases h

def value? : List Token → Option (Value × List Token)
  | .string _ t :: ts => some (.text t, ts)
  | .openBracket :: ts => (items? true ts).map fun (texts, rest) => (.texts texts, rest)
  | .word t :: ts =>
    if t = "true" then some (.bool true, ts) else if t = "false" then some (.bool false, ts) else none
  | _ => none

theorem length_value?_lt {ts rest : List Token} {v : Value} (h : value? ts = some (v, rest)) :
    rest.length < ts.length := by
  unfold value? at h
  split at h
  · cases h; simp
  · obtain ⟨⟨texts, rest'⟩, hi, he⟩ := Option.map_eq_some_iff.1 h
    cases he
    exact Nat.lt_succ_of_lt (length_items?_lt hi)
  · split at h
    · cases h; simp
    · split at h
      · cases h; simp
      · cases h
  · cases h

def key? : Token → Option Text
  | .word t => some t
  | .string false t => some t
  | _ => none

/-- The keys and values of a document, in order. After a value the line ends. -/
def document? : List Token → Option (List (Text × Value))
  | [] => some []
  | .newline :: ts => document? ts
  | token :: .equals :: ts =>
    match _h : value? ts with
    | some (v, []) => do return [(← key? token, v)]
    | some (v, .newline :: rest) => do return (← key? token, v) :: (← document? rest)
    | _ => none
  | _ => none
termination_by ts => ts.length
decreasing_by
  all_goals simp_wf
  have := length_value?_lt ‹_›
  simp at this
  omega

/-- The keys and values of a text. A byte order mark in front does not count. -/
def entries? (t : Text) : Option (List (Text × Value)) := do
  let entries ← document? (← tokens? ((Text.after? "\uFEFF" t).getD t))
  if (entries.map (·.1)).Nodup then some entries else none

end TypeIgnore.Toml
