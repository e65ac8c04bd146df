import TypeIgnore.Text.Number

/-!
# JSON tokens

* `Json.Token` — the signs of a JSON text;
* `Json.tokens?` — a text cut into tokens, its strings decoded;
* `Json.quote` — a string as it is written.
-/

namespace TypeIgnore.Json

inductive Token
  | openBracket
  | closeBracket
  | openBrace
  | closeBrace
  | colon
  | comma
  | null
  | bool (b : Bool)
  | number (lexeme : Text)
  /-- `none` for a string with half of a surrogate pair. -/
  | string (t : Option Text)
  deriving DecidableEq, Repr

/-! ## Strings -/

/-- A unit of a string: a character as it is, or a number of 16 bits. -/
inductive StringUnit
  | char (c : Char)
  | code (n : Nat)
  deriving DecidableEq, Repr

/-- What a letter after a backslash stands for. -/
def unescape? : Char → Option Char
  | '"' => some '"'
  | '\\' => some '\\'
  | '/' => some '/'
  | 'b' => some '\x08'
  | 'f' => some '\x0c'
  | 'n' => some '\n'
  | 'r' => some '\r'
  | 't' => some '\t'
  | _ => none

/-- The units up to the closing quote, and what follows it. -/
def units? : Text → Option (List StringUnit × Text)
  | '"' :: t => some ([], t)
  | '\\' :: 'u' :: a :: b :: c :: d :: t => do
    let n := 4096 * (← Text.hexValue? a) + 256 * (← Text.hexValue? b) + 16 * (← Text.hexValue? c) +
      (← Text.hexValue? d)
    let (units, rest) ← units? t
    return (.code n :: units, rest)
  | '\\' :: c :: t => do
    let c ← unescape? c
    let (units, rest) ← units? t
    return (.char c :: units, rest)
  | c :: t =>
    if c < ' ' ∨ c = '\\' then none
    else do
      let (units, rest) ← units? t
      return (.char c :: units, rest)
  | [] => none

def isHighSurrogate (n : Nat) : Bool := 0xD800 ≤ n && n < 0xDC00

def isLowSurrogate (n : Nat) : Bool := 0xDC00 ≤ n && n < 0xE000

/-- The text of units; the two halves of a pair stand together. -/
def assemble? : List StringUnit → Option Text
  | [] => some []
  | .char c :: units => (assemble? units).map (c :: ·)
  | .code n :: units =>
    if isLowSurrogate n then none
    else if isHighSurrogate n then
      match units with
      | .code low :: units =>
        if isLowSurrogate low then
          (assemble? units).map (Char.ofNat (0x10000 + 1024 * (n - 0xD800) + (low - 0xDC00)) :: ·)
        else none
      | _ => none
    else (assemble? units).map (Char.ofNat n :: ·)

theorem length_units?_lt {t rest : Text} {units : List StringUnit} (h : units? t = some (units, rest)) :
    rest.length < t.length := by
  fun_induction units? t generalizing units rest with
  | case1 => cases h; simp
  | case2 a b c d t ih =>
    simp only [Option.bind_eq_bind, Option.bind_eq_some_iff] at h
    obtain ⟨_, _, _, _, _, _, _, _, ⟨units', rest'⟩, hu, he⟩ := h
    cases he
    have := ih hu
    simp; omega
  | case3 c t _ ih =>
    simp only [Option.bind_eq_bind, Option.bind_eq_some_iff] at h
    obtain ⟨_, _, ⟨units', rest'⟩, hu, he⟩ := h
    cases he
    have := ih hu
    simp; omega
  | case4 => cases h
  | case5 c t _ _ _ _ ih =>
    simp only [Option.bind_eq_bind, Option.bind_eq_some_iff] at h
    obtain ⟨⟨units', rest'⟩, hu, he⟩ := h
    cases he
    exact Nat.lt_succ_of_lt (ih hu)
  | case6 => cases h

/-! ## Numbers -/

/-- `t` after the digits at its start, of which there must be one. -/
def afterDigits? : Text → Option Text
  | c :: t => if Text.isPlainDigit c then some (t.dropWhile Text.isPlainDigit) else none
  | [] => none

/-- After a whole number: zero, or digits that do not start with zero. -/
def afterWhole? : Text → Option Text
  | '0' :: t => some t
  | t => afterDigits? t

/-- After a point and digits, if they are there. -/
def afterFraction? : Text → Option Text
  | '.' :: t => afterDigits? t
  | t => some t

/-- After `e`, a sign and digits, if they are there. -/
def afterExponent? : Text → Option Text
  | [] => some []
  | c :: t =>
    if c = 'e' ∨ c = 'E' then
      match t with
      | '+' :: t | '-' :: t => afterDigits? t
      | t => afterDigits? t
    else some (c :: t)

/-- The whole of `t` is a number. -/
def isNumber (t : Text) : Bool :=
  let unsigned := match t with
    | '-' :: t => t
    | t => t
  ((afterWhole? unsigned).bind afterFraction?).bind afterExponent? == some []

def isNumberChar (c : Char) : Bool :=
  Text.isPlainDigit c || c == '-' || c == '+' || c == '.' || c == 'e' || c == 'E'

/-! ## Texts -/

def isSpace (c : Char) : Bool := c == ' ' || c == '\n' || c == '\t' || c == '\r'

/-- The tokens of a text. -/
def tokens? : Text → Option (List Token)
  | [] => some []
  | '[' :: t => (tokens? t).map (.openBracket :: ·)
  | ']' :: t => (tokens? t).map (.closeBracket :: ·)
  | '\x7b' :: t => (tokens? t).map (.openBrace :: ·)
  | '\x7d' :: t => (tokens? t).map (.closeBrace :: ·)
  | ':' :: t => (tokens? t).map (.colon :: ·)
  | ',' :: t => (tokens? t).map (.comma :: ·)
  | 'n' :: 'u' :: 'l' :: 'l' :: t => (tokens? t).map (.null :: ·)
  | 't' :: 'r' :: 'u' :: 'e' :: t => (tokens? t).map (.bool true :: ·)
  | 'f' :: 'a' :: 'l' :: 's' :: 'e' :: t => (tokens? t).map (.bool false :: ·)
  | '"' :: t =>
    match _h : units? t with
    | some (units, rest) => (tokens? rest).map (.string (assemble? units) :: ·)
    | none => none
  | c :: t =>
    if isSpace c then tokens? t
    else
      let lexeme := c :: t.takeWhile isNumberChar
      if isNumber lexeme then (tokens? (t.dropWhile isNumberChar)).map (.number lexeme :: ·) else none
termination_by t => t.length
decreasing_by
  all_goals simp_wf
  all_goals first
    | omega
    | have h := length_units?_lt _h
      omega
    | have h := Text.length_dropWhile_le isNumberChar t
      omega

/-! ## Printing -/

/-- A character of a string as it is written. -/
def quoteChar (c : Char) : Text :=
  match c with
  | '"' => "\\\""
  | '\\' => "\\\\"
  | '\x08' => "\\b"
  | '\x0c' => "\\f"
  | '\n' => "\\n"
  | '\r' => "\\r"
  | '\t' => "\\t"
  | c =>
    if c < ' ' then "\\u00" ++ [Nat.digitChar (c.toNat / 16), Nat.digitChar (c.toNat % 16)] else [c]

/-- A string as it is written. -/
def quote (t : Text) : Text := '"' :: t.flatMap quoteChar ++ ['"']

end TypeIgnore.Json
