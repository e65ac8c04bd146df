import TypeIgnore.Json.Printer
import TypeIgnore.Json.Reader
import TypeIgnore.Proofs.Text.Number

/-!
# JSON written and read

* `exists_units?_quoted`, `tokens?_quote` — a string is read back from its quoted form;
* `tokens?_ofNat` — so is a whole number, where nothing goes on with it;
* `IsPlain` — a value with whole numbers and without unreadable parts; `tokens` — its tokens;
* `tokens?_pretty` — a value is written as its tokens, and `foldlM_tokens` — it is put together from them again;
* `ofText?_pretty` — hence what is written is read back.
-/

namespace TypeIgnore.Json

/-! ## Strings -/

section Strings

theorem units?_plain {c : Char} (hquote : c ≠ '"') (hslash : c ≠ '\\') (hspace : ¬ c < ' ') (t : Text) :
    units? (c :: t) = (units? t).map fun (units, rest) => (.char c :: units, rest) := by
  rw [units?.eq_4 c t hquote (fun _ _ _ _ _ h => absurd h hslash) (fun _ _ h => absurd h hslash),
    if_neg (not_or.2 ⟨hspace, hslash⟩), Option.map_eq_bind]
  rfl

theorem units?_escaped {letter c : Char} (hletter : letter ≠ 'u') (hc : unescape? letter = some c) (t : Text) :
    units? ('\\' :: letter :: t) = (units? t).map fun (units, rest) => (.char c :: units, rest) := by
  rw [units?.eq_3 letter t (fun _ _ _ _ _ h => absurd h hletter), hc, Option.map_eq_bind]
  rfl

theorem hexValue?_digitChar : ∀ n < 16, Text.hexValue? (Nat.digitChar n) = some n := by decide

/-- A control character by its number. -/
theorem units?_code {n : Nat} (h : n < 256) (t : Text) :
    units? ("\\u00".toList ++ [Nat.digitChar (n / 16), Nat.digitChar (n % 16)] ++ t) =
      (units? t).map fun (units, rest) => (.code n :: units, rest) := by
  have hhigh := hexValue?_digitChar (n / 16) (by omega)
  have hlow := hexValue?_digitChar (n % 16) (by omega)
  have hzero : Text.hexValue? '0' = some 0 := by decide
  have hvalue : 4096 * 0 + 256 * 0 + 16 * (n / 16) + n % 16 = n := by omega
  have htext : "\\u00".toList ++ [Nat.digitChar (n / 16), Nat.digitChar (n % 16)] ++ t =
      '\\' :: 'u' :: '0' :: '0' :: Nat.digitChar (n / 16) :: Nat.digitChar (n % 16) :: t := rfl
  rw [htext, units?.eq_2, hzero, hhigh, hlow, Option.map_eq_bind]
  simp only [Option.bind_eq_bind, Option.bind_some, hvalue]
  rfl

theorem assemble?_code {c : Char} (h : c.toNat < 256) (units : List StringUnit) :
    assemble? (.code c.toNat :: units) = (assemble? units).map (c :: ·) := by
  have hlow : isLowSurrogate c.toNat = false := by simp [isLowSurrogate]; omega
  have hhigh : isHighSurrogate c.toNat = false := by simp [isHighSurrogate]; omega
  conv => lhs; unfold assemble?
  simp only [hlow, hhigh, Bool.false_eq_true, if_false, Char.ofNat_toNat]

/-- A character as it is written is one unit, which stands for it. -/
theorem exists_units?_quoteChar (c : Char) :
    ∃ unit : StringUnit,
      (∀ t, units? (quoteChar c ++ t) = (units? t).map fun (units, rest) => (unit :: units, rest)) ∧
      ∀ units, assemble? (unit :: units) = (assemble? units).map (c :: ·) := by
  unfold quoteChar
  split
  · exact ⟨.char '"', units?_escaped (by decide) rfl, fun _ => rfl⟩
  · exact ⟨.char '\\', units?_escaped (by decide) rfl, fun _ => rfl⟩
  · exact ⟨.char '\x08', units?_escaped (by decide) rfl, fun _ => rfl⟩
  · exact ⟨.char '\x0c', units?_escaped (by decide) rfl, fun _ => rfl⟩
  · exact ⟨.char '\n', units?_escaped (by decide) rfl, fun _ => rfl⟩
  · exact ⟨.char '\r', units?_escaped (by decide) rfl, fun _ => rfl⟩
  · exact ⟨.char '\t', units?_escaped (by decide) rfl, fun _ => rfl⟩
  · rename_i hquote hslash _ _ _ _ _
    split
    · rename_i hspace
      have hsmall : c.toNat < 256 := by
        have hlt : c.toNat < 32 := hspace
        omega
      exact ⟨.code c.toNat, units?_code hsmall, assemble?_code hsmall⟩
    · rename_i hspace
      exact ⟨.char c, units?_plain hquote hslash hspace, fun _ => rfl⟩

/-- A string is read back up to its closing quote. -/
theorem exists_units?_quoted (t rest : Text) :
    ∃ units, units? (t.flatMap quoteChar ++ '"' :: rest) = some (units, rest) ∧ assemble? units = some t := by
  induction t with
  | nil => exact ⟨[], rfl, rfl⟩
  | cons c t ih =>
    obtain ⟨units, hunits, hassemble⟩ := ih
    obtain ⟨unit, hread, hmeans⟩ := exists_units?_quoteChar c
    refine ⟨unit :: units, ?_, ?_⟩
    · rw [List.flatMap_cons, List.append_assoc, hread, hunits]
      rfl
    · rw [hmeans, hassemble]
      rfl

end Strings

/-! ## Tokens -/

section Tokens

variable (t : Text)

theorem tokens?_quote (s : Text) : tokens? (quote s ++ t) = (tokens? t).map (.string (some s) :: ·) := by
  obtain ⟨units, hunits, hassemble⟩ := exists_units?_quoted s t
  have htext : quote s ++ t = '"' :: (s.flatMap quoteChar ++ '"' :: t) := by simp [quote]
  rw [htext, tokens?]
  split
  · rename_i units' rest h
    rw [hunits] at h
    cases h
    rw [hassemble]
  · rename_i h
    rw [hunits] at h
    cases h

/-- Space between tokens does not count. -/
theorem tokens?_space {c : Char} (h : isSpace c = true) : tokens? (c :: t) = tokens? t := by
  simp only [isSpace, Bool.or_eq_true, beq_iff_eq] at h
  rcases h with ((rfl | rfl) | rfl) | rfl <;>
    rw [tokens?.eq_12 _ t] <;> simp [isSpace]

theorem tokens?_newline (depth : Nat) : tokens? (newline depth ++ t) = tokens? t := by
  have hblanks : ∀ k : Nat, tokens? (List.replicate k ' ' ++ t) = tokens? t := by
    intro k
    induction k with
    | zero => rfl
    | succ k ih =>
      rw [List.replicate_succ, List.cons_append, tokens?_space _ rfl, ih]
  rw [newline, List.cons_append, tokens?_space _ rfl, hblanks]

end Tokens

/-! ## Numbers -/

/-- No number goes on in the text. -/
def Stops (t : Text) : Prop := ∀ c ∈ t.head?, isNumberChar c = false

theorem isNumberChar_of_isPlainDigit {c : Char} (h : Text.isPlainDigit c = true) : isNumberChar c = true := by
  simp [isNumberChar, h]

/-- A whole number is zero, or digits that do not start with zero. -/
theorem afterWhole?_ofNat (n : Nat) : afterWhole? (Text.ofNat n) = some [] := by
  rcases Nat.eq_zero_or_pos n with rfl | hpos
  · decide
  · obtain ⟨c, digits, hdigits⟩ := List.exists_cons_of_ne_nil (Text.ofNat_ne_nil n)
    have hplain : ∀ x ∈ c :: digits, Text.isPlainDigit x = true := fun x hx =>
      Text.isPlainDigit_of_mem_ofNat (hdigits ▸ hx)
    have hzero : c ≠ '0' := by
      have hhead := Text.head?_ofNat hpos
      rw [hdigits] at hhead
      exact fun h => hhead (congrArg some h)
    have hdrop : digits.dropWhile Text.isPlainDigit = [] := by
      rw [← List.append_nil digits]
      exact Text.dropWhile_append_stop (fun x hx => hplain x (List.mem_cons_of_mem _ hx)) (by simp)
    rw [hdigits, afterWhole?.eq_2 _ fun _ h => hzero (List.cons.inj h).1, afterDigits?, hplain c List.mem_cons_self,
      if_pos rfl, hdrop]

theorem isNumber_ofNat (n : Nat) : isNumber (Text.ofNat n) = true := by
  unfold isNumber
  split
  · rename_i t h
    have hminus : '-' ∈ Text.ofNat n := h ▸ List.mem_cons_self
    exact absurd (Text.isPlainDigit_of_mem_ofNat hminus) (by decide)
  · simp only [afterWhole?_ofNat]
    rfl

theorem tokens?_ofNat (n : Nat) {t : Text} (ht : Stops t) :
    tokens? (Text.ofNat n ++ t) = (tokens? t).map (.number (Text.ofNat n) :: ·) := by
  obtain ⟨c, digits, hdigits⟩ := List.exists_cons_of_ne_nil (Text.ofNat_ne_nil n)
  have hnumber := isNumber_ofNat n
  have hplain : ∀ x ∈ c :: digits, Text.isPlainDigit x = true := fun x hx =>
    Text.isPlainDigit_of_mem_ofNat (hdigits ▸ hx)
  have hc := Text.isPlainDigit_iff.1 (hplain c List.mem_cons_self)
  have hrest : ∀ x ∈ digits, isNumberChar x = true := fun x hx =>
    isNumberChar_of_isPlainDigit (hplain x (List.mem_cons_of_mem _ hx))
  -- a digit is none of the other signs
  have hne : ∀ x : Char, ¬ (48 ≤ x.toNat ∧ x.toNat ≤ 57) → c = x → False := by
    rintro x hx rfl
    exact hx hc
  have hspace : isSpace c = false := by
    simp only [isSpace, Bool.or_eq_false_iff, beq_eq_false_iff_ne]
    exact ⟨⟨⟨hne _ (by decide), hne _ (by decide)⟩, hne _ (by decide)⟩, hne _ (by decide)⟩
  rw [hdigits] at hnumber ⊢
  rw [List.cons_append, tokens?.eq_12 c (digits ++ t) (hne _ (by decide)) (hne _ (by decide)) (hne _ (by decide))
    (hne _ (by decide)) (hne _ (by decide)) (hne _ (by decide)) (fun _ h _ => hne _ (by decide) h)
    (fun _ h _ => hne _ (by decide) h) (fun _ h _ => hne _ (by decide) h) (hne _ (by decide)),
    Text.takeWhile_append_stop hrest ht, Text.dropWhile_append_stop hrest ht]
  simp [hspace, hnumber]

/-! ## Values -/

mutual

/-- Nothing in the value stands for what cannot be read, and its numbers are whole. -/
def IsPlain : Json → Prop
  | .number lexeme => ∃ n, lexeme = Text.ofNat n
  | .unreadable => False
  | .array items => AllPlain items
  | .object fields => FieldsPlain fields
  | _ => True

def AllPlain : List Json → Prop
  | [] => True
  | j :: items => IsPlain j ∧ AllPlain items

def FieldsPlain : List (Text × Json) → Prop
  | [] => True
  | (_, j) :: fields => IsPlain j ∧ FieldsPlain fields

end

mutual

/-- The tokens that a value is written with. -/
def tokens : Json → List Token
  | .null => [.null]
  | .bool b => [.bool b]
  | .number lexeme => [.number lexeme]
  | .string t => [.string (some t)]
  | .unreadable => [.null]
  | .array [] => [.openBracket, .closeBracket]
  | .array (j :: items) => .openBracket :: (tokens j ++ (itemTokens items ++ [.closeBracket]))
  | .object [] => [.openBrace, .closeBrace]
  | .object ((key, j) :: fields) =>
    .openBrace :: .string (some key) :: .colon :: (tokens j ++ (fieldTokens fields ++ [.closeBrace]))

/-- The tokens of the items after the first. -/
def itemTokens : List Json → List Token
  | [] => []
  | j :: items => .comma :: (tokens j ++ itemTokens items)

/-- The tokens of the fields after the first. -/
def fieldTokens : List (Text × Json) → List Token
  | [] => []
  | (key, j) :: fields => .comma :: .string (some key) :: .colon :: (tokens j ++ fieldTokens fields)

end

/-! ## Values cut into tokens -/

section Signs

variable (t : Text)

theorem tokens?_openBracket : tokens? ("[" ++ t) = (tokens? t).map (.openBracket :: ·) := tokens?.eq_2 t

theorem tokens?_closeBracket : tokens? ("]" ++ t) = (tokens? t).map (.closeBracket :: ·) := tokens?.eq_3 t

theorem tokens?_openBrace : tokens? ("\x7b" ++ t) = (tokens? t).map (.openBrace :: ·) := tokens?.eq_4 t

theorem tokens?_closeBrace : tokens? ("\x7d" ++ t) = (tokens? t).map (.closeBrace :: ·) := tokens?.eq_5 t

theorem tokens?_colon : tokens? (": " ++ t) = (tokens? t).map (.colon :: ·) := by
  have htext : ": ".toList ++ t = ':' :: ' ' :: t := rfl
  rw [htext, tokens?.eq_6, tokens?_space t rfl]

theorem tokens?_comma : tokens? ("," ++ t) = (tokens? t).map (.comma :: ·) := tokens?.eq_7 t

end Signs

theorem stops_newline (depth : Nat) (t : Text) : Stops (newline depth ++ t) := by
  rintro c ⟨⟩
  rfl

theorem stops_prettyItems (depth : Nat) (items : List Json) {t : Text} (ht : Stops t) :
    Stops (prettyItems depth items ++ t) := by
  cases items with
  | nil => exact ht
  | cons j items =>
    rw [prettyItems]
    rintro c ⟨⟩
    rfl

theorem stops_prettyFields (depth : Nat) (fields : List (Text × Json)) {t : Text} (ht : Stops t) :
    Stops (prettyFields depth fields ++ t) := by
  cases fields with
  | nil => exact ht
  | cons field fields =>
    rw [prettyFields]
    rintro c ⟨⟩
    rfl

mutual

/-- **What is written for a value is its tokens.** -/
theorem tokens?_pretty (depth : Nat) : ∀ (j : Json) (t : Text), IsPlain j → Stops t →
    tokens? (pretty depth j ++ t) = (tokens? t).map (tokens j ++ ·)
  | .null, t, _, _ => tokens?.eq_8 t
  | .bool true, t, _, _ => tokens?.eq_9 t
  | .bool false, t, _, _ => tokens?.eq_10 t
  | .number lexeme, t, ⟨n, hn⟩, ht => by
    subst hn
    exact tokens?_ofNat n ht
  | .string s, t, _, _ => tokens?_quote t s
  | .array [], t, _, _ => by
    have htext : pretty depth (.array []) ++ t = "[" ++ ("]" ++ t) := rfl
    rw [htext, tokens?_openBracket, tokens?_closeBracket, Option.map_map]
    rfl
  | .array (j :: items), t, ⟨hj, hitems⟩, _ => by
    have hend := stops_newline depth ("]" ++ t)
    simp only [pretty, List.append_assoc]
    rw [tokens?_openBracket, tokens?_newline, tokens?_pretty (depth + 1) j _ hj (stops_prettyItems _ items hend),
      tokens?_prettyItems (depth + 1) items _ hitems hend, tokens?_newline, tokens?_closeBracket]
    simp [tokens, Function.comp_def]
  | .object [], t, _, _ => by
    have htext : pretty depth (.object []) ++ t = "\x7b" ++ ("\x7d" ++ t) := rfl
    rw [htext, tokens?_openBrace, tokens?_closeBrace, Option.map_map]
    rfl
  | .object ((key, j) :: fields), t, ⟨hj, hfields⟩, _ => by
    have hend := stops_newline depth ("\x7d" ++ t)
    simp only [pretty, List.append_assoc]
    rw [tokens?_openBrace, tokens?_newline, tokens?_quote, tokens?_colon,
      tokens?_pretty (depth + 1) j _ hj (stops_prettyFields _ fields hend),
      tokens?_prettyFields (depth + 1) fields _ hfields hend, tokens?_newline, tokens?_closeBrace]
    simp [tokens, Function.comp_def]

theorem tokens?_prettyItems (depth : Nat) : ∀ (items : List Json) (t : Text), AllPlain items → Stops t →
    tokens? (prettyItems depth items ++ t) = (tokens? t).map (itemTokens items ++ ·)
  | [], t, _, _ => by simp [prettyItems, itemTokens]
  | j :: items, t, ⟨hj, hitems⟩, ht => by
    simp only [prettyItems, List.append_assoc]
    rw [tokens?_comma, tokens?_newline, tokens?_pretty depth j _ hj (stops_prettyItems _ items ht),
      tokens?_prettyItems depth items _ hitems ht]
    simp [itemTokens, Function.comp_def]

theorem tokens?_prettyFields (depth : Nat) : ∀ (fields : List (Text × Json)) (t : Text), FieldsPlain fields →
    Stops t → tokens? (prettyFields depth fields ++ t) = (tokens? t).map (fieldTokens fields ++ ·)
  | [], t, _, _ => by simp [prettyFields, fieldTokens]
  | (key, j) :: fields, t, ⟨hj, hfields⟩, ht => by
    simp only [prettyFields, List.append_assoc]
    rw [tokens?_comma, tokens?_newline, tokens?_quote, tokens?_colon,
      tokens?_pretty depth j _ hj (stops_prettyFields _ fields ht), tokens?_prettyFields depth fields _ hfields ht]
    simp [fieldTokens, Function.comp_def]

end

/-! ## Tokens read -/

mutual

/-- **A value is put together from its tokens,** wherever it stands. -/
theorem foldlM_tokens : ∀ (j : Json) (mayClose : Bool) (frames : List Frame) (more : List Token), IsPlain j →
    (tokens j ++ more).foldlM step (.value mayClose frames) = more.foldlM step (deliver j frames)
  | .null, mayClose, frames, more, _ => rfl
  | .bool b, mayClose, frames, more, _ => rfl
  | .number lexeme, mayClose, frames, more, _ => rfl
  | .string s, mayClose, frames, more, _ => rfl
  | .array [], mayClose, frames, more, _ => rfl
  | .array (j :: items), mayClose, frames, more, ⟨hj, hitems⟩ => by
    have hopen : (tokens (.array (j :: items)) ++ more).foldlM step (.value mayClose frames) =
        (tokens j ++ (itemTokens items ++ .closeBracket :: more)).foldlM step (.value true (.item [] :: frames)) := by
      simp only [tokens, List.cons_append, List.append_assoc, List.nil_append]
      rfl
    rw [hopen, foldlM_tokens j _ _ _ hj]
    exact foldlM_itemTokens items [j] frames more hitems
  | .object [], mayClose, frames, more, _ => rfl
  | .object ((key, j) :: fields), mayClose, frames, more, ⟨hj, hfields⟩ => by
    have hopen : (tokens (.object ((key, j) :: fields)) ++ more).foldlM step (.value mayClose frames) =
        (tokens j ++ (fieldTokens fields ++ .closeBrace :: more)).foldlM step
          (.value false (.field {} (some key) :: frames)) := by
      simp only [tokens, List.cons_append, List.append_assoc, List.nil_append]
      rfl
    rw [hopen, foldlM_tokens j _ _ _ hj]
    exact foldlM_fieldTokens fields [(key, j)] frames more hfields

theorem foldlM_itemTokens : ∀ (items before : List Json) (frames : List Frame) (more : List Token), AllPlain items →
    (itemTokens items ++ .closeBracket :: more).foldlM step (.afterItem before frames) =
      more.foldlM step (deliver (.array (before.reverse ++ items)) frames)
  | [], before, frames, more, _ => by
    rw [List.append_nil]
    rfl
  | j :: items, before, frames, more, ⟨hj, hitems⟩ => by
    have hcomma : (itemTokens (j :: items) ++ .closeBracket :: more).foldlM step (.afterItem before frames) =
        (tokens j ++ (itemTokens items ++ .closeBracket :: more)).foldlM step
          (.value false (.item before :: frames)) := by
      simp only [itemTokens, List.cons_append, List.append_assoc]
      rfl
    have hrest := foldlM_itemTokens items (j :: before) frames more hitems
    rw [List.reverse_cons, List.append_assoc] at hrest
    rw [hcomma, foldlM_tokens j _ _ _ hj]
    exact hrest

theorem foldlM_fieldTokens : ∀ (fields before : List (Text × Json)) (frames : List Frame) (more : List Token),
    FieldsPlain fields →
    (fieldTokens fields ++ .closeBrace :: more).foldlM step (.afterField { fields := before } frames) =
      more.foldlM step (deliver (.object (before.reverse ++ fields)) frames)
  | [], before, frames, more, _ => by
    rw [List.append_nil]
    rfl
  | (key, j) :: fields, before, frames, more, ⟨hj, hfields⟩ => by
    have hcomma : (fieldTokens ((key, j) :: fields) ++ .closeBrace :: more).foldlM step
        (.afterField { fields := before } frames) =
        (tokens j ++ (fieldTokens fields ++ .closeBrace :: more)).foldlM step
          (.value false (.field { fields := before } (some key) :: frames)) := by
      simp only [fieldTokens, List.cons_append, List.append_assoc]
      rfl
    have hrest := foldlM_fieldTokens fields ((key, j) :: before) frames more hfields
    rw [List.reverse_cons, List.append_assoc] at hrest
    rw [hcomma, foldlM_tokens j _ _ _ hj]
    exact hrest

end

/-- **What is written is read back.** -/
theorem ofText?_pretty {j : Json} (h : IsPlain j) : ofText? (pretty 0 j ++ "\n") = some j := by
  have hstops : Stops "\n".toList := by
    rintro c ⟨⟩
    rfl
  have htokens : tokens? (pretty 0 j ++ "\n".toList) = some (tokens j) := by
    have hend : tokens? "\n".toList = some [] := by
      rw [← List.append_nil "\n".toList]
      exact (tokens?_space [] rfl).trans tokens?.eq_1
    rw [tokens?_pretty 0 j _ h hstops, hend, Option.map_some, List.append_nil]
  have hread := foldlM_tokens j false [] [] h
  rw [List.append_nil] at hread
  rw [ofText?, htokens, Option.bind_some, ofTokens?, hread]
  rfl

end TypeIgnore.Json
