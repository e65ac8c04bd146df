import TypeIgnore.Source.Map
import TypeIgnore.Text.Utf8
import TypeIgnore.Proofs.Source.Literals

/-!
# What the rest of a line shows

What a scanner has pending is settled by the characters that come next. One that looks ahead instead knows at once, and
has nothing pending: where the rest of the line is the same, the two come to the same end.

* `Scanner.toLineEnd` — what the rest of a line comes to: the scanner after it, why the statement is left open, and the
  place of the `#` of its comment;
* `Scanner.toLineEnd_congr` — states that end alike and take the next character alike come to the same end;
* `Scanner.toLineEnd_opened`, `toLineEnd_closing`, `toLineEnd_brace`, `toLineEnd_escape`, `toLineEnd_name` — what is
  pending can be settled by what comes next;
* `Scanner.toLineEnd_comment` — nothing in a comment matters; `Scanner.toLineEnd_backslash` — nothing may follow a
  backslash.
-/

namespace TypeIgnore

/-- How many bytes a character takes. -/
def width (c : Char) : Nat := (String.utf8EncodeChar c).length

/-- What a line has shown. -/
structure LineScan where
  /-- The place of the `#` of its trailing comment. -/
  hash : Option Nat
  /-- Why the statement goes on after it. -/
  left : Option RegionKind
  deriving DecidableEq, Repr

structure LineEnd extends LineScan where
  /-- The scanner after the line. -/
  next : Scanner
  deriving DecidableEq, Repr

namespace Scanner

/-- The line ends here, with a break if `broken`, or else with the source. -/
def endHere (broken : Bool) (line : Nat) (s : Scanner) (hash : Option Nat) : Except LexError LineEnd :=
  if broken then (s.breakLine line).map fun r => ⟨⟨hash, r.2⟩, r.1⟩
  else (s.checkEnd line).map fun _ => ⟨⟨hash, none⟩, s.settled⟩

/-- What the rest of a line comes to, its first byte standing at place `i`. -/
def toLineEnd (broken : Bool) (line : Nat) (s : Scanner) (hash : Option Nat) (i : Nat) :
    Text → Except LexError LineEnd
  | [] => s.endHere broken line hash
  | c :: u => do
    let s ← s.step line c
    if s.inTrailingComment then s.endHere broken line (some i)
    else toLineEnd broken line s hash (i + width c) u

section Lookahead

variable {broken : Bool} {line depth i : Nat} {frames : List Frame} {hash : Option Nat} {u : Text} {c : Char}

theorem toLineEnd_cons {s s' : Scanner} (hs : s.step line c = .ok s') (hout : s'.inTrailingComment = false) :
    s.toLineEnd broken line hash i (c :: u) = s'.toLineEnd broken line hash (i + width c) u := by
  simp only [toLineEnd, hs, bind, Except.bind, hout, Bool.false_eq_true, if_false]

theorem toLineEnd_error {s : Scanner} {e : LexError} (hs : s.step line c = .error e) :
    s.toLineEnd broken line hash i (c :: u) = .error e := by
  simp only [toLineEnd, hs, bind, Except.bind]

/-- States that end alike and take the next character alike come to the same end. -/
theorem toLineEnd_congr {s s' : Scanner} (hend : s.endHere broken line hash = s'.endHere broken line hash)
    (hstep : ∀ c, u.head? = some c → s.step line c = s'.step line c) :
    s.toLineEnd broken line hash i u = s'.toLineEnd broken line hash i u := by
  cases u with
  | nil => exact hend
  | cons c u => rw [toLineEnd, toLineEnd, hstep c rfl]

/-! ## Literals -/

/-- After two quotes anything but a third is read as if nothing were pending. -/
theorem toLineEnd_doubled {quote : Char} {formatted : Bool} (h : u.head? ≠ some quote) :
    toLineEnd broken line ⟨frames, depth, .doubled quote formatted⟩ hash i u =
      toLineEnd broken line ⟨frames, depth, .nothing⟩ hash i u := by
  refine toLineEnd_congr rfl fun c hc => ?_
  have hne : c ≠ quote := by
    rintro rfl
    exact h hc
  simp only [step, if_neg hne]
  rfl

/-- One quote opens a literal, unless it is the first of three. -/
theorem toLineEnd_opened {quote : Char} {formatted : Bool} (hquote : isQuote quote = true)
    (h : ¬[quote, quote] <+: u) :
    toLineEnd broken line ⟨frames, depth, .opened quote formatted⟩ hash i u =
      toLineEnd broken line ⟨.literal ⟨quote, false, formatted, line⟩ :: frames, depth, .nothing⟩ hash i u := by
  cases u with
  | nil => cases broken <;> rfl
  | cons c u =>
    by_cases hc : c = quote
    · -- two quotes: an empty literal
      subst hc
      have hne : u.head? ≠ some c := by
        intro hhead
        obtain ⟨rest, rfl⟩ := List.head?_eq_some_iff.1 hhead
        exact h ⟨rest, rfl⟩
      have hclose : step line ⟨.literal ⟨c, false, formatted, line⟩ :: frames, depth, .nothing⟩ c =
          .ok ⟨frames, depth, .nothing⟩ := by
        simp [step, read, readLiteral, ne_of_isQuote hquote (x := '\\') rfl]
      have hdouble : step line ⟨frames, depth, .opened c formatted⟩ c = .ok ⟨frames, depth, .doubled c formatted⟩ := by
        simp [step]
      rw [toLineEnd_cons hdouble rfl, toLineEnd_cons hclose rfl, toLineEnd_doubled hne]
    · rw [toLineEnd, toLineEnd]
      simp only [step, if_neg hc]
      rfl

theorem toLineEnd_triple {quote : Char} {formatted : Bool} :
    toLineEnd broken line ⟨frames, depth, .opened quote formatted⟩ hash i (quote :: quote :: u) =
      toLineEnd broken line ⟨.literal ⟨quote, true, formatted, line⟩ :: frames, depth, .nothing⟩ hash
        (i + width quote + width quote) u := by
  have hdouble : step line ⟨frames, depth, .opened quote formatted⟩ quote =
      .ok ⟨frames, depth, .doubled quote formatted⟩ := by
    simp [step]
  have htriple : step line ⟨frames, depth, .doubled quote formatted⟩ quote =
      .ok ⟨.literal ⟨quote, true, formatted, line⟩ :: frames, depth, .nothing⟩ := by
    simp [step, push]
  rw [toLineEnd_cons hdouble rfl, toLineEnd_cons htriple rfl]

section Inside

variable {l : Literal} {below : List Frame}

/-- In a triple-quoted literal a quote is one of its characters, unless two more follow. -/
theorem toLineEnd_closing_of_head {n : Nat} (h : u.head? ≠ some l.quote) :
    toLineEnd broken line ⟨.literal l :: below, depth, .closing n⟩ hash i u =
      toLineEnd broken line ⟨.literal l :: below, depth, .nothing⟩ hash i u := by
  refine toLineEnd_congr rfl fun c hc => ?_
  have hne : c ≠ l.quote := by
    rintro rfl
    exact h hc
  simp only [step, read, readLiteral, if_neg hne]
  rfl

theorem step_quote_triple (hquote : isQuote l.quote = true) (htriple : l.triple = true) {p : Pending} {n : Nat}
    (hp : p = .nothing ∧ n = 0 ∨ p = .closing n) (hn : n < 2) :
    step line ⟨.literal l :: below, depth, p⟩ l.quote = .ok ⟨.literal l :: below, depth, .closing (n + 1)⟩ := by
  have hbackslash := ne_of_isQuote hquote (x := '\\') rfl
  rcases hp with ⟨rfl, rfl⟩ | rfl
  · simp [step, read, readLiteral, hbackslash, htriple, quotes]
  · simp [step, read, readLiteral, hbackslash, htriple, quotes, Nat.ne_of_lt hn]

theorem toLineEnd_closing (hquote : isQuote l.quote = true) (htriple : l.triple = true)
    (h : ¬[l.quote, l.quote] <+: u) :
    toLineEnd broken line ⟨.literal l :: below, depth, .closing 1⟩ hash i u =
      toLineEnd broken line ⟨.literal l :: below, depth, .nothing⟩ hash i u := by
  by_cases hhead : u.head? = some l.quote
  · obtain ⟨rest, rfl⟩ := List.head?_eq_some_iff.1 hhead
    have hne : rest.head? ≠ some l.quote := by
      intro hnext
      obtain ⟨rest', rfl⟩ := List.head?_eq_some_iff.1 hnext
      exact h ⟨rest', rfl⟩
    rw [toLineEnd_cons (step_quote_triple hquote htriple (.inr rfl) (by decide)) rfl,
      toLineEnd_cons (step_quote_triple hquote htriple (.inl ⟨rfl, rfl⟩) (by decide)) rfl,
      toLineEnd_closing_of_head hne, toLineEnd_closing_of_head hne]
  · exact toLineEnd_closing_of_head hhead

/-- Three quotes end a triple-quoted literal. -/
theorem toLineEnd_closed (hquote : isQuote l.quote = true) (htriple : l.triple = true) :
    toLineEnd broken line ⟨.literal l :: below, depth, .nothing⟩ hash i (l.quote :: l.quote :: l.quote :: u) =
      toLineEnd broken line ⟨below, depth, .nothing⟩ hash (i + width l.quote + width l.quote + width l.quote) u := by
  have hthird : step line ⟨.literal l :: below, depth, .closing 2⟩ l.quote = .ok ⟨below, depth, .nothing⟩ := by
    simp [step, read, readLiteral, ne_of_isQuote hquote (x := '\\') rfl, htriple, quotes]
  rw [toLineEnd_cons (step_quote_triple hquote htriple (.inl ⟨rfl, rfl⟩) (by decide)) rfl,
    toLineEnd_cons (step_quote_triple hquote htriple (.inr rfl) (by decide)) rfl, toLineEnd_cons hthird rfl]

/-- A brace opens a field, unless another one follows. -/
theorem toLineEnd_brace (h : u.head? ≠ some '{') :
    toLineEnd broken line ⟨.literal l :: below, depth, .brace⟩ hash i u =
      toLineEnd broken line ⟨.field 0 :: .literal l :: below, depth, .nothing⟩ hash i u := by
  refine toLineEnd_congr ?_ fun c hc => ?_
  · cases broken <;> rfl
  · have hne : c ≠ '{' := by
      rintro rfl
      exact h hc
    simp only [step, if_neg hne]
    rfl

/-- A backslash does not take the brace of a field with it. -/
theorem toLineEnd_escape_brace (hformatted : l.formatted = true) (hc : c = '{' ∨ c = '}') :
    toLineEnd broken line ⟨.literal l :: below, depth, .escape⟩ hash i (c :: u) =
      toLineEnd broken line ⟨.literal l :: below, depth, .nothing⟩ hash i (c :: u) := by
  have hbrace : ((c = '{' : Bool) || (c = '}' : Bool)) = true := by simpa using hc
  rw [toLineEnd, toLineEnd]
  simp only [step, inFormatted, hformatted, Bool.true_and, hbrace, if_true]
  rfl

theorem toLineEnd_escape (h : ¬(l.formatted = true ∧ (c = '{' ∨ c = '}'))) :
    toLineEnd broken line ⟨.literal l :: below, depth, .escape⟩ hash i (c :: u) =
      toLineEnd broken line ⟨.literal l :: below, depth, .nothing⟩ hash (i + width c) u := by
  have hplain : (l.formatted && ((c = '{' : Bool) || (c = '}' : Bool))) = false := by
    rw [Bool.eq_false_iff]
    simpa using h
  refine toLineEnd_cons ?_ rfl
  simp only [step, inFormatted, hplain]
  rfl

end Inside

/-! ## Code -/

theorem step_of_inCode (hcode : inCode frames = true) {p : Pending} (hp : p = .nothing ∨ ∃ letters, p = .name letters) :
    step line ⟨frames, depth, p⟩ c = readCode line ⟨frames, depth, p⟩ c := by
  rcases hp with rfl | ⟨letters, rfl⟩
  · exact read_of_inCode hcode
  · exact read_of_inCode hcode

/-- Nothing in a comment matters. -/
theorem toLineEnd_comment (hcode : inCode frames = true) :
    toLineEnd broken line ⟨frames, depth, .nothing⟩ hash i ('#' :: u) =
      endHere broken line ⟨frames, depth, .nothing⟩ (if frames.isEmpty then some i else hash) := by
  have hstep : step line ⟨frames, depth, .nothing⟩ '#' = .ok ⟨frames, depth, .comment⟩ := by
    rw [step_of_inCode hcode (.inl rfl), readCode, if_pos rfl]
  have hend : ∀ hash, endHere broken line ⟨frames, depth, .comment⟩ hash =
      endHere broken line ⟨frames, depth, .nothing⟩ hash := fun _ => rfl
  cases frames with
  | nil =>
    simp only [toLineEnd, hstep, bind, Except.bind]
    exact hend _
  | cons f below =>
    rw [toLineEnd_cons hstep rfl]
    generalize i + width '#' = j
    induction u generalizing j with
    | nil => exact hend _
    | cons c u ih =>
      have hstay : step line ⟨f :: below, depth, .comment⟩ c = .ok ⟨f :: below, depth, .comment⟩ := rfl
      rw [toLineEnd_cons hstay rfl]
      exact ih _

/-- A backslash in code must be the last character of its line. -/
theorem toLineEnd_backslash (hcode : inCode frames = true) :
    toLineEnd broken line ⟨frames, depth, .nothing⟩ hash i ('\\' :: u) =
      if u.isEmpty then endHere broken line ⟨frames, depth, .backslash⟩ hash
      else .error ⟨line, .afterContinuation⟩ := by
  have hstep : step line ⟨frames, depth, .nothing⟩ '\\' = .ok ⟨frames, depth, .backslash⟩ := by
    rw [step_of_inCode hcode (.inl rfl), readCode, if_neg (by decide), if_pos rfl]
  rw [toLineEnd_cons hstep rfl]
  cases u with
  | nil => rfl
  | cons c u => exact toLineEnd_error rfl

theorem toLineEnd_quote {quote : Char} (hcode : inCode frames = true) (hquote : isQuote quote = true) {letters : Text} :
    toLineEnd broken line ⟨frames, depth, .name letters⟩ hash i (quote :: u) =
      toLineEnd broken line ⟨frames, depth, .opened quote (isFormatted letters)⟩ hash (i + width quote) u := by
  refine toLineEnd_cons ?_ rfl
  rw [step_of_inCode hcode (.inr ⟨letters, rfl⟩), readCode_quote hquote]
  rfl

/-! ## Names -/

theorem continuesName_of_startsName (h : startsName c = true) : continuesName c = true := by
  simp only [startsName, continuesName, Char.isAlphanum, Bool.or_eq_true] at h ⊢
  tauto

/-- Before the first letter of a name nothing is pending. -/
theorem toLineEnd_name_nil (hcode : inCode frames = true) :
    toLineEnd broken line ⟨frames, depth, .name []⟩ hash i u =
      toLineEnd broken line ⟨frames, depth, .nothing⟩ hash i u := by
  refine toLineEnd_congr rfl fun c _ => ?_
  rw [step_of_inCode hcode (.inl rfl), step_of_inCode hcode (.inr ⟨[], rfl⟩)]
  rfl

/-- A name that no prefix of a literal is makes no difference to what follows it. -/
theorem toLineEnd_name {letters : Text} (hcode : inCode frames = true)
    (hstop : ∀ c, u.head? = some c → continuesName c = false)
    (hquote : ∀ c, u.head? = some c → isQuote c = true → isFormatted letters = false) :
    toLineEnd broken line ⟨frames, depth, .name letters⟩ hash i u =
      toLineEnd broken line ⟨frames, depth, .nothing⟩ hash i u := by
  refine toLineEnd_congr rfl fun c hc => ?_
  have hstart : startsName c = false := by
    rw [Bool.eq_false_iff]
    intro h
    exact Bool.false_ne_true ((hstop c hc).symm.trans (continuesName_of_startsName h))
  rw [step_of_inCode hcode (.inl rfl), step_of_inCode hcode (.inr ⟨letters, rfl⟩)]
  unfold readCode
  simp only [hstop c hc, hstart, Bool.false_and, Bool.or_self]
  split
  · rfl
  split
  · rfl
  split
  · rename_i hisQuote
    have hplain : isFormatted letters = false := hquote c hc hisQuote
    have hempty : isFormatted [] = false := rfl
    simp only [Scanner.letters, hplain, hempty]
  · rfl

theorem ne_of_continuesName {x : Char} (hc : continuesName c = true) (hx : continuesName x = false) : c ≠ x := by
  rintro rfl
  rw [hx] at hc
  cases hc

theorem readCode_letter {s : Scanner} (hc : continuesName c = true) (hstart : s.letters = [] → startsName c = true) :
    s.readCode line c = .ok { s with pending := .name (c :: s.letters) } := by
  have hne : ∀ x, continuesName x = false → c ≠ x := fun x hx => ne_of_continuesName hc hx
  have hquote : isQuote c = false := by simp [isQuote, hne '\'' rfl, hne '"' rfl]
  have hopening : isOpening c = false := by simp [isOpening, hne '(' rfl, hne '[' rfl, hne '{' rfl]
  have hclosing : isClosing c = false := by simp [isClosing, hne ')' rfl, hne ']' rfl, hne '}' rfl]
  have hletter : (startsName c || (continuesName c && !s.letters.isEmpty)) = true := by
    cases hletters : s.letters with
    | nil => simp [hstart hletters]
    | cons => simp [hc]
  unfold readCode
  rw [if_neg (hne '#' rfl), if_neg (hne '\\' rfl), hquote, hopening, hclosing, if_neg Bool.false_ne_true,
    if_neg Bool.false_ne_true, if_neg Bool.false_ne_true, if_neg (hne ':' rfl), if_pos hletter]

/-- The letters of a name are collected. -/
theorem toLineEnd_letters {word letters : Text} (hcode : inCode frames = true)
    (hword : ∀ c ∈ word, continuesName c = true)
    (hstart : letters = [] → ∀ c, word.head? = some c → startsName c = true) :
    toLineEnd broken line ⟨frames, depth, .name letters⟩ hash i (word ++ u) =
      toLineEnd broken line ⟨frames, depth, .name (word.reverse ++ letters)⟩ hash (i + (Utf8.encode word).length)
        u := by
  induction word generalizing letters i with
  | nil => rfl
  | cons c word ih =>
    have hstep : step line ⟨frames, depth, .name letters⟩ c = .ok ⟨frames, depth, .name (c :: letters)⟩ := by
      rw [step_of_inCode hcode (.inr ⟨letters, rfl⟩)]
      exact readCode_letter (hword c List.mem_cons_self) fun hletters => hstart hletters c rfl
    have hlength : (Utf8.encode (c :: word)).length = width c + (Utf8.encode word).length := by
      simp [Utf8.encode, width]
    rw [List.cons_append, toLineEnd_cons hstep rfl,
      ih (fun c' hc' => hword c' (List.mem_cons_of_mem _ hc')) (by simp), hlength, Nat.add_assoc,
      List.reverse_cons, List.append_assoc, List.singleton_append]

end Lookahead

end Scanner

end TypeIgnore
