import TypeIgnore.Proofs.Source.ByteReading

/-!
# Scanning bytes and scanning characters

The scanner of bytes looks ahead, and stands between two bytes of a character now and then; the scanner of characters
waits for what comes next. They agree on what the rest of the line comes to.

* `LineTail` — what follows the text of a line: its break and the lines after it, or the end of the source;
* `ByteScanner.Stands` — where a scanner can stand in a line; `ByteScanner.outlook` — what the rest of it comes to;
* `ByteScanner.Outcome` — what a step comes to: an error, a place in the same line with the same outlook, or the next
  line, with what the outlook was;
* `Faces.readLiteral`, `Faces.readSpec`, `Faces.readCode` — a step at a character;
* `Stands.step` — **every step has such an outcome.**
-/

namespace TypeIgnore

/-! ## Lines -/

/-- What follows the text of a line. -/
inductive LineTail
  | sourceEnd
  /-- A break that the text after it does not make a longer one. -/
  | lineBreak (b : LineBreak) (after : Text) (apart : b = .cr → after.head? ≠ some '\n')

namespace LineTail

def text : LineTail → Text
  | .sourceEnd => []
  | .lineBreak b after _ => b.text ++ after

def isBroken : LineTail → Bool
  | .sourceEnd => false
  | .lineBreak _ _ _ => true

theorem exists_text (b : LineBreak) : ∃ c t, b.text = c :: t ∧ isBreak c = true := by
  cases b
  · exact ⟨'\n', [], rfl, rfl⟩
  · exact ⟨'\r', ['\n'], rfl, rfl⟩
  · exact ⟨'\r', [], rfl, rfl⟩

/-- What follows starts with a break, if with anything. -/
theorem isBreak_of_head? (tail : LineTail) {c : Char} (h : tail.text.head? = some c) : isBreak c = true := by
  cases tail with
  | sourceEnd => cases h
  | lineBreak b after apart =>
    obtain ⟨x, t, htext, hx⟩ := exists_text b
    rw [text, htext] at h
    cases h
    exact hx

/-- Any other character that comes next is one of the line. -/
theorem head?_append (tail : LineTail) {u : Text} {c : Char} (hc : isBreak c = false) :
    (u ++ tail.text).head? = some c ↔ u.head? = some c := by
  cases u with
  | nil =>
    refine iff_of_false (fun h => ?_) (by simp)
    rw [tail.isBreak_of_head? h] at hc
    cases hc
  | cons d u => rfl

end LineTail

namespace ByteScanner

open Scanner (toLineEnd endHere isQuote isOpening isClosing startsName continuesName literalPrefixes isFormatted)

/-! ## Where a scanner stands -/

/-- The scanner of characters with the same frames and brackets. -/
def scanner (k : ByteScanner) : Scanner := ⟨k.frames, k.depth, if k.continued then .backslash else .nothing⟩

/-- What the rest `u` of the line comes to, `cs` standing before it. -/
def outlook (tail : LineTail) (k : ByteScanner) (cs : List UInt8) (u : Text) : Except LexError LineEnd :=
  k.scanner.toLineEnd tail.isBroken k.line k.hash (k.pos + cs.length) u

/-- The scanner stands in a line: `cs` is left of a character that it is in, then `u` of the line. -/
structure Stands (bytes : List UInt8) (tail : LineTail) (k : ByteScanner) (cs : List UInt8) (u : Text) : Prop where
  drop : bytes.drop k.pos = cs ++ Utf8.encode (u ++ tail.text)
  high : ∀ b ∈ cs, isWide (Char.ofUInt8 b) = true
  code : inCode k.frames = true → cs = []
  free : BreakFree u
  continued : k.continued = true → cs = [] ∧ u = [] ∧ k.frames = [] ∧ tail.isBroken = true

/-- The two are in the same line. -/
structure SameLine (k k' : ByteScanner) : Prop where
  line : k'.line = k.line
  scans : k'.scans = k.scans
  statement : k'.statement = k.statement
  regions : k'.regions = k.regions

/-- After the line that `k` stands in, which has ended as `r` says. -/
def after (k : ByteScanner) (pos : Nat) (r : LineEnd) : ByteScanner where
  pos
  line := k.line + 1
  depth := r.next.depth
  frames := r.next.frames
  continued := false
  hash := none
  scans := k.scans ++ [r.toLineScan]
  statement := OpenStatement.advance k.line r.left k.statement
  regions := k.regions ++ OpenStatement.close k.line r.left k.statement

/-- What a step from `k` comes to, where the line comes to `expected`. -/
inductive Outcome (bytes : List UInt8) (tail : LineTail) (k : ByteScanner) (expected : Except LexError LineEnd) :
    Except Halt ByteScanner → Prop
  | error {e : LexError} (h : expected = .error e) : Outcome bytes tail k expected (.error (.error e))
  | within {k' : ByteScanner} {cs : List UInt8} {u : Text} (hstands : Stands bytes tail k' cs u) (hsame : SameLine k k')
      (houtlook : k'.outlook tail cs u = expected) : Outcome bytes tail k expected (.ok k')
  | nextLine {b : LineBreak} {v : Text} {apart : b = .cr → v.head? ≠ some '\n'} {r : LineEnd} {pos : Nat}
      (htail : tail = .lineBreak b v apart) (h : expected = .ok r) (hpending : r.next.pending = .nothing)
      (hshows : Shows bytes pos v) : Outcome bytes tail k expected (.ok (k.after pos r))

section Steps

variable {bytes : List UInt8} {tail : LineTail} {k : ByteScanner} {c x : Char} {u : Text} {cs : List UInt8}
  {expected : Except LexError LineEnd}

theorem scanner_eq (hcontinued : k.continued = false) : k.scanner = ⟨k.frames, k.depth, .nothing⟩ := by
  rw [scanner, hcontinued]
  rfl

theorem left_eq (hcontinued : k.continued = false) : k.left = Scanner.leftOpen false ⟨k.frames, k.depth, .nothing⟩ := by
  rw [left, hcontinued]
  rfl

/-- The step stays in the line, with nothing pending. -/
theorem Outcome.of_drop (k' : ByteScanner) (u' : Text)
    (hdrop : bytes.drop k'.pos = cs ++ Utf8.encode (u' ++ tail.text))
    (hhigh : ∀ b ∈ cs, isWide (Char.ofUInt8 b) = true) (hcode : inCode k'.frames = true → cs = [])
    (hfree : BreakFree u') (hsame : SameLine k k') (hcontinued : k'.continued = false)
    (houtlook : toLineEnd tail.isBroken k.line ⟨k'.frames, k'.depth, .nothing⟩ k'.hash (k'.pos + cs.length) u' =
      expected) : Outcome bytes tail k expected (.ok k') := by
  refine .within ⟨hdrop, hhigh, hcode, hfree, by simp [hcontinued]⟩ hsame ?_
  rw [outlook, scanner_eq hcontinued, hsame.line]
  exact houtlook

theorem Outcome.of_shows (k' : ByteScanner) (u' : Text) (hshows : Shows bytes k'.pos (u' ++ tail.text))
    (hfree : BreakFree u') (hsame : SameLine k k') (hcontinued : k'.continued = false)
    (houtlook : toLineEnd tail.isBroken k.line ⟨k'.frames, k'.depth, .nothing⟩ k'.hash k'.pos u' = expected) :
    Outcome bytes tail k expected (.ok k') :=
  .of_drop k' u' (hshows.trans (List.nil_append _).symm) (by simp) (fun _ => rfl) hfree hsame hcontinued houtlook

theorem byteAt_break {i : Nat} {b : LineBreak} {v : Text} (hshows : Shows bytes i (b.text ++ v)) :
    ∃ y, byteAt bytes i = .ok y ∧ isBreak y = true := by
  obtain ⟨y, t, htext, hy⟩ := LineTail.exists_text b
  rw [htext] at hshows
  exact ⟨y, (Shows.narrow hshows (isWide_of_isBreak hy)).1, hy⟩

/-- A line break, `n` bytes further on. -/
theorem Outcome.of_newline {b : LineBreak} {v : Text} {apart : b = .cr → v.head? ≠ some '\n'} {n : Nat}
    (hshows : Shows bytes (k.pos + n) (b.text ++ v))
    (h : expected = .ok ⟨⟨k.hash, k.left⟩, ⟨k.frames, k.depth, .nothing⟩⟩) :
    Outcome bytes (.lineBreak b v apart) k expected ((k.advance n).newline bytes) := by
  have hover : ∀ m, Shows bytes (k.pos + n + m) v →
      Outcome bytes (.lineBreak b v apart) k expected (.ok ((k.advance n).advance m).nextLine) :=
    fun m hv => .nextLine (r := ⟨⟨k.hash, k.left⟩, ⟨k.frames, k.depth, .nothing⟩⟩) rfl h rfl hv
  have hadvance : (k.advance n).pos = k.pos + n := rfl
  unfold newline
  rw [hadvance]
  cases b with
  | lf =>
    obtain ⟨hbyte, hv, -⟩ := Shows.narrow hshows rfl
    rw [hbyte]
    exact hover 1 hv
  | cr =>
    obtain ⟨hbyte, hv, -⟩ := Shows.narrow hshows rfl
    have hpeek : peek bytes (k.pos + n + 1) ≠ '\n' := fun h => apart rfl ((hv.peek_eq_iff rfl (by decide)).1 h)
    rw [hbyte]
    simp only [bind, Except.bind, hpeek]
    exact hover 1 hv
  | crlf =>
    obtain ⟨hbyte, hlf, -⟩ := Shows.narrow hshows rfl
    obtain ⟨-, hv, -⟩ := Shows.narrow hlf rfl
    have hpeek : peek bytes (k.pos + n + 1) = '\n' := (Shows.peek_eq_iff hlf rfl (by decide)).2 rfl
    rw [hbyte]
    simp only [bind, Except.bind, hpeek]
    exact hover 2 hv

/-- The scanner stands before the character `c` of a line, and `u` comes after it. -/
structure Faces (bytes : List UInt8) (tail : LineTail) (k : ByteScanner) (c : Char) (u : Text) : Prop where
  shows : Shows bytes k.pos (c :: (u ++ tail.text))
  notBreak : isBreak c = false
  free : BreakFree u
  continued : k.continued = false

/-- What the rest of the line comes to, with nothing pending. -/
def ahead (tail : LineTail) (k : ByteScanner) (u : Text) : Except LexError LineEnd :=
  toLineEnd tail.isBroken k.line ⟨k.frames, k.depth, .nothing⟩ k.hash k.pos u

/-- An ASCII character after which nothing is pending. -/
theorem Faces.move (h : Faces bytes tail k c u) (hc : isWide c = false) {frames : List Frame} {depth : Nat}
    (hstep : Scanner.step k.line ⟨k.frames, k.depth, .nothing⟩ c = .ok ⟨frames, depth, .nothing⟩) :
    Outcome bytes tail k (k.ahead tail (c :: u)) (.ok { k.advance 1 with frames, depth }) := by
  obtain ⟨-, hshows, hwidth⟩ := h.shows.narrow hc
  refine .of_shows _ u hshows h.free ⟨rfl, rfl, rfl, rfl⟩ h.continued ?_
  rw [ahead, Scanner.toLineEnd_cons hstep rfl, hwidth]
  rfl

/-- A character that changes nothing. Inside a literal, or a specification, its other bytes are left for later. -/
theorem Faces.stay (h : Faces bytes tail k c u) (hstarts : Starts bytes k.pos c (u ++ tail.text) x cs)
    (hcode : inCode k.frames = true → isWide c = false)
    (hstep : Scanner.step k.line ⟨k.frames, k.depth, .nothing⟩ c = .ok ⟨k.frames, k.depth, .nothing⟩) :
    Outcome bytes tail k (k.ahead tail (c :: u)) (.ok (k.advance 1)) := by
  refine .of_drop (k.advance 1) u hstarts.drop hstarts.high (fun hframes => hstarts.narrow (hcode hframes)) h.free
    ⟨rfl, rfl, rfl, rfl⟩ h.continued ?_
  rw [ahead, Scanner.toLineEnd_cons hstep rfl, hstarts.width, Nat.add_comm cs.length, ← Nat.add_assoc]
  rfl

/-! ## Literals -/

/-- Two quotes that follow are seen. -/
theorem peek_two {i : Nat} {quote : Char} (hshows : Shows bytes i (u ++ tail.text)) (hquote : isQuote quote = true) :
    ((peek bytes i = quote : Bool) && (peek bytes (i + 1) = quote : Bool)) = true ↔ [quote, quote] <+: u := by
  have hwide := isWide_of_isQuote hquote
  have hnull := ne_null_of_isQuote hquote
  have hbreak := not_isBreak_of_isQuote hquote
  rw [Bool.and_eq_true, decide_eq_true_eq, decide_eq_true_eq, hshows.peek_eq_iff hwide hnull, tail.head?_append hbreak]
  cases u with
  | nil => simp
  | cons d u =>
    rw [List.head?_cons, Option.some_inj, List.cons_prefix_cons]
    refine ⟨fun h => ⟨h.1.symm, ?_⟩, fun h => ⟨h.1.symm, ?_⟩⟩
    · obtain ⟨rfl, hpeek⟩ := h
      have hnext : Shows bytes (i + 1) (u ++ tail.text) := (Shows.narrow hshows hwide).2.1
      rw [hnext.peek_eq_iff hwide hnull, tail.head?_append hbreak] at hpeek
      obtain ⟨rest, rfl⟩ := List.head?_eq_some_iff.1 hpeek
      exact ⟨rest, rfl⟩
    · obtain ⟨rfl, rest, rfl⟩ := h
      obtain ⟨-, hnext, -⟩ := Shows.narrow hshows hwide
      rw [hnext.peek_eq_iff hwide hnull]
      rfl

section Literals

variable {l : Literal} {below : List Frame}

/-- A backslash, and what it takes with it. -/
theorem Faces.escape (h : Faces bytes tail k '\\' u) (hframes : k.frames = .literal l :: below) :
    Outcome bytes tail k (k.ahead tail ('\\' :: u)) (k.readLiteral bytes l below '\\') := by
  obtain ⟨-, hshows, hwidth⟩ := h.shows.narrow rfl
  have hnext : (k.advance 1).pos = k.pos + 1 := rfl
  have hpending : Scanner.step k.line ⟨k.frames, k.depth, .nothing⟩ '\\' = .ok ⟨k.frames, k.depth, .escape⟩ := by
    rw [hframes]
    rfl
  rw [ahead, Scanner.toLineEnd_cons hpending rfl, hwidth, readLiteral, if_pos rfl]
  dsimp only
  cases u with
  | nil =>
    cases tail with
    | sourceEnd =>
      have hend : (k.advance 1).atEnd bytes = true := decide_eq_true hshows.le
      rw [if_pos hend]
      exact .of_shows _ [] hshows breakFree_nil ⟨rfl, rfl, rfl, rfl⟩ h.continued rfl
    | lineBreak b v apart =>
      obtain ⟨y, hbyte, hy⟩ := byteAt_break hshows
      have hend : (k.advance 1).atEnd bytes = false := decide_eq_false (Nat.not_le.2 (lt_of_byteAt hbyte))
      rw [hend, if_neg Bool.false_ne_true, hnext, hbyte]
      simp only [bind, Except.bind, hy, if_true]
      refine .of_newline hshows ?_
      rw [left_eq h.continued]
      rfl
  | cons d u =>
    obtain ⟨hd, hfree⟩ := breakFree_cons.1 h.free
    obtain ⟨y, cs, hstarts⟩ := Shows.starts hshows
    have hend : (k.advance 1).atEnd bytes = false := decide_eq_false (Nat.not_le.2 (Shows.lt hshows))
    have hy : isBreak y = false := (hstarts.alike.test_eq fun _ => not_isBreak_of_isWide).trans hd
    rw [hend, if_neg Bool.false_ne_true, hnext, hstarts.byteAt]
    simp only [bind, Except.bind, hy, Bool.false_eq_true, if_false, hstarts.alike.eq_iff (y := '{') rfl,
      hstarts.alike.eq_iff (y := '}') rfl]
    by_cases hbrace : l.formatted = true ∧ (d = '{' ∨ d = '}')
    · rw [if_pos (by simpa using hbrace)]
      refine .of_shows _ (d :: u) hshows h.free ⟨rfl, rfl, rfl, rfl⟩ h.continued ?_
      rw [hframes, Scanner.toLineEnd_escape_brace hbrace.1 hbrace.2, ← hframes]
      rfl
    · rw [if_neg (by simpa using hbrace)]
      have hliteral : inCode k.frames = false := by rw [hframes]; rfl
      refine .of_drop ((k.advance 1).advance 1) u hstarts.drop hstarts.high
        (fun hcode => absurd (hliteral.symm.trans hcode) Bool.false_ne_true) hfree ⟨rfl, rfl, rfl, rfl⟩ h.continued ?_
      rw [hframes, Scanner.toLineEnd_escape hbrace, ← hframes, hstarts.width, Nat.add_comm cs.length, ← Nat.add_assoc]
      rfl

/-- A quote of the literal, and the two after it if it has three. -/
theorem Faces.quote (h : Faces bytes tail k l.quote u) (hframes : k.frames = .literal l :: below)
    (hquote : isQuote l.quote = true) :
    Outcome bytes tail k (k.ahead tail (l.quote :: u)) (k.readLiteral bytes l below l.quote) := by
  have hbackslash : l.quote ≠ '\\' := Scanner.ne_of_isQuote hquote rfl
  have hwide := isWide_of_isQuote hquote
  obtain ⟨-, hshows, hwidth⟩ := h.shows.narrow hwide
  unfold readLiteral
  rw [if_neg hbackslash, h.notBreak, if_neg Bool.false_ne_true, if_pos rfl]
  cases htriple : l.triple with
  | false =>
    have hstep : Scanner.step k.line ⟨k.frames, k.depth, .nothing⟩ l.quote = .ok ⟨below, k.depth, .nothing⟩ := by
      simp [hframes, Scanner.step, Scanner.read, Scanner.readLiteral, hbackslash, htriple]
    exact h.move hwide hstep
  | true =>
    rw [Bool.not_true, if_neg Bool.false_ne_true, ahead, hframes]
    split
    · rename_i htwo
      obtain ⟨v, rfl⟩ := (peek_two hshows hquote).1 htwo
      have hfree : BreakFree v := (breakFree_append.1 h.free).2
      have hsecond := (Shows.narrow hshows hwide).2.1
      have hthird := (Shows.narrow hsecond hwide).2.1
      refine .of_shows { k.advance 3 with frames := below } v hthird hfree ⟨rfl, rfl, rfl, rfl⟩ h.continued ?_
      rw [List.cons_append, List.singleton_append, Scanner.toLineEnd_closed hquote htriple, hwidth]
      rfl
    · rename_i htwo
      refine .of_shows (k.advance 1) u hshows h.free ⟨rfl, rfl, rfl, rfl⟩ h.continued ?_
      rw [Scanner.toLineEnd_cons (Scanner.step_quote_triple hquote htriple (.inl ⟨rfl, rfl⟩) (by decide)) rfl,
        Scanner.toLineEnd_closing hquote htriple (fun hdouble => htwo ((peek_two hshows hquote).2 hdouble)), hwidth,
        ← hframes]
      rfl

/-- An opening brace of a formatted literal. -/
theorem Faces.brace (h : Faces bytes tail k '{' u) (hframes : k.frames = .literal l :: below)
    (hquote : isQuote l.quote = true) (hformatted : l.formatted = true) :
    Outcome bytes tail k (k.ahead tail ('{' :: u)) (k.readLiteral bytes l below '{') := by
  have hne : '{' ≠ l.quote := (Scanner.ne_of_isQuote hquote rfl).symm
  obtain ⟨-, hshows, hwidth⟩ := h.shows.narrow rfl
  have hpending : Scanner.step k.line ⟨k.frames, k.depth, .nothing⟩ '{' = .ok ⟨k.frames, k.depth, .brace⟩ := by
    simp [hframes, Scanner.step, Scanner.read, Scanner.readLiteral, hne, hformatted]
  have hpeek : peek bytes (k.pos + 1) = '{' ↔ u.head? = some '{' :=
    (hshows.peek_eq_iff rfl (by decide)).trans (tail.head?_append rfl)
  unfold readLiteral
  rw [if_neg (by decide), h.notBreak, if_neg Bool.false_ne_true, if_neg hne, hformatted, if_pos (by decide), ahead,
    Scanner.toLineEnd_cons hpending rfl, hwidth]
  split
  · rename_i hbrace
    obtain ⟨v, rfl⟩ := List.head?_eq_some_iff.1 (hpeek.1 hbrace)
    have hnext := (Shows.narrow hshows rfl).2.1
    have hsecond : Scanner.step k.line ⟨k.frames, k.depth, .brace⟩ '{' = .ok ⟨k.frames, k.depth, .nothing⟩ := rfl
    refine .of_shows (k.advance 2) v hnext (breakFree_cons.1 h.free).2 ⟨rfl, rfl, rfl, rfl⟩ h.continued ?_
    rw [Scanner.toLineEnd_cons hsecond rfl, hwidth]
    rfl
  · rename_i hbrace
    refine .of_shows ((k.advance 1).push (.field 0)) u hshows h.free ⟨rfl, rfl, rfl, rfl⟩ h.continued ?_
    rw [hframes, Scanner.toLineEnd_brace fun hhead => hbrace (hpeek.2 hhead), ← hframes]
    rfl

/-- Two closing braces of a formatted literal. -/
theorem Faces.braces (h : Faces bytes tail k '}' ('}' :: u)) (hframes : k.frames = .literal l :: below)
    (hquote : isQuote l.quote = true) (hformatted : l.formatted = true) :
    Outcome bytes tail k (k.ahead tail ('}' :: '}' :: u)) (k.readLiteral bytes l below '}') := by
  have hne : '}' ≠ l.quote := (Scanner.ne_of_isQuote hquote rfl).symm
  obtain ⟨-, hshows, hwidth⟩ := h.shows.narrow rfl
  have hstep : Scanner.step k.line ⟨k.frames, k.depth, .nothing⟩ '}' = .ok ⟨k.frames, k.depth, .nothing⟩ := by
    simp [hframes, Scanner.step, Scanner.read, Scanner.readLiteral, Scanner.settled, hne]
  have hpeek : peek bytes (k.pos + 1) = '}' := (Shows.peek_eq_iff hshows rfl (by decide)).2 rfl
  have hnext := (Shows.narrow hshows rfl).2.1
  unfold readLiteral
  rw [if_neg (by decide), h.notBreak, if_neg Bool.false_ne_true, if_neg hne, hformatted, if_neg (by decide), hpeek,
    if_pos (by decide)]
  refine .of_shows (k.advance 2) u hnext (breakFree_cons.1 h.free).2 ⟨rfl, rfl, rfl, rfl⟩ h.continued ?_
  rw [ahead, Scanner.toLineEnd_cons hstep rfl, Scanner.toLineEnd_cons hstep rfl, hwidth]
  rfl

/-- Every character of a literal. -/
theorem Faces.readLiteral (h : Faces bytes tail k c u) (hstarts : Starts bytes k.pos c (u ++ tail.text) x cs)
    (hframes : k.frames = .literal l :: below) (hquote : isQuote l.quote = true) :
    Outcome bytes tail k (k.ahead tail (c :: u)) (k.readLiteral bytes l below x) := by
  have hx : ∀ y, isWide y = false → (x = y ↔ c = y) := fun y hy => hstarts.alike.eq_iff hy
  have hxbreak : isBreak x = false := (hstarts.alike.test_eq fun _ => not_isBreak_of_isWide).trans h.notBreak
  by_cases hbackslash : c = '\\'
  · obtain rfl := (hx '\\' rfl).2 hbackslash
    subst hbackslash
    exact h.escape hframes
  by_cases hsame : c = l.quote
  · obtain rfl := (hx l.quote (isWide_of_isQuote hquote)).2 hsame
    subst hsame
    exact h.quote hframes hquote
  by_cases hopening : l.formatted = true ∧ c = '{'
  · obtain ⟨hformatted, rfl⟩ := hopening
    obtain rfl := (hx '{' rfl).2 rfl
    exact h.brace hframes hquote hformatted
  by_cases hclosing : l.formatted = true ∧ c = '}' ∧ u.head? = some '}'
  · obtain ⟨hformatted, rfl, hhead⟩ := hclosing
    obtain rfl := (hx '}' rfl).2 rfl
    obtain ⟨v, rfl⟩ := List.head?_eq_some_iff.1 hhead
    exact h.braces hframes hquote hformatted
  have hstep : Scanner.step k.line ⟨k.frames, k.depth, .nothing⟩ c = .ok ⟨k.frames, k.depth, .nothing⟩ := by
    rw [hframes]
    simp only [Scanner.step, Scanner.read, Scanner.readLiteral, hbackslash, hsame, if_false]
    rw [if_neg (by simpa using hopening)]
    rfl
  have hopening' : ¬(l.formatted && (x = '{' : Bool)) = true := by
    rw [Bool.and_eq_true, decide_eq_true_eq, hx '{' rfl]
    exact hopening
  have hclosing' : ¬(l.formatted && (x = '}' : Bool) && (peek bytes (k.pos + 1) = '}' : Bool)) = true := by
    rw [Bool.and_eq_true, Bool.and_eq_true, decide_eq_true_eq, decide_eq_true_eq, hx '}' rfl]
    rintro ⟨⟨hformatted, rfl⟩, hpeek⟩
    have hshows := (h.shows.narrow rfl).2.1
    exact hclosing ⟨hformatted, rfl, (tail.head?_append rfl).1 ((hshows.peek_eq_iff rfl (by decide)).1 hpeek)⟩
  unfold ByteScanner.readLiteral
  rw [if_neg (fun h => hbackslash ((hx '\\' rfl).1 h)), hxbreak, if_neg Bool.false_ne_true,
    if_neg (fun h => hsame ((hx l.quote (isWide_of_isQuote hquote)).1 h)), if_neg hopening', if_neg hclosing']
  exact h.stay hstarts (fun hcode => by rw [hframes] at hcode; cases hcode) hstep

end Literals

/-! ## Specifications -/

theorem Faces.readSpec {below : List Frame} (h : Faces bytes tail k c u)
    (hstarts : Starts bytes k.pos c (u ++ tail.text) x cs) (hframes : k.frames = .spec :: below) :
    Outcome bytes tail k (k.ahead tail (c :: u)) (k.readSpec bytes x) := by
  have hx : ∀ y, isWide y = false → (x = y ↔ c = y) := fun y hy => hstarts.alike.eq_iff hy
  have hxbreak : isBreak x = false := (hstarts.alike.test_eq fun _ => not_isBreak_of_isWide).trans h.notBreak
  have hread : Scanner.step k.line ⟨k.frames, k.depth, .nothing⟩ c =
      .ok (Scanner.readSpec below ⟨k.frames, k.depth, .nothing⟩ c) := by
    rw [hframes]
    rfl
  unfold ByteScanner.readSpec
  simp only [hx '{' rfl, hx '}' rfl, hxbreak, Bool.false_eq_true, if_false]
  unfold Scanner.readSpec at hread
  split
  · rename_i hopening
    subst hopening
    exact h.move rfl hread
  rename_i hopening
  rw [if_neg hopening] at hread
  split
  · rename_i hclosing
    subst hclosing
    rw [hframes]
    exact h.move rfl hread
  · rename_i hclosing
    rw [if_neg hclosing] at hread
    exact h.stay hstarts (fun hcode => by rw [hframes] at hcode; cases hcode) hread

/-! ## Code -/

theorem Faces.comment (h : Faces bytes tail k '#' u) (hcode : inCode k.frames = true) :
    Outcome bytes tail k (k.ahead tail ('#' :: u)) (k.readCode bytes '#') := by
  have hline : BreakFree ('#' :: u) := breakFree_cons.2 ⟨rfl, h.free⟩
  have hskip : skip bytes (!isBreak ·) k.pos = .ok (k.pos + (Utf8.encode ('#' :: u)).length) := by
    refine Shows.skip (w := '#' :: u) h.shows (fun c hc => ?_) (fun c hc => ?_) (fun c hc => ?_)
    · rw [not_isBreak_of_isWide hc]
      rfl
    · rw [hline c hc]
      rfl
    · rw [tail.isBreak_of_head? hc]
      rfl
  have hshows : Shows bytes (k.pos + (Utf8.encode ('#' :: u)).length) tail.text := Shows.append (w := '#' :: u) h.shows
  unfold ByteScanner.readCode
  rw [if_pos rfl, hskip]
  refine .of_shows _ [] hshows breakFree_nil ⟨rfl, rfl, rfl, rfl⟩ h.continued ?_
  rw [ahead, Scanner.toLineEnd_comment hcode]
  rfl

theorem Faces.backslash (h : Faces bytes tail k '\\' u) (hcode : inCode k.frames = true) :
    Outcome bytes tail k (k.ahead tail ('\\' :: u)) (k.readCode bytes '\\') := by
  have hshows := (h.shows.narrow rfl).2.1
  unfold ByteScanner.readCode
  rw [if_neg (by decide), if_pos rfl, hshows.isBreak_peek, ahead, Scanner.toLineEnd_backslash hcode]
  cases u with
  | cons d u =>
    have hd : isBreak d = false := (breakFree_cons.1 h.free).1
    rw [List.cons_append, List.head?_cons, Option.any_some, hd, if_neg Bool.false_ne_true]
    exact .error rfl
  | nil =>
    cases tail with
    | sourceEnd => exact .error rfl
    | lineBreak b v apart =>
      have hbreak : (LineTail.lineBreak b v apart).text.head?.any isBreak = true := by cases b <;> rfl
      rw [List.nil_append, hbreak, if_pos rfl]
      have hstands : Stands bytes (.lineBreak b v apart)
          { k.advance 1 with continued := k.continued || k.frames.isEmpty } [] [] := by
        refine ⟨hshows, by simp, fun _ => rfl, breakFree_nil, fun hcontinued => ?_⟩
        have hempty : (k.continued || k.frames.isEmpty) = true := hcontinued
        rw [h.continued, Bool.false_or] at hempty
        exact ⟨rfl, rfl, List.isEmpty_iff.1 hempty, rfl⟩
      refine .within hstands ⟨rfl, rfl, rfl, rfl⟩ ?_
      show toLineEnd true k.line ⟨k.frames, k.depth, if k.continued || k.frames.isEmpty then .backslash else .nothing⟩
        k.hash _ [] = _
      rw [h.continued]
      -- in a field a backslash before the break makes no difference
      obtain hframes | ⟨depth, below, hframes⟩ := inCode_cases hcode
      · rw [hframes]
        rfl
      · rw [hframes]
        rfl

/-- A quote after the prefix of a literal, or after none. -/
theorem openLiteral_outcome (k' : ByteScanner) {quote : Char} {formatted : Bool}
    (hshows : Shows bytes k'.pos (quote :: (u ++ tail.text))) (hquote : isQuote quote = true) (hfree : BreakFree u)
    (hsame : SameLine k k') (hcontinued : k'.continued = false) :
    Outcome bytes tail k (toLineEnd tail.isBroken k.line ⟨k'.frames, k'.depth, .opened quote formatted⟩ k'.hash
      (k'.pos + 1) u) (k'.openLiteral bytes formatted) := by
  have hwide := isWide_of_isQuote hquote
  obtain ⟨hbyte, hnext, hwidth⟩ := hshows.narrow hwide
  unfold openLiteral
  rw [hbyte]
  simp only [bind, Except.bind]
  by_cases htwo : [quote, quote] <+: u
  · rw [(peek_two hnext hquote).2 htwo]
    obtain ⟨v, rfl⟩ := htwo
    have hthird := (Shows.narrow (Shows.narrow hnext hwide).2.1 hwide).2.1
    refine .of_shows _ v hthird (breakFree_append.1 hfree).2
      ⟨hsame.line, hsame.scans, hsame.statement, hsame.regions⟩ hcontinued ?_
    rw [List.cons_append, List.singleton_append, Scanner.toLineEnd_triple, hwidth, ← hsame.line]
    rfl
  · have hpeek := mt (peek_two hnext hquote).1 htwo
    rw [Bool.not_eq_true] at hpeek
    rw [hpeek]
    refine .of_shows _ u hnext hfree ⟨hsame.line, hsame.scans, hsame.statement, hsame.regions⟩ hcontinued ?_
    rw [Scanner.toLineEnd_opened hquote htwo, ← hsame.line]
    rfl

theorem openBracket_eq (k : ByteScanner) : ∃ frames depth,
    Scanner.openBracket ⟨k.frames, k.depth, .nothing⟩ = ⟨frames, depth, .nothing⟩ ∧
      k.openBracket = { k with frames, depth } := by
  obtain ⟨pos, line, depth, _ | ⟨_ | _ | _, below⟩, continued, hash, scans, statement, regions⟩ := k <;>
    exact ⟨_, _, rfl, rfl⟩

theorem closeBracket_eq (k : ByteScanner) (c : Char) :
    (∃ e, Scanner.closeBracket k.line ⟨k.frames, k.depth, .nothing⟩ c = .error e ∧
      k.closeBracket c = .error (.error e)) ∨
    ∃ frames depth, Scanner.closeBracket k.line ⟨k.frames, k.depth, .nothing⟩ c = .ok ⟨frames, depth, .nothing⟩ ∧
      k.closeBracket c = .ok { k with frames, depth } := by
  obtain ⟨pos, line, depth, _ | ⟨_ | inner | _, below⟩, continued, hash, scans, statement, regions⟩ := k
  case cons.field =>
    cases inner with
    | zero =>
      simp only [closeBracket, Scanner.closeBracket]
      split
      · exact .inr ⟨_, _, rfl, rfl⟩
      · exact .inl ⟨_, rfl, rfl⟩
    | succ inner => exact .inr ⟨_, _, rfl, rfl⟩
  all_goals
    cases depth with
    | zero => exact .inl ⟨_, rfl, rfl⟩
    | succ depth => exact .inr ⟨_, _, rfl, rfl⟩

theorem openSpec_eq (k : ByteScanner) : ∃ frames,
    Scanner.readCode k.line ⟨k.frames, k.depth, .nothing⟩ ':' = .ok ⟨frames, k.depth, .nothing⟩ ∧
      k.openSpec = { k with frames } := by
  obtain ⟨pos, line, depth, _ | ⟨_ | (_ | inner) | _, below⟩, continued, hash, scans, statement, regions⟩ := k <;>
    exact ⟨_, rfl, rfl⟩

/-- A name ends where the line has something else. -/
theorem exists_name (tail : LineTail) (h : startsName c = true) (u : Text) :
    ∃ w v, c :: u = w ++ v ∧ w.head? = some c ∧ (∀ d ∈ w, continuesName d = true) ∧
      ∀ d, (v ++ tail.text).head? = some d → continuesName d = false := by
  refine ⟨(c :: u).takeWhile continuesName, (c :: u).dropWhile continuesName, List.takeWhile_append_dropWhile.symm, ?_,
    List.all_eq_true.1 List.all_takeWhile, fun d hd => ?_⟩
  · rw [List.takeWhile_cons_of_pos (Scanner.continuesName_of_startsName h)]
    rfl
  · cases hv : (c :: u).dropWhile continuesName with
    | nil =>
      rw [hv] at hd
      have hbreak := tail.isBreak_of_head? hd
      simp only [isBreak, Bool.or_eq_true, beq_iff_eq] at hbreak
      rcases hbreak with rfl | rfl <;> rfl
    | cons y v =>
      rw [hv] at hd
      cases hd
      have hhead := List.head?_dropWhile_not continuesName (c :: u)
      rw [hv] at hhead
      simpa using hhead

/-- A name, and the quote right after it. -/
theorem Faces.name (h : Faces bytes tail k c u) (hstarts : startsName c = true) (hcode : inCode k.frames = true) :
    Outcome bytes tail k (k.ahead tail (c :: u)) (k.readName bytes) := by
  obtain ⟨w, v, hline, hhead, hw, hstop⟩ := exists_name tail hstarts u
  have hfree : BreakFree v := (breakFree_append.1 (hline ▸ breakFree_cons.2 ⟨h.notBreak, h.free⟩)).2
  have hshows : Shows bytes k.pos (w ++ (v ++ tail.text)) := by
    rw [← List.append_assoc, ← hline]
    exact h.shows
  have hskip := hshows.skip (fun _ => continuesName_of_isWide) hw hstop
  have hstop' : ∀ d, v.head? = some d → continuesName d = false := by
    intro d hd
    refine hstop d ?_
    rw [List.head?_append, hd]
    rfl
  have hahead : k.ahead tail (c :: u) = toLineEnd tail.isBroken k.line ⟨k.frames, k.depth, .name w.reverse⟩ k.hash
      (k.pos + (Utf8.encode w).length) v := by
    rw [ahead, hline, ← Scanner.toLineEnd_name_nil hcode,
      Scanner.toLineEnd_letters hcode hw (fun _ d hd => Option.some_inj.1 (hhead.symm.trans hd) ▸ hstarts),
      List.append_nil]
  have hnext := hshows.append
  -- the name is no prefix
  have hafter : (∀ d, v.head? = some d → isQuote d = true → isFormatted w.reverse = false) →
      Outcome bytes tail k (k.ahead tail (c :: u)) (.ok { k with pos := k.pos + (Utf8.encode w).length }) := by
    intro hplain
    refine .of_shows _ v hnext hfree ⟨rfl, rfl, rfl, rfl⟩ h.continued ?_
    rw [hahead, Scanner.toLineEnd_name hcode hstop' hplain]
  unfold readName
  simp only [hskip, bind, Except.bind]
  cases htext : v ++ tail.text with
  | nil =>
    rw [htext] at hnext
    have hend : atEnd bytes { k with pos := k.pos + (Utf8.encode w).length } = true := decide_eq_true hnext.le
    have hv : v = [] := (List.append_eq_nil_iff.1 htext).1
    rw [if_pos hend]
    exact hafter (by simp [hv])
  | cons d t =>
    rw [htext] at hnext
    obtain ⟨y, cs, hd⟩ := hnext.starts
    have hend : atEnd bytes { k with pos := k.pos + (Utf8.encode w).length } = false :=
      decide_eq_false (Nat.not_le.2 hnext.lt)
    have hy : isQuote y = isQuote d := hd.alike.test_eq fun _ => not_isQuote_of_isWide
    rw [hend, if_neg Bool.false_ne_true, hd.byteAt]
    dsimp only
    rw [hy, hshows.bytesBetween (Nat.le_of_lt h.shows.lt)]
    dsimp only
    split
    · rename_i hquote
      have hbreak : isBreak d = false := not_isBreak_of_isQuote hquote
      obtain ⟨v', rfl⟩ := List.head?_eq_some_iff.1 ((tail.head?_append hbreak).1 (by rw [htext]; rfl))
      have hformatted := isFormatted_reverse w
      split
      · rename_i hknown
        rw [hknown, Bool.true_and] at hformatted
        rw [hahead, Scanner.toLineEnd_quote hcode hquote, hformatted, (hnext.narrow (isWide_of_isQuote hquote)).2.2]
        have ht : t = v' ++ tail.text := (List.cons.inj htext).2.symm
        subst ht
        exact openLiteral_outcome { k with pos := k.pos + (Utf8.encode w).length } hnext hquote
          (breakFree_cons.1 hfree).2 ⟨rfl, rfl, rfl, rfl⟩ h.continued
      · rename_i hknown
        rw [Bool.not_eq_true] at hknown
        rw [hknown, Bool.false_and] at hformatted
        exact hafter fun _ _ _ => hformatted
    · rename_i hquote
      refine hafter fun d' hd' hquote' => ?_
      obtain ⟨v', rfl⟩ := List.head?_eq_some_iff.1 hd'
      cases htext
      exact absurd hquote' hquote

/-- Every character of code. -/
theorem Faces.readCode (h : Faces bytes tail k c u) (hstarts : Starts bytes k.pos c (u ++ tail.text) x cs)
    (hcode : inCode k.frames = true) :
    Outcome bytes tail k (k.ahead tail (c :: u)) (k.readCode bytes x) := by
  have hxbreak : isBreak x = false := (hstarts.alike.test_eq fun _ => not_isBreak_of_isWide).trans h.notBreak
  have hstep : Scanner.step k.line ⟨k.frames, k.depth, .nothing⟩ c =
      Scanner.readCode k.line ⟨k.frames, k.depth, .nothing⟩ c := Scanner.step_of_inCode hcode (.inl rfl)
  by_cases hhash : c = '#'
  · obtain rfl := (hstarts.alike.eq_iff rfl).2 hhash
    subst hhash
    exact h.comment hcode
  by_cases hbackslash : c = '\\'
  · obtain rfl := (hstarts.alike.eq_iff rfl).2 hbackslash
    subst hbackslash
    exact h.backslash hcode
  unfold ByteScanner.readCode
  have hread := hstep
  unfold Scanner.readCode at hread
  rw [if_neg hhash, if_neg hbackslash] at hread
  rw [if_neg (fun hx => hhash ((hstarts.alike.eq_iff rfl).1 hx)),
    if_neg (fun hx => hbackslash ((hstarts.alike.eq_iff rfl).1 hx)), hxbreak, if_neg Bool.false_ne_true,
    hstarts.alike.test_eq fun _ => not_isQuote_of_isWide, hstarts.alike.test_eq fun _ => not_isOpening_of_isWide,
    hstarts.alike.test_eq fun _ => not_isClosing_of_isWide, hstarts.alike.test_eq fun _ => startsName_of_isWide]
  simp only [hstarts.alike.eq_iff (y := ':') rfl]
  split
  · rename_i hquote
    have hempty : isFormatted [] = false := rfl
    rw [ahead, ← Scanner.toLineEnd_name_nil hcode, Scanner.toLineEnd_quote hcode hquote, hempty,
      (h.shows.narrow (isWide_of_isQuote hquote)).2.2]
    exact openLiteral_outcome k h.shows hquote h.free ⟨rfl, rfl, rfl, rfl⟩ h.continued
  rename_i hquote
  rw [if_neg hquote] at hread
  split
  · rename_i hopening
    rw [if_pos hopening] at hread
    obtain ⟨frames, depth, hchar, hbyte⟩ := openBracket_eq (k.advance 1)
    rw [hbyte]
    exact h.move (isWide_of_isOpening hopening) (hread.trans (congrArg Except.ok hchar))
  rename_i hopening
  rw [if_neg hopening] at hread
  split
  · rename_i hclosing
    have hwide := isWide_of_isClosing hclosing
    obtain rfl := (hstarts.alike.eq_iff hwide).2 rfl
    rw [if_pos hclosing] at hread
    rcases closeBracket_eq (k.advance 1) x with ⟨e, hchar, hbyte⟩ | ⟨frames, depth, hchar, hbyte⟩
    · rw [hbyte]
      exact .error (Scanner.toLineEnd_error (hread.trans hchar))
    · rw [hbyte]
      exact h.move hwide (hread.trans hchar)
  rename_i hclosing
  rw [if_neg hclosing] at hread
  split
  · rename_i hcolon
    subst hcolon
    obtain ⟨frames, hchar, hbyte⟩ := openSpec_eq (k.advance 1)
    rw [hbyte]
    exact h.move rfl (hstep.trans hchar)
  rename_i hcolon
  rw [if_neg hcolon] at hread
  split
  · rename_i hname
    exact h.name hname hcode
  · rename_i hname
    refine h.stay hstarts (fun _ => ?_) ?_
    · rw [Bool.eq_false_iff]
      exact fun hwide => hname (startsName_of_isWide hwide)
    · rw [Bool.not_eq_true] at hname
      simpa [hname, Scanner.letters, Scanner.settled] using hread

/-! ## A step -/

/-- A step at a character of the line. -/
theorem Faces.step (h : Faces bytes tail k c u) (hnested : Nested k.frames) :
    Outcome bytes tail k (k.ahead tail (c :: u)) (k.step bytes) := by
  obtain ⟨x, cs, hstarts⟩ := h.shows.starts
  rcases frames_cases k.frames with ⟨l, below, hframes⟩ | ⟨below, hframes⟩ | hcode
  · rw [step_of_literal hstarts.byteAt hframes]
    exact h.readLiteral hstarts hframes (isQuote_of_nested hnested hframes)
  · rw [step_of_spec hstarts.byteAt hframes]
    exact h.readSpec hstarts hframes
  · rw [ByteScanner.step_of_inCode hstarts.byteAt hcode]
    exact h.readCode hstarts hcode

/-- A step at one of the other bytes of a character. -/
theorem step_of_isWide (hbyte : byteAt bytes k.pos = .ok x) (hx : isWide x = true) (hnested : Nested k.frames)
    (hcode : inCode k.frames = false) : k.step bytes = .ok (k.advance 1) := by
  have hne : ∀ y, isWide y = false → x ≠ y := fun y hy => ne_of_isWide hx hy
  rcases frames_cases k.frames with ⟨l, below, hframes⟩ | ⟨below, hframes⟩ | hcode'
  · have hquote := isQuote_of_nested hnested hframes
    rw [step_of_literal hbyte hframes]
    unfold readLiteral
    simp [hne '\\' rfl, hne l.quote (isWide_of_isQuote hquote), hne '{' rfl, hne '}' rfl, not_isBreak_of_isWide hx]
  · rw [step_of_spec hbyte hframes]
    unfold readSpec
    simp [hne '{' rfl, hne '}' rfl, not_isBreak_of_isWide hx]
  · exact absurd (hcode.symm.trans hcode') Bool.false_ne_true

/-- A step at the break. -/
theorem step_of_isBreak {b : LineBreak} {v : Text} {apart : b = .cr → v.head? ≠ some '\n'}
    (hshows : Shows bytes k.pos (b.text ++ v)) (hcontinued : k.continued = true → k.frames = []) :
    Outcome bytes (.lineBreak b v apart) k (endHere true k.line k.scanner k.hash) (k.step bytes) := by
  obtain ⟨y, hbyte, hy⟩ := byteAt_break hshows
  have hne : ∀ z, isBreak z = false → y ≠ z := by
    rintro z hz rfl
    exact absurd (hz.symm.trans hy) Bool.false_ne_true
  have hplain : ∀ f below, k.frames = f :: below → k.continued = false := by
    intro f below hframes
    rw [Bool.eq_false_iff]
    intro h
    rw [hcontinued h] at hframes
    cases hframes
  have hnewline : endHere true k.line k.scanner k.hash = .ok ⟨⟨k.hash, k.left⟩, ⟨k.frames, k.depth, .nothing⟩⟩ →
      Outcome bytes (.lineBreak b v apart) k (endHere true k.line k.scanner k.hash) (k.newline bytes) :=
    .of_newline (n := 0) hshows
  rcases frames_cases k.frames with ⟨l, below, hframes⟩ | ⟨below, hframes⟩ | hcode
  · rw [step_of_literal hbyte hframes, readLiteral, if_neg (hne '\\' rfl), if_pos hy]
    split
    · rename_i htriple
      refine hnewline ?_
      rw [scanner_eq (hplain _ _ hframes), left_eq (hplain _ _ hframes), hframes]
      simp only [endHere, Scanner.breakLine, htriple, if_true]
      rfl
    · rename_i htriple
      refine .error ?_
      rw [scanner_eq (hplain _ _ hframes), hframes]
      simp only [endHere, Scanner.breakLine, htriple]
      rfl
  · rw [step_of_spec hbyte hframes, readSpec, if_neg (hne '{' rfl), if_neg (hne '}' rfl), if_pos hy]
    refine hnewline ?_
    rw [scanner_eq (hplain _ _ hframes), left_eq (hplain _ _ hframes), hframes]
    rfl
  · rw [step_of_inCode hbyte hcode, readCode, if_neg (hne '#' rfl), if_neg (hne '\\' rfl), if_pos hy]
    refine hnewline ?_
    cases hc : k.continued with
    | false =>
      rw [scanner_eq hc, left_eq hc]
      obtain hframes | ⟨depth, below, hframes⟩ := inCode_cases hcode
      · rw [hframes]
        rfl
      · rw [hframes]
        rfl
    | true =>
      rw [scanner, left, hc, hcontinued hc]
      rfl

/-- **A step keeps to the line**: what it comes to is what the scanner of characters comes to. -/
theorem Stands.step (h : Stands bytes tail k cs u) (hnested : Nested k.frames) (hlt : k.pos < bytes.length) :
    Outcome bytes tail k (k.outlook tail cs u) (k.step bytes) := by
  cases cs with
  | cons b cs =>
    have hcode : inCode k.frames = false := by
      rw [Bool.eq_false_iff]
      exact fun hcode => List.cons_ne_nil _ _ (h.code hcode)
    have hcontinued : k.continued = false := by
      rw [Bool.eq_false_iff]
      exact fun hcontinued => List.cons_ne_nil _ _ (h.continued hcontinued).1
    rw [step_of_isWide (byteAt_of_drop h.drop) (h.high b List.mem_cons_self) hnested hcode]
    refine .of_drop (k.advance 1) u (drop_succ_of_drop h.drop) (fun b' hb' => h.high b' (List.mem_cons_of_mem _ hb'))
      (fun hcode' => absurd (hcode.symm.trans hcode') Bool.false_ne_true) h.free ⟨rfl, rfl, rfl, rfl⟩ hcontinued ?_
    rw [outlook, scanner_eq hcontinued, List.length_cons, Nat.add_comm cs.length, ← Nat.add_assoc]
    rfl
  | nil =>
    cases u with
    | cons c u =>
      have hcontinued : k.continued = false := by
        rw [Bool.eq_false_iff]
        exact fun hcontinued => List.cons_ne_nil _ _ (h.continued hcontinued).2.1
      have hfree := breakFree_cons.1 h.free
      have hfaces : Faces bytes tail k c u := ⟨h.drop, hfree.1, hfree.2, hcontinued⟩
      have houtlook : k.outlook tail [] (c :: u) = k.ahead tail (c :: u) := by
        rw [outlook, scanner_eq hcontinued]
        rfl
      rw [houtlook]
      exact hfaces.step hnested
    | nil =>
      cases tail with
      | sourceEnd => exact absurd (Shows.le h.drop) (Nat.not_le.2 hlt)
      | lineBreak b v apart => exact step_of_isBreak h.drop fun hcontinued => (h.continued hcontinued).2.2.1

end Steps

end ByteScanner

end TypeIgnore
