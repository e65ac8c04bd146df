import TypeIgnore.Proofs.Source.Composition

/-!
# The contents of literals

What stands between the quotes of a literal does not show in the rest of the map.

* `isBody quote t` — `t` can stand between two quotes on one line;
* `Scanner.opensPlain quote s` — the scanner reads code, and a quote opens a literal without replacement fields
  (`Scanner.opensPlain_iff`);
* `Scanner.reads_literal` — after such a literal the scanner is where it was before;
* `Scanner.afterText t` — the scanner after the text `t` at the start of a source;
* `AgreeBut k t t'` — two results of classification are the same but for the code of line `k`, which starts with `t` in
  one and with `t'` in the other;
* `classify_literal_contents` — so are the results for two bodies of a literal, whatever stands before and after it.
-/

namespace TypeIgnore

/-! ## Literals on one line -/

/-- What can stand between two quotes on one line: no break, and a backslash before every quote. A backslash takes the
next character with it. -/
def isBody (quote : Char) : Text → Bool
  | [] => true
  | '\\' :: c :: t => !isBreak c && isBody quote t
  | c :: t => c != '\\' && c != quote && !isBreak c && isBody quote t

def literalText (quote : Char) (body : Text) : Text := quote :: (body ++ [quote])

section Body

variable {quote : Char} {body : Text}

theorem breakFree_of_isBody (h : isBody quote body = true) : BreakFree body := by
  fun_induction isBody quote body with
  | case1 => exact breakFree_nil
  | case2 c t ih =>
    simp only [Bool.and_eq_true, Bool.not_eq_true'] at h
    exact breakFree_cons.2 ⟨rfl, breakFree_cons.2 ⟨h.1, ih h.2⟩⟩
  | case3 c t _ ih =>
    simp only [Bool.and_eq_true, Bool.not_eq_true'] at h
    exact breakFree_cons.2 ⟨h.1.2, ih h.2⟩

theorem not_isBreak_of_isQuote (h : Scanner.isQuote quote = true) : isBreak quote = false := by
  simp only [Scanner.isQuote, Bool.or_eq_true, beq_iff_eq] at h
  rcases h with rfl | rfl <;> rfl

theorem not_isSeparator_of_isQuote (h : Scanner.isQuote quote = true) : isSeparator quote = false := by
  simp only [Scanner.isQuote, Bool.or_eq_true, beq_iff_eq] at h
  rcases h with rfl | rfl <;> rfl

theorem breakFree_literalText (hq : Scanner.isQuote quote = true) (h : isBody quote body = true) :
    BreakFree (literalText quote body) := by
  have hquote := not_isBreak_of_isQuote hq
  simp [literalText, hquote, breakFree_of_isBody h]

end Body

/-! ## Reading a literal -/

namespace Scanner

variable {s s' : Scanner} {line : Nat} {quote c : Char} {body : Text}

/-- A quote here opens a literal without replacement fields: what is read is code, and the quote neither follows the
prefix of a formatted literal nor is the third of a triple quote. After the brace of a field its code starts. -/
def opensPlain (quote : Char) (s : Scanner) : Bool :=
  isQuote quote &&
    match s.pending with
    | .nothing => inCode s.frames
    | .name letters => inCode s.frames && !isFormatted letters
    | .doubled first _ => inCode s.frames && first != quote
    | .brace => true
    | _ => false

theorem ne_of_isQuote {x : Char} (hq : isQuote quote = true) (hx : isQuote x = false) : quote ≠ x := by
  rintro rfl
  rw [hx] at hq
  cases hq

theorem read_of_inCode (h : inCode s.frames = true) : s.read line c = s.readCode line c := by
  obtain ⟨_ | ⟨l | depth | _, below⟩, depth, pending⟩ := s
  · rfl
  · cases h
  · rfl
  · cases h

theorem readCode_quote (hq : isQuote quote = true) :
    s.readCode line quote = .ok { s with pending := .opened quote (isFormatted s.letters) } := by
  rw [readCode, if_neg (ne_of_isQuote hq rfl), if_neg (ne_of_isQuote hq rfl), if_pos hq]

theorem not_inCode_of_inLiteral {p : Literal → Bool} {frames : List Frame} (h : inLiteral p frames = true) :
    ¬inCode frames = true := by
  obtain _ | ⟨_ | _ | _, below⟩ := frames <;> simp_all [inLiteral, inCode]

/-- Only in code does a quote open a literal. -/
theorem inCode_of_read_opened {formatted : Bool} (hs : s.read line c = .ok s')
    (h : s'.pending = .opened quote formatted) : inCode s.frames = true := by
  unfold read at hs
  split at hs
  · cases hs
    unfold readLiteral at h
    split_ifs at h
    cases h
  · cases hs
    unfold readSpec at h
    split_ifs at h <;> cases h
  · rename_i hliteral hspec
    obtain ⟨_ | ⟨l | depth | _, below⟩, depth, pending⟩ := s
    · rfl
    · exact absurd rfl (hliteral l below)
    · rfl
    · exact absurd rfl (hspec below)

theorem step_of_opensPlain (line : Nat) (h : s.opensPlain quote = true) :
    s.step line quote = .ok { s.resolved line with pending := .opened quote false } := by
  obtain ⟨frames, depth, pending⟩ := s
  obtain ⟨hq, hplace⟩ := Bool.and_eq_true_iff.1 h
  cases pending with
  | nothing =>
    have hcode : inCode frames = true := hplace
    simp only [step, resolved]
    rw [read_of_inCode hcode, readCode_quote hq]
    rfl
  | name letters =>
    simp only [Bool.and_eq_true, Bool.not_eq_true'] at hplace
    simp only [step, resolved]
    rw [read_of_inCode hplace.1, readCode_quote hq]
    simp only [Scanner.letters, hplace.2]
  | doubled first formatted =>
    simp only [Bool.and_eq_true, bne_iff_ne] at hplace
    simp only [step, resolved, if_neg hplace.2.symm]
    rw [read_of_inCode hplace.1, readCode_quote hq]
    rfl
  | brace =>
    simp only [step, resolved, if_neg (ne_of_isQuote hq (x := '{') rfl)]
    rw [read_of_inCode rfl, readCode_quote hq]
    rfl
  | opened | closing | escape | backslash | comment => cases hplace

/-- **Where a quote opens a literal without replacement fields.** -/
theorem opensPlain_iff (line : Nat) (hw : WellFormed s) :
    s.opensPlain quote = true ↔
      isQuote quote = true ∧ s.step line quote = .ok { s.resolved line with pending := .opened quote false } := by
  constructor
  · intro h
    exact ⟨(Bool.and_eq_true_iff.1 h).1, step_of_opensPlain line h⟩
  · rintro ⟨hq, hs⟩
    refine Bool.and_eq_true_iff.2 ⟨hq, ?_⟩
    have hp := hw.pending
    obtain ⟨frames, depth, pending⟩ := s
    cases pending with
    | nothing => exact inCode_of_read_opened hs rfl
    | name letters =>
      have hcode : inCode frames = true := inCode_of_read_opened hs rfl
      simp only [step, resolved] at hs
      rw [read_of_inCode hcode, readCode_quote hq] at hs
      have hplain : isFormatted letters = false := by simpa [Scanner.letters] using hs
      simp [hcode, hplain]
    | doubled first formatted =>
      have hne : quote ≠ first := by
        rintro rfl
        simp [step, push] at hs
      simp only [step, if_neg hne] at hs
      have hcode : inCode frames = true := inCode_of_read_opened hs rfl
      simp [hcode, hne.symm]
    | brace => rfl
    | opened first formatted =>
      -- the second quote of two, or inside a literal
      by_cases hfirst : quote = first
      · simp [step, hfirst] at hs
      · simp only [step, if_neg hfirst] at hs
        cases inCode_of_read_opened hs rfl
    | closing quotes => exact absurd (inCode_of_read_opened hs rfl) (not_inCode_of_inLiteral hp)
    | escape =>
      simp only [step] at hs
      split at hs
      · exact absurd (inCode_of_read_opened hs rfl) (not_inCode_of_inLiteral hp)
      · simp [settled] at hs
    | backslash => cases hs
    | comment => simp [step] at hs

/-- The scanner inside a literal without replacement fields that starts here. -/
def inside (line : Nat) (quote : Char) (s : Scanner) : Scanner := s.push (.literal ⟨quote, false, false, line⟩)

theorem step_inside (hbackslash : c ≠ '\\') (hquote : c ≠ quote) (start : Nat) :
    (s.inside start quote).step line c = .ok (s.inside start quote) := by
  simp [step, inside, push, read, readLiteral, settled, hbackslash, hquote]

/-- A backslash and the character after it stay in the literal. -/
theorem reads_escape (line start : Nat) (s : Scanner) (quote c : Char) :
    Reads line (s.inside start quote) ['\\', c] (s.inside start quote) := by
  have hfirst : (s.inside start quote).step line '\\' = .ok { s.inside start quote with pending := .escape } := by
    simp [step, inside, push, read, readLiteral]
  have hsecond : ({ s.inside start quote with pending := .escape } : Scanner).step line c =
      .ok (s.inside start quote) := by
    simp [step, inside, push, inFormatted, settled]
  exact .cons hfirst rfl (.cons hsecond rfl .nil)

theorem reads_body (line start : Nat) (s : Scanner) (h : isBody quote body = true) :
    Reads line (s.inside start quote) body (s.inside start quote) := by
  fun_induction isBody quote body with
  | case1 => exact .nil
  | case2 c t ih =>
    simp only [Bool.and_eq_true] at h
    exact (reads_escape line start s quote c).append (ih h.2)
  | case3 c t _ ih =>
    simp only [Bool.and_eq_true, bne_iff_ne] at h
    exact .cons (step_inside h.1.1.1 h.1.1.2 start) rfl (ih h.2)

theorem step_closing_quote (hq : isQuote quote = true) (start : Nat) :
    (s.inside start quote).step line quote = .ok s.settled := by
  simp [step, inside, push, read, readLiteral, settled, ne_of_isQuote hq (x := '\\') rfl]

/-- Any other character after the first quote is the first one inside. -/
theorem step_opened (hc : c ≠ quote) :
    ({ s with pending := .opened quote false } : Scanner).step line c = (s.inside line quote).step line c := by
  simp only [step, if_neg hc]
  rfl

theorem head_ne_of_isBody {t : Text} (h : isBody quote (c :: t) = true) (hq : isQuote quote = true) : c ≠ quote := by
  rintro rfl
  have hbackslash := ne_of_isQuote hq (x := '\\') rfl
  rw [isBody] at h
  · simp at h
  · rintro x u rfl
    exact absurd rfl hbackslash

/-- **After a literal the scanner is where it was before**, with nothing pending. -/
theorem reads_literal (hw : WellFormed s) (h : s.opensPlain quote = true) (hbody : isBody quote body = true)
    (hne : body ≠ []) : Reads line s (literalText quote body) (s.resolved line).settled := by
  obtain ⟨hq, hopened⟩ := (opensPlain_iff line hw).1 h
  obtain ⟨c, t, rfl⟩ := List.exists_cons_of_ne_nil hne
  have hinside : Reads line ((s.resolved line).inside line quote) (c :: t ++ [quote]) (s.resolved line).settled :=
    (reads_body line line _ hbody).append (.cons (step_closing_quote hq line) rfl .nil)
  refine .cons hopened rfl ?_
  -- the body is not empty, so its first character tells the quote from the first of two
  cases hinside with
  | cons hs hout hrest => exact .cons ((step_opened (head_ne_of_isBody hbody hq)).trans hs) hout hrest

/-- What is read before the rest of a line is code. -/
theorem Reads.scanLine_append {t : Text} (h : Reads line s t s') (u : Text) :
    s.scanLine line (t ++ u) = (s'.scanLine line u).map fun r => (r.1, t ++ r.2.1, r.2.2) := by
  induction h with
  | @nil s =>
    cases hscan : s.scanLine line u <;> simp [Except.map, hscan]
  | @cons s s₁ s₂ c t hs hout _ ih =>
    rw [List.cons_append, Scanner.scanLine]
    simp only [hs, hout, ih, bind, Except.bind]
    cases hscan : s₂.scanLine line u <;> simp [Except.map]

theorem Reads.scanLine_eq_ok {t u : Text} {r : Scanner × Text × Text} (h : Reads line s t s')
    (hr : s'.scanLine line u = .ok r) : s.scanLine line (t ++ u) = .ok (r.1, t ++ r.2.1, r.2.2) := by
  rw [h.scanLine_append, hr]
  rfl

/-! ## The scanner after a text -/

/-- The scanner after whole lines, from line `n` on. -/
def afterLines (n : Nat) (s : Scanner) : List EndedLine → Except LexError Scanner
  | [] => .ok s
  | l :: ls => do
    let (s, _) ← s.scanLine n l.content
    let (s, _) ← s.breakLine n
    afterLines (n + 1) s ls

/-- The scanner after a text at the start of a source. -/
def afterText (t : Text) : Except LexError Scanner := do
  let (ls, rest) := splitLines t
  let s ← afterLines 1 start ls
  let (s, _) ← s.scanLine (ls.length + 1) rest
  .ok s

theorem Ready.scanLine_breakLine {n : Nat} {s s₁ s₂ : Scanner} {t code comment : Text} {left : Option RegionKind}
    (h : Ready s) (hscan : s.scanLine n t = .ok (s₁, code, comment)) (hbreak : s₁.breakLine n = .ok (s₂, left)) :
    Ready s₂ := by
  obtain ⟨-, hscans⟩ := (scanLine_eq_ok_iff h.wellFormed h.not_inTrailingComment).1 hscan
  exact h.breakLine hscans hbreak

theorem Ready.afterLines {n : Nat} {s s' : Scanner} {ls : List EndedLine} (h : Ready s)
    (hs : s.afterLines n ls = .ok s') : Ready s' := by
  induction ls generalizing n s with
  | nil =>
    cases hs
    exact h
  | cons l ls ih =>
    obtain ⟨⟨s₁, code, comment⟩, hscan, hline⟩ := exists_of_bind_eq_ok hs
    obtain ⟨⟨s₂, left⟩, hbreak, hrest⟩ := exists_of_bind_eq_ok hline
    exact ih (h.scanLine_breakLine hscan hbreak) hrest

end Scanner

open Scanner

/-! ## Results that differ in one line -/

/-- The two lines are the same, but for the code of line `k`: it starts with `t` in one and with `t'` in the other, and
goes on in the same way. -/
structure SourceLine.AgreeBut (k : Nat) (t t' : Text) (l l' : SourceLine) : Prop where
  number : l'.number = l.number
  comment : l'.comment = l.comment
  ending : l'.ending = l.ending
  endsStatement : l'.endsStatement = l.endsStatement
  code : l.number ≠ k → l'.code = l.code
  code_at : l.number = k → ∃ rest, l.code = t ++ rest ∧ l'.code = t' ++ rest

/-- Two classifications fail with the same error, or their maps have the same regions and the same lines, but for the
code of line `k`. -/
inductive AgreeBut (k : Nat) (t t' : Text) : Except LexError SourceMap → Except LexError SourceMap → Prop
  | error (e : LexError) : AgreeBut k t t' (.error e) (.error e)
  | ok {m m' : SourceMap} (lines : List.Forall₂ (SourceLine.AgreeBut k t t') m.lines m'.lines)
      (regions : m'.regions = m.regions) : AgreeBut k t t' (.ok m) (.ok m')

section AgreeBut

variable {k : Nat} {t t' : Text}

theorem SourceLine.AgreeBut.refl {l : SourceLine} (h : l.number ≠ k) : l.AgreeBut k t t' l :=
  ⟨rfl, rfl, rfl, rfl, fun _ => rfl, fun hk => absurd hk h⟩

theorem AgreeBut.refl {r : Except LexError SourceMap} (h : ∀ m, r = .ok m → ∀ l ∈ m.lines, l.number ≠ k) :
    AgreeBut k t t' r r := by
  cases r with
  | error e => exact .error e
  | ok m => exact .ok (List.forall₂_same.2 fun l hl => .refl (h m rfl l hl)) rfl

theorem AgreeBut.bind {α : Type} {x : Except LexError α} {g g' : α → Except LexError SourceMap}
    (h : ∀ a, x = .ok a → AgreeBut k t t' (g a) (g' a)) : AgreeBut k t t' (x >>= g) (x >>= g') := by
  cases x with
  | error e => exact .error e
  | ok a => exact h a rfl

/-- One more line, before all others. -/
theorem AgreeBut.cons {r r' : Except LexError SourceMap} (h : AgreeBut k t t' r r') {l l' : SourceLine}
    (hl : l.AgreeBut k t t' l') (regions : List Region) :
    AgreeBut k t t' (r >>= fun m => .ok ⟨l :: m.lines, regions ++ m.regions⟩)
      (r' >>= fun m => .ok ⟨l' :: m.lines, regions ++ m.regions⟩) := by
  cases h with
  | error e => exact .error e
  | ok lines hregions => exact .ok (.cons hl lines) (congrArg (regions ++ ·) hregions)

end AgreeBut

/-! ## The line of the literal -/

/-- What stands before a character that is no separator belongs to the code. -/
theorem mkLine_append_cons {c : Char} (hc : isSeparator c = false) (n : Nat) (u code comment : Text)
    (ending : Option LineBreak) (left : Option RegionKind) :
    mkLine n (u ++ c :: code) comment ending left =
      { mkLine n code comment ending left with code := u ++ c :: (mkLine n code comment ending left).code } := by
  by_cases h : comment = []
  · subst h
    rfl
  · rw [mkLine_of_ne_nil _ _ _ _ _ h, mkLine_of_ne_nil _ _ _ _ _ h, Text.spanEnd_append_cons_of_not _ hc]

/-- The texts end in the same character, which is no separator. -/
def EndAlike (t t' : Text) : Prop := ∃ u u' c, t = u ++ [c] ∧ t' = u' ++ [c] ∧ isSeparator c = false

theorem EndAlike.ne_nil {t t' : Text} (h : EndAlike t t') : t ≠ [] ∧ t' ≠ [] := by
  obtain ⟨u, u', c, rfl, rfl, -⟩ := h
  simp

section Line

variable {n : Nat} {s s₁ : Scanner} {t t' : Text}

theorem classifyFrom_nil_of_scanLine {rest code comment : Text} (h : s.scanLine n rest = .ok (s₁, code, comment))
    (hne : rest ≠ []) (current : Option OpenStatement) :
    classifyFrom n s current rest [] =
      s₁.checkEnd n >>= fun _ => .ok ⟨[mkLine n code comment none none], OpenStatement.close n none current⟩ := by
  have hempty : rest.isEmpty = false := List.isEmpty_eq_false_iff.2 hne
  unfold classifyFrom
  rw [h]
  simp only [hempty]
  rfl

theorem classifyFrom_cons_of_scanLine {l : EndedLine} {code comment : Text}
    (h : s.scanLine n l.content = .ok (s₁, code, comment)) (current : Option OpenStatement) (rest : Text)
    (ls : List EndedLine) :
    classifyFrom n s current rest (l :: ls) =
      s₁.breakLine n >>= fun r => classifyFrom (n + 1) r.1 (OpenStatement.advance n r.2 current) rest ls >>= fun tail =>
        .ok ⟨mkLine n code comment (some l.ending) r.2 :: tail.lines,
          OpenStatement.close n r.2 current ++ tail.regions⟩ := by
  rw [classifyFrom, h]
  rfl

theorem lt_number_of_classifyFrom {current : Option OpenStatement} {rest : Text} {ls : List EndedLine} {m : SourceMap}
    (hready : Ready s) (h : classifyFrom (n + 1) s current rest ls = .ok m) : ∀ l ∈ m.lines, n < l.number := by
  intro l hl
  have hnumber : l.number ∈ m.lines.map SourceLine.number := List.mem_map_of_mem hl
  rw [(classified_of_classifyFrom hready h).number, List.mem_range'] at hnumber
  obtain ⟨i, -, hi⟩ := hnumber
  omega

theorem mkLine_agreeBut (hend : EndAlike t t') (n : Nat) (code comment : Text) (ending : Option LineBreak)
    (left : Option RegionKind) :
    (mkLine n (t ++ code) comment ending left).AgreeBut n t t' (mkLine n (t' ++ code) comment ending left) := by
  obtain ⟨u, u', c, rfl, rfl, hc⟩ := hend
  simp only [List.append_assoc, List.singleton_append]
  rw [mkLine_append_cons hc, mkLine_append_cons hc]
  refine ⟨rfl, rfl, rfl, rfl, fun h => absurd rfl h, fun _ => ?_⟩
  exact ⟨(mkLine n code comment ending left).code, by simp, by simp⟩

/-- What comes after line `n` does not show how the scanner got through its start. -/
theorem classifyFrom_agreeBut (hready : Ready s) (h : Reads n s t s₁) (h' : Reads n s t' s₁) (hend : EndAlike t t')
    (current : Option OpenStatement) (split : List EndedLine × Text) :
    AgreeBut n t t' (classifyFrom n s current (t.foldr pushChar split).2 (t.foldr pushChar split).1)
      (classifyFrom n s current (t'.foldr pushChar split).2 (t'.foldr pushChar split).1) := by
  obtain ⟨_ | ⟨l, ls⟩, rest⟩ := split
  · rw [foldr_pushChar_nil, foldr_pushChar_nil]
    cases hscan : s₁.scanLine n rest with
    | error e =>
      simp only [classifyFrom]
      rw [h.scanLine_append, h'.scanLine_append, hscan]
      exact .error e
    | ok r =>
      obtain ⟨hne, hne'⟩ := hend.ne_nil
      rw [classifyFrom_nil_of_scanLine (h.scanLine_eq_ok hscan) (by simp [hne]),
        classifyFrom_nil_of_scanLine (h'.scanLine_eq_ok hscan) (by simp [hne'])]
      exact .bind fun _ _ => .ok (.cons (mkLine_agreeBut hend n _ _ none none) .nil) rfl
  · rw [foldr_pushChar_cons, foldr_pushChar_cons]
    cases hscan : s₁.scanLine n l.content with
    | error e =>
      simp only [classifyFrom]
      rw [h.scanLine_append, h'.scanLine_append, hscan]
      exact .error e
    | ok r =>
      rw [classifyFrom_cons_of_scanLine (h.scanLine_eq_ok hscan),
        classifyFrom_cons_of_scanLine (h'.scanLine_eq_ok hscan)]
      refine .bind ?_
      rintro ⟨s₂, left⟩ hbreak
      refine AgreeBut.cons ?_ (mkLine_agreeBut hend n _ _ (some l.ending) left) _
      -- the lines after it are read by the same scanner
      have hready' := hready.scanLine_breakLine (h.scanLine_eq_ok hscan) hbreak
      refine .refl fun m hm x hx => ?_
      have hnumber := lt_number_of_classifyFrom hready' hm x hx
      omega

end Line

/-! ## The lines before it -/

theorem classifyFrom_append_agreeBut {k n : Nat} {s s' : Scanner} {t t' rest rest' : Text}
    {ls after after' : List EndedLine} {current : Option OpenStatement} (hk : n + ls.length = k)
    (hafter : s.afterLines n ls = .ok s')
    (h : ∀ current, AgreeBut k t t' (classifyFrom k s' current rest after) (classifyFrom k s' current rest' after')) :
    AgreeBut k t t' (classifyFrom n s current rest (ls ++ after)) (classifyFrom n s current rest' (ls ++ after')) := by
  induction ls generalizing n s current with
  | nil =>
    cases hafter
    subst hk
    exact h current
  | cons l ls ih =>
    obtain ⟨⟨s₁, code, comment⟩, hscan, hline⟩ := exists_of_bind_eq_ok hafter
    obtain ⟨⟨s₂, left⟩, hbreak, hrest⟩ := exists_of_bind_eq_ok hline
    rw [List.length_cons] at hk
    have htail (next : Option OpenStatement) :
        AgreeBut k t t' (classifyFrom (n + 1) s₂ next rest (ls ++ after))
          (classifyFrom (n + 1) s₂ next rest' (ls ++ after')) := ih (by omega) hrest
    rw [List.cons_append, List.cons_append, classifyFrom_cons_of_scanLine hscan, classifyFrom_cons_of_scanLine hscan]
    refine .bind ?_
    rintro ⟨s₃, left'⟩ hbreak'
    cases hbreak.symm.trans hbreak'
    have hnumber : (mkLine n code comment (some l.ending) left).number ≠ k := by
      rw [mkLine_number]
      omega
    exact (htail _).cons (.refl hnumber) _

/-- The lines of a text with a text on one line after it. -/
theorem splitLines_append_foldr (before after : Text) {t : Text} (ht : BreakFree t) (hne : t ≠ []) :
    splitLines (before ++ (t ++ after)) =
      ((splitLines before).1 ++ (((splitLines before).2 ++ t).foldr pushChar (splitLines after)).1,
        (((splitLines before).2 ++ t).foldr pushChar (splitLines after)).2) := by
  have hsplit := isSplit_splitLines before
  have hlines : splitLines (joinLines ((splitLines before).1, [])) = ((splitLines before).1, []) :=
    splitLines_joinLines ⟨hsplit.content, breakFree_nil, hsplit.apart⟩
  have hfree : BreakFree ((splitLines before).2 ++ t) := breakFree_append.2 ⟨hsplit.rest, ht⟩
  have hbefore : before ++ (t ++ after) =
      joinLines ((splitLines before).1, []) ++ ((splitLines before).2 ++ t ++ after) := by
    conv_lhs => rw [← joinLines_splitLines before]
    simp [joinLines]
  have hhead : ((splitLines before).2 ++ t ++ after).head? ≠ some '\n' := by
    intro hhead
    rw [List.head?_append_of_ne_nil _ (by simp [hne])] at hhead
    exact absurd (hfree '\n' (List.mem_of_mem_head? hhead)) (by decide)
  rw [hbefore, splitLines_append (by rw [hlines]) (fun _ => hhead), hlines,
    splitLines_append_of_breakFree hfree]

/-! ## The source -/

/-- The scanner after a text, once the quote of a literal can follow, has read its last line as code. -/
theorem exists_of_afterText {before : Text} {s : Scanner} {quote : Char} (h : afterText before = .ok s)
    (hopens : s.opensPlain quote = true) :
    ∃ s₀, start.afterLines 1 (splitLines before).1 = .ok s₀ ∧ Ready s₀ ∧
      Reads ((splitLines before).1.length + 1) s₀ (splitLines before).2 s := by
  obtain ⟨s₀, hlines, hrest⟩ := exists_of_bind_eq_ok h
  obtain ⟨⟨s₁, code, comment⟩, hscan, hok⟩ := exists_of_bind_eq_ok hrest
  cases hok
  have hready := ready_start.afterLines hlines
  refine ⟨s₀, hlines, hready, ?_⟩
  obtain ⟨hcode, s₂, hreads, ⟨rfl, rfl⟩ | ⟨-, -, rfl⟩⟩ :=
    (scanLine_eq_ok_iff hready.wellFormed hready.not_inTrailingComment).1 hscan
  · rw [hcode, List.append_nil]
    exact hreads
  · simp [opensPlain, commented] at hopens

/-- **The contents of a literal do not show.** Where a quote opens a literal without replacement fields, two bodies
of it lead to the same error, or to the same regions and the same lines with the same comments, but for the code of
the line that holds the literal. -/
theorem classify_literal_contents (before after body body' : Text) (quote : Char) (s : Scanner)
    (hbefore : afterText before = .ok s) (hopens : s.opensPlain quote = true)
    (hbody : isBody quote body = true) (hbody' : isBody quote body' = true) (hne : body ≠ []) (hne' : body' ≠ []) :
    AgreeBut ((splitLines before).1.length + 1)
      ((splitLines before).2 ++ literalText quote body) ((splitLines before).2 ++ literalText quote body')
      (classify (before ++ (literalText quote body ++ after)))
      (classify (before ++ (literalText quote body' ++ after))) := by
  obtain ⟨s₀, hlines, hready, hreads⟩ := exists_of_afterText hbefore hopens
  have hw := hreads.wellFormed hready.wellFormed
  have hq := (Bool.and_eq_true_iff.1 hopens).1
  have hend : EndAlike ((splitLines before).2 ++ literalText quote body)
      ((splitLines before).2 ++ literalText quote body') :=
    ⟨(splitLines before).2 ++ quote :: body, (splitLines before).2 ++ quote :: body', quote, by simp [literalText],
      by simp [literalText], not_isSeparator_of_isQuote hq⟩
  rw [classify, classify, splitLines_append_foldr before after (breakFree_literalText hq hbody) (List.cons_ne_nil _ _),
    splitLines_append_foldr before after (breakFree_literalText hq hbody') (List.cons_ne_nil _ _)]
  refine classifyFrom_append_agreeBut (Nat.add_comm _ _) hlines fun current => ?_
  exact classifyFrom_agreeBut hready (hreads.append (reads_literal hw hopens hbody hne))
    (hreads.append (reads_literal hw hopens hbody' hne')) hend current _

/-- A key in a field of a formatted literal with the same quotes, in a bracket that the line before leaves open. -/
theorem classify_literal_contents_field :
    let before : Text := "x = (  # ('\nf\"\x7bd["
    let after : Text := "]\x7d\" + y)  # note\n"
    let body : Text := "#)]\x7d\\\"\x7b\\\\"
    let m (code : Text) : SourceMap :=
      ⟨[⟨1, "x = (", "  # ('", some .lf, false⟩, ⟨2, code, "  # note", some .lf, true⟩], [⟨1, 2, .continuation⟩]⟩
    let s : Scanner := ⟨[.field 1, .literal ⟨'"', false, true, 2⟩], 1, .nothing⟩
    afterText before = .ok s ∧ s.opensPlain '"' = true ∧ isBody '"' "a" = true ∧ isBody '"' body = true ∧
      AgreeBut 2 "f\"\x7bd[\"a\"" ("f\"\x7bd[" ++ literalText '"' body)
        (classify (before ++ (literalText '"' "a" ++ after))) (classify (before ++ (literalText '"' body ++ after))) ∧
      classify (before ++ (literalText '"' "a" ++ after)) = .ok (m "f\"\x7bd[\"a\"]\x7d\" + y)") ∧
      classify (before ++ (literalText '"' body ++ after)) =
        .ok (m "f\"\x7bd[\"#)]\x7d\\\"\x7b\\\\\"]\x7d\" + y)") := by
  intro before after body m s
  have hbefore : afterText before = .ok s := by decide +kernel
  have hopens : s.opensPlain '"' = true := by decide
  have hplain : isBody '"' "a" = true := by decide
  have hbody : isBody '"' body = true := by decide
  exact ⟨hbefore, hopens, hplain, hbody,
    classify_literal_contents before after "a" body '"' s hbefore hopens hplain hbody (by decide) (by decide),
    by decide +kernel, by decide +kernel⟩

end TypeIgnore
