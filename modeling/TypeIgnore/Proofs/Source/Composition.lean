import TypeIgnore.Proofs.Source.Classification

/-!
# Sources one after the other

Nothing of a source that is complete shows in what follows it but its number of lines.

* `Scanner.shift`, `SourceMap.shift`, `LexError.shift` — all line numbers moved on by `k`;
* `Scanner.step_shift`, `Scanner.scanLine_shift`, `Scanner.breakLine_shift`, `Scanner.checkEnd_shift` — the scanner does
  to lines that are moved on what it does to the lines, so classification does (`classifyFrom_shift`);
* `splitLines_append` — the lines of two texts, one after the other;
* `Classified.append` — after lines that have a map the scanner is where it started;
* `SourceMap.append` — the map of two sources one after the other.
-/

namespace TypeIgnore

/-! ## Line numbers moved on -/

def LexError.shift (k : Nat) (e : LexError) : LexError := { e with line := e.line + k }

/-- The result for lines that are moved on by `k`, if `f` moves what it is about. -/
def shiftResult {α β : Type} (k : Nat) (f : α → β) : Except LexError α → Except LexError β
  | .ok a => .ok (f a)
  | .error e => .error (e.shift k)

theorem shiftResult_bind {α α' β β' : Type} {k : Nat} {f : α → α'} {f' : β → β'} {x : Except LexError α}
    {g : α → Except LexError β} {g' : α' → Except LexError β'} (hg : ∀ a, g' (f a) = shiftResult k f' (g a)) :
    shiftResult k f x >>= g' = shiftResult k f' (x >>= g) := by
  cases x with
  | error e => rfl
  | ok a => exact hg a

def Literal.shift (k : Nat) (l : Literal) : Literal := { l with startLine := l.startLine + k }

def Frame.shift (k : Nat) : Frame → Frame
  | .literal l => .literal (l.shift k)
  | .field depth => .field depth
  | .spec => .spec

def SourceLine.shift (k : Nat) (l : SourceLine) : SourceLine := { l with number := l.number + k }

def Region.shift (k : Nat) (r : Region) : Region := { r with first := r.first + k, last := r.last + k }

def OpenStatement.shift (k : Nat) (o : OpenStatement) : OpenStatement := { o with first := o.first + k }

def SourceMap.shift (k : Nat) (m : SourceMap) : SourceMap where
  lines := m.lines.map (·.shift k)
  regions := m.regions.map (·.shift k)

/-! ## The scanner -/

namespace Scanner

variable (k : Nat) (s : Scanner) (line : Nat) (c : Char)

/-- The scanner, with literals that start `k` lines later. -/
def shift (k : Nat) (s : Scanner) : Scanner := { s with frames := s.frames.map (·.shift k) }

theorem openBracket_shift : (s.shift k).openBracket = s.openBracket.shift k := by
  obtain ⟨_ | ⟨_ | _ | _, below⟩, depth, pending⟩ := s <;> rfl

theorem closeBracket_shift :
    (s.shift k).closeBracket (line + k) c = shiftResult k (shift k) (s.closeBracket line c) := by
  obtain ⟨_ | ⟨_ | d | _, below⟩, depth, pending⟩ := s
  · cases depth <;> rfl
  · cases depth <;> rfl
  · cases d with
    | zero => by_cases hc : c = '}' <;> simp [closeBracket, shift, Frame.shift, hc, shiftResult, LexError.shift]
    | succ d => rfl
  · cases depth <;> rfl

theorem readCode_shift : (s.shift k).readCode (line + k) c = shiftResult k (shift k) (s.readCode line c) := by
  have hletters : (s.shift k).letters = s.letters := rfl
  unfold readCode
  rw [hletters, openBracket_shift, closeBracket_shift]
  by_cases hcolon : c = ':'
  · -- a colon starts a specification or nothing
    subst hcolon
    obtain ⟨_ | ⟨_ | d | _, below⟩, depth, pending⟩ := s
    · rfl
    · rfl
    · cases d <;> rfl
    · rfl
  · simp only [if_neg hcolon]
    split_ifs <;> rfl

theorem readLiteral_shift (l : Literal) (below : List Frame) :
    (s.shift k).readLiteral (l.shift k) (below.map (·.shift k)) c = (s.readLiteral l below c).shift k := by
  have hquotes : (s.shift k).quotes = s.quotes := rfl
  have hquote : (l.shift k).quote = l.quote := rfl
  have htriple : (l.shift k).triple = l.triple := rfl
  have hformatted : (l.shift k).formatted = l.formatted := rfl
  unfold readLiteral
  rw [hquotes, hquote, htriple, hformatted]
  split_ifs <;> rfl

theorem readSpec_shift (below : List Frame) :
    (s.shift k).readSpec (below.map (·.shift k)) c = (s.readSpec below c).shift k := by
  unfold readSpec
  split_ifs
  · rfl
  · simp [shift]
  · rfl

theorem read_shift : (s.shift k).read (line + k) c = shiftResult k (shift k) (s.read line c) := by
  obtain ⟨_ | ⟨l | _ | _, below⟩, depth, pending⟩ := s
  · exact readCode_shift k _ line c
  · exact congrArg Except.ok (readLiteral_shift k _ c l below)
  · exact readCode_shift k _ line c
  · exact congrArg Except.ok (readSpec_shift k _ c below)

theorem step_shift : (s.shift k).step (line + k) c = shiftResult k (shift k) (s.step line c) := by
  have hpending : (s.shift k).pending = s.pending := rfl
  have hformatted : (s.shift k).inFormatted = s.inFormatted := by
    obtain ⟨_ | ⟨_ | _ | _, below⟩, depth, pending⟩ := s <;> rfl
  unfold step
  rw [hpending]
  cases s.pending with
  | comment => rfl
  | backslash => rfl
  | escape =>
    simp only [hformatted]
    split
    · exact read_shift k s.settled line c
    · rfl
  | opened quote formatted =>
    simp only
    split
    · rfl
    · exact read_shift k (s.push (.literal ⟨quote, false, formatted, line⟩)) line c
  | doubled quote formatted =>
    simp only
    split
    · rfl
    · exact read_shift k s.settled line c
  | brace =>
    simp only
    split
    · rfl
    · exact read_shift k (s.push (.field 0)) line c
  | nothing => exact read_shift k s line c
  | name letters => exact read_shift k s line c
  | closing quotes => exact read_shift k s line c

/-- What comes of a line, its scanner moved on. -/
def shiftScan (k : Nat) (r : Scanner × Text × Text) : Scanner × Text × Text := (r.1.shift k, r.2)

theorem scanLine_shift (t : Text) :
    (s.shift k).scanLine (line + k) t = shiftResult k (shiftScan k) (s.scanLine line t) := by
  induction t generalizing s with
  | nil => rfl
  | cons c t ih =>
    unfold scanLine
    rw [step_shift]
    refine shiftResult_bind fun s₁ => ?_
    have hin : (s₁.shift k).inTrailingComment = s₁.inTrailingComment := by
      simp [inTrailingComment, shift]
    rw [hin, ih]
    split
    · rfl
    · exact shiftResult_bind fun _ => rfl

theorem breakLine_shift :
    (s.shift k).breakLine (line + k) = shiftResult k (fun r => (r.1.shift k, r.2)) (s.breakLine line) := by
  obtain ⟨frames, depth, pending⟩ := s
  cases pending with
  | opened quote formatted => rfl
  | escape | brace | backslash => cases frames <;> rfl
  | nothing | name | doubled | closing | comment =>
    rcases frames with _ | ⟨l | _ | _, below⟩
    · rfl
    · -- a literal that is not triple-quoted is an error of the line where it starts
      obtain ⟨quote, triple, formatted, startLine⟩ := l
      cases triple <;> rfl
    · rfl
    · rfl

theorem innermostLiteral?_shift (frames : List Frame) :
    innermostLiteral? (frames.map (·.shift k)) = (innermostLiteral? frames).map (·.shift k) := by
  induction frames with
  | nil => rfl
  | cons f frames ih =>
    cases f with
    | literal l => rfl
    | field depth => exact ih
    | spec => exact ih

theorem checkEnd_shift : (s.shift k).checkEnd (line + k) = shiftResult k id (s.checkEnd line) := by
  have hpending : (s.shift k).pending = s.pending := rfl
  have hframes : (s.shift k).frames = s.frames.map (·.shift k) := rfl
  have hdepth : (s.shift k).depth = s.depth := rfl
  unfold checkEnd
  rw [hpending, hframes, hdepth, innermostLiteral?_shift]
  cases s.pending with
  | backslash => rfl
  | opened quote formatted => rfl
  | nothing | name | doubled | closing | escape | brace | comment =>
    cases innermostLiteral? s.frames with
    | some l => rfl
    | none =>
      simp only [Option.map_none]
      split <;> rfl

end Scanner

/-! ## Classification -/

section Classify

variable (k n : Nat)

theorem OpenStatement.advance_shift (left : Option RegionKind) (current : Option OpenStatement) :
    OpenStatement.advance (n + k) left (current.map (·.shift k)) =
      (OpenStatement.advance n left current).map (·.shift k) := by
  cases left <;> cases current <;> rfl

theorem OpenStatement.close_shift (left : Option RegionKind) (current : Option OpenStatement) :
    OpenStatement.close (n + k) left (current.map (·.shift k)) =
      (OpenStatement.close n left current).map (·.shift k) := by
  cases left <;> cases current <;> rfl

theorem classifyFrom_shift (s : Scanner) (current : Option OpenStatement) (rest : Text) (ls : List EndedLine) :
    classifyFrom (n + k) (s.shift k) (current.map (·.shift k)) rest ls =
      shiftResult k (SourceMap.shift k) (classifyFrom n s current rest ls) := by
  induction ls generalizing n s current with
  | nil =>
    unfold classifyFrom
    rw [Scanner.scanLine_shift]
    refine shiftResult_bind ?_
    rintro ⟨s₁, code, comment⟩
    simp only [Scanner.shiftScan]
    rw [Scanner.checkEnd_shift]
    refine shiftResult_bind fun _ => ?_
    rw [OpenStatement.close_shift]
    split
    · cases current <;> rfl
    · rfl
  | cons l ls ih =>
    unfold classifyFrom
    rw [Scanner.scanLine_shift]
    refine shiftResult_bind ?_
    rintro ⟨s₁, code, comment⟩
    simp only [Scanner.shiftScan]
    rw [Scanner.breakLine_shift]
    refine shiftResult_bind ?_
    rintro ⟨s₂, left⟩
    simp only
    rw [OpenStatement.advance_shift, Nat.add_right_comm, ih, OpenStatement.close_shift]
    refine shiftResult_bind fun tail => ?_
    simp only [shiftResult, SourceMap.shift, List.map_append]
    rfl

end Classify

/-! ## Two texts -/

/-- A text that ends in a line break has nothing after it. -/
theorem splitLines_snd_eq_nil {t : Text} (h : ∀ c, t.getLast? = some c → isBreak c = true) : (splitLines t).2 = [] := by
  by_contra hne
  have hlast : t.getLast? = some ((splitLines t).2.getLast hne) := by
    conv_lhs => rw [← joinLines_splitLines t, joinLines]
    rw [List.getLast?_append_of_ne_nil _ hne, List.getLast?_eq_some_getLast hne]
  have hfree := (isSplit_splitLines t).rest _ (List.getLast_mem hne)
  rw [h _ hlast] at hfree
  cases hfree

/-- The lines of two texts one after the other, if no break is cut in two. -/
theorem splitLines_append {t u : Text} (ht : (splitLines t).2 = [])
    (hcr : t.getLast? = some '\r' → u.head? ≠ some '\n') :
    splitLines (t ++ u) = ((splitLines t).1 ++ (splitLines u).1, (splitLines u).2) := by
  have hsplit := isSplit_splitLines t
  have hsplit' := isSplit_splitLines u
  have htext : (splitLines t).1.flatMap (fun l => l.content ++ l.ending.text) = t := by
    have hjoin := joinLines_splitLines t
    rwa [joinLines, ht, List.append_nil] at hjoin
  have htext' : (splitLines u).1.flatMap (fun l => l.content ++ l.ending.text) ++ (splitLines u).2 = u :=
    joinLines_splitLines u
  have hjoin : joinLines ((splitLines t).1 ++ (splitLines u).1, (splitLines u).2) = t ++ u := by
    rw [joinLines, List.flatMap_append, List.append_assoc, htext, htext']
  rw [← hjoin]
  refine splitLines_joinLines ⟨?_, hsplit'.rest, ?_⟩
  · intro l hl
    rcases List.mem_append.1 hl with hl | hl
    · exact hsplit.content l hl
    · exact hsplit'.content l hl
  · rw [List.isChain_append]
    refine ⟨hsplit.apart, hsplit'.apart, ?_⟩
    -- a line feed first in `u` would be one with a carriage return last in `t`
    intro l hl l' hl' hending hcontent hending'
    obtain ⟨ls, hls⟩ := List.getLast?_eq_some_iff.1 hl
    obtain ⟨ls', hls'⟩ := List.head?_eq_some_iff.1 hl'
    refine hcr ?_ ?_
    · rw [← htext, hls]
      simp [hending, LineBreak.text]
    · rw [← htext', hls']
      simp [hcontent, hending', LineBreak.text]

/-! ## Two sources -/

/-- The map of a source and of another after it, which comes with its own line numbers. -/
def SourceMap.append (m m' : SourceMap) : SourceMap where
  lines := m.lines ++ m'.lines.map (·.shift m.lines.length)
  regions := m.regions ++ m'.regions.map (·.shift m.lines.length)

/-- Where a source can end with a line break, the scanner is as at the start of a source. -/
theorem Scanner.Ready.eq_start {s : Scanner} (hready : Ready s) (hrest : s.atRest = true) (hdepth : s.depth = 0) :
    s = start := by
  obtain ⟨frames, depth, pending⟩ := s
  obtain ⟨rfl, -⟩ := atRest_iff.1 hrest
  obtain rfl : pending = .nothing := hready.pending
  obtain rfl : depth = 0 := hdepth
  rfl

/-- After lines that have a map, classification starts afresh. -/
theorem Classified.append {n : Nat} {s : Scanner} {current : Option OpenStatement} {rest : Text} {ls : List EndedLine}
    {m : SourceMap} (h : Classified n s current ls rest m) (hnil : rest = []) (rest' : Text) (ls' : List EndedLine) :
    TypeIgnore.classifyFrom n s current rest' (ls ++ ls') =
      (TypeIgnore.classifyFrom (n + ls.length) Scanner.start none rest' ls').map fun m' =>
        ⟨m.lines ++ m'.lines, m.regions ++ m'.regions⟩ := by
  induction h with
  | @done n s hready hrest hdepth =>
    rw [hready.eq_start hrest hdepth]
    simp only [List.nil_append, List.length_nil, Nat.add_zero]
    cases TypeIgnore.classifyFrom n Scanner.start none rest' ls' <;> rfl
  | last _ hne => exact absurd hnil hne
  | @line n s s₁ s₂ current code comment rest ending left ls tail hready hscan hbreak htail ih =>
    have hline := (Scanner.scanLine_eq_ok_iff hready.wellFormed hready.not_inTrailingComment).2 ⟨rfl, hscan⟩
    have hlength : n + (ls.length + 1) = n + 1 + ls.length := by omega
    rw [List.cons_append, List.length_cons, TypeIgnore.classifyFrom, hline, hlength]
    simp only [hbreak, ih hnil, bind, Except.bind]
    cases TypeIgnore.classifyFrom (n + 1 + ls.length) Scanner.start none rest' ls' with
    | error e => rfl
    | ok m' => simp [Except.map]

/-- **Classification is compositional:** after a source that is complete, another one has the map, or the error, that it
has alone, with its lines counted on. -/
theorem classify_append (source after : Text) (m : SourceMap) (hm : classify source = .ok m)
    (hend : ∀ c, source.getLast? = some c → isBreak c = true)
    (hcr : source.getLast? = some '\r' → after.head? ≠ some '\n') :
    classify (source ++ after) =
      match classify after with
      | .ok m' => .ok (m.append m')
      | .error e => .error (e.shift m.lines.length) := by
  have hnil := splitLines_snd_eq_nil hend
  have hclassified := classify_eq_ok_iff.1 hm
  have hlength : m.lines.length = (splitLines source).1.length := by
    have hcount := hclassified.length_lines
    rwa [hnil] at hcount
  -- what follows is read as at the start of a source, but for its line numbers
  have hshift := classifyFrom_shift m.lines.length 1 Scanner.start none (splitLines after).2 (splitLines after).1
  have hstart : Scanner.start.shift m.lines.length = Scanner.start := rfl
  have hafter : classifyFrom 1 Scanner.start none (splitLines after).2 (splitLines after).1 = classify after := rfl
  rw [hstart, Option.map_none, hafter] at hshift
  rw [classify, splitLines_append hnil hcr]
  simp only
  rw [hclassified.append hnil, ← hlength, hshift]
  cases classify after <;> rfl

/-- A bracket that is closed before a carriage return, and then a literal. -/
theorem classify_append_literal :
    let m : SourceMap := ⟨[⟨1, "x = (", [], some .lf, false⟩, ⟨2, "  1)", "  # a", some .cr, true⟩],
      [⟨1, 2, .continuation⟩]⟩
    let m' : SourceMap := ⟨[⟨1, "'''", [], some .lf, false⟩, ⟨2, "'''", [], none, true⟩], [⟨1, 2, .multilineLiteral⟩]⟩
    classify "x = (\n  1)  # a\r" = .ok m ∧ classify "'''\n'''" = .ok m' ∧
      classify "x = (\n  1)  # a\r'''\n'''" = .ok (m.append m') ∧
      (m.append m').regions = [⟨1, 2, .continuation⟩, ⟨3, 4, .multilineLiteral⟩] ∧
      classify "x = (\n  1)  # a\r'''\n" = .error ⟨3, .unterminatedTripleQuote⟩ := by
  intro m m'
  have hm : classify "x = (\n  1)  # a\r" = .ok m := by decide +kernel
  have hm' : classify "'''\n'''" = .ok m' := by decide +kernel
  have hopen : classify "'''\n" = .error ⟨1, .unterminatedTripleQuote⟩ := by decide +kernel
  have hend : ∀ c, ("x = (\n  1)  # a\r" : Text).getLast? = some c → isBreak c = true := by
    rintro c ⟨⟩
    rfl
  have hall := classify_append _ "'''\n'''" _ hm hend (by decide)
  have herror := classify_append _ "'''\n" _ hm hend (by decide)
  rw [hm'] at hall
  rw [hopen] at herror
  exact ⟨hm, hm', hall, rfl, herror⟩

end TypeIgnore
