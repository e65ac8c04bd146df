import TypeIgnore.Proofs.Source.Classification

/-!
# How lines end

* `endStates source` — the scanner at the end of each line, before the break, from which it can be told what holds a
  statement open: brackets (`Scanner.inBrackets`), a backslash (`Scanner.isContinued`) or a literal
  (`Scanner.insideLiteral`);
* `Scanner.leftOpen_of_breakLine` — a line is left open for what is open at its end;
* `SourceLine.EndsWith` — what a line of a map says of its end; `Classified.endsWith` — so it is for each line;
* `WellFormedLines` — the lines of a map are those of the source, each cut before its comment.
-/

namespace TypeIgnore

open Scanner

/-! ## What is open at the end of a line -/

namespace Scanner

/-- A bracket is open outside all literals. -/
def inBrackets (s : Scanner) : Bool := 0 < s.depth

/-- The last character is a backslash outside all literals. -/
def isContinued (s : Scanner) : Bool := s.pending == .backslash && s.frames.isEmpty

def insideLiteral (s : Scanner) : Bool := !s.frames.isEmpty

variable {s s' : Scanner} {line : Nat} {left : Option RegionKind}

/-- A line break leaves the statement open for what is open before it. -/
theorem leftOpen_of_breakLine (hw : WellFormed s) (hs : s.breakLine line = .ok (s', left)) :
    left = s.leftOpen s.isContinued := by
  rcases breakLine_cases hs with ⟨hpending, rfl, rfl⟩ | ⟨-, rfl, rfl⟩
  · -- a field that is opened by the break stands in a literal
    have hp := hw.pending
    rw [hpending] at hp
    have hframes : s.frames.isEmpty = false := by
      cases h : s.frames with
      | nil =>
        rw [h] at hp
        cases hp
      | cons f below => rfl
    have hcontinued : s.isContinued = false := by simp [isContinued, hpending]
    rw [hcontinued]
    simp [leftOpen, push, hframes]
  · rfl

/-- What is at rest with no bracket open holds nothing open. -/
theorem leftOpen_of_atRest (h : s.atRest = true) (hdepth : s.depth = 0) : s.leftOpen s.isContinued = none := by
  obtain ⟨hframes, hpending⟩ := atRest_iff.1 h
  have hcontinued : s.isContinued = false := by
    rcases hpending with hp | ⟨letters, hp⟩ | ⟨quote, formatted, hp⟩ | hp <;> simp [isContinued, hp]
  exact leftOpen_eq_none_iff.2 ⟨hdepth, hframes, hcontinued⟩

theorem isNone_leftOpen (s : Scanner) :
    (s.leftOpen s.isContinued).isNone = !(s.inBrackets || s.isContinued || s.insideLiteral) := by
  rw [Bool.eq_iff_iff, Option.isNone_iff_eq_none, leftOpen_eq_none_iff]
  simp only [inBrackets, insideLiteral, Bool.not_eq_true', Bool.or_eq_false_iff, decide_eq_false_iff_not,
    Bool.not_eq_false', List.isEmpty_iff, Nat.not_lt, Nat.le_zero]
  constructor
  · rintro ⟨hdepth, hframes, hcontinued⟩
    exact ⟨⟨hdepth, hcontinued⟩, hframes⟩
  · rintro ⟨⟨hdepth, hcontinued⟩, hframes⟩
    exact ⟨hdepth, hframes, hcontinued⟩

theorem leftOpen_eq_continuation_iff :
    s.leftOpen s.isContinued = some .continuation ↔ (s.inBrackets || s.isContinued) = true := by
  unfold leftOpen
  split
  · rename_i hopen
    simpa [inBrackets] using hopen
  · split <;> simp_all [inBrackets]

/-- A comment that trails its line starts outside all literals and goes on to its end. -/
theorem Scans.of_comment {code comment : Text} (h : Scans line s code comment s') (hne : comment ≠ []) :
    s'.insideLiteral = false ∧ s'.isContinued = false := by
  obtain ⟨s₀, -, ⟨hnil, -⟩ | ⟨-, hidle, rfl⟩⟩ := h
  · exact absurd hnil hne
  · have hframes : s₀.commented.frames = [] := (isIdle_iff.1 hidle).1
    exact ⟨by simp [insideLiteral, hframes], by simp [isContinued, commented]⟩

end Scanner

/-! ## The end of each line -/

/-- The scanner at the end of each line from line `n` on, before the break, as far as there is no error. -/
def endStatesFrom (n : Nat) (s : Scanner) (rest : Text) : List EndedLine → List Scanner
  | [] =>
    match s.scanLine n rest with
    | .ok (s, _, _) => if rest.isEmpty then [] else [s]
    | .error _ => []
  | l :: ls =>
    match s.scanLine n l.content with
    | .ok (s, _, _) =>
      match s.breakLine n with
      | .ok (next, _) => s :: endStatesFrom (n + 1) next rest ls
      | .error _ => [s]
    | .error _ => []

/-- The scanner at the end of each line of a source. -/
def endStates (source : Text) : List Scanner :=
  endStatesFrom 1 .start (splitLines source).2 (splitLines source).1

theorem endStatesFrom_cons {n : Nat} {s s₁ s₂ : Scanner} {code comment rest : Text} {ending : LineBreak}
    {left : Option RegionKind} {ls : List EndedLine} (hready : Ready s) (hscan : Scans n s code comment s₁)
    (hbreak : s₁.breakLine n = .ok (s₂, left)) :
    endStatesFrom n s rest (⟨code ++ comment, ending⟩ :: ls) = s₁ :: endStatesFrom (n + 1) s₂ rest ls := by
  have hline := (scanLine_eq_ok_iff hready.wellFormed hready.not_inTrailingComment).2 ⟨rfl, hscan⟩
  simp only [endStatesFrom, hline, hbreak]

/-- What the line says of its end is so if the scanner is `s` there. -/
structure SourceLine.EndsWith (l : SourceLine) (s : Scanner) : Prop where
  endsStatement : l.endsStatement = (s.leftOpen s.isContinued).isNone
  comment : l.comment ≠ [] → s.insideLiteral = false ∧ s.isContinued = false

theorem ne_nil_of_mkLine_comment {n : Nat} {code comment : Text} {ending : Option LineBreak} {left : Option RegionKind}
    (h : (mkLine n code comment ending left).comment ≠ []) : comment ≠ [] := by
  rintro rfl
  exact h rfl

/-- **Each line of a map says what is open at its end.** -/
theorem Classified.endsWith {n : Nat} {s : Scanner} {current : Option OpenStatement} {rest : Text}
    {ls : List EndedLine} {m : SourceMap} (h : Classified n s current ls rest m) :
    List.Forall₂ SourceLine.EndsWith m.lines (endStatesFrom n s rest ls) := by
  induction h with
  | done => exact .nil
  | @last n s s' current code comment hready hne hscan hrest hdepth =>
    have hline := (scanLine_eq_ok_iff hready.wellFormed hready.not_inTrailingComment).2 ⟨rfl, hscan⟩
    have hstates : endStatesFrom n s (code ++ comment) [] = [s'] := by
      have hempty : (code ++ comment).isEmpty = false := by simpa using hne
      simp only [endStatesFrom, hline, hempty]
      rfl
    rw [hstates]
    refine .cons ⟨?_, fun hcomment => hscan.of_comment (ne_nil_of_mkLine_comment hcomment)⟩ .nil
    rw [leftOpen_of_atRest hrest hdepth]
    rfl
  | @line n s s₁ s₂ current code comment rest ending left ls tail hready hscan hbreak htail ih =>
    rw [endStatesFrom_cons hready hscan hbreak]
    refine .cons ⟨?_, fun hcomment => hscan.of_comment (ne_nil_of_mkLine_comment hcomment)⟩ ih
    rw [mkLine_endsStatement, leftOpen_of_breakLine (hscan.wellFormed hready.wellFormed) hbreak]

/-! ## The lines of a source -/

section Lines

variable {n : Nat} {s : Scanner} {current : Option OpenStatement} {rest : Text} {ls : List EndedLine} {m : SourceMap}

/-- Code that a comment follows does not end in a separator. -/
theorem isSeparator_of_mkLine_code {code comment : Text} {ending : Option LineBreak} {left : Option RegionKind}
    (h : (mkLine n code comment ending left).comment ≠ []) {c : Char}
    (hc : (mkLine n code comment ending left).code.getLast? = some c) : isSeparator c = false := by
  rw [mkLine_of_ne_nil n code comment ending left (ne_nil_of_mkLine_comment h)] at hc
  exact Text.getLast?_spanEnd_fst isSeparator hc

theorem Classified.isSeparator_of_code (h : Classified n s current ls rest m) : ∀ l ∈ m.lines, l.comment ≠ [] →
    ∀ c, l.code.getLast? = some c → isSeparator c = false := by
  induction h with
  | done => simp
  | last =>
    intro l hl
    rw [List.mem_singleton.1 hl]
    exact fun hne c hc => isSeparator_of_mkLine_code hne hc
  | line _ _ _ _ ih =>
    intro l hl
    rcases List.mem_cons.1 hl with rfl | hl
    · exact fun hne c hc => isSeparator_of_mkLine_code hne hc
    · exact ih l hl

theorem Classified.ending (h : Classified n s current ls rest m) : ∀ l ∈ m.lines.dropLast, l.ending ≠ none := by
  induction h with
  | done => simp
  | last => simp
  | @line n s s₁ s₂ current code comment rest ending left ls tail hready hscan hbreak htail ih =>
    intro l hl
    cases htails : tail.lines with
    | nil =>
      rw [htails] at hl
      cases hl
    | cons l' ls' =>
      simp only [htails, List.dropLast_cons_cons] at hl ih
      rcases List.mem_cons.1 hl with rfl | hl
      · exact Option.some_ne_none ending
      · exact ih l hl

end Lines

/-- The lines are those of the source, each cut before its comment. A line is left open by what is open at its end, and
only brackets can hold a statement open over a comment. -/
structure WellFormedLines (source : Text) (lines : List SourceLine) : Prop where
  render : TypeIgnore.render lines = source
  number : lines.map SourceLine.number = List.range' 1 lines.length
  breakFree : ∀ l ∈ lines, BreakFree l.code ∧ BreakFree l.comment
  ending : ∀ l ∈ lines.dropLast, l.ending ≠ none
  comment : ∀ l ∈ lines, l.comment = [] ∨
    IsComment l.comment ∧ ∀ c, l.code.getLast? = some c → isSeparator c = false
  heldOpen : List.Forall₂ (fun l s =>
    (l.endsStatement = false ↔ s.inBrackets = true ∨ s.isContinued = true ∨ s.insideLiteral = true) ∧
      (l.comment ≠ [] → s.isContinued = false ∧ s.insideLiteral = false ∧
        (l.endsStatement = false → s.inBrackets = true))) lines (endStates source)

/-- **Classification cuts a source into well-formed lines,** and loses nothing. -/
theorem wellFormedLines_classify (source : Text) (m : SourceMap) (hm : classify source = .ok m) :
    WellFormedLines source m.lines := by
  have hclassified := classify_eq_ok_iff.1 hm
  refine ⟨render_of_classify hm, hclassified.number, ?_, hclassified.ending, ?_, ?_⟩
  · intro l hl
    exact breakFree_append.1 (breakFree_content_of_classify hm l hl)
  · intro l hl
    rcases comment_of_classify hm l hl with hnone | hcomment
    · exact .inl hnone
    · refine .inr ⟨hcomment, hclassified.isSeparator_of_code l hl ?_⟩
      intro hnil
      rw [hnil] at hcomment
      exact absurd hcomment.1 (by simp)
  · refine hclassified.endsWith.imp fun l s h => ?_
    have hopen : l.endsStatement = false ↔ s.inBrackets = true ∨ s.isContinued = true ∨ s.insideLiteral = true := by
      rw [h.endsStatement, isNone_leftOpen]
      simp only [Bool.not_eq_false', Bool.or_eq_true, or_assoc]
    refine ⟨hopen, fun hne => ?_⟩
    obtain ⟨hliteral, hcontinued⟩ := h.comment hne
    refine ⟨hcontinued, hliteral, fun hends => ?_⟩
    simpa [hliteral, hcontinued] using hopen.1 hends

/-- A comment between brackets, none in a literal, and one after a continued line. -/
theorem wellFormedLines_classify_mixed :
    let source : Text := "f(\t # a\r\n  1)\r'''# b\n'''\\\n\x0c# c"
    let lines : List SourceLine := [⟨1, "f(", "\t # a", some .crlf, false⟩, ⟨2, "  1)", [], some .cr, true⟩,
      ⟨3, "'''# b", [], some .lf, false⟩, ⟨4, "'''\\", [], some .lf, false⟩, ⟨5, [], "\x0c# c", none, true⟩]
    classify source = .ok ⟨lines, [⟨1, 2, .continuation⟩, ⟨3, 5, .continuation⟩]⟩ ∧
      (endStates source).map (fun s => (s.inBrackets, s.isContinued, s.insideLiteral)) =
        [(true, false, false), (false, false, false), (false, false, true), (false, true, false),
          (false, false, false)] ∧
      WellFormedLines source lines := by
  intro source lines
  have hm : classify source = .ok ⟨lines, [⟨1, 2, .continuation⟩, ⟨3, 5, .continuation⟩]⟩ := by decide +kernel
  exact ⟨hm, by decide +kernel, wellFormedLines_classify source _ hm⟩

end TypeIgnore
