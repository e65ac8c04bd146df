import TypeIgnore.Proofs.Source.Nesting
import TypeIgnore.Proofs.Text.Trim

/-!
# Reading a line up to its comment

* `Reads line s t s'` — the scanner gets from `s` to `s'` over `t` and meets no trailing comment on the way;
* `isIdle` — nothing is open but brackets, so that a trailing comment can start and the line can end;
* `atRest` — idle, or in the trailing comment;
* `Scans line s code comment s'` — a line is what is read and, from an idle state on, a comment, which is what
  `scanLine` finds (`scanLine_eq_ok_iff`);
* `Reads.exists_before_blanks` — blanks before an idle state can be left out, `Reads.separators` — and
  separators after one put in;
* `breakLine_of_atRest`, `atRest_of_breakLine`, `checkEnd_eq_ok_iff` — what ends a line ends it at rest.
-/

namespace TypeIgnore.Scanner

/-- Nothing is open but brackets: a trailing comment can start here. -/
def isIdle (s : Scanner) : Bool :=
  s.frames.isEmpty &&
    match s.pending with
    | .nothing | .name _ | .doubled _ _ => true
    | _ => false

def atRest (s : Scanner) : Bool := s.isIdle || s.inTrailingComment

theorem isIdle_iff {s : Scanner} :
    s.isIdle = true ↔ s.frames = [] ∧
      (s.pending = .nothing ∨ (∃ letters, s.pending = .name letters) ∨ ∃ q f, s.pending = .doubled q f) := by
  obtain ⟨frames, depth, pending⟩ := s
  cases pending <;> simp [isIdle]

theorem inTrailingComment_iff {s : Scanner} :
    s.inTrailingComment = true ↔ s.pending = .comment ∧ s.frames = [] := by
  simp [inTrailingComment]

theorem atRest_iff {s : Scanner} :
    s.atRest = true ↔ s.frames = [] ∧ (s.pending = .nothing ∨ (∃ letters, s.pending = .name letters) ∨
      (∃ q f, s.pending = .doubled q f) ∨ s.pending = .comment) := by
  rw [atRest, Bool.or_eq_true_iff, isIdle_iff, inTrailingComment_iff]
  grind

/-- The state in the trailing comment that starts at `s`. -/
def commented (s : Scanner) : Scanner := { s with pending := .comment }

theorem inTrailingComment_commented {s : Scanner} (h : s.frames = []) : s.commented.inTrailingComment = true :=
  inTrailingComment_iff.2 ⟨rfl, h⟩

variable {s s' : Scanner} {line : Nat} {c : Char}

/-! ## Blanks -/

theorem isQuote_ne_of_isBlank {q : Char} (hq : isQuote q = true) (hc : Text.isBlank c = true) : c ≠ q := by
  rintro rfl
  simp only [isQuote, Bool.or_eq_true, beq_iff_eq] at hq
  rcases hq with rfl | rfl <;> revert hc <;> decide

theorem ne_of_isBlank {x : Char} (hx : Text.isBlank x = false) (hc : Text.isBlank c = true) : c ≠ x := by
  rintro rfl
  rw [hx] at hc
  cases hc

/-- A blank changes nothing in code but what is pending. -/
theorem readCode_of_isBlank (hc : Text.isBlank c = true) :
    ∃ p, s.readCode line c = .ok { s with pending := p } := by
  have hquote : isQuote c = false :=
    Bool.eq_false_iff.2 fun h => isQuote_ne_of_isBlank h hc rfl
  have hopening : isOpening c = false := by
    simp [isOpening, ne_of_isBlank (x := '(') rfl hc, ne_of_isBlank (x := '[') rfl hc,
      ne_of_isBlank (x := '{') rfl hc]
  have hclosing : isClosing c = false := by
    simp [isClosing, ne_of_isBlank (x := ')') rfl hc, ne_of_isBlank (x := ']') rfl hc,
      ne_of_isBlank (x := '}') rfl hc]
  unfold readCode
  rw [if_neg (ne_of_isBlank rfl hc), if_neg (ne_of_isBlank rfl hc), hquote, hopening, hclosing,
    if_neg Bool.false_ne_true, if_neg Bool.false_ne_true, if_neg Bool.false_ne_true,
    if_neg (ne_of_isBlank rfl hc)]
  split
  · exact ⟨_, rfl⟩
  · exact ⟨_, rfl⟩

/-- A blank changes nothing but what is pending. -/
theorem read_of_isBlank (line : Nat) (h : Nested s.frames) (hc : Text.isBlank c = true) :
    ∃ p, s.read line c = .ok { s with pending := p } := by
  unfold read
  split
  · rename_i l below hframes
    rw [hframes] at h
    have hq : isQuote l.quote = true := (Bool.and_eq_true_iff.1 h.1).1
    refine ⟨.nothing, ?_⟩
    unfold readLiteral
    rw [if_neg (ne_of_isBlank rfl hc), if_neg (isQuote_ne_of_isBlank hq hc), if_neg]
    · rfl
    · simp [ne_of_isBlank (x := '{') rfl hc]
  · refine ⟨.nothing, ?_⟩
    unfold readSpec
    rw [if_neg (ne_of_isBlank rfl hc), if_neg (ne_of_isBlank rfl hc)]
    rfl
  · exact readCode_of_isBlank hc

/-- A scanner that is outside all frames once it is resolved is idle. -/
theorem isIdle_of_resolved (hw : WellFormed s) (hpending : s.pending ≠ .comment ∧ s.pending ≠ .backslash)
    (hframes : (s.resolved line).frames = []) : s.isIdle = true := by
  have hp := hw.pending
  rw [isIdle_iff]
  unfold resolved at hframes
  cases h : s.pending with
  | opened | brace =>
    rw [h] at hframes
    cases hframes
  | nothing =>
    rw [h] at hframes
    exact ⟨hframes, .inl rfl⟩
  | name letters =>
    rw [h] at hframes
    exact ⟨hframes, .inr (.inl ⟨letters, rfl⟩)⟩
  | doubled quote formatted =>
    rw [h] at hframes
    exact ⟨hframes, .inr (.inr ⟨quote, formatted, rfl⟩)⟩
  | escape | closing =>
    -- these stand in a literal
    rw [h] at hframes
    have hframes : s.frames = [] := hframes
    rw [h, hframes] at hp
    cases hp
  | backslash => exact absurd h hpending.2
  | comment => exact absurd h hpending.1

/-- Where a blank leads to an idle state, the state before it is idle too. -/
theorem isIdle_of_step_isBlank (hw : WellFormed s) (hc : Text.isBlank c = true) (hs : s.step line c = .ok s')
    (h : s'.isIdle = true) : s.isIdle = true ∧ s.depth = s'.depth := by
  have hframes' : s'.frames = [] := (isIdle_iff.1 h).1
  have hp := hw.pending
  rcases step_cases hs with hjoins | ⟨hpending, hread⟩
  · cases hjoins with
    | comment hpending => simp [isIdle, hpending] at h
    | escape hpending =>
      have hframes : s.frames = [] := hframes'
      rw [hpending, hframes] at hp
      cases hp
    | opened hpending =>
      rw [hpending] at hp
      have hquote : isQuote c = true := (Bool.and_eq_true_iff.1 hp).1
      exact absurd rfl (isQuote_ne_of_isBlank hquote hc)
    | doubled => cases hframes'
    | brace _ hbrace => exact absurd hbrace (ne_of_isBlank rfl hc)
  · obtain ⟨p, hblank⟩ := read_of_isBlank line (hw.resolved line).nested hc
    rw [hblank] at hread
    cases hread
    exact ⟨isIdle_of_resolved hw hpending hframes', (resolved_depth line s).symm⟩

/-- A separator keeps a scanner idle. -/
theorem step_of_isSeparator (line : Nat) (hw : WellFormed s) (h : s.isIdle = true) (hc : isSeparator c = true) :
    s.step line c = .ok s.settled := by
  have hb := isBlank_of_isSeparator hc
  obtain ⟨hframes, hpending⟩ := isIdle_iff.1 h
  have hcode : ∀ s₀ : Scanner, s₀.frames = [] → s₀.read line c = .ok s₀.settled := by
    intro s₀ h₀
    simp only [isSeparator, Bool.or_eq_true, beq_iff_eq] at hc
    rcases hc with (rfl | rfl) | rfl <;> simp [read, h₀, readCode, isQuote, isOpening, isClosing, startsName,
      continuesName]
  have hp := hw.pending
  rcases hpending with hpending | ⟨letters, hpending⟩ | ⟨quote, formatted, hpending⟩
  · simp only [step, hpending, hcode s hframes]
  · simp only [step, hpending, hcode s hframes]
  · rw [hpending] at hp
    have hq : isQuote quote = true := (Bool.and_eq_true_iff.1 hp).1
    simp only [step, hpending, if_neg (isQuote_ne_of_isBlank hq hb), hcode s.settled hframes]
    rfl

/-! ## The start of a comment -/

theorem step_hash (hw : WellFormed s) (h : s.isIdle = true) : s.step line '#' = .ok s.commented := by
  obtain ⟨hframes, hpending⟩ := isIdle_iff.1 h
  have hcode : ∀ s₀ : Scanner, s₀.frames = [] → s₀.read line '#' = .ok s₀.commented := by
    intro s₀ h₀
    simp [read, h₀, readCode, commented]
  have hp := hw.pending
  rcases hpending with hpending | ⟨letters, hpending⟩ | ⟨quote, formatted, hpending⟩
  · simp only [step, hpending, hcode s hframes]
  · simp only [step, hpending, hcode s hframes]
  · rw [hpending] at hp
    have hq : '#' ≠ quote := by
      rintro rfl
      cases hp
    simp only [step, hpending, if_neg hq, hcode s.settled hframes]
    rfl

theorem closeBracket_pending (hs : s.closeBracket line c = .ok s') : s'.pending = .nothing := by
  unfold closeBracket at hs
  split at hs
  · split at hs <;> cases hs
    rfl
  · cases hs
    rfl
  · split at hs <;> cases hs
    rfl

/-- Nothing but `#`, outside all frames, makes a trailing comment. -/
theorem read_inTrailingComment (hs : s.read line c = .ok s') (h : s'.inTrailingComment = true) :
    c = '#' ∧ s.frames = [] ∧ s' = s.commented := by
  obtain ⟨hpending, hframes⟩ := inTrailingComment_iff.1 h
  unfold read at hs
  split at hs
  · -- a literal
    cases hs
    unfold readLiteral at hpending
    split at hpending
    · cases hpending
    split at hpending
    · split at hpending <;> cases hpending
    split at hpending <;> cases hpending
  · -- a specification
    cases hs
    unfold readSpec at hpending
    split at hpending
    · cases hpending
    split at hpending <;> cases hpending
  · -- code
    unfold readCode at hs
    split at hs
    · rename_i hc
      cases hs
      exact ⟨hc, hframes, rfl⟩
    split at hs
    · cases hs
      cases hpending
    split at hs
    · cases hs
      cases hpending
    split at hs
    · cases hs
      unfold openBracket at hpending
      split at hpending <;> cases hpending
    split at hs
    · rw [closeBracket_pending hs] at hpending
      cases hpending
    split at hs
    · split at hs <;> cases hs <;> cases hpending
    split at hs <;> cases hs <;> cases hpending

theorem step_inTrailingComment (hw : WellFormed s) (hout : s.inTrailingComment = false)
    (hs : s.step line c = .ok s') (h : s'.inTrailingComment = true) :
    c = '#' ∧ s.isIdle = true ∧ s' = s.commented := by
  rcases step_cases hs with hjoins | ⟨hpending, hread⟩
  · have hcomment : s'.pending = .comment := (inTrailingComment_iff.1 h).1
    cases hjoins with
    | comment =>
      rw [h] at hout
      cases hout
    | escape | opened | doubled | brace => cases hcomment
  · obtain ⟨hc, hframes, rfl⟩ := read_inTrailingComment hread h
    have hidle := isIdle_of_resolved hw hpending hframes
    refine ⟨hc, hidle, ?_⟩
    simp only [commented, hframes, (isIdle_iff.1 hidle).1, resolved_depth]

/-! ## Reading code -/

/-- The scanner gets from one state to the other over a text, and meets no trailing comment on the way. -/
inductive Reads (line : Nat) : Scanner → Text → Scanner → Prop
  | nil {s : Scanner} : Reads line s [] s
  | cons {s s₁ s₂ : Scanner} {c : Char} {t : Text} : s.step line c = .ok s₁ → s₁.inTrailingComment = false →
      Reads line s₁ t s₂ → Reads line s (c :: t) s₂

namespace Reads

variable {s₁ s₂ : Scanner} {t u : Text}

theorem append (h : Reads line s t s₁) (h' : Reads line s₁ u s₂) : Reads line s (t ++ u) s₂ := by
  induction h with
  | nil => exact h'
  | cons hs hout _ ih => exact .cons hs hout (ih h')

theorem of_append (h : Reads line s (t ++ u) s₂) : ∃ s₁, Reads line s t s₁ ∧ Reads line s₁ u s₂ := by
  induction t generalizing s with
  | nil => exact ⟨s, .nil, h⟩
  | cons c t ih =>
    cases h with
    | cons hs hout h =>
      obtain ⟨s₁, h₁, h₂⟩ := ih h
      exact ⟨s₁, .cons hs hout h₁, h₂⟩

theorem wellFormed (h : Reads line s t s₁) (hw : WellFormed s) : WellFormed s₁ := by
  induction h with
  | nil => exact hw
  | cons hs _ _ ih => exact ih (hw.step hs)

theorem not_inTrailingComment (h : Reads line s t s₁) (hout : s.inTrailingComment = false) :
    s₁.inTrailingComment = false := by
  induction h with
  | nil => exact hout
  | cons _ hout₁ _ ih => exact ih hout₁

theorem isIdle_of_blanks (h : Reads line s t s₁) (hw : WellFormed s) (ht : ∀ c ∈ t, Text.isBlank c = true)
    (hidle : s₁.isIdle = true) : s.isIdle = true ∧ s.depth = s₁.depth := by
  induction h with
  | nil => exact ⟨hidle, rfl⟩
  | cons hs _ _ ih =>
    obtain ⟨h₁, hdepth₁⟩ := ih (hw.step hs) (fun c hc => ht c (List.mem_cons_of_mem _ hc)) hidle
    obtain ⟨h₀, hdepth₀⟩ := isIdle_of_step_isBlank hw (ht _ List.mem_cons_self) hs h₁
    exact ⟨h₀, hdepth₀.trans hdepth₁⟩

/-- Blanks before an idle state can be left out. -/
theorem exists_before_blanks (h : Reads line s (t ++ u) s₂) (hw : WellFormed s)
    (hu : ∀ c ∈ u, Text.isBlank c = true) (hidle : s₂.isIdle = true) :
    ∃ s₁, Reads line s t s₁ ∧ s₁.isIdle = true ∧ s₁.depth = s₂.depth := by
  obtain ⟨s₁, h₁, h₂⟩ := h.of_append
  obtain ⟨hidle₁, hdepth⟩ := h₂.isIdle_of_blanks (h₁.wellFormed hw) hu hidle
  exact ⟨s₁, h₁, hidle₁, hdepth⟩

/-- Separators can be put in at an idle state. -/
theorem separators (line : Nat) (hw : WellFormed s) (hidle : s.isIdle = true) (hu : ∀ c ∈ u, isSeparator c = true) :
    ∃ s₁, Reads line s u s₁ ∧ s₁.isIdle = true ∧ s₁.depth = s.depth := by
  induction u generalizing s with
  | nil => exact ⟨s, .nil, hidle, rfl⟩
  | cons c u ih =>
    have hframes := (isIdle_iff.1 hidle).1
    have hstep := step_of_isSeparator line hw hidle (hu c List.mem_cons_self)
    have hidle' : s.settled.isIdle = true := isIdle_iff.2 ⟨hframes, .inl rfl⟩
    obtain ⟨s₁, h₁, hidle₁, hdepth⟩ := ih hw.settled hidle' fun x hx => hu x (List.mem_cons_of_mem _ hx)
    exact ⟨s₁, .cons hstep rfl h₁, hidle₁, hdepth⟩

end Reads

/-! ## A scanned line -/

/-- How a scanned line ends: in the state after its code, or in the comment that starts there. -/
def EndsIn (s₀ s' : Scanner) (comment : Text) : Prop :=
  (comment = [] ∧ s' = s₀) ∨ ((∃ rest, comment = '#' :: rest) ∧ s₀.isIdle = true ∧ s' = s₀.commented)

/-- The line `code ++ comment` takes the scanner from `s` to `s'`, and its comment is cut off as it should. -/
def Scans (line : Nat) (s : Scanner) (code comment : Text) (s' : Scanner) : Prop :=
  ∃ s₀, Reads line s code s₀ ∧ EndsIn s₀ s' comment

theorem Reads.scanLine {s₀ : Scanner} {code comment : Text} (h : Reads line s code s₀) (hw : WellFormed s)
    (hend : EndsIn s₀ s' comment) : s.scanLine line (code ++ comment) = .ok (s', code, comment) := by
  induction h with
  | nil =>
    rcases hend with ⟨rfl, rfl⟩ | ⟨⟨rest, rfl⟩, hidle, rfl⟩
    · rfl
    · have hin := inTrailingComment_commented (isIdle_iff.1 hidle).1
      simp [Scanner.scanLine, step_hash hw hidle, hin, bind, Except.bind]
  | cons hs hout _ ih =>
    rw [List.cons_append, Scanner.scanLine]
    simp [hs, hout, ih (hw.step hs) hend, bind, Except.bind]

theorem scans_of_scanLine {t code comment : Text} (hw : WellFormed s) (hout : s.inTrailingComment = false)
    (h : s.scanLine line t = .ok (s', code, comment)) :
    t = code ++ comment ∧ Scans line s code comment s' := by
  induction t generalizing s code with
  | nil =>
    cases h
    exact ⟨rfl, _, .nil, .inl ⟨rfl, rfl⟩⟩
  | cons c t ih =>
    rw [Scanner.scanLine] at h
    cases hs : s.step line c with
    | error e => simp [hs, bind, Except.bind] at h
    | ok s₁ =>
      simp only [hs, bind, Except.bind] at h
      split at h
      · rename_i hin
        obtain ⟨rfl, hidle, rfl⟩ := step_inTrailingComment hw hout hs hin
        cases h
        exact ⟨rfl, s, .nil, .inr ⟨⟨t, rfl⟩, hidle, rfl⟩⟩
      · rename_i hin
        have hout₁ : s₁.inTrailingComment = false := by simpa using hin
        cases hrest : s₁.scanLine line t with
        | error e => simp [hrest] at h
        | ok result =>
          obtain ⟨s₂, code₁, comment₁⟩ := result
          simp only [hrest] at h
          cases h
          obtain ⟨rfl, s₀, hreads, hend⟩ := ih (hw.step hs) hout₁ hrest
          exact ⟨rfl, s₀, .cons hs hout₁ hreads, hend⟩

/-- A line is scanned as its code and, if the scanner is idle after it, a comment. -/
theorem scanLine_eq_ok_iff {t code comment : Text} (hw : WellFormed s) (hout : s.inTrailingComment = false) :
    s.scanLine line t = .ok (s', code, comment) ↔ t = code ++ comment ∧ Scans line s code comment s' := by
  constructor
  · exact scans_of_scanLine hw hout
  · rintro ⟨rfl, s₀, hreads, hend⟩
    exact hreads.scanLine hw hend

theorem Scans.wellFormed {code comment : Text} (h : Scans line s code comment s') (hw : WellFormed s) :
    WellFormed s' := by
  obtain ⟨s₀, hreads, ⟨-, rfl⟩ | ⟨-, hidle, rfl⟩⟩ := h
  · exact hreads.wellFormed hw
  · refine (hreads.wellFormed hw).withPending ?_
    rw [(isIdle_iff.1 hidle).1]
    rfl

/-! ## Line ends -/

theorem breakLine_of_atRest (h : s.atRest = true) : s.breakLine line = .ok (s.settled, s.leftOpen false) := by
  obtain ⟨frames, depth, pending⟩ := s
  obtain ⟨rfl, rfl | ⟨letters, rfl⟩ | ⟨q, f, rfl⟩ | rfl⟩ := atRest_iff.1 h <;> rfl

theorem leftOpen_eq_none_iff {continued : Bool} :
    s.leftOpen continued = none ↔ s.depth = 0 ∧ s.frames = [] ∧ continued = false := by
  unfold leftOpen
  split
  · rename_i hopen
    simp only [reduceCtorEq, false_iff]
    rintro ⟨hdepth, -, rfl⟩
    simp [hdepth] at hopen
  split
  · rename_i hclosed hframes
    simp only [Bool.or_eq_true, decide_eq_true_eq, not_or, Bool.not_eq_true] at hclosed
    simpa [List.isEmpty_iff.1 hframes, hclosed.2] using hclosed.1
  · rename_i hframes
    simpa using fun _ hnil => absurd (List.isEmpty_iff.2 hnil) hframes

/-- Outside all frames a scanner is at rest, unless a quote or a backslash is pending. -/
theorem WellFormed.atRest (hw : WellFormed s) (hframes : s.frames = [])
    (hopened : ∀ quote formatted, s.pending ≠ .opened quote formatted) (hbackslash : s.pending ≠ .backslash) :
    s.atRest = true := by
  have hp := hw.pending
  rw [hframes] at hp
  rw [atRest_iff]
  refine ⟨hframes, ?_⟩
  cases hpending : s.pending with
  | nothing => exact .inl rfl
  | name letters => exact .inr (.inl ⟨letters, rfl⟩)
  | doubled quote formatted => exact .inr (.inr (.inl ⟨quote, formatted, rfl⟩))
  | comment => exact .inr (.inr (.inr rfl))
  | opened quote formatted => exact absurd hpending (hopened quote formatted)
  | backslash => exact absurd hpending hbackslash
  | closing | escape | brace =>
    rw [hpending] at hp
    cases hp

/-- A line that ends its statement ends at rest. -/
theorem atRest_of_breakLine (hw : WellFormed s) (hs : s.breakLine line = .ok (s', none)) : s.atRest = true := by
  rcases breakLine_cases hs with ⟨-, rfl, hleft⟩ | ⟨hopened, rfl, hleft⟩
  · cases (leftOpen_eq_none_iff.1 hleft.symm).2.1
  · obtain ⟨-, hframes, hcontinued⟩ := leftOpen_eq_none_iff.1 hleft.symm
    have hframes : s.frames = [] := hframes
    refine hw.atRest hframes hopened ?_
    intro hbackslash
    rw [hbackslash, hframes] at hcontinued
    cases hcontinued

/-- A source ends at rest with no bracket open. -/
theorem checkEnd_eq_ok_iff (hw : WellFormed s) :
    s.checkEnd line = .ok () ↔ s.atRest = true ∧ s.depth = 0 := by
  constructor
  · intro h
    unfold checkEnd at h
    split at h
    · cases h
    · cases h
    rename_i hbackslash hopened
    split at h
    · cases h
    rename_i hnone
    have hframes := hw.nested.innermostLiteral?_eq_none hnone
    split at h
    · cases h
    · rename_i hdepth
      exact ⟨hw.atRest hframes hopened hbackslash, by omega⟩
  · rintro ⟨h, hdepth⟩
    obtain ⟨frames, depth, pending⟩ := s
    cases hdepth
    obtain ⟨rfl, rfl | ⟨letters, rfl⟩ | ⟨q, f, rfl⟩ | rfl⟩ := atRest_iff.1 h <;> rfl

end TypeIgnore.Scanner
