import TypeIgnore.Source.Scanner

/-!
# What the frames of a scanner may stand on

* `Frame.standsOn f below` — a literal stands in code, a field in a formatted literal or a specification, a
  specification in a field with no bracket open;
* `Nested` — every frame stands on those below it;
* `Pending.standsIn` — what is pending agrees with the innermost frame;
* `Scanner.WellFormed` — both, an invariant of `step` (`WellFormed.step`) and of `breakLine`
  (`WellFormed.breakLine`), by what these two do (`step_cases`, `breakLine_cases`);
* `Nested.innermostLiteral?_eq_none` — the outermost frame is a literal, so no literal is open only where no
  frame is.
-/

namespace TypeIgnore

/-- The frames are those of code: none, or a field. -/
def inCode : List Frame → Bool
  | [] => true
  | .field _ :: _ => true
  | _ => false

/-- A frame may be the next one inside the frames `below`. -/
def Frame.standsOn : Frame → (below : List Frame) → Bool
  | .literal l, below => Scanner.isQuote l.quote && inCode below
  | .field _, .literal l :: _ => l.formatted
  | .field _, .spec :: _ => true
  | .spec, .field 0 :: _ => true
  | _, _ => false

/-- The brackets open in a field do not matter to what it stands on. -/
theorem Frame.standsOn_field (depth depth' : Nat) (below : List Frame) :
    (Frame.field depth).standsOn below = (Frame.field depth').standsOn below := by
  rcases below with _ | ⟨_ | _ | _, below⟩ <;> rfl

def Nested : List Frame → Prop
  | [] => True
  | f :: below => f.standsOn below = true ∧ Nested below

/-- The innermost frame is a literal that satisfies `p`. -/
def inLiteral (p : Literal → Bool) : List Frame → Bool
  | .literal l :: _ => p l
  | _ => false

/-- What is pending can be so inside the frames. -/
def Pending.standsIn : Pending → List Frame → Bool
  | .nothing, _ => true
  | .name _, frames => inCode frames
  | .opened quote _, frames => Scanner.isQuote quote && inCode frames
  | .doubled quote _, frames => Scanner.isQuote quote && inCode frames
  | .closing _, frames => inLiteral (·.triple) frames
  | .escape, frames => inLiteral (fun _ => true) frames
  | .brace, frames => inLiteral (·.formatted) frames
  | .backslash, frames => inCode frames
  | .comment, frames => inCode frames

/-- A field may be opened where a brace is pending. -/
theorem Pending.standsOn_of_brace {frames : List Frame} (h : Pending.brace.standsIn frames = true) :
    (Frame.field 0).standsOn frames = true := by
  rcases frames with _ | ⟨f, below⟩
  · cases h
  · cases f with
    | literal l => exact h
    | field depth => cases h
    | spec => cases h

/-- The outermost frame is a literal. -/
theorem Nested.innermostLiteral?_isSome {f : Frame} {below : List Frame} (h : Nested (f :: below)) :
    (Scanner.innermostLiteral? (f :: below)).isSome := by
  induction below generalizing f with
  | nil => cases f <;> simp_all [Nested, Frame.standsOn, Scanner.innermostLiteral?]
  | cons g below ih =>
    cases f with
    | literal l => rfl
    | field depth => exact ih h.2
    | spec => exact ih h.2

theorem Nested.innermostLiteral?_eq_none {frames : List Frame} (h : Nested frames)
    (hnone : Scanner.innermostLiteral? frames = none) : frames = [] := by
  cases frames with
  | nil => rfl
  | cons f below =>
    have hsome := h.innermostLiteral?_isSome
    rw [hnone] at hsome
    cases hsome

namespace Scanner

/-- The states of a scanner that a source can lead to. -/
structure WellFormed (s : Scanner) : Prop where
  nested : Nested s.frames
  pending : s.pending.standsIn s.frames = true

theorem WellFormed.of_nested {s : Scanner} (h : Nested s.frames) (hp : s.pending = .nothing) : WellFormed s :=
  ⟨h, by rw [hp]; rfl⟩

theorem wellFormed_start : WellFormed start := .of_nested trivial rfl

/-! ## What a step does -/

/-- The state once it is clear that what is pending has no second half: a quote opens a literal, a brace a field. -/
def resolved (line : Nat) (s : Scanner) : Scanner :=
  match s.pending with
  | .opened quote formatted => s.push (.literal ⟨quote, false, formatted, line⟩)
  | .brace => s.push (.field 0)
  | .doubled _ _ | .escape => s.settled
  | .nothing | .name _ | .closing _ | .backslash | .comment => s

@[simp] theorem resolved_depth (line : Nat) (s : Scanner) : (s.resolved line).depth = s.depth := by
  unfold resolved
  split <;> rfl

/-- A character that goes with what is pending and is not read on its own. -/
inductive Joins (line : Nat) (s : Scanner) (c : Char) : Scanner → Prop
  | comment : s.pending = .comment → Joins line s c s
  | escape : s.pending = .escape → Joins line s c s.settled
  | opened {formatted : Bool} : s.pending = .opened c formatted →
      Joins line s c { s with pending := .doubled c formatted }
  | doubled {formatted : Bool} : s.pending = .doubled c formatted →
      Joins line s c (s.push (.literal ⟨c, true, formatted, line⟩))
  | brace : s.pending = .brace → c = '{' → Joins line s c s.settled

/-- **What a step does:** the character goes with what is pending, or it is read once that is resolved. -/
theorem step_cases {s s' : Scanner} {line : Nat} {c : Char} (hs : s.step line c = .ok s') :
    Joins line s c s' ∨
      (s.pending ≠ .comment ∧ s.pending ≠ .backslash) ∧ (s.resolved line).read line c = .ok s' := by
  unfold step at hs
  unfold resolved
  cases hpending : s.pending with
  | comment =>
    rw [hpending] at hs
    cases hs
    exact .inl (.comment hpending)
  | backslash =>
    rw [hpending] at hs
    cases hs
  | escape =>
    rw [hpending] at hs
    dsimp only at hs
    split at hs
    · exact .inr ⟨by simp, hs⟩
    · cases hs
      exact .inl (.escape hpending)
  | opened quote formatted =>
    rw [hpending] at hs
    dsimp only at hs
    split at hs
    · rename_i hc
      subst hc
      cases hs
      exact .inl (.opened hpending)
    · exact .inr ⟨by simp, hs⟩
  | doubled quote formatted =>
    rw [hpending] at hs
    dsimp only at hs
    split at hs
    · rename_i hc
      subst hc
      cases hs
      exact .inl (.doubled hpending)
    · exact .inr ⟨by simp, hs⟩
  | brace =>
    rw [hpending] at hs
    dsimp only at hs
    split at hs
    · rename_i hc
      cases hs
      exact .inl (.brace hpending hc)
    · exact .inr ⟨by simp, hs⟩
  | nothing | name letters | closing quotes =>
    rw [hpending] at hs
    exact .inr ⟨by simp, hs⟩

/-- What a line break does: it opens the field of a pending brace, or it settles what is pending. -/
theorem breakLine_cases {s s' : Scanner} {line : Nat} {left : Option RegionKind}
    (hs : s.breakLine line = .ok (s', left)) :
    (s.pending = .brace ∧ s' = s.push (.field 0) ∧ left = s'.leftOpen false) ∨
      ((∀ quote formatted, s.pending ≠ .opened quote formatted) ∧ s' = s.settled ∧
        left = s'.leftOpen (s.pending == .backslash && s.frames.isEmpty)) := by
  unfold breakLine at hs
  cases hpending : s.pending with
  | brace =>
    rw [hpending] at hs
    cases hs
    exact .inl ⟨rfl, rfl, rfl⟩
  | opened quote formatted =>
    rw [hpending] at hs
    cases hs
  | escape | backslash =>
    rw [hpending] at hs
    cases hs
    exact .inr ⟨by simp, rfl, rfl⟩
  | nothing | name letters | doubled quote formatted | closing quotes | comment =>
    rw [hpending] at hs
    dsimp only at hs
    split at hs
    · split at hs <;> cases hs
      exact .inr ⟨by simp, rfl, rfl⟩
    · cases hs
      exact .inr ⟨by simp, rfl, rfl⟩

namespace WellFormed

variable {s s' : Scanner} {line : Nat} {c : Char}

theorem settled (h : WellFormed s) : WellFormed s.settled := .of_nested h.nested rfl

theorem push (h : WellFormed s) {f : Frame} (hf : f.standsOn s.frames = true) : WellFormed (s.push f) :=
  .of_nested ⟨hf, h.nested⟩ rfl

theorem withPending (h : WellFormed s) {p : Pending} (hp : p.standsIn s.frames = true) :
    WellFormed { s with pending := p } :=
  ⟨h.nested, hp⟩

/-! ## One character -/

theorem openBracket (h : WellFormed s) : WellFormed s.openBracket := by
  unfold Scanner.openBracket
  split
  · rename_i depth below hframes
    have hn := h.nested
    rw [hframes] at hn
    exact .of_nested ⟨Frame.standsOn_field depth _ below ▸ hn.1, hn.2⟩ rfl
  · exact .of_nested h.nested rfl

theorem closeBracket (h : WellFormed s) (hs : s.closeBracket line c = .ok s') : WellFormed s' := by
  unfold Scanner.closeBracket at hs
  have hn := h.nested
  split at hs
  · rename_i below hframes
    rw [hframes] at hn
    split at hs <;> cases hs
    exact .of_nested hn.2 rfl
  · rename_i depth below hframes
    rw [hframes] at hn
    cases hs
    exact .of_nested ⟨Frame.standsOn_field (depth + 1) _ below ▸ hn.1, hn.2⟩ rfl
  · split at hs <;> cases hs
    exact .of_nested hn rfl

theorem readCode (h : WellFormed s) (hcode : inCode s.frames = true) (hs : s.readCode line c = .ok s') :
    WellFormed s' := by
  unfold Scanner.readCode at hs
  split at hs
  · cases hs
    exact h.withPending hcode
  split at hs
  · cases hs
    exact h.withPending hcode
  split at hs
  · rename_i hquote
    cases hs
    have hopened : (Pending.opened c (isFormatted s.letters)).standsIn s.frames = true :=
      Bool.and_eq_true_iff.2 ⟨hquote, hcode⟩
    exact h.withPending hopened
  split at hs
  · cases hs
    exact h.openBracket
  split at hs
  · exact h.closeBracket hs
  split at hs
  · split at hs <;> cases hs
    · rename_i below hframes
      exact h.push (by rw [hframes]; rfl)
    · exact h.settled
  split at hs <;> cases hs
  · exact h.withPending hcode
  · exact h.settled

theorem readLiteral (h : WellFormed s) {l : Literal} {below : List Frame} (hframes : s.frames = .literal l :: below) :
    WellFormed (s.readLiteral l below c) := by
  unfold Scanner.readLiteral
  split
  · exact h.withPending (by rw [hframes]; rfl)
  split
  · split
    · have hn := h.nested
      rw [hframes] at hn
      exact .of_nested hn.2 rfl
    · rename_i hmore
      have htriple : l.triple = true := by
        cases hl : l.triple with
        | true => rfl
        | false => exact absurd (by simp [hl]) hmore
      exact h.withPending (by rw [hframes]; exact htriple)
  split
  · rename_i hbrace
    exact h.withPending (by rw [hframes]; exact (Bool.and_eq_true_iff.1 hbrace).1)
  · exact h.settled

/-- The brace that ends a specification ends the field it stands in, and nothing else. -/
theorem readSpec (h : WellFormed s) {below : List Frame} (hframes : s.frames = .spec :: below) :
    WellFormed (s.readSpec below c) := by
  have hn := h.nested
  unfold Scanner.readSpec
  split
  · exact h.push (by rw [hframes]; rfl)
  split
  · rw [hframes] at hn
    cases below with
    | nil => exact .of_nested hn.2 rfl
    | cons f below => exact .of_nested hn.2.2 rfl
  · exact h.settled

theorem read (h : WellFormed s) (hs : s.read line c = .ok s') : WellFormed s' := by
  unfold Scanner.read at hs
  split at hs
  · rename_i l below hframes
    cases hs
    exact h.readLiteral hframes
  · rename_i below hframes
    cases hs
    exact h.readSpec hframes
  · rename_i hliteral hspec
    refine h.readCode ?_ hs
    cases hframes : s.frames with
    | nil => rfl
    | cons f below => cases f <;> simp_all [inCode]

theorem resolved (h : WellFormed s) (line : Nat) : WellFormed (s.resolved line) := by
  have hp := h.pending
  unfold Scanner.resolved
  cases hpending : s.pending with
  | opened quote formatted =>
    rw [hpending] at hp
    exact h.push hp
  | brace =>
    rw [hpending] at hp
    exact h.push (Pending.standsOn_of_brace hp)
  | doubled | escape => exact h.settled
  | nothing | name | closing | backslash | comment => exact h

/-- The invariant is kept by every character that the scanner accepts. -/
theorem step (h : WellFormed s) (hs : s.step line c = .ok s') : WellFormed s' := by
  have hp := h.pending
  rcases step_cases hs with hjoins | ⟨-, hread⟩
  · cases hjoins with
    | comment => exact h
    | escape => exact h.settled
    | opened hpending =>
      rw [hpending] at hp
      exact h.withPending hp
    | doubled hpending =>
      rw [hpending] at hp
      exact h.push hp
    | brace => exact h.settled
  · exact (h.resolved line).read hread

/-! ## A line break -/

/-- After a line break nothing is pending. -/
theorem breakLine {left : Option RegionKind} (h : WellFormed s) (hs : s.breakLine line = .ok (s', left)) :
    WellFormed s' ∧ s'.pending = .nothing := by
  have hp := h.pending
  rcases breakLine_cases hs with ⟨hpending, rfl, -⟩ | ⟨-, rfl, -⟩
  · rw [hpending] at hp
    exact ⟨h.push (Pending.standsOn_of_brace hp), rfl⟩
  · exact ⟨h.settled, rfl⟩

end WellFormed

end Scanner

end TypeIgnore
