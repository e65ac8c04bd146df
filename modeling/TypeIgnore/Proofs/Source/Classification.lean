import TypeIgnore.Source.Map
import TypeIgnore.Proofs.Source.Lines
import TypeIgnore.Proofs.Source.Reading

/-!
# Classification, line by line

* `Scanner.Ready` — the states at the start of a line;
* `Classified n s current ls rest m` — the lines `ls` and the text `rest` after them, read from line `n` on, have
  the map `m`. It says all that `classifyFrom` can do on success, with each line in terms of `Scans`
  (`classifyFrom_eq_ok_iff`);
* `Classified.render`, `Classified.number`, `Classified.comment` — the lines of a map are those of the text, are
  counted from `n` on, and have comments or none.
-/

namespace TypeIgnore

open Scanner

/-! ## States at the start of a line -/

namespace Scanner

structure Ready (s : Scanner) : Prop where
  wellFormed : WellFormed s
  pending : s.pending = .nothing

theorem ready_start : Ready start := ⟨wellFormed_start, rfl⟩

theorem Ready.not_inTrailingComment {s : Scanner} (h : Ready s) : s.inTrailingComment = false := by
  simp [inTrailingComment, h.pending]

/-- The next line starts in such a state again. -/
theorem Ready.breakLine {s s₁ s₂ : Scanner} {n : Nat} {code comment : Text} {left : Option RegionKind}
    (h : Ready s) (hscan : Scans n s code comment s₁) (hbreak : s₁.breakLine n = .ok (s₂, left)) : Ready s₂ := by
  obtain ⟨hw, hp⟩ := (hscan.wellFormed h.wellFormed).breakLine hbreak
  exact ⟨hw, hp⟩

end Scanner

/-! ## The lines of a map -/

inductive Classified : Nat → Scanner → Option OpenStatement → List EndedLine → Text → SourceMap → Prop
  /-- The source ends with a line break. -/
  | done {n : Nat} {s : Scanner} (hready : Ready s) (hrest : s.atRest = true) (hdepth : s.depth = 0) :
      Classified n s none [] [] ⟨[], []⟩
  /-- The last line, which no break ends. -/
  | last {n : Nat} {s s' : Scanner} {current : Option OpenStatement} {code comment : Text} (hready : Ready s)
      (hne : code ++ comment ≠ []) (hscan : Scans n s code comment s') (hrest : s'.atRest = true)
      (hdepth : s'.depth = 0) :
      Classified n s current [] (code ++ comment)
        ⟨[mkLine n code comment none none], OpenStatement.close n none current⟩
  | line {n : Nat} {s s₁ s₂ : Scanner} {current : Option OpenStatement} {code comment rest : Text}
      {ending : LineBreak} {left : Option RegionKind} {ls : List EndedLine} {tail : SourceMap} (hready : Ready s)
      (hscan : Scans n s code comment s₁) (hbreak : s₁.breakLine n = .ok (s₂, left))
      (htail : Classified (n + 1) s₂ (OpenStatement.advance n left current) ls rest tail) :
      Classified n s current (⟨code ++ comment, ending⟩ :: ls) rest
        ⟨mkLine n code comment (some ending) left :: tail.lines, OpenStatement.close n left current ++ tail.regions⟩

theorem exists_of_bind_eq_ok {ε α β : Type} {x : Except ε α} {f : α → Except ε β} {b : β}
    (h : x >>= f = .ok b) : ∃ a, x = .ok a ∧ f a = .ok b := by
  cases x with
  | error e => cases h
  | ok a => exact ⟨a, rfl, h⟩

theorem classified_of_classifyFrom {n : Nat} {s : Scanner} {current : Option OpenStatement} {rest : Text}
    {ls : List EndedLine} {m : SourceMap} (hready : Ready s) (h : classifyFrom n s current rest ls = .ok m) :
    Classified n s current ls rest m := by
  induction ls generalizing n s current m with
  | nil =>
    obtain ⟨⟨s', code, comment⟩, hscan, hline⟩ := exists_of_bind_eq_ok h
    obtain ⟨⟨⟩, hend, hlast⟩ := exists_of_bind_eq_ok hline
    obtain ⟨rfl, hscans⟩ := (scanLine_eq_ok_iff hready.wellFormed hready.not_inTrailingComment).1 hscan
    obtain ⟨hrest, hdepth⟩ := (checkEnd_eq_ok_iff (hscans.wellFormed hready.wellFormed)).1 hend
    split at hlast
    · rename_i hempty
      obtain ⟨rfl, rfl⟩ := List.append_eq_nil_iff.1 (List.isEmpty_iff.1 hempty)
      split at hlast
      · cases hlast
      · cases hlast
        cases hscan
        exact .done hready hrest hdepth
    · rename_i hempty
      cases hlast
      exact .last hready (by simpa using hempty) hscans hrest hdepth
  | cons l ls ih =>
    obtain ⟨content, ending⟩ := l
    obtain ⟨⟨s₁, code, comment⟩, hscan, hline⟩ := exists_of_bind_eq_ok h
    obtain ⟨⟨s₂, left⟩, hbreak, hrest⟩ := exists_of_bind_eq_ok hline
    obtain ⟨tail, htail, hmap⟩ := exists_of_bind_eq_ok hrest
    cases hmap
    obtain ⟨rfl, hscans⟩ := (scanLine_eq_ok_iff hready.wellFormed hready.not_inTrailingComment).1 hscan
    exact .line hready hscans hbreak (ih (hready.breakLine hscans hbreak) htail)

theorem Classified.classifyFrom {n : Nat} {s : Scanner} {current : Option OpenStatement} {rest : Text}
    {ls : List EndedLine} {m : SourceMap} (h : Classified n s current ls rest m) :
    TypeIgnore.classifyFrom n s current rest ls = .ok m := by
  induction h with
  | @done n s hready hrest hdepth =>
    have hend : s.checkEnd n = .ok () := (checkEnd_eq_ok_iff hready.wellFormed).2 ⟨hrest, hdepth⟩
    simp [TypeIgnore.classifyFrom, scanLine, hend, bind, Except.bind]
  | @last n s s' current code comment hready hne hscan hrest hdepth =>
    have hline := (scanLine_eq_ok_iff hready.wellFormed hready.not_inTrailingComment).2 ⟨rfl, hscan⟩
    have hend : s'.checkEnd n = .ok () :=
      (checkEnd_eq_ok_iff (hscan.wellFormed hready.wellFormed)).2 ⟨hrest, hdepth⟩
    unfold TypeIgnore.classifyFrom
    simp only [hline, hend, bind, Except.bind]
    rw [if_neg (by simpa using hne)]
  | line hready hscan hbreak _ ih =>
    have hline := (scanLine_eq_ok_iff hready.wellFormed hready.not_inTrailingComment).2 ⟨rfl, hscan⟩
    rw [TypeIgnore.classifyFrom, hline]
    simp [hbreak, ih, bind, Except.bind]

/-- **What classification can do.** -/
theorem classifyFrom_eq_ok_iff {n : Nat} {s : Scanner} {current : Option OpenStatement} {rest : Text}
    {ls : List EndedLine} {m : SourceMap} (hready : Ready s) :
    classifyFrom n s current rest ls = .ok m ↔ Classified n s current ls rest m :=
  ⟨classified_of_classifyFrom hready, Classified.classifyFrom⟩

theorem classify_eq_ok_iff {source : Text} {m : SourceMap} :
    classify source = .ok m ↔ Classified 1 start none (splitLines source).1 (splitLines source).2 m :=
  classifyFrom_eq_ok_iff ready_start

/-! ## One line -/

section MkLine

variable (n : Nat) (code comment : Text) (ending : Option LineBreak) (left : Option RegionKind)

@[simp] theorem mkLine_number : (mkLine n code comment ending left).number = n := rfl

theorem mkLine_ending : (mkLine n code comment ending left).ending = ending := rfl

@[simp] theorem mkLine_endsStatement : (mkLine n code comment ending left).endsStatement = left.isNone := rfl

theorem mkLine_of_ne_nil (h : comment ≠ []) :
    mkLine n code comment ending left =
      ⟨n, (Text.spanEnd isSeparator code).1, (Text.spanEnd isSeparator code).2 ++ comment, ending, left.isNone⟩ := by
  cases comment with
  | nil => exact absurd rfl h
  | cons c comment => rfl

@[simp] theorem mkLine_content : (mkLine n code comment ending left).content = code ++ comment := by
  by_cases h : comment = []
  · subst h
    rfl
  · rw [mkLine_of_ne_nil n code comment ending left h, SourceLine.content, ← List.append_assoc, Text.spanEnd_append]

theorem mkLine_text :
    (mkLine n code comment ending left).text = code ++ comment ++ (ending.map LineBreak.text).getD [] := by
  rw [SourceLine.text, SourceLine.endingText, mkLine_content, mkLine_ending]

/-- The comment of a line is none, or a trailing comment. -/
theorem Scanner.Scans.mkLine_comment {n : Nat} {s s' : Scanner} {code comment : Text} (h : Scans n s code comment s')
    (hfree : BreakFree comment) :
    (mkLine n code comment ending left).comment = [] ∨ IsComment (mkLine n code comment ending left).comment := by
  obtain ⟨s₀, -, ⟨rfl, -⟩ | ⟨⟨rest, rfl⟩, -⟩⟩ := h
  · exact .inl rfl
  · rw [mkLine_of_ne_nil n code _ ending left (List.cons_ne_nil _ _)]
    exact .inr (isComment_iff.2 ⟨_, rest, rfl, Text.mem_spanEnd_snd isSeparator, (breakFree_cons.1 hfree).2⟩)

end MkLine

/-! ## All lines -/

section Lines

variable {n : Nat} {s : Scanner} {current : Option OpenStatement} {rest : Text} {ls : List EndedLine} {m : SourceMap}

/-- Nothing of the text is lost. -/
theorem Classified.render (h : Classified n s current ls rest m) :
    TypeIgnore.render m.lines = joinLines (ls, rest) := by
  induction h with
  | done => rfl
  | last => simp [TypeIgnore.render, mkLine_text, joinLines]
  | line _ _ _ _ ih =>
    have hcons : ∀ (l : SourceLine) (ls : List SourceLine),
        TypeIgnore.render (l :: ls) = l.text ++ TypeIgnore.render ls := fun l ls => by simp [TypeIgnore.render]
    rw [hcons, ih, mkLine_text]
    simp [joinLines]

theorem Classified.number (h : Classified n s current ls rest m) :
    m.lines.map SourceLine.number = List.range' n m.lines.length := by
  induction h with
  | done => rfl
  | last => rfl
  | line _ _ _ _ ih => simp [ih, List.range'_succ]

theorem Classified.comment (h : Classified n s current ls rest m) (hls : ∀ l ∈ ls, BreakFree l.content)
    (hrest : BreakFree rest) : ∀ l ∈ m.lines, l.comment = [] ∨ IsComment l.comment := by
  induction h with
  | done => simp
  | last _ _ hscan =>
    intro l hl
    rw [List.mem_singleton.1 hl]
    exact hscan.mkLine_comment none none (breakFree_append.1 hrest).2
  | line _ hscan _ _ ih =>
    intro l hl
    rcases List.mem_cons.1 hl with rfl | hl
    · exact hscan.mkLine_comment _ _ (breakFree_append.1 (hls _ List.mem_cons_self)).2
    · exact ih (fun l' hl' => hls l' (List.mem_cons_of_mem _ hl')) hrest l hl

theorem Classified.breakFree_content (h : Classified n s current ls rest m) (hls : ∀ l ∈ ls, BreakFree l.content)
    (hrest : BreakFree rest) : ∀ l ∈ m.lines, BreakFree l.content := by
  induction h with
  | done => simp
  | last =>
    intro l hl
    rw [List.mem_singleton.1 hl]
    simpa using hrest
  | line _ _ _ _ ih =>
    intro l hl
    rcases List.mem_cons.1 hl with rfl | hl
    · simpa using hls _ List.mem_cons_self
    · exact ih (fun l' hl' => hls l' (List.mem_cons_of_mem _ hl')) hrest l hl

theorem Classified.length_lines (h : Classified n s current ls rest m) : m.lines.length = countSplit (ls, rest) := by
  induction h with
  | done => rfl
  | last _ hne =>
    obtain ⟨c, u, hcons⟩ := List.exists_cons_of_ne_nil hne
    rw [hcons]
    rfl
  | line _ _ _ _ ih =>
    rw [List.length_cons, ih]
    exact (countSplit_cons ..).symm

end Lines

section Source

variable {source : Text} {m : SourceMap}

theorem render_of_classify (h : classify source = .ok m) : render m.lines = source := by
  rw [(classify_eq_ok_iff.1 h).render]
  exact joinLines_splitLines source

theorem comment_of_classify (h : classify source = .ok m) : ∀ l ∈ m.lines, l.comment = [] ∨ IsComment l.comment :=
  (classify_eq_ok_iff.1 h).comment (isSplit_splitLines source).content (isSplit_splitLines source).rest

theorem breakFree_content_of_classify (h : classify source = .ok m) : ∀ l ∈ m.lines, BreakFree l.content :=
  (classify_eq_ok_iff.1 h).breakFree_content (isSplit_splitLines source).content (isSplit_splitLines source).rest

/-- A map has the lines of its source. -/
theorem length_lines_of_classify (h : classify source = .ok m) : m.lines.length = lineCount source :=
  (classify_eq_ok_iff.1 h).length_lines

/-- Line `k` of a map is the line with the number `k`. -/
theorem line?_eq_some_iff (h : classify source = .ok m) {k : Nat} {l : SourceLine} :
    m.line? k = some l ↔ l ∈ m.lines ∧ l.number = k := by
  have hnumber : ∀ i (hi : i < m.lines.length), m.lines[i].number = i + 1 := by
    intro i hi
    have hmap := congrArg (·[i]?) (classify_eq_ok_iff.1 h).number
    simp only [List.getElem?_map, List.getElem?_eq_getElem hi, Option.map_some] at hmap
    rw [List.getElem?_range' (by simpa using hi)] at hmap
    simp only [Option.some.injEq] at hmap
    omega
  constructor
  · intro hl
    cases k with
    | zero => cases hl
    | succ i =>
      obtain ⟨hi, rfl⟩ := List.getElem?_eq_some_iff.1 hl
      exact ⟨List.getElem_mem hi, hnumber i hi⟩
  · rintro ⟨hl, rfl⟩
    obtain ⟨i, hi, rfl⟩ := List.getElem_of_mem hl
    rw [hnumber i hi]
    exact List.getElem?_eq_getElem hi

/-- Lines with the same number are the same line. -/
theorem line_eq_of_number_eq (h : classify source = .ok m) {l l' : SourceLine} (hl : l ∈ m.lines) (hl' : l' ∈ m.lines)
    (hnumber : l.number = l'.number) : l = l' := by
  have hline : m.line? l'.number = some l := (line?_eq_some_iff h).2 ⟨hl, hnumber⟩
  have hline' : m.line? l'.number = some l' := (line?_eq_some_iff h).2 ⟨hl', rfl⟩
  exact Option.some.inj (hline.symm.trans hline')

/-- There is a line of every number from 1 on to the last. -/
theorem exists_line (h : classify source = .ok m) {k : Nat} (hpos : k ≠ 0) (hle : k ≤ m.lineCount) :
    ∃ l ∈ m.lines, l.number = k := by
  obtain ⟨i, rfl⟩ := Nat.exists_eq_succ_of_ne_zero hpos
  have hlt : i < m.lines.length := hle
  exact ⟨_, (line?_eq_some_iff h).1 (List.getElem?_eq_getElem hlt)⟩

end Source

end TypeIgnore
