import TypeIgnore.Edit.Silence
import TypeIgnore.Proofs.Source.Classification

/-!
# Other comments, the same program

* `Accepts l t` — the line `l` may get the comment `t`;
* `KeepsLine request l l'` — `l'` is `l` with the requested comment, all else being the same;
* `Scanner.Scans.withComment` — a line with another comment is scanned like the line it was: blanks before the comment
  go, separators come, and the scanner is at rest in both;
* `Scanner.Scans.edited` — so is every line of an edit;
* `Classified.edited` — and, by induction on the lines, the whole source.
-/

namespace TypeIgnore

open Scanner

/-! ## Lines of an edit -/

/-- The line with the comment that `comments` has for it. -/
def SourceLine.edited (comments : Nat → Option Text) (l : SourceLine) : SourceLine :=
  match lineChange? comments l with
  | some change => l.withComment change.after
  | none => l

theorem applyComments_lines (lines : List SourceLine) (comments : Nat → Option Text) :
    (applyComments lines comments).lines = lines.map (SourceLine.edited comments) := rfl

theorem lineChange?_eq_none_iff {comments : Nat → Option Text} {l : SourceLine} :
    lineChange? comments l = none ↔ ∀ t, comments l.number = some t → t = l.comment := by
  unfold lineChange?
  cases comments l.number with
  | none => simp
  | some t => by_cases h : t = l.comment <;> simp [h]

theorem lineChange?_eq_some_iff {comments : Nat → Option Text} {l : SourceLine} {change : LineChange} :
    lineChange? comments l = some change ↔
      ∃ t, comments l.number = some t ∧ t ≠ l.comment ∧ change = ⟨l.number, l.comment, t⟩ := by
  unfold lineChange?
  cases comments l.number with
  | none => simp
  | some t => by_cases h : t = l.comment <;> simp [h, eq_comm]

/-- A line is kept, or it gets the comment that `comments` has for it and that is not its own. -/
theorem SourceLine.edited_cases (comments : Nat → Option Text) (l : SourceLine) :
    (l.edited comments = l ∧ ∀ t, comments l.number = some t → t = l.comment) ∨
      ∃ t, comments l.number = some t ∧ t ≠ l.comment ∧ l.edited comments = l.withComment t := by
  unfold SourceLine.edited
  cases hchange : lineChange? comments l with
  | none => exact .inl ⟨rfl, lineChange?_eq_none_iff.1 hchange⟩
  | some change =>
    obtain ⟨t, ht, hne, rfl⟩ := lineChange?_eq_some_iff.1 hchange
    exact .inr ⟨t, ht, hne, rfl⟩

@[simp] theorem SourceLine.edited_ending (comments : Nat → Option Text) (l : SourceLine) :
    (l.edited comments).ending = l.ending := by
  rcases l.edited_cases comments with ⟨h, -⟩ | ⟨t, -, -, h⟩ <;> rw [h]
  rfl

/-- The line may get the comment `t`: it carries a comment or ends its statement, and `t` is a comment, or nothing
where there is code. -/
def Accepts (l : SourceLine) (t : Text) : Prop :=
  (l.endsStatement = true ∨ l.hasComment = true) ∧ (IsComment t ∨ t = [] ∧ l.code ≠ [])

/-- `l'` is `l` with the requested comment. -/
structure KeepsLine (request : Option Text) (l l' : SourceLine) : Prop where
  number : l'.number = l.number
  ending : l'.ending = l.ending
  endsStatement : l'.endsStatement = l.endsStatement
  code : Text.trimEnd l'.code = Text.trimEnd l.code
  /-- Without a request the line stays as it is. -/
  content : request = none → l'.content = l.content
  /-- Blanks in front of it apart, the comment is the requested one. -/
  comment : ∀ t, request = some t → l'.comment.dropWhile isSeparator = t.dropWhile isSeparator

/-! ## The code that is kept -/

section Kept

variable {n : Nat} {code comment : Text} {ending : Option LineBreak} {left : Option RegionKind}

theorem exists_mkLine_code_append (n : Nat) (code comment : Text) (ending : Option LineBreak)
    (left : Option RegionKind) :
    ∃ blanks, code = (mkLine n code comment ending left).code ++ blanks ∧ ∀ c ∈ blanks, Text.isBlank c = true := by
  by_cases h : comment = []
  · subst h
    exact ⟨[], (List.append_nil code).symm, by simp⟩
  · rw [mkLine_of_ne_nil n code comment ending left h]
    exact ⟨_, (Text.spanEnd_append isSeparator code).symm,
      fun c hc => isBlank_of_isSeparator (Text.mem_spanEnd_snd isSeparator c hc)⟩

/-- Only blanks are lost of the code when a line gets another comment. -/
theorem exists_withComment_code_append (l : SourceLine) (t : Text) :
    ∃ blanks, l.code = (l.withComment t).code ++ blanks ∧ ∀ c ∈ blanks, Text.isBlank c = true := by
  unfold SourceLine.withComment
  simp only
  split
  · exact Text.exists_trimEnd_append l.code
  · exact ⟨[], (List.append_nil l.code).symm, by simp⟩

theorem trimEnd_mkLine_code : Text.trimEnd (mkLine n code comment ending left).code = Text.trimEnd code := by
  obtain ⟨blanks, hcode, hblanks⟩ := exists_mkLine_code_append n code comment ending left
  calc Text.trimEnd (mkLine n code comment ending left).code
      = Text.trimEnd ((mkLine n code comment ending left).code ++ blanks) :=
        (Text.trimEnd_append_of_blank _ hblanks).symm
    _ = Text.trimEnd code := by rw [← hcode]

theorem trimEnd_withComment_code (l : SourceLine) (t : Text) :
    Text.trimEnd (l.withComment t).code = Text.trimEnd l.code := by
  obtain ⟨blanks, hcode, hblanks⟩ := exists_withComment_code_append l t
  rw [hcode, Text.trimEnd_append_of_blank _ hblanks]

theorem withComment_code_of_hasComment {l : SourceLine} (h : l.hasComment = true) (t : Text) :
    (l.withComment t).code = l.code := by
  simp [SourceLine.withComment, h]

/-- A line that gets another comment has some content. -/
theorem withComment_content_ne_nil {l : SourceLine} {t : Text} (h : Accepts l t) (hne : t ≠ l.comment) :
    (l.withComment t).content ≠ [] := by
  intro hnil
  obtain ⟨hcode, ht⟩ := List.append_eq_nil_iff.1 hnil
  have ht : t = [] := ht
  subst ht
  rcases h.2 with hcomment | ⟨-, hcode'⟩
  · cases hcomment.1
  · have hhas : l.hasComment = true := by simpa [SourceLine.hasComment] using hne.symm
    exact hcode' (withComment_code_of_hasComment hhas [] ▸ hcode)

end Kept

/-! ## One line -/

section Line

variable {n : Nat} {s s₁ : Scanner} {code comment t : Text} {ending : Option LineBreak} {left : Option RegionKind}

theorem Scanner.atRest_of_isIdle (h : s.isIdle = true) : s.atRest = true := by
  simp [atRest, h]

theorem Scanner.atRest_commented (h : s.isIdle = true) : s.commented.atRest = true := by
  simp [atRest, inTrailingComment_commented (isIdle_iff.1 h).1]

/-- A line that ends at rest is idle after its code. -/
theorem Scanner.Scans.exists_isIdle (hready : Ready s) (h : Scans n s code comment s₁)
    (hrest : comment ≠ [] ∨ s₁.atRest = true) :
    ∃ s₀, Reads n s code s₀ ∧ s₀.isIdle = true ∧ s₀.depth = s₁.depth ∧ s₁.atRest = true := by
  obtain ⟨s₀, hreads, ⟨rfl, rfl⟩ | ⟨⟨rest, rfl⟩, hidle, rfl⟩⟩ := h
  · have hrest : s₁.atRest = true := hrest.resolve_left (fun hne => hne rfl)
    have hout := hreads.not_inTrailingComment hready.not_inTrailingComment
    have hidle : s₁.isIdle = true := by simpa [atRest, hout] using hrest
    exact ⟨s₁, hreads, hidle, rfl, hrest⟩
  · exact ⟨s₀, hreads, hidle, rfl, atRest_commented hidle⟩

theorem atRest_or_of_accepts (hends : left = none → s₁.atRest = true)
    (ht : Accepts (mkLine n code comment ending left) t) : comment ≠ [] ∨ s₁.atRest = true := by
  rcases ht.1 with h | h
  · rw [mkLine_endsStatement, Option.isNone_iff_eq_none] at h
    exact .inr (hends h)
  · left
    rintro rfl
    cases h

/-- The code that is kept leaves the scanner idle too. -/
theorem Scanner.Scans.exists_reads_withComment_code (hready : Ready s) (h : Scans n s code comment s₁)
    (ending : Option LineBreak) (left : Option RegionKind) (hrest : comment ≠ [] ∨ s₁.atRest = true) (t : Text) :
    ∃ s₀, Reads n s ((mkLine n code comment ending left).withComment t).code s₀ ∧ s₀.isIdle = true ∧
      s₀.depth = s₁.depth := by
  obtain ⟨s₀, hreads, hidle, hdepth, -⟩ := h.exists_isIdle hready hrest
  obtain ⟨blanks₁, hcode, hblanks₁⟩ := exists_mkLine_code_append n code comment ending left
  obtain ⟨blanks₂, hkept, hblanks₂⟩ := exists_withComment_code_append (mkLine n code comment ending left) t
  rw [hkept, List.append_assoc] at hcode
  have hblanks : ∀ c ∈ blanks₂ ++ blanks₁, Text.isBlank c = true := by
    intro c hc
    rcases List.mem_append.1 hc with hc | hc
    · exact hblanks₂ c hc
    · exact hblanks₁ c hc
  rw [hcode] at hreads
  obtain ⟨s₂, hreads₂, hidle₂, hdepth₂⟩ := hreads.exists_before_blanks hready.wellFormed hblanks hidle
  exact ⟨s₂, hreads₂, hidle₂, hdepth₂.trans hdepth⟩

/-- **A line with another comment is scanned like the line it was.** -/
theorem Scanner.Scans.withComment (hready : Ready s) (h : Scans n s code comment s₁)
    (hends : left = none → s₁.atRest = true) (ht : Accepts (mkLine n code comment ending left) t) :
    ∃ code' comment' s₁', ((mkLine n code comment ending left).withComment t).content = code' ++ comment' ∧
      Scans n s code' comment' s₁' ∧ (s₁.atRest = true ∧ s₁'.atRest = true ∧ s₁'.depth = s₁.depth) ∧
      Text.trimEnd (mkLine n code' comment' ending left).code =
        Text.trimEnd (mkLine n code comment ending left).code ∧
      (mkLine n code' comment' ending left).comment.dropWhile isSeparator = t.dropWhile isSeparator := by
  have hrest := atRest_or_of_accepts hends ht
  obtain ⟨-, -, -, -, hrest₁⟩ := h.exists_isIdle hready hrest
  obtain ⟨s₀, hreads, hidle, hdepth⟩ :=
    h.exists_reads_withComment_code hready ending left hrest t
  have htrim := trimEnd_withComment_code (mkLine n code comment ending left) t
  have hcontent : ((mkLine n code comment ending left).withComment t).content =
      ((mkLine n code comment ending left).withComment t).code ++ t := rfl
  rw [hcontent]
  generalize ((mkLine n code comment ending left).withComment t).code = kept at hreads htrim ⊢
  rcases ht.2 with hcomment | ⟨rfl, -⟩
  · -- the new comment starts where its separator has been read
    obtain ⟨separator, rest, rfl, hseparator, -⟩ := isComment_iff.1 hcomment
    obtain ⟨s₂, hreads₂, hidle₂, hdepth₂⟩ :=
      Reads.separators n (hreads.wellFormed hready.wellFormed) hidle hseparator
    have hscan : Scans n s (kept ++ separator) ('#' :: rest) s₂.commented :=
      ⟨s₂, hreads.append hreads₂, .inr ⟨⟨rest, rfl⟩, hidle₂, rfl⟩⟩
    have hdepth' : s₂.commented.depth = s₁.depth := hdepth₂.trans hdepth
    refine ⟨_, _, _, (List.append_assoc ..).symm, hscan, ⟨hrest₁, atRest_commented hidle₂, hdepth'⟩, ?_, ?_⟩
    · rw [trimEnd_mkLine_code, ← htrim]
      exact Text.trimEnd_append_of_blank kept fun c hc => isBlank_of_isSeparator (hseparator c hc)
    · rw [mkLine_of_ne_nil n _ _ ending left (List.cons_ne_nil '#' rest), List.dropWhile_append_of_pos hseparator]
      exact List.dropWhile_append_of_pos (Text.mem_spanEnd_snd isSeparator)
  · -- no comment: the line ends where the scanner is idle
    have hscan : Scans n s kept [] s₀ := ⟨s₀, hreads, .inl ⟨rfl, rfl⟩⟩
    exact ⟨kept, [], s₀, rfl, hscan, ⟨hrest₁, atRest_of_isIdle hidle, hdepth⟩, htrim, rfl⟩

/-- Two states that end a line alike. -/
def Scanner.EndsAlike (s s' : Scanner) : Prop := s' = s ∨ s.atRest = true ∧ s'.atRest = true ∧ s'.depth = s.depth

theorem Scanner.EndsAlike.breakLine {s' : Scanner} (h : EndsAlike s s') : s'.breakLine n = s.breakLine n := by
  rcases h with rfl | ⟨hrest, hrest', hdepth⟩
  · rfl
  · rw [breakLine_of_atRest hrest, breakLine_of_atRest hrest']
    simp [settled, leftOpen, (atRest_iff.1 hrest).1, (atRest_iff.1 hrest').1, hdepth]

theorem Scanner.EndsAlike.atRest {s' : Scanner} (h : EndsAlike s s') (hrest : s.atRest = true) :
    s'.atRest = true ∧ s'.depth = s.depth := by
  rcases h with rfl | ⟨-, hrest', hdepth⟩
  · exact ⟨hrest, rfl⟩
  · exact ⟨hrest', hdepth⟩

/-- A line of an edit is scanned like the line it was. -/
theorem Scanner.Scans.edited {comments : Nat → Option Text} (hready : Ready s) (h : Scans n s code comment s₁)
    (hends : left = none → s₁.atRest = true)
    (haccepts : ∀ t, comments n = some t → Accepts (mkLine n code comment ending left) t) :
    ∃ code' comment' s₁', ((mkLine n code comment ending left).edited comments).content = code' ++ comment' ∧
      Scans n s code' comment' s₁' ∧ EndsAlike s₁ s₁' ∧
      KeepsLine (comments n) (mkLine n code comment ending left) (mkLine n code' comment' ending left) := by
  rcases (mkLine n code comment ending left).edited_cases comments with ⟨hkept, hsame⟩ | ⟨t, ht, -, hedited⟩
  · rw [hkept, mkLine_content]
    refine ⟨code, comment, s₁, rfl, h, .inl rfl, rfl, rfl, rfl, rfl, fun _ => rfl, ?_⟩
    intro t ht
    rw [hsame t ht]
  · obtain ⟨code', comment', s₁', hcontent, hscan, hend, hcode, hcomment⟩ := h.withComment hready hends (haccepts t ht)
    rw [hedited, hcontent]
    refine ⟨code', comment', s₁', rfl, hscan, .inr hend, rfl, rfl, rfl, hcode, ?_, ?_⟩
    · intro hnone
      rw [mkLine_number, hnone] at ht
      cases ht
    · intro t' ht'
      rw [mkLine_number, ht'] at ht
      cases ht
      exact hcomment

end Line

/-! ## The whole source -/

section Source

variable {comments : Nat → Option Text}

theorem Accepts.breakFree {l : SourceLine} {t : Text} (h : Accepts l t) : BreakFree t := by
  rcases h.2 with hcomment | ⟨rfl, -⟩
  · exact hcomment.2
  · exact breakFree_nil

theorem breakFree_edited_content {l : SourceLine} (hcomments : ∀ t, comments l.number = some t → BreakFree t)
    (hfree : BreakFree l.content) : BreakFree (l.edited comments).content := by
  rcases l.edited_cases comments with ⟨h, -⟩ | ⟨t, ht, -, h⟩
  · rw [h]
    exact hfree
  · obtain ⟨blanks, hcode, -⟩ := exists_withComment_code_append l t
    rw [SourceLine.content, hcode, breakFree_append, breakFree_append] at hfree
    rw [h]
    exact breakFree_append.2 ⟨hfree.1.1, hcomments t ht⟩

theorem content_eq_nil_of_edited {l : SourceLine} (haccepts : ∀ t, comments l.number = some t → Accepts l t)
    (hnil : (l.edited comments).content = []) : l.content = [] := by
  rcases l.edited_cases comments with ⟨h, -⟩ | ⟨t, ht, hne, h⟩
  · rwa [h] at hnil
  · rw [h] at hnil
    exact absurd hnil (withComment_content_ne_nil (haccepts t ht) hne)

/-- An edited source is classified like the source it was: the scanner is in the same state at the start of every
line. -/
theorem Classified.edited {n : Nat} {s : Scanner} {current : Option OpenStatement} {ls : List EndedLine} {rest : Text}
    {m : SourceMap} (h : Classified n s current ls rest m)
    (haccepts : ∀ l ∈ m.lines, ∀ t, comments l.number = some t → Accepts l t)
    (hls : ∀ l ∈ ls, BreakFree l.content) (hfree : BreakFree rest) :
    ∃ ls' rest' m', Classified n s current ls' rest' m' ∧
      joinLines (ls', rest') = TypeIgnore.render (m.lines.map (SourceLine.edited comments)) ∧
      (List.Forall₂ SameBreak ls ls' ∧ BreakFree rest') ∧ m'.regions = m.regions ∧
      List.Forall₂ (fun l l' => KeepsLine (comments l.number) l l') m.lines m'.lines := by
  induction h with
  | done hready hrest hdepth =>
    exact ⟨[], [], ⟨[], []⟩, .done hready hrest hdepth, rfl, ⟨.nil, breakFree_nil⟩, rfl, .nil⟩
  | @last n s s' current code comment hready hne hscan hrest hdepth =>
    have hl := haccepts _ List.mem_cons_self
    obtain ⟨code', comment', s₁', hcontent, hscan', hend, hkeeps⟩ := hscan.edited hready (fun _ => hrest) hl
    obtain ⟨hrest', hdepth'⟩ := hend.atRest hrest
    have hne' : code' ++ comment' ≠ [] := by
      intro hnil
      rw [← hcontent] at hnil
      exact hne (by simpa using content_eq_nil_of_edited hl hnil)
    have hfree' : BreakFree (code' ++ comment') := by
      rw [← hcontent]
      exact breakFree_edited_content (fun t ht => (hl t ht).breakFree) (by simpa using hfree)
    refine ⟨[], code' ++ comment', _, .last hready hne' hscan' hrest' (hdepth'.trans hdepth), ?_, ⟨.nil, hfree'⟩, rfl,
      .cons hkeeps .nil⟩
    simp [TypeIgnore.render, joinLines, SourceLine.text, SourceLine.endingText, mkLine_ending, hcontent]
  | @line n s s₁ s₂ current code comment rest ending left ls tail hready hscan hbreak htail ih =>
    have hl := haccepts _ List.mem_cons_self
    have hends : left = none → s₁.atRest = true := by
      rintro rfl
      exact atRest_of_breakLine (hscan.wellFormed hready.wellFormed) hbreak
    obtain ⟨code', comment', s₁', hcontent, hscan', hend, hkeeps⟩ := hscan.edited hready hends hl
    obtain ⟨ls', rest', tail', htail', hjoin, ⟨hsame, hfree'⟩, hregions, hlines⟩ :=
      ih (fun l hl => haccepts l (List.mem_cons_of_mem _ hl)) (fun l hl => hls l (List.mem_cons_of_mem _ hl)) hfree
    have hbreak' : s₁'.breakLine n = .ok (s₂, left) := hend.breakLine.trans hbreak
    have hsame₀ : SameBreak ⟨code ++ comment, ending⟩ ⟨code' ++ comment', ending⟩ := by
      have hfree₀ : BreakFree (code ++ comment) := hls _ List.mem_cons_self
      refine ⟨rfl, ?_, ?_⟩
      · intro hnil
        rw [← hcontent] at hnil
        simpa using content_eq_nil_of_edited hl hnil
      · rw [← hcontent]
        exact breakFree_edited_content (fun t ht => (hl t ht).breakFree) (by simpa using hfree₀)
    refine ⟨⟨code' ++ comment', ending⟩ :: ls', rest', _, .line hready hscan' hbreak' htail', ?_,
      ⟨.cons hsame₀ hsame, hfree'⟩, by rw [hregions], .cons hkeeps hlines⟩
    have hcons : joinLines (⟨code' ++ comment', ending⟩ :: ls', rest') =
        code' ++ comment' ++ ending.text ++ joinLines (ls', rest') := by simp [joinLines]
    rw [hcons, hjoin, ← hcontent]
    simp [TypeIgnore.render, SourceLine.text, SourceLine.endingText, mkLine_ending]

/-- The text of an edit is split into the lines of the edit. -/
theorem classify_edited {source : Text} {m : SourceMap} (hm : classify source = .ok m)
    (haccepts : ∀ l ∈ m.lines, ∀ t, comments l.number = some t → Accepts l t) :
    ∃ m', classify (applyComments m.lines comments).text = .ok m' ∧ m'.regions = m.regions ∧
      List.Forall₂ (fun l l' => KeepsLine (comments l.number) l l') m.lines m'.lines := by
  have hsplit := isSplit_splitLines source
  obtain ⟨ls', rest', m', hclassified, hjoin, ⟨hsame, hfree⟩, hregions, hlines⟩ :=
    (classify_eq_ok_iff.1 hm).edited haccepts hsplit.content hsplit.rest
  refine ⟨m', classify_eq_ok_iff.2 ?_, hregions, hlines⟩
  have hsplit' : splitLines (applyComments m.lines comments).text = (ls', rest') := by
    rw [FileEdit.text, applyComments_lines, ← hjoin]
    exact splitLines_joinLines (hsplit.replace hsame hfree)
  rw [hsplit']
  exact hclassified

/-- **Editing comments keeps the structure of the source.** Where every comment is for a line that accepts it, the
edited text has a map, with the regions and the lines of the source, but for the comments. -/
theorem applyComments_keeps_structure {source : Text} {m : SourceMap} (hm : classify source = .ok m)
    (comments : Nat → Option Text)
    (haccepts : ∀ n t, comments n = some t → ∃ l ∈ m.lines, l.number = n ∧ Accepts l t) :
    ∃ m', classify (applyComments m.lines comments).text = .ok m' ∧ m'.regions = m.regions ∧
      m'.lineCount = m.lineCount ∧
      List.Forall₂ (fun l l' => KeepsLine (comments l.number) l l') m.lines m'.lines := by
  have hlines : ∀ l ∈ m.lines, ∀ t, comments l.number = some t → Accepts l t := by
    intro l hl t ht
    obtain ⟨l₁, hl₁, hnumber, haccepts₁⟩ := haccepts l.number t ht
    have hsame : l₁ = l := line_eq_of_number_eq hm hl₁ hl hnumber
    exact hsame ▸ haccepts₁
  obtain ⟨m', hm', hregions, hkeeps⟩ := classify_edited hm hlines
  exact ⟨m', hm', hregions, hkeeps.length_eq.symm, hkeeps⟩

/-- A comment inside a bracket goes, and a line of code with blanks at its end gets its first comment. -/
theorem applyComments_keeps_structure_bracket :
    let m : SourceMap :=
      ⟨[⟨1, "f(a,".toList, " # b".toList, some .crlf, false⟩, ⟨2, "  \"#\")\u00a0 ".toList, [], none, true⟩],
        [⟨1, 2, .continuation⟩]⟩
    let comments (n : Nat) : Option Text := if n = 1 then some [] else if n = 2 then some "\t# c".toList else none
    classify "f(a, # b\r\n  \"#\")\u00a0 ".toList = .ok m ∧
      ∃ m', classify (applyComments m.lines comments).text = .ok m' ∧ m'.regions = m.regions ∧
        m'.lineCount = m.lineCount ∧
        List.Forall₂ (fun l l' => KeepsLine (comments l.number) l l') m.lines m'.lines := by
  intro m comments
  have hm : classify "f(a, # b\r\n  \"#\")\u00a0 ".toList = .ok m := rfl
  refine ⟨hm, applyComments_keeps_structure hm comments ?_⟩
  intro n t ht
  simp only [comments] at ht
  split at ht
  · cases ht
    exact ⟨_, List.mem_cons_self, by symm; assumption, by decide, .inr ⟨rfl, by decide⟩⟩
  split at ht
  · cases ht
    exact ⟨_, List.mem_cons_of_mem _ List.mem_cons_self, by symm; assumption, by decide, .inl (by decide)⟩
  · cases ht

end Source

end TypeIgnore
