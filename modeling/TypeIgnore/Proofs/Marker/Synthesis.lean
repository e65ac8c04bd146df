import TypeIgnore.Marker.Synthesis
import TypeIgnore.Proofs.Marker.Reading
import TypeIgnore.Proofs.Source.Lines

/-!
# Synthesized comments

* `MarkerState.ofText` — the marker that a comment carries; `MarkerState.granted` — the one it is to carry;
* `MarkerState.AllCodes`, `MarkerState.Canonical` — what holds of the codes of a marker, and is kept by removals and
  additions (`AllCodes.granted`, `canonical_granted`);
* `synthesize_of_text`, `synthesize_of_absent` — the two ways in which a comment is written anew;
* `TrailingComment.remark_synthesize`, `MarkerState.ofText_synthesize` — a marker with codes is read back from the new
  comment;
* `breakFree_synthesize` — a comment stays on its line.
-/

namespace TypeIgnore

namespace MarkerState

/-! ## The marker of a comment -/

def ofText (t : Text) : MarkerState := ofComment (TrailingComment.ofText t)

theorem ofText_congr {t u : Text} (h : t.dropWhile isSeparator = u.dropWhile isSeparator) : ofText t = ofText u := by
  simp only [ofText, ofComment, TrailingComment.remark_ofText_congr h]

theorem ofText_eq_absent_iff {t : Text} :
    ofText t = .absent ↔ (TrailingComment.ofText t).hasMarker = false := by
  unfold ofText ofComment TrailingComment.hasMarker
  split <;> simp_all

theorem ofText_eq_blanket_iff {t : Text} :
    ofText t = .blanket ↔ (TrailingComment.ofText t).isBlanket = true := by
  unfold ofText ofComment TrailingComment.isBlanket TrailingComment.hasMarker TrailingComment.codes
  split <;> simp_all

theorem mem_codes_iff {t : Text} {s : CodeSet} (h : ofText t = .codes s) {code : Text} :
    code ∈ (TrailingComment.ofText t).codes ↔ code ∈ s := by
  unfold ofText ofComment at h
  unfold TrailingComment.codes
  split at h <;> cases h
  rename_i hremark
  rw [hremark, CodeSet.mem_ofList]

theorem hasMarker_of_codes {t : Text} {s : CodeSet} (h : ofText t = .codes s) :
    (TrailingComment.ofText t).hasMarker = true := by
  by_contra hno
  rw [ofText_eq_absent_iff.2 (by simpa using hno)] at h
  cases h

/-! ## Markers that can be written -/

/-- The codes of the marker, if it has any, satisfy `P`. -/
def AllCodes (P : Text → Prop) : MarkerState → Prop
  | .codes s => ∀ code ∈ s, P code
  | _ => True

/-- The codes of the marker, if it has any, are a set as it is kept, and not the empty one. -/
def Canonical : MarkerState → Prop
  | .codes s => s ≠ [] ∧ CodeSet.Sorted s
  | _ => True

theorem AllCodes.imp {P Q : Text → Prop} (hPQ : ∀ code, P code → Q code) {m : MarkerState} (h : AllCodes P m) :
    AllCodes Q m := by
  cases m with
  | absent => trivial
  | blanket => trivial
  | codes s => exact fun code hcode => hPQ code (h code hcode)

theorem allCodes_ofText (t : Text) : AllCodes (fun code => IsMarkerCode code ∧ ∀ c ∈ code, c ∈ t) (ofText t) := by
  unfold ofText ofComment
  split
  · trivial
  · trivial
  · rename_i hremark
    obtain ⟨hcodes, -⟩ := marker?_eq_some (TrailingComment.marker?_of_remark_ofText hremark)
    intro code hcode
    obtain ⟨hmarker, hsub⟩ := hcodes code (CodeSet.mem_ofList.1 hcode)
    exact ⟨hmarker, fun c hc => (List.dropWhile_sublist _).mem (hsub c hc)⟩

theorem canonical_ofText (t : Text) : Canonical (ofText t) := by
  unfold ofText ofComment
  split
  · trivial
  · trivial
  · exact ⟨List.ne_nil_of_mem (CodeSet.mem_ofList.2 List.mem_cons_self), CodeSet.sorted_ofList _⟩

/-- What is left of a marker after removals: nothing, the marker, or some of its codes. -/
theorem drop_cases (m : MarkerState) (remove : CodeSet) :
    m.drop remove = .absent ∨ m.drop remove = m ∨
      ∃ s, m = .codes s ∧ m.drop remove = .codes (s.filter (!remove.contains ·)) ∧
        s.filter (!remove.contains ·) ≠ [] := by
  cases m with
  | absent => exact .inl rfl
  | blanket =>
    simp only [drop]
    split
    · exact .inl rfl
    · exact .inr (.inl rfl)
  | codes s =>
    simp only [drop]
    split
    · exact .inl rfl
    split
    · exact .inl rfl
    · rename_i hne
      exact .inr (.inr ⟨s, rfl, rfl, hne⟩)

/-- What additions make of a marker: a blanket one, the marker itself, the added codes, or both. -/
theorem grant_cases (r : LineRequest) (m : MarkerState) :
    (m.grant r).marker = .blanket ∨ (r.add = [] ∧ (m.grant r).marker = m) ∨
      (r.add ≠ [] ∧ m = .absent ∧ (m.grant r).marker = .codes r.add) ∨
      ∃ s, m = .codes s ∧ (m.grant r).marker = .codes (s.insertAll r.add) := by
  unfold grant
  split
  · exact .inl rfl
  split
  · rename_i hadd
    exact .inr (.inl ⟨List.isEmpty_iff.1 hadd, rfl⟩)
  · rename_i hadd
    have hne : r.add ≠ [] := by simpa using hadd
    cases m with
    | absent => exact .inr (.inr (.inl ⟨hne, rfl, rfl⟩))
    | blanket => exact .inl rfl
    | codes s => exact .inr (.inr (.inr ⟨s, rfl, rfl⟩))

section Kept

variable {P : Text → Prop} {m : MarkerState} {r : LineRequest}

theorem AllCodes.drop (h : AllCodes P m) (remove : CodeSet) : AllCodes P (m.drop remove) := by
  rcases drop_cases m remove with h' | h' | ⟨s, rfl, h', -⟩
  · rw [h']
    trivial
  · rw [h']
    exact h
  · rw [h']
    exact fun code hcode => h code (List.mem_filter.1 hcode).1

theorem AllCodes.grant (h : AllCodes P m) (hadd : ∀ code ∈ r.add, P code) : AllCodes P (m.grant r).marker := by
  rcases grant_cases r m with h' | ⟨-, h'⟩ | ⟨-, -, h'⟩ | ⟨s, rfl, h'⟩
  · rw [h']
    trivial
  · rw [h']
    exact h
  · rw [h']
    exact hadd
  · rw [h']
    intro code hcode
    rcases CodeSet.mem_insertAll.1 hcode with hcode | hcode
    · exact hadd code hcode
    · exact h code hcode

theorem Canonical.drop (h : Canonical m) (remove : CodeSet) : Canonical (m.drop remove) := by
  rcases drop_cases m remove with h' | h' | ⟨s, rfl, h', hne⟩
  · rw [h']
    trivial
  · rw [h']
    exact h
  · rw [h']
    exact ⟨hne, List.Pairwise.filter _ h.2⟩

theorem Canonical.grant (h : Canonical m) (hadd : CodeSet.Sorted r.add) : Canonical (m.grant r).marker := by
  rcases grant_cases r m with h' | ⟨-, h'⟩ | ⟨hne, -, h'⟩ | ⟨s, rfl, h'⟩
  · rw [h']
    trivial
  · rw [h']
    exact h
  · rw [h']
    exact ⟨hne, hadd⟩
  · rw [h']
    obtain ⟨code, hcode⟩ := List.exists_mem_of_ne_nil s h.1
    have hmem : code ∈ s.insertAll r.add := CodeSet.mem_insertAll.2 (.inr hcode)
    exact ⟨List.ne_nil_of_mem hmem, h.2.insertAll r.add⟩

end Kept

/-- The marker that a comment is to carry after the request. -/
def granted (existing : Text) (r : LineRequest) : Granted := ((ofText existing).drop r.remove).grant r

theorem AllCodes.granted {P : Text → Prop} {existing : Text} {r : LineRequest} (h : AllCodes P (ofText existing))
    (hadd : ∀ code ∈ r.add, P code) : AllCodes P (granted existing r).marker :=
  (h.drop r.remove).grant hadd

theorem canonical_granted (existing : Text) {r : LineRequest} (hadd : CodeSet.Sorted r.add) :
    Canonical (granted existing r).marker :=
  ((canonical_ofText existing).drop r.remove).grant hadd

theorem text?_eq_none_iff {m : MarkerState} : m.text? = none ↔ m = .absent := by
  cases m <;> simp [text?]

theorem text?_eq_some {m : MarkerState} {marker : Text} (h : m.text? = some marker) : ∃ rest, marker = '#' :: rest := by
  cases m with
  | absent => cases h
  | blanket =>
    cases h
    exact ⟨_, rfl⟩
  | codes s =>
    cases h
    exact ⟨_, rfl⟩

end MarkerState

/-! ## The parts of a new comment -/

/-- The separator of the new comment. -/
def newSeparator (c : TrailingComment) : Text := if c.separator.isEmpty then "  ".toList else c.separator

/-- What stands after the new marker and its notes. -/
def keptTail (c : TrailingComment) : Text :=
  match c.remark with
  | .marker _ trailer => trailer
  | .plain [] => []
  | .plain text => newSeparator c ++ text

/-- What a removed marker leaves behind. -/
def leftover (c : TrailingComment) (style : CommentStyle) : Text :=
  stripFollowUp (Text.trimStart c.trailer) (Text.trim style.followUp)

/-- The note after a new marker, unless it is there. -/
def followUpNote (style : CommentStyle) (tail : Text) : Text :=
  let followUp := Text.trim style.followUp
  if followUp.isEmpty || Text.occursIn ("# " ++ followUp) tail then [] else "  # " ++ followUp

/-- The messages after a new marker. -/
def newMessages (r : LineRequest) (style : CommentStyle) (g : MarkerState.Granted) : List Text :=
  match style.descriptions with
  | .plain => []
  | .full => (r.descriptions.filter fun d => g.becameBlanket || d.code.any g.added.contains).map (·.message)

theorem annotations_eq (r : LineRequest) (style : CommentStyle) (g : MarkerState.Granted) (tail : Text) :
    annotations r style g tail =
      if !g.becameBlanket && g.added.isEmpty then []
      else if (newMessages r style g).isEmpty then followUpNote style tail
      else followUpNote style tail ++ "  # " ++ Text.joinWith ", " (newMessages r style g) := rfl

theorem followUpNote_cases (style : CommentStyle) (tail : Text) :
    followUpNote style tail = [] ∨ ∃ rest, followUpNote style tail = ' ' :: ' ' :: '#' :: rest := by
  unfold followUpNote
  simp only
  split
  · exact .inl rfl
  · exact .inr ⟨_, rfl⟩

section Parts

variable (existing : Text) (r : LineRequest) (style : CommentStyle)

theorem isSeparator_of_mem_newSeparator : ∀ c ∈ newSeparator (.ofText existing), isSeparator c = true := by
  unfold newSeparator
  split
  · simp [isSeparator]
  · exact TrailingComment.isSeparator_of_mem_separator

theorem exists_newSeparator_cons (c : TrailingComment) : ∃ x rest, newSeparator c = x :: rest := by
  unfold newSeparator
  split
  · exact ⟨_, _, rfl⟩
  · rename_i h
    exact List.exists_cons_of_ne_nil (by simpa using h)

theorem endsMarker_keptTail : endsMarker (keptTail (.ofText existing)) = true := by
  unfold keptTail
  split
  · rename_i hremark
    exact (marker?_eq_some (TrailingComment.marker?_of_remark_ofText hremark)).2.1
  · rfl
  · obtain ⟨x, rest, hx⟩ := exists_newSeparator_cons (.ofText existing)
    have hsep := isSeparator_of_mem_newSeparator existing x (hx ▸ List.mem_cons_self)
    simp [hx, endsMarker, isBlank_of_isSeparator hsep]

/-- Notes start with blanks and `#`. -/
theorem annotations_cases (g : MarkerState.Granted) (tail : Text) :
    annotations r style g tail = [] ∨ ∃ rest, annotations r style g tail = ' ' :: ' ' :: '#' :: rest := by
  rw [annotations_eq]
  split
  · exact .inl rfl
  split
  · exact followUpNote_cases style tail
  · right
    rcases followUpNote_cases style tail with h | ⟨rest, h⟩
    · rw [h]
      exact ⟨_, rfl⟩
    · rw [h]
      exact ⟨_, rfl⟩

theorem endsMarker_annotations_append (g : MarkerState.Granted) {tail : Text} (h : endsMarker tail = true) :
    endsMarker (annotations r style g tail ++ tail) = true := by
  rcases annotations_cases r style g tail with h' | ⟨rest, h'⟩
  · rw [h']
    exact h
  · rw [h']
    rfl

end Parts

/-! ## The new comment -/

section Synthesize

variable {existing : Text} {r : LineRequest} {style : CommentStyle}

theorem synthesize_of_same (h : (MarkerState.granted existing r).marker = MarkerState.ofText existing) :
    synthesize existing r style = existing :=
  if_pos h

theorem synthesize_of_text {marker : Text}
    (hne : (MarkerState.granted existing r).marker ≠ MarkerState.ofText existing)
    (htext : (MarkerState.granted existing r).marker.text? = some marker) :
    synthesize existing r style =
      newSeparator (.ofText existing) ++ (marker ++
        (annotations r style (MarkerState.granted existing r) (keptTail (.ofText existing)) ++
          keptTail (.ofText existing))) := by
  refine (if_neg hne).trans ?_
  unfold MarkerState.granted MarkerState.ofText at htext
  simp only [htext, List.append_assoc]
  rfl

theorem synthesize_of_absent (style : CommentStyle)
    (hne : (MarkerState.granted existing r).marker ≠ MarkerState.ofText existing)
    (habsent : (MarkerState.granted existing r).marker = .absent) :
    synthesize existing r style =
      if leftover (.ofText existing) style = [] then []
      else newSeparator (.ofText existing) ++ leftover (.ofText existing) style := by
  refine (if_neg hne).trans ?_
  unfold MarkerState.granted MarkerState.ofText at habsent
  simp only [habsent, MarkerState.text?]
  split
  · rename_i h
    exact (if_pos h).symm
  · rename_i h
    exact (if_neg h).symm

/-- The new comment starts, separator apart, with its marker. -/
theorem dropWhile_synthesize_of_text (style : CommentStyle) {marker : Text}
    (hne : (MarkerState.granted existing r).marker ≠ MarkerState.ofText existing)
    (htext : (MarkerState.granted existing r).marker.text? = some marker) :
    (synthesize existing r style).dropWhile isSeparator =
      marker ++ (annotations r style (MarkerState.granted existing r) (keptTail (.ofText existing)) ++
        keptTail (.ofText existing)) := by
  obtain ⟨rest, rfl⟩ := MarkerState.text?_eq_some htext
  rw [synthesize_of_text hne htext, List.dropWhile_append_of_pos (isSeparator_of_mem_newSeparator existing)]
  rfl

/-- A new comment with codes: the codes as they are kept, and behind the marker notes and what stood there. -/
theorem TrailingComment.remark_synthesize (style : CommentStyle) {s : CodeSet}
    (hcodes : ∀ code ∈ r.add, IsMarkerCode code)
    (hne : (MarkerState.granted existing r).marker ≠ MarkerState.ofText existing)
    (hs : (MarkerState.granted existing r).marker = .codes s) :
    (TrailingComment.ofText (synthesize existing r style)).remark =
      .marker s (annotations r style (MarkerState.granted existing r) (keptTail (.ofText existing)) ++
        keptTail (.ofText existing)) := by
  have hall : MarkerState.AllCodes IsMarkerCode (MarkerState.granted existing r).marker :=
    ((MarkerState.allCodes_ofText existing).imp fun _ h => h.1).granted hcodes
  have htext : (MarkerState.granted existing r).marker.text? =
      some (markerText ++ "[" ++ Text.joinWith ", " s ++ "]") := by
    rw [hs]
    rfl
  have hends := endsMarker_annotations_append r style (MarkerState.granted existing r) (endsMarker_keptTail existing)
  rw [hs] at hall
  exact TrailingComment.remark_ofText_of_marker
    ((congrArg marker? (dropWhile_synthesize_of_text style hne htext)).trans (marker?_written hall hends))

/-- **A marker with codes is read back from the new comment.** -/
theorem MarkerState.ofText_synthesize {s : CodeSet} (hsorted : CodeSet.Sorted r.add)
    (hcodes : ∀ code ∈ r.add, IsMarkerCode code) (hs : (granted existing r).marker = .codes s) :
    ofText (synthesize existing r style) = .codes s := by
  by_cases hsame : (granted existing r).marker = ofText existing
  · rw [synthesize_of_same hsame, ← hsame, hs]
  · have hcanonical := canonical_granted existing hsorted
    rw [hs] at hcanonical
    have hremark := TrailingComment.remark_synthesize style hcodes hsame hs
    obtain ⟨code, rest, rfl⟩ := List.exists_cons_of_ne_nil hcanonical.1
    rw [ofText, ofComment, hremark]
    simp only
    rw [CodeSet.Sorted.ofList_eq hcanonical.2]

/-- A marker that stays or comes makes the new comment a comment. -/
theorem head?_dropWhile_synthesize (hne : (MarkerState.granted existing r).marker ≠ .absent)
    (hexisting : existing = [] ∨ (existing.dropWhile isSeparator).head? = some '#') :
    ((synthesize existing r style).dropWhile isSeparator).head? = some '#' := by
  by_cases hsame : (MarkerState.granted existing r).marker = MarkerState.ofText existing
  · rw [synthesize_of_same hsame]
    rcases hexisting with rfl | hexisting
    · exact absurd (hsame.trans rfl) hne
    · exact hexisting
  · cases htext : (MarkerState.granted existing r).marker.text? with
    | none => exact absurd (MarkerState.text?_eq_none_iff.1 htext) hne
    | some marker =>
      rw [dropWhile_synthesize_of_text style hsame htext]
      obtain ⟨rest, rfl⟩ := MarkerState.text?_eq_some htext
      rfl

/-! ## One line -/

theorem stripFollowUp_suffix (text followUp : Text) : stripFollowUp text followUp <:+ text := by
  unfold stripFollowUp
  split
  · exact List.suffix_rfl
  split
  · exact List.suffix_rfl
  · exact List.nil_suffix
  · rename_i x rest hrest
    split
    · obtain ⟨u, hu, hafter⟩ := Option.bind_eq_some_iff.1 hrest
      have hsuffix : x :: rest <:+ text := (suffix_of_after?_trimStart hafter).trans (suffix_of_after? hu)
      exact (List.dropWhile_suffix _).trans hsuffix
    · exact List.suffix_rfl

/-- What is left is an ending of the text after the marker. -/
theorem leftover_suffix (c : TrailingComment) (style : CommentStyle) : leftover c style <:+ c.trailer :=
  (stripFollowUp_suffix _ _).trans (List.dropWhile_suffix _)

theorem trailer_suffix (t : Text) : (TrailingComment.ofText t).trailer <:+ t := by
  unfold TrailingComment.trailer
  split
  · rename_i hremark
    have hsuffix := (marker?_eq_some (TrailingComment.marker?_of_remark_ofText hremark)).2.2
    exact hsuffix.trans (List.dropWhile_suffix _)
  · exact List.nil_suffix

theorem mem_trailer {c : Char} (h : c ∈ (TrailingComment.ofText existing).trailer) : c ∈ existing :=
  (trailer_suffix existing).mem h

theorem breakFree_leftover (h : BreakFree existing) : BreakFree (leftover (.ofText existing) style) :=
  h.of_subset fun _ hc => mem_trailer ((leftover_suffix _ style).mem hc)

theorem breakFree_newSeparator (existing : Text) : BreakFree (newSeparator (.ofText existing)) :=
  breakFree_of_separators (isSeparator_of_mem_newSeparator existing)

theorem breakFree_keptTail (h : BreakFree existing) : BreakFree (keptTail (.ofText existing)) := by
  unfold keptTail
  split
  · rename_i trailer hremark
    refine h.of_subset fun c hc => mem_trailer ?_
    simpa [TrailingComment.trailer, hremark] using hc
  · exact breakFree_nil
  · rename_i hremark
    refine breakFree_append.2 ⟨breakFree_newSeparator existing, ?_⟩
    rw [TrailingComment.plain_of_remark_ofText hremark]
    exact h.of_subset fun c hc => (List.dropWhile_sublist _).mem hc

theorem breakFree_joinWith {sep : Text} {pieces : List Text} (hsep : BreakFree sep)
    (h : ∀ piece ∈ pieces, BreakFree piece) : BreakFree (Text.joinWith sep pieces) := by
  intro c hc
  rcases Text.mem_joinWith hc with hc | ⟨piece, hpiece, hc⟩
  · exact hsep c hc
  · exact h piece hpiece c hc

theorem breakFree_annotations (hmessages : ∀ d ∈ r.descriptions, BreakFree d.message)
    (hfollowUp : BreakFree style.followUp) (g : MarkerState.Granted) (tail : Text) :
    BreakFree (annotations r style g tail) := by
  have hnote : BreakFree (followUpNote style tail) := by
    unfold followUpNote
    simp only
    split
    · exact breakFree_nil
    · exact breakFree_append.2 ⟨by decide, hfollowUp.of_subset fun c hc => Text.mem_of_mem_trim hc⟩
  have hmessages' : ∀ message ∈ newMessages r style g, BreakFree message := by
    intro message hmessage
    unfold newMessages at hmessage
    split at hmessage
    · cases hmessage
    · obtain ⟨d, hd, rfl⟩ := List.mem_map.1 hmessage
      exact hmessages d (List.mem_filter.1 hd).1
  rw [annotations_eq]
  split
  · exact breakFree_nil
  split
  · exact hnote
  · exact breakFree_append.2 ⟨breakFree_append.2 ⟨hnote, by decide⟩, breakFree_joinWith (by decide) hmessages'⟩

theorem MarkerState.breakFree_text? {m : MarkerState} {marker : Text} (hcodes : AllCodes BreakFree m)
    (h : m.text? = some marker) : BreakFree marker := by
  cases m with
  | absent => cases h
  | blanket =>
    cases h
    decide
  | codes s =>
    cases h
    have hopen : BreakFree (markerText ++ "[") := by decide
    exact breakFree_append.2 ⟨breakFree_append.2 ⟨hopen, breakFree_joinWith (by decide) hcodes⟩, by decide⟩

/-- A comment stays on its line. -/
theorem breakFree_synthesize (hexisting : BreakFree existing) (hadd : ∀ code ∈ r.add, BreakFree code)
    (hmessages : ∀ d ∈ r.descriptions, BreakFree d.message) (hfollowUp : BreakFree style.followUp) :
    BreakFree (synthesize existing r style) := by
  by_cases hsame : (MarkerState.granted existing r).marker = MarkerState.ofText existing
  · rw [synthesize_of_same hsame]
    exact hexisting
  · cases htext : (MarkerState.granted existing r).marker.text? with
    | none =>
      rw [synthesize_of_absent style hsame (MarkerState.text?_eq_none_iff.1 htext)]
      split
      · exact breakFree_nil
      · exact breakFree_append.2 ⟨breakFree_newSeparator existing, breakFree_leftover hexisting⟩
    | some marker =>
      have hcodes : MarkerState.AllCodes BreakFree (MarkerState.granted existing r).marker :=
        ((MarkerState.allCodes_ofText existing).imp fun _ h => hexisting.of_subset h.2).granted hadd
      have hmarker := MarkerState.breakFree_text? hcodes htext
      have hnotes := breakFree_annotations hmessages hfollowUp (MarkerState.granted existing r)
        (keptTail (.ofText existing))
      rw [synthesize_of_text hsame htext]
      exact breakFree_append.2 ⟨breakFree_newSeparator existing,
        breakFree_append.2 ⟨hmarker, breakFree_append.2 ⟨hnotes, breakFree_keptTail hexisting⟩⟩⟩

end Synthesize

end TypeIgnore
