import TypeIgnore.Proofs.Marker.Synthesis

/-!
# Blanket markers

* `extendsMarker t` — right behind a marker without codes, `t` is read as a part of it;
* `exists_marker?_markerText_append` — a blanket marker is read back exactly where what follows does not extend it;
* `WithoutNotes` — nothing comes between a marker that becomes blanket and the text that is kept; a note would keep the
  two apart (`extendsMarker_annotations_append`);
* `LosesBlanket` — the text that is kept extends a marker that becomes blanket, `isBlanket_synthesize_iff_of_not` — the
  one way in which a request for a blanket marker does not lead to one.
-/

namespace TypeIgnore

/-! ## A marker without codes and what follows it -/

/-- A bracket stands at the start of `t`, which behind a marker holds its codes, or keeps it from ending. -/
def extendsMarker (t : Text) : Bool :=
  (bracket? t).any fun (inside, rest) => !(Text.commaList inside).isEmpty || !endsMarker rest

theorem marker?_markerText_append (t : Text) :
    marker? (markerText ++ t) =
      if endsMarker ((bracket? t).getD ([], t)).2 = true then
        some (Text.commaList ((bracket? t).getD ([], t)).1, ((bracket? t).getD ([], t)).2)
      else none := rfl

/-- A blanket marker is read back exactly where what follows does not extend it. -/
theorem exists_marker?_markerText_append {t : Text} (ht : endsMarker t = true) :
    (∃ trailer, marker? (markerText ++ t) = some ([], trailer)) ↔ extendsMarker t = false := by
  rw [marker?_markerText_append, extendsMarker]
  cases hbracket : bracket? t with
  | none =>
    have hnone : Text.commaList [] = [] := rfl
    simp [ht, hnone]
  | some result =>
    obtain ⟨inside, rest⟩ := result
    by_cases hrest : endsMarker rest = true
    · simp [hrest]
    · simp [hrest]

/-- The codes of a marker stand in a bracket behind its words. -/
theorem exists_bracket?_of_marker? {t trailer : Text} {codes : List Text} (hcodes : codes ≠ [])
    (h : marker? (markerText ++ t) = some (codes, trailer)) : ∃ inside, bracket? t = some (inside, trailer) := by
  rw [marker?_markerText_append] at h
  cases hbracket : bracket? t with
  | none =>
    simp only [hbracket, Option.getD_none] at h
    split at h <;> cases h
    exact absurd rfl hcodes
  | some result =>
    simp only [hbracket, Option.getD_some] at h
    split at h <;> cases h
    exact ⟨result.1, rfl⟩

theorem TrailingComment.isBlanket_ofText_iff {t : Text} :
    (ofText t).isBlanket = true ↔ ∃ trailer, marker? (t.dropWhile isSeparator) = some ([], trailer) := by
  cases hremark : (ofText t).remark with
  | plain text =>
    have hnone : ¬ ∃ trailer, marker? (t.dropWhile isSeparator) = some ([], trailer) := by
      rintro ⟨trailer, hmarker⟩
      rw [remark_ofText_of_marker hmarker] at hremark
      cases hremark
    simp [isBlanket, hasMarker, hremark, hnone]
  | marker codes trailer =>
    simp [isBlanket, hasMarker, TrailingComment.codes, hremark, marker?_of_remark_ofText hremark]

/-! ## Notes between the two -/

/-- No note comes between a marker that becomes blanket and `tail`: the follow-up is blank or stands in `tail`, and
there are no messages to copy. -/
def WithoutNotes (r : LineRequest) (style : CommentStyle) (tail : Text) : Prop :=
  (Text.trim style.followUp = [] ∨ Text.occursIn ("# " ++ Text.trim style.followUp) tail = true) ∧
    (style.descriptions = .plain ∨ r.descriptions = [])

instance (r : LineRequest) (style : CommentStyle) (tail : Text) : Decidable (WithoutNotes r style tail) :=
  inferInstanceAs (Decidable ((_ ∨ _) ∧ (_ ∨ _)))

section Notes

variable {r : LineRequest} {style : CommentStyle} {tail : Text}

theorem followUpNote_eq_nil_iff :
    followUpNote style tail = [] ↔
      Text.trim style.followUp = [] ∨ Text.occursIn ("# " ++ Text.trim style.followUp) tail = true := by
  unfold followUpNote
  simp only
  split
  · rename_i hnone
    simpa using hnone
  · rename_i hsome
    simpa using hsome

theorem newMessages_eq_nil_iff {g : MarkerState.Granted} (hg : g.becameBlanket = true) :
    newMessages r style g = [] ↔ style.descriptions = .plain ∨ r.descriptions = [] := by
  unfold newMessages
  cases style.descriptions with
  | plain => simp
  | full => simp [hg]

theorem annotations_eq_nil_iff {g : MarkerState.Granted} (hg : g.becameBlanket = true) :
    annotations r style g tail = [] ↔ WithoutNotes r style tail := by
  rw [WithoutNotes, ← followUpNote_eq_nil_iff, ← newMessages_eq_nil_iff hg, annotations_eq, if_neg (by simp [hg])]
  split
  · rename_i hnone
    simp [List.isEmpty_iff.1 hnone]
  · rename_i hsome
    simp [List.isEmpty_iff.not.1 hsome]

/-- No bracket is read behind a note. -/
theorem annotations_eq_nil_or_bracket? (r : LineRequest) (style : CommentStyle) (g : MarkerState.Granted)
    (tail : Text) :
    annotations r style g tail = [] ∨
      annotations r style g tail ≠ [] ∧ bracket? (annotations r style g tail ++ tail) = none := by
  rcases annotations_cases r style g tail with hnil | ⟨rest, hcons⟩
  · exact .inl hnil
  · rw [hcons]
    exact .inr ⟨by simp, rfl⟩

/-- A note keeps the text behind it from extending the marker. -/
theorem extendsMarker_annotations_append {g : MarkerState.Granted} (hg : g.becameBlanket = true) :
    extendsMarker (annotations r style g tail ++ tail) = true ↔
      WithoutNotes r style tail ∧ extendsMarker tail = true := by
  rw [← annotations_eq_nil_iff hg]
  rcases annotations_eq_nil_or_bracket? r style g tail with hnil | ⟨hne, hbracket⟩
  · simp [hnil]
  · simp [hne, extendsMarker, hbracket]

end Notes

/-! ## Requests for a blanket marker -/

/-- The comment is to get a blanket marker, and the text that is kept behind it extends it. -/
def LosesBlanket (c : TrailingComment) (r : LineRequest) (style : CommentStyle) : Prop :=
  c.isBlanket = false ∧ WithoutNotes r style (keptTail c) ∧ extendsMarker (keptTail c) = true

instance (c : TrailingComment) (r : LineRequest) (style : CommentStyle) : Decidable (LosesBlanket c r style) :=
  inferInstanceAs (Decidable (_ ∧ _ ∧ _))

section Synthesize

variable {existing : Text} {r : LineRequest} {style : CommentStyle}

theorem MarkerState.granted_of_blanket (hblanket : r.blanket = true) (existing : Text) :
    granted existing r = ⟨.blanket, [], (ofText existing).drop r.remove != .blanket⟩ := by
  rw [granted]
  exact if_pos hblanket

/-- A request for a blanket marker leaves the marker alone exactly where it is blanket. -/
theorem granted_eq_ofText_iff_of_blanket (hblanket : r.blanket = true) :
    (MarkerState.granted existing r).marker = MarkerState.ofText existing ↔
      (TrailingComment.ofText existing).isBlanket = true := by
  rw [MarkerState.granted_of_blanket hblanket, eq_comm, MarkerState.ofText_eq_blanket_iff]

theorem MarkerState.drop_ne_blanket {m : MarkerState} (h : m ≠ .blanket) (remove : CodeSet) :
    m.drop remove ≠ .blanket := by
  rcases drop_cases m remove with h' | h' | ⟨s, -, h', -⟩
  · simp [h']
  · rwa [h']
  · simp [h']

/-- A comment without blanket marker gets one, unless the text that is kept extends it. -/
theorem isBlanket_synthesize_iff_of_not (hblanket : r.blanket = true)
    (hnot : (TrailingComment.ofText existing).isBlanket = false) :
    (TrailingComment.ofText (synthesize existing r style)).isBlanket = true ↔
      ¬ (WithoutNotes r style (keptTail (.ofText existing)) ∧ extendsMarker (keptTail (.ofText existing)) = true) := by
  have hbefore : MarkerState.ofText existing ≠ .blanket := by
    rw [ne_eq, MarkerState.ofText_eq_blanket_iff, hnot]
    decide
  have hgranted := MarkerState.granted_of_blanket hblanket existing
  have hbecame : (MarkerState.granted existing r).becameBlanket = true := by
    rw [hgranted]
    simpa using MarkerState.drop_ne_blanket hbefore r.remove
  have hmarker : (MarkerState.granted existing r).marker = .blanket := by rw [hgranted]
  have hchanges : (MarkerState.granted existing r).marker ≠ MarkerState.ofText existing := by
    rw [hmarker]
    exact hbefore.symm
  have htext : (MarkerState.granted existing r).marker.text? = some markerText := by
    rw [hmarker]
    rfl
  have hends := endsMarker_annotations_append r style (MarkerState.granted existing r) (endsMarker_keptTail existing)
  rw [TrailingComment.isBlanket_ofText_iff, dropWhile_synthesize_of_text style hchanges htext,
    exists_marker?_markerText_append hends, ← Bool.not_eq_true, extendsMarker_annotations_append hbecame]

end Synthesize

/-- **When a request for a blanket marker leads to one.** It always does, unless a text with a bracket in front comes
right behind the new marker: the bracket is then read as the codes of the marker, or as what keeps it from being one. -/
theorem synthesize_isBlanket_iff (existing : Text) (r : LineRequest) (style : CommentStyle)
    (hblanket : r.blanket = true) :
    (TrailingComment.ofText (synthesize existing r style)).isBlanket = true ↔
      ¬ LosesBlanket (.ofText existing) r style := by
  cases hbefore : (TrailingComment.ofText existing).isBlanket with
  | true =>
    rw [synthesize_of_same ((granted_eq_ofText_iff_of_blanket hblanket).2 hbefore)]
    simp [LosesBlanket, hbefore]
  | false =>
    rw [isBlanket_synthesize_iff_of_not hblanket hbefore, LosesBlanket, and_iff_right hbefore]

/-- A marker with codes becomes blanket, with a note before the bracket that was behind it. -/
theorem synthesize_isBlanket_of_note :
    let existing : Text := "\t#type : ignore [b , a] [c]why".toList
    let r : LineRequest := { blanket := true, add := ["d".toList], remove := ["a".toList] }
    let style : CommentStyle := ⟨"FIX ME".toList, .plain⟩
    r.blanket = true ∧ synthesize existing r style = "\t# type: ignore  # FIX ME [c]why".toList ∧
      (TrailingComment.ofText (synthesize existing r style)).isBlanket = true := by
  intro existing r style
  exact ⟨rfl, by decide, (synthesize_isBlanket_iff existing r style rfl).2 (by decide)⟩

/-- With the note there already, the bracket is read as the codes of the new marker. -/
theorem synthesize_takes_bracket_as_codes :
    let existing : Text := "  # type: ignore[a] [b]  # FIX ME".toList
    let r : LineRequest := { blanket := true }
    let style : CommentStyle := ⟨"FIX ME".toList, .plain⟩
    IsComment existing ∧ synthesize existing r style = "  # type: ignore [b]  # FIX ME".toList ∧
      (TrailingComment.ofText (synthesize existing r style)).codes = ["b".toList] ∧
      (TrailingComment.ofText (synthesize existing r style)).isBlanket = false := by
  decide

end TypeIgnore
