import TypeIgnore.Proofs.Marker.Blanket
import TypeIgnore.Proofs.Marker.Union
import TypeIgnore.Proofs.Report.Reading

/-!
# Markers taken back

* `IsHandwritten t` — a comment of a person: set off from the code, and without a marker;
* `keptTail_eq_self` — such a comment stands behind a new marker to the letter;
* `stripFollowUp_followUpNote` — what is left of a marker's note and the text behind it is that text;
* `synthesize_of_removesMarker_added` — so whatever takes a new marker away restores the comment, and
  `synthesize_undoes_addition` — the wildcard does, and so do the codes themselves.
-/

namespace TypeIgnore

/-- A comment of a person: separators, `#`, and no marker. -/
structure IsHandwritten (t : Text) : Prop where
  separated : (TrailingComment.ofText t).separator ≠ []
  hash : (t.dropWhile isSeparator).head? = some '#'
  unmarked : (TrailingComment.ofText t).hasMarker = false

/-! ## A comment behind a new marker -/

section Kept

variable {t : Text}

theorem TrailingComment.remark_of_unmarked (h : (ofText t).hasMarker = false) :
    (ofText t).remark = .plain (t.dropWhile isSeparator) := by
  cases hremark : (ofText t).remark with
  | marker codes trailer => simp [hasMarker, hremark] at h
  | plain text => rw [plain_of_remark_ofText hremark]

theorem IsHandwritten.newSeparator_append (h : IsHandwritten t) :
    newSeparator (.ofText t) ++ t.dropWhile isSeparator = t := by
  have hseparator : newSeparator (.ofText t) = t.takeWhile isSeparator := if_neg (by simpa using h.separated)
  rw [hseparator, List.takeWhile_append_dropWhile]

theorem unmarked_of_handwritten (h : t = [] ∨ IsHandwritten t) : (TrailingComment.ofText t).hasMarker = false := by
  rcases h with rfl | h
  · rfl
  · exact h.unmarked

/-- A comment of a person is kept to the letter. -/
theorem keptTail_eq_self (h : t = [] ∨ IsHandwritten t) : keptTail (.ofText t) = t := by
  rcases h with rfl | h
  · rfl
  · obtain ⟨rest, hbody⟩ := List.head?_eq_some_iff.1 h.hash
    have hremark := TrailingComment.remark_of_unmarked h.unmarked
    have hkept : keptTail (.ofText t) = newSeparator (.ofText t) ++ t.dropWhile isSeparator := by
      rw [keptTail, hremark, hbody]
    rw [hkept, h.newSeparator_append]

/-- Blanks at its start are its separators. -/
theorem trimStart_of_handwritten (h : t = [] ∨ IsHandwritten t) : Text.trimStart t = t.dropWhile isSeparator := by
  rcases h with rfl | h
  · rfl
  · obtain ⟨rest, hbody⟩ := List.head?_eq_some_iff.1 h.hash
    have hblank : ∀ c ∈ t.takeWhile isSeparator, Text.isBlank c = true := fun c hc =>
      isBlank_of_isSeparator (TrailingComment.isSeparator_of_mem_separator c hc)
    have hstop : ∀ c ∈ ('#' :: rest).head?, Text.isBlank c = false := by
      rintro c ⟨⟩
      rfl
    calc Text.trimStart t = (t.takeWhile isSeparator ++ '#' :: rest).dropWhile Text.isBlank := by
          rw [← hbody, List.takeWhile_append_dropWhile, Text.trimStart]
      _ = '#' :: rest := Text.dropWhile_append_stop hblank hstop
      _ = t.dropWhile isSeparator := hbody.symm

theorem head?_of_handwritten (h : t = [] ∨ IsHandwritten t) : ∀ c ∈ t.head?, Text.isBlank c = true := by
  rcases h with rfl | h
  · rintro c ⟨⟩
  · intro c hc
    obtain ⟨x, rest, hseparator⟩ := List.exists_cons_of_ne_nil h.separated
    have hx : isSeparator x = true :=
      TrailingComment.isSeparator_of_mem_separator (t := t) x (hseparator ▸ List.mem_cons_self)
    have ht : t = x :: (rest ++ t.dropWhile isSeparator) := by
      rw [← List.cons_append, ← hseparator]
      exact List.takeWhile_append_dropWhile.symm
    rw [ht] at hc
    obtain rfl := Option.some.inj hc
    exact isBlank_of_isSeparator hx

end Kept

/-! ## The note behind a new marker -/

theorem stripFollowUp_nil (text : Text) : stripFollowUp text [] = text := rfl

/-- A note goes, if a blank or nothing stands behind it. -/
theorem stripFollowUp_append {followUp tail : Text} (hne : followUp ≠ []) (htrim : Text.trim followUp = followUp)
    (htail : ∀ c ∈ tail.head?, Text.isBlank c = true) :
    stripFollowUp ('#' :: ' ' :: (followUp ++ tail)) followUp = Text.trimStart tail := by
  obtain ⟨x, rest, rfl⟩ := List.exists_cons_of_ne_nil hne
  have hx : Text.isBlank x = false := (Text.trim_eq_self_iff.1 htrim).1 x rfl
  have hblank : Text.trimStart (' ' :: (x :: rest ++ tail)) = x :: rest ++ tail :=
    Text.trimStart_cons_of_not_blank hx _
  have hhash : ∀ u : Text, Text.after? "#" ('#' :: u) = some u := fun _ => rfl
  have hafter : Text.after? (x :: rest) (x :: rest ++ tail) = some tail := Text.after?_eq_some_iff.2 rfl
  unfold stripFollowUp
  rw [if_neg (by simp), hhash, Option.bind_some, hblank, hafter]
  cases tail with
  | nil => rfl
  | cons c tail => exact if_pos (htail c rfl)

/-- A marker's note goes with the marker, and the text behind it stays. -/
theorem stripFollowUp_followUpNote (style : CommentStyle) {tail : Text}
    (hnote : Text.trim style.followUp = [] ∨ ¬ ("# ".toList ++ Text.trim style.followUp) <:+: tail)
    (htail : ∀ c ∈ tail.head?, Text.isBlank c = true) :
    stripFollowUp (Text.trimStart (followUpNote style tail ++ tail)) (Text.trim style.followUp) =
      Text.trimStart tail := by
  by_cases hblank : Text.trim style.followUp = []
  · rw [followUpNote_eq_nil_iff.2 (.inl hblank), hblank, List.nil_append, stripFollowUp_nil]
  · have hnew : followUpNote style tail = "  # ".toList ++ Text.trim style.followUp := by
      refine if_neg ?_
      rw [Bool.or_eq_true, List.isEmpty_iff, Text.occursIn_iff]
      exact not_or.2 ⟨hblank, hnote.resolve_left hblank⟩
    have hstart : Text.trimStart (followUpNote style tail ++ tail) =
        '#' :: ' ' :: (Text.trim style.followUp ++ tail) := by
      rw [hnew]
      rfl
    rw [hstart, stripFollowUp_append hblank (Text.trim_trim _) htail]

/-! ## Adding and removing -/

section Added

variable {t : Text} {codes : CodeSet}

theorem MarkerState.granted_of_unmarked (h : (TrailingComment.ofText t).hasMarker = false) (hne : codes ≠ []) :
    granted t { add := codes } = ⟨.codes codes, codes, false⟩ := by
  rw [granted, ofText_eq_absent_iff.2 h]
  simp [drop, grant, hne]

theorem granted_ne_ofText_of_unmarked (h : (TrailingComment.ofText t).hasMarker = false) (hne : codes ≠ []) :
    (MarkerState.granted t { add := codes }).marker ≠ MarkerState.ofText t := by
  rw [MarkerState.granted_of_unmarked h hne, MarkerState.ofText_eq_absent_iff.2 h]
  simp

/-- What a new marker is read as: its codes, a note, and the comment that was there. -/
theorem remark_synthesize_added (style : CommentStyle) (hstyle : style.descriptions = .plain)
    (ht : t = [] ∨ IsHandwritten t) (hne : codes ≠ []) (hcodes : ∀ code ∈ codes, IsMarkerCode code) :
    (TrailingComment.ofText (synthesize t { add := codes } style)).remark =
      .marker codes (followUpNote style t ++ t) := by
  have hmarked := unmarked_of_handwritten ht
  have hgranted := MarkerState.granted_of_unmarked hmarked hne
  have hnotes : annotations { add := codes } style ⟨.codes codes, codes, false⟩ t = followUpNote style t := by
    simp [annotations_eq, newMessages, hstyle, hne]
  rw [TrailingComment.remark_synthesize style hcodes (granted_ne_ofText_of_unmarked hmarked hne) (by rw [hgranted]),
    hgranted, keptTail_eq_self ht, hnotes]

/-- **Whatever takes a new marker away restores the comment.** -/
theorem synthesize_of_removesMarker_added (style : CommentStyle) (hstyle : style.descriptions = .plain)
    (ht : t = [] ∨ IsHandwritten t) (hne : codes ≠ []) (hcodes : ∀ code ∈ codes, IsMarkerCode code)
    (hnote : Text.trim style.followUp = [] ∨ ¬ ("# ".toList ++ Text.trim style.followUp) <:+: t) {r : LineRequest}
    (hremoves : RemovesMarker (.ofText (synthesize t { add := codes } style)) r) :
    synthesize (synthesize t { add := codes } style) r style = t := by
  have hmarked := unmarked_of_handwritten ht
  have hremark := remark_synthesize_added style hstyle ht hne hcodes
  have hleft : leftover (.ofText (synthesize t { add := codes } style)) style = t.dropWhile isSeparator := by
    rw [leftover, TrailingComment.trailer, hremark, stripFollowUp_followUpNote style hnote (head?_of_handwritten ht),
      trimStart_of_handwritten ht]
  have hseparator : newSeparator (.ofText (synthesize t { add := codes } style)) = newSeparator (.ofText t) := by
    have hsep := separator_synthesize style (granted_ne_ofText_of_unmarked hmarked hne)
      (congrArg _ (MarkerState.granted_of_unmarked hmarked hne))
    obtain ⟨x, rest, hcons⟩ := exists_newSeparator_cons (.ofText t)
    rw [newSeparator, hsep, hcons]
    rfl
  obtain ⟨hchanges, habsent⟩ := removesMarker_iff.1 hremoves
  rw [synthesize_of_absent style hchanges habsent, hleft, hseparator]
  rcases ht with rfl | ht
  · rfl
  · have hbody : t.dropWhile isSeparator ≠ [] := by
      intro hnil
      have hhash := ht.hash
      rw [hnil] at hhash
      cases hhash
    rw [if_neg hbody, ht.newSeparator_append]

end Added

/-- **Removing a marker undoes adding it.** A comment of a person that does not hold the note gets a marker with the
codes, and is restored to the letter by the wildcard and by the removal of these codes. -/
theorem synthesize_undoes_addition (t : Text) (codes : CodeSet) (followUp : Text) (ht : t = [] ∨ IsHandwritten t)
    (hne : codes ≠ []) (hcodes : ∀ code ∈ codes, IsMarkerCode code)
    (hnote : Text.trim followUp = [] ∨ ¬ ("# ".toList ++ Text.trim followUp) <:+: t) :
    let style : CommentStyle := ⟨followUp, .plain⟩
    let added := synthesize t { add := codes } style
    (TrailingComment.ofText added).codes = codes ∧ synthesize added { remove := [wildcard] } style = t ∧
      synthesize added { remove := codes } style = t := by
  intro style added
  have hremark : (TrailingComment.ofText added).remark = _ := remark_synthesize_added style rfl ht hne hcodes
  have hmarker : (TrailingComment.ofText added).hasMarker = true := by
    rw [TrailingComment.hasMarker, hremark]
  have hread : (TrailingComment.ofText added).codes = codes := by
    rw [TrailingComment.codes, hremark]
  refine ⟨hread, ?_, ?_⟩
  · refine synthesize_of_removesMarker_added style rfl ht hne hcodes hnote ⟨hmarker, ⟨rfl, rfl⟩, .inl ?_⟩
    exact List.mem_singleton_self wildcard
  · refine synthesize_of_removesMarker_added style rfl ht hne hcodes hnote ⟨hmarker, ⟨rfl, rfl⟩, .inr ?_⟩
    rw [hread]
    exact ⟨hne, fun code hcode => hcode⟩

/-- The note starts with `#` itself, and the comment with a part of the note. -/
theorem synthesize_undoes_addition_of_hash :
    let t : Text := "\t # see #12 too".toList
    let codes : CodeSet := ["arg-type".toList, "c [d".toList]
    let style : CommentStyle := ⟨" # see #12 ".toList, .plain⟩
    let added := synthesize t { add := codes } style
    IsHandwritten t ∧ (∀ code ∈ codes, IsMarkerCode code) ∧
      added = "\t # type: ignore[arg-type, c [d]  # # see #12\t # see #12 too".toList ∧
      synthesize added { remove := [wildcard] } style = t ∧ synthesize added { remove := codes } style = t := by
  intro t codes style added
  have ht : IsHandwritten t := ⟨by decide, by decide, by decide⟩
  have hcodes : ∀ code ∈ codes, IsMarkerCode code := by
    intro code hcode
    rcases List.mem_pair.1 hcode with rfl | rfl
    · exact ⟨by decide, by decide, by decide, by decide, by decide⟩
    · exact ⟨by decide, by decide, by decide, by decide, by decide⟩
  obtain ⟨-, hwildcard, hsame⟩ := synthesize_undoes_addition t codes style.followUp (.inr ht) (by decide) hcodes
    (.inr (by decide))
  exact ⟨ht, hcodes, by decide, hwildcard, hsame⟩

end TypeIgnore
