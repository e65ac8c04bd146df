import TypeIgnore.Marker.Comment
import TypeIgnore.Proofs.Marker.Codes

/-!
# Markers written and read

* `marker?_eq_some` — what a marker that is read consists of: codes, and an ending of the text where a marker may
  end;
* `marker?_written` — a marker with codes is read back, whatever follows it there;
* `TrailingComment.remark_ofText_congr` — the separator has no part in what a comment says;
* `TrailingComment.codes_ofText`, `TrailingComment.trailer_ofText` — the codes and the trailer of a comment.
-/

namespace TypeIgnore

/-! ## Reading -/

theorem suffix_of_after? {lead t rest : Text} (h : Text.after? lead t = some rest) : rest <:+ t := by
  rw [Text.after?_eq_some_iff.1 h]
  exact List.suffix_append lead rest

theorem suffix_of_after?_trimStart {lead t rest : Text} (h : Text.after? lead (Text.trimStart t) = some rest) :
    rest <:+ t :=
  (suffix_of_after? h).trans (List.dropWhile_suffix _)

theorem suffix_of_afterWords? {words : List Text} {t rest : Text} (h : afterWords? words t = some rest) :
    rest <:+ t := by
  induction words generalizing t with
  | nil =>
    cases h
    exact List.suffix_rfl
  | cons w words ih =>
    obtain ⟨u, hu, hrest⟩ := Option.bind_eq_some_iff.1 h
    exact (ih hrest).trans (suffix_of_after?_trimStart hu)

theorem bracket?_eq_some {t inside rest : Text} (h : bracket? t = some (inside, rest)) :
    (∀ c ∈ inside, (c ≠ ']' ∧ c ≠ '#') ∧ c ∈ t) ∧ rest <:+ t := by
  obtain ⟨u, hu, h⟩ := Option.bind_eq_some_iff.1 h
  obtain ⟨v, hv, h⟩ := Option.bind_eq_some_iff.1 h
  have hu := suffix_of_after?_trimStart hu
  have hv := (suffix_of_after? hv).trans ((List.dropWhile_suffix _).trans hu)
  obtain ⟨rfl, rfl⟩ := Prod.mk.inj (Option.some.inj h)
  refine ⟨?_, hv⟩
  intro c hc
  have hinside := List.all_eq_true.1 List.all_takeWhile c hc
  exact ⟨by simpa using hinside, hu.mem ((List.takeWhile_sublist _).mem hc)⟩

/-- A marker that is read: its codes are codes of characters of the text, and the text after it is an ending of
the text, where a marker may end. -/
theorem marker?_eq_some {t trailer : Text} {codes : List Text} (h : marker? t = some (codes, trailer)) :
    (∀ code ∈ codes, IsMarkerCode code ∧ ∀ c ∈ code, c ∈ t) ∧ endsMarker trailer = true ∧ trailer <:+ t := by
  obtain ⟨rest, hrest, h⟩ := Option.bind_eq_some_iff.1 h
  obtain ⟨u, hu, hwords⟩ := Option.bind_eq_some_iff.1 hrest
  have hrest : rest <:+ t := (suffix_of_afterWords? hwords).trans (suffix_of_after? hu)
  cases hbracket : bracket? rest with
  | none =>
    simp only [hbracket, Option.getD_none] at h
    split at h <;> cases h
    exact ⟨by simp [Text.commaList, Text.splitOn, Text.trim, Text.trimStart, Text.trimEnd, Text.spanEnd],
      by assumption, hrest⟩
  | some result =>
    obtain ⟨inside, after⟩ := result
    obtain ⟨hinside, hafter⟩ := bracket?_eq_some hbracket
    simp only [hbracket, Option.getD_some] at h
    split at h <;> cases h
    refine ⟨?_, by assumption, hafter.trans hrest⟩
    intro code hcode
    obtain ⟨hmarker, hsub⟩ := isMarkerCode_of_mem_commaList (fun c hc => (hinside c hc).1) hcode
    exact ⟨hmarker, fun c hc => hrest.mem (hinside c (hsub c hc)).2⟩

/-! ## Writing -/

theorem bracket?_written {inside : Text} (h : ∀ c ∈ inside, c ≠ ']' ∧ c ≠ '#') (rest : Text) :
    bracket? ('[' :: inside ++ ']' :: rest) = some (inside, rest) := by
  have hinside : ∀ c ∈ inside, (c != ']' && c != '#') = true := fun c hc => by simpa using h c hc
  have htake : (inside ++ ']' :: rest).takeWhile (fun c => c != ']' && c != '#') = inside := by
    rw [List.takeWhile_append_of_pos hinside]
    simp
  have hdrop : (inside ++ ']' :: rest).dropWhile (fun c => c != ']' && c != '#') = ']' :: rest := by
    rw [List.dropWhile_append_of_pos hinside]
    simp
  have hafter : Text.after? "[" (Text.trimStart ('[' :: (inside ++ ']' :: rest))) = some (inside ++ ']' :: rest) := rfl
  have hclose : Text.after? "]" (']' :: rest) = some rest := rfl
  simp only [bracket?, List.cons_append, hafter, bind, Option.bind, htake, hdrop, hclose]
  rfl

/-- A marker with codes is read back. -/
theorem marker?_written {codes : List Text} (h : ∀ code ∈ codes, IsMarkerCode code) {rest : Text}
    (hrest : endsMarker rest = true) :
    marker? (markerText ++ "[" ++ Text.joinWith ", " codes ++ "]" ++ rest) = some (codes, rest) := by
  have hcomma : ∀ c ∈ ", ".toList, c ≠ ']' ∧ c ≠ '#' := by simp
  have hinside : ∀ c ∈ Text.joinWith ", " codes, c ≠ ']' ∧ c ≠ '#' := by
    intro c hc
    rcases Text.mem_joinWith hc with hc | ⟨code, hcode, hc⟩
    · exact hcomma c hc
    · exact ⟨fun heq => (h code hcode).no_bracket (heq ▸ hc), fun heq => (h code hcode).no_hash (heq ▸ hc)⟩
  have htext : markerText ++ "[" ++ Text.joinWith ", " codes ++ "]" ++ rest =
      markerText ++ ('[' :: Text.joinWith ", " codes ++ ']' :: rest) := by simp
  have hwords : ∀ u : Text, (Text.after? "#" (markerText ++ u)).bind (afterWords? markerWords) = some u := fun _ => rfl
  rw [htext, marker?, hwords]
  simp only [bind, Option.bind, bracket?_written hinside rest, Option.getD_some, hrest, if_true,
    commaList_joinWith h]

/-! ## Comments -/

namespace TrailingComment

/-- The separator has no part in what a comment says. -/
theorem remark_ofText_congr {t u : Text} (h : t.dropWhile isSeparator = u.dropWhile isSeparator) :
    (ofText t).remark = (ofText u).remark := by
  simp only [ofText, h]

theorem remark_ofText_of_marker {t : Text} {codes : List Text} {trailer : Text}
    (h : marker? (t.dropWhile isSeparator) = some (codes, trailer)) : (ofText t).remark = .marker codes trailer := by
  simp only [ofText, h]

theorem marker?_of_remark_ofText {t : Text} {codes : List Text} {trailer : Text}
    (h : (ofText t).remark = .marker codes trailer) : marker? (t.dropWhile isSeparator) = some (codes, trailer) := by
  simp only [ofText] at h
  split at h
  · rename_i hmarker
    cases h
    exact hmarker
  · cases h

theorem plain_of_remark_ofText {t text : Text} (h : (ofText t).remark = .plain text) :
    text = t.dropWhile isSeparator := by
  simp only [ofText] at h
  split at h <;> cases h
  rfl

theorem isSeparator_of_mem_separator {t : Text} : ∀ c ∈ (ofText t).separator, isSeparator c = true :=
  List.all_eq_true.1 List.all_takeWhile

end TrailingComment

end TypeIgnore
