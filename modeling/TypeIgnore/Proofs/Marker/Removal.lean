import TypeIgnore.Proofs.Marker.Synthesis

/-!
# What a removed marker leaves behind

* `RemovesMarker c r` — the request takes the marker of the comment away and puts none in its place;
* `removesMarker_iff` — in terms of the markers before and after;
* `isComment_iff_of_removesMarker`, `isComment_of_not_removesMarker` — a new comment is nothing or a comment, unless a
  removed marker leaves a text that no `#` starts: such a text would become code.
-/

namespace TypeIgnore

/-- The request takes the marker of the comment away and puts none in its place. -/
def RemovesMarker (c : TrailingComment) (r : LineRequest) : Prop :=
  c.hasMarker = true ∧ (r.blanket = false ∧ r.add = []) ∧
    (wildcard ∈ r.remove ∨ c.codes ≠ [] ∧ ∀ code ∈ c.codes, code ∈ r.remove)

instance (c : TrailingComment) (r : LineRequest) : Decidable (RemovesMarker c r) :=
  inferInstanceAs (Decidable (_ ∧ _ ∧ _))

namespace MarkerState

theorem drop_eq_absent_iff {m : MarkerState} {remove : CodeSet} :
    m.drop remove = .absent ↔ m = .absent ∨ wildcard ∈ remove ∨ ∃ s, m = .codes s ∧ ∀ code ∈ s, code ∈ remove := by
  cases m with
  | absent => simp [drop]
  | blanket => by_cases h : wildcard ∈ remove <;> simp [drop, h]
  | codes s =>
    by_cases h : wildcard ∈ remove
    · simp [drop, h]
    · have hfilter : s.filter (!remove.contains ·) = [] ↔ ∀ code ∈ s, code ∈ remove := by
        simp [List.filter_eq_nil_iff]
      simp only [drop, List.contains_iff_mem, h, if_false, reduceCtorEq, codes.injEq, exists_eq_left', false_or,
        ← hfilter]
      split <;> simp_all

theorem grant_eq_absent_iff {m : MarkerState} {r : LineRequest} :
    (m.grant r).marker = .absent ↔ (r.blanket = false ∧ r.add = []) ∧ m = .absent := by
  unfold grant
  by_cases hblanket : r.blanket = true
  · simp [hblanket]
  · by_cases hadd : r.add = []
    · simp [hblanket, hadd]
    · cases m <;> simp [hblanket, hadd]

/-- A marker with codes, all of which satisfy `P`. -/
theorem forall_codes_iff {t : Text} {P : Text → Prop} :
    ((TrailingComment.ofText t).codes ≠ [] ∧ ∀ code ∈ (TrailingComment.ofText t).codes, P code) ↔
      ∃ s, ofText t = .codes s ∧ ∀ code ∈ s, P code := by
  cases hremark : (TrailingComment.ofText t).remark with
  | plain text => simp [ofText, ofComment, TrailingComment.codes, hremark]
  | marker codes trailer =>
    cases codes with
    | nil => simp [ofText, ofComment, TrailingComment.codes, hremark]
    | cons code codes => simp [ofText, ofComment, TrailingComment.codes, hremark]

end MarkerState

theorem removesMarker_iff {existing : Text} {r : LineRequest} :
    RemovesMarker (.ofText existing) r ↔
      (MarkerState.granted existing r).marker ≠ MarkerState.ofText existing ∧
        (MarkerState.granted existing r).marker = .absent := by
  have hgranted : (MarkerState.granted existing r).marker = .absent ↔ _ :=
    MarkerState.grant_eq_absent_iff.trans (and_congr_right fun _ => MarkerState.drop_eq_absent_iff)
  have hmarker : (TrailingComment.ofText existing).hasMarker = true ↔ MarkerState.ofText existing ≠ .absent := by
    rw [ne_eq, MarkerState.ofText_eq_absent_iff, Bool.not_eq_false]
  rw [RemovesMarker, hmarker, MarkerState.forall_codes_iff]
  constructor
  · rintro ⟨hpresent, hadds, hremoves⟩
    have habsent := hgranted.2 ⟨hadds, .inr hremoves⟩
    exact ⟨fun hsame => hpresent (hsame ▸ habsent), habsent⟩
  · rintro ⟨hne, habsent⟩
    obtain ⟨hadds, hdrop⟩ := hgranted.1 habsent
    have hpresent : MarkerState.ofText existing ≠ .absent := fun h => hne (habsent.trans h.symm)
    exact ⟨hpresent, hadds, hdrop.resolve_left hpresent⟩

/-! ## The text that is left -/

theorem stripFollowUp_head {t followUp : Text} {c : Char} {rest : Text}
    (h : stripFollowUp (Text.trimStart t) followUp = c :: rest) : Text.isBlank c = false := by
  unfold stripFollowUp at h
  split at h
  · exact Text.trimStart_head h
  split at h
  · exact Text.trimStart_head h
  · cases h
  · split at h
    · exact Text.trimStart_head h
    · exact Text.trimStart_head h

theorem not_isSeparator_of_leftover {c : TrailingComment} {style : CommentStyle} {x : Char} {rest : Text}
    (h : leftover c style = x :: rest) : isSeparator x = false := by
  by_contra hsep
  have hblank := isBlank_of_isSeparator (by simpa using hsep)
  rw [stripFollowUp_head h] at hblank
  cases hblank

theorem dropWhile_leftover (c : TrailingComment) (style : CommentStyle) :
    (leftover c style).dropWhile isSeparator = leftover c style := by
  cases hleft : leftover c style with
  | nil => rfl
  | cons x rest => exact List.dropWhile_cons_of_neg (by simp [not_isSeparator_of_leftover hleft])

/-- A comment without its marker is, separator apart, what the marker leaves behind. -/
theorem dropWhile_synthesize_of_removesMarker {existing : Text} {r : LineRequest} (style : CommentStyle)
    (hremoves : RemovesMarker (.ofText existing) r) :
    (synthesize existing r style).dropWhile isSeparator = leftover (.ofText existing) style := by
  obtain ⟨hne, habsent⟩ := removesMarker_iff.1 hremoves
  rw [synthesize_of_absent style hne habsent]
  split
  · rename_i hnil
    rw [hnil]
    rfl
  · rw [List.dropWhile_append_of_pos (isSeparator_of_mem_newSeparator existing), dropWhile_leftover]

/-! ## Comments stay comments -/

section Synthesize

variable {existing : Text} {r : LineRequest} {style : CommentStyle}

/-- A removed marker leaves nothing or a comment exactly where no text without `#` is left. -/
theorem isComment_iff_of_removesMarker (hremoves : RemovesMarker (.ofText existing) r)
    (hfree : BreakFree (synthesize existing r style)) :
    (synthesize existing r style = [] ∨ IsComment (synthesize existing r style)) ↔
      ¬ ∃ c rest, leftover (.ofText existing) style = c :: rest ∧ c ≠ '#' := by
  obtain ⟨hne, habsent⟩ := removesMarker_iff.1 hremoves
  have hbody := dropWhile_synthesize_of_removesMarker style hremoves
  cases hleft : leftover (.ofText existing) style with
  | nil => simp [synthesize_of_absent style hne habsent, hleft]
  | cons x rest =>
    rw [hleft] at hbody
    constructor
    · rintro (hnil | hcomment) ⟨c, rest', hcons, hc⟩
      · simp [hnil] at hbody
      · cases hcons
        have hhash := hcomment.1
        rw [hbody] at hhash
        exact hc (Option.some.inj hhash)
    · intro hno
      have hx : x = '#' := by
        by_contra hx
        exact hno ⟨x, rest, rfl, hx⟩
      refine .inr ⟨?_, hfree⟩
      rw [hbody, hx]
      rfl

/-- Without a removal the comment stays, or it gets a marker. -/
theorem isComment_of_not_removesMarker (hkeeps : ¬ RemovesMarker (.ofText existing) r)
    (hexisting : existing = [] ∨ IsComment existing) (hfree : BreakFree (synthesize existing r style)) :
    synthesize existing r style = [] ∨ IsComment (synthesize existing r style) := by
  by_cases habsent : (MarkerState.granted existing r).marker = .absent
  · have hsame : (MarkerState.granted existing r).marker = MarkerState.ofText existing := by
      by_contra hne
      exact hkeeps (removesMarker_iff.2 ⟨hne, habsent⟩)
    rw [synthesize_of_same hsame]
    exact hexisting
  · exact .inr ⟨head?_dropWhile_synthesize habsent (hexisting.imp_right And.left), hfree⟩

end Synthesize

/-- **When a new comment is nothing or a comment.** It always stays on one line; it becomes code exactly where the
request removes the marker and the text after it, less the note, starts with something else than `#`. -/
theorem synthesize_isComment_iff (existing : Text) (r : LineRequest) (style : CommentStyle)
    (hexisting : existing = [] ∨ IsComment existing) (hadd : ∀ code ∈ r.add, BreakFree code)
    (hmessages : ∀ d ∈ r.descriptions, BreakFree d.message) (hfollowUp : BreakFree style.followUp) :
    BreakFree (synthesize existing r style) ∧
      ((synthesize existing r style = [] ∨ IsComment (synthesize existing r style)) ↔
        ¬ (RemovesMarker (.ofText existing) r ∧
          ∃ c rest, leftover (.ofText existing) style = c :: rest ∧ c ≠ '#')) := by
  have hfree := breakFree_synthesize (breakFree_of_isComment hexisting) hadd hmessages hfollowUp
  refine ⟨hfree, ?_⟩
  by_cases hremoves : RemovesMarker (.ofText existing) r
  · rw [isComment_iff_of_removesMarker hremoves hfree, and_iff_right hremoves]
  · have hcomment := isComment_of_not_removesMarker hremoves hexisting hfree
    exact ⟨fun _ h => hremoves h.1, fun _ => hcomment⟩

/-- A marker goes with its note, and the remark behind them stays. -/
theorem synthesize_isComment_of_note :
    let existing : Text := "\t#type:ignore [b , a]  # FIX ME\t# why".toList
    let r : LineRequest := { remove := ["a".toList, "b".toList] }
    let style : CommentStyle := ⟨"FIX ME".toList, .plain⟩
    BreakFree (synthesize existing r style) ∧
      (synthesize existing r style = [] ∨ IsComment (synthesize existing r style)) := by
  intro existing r style
  obtain ⟨hfree, hiff⟩ :=
    synthesize_isComment_iff existing r style (.inr (by decide)) (by decide) (by decide) (by decide)
  have hleft : leftover (.ofText existing) style = "# why".toList := by decide
  refine ⟨hfree, hiff.2 ?_⟩
  rintro ⟨-, c, rest, hcons, hc⟩
  rw [hleft] at hcons
  cases hcons
  exact hc rfl

/-- A text right after the marker, with no `#` of its own, is left as code. -/
theorem synthesize_exposes_text :
    let existing : Text := "  # type: ignore was: int".toList
    let r : LineRequest := { remove := [wildcard] }
    let style : CommentStyle := ⟨"FIX ME".toList, .plain⟩
    IsComment existing ∧ synthesize existing r style = "  was: int".toList ∧
      ¬ (synthesize existing r style = [] ∨ IsComment (synthesize existing r style)) := by
  decide

end TypeIgnore
