import TypeIgnore.Proofs.Report.Codes

/-!
# What diagnostics ask for

* `mem_quotedCodes` — a code that a message quotes can stand in a marker, and is made of quotable characters;
* `LineRequest.Readable` — the codes to add are a set of codes that can stand in a marker; kept by every diagnostic of a
  report (`LineRequest.Readable.push`), hence what they ask for (`LineRequest.readable_ofDiagnostics`).
-/

namespace TypeIgnore

/-! ## Quoted codes -/

theorem exists_of_mem_getD_map {α β : Type} {f : α → List β} {o : Option α} {b : β} (h : b ∈ (o.map f).getD []) :
    ∃ a, o = some a ∧ b ∈ f a := by
  cases o with
  | none => cases h
  | some a => exact ⟨a, rfl, h⟩

/-- Codes are quoted in characters of their own, and none of these closes a bracket or starts a comment. -/
theorem mem_quotedAt {t code : Text} (h : code ∈ quotedAt t) :
    IsMarkerCode code ∧ ∀ c ∈ code, isQuotedChar c = true := by
  obtain ⟨inside, hinside, hcode⟩ := exists_of_mem_getD_map h
  obtain ⟨words, -, hwords⟩ := Option.bind_eq_some_iff.1 hinside
  obtain ⟨rest, -, hrest⟩ := Option.bind_eq_some_iff.1 hwords
  obtain ⟨after, -, hafter⟩ := Option.bind_eq_some_iff.1 hrest
  have hquoted : ∀ c ∈ inside, isQuotedChar c = true := by
    intro c hc
    cases hafter
    exact List.all_eq_true.1 List.all_takeWhile c hc
  have hplain : ∀ c ∈ inside, c ≠ ']' ∧ c ≠ '#' := by
    intro c hc
    have hchar := hquoted c hc
    constructor <;> rintro rfl <;> revert hchar <;> decide
  obtain ⟨hmarker, hsub⟩ := isMarkerCode_of_mem_commaList hplain hcode
  exact ⟨hmarker, fun c hc => hquoted c (hsub c hc)⟩

theorem mem_quotedCodes {t code : Text} (h : code ∈ quotedCodes t) :
    IsMarkerCode code ∧ ∀ c ∈ code, isQuotedChar c = true := by
  induction t with
  | nil => cases h
  | cons c t ih =>
    unfold quotedCodes at h
    split at h
    · exact ih h
    · exact mem_quotedAt h

namespace LineRequest

/-! ## Codes that can be read back -/

/-- The codes to add are a set as it is kept, of codes that can stand in a marker. -/
structure Readable (r : LineRequest) : Prop where
  sorted : CodeSet.Sorted r.add
  codes : ∀ code ∈ r.add, IsMarkerCode code

namespace Readable

variable {r : LineRequest}

theorem describe (h : r.Readable) (code : Option Text) (message : Text) : (r.describe code message).Readable := by
  obtain ⟨descriptions, hdescribe, -⟩ := exists_describe_eq r code message
  rw [hdescribe]
  exact ⟨h.sorted, h.codes⟩

/-- One more diagnostic. -/
theorem push (h : r.Readable) {d : Diagnostic} (hd : d.WellCoded) : (r.push d).Readable := by
  unfold LineRequest.push
  split
  · have hblanket : Readable { r with blanket := true } := ⟨h.sorted, h.codes⟩
    exact hblanket.describe none d.message
  rename_i code hcode
  split
  · split <;> exact ⟨h.sorted, h.codes⟩
  split
  · refine ⟨h.sorted.insertAll _, ?_⟩
    intro x hx
    rcases CodeSet.mem_insertAll.1 hx with hx | hx
    · exact (mem_quotedCodes hx).1
    · exact h.codes x hx
  · have hadded : Readable { r with add := r.add.insert code } := by
      refine ⟨h.sorted.insert code, ?_⟩
      intro x hx
      rcases CodeSet.mem_insert.1 hx with rfl | hx
      · exact (hd x hcode).isMarkerCode
      · exact h.codes x hx
    exact hadded.describe (some code) d.message

end Readable

theorem readable_ofDiagnostics {ds : List Diagnostic} (h : ∀ d ∈ ds, d.WellCoded) : (ofDiagnostics ds).Readable := by
  induction ds using List.reverseRecOn with
  | nil => exact ⟨.nil, by simp [ofDiagnostics]⟩
  | append_singleton ds d ih =>
    rw [ofDiagnostics_append_singleton]
    exact (ih fun x hx => h x (List.mem_append_left _ hx)).push (h d (by simp))

end LineRequest

/-- An error in the first line of a file. -/
def Diagnostic.onFirstLine (code message : Text) : Diagnostic where
  path := ⟨"m.py"⟩
  line := 1
  code := some code
  message := message

end TypeIgnore
