import TypeIgnore.Report.Basic
import TypeIgnore.Proofs.Marker.Coverage

/-!
# The codes of a report

* `isReportCode_of_splitCode` — what is cut from the end of a message is a code;
* `Diagnostic.WellCoded` — a diagnostic has such a code or none;
* `wellCoded_gather` — notes change no code, so that it stays so through gathering;
* `Report.wellCoded_ofText` — hence it is so for every diagnostic of every report.
-/

namespace TypeIgnore

theorem isReportCode_of_splitCode {message text code : Text} (h : splitCode message = (text, some code)) :
    IsReportCode code := by
  unfold splitCode at h
  simp only at h
  split at h
  · rename_i hform
    simp only [Bool.and_eq_true] at hform
    cases h
    exact ⟨hform.1.2, List.all_eq_true.2 (Text.mem_spanEnd_snd isCodeChar)⟩
  · cases h

/-- The diagnostic has a code as reports have it, or none. -/
def Diagnostic.WellCoded (d : Diagnostic) : Prop := ∀ code, d.code = some code → IsReportCode code

theorem Diagnostic.WellCoded.extend {d : Diagnostic} (h : d.WellCoded) (text : Text) : (d.extend text).WellCoded := h

/-! ## Entries -/

theorem Entry.wellCoded_diagnostic (raw : RawEntry) (line : Nat) : (Entry.diagnostic raw line).WellCoded := by
  intro code hcode
  unfold Entry.diagnostic at hcode
  simp only at hcode
  split at hcode
  · rename_i code' hsplit
    obtain rfl : code' = code := by simpa [Diagnostic.withCode] using hcode
    exact isReportCode_of_splitCode (Prod.ext rfl hsplit)
  · split at hcode <;> cases hcode

theorem Entry.wellCoded_ofText? {t : Text} {d : Diagnostic} (h : Entry.ofText? t = some (.error d)) : d.WellCoded := by
  obtain ⟨raw, -, hraw⟩ := Option.bind_eq_some_iff.1 h
  obtain ⟨line, -, hline⟩ := Option.bind_eq_some_iff.1 hraw
  split at hline
  · cases hline
    exact wellCoded_diagnostic raw line
  · cases hline

/-! ## Reports -/

/-- Gathering keeps the codes of errors. -/
theorem wellCoded_gather {current : Option Diagnostic} {items : List Item} (hcurrent : ∀ d ∈ current, d.WellCoded)
    (hitems : ∀ d, Item.entry (.error d) ∈ items → d.WellCoded) : ∀ d ∈ gather current items, d.WellCoded := by
  induction items generalizing current with
  | nil => simpa [gather] using hcurrent
  | cons item items ih =>
    have hrest : ∀ d, Item.entry (.error d) ∈ items → d.WellCoded := fun d hd => hitems d (List.mem_cons_of_mem _ hd)
    have hkept : ∀ d ∈ current.toList, d.WellCoded := fun d hd => hcurrent d (Option.mem_toList.1 hd)
    rcases item with (e | ⟨path, line, text⟩) | looks
    · have hnext : ∀ d ∈ some e, d.WellCoded := by
        rintro d ⟨⟩
        exact hitems e List.mem_cons_self
      exact List.forall_mem_append.2 ⟨hkept, ih hnext hrest⟩
    · refine ih ?_ hrest
      intro d hd
      obtain ⟨d₀, hd₀, rfl⟩ := Option.map_eq_some_iff.1 hd
      split
      · exact (hcurrent d₀ hd₀).extend text
      · exact hcurrent d₀ hd₀
    · exact List.forall_mem_append.2 ⟨hkept, ih (by simp) hrest⟩

theorem mem_of_mem_firstOfKey {d : Diagnostic} {ds : List Diagnostic} (h : d ∈ firstOfKey ds) : d ∈ ds := by
  induction ds with
  | nil => cases h
  | cons first ds ih =>
    rcases List.mem_cons.1 h with rfl | h
    · exact List.mem_cons_self
    · exact List.mem_cons_of_mem _ (ih (List.mem_filter.1 h).1)

/-- **Every diagnostic of a report has a code or none.** -/
theorem Report.wellCoded_ofText (text : Text) : ∀ d ∈ (Report.ofText text).diagnostics, d.WellCoded := by
  intro d hd
  have hfirst : d ∈ firstOfKey (gather none (items text)) := (List.mergeSort_perm _ _).mem_iff.1 hd
  refine wellCoded_gather (by simp) ?_ d (mem_of_mem_firstOfKey hfirst)
  intro e he
  obtain ⟨line, -, hline⟩ := List.mem_map.1 he
  unfold Item.ofLine at hline
  split at hline
  · rename_i entry hentry
    cases hline
    exact Entry.wellCoded_ofText? hentry
  · cases hline

end TypeIgnore
