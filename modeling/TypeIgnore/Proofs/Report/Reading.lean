import TypeIgnore.Report.Basic
import TypeIgnore.Proofs.Text.Utf8
import Mathlib.Data.List.Infix

/-!
# What a report says

The diagnostics of a report, said line by line.

* `Diagnostic.InOrder` — the order of the diagnostics: by path, by line, and then by their places in the report;
  sorting keeps the last (`pairwise_inOrder_mergeSort`);
* `notesFor`, `Diagnostic.withNotes` — the notes about an error, and the error with them;
* `readings` — the errors of a report with their notes, in the order of the lines; `gather` finds them
  (`gather_map_ofLine`);
* `Report.IsReading` — what a report has to say about its lines, and `Report.isReading_ofText` — it does.
-/

namespace TypeIgnore

/-! ## Order -/

namespace Diagnostic

variable {d e f : Diagnostic}

theorem le_iff : d.le e = true ↔ d.path.text < e.path.text ∨ d.path = e.path ∧ d.line ≤ e.line := by
  have hpath : d.path.le e.path = true ↔ ¬ e.path.text < d.path.text := by simp [ReportPath.le, Text.le]
  unfold le
  split
  · rename_i h
    rw [decide_eq_true_iff]
    refine ⟨fun hle => .inr ⟨h, hle⟩, ?_⟩
    rintro (hlt | ⟨-, hle⟩)
    · rw [h] at hlt
      exact absurd hlt (List.lt_irrefl _)
    · exact hle
  · rename_i h
    rw [hpath]
    constructor
    · intro hnot
      by_contra hboth
      -- neither text is before the other
      have htext : d.path.text = e.path.text :=
        List.le_antisymm (List.not_lt.1 hnot) (List.not_lt.1 fun hlt => hboth (.inl hlt))
      exact h (congrArg ReportPath.mk htext)
    · rintro (hlt | ⟨heq, -⟩)
      · exact fun hgt => List.lt_irrefl _ (List.lt_trans hlt hgt)
      · exact absurd heq h

theorem le_trans (hde : d.le e = true) (hef : e.le f = true) : d.le f = true := by
  rw [le_iff] at *
  rcases hde with hde | ⟨hde, hline⟩
  · rcases hef with hef | ⟨hef, -⟩
    · exact .inl (List.lt_trans hde hef)
    · exact .inl (hef ▸ hde)
  · rw [hde]
    rcases hef with hef | ⟨hef, hline'⟩
    · exact .inl hef
    · exact .inr ⟨hef, hline.trans hline'⟩

theorem le_total (d e : Diagnostic) : (d.le e || e.le d) = true := by
  rw [Bool.or_eq_true]
  unfold le
  by_cases h : d.path = e.path
  · simp only [h, if_true, decide_eq_true_eq]
    exact Nat.le_total _ _
  · have h' : e.path ≠ d.path := fun heq => h heq.symm
    simp only [h, h', if_false, ReportPath.le, Text.le, Bool.not_eq_true', decide_eq_false_iff_not]
    by_contra hboth
    rw [not_or, not_not, not_not] at hboth
    exact List.lt_irrefl _ (List.lt_trans hboth.1 hboth.2)

/-- By the bytes of the path, by line, and where both are the same by place. -/
def InOrder (place : Diagnostic → Nat) (d e : Diagnostic) : Prop :=
  Utf8.encode d.path.text < Utf8.encode e.path.text ∨
    d.path = e.path ∧ (d.line < e.line ∨ d.line = e.line ∧ place d < place e)

end Diagnostic

section Sorting

variable {α : Type} {le : α → α → Bool}

/-- What a sort does not order stays as it is ordered. -/
theorem pairwise_mergeSort_stable (trans : ∀ a b c, le a b = true → le b c = true → le a c = true)
    (total : ∀ a b, (le a b || le b a) = true) {R : α → α → Prop} {l : List α} (h : l.Pairwise R) :
    (l.mergeSort le).Pairwise fun a b => le b a = true → R a b := by
  induction l with
  | nil => simp
  | cons a l ih =>
    obtain ⟨ha, hl⟩ := List.pairwise_cons.1 h
    obtain ⟨front, back, hsort, hrest, hfront⟩ := List.mergeSort_cons trans total a l
    have hkept := ih hl
    rw [hrest, List.pairwise_append] at hkept
    have hmem : ∀ b ∈ back, b ∈ l := by
      intro b hb
      have : b ∈ l.mergeSort le := hrest ▸ List.mem_append_right front hb
      exact List.mem_mergeSort.1 this
    rw [hsort, List.pairwise_append]
    refine ⟨hkept.1, List.pairwise_cons.2 ⟨fun b hb _ => ha b (hmem b hb), hkept.2.1⟩, ?_⟩
    intro b hb c hc
    rcases List.mem_cons.1 hc with rfl | hc
    · intro hle
      have hnot := hfront b hb
      rw [hle] at hnot
      cases hnot
    · exact hkept.2.2 b hb c hc

end Sorting

theorem pairwise_inOrder_mergeSort {place : Diagnostic → Nat} {ds : List Diagnostic}
    (h : ds.Pairwise fun d e => place d < place e) :
    (ds.mergeSort Diagnostic.le).Pairwise (Diagnostic.InOrder place) := by
  have trans : ∀ d e f : Diagnostic, d.le e = true → e.le f = true → d.le f = true := fun _ _ _ => Diagnostic.le_trans
  have hsorted := List.pairwise_mergeSort trans Diagnostic.le_total ds
  have hstable := pairwise_mergeSort_stable trans Diagnostic.le_total h
  refine (hsorted.and hstable).imp ?_
  rintro d e ⟨hle, hplace⟩
  rcases Diagnostic.le_iff.1 hle with hlt | ⟨hpath, hline⟩
  · exact .inl (Utf8.encode_lt_encode hlt)
  · rcases Nat.lt_or_eq_of_le hline with hlt | heq
    · exact .inr ⟨hpath, .inl hlt⟩
    · have hback : e.le d = true := Diagnostic.le_iff.2 (.inr ⟨hpath.symm, heq.ge⟩)
      exact .inr ⟨hpath, .inr ⟨heq, hplace hback⟩⟩

/-! ## Notes -/

/-- The line is a note. -/
def isNoteLine (line : Text) : Bool :=
  match Entry.ofText? line with
  | some (.note _ _ _) => true
  | _ => false

/-- The text of the note about the place of `d` that the line is. -/
def noteFor? (d : Diagnostic) (line : Text) : Option Text :=
  match Entry.ofText? line with
  | some (.note path number text) => if path = d.path ∧ number = d.line then some text else none
  | _ => none

/-- The notes about the place of `d` in the lines after it, up to the first line that is no note. -/
def notesFor (d : Diagnostic) (after : List Text) : List Text := (after.takeWhile isNoteLine).filterMap (noteFor? d)

/-- The message with each of the notes behind `; `. -/
def Diagnostic.withNotes (d : Diagnostic) (notes : List Text) : Diagnostic :=
  { d with message := d.message ++ notes.flatMap fun note => "; ".toList ++ note }

@[simp] theorem Diagnostic.withNotes_nil (d : Diagnostic) : d.withNotes [] = d := by
  simp [withNotes]

@[simp] theorem Diagnostic.key_withNotes (d : Diagnostic) (notes : List Text) : (d.withNotes notes).key = d.key := rfl

theorem Diagnostic.withNotes_cons (d : Diagnostic) (note : Text) (notes : List Text) :
    d.withNotes (note :: notes) = (d.extend note).withNotes notes := by
  simp [withNotes, extend]

/-- An error that has got a note gets the same notes as before. -/
theorem notesFor_extend (d : Diagnostic) (text : Text) (after : List Text) :
    notesFor (d.extend text) after = notesFor d after := rfl

section Notes

variable {line : Text} (d : Diagnostic) (after : List Text)

theorem notesFor_cons_of_error {e : Diagnostic} (h : Entry.ofText? line = some (.error e)) :
    notesFor d (line :: after) = [] := by
  simp [notesFor, isNoteLine, h]

theorem notesFor_cons_of_none (h : Entry.ofText? line = none) : notesFor d (line :: after) = [] := by
  simp [notesFor, isNoteLine, h]

theorem notesFor_cons_of_note {path : ReportPath} {number : Nat} {text : Text}
    (h : Entry.ofText? line = some (.note path number text)) :
    notesFor d (line :: after) =
      if d.path = path ∧ d.line = number then text :: notesFor d after else notesFor d after := by
  have hnote : isNoteLine line = true := by simp [isNoteLine, h]
  have hfor : noteFor? d line = if d.path = path ∧ d.line = number then some text else none := by
    simp [noteFor?, h, eq_comm]
  unfold notesFor
  rw [List.takeWhile_cons_of_pos hnote]
  split
  · rename_i hplace
    rw [List.filterMap_cons_some (by rw [hfor, if_pos hplace])]
  · rename_i hplace
    rw [List.filterMap_cons_none (by rw [hfor, if_neg hplace])]

end Notes

/-- The errors that lines are, each with its notes, in the order of the lines. -/
def readings : List Text → List Diagnostic
  | [] => []
  | line :: lines =>
    match Entry.ofText? line with
    | some (.error e) => e.withNotes (notesFor e lines) :: readings lines
    | _ => readings lines

/-- **Gathering finds the errors and their notes.** The error at hand is extended by the notes about it that still
come. -/
theorem gather_map_ofLine (current : Option Diagnostic) (lines : List Text) :
    gather current (lines.map Item.ofLine) =
      (current.map fun d => d.withNotes (notesFor d lines)).toList ++ readings lines := by
  induction lines generalizing current with
  | nil => cases current <;> simp [gather, readings, notesFor]
  | cons line lines ih =>
    have hdone (h : ∀ d, notesFor d (line :: lines) = []) :
        (current.map fun d => d.withNotes (notesFor d (line :: lines))).toList = current.toList := by
      cases current <;> simp [h]
    cases hentry : Entry.ofText? line with
    | none =>
      have hitem : Item.ofLine line = .other (Item.looksLikeEntry line) := by simp [Item.ofLine, hentry]
      rw [List.map_cons, hitem, gather, ih, hdone fun d => notesFor_cons_of_none d lines hentry]
      simp [readings, hentry]
    | some entry =>
      have hitem : Item.ofLine line = .entry entry := by simp [Item.ofLine, hentry]
      rw [List.map_cons, hitem]
      cases entry with
      | error e =>
        rw [gather, ih, hdone fun d => notesFor_cons_of_error d lines hentry]
        simp [readings, hentry]
      | note path number text =>
        rw [gather, ih]
        cases current with
        | none => simp [readings, hentry]
        | some d =>
          simp only [Option.map_some, notesFor_cons_of_note d lines hentry, readings, hentry]
          split
          · rw [notesFor_extend, Diagnostic.withNotes_cons]
          · rfl

/-! ## The first error of a key -/

/-- The key of the error that the line is. -/
def errorKey? (line : Text) : Option (ReportPath × Nat × Option Nat × Option Text) :=
  match Entry.ofText? line with
  | some (.error e) => some e.key
  | _ => none

theorem errorKey?_of_error {line : Text} {e : Diagnostic} (h : Entry.ofText? line = some (.error e)) :
    errorKey? line = some e.key := by
  simp [errorKey?, h]

/-- The place of the first line that is an error with the key of `d`. -/
def firstPlace (lines : List Text) (d : Diagnostic) : Nat := lines.findIdx fun line => errorKey? line == some d.key

/-- `d` is the error of the line `line`, with its notes, and no line before it is an error with its key. -/
def IsReadingOf (lines : List Text) (line : Text) (d : Diagnostic) : Prop :=
  ∃ before after e, lines = before ++ line :: after ∧ Entry.ofText? line = some (.error e) ∧
    (∀ l ∈ before, errorKey? l ≠ some e.key) ∧ d = e.withNotes (notesFor e after)

/-- `d` is the reading of an error: the first with its key, and with its notes. -/
def IsFirstReading (lines : List Text) (d : Diagnostic) : Prop := ∃ line, IsReadingOf lines line d

theorem IsFirstReading.cons {line : Text} {lines : List Text} {d : Diagnostic} (h : IsFirstReading lines d)
    (hline : errorKey? line ≠ some d.key) : IsFirstReading (line :: lines) d := by
  obtain ⟨first, before, after, e, rfl, hfirst, hbefore, rfl⟩ := h
  exact ⟨first, line :: before, after, e, rfl, hfirst, List.forall_mem_cons.2 ⟨hline, hbefore⟩, rfl⟩

theorem firstPlace_cons_of_ne {line : Text} {lines : List Text} {d : Diagnostic} (h : errorKey? line ≠ some d.key) :
    firstPlace (line :: lines) d = firstPlace lines d + 1 := by
  have hbeq : (errorKey? line == some d.key) = false := beq_eq_false_iff_ne.2 h
  simp [firstPlace, List.findIdx_cons, hbeq]

theorem firstPlace_cons_of_eq {line : Text} {lines : List Text} {d : Diagnostic} (h : errorKey? line = some d.key) :
    firstPlace (line :: lines) d = 0 := by
  simp [firstPlace, List.findIdx_cons, h]

/-- The readings that the report keeps. -/
structure KeepsFirst (lines : List Text) (ds : List Diagnostic) : Prop where
  placed : ds.Pairwise fun d e => firstPlace lines d < firstPlace lines e
  keys : ∀ key, key ∈ ds.map Diagnostic.key ↔ ∃ line ∈ lines, errorKey? line = some key
  first : ∀ d ∈ ds, IsFirstReading lines d

namespace KeepsFirst

variable {line : Text} {lines : List Text} {ds : List Diagnostic}

/-- A line that is no error changes nothing. -/
theorem cons_of_none (h : KeepsFirst lines ds) (hline : errorKey? line = none) : KeepsFirst (line :: lines) ds := by
  have hne : ∀ d : Diagnostic, errorKey? line ≠ some d.key := fun d => by simp [hline]
  refine ⟨h.placed.imp ?_, ?_, fun d hd => (h.first d hd).cons (hne d)⟩
  · intro d f hlt
    rw [firstPlace_cons_of_ne (hne d), firstPlace_cons_of_ne (hne f)]
    exact Nat.succ_lt_succ hlt
  · intro key
    rw [h.keys key, List.exists_mem_cons_iff, hline]
    simp

/-- The keys that are left where one of them is dropped. -/
theorem mem_keys_filter (h : KeepsFirst lines ds) {key dropped : ReportPath × Nat × Option Nat × Option Text} :
    key ∈ (ds.filter fun d => d.key != dropped).map Diagnostic.key ↔
      key ≠ dropped ∧ ∃ l ∈ lines, errorKey? l = some key := by
  rw [← h.keys key]
  simp only [List.mem_map, List.mem_filter, bne_iff_ne]
  constructor
  · rintro ⟨d, ⟨hd, hne⟩, rfl⟩
    exact ⟨hne, d, hd, rfl⟩
  · rintro ⟨hne, d, hd, rfl⟩
    exact ⟨d, ⟨hd, hne⟩, rfl⟩

/-- An error comes first, and no later one with its key is kept. -/
theorem cons_of_error (h : KeepsFirst lines ds) {e : Diagnostic} (hentry : Entry.ofText? line = some (.error e)) :
    KeepsFirst (line :: lines) (e.withNotes (notesFor e lines) :: ds.filter fun d => d.key != e.key) := by
  have hkey := errorKey?_of_error hentry
  have hlater : ∀ d ∈ ds.filter (fun d => d.key != e.key), d ∈ ds ∧ errorKey? line ≠ some d.key := by
    intro d hd
    obtain ⟨hd, hne⟩ := List.mem_filter.1 hd
    refine ⟨hd, fun heq => ?_⟩
    rw [hkey, Option.some.injEq] at heq
    exact absurd heq.symm (by simpa using hne)
  refine ⟨List.pairwise_cons.2 ⟨?_, ?_⟩, ?_, ?_⟩
  · intro d hd
    have hfirst : firstPlace (line :: lines) (e.withNotes (notesFor e lines)) = 0 := firstPlace_cons_of_eq hkey
    rw [hfirst, firstPlace_cons_of_ne (hlater d hd).2]
    exact Nat.succ_pos _
  · refine (List.Pairwise.filter _ h.placed).imp_of_mem ?_
    intro d f hd hf hlt
    rw [firstPlace_cons_of_ne (hlater d hd).2, firstPlace_cons_of_ne (hlater f hf).2]
    exact Nat.succ_lt_succ hlt
  · intro key
    rw [List.map_cons, List.mem_cons, h.mem_keys_filter, Diagnostic.key_withNotes, List.exists_mem_cons_iff, hkey,
      Option.some.injEq]
    by_cases heq : key = e.key
    · simp [heq]
    · simp [heq, Ne.symm heq]
  · intro d hd
    rcases List.mem_cons.1 hd with rfl | hd
    · exact ⟨line, [], lines, e, rfl, hentry, by simp, rfl⟩
    · exact (h.first d (hlater d hd).1).cons (hlater d hd).2

end KeepsFirst

theorem keepsFirst_firstOfKey (lines : List Text) : KeepsFirst lines (firstOfKey (readings lines)) := by
  induction lines with
  | nil => exact ⟨.nil, by simp [readings, firstOfKey], by simp [readings, firstOfKey]⟩
  | cons line lines ih =>
    rw [readings]
    split
    · rename_i e hentry
      rw [firstOfKey, Diagnostic.key_withNotes]
      exact ih.cons_of_error hentry
    · rename_i hno
      refine ih.cons_of_none ?_
      unfold errorKey?
      split
      · rename_i e hentry
        exact absurd hentry (hno e)
      · rfl

theorem KeepsFirst.nodup_keys {lines : List Text} {ds : List Diagnostic} (h : KeepsFirst lines ds) :
    (ds.map Diagnostic.key).Nodup := by
  refine List.pairwise_map.2 (h.placed.imp ?_)
  intro d e hlt heq
  have hplace : firstPlace lines d = firstPlace lines e := by rw [firstPlace, firstPlace, heq]
  omega

/-! ## The report -/

theorem Text.startsWith_iff {t lead : Text} : startsWith t lead = true ↔ lead <+: t := by
  simp only [startsWith, Option.isSome_iff_exists, after?_eq_some_iff]
  exact exists_congr fun rest => eq_comm

theorem Text.occursIn_iff {part t : Text} : occursIn part t = true ↔ part <:+: t := by
  induction t with
  | nil => simp [occursIn]
  | cons c t ih => rw [occursIn, Bool.or_eq_true, startsWith_iff, ih, List.infix_cons_iff]

namespace Report

/-- The line is no entry and has the words of one. -/
def IsUnparsed (line : Text) : Prop :=
  Entry.ofText? line = none ∧ (": error:".toList <:+: line ∨ ": note:".toList <:+: line)

instance (line : Text) : Decidable (IsUnparsed line) := inferInstanceAs (Decidable (_ ∧ (_ ∨ _)))

/-- What a report says about its lines. -/
structure IsReading (lines : List Text) (r : Report) : Prop where
  sorted : r.diagnostics.Pairwise (Diagnostic.InOrder (firstPlace lines))
  distinct : (r.diagnostics.map Diagnostic.key).Nodup
  keys : ∀ key, key ∈ r.diagnostics.map Diagnostic.key ↔ ∃ line ∈ lines, errorKey? line = some key
  first : ∀ d ∈ r.diagnostics, IsFirstReading lines d
  uncoded : r.uncoded = (r.diagnostics.filter fun d => d.code = none ∧ d.severity ≠ .syntaxError).length
  unparsed : r.unparsed = (lines.filter fun line => IsUnparsed line).length

theorem ofLine_beq_other {line : Text} : (Item.ofLine line == .other true) = decide (IsUnparsed line) := by
  have hlooks : Item.looksLikeEntry line = true ↔ ": error:".toList <:+: line ∨ ": note:".toList <:+: line := by
    simp only [Item.looksLikeEntry, Bool.or_eq_true, Text.occursIn_iff]
  rw [Bool.eq_iff_iff, decide_eq_true_iff, beq_iff_eq, IsUnparsed, ← hlooks, Item.ofLine]
  split <;> simp_all

theorem keepsFirst_items (text : Text) : KeepsFirst (contentLines text) (firstOfKey (gather none (items text))) := by
  rw [items, gather_map_ofLine]
  exact keepsFirst_firstOfKey (contentLines text)

/-- **The reading of a report.** Its diagnostics are the first errors of each key with the notes about them, by path,
by line and by place. -/
theorem isReading_ofText (text : Text) : IsReading (contentLines text) (ofText text) := by
  have hkept := keepsFirst_items text
  have hperm : (ofText text).diagnostics.Perm (firstOfKey (gather none (items text))) := List.mergeSort_perm _ _
  have hkeys := hperm.map Diagnostic.key
  refine ⟨pairwise_inOrder_mergeSort hkept.placed, hkeys.nodup_iff.2 hkept.nodup_keys, ?_, ?_, ?_, ?_⟩
  · exact fun key => hkeys.mem_iff.trans (hkept.keys key)
  · exact fun d hd => hkept.first d (hperm.mem_iff.1 hd)
  · have huncoded : (ofText text).uncoded =
        (ofText text).diagnostics.countP fun d => d.code.isNone && !d.isSyntax := rfl
    rw [huncoded, List.countP_eq_length_filter]
    refine congrArg (fun p => ((ofText text).diagnostics.filter p).length) (funext fun d => ?_)
    rw [Bool.eq_iff_iff]
    simp [Diagnostic.isSyntax]
  · have hunparsed : (ofText text).unparsed = (items text).countP (· == .other true) := rfl
    rw [hunparsed, items, List.countP_map, List.countP_eq_length_filter]
    refine congrArg (fun p => ((contentLines text).filter p).length) (funext fun line => ?_)
    exact ofLine_beq_other

end Report

end TypeIgnore
