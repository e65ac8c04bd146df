import TypeIgnore.Receipt.Format
import TypeIgnore.Text.Utf8
import TypeIgnore.Proofs.Json.RoundTrip
import TypeIgnore.Proofs.Text.Utf8
import TypeIgnore.Proofs.Time.RoundTrip
import Mathlib.Tactic.MkIffOfInductiveProp

/-!
# Receipts written and read

* `Json.given` — the fields of a record that have a value; `Json.fields?_given` — each value is found by its name, and
  a field that is left out has none;
* `Json.optional_map`, `Json.listOf_map` — optional fields and lists;
* `Json.tool?_toJson`, `Json.counts?_toJson`, `Json.record?_toJson` and so on — the parts of a receipt are read back;
* `Receipt.isPlain_toJson` — a receipt is made of what JSON can hold;
* `Receipt.Representable` — a receipt that has a text; `Receipt.ofText_written` — it survives being written.
-/

namespace TypeIgnore

namespace Json

/-! ## Records -/

section Records

variable {names : List Text} {values : List (Option Json)}

/-- The fields that have a value, each with its name. -/
def given : List Text → List (Option Json) → List (Text × Json)
  | name :: names, some j :: values => (name, j) :: given names values
  | _ :: names, none :: values => given names values
  | _, _ => []

theorem map_fst_given_sublist (names : List Text) (values : List (Option Json)) :
    ((given names values).map (·.1)).Sublist names := by
  fun_induction given names values with
  | case1 name names j values ih => exact ih.cons_cons name
  | case2 name names values ih => exact ih.cons name
  | case3 => exact List.nil_sublist _

theorem lookup_given_of_not_mem {name : Text} (h : name ∉ names) (values : List (Option Json)) :
    (given names values).lookup name = none := by
  rw [List.lookup_eq_none_iff]
  intro field hfield
  have hmem := (map_fst_given_sublist names values).subset (List.mem_map_of_mem hfield)
  exact bne_iff_ne.2 fun heq => h (heq ▸ hmem)

/-- Each value is found by its name. -/
theorem map_lookup_given (hnames : names.Nodup) (hlength : names.length = values.length) :
    names.map (List.lookup · (given names values)) = values := by
  induction names generalizing values with
  | nil => exact (List.length_eq_zero_iff.1 hlength.symm).symm
  | cons name names ih =>
    obtain ⟨hname, hnames⟩ := List.nodup_cons.1 hnames
    cases values with
    | nil => cases hlength
    | cons value values =>
      have hvalues := ih hnames (Nat.succ.inj hlength)
      cases value with
      | none => rw [List.map_cons, given, lookup_given_of_not_mem hname, hvalues]
      | some j =>
        have hrest : names.map (List.lookup · ((name, j) :: given names values)) =
            names.map (List.lookup · (given names values)) := by
          refine List.map_congr_left fun other hother => ?_
          have hne : (other == name) = false := beq_eq_false_iff_ne.2 fun h => hname (h ▸ hother)
          rw [List.lookup_cons, hne]
        rw [List.map_cons, given, List.lookup_cons_self, hrest, hvalues]

/-- **The fields of a record are found by their names,** and those left out have no value. -/
theorem fields?_of_given {j : Json} (hnames : names.Nodup) (hlength : names.length = values.length)
    (hj : j = .object (given names values)) : fields? names j = some values := by
  have hnodup : (((given names values).map (·.1)).filter names.contains).Nodup :=
    (hnames.sublist (map_fst_given_sublist names values)).filter _
  rw [hj]
  simp only [fields?]
  rw [if_pos hnodup, map_lookup_given hnames hlength]

end Records

/-! ## Fields -/

section Fields

variable {α : Type} {read : Json → Option α} {write : α → Json}

/-- An optional field that is left out if there is no value. -/
theorem optional_map {a : Option α} (hread : ∀ x ∈ a, read (write x) = some x) (hnull : ∀ x, write x ≠ .null) :
    optional read (a.map write) = some a := by
  cases a with
  | none => rfl
  | some x =>
    have hx := hread x rfl
    unfold optional
    split
    · rename_i h
      cases h
    · rename_i h
      exact absurd (Option.some.inj h) (hnull x)
    · rename_i h
      rw [← Option.some.inj h, hx]
      rfl

theorem listOf_map {as : List α} (hread : ∀ x ∈ as, read (write x) = some x) :
    listOf read (some (.array (as.map write))) = some as := by
  rw [listOf, items?, Option.bind_some]
  induction as with
  | nil => rfl
  | cons x as ih =>
    rw [List.map_cons, List.mapM_cons, hread x List.mem_cons_self, ih fun y hy => hread y (List.mem_cons_of_mem _ hy)]
    rfl

theorem word?_ofNat {n : Nat} (h : n < Text.wordLimit) : word? (.ofNat n) = some n := Text.word?_ofNat h

theorem time?_text {t : Timestamp} (h : t.isValid = true) : time? (.string t.text) = some t := by
  rw [time?, text?, Option.bind_some, Timestamp.ofText?_text h]

theorem reason?_text (r : Reason) : reason? (.string r.text) = some r := by
  rw [reason?, choice?, Option.bind_some, Reason.ofText?_text]

end Fields

end Json

/-! ## What can be written -/

/-- The counts are numbers of 32 bits. -/
def Counts.InRange (c : Counts) : Prop :=
  c.silenced < Text.wordLimit ∧ c.notSilenced < Text.wordLimit ∧ c.ignored < Text.wordLimit ∧
    c.filesEdited < Text.wordLimit

/-- Line and column are numbers of 32 bits. -/
def Record.InRange (r : Record) : Prop := r.line < Text.wordLimit ∧ ∀ col ∈ r.col, col < Text.wordLimit

/-- A receipt of this format that has a text: its times can be written, and its numbers are of 32 bits. -/
@[mk_iff]
structure Receipt.Representable (r : Receipt) : Prop where
  schema : r.schema = receiptSchema
  startedAt : r.startedAt.isValid = true
  finishedAt : r.finishedAt.isValid = true
  counts : r.counts.InRange
  silenced : ∀ d ∈ r.silenced, d.InRange
  rejected : ∀ d ∈ r.rejected, d.record.InRange
  changes : ∀ c ∈ r.changes, c.line < Text.wordLimit

instance (c : Counts) : Decidable c.InRange := inferInstanceAs (Decidable (_ ∧ _ ∧ _ ∧ _))

instance (r : Record) : Decidable r.InRange := inferInstanceAs (Decidable (_ ∧ ∀ col ∈ r.col, _))

instance (r : Receipt) : Decidable r.Representable := decidable_of_iff _ r.representable_iff.symm

/-! ## The fields of a receipt -/

/-- Column and code are left out if there are none. -/
theorem Record.toJson_eq (r : Record) :
    r.toJson = .object (Json.given ["path", "line", "col", "code", "message", "fingerprint"]
      [some (.string r.path.text), some (.ofNat r.line), r.col.map .ofNat, r.code.map .string, some (.string r.message),
        some (.string r.fingerprint)]) := by
  obtain ⟨path, line, col, code, message, fingerprint⟩ := r
  cases col <;> cases code <;> rfl

/-- Warnings are left out if there are none. -/
theorem Receipt.toJson_eq (r : Receipt) :
    r.toJson = .object (Json.given ["schema", "tool", "started_at", "finished_at", "dry_run", "counts", "silenced",
        "not_silenced", "changes", "warnings"]
      [some (.string r.schema), some r.tool.toJson, some (.string r.startedAt.text), some (.string r.finishedAt.text),
        some (.bool r.dryRun), some r.counts.toJson, some (.array (r.silenced.map Record.toJson)),
        some (.array (r.rejected.map RejectedRecord.toJson)), some (.array (r.changes.map ChangeView.toJson)),
        if r.warnings.isEmpty then none else some (.array (r.warnings.map .string))]) := by
  obtain ⟨schema, tool, startedAt, finishedAt, dryRun, counts, silenced, rejected, changes, warnings⟩ := r
  cases warnings <;> rfl

/-! ## Reading back -/

namespace Json

theorem tool?_toJson (t : ToolInfo) : tool? t.toJson = some t := by
  have hfields : fields? ["name", "version"] t.toJson = some [some (.string t.name), some (.string t.version)] :=
    fields?_of_given (by decide) rfl rfl
  simp only [tool?, hfields]
  rfl

theorem counts?_toJson {c : Counts} (h : c.InRange) : counts? c.toJson = some c := by
  have hfields : fields? ["silenced", "not_silenced", "ignored", "files_edited"] c.toJson =
      some [some (.ofNat c.silenced), some (.ofNat c.notSilenced), some (.ofNat c.ignored),
        some (.ofNat c.filesEdited)] :=
    fields?_of_given (by decide) rfl rfl
  obtain ⟨hsilenced, hnotSilenced, hignored, hfilesEdited⟩ := h
  simp only [counts?, hfields, required, Option.bind_eq_bind, Option.bind_some, word?_ofNat hsilenced,
    word?_ofNat hnotSilenced, word?_ofNat hignored, word?_ofNat hfilesEdited]
  rfl

theorem record?_toJson {r : Record} (h : r.InRange) : record? r.toJson = some r := by
  have hfields := fields?_of_given (by decide) rfl r.toJson_eq
  have hcol : optional word? (r.col.map .ofNat) = some r.col :=
    optional_map (fun col hcol => word?_ofNat (h.2 col hcol)) fun col hnull => nomatch hnull
  have hcode : optional text? (r.code.map .string) = some r.code :=
    optional_map (fun code _ => rfl) fun code hnull => nomatch hnull
  simp only [record?, hfields, required, Option.bind_eq_bind, Option.bind_some, word?_ofNat h.1, hcol, hcode]
  rfl

theorem rejectedRecord?_toJson {r : RejectedRecord} (h : r.record.InRange) : rejectedRecord? r.toJson = some r := by
  have hfields : fields? ["diagnostic", "reason"] r.toJson =
      some [some r.record.toJson, some (.string r.reason.text)] :=
    fields?_of_given (by decide) rfl rfl
  simp only [rejectedRecord?, hfields, required, Option.bind_eq_bind, Option.bind_some, record?_toJson h, reason?_text]
  rfl

theorem change?_toJson {c : ChangeView} (h : c.line < Text.wordLimit) : change? c.toJson = some c := by
  have hfields : fields? ["path", "line", "before", "after"] c.toJson =
      some [some (.string c.path), some (.ofNat c.line), some (.string c.before), some (.string c.after)] :=
    fields?_of_given (by decide) rfl rfl
  simp only [change?, hfields, required, Option.bind_eq_bind, Option.bind_some, word?_ofNat h]
  rfl

theorem receipt?_toJson {r : Receipt} (h : r.Representable) : receipt? r.toJson = some r := by
  have hfields := fields?_of_given (by decide) rfl r.toJson_eq
  -- no warnings are written as a missing field, and a missing list is empty
  have hwarnings : listOf text? (if r.warnings.isEmpty then none else some (.array (r.warnings.map .string))) =
      some r.warnings := by
    split
    · rename_i hempty
      rw [List.isEmpty_iff.1 hempty]
      rfl
    · exact listOf_map fun _ _ => rfl
  have hstring (t : Text) : text? (.string t) = some t := rfl
  have hbool (b : Bool) : bool? (.bool b) = some b := rfl
  simp only [receipt?, hfields, required, Option.bind_eq_bind, Option.bind_some, hstring, hbool, tool?_toJson,
    time?_text h.startedAt, time?_text h.finishedAt, counts?_toJson h.counts,
    listOf_map fun d hd => record?_toJson (h.silenced d hd),
    listOf_map fun d hd => rejectedRecord?_toJson (h.rejected d hd),
    listOf_map fun c hc => change?_toJson (h.changes c hc), hwarnings]
  rfl

/-! ## What is written is plain -/

theorem allPlain_map {α : Type} {write : α → Json} (h : ∀ x, IsPlain (write x)) (as : List α) :
    AllPlain (as.map write) := by
  induction as with
  | nil => trivial
  | cons x as ih => exact ⟨h x, ih⟩

theorem fieldsPlain_given {names : List Text} {values : List (Option Json)} (h : ∀ v ∈ values, ∀ j ∈ v, IsPlain j) :
    FieldsPlain (given names values) := by
  fun_induction given names values with
  | case1 name names j values ih =>
    obtain ⟨hj, hvalues⟩ := List.forall_mem_cons.1 h
    exact ⟨hj j rfl, ih hvalues⟩
  | case2 name names values ih => exact ih (List.forall_mem_cons.1 h).2
  | case3 => trivial

theorem isPlain_ofNat (n : Nat) : IsPlain (.ofNat n) := ⟨n, rfl⟩

end Json

theorem Record.isPlain_toJson (r : Record) : r.toJson.IsPlain := by
  rw [toJson_eq]
  refine Json.fieldsPlain_given ?_
  simp [Json.IsPlain, Json.isPlain_ofNat]

theorem RejectedRecord.isPlain_toJson (r : RejectedRecord) : r.toJson.IsPlain :=
  ⟨r.record.isPlain_toJson, trivial, trivial⟩

theorem ChangeView.isPlain_toJson (c : ChangeView) : c.toJson.IsPlain :=
  ⟨trivial, Json.isPlain_ofNat c.line, trivial, trivial, trivial⟩

theorem Receipt.isPlain_toJson (r : Receipt) : r.toJson.IsPlain := by
  rw [toJson_eq]
  refine Json.fieldsPlain_given ?_
  have htool : r.tool.toJson.IsPlain := ⟨trivial, trivial, trivial⟩
  have hcounts : r.counts.toJson.IsPlain :=
    ⟨Json.isPlain_ofNat _, Json.isPlain_ofNat _, Json.isPlain_ofNat _, Json.isPlain_ofNat _, trivial⟩
  have hstring (t : Text) : (Json.string t).IsPlain := trivial
  simp [Json.IsPlain, htool, hcounts, Json.allPlain_map Record.isPlain_toJson,
    Json.allPlain_map RejectedRecord.isPlain_toJson, Json.allPlain_map ChangeView.isPlain_toJson,
    Json.allPlain_map hstring]

/-! ## Receipts -/

/-- **A receipt survives being written.** Its bytes are a text, the text is read as the same receipt, and that is
written with the same bytes. -/
theorem Receipt.ofText_written (r : Receipt) (h : r.Representable) :
    ∃ t r', Utf8.decode? (Utf8.encode r.text) = some t ∧ Receipt.ofText t = .ok r' ∧ r' = r ∧
      Utf8.encode r'.text = Utf8.encode r.text := by
  refine ⟨r.text, r, Utf8.decode?_encode r.text, ?_, rfl, rfl⟩
  have hjson : Json.ofText? r.text = some r.toJson := Json.ofText?_pretty (r.isPlain_toJson)
  simp only [Receipt.ofText, hjson, Option.bind_some, Json.receipt?_toJson h]
  rw [if_pos h.schema]

/-- Signs that have to be escaped, fields left out, a fraction and a clock behind UTC. -/
theorem Receipt.ofText_written_mixed :
    let record : Record := ⟨⟨"a\"b\\.py".toList⟩, 4294967295, some 0, none, "\x00\n\x7f é😀 \\u0041".toList, []⟩
    let r : Receipt := {
      startedAt := { year := 2024, month := 2, day := 29, hour := 23, minute := 59, second := 59,
                     nanosecond := 50000000, offset := -30 }
      finishedAt := { year := 0, month := 1, day := 1, offset := 1439 }
      dryRun := true
      counts := { silenced := 1, notSilenced := 1 }
      silenced := [{ record with col := none, code := some "misc".toList }]
      rejected := [⟨record, .ioError⟩]
      changes := [⟨"m.py".toList, 1, [], "  # type: ignore[misc]".toList⟩]
      warnings := ["\t".toList, []] }
    r.Representable ∧ ∃ t r', Utf8.decode? (Utf8.encode r.text) = some t ∧ Receipt.ofText t = .ok r' ∧ r' = r ∧
      Utf8.encode r'.text = Utf8.encode r.text := by
  intro record r
  have hr : r.Representable := by decide
  exact ⟨hr, Receipt.ofText_written r hr⟩

end TypeIgnore
