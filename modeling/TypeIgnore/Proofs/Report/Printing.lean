import TypeIgnore.Proofs.Report.Codes
import TypeIgnore.Proofs.Report.Reading
import TypeIgnore.Proofs.Text.Number
import TypeIgnore.Proofs.Text.Pieces
import Mathlib.Tactic.MkIffOfInductiveProp

/-!
# Printed reports

* `PrintedError` — an error as a checker prints it; `PrintedError.WellFormed` — its parts can be told apart again;
* `splitCode_append`, `splitCode_eq_none_iff` — a code behind a message is cut off, and only a code is;
* `RawEntry.numbers_append`, `RawEntry.ofText?_line` — place and message of a printed error;
* `PrintedError.ofText?_line` — the error is read back from its line, and `Report.ofText_printed` — so is a report.
-/

namespace TypeIgnore

/-! ## Printing -/

/-- An error as a checker prints it. -/
structure PrintedError where
  path : Text
  line : Nat
  col : Option Nat := none
  ending : Option (Nat × Nat) := none
  text : Text
  code : Option Text := none
  deriving DecidableEq, Repr

/-- The text ends in blanks and a code in brackets. -/
def EndsInCode (t : Text) : Prop :=
  ∃ front blanks code, t = front ++ blanks ++ '[' :: (code ++ [']']) ∧ blanks ≠ [] ∧
    (∀ c ∈ blanks, Text.isBlank c = true) ∧ IsReportCode code

namespace PrintedError

/-- Line, column, and line and column of the end, as far as they are given. -/
def numbers (e : PrintedError) : List Nat :=
  e.line :: (e.col.toList ++ e.ending.elim [] fun ending => [ending.1, ending.2])

def codeText (e : PrintedError) : Text := e.code.elim [] fun code => "  [" ++ code ++ "]"

/-- The line that is printed. -/
def lineText (e : PrintedError) : Text :=
  e.path ++ e.numbers.flatMap (fun n => ':' :: Text.ofNat n) ++ ": error: " ++ e.text ++ e.codeText

/-- The diagnostic that is printed. It is a syntax error if its code, or without a code its text, says so. -/
def diagnostic (e : PrintedError) : Diagnostic where
  path := ⟨e.path⟩
  line := e.line
  col := e.col
  endLine := e.ending.map (·.1)
  endCol := e.ending.map (·.2)
  code := e.code
  message := e.text
  severity :=
    if e.code = some syntaxCode ∨ e.code = none ∧ "invalid syntax".toList <+: e.text then .syntaxError else .error

/-- What has to hold of the parts of an error so that they can be told apart in its line. -/
@[mk_iff]
structure WellFormed (e : PrintedError) : Prop where
  path_normal : ReportPath.ofText e.path = ⟨e.path⟩
  path_length : 2 ≤ e.path.length
  path_chars : ':' ∉ e.path ∧ '\r' ∉ e.path ∧ '\n' ∉ e.path
  path_trim : Text.trim e.path = e.path
  line : e.line < Text.wordLimit
  col : ∀ col ∈ e.col, col < Text.wordLimit
  ending : ∀ ending ∈ e.ending, e.col.isSome ∧ ending.1 < Text.wordLimit ∧ ending.2 < Text.wordLimit
  text_ne_nil : e.text ≠ []
  text_line : '\n' ∉ e.text
  text_trim : Text.trim e.text = e.text
  code : ∀ code ∈ e.code, IsReportCode code
  no_code : e.code = none → ¬ EndsInCode e.text

end PrintedError

/-- The errors, one on each line. -/
def printReport (es : List PrintedError) : Text := es.flatMap fun e => e.lineText ++ "\n"

/-! ## Codes -/

theorem isCodeChar_bracket : isCodeChar '[' = false := by decide

/-- A code behind a message is cut off, with the blanks before it. -/
theorem splitCode_append {front blanks code : Text} (hne : blanks ≠ []) (hblanks : ∀ c ∈ blanks, Text.isBlank c = true)
    (hcode : IsReportCode code) :
    splitCode (front ++ blanks ++ '[' :: (code ++ [']'])) = (Text.trimEnd front, some code) := by
  obtain ⟨before, blank, rfl⟩ := List.eq_nil_or_concat blanks |>.resolve_left hne
  rw [List.concat_eq_append] at *
  have hspan : Text.spanEnd isCodeChar ((front ++ (before ++ [blank])) ++ ['['] ++ code) =
      (front ++ (before ++ [blank]) ++ ['['], code) := by
    rw [Text.spanEnd_append_of_all isCodeChar _ fun c hc => hcode.isCodeChar_of_mem hc,
      Text.spanEnd_concat_of_not isCodeChar isCodeChar_bracket, List.nil_append]
  have hmessage : front ++ (before ++ [blank]) ++ '[' :: (code ++ [']']) =
      (front ++ (before ++ [blank]) ++ ['['] ++ code) ++ [']'] := by
    simp
  have hblank : Text.isBlank blank = true := hblanks blank (by simp)
  have htrim : Text.trimEnd (front ++ (before ++ [blank])) = Text.trimEnd front :=
    Text.trimEnd_append_of_blank front hblanks
  unfold splitCode
  rw [hmessage, List.dropLast_concat, hspan]
  simp only [List.getLast?_concat, List.dropLast_concat, htrim, hcode.1]
  simp [← List.append_assoc, hblank]

/-- Nothing is cut off a message that ends in no code. -/
theorem splitCode_eq_none_iff {message : Text} : splitCode message = (message, none) ↔ ¬ EndsInCode message := by
  constructor
  · rintro h ⟨front, blanks, code, rfl, hne, hblanks, hcode⟩
    rw [splitCode_append hne hblanks hcode] at h
    exact Option.some_ne_none code (congrArg Prod.snd h)
  · intro hno
    unfold splitCode
    simp only
    split
    · rename_i hform
      simp only [Bool.and_eq_true, decide_eq_true_eq] at hform
      obtain ⟨⟨⟨hclose, hopen⟩, hstart⟩, hany⟩ := hform
      obtain ⟨blank, hblank, hisBlank⟩ := (Option.any_eq_true _ _).1 hany
      obtain ⟨inner, rfl⟩ := List.getLast?_eq_some_iff.1 hclose
      rw [List.dropLast_concat] at *
      obtain ⟨before, hbefore⟩ := List.getLast?_eq_some_iff.1 hopen
      rw [hbefore, List.dropLast_concat] at hblank
      obtain ⟨front, rfl⟩ := List.getLast?_eq_some_iff.1 hblank
      have hinner : front ++ [blank] ++ ['['] ++ (Text.spanEnd isCodeChar inner).2 = inner := by
        rw [← hbefore, Text.spanEnd_append]
      have hcode : IsReportCode (Text.spanEnd isCodeChar inner).2 :=
        ⟨hstart, List.all_eq_true.2 (Text.mem_spanEnd_snd isCodeChar)⟩
      refine absurd ⟨front, [blank], _, ?_, List.cons_ne_nil _ _, by simpa using hisBlank, hcode⟩ hno
      conv_lhs => rw [← hinner]
      simp
    · rfl

instance (t : Text) : Decidable (EndsInCode t) :=
  decidable_of_iff (¬ splitCode t = (t, none)) (not_iff_comm.1 splitCode_eq_none_iff.symm)

instance (e : PrintedError) : Decidable e.WellFormed := decidable_of_iff _ e.wellFormed_iff.symm

/-! ## Entries -/

namespace RawEntry

/-- One more number, which ends where no digit follows. -/
theorem numbers_cons {digits t : Text} (count : Nat) (hne : digits ≠ [])
    (hdigits : ∀ c ∈ digits, Text.isDigit c = true) (ht : ∀ c ∈ t.head?, Text.isDigit c = false) :
    numbers (count + 1) (':' :: (digits ++ t)) = (digits :: (numbers count t).1, (numbers count t).2) := by
  rw [numbers, Text.takeWhile_append_stop hdigits ht, Text.dropWhile_append_stop hdigits ht]
  split
  · exact absurd rfl hne
  · rfl

/-- Numbers end where a blank follows a colon. -/
theorem numbers_append_texts {count : Nat} {ns : List Text} (h : ns.length ≤ count)
    (hns : ∀ n ∈ ns, n ≠ [] ∧ ∀ c ∈ n, Text.isDigit c = true) (rest : Text) :
    numbers count (ns.flatMap (fun n => ':' :: n) ++ ':' :: ' ' :: rest) = (ns, ':' :: ' ' :: rest) := by
  induction ns generalizing count with
  | nil =>
    cases count with
    | zero => rfl
    | succ count => rfl
  | cons n ns ih =>
    obtain ⟨count, rfl⟩ : ∃ k, count = k + 1 := ⟨count - 1, by simp at h; omega⟩
    obtain ⟨⟨hne, hdigits⟩, hns⟩ := List.forall_mem_cons.1 hns
    have hstop : ∀ c ∈ (ns.flatMap (fun n => ':' :: n) ++ ':' :: ' ' :: rest).head?, Text.isDigit c = false := by
      cases ns <;> simp <;> decide
    rw [List.flatMap_cons, List.cons_append, List.cons_append, List.append_assoc, numbers_cons count hne hdigits hstop,
      ih (by simpa using h) hns]

theorem numbers_append {count : Nat} {ns : List Nat} (h : ns.length ≤ count) (rest : Text) :
    numbers count (ns.flatMap (fun n => ':' :: Text.ofNat n) ++ ':' :: ' ' :: rest) =
      (ns.map Text.ofNat, ':' :: ' ' :: rest) := by
  have htexts : ∀ n ∈ ns.map Text.ofNat, n ≠ [] ∧ ∀ c ∈ n, Text.isDigit c = true := by
    intro n hn
    obtain ⟨k, -, rfl⟩ := List.mem_map.1 hn
    exact ⟨Text.ofNat_ne_nil k, fun c hc => Text.isDigit_of_isPlainDigit (Text.isPlainDigit_of_mem_ofNat hc)⟩
  rw [← numbers_append_texts (by simpa using h) htexts rest, List.flatMap_map]

/-- Two characters without a colon are no drive. -/
theorem drivePath?_eq_none {path : Text} (hlength : 2 ≤ path.length) (hcolon : ':' ∉ path) (rest : Text) :
    drivePath? (path ++ rest) = none := by
  match path, hlength with
  | first :: second :: path, _ =>
    have hsecond : second ≠ ':' := fun h => hcolon (by simp [h])
    simp only [List.cons_append]
    unfold drivePath?
    split
    · rename_i heq
      cases heq
      exact absurd rfl hsecond
    · rfl

theorem path?_append {path : Text} (hne : path ≠ []) (hpath : ∀ c ∈ path, isPathChar c = true) (rest : Text) :
    path? (path ++ ':' :: rest) = some (path, ':' :: rest) := by
  have hstop : ∀ c ∈ (':' :: rest).head?, isPathChar c = false := by simp [isPathChar]
  unfold path?
  rw [Text.takeWhile_append_stop hpath hstop, Text.dropWhile_append_stop hpath hstop]
  cases path with
  | nil => exact absurd rfl hne
  | cons c path => rfl

end RawEntry

namespace PrintedError

variable {e : PrintedError}

/-- The parts of the line of an error. -/
def raw (e : PrintedError) : RawEntry where
  path := e.path
  line := Text.ofNat e.line
  col := e.col.map Text.ofNat
  ending := e.ending.map fun ending => (Text.ofNat ending.1, Text.ofNat ending.2)
  kind := .error
  message := e.text ++ e.codeText

/-- The line after its path. -/
theorem WellFormed.ofParts? (h : e.WellFormed) :
    RawEntry.ofParts? e.path
        (e.numbers.flatMap (fun n => ':' :: Text.ofNat n) ++ ':' :: ' ' :: ("error: " ++ (e.text ++ e.codeText))) =
      some e.raw := by
  have hlength : e.numbers.length ≤ 4 := by
    cases hcol : e.col <;> cases hending : e.ending <;> simp [numbers, hcol, hending]
  have hmessage : RawEntry.message? (':' :: ' ' :: ("error: " ++ (e.text ++ e.codeText))) =
      some (.error, e.text ++ e.codeText) := rfl
  unfold RawEntry.ofParts?
  simp only [RawEntry.numbers_append hlength, hmessage, Option.bind_eq_bind, Option.bind_some]
  cases hcol : e.col with
  | none =>
    cases hending : e.ending with
    | none => simp [numbers, raw, hcol, hending]
    | some ending =>
      have hsome := (h.ending ending hending).1
      rw [hcol] at hsome
      cases hsome
  | some col => cases hending : e.ending <;> simp [numbers, raw, hcol, hending]

theorem WellFormed.isPathChar (h : e.WellFormed) : ∀ c ∈ e.path, RawEntry.isPathChar c = true := by
  intro c hc
  obtain ⟨hcolon, hreturn, hfeed⟩ := h.path_chars
  simp only [RawEntry.isPathChar, Bool.and_eq_true, bne_iff_ne]
  refine ⟨⟨?_, ?_⟩, ?_⟩
  · rintro rfl
    exact hcolon hc
  · rintro rfl
    exact hreturn hc
  · rintro rfl
    exact hfeed hc

/-- The parts of an error are read back from its line. -/
theorem WellFormed.rawOfText? (h : e.WellFormed) : RawEntry.ofText? e.lineText = some e.raw := by
  have hne : e.path ≠ [] := by
    intro hnil
    have hlength := h.path_length
    simp [hnil] at hlength
  obtain ⟨rest, hrest⟩ : ∃ rest, e.numbers.flatMap (fun n => ':' :: Text.ofNat n) ++
      ':' :: ' ' :: ("error: ".toList ++ (e.text ++ e.codeText)) = ':' :: rest := ⟨_, rfl⟩
  have hline : e.lineText = e.path ++ ':' :: rest := by
    rw [← hrest]
    simp [lineText]
  have hparts := h.ofParts?
  rw [hrest] at hparts
  unfold RawEntry.ofText?
  rw [hline, RawEntry.drivePath?_eq_none h.path_length h.path_chars.1, RawEntry.path?_append hne h.isPathChar]
  simpa using hparts

/-! ## Messages -/

theorem WellFormed.head?_text (h : e.WellFormed) : ∀ c ∈ e.text.head?, Text.isBlank c = false :=
  (Text.trim_eq_self_iff.1 h.text_trim).1

/-- The line ends in a bracket, or as its text does. -/
theorem WellFormed.getLast?_append_codeText (h : e.WellFormed) (t : Text) :
    ∀ c ∈ (t ++ (e.text ++ e.codeText)).getLast?, Text.isBlank c = false := by
  cases hcode : e.code with
  | some code =>
    have hend : t ++ (e.text ++ e.codeText) = t ++ (e.text ++ "  [" ++ code) ++ [']'] := by simp [codeText, hcode]
    rw [hend, List.getLast?_concat]
    rintro c ⟨⟩
    decide
  | none =>
    have hend : t ++ (e.text ++ e.codeText) = t ++ e.text := by simp [codeText, hcode]
    rw [hend, List.getLast?_append_of_ne_nil _ h.text_ne_nil]
    exact (Text.trim_eq_self_iff.1 h.text_trim).2

theorem WellFormed.trim_message (h : e.WellFormed) : Text.trim (e.text ++ e.codeText) = e.text ++ e.codeText := by
  refine Text.trim_eq_self_iff.2 ⟨?_, h.getLast?_append_codeText []⟩
  obtain ⟨c, t, ht⟩ := List.exists_cons_of_ne_nil h.text_ne_nil
  have hhead := h.head?_text
  rw [ht] at hhead ⊢
  exact hhead

theorem WellFormed.splitCode (h : e.WellFormed) : TypeIgnore.splitCode (e.text ++ e.codeText) = (e.text, e.code) := by
  cases hcode : e.code with
  | some code =>
    have hmessage : e.text ++ e.codeText = e.text ++ "  ".toList ++ '[' :: (code ++ [']']) := by
      simp [codeText, hcode]
    have htrim : Text.trimEnd e.text = e.text :=
      Text.trimEnd_of_getLast? (Text.trim_eq_self_iff.1 h.text_trim).2
    have hblanks : ∀ c ∈ "  ".toList, Text.isBlank c = true := List.all_eq_true.1 rfl
    rw [hmessage, splitCode_append (by simp) hblanks (h.code code hcode), htrim]
  | none =>
    have hmessage : e.text ++ e.codeText = e.text := by simp [codeText, hcode]
    rw [hmessage]
    exact splitCode_eq_none_iff.2 (h.no_code hcode)

/-! ## Reading back -/

theorem WellFormed.ending_raw (h : e.WellFormed) :
    (e.raw.ending.bind fun (endLine, endCol) => do return (← Text.word? endLine, ← Text.word? endCol)) = e.ending := by
  cases hending : e.ending with
  | none => simp [raw, hending]
  | some ending =>
    obtain ⟨-, hline, hcol⟩ := h.ending ending hending
    simp [raw, hending, Text.word?_ofNat hline, Text.word?_ofNat hcol]

theorem WellFormed.col_raw (h : e.WellFormed) : e.raw.col.bind Text.word? = e.col := by
  cases hcol : e.col with
  | none => simp [raw, hcol]
  | some col => simp [raw, hcol, Text.word?_ofNat (h.col col hcol)]

theorem WellFormed.diagnostic_raw (h : e.WellFormed) : Entry.diagnostic e.raw e.line = e.diagnostic := by
  have hmessage : TypeIgnore.splitCode (Text.trim e.raw.message) = (e.text, e.code) := by
    rw [raw, h.trim_message, h.splitCode]
  have hpath : ReportPath.ofText (Text.trim e.raw.path) = ⟨e.path⟩ := by
    rw [raw, h.path_trim, h.path_normal]
  unfold Entry.diagnostic
  simp only [hmessage, hpath, h.col_raw, h.ending_raw]
  cases hcode : e.code with
  | some code => simp [Diagnostic.withCode, diagnostic, hcode]
  | none =>
    by_cases hstart : "invalid syntax".toList <+: e.text
    · simp only [Text.startsWith_iff, diagnostic, hcode, hstart, reduceCtorEq, true_and, or_true, if_true]
    · simp only [Text.startsWith_iff, diagnostic, hcode, hstart, reduceCtorEq, and_false, or_false, if_false]

/-- **An error is read back from its line.** -/
theorem WellFormed.ofText?_line (h : e.WellFormed) : Entry.ofText? e.lineText = some (.error e.diagnostic) := by
  have hline : Text.word? e.raw.line = some e.line := Text.word?_ofNat h.line
  unfold Entry.ofText?
  simp only [h.rawOfText?, Option.bind_eq_bind, Option.bind_some, hline]
  rw [← h.diagnostic_raw]
  rfl

/-! ## Reports -/

/-- What stands in front of the message. -/
theorem lineText_eq (e : PrintedError) :
    e.lineText = (e.path ++ e.numbers.flatMap (fun n => ':' :: Text.ofNat n) ++ ": error: ") ++
      (e.text ++ e.codeText) := by
  simp [lineText]

/-- The line of an error is one line. -/
theorem WellFormed.not_mem_lineText (h : e.WellFormed) : '\n' ∉ e.lineText := by
  have hnumbers : '\n' ∉ e.numbers.flatMap fun n => ':' :: Text.ofNat n := by
    intro hmem
    obtain ⟨n, -, hmem⟩ := List.mem_flatMap.1 hmem
    rcases List.mem_cons.1 hmem with hcolon | hdigit
    · exact absurd hcolon (by decide)
    · exact absurd (Text.isPlainDigit_of_mem_ofNat hdigit) (by decide)
  have hcode : '\n' ∉ e.codeText := by
    unfold codeText
    cases hcode : e.code with
    | none => simp
    | some code =>
      have hnot : '\n' ∉ code := (h.code code hcode).not_mem (by decide)
      simp [hnot]
  simp [lineText, h.path_chars.2.2, hnumbers, h.text_line, hcode]

theorem WellFormed.trimEnd_lineText (h : e.WellFormed) : Text.trimEnd e.lineText = e.lineText := by
  rw [lineText_eq]
  exact Text.trimEnd_of_getLast? (h.getLast?_append_codeText _)

theorem WellFormed.getLast?_lineText (h : e.WellFormed) : e.lineText.getLast? ≠ some '\r' := by
  intro hlast
  rw [lineText_eq] at hlast
  exact absurd (h.getLast?_append_codeText _ '\r' hlast) (by decide)

end PrintedError

theorem contentLines_printReport {es : List PrintedError} (hes : ∀ e ∈ es, e.WellFormed) :
    Report.contentLines (printReport es) = es.map PrintedError.lineText := by
  have hprint : printReport es = (es.map PrintedError.lineText).flatMap fun l => l ++ "\n".toList := by
    simp [printReport, List.flatMap_map]
  have hlines : Text.lines (printReport es) = es.map PrintedError.lineText := by
    rw [hprint]
    refine Text.lines_flatMap fun l hl => ?_
    obtain ⟨e, he, rfl⟩ := List.mem_map.1 hl
    exact ⟨(hes e he).not_mem_lineText, (hes e he).getLast?_lineText⟩
  have htrim : (es.map PrintedError.lineText).map Text.trimEnd = es.map PrintedError.lineText := by
    rw [List.map_map]
    exact List.map_congr_left fun e he => (hes e he).trimEnd_lineText
  rw [Report.contentLines, hlines, htrim, List.filter_eq_self]
  intro l hl
  obtain ⟨e, he, rfl⟩ := List.mem_map.1 hl
  simp [PrintedError.lineText_eq]

theorem items_printReport {es : List PrintedError} (hes : ∀ e ∈ es, e.WellFormed) :
    Report.items (printReport es) = (es.map PrintedError.diagnostic).map fun d => Item.entry (.error d) := by
  rw [Report.items, contentLines_printReport hes, List.map_map, List.map_map]
  refine List.map_congr_left fun e he => ?_
  simp [Item.ofLine, (hes e he).ofText?_line]

theorem gather_errors (current : Option Diagnostic) (ds : List Diagnostic) :
    gather current (ds.map fun d => Item.entry (.error d)) = current.toList ++ ds := by
  induction ds generalizing current with
  | nil => simp [gather]
  | cons d ds ih => simp [gather, ih]

theorem firstOfKey_of_nodup {ds : List Diagnostic} (h : (ds.map Diagnostic.key).Nodup) : firstOfKey ds = ds := by
  induction ds with
  | nil => rfl
  | cons d ds ih =>
    obtain ⟨hd, hds⟩ := List.nodup_cons.1 h
    rw [firstOfKey, ih hds, List.filter_eq_self.2]
    intro e he
    rw [bne_iff_ne]
    exact fun heq => hd (heq ▸ List.mem_map_of_mem he)

/-- In a list without repetition the places go up. -/
theorem pairwise_idxOf {ds : List Diagnostic} (h : ds.Nodup) : ds.Pairwise fun d e => ds.idxOf d < ds.idxOf e := by
  rw [List.pairwise_iff_getElem]
  intro i j hi hj hij
  rwa [h.idxOf_getElem i hi, h.idxOf_getElem j hj]

/-- **A printed report is read back.** Its diagnostics come by path and by line, those of one line as they were
printed. -/
theorem Report.ofText_printed (es : List PrintedError) (hes : ∀ e ∈ es, e.WellFormed)
    (hkeys : (es.map fun e => (e.path, e.line, e.col, e.code)).Nodup) :
    (Report.ofText (printReport es)).diagnostics.Perm (es.map PrintedError.diagnostic) ∧
      (Report.ofText (printReport es)).diagnostics.Pairwise
        (Diagnostic.InOrder fun d => (es.map PrintedError.diagnostic).idxOf d) ∧
      (Report.ofText (printReport es)).unparsed = 0 := by
  have hnodup : ((es.map PrintedError.diagnostic).map Diagnostic.key).Nodup := by
    have hmap : (es.map PrintedError.diagnostic).map Diagnostic.key =
        (es.map fun e => (e.path, e.line, e.col, e.code)).map (Prod.map ReportPath.mk id) := by
      rw [List.map_map, List.map_map]
      exact List.map_congr_left fun e _ => rfl
    rw [hmap]
    exact hkeys.map (Function.Injective.prodMap (fun _ _ h => congrArg ReportPath.text h) Function.injective_id)
  have hfirst : firstOfKey (gather none (Report.items (printReport es))) = es.map PrintedError.diagnostic := by
    rw [items_printReport hes, gather_errors]
    exact firstOfKey_of_nodup hnodup
  have hdiagnostics : (Report.ofText (printReport es)).diagnostics =
      (es.map PrintedError.diagnostic).mergeSort Diagnostic.le := by
    rw [← hfirst]
    rfl
  have hunparsed : (Report.ofText (printReport es)).unparsed =
      (Report.items (printReport es)).countP (· == .other true) := rfl
  refine ⟨hdiagnostics ▸ List.mergeSort_perm _ _, ?_, ?_⟩
  · rw [hdiagnostics]
    exact pairwise_inOrder_mergeSort (pairwise_idxOf (.of_map _ hnodup))
  · rw [hunparsed, items_printReport hes]
    simp [List.countP_eq_zero]

/-- Messages that look like places, codes and entries. -/
theorem Report.ofText_printed_mixed :
    let es : List PrintedError := [
      { path := "b c.py".toList, line := 4294967295, col := some 0, ending := some (7, 9),
        text := "a.py:1: error: list[int] 3:4: note: [x]\ry".toList, code := some "misc".toList },
      { path := "..".toList, line := 2, text := "invalid syntax:  [no code]".toList },
      { path := "..".toList, line := 2, col := some 1, text := "x  [misc]".toList, code := some "syntax".toList }]
    (∀ e ∈ es, e.WellFormed) ∧ (es.map fun e => (e.path, e.line, e.col, e.code)).Nodup ∧
      (Report.ofText (printReport es)).diagnostics.Perm (es.map PrintedError.diagnostic) ∧
      (Report.ofText (printReport es)).diagnostics.Pairwise
        (Diagnostic.InOrder fun d => (es.map PrintedError.diagnostic).idxOf d) ∧
      (Report.ofText (printReport es)).unparsed = 0 := by
  intro es
  have hes : ∀ e ∈ es, e.WellFormed := by decide +kernel
  have hkeys : (es.map fun e => (e.path, e.line, e.col, e.code)).Nodup := by decide +kernel
  exact ⟨hes, hkeys, Report.ofText_printed es hes hkeys⟩

end TypeIgnore
