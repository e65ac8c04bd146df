import TypeIgnore.Proofs.Report.Printing

/-!
# The grammar of entries

An error is to stand in a line `path:line[:col[:endLine:endCol]]: error: message`.

* `RawEntry.IsEntry p t raw` — the line `t` is the entry `raw`, whose path satisfies `p`;
* `RawEntry.ofText?_eq_some_iff` — the lines that are read as entries, and as which;
* `EntryPlace` — a place by the grammar, with an end only after a column; `FollowsGrammar line d` — the line has such a
  place, and `d` has its numbers;
* `placeOf?` — the place that is read, `Diagnostic.ReadFrom` — the fields of a diagnostic as they stand in a line;
* `RawEntry.written_eq_of_entryPlace` — a line that can be read in two ways has one place only;
* `Report.ofText_followsGrammar_iff` — which diagnostics of a report follow the grammar.
-/

namespace TypeIgnore

/-! ## Entries as written -/

def EntryKind.lead : EntryKind → Text
  | .error => ": error: "
  | .note => ": note: "

/-- Numbers, each after a colon. -/
def numbersText (ns : List Text) : Text := ns.flatMap fun n => ':' :: n

def IsNumber (t : Text) : Prop := t ≠ [] ∧ ∀ c ∈ t, Text.isDigit c = true

namespace RawEntry

/-- The numbers of the entry, in order. -/
def written (raw : RawEntry) : List Text :=
  raw.line :: (raw.col.toList ++ raw.ending.elim [] fun ending => [ending.1, ending.2])

/-- The entry after its path. -/
def tailText (raw : RawEntry) : Text := numbersText raw.written ++ (raw.kind.lead ++ raw.message)

def IsPlainPath (path : Text) : Prop := path ≠ [] ∧ ∀ c ∈ path, isPathChar c = true

def IsDrivePath (path : Text) : Prop :=
  ∃ letter rest, path = letter :: ':' :: rest ∧ letter.isAlpha = true ∧ IsPlainPath rest

/-- `raw` is an entry as it stands in the line `t`, with a path that satisfies `p`. -/
structure IsEntry (p : Text → Prop) (t : Text) (raw : RawEntry) : Prop where
  text : t = raw.path ++ raw.tailText
  path : p raw.path
  numbers : ∀ n ∈ raw.written, IsNumber n

theorem exists_lead_append (kind : EntryKind) (message : Text) :
    ∃ rest, kind.lead ++ message = ':' :: ' ' :: rest := by
  cases kind <;> exact ⟨_, rfl⟩

theorem message?_eq_some_iff {t message : Text} {kind : EntryKind} :
    message? t = some (kind, message) ↔ t = kind.lead ++ message := by
  constructor
  · intro h
    unfold message? at h
    split at h
    · rename_i herror
      cases h
      exact Text.after?_eq_some_iff.1 herror
    · rename_i hnote
      cases h
      exact Text.after?_eq_some_iff.1 hnote
    · cases h
  · rintro rfl
    cases kind <;> rfl

theorem numbers_sound (count : Nat) (t : Text) :
    t = numbersText (numbers count t).1 ++ (numbers count t).2 ∧ ∀ n ∈ (numbers count t).1, IsNumber n := by
  fun_induction numbers count t with
  | case1 count t hnil => simp [numbersText]
  | case2 count t more rest hmore hne ih =>
    rw [hmore] at ih
    obtain ⟨htext, hnumbers⟩ := ih
    have hnumber : IsNumber (t.takeWhile Text.isDigit) := ⟨hne, List.all_eq_true.1 List.all_takeWhile⟩
    refine ⟨?_, List.forall_mem_cons.2 ⟨hnumber, hnumbers⟩⟩
    conv_lhs => rw [← List.takeWhile_append_dropWhile (p := Text.isDigit) (l := t), htext]
    simp [numbersText]
  | case3 count t _ => simp [numbersText]

theorem length_written_le (raw : RawEntry) : raw.written.length ≤ 4 := by
  obtain ⟨path, line, _ | col, _ | ending, kind, message⟩ := raw <;> simp [written]

theorem ofParts?_eq_some_iff {path t : Text} {raw : RawEntry} :
    ofParts? path t = some raw ↔ raw.path = path ∧ t = raw.tailText ∧ ∀ n ∈ raw.written, IsNumber n := by
  constructor
  · intro h
    obtain ⟨⟨kind, message⟩, hmessage, hmatch⟩ := Option.bind_eq_some_iff.1 h
    obtain ⟨htext, hnumbers⟩ := numbers_sound 4 t
    rw [message?_eq_some_iff.1 hmessage] at htext
    simp only at hmatch
    -- one case for each number of numbers, and none of them loses one
    split at hmatch
    case h_5 => cases hmatch
    all_goals
      rename_i hns
      cases hmatch
      rw [hns] at htext hnumbers
      exact ⟨rfl, htext, hnumbers⟩
  · rintro ⟨rfl, rfl, hnumbers⟩
    obtain ⟨rest, hlead⟩ := exists_lead_append raw.kind raw.message
    have hread := numbers_append_texts raw.length_written_le hnumbers rest
    rw [← hlead] at hread
    have hmessage := message?_eq_some_iff.2 (rfl : raw.kind.lead ++ raw.message = _)
    unfold ofParts? tailText numbersText
    simp only [hread, hmessage, Option.bind_eq_bind, Option.bind_some]
    obtain ⟨path, line, _ | col, _ | ending, kind, message⟩ := raw <;> rfl

/-! ## Paths -/

theorem path?_eq_some_iff {t path rest : Text} :
    path? t = some (path, rest) ↔ t = path ++ rest ∧ IsPlainPath path ∧ rest.head? = some ':' := by
  constructor
  · intro h
    unfold path? at h
    split at h
    · rename_i c chars after htake hdrop
      cases h
      have ht := List.takeWhile_append_dropWhile (p := isPathChar) (l := t)
      have hchars : ∀ x ∈ t.takeWhile isPathChar, isPathChar x = true := List.all_eq_true.1 List.all_takeWhile
      rw [htake, hdrop] at ht
      rw [htake] at hchars
      exact ⟨ht.symm, ⟨List.cons_ne_nil _ _, hchars⟩, rfl⟩
    · cases h
  · rintro ⟨rfl, ⟨hne, hchars⟩, hhead⟩
    obtain ⟨after, rfl⟩ := List.head?_eq_some_iff.1 hhead
    exact path?_append hne hchars after

theorem drivePath?_eq_some_iff {t path rest : Text} :
    drivePath? t = some (path, rest) ↔ t = path ++ rest ∧ IsDrivePath path ∧ rest.head? = some ':' := by
  constructor
  · intro h
    unfold drivePath? at h
    split at h
    · rename_i letter t
      split at h
      · rename_i halpha
        obtain ⟨⟨plain, after⟩, hplain, heq⟩ := Option.map_eq_some_iff.1 h
        cases heq
        obtain ⟨rfl, hpath, hhead⟩ := path?_eq_some_iff.1 hplain
        exact ⟨rfl, ⟨letter, plain, rfl, halpha, hpath⟩, hhead⟩
      · cases h
    · cases h
  · rintro ⟨rfl, ⟨letter, plain, rfl, halpha, hpath⟩, hhead⟩
    have hplain := path?_eq_some_iff.2 ⟨rfl, hpath, hhead⟩
    simp [drivePath?, halpha, hplain]

/-! ## Lines -/

/-- An entry whose path is found by `find`. -/
theorem bind_ofParts?_eq_some_iff {p : Text → Prop} {find : Text → Option (Text × Text)}
    (hfind : ∀ {t path rest}, find t = some (path, rest) ↔ t = path ++ rest ∧ p path ∧ rest.head? = some ':')
    (t : Text) (raw : RawEntry) :
    ((find t).bind fun (path, rest) => ofParts? path rest) = some raw ↔ IsEntry p t raw := by
  rw [Option.bind_eq_some_iff]
  constructor
  · rintro ⟨⟨path, rest⟩, hpath, hparts⟩
    obtain ⟨rfl, hp, -⟩ := hfind.1 hpath
    obtain ⟨rfl, rfl, hnumbers⟩ := ofParts?_eq_some_iff.1 hparts
    exact ⟨rfl, hp, hnumbers⟩
  · rintro ⟨rfl, hp, hnumbers⟩
    exact ⟨(raw.path, raw.tailText), hfind.2 ⟨rfl, hp, rfl⟩, ofParts?_eq_some_iff.2 ⟨rfl, rfl, hnumbers⟩⟩

/-- **What is read as an entry.** A path with a drive letter comes first. -/
theorem ofText?_eq_some_iff {t : Text} {raw : RawEntry} :
    ofText? t = some raw ↔
      IsEntry IsDrivePath t raw ∨ IsEntry IsPlainPath t raw ∧ ∀ other, ¬IsEntry IsDrivePath t other := by
  have hdrive := bind_ofParts?_eq_some_iff drivePath?_eq_some_iff t
  have hplain := bind_ofParts?_eq_some_iff path?_eq_some_iff t raw
  unfold ofText?
  cases hfound : (drivePath? t).bind fun (path, rest) => ofParts? path rest with
  | some entry =>
    have hentry := (hdrive entry).1 hfound
    constructor
    · rintro ⟨⟩
      exact .inl hentry
    · rintro (h | ⟨-, hno⟩)
      · exact hfound.symm.trans ((hdrive raw).2 h)
      · exact absurd hentry (hno entry)
  | none =>
    have hno : ∀ other, ¬IsEntry IsDrivePath t other := by
      intro other h
      rw [(hdrive other).2 h] at hfound
      cases hfound
    constructor
    · intro h
      exact .inr ⟨hplain.1 h, hno⟩
    · rintro (h | ⟨h, -⟩)
      · exact absurd h (hno raw)
      · exact hplain.2 h

/-! ## Two ways to read a line -/

theorem numbersText_inj {ns ns' : List Text} {rest rest' : Text} (h : ∀ n ∈ ns, IsNumber n)
    (h' : ∀ n ∈ ns', IsNumber n) (heq : numbersText ns ++ ':' :: ' ' :: rest = numbersText ns' ++ ':' :: ' ' :: rest') :
    ns = ns' := by
  have hread := numbers_append_texts (Nat.le_add_right ns.length ns'.length) h rest
  have hread' := numbers_append_texts (Nat.le_add_left ns'.length ns.length) h' rest'
  unfold numbersText at heq
  rw [heq, hread'] at hread
  exact (congrArg Prod.fst hread).symm

theorem isPathChar_of_class {q : Char → Bool} {c : Char} (hq : (q ':' || q '\r' || q '\n') = false)
    (hc : q c = true) : isPathChar c = true := by
  have hne {x : Char} (hx : q x = false) : c ≠ x := by
    rintro rfl
    rw [hx] at hc
    cases hc
  obtain ⟨⟨hcolon, hreturn⟩, hfeed⟩ : (q ':' = false ∧ q '\r' = false) ∧ q '\n' = false := by
    simpa only [Bool.or_eq_false_iff] using hq
  simp only [isPathChar, Bool.and_eq_true, bne_iff_ne]
  exact ⟨⟨hne hcolon, hne hreturn⟩, hne hfeed⟩

theorem isPlainPath_of_isNumber {n : Text} (h : IsNumber n) : IsPlainPath n :=
  ⟨h.1, fun c hc => isPathChar_of_class (by decide) (h.2 c hc)⟩

theorem isPlainPath_letter {letter : Char} (h : letter.isAlpha = true) : IsPlainPath [letter] :=
  ⟨List.cons_ne_nil _ _, List.forall_mem_singleton.2 (isPathChar_of_class (by decide) h)⟩

/-- A path ends at the first colon. -/
theorem plainPath_inj {path path' rest rest' : Text} (h : IsPlainPath path) (h' : IsPlainPath path')
    (hrest : rest.head? = some ':') (hrest' : rest'.head? = some ':') (heq : path ++ rest = path' ++ rest') :
    path = path' ∧ rest = rest' := by
  have hfound := path?_eq_some_iff.2 ⟨rfl, h, hrest⟩
  rw [heq, path?_eq_some_iff.2 ⟨rfl, h', hrest'⟩] at hfound
  cases hfound
  exact ⟨rfl, rfl⟩

/-- Read without its drive, a path with a drive letter is the letter, and what stands behind the drive is a number. -/
theorem IsEntry.written_of_drive {t : Text} {raw raw' : RawEntry} (h : IsEntry IsDrivePath t raw)
    (h' : IsEntry IsPlainPath t raw') : ∃ n, raw'.written = n :: raw.written := by
  obtain ⟨letter, plain, hpath, halpha, hplain⟩ := h.path
  have ht := h.text
  rw [h'.text, hpath] at ht
  obtain ⟨-, htail⟩ := plainPath_inj h'.path (isPlainPath_letter halpha) rfl rfl ht
  obtain ⟨more, hwritten⟩ : ∃ more, raw'.written = raw'.line :: more := ⟨_, rfl⟩
  obtain ⟨hline, hmore⟩ := List.forall_mem_cons.1 (hwritten ▸ h'.numbers)
  obtain ⟨rest, hlead⟩ := exists_lead_append raw.kind raw.message
  obtain ⟨rest', hlead'⟩ := exists_lead_append raw'.kind raw'.message
  have htail' : raw'.line ++ (numbersText more ++ (raw'.kind.lead ++ raw'.message)) = plain ++ raw.tailText := by
    rw [tailText, hwritten] at htail
    simpa [numbersText] using htail
  have hhead : (numbersText more ++ (raw'.kind.lead ++ raw'.message)).head? = some ':' := by
    rw [hlead']
    cases more <;> rfl
  obtain ⟨-, hrest⟩ := plainPath_inj (isPlainPath_of_isNumber hline) hplain hhead rfl htail'
  rw [tailText, hlead, hlead'] at hrest
  exact ⟨raw'.line, hwritten.trans (congrArg _ (numbersText_inj hmore h.numbers hrest))⟩

end RawEntry

open RawEntry

/-! ## The grammar -/

/-- Where a diagnostic is: line, column, and line and column of the end. -/
structure ErrorPlace where
  line : Nat
  col : Option Nat
  endLine : Option Nat
  endCol : Option Nat
  deriving DecidableEq, Repr

def Diagnostic.place (d : Diagnostic) : ErrorPlace := ⟨d.line, d.col, d.endLine, d.endCol⟩

/-- A place by the grammar `line[:col[:endLine:endCol]]`. -/
inductive EntryPlace
  | lineOnly (line : Nat)
  | column (line col : Nat)
  | span (line col endLine endCol : Nat)
  deriving DecidableEq, Repr

namespace EntryPlace

def numbers : EntryPlace → List Nat
  | .lineOnly line => [line]
  | .column line col => [line, col]
  | .span line col endLine endCol => [line, col, endLine, endCol]

def place : EntryPlace → ErrorPlace
  | .lineOnly line => ⟨line, none, none, none⟩
  | .column line col => ⟨line, some col, none, none⟩
  | .span line col endLine endCol => ⟨line, some col, some endLine, some endCol⟩

end EntryPlace

/-- The line is `path:number:...:number: error: message`. -/
structure IsErrorLine (line path : Text) (numbers : List Text) (message : Text) : Prop where
  text : line = path ++ (numbersText numbers ++ (": error: " ++ message))
  path : IsDrivePath path ∨ IsPlainPath path
  numbers : ∀ n ∈ numbers, IsNumber n

/-- The line is `path:line[:col[:endLine:endCol]]: error: message`, and `d` has the numbers that stand there. -/
def FollowsGrammar (line : Text) (d : Diagnostic) : Prop :=
  ∃ path numbers message, ∃ location : EntryPlace, IsErrorLine line path numbers message ∧
    numbers.map Text.word? = location.numbers.map some ∧ d.place = location.place

/-- By the grammar an end comes only after a column. -/
theorem FollowsGrammar.isSome_col {line : Text} {d : Diagnostic} (h : FollowsGrammar line d)
    (hend : d.endLine.isSome = true) : d.col.isSome = true := by
  obtain ⟨path, numbers, message, location, -, -, hplace⟩ := h
  cases location <;> simp_all [Diagnostic.place, EntryPlace.place]

/-! ## What the numbers of a line become -/

def endOf? (endLine endCol : Text) : Option (Nat × Nat) := do
  return (← Text.word? endLine, ← Text.word? endCol)

/-- The place that the numbers of a line give: after the line number, one number is the column and two are the end. A
column that does not fit in a word is dropped, and so is an end with a number that does not. -/
def placeOf? : List Text → Option ErrorPlace
  | [line] => (Text.word? line).map fun n => ⟨n, none, none, none⟩
  | [line, col] => (Text.word? line).map fun n => ⟨n, Text.word? col, none, none⟩
  | [line, endLine, endCol] => (Text.word? line).map fun n =>
    ⟨n, none, (endOf? endLine endCol).map (·.1), (endOf? endLine endCol).map (·.2)⟩
  | [line, col, endLine, endCol] => (Text.word? line).map fun n =>
    ⟨n, Text.word? col, (endOf? endLine endCol).map (·.1), (endOf? endLine endCol).map (·.2)⟩
  | _ => none

/-- The fields of `d` stand in the line, each in its place; notes may follow the message. -/
structure Diagnostic.ReadFrom (d : Diagnostic) (path : Text) (numbers : List Text) (message : Text) : Prop where
  path : d.path = ReportPath.ofText (Text.trim path)
  place : placeOf? numbers = some d.place
  code : d.code = (splitCode (Text.trim message)).2
  message : (splitCode (Text.trim message)).1 <+: d.message

theorem placeOf?_col {ns : List Text} {place : ErrorPlace} (h : placeOf? ns = some place)
    (hlength : ns.length = 1 ∨ ns.length = 3) : place.col = none := by
  unfold placeOf? at h
  split at h
  · obtain ⟨n, -, rfl⟩ := Option.map_eq_some_iff.1 h
    rfl
  · simp at hlength
  · obtain ⟨n, -, rfl⟩ := Option.map_eq_some_iff.1 h
    rfl
  · simp at hlength
  · cases h

theorem length_eq_of_words {ns : List Text} {location : EntryPlace}
    (h : ns.map Text.word? = location.numbers.map some) : ns.length = location.numbers.length := by
  simpa using congrArg List.length h

/-- **When the numbers of a line are a place by the grammar.** -/
theorem exists_entryPlace_iff {ns : List Text} {place : ErrorPlace} (h : placeOf? ns = some place) :
    (∃ location : EntryPlace, ns.map Text.word? = location.numbers.map some ∧ place = location.place) ↔
      ns.length ≠ 3 ∧ ∀ n ∈ ns, (Text.word? n).isSome = true := by
  constructor
  · rintro ⟨location, hwords, -⟩
    constructor
    · rw [length_eq_of_words hwords]
      cases location <;> simp [EntryPlace.numbers]
    · intro n hn
      have hmem : Text.word? n ∈ ns.map Text.word? := List.mem_map_of_mem hn
      rw [hwords] at hmem
      obtain ⟨k, -, hk⟩ := List.mem_map.1 hmem
      rw [← hk]
      rfl
  · rintro ⟨hlength, hsome⟩
    unfold placeOf? at h
    split at h
    · rename_i line
      obtain ⟨n, hn, rfl⟩ := Option.map_eq_some_iff.1 h
      exact ⟨.lineOnly n, by simp [EntryPlace.numbers, hn], rfl⟩
    · rename_i line col
      obtain ⟨n, hn, rfl⟩ := Option.map_eq_some_iff.1 h
      obtain ⟨c, hc⟩ := Option.isSome_iff_exists.1 (hsome col (by simp))
      exact ⟨.column n c, by simp [EntryPlace.numbers, hn, hc], by simp [EntryPlace.place, hc]⟩
    · exact absurd rfl hlength
    · rename_i line col endLine endCol
      obtain ⟨n, hn, rfl⟩ := Option.map_eq_some_iff.1 h
      obtain ⟨c, hc⟩ := Option.isSome_iff_exists.1 (hsome col (by simp))
      obtain ⟨l, hl⟩ := Option.isSome_iff_exists.1 (hsome endLine (by simp))
      obtain ⟨k, hk⟩ := Option.isSome_iff_exists.1 (hsome endCol (by simp))
      exact ⟨.span n c l k, by simp [EntryPlace.numbers, hn, hc, hl, hk],
        by simp [EntryPlace.place, endOf?, hc, hl, hk]⟩
    · cases h

/-! ## Entries -/

section Diagnostic

variable (raw : RawEntry) (line : Nat)

theorem Entry.place_diagnostic :
    (Entry.diagnostic raw line).place =
      ⟨line, raw.col.bind Text.word?, (raw.ending.bind fun ending => endOf? ending.1 ending.2).map (·.1),
        (raw.ending.bind fun ending => endOf? ending.1 ending.2).map (·.2)⟩ := by
  unfold Entry.diagnostic
  simp only
  split
  · rfl
  · split <;> rfl

theorem placeOf?_written (hline : Text.word? raw.line = some line) :
    placeOf? raw.written = some (Entry.diagnostic raw line).place := by
  rw [Entry.place_diagnostic]
  obtain ⟨path, first, _ | col, _ | ending, kind, message⟩ := raw <;> simp_all [RawEntry.written, placeOf?]

theorem Entry.readFrom_diagnostic (hline : Text.word? raw.line = some line) :
    (Entry.diagnostic raw line).ReadFrom raw.path raw.written raw.message := by
  have hplace := placeOf?_written raw line hline
  have hfields : (Entry.diagnostic raw line).path = ReportPath.ofText (Text.trim raw.path) ∧
      (Entry.diagnostic raw line).code = (splitCode (Text.trim raw.message)).2 ∧
      (Entry.diagnostic raw line).message = (splitCode (Text.trim raw.message)).1 := by
    unfold Entry.diagnostic
    simp only
    split
    · rename_i code hcode
      exact ⟨rfl, hcode.symm, rfl⟩
    · rename_i hcode
      split <;> exact ⟨rfl, hcode.symm, rfl⟩
  obtain ⟨hpath, hcode, hmessage⟩ := hfields
  exact ⟨hpath, hplace, hcode, hmessage ▸ List.prefix_rfl⟩

end Diagnostic

/-- An entry with a given path, numbers and message. -/
theorem RawEntry.exists_written {ns : List Text} (hne : ns ≠ []) (hlength : ns.length ≤ 4) (path message : Text) :
    ∃ raw : RawEntry, raw.path = path ∧ raw.written = ns ∧ raw.kind = .error ∧ raw.message = message := by
  match ns, hne, hlength with
  | [line], _, _ => exact ⟨⟨path, line, none, none, .error, message⟩, rfl, rfl, rfl, rfl⟩
  | [line, col], _, _ => exact ⟨⟨path, line, some col, none, .error, message⟩, rfl, rfl, rfl, rfl⟩
  | [line, endLine, endCol], _, _ =>
    exact ⟨⟨path, line, none, some (endLine, endCol), .error, message⟩, rfl, rfl, rfl, rfl⟩
  | [line, col, endLine, endCol], _, _ =>
    exact ⟨⟨path, line, some col, some (endLine, endCol), .error, message⟩, rfl, rfl, rfl, rfl⟩
  | _ :: _ :: _ :: _ :: _ :: _, _, hlength =>
    simp only [List.length_cons] at hlength
    omega

/-- The entry that a line is read as is the only one by the grammar: no other way to read the line has its place. -/
theorem RawEntry.written_eq_of_entryPlace {t path message : Text} {ns : List Text} {raw : RawEntry}
    {location : EntryPlace} (hraw : RawEntry.ofText? t = some raw) (hplace : placeOf? raw.written = some location.place)
    (h : IsErrorLine t path ns message) (hns : ns.map Text.word? = location.numbers.map some) : ns = raw.written := by
  have hlength := length_eq_of_words hns
  have hne : ns ≠ [] := by
    rintro rfl
    cases location <;> cases hlength
  have hle : ns.length ≤ 4 := by
    rw [hlength]
    cases location <;> simp [EntryPlace.numbers]
  obtain ⟨raw', hpath, rfl, hkind, hmessage⟩ := exists_written hne hle path message
  have hentry {p : Text → Prop} (hp : p path) : IsEntry p t raw' := by
    refine ⟨?_, hpath ▸ hp, h.numbers⟩
    rw [h.text, tailText, hpath, hkind, hmessage]
    rfl
  rcases h.path with hdrive | hplain
  · have hread := ofText?_eq_some_iff.2 (.inl (hentry hdrive))
    rw [hraw] at hread
    cases hread
    rfl
  · rcases ofText?_eq_some_iff.1 hraw with hdrive | ⟨-, hno⟩
    · -- with a drive the line has one number less, and its column is not where the grammar has it
      obtain ⟨n, hn⟩ := hdrive.written_of_drive (hentry hplain)
      rw [hn, List.length_cons] at hlength
      cases location with
      | lineOnly l => simp [RawEntry.written, EntryPlace.numbers] at hlength
      | column l c => cases placeOf?_col hplace (.inl (Nat.succ.inj hlength))
      | span l c endLine endCol => cases placeOf?_col hplace (.inr (Nat.succ.inj hlength))
    · have hread := ofText?_eq_some_iff.2 (.inr ⟨hentry hplain, hno⟩)
      rw [hraw] at hread
      cases hread
      rfl

/-- **What an error says about its line:** its fields stand there, and their place is one by the grammar unless three
numbers stand there or one that does not fit in a word. -/
theorem Entry.exists_errorLine {line : Text} {e : Diagnostic} (h : Entry.ofText? line = some (.error e)) :
    ∃ path numbers message, IsErrorLine line path numbers message ∧ e.ReadFrom path numbers message ∧
      (FollowsGrammar line e ↔ numbers.length ≠ 3 ∧ ∀ n ∈ numbers, (Text.word? n).isSome = true) := by
  obtain ⟨raw, hraw, hrest⟩ := Option.bind_eq_some_iff.1 h
  obtain ⟨l, hl, hentry⟩ := Option.bind_eq_some_iff.1 hrest
  split at hentry
  · rename_i hkind
    cases hentry
    have hread := Entry.readFrom_diagnostic raw l hl
    have hline : IsErrorLine line raw.path raw.written raw.message := by
      rcases ofText?_eq_some_iff.1 hraw with hdrive | ⟨hplain, -⟩
      · exact ⟨by rw [hdrive.text, tailText, hkind]; rfl, .inl hdrive.path, hdrive.numbers⟩
      · exact ⟨by rw [hplain.text, tailText, hkind]; rfl, .inr hplain.path, hplain.numbers⟩
    refine ⟨raw.path, raw.written, raw.message, hline, hread, ?_⟩
    rw [← exists_entryPlace_iff hread.place]
    constructor
    · rintro ⟨path, ns, message, location, hother, hwords, hplace⟩
      have hns := written_eq_of_entryPlace hraw (hread.place.trans (congrArg some hplace)) hother hwords
      exact ⟨location, hns ▸ hwords, hplace⟩
    · rintro ⟨location, hwords, hplace⟩
      exact ⟨raw.path, raw.written, raw.message, location, hline, hwords, hplace⟩
  · cases hentry

/-! ## Reports -/

theorem Report.exists_line_of_mem {text : Text} {d : Diagnostic} (h : d ∈ (Report.ofText text).diagnostics) :
    IsFirstReading (contentLines text) d :=
  (keepsFirst_items text).first d ((List.mergeSort_perm _ _).mem_iff.1 h)

/-- Notes change neither the place nor what comes before them. -/
theorem Diagnostic.ReadFrom.withNotes {e : Diagnostic} {path message : Text} {numbers : List Text}
    (h : e.ReadFrom path numbers message) (notes : List Text) : (e.withNotes notes).ReadFrom path numbers message :=
  ⟨h.path, h.place, h.code, h.message.trans (List.prefix_append _ _)⟩

/-- **Where the diagnostics of a report stand.** Each comes from a line `path:number:...:number: error: message`, from
which it has its fields; its place is one by the grammar `line[:col[:endLine:endCol]]` exactly where the numbers are not
three and all of them fit in a word. -/
theorem Report.ofText_followsGrammar_iff (text : Text) (d : Diagnostic) (hd : d ∈ (Report.ofText text).diagnostics) :
    (∃ line, IsReadingOf (contentLines text) line d) ∧
      ∀ line, IsReadingOf (contentLines text) line d →
        ∃ path numbers message, IsErrorLine line path numbers message ∧ d.ReadFrom path numbers message ∧
          (FollowsGrammar line d ↔ numbers.length ≠ 3 ∧ ∀ n ∈ numbers, (Text.word? n).isSome = true) := by
  refine ⟨exists_line_of_mem hd, ?_⟩
  rintro line ⟨before, after, e, -, hline, -, rfl⟩
  obtain ⟨path, numbers, message, herror, hread, hgrammar⟩ := Entry.exists_errorLine hline
  exact ⟨path, numbers, message, herror, hread.withNotes _, hgrammar⟩

/-- A path with a drive, and a column that does not fit in a word. -/
theorem Report.ofText_followsGrammar_iff_drive :
    let text : Text := "C:/x.py:7:99999999999:8:9: error: m  [misc]\n"
    let d : Diagnostic :=
      { path := ⟨"C:/x.py"⟩, line := 7, endLine := some 8, endCol := some 9, code := some "misc", message := "m" }
    d ∈ (Report.ofText text).diagnostics ∧ (∃ line, IsReadingOf (contentLines text) line d) ∧
      ∀ line, IsReadingOf (contentLines text) line d →
        ∃ path numbers message, IsErrorLine line path numbers message ∧ d.ReadFrom path numbers message ∧
          (FollowsGrammar line d ↔ numbers.length ≠ 3 ∧ ∀ n ∈ numbers, (Text.word? n).isSome = true) := by
  intro text d
  have hdiagnostics : (Report.ofText text).diagnostics = [d] := diagnostics_eq_singleton (by decide +kernel)
  have hd : d ∈ (Report.ofText text).diagnostics := hdiagnostics ▸ List.mem_singleton_self d
  exact ⟨hd, Report.ofText_followsGrammar_iff text d hd⟩

/-- Three numbers are read as a line and an end, and there is no column. -/
theorem Report.ofText_three_numbers :
    let line : Text := "a.py:1:2:3: error: m"
    let d : Diagnostic := { path := ⟨"a.py"⟩, line := 1, endLine := some 2, endCol := some 3, message := "m" }
    (Report.ofText line).diagnostics = [d] ∧ IsReadingOf (contentLines line) line d ∧ ¬FollowsGrammar line d := by
  intro line d
  have hentry : Entry.ofText? line = some (.error d) := by decide +kernel
  refine ⟨diagnostics_eq_singleton (by decide +kernel), ?_, fun h => ?_⟩
  · exact ⟨[], [], d, by decide +kernel, hentry, by simp, by decide +kernel⟩
  · cases h.isSome_col rfl

end TypeIgnore
