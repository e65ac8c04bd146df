import TypeIgnore.Render.Annotation
import TypeIgnore.Proofs.Marker.Synthesis
import TypeIgnore.Proofs.Text.Number

/-!
# Annotations read by a runner

What a runner does with a workflow command, and that it finds in an annotation what was to be shown.

* `unescape char?` — one pass over a text, in which a percent sign and two characters stand for the character that
  `char?` knows them by: `dataChar?` in messages, `propertyChar?` in properties;
* `RunnerWarning.ofText?` — a warning as the runner reads it;
* `Undone char? escape` — each character is written as itself or as one that `char?` knows, hence the whole text is read
  back (`Undone.unescape`); kept by one more replacement (`Undone.replaceChar`), hence true of messages and properties;
* `properties?_written` — properties are told apart, whatever their values;
* `ofText?_annotation` — an annotation is read as what it says.
-/

namespace TypeIgnore

/-! ## The runner -/

/-- The character that stands in a message as `%` and the two characters. -/
def dataChar? : Char → Char → Option Char
  | '2', '5' => some '%'
  | '0', 'D' => some '\r'
  | '0', 'A' => some '\n'
  | _, _ => none

/-- The character that stands in a property as `%` and the two characters. -/
def propertyChar? : Char → Char → Option Char
  | '3', 'A' => some ':'
  | '2', 'C' => some ','
  | a, b => dataChar? a b

/-- The text with the characters that `char?` knows, in one pass; any other percent sign stays. -/
def unescape (char? : Char → Char → Option Char) : Text → Text
  | [] => []
  | '%' :: a :: b :: t =>
    match char? a b with
    | some c => c :: unescape char? t
    | none => '%' :: unescape char? (a :: b :: t)
  | c :: t => c :: unescape char? t

namespace Text

/-- The text before the first `mark`, and the text after it. -/
def cutAt? (mark : Text) : Text → Option (Text × Text)
  | [] => none
  | c :: t =>
    match after? mark (c :: t) with
    | some rest => some ([], rest)
    | none => (cutAt? mark t).map fun (front, rest) => (c :: front, rest)

/-- The number that the text writes in plain digits. -/
def number? (t : Text) : Option Nat := if !t.isEmpty && t.all isPlainDigit then some (digitsValue t) else none

end Text

/-- A warning that a runner shows at a place of a file. -/
structure RunnerWarning where
  file : Text
  line : Nat
  col : Option Nat
  title : Text
  message : Text
  deriving DecidableEq, Repr

namespace RunnerWarning

/-- The properties between commas, each with its name before the first `=`. -/
def properties? (t : Text) : Option (List (Text × Text)) :=
  (Text.splitOn ',' t).mapM fun property =>
    (Text.cutAt? "=" property).map fun (name, value) => (name, unescape propertyChar? value)

/-- The warning that a command tells the runner of: the properties end at the first `::`. -/
def ofText? (t : Text) : Option RunnerWarning := do
  let command ← Text.after? "::warning " t
  let (front, data) ← Text.cutAt? "::" command
  let properties ← properties? front
  let file ← properties.lookup "file".toList
  let line ← (properties.lookup "line".toList).bind Text.number?
  let col ← match properties.lookup "col".toList with
    | none => some none
    | some col => (Text.number? col).map some
  let title ← properties.lookup "title".toList
  return { file, line, col, title, message := unescape dataChar? data }

end RunnerWarning

/-- What is to be shown of a diagnostic that was left alone. -/
def RejectedView.warning (r : RejectedView) : RunnerWarning where
  file := r.path
  line := r.line
  col := r.col
  title := "typeshush " ++ r.reason
  message := (match r.code with
    | some code => "[" ++ code ++ "] " ++ r.message
    | none => r.message) ++ " (not silenced: " ++ r.reason ++ ")"

/-! ## Replacements -/

namespace Text

variable {c x : Char} {part t u : Text}

theorem replaceChar_append (c : Char) (part t u : Text) :
    replaceChar c part (t ++ u) = replaceChar c part t ++ replaceChar c part u :=
  List.flatMap_append

theorem replaceChar_of_not_mem (h : c ∉ t) : replaceChar c part t = t := by
  induction t with
  | nil => rfl
  | cons x t ih =>
    obtain ⟨hx, ht⟩ := not_or.1 (mt List.mem_cons.2 h)
    have hkept : (if x = c then part else [x]) = [x] := if_neg (Ne.symm hx)
    calc replaceChar c part (x :: t) = (if x = c then part else [x]) ++ replaceChar c part t := List.flatMap_cons
      _ = x :: t := by rw [hkept, ih ht, List.singleton_append]

/-- A character after a replacement is of the new part, or it was there and is not the one replaced. -/
theorem mem_replaceChar (h : x ∈ replaceChar c part t) : x ∈ part ∨ x ∈ t ∧ x ≠ c := by
  obtain ⟨y, hy, hx⟩ := List.mem_flatMap.1 h
  split at hx
  · exact .inl hx
  · rename_i hne
    obtain rfl := List.mem_singleton.1 hx
    exact .inr ⟨hy, hne⟩

theorem not_mem_replaceChar_self (h : c ∉ part) : c ∉ replaceChar c part t := fun hc =>
  (mem_replaceChar hc).elim h fun hrest => hrest.2 rfl

theorem not_mem_replaceChar (hpart : x ∉ part) (ht : x ∉ t) : x ∉ replaceChar c part t := fun hx =>
  (mem_replaceChar hx).elim hpart fun hrest => ht hrest.1

end Text

/-! ## Texts written and read back -/

/-- The text is written character by character, each as itself or as one that `char?` knows; a percent sign is never
written as itself. -/
structure Undone (char? : Char → Char → Option Char) (escape : Text → Text) : Prop where
  append : ∀ t u, escape (t ++ u) = escape t ++ escape u
  char : ∀ c, (c ≠ '%' ∧ escape [c] = [c]) ∨ ∃ a b, escape [c] = ['%', a, b] ∧ char? a b = some c

theorem unescape_cons {char? : Char → Char → Option Char} {c : Char} (hc : c ≠ '%') (t : Text) :
    unescape char? (c :: t) = c :: unescape char? t := by
  rw [unescape]
  rintro a b t' rfl -
  exact hc rfl

namespace Undone

variable {char? : Char → Char → Option Char} {escape : Text → Text}

theorem nil (h : Undone char? escape) : escape [] = [] :=
  List.self_eq_append_left.1 (h.append [] [])

/-- **What is written is read back.** -/
theorem unescape (h : Undone char? escape) (t : Text) : TypeIgnore.unescape char? (escape t) = t := by
  induction t with
  | nil =>
    rw [h.nil]
    rfl
  | cons c t ih =>
    rw [← List.singleton_append, h.append]
    rcases h.char c with ⟨hc, hself⟩ | ⟨a, b, hcode, hchar⟩
    · rw [hself, List.singleton_append, unescape_cons hc, ih]
      rfl
    · rw [hcode, List.cons_append, List.cons_append, List.singleton_append, TypeIgnore.unescape, hchar]
      simp only [ih, List.singleton_append]

theorem mono {char?' : Char → Char → Option Char} (h : Undone char? escape)
    (hknown : ∀ a b c, char? a b = some c → char?' a b = some c) : Undone char?' escape where
  append := h.append
  char c := (h.char c).imp_right fun ⟨a, b, hcode, hchar⟩ => ⟨a, b, hcode, hknown a b c hchar⟩

/-- Percent signs come first. -/
theorem percent {a b : Char} (h : char? a b = some '%') : Undone char? (Text.replaceChar '%' ['%', a, b]) where
  append := Text.replaceChar_append _ _
  char c := by
    by_cases hc : c = '%'
    · subst hc
      exact .inr ⟨a, b, rfl, h⟩
    · exact .inl ⟨hc, Text.replaceChar_of_not_mem (by simpa using Ne.symm hc)⟩

/-- One more character is replaced, which what is written for others does not hold. -/
theorem replaceChar (h : Undone char? escape) {c a b : Char} (hpercent : c ≠ '%') (hcode : char? a b = some c)
    (hfree : ∀ a b x, char? a b = some x → c ≠ a ∧ c ≠ b) :
    Undone char? fun t => Text.replaceChar c ['%', a, b] (escape t) where
  append t u := by rw [h.append, Text.replaceChar_append]
  char x := by
    rcases h.char x with ⟨hx, hself⟩ | ⟨a', b', hcode', hchar⟩
    · rw [hself]
      by_cases hxc : x = c
      · subst hxc
        exact .inr ⟨a, b, by simp [Text.replaceChar], hcode⟩
      · exact .inl ⟨hx, Text.replaceChar_of_not_mem (by simpa using Ne.symm hxc)⟩
    · have hkept : c ∉ ['%', a', b'] := by simp [hpercent, hfree a' b' x hchar]
      rw [hcode', Text.replaceChar_of_not_mem hkept]
      exact .inr ⟨a', b', rfl, hchar⟩

end Undone

theorem propertyChar?_of_dataChar? (a b c : Char) (h : dataChar? a b = some c) : propertyChar? a b = some c := by
  unfold dataChar? at h
  split at h
  · exact h
  · exact h
  · exact h
  · cases h

/-- Codes are written with digits and letters. -/
theorem isAlphanum_of_propertyChar? {a b c : Char} (h : propertyChar? a b = some c) :
    a.isAlphanum = true ∧ b.isAlphanum = true := by
  unfold propertyChar? at h
  split at h
  · decide
  · decide
  · unfold dataChar? at h
    split at h
    · decide
    · decide
    · decide
    · cases h

theorem ne_of_propertyChar? {x : Char} (hx : x.isAlphanum = false) (a b c : Char) (h : propertyChar? a b = some c) :
    x ≠ a ∧ x ≠ b := by
  obtain ⟨ha, hb⟩ := isAlphanum_of_propertyChar? h
  refine ⟨?_, ?_⟩
  · rintro rfl
    simp [ha] at hx
  · rintro rfl
    simp [hb] at hx

theorem ne_of_dataChar? {x : Char} (hx : x.isAlphanum = false) (a b c : Char) (h : dataChar? a b = some c) :
    x ≠ a ∧ x ≠ b :=
  ne_of_propertyChar? hx a b c (propertyChar?_of_dataChar? a b c h)

theorem undone_escapeData : Undone dataChar? escapeData := by
  have hpercent : Undone dataChar? (Text.replaceChar '%' "%25") := .percent rfl
  have hreturn := hpercent.replaceChar (c := '\r') (a := '0') (b := 'D') (by decide) rfl (ne_of_dataChar? rfl)
  exact hreturn.replaceChar (by decide) rfl (ne_of_dataChar? rfl)

/-- Properties are messages in which two more characters are replaced. -/
theorem undone_escapeProperty : Undone propertyChar? escapeProperty := by
  have hdata := undone_escapeData.mono propertyChar?_of_dataChar?
  have hcolon := hdata.replaceChar (c := ':') (a := '3') (b := 'A') (by decide) rfl (ne_of_propertyChar? rfl)
  exact hcolon.replaceChar (by decide) rfl (ne_of_propertyChar? rfl)

/-! ## Characters that are not written -/

theorem breakFree_replaceChar {c : Char} {part t : Text} (hpart : BreakFree part) (ht : BreakFree t) :
    BreakFree (Text.replaceChar c part t) := fun x hx =>
  (Text.mem_replaceChar hx).elim (hpart x) fun hrest => ht x hrest.1

theorem breakFree_escapeData (t : Text) : BreakFree (escapeData t) := by
  intro c hc
  have hfeed : '\n' ∉ escapeData t := Text.not_mem_replaceChar_self (by decide)
  have hreturn : '\r' ∉ escapeData t :=
    Text.not_mem_replaceChar (by decide) (Text.not_mem_replaceChar_self (by decide))
  by_contra hbreak
  simp only [isBreak, Bool.not_eq_false, Bool.or_eq_true, beq_iff_eq] at hbreak
  rcases hbreak with rfl | rfl
  · exact hfeed hc
  · exact hreturn hc

theorem breakFree_escapeProperty (t : Text) : BreakFree (escapeProperty t) :=
  breakFree_replaceChar (by decide) (breakFree_replaceChar (by decide) (breakFree_escapeData t))

theorem comma_not_mem_escapeProperty (t : Text) : ',' ∉ escapeProperty t :=
  Text.not_mem_replaceChar_self (by decide)

theorem colon_not_mem_escapeProperty (t : Text) : ':' ∉ escapeProperty t :=
  Text.not_mem_replaceChar (by decide) (Text.not_mem_replaceChar_self (by decide))

/-- Numbers are written as they are. -/
theorem escapeProperty_ofNat (n : Nat) : escapeProperty (Text.ofNat n) = Text.ofNat n := by
  have hdigits : ∀ c, Text.isPlainDigit c = false → c ∉ Text.ofNat n := by
    intro c hc hmem
    rw [Text.isPlainDigit_of_mem_ofNat hmem] at hc
    cases hc
  rw [escapeProperty, escapeData, Text.replaceChar_of_not_mem (hdigits '%' rfl),
    Text.replaceChar_of_not_mem (hdigits '\r' rfl), Text.replaceChar_of_not_mem (hdigits '\n' rfl),
    Text.replaceChar_of_not_mem (hdigits ':' rfl), Text.replaceChar_of_not_mem (hdigits ',' rfl)]

theorem Text.number?_ofNat (n : Nat) : number? (ofNat n) = some n := by
  have hdigits : (ofNat n).all isPlainDigit = true := List.all_eq_true.2 fun c hc => isPlainDigit_of_mem_ofNat hc
  simp [number?, ofNat_ne_nil, hdigits]

/-! ## Properties -/

/-- A text is cut where the mark stands, if nothing before starts like it. -/
theorem Text.cutAt?_append {m : Char} {mark front : Text} (h : m ∉ front) (rest : Text) :
    cutAt? (m :: mark) (front ++ (m :: mark ++ rest)) = some (front, rest) := by
  induction front with
  | nil =>
    have hafter : after? (m :: mark) (m :: (mark ++ rest)) = some rest := after?_eq_some_iff.2 rfl
    rw [List.nil_append, List.cons_append, cutAt?, hafter]
  | cons c front ih =>
    obtain ⟨hc, hfront⟩ := not_or.1 (mt List.mem_cons.2 h)
    have hnone : after? (m :: mark) (c :: (front ++ (m :: mark ++ rest))) = none := if_neg (Ne.symm hc)
    rw [List.cons_append, cutAt?, hnone]
    simp only [ih hfront, Option.map_some]

/-- A property as it is written. -/
def propertyText (property : Text × Text) : Text := property.1 ++ "=" ++ escapeProperty property.2

/-- A name that can be told from the value of its property, and from what stands around the property. -/
def IsPropertyName (name : Text) : Prop := (',' ∉ name ∧ '=' ∉ name ∧ ':' ∉ name) ∧ BreakFree name

instance (name : Text) : Decidable (IsPropertyName name) := inferInstanceAs (Decidable ((_ ∧ _ ∧ _) ∧ _))

section Properties

variable {properties : List (Text × Text)} (hnames : ∀ property ∈ properties, IsPropertyName property.1)

include hnames

/-- Properties are told apart, whatever their values. -/
theorem RunnerWarning.properties?_written (hne : properties ≠ []) :
    properties? (Text.joinWith "," (properties.map propertyText)) = some properties := by
  have hpieces : Text.splitOn ',' (Text.joinWith "," (properties.map propertyText)) = properties.map propertyText := by
    refine Text.splitOn_joinWith (by simpa using hne) ?_
    intro piece hpiece
    obtain ⟨property, hproperty, rfl⟩ := List.mem_map.1 hpiece
    simp [propertyText, (hnames property hproperty).1.1, comma_not_mem_escapeProperty]
  rw [properties?, hpieces]
  clear hne hpieces
  induction properties with
  | nil => rfl
  | cons property properties ih =>
    obtain ⟨hname, hnames⟩ := List.forall_mem_cons.1 hnames
    have hcut : Text.cutAt? "=" (propertyText property) = some (property.1, escapeProperty property.2) := by
      rw [propertyText, List.append_assoc]
      exact Text.cutAt?_append hname.1.2.1 _
    rw [List.map_cons, List.mapM_cons, hcut, ih hnames, Option.map_some]
    simp only [undone_escapeProperty.unescape]
    rfl

theorem colon_not_mem_properties : ':' ∉ Text.joinWith "," (properties.map propertyText) := by
  intro hcolon
  rcases Text.mem_joinWith hcolon with hcomma | ⟨piece, hpiece, hcolon⟩
  · exact absurd hcomma (by decide)
  · obtain ⟨property, hproperty, rfl⟩ := List.mem_map.1 hpiece
    simp [propertyText, (hnames property hproperty).1.2.2, colon_not_mem_escapeProperty] at hcolon

theorem breakFree_properties : BreakFree (Text.joinWith "," (properties.map propertyText)) := by
  refine breakFree_joinWith (by decide) ?_
  intro piece hpiece
  obtain ⟨property, hproperty, rfl⟩ := List.mem_map.1 hpiece
  exact breakFree_append.2 ⟨breakFree_append.2 ⟨(hnames property hproperty).2, by decide⟩, breakFree_escapeProperty _⟩

end Properties

/-! ## Annotations -/

namespace RejectedView

variable (r : RejectedView)

/-- The properties of an annotation. -/
def properties : List (Text × Text) :=
  ("file".toList, r.path) :: ("line".toList, Text.ofNat r.line) ::
    ((r.col.map fun col => ("col".toList, Text.ofNat col)).toList ++ [("title".toList, r.warning.title)])

theorem isPropertyName_properties : ∀ property ∈ r.properties, IsPropertyName property.1 := by
  have hnames : ∀ name ∈ ["file", "line", "col", "title"].map String.toList, IsPropertyName name := by decide
  intro property hproperty
  refine hnames _ ?_
  unfold properties at hproperty
  cases hcol : r.col with
  | none =>
    simp only [hcol, Option.map_none, Option.toList_none, List.nil_append, List.mem_cons, List.not_mem_nil] at hproperty
    rcases hproperty with rfl | rfl | rfl | ⟨⟨⟩⟩ <;> simp
  | some col =>
    simp only [hcol, Option.map_some, Option.toList_some, List.cons_append, List.nil_append, List.mem_cons,
      List.not_mem_nil] at hproperty
    rcases hproperty with rfl | rfl | rfl | rfl | ⟨⟨⟩⟩ <;> simp

theorem annotation_eq :
    r.annotation =
      "::warning ".toList ++
        (Text.joinWith "," (r.properties.map propertyText) ++ ("::".toList ++ escapeData r.warning.message)) := by
  have hmessage : r.annotationMessage = r.warning.message := by
    cases hcode : r.code <;> simp [annotationMessage, warning, hcode]
  have htitle : r.annotationTitle = r.warning.title := rfl
  unfold annotation properties
  cases r.col with
  | none => simp [hmessage, htitle, propertyText, Text.joinWith, escapeProperty_ofNat]
  | some col => simp [hmessage, htitle, propertyText, Text.joinWith, escapeProperty_ofNat]

theorem breakFree_annotation : BreakFree r.annotation := by
  rw [annotation_eq]
  exact breakFree_append.2 ⟨by decide, breakFree_append.2
    ⟨breakFree_properties r.isPropertyName_properties, breakFree_append.2 ⟨by decide, breakFree_escapeData _⟩⟩⟩

theorem lookup_col : r.properties.lookup "col".toList = r.col.map Text.ofNat := by
  unfold properties
  cases r.col <;> rfl

theorem lookup_title : r.properties.lookup "title".toList = some r.warning.title := by
  unfold properties
  cases r.col <;> rfl

/-- **An annotation is read as what it says.** -/
theorem ofText?_annotation : RunnerWarning.ofText? r.annotation = some r.warning := by
  have hcommand : ∀ u : Text, Text.after? "::warning " ("::warning ".toList ++ u) = some u := fun u =>
    Text.after?_eq_some_iff.2 rfl
  have hcut : Text.cutAt? "::" (Text.joinWith "," (r.properties.map propertyText) ++
      ("::".toList ++ escapeData r.warning.message)) = some (_, _) :=
    Text.cutAt?_append (colon_not_mem_properties r.isPropertyName_properties) _
  have hproperties : RunnerWarning.properties? (Text.joinWith "," (r.properties.map propertyText)) = _ :=
    RunnerWarning.properties?_written r.isPropertyName_properties (List.cons_ne_nil _ _)
  have hfile : r.properties.lookup "file".toList = some r.path := rfl
  have hline : r.properties.lookup "line".toList = some (Text.ofNat r.line) := rfl
  rw [annotation_eq, RunnerWarning.ofText?, hcommand]
  simp only [bind, Option.bind, hcut, hproperties, hfile, hline, r.lookup_col, r.lookup_title, Text.number?_ofNat,
    undone_escapeData.unescape]
  cases hcol : r.col with
  | none => simp [warning, hcol]
  | some col => simp [warning, hcol, Text.number?_ofNat]

end RejectedView

/-- **Annotations are read as what they say.** There is one for each diagnostic that was left alone, in their order,
each on one line. -/
theorem annotations_areRead (v : RunView) :
    List.Forall₂ (fun r t => BreakFree t ∧ RunnerWarning.ofText? t = some r.warning) v.rejected v.annotations := by
  rw [RunView.annotations, List.forall₂_map_right_iff]
  exact List.forall₂_same.2 fun r _ => ⟨r.breakFree_annotation, r.ofText?_annotation⟩

end TypeIgnore
