import TypeIgnore.Proofs.Source.ByteLines

/-!
# Source maps from bytes

The lines of a source are slices of it. Where they start and stop comes from the breaks, where their comments start from
the scanner, and both are places of bytes: a slice has to lie in its line, and must not cut a character in two.

* `spansFrom` — the places of the lines; `slice` — the bytes between two places;
* `lineOf`, `linesOf` — the lines, cut before their comments; `classifyBytes` — the map of a source by its bytes;
* `spansFrom_eq`, `lineOf_eq` — the places are those of the characters, and each line is cut as its characters say;
* `classifyBytes_encode` — so the map by the bytes is the map of the source;
* `scansSafely_encode` — **scanning is safe**: what holds in all states of a run, and that nothing ever has a fault.
-/

namespace TypeIgnore

/-! ## Slices -/

/-- The place of a line. -/
structure Span where
  start : Nat
  /-- Before the break. -/
  stop : Nat
  ending : Option LineBreak
  deriving DecidableEq, Repr

/-- A character starts here, or the bytes end. -/
def isBoundary (bytes : List UInt8) (i : Nat) : Bool :=
  match bytes[i]? with
  | some b => b < 0x80 || 0xC0 ≤ b
  | none => i == bytes.length

/-- The bytes between two places, where whole characters stand. -/
def slice (bytes : List UInt8) (start stop : Nat) : Except Halt (List UInt8) :=
  if isBoundary bytes start && isBoundary bytes stop then bytesBetween bytes start stop
  else .error (.fault .badSlice)

/-- The lines from place `start` on, with no break before place `i`. -/
def spansFrom (bytes : List UInt8) (start i : Nat) : Except Halt (List Span) :=
  if i < bytes.length then do
    let c ← byteAt bytes i
    if c = '\r' then
      if peek bytes (i + 1) = '\n' then do
        let spans ← spansFrom bytes (i + 2) (i + 2)
        .ok (⟨start, i, some .crlf⟩ :: spans)
      else do
        let spans ← spansFrom bytes (i + 1) (i + 1)
        .ok (⟨start, i, some .cr⟩ :: spans)
    else if c = '\n' then do
      let spans ← spansFrom bytes (i + 1) (i + 1)
      .ok (⟨start, i, some .lf⟩ :: spans)
    else spansFrom bytes start (i + 1)
  else .ok (if start < bytes.length then [⟨start, bytes.length, none⟩] else [])
termination_by bytes.length - i

/-- Where the separators before place `i` start. -/
def separatorStart (content : List UInt8) : (i : Nat) → Except Halt Nat
  | 0 => .ok 0
  | i + 1 => do
    let c ← byteAt content i
    if isSeparator c then separatorStart content i else .ok (i + 1)

/-- A difference that is not below zero. -/
def minus (a b : Nat) : Except Halt Nat := if b ≤ a then .ok (a - b) else .error (.fault .underflow)

def textOf (bytes : List UInt8) : Except Halt Text :=
  match Utf8.decode? bytes with
  | some t => .ok t
  | none => .error (.fault .badSlice)

/-- Line `n`, cut before the separators of its comment. -/
def lineOf (bytes : List UInt8) (n : Nat) (span : Span) (scan : LineScan) : Except Halt SourceLine := do
  let content ← slice bytes span.start span.stop
  let cut ← match scan.hash with
    | some place => do
      let hash ← minus place span.start
      separatorStart content hash
    | none => .ok content.length
  let code ← slice content 0 cut
  let comment ← slice content cut content.length
  let code ← textOf code
  let comment ← textOf comment
  .ok ⟨n, code, comment, span.ending, scan.left.isNone⟩

/-- The lines from line `n` on. -/
def linesOf (bytes : List UInt8) (n : Nat) : List Span → List LineScan → Except Halt (List SourceLine)
  | span :: spans, scan :: scans => do
    let line ← lineOf bytes n span scan
    let lines ← linesOf bytes (n + 1) spans scans
    .ok (line :: lines)
  | _, _ => .ok []

/-- The lines and regions of a source, by its bytes. -/
def classifyBytes (bytes : List UInt8) : Except Halt SourceMap := do
  let spans ← spansFrom bytes 0 0
  let s ← ByteScanner.start.run bytes
  let lines ← linesOf bytes 1 spans s.scans
  .ok ⟨lines, s.regions⟩

/-! ## Taking slices -/

namespace Shows

variable {bytes : List UInt8} {i j : Nat} {t w : Text}

theorem isBoundary (h : Shows bytes i t) (hle : i ≤ bytes.length) : isBoundary bytes i = true := by
  unfold TypeIgnore.isBoundary
  cases t with
  | nil =>
    rw [List.getElem?_eq_none h.le]
    exact beq_iff_eq.2 (Nat.le_antisymm hle h.le)
  | cons c t =>
    obtain ⟨b, bs, hbytes, -, hfirst, -⟩ := exists_utf8EncodeChar c
    rw [Shows, encode_cons, hbytes, List.cons_append] at h
    rw [getElem?_of_drop h]
    simpa using hfirst

/-- The slice of a text is its bytes. -/
theorem slice (h : Shows bytes i (w ++ t)) (hle : i ≤ bytes.length) :
    slice bytes i (i + (Utf8.encode w).length) = .ok (Utf8.encode w) := by
  rw [TypeIgnore.slice, h.isBoundary hle, h.append.isBoundary (h.append_le hle), Bool.and_self, if_pos rfl,
    h.bytesBetween hle]

end Shows

theorem textOf_encode (t : Text) : textOf (Utf8.encode t) = .ok t := by
  rw [textOf, Utf8.decode?_encode]

theorem isSeparator_of_isWide {c : Char} (h : isWide c = true) : isSeparator c = false := by
  simp [isSeparator, ne_of_isWide h (y := ' ') rfl, ne_of_isWide h (y := '\t') rfl, ne_of_isWide h (y := '\x0c') rfl]

theorem separatorStart_eq (front separator after : Text) (hseparator : ∀ c ∈ separator, isSeparator c = true)
    (hfront : ∀ c, front.getLast? = some c → isSeparator c = false) :
    separatorStart (Utf8.encode (front ++ separator ++ after)) (Utf8.encode (front ++ separator)).length =
      .ok (Utf8.encode front).length := by
  induction separator using List.reverseRecOn generalizing after with
  | nil =>
    rw [List.append_nil]
    rcases List.eq_nil_or_concat front with rfl | ⟨front, c, rfl⟩
    · rfl
    · rw [List.concat_eq_append] at hfront ⊢
      obtain ⟨bs, b, hbytes, halike⟩ := exists_encode_concat front c
      have hlast : byteAt (Utf8.encode (front ++ [c] ++ after)) bs.length = .ok (Char.ofUInt8 b) := by
        have hdrop : (Utf8.encode (front ++ [c] ++ after)).drop bs.length = b :: Utf8.encode after := by
          rw [encode_append, hbytes, List.append_assoc, List.drop_left]
          rfl
        exact byteAt_of_drop hdrop
      have hb : isSeparator (Char.ofUInt8 b) = false :=
        (halike.test_eq fun _ => isSeparator_of_isWide).trans (hfront c List.getLast?_concat)
      rw [hbytes, List.length_append, List.length_singleton, separatorStart, hlast]
      simp only [bind, Except.bind, hb]
      rfl
  | append_singleton separator c ih =>
    have hc : isSeparator c = true := hseparator c (by simp)
    have hshows : Shows (Utf8.encode (front ++ (separator ++ [c]) ++ after))
        (0 + (Utf8.encode (front ++ separator)).length) (c :: after) := by
      refine Shows.append (w := front ++ separator) ?_
      simp [Shows]
    obtain ⟨hbyte, -, hwidth⟩ := hshows.narrow (isWide_eq_false (fun _ => isSeparator_of_isWide) hc)
    rw [Nat.zero_add] at hbyte
    have hlength :
        (Utf8.encode (front ++ (separator ++ [c]))).length = (Utf8.encode (front ++ separator)).length + 1 := by
      rw [← List.append_assoc, length_encode_append, length_encode_cons, hwidth]
      rfl
    rw [hlength, separatorStart, hbyte]
    simp only [bind, Except.bind, hc, if_true]
    have hrest := ih (c :: after) fun c' hc' => hseparator c' (List.mem_append_left _ hc')
    simpa using hrest

/-- A text is cut between two characters. -/
theorem slice_cut (front rest : Text) :
    slice (Utf8.encode (front ++ rest)) 0 (Utf8.encode front).length = .ok (Utf8.encode front) ∧
      slice (Utf8.encode (front ++ rest)) (Utf8.encode front).length (Utf8.encode (front ++ rest)).length =
        .ok (Utf8.encode rest) := by
  have hfront := Shows.slice (Shows.self (front ++ rest)) (Nat.zero_le _)
  have hrest : Shows (Utf8.encode (front ++ rest)) (0 + (Utf8.encode front).length) (rest ++ []) :=
    Shows.append (by rw [List.append_nil]; exact Shows.self (front ++ rest))
  have hlength := length_encode_append front rest
  rw [Nat.zero_add] at hfront hrest
  have hslice := hrest.slice (by omega)
  rw [← hlength] at hslice
  exact ⟨hfront, hslice⟩

/-- **A line is cut as its characters say.** -/
theorem lineOf_eq {bytes : List UInt8} {i : Nat} {code comment t : Text} (n : Nat) (ending : Option LineBreak)
    (left : Option RegionKind) (hshows : Shows bytes i (code ++ comment ++ t)) (hle : i ≤ bytes.length) :
    lineOf bytes n ⟨i, i + (Utf8.encode (code ++ comment)).length, ending⟩
      ⟨if comment.isEmpty then none else some (i + (Utf8.encode code).length), left⟩ =
      .ok (mkLine n code comment ending left) := by
  unfold lineOf
  rw [hshows.slice hle]
  cases comment with
  | nil =>
    obtain ⟨hcode, hcomment⟩ := slice_cut code []
    rw [List.append_nil] at hcode hcomment ⊢
    simp only [bind, Except.bind, List.isEmpty_nil, if_true, hcode, hcomment, textOf_encode]
    rfl
  | cons c comment =>
    have hspan := Text.spanEnd_append isSeparator code
    have hstart := separatorStart_eq (Text.spanEnd isSeparator code).1 (Text.spanEnd isSeparator code).2 (c :: comment)
      (Text.mem_spanEnd_snd isSeparator) fun _ => Text.getLast?_spanEnd_fst isSeparator
    rw [hspan] at hstart
    obtain ⟨hcode, hcomment⟩ :=
      slice_cut (Text.spanEnd isSeparator code).1 ((Text.spanEnd isSeparator code).2 ++ c :: comment)
    rw [← List.append_assoc, hspan] at hcode hcomment
    have hminus : minus (i + (Utf8.encode code).length) i = .ok (Utf8.encode code).length := by
      rw [minus, if_pos (Nat.le_add_right _ _), Nat.add_sub_cancel_left]
    simp only [bind, Except.bind, List.isEmpty_cons, Bool.false_eq_true, if_false, hminus, hstart, hcode, hcomment,
      textOf_encode, mkLine_of_ne_nil _ _ _ _ _ (List.cons_ne_nil c comment)]

/-! ## The places of lines -/

/-- The places of the lines from place `i` on. -/
def spansOf (i : Nat) (rest : Text) : List EndedLine → List Span
  | [] => if rest.isEmpty then [] else [⟨i, i + (Utf8.encode rest).length, none⟩]
  | l :: ls => ⟨i, i + (Utf8.encode l.content).length, some l.ending⟩ :: spansOf (i + l.size) rest ls

section Spans

variable {bytes : List UInt8} {start i : Nat} {w t rest : Text} {ls : List EndedLine}

theorem spansFrom_append_bytes {bs bs' : List UInt8} (h : bytes.drop i = bs ++ bs')
    (hbs : ∀ b ∈ bs, isBreak (Char.ofUInt8 b) = false) :
    spansFrom bytes start i = spansFrom bytes start (i + bs.length) := by
  induction bs generalizing i with
  | nil => rfl
  | cons b bs ih =>
    have hb := hbs b List.mem_cons_self
    simp only [isBreak, Bool.or_eq_false_iff, beq_eq_false_iff_ne] at hb
    rw [spansFrom, if_pos (lt_of_drop_eq_cons h), byteAt_of_drop h]
    simp only [bind, Except.bind, hb.1, hb.2, if_false]
    rw [ih (drop_succ_of_drop h) fun b' hb' => hbs b' (List.mem_cons_of_mem _ hb'), List.length_cons]
    congr 1
    omega

/-- What holds no break is passed over. -/
theorem spansFrom_append (h : Shows bytes i (w ++ t)) (hw : BreakFree w) :
    spansFrom bytes start i = spansFrom bytes start (i + (Utf8.encode w).length) := by
  have hdrop : bytes.drop i = Utf8.encode w ++ Utf8.encode t := h.trans (encode_append w t)
  exact spansFrom_append_bytes hdrop (test_of_mem_encode (fun _ => not_isBreak_of_isWide) hw)

theorem spansFrom_break {b : LineBreak} (h : Shows bytes i (b.text ++ t)) (apart : b = .cr → t.head? ≠ some '\n') :
    spansFrom bytes start i =
      spansFrom bytes (i + b.text.length) (i + b.text.length) >>= fun spans => .ok (⟨start, i, some b⟩ :: spans) := by
  obtain ⟨y, hbyte, -⟩ := ByteScanner.byteAt_break h
  rw [spansFrom, if_pos (lt_of_byteAt hbyte)]
  cases b with
  | lf =>
    rw [(Shows.narrow h rfl).1]
    rfl
  | cr =>
    obtain ⟨hcr, hnext, -⟩ := Shows.narrow h rfl
    have hpeek : peek bytes (i + 1) ≠ '\n' := fun hlf => apart rfl ((hnext.peek_eq_iff rfl (by decide)).1 hlf)
    rw [hcr]
    simp only [bind, Except.bind, if_true, hpeek, if_false]
    rfl
  | crlf =>
    obtain ⟨hcr, hnext, -⟩ := Shows.narrow h rfl
    have hpeek : peek bytes (i + 1) = '\n' := (Shows.peek_eq_iff hnext rfl (by decide)).2 rfl
    rw [hcr]
    simp only [bind, Except.bind, if_true, hpeek]
    rfl

theorem spansFrom_eq (hsplit : IsSplit (ls, rest)) (h : Shows bytes i (joinLines (ls, rest))) (hle : i ≤ bytes.length) :
    spansFrom bytes i i = .ok (spansOf i rest ls) := by
  induction ls generalizing i with
  | nil =>
    have hrest : Shows bytes i (rest ++ []) := by
      rw [List.append_nil]
      exact h
    have hlength : bytes.length - i = (Utf8.encode rest).length := h.length
    have hend : i + (Utf8.encode rest).length = bytes.length := by omega
    rw [spansFrom_append hrest hsplit.rest, hend, spansFrom, if_neg (Nat.lt_irrefl _)]
    cases rest with
    | nil =>
      have hempty : (Utf8.encode []).length = 0 := rfl
      rw [if_neg (by omega)]
      rfl
    | cons c rest =>
      rw [if_pos (Shows.lt h), ← hend]
      rfl
  | cons l ls ih =>
    have hnext := shows_next h hle
    rw [joinLines_cons] at h
    rw [spansFrom_append h (hsplit.content l List.mem_cons_self), spansFrom_break h.append hsplit.head?_joinLines,
      Nat.add_assoc, ← l.size_eq, ih hsplit.of_cons hnext.1 hnext.2]
    rfl

end Spans

/-! ## Classification -/

namespace Scanner

variable {s s' : Scanner} {line : Nat} {t code comment : Text}

theorem append_of_scanLine (h : s.scanLine line t = .ok (s', code, comment)) : code ++ comment = t := by
  induction t generalizing s code with
  | nil =>
    cases h
    rfl
  | cons c t ih =>
    rw [scanLine] at h
    obtain ⟨s₁, hs, h⟩ := exists_of_bind_eq_ok h
    split at h
    · cases h
      rfl
    · obtain ⟨⟨s₂, code₁, comment₁⟩, hrest, h⟩ := exists_of_bind_eq_ok h
      cases h
      rw [List.cons_append, ih hrest]

/-- What a line comes to is seen where it has been scanned. -/
theorem toLineEnd_eq (broken : Bool) (hash : Option Nat) (i : Nat) (t : Text) :
    s.toLineEnd broken line hash i t = s.scanLine line t >>= fun r =>
      r.1.endHere broken line (if r.2.2.isEmpty then hash else some (i + (Utf8.encode r.2.1).length)) := by
  induction t generalizing s i with
  | nil => rfl
  | cons c t ih =>
    rw [toLineEnd, scanLine]
    cases s.step line c with
    | error e => rfl
    | ok s₁ =>
      simp only [bind, Except.bind]
      split
      · rfl
      · rw [ih]
        cases s₁.scanLine line t with
        | error e => rfl
        | ok r =>
          simp only [bind, Except.bind]
          rw [length_encode_cons, Nat.add_assoc]

end Scanner

theorem classifyFrom_nil_error {n : Nat} {s : Scanner} {current : Option OpenStatement} {rest : Text} {e : LexError}
    (h : s.scanLine n rest = .error e) : classifyFrom n s current rest [] = .error e := by
  unfold classifyFrom
  rw [h]
  rfl

theorem classifyFrom_cons_error {n : Nat} {s : Scanner} {current : Option OpenStatement} {rest : Text} {l : EndedLine}
    {ls : List EndedLine} {e : LexError} (h : s.scanLine n l.content = .error e) :
    classifyFrom n s current rest (l :: ls) = .error e := by
  rw [classifyFrom, h]
  rfl

theorem mapError_bind {ε ε' α β : Type} (f : ε → ε') (x : Except ε α) (g : α → Except ε β) :
    (x >>= g).mapError f = x.mapError f >>= fun a => (g a).mapError f := by
  cases x <;> rfl

section Classification

variable {bytes : List UInt8} {n i : Nat} {s : Scanner} {current : Option OpenStatement} {rest : Text}
  {ls : List EndedLine}

/-- After the last break there is a line if any text is left. -/
theorem classifyFrom_nil_eq (hshows : Shows bytes i rest) (hle : i ≤ bytes.length) :
    (classifyFrom n s current rest []).mapError Halt.error =
      (s.scansFrom n i current rest []).mapError Halt.error >>= fun r =>
        linesOf bytes n (spansOf i rest []) r.1 >>= fun lines => .ok ⟨lines, r.2⟩ := by
  rw [Scanner.scansFrom, Scanner.toLineEnd_eq]
  cases hscan : s.scanLine n rest with
  | error e =>
    rw [classifyFrom_nil_error hscan]
    rfl
  | ok r =>
    obtain ⟨s₁, code, comment⟩ := r
    have hcontent := Scanner.append_of_scanLine hscan
    cases rest with
    | nil =>
      cases hscan
      unfold classifyFrom
      simp only [Scanner.scanLine, Scanner.endHere, bind, Except.bind]
      cases s.checkEnd n with
      | error e => rfl
      | ok => cases current <;> rfl
    | cons c rest =>
      have hcut : Shows bytes i (code ++ comment ++ []) := by
        rw [List.append_nil, hcontent]
        exact hshows
      have hline := lineOf_eq n none none hcut hle
      rw [hcontent] at hline
      rw [classifyFrom_nil_of_scanLine hscan (List.cons_ne_nil _ _)]
      simp only [Scanner.endHere, bind, Except.bind]
      cases s₁.checkEnd n with
      | error e => rfl
      | ok =>
        simp only [Bool.false_eq_true, if_false, Except.map, ByteScanner.lastScan, List.isEmpty_cons, Except.mapError,
          spansOf, linesOf, hline, bind, Except.bind]

/-- **The lines are those that their places and what they show cut out of the bytes.** -/
theorem classifyFrom_eq (hshows : Shows bytes i (joinLines (ls, rest))) (hle : i ≤ bytes.length) :
    (classifyFrom n s current rest ls).mapError Halt.error =
      (s.scansFrom n i current rest ls).mapError Halt.error >>= fun r =>
        linesOf bytes n (spansOf i rest ls) r.1 >>= fun lines => .ok ⟨lines, r.2⟩ := by
  induction ls generalizing n i s current with
  | nil => exact classifyFrom_nil_eq hshows hle
  | cons l ls ih =>
    rw [Scanner.scansFrom, Scanner.toLineEnd_eq]
    cases hscan : s.scanLine n l.content with
    | error e =>
      rw [classifyFrom_cons_error hscan]
      rfl
    | ok r =>
      obtain ⟨s₁, code, comment⟩ := r
      have hcontent := Scanner.append_of_scanLine hscan
      have hnext := shows_next hshows hle
      rw [joinLines_cons, ← hcontent] at hshows
      rw [classifyFrom_cons_of_scanLine hscan]
      simp only [Scanner.endHere, bind, Except.bind, if_true]
      cases s₁.breakLine n with
      | error e => rfl
      | ok r =>
        obtain ⟨s₂, left⟩ := r
        have hline := lineOf_eq n (some l.ending) left hshows hle
        have hrest := @ih (n + 1) (i + l.size) s₂ (OpenStatement.advance n left current) hnext.1 hnext.2
        rw [hcontent] at hline
        refine (mapError_bind _ (classifyFrom (n + 1) s₂ _ rest ls) _).trans ?_
        rw [hrest]
        simp only [Except.map, bind, Except.bind, spansOf]
        cases Scanner.scansFrom (n + 1) (i + l.size) s₂ (OpenStatement.advance n left current) rest ls with
        | error e => rfl
        | ok r =>
          simp only [Except.mapError, linesOf, hline, bind, Except.bind]
          cases linesOf bytes (n + 1) (spansOf (i + l.size) rest ls) r.1 <;> rfl

end Classification

/-- The map of a source by its bytes is its map. -/
theorem classifyBytes_encode (source : Text) :
    classifyBytes (Utf8.encode source) = (classify source).mapError Halt.error := by
  have hsplit := isSplit_splitLines source
  have hjoin := joinLines_splitLines source
  have hends := ByteScanner.endsInBreak_encode source
  unfold classify
  generalize splitLines source = split at hsplit hjoin hends
  obtain ⟨ls, rest⟩ := split
  have hshows : Shows (Utf8.encode source) 0 (joinLines (ls, rest)) := by
    rw [hjoin]
    exact Shows.self source
  have hrun : (ByteScanner.start.run (Utf8.encode source)).map ByteScanner.shown =
      ByteScanner.start.found (Scanner.start.scansFrom 1 0 none rest ls) :=
    ByteScanner.run_eq (k := ByteScanner.start) hsplit hends hshows (Nat.zero_le _) trivial rfl rfl
  rw [classifyFrom_eq hshows (Nat.zero_le _), classifyBytes, spansFrom_eq hsplit hshows (Nat.zero_le _)]
  simp only [bind, Except.bind]
  generalize ByteScanner.start.run (Utf8.encode source) = result at hrun ⊢
  generalize Scanner.start.scansFrom 1 0 none rest ls = scans at hrun ⊢
  cases scans with
  | error e =>
    cases result with
    | error halt =>
      cases hrun
      rfl
    | ok k => cases hrun
  | ok found =>
    cases result with
    | error halt => cases hrun
    | ok k =>
      have hfound : (k.scans, k.regions) = found := Except.ok.inj hrun
      subst hfound
      rfl

/-! ## Safety -/

/-- How the bytes of a source are scanned: in every state that is reached, and in all that is cut out of them. -/
structure ScansSafely (source : Text) (bytes : List UInt8) : Prop where
  /-- A literal is the outermost frame or stands in a field, a field in a formatted literal or a specification, and a
  specification in a field with no bracket open. -/
  nested : ∀ s, ByteScanner.Reached bytes s → Nested s.frames
  /-- So the brace that closes a specification takes it away together with its field. -/
  closesSpec : ∀ s below, ByteScanner.Reached bytes s → s.frames = .spec :: below → byteAt bytes s.pos = .ok '}' →
    ∃ rest, below = .field 0 :: rest ∧ s.step bytes = .ok { s.advance 1 with frames := rest }
  /-- A frame that is left at the end is reported as a literal that does not end. -/
  reportsOpen : ∀ s, ByteScanner.Reached bytes s → bytes.length ≤ s.pos → s.frames ≠ [] →
    ∃ l, Scanner.innermostLiteral? s.frames = some l ∧ s.finish bytes =
      .error (.error ⟨l.startLine, if l.triple then .unterminatedTripleQuote else .unterminatedString⟩)
  /-- No step has a fault: it meets an error of the source, or it goes on. -/
  advances : ∀ s, ByteScanner.Reached bytes s → s.pos < bytes.length →
    (∃ e, s.step bytes = .error (.error e)) ∨
      ∃ s', s.step bytes = .ok s' ∧ s.pos < s'.pos ∧ s'.pos ≤ bytes.length
  /-- The counts stay below those of the source. -/
  pos_le : ∀ s, ByteScanner.Reached bytes s → s.pos ≤ bytes.length
  line_le : ∀ s, ByteScanner.Reached bytes s → s.line ≤ ByteScanner.countBreaks bytes s.pos + 1
  brackets_le : ∀ s, ByteScanner.Reached bytes s → s.openBrackets ≤ ByteScanner.countOpening (bytes.take s.pos)
  /-- No slice has a fault either, and what comes of them is the map of the source. -/
  classifies : classifyBytes bytes = (classify source).mapError Halt.error

theorem scansSafely_encode (source : Text) : ScansSafely source (Utf8.encode source) where
  nested := fun s hs => hs.sound.nested
  closesSpec := by
    intro s below hs hframes hbyte
    obtain ⟨rest, hbelow, hclose⟩ := ByteScanner.readSpec_close (Utf8.encode source) hs.sound.nested hframes
    exact ⟨rest, hbelow, (ByteScanner.step_of_spec hbyte hframes).trans hclose⟩
  reportsOpen := fun s hs _ hne => ByteScanner.finish_of_ne_nil (Utf8.encode source) hs.sound.nested hne
  advances := by
    intro s hs hlt
    have hsafe := ByteScanner.safe_step hlt hs.sound.nested
    generalize s.step (Utf8.encode source) = result at hsafe ⊢
    cases hsafe with
    | error e => exact .inl ⟨e, rfl⟩
    | ok hleads => exact .inr ⟨_, rfl, hleads.lt, hleads.le⟩
  pos_le := fun s hs => hs.sound.pos_le
  line_le := fun s hs => hs.sound.line_le
  brackets_le := fun s hs => hs.sound.brackets_le
  classifies := classifyBytes_encode source

end TypeIgnore
