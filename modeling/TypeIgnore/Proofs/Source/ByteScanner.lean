import TypeIgnore.Proofs.Source.Lookahead
import Mathlib.Data.List.Basic

/-!
# Scanning bytes

A source can also be scanned as it is stored: a position goes over its bytes, looks ahead where it has to, and every
literal, field and bracket is opened as soon as it is met. Nothing is taken for granted on the way. A byte is looked at
only where there is one, a count is taken down only where there is something to take, and every step must lead on;
whatever breaks this is a `ScanFault`.

* `byteAt`, `peek` — the byte at a place; `skip` — the end of a run of bytes;
* `ByteScanner`, `ByteScanner.step` — the scanner and one of its steps; `ByteScanner.run` — all of them;
* `ByteScanner.Turn` — what a step can do to the frames and brackets;
* `ByteScanner.safe_step` — **a step has no fault**: it meets an error of the source, or it leads on and not past the
  end;
* `ByteScanner.Reached` — the states of a run; `ByteScanner.Reached.sound` — what holds in all of them.
-/

namespace TypeIgnore

/-! ## Faults -/

/-- What scanning must never come to. -/
inductive ScanFault
  /-- A byte is looked at that is not there. -/
  | outOfRange
  /-- A number is taken below zero. -/
  | underflow
  /-- A step leaves the position where it is. -/
  | stuck
  /-- A slice reaches out of the text that it is taken from, or cuts a character in two. -/
  | badSlice
  deriving DecidableEq, Repr

/-- Why there is no result: the source has an error, or the scanner has a fault. -/
inductive Halt
  | error (e : LexError)
  | fault (f : ScanFault)
  deriving DecidableEq, Repr

/-- One less. -/
def lower : Nat → Except Halt Nat
  | 0 => .error (.fault .underflow)
  | n + 1 => .ok n

/-! ## Bytes -/

section Bytes

variable (bytes : List UInt8)

/-- The byte at a place, seen as the character with its number. -/
def byteAt (i : Nat) : Except Halt Char :=
  match bytes[i]? with
  | some b => .ok (Char.ofUInt8 b)
  | none => .error (.fault .outOfRange)

/-- What stands at a place, or a null character after the end. -/
def peek (i : Nat) : Char := (bytes[i]?.map Char.ofUInt8).getD '\x00'

/-- The first place from `i` on whose byte does not satisfy `p`, or the end. -/
def skip (p : Char → Bool) (i : Nat) : Except Halt Nat :=
  if i < bytes.length then do
    let c ← byteAt bytes i
    if p c then skip p (i + 1) else .ok i
  else .ok i
termination_by bytes.length - i

/-- The bytes between two places. -/
def bytesBetween (start stop : Nat) : Except Halt (List UInt8) :=
  if start ≤ stop && stop ≤ bytes.length then .ok ((bytes.drop start).take (stop - start))
  else .error (.fault .badSlice)

end Bytes

/-- The bytes of a name, in lower case. -/
def lowered (letters : List UInt8) : Text := letters.map fun b => (Char.ofUInt8 b).toLower

/-! ## The scanner -/

structure ByteScanner where
  pos : Nat
  /-- Counted from 1. -/
  line : Nat
  /-- Brackets open outside all frames. -/
  depth : Nat
  /-- The innermost frame first. -/
  frames : List Frame
  /-- A backslash has been read right before the line break that comes. -/
  continued : Bool
  /-- The place of the `#` of this line's trailing comment. -/
  hash : Option Nat
  /-- The lines before this one. -/
  scans : List LineScan
  statement : Option OpenStatement
  regions : List Region
  deriving DecidableEq, Repr

namespace ByteScanner

open Scanner (isQuote isOpening isClosing startsName continuesName literalPrefixes innermostLiteral?)

def start : ByteScanner := ⟨0, 1, 0, [], false, none, [], none, []⟩

def advance (s : ByteScanner) (n : Nat) : ByteScanner := { s with pos := s.pos + n }

def push (s : ByteScanner) (f : Frame) : ByteScanner := { s with frames := f :: s.frames }

/-- Why the statement is open here. -/
def left (s : ByteScanner) : Option RegionKind :=
  if s.depth > 0 || s.continued then some .continuation
  else if s.frames.isEmpty then none
  else some .multilineLiteral

/-- The line is over. -/
def endLine (s : ByteScanner) : ByteScanner :=
  { s with
    continued := false
    hash := none
    scans := s.scans ++ [⟨s.hash, s.left⟩]
    statement := OpenStatement.advance s.line s.left s.statement
    regions := s.regions ++ OpenStatement.close s.line s.left s.statement }

def nextLine (s : ByteScanner) : ByteScanner := { s.endLine with line := s.line + 1 }

def openBracket (s : ByteScanner) : ByteScanner :=
  match s.frames with
  | .field depth :: below => { s with frames := .field (depth + 1) :: below }
  | _ => { s with depth := s.depth + 1 }

def closeBracket (s : ByteScanner) (c : Char) : Except Halt ByteScanner :=
  match s.frames with
  | .field 0 :: below => if c = '}' then .ok { s with frames := below } else .error (.error ⟨s.line, .unmatchedBracket⟩)
  | .field depth :: below => do
    let depth ← lower depth
    .ok { s with frames := .field depth :: below }
  | _ =>
    if s.depth > 0 then do
      let depth ← lower s.depth
      .ok { s with depth }
    else .error (.error ⟨s.line, .unmatchedBracket⟩)

/-- After `:` a field with no bracket open has a specification. -/
def openSpec (s : ByteScanner) : ByteScanner :=
  match s.frames with
  | .field 0 :: _ => s.push .spec
  | _ => s

section Steps

variable (bytes : List UInt8)

def atEnd (s : ByteScanner) : Bool := bytes.length ≤ s.pos

/-- A line break: a carriage return and a line feed after it are one. -/
def newline (s : ByteScanner) : Except Halt ByteScanner := do
  let c ← byteAt bytes s.pos
  let width := if c = '\r' && peek bytes (s.pos + 1) = '\n' then 2 else 1
  .ok (s.advance width).nextLine

/-- A quote opens a literal, three of them a triple-quoted one. -/
def openLiteral (s : ByteScanner) (formatted : Bool) : Except Halt ByteScanner := do
  let quote ← byteAt bytes s.pos
  let triple := peek bytes (s.pos + 1) = quote && peek bytes (s.pos + 2) = quote
  .ok ((s.advance (if triple then 3 else 1)).push (.literal ⟨quote, triple, formatted, s.line⟩))

/-- A name, and the literal right after it if the name is a prefix. -/
def readName (s : ByteScanner) : Except Halt ByteScanner := do
  let stop ← skip bytes continuesName s.pos
  let after := { s with pos := stop }
  if after.atEnd bytes then .ok after
  else
    let c ← byteAt bytes stop
    if isQuote c then
      let letters ← bytesBetween bytes s.pos stop
      let name := lowered letters
      if literalPrefixes.contains name then after.openLiteral bytes (name.any fun c => c == 'f' || c == 't')
      else .ok after
    else .ok after

/-- One step in code: before the byte that is read as `c`. -/
def readCode (s : ByteScanner) (c : Char) : Except Halt ByteScanner :=
  if c = '#' then do
    let stop ← skip bytes (!isBreak ·) s.pos
    .ok { s with pos := stop, hash := if s.frames.isEmpty then some s.pos else s.hash }
  else if c = '\\' then
    if isBreak (peek bytes (s.pos + 1)) then .ok { s.advance 1 with continued := s.continued || s.frames.isEmpty }
    else .error (.error ⟨s.line, .afterContinuation⟩)
  else if isBreak c then s.newline bytes
  else if isQuote c then s.openLiteral bytes false
  else if isOpening c then .ok (s.advance 1).openBracket
  else if isClosing c then (s.advance 1).closeBracket c
  else if c = ':' then .ok (s.advance 1).openSpec
  else if startsName c then s.readName bytes
  else .ok (s.advance 1)

/-- One step in the literal `l`. A backslash takes the next character with it, but not the brace of a field. -/
def readLiteral (l : Literal) (below : List Frame) (s : ByteScanner) (c : Char) : Except Halt ByteScanner :=
  if c = '\\' then
    let next := s.advance 1
    if next.atEnd bytes then .ok next
    else do
      let c ← byteAt bytes next.pos
      if isBreak c then next.newline bytes
      else if l.formatted && (c = '{' || c = '}') then .ok next
      else .ok (next.advance 1)
  else if isBreak c then if l.triple then s.newline bytes else .error (.error ⟨l.startLine, .unterminatedString⟩)
  else if c = l.quote then
    if !l.triple then .ok { s.advance 1 with frames := below }
    else if peek bytes (s.pos + 1) = c && peek bytes (s.pos + 2) = c then .ok { s.advance 3 with frames := below }
    else .ok (s.advance 1)
  else if l.formatted && c = '{' then
    if peek bytes (s.pos + 1) = '{' then .ok (s.advance 2) else .ok ((s.advance 1).push (.field 0))
  else if l.formatted && c = '}' && peek bytes (s.pos + 1) = '}' then .ok (s.advance 2)
  else .ok (s.advance 1)

/-- One step in a specification. The closing brace takes two frames away. -/
def readSpec (s : ByteScanner) (c : Char) : Except Halt ByteScanner :=
  if c = '{' then .ok ((s.advance 1).push (.field 0))
  else if c = '}' then .ok { s.advance 1 with frames := s.frames.drop 2 }
  else if isBreak c then s.newline bytes
  else .ok (s.advance 1)

def step (s : ByteScanner) : Except Halt ByteScanner := do
  let c ← byteAt bytes s.pos
  match s.frames with
  | .literal l :: below => s.readLiteral bytes l below c
  | .spec :: _ => s.readSpec bytes c
  | _ => s.readCode bytes c

/-- The source is empty, or its last line has an end. -/
def endsInBreak : Bool := bytes.getLast?.all fun b => isBreak (Char.ofUInt8 b)

/-- The source is over: no literal, bracket or statement may be open. -/
def finish (s : ByteScanner) : Except Halt ByteScanner :=
  match innermostLiteral? s.frames with
  | some l =>
    .error (.error ⟨l.startLine, if l.triple then .unterminatedTripleQuote else .unterminatedString⟩)
  | none =>
    if s.depth > 0 || s.continued then .error (.error ⟨s.line, .eofInStatement⟩)
    else
      let s := if endsInBreak bytes then s else s.endLine
      match s.statement with
      | some o => .error (.error ⟨o.first, .eofInStatement⟩)
      | none => .ok s

/-- All steps to the end of the source. -/
def run (s : ByteScanner) : Except Halt ByteScanner :=
  if bytes.length ≤ s.pos then s.finish bytes
  else
    match s.step bytes with
    | .error halt => .error halt
    | .ok next => if s.pos < next.pos then run next else .error (.fault .stuck)
termination_by bytes.length - s.pos

end Steps

end ByteScanner

/-! ## Looking at bytes -/

section Bytes

variable {bytes : List UInt8} {i : Nat}

theorem byteAt_of_lt (h : i < bytes.length) : byteAt bytes i = .ok (Char.ofUInt8 bytes[i]) := by
  rw [byteAt, List.getElem?_eq_getElem h]

theorem lt_of_byteAt {c : Char} (h : byteAt bytes i = .ok c) : i < bytes.length := by
  by_contra hle
  rw [byteAt, List.getElem?_eq_none (by omega)] at h
  cases h

theorem peek_of_lt (h : i < bytes.length) : peek bytes i = Char.ofUInt8 bytes[i] := by
  rw [peek, List.getElem?_eq_getElem h]
  rfl

/-- Only the null character can be seen after the end. -/
theorem lt_of_peek {c : Char} (h : peek bytes i = c) (hc : c ≠ '\x00') : i < bytes.length := by
  by_contra hle
  rw [peek, List.getElem?_eq_none (by omega)] at h
  exact hc h.symm

/-- A run ends where the bytes first fail the test. -/
theorem skip_eq (p : Char → Bool) (bytes : List UInt8) (i : Nat) :
    skip bytes p i = .ok (i + ((bytes.drop i).takeWhile fun b => p (Char.ofUInt8 b)).length) := by
  induction hn : bytes.length - i generalizing i with
  | zero =>
    rw [skip, if_neg (by omega), List.drop_eq_nil_of_le (by omega)]
    rfl
  | succ n ih =>
    have hlt : i < bytes.length := by omega
    rw [skip, if_pos hlt, byteAt_of_lt hlt, List.drop_eq_getElem_cons hlt]
    by_cases hp : p (Char.ofUInt8 bytes[i]) = true
    · rw [List.takeWhile_cons_of_pos (by exact hp), List.length_cons]
      simp only [bind, Except.bind, hp, if_true]
      rw [ih (i + 1) (by omega)]
      congr 1
      omega
    · rw [List.takeWhile_cons_of_neg (by exact hp)]
      simp only [bind, Except.bind, hp]
      rfl

theorem exists_skip (p : Char → Bool) (h : i < bytes.length) :
    ∃ j, skip bytes p i = .ok j ∧ i ≤ j ∧ j ≤ bytes.length ∧ (p (Char.ofUInt8 bytes[i]) = true → i < j) := by
  have hle := (List.takeWhile_sublist (l := bytes.drop i) fun b => p (Char.ofUInt8 b)).length_le
  rw [List.length_drop] at hle
  refine ⟨_, skip_eq p bytes i, by omega, by omega, fun hp => ?_⟩
  rw [List.drop_eq_getElem_cons h, List.takeWhile_cons_of_pos (by exact hp), List.length_cons]
  omega

end Bytes

namespace ByteScanner

open Scanner (isQuote isOpening isClosing startsName continuesName literalPrefixes innermostLiteral?)

/-! ## What a step can do -/

/-- What a step at the byte `c` can do to the frames and to the brackets open outside of them. -/
inductive Turn (c : Char) : List Frame → Nat → List Frame → Nat → Prop
  | stay {frames : List Frame} {depth : Nat} : Turn c frames depth frames depth
  | openLiteral {frames : List Frame} {depth : Nat} {l : Literal} (hquote : isQuote l.quote = true)
      (hcode : inCode frames = true) : Turn c frames depth (.literal l :: frames) depth
  | closeLiteral {frames : List Frame} {depth : Nat} {l : Literal} :
      Turn c (.literal l :: frames) depth frames depth
  | openField {frames : List Frame} {depth : Nat} (hfield : (Frame.field 0).standsOn frames = true) :
      Turn c frames depth (.field 0 :: frames) depth
  | closeField {frames : List Frame} {depth : Nat} : Turn c (.field 0 :: frames) depth frames depth
  | openSpec {frames : List Frame} {depth : Nat} :
      Turn c (.field 0 :: frames) depth (.spec :: .field 0 :: frames) depth
  | closeSpec {frames : List Frame} {depth : Nat} : Turn c (.spec :: frames) depth (frames.drop 1) depth
  | openInField {frames : List Frame} {depth inner : Nat} (hopening : isOpening c = true) :
      Turn c (.field inner :: frames) depth (.field (inner + 1) :: frames) depth
  | closeInField {frames : List Frame} {depth inner : Nat} :
      Turn c (.field (inner + 1) :: frames) depth (.field inner :: frames) depth
  | openBracket {frames : List Frame} {depth : Nat} (hopening : isOpening c = true) :
      Turn c frames depth frames (depth + 1)
  | closeBracket {frames : List Frame} {depth : Nat} : Turn c frames (depth + 1) frames depth

/-- A line break ends at place `i`. -/
def endsBreak (bytes : List UInt8) (i : Nat) : Bool :=
  peek bytes i = '\n' || (peek bytes i = '\r' && !(peek bytes (i + 1) = '\n'))

/-- The step from `s` to `s'` leads on, and not past the end. Only over a break does it lead into the next line. -/
structure Leads (bytes : List UInt8) (c : Char) (s s' : ByteScanner) : Prop where
  lt : s.pos < s'.pos
  le : s'.pos ≤ bytes.length
  turn : Turn c s.frames s.depth s'.frames s'.depth
  line : s'.line = s.line ∨ s'.line = s.line + 1 ∧ ∃ i, s.pos ≤ i ∧ i < s'.pos ∧ endsBreak bytes i = true

/-- A result without a fault. -/
inductive Safe (bytes : List UInt8) (c : Char) (s : ByteScanner) : Except Halt ByteScanner → Prop
  | error (e : LexError) : Safe bytes c s (.error (.error e))
  | ok {s' : ByteScanner} (h : Leads bytes c s s') : Safe bytes c s (.ok s')

section Safety

variable {bytes : List UInt8} {s : ByteScanner} {c : Char}

theorem safe_advance (n : Nat) (hn : 0 < n) (hle : s.pos + n ≤ bytes.length) : Safe bytes c s (.ok (s.advance n)) :=
  .ok ⟨Nat.lt_add_of_pos_right hn, hle, .stay, .inl rfl⟩

/-- A line break may be that of a step that has already gone on. -/
theorem safe_newline {s' : ByteScanner} (hpos : s.pos ≤ s'.pos) (hlt : s'.pos < bytes.length)
    (hbreak : isBreak (Char.ofUInt8 bytes[s'.pos]) = true) (hturn : Turn c s.frames s.depth s'.frames s'.depth)
    (hline : s'.line = s.line) : Safe bytes c s (s'.newline bytes) := by
  have hpeek := peek_of_lt hlt
  unfold newline
  rw [byteAt_of_lt hlt, ← hpeek]
  rw [← hpeek] at hbreak
  have hnextLine : ∀ n, (s'.advance n).nextLine.line = s.line + 1 := fun _ => congrArg (· + 1) hline
  by_cases hcrlf : peek bytes s'.pos = '\r' ∧ peek bytes (s'.pos + 1) = '\n'
  · have hnext := lt_of_peek hcrlf.2 (by decide)
    have hends : endsBreak bytes (s'.pos + 1) = true := by simp [endsBreak, hcrlf.2]
    simp only [bind, Except.bind, hcrlf]
    exact .ok ⟨Nat.lt_of_le_of_lt hpos (Nat.lt_add_of_pos_right Nat.two_pos), hnext, hturn,
      .inr ⟨hnextLine 2, _, Nat.le_succ_of_le hpos, Nat.lt_succ_self _, hends⟩⟩
  · have hends : endsBreak bytes s'.pos = true := by
      simp only [isBreak, Bool.or_eq_true, beq_iff_eq] at hbreak
      rcases hbreak with hlf | hcr
      · simp [endsBreak, hlf]
      · have hlf : peek bytes (s'.pos + 1) ≠ '\n' := fun hlf => hcrlf ⟨hcr, hlf⟩
        simp [endsBreak, hcr, hlf]
    have hwidth : ((peek bytes s'.pos = '\r' : Bool) && (peek bytes (s'.pos + 1) = '\n' : Bool)) = false := by
      simpa using hcrlf
    simp only [bind, Except.bind, hwidth]
    exact .ok ⟨Nat.lt_succ_of_le hpos, hlt, hturn, .inr ⟨hnextLine 1, _, hpos, Nat.lt_succ_self _, hends⟩⟩

theorem ne_null_of_isQuote (h : isQuote c = true) : c ≠ '\x00' := by
  rintro rfl
  cases h

/-- A literal may be opened by a step that has already read its prefix. -/
theorem safe_openLiteral {s' : ByteScanner} (formatted : Bool) (hpos : s.pos ≤ s'.pos) (hlt : s'.pos < bytes.length)
    (hquote : isQuote (Char.ofUInt8 bytes[s'.pos]) = true) (hframes : s'.frames = s.frames)
    (hdepth : s'.depth = s.depth) (hline : s'.line = s.line) (hcode : inCode s.frames = true) :
    Safe bytes c s (s'.openLiteral bytes formatted) := by
  unfold openLiteral
  rw [byteAt_of_lt hlt]
  have hnull := ne_null_of_isQuote hquote
  generalize hq : Char.ofUInt8 bytes[s'.pos] = quote at hquote hnull
  refine .ok ⟨?_, ?_, ?_, .inl hline⟩
  · have hwidth : ∀ p : Bool, 1 ≤ if p then 3 else 1 := by decide
    exact Nat.lt_of_le_of_lt hpos (Nat.lt_add_of_pos_right (hwidth _))
  · show s'.pos + (if _ then 3 else 1) ≤ bytes.length
    split
    · rename_i htriple
      simp only [Bool.and_eq_true, decide_eq_true_eq] at htriple
      have hthird := lt_of_peek htriple.2 hnull
      omega
    · omega
  · show Turn c s.frames s.depth (_ :: s'.frames) s'.depth
    rw [hframes, hdepth]
    exact .openLiteral hquote hcode

theorem safe_readName (hlt : s.pos < bytes.length) (hname : continuesName (Char.ofUInt8 bytes[s.pos]) = true)
    (hcode : inCode s.frames = true) : Safe bytes c s (s.readName bytes) := by
  obtain ⟨stop, hskip, hle, hstop, hmore⟩ := exists_skip continuesName hlt
  have hpos : s.pos < stop := hmore hname
  have hafter : Safe bytes c s (.ok { s with pos := stop }) := .ok ⟨hpos, hstop, .stay, .inl rfl⟩
  unfold readName
  simp only [hskip, bind, Except.bind]
  split
  · exact hafter
  · rename_i hend
    have hlt' : stop < bytes.length := by simpa [atEnd] using hend
    rw [byteAt_of_lt hlt']
    dsimp only
    split
    · rename_i hquote
      have hbetween : bytesBetween bytes s.pos stop = .ok ((bytes.drop s.pos).take (stop - s.pos)) := by
        rw [bytesBetween, if_pos]
        simp [hle, hstop]
      rw [hbetween]
      dsimp only
      split
      · exact safe_openLiteral _ hle hlt' hquote rfl rfl rfl hcode
      · exact hafter
    · exact hafter

theorem safe_openBracket (hlt : s.pos < bytes.length) (hopening : isOpening c = true) :
    Safe bytes c s (.ok (s.advance 1).openBracket) := by
  unfold openBracket
  split
  · rename_i depth below hframes
    have hframes : s.frames = .field depth :: below := hframes
    refine .ok ⟨Nat.lt_succ_self _, hlt, ?_, .inl rfl⟩
    rw [hframes]
    exact .openInField hopening
  · exact .ok ⟨Nat.lt_succ_self _, hlt, .openBracket hopening, .inl rfl⟩

/-- No bracket count goes below zero. -/
theorem safe_closeBracket (hlt : s.pos < bytes.length) : Safe bytes c s ((s.advance 1).closeBracket c) := by
  unfold closeBracket
  split
  · rename_i below hframes
    have hframes : s.frames = .field 0 :: below := hframes
    split
    · refine .ok ⟨Nat.lt_succ_self _, hlt, ?_, .inl rfl⟩
      rw [hframes]
      exact .closeField
    · exact .error _
  · rename_i depth below hzero hframes
    have hframes : s.frames = .field depth :: below := hframes
    cases depth with
    | zero => exact (hzero rfl).elim
    | succ depth =>
      refine .ok ⟨Nat.lt_succ_self _, hlt, ?_, .inl rfl⟩
      rw [hframes]
      exact .closeInField
  · split
    · rename_i hdepth
      obtain ⟨depth, hsucc⟩ : ∃ depth, s.depth = depth + 1 :=
        Nat.exists_eq_succ_of_ne_zero (Nat.pos_iff_ne_zero.1 hdepth)
      have hlower : lower (s.advance 1).depth = .ok depth := by
        have hsame : (s.advance 1).depth = s.depth := rfl
        rw [hsame, hsucc]
        rfl
      rw [hlower]
      refine .ok ⟨Nat.lt_succ_self _, hlt, ?_, .inl rfl⟩
      show Turn c s.frames s.depth s.frames depth
      rw [hsucc]
      exact .closeBracket
    · exact .error _

theorem safe_openSpec (hlt : s.pos < bytes.length) : Safe bytes c s (.ok (s.advance 1).openSpec) := by
  unfold openSpec
  split
  · rename_i below hframes
    have hframes : s.frames = .field 0 :: below := hframes
    refine .ok ⟨Nat.lt_succ_self _, hlt, ?_, .inl rfl⟩
    show Turn c s.frames s.depth (.spec :: s.frames) s.depth
    rw [hframes]
    exact .openSpec
  · exact safe_advance 1 Nat.one_pos hlt

theorem safe_readCode (hlt : s.pos < bytes.length) (hc : Char.ofUInt8 bytes[s.pos] = c)
    (hcode : inCode s.frames = true) : Safe bytes c s (s.readCode bytes c) := by
  unfold readCode
  split
  · rename_i hhash
    obtain ⟨stop, hskip, -, hstop, hmore⟩ := exists_skip (!isBreak ·) hlt
    have hpos : s.pos < stop := hmore (by rw [hc, hhash]; rfl)
    rw [hskip]
    exact .ok ⟨hpos, hstop, .stay, .inl rfl⟩
  split
  · split
    · rename_i hbreak
      have hnext : s.pos + 1 < bytes.length := by
        refine lt_of_peek rfl fun hnull => ?_
        rw [hnull] at hbreak
        cases hbreak
      exact .ok ⟨Nat.lt_succ_self _, Nat.le_of_lt hnext, .stay, .inl rfl⟩
    · exact .error _
  split
  · rename_i hbreak
    exact safe_newline (Nat.le_refl _) hlt (by rw [hc]; exact hbreak) .stay rfl
  split
  · rename_i hquote
    exact safe_openLiteral _ (Nat.le_refl _) hlt (by rw [hc]; exact hquote) rfl rfl rfl hcode
  split
  · rename_i hopening
    exact safe_openBracket hlt hopening
  split
  · exact safe_closeBracket hlt
  split
  · exact safe_openSpec hlt
  split
  · rename_i hname
    exact safe_readName hlt (by rw [hc]; exact Scanner.continuesName_of_startsName hname) hcode
  · exact safe_advance 1 Nat.one_pos hlt

theorem safe_readLiteral {l : Literal} {below : List Frame} (hlt : s.pos < bytes.length)
    (hc : Char.ofUInt8 bytes[s.pos] = c) (hframes : s.frames = .literal l :: below) (hquote : isQuote l.quote = true) :
    Safe bytes c s (s.readLiteral bytes l below c) := by
  unfold readLiteral
  split
  · dsimp only
    split
    · exact safe_advance 1 Nat.one_pos hlt
    · rename_i hend
      have hlt' : (s.advance 1).pos < bytes.length := by simpa [atEnd] using hend
      rw [byteAt_of_lt hlt']
      simp only [bind, Except.bind]
      split
      · rename_i hbreak
        exact safe_newline (Nat.le_succ _) hlt' hbreak .stay rfl
      split
      · exact safe_advance 1 Nat.one_pos hlt
      · exact safe_advance 2 Nat.two_pos hlt'
  split
  · rename_i hbreak
    split
    · exact safe_newline (Nat.le_refl _) hlt (by rw [hc]; exact hbreak) .stay rfl
    · exact .error _
  split
  · rename_i hsame
    have hnull : c ≠ '\x00' := ne_null_of_isQuote (by rw [hsame]; exact hquote)
    split
    · refine .ok ⟨Nat.lt_succ_self _, hlt, ?_, .inl rfl⟩
      rw [hframes]
      exact .closeLiteral
    split
    · rename_i hthree
      simp only [Bool.and_eq_true, decide_eq_true_eq] at hthree
      have hthird := lt_of_peek hthree.2 hnull
      refine .ok ⟨Nat.lt_add_of_pos_right (by decide), hthird, ?_, .inl rfl⟩
      rw [hframes]
      exact .closeLiteral
    · exact safe_advance 1 Nat.one_pos hlt
  split
  · rename_i hbrace
    split
    · rename_i hnext
      exact safe_advance 2 Nat.two_pos (lt_of_peek hnext (by decide))
    · have hfield : (Frame.field 0).standsOn s.frames = true := by
        rw [hframes]
        exact (Bool.and_eq_true_iff.1 hbrace).1
      exact .ok ⟨Nat.lt_succ_self _, hlt, .openField hfield, .inl rfl⟩
  split
  · rename_i hbraces
    simp only [Bool.and_eq_true, decide_eq_true_eq] at hbraces
    exact safe_advance 2 Nat.two_pos (lt_of_peek hbraces.2 (by decide))
  · exact safe_advance 1 Nat.one_pos hlt

theorem safe_readSpec {below : List Frame} (hlt : s.pos < bytes.length) (hc : Char.ofUInt8 bytes[s.pos] = c)
    (hframes : s.frames = .spec :: below) :
    Safe bytes c s (s.readSpec bytes c) := by
  unfold readSpec
  split
  · have hfield : (Frame.field 0).standsOn s.frames = true := by
      rw [hframes]
      rfl
    exact .ok ⟨Nat.lt_succ_self _, hlt, .openField hfield, .inl rfl⟩
  split
  · refine .ok ⟨Nat.lt_succ_self _, hlt, ?_, .inl rfl⟩
    show Turn c s.frames s.depth (s.frames.drop 2) s.depth
    rw [hframes]
    exact .closeSpec
  split
  · rename_i hbreak
    exact safe_newline (Nat.le_refl _) hlt (by rw [hc]; exact hbreak) .stay rfl
  · exact safe_advance 1 Nat.one_pos hlt

theorem inCode_cases {frames : List Frame} (h : inCode frames = true) :
    frames = [] ∨ ∃ depth below, frames = .field depth :: below := by
  obtain _ | ⟨_ | depth | _, below⟩ := frames
  · exact .inl rfl
  · cases h
  · exact .inr ⟨depth, below, rfl⟩
  · cases h

theorem frames_cases (frames : List Frame) : (∃ l below, frames = .literal l :: below) ∨
    (∃ below, frames = .spec :: below) ∨ inCode frames = true := by
  obtain _ | ⟨l | _ | _, below⟩ := frames
  · exact .inr (.inr rfl)
  · exact .inl ⟨l, below, rfl⟩
  · exact .inr (.inr rfl)
  · exact .inr (.inl ⟨below, rfl⟩)

theorem step_of_literal {l : Literal} {below : List Frame} (hbyte : byteAt bytes s.pos = .ok c)
    (hframes : s.frames = .literal l :: below) : s.step bytes = s.readLiteral bytes l below c := by
  rw [step, hbyte, hframes]
  rfl

theorem step_of_spec {below : List Frame} (hbyte : byteAt bytes s.pos = .ok c) (hframes : s.frames = .spec :: below) :
    s.step bytes = s.readSpec bytes c := by
  rw [step, hbyte, hframes]
  rfl

theorem step_of_inCode (hbyte : byteAt bytes s.pos = .ok c) (hcode : inCode s.frames = true) :
    s.step bytes = s.readCode bytes c := by
  rw [step, hbyte]
  obtain hframes | ⟨depth, below, hframes⟩ := inCode_cases hcode
  · rw [hframes]
    rfl
  · rw [hframes]
    rfl

theorem isQuote_of_nested {l : Literal} {below : List Frame} (hnested : Nested s.frames)
    (hframes : s.frames = .literal l :: below) : isQuote l.quote = true := by
  rw [hframes] at hnested
  exact (Bool.and_eq_true_iff.1 hnested.1).1

/-- **A step has no fault:** it meets an error of the source, or it leads on and not past the end. -/
theorem safe_step (hlt : s.pos < bytes.length) (hnested : Nested s.frames) :
    Safe bytes (Char.ofUInt8 bytes[s.pos]) s (s.step bytes) := by
  have hbyte := byteAt_of_lt hlt
  rcases frames_cases s.frames with ⟨l, below, hframes⟩ | ⟨below, hframes⟩ | hcode
  · rw [step_of_literal hbyte hframes]
    exact safe_readLiteral hlt rfl hframes (isQuote_of_nested hnested hframes)
  · rw [step_of_spec hbyte hframes]
    exact safe_readSpec hlt rfl hframes
  · rw [step_of_inCode hbyte hcode]
    exact safe_readCode hlt rfl hcode

end Safety

/-! ## All states of a run -/

/-- The states that a run over the bytes goes through. -/
inductive Reached (bytes : List UInt8) : ByteScanner → Prop
  | start : Reached bytes start
  | step {s s' : ByteScanner} (h : Reached bytes s) (hlt : s.pos < bytes.length) (hs : s.step bytes = .ok s') :
      Reached bytes s'

/-- Each turn leaves every frame on frames that it may stand on. -/
theorem Turn.nested {c : Char} {frames frames' : List Frame} {depth depth' : Nat}
    (h : Turn c frames depth frames' depth') (hnested : Nested frames) : Nested frames' := by
  cases h with
  | stay | openBracket | closeBracket => exact hnested
  | openLiteral hquote hcode => exact ⟨Bool.and_eq_true_iff.2 ⟨hquote, hcode⟩, hnested⟩
  | closeLiteral | closeField => exact hnested.2
  | openField hfield => exact ⟨hfield, hnested⟩
  | openSpec => exact ⟨rfl, hnested⟩
  | @closeSpec below =>
    cases below with
    | nil => exact hnested.2
    | cons f below => exact hnested.2.2
  | @openInField below _ inner => exact ⟨Frame.standsOn_field inner _ below ▸ hnested.1, hnested.2⟩
  | @closeInField below _ inner => exact ⟨Frame.standsOn_field (inner + 1) _ below ▸ hnested.1, hnested.2⟩

/-- The brackets that are open in fields. -/
def fieldBrackets : List Frame → Nat
  | [] => 0
  | .field depth :: below => depth + fieldBrackets below
  | _ :: below => fieldBrackets below

/-- All brackets that are open. -/
def openBrackets (s : ByteScanner) : Nat := s.depth + fieldBrackets s.frames

/-- How many of the bytes open a bracket. -/
def countOpening (bytes : List UInt8) : Nat := bytes.countP fun b => isOpening (Char.ofUInt8 b)

theorem fieldBrackets_drop_le (frames : List Frame) (n : Nat) :
    fieldBrackets (frames.drop n) ≤ fieldBrackets frames := by
  induction frames generalizing n with
  | nil => simp
  | cons f below ih =>
    cases n with
    | zero => exact Nat.le_refl _
    | succ n =>
      have hbelow := ih n
      cases f <;> simp only [List.drop_succ_cons, fieldBrackets] <;> omega

/-- Only an opening bracket adds to the brackets that are open. -/
theorem Turn.brackets_le {c : Char} {frames frames' : List Frame} {depth depth' : Nat}
    (h : Turn c frames depth frames' depth') :
    depth' + fieldBrackets frames' ≤ depth + fieldBrackets frames + if isOpening c then 1 else 0 := by
  cases h with
  | openInField hopening | openBracket hopening =>
    simp only [fieldBrackets, hopening, if_true]
    omega
  | @closeSpec below =>
    have hdrop := fieldBrackets_drop_le below 1
    simp only [fieldBrackets]
    omega
  | stay | closeBracket => omega
  | openLiteral | closeLiteral | openField | closeField | openSpec | closeInField =>
    simp only [fieldBrackets]
    omega

theorem countOpening_take_succ {bytes : List UInt8} {i : Nat} (h : i < bytes.length) :
    countOpening (bytes.take (i + 1)) =
      countOpening (bytes.take i) + if isOpening (Char.ofUInt8 bytes[i]) then 1 else 0 := by
  rw [countOpening, ← List.take_append_getElem h, List.countP_append, List.countP_singleton]
  rfl

theorem countOpening_take_le (bytes : List UInt8) {i j : Nat} (h : i ≤ j) :
    countOpening (bytes.take i) ≤ countOpening (bytes.take j) :=
  (List.take_sublist_take_left h).countP_le

/-- How many line breaks end before place `i`. -/
def countBreaks (bytes : List UInt8) (i : Nat) : Nat := (List.range i).countP (endsBreak bytes)

theorem countBreaks_succ (bytes : List UInt8) (i : Nat) :
    countBreaks bytes (i + 1) = countBreaks bytes i + if endsBreak bytes i then 1 else 0 := by
  rw [countBreaks, List.range_succ, List.countP_append, List.countP_singleton]
  rfl

theorem countBreaks_le (bytes : List UInt8) {i j : Nat} (h : i ≤ j) : countBreaks bytes i ≤ countBreaks bytes j :=
  (List.range_sublist.2 h).countP_le

/-- What holds in every state of a run. -/
structure Sound (bytes : List UInt8) (s : ByteScanner) : Prop where
  nested : Nested s.frames
  pos_le : s.pos ≤ bytes.length
  brackets_le : s.openBrackets ≤ countOpening (bytes.take s.pos)
  line_le : s.line ≤ countBreaks bytes s.pos + 1

theorem sound_start (bytes : List UInt8) : Sound bytes start :=
  ⟨trivial, Nat.zero_le _, Nat.zero_le _, Nat.le_refl _⟩

theorem Leads.line_le {bytes : List UInt8} {c : Char} {s s' : ByteScanner} (h : Leads bytes c s s')
    (hs : s.line ≤ countBreaks bytes s.pos + 1) : s'.line ≤ countBreaks bytes s'.pos + 1 := by
  rcases h.line with hline | ⟨hline, i, hle, hlt, hends⟩
  · have hmono := countBreaks_le bytes (Nat.le_of_lt h.lt)
    omega
  · have hbefore := countBreaks_le bytes hle
    have hafter := countBreaks_le bytes hlt
    rw [countBreaks_succ, hends, if_pos rfl] at hafter
    omega

theorem Leads.sound {bytes : List UInt8} {s s' : ByteScanner} (hlt : s.pos < bytes.length)
    (h : Leads bytes (Char.ofUInt8 bytes[s.pos]) s s') (hs : Sound bytes s) : Sound bytes s' := by
  refine ⟨h.turn.nested hs.nested, h.le, ?_, h.line_le hs.line_le⟩
  calc s'.openBrackets ≤ s.openBrackets + if isOpening (Char.ofUInt8 bytes[s.pos]) then 1 else 0 := h.turn.brackets_le
    _ ≤ countOpening (bytes.take s.pos) + if isOpening (Char.ofUInt8 bytes[s.pos]) then 1 else 0 :=
      Nat.add_le_add_right hs.brackets_le _
    _ = countOpening (bytes.take (s.pos + 1)) := (countOpening_take_succ hlt).symm
    _ ≤ countOpening (bytes.take s'.pos) := countOpening_take_le bytes h.lt

/-- One step from a sound state. -/
theorem Sound.leads {bytes : List UInt8} {s s' : ByteScanner} (h : Sound bytes s) (hlt : s.pos < bytes.length)
    (hs : s.step bytes = .ok s') : Leads bytes (Char.ofUInt8 bytes[s.pos]) s s' := by
  have hsafe := safe_step hlt h.nested
  rw [hs] at hsafe
  cases hsafe with
  | ok hleads => exact hleads

theorem Reached.sound {bytes : List UInt8} {s : ByteScanner} (h : Reached bytes s) : Sound bytes s := by
  induction h with
  | start => exact sound_start bytes
  | step _ hlt hs ih => exact (ih.leads hlt hs).sound hlt ih

/-! ## The end of a run -/

/-- Where a frame is open at the end, a literal is. -/
theorem finish_of_ne_nil {s : ByteScanner} (bytes : List UInt8) (hnested : Nested s.frames) (hne : s.frames ≠ []) :
    ∃ l, innermostLiteral? s.frames = some l ∧ s.finish bytes =
      .error (.error ⟨l.startLine, if l.triple then .unterminatedTripleQuote else .unterminatedString⟩) := by
  cases hliteral : innermostLiteral? s.frames with
  | none => exact absurd (hnested.innermostLiteral?_eq_none hliteral) hne
  | some l =>
    refine ⟨l, rfl, ?_⟩
    rw [finish, hliteral]

/-- The closing brace of a specification takes it away, and the field that it stands in. -/
theorem readSpec_close {s : ByteScanner} {below : List Frame} (bytes : List UInt8) (hnested : Nested s.frames)
    (hframes : s.frames = .spec :: below) :
    ∃ rest, below = .field 0 :: rest ∧ s.readSpec bytes '}' = .ok { s.advance 1 with frames := rest } := by
  rw [hframes] at hnested
  obtain ⟨rest, rfl⟩ : ∃ rest, below = .field 0 :: rest := by
    have hstands := hnested.1
    unfold Frame.standsOn at hstands
    split at hstands <;> simp_all
  refine ⟨rest, rfl, ?_⟩
  rw [readSpec, if_neg (by decide), if_pos rfl, hframes]
  rfl

end ByteScanner

end TypeIgnore
