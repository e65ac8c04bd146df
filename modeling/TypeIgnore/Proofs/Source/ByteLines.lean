import TypeIgnore.Proofs.Source.ByteSimulation

/-!
# What a run over bytes finds

* `ByteScanner.LineRun` — what a run comes to from inside a line: an error, the next line, or the end of the source;
* `ByteScanner.Stands.run` — it is what the scanner of characters comes to;
* `Scanner.scansFrom` — what all lines show, with the places of their comments;
* `ByteScanner.run_eq` — **what a run finds is what the lines show.**
-/

namespace TypeIgnore

namespace ByteScanner

open Scanner (toLineEnd endHere)

section Lines

variable {bytes : List UInt8} {tail : LineTail} {k : ByteScanner} {u : Text} {cs : List UInt8}
  {expected : Except LexError LineEnd}

/-! ## All steps of a line -/

/-- A run goes on with the next step. -/
theorem run_of_lt (hlt : k.pos < bytes.length) (hnested : Nested k.frames) :
    k.run bytes = k.step bytes >>= run bytes := by
  have hsafe := safe_step hlt hnested
  rw [run, if_neg (Nat.not_le.2 hlt)]
  cases hstep : k.step bytes with
  | error halt => rfl
  | ok k' =>
    rw [hstep] at hsafe
    cases hsafe with
    | ok hleads => exact if_pos hleads.lt

/-- What a run from `k` comes to, where the line comes to `expected`: an error, the next line, or the end of the
source. -/
inductive LineRun (bytes : List UInt8) (tail : LineTail) (k : ByteScanner) (expected : Except LexError LineEnd) :
    Except Halt ByteScanner → Prop
  | error {e : LexError} (h : expected = .error e) : LineRun bytes tail k expected (.error (.error e))
  | nextLine {b : LineBreak} {v : Text} {apart : b = .cr → v.head? ≠ some '\n'} {r : LineEnd} {pos : Nat}
      (htail : tail = .lineBreak b v apart) (h : expected = .ok r) (hpending : r.next.pending = .nothing)
      (hnested : Nested r.next.frames) (hshows : Shows bytes pos v) (hle : pos ≤ bytes.length) :
      LineRun bytes tail k expected ((k.after pos r).run bytes)
  | finish {k' : ByteScanner} (htail : tail = .sourceEnd) (hsame : SameLine k k') (hnested : Nested k'.frames)
      (hcontinued : k'.continued = false) (h : endHere false k'.line k'.scanner k'.hash = expected) :
      LineRun bytes tail k expected (k'.finish bytes)

theorem SameLine.trans {k₁ k₂ k₃ : ByteScanner} (h : SameLine k₁ k₂) (h' : SameLine k₂ k₃) : SameLine k₁ k₃ :=
  ⟨h'.line.trans h.line, h'.scans.trans h.scans, h'.statement.trans h.statement, h'.regions.trans h.regions⟩

theorem LineRun.of_sameLine {k' : ByteScanner} {result : Except Halt ByteScanner} (hsame : SameLine k k')
    (h : LineRun bytes tail k' expected result) : LineRun bytes tail k expected result := by
  cases h with
  | error h => exact .error h
  | @nextLine b v apart r pos htail h hpending hnested hshows hle =>
    have hafter : k'.after pos r = k.after pos r := by
      rw [after, after, hsame.line, hsame.scans, hsame.statement, hsame.regions]
    rw [hafter]
    exact .nextLine htail h hpending hnested hshows hle
  | finish htail hsame' hnested hcontinued h => exact .finish htail (hsame.trans hsame') hnested hcontinued h

/-- Nothing is left of a line that has no bytes left. -/
theorem Stands.eq_nil (h : Stands bytes tail k cs u) (hle : bytes.length ≤ k.pos) :
    cs = [] ∧ u = [] ∧ tail = .sourceEnd := by
  have hdrop := h.drop
  rw [List.drop_eq_nil_of_le hle] at hdrop
  obtain ⟨hcs, htext⟩ := List.append_eq_nil_iff.1 hdrop.symm
  have hshows : Shows bytes k.pos (u ++ tail.text) := (List.drop_eq_nil_of_le hle).trans htext.symm
  cases u with
  | cons c u => exact absurd hle (Nat.not_le.2 (Shows.lt hshows))
  | nil =>
    cases tail with
    | sourceEnd => exact ⟨hcs, rfl, rfl⟩
    | lineBreak b v apart =>
      obtain ⟨y, hbyte, -⟩ := byteAt_break hshows
      exact absurd hle (Nat.not_le.2 (lt_of_byteAt hbyte))

/-- **All steps of a line** come to what the scanner of characters comes to. -/
theorem Stands.run (h : Stands bytes tail k cs u) (hnested : Nested k.frames) :
    LineRun bytes tail k (k.outlook tail cs u) (k.run bytes) := by
  induction hn : bytes.length - k.pos using Nat.strong_induction_on generalizing k cs u with
  | _ n ih =>
    by_cases hlt : k.pos < bytes.length
    · have houtcome := h.step hnested hlt
      have hsafe := safe_step hlt hnested
      rw [run_of_lt hlt hnested]
      generalize k.step bytes = result at houtcome hsafe
      cases houtcome with
      | error he => exact .error he
      | @within k' cs' u' hstands hsame houtlook =>
        cases hsafe with
        | ok hleads =>
          have hpos := hleads.lt
          have hrest := ih (bytes.length - k'.pos) (by omega) hstands (hleads.turn.nested hnested) rfl
          rw [houtlook] at hrest
          exact hrest.of_sameLine hsame
      | nextLine htail hr hpending hshows =>
        cases hsafe with
        | ok hleads => exact .nextLine htail hr hpending (hleads.turn.nested hnested) hshows hleads.le
    · obtain ⟨rfl, rfl, rfl⟩ := h.eq_nil (Nat.not_lt.1 hlt)
      have hcontinued : k.continued = false := by
        rw [Bool.eq_false_iff]
        exact fun hcontinued => Bool.false_ne_true (h.continued hcontinued).2.2.2
      rw [ByteScanner.run, if_pos (Nat.not_lt.1 hlt)]
      exact .finish rfl ⟨rfl, rfl, rfl, rfl⟩ hnested hcontinued rfl

/-! ## The end of the source -/

/-- What a run has found. -/
def shown (k : ByteScanner) : List LineScan × List Region := (k.scans, k.regions)

/-- What is found in all, if what comes after `k` shows `result`. -/
def found (k : ByteScanner) : (result : Except LexError (List LineScan × List Region)) →
    Except Halt (List LineScan × List Region)
  | .error e => .error (.error e)
  | .ok (scans, regions) => .ok (k.scans ++ scans, k.regions ++ regions)

/-- What the end of the source shows in line `n`, which has shown `scan`. After a break at the end there is no such
line. -/
def lastScan (ended : Bool) (n : Nat) (current : Option OpenStatement) (scan : LineScan) :
    Except LexError (List LineScan × List Region) :=
  if ended then
    match current with
    | some o => .error ⟨o.first, .eofInStatement⟩
    | none => .ok ([], [])
  else .ok ([scan], OpenStatement.close n none current)

theorem finish_cases (bytes : List UInt8) (hnested : Nested k.frames) (hcontinued : k.continued = false) :
    (∃ e, endHere false k.line k.scanner k.hash = .error e ∧ k.finish bytes = .error (.error e)) ∨
    ∃ r, endHere false k.line k.scanner k.hash = .ok r ∧
      (k.finish bytes).map shown = k.found (lastScan (endsInBreak bytes) k.line k.statement r.toLineScan) := by
  rw [scanner_eq hcontinued, finish, hcontinued, Bool.or_false]
  simp only [endHere, Scanner.checkEnd]
  cases hliteral : Scanner.innermostLiteral? k.frames with
  | some l => exact .inl ⟨_, rfl, rfl⟩
  | none =>
    by_cases hdepth : k.depth > 0
    · exact .inl ⟨⟨k.line, .eofInStatement⟩, by simp only [hdepth, if_true]; rfl, by simp [hdepth]⟩
    · have hleft : k.left = none := by
        rw [left_eq hcontinued, hnested.innermostLiteral?_eq_none hliteral, Scanner.leftOpen]
        simp [hdepth]
      refine .inr ⟨⟨⟨k.hash, none⟩, ⟨k.frames, k.depth, .nothing⟩⟩, by simp only [hdepth, if_false]; rfl, ?_⟩
      simp only [decide_eq_true_eq, hdepth, if_false, lastScan]
      cases endsInBreak bytes with
      | true =>
        simp only [if_true]
        cases k.statement with
        | some o => rfl
        | none => simp only [found, List.append_nil, Except.map, shown]
      | false =>
        simp only [Bool.false_eq_true, if_false, endLine, hleft]
        rfl

end Lines

end ByteScanner

/-! ## What the lines show -/

/-- How many bytes a line takes. -/
def EndedLine.size (l : EndedLine) : Nat := (Utf8.encode (l.content ++ l.ending.text)).length

theorem length_encode_text (b : LineBreak) : (Utf8.encode b.text).length = b.text.length := by
  cases b <;> rfl

theorem EndedLine.size_eq (l : EndedLine) : l.size = (Utf8.encode l.content).length + l.ending.text.length := by
  rw [size, length_encode_append, length_encode_text]

theorem shows_next {bytes : List UInt8} {i : Nat} {l : EndedLine} {ls : List EndedLine} {rest : Text}
    (h : Shows bytes i (joinLines (l :: ls, rest))) (hle : i ≤ bytes.length) :
    Shows bytes (i + l.size) (joinLines (ls, rest)) ∧ i + l.size ≤ bytes.length := by
  rw [joinLines_cons, ← List.append_assoc] at h
  exact ⟨h.append, h.append_le hle⟩

namespace Scanner

/-- What the lines from line `n` on show, the first of them at place `i`: `ls`, and `rest` after their last break. -/
def scansFrom (n i : Nat) (s : Scanner) (current : Option OpenStatement) (rest : Text) :
    List EndedLine → Except LexError (List LineScan × List Region)
  | [] => do
    let r ← s.toLineEnd false n none i rest
    ByteScanner.lastScan rest.isEmpty n current r.toLineScan
  | l :: ls => do
    let r ← s.toLineEnd true n none i l.content
    let (scans, regions) ← scansFrom (n + 1) (i + l.size) r.next (OpenStatement.advance n r.left current) rest ls
    .ok (r.toLineScan :: scans, OpenStatement.close n r.left current ++ regions)

end Scanner

namespace ByteScanner

open Scanner (scansFrom toLineEnd)

section Run

variable {bytes : List UInt8} {k : ByteScanner} {ls : List EndedLine} {rest : Text}

theorem outlook_start (tail : LineTail) (u : Text) (hcontinued : k.continued = false) (hhash : k.hash = none) :
    k.outlook tail [] u = toLineEnd tail.isBroken k.line ⟨k.frames, k.depth, .nothing⟩ none k.pos u := by
  rw [outlook, scanner_eq hcontinued, hhash]
  rfl

/-- What a run finds after the last break. -/
theorem run_nil_eq (hfree : BreakFree rest) (hends : endsInBreak bytes = rest.isEmpty) (hshows : Shows bytes k.pos rest)
    (hnested : Nested k.frames) (hcontinued : k.continued = false) (hhash : k.hash = none) :
    (k.run bytes).map shown =
      k.found (scansFrom k.line k.pos ⟨k.frames, k.depth, .nothing⟩ k.statement rest []) := by
  have hstands : Stands bytes .sourceEnd k [] rest := by
    refine ⟨?_, by simp, fun _ => rfl, hfree, by simp [hcontinued]⟩
    rw [LineTail.text, List.append_nil]
    exact hshows
  have hrun := hstands.run hnested
  rw [outlook_start _ _ hcontinued hhash] at hrun
  rw [scansFrom]
  generalize k.run bytes = result at hrun
  cases hrun with
  | error he =>
    rw [LineTail.isBroken] at he
    rw [he]
    rfl
  | nextLine htail => cases htail
  | @finish k' htail hsame hnested' hcontinued' hexpected =>
    rw [LineTail.isBroken] at hexpected
    rcases finish_cases bytes hnested' hcontinued' with ⟨e, he, hfinish⟩ | ⟨r, hr, hfinish⟩
    · rw [hfinish, ← hexpected, he]
      rfl
    · have hfound : ∀ result, k'.found result = k.found result := by
        intro result
        unfold found
        rw [hsame.scans, hsame.regions]
      rw [hfinish, ← hexpected, hr, hfound, hends, hsame.line, hsame.statement]
      rfl

/-- **What a run finds** is what the lines show, after what has been found before. -/
theorem run_eq (hsplit : IsSplit (ls, rest)) (hends : endsInBreak bytes = rest.isEmpty)
    (hshows : Shows bytes k.pos (joinLines (ls, rest))) (hle : k.pos ≤ bytes.length) (hnested : Nested k.frames)
    (hcontinued : k.continued = false) (hhash : k.hash = none) :
    (k.run bytes).map shown =
      k.found (scansFrom k.line k.pos ⟨k.frames, k.depth, .nothing⟩ k.statement rest ls) := by
  induction ls generalizing k with
  | nil => exact run_nil_eq hsplit.rest hends hshows hnested hcontinued hhash
  | cons l ls ih =>
    have hstands : Stands bytes (.lineBreak l.ending (joinLines (ls, rest)) hsplit.head?_joinLines) k [] l.content := by
      refine ⟨?_, by simp, fun _ => rfl, hsplit.content l List.mem_cons_self, by simp [hcontinued]⟩
      rw [LineTail.text, ← joinLines_cons]
      exact hshows
    have hrun := hstands.run hnested
    rw [outlook_start _ _ hcontinued hhash] at hrun
    rw [scansFrom]
    generalize k.run bytes = result at hrun
    cases hrun with
    | error he =>
      rw [LineTail.isBroken] at he
      rw [he]
      rfl
    | finish htail => cases htail
    | @nextLine b v apart r pos htail hr hpending hnested' hnext hpos =>
      rw [LineTail.isBroken] at hr
      cases htail
      have hnext' := shows_next hshows hle
      have hplace : pos = k.pos + l.size := hnext.place_eq hnext'.1 hpos hnext'.2
      have hrest := ih hsplit.of_cons (k := k.after pos r) hnext hpos hnested' rfl rfl
      have hscanner : (⟨r.next.frames, r.next.depth, .nothing⟩ : Scanner) = r.next := by rw [← hpending]
      rw [hr, hrest]
      simp only [after, hscanner, bind, Except.bind, hplace]
      generalize scansFrom (k.line + 1) (k.pos + l.size) r.next (OpenStatement.advance k.line r.left k.statement) rest
        ls = after
      cases after with
      | error e => rfl
      | ok found => simp [ByteScanner.found]

/-- Whether the source ends in a break is seen by its last byte. -/
theorem endsInBreak_encode (t : Text) : endsInBreak (Utf8.encode t) = (splitLines t).2.isEmpty := by
  rcases List.eq_nil_or_concat t with rfl | ⟨t, c, rfl⟩
  · rfl
  rw [List.concat_eq_append]
  obtain ⟨bs, b, hbytes, halike⟩ := exists_encode_concat t c
  have hlast : endsInBreak (Utf8.encode (t ++ [c])) = isBreak c := by
    rw [endsInBreak, hbytes, List.getLast?_concat]
    exact halike.test_eq fun _ => not_isBreak_of_isWide
  rw [hlast, Bool.eq_iff_iff, List.isEmpty_iff]
  constructor
  · intro hc
    refine splitLines_snd_eq_nil fun c' hc' => ?_
    rw [List.getLast?_concat] at hc'
    cases hc'
    exact hc
  · intro hrest
    have hjoin := joinLines_splitLines (t ++ [c])
    rw [joinLines, hrest, List.append_nil] at hjoin
    rcases List.eq_nil_or_concat (splitLines (t ++ [c])).1 with hls | ⟨ls, l, hls⟩
    · rw [hls] at hjoin
      simp at hjoin
    · -- the last line ends with its break
      rw [hls, List.concat_eq_append, List.flatMap_append, List.flatMap_singleton, ← List.append_assoc] at hjoin
      have hend : some c = l.ending.text.getLast? := by
        rw [← List.getLast?_concat (l := t), ← hjoin]
        exact List.getLast?_append_of_ne_nil _ (by cases l.ending <;> exact List.cons_ne_nil _ _)
      cases hending : l.ending <;> rw [hending] at hend <;> cases hend <;> rfl

end Run

end ByteScanner

end TypeIgnore
