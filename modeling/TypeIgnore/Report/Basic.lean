import TypeIgnore.Report.Entry

/-!
# Reports

The diagnostics of a checker's report: one for each path, line, column and code, by path and then by line. A note
about the place of the error before it is added to that error's message.

* `Item` — what a line of the report is;
* `gather` — the errors of the items, with their notes;
* `Report.ofText`, `Report.ofBytes` — a report read;
* `Report.read` — a report read from a place in a stream, which is left as it was.
-/

namespace TypeIgnore

structure Report where
  diagnostics : List Diagnostic
  /-- Lines that look like entries and are none. -/
  unparsed : Nat
  /-- Diagnostics without a code, syntax errors apart. -/
  uncoded : Nat
  deriving DecidableEq, Repr

/-- A line of a report that is not blank. -/
inductive Item
  | entry (e : Entry)
  | other (looksLikeEntry : Bool)
  deriving DecidableEq, Repr

namespace Item

def looksLikeEntry (line : Text) : Bool := Text.occursIn ": error:" line || Text.occursIn ": note:" line

def ofLine (line : Text) : Item :=
  match Entry.ofText? line with
  | some e => .entry e
  | none => .other (looksLikeEntry line)

end Item

/-- An error with a note added. -/
def Diagnostic.extend (d : Diagnostic) (text : Text) : Diagnostic :=
  { d with message := d.message ++ "; " ++ text }

/-- The errors of the items. `current` is the error that a note may still extend: notes about the same place do,
other notes are passed over, and a line that is no entry ends it. -/
def gather (current : Option Diagnostic) : List Item → List Diagnostic
  | [] => current.toList
  | .entry (.error d) :: items => current.toList ++ gather (some d) items
  | .entry (.note path line text) :: items =>
    gather (current.map fun d => if d.path = path ∧ d.line = line then d.extend text else d) items
  | .other _ :: items => current.toList ++ gather none items

namespace Diagnostic

/-- Diagnostics with the same key are the same. -/
def key (d : Diagnostic) : ReportPath × Nat × Option Nat × Option Text := (d.path, d.line, d.col, d.code)

/-- By path, then by line. -/
def le (d e : Diagnostic) : Bool :=
  if d.path = e.path then decide (d.line ≤ e.line) else d.path.le e.path

end Diagnostic

/-- The first diagnostic of each key. -/
def firstOfKey : List Diagnostic → List Diagnostic
  | [] => []
  | d :: ds => d :: (firstOfKey ds).filter fun e => e.key != d.key

namespace Report

/-- The lines of the report that are not blank, without the blanks at their ends. -/
def contentLines (text : Text) : List Text := ((Text.lines text).map Text.trimEnd).filter (!·.isEmpty)

def items (text : Text) : List Item := (contentLines text).map Item.ofLine

def ofText (text : Text) : Report :=
  let items := items text
  let diagnostics := (firstOfKey (gather none items)).mergeSort Diagnostic.le
  { diagnostics
    unparsed := items.countP (· == .other true)
    uncoded := diagnostics.countP fun d => d.code.isNone && !d.isSyntax }

theorem diagnostics_eq_singleton {text : Text} {d : Diagnostic} (h : firstOfKey (gather none (items text)) = [d]) :
    (ofText text).diagnostics = [d] := by
  rw [ofText, h]
  exact List.mergeSort_singleton d

/-- Bytes that are not UTF-8 read as U+FFFD. -/
def ofBytes (bytes : List UInt8) : Report := ofText (Utf8.decodeLossy bytes)

end Report

/-! ## Reading from a place in a stream -/

/-- Bytes and a place in them, which may lie after their end. -/
structure Cursor where
  bytes : List UInt8
  position : Nat
  deriving DecidableEq, Repr

namespace Cursor

/-- The bytes from the place on. -/
def rest (c : Cursor) : List UInt8 := c.bytes.drop c.position

def readAll (c : Cursor) : List UInt8 × Cursor :=
  (c.rest, { c with position := max c.position c.bytes.length })

def seek (c : Cursor) (position : Nat) : Cursor := { c with position }

end Cursor

/-- The report in the rest of a stream, and the stream, wound back to where it was so that it can be read again. -/
def Report.read (c : Cursor) : Report × Cursor :=
  let (bytes, after) := c.readAll
  (ofBytes bytes, after.seek c.position)

end TypeIgnore
