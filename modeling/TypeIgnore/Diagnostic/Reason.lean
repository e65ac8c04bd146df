import TypeIgnore.Text.Basic

/-!
# Why a diagnostic is left alone
-/

namespace TypeIgnore

inductive Reason
  | midRegion
  | unparseableSource
  | syntaxError
  | lineOutOfRange
  | fileNotFound
  | encodingError
  | ioError
  deriving DecidableEq, Repr

namespace Reason

/-- All reasons, in order. -/
def all : List Reason :=
  [.midRegion, .unparseableSource, .syntaxError, .lineOutOfRange, .fileNotFound, .encodingError, .ioError]

def text : Reason → Text
  | .midRegion => "mid-region"
  | .unparseableSource => "unparseable-source"
  | .syntaxError => "syntax-error"
  | .lineOutOfRange => "line-out-of-range"
  | .fileNotFound => "file-not-found"
  | .encodingError => "encoding-error"
  | .ioError => "io-error"

def ofText? (t : Text) : Option Reason := all.find? fun r => r.text == t

/-- How many reasons come before this one. -/
def rank (r : Reason) : Nat := all.idxOf r

theorem ofText?_text (r : Reason) : ofText? r.text = some r := by cases r <;> decide

end Reason

end TypeIgnore
