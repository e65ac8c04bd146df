import TypeIgnore.Diagnostic.Path
import TypeIgnore.Diagnostic.Reason
import TypeIgnore.Text.Number
import TypeIgnore.Text.Utf8
import TypeIgnore.Digest.Sha256

/-!
# Diagnostics

* `Diagnostic` — one error of the checker's report;
* `Diagnostic.display` — the line shown for it;
* `Diagnostic.fingerprint` — its identity across runs;
* `Rejected` — a diagnostic that is left alone, with the reason.
-/

namespace TypeIgnore

/-- No marker is put on a line with a syntax error, since the checker would not read it. -/
inductive Severity
  | error
  | syntaxError
  deriving DecidableEq, Repr

structure Diagnostic where
  path : ReportPath
  /-- Counted from 1. -/
  line : Nat
  col : Option Nat := none
  endLine : Option Nat := none
  endCol : Option Nat := none
  code : Option Text := none
  message : Text
  severity : Severity := .error
  deriving DecidableEq, Repr

/-! ## Codes -/

def startsCode (c : Char) : Bool := ('a' ≤ c && c ≤ 'z') || ('0' ≤ c && c ≤ '9')

/-- A character that codes are made of. -/
def isCodeChar (c : Char) : Bool := startsCode c || c == '_' || c == '-'

/-! Codes with a meaning of their own. -/

def syntaxCode : Text := "syntax"

/-- A marker, or some of its codes, silences nothing. -/
def unusedIgnoreCode : Text := "unused-ignore"

/-- A marker should name codes. -/
def ignoreWithoutCodeCode : Text := "ignore-without-code"

/-- Removing it removes every code. -/
def wildcard : Text := "*"

namespace Diagnostic

def isSyntax (d : Diagnostic) : Bool := d.severity == .syntaxError

def withCode (d : Diagnostic) (code : Text) : Diagnostic :=
  { d with code := some code, severity := if code = syntaxCode then .syntaxError else d.severity }

def colText (d : Diagnostic) : Text :=
  match d.col with
  | some col => ":" ++ Text.ofNat col
  | none => []

/-- Place, code and message. -/
def display (d : Diagnostic) : Text :=
  let place := d.path.text ++ ":" ++ Text.ofNat d.line ++ d.colText
  match d.code with
  | some code => place ++ ": [" ++ code ++ "] " ++ d.message
  | none => place ++ ": " ++ d.message

/-- The SHA-256 digest of path, line, code and message. -/
def fingerprint (d : Diagnostic) : Text :=
  Sha256.hexDigest (Utf8.encode
    (d.path.text ++ "|" ++ Text.ofNat d.line ++ "|" ++ d.code.getD [] ++ "|" ++ d.message))

end Diagnostic

structure Rejected where
  diagnostic : Diagnostic
  reason : Reason
  deriving DecidableEq, Repr

end TypeIgnore
