import TypeIgnore.Diagnostic.Basic
import TypeIgnore.Log.Record

/-!
# Notices

What a run tells while it works, in order.
-/

namespace TypeIgnore

inductive Notice
  /-- A record of the log that concerns no single diagnostic. -/
  | log (record : LogRecord)
  | silenced (d : Diagnostic)
  | notSilenced (r : Rejected)
  /-- A warning that is part of the result. -/
  | warning (text : Text)
  deriving DecidableEq, Repr

/-- The notice as a record of the log. -/
def Notice.record : Notice → LogRecord
  | .log record => record
  | .silenced d => ⟨.info, .outcome, "silenced " ++ d.display⟩
  | .notSilenced r => ⟨.info, .outcome, "not silenced (" ++ r.reason.text ++ "): " ++ r.diagnostic.display⟩
  | .warning text => ⟨.warn, .outcome, text⟩

end TypeIgnore
