import TypeIgnore.Log.Plain

/-!
# Log records

A record of the log is one line, or several if its text has breaks: then those after the first are indented.
-/

namespace TypeIgnore

inductive LogLevel
  | warn
  | info
  | debug
  deriving DecidableEq, Repr

namespace LogLevel

def rank : LogLevel → Nat
  | .warn => 0
  | .info => 1
  | .debug => 2

/-- All labels have the same width. -/
def label : LogLevel → Text
  | .warn => "WARN "
  | .info => "INFO "
  | .debug => "DEBUG"

end LogLevel

/-- What a record is about. -/
inductive LogTopic
  /-- The steps of a run. -/
  | run
  /-- What has been done with a diagnostic, and warnings. -/
  | outcome
  /-- Which files are selected. -/
  | scope
  deriving DecidableEq, Repr

def LogTopic.text : LogTopic → Text
  | .run => "typeshush_app::silence"
  | .outcome => "typeshush_app::sink"
  | .scope => "typeshush_repo::scope"

structure LogRecord where
  level : LogLevel
  topic : LogTopic
  text : Text
  deriving DecidableEq, Repr

namespace LogRecord

/-- Four blanks after each line break. -/
def indent (t : Text) : Text := t.flatMap fun c => if c = '\n' then "\n    " else [c]

/-- The record as it is printed. -/
def line (r : LogRecord) : Text :=
  plain ("[" ++ r.level.label ++ " " ++ r.topic.text ++ "] " ++ indent r.text ++ "\n")

end LogRecord

end TypeIgnore
