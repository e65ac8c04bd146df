import TypeIgnore.Text.Basic

/-!
# Reported paths

A reported path is the name that a report gives a file. It is kept as the report spells it, apart from
backslashes, which become slashes, and `./` in front, which goes.
-/

namespace TypeIgnore

structure ReportPath where
  text : Text
  deriving DecidableEq, Repr

namespace ReportPath

/-- A text without any `./` in front. -/
def dropDots : Text → Text
  | '.' :: '/' :: t => dropDots t
  | t => t

/-- The path that a report spells `t`. The empty text names the working directory. -/
def ofText (t : Text) : ReportPath :=
  match dropDots (t.map fun c => if c = '\\' then '/' else c) with
  | [] => ⟨['.']⟩
  | rest => ⟨rest⟩

def isAbsolute (p : ReportPath) : Bool := p.text.head? == some '/'

/-- Code point order. -/
def le (p q : ReportPath) : Bool := Text.le p.text q.text

end ReportPath

end TypeIgnore
