import TypeIgnore.Text.Basic

/-!
# Lines of a source

* `splitLines t` — the lines of `t` that end in a line break, and the text after the last one;
* `joinLines` — their text again, so that nothing is lost (`joinLines_splitLines`);
* `SourceLine` — a line cut before its trailing comment;
* `render` — the text of such lines.
-/

namespace TypeIgnore

inductive LineBreak
  | lf
  | crlf
  | cr
  deriving DecidableEq, Repr

def LineBreak.text : LineBreak → Text
  | .lf => ['\n']
  | .crlf => ['\r', '\n']
  | .cr => ['\r']

/-- A character that ends a line. -/
def isBreak (c : Char) : Bool := c == '\n' || c == '\r'

/-! ## Physical lines -/

structure EndedLine where
  content : Text
  ending : LineBreak
  deriving DecidableEq, Repr

/-- `c` in front of the first line, or of the rest if there is none. -/
def pushChar (c : Char) : List EndedLine × Text → List EndedLine × Text
  | ([], rest) => ([], c :: rest)
  | (l :: ls, rest) => ({ l with content := c :: l.content } :: ls, rest)

def pushBreak (b : LineBreak) (split : List EndedLine × Text) : List EndedLine × Text :=
  (⟨[], b⟩ :: split.1, split.2)

/-- The lines that end in a line break, and what follows the last break. A carriage return and a line feed
after it are one break. -/
def splitLines : Text → List EndedLine × Text
  | [] => ([], [])
  | '\r' :: '\n' :: t => pushBreak .crlf (splitLines t)
  | '\r' :: t => pushBreak .cr (splitLines t)
  | '\n' :: t => pushBreak .lf (splitLines t)
  | c :: t => pushChar c (splitLines t)

def joinLines (split : List EndedLine × Text) : Text :=
  split.1.flatMap (fun l => l.content ++ l.ending.text) ++ split.2

@[simp] theorem joinLines_pushChar (c : Char) (split : List EndedLine × Text) :
    joinLines (pushChar c split) = c :: joinLines split := by
  obtain ⟨_ | ⟨l, ls⟩, rest⟩ := split <;> simp [pushChar, joinLines]

@[simp] theorem joinLines_pushBreak (b : LineBreak) (split : List EndedLine × Text) :
    joinLines (pushBreak b split) = b.text ++ joinLines split := by
  simp [pushBreak, joinLines]

@[simp] theorem joinLines_splitLines (t : Text) : joinLines (splitLines t) = t := by
  fun_induction splitLines t with
  | case1 => rfl
  | case2 t ih => simp [ih, LineBreak.text]
  | case3 t _ ih => simp [ih, LineBreak.text]
  | case4 t ih => simp [ih, LineBreak.text]
  | case5 c t _ _ _ ih => simp [ih]

/-! ## Lines with their trailing comment apart -/

/-- A character that may stand between the code of a line and its comment. -/
def isSeparator (c : Char) : Bool := c == ' ' || c == '\t' || c == '\x0c'

/-- One line of a source. `code`, `comment` and the break, in this order, are the line as it stands. -/
structure SourceLine where
  /-- Counted from 1. -/
  number : Nat
  code : Text
  /-- From the separator before `#` on; empty if the line has no comment. -/
  comment : Text
  /-- `none` for a last line that nothing ends. -/
  ending : Option LineBreak
  /-- The statement does not go on in the next line. -/
  endsStatement : Bool
  deriving DecidableEq, Repr

namespace SourceLine

def hasCode (l : SourceLine) : Bool := !Text.isAllBlank l.code

def hasComment (l : SourceLine) : Bool := !l.comment.isEmpty

def content (l : SourceLine) : Text := l.code ++ l.comment

def endingText (l : SourceLine) : Text := (l.ending.map LineBreak.text).getD []

def text (l : SourceLine) : Text := l.content ++ l.endingText

/-- The line with another trailing comment. Where code gets its first comment, the blanks at the end of the
code go, so that only the comment's separator stands between the two. -/
def withComment (l : SourceLine) (comment : Text) : SourceLine :=
  { l with
    code := if !l.hasComment && !comment.isEmpty && l.hasCode then Text.trimEnd l.code else l.code
    comment }

end SourceLine

/-- The text of lines. -/
def render (lines : List SourceLine) : Text := lines.flatMap SourceLine.text

end TypeIgnore
