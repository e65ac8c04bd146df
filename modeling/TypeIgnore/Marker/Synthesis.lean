import TypeIgnore.Marker.Request

/-!
# Synthesis

The new trailing comment of a line, from its present comment and a request.

* `MarkerState` — no marker, a blanket one, or one with codes;
* `MarkerState.drop`, `MarkerState.grant` — a marker after the removals, and after the additions;
* `synthesize` — the new comment. Where the marker stays as it is, so does the comment, to the letter.
-/

namespace TypeIgnore

/-- Whether the checker's messages are copied into comments. -/
inductive DescriptionStyle
  | plain
  | full
  deriving DecidableEq, Repr

structure CommentStyle where
  /-- A note after new markers; blank for none. -/
  followUp : Text
  descriptions : DescriptionStyle
  deriving DecidableEq, Repr

inductive MarkerState
  | absent
  | blanket
  | codes (s : CodeSet)
  deriving DecidableEq, Repr

namespace MarkerState

def ofComment (c : TrailingComment) : MarkerState :=
  match c.remark with
  | .plain _ => .absent
  | .marker [] _ => .blanket
  | .marker (c :: cs) _ => .codes (CodeSet.ofList (c :: cs))

/-- The marker as it is written. -/
def text? : MarkerState → Option Text
  | .absent => none
  | .blanket => some markerText
  | .codes s => some (markerText ++ "[" ++ Text.joinWith ", " s ++ "]")

/-- The marker without the removed codes; without codes left it is absent. -/
def drop (remove : CodeSet) (m : MarkerState) : MarkerState :=
  match m with
  | .absent => .absent
  | .blanket => if remove.contains wildcard then .absent else .blanket
  | .codes s =>
    if remove.contains wildcard then .absent
    else
      match s.filter (!remove.contains ·) with
      | [] => .absent
      | kept => .codes kept

/-- What a request adds to a marker. -/
structure Granted where
  marker : MarkerState
  /-- The codes that are new. -/
  added : CodeSet
  /-- The marker has become blanket. -/
  becameBlanket : Bool
  deriving DecidableEq, Repr

def grant (r : LineRequest) (m : MarkerState) : Granted :=
  if r.blanket then ⟨.blanket, [], m != .blanket⟩
  else if r.add.isEmpty then ⟨m, [], false⟩
  else
    match m with
    | .blanket => ⟨.blanket, [], false⟩
    | .absent => ⟨.codes r.add, r.add, false⟩
    | .codes s => ⟨.codes (s.insertAll r.add), r.add.filter (!s.contains ·), false⟩

end MarkerState

/-- `text` without the note `# followUp` at its start, which a removed marker leaves behind. -/
def stripFollowUp (text followUp : Text) : Text :=
  if followUp.isEmpty then text
  else
    match (Text.after? "#" text).bind fun t => Text.after? followUp (Text.trimStart t) with
    | none => text
    | some [] => []
    | some (c :: rest) => if Text.isBlank c then Text.trimStart (c :: rest) else text

/-- The notes after a new marker, of which `tail` will follow. -/
def annotations (r : LineRequest) (style : CommentStyle) (g : MarkerState.Granted) (tail : Text) : Text :=
  let followUp := Text.trim style.followUp
  let note : Text :=
    if followUp.isEmpty || Text.occursIn ("# " ++ followUp) tail then [] else "  # " ++ followUp
  let messages :=
    match style.descriptions with
    | .plain => []
    | .full =>
      (r.descriptions.filter fun d => g.becameBlanket || d.code.any g.added.contains).map (·.message)
  if !g.becameBlanket && g.added.isEmpty then []
  else if messages.isEmpty then note
  else note ++ "  # " ++ Text.joinWith ", " messages

/-- The trailing comment that a line with the comment `existing` gets. -/
def synthesize (existing : Text) (r : LineRequest) (style : CommentStyle) : Text :=
  let comment := TrailingComment.ofText existing
  let before := MarkerState.ofComment comment
  let granted := (before.drop r.remove).grant r
  if granted.marker = before then existing
  else
    let separator : Text := if comment.separator.isEmpty then "  ".toList else comment.separator
    match granted.marker.text? with
    | none =>
      match stripFollowUp (Text.trimStart comment.trailer) (Text.trim style.followUp) with
      | [] => []
      | leftover => separator ++ leftover
    | some marker =>
      let tail :=
        match comment.remark with
        | .marker _ trailer => trailer
        | .plain [] => []
        | .plain text => separator ++ text
      separator ++ marker ++ annotations r style granted tail ++ tail

end TypeIgnore
