import TypeIgnore.Text.Basic

/-!
# File trees

A tree is what a directory holds: files and directories under names. A location is the list of names that leads to a
place from the root directory.

* `Tree.node?` — what stands at a location;
* `Tree.put` — a file or an empty directory put at a location. It stands there afterwards (`node?_put_self`), and
  nothing else changes (`node?_put_of_ne`), unless a directory has been replaced;
* `Tree.remove` — what stands at a location taken away. What has been put where nothing stood leaves no trace
  (`remove_put`);
* `Tree.plant` — a node put with the directories on the way;
* `Tree.files` — all files with their locations.
-/

namespace TypeIgnore

/-- The names from the root directory on. -/
abbrev Location := List Text

/-- What a directory holds. Of two things under one name only the first can be reached. -/
inductive Tree
  | empty
  | file (name : Text) (bytes : List UInt8) (rest : Tree)
  | directory (name : Text) (content rest : Tree)
  deriving DecidableEq, Repr

/-- What stands at a location, without what a directory holds. -/
inductive Node
  | file (bytes : List UInt8)
  | directory
  deriving DecidableEq, Repr

/-- The node under a name, before the things in `rest`. -/
def Node.named (name : Text) (node : Node) (rest : Tree) : Tree :=
  match node with
  | .file bytes => .file name bytes rest
  | .directory => .directory name .empty rest

namespace Tree

def node? : Tree → Location → Option Node
  | _, [] => some .directory
  | .empty, _ :: _ => none
  | .file n bytes rest, name :: loc =>
    if n = name then if loc = [] then some (.file bytes) else none else rest.node? (name :: loc)
  | .directory n content rest, name :: loc => if n = name then content.node? loc else rest.node? (name :: loc)

/-- The bytes of the file at a location. -/
def bytes? (t : Tree) (loc : Location) : Option (List UInt8) :=
  match t.node? loc with
  | some (.file bytes) => some bytes
  | _ => none

/-- What the directory at a location holds. -/
def content? : Tree → Location → Option Tree
  | t, [] => some t
  | .empty, _ :: _ => none
  | .file n _ rest, name :: loc => if n = name then none else rest.content? (name :: loc)
  | .directory n content rest, name :: loc => if n = name then content.content? loc else rest.content? (name :: loc)

/-- The tree with `node` at a location, if there is a directory for it. -/
def put (node : Node) : Tree → Location → Tree
  | t, [] => t
  | .empty, name :: loc => if loc = [] then node.named name .empty else .empty
  | .file n bytes rest, name :: loc =>
    if n = name then if loc = [] then node.named name rest else .file n bytes rest
    else .file n bytes (rest.put node (name :: loc))
  | .directory n content rest, name :: loc =>
    if n = name then if loc = [] then node.named name rest else .directory n (content.put node loc) rest
    else .directory n content (rest.put node (name :: loc))

/-- The tree without what stands at a location. -/
def remove : Tree → Location → Tree
  | t, [] => t
  | .empty, _ :: _ => .empty
  | .file n bytes rest, name :: loc =>
    if n = name then if loc = [] then rest else .file n bytes rest
    else .file n bytes (rest.remove (name :: loc))
  | .directory n content rest, name :: loc =>
    if n = name then if loc = [] then rest else .directory n (content.remove loc) rest
    else .directory n content (rest.remove (name :: loc))

/-- The tree that holds nothing but `node` at a location. -/
def single (node : Node) : Location → Tree
  | [] => .empty
  | [name] => node.named name .empty
  | name :: loc => .directory name (single node loc) .empty

/-- The tree with `node` at a location, and with the directories on the way. A directory stays what it is. -/
def plant (node : Node) : Tree → Location → Tree
  | t, [] => t
  | .empty, name :: loc => single node (name :: loc)
  | .file n bytes rest, name :: loc =>
    if n = name then if loc = [] then node.named name rest else .file n bytes rest
    else .file n bytes (rest.plant node (name :: loc))
  | .directory n content rest, name :: loc =>
    if n = name then .directory n (content.plant node loc) rest
    else .directory n content (rest.plant node (name :: loc))

/-- All files, with their bytes. -/
def files : Tree → List (Location × List UInt8)
  | .empty => []
  | .file name bytes rest => ([name], bytes) :: rest.files
  | .directory name content rest => content.files.map (fun (loc, bytes) => (name :: loc, bytes)) ++ rest.files

@[simp] theorem node?_nil (t : Tree) : t.node? [] = some .directory := by
  cases t <;> rfl

@[simp] theorem put_nil (t : Tree) (node : Node) : t.put node [] = t := by
  cases t <;> rfl

theorem node?_named (name : Text) (node : Node) (rest : Tree) (n : Text) (loc : Location) :
    (node.named name rest).node? (n :: loc) =
      if name = n then if loc = [] then some node else none else rest.node? (n :: loc) := by
  cases node with
  | file bytes => rfl
  | directory =>
    cases loc with
    | nil => simp [Node.named, node?]
    | cons m loc => simp [Node.named, node?]

/-- Where there is a directory for it, the node stands at the location afterwards. -/
theorem node?_put_self (node : Node) {t : Tree} {loc : Location} {name : Text}
    (h : t.node? loc = some .directory) : (t.put node (loc ++ [name])).node? (loc ++ [name]) = some node := by
  induction t generalizing loc with
  | empty =>
    cases loc with
    | nil => simp [put, node?_named]
    | cons m loc => simp [node?] at h
  | file n bytes rest ih =>
    cases loc with
    | nil =>
      by_cases hn : n = name
      · simp [put, hn, node?_named]
      · simpa [put, hn, node?] using ih (node?_nil rest)
    | cons m loc =>
      by_cases hn : n = m
      · simp [node?, hn] at h
      · simp only [node?, hn, if_false] at h
        simpa [put, hn, node?] using ih h
  | directory n content rest ihc ihr =>
    cases loc with
    | nil =>
      by_cases hn : n = name
      · simp [put, hn, node?_named]
      · simpa [put, hn, node?] using ihr (node?_nil rest)
    | cons m loc =>
      by_cases hn : n = m
      · simp only [node?, hn, if_true] at h
        simpa [put, hn, node?] using ihc h
      · simp only [node?, hn, if_false] at h
        simpa [put, hn, node?] using ihr h

/-- Nothing else changes where no directory stood. -/
theorem node?_put_of_ne (node : Node) {t : Tree} {loc l : Location} (hl : l ≠ loc)
    (h : t.node? loc ≠ some .directory) : (t.put node loc).node? l = t.node? l := by
  induction t generalizing loc l with
  | empty =>
    cases loc with
    | nil => simp
    | cons name loc =>
      cases l with
      | nil => simp
      | cons m l =>
        by_cases hloc : loc = []
        · by_cases hm : name = m
          · have hne : l ≠ [] := fun e => hl (by rw [e, hm, hloc])
            simp [put, hloc, node?_named, hm, hne, node?]
          · simp [put, hloc, node?_named, hm, node?]
        · simp [put, hloc]
  | file n bytes rest ih =>
    cases loc with
    | nil => simp
    | cons name loc =>
      cases l with
      | nil => simp
      | cons m l =>
        by_cases hn : n = name
        · by_cases hloc : loc = []
          · by_cases hm : name = m
            · have hne : l ≠ [] := fun e => hl (by rw [e, hm, hloc])
              simp [put, hn, hloc, node?_named, hm, hne, node?]
            · simp [put, hn, hloc, node?_named, hm, node?]
          · simp [put, hn, hloc]
        · have h' : rest.node? (name :: loc) ≠ some .directory := by simpa [node?, hn] using h
          by_cases hm : n = m
          · subst hm
            simp [put, hn, node?]
          · simpa [put, hn, node?, hm] using ih hl h'
  | directory n content rest ihc ihr =>
    cases loc with
    | nil => simp
    | cons name loc =>
      cases l with
      | nil => simp
      | cons m l =>
        by_cases hn : n = name
        · have h' : content.node? loc ≠ some .directory := by simpa [node?, hn] using h
          have hloc : loc ≠ [] := fun e => h' (by rw [e, node?_nil])
          by_cases hm : name = m
          · have hne : l ≠ loc := fun e => hl (by rw [e, hm])
            simpa [put, hn, hloc, node?, hm] using ihc hne h'
          · simp [put, hn, hloc, node?, hm]
        · have h' : rest.node? (name :: loc) ≠ some .directory := by simpa [node?, hn] using h
          by_cases hm : n = m
          · subst hm
            simp [put, hn, node?]
          · simpa [put, hn, node?, hm] using ihr hl h'

/-- What has been put where nothing stood leaves no trace. -/
theorem remove_put (node : Node) {t : Tree} {loc : Location} (h : t.node? loc = none) :
    (t.put node loc).remove loc = t := by
  induction t generalizing loc with
  | empty =>
    cases loc with
    | nil => simp at h
    | cons name loc =>
      by_cases hloc : loc = []
      · cases node <;> simp [put, hloc, Node.named, remove]
      · simp [put, hloc, remove]
  | file n bytes rest ih =>
    cases loc with
    | nil => simp at h
    | cons name loc =>
      by_cases hn : n = name
      · by_cases hloc : loc = []
        · simp [node?, hn, hloc] at h
        · simp [put, hn, hloc, remove]
      · have hrest : rest.node? (name :: loc) = none := by simpa [node?, hn] using h
        simp [put, hn, remove, ih hrest]
  | directory n content rest ihc ihr =>
    cases loc with
    | nil => simp at h
    | cons name loc =>
      by_cases hn : n = name
      · have hcontent : content.node? loc = none := by simpa [node?, hn] using h
        have hloc : loc ≠ [] := by
          rintro rfl
          simp at hcontent
        simp [put, hn, hloc, remove, ihc hcontent]
      · have hrest : rest.node? (name :: loc) = none := by simpa [node?, hn] using h
        simp [put, hn, remove, ihr hrest]

/-- Of two nodes put at one location the second stays. -/
theorem put_put (first second : Node) (t : Tree) (loc : Location) :
    (t.put first loc).put second loc = t.put second loc := by
  induction t generalizing loc with
  | empty =>
    cases loc with
    | nil => simp
    | cons name loc =>
      by_cases hloc : loc = []
      · cases first <;> simp [put, hloc, Node.named]
      · simp [put, hloc]
  | file n bytes rest ih =>
    cases loc with
    | nil => simp
    | cons name loc =>
      by_cases hn : n = name
      · by_cases hloc : loc = []
        · cases first <;> simp [put, hn, hloc, Node.named]
        · simp [put, hn, hloc]
      · simp [put, hn, ih]
  | directory n content rest ihc ihr =>
    cases loc with
    | nil => simp
    | cons name loc =>
      by_cases hn : n = name
      · by_cases hloc : loc = []
        · cases first <;> simp [put, hn, hloc, Node.named]
        · simp [put, hn, hloc, ihc]
      · simp [put, hn, ihr]

/-- What stands somewhere stands in a directory. -/
theorem node?_of_append_singleton {t : Tree} {loc : Location} {name : Text} {node : Node}
    (h : t.node? (loc ++ [name]) = some node) : t.node? loc = some .directory := by
  induction t generalizing loc with
  | empty =>
    cases loc with
    | nil => rfl
    | cons m loc => simp [node?] at h
  | file n bytes rest ih =>
    cases loc with
    | nil => rfl
    | cons m loc =>
      by_cases hn : n = m
      · simp [node?, hn] at h
      · have hrest : rest.node? ((m :: loc) ++ [name]) = some node := by simpa [node?, hn] using h
        simpa [node?, hn] using ih hrest
  | directory n content rest ihc ihr =>
    cases loc with
    | nil => rfl
    | cons m loc =>
      by_cases hn : n = m
      · have hcontent : content.node? (loc ++ [name]) = some node := by simpa [node?, hn] using h
        simpa [node?, hn] using ihc hcontent
      · have hrest : rest.node? ((m :: loc) ++ [name]) = some node := by simpa [node?, hn] using h
        simpa [node?, hn] using ihr hrest

end Tree

end TypeIgnore
