import TypeIgnore.Text.Basic

/-!
# Sets of codes

A set of codes is the ascending list of its members, so that equal sets are equal lists.
-/

namespace TypeIgnore

abbrev CodeSet := List Text

namespace CodeSet

/-- `code` in its place; an ascending list stays ascending. -/
def insert (code : Text) : CodeSet → CodeSet
  | [] => [code]
  | c :: codes => if code < c then code :: c :: codes else if code = c then c :: codes else c :: insert code codes

def insertAll (codes : List Text) (s : CodeSet) : CodeSet := codes.foldl (fun s c => insert c s) s

def ofList (codes : List Text) : CodeSet := insertAll codes []

@[simp] theorem mem_insert {x code : Text} {s : CodeSet} : x ∈ insert code s ↔ x = code ∨ x ∈ s := by
  induction s with
  | nil => simp [insert]
  | cons c codes ih =>
    unfold insert
    split
    · simp
    · split
      · rename_i h; simp [h]
      · simp [ih]; grind

@[simp] theorem mem_insertAll {x : Text} {codes : List Text} {s : CodeSet} :
    x ∈ insertAll codes s ↔ x ∈ codes ∨ x ∈ s := by
  induction codes generalizing s with
  | nil => simp [insertAll]
  | cons c codes ih =>
    have h : insertAll (c :: codes) s = insertAll codes (insert c s) := rfl
    rw [h, ih]
    simp
    grind

@[simp] theorem mem_ofList {x : Text} {codes : List Text} : x ∈ ofList codes ↔ x ∈ codes := by
  simp [ofList]

end CodeSet

end TypeIgnore
