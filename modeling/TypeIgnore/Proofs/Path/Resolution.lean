import TypeIgnore.Proofs.Marker.Codes
import TypeIgnore.Proofs.Tree.Replacement

/-!
# Where paths lead

On the file system `..` leads to the directory above, and in the root directory it leads nowhere. A path from which
names are taken back keeps such a `..`, so its text tells more than where it leads.

* `Location.follow` — where the pieces of a path text lead; `Location.climbs` — how often they go up in the root
  directory;
* `leadsTo root p`, `climbsOf root p` — the same for a reported path;
* `absolutize_eq` — `absolutize` gives a `..` for each time the path goes up in the root directory, and then the names
  of the location it leads to; hence two spellings become one path exactly if both agree (`absolutize_eq_iff`);
* `Tree.eq_follow_of_walk` — a file is found where the pieces lead, so the text of that path leads to no other file than
  the reported path does (`eq_leadsTo_of_fileAt?`).
-/

namespace TypeIgnore

namespace Location

/-- Where a piece between two slashes leads. -/
def step (here : Location) (piece : Text) : Location :=
  if !Path.isStep piece then here else if piece = ".." then here.dropLast else here ++ [piece]

/-- Where pieces lead, one after the other. -/
def follow (here : Location) (pieces : List Text) : Location := pieces.foldl step here

/-- How often the pieces go up in the root directory. -/
def climbs (here : Location) : List Text → Nat
  | [] => 0
  | piece :: pieces => climbs (step here piece) pieces + if here = [] ∧ piece = ".." then 1 else 0

theorem follow_cons (here : Location) (piece : Text) (pieces : List Text) :
    follow here (piece :: pieces) = follow (step here piece) pieces := rfl

theorem follow_append (here : Location) (first others : List Text) :
    follow here (first ++ others) = follow (follow here first) others :=
  List.foldl_append

theorem step_of_not_isStep (here : Location) {piece : Text} (h : Path.isStep piece = false) :
    step here piece = here := by
  simp [step, h]

theorem step_parent (here : Location) : step here ".." = here.dropLast := rfl

/-- A piece that leads into a directory or to a file. -/
def IsName (piece : Text) : Prop := Path.isStep piece = true ∧ piece ≠ ".."

theorem step_of_isName (here : Location) {piece : Text} (h : IsName piece) : step here piece = here ++ [piece] := by
  rw [step, h.1, if_neg (by decide), if_neg h.2]

/-! ## Names -/

theorem follow_of_isName {names : List Text} (here : Location) (h : ∀ name ∈ names, IsName name) :
    follow here names = here ++ names := by
  induction names generalizing here with
  | nil => exact (List.append_nil here).symm
  | cons name names ih =>
    obtain ⟨hname, hnames⟩ := List.forall_mem_cons.1 h
    rw [follow_cons, step_of_isName here hname, ih _ hnames, List.append_assoc, List.singleton_append]

theorem follow_replicate_parent (n : Nat) : follow [] (List.replicate n "..") = [] := by
  induction n with
  | zero => rfl
  | succ n ih => rw [List.replicate_succ, follow_cons, step_parent, List.dropLast_nil, ih]

/-- A location that is reached has names from where the way started and from its pieces. -/
theorem isName_of_mem_follow {here : Location} {pieces : List Text} {name : Text} (h : name ∈ follow here pieces) :
    name ∈ here ∨ name ∈ pieces ∧ IsName name := by
  induction pieces generalizing here with
  | nil => exact .inl h
  | cons piece pieces ih =>
    rcases ih h with hstep | ⟨hmem, hname⟩
    · unfold step at hstep
      split at hstep
      · exact .inl hstep
      split at hstep
      · exact .inl (List.dropLast_subset here hstep)
      · rename_i hstep' hparent
        rcases List.mem_append.1 hstep with hold | hnew
        · exact .inl hold
        · rw [List.mem_singleton.1 hnew]
          exact .inr ⟨List.mem_cons_self, by simpa using hstep', hparent⟩
    · exact .inr ⟨List.mem_cons_of_mem _ hmem, hname⟩

end Location

/-! ## Components -/

section Components

open Location

/-- The components of a way that goes up `n` times in the root directory and then leads to `loc`. -/
def wayTo (n : Nat) (loc : Location) : List Component := List.replicate n .parent ++ loc.map .name

/-- How often the way goes up, and where it leads, can be read off. -/
theorem wayTo_inj {n m : Nat} {loc loc' : Location} (h : wayTo n loc = wayTo m loc') : n = m ∧ loc = loc' := by
  have hinj : Function.Injective Component.name := fun _ _ => Component.name.inj
  induction n generalizing m with
  | zero =>
    cases m with
    | zero => exact ⟨rfl, List.map_injective_iff.2 hinj h⟩
    | succ m => cases loc <;> cases h
  | succ n ih =>
    cases m with
    | zero => cases loc' <;> cases h
    | succ m =>
      obtain ⟨hcount, hloc⟩ := ih (List.cons.inj h).2
      exact ⟨congrArg (· + 1) hcount, hloc⟩

/-- One more step of a way. -/
theorem pushReverse_wayTo (n : Nat) (here : Location) {piece : Text} (h : Path.isStep piece = true) :
    Path.pushReverse (wayTo n here).reverse (.ofText piece) =
      (wayTo (n + if here = [] ∧ piece = ".." then 1 else 0) (step here piece)).reverse := by
  by_cases hparent : piece = ".."
  · subst hparent
    rcases List.eq_nil_or_concat here with rfl | ⟨dir, last, rfl⟩
    · -- nothing is there to be taken back
      rw [step_parent, if_pos ⟨rfl, rfl⟩]
      simp only [wayTo, List.map_nil, List.append_nil, List.dropLast_nil, List.reverse_replicate]
      cases n <;> rfl
    · rw [step_parent, if_neg (by simp)]
      simp [wayTo, Component.ofText, Path.pushReverse]
  · have hnone : ¬(here = [] ∧ piece = "..") := fun h => hparent h.2
    rw [step_of_isName here ⟨h, hparent⟩, if_neg hnone, Component.ofText, if_neg hparent]
    simp [wayTo, Path.pushReverse]

/-- **All steps of a way:** those up in the root directory pile up before the names of where it leads. -/
theorem foldl_pushReverse (n : Nat) (here : Location) (pieces : List Text) :
    ((pieces.filter Path.isStep).map Component.ofText).foldl Path.pushReverse (wayTo n here).reverse =
      (wayTo (n + climbs here pieces) (follow here pieces)).reverse := by
  induction pieces generalizing n here with
  | nil => rfl
  | cons piece pieces ih =>
    rw [follow_cons, climbs]
    by_cases hstep : Path.isStep piece = true
    · rw [List.filter_cons_of_pos hstep, List.map_cons, List.foldl_cons, pushReverse_wayTo n here hstep, ih]
      congr 2
      omega
    · have hnone : ¬(here = [] ∧ piece = "..") := by
        rintro ⟨-, rfl⟩
        exact hstep rfl
      rw [List.filter_cons_of_neg hstep, step_of_not_isStep here (by simpa using hstep), if_neg hnone, ih]
      rfl

/-- The normal form of a path from the root directory. -/
theorem Path.normalize_ofPieces (pieces : List Text) :
    Path.normalize ⟨true, (pieces.filter Path.isStep).map Component.ofText⟩ =
      ⟨true, wayTo (climbs [] pieces) (follow [] pieces)⟩ := by
  have hfold := foldl_pushReverse 0 [] pieces
  rw [Nat.zero_add] at hfold
  rw [Path.normalize, ← List.reverse_reverse (wayTo _ _), ← hfold]
  rfl

/-- The texts of the components lead there. -/
theorem follow_wayTo (n : Nat) {loc : Location} (h : ∀ name ∈ loc, IsName name) :
    follow [] ((wayTo n loc).map Component.text) = loc := by
  have htexts : (loc.map Component.name).map Component.text = loc := by
    rw [List.map_map]
    exact List.map_id loc
  rw [wayTo, List.map_append, List.map_replicate, htexts, follow_append]
  have hup : follow [] (List.replicate n Component.parent.text) = [] := follow_replicate_parent n
  rw [hup, follow_of_isName [] h, List.nil_append]

end Components

/-! ## Reported paths -/

/-- The pieces of the way from the root directory to where a reported path leads from `root`. -/
def wayPieces (root : Text) (p : ReportPath) : List Text :=
  if p.isAbsolute then Text.splitOn '/' p.text else Text.splitOn '/' root ++ Text.splitOn '/' p.text

/-- Where a reported path leads from `root`. -/
def leadsTo (root : Text) (p : ReportPath) : Location := Location.follow [] (wayPieces root p)

/-- How often a reported path goes up in the root directory. -/
def climbsOf (root : Text) (p : ReportPath) : Nat := Location.climbs [] (wayPieces root p)

section Reported

variable {root : Text}

theorem join_ofText (hroot : root.head? = some '/') (p : ReportPath) :
    (Path.ofText root).join (.ofText p.text) =
      ⟨true, ((wayPieces root p).filter Path.isStep).map Component.ofText⟩ := by
  unfold Path.join wayPieces ReportPath.isAbsolute Path.ofText
  split <;> simp_all

/-- **The normal form of a reported path.** -/
theorem absolutize_eq (hroot : root.head? = some '/') (p : ReportPath) :
    absolutize (.ofText root) p = ⟨true, wayTo (climbsOf root p) (leadsTo root p)⟩ := by
  rw [absolutize, join_ofText hroot, Path.normalize_ofPieces]
  rfl

theorem absolutize_eq_iff (hroot : root.head? = some '/') (p q : ReportPath) :
    absolutize (.ofText root) p = absolutize (.ofText root) q ↔
      leadsTo root p = leadsTo root q ∧ climbsOf root p = climbsOf root q := by
  rw [absolutize_eq hroot, absolutize_eq hroot]
  constructor
  · intro h
    obtain ⟨hclimbs, hleads⟩ := wayTo_inj (Path.mk.inj h).2
    exact ⟨hleads, hclimbs⟩
  · rintro ⟨hleads, hclimbs⟩
    rw [hleads, hclimbs]

end Reported

/-! ## Files -/

/-- A file is found where the pieces lead. -/
theorem Tree.eq_follow_of_walk {t : Tree} {here loc : Location} {pieces : List Text} {bytes : List UInt8}
    (h : t.walk here pieces = .ok (.file loc bytes)) : loc = Location.follow here pieces := by
  induction pieces generalizing here with
  | nil => cases h
  | cons piece pieces ih =>
    rw [Location.follow_cons]
    unfold walk at h
    split at h
    · rename_i hidle
      rw [Location.step_of_not_isStep here (by simpa using hidle)]
      exact ih h
    split at h
    · rename_i hparent
      rw [hparent, Location.step_parent]
      exact ih h
    rename_i hstep hparent
    rw [Location.step_of_isName here ⟨by simpa using hstep, hparent⟩]
    split at h
    · cases h
    split at h
    · exact ih h
    · split at h
      · rename_i hlast
        cases h
        rw [List.isEmpty_iff.1 hlast]
        rfl
      · cases h
    · split at h <;> cases h

theorem Disk.eq_follow_of_fileAt? {d : Disk} {path : Text} {loc : Location} (hpath : path.head? = some '/')
    (h : d.fileAt? path = some loc) : loc = Location.follow [] (Text.splitOn '/' path) := by
  obtain ⟨bytes, hwalk⟩ := exists_walk_of_fileAt? h
  rw [walk_eq] at hwalk
  cases hstart : d.enter path with
  | error e =>
    rw [hstart] at hwalk
    cases hwalk
  | ok start =>
    have heq : start = ([], Text.splitOn '/' path) := by
      simp only [enter, Disk.start, hpath] at hstart
      split at hstart
      · cases hstart
      split at hstart
      · cases hstart
      · simp only [bind, Except.bind] at hstart
        split at hstart <;> cases hstart
        rfl
    rw [hstart, heq] at hwalk
    exact Tree.eq_follow_of_walk hwalk

/-- The text of a path leads where its components do. -/
theorem Path.follow_text {parts : List Component} (h : ∀ c ∈ parts, '/' ∉ c.text) :
    Location.follow [] (Text.splitOn '/' (Path.text ⟨true, parts⟩)) =
      Location.follow [] (parts.map Component.text) := by
  rw [Path.text, if_pos rfl, Text.splitOn_cons_self, Location.follow_cons]
  rcases eq_or_ne parts [] with rfl | hne
  · rfl
  · have hpieces : Text.splitOn '/' (Text.joinWith "/" (parts.map Component.text)) = parts.map Component.text :=
      Text.splitOn_joinWith (by simpa using hne) (by simpa using h)
    rw [hpieces]
    rfl

section Reported

variable {root : Text} {p : ReportPath}

/-- The names of where a reported path leads are pieces of path texts. -/
theorem isName_of_mem_leadsTo {name : Text} (h : name ∈ leadsTo root p) : Location.IsName name ∧ '/' ∉ name := by
  rcases Location.isName_of_mem_follow h with h | ⟨hmem, hname⟩
  · cases h
  · refine ⟨hname, ?_⟩
    unfold wayPieces at hmem
    split at hmem
    · exact (Text.mem_splitOn hmem).1
    · rcases List.mem_append.1 hmem with hmem | hmem
      · exact (Text.mem_splitOn hmem).1
      · exact (Text.mem_splitOn hmem).1

/-- **The normal form of a path leads to no other file than the path.** -/
theorem eq_leadsTo_of_fileAt? (hroot : root.head? = some '/') {d : Disk} {loc : Location}
    (h : d.fileAt? (absolutize (.ofText root) p).text = some loc) : loc = leadsTo root p := by
  rw [absolutize_eq hroot] at h
  have hslash : ∀ c ∈ wayTo (climbsOf root p) (leadsTo root p), '/' ∉ c.text := by
    intro c hc
    rcases List.mem_append.1 hc with hc | hc
    · rw [List.eq_of_mem_replicate hc]
      decide
    · obtain ⟨name, hname, rfl⟩ := List.mem_map.1 hc
      exact (isName_of_mem_leadsTo hname).2
  rw [Disk.eq_follow_of_fileAt? rfl h, Path.follow_text hslash,
    follow_wayTo _ fun name hname => (isName_of_mem_leadsTo hname).1]

end Reported

end TypeIgnore
