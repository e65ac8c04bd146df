import TypeIgnore.Proofs.Path.Resolution
import Mathlib.Data.List.Induction

/-!
# Paths as reports spell them

A reported path is kept without the `./` in front of it, and the letters of the spelling decide what goes. Where a slash
comes after the last `./`, the path that is left starts at the root directory.

* `slashed s` — the spelling with slashes only; `namedPath root s` — the path that it names from `root`;
* `dotsThenSlash t` — the spelling is `./`, once or more often, and then a slash;
* `Path.ofText_reported` — the steps of the spelling all stay, and it starts at the root directory if it did so before
  or dots hid its slash;
* `Location.climbs_follow_eq` — what a way does from a directory, in terms of what it does from the root directory; so
  the two can be compared (`normalize_append_eq_iff`);
* `absolutize_spelling_iff` — where a spelling leads, and when that is the path that it names.
-/

namespace TypeIgnore

/-! ## Spellings -/

/-- The spelling with a slash for each backslash. -/
def slashed (s : Text) : Text := s.map fun c => if c = '\\' then '/' else c

/-- The path that a spelling names: as it is if it starts with a slash, and from `root` otherwise. -/
def namedPath (root s : Text) : Path :=
  (Path.ofText (if (slashed s).head? = some '/' then slashed s else root ++ '/' :: slashed s)).normalize

/-- `./`, once or more often, and then a slash. -/
def dotsThenSlash : Text → Bool
  | '.' :: '/' :: '/' :: _ => true
  | '.' :: '/' :: t => dotsThenSlash t
  | _ => false

/-- Pieces on both sides of a separator. -/
theorem Text.splitOn_append_sep (sep : Char) (a t : Text) :
    splitOn sep (a ++ sep :: t) = splitOn sep a ++ splitOn sep t := by
  induction a with
  | nil => exact splitOn_cons_self sep t
  | cons c a ih =>
    by_cases hc : c = sep
    · subst hc
      rw [List.cons_append, splitOn_cons_self, splitOn_cons_self, ih, List.cons_append]
    · obtain ⟨piece, pieces, hsplit⟩ := List.exists_cons_of_ne_nil (splitOn_ne_nil sep a)
      rw [hsplit, List.cons_append] at ih
      rw [List.cons_append, splitOn_cons_of_ne hc ih, splitOn_cons_of_ne hc hsplit, List.cons_append]

/-- The steps of a path text. -/
def stepsOf (t : Text) : List Text := (Text.splitOn '/' t).filter Path.isStep

theorem stepsOf_append (a t : Text) : stepsOf (a ++ '/' :: t) = stepsOf a ++ stepsOf t := by
  rw [stepsOf, Text.splitOn_append_sep, List.filter_append]
  rfl

/-- No step goes with the dots in front. -/
theorem stepsOf_dropDots (t : Text) : stepsOf (ReportPath.dropDots t) = stepsOf t := by
  fun_induction ReportPath.dropDots t with
  | case1 t ih =>
    rw [ih]
    exact (stepsOf_append ['.'] t).symm
  | case2 t h => rfl

/-- A slash comes first, or the dots have hidden it. -/
theorem head?_dropDots_iff (t : Text) :
    (ReportPath.dropDots t).head? = some '/' ↔ t.head? = some '/' ∨ dotsThenSlash t = true := by
  fun_induction dotsThenSlash t with
  | case1 t =>
    have hdrop : ReportPath.dropDots ('.' :: '/' :: '/' :: t) = '/' :: t := by
      rw [ReportPath.dropDots, ReportPath.dropDots]
      rintro _ ⟨⟩
    simp [hdrop]
  | case2 t hslash ih =>
    have hhead : t.head? ≠ some '/' := by
      intro hhead
      obtain ⟨rest, rfl⟩ := List.head?_eq_some_iff.1 hhead
      exact hslash rest rfl
    rw [ReportPath.dropDots, ih]
    simp [hhead]
  | case3 t _ hdots =>
    have hdrop : ReportPath.dropDots t = t := by
      rw [ReportPath.dropDots]
      exact hdots
    simp [hdrop]

/-- A spelling of dots alone is kept as one dot, which has no step either. -/
theorem Path.ofText_text_ofText (s : Text) :
    Path.ofText (ReportPath.ofText s).text = Path.ofText (ReportPath.dropDots (slashed s)) := by
  unfold ReportPath.ofText
  rw [← slashed]
  cases ReportPath.dropDots (slashed s) with
  | nil => rfl
  | cons c rest => rfl

/-- **The path that is kept of a spelling** has all its steps. -/
theorem Path.ofText_reported (s : Text) :
    Path.ofText (ReportPath.ofText s).text =
      ⟨(slashed s).head? == some '/' || dotsThenSlash (slashed s), (stepsOf (slashed s)).map Component.ofText⟩ := by
  have hrooted : ((ReportPath.dropDots (slashed s)).head? == some '/') =
      ((slashed s).head? == some '/' || dotsThenSlash (slashed s)) := by
    rw [Bool.eq_iff_iff, beq_iff_eq, head?_dropDots_iff, Bool.or_eq_true, beq_iff_eq]
  rw [Path.ofText_text_ofText, ← hrooted, ← stepsOf_dropDots]
  rfl

/-! ## Ways from a directory -/

namespace Location

theorem climbs_append (here : Location) (first others : List Text) :
    climbs here (first ++ others) = climbs here first + climbs (follow here first) others := by
  induction first generalizing here with
  | nil => simp [climbs, follow]
  | cons piece first ih =>
    rw [List.cons_append, climbs, climbs, ih, follow_cons]
    omega

theorem climbs_concat (here : Location) (pieces : List Text) (piece : Text) :
    climbs here (pieces ++ [piece]) =
      climbs here pieces + if follow here pieces = [] ∧ piece = ".." then 1 else 0 := by
  rw [climbs_append, climbs, climbs, Nat.zero_add]

theorem follow_concat (here : Location) (pieces : List Text) (piece : Text) :
    follow here (pieces ++ [piece]) = step (follow here pieces) piece :=
  List.foldl_concat ..

/-- **What a way does from a directory:** its steps up take names of the directory away, and only those that are
left over it takes in the root directory. -/
theorem climbs_follow_eq (here : Location) (pieces : List Text) :
    climbs here pieces = climbs [] pieces - here.length ∧
      follow here pieces = here.take (here.length - climbs [] pieces) ++ follow [] pieces := by
  induction pieces using List.reverseRecOn with
  | nil => simp [climbs, follow]
  | append_singleton pieces piece ih =>
    obtain ⟨hclimbs, hfollow⟩ := ih
    rw [climbs_concat, climbs_concat, follow_concat, follow_concat, hclimbs, hfollow]
    by_cases hparent : piece = ".."
    · subst hparent
      rw [step_parent, step_parent]
      rcases List.eq_nil_or_concat (follow [] pieces) with hnil | ⟨dir, last, hlast⟩
      · -- the step goes up in the directory, if there is something left of it
        have htake : here.take (here.length - climbs [] pieces) = [] ↔ here.length ≤ climbs [] pieces := by
          rw [← List.length_eq_zero_iff, List.length_take]
          omega
        simp only [hnil, List.append_nil, htake, and_true, List.dropLast_nil, if_true]
        refine ⟨?_, ?_⟩
        · split <;> omega
        · rw [List.dropLast_eq_take, List.take_take, List.length_take]
          congr 1
          omega
      · -- the step takes a name of the way itself
        rw [hlast, List.concat_eq_append, ← List.append_assoc, List.dropLast_concat, List.dropLast_concat,
          if_neg (by simp), if_neg (by simp)]
        exact ⟨rfl, rfl⟩
    · have hnone : ∀ loc : Location, ¬ (loc = [] ∧ piece = "..") := fun _ h => hparent h.2
      rw [if_neg (hnone _), if_neg (hnone _), Nat.add_zero, Nat.add_zero]
      refine ⟨rfl, ?_⟩
      by_cases hstep : Path.isStep piece = true
      · rw [step_of_isName _ ⟨hstep, hparent⟩, step_of_isName _ ⟨hstep, hparent⟩, List.append_assoc]
      · rw [step_of_not_isStep _ (by simpa using hstep), step_of_not_isStep _ (by simpa using hstep)]

end Location

/-- A way leads from `root` where it leads from the root directory, and goes up there as often: it goes up all of
`root`, which has as many names as steps up before them. -/
def LeadsAlike (root way : Text) : Prop :=
  (Location.follow [] (Text.splitOn '/' root)).length = Location.climbs [] (Text.splitOn '/' root) ∧
    Location.climbs [] (Text.splitOn '/' root) ≤ Location.climbs [] (Text.splitOn '/' way)

instance (root way : Text) : Decidable (LeadsAlike root way) := inferInstanceAs (Decidable (_ ∧ _))

/-- The path that the steps of `t` make from the root directory. -/
theorem normalize_stepsOf (t : Text) :
    Path.normalize ⟨true, (stepsOf t).map Component.ofText⟩ =
      ⟨true, wayTo (Location.climbs [] (Text.splitOn '/' t)) (Location.follow [] (Text.splitOn '/' t))⟩ :=
  Path.normalize_ofPieces _

theorem normalize_append_eq_iff (root t : Text) :
    Path.normalize ⟨true, (stepsOf t).map Component.ofText⟩ =
        Path.normalize ⟨true, (stepsOf (root ++ '/' :: t)).map Component.ofText⟩ ↔
      LeadsAlike root t := by
  rw [normalize_stepsOf, normalize_stepsOf, Text.splitOn_append_sep, Location.climbs_append, Location.follow_append]
  obtain ⟨hclimbs, hfollow⟩ := Location.climbs_follow_eq (Location.follow [] (Text.splitOn '/' root))
    (Text.splitOn '/' t)
  have hnames : (Location.follow [] (Text.splitOn '/' root)).take
      ((Location.follow [] (Text.splitOn '/' root)).length - Location.climbs [] (Text.splitOn '/' t)) = [] ↔
      (Location.follow [] (Text.splitOn '/' root)).length ≤ Location.climbs [] (Text.splitOn '/' t) := by
    rw [← List.length_eq_zero_iff, List.length_take]
    omega
  rw [hclimbs, hfollow, LeadsAlike, Path.mk.injEq, and_iff_right rfl]
  constructor
  · intro h
    obtain ⟨hcount, hloc⟩ := wayTo_inj h
    have hup := hnames.1 (List.self_eq_append_left.1 hloc)
    omega
  · rintro ⟨hsame, hup⟩
    rw [hnames.2 (by omega), List.nil_append]
    congr 1
    omega

/-! ## Where spellings lead -/

section Spelling

variable {root : Text} (hroot : root.head? = some '/') (s : Text)

include hroot

theorem namedPath_eq :
    namedPath root s =
      Path.normalize ⟨true, (stepsOf (if (slashed s).head? = some '/' then slashed s
        else root ++ '/' :: slashed s)).map Component.ofText⟩ := by
  unfold namedPath Path.ofText
  split
  · rename_i hslash
    rw [hslash]
    rfl
  · rw [List.head?_append, hroot]
    rfl

/-- A reported path starts at the root directory if its spelling does, or if dots have hidden its slash. -/
theorem absolutize_ofText :
    absolutize (.ofText root) (.ofText s) =
      Path.normalize ⟨true, (stepsOf (if (slashed s).head? = some '/' ∨ dotsThenSlash (slashed s) = true then slashed s
        else root ++ '/' :: slashed s)).map Component.ofText⟩ := by
  rw [absolutize, Path.ofText_reported, Path.join]
  cases hrooted : (slashed s).head? == some '/' || dotsThenSlash (slashed s) with
  | true => rw [if_pos rfl, if_pos (by simpa using hrooted)]
  | false =>
    rw [if_neg Bool.false_ne_true, if_neg (by simpa using hrooted), stepsOf_append, List.map_append]
    simp only [Path.ofText, hroot, stepsOf]
    rfl

end Spelling

/-- From the root directory a spelling and the path that is kept of it are the same. -/
theorem namedPath_slash (s : Text) :
    namedPath ['/'] s = Path.normalize ⟨true, (stepsOf (slashed s)).map Component.ofText⟩ := by
  rw [namedPath_eq rfl]
  split
  · rfl
  · rw [stepsOf_append]
    rfl

theorem isAbsolute_ofText_iff (s : Text) :
    (ReportPath.ofText s).isAbsolute = true ↔ (slashed s).head? = some '/' ∨ dotsThenSlash (slashed s) = true := by
  have hrooted : (ReportPath.ofText s).isAbsolute = ((slashed s).head? == some '/' || dotsThenSlash (slashed s)) :=
    congrArg Path.rooted (Path.ofText_reported s)
  rw [hrooted, Bool.or_eq_true, beq_iff_eq]

/-- Dots hide a slash in front of a relative spelling only. -/
theorem head?_ne_of_dotsThenSlash {t : Text} (h : dotsThenSlash t = true) : t.head? ≠ some '/' := by
  unfold dotsThenSlash at h
  split at h
  · simp
  · simp
  · cases h

/-- **Where a spelling leads, and when that is the path that it names.** Dots in front of a slash hide it: the path is
then taken from the root directory, and not from `root`. -/
theorem absolutize_spelling_iff (root s : Text) (hroot : root.head? = some '/') :
    ((ReportPath.ofText s).isAbsolute = true ↔ (slashed s).head? = some '/' ∨ dotsThenSlash (slashed s) = true) ∧
      absolutize (.ofText root) (.ofText s) = namedPath (if dotsThenSlash (slashed s) then ['/'] else root) s ∧
      (absolutize (.ofText root) (.ofText s) = namedPath root s ↔
        (dotsThenSlash (slashed s) = true → LeadsAlike root (slashed s))) := by
  refine ⟨isAbsolute_ofText_iff s, ?_⟩
  rw [absolutize_ofText hroot]
  cases hdots : dotsThenSlash (slashed s) with
  | true =>
    have hrelative := head?_ne_of_dotsThenSlash hdots
    rw [if_pos (.inr rfl), if_pos rfl, namedPath_slash, namedPath_eq hroot, if_neg hrelative, normalize_append_eq_iff]
    exact ⟨rfl, fun h _ => h, fun h => h rfl⟩
  | false => simp [namedPath_eq hroot]

/-- A spelling with dots, doubled slashes and backslashes, and no slash behind its first dots. -/
theorem absolutize_spelling_of_relative :
    let root : Text := "/work//pkg".toList
    let s : Text := "./.\\.\\sub\\..//./m.py".toList
    root.head? = some '/' ∧ (ReportPath.ofText s).isAbsolute = false ∧
      absolutize (.ofText root) (.ofText s) = namedPath root s ∧ (namedPath root s).text = "/work/pkg/m.py".toList := by
  intro root s
  obtain ⟨habsolute, -, hiff⟩ := absolutize_spelling_iff root s (by decide)
  refine ⟨by decide, ?_, hiff.2 (by decide), by decide⟩
  rw [← Bool.not_eq_true, habsolute]
  decide

/-- A second slash behind the first dot leads out of the working directory. -/
theorem absolutize_leaves_root :
    let root : Text := "/r".toList
    let s : Text := ".//a.py".toList
    (slashed s).head? ≠ some '/' ∧ (ReportPath.ofText s).isAbsolute = true ∧
      (absolutize (.ofText root) (.ofText s)).text = "/a.py".toList ∧ (namedPath root s).text = "/r/a.py".toList ∧
      absolutize (.ofText root) (.ofText s) ≠ namedPath root s := by
  decide

end TypeIgnore
