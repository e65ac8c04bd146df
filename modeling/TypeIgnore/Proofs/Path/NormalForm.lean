import TypeIgnore.Proofs.Path.Reported

/-!
# The normal form of a path

* `normalText n names` — a slash, `..` as often as `n` says, and then names;
* `IsNormalText t` — the text is of this form, with names that a report can spell;
* `absolutize_normalText` — such a text, taken as a reported path, is read as the way that it writes, whatever the root;
* `isReportedName_of_mem_leadsTo` — what a spelling leads to has names of this kind;
* `text_absolutize_eq_self_iff` — so the texts in normal form are exactly those that stay as they are;
* `absolutize_isNormalText` — every reported path gets a text in normal form, which stays.
-/

namespace TypeIgnore

open Location

/-! ## Texts in normal form -/

/-- The steps of a way that goes up `n` times and then takes `names`. -/
def normalSteps (n : Nat) (names : List Text) : List Text := List.replicate n (".." : Text) ++ names

def normalText (n : Nat) (names : List Text) : Text := '/' :: Text.joinWith "/" (normalSteps n names)

/-- A name as a reported path can have it: not `.` or `..`, and without slashes of either kind. -/
def IsReportedName (name : Text) : Prop := IsName name ∧ '/' ∉ name ∧ '\\' ∉ name

/-- A slash, then `..` any number of times, and then names only. -/
def IsNormalText (t : Text) : Prop :=
  ∃ n names, t = normalText n names ∧ ∀ name ∈ names, IsReportedName name

theorem map_text_wayTo (n : Nat) (loc : Location) :
    (wayTo n loc).map Component.text = normalSteps n loc := by
  simp [wayTo, normalSteps, Component.text, Function.comp_def]

theorem text_wayTo (n : Nat) (loc : Location) : Path.text ⟨true, wayTo n loc⟩ = normalText n loc := by
  rw [Path.text, if_pos rfl, map_text_wayTo, normalText]

/-! ## Reading them -/

theorem Location.climbs_replicate_parent (n : Nat) : climbs [] (List.replicate n "..") = n := by
  induction n with
  | zero => rfl
  | succ n ih => rw [List.replicate_succ, climbs, step_parent, List.dropLast_nil, ih, if_pos ⟨rfl, rfl⟩]

/-- Names lead down only. -/
theorem Location.climbs_of_isName {names : List Text} (here : Location) (h : ∀ name ∈ names, IsName name) :
    climbs here names = 0 := by
  induction names generalizing here with
  | nil => rfl
  | cons name names ih =>
    obtain ⟨hname, hnames⟩ := List.forall_mem_cons.1 h
    have hdown : ¬(here = [] ∧ name = "..") := fun hup => hname.2 hup.2
    rw [climbs, ih _ hnames, if_neg hdown]

section NormalText

variable {n : Nat} {names : List Text} (hnames : ∀ name ∈ names, IsReportedName name)

include hnames

theorem not_mem_of_mem_normalSteps {piece : Text} (h : piece ∈ normalSteps n names) :
    '/' ∉ piece ∧ '\\' ∉ piece := by
  rcases List.mem_append.1 h with hup | hname
  · rw [List.eq_of_mem_replicate hup]
    decide
  · exact (hnames piece hname).2

theorem backslash_not_mem_normalText : '\\' ∉ normalText n names := by
  intro h
  rcases List.mem_cons.1 h with hslash | hmem
  · exact absurd hslash (by decide)
  · rcases Text.mem_joinWith hmem with hsep | ⟨piece, hpiece, hc⟩
    · exact absurd hsep (by decide)
    · exact (not_mem_of_mem_normalSteps hnames hpiece).2 hc

/-- Such a text is kept as it is. -/
theorem ofText_normalText : ReportPath.ofText (normalText n names) = ⟨normalText n names⟩ := by
  have hslashed : slashed (normalText n names) = normalText n names := by
    refine (List.map_congr_left fun c hc => ?_).trans (List.map_id _)
    have hne : c ≠ '\\' := fun h => backslash_not_mem_normalText hnames (h ▸ hc)
    rw [if_neg hne]
    rfl
  unfold ReportPath.ofText
  rw [← slashed, hslashed]
  rfl

/-- Its pieces are what it was made of, after the empty one before the first slash. -/
theorem follow_climbs_normalText :
    follow [] (Text.splitOn '/' (normalText n names)) = names ∧
      climbs [] (Text.splitOn '/' (normalText n names)) = n := by
  have hname : ∀ name ∈ names, IsName name := fun name h => (hnames name h).1
  rw [normalText, Text.splitOn_cons_self]
  by_cases hempty : normalSteps n names = []
  · obtain ⟨hn, rfl⟩ := List.append_eq_nil_iff.1 hempty
    obtain rfl : n = 0 := by simpa using hn
    exact ⟨rfl, rfl⟩
  · have hpieces : Text.splitOn '/' (Text.joinWith "/" (normalSteps n names)) = normalSteps n names :=
      Text.splitOn_joinWith hempty fun piece h => (not_mem_of_mem_normalSteps hnames h).1
    have hfollow : follow [] ([] :: normalSteps n names) = follow [] (normalSteps n names) := rfl
    have hclimbs : climbs [] ([] :: normalSteps n names) = climbs [] (normalSteps n names) := rfl
    rw [hpieces, hfollow, hclimbs, normalSteps, climbs_append, climbs_replicate_parent, climbs_of_isName _ hname,
      follow_append, follow_replicate_parent, follow_of_isName [] hname, List.nil_append]
    exact ⟨rfl, rfl⟩

/-- **A text in normal form is read as the way that it writes**, from any root. -/
theorem absolutize_normalText {root : Text} (hroot : root.head? = some '/') :
    absolutize (.ofText root) (.ofText (normalText n names)) = ⟨true, wayTo n names⟩ := by
  have hway : wayPieces root ⟨normalText n names⟩ = Text.splitOn '/' (normalText n names) := if_pos rfl
  obtain ⟨hfollow, hclimbs⟩ := follow_climbs_normalText (n := n) hnames
  rw [ofText_normalText hnames, absolutize_eq hroot, leadsTo, climbsOf, hway, hfollow, hclimbs]

end NormalText

/-! ## Reported paths -/

/-- No backslash is left of a spelling. -/
theorem backslash_not_mem_ofText (s : Text) : '\\' ∉ (ReportPath.ofText s).text := by
  have hslashed : '\\' ∉ slashed s := by
    intro h
    obtain ⟨c, -, hc⟩ := List.mem_map.1 h
    split at hc
    · exact absurd hc (by decide)
    · rename_i hne
      exact hne hc
  have hdrop : ∀ t : Text, ∀ c ∈ ReportPath.dropDots t, c ∈ t := by
    intro t
    fun_induction ReportPath.dropDots t with
    | case1 t ih => exact fun c hc => List.mem_cons_of_mem _ (List.mem_cons_of_mem _ (ih c hc))
    | case2 t h => exact fun c hc => hc
  unfold ReportPath.ofText
  rw [← slashed]
  split
  · decide
  · exact fun h => hslashed (hdrop _ _ h)

section Reported

variable {root : Text} (hback : '\\' ∉ root) (s : Text)

include hback

/-- The names that a spelling leads to have neither slashes nor backslashes. -/
theorem isReportedName_of_mem_leadsTo : ∀ name ∈ leadsTo root (.ofText s), IsReportedName name := by
  intro name hname
  obtain ⟨hisName, hslash⟩ := isName_of_mem_leadsTo hname
  refine ⟨hisName, hslash, fun hc => ?_⟩
  rcases isName_of_mem_follow hname with hnil | ⟨hmem, -⟩
  · cases hnil
  · unfold wayPieces at hmem
    split at hmem
    · exact backslash_not_mem_ofText s ((Text.mem_splitOn hmem).2 _ hc)
    · rcases List.mem_append.1 hmem with hmem | hmem
      · exact hback ((Text.mem_splitOn hmem).2 _ hc)
      · exact backslash_not_mem_ofText s ((Text.mem_splitOn hmem).2 _ hc)

theorem isNormalText_absolutize (hroot : root.head? = some '/') :
    IsNormalText (absolutize (.ofText root) (.ofText s)).text := by
  rw [absolutize_eq hroot, text_wayTo]
  exact ⟨_, _, rfl, isReportedName_of_mem_leadsTo hback s⟩

end Reported

/-- **The texts in normal form are those that stay as they are.** -/
theorem text_absolutize_eq_self_iff {root : Text} (hroot : root.head? = some '/') (hback : '\\' ∉ root) (t : Text) :
    (absolutize (.ofText root) (.ofText t)).text = t ↔ IsNormalText t := by
  constructor
  · intro h
    rw [← h]
    exact isNormalText_absolutize hback t hroot
  · rintro ⟨n, names, rfl, hnames⟩
    rw [absolutize_normalText hnames hroot, text_wayTo]

/-- **Every reported path has a normal form:** its text is a slash, `..` any number of times and then names, which is
what the texts look like that stay as they are; reported again, it is the same path from any root. -/
theorem absolutize_isNormalText (root s : Text) (hroot : root.head? = some '/') (hback : '\\' ∉ root) :
    (absolutize (.ofText root) (.ofText s)).rooted = true ∧
      IsNormalText (absolutize (.ofText root) (.ofText s)).text ∧
      (∀ t, IsNormalText t ↔ (absolutize (.ofText root) (.ofText t)).text = t) ∧
      ∀ other : Text, other.head? = some '/' →
        absolutize (.ofText other) (.ofText (absolutize (.ofText root) (.ofText s)).text) =
          absolutize (.ofText root) (.ofText s) := by
  refine ⟨?_, isNormalText_absolutize hback s hroot, fun t => (text_absolutize_eq_self_iff hroot hback t).symm,
    fun other hother => ?_⟩
  · rw [absolutize_eq hroot]
  · rw [absolutize_eq hroot, text_wayTo]
    exact absolutize_normalText (isReportedName_of_mem_leadsTo hback s) hother

/-- A spelling that climbs above the root directory before it takes a name. -/
theorem absolutize_isNormalText_climbing :
    let root : Text := "/work/./pkg/".toList
    let s : Text := "..\\.././..//../é/x/..".toList
    let t : Text := "/../../é".toList
    root.head? = some '/' ∧ '\\' ∉ root ∧ (absolutize (.ofText root) (.ofText s)).text = t ∧ IsNormalText t ∧
      absolutize (.ofText "/elsewhere".toList) (.ofText t) = absolutize (.ofText root) (.ofText s) := by
  intro root s t
  have htext : (absolutize (.ofText root) (.ofText s)).text = t := by decide
  obtain ⟨-, hnormal, -, hagain⟩ := absolutize_isNormalText root s (by decide) (by decide)
  rw [htext] at hnormal hagain
  exact ⟨by decide, by decide, htext, hnormal, hagain _ (by decide)⟩

end TypeIgnore
