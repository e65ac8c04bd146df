import TypeIgnore.Proofs.Source.LineEnds
import TypeIgnore.Proofs.Source.Regions

/-!
# Regions are the statements of several lines

* `Scanner.continues` — a bracket or a backslash, not a literal alone, holds the statement open;
* `Region.Continues n states r` — so it is at the end of a line inside the region, the lines from `n` on ending in
  `states`;
* `Region.KindFrom` — the kind of a region tells whether it is so, the statement that is open before line `n` counted
  in; what one line does to it (`Region.kindFrom_close`, `Region.KindFrom.after`, `Region.KindFrom.opened`), and so what
  all lines do (`Classified.kindFrom`);
* `ExactRegions` — the regions of a map are the statements of several lines, and looking one up finds it.
-/

namespace TypeIgnore

open Scanner

/-! ## Lines inside a region -/

/-- A bracket or a backslash holds the statement open at the end of a line. -/
def Scanner.continues (s : Scanner) : Bool := s.inBrackets || s.isContinued

/-- A line inside the region is held open by a bracket or a backslash. -/
def Region.Continues (n : Nat) (states : List Scanner) (r : Region) : Prop :=
  ∃ i s, states[i]? = some s ∧ r.isInterior (n + i) = true ∧ s.continues = true

theorem Region.continues_cons {n : Nat} {s : Scanner} {states : List Scanner} {r : Region} :
    r.Continues n (s :: states) ↔ r.isInterior n = true ∧ s.continues = true ∨ r.Continues (n + 1) states := by
  constructor
  · rintro ⟨i, s', hs', hin, hcontinues⟩
    cases i with
    | zero =>
      cases hs'
      exact .inl ⟨hin, hcontinues⟩
    | succ i => exact .inr ⟨i, s', hs', by rwa [Nat.add_right_comm], hcontinues⟩
  · rintro (⟨hin, hcontinues⟩ | ⟨i, s', hs', hin, hcontinues⟩)
    · exact ⟨0, s, rfl, hin, hcontinues⟩
    · exact ⟨i + 1, s', hs', by rwa [Nat.add_right_comm] at hin, hcontinues⟩

theorem Region.not_continues {n : Nat} {r : Region} (h : r.last ≤ n) (states : List Scanner) :
    ¬ r.Continues n states := by
  rintro ⟨i, s, -, hin, -⟩
  have hlt := (Region.isInterior_iff.1 hin).2
  omega

/-- No line is in two regions. -/
theorem Ascending.eq_of_contains {regions : List Region} (h : Ascending regions) {r r' : Region} (hr : r ∈ regions)
    (hr' : r' ∈ regions) {k : Nat} (hk : r.contains k = true) (hk' : r'.contains k = true) : r = r' := by
  rw [Region.contains_iff] at hk hk'
  obtain ⟨i, hi, rfl⟩ := List.getElem_of_mem hr
  obtain ⟨j, hj, rfl⟩ := List.getElem_of_mem hr'
  have hapart := List.pairwise_iff_getElem.1 h
  rcases Nat.lt_trichotomy i j with hlt | rfl | hgt
  · have hbefore := hapart i j hi hj hlt
    omega
  · rfl
  · have hafter := hapart j i hj hi hgt
    omega

/-- Line `n`, which leaves the statement `o` open, is inside the region that `o` becomes, and inside no other. -/
theorem RegionsFrom.isInterior_iff_of_open {n : Nat} {o : OpenStatement} {m : SourceMap}
    (h : RegionsFrom (n + 1) (some o) m) (ho : o.first ≤ n) {r : Region} (hr : r ∈ m.regions) :
    r.isInterior n = true ↔ o.first = r.first := by
  have hlast := h.last r hr
  rw [Region.isInterior_iff]
  constructor
  · rintro ⟨hle, hlt⟩
    obtain ⟨r₀, hr₀, hfirst₀⟩ := h.continued o rfl
    have hlast₀ := h.last r₀ hr₀
    have heq : r₀ = r :=
      h.ascending.eq_of_contains hr₀ hr (Region.contains_iff.2 (by omega)) (Region.contains_iff.2 ⟨hle, hlt.le⟩)
    rw [← heq, hfirst₀]
  · intro heq
    omega

/-! ## Kinds -/

theorem RegionKind.merge_eq_continuation_iff {a b : RegionKind} :
    a.merge b = .continuation ↔ a = .continuation ∨ b = .continuation := by
  cases a <;> cases b <;> decide

theorem OpenStatement.first_advance_le {n : Nat} {kind : RegionKind} {current : Option OpenStatement}
    (hcurrent : ∀ o, current = some o → o.first < n) {o : OpenStatement}
    (ho : OpenStatement.advance n (some kind) current = some o) : o.first ≤ n := by
  cases current with
  | none =>
    cases ho
    exact le_rfl
  | some o' =>
    cases ho
    exact (hcurrent o' rfl).le

/-- The kind of a region, as far as it is known before line `n`, and as the lines from `n` on have it. -/
def Region.KindFrom (n : Nat) (current : Option OpenStatement) (states : List Scanner) (r : Region) : Prop :=
  r.kind = .continuation ↔
    (∃ o, current = some o ∧ o.first = r.first ∧ o.kind = .continuation) ∨ r.Continues n states

/-- The statement that line `n` ends has the kind that it had. -/
theorem Region.kindFrom_close (n : Nat) (current : Option OpenStatement) (states : List Scanner) {r : Region}
    (hr : r ∈ OpenStatement.close n none current) : r.KindFrom n current states := by
  cases current with
  | none => cases hr
  | some o =>
    obtain rfl := List.mem_singleton.1 hr
    have hnot := Region.not_continues (le_refl (Region.mk o.first n o.kind).last) states
    simp [KindFrom, hnot]

/-- A region after line `n`. -/
theorem Region.KindFrom.after {n : Nat} {current : Option OpenStatement} {s : Scanner} {states : List Scanner}
    {r : Region} (h : r.KindFrom (n + 1) none states) (hcurrent : ∀ o, current = some o → o.first < n)
    (hfirst : n < r.first) : r.KindFrom n current (s :: states) := by
  have hbefore : ¬ ∃ o, current = some o ∧ o.first = r.first ∧ o.kind = .continuation := by
    rintro ⟨o, ho, heq, -⟩
    have := hcurrent o ho
    omega
  have houtside : ¬ (r.isInterior n = true ∧ s.continues = true) := by
    rintro ⟨hin, -⟩
    have := (Region.isInterior_iff.1 hin).1
    omega
  rw [KindFrom] at h ⊢
  rw [h, Region.continues_cons]
  simp [hbefore, houtside]

/-- A region when line `n` is left open for `kind`. -/
theorem Region.KindFrom.opened {n : Nat} {current : Option OpenStatement} {kind : RegionKind} {s : Scanner}
    {states : List Scanner} {r : Region} {o : OpenStatement} (ho : OpenStatement.advance n (some kind) current = some o)
    (h : r.KindFrom (n + 1) (some o) states) (hs : s.continues = true ↔ kind = .continuation)
    (hin : r.isInterior n = true ↔ o.first = r.first) : r.KindFrom n current (s :: states) := by
  rw [KindFrom] at h ⊢
  rw [h, Region.continues_cons, hin, hs, ← or_assoc]
  refine or_congr_left ?_
  cases current with
  | none =>
    cases ho
    simp
  | some o' =>
    cases ho
    simp only [Option.some.injEq, exists_eq_left', RegionKind.merge_eq_continuation_iff]
    rw [and_or_left]

/-- **A region is a continuation exactly if a bracket or a backslash holds one of its lines open.** -/
theorem Classified.kindFrom {n : Nat} {s : Scanner} {current : Option OpenStatement} {rest : Text}
    {ls : List EndedLine} {m : SourceMap} (h : Classified n s current ls rest m)
    (hcurrent : ∀ o, current = some o → o.first < n) :
    ∀ r ∈ m.regions, r.KindFrom n current (endStatesFrom n s rest ls) := by
  induction h with
  | done => simp
  | last => exact fun r hr => Region.kindFrom_close _ _ _ hr
  | @line n s s₁ s₂ current code comment rest ending left ls tail hready hscan hbreak htail ih =>
    have hleft := leftOpen_of_breakLine (hscan.wellFormed hready.wellFormed) hbreak
    rw [endStatesFrom_cons hready hscan hbreak]
    cases left with
    | none =>
      have hregions : RegionsFrom (n + 1) none tail := htail.regionsFrom (by simp [OpenStatement.advance])
      intro r hr
      rcases List.mem_append.1 hr with hclosed | hlater
      · exact Region.kindFrom_close n current _ hclosed
      · exact (ih (by simp [OpenStatement.advance]) r hlater).after hcurrent (hregions.first r hlater)
    | some kind =>
      obtain ⟨o, ho⟩ : ∃ o, OpenStatement.advance n (some kind) current = some o := ⟨_, rfl⟩
      have hfirst : o.first ≤ n := OpenStatement.first_advance_le hcurrent ho
      have hadvance : ∀ o', OpenStatement.advance n (some kind) current = some o' → o'.first < n + 1 := by
        intro o' ho'
        exact Nat.lt_succ_of_le (OpenStatement.first_advance_le hcurrent ho')
      have hregions := htail.regionsFrom hadvance
      have hkinds := ih hadvance
      rw [ho] at hregions hkinds
      have hcontinues : s₁.continues = true ↔ kind = .continuation := by
        rw [continues, ← leftOpen_eq_continuation_iff, ← hleft, Option.some.injEq]
      have hnone : OpenStatement.close n (some kind) current = [] := by cases current <;> rfl
      intro r hr
      rw [hnone, List.nil_append] at hr
      exact (hkinds r hr).opened ho hcontinues (hregions.isInterior_iff_of_open hfirst hr)

/-! ## The regions of a source -/

/-- The regions are the statements of several lines, in order, and the region of a line is found. -/
structure ExactRegions (source : Text) (m : SourceMap) : Prop where
  ascending : m.regions.Pairwise fun r r' => r.last < r'.first
  within : ∀ r ∈ m.regions, 1 ≤ r.first ∧ r.first < r.last ∧ r.last ≤ m.lines.length
  endsStatement : ∀ l ∈ m.lines,
    l.endsStatement = false ↔ ∃ r ∈ m.regions, r.first ≤ l.number ∧ l.number < r.last
  kind : ∀ r ∈ m.regions, r.kind = .continuation ↔
    ∃ i s, (endStates source)[i]? = some s ∧ (r.first ≤ i + 1 ∧ i + 1 < r.last) ∧
      (s.inBrackets = true ∨ s.isContinued = true)
  unique : ∀ r ∈ m.regions, ∀ r' ∈ m.regions, ∀ k, r.contains k = true → r'.contains k = true → r = r'
  lookup : ∀ k r, m.regionAt? k = some r ↔ r ∈ m.regions ∧ r.contains k = true
  lookup_none : ∀ k, m.regionAt? k = none ↔ ∀ r ∈ m.regions, r.contains k = false

theorem regionAt?_eq_some_iff {m : SourceMap} (h : Ascending m.regions) (hspans : ∀ r ∈ m.regions, r.first < r.last)
    {k : Nat} {r : Region} : m.regionAt? k = some r ↔ r ∈ m.regions ∧ r.contains k = true := by
  constructor
  · intro hr
    obtain ⟨hget, hcontains⟩ := Option.filter_eq_some_iff.1 hr
    exact ⟨List.mem_of_getElem? hget, hcontains⟩
  · rintro ⟨hr, hcontains⟩
    exact regionAt?_eq_some h hspans hr hcontains

/-- **The regions of a map are exactly the statements of several lines.** -/
theorem exactRegions_classify (source : Text) (m : SourceMap) (hm : classify source = .ok m) :
    ExactRegions source m := by
  have hclassified := classify_eq_ok_iff.1 hm
  have hregions := hclassified.regionsFrom (by simp)
  have hlookup : ∀ k r, m.regionAt? k = some r ↔ r ∈ m.regions ∧ r.contains k = true := fun k r =>
    regionAt?_eq_some_iff hregions.ascending hregions.spans
  refine ⟨hregions.ascending, ?_, ?_, ?_, ?_, hlookup, ?_⟩
  · intro r hr
    have hfirst : 1 ≤ r.first := hregions.first r hr
    have hlast := hregions.last r hr
    exact ⟨hfirst, hregions.spans r hr, by omega⟩
  · intro l hl
    simp only [hregions.endsStatement l hl, Region.isInterior_iff]
  · intro r hr
    have hkind : r.KindFrom 1 none (endStates source) := hclassified.kindFrom (by simp) r hr
    rw [Region.KindFrom] at hkind
    simpa only [reduceCtorEq, false_and, exists_false, false_or, Region.Continues, Region.isInterior_iff, continues,
      Bool.or_eq_true, Nat.add_comm 1] using hkind
  · intro r hr r' hr' k hk hk'
    exact hregions.ascending.eq_of_contains hr hr' hk hk'
  · intro k
    rw [Option.eq_none_iff_forall_ne_some]
    constructor
    · intro hnone r hr
      by_contra hk
      exact hnone r ((hlookup k r).2 ⟨hr, by simpa using hk⟩)
    · intro hout r hr
      obtain ⟨hmem, hk⟩ := (hlookup k r).1 hr
      rw [hout r hmem] at hk
      cases hk

/-- A literal, a bracket after a literal, and a line of its own. -/
theorem exactRegions_classify_mixed :
    let source : Text := "'''\n'''\nx = '''\n''' + (\n1)\ny\n"
    let regions : List Region := [⟨1, 2, .multilineLiteral⟩, ⟨3, 5, .continuation⟩]
    ∃ m, classify source = .ok m ∧ m.regions = regions ∧
      (List.range 8).map m.regionAt? =
        [none, some ⟨1, 2, .multilineLiteral⟩, some ⟨1, 2, .multilineLiteral⟩, some ⟨3, 5, .continuation⟩,
          some ⟨3, 5, .continuation⟩, some ⟨3, 5, .continuation⟩, none, none] ∧
      ExactRegions source m := by
  intro source regions
  have hm : classify source = .ok
      ⟨[⟨1, "'''", [], some .lf, false⟩, ⟨2, "'''", [], some .lf, true⟩, ⟨3, "x = '''", [], some .lf, false⟩,
        ⟨4, "''' + (", [], some .lf, false⟩, ⟨5, "1)", [], some .lf, true⟩,
        ⟨6, "y", [], some .lf, true⟩], regions⟩ := by
    decide +kernel
  exact ⟨_, hm, rfl, by decide +kernel, exactRegions_classify source _ hm⟩

end TypeIgnore
