import TypeIgnore.Proofs.Source.Classification

/-!
# Regions of a map

* `RegionsFrom n current m` — what holds of the regions of the lines from `n` on, with the statement `current` open
  before them: they ascend, and a line is left open exactly inside of one;
* `Classified.regionsFrom` — every classification gives such regions;
* `partitionPoint_eq` — bisection finds the place up to which a test holds, so that in ascending regions the lookup
  finds the region of a line (`regionAt?_eq_some`).
-/

namespace TypeIgnore

theorem Region.contains_iff {r : Region} {k : Nat} : r.contains k = true ↔ r.first ≤ k ∧ k ≤ r.last := by
  simp [Region.contains]

theorem Region.isInterior_iff {r : Region} {k : Nat} : r.isInterior k = true ↔ r.first ≤ k ∧ k < r.last := by
  simp only [Region.isInterior, Region.contains, Bool.and_eq_true, decide_eq_true_eq, bne_iff_ne]
  omega

/-- The first line of the statement that line `n` belongs to. -/
def OpenStatement.firstLine (n : Nat) (current : Option OpenStatement) : Nat := (current.map (·.first)).getD n

/-- Regions in order, and apart from each other. -/
def Ascending (regions : List Region) : Prop := regions.Pairwise fun r r' => r.last < r'.first

structure RegionsFrom (n : Nat) (current : Option OpenStatement) (m : SourceMap) : Prop where
  ascending : Ascending m.regions
  spans : ∀ r ∈ m.regions, r.first < r.last
  first : ∀ r ∈ m.regions, OpenStatement.firstLine n current ≤ r.first
  last : ∀ r ∈ m.regions, n ≤ r.last ∧ r.last < n + m.lines.length
  /-- The open statement becomes a region. -/
  continued : ∀ o, current = some o → ∃ r ∈ m.regions, r.first = o.first
  endsStatement : ∀ l ∈ m.lines, l.endsStatement = false ↔ ∃ r ∈ m.regions, r.isInterior l.number = true

namespace RegionsFrom

variable {n : Nat} {current : Option OpenStatement} {tail : SourceMap} {l : SourceLine}

/-- Line `n` is a statement of its own. -/
theorem single (h : RegionsFrom (n + 1) none tail) (hl : l.number = n) (hends : l.endsStatement = true) :
    RegionsFrom n none ⟨l :: tail.lines, tail.regions⟩ := by
  have hfirst : ∀ r ∈ tail.regions, n < r.first := h.first
  refine ⟨h.ascending, h.spans, fun r hr => (hfirst r hr).le, ?_, by simp, ?_⟩
  · intro r hr
    have hlast := h.last r hr
    simp only [List.length_cons]
    omega
  · intro l' hl'
    rcases List.mem_cons.1 hl' with rfl | hl'
    · simp only [hends, hl, Region.isInterior_iff, Bool.true_eq_false, false_iff, not_exists, not_and]
      intro r hr hle
      have := hfirst r hr
      omega
    · exact h.endsStatement l' hl'

/-- Line `n` is the last one of the statement `o`, and the lines after it start afresh. -/
theorem closed {o : OpenStatement} (h : RegionsFrom (n + 1) none tail) (ho : o.first < n)
    (hnumber : ∀ l' ∈ tail.lines, n < l'.number) (hl : l.number = n) (hends : l.endsStatement = true) :
    RegionsFrom n (some o) ⟨l :: tail.lines, ⟨o.first, n, o.kind⟩ :: tail.regions⟩ := by
  have hfirst : ∀ r ∈ tail.regions, n < r.first := h.first
  refine ⟨?_, ?_, ?_, ?_, ?_, ?_⟩
  · exact List.pairwise_cons.2 ⟨hfirst, h.ascending⟩
  · intro r hr
    rcases List.mem_cons.1 hr with rfl | hr
    · exact ho
    · exact h.spans r hr
  · intro r hr
    rcases List.mem_cons.1 hr with rfl | hr
    · exact le_rfl
    · exact ho.le.trans (hfirst r hr).le
  · intro r hr
    simp only [List.length_cons]
    rcases List.mem_cons.1 hr with rfl | hr
    · simp
    · have hlast := h.last r hr
      omega
  · rintro o' ⟨⟩
    exact ⟨_, List.mem_cons_self, rfl⟩
  · -- the new region has no line of the tail inside, and the regions of the tail do not reach line `n`
    intro l' hl'
    rcases List.mem_cons.1 hl' with rfl | hl'
    · simp only [hends, hl, Region.isInterior_iff, Bool.true_eq_false, false_iff, not_exists, not_and]
      intro r hr hle
      rcases List.mem_cons.1 hr with rfl | hr
      · exact lt_irrefl n
      · have := hfirst r hr
        omega
    · have hnew : (⟨o.first, n, o.kind⟩ : Region).isInterior l'.number = false := by
        rw [Bool.eq_false_iff]
        intro hin
        have hlt : l'.number < n := (Region.isInterior_iff.1 hin).2
        have hgt := hnumber l' hl'
        omega
      simp [h.endsStatement l' hl', hnew]

/-- Line `n` ends its statement. -/
theorem ended (h : RegionsFrom (n + 1) none tail) (hcurrent : ∀ o, current = some o → o.first < n)
    (hnumber : ∀ l' ∈ tail.lines, n < l'.number) (hl : l.number = n) (hends : l.endsStatement = true) :
    RegionsFrom n current ⟨l :: tail.lines, OpenStatement.close n none current ++ tail.regions⟩ := by
  cases current with
  | none => exact h.single hl hends
  | some o => exact h.closed (hcurrent o rfl) hnumber hl hends

/-- The statement goes on after line `n`. -/
theorem opened {o : OpenStatement} (h : RegionsFrom (n + 1) (some o) tail)
    (ho : o.first = OpenStatement.firstLine n current) (hle : o.first ≤ n) (hl : l.number = n)
    (hends : l.endsStatement = false) : RegionsFrom n current ⟨l :: tail.lines, tail.regions⟩ := by
  obtain ⟨r₀, hr₀, hfirst₀⟩ := h.continued o rfl
  refine ⟨h.ascending, h.spans, fun r hr => ho ▸ h.first r hr, ?_, ?_, ?_⟩
  · intro r hr
    have hlast := h.last r hr
    simp only [List.length_cons]
    omega
  · rintro o' rfl
    exact ⟨r₀, hr₀, hfirst₀.trans ho⟩
  · intro l' hl'
    rcases List.mem_cons.1 hl' with rfl | hl'
    · have hlast := h.last r₀ hr₀
      simp only [hends, true_iff]
      exact ⟨r₀, hr₀, Region.isInterior_iff.2 (by omega)⟩
    · exact h.endsStatement l' hl'

end RegionsFrom

/-- Every classification gives regions in order, with a line left open exactly inside of one. -/
theorem Classified.regionsFrom {n : Nat} {s : Scanner} {current : Option OpenStatement} {rest : Text}
    {ls : List EndedLine} {m : SourceMap} (h : Classified n s current ls rest m)
    (hcurrent : ∀ o, current = some o → o.first < n) : RegionsFrom n current m := by
  have hempty : ∀ k, RegionsFrom k none ⟨[], []⟩ := fun k => ⟨.nil, by simp, by simp, by simp, by simp, by simp⟩
  induction h with
  | done => exact hempty _
  | last => simpa using (hempty _).ended hcurrent (by simp) (mkLine_number ..) rfl
  | @line n s s₁ s₂ current code comment rest ending left ls tail _ _ _ htail ih =>
    cases left with
    | none =>
      have hnumber : ∀ l ∈ tail.lines, n < l.number := by
        intro l hl
        have hmem : l.number ∈ List.range' (n + 1) tail.lines.length :=
          htail.number ▸ List.mem_map_of_mem hl
        exact (List.mem_range'_1.1 hmem).1
      exact (ih (by simp [OpenStatement.advance])).ended hcurrent hnumber (mkLine_number ..) rfl
    | some kind =>
      cases current with
      | none =>
        have htail := ih (by rintro o ⟨⟩; exact Nat.lt_succ_self n)
        exact htail.opened rfl le_rfl (mkLine_number ..) rfl
      | some o =>
        have ho := hcurrent o rfl
        have htail := ih (by rintro o' ⟨⟩; exact Nat.lt_succ_of_lt ho)
        exact htail.opened rfl ho.le (mkLine_number ..) rfl

/-! ## Looking a region up -/

/-- Bisection finds the place up to which `p` holds. -/
theorem bisect_eq {p : Nat → Bool} {size count low bits : Nat} (hcount : count ≤ size)
    (hp : ∀ i < size, p i = true ↔ i < count) (hlow : low ≤ count) (hbits : count < low + Nat.pow 2 bits) :
    bisect p size low bits = count := by
  induction bits generalizing low with
  | zero =>
    have hone : Nat.pow 2 0 = 1 := rfl
    simp only [bisect]
    omega
  | succ bits ih =>
    have hpos : 0 < Nat.pow 2 bits := Nat.two_pow_pos bits
    have hdouble : Nat.pow 2 (bits + 1) = Nat.pow 2 bits * 2 := rfl
    have hnext : (low + Nat.pow 2 bits ≤ size && p (low + Nat.pow 2 bits - 1)) = true ↔
        low + Nat.pow 2 bits ≤ count := by
      rw [Bool.and_eq_true, decide_eq_true_eq]
      constructor
      · rintro ⟨hle, hholds⟩
        have := (hp _ (by omega)).1 hholds
        omega
      · intro hle
        exact ⟨by omega, (hp _ (by omega)).2 (by omega)⟩
    simp only [bisect]
    by_cases hle : low + Nat.pow 2 bits ≤ count
    · rw [if_pos (hnext.2 hle)]
      exact ih hle (by omega)
    · rw [if_neg (mt hnext.1 hle)]
      exact ih hlow (by omega)

theorem partitionPoint_eq {p : Nat → Bool} {size count : Nat} (hcount : count ≤ size)
    (hp : ∀ i < size, p i = true ↔ i < count) : partitionPoint p size = count := by
  have hsize : size < Nat.pow 2 (size.log2 + 1) := Nat.lt_log2_self
  exact bisect_eq hcount hp (Nat.zero_le count) (by omega)

theorem regionAt?_eq_some {m : SourceMap} {r : Region} {k : Nat} (h : Ascending m.regions)
    (hspans : ∀ r ∈ m.regions, r.first < r.last) (hr : r ∈ m.regions) (hk : r.contains k = true) :
    m.regionAt? k = some r := by
  obtain ⟨hfirst, hlast⟩ := Region.contains_iff.1 hk
  obtain ⟨j, hj, rfl⟩ := List.getElem_of_mem hr
  have hapart := List.pairwise_iff_getElem.1 h
  -- the regions that end before line `k` are those before the region of line `k`
  have hends : ∀ i < m.regions.length, m.endsBefore k i = true ↔ i < j := by
    intro i hi
    rw [SourceMap.endsBefore, List.getElem?_eq_getElem hi, Option.any_some, decide_eq_true_eq]
    rcases Nat.lt_trichotomy i j with hlt | rfl | hgt
    · have hbefore := hapart i j hi hj hlt
      exact iff_of_true (by omega) hlt
    · exact iff_of_false (by omega) (lt_irrefl i)
    · have hafter := hapart j i hj hi hgt
      have hspan := hspans _ (List.getElem_mem hi)
      exact iff_of_false (by omega) (by omega)
  rw [SourceMap.regionAt?, partitionPoint_eq hj.le hends, List.getElem?_eq_getElem hj, Option.filter_some, if_pos hk]

/-- A line that is left open is inside the region that is looked up for it. -/
theorem regionAt?_of_not_endsStatement {source : Text} {m : SourceMap} (h : classify source = .ok m) {l : SourceLine}
    (hl : l ∈ m.lines) (hopen : l.endsStatement = false) :
    ∃ r, m.regionAt? l.number = some r ∧ r.isInterior l.number = true := by
  have hregions := (classify_eq_ok_iff.1 h).regionsFrom (by simp)
  obtain ⟨r, hr, hin⟩ := (hregions.endsStatement l hl).1 hopen
  have hcontains : r.contains l.number = true := (Bool.and_eq_true_iff.1 hin).1
  exact ⟨r, regionAt?_eq_some hregions.ascending hregions.spans hr hcontains, hin⟩

end TypeIgnore
