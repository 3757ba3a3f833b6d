import OceanFs.Routing.Membership
import Mathlib.Data.List.GetD

/-!
The ranges of the ring that a node holds.

Two neighbouring positions bound an arc, and all hashes inside an arc have one replica set. The arcs
that a node holds are merged into runs. A run through the end of the ring is met from its middle
first, at index 0, and from its start once more, so it is returned twice.
-/

namespace OceanFs.Routing

open OceanFs.Core List

/-- The hashes and the positions are numbers of 256 bits. -/
def hashSpace : ℕ := 2 ^ 256

namespace VnodeRange

def contains (r : VnodeRange) (h : ℕ) : Bool :=
  if r.start < r.stop then r.start ≤ h && h < r.stop
  else if r.start = r.stop then r.start = 0 || r.start ≤ h || h < r.stop
  else r.start ≤ h || h < r.stop

lemma contains_iff {r : VnodeRange} (hne : r.start ≠ r.stop) {h : ℕ} :
    r.contains h = true ↔
      r.start ≤ h ∧ h < r.stop ∨ r.stop < r.start ∧ (r.start ≤ h ∨ h < r.stop) := by
  unfold contains
  split_ifs with hlt
  · simp only [Bool.and_eq_true, decide_eq_true_eq]
    omega
  · simp only [Bool.or_eq_true, decide_eq_true_eq]
    omega

def Disjoint (r r' : VnodeRange) : Prop :=
  ∀ h < hashSpace, ¬(r.contains h = true ∧ r'.contains h = true)

end VnodeRange

def rangeContains (r : VnodeRange) (h : ℕ) : Bool := r.contains h

/-! ### Merging runs -/

/-- The inner loop: from `stop` on, round the circle, to the first arc that is not selected. -/
def runEnd (selected : List Bool) (i : ℕ) : ℕ → ℕ → ℕ
  | 0, stop => stop
  | fuel + 1, stop =>
    if stop ≠ i ∧ selected.getD stop false then
      runEnd selected i fuel ((stop + 1) % selected.length)
    else stop

/-- Where the run from arc `i` on ends. -/
def runStop (selected : List Bool) (i : ℕ) : ℕ :=
  runEnd selected i selected.length ((i + 1) % selected.length)

/-- The outer loop. -/
def mergeRuns (selected : List Bool) (position : ℕ → ℕ) : ℕ → ℕ → List VnodeRange
  | 0, _ => []
  | fuel + 1, i =>
    if i < selected.length then
      if selected.getD i false then
        ⟨position i, position (runStop selected i)⟩ ::
          if runStop selected i ≤ i then []
          else mergeRuns selected position fuel (runStop selected i)
      else mergeRuns selected position fuel (i + 1)
    else []

namespace Ring

def position (ring : Ring) (i : ℕ) : ℕ := (ring.positions.map Prod.fst).getD i 0

/-- Arc `i` ends at the position after position `i`. -/
def selected (ring : Ring) (node : NodeId) : List Bool :=
  (List.range ring.positions.length).map fun i =>
    decide (node ∈ ring.lookup (ring.position ((i + 1) % ring.positions.length)))

def rangesOwnedBy (ring : Ring) (node : NodeId) : List VnodeRange :=
  if ring.positions = [] then []
  else if (ring.selected node).any id = false then []
  else if (ring.selected node).all id then [⟨0, 0⟩]
  else mergeRuns (ring.selected node) ring.position (ring.selected node).length 0

end Ring

/-! ### Runs of indices -/

section

variable {selected : List Bool}

/-- A range of arcs that are all selected, with an arc behind it that is not. -/
structure IsRun (selected : List Bool) (r : VnodeRange) : Prop where
  start_lt : r.start < selected.length
  stop_lt : r.stop < selected.length
  ne : r.start ≠ r.stop
  stops : selected.getD r.stop false = false
  inside : ∀ j < selected.length, r.contains j = true → selected.getD j false = true

lemma succ_mod_eq {i m : ℕ} (hi : i < m) : (i + 1) % m = if i + 1 = m then 0 else i + 1 := by
  split_ifs with hlast
  · rw [hlast, Nat.mod_self]
  · exact Nat.mod_eq_of_lt (by omega)

lemma isRun_runEnd {u : ℕ} (hu : u < selected.length) (hnot : selected.getD u false = false) {i : ℕ}
    (hi : i < selected.length) (fuel : ℕ) {stop : ℕ} (hstop : stop < selected.length)
    (hne : i ≠ stop) (hfuel : stop < i → i - stop ≤ fuel)
    (hfuel' : i < stop → i + selected.length - stop ≤ fuel)
    (hinside : ∀ j < selected.length, VnodeRange.contains ⟨i, stop⟩ j = true →
      selected.getD j false = true) :
    IsRun selected ⟨i, runEnd selected i fuel stop⟩ := by
  induction fuel generalizing stop with
  | zero => omega
  | succ fuel ih =>
    rw [runEnd]
    by_cases hsel : selected.getD stop false = true
    · rw [if_pos ⟨hne.symm, hsel⟩]
      rw [succ_mod_eq hstop]
      have hne' : i ≠ if stop + 1 = selected.length then 0 else stop + 1 := by
        intro heq
        -- the whole circle would be selected
        have hother : u ≠ stop := by
          rintro rfl
          rw [hsel] at hnot
          cases hnot
        have hall := hinside u hu ((VnodeRange.contains_iff hne).mpr (by
          simp only
          split_ifs at heq <;> omega))
        rw [hall] at hnot
        cases hnot
      refine ih (by split_ifs <;> omega) hne' (by split_ifs <;> omega)
        (by split_ifs <;> omega) fun j hj hcontains => ?_
      rw [VnodeRange.contains_iff hne'] at hcontains
      rcases eq_or_ne j stop with rfl | hj'
      · exact hsel
      · refine hinside j hj ((VnodeRange.contains_iff hne).mpr ?_)
        simp only at hcontains ⊢
        split_ifs at hcontains <;> omega
    · rw [if_neg fun h => hsel h.2]
      exact ⟨hi, hstop, hne, by simpa using hsel, hinside⟩

lemma isRun_of_selected {u i : ℕ} (hu : u < selected.length) (hnot : selected.getD u false = false)
    (hi : i < selected.length) (hsel : selected.getD i false = true) :
    IsRun selected ⟨i, runStop selected i⟩ := by
  have hother : u ≠ i := by
    rintro rfl
    rw [hsel] at hnot
    cases hnot
  have hne : i ≠ (i + 1) % selected.length := by
    rw [succ_mod_eq hi]
    split_ifs <;> omega
  refine isRun_runEnd hu hnot hi _ (Nat.mod_lt _ (by omega)) hne (by omega) (by omega)
    fun j hj hcontains => ?_
  rw [VnodeRange.contains_iff hne] at hcontains
  have hji : j = i := by
    rw [succ_mod_eq hi] at hcontains
    simp only at hcontains
    split_ifs at hcontains <;> omega
  rw [hji, hsel]

lemma mergeRuns_eq_map (selected : List Bool) (position : ℕ → ℕ) (fuel i : ℕ) :
    mergeRuns selected position fuel i =
      (mergeRuns selected id fuel i).map fun r => ⟨position r.start, position r.stop⟩ := by
  induction fuel generalizing i with
  | zero => rfl
  | succ fuel ih =>
    rw [mergeRuns, mergeRuns]
    split_ifs
    · rfl
    · simp [ih]
    · exact ih _
    · rfl

variable {u : ℕ} (hu : u < selected.length) (hnot : selected.getD u false = false)
include hu hnot

lemma isRun_of_mem {fuel i : ℕ} {r : VnodeRange} (hr : r ∈ mergeRuns selected id fuel i) :
    i ≤ r.start ∧ IsRun selected r := by
  induction fuel generalizing i with
  | zero => simp [mergeRuns] at hr
  | succ fuel ih =>
    rw [mergeRuns] at hr
    split_ifs at hr with hi hsel hwrap
    · rw [mem_singleton.mp hr]
      exact ⟨le_rfl, isRun_of_selected hu hnot hi hsel⟩
    · rcases mem_cons.mp hr with rfl | hr
      · exact ⟨le_rfl, isRun_of_selected hu hnot hi hsel⟩
      · obtain ⟨hle, hrun⟩ := ih hr
        exact ⟨by omega, hrun⟩
    · obtain ⟨hle, hrun⟩ := ih hr
      exact ⟨by omega, hrun⟩
    · simp at hr

lemma exists_run {fuel i j : ℕ} (hfuel : selected.length ≤ i + fuel) (hij : i ≤ j)
    (hj : j < selected.length) (hsel : selected.getD j false = true) :
    ∃ r ∈ mergeRuns selected id fuel i, r.contains j = true := by
  induction fuel generalizing i with
  | zero => omega
  | succ fuel ih =>
    have hi : i < selected.length := by omega
    rw [mergeRuns, if_pos hi]
    split_ifs with hsel' hwrap
    · have hrun := isRun_of_selected hu hnot hi hsel'
      refine ⟨_, mem_singleton_self _, (VnodeRange.contains_iff hrun.ne).mpr ?_⟩
      have hne := hrun.ne
      simp only at hne ⊢
      omega
    · have hrun := isRun_of_selected hu hnot hi hsel'
      by_cases hbefore : j < runStop selected i
      · exact ⟨_, mem_cons_self, (VnodeRange.contains_iff hrun.ne).mpr (.inl ⟨hij, hbefore⟩)⟩
      · obtain ⟨r, hr, hcontains⟩ := @ih (runStop selected i) (by omega) (by omega)
        exact ⟨r, mem_cons_of_mem _ hr, hcontains⟩
    · have hne : i ≠ j := by
        rintro rfl
        exact hsel' hsel
      exact ih (by omega) (by omega)

lemma pairwise_runs (hends : ¬(selected.getD 0 false = true ∧
      selected.getD (selected.length - 1) false = true)) (fuel i : ℕ) :
    (mergeRuns selected id fuel i).Pairwise fun r r' =>
      ∀ j < selected.length, ¬(r.contains j = true ∧ r'.contains j = true) := by
  induction fuel generalizing i with
  | zero => exact List.Pairwise.nil
  | succ fuel ih =>
    rw [mergeRuns]
    split_ifs with hi hsel hwrap
    · exact pairwise_singleton _ _
    · have hrun := isRun_of_selected hu hnot hi hsel
      refine pairwise_cons.mpr ⟨fun r hr j hj hboth => ?_, ih _⟩
      obtain ⟨hle, hrun'⟩ := isRun_of_mem hu hnot hr
      have hfirst := (VnodeRange.contains_iff hrun.ne).mp hboth.1
      have hsecond := (VnodeRange.contains_iff hrun'.ne).mp hboth.2
      simp only at hfirst
      -- the second range goes round, so the last arc and the first one are selected
      refine hends ⟨hrun'.inside 0 (by omega) ?_, hrun'.inside _ (by omega) ?_⟩
      · exact (VnodeRange.contains_iff hrun'.ne).mpr (by omega)
      · exact (VnodeRange.contains_iff hrun'.ne).mpr (by have := hrun'.start_lt; omega)
    · exact ih _
    · exact List.Pairwise.nil

lemma overlap_of_ends (hfirst : selected.getD 0 false = true)
    (hlast : selected.getD (selected.length - 1) false = true) :
    ∃ r r' rest, mergeRuns selected id selected.length 0 = r :: rest ∧ r' ∈ rest ∧
      r.contains 0 = true ∧ r'.contains 0 = true := by
  obtain ⟨fuel, hfuel⟩ : ∃ fuel, selected.length = fuel + 1 := ⟨selected.length - 1, by omega⟩
  have h0 : 0 < selected.length := by omega
  have hrun := isRun_of_selected hu hnot h0 hfirst
  have hne := hrun.ne
  have hstop := hrun.stop_lt
  generalize hs : runStop selected 0 = stop at hrun hne hstop
  simp only at hne hstop
  have hlt : stop < selected.length - 1 := by
    have hne' : stop ≠ selected.length - 1 := by
      rintro rfl
      have := hrun.stops
      rw [hlast] at this
      cases this
    omega
  have hfuel' : selected.length ≤ stop + fuel := by omega
  obtain ⟨r', hr', hcontains⟩ := exists_run hu hnot hfuel' hlt.le (by omega) hlast
  obtain ⟨hle, hrun'⟩ := isRun_of_mem hu hnot hr'
  refine ⟨⟨0, stop⟩, r', mergeRuns selected id fuel stop, ?_, hr', ?_, ?_⟩
  · conv_lhs => rw [hfuel]
    rw [mergeRuns, if_pos h0, if_pos hfirst, hs, if_neg (by omega)]
    rfl
  · exact (VnodeRange.contains_iff hrun.ne).mpr (by simp only; omega)
  · -- it holds the last arc, so it goes round, and it cannot end at index 0
    have hstop' : r'.stop ≠ 0 := by
      intro heq
      have := hrun'.stops
      rw [heq, hfirst] at this
      cases this
    have hlt' := hrun'.stop_lt
    rw [VnodeRange.contains_iff hrun'.ne] at hcontains ⊢
    omega

end

/-! ### Arcs -/

namespace Ring

variable {ring : Ring} {h i j : ℕ} {node : NodeId}

/-- How many positions are below a hash. -/
def below (ring : Ring) (h : ℕ) : ℕ := (ring.positions.takeWhile fun p => p.1 < h).length

lemma position_eq (hi : i < ring.positions.length) :
    ring.position i = (ring.positions.get ⟨i, hi⟩).1 := by
  simp [position, getD_eq_getElem?_getD, hi]

lemma lt_length_takeWhile {l : List (ℕ × NodeId)} (hl : l.Pairwise fun p q => p.1 < q.1) :
    i < (l.takeWhile fun p => p.1 < h).length ↔ ∃ p ∈ l[i]?, p.1 < h := by
  induction l generalizing i with
  | nil => simp
  | cons p rest ih =>
    obtain ⟨hp, hrest⟩ := pairwise_cons.mp hl
    by_cases hlt : p.1 < h
    · cases i with
      | zero => simp [hlt]
      | succ i => simpa [hlt] using ih hrest
    · rw [takeWhile_cons_of_neg (by simpa using hlt)]
      refine iff_of_false (Nat.not_lt_zero i) ?_
      rintro ⟨q, hq, hqh⟩
      rcases mem_cons.mp (mem_of_getElem? hq) with rfl | hq
      · exact hlt hqh
      · exact hlt ((hp q hq).trans hqh)

lemma lt_below_iff : i < ring.below h ↔ i < ring.positions.length ∧ ring.position i < h := by
  rw [below, lt_length_takeWhile ring.sorted]
  constructor
  · rintro ⟨p, hp, hlt⟩
    obtain ⟨hi, rfl⟩ := List.getElem?_eq_some_iff.mp hp
    exact ⟨hi, by rwa [position_eq hi]⟩
  · rintro ⟨hi, hlt⟩
    rw [position_eq hi] at hlt
    exact ⟨_, getElem?_eq_getElem hi, hlt⟩

lemma below_le : ring.below h ≤ ring.positions.length := (takeWhile_sublist _).length_le

lemma position_lt_iff (hi : i < ring.positions.length) (hj : j < ring.positions.length) :
    ring.position i < ring.position j ↔ i < j := by
  have hmono : ∀ {i j}, i < j → j < ring.positions.length → ring.position i < ring.position j := by
    intro i j hij hj
    have hi : i < ring.positions.length := hij.trans hj
    have hlt := pairwise_iff_getElem.mp ring.sorted i j hi hj hij
    rwa [position_eq hi, position_eq hj]
  constructor
  · intro hlt
    by_contra hge
    rcases eq_or_lt_of_le (not_lt.mp hge) with rfl | hgt
    · exact lt_irrefl _ hlt
    · exact lt_asymm hlt (hmono hgt hi)
  · exact fun hij => hmono hij hj

lemma below_position (hj : j < ring.positions.length) : ring.below (ring.position j) = j := by
  have hbelow : ∀ i, i < ring.below (ring.position j) ↔ i < j := by
    intro i
    rw [lt_below_iff]
    constructor
    · rintro ⟨hi, hlt⟩
      exact (position_lt_iff hi hj).mp hlt
    · intro hij
      exact ⟨hij.trans hj, (position_lt_iff (hij.trans hj) hj).mpr hij⟩
  have h1 := hbelow j
  have h2 := hbelow (ring.below (ring.position j))
  omega

lemma lookup_eq (hlen : 0 < ring.positions.length) (h : ℕ) :
    ring.lookup h = ring.lookup (ring.position (ring.below h % ring.positions.length)) := by
  have hbelow := below_position (Nat.mod_lt (ring.below h) hlen)
  have hrotate : ∀ h, ring.lookup h = collect ring.replicationFactor.toNat []
      ((ring.positions.rotate (ring.below h)).map Prod.snd) := fun _ => rfl
  rw [hrotate, hrotate, hbelow, rotate_mod]

/-- The index of the arc of a hash; an arc begins with its first position. -/
def arc (ring : Ring) (h : ℕ) : ℕ :=
  if ring.below (h + 1) = 0 then ring.positions.length - 1 else ring.below (h + 1) - 1

lemma arc_lt (hlen : 0 < ring.positions.length) : ring.arc h < ring.positions.length := by
  have hle : ring.below (h + 1) ≤ ring.positions.length := below_le
  unfold arc
  split_ifs <;> omega

lemma arc_position (hj : j < ring.positions.length) : ring.arc (ring.position j) = j := by
  have hbelow : ∀ i, i < ring.below (ring.position j + 1) ↔ i ≤ j := by
    intro i
    rw [lt_below_iff]
    constructor
    · rintro ⟨hi, hlt⟩
      by_contra hgt
      have := (position_lt_iff hj hi).mpr (not_le.mp hgt)
      omega
    · intro hij
      rcases eq_or_lt_of_le hij with rfl | hij
      · exact ⟨hj, Nat.lt_succ_self _⟩
      · have hlt := (position_lt_iff (hij.trans hj) hj).mpr hij
        exact ⟨hij.trans hj, hlt.trans (Nat.lt_succ_self _)⟩
  have h1 := hbelow j
  have h2 := hbelow (j + 1)
  unfold arc
  split_ifs <;> omega

lemma contains_arc (hi : i < ring.positions.length) (hj : j < ring.positions.length) (hne : i ≠ j) :
    VnodeRange.contains ⟨ring.position i, ring.position j⟩ h =
      VnodeRange.contains ⟨i, j⟩ (ring.arc h) := by
  have hij := position_lt_iff hi hj
  have hji := position_lt_iff hj hi
  have hi' : i < ring.below (h + 1) ↔ _ := lt_below_iff
  have hj' : j < ring.below (h + 1) ↔ _ := lt_below_iff
  have hle : ring.below (h + 1) ≤ ring.positions.length := below_le
  rw [Bool.eq_iff_iff, VnodeRange.contains_iff (by simp only; omega),
    VnodeRange.contains_iff (by simpa using hne), arc]
  simp only
  split_ifs <;> omega

/-! ### The ranges of a node -/

@[simp] lemma length_selected (ring : Ring) (node : NodeId) :
    (ring.selected node).length = ring.positions.length := by
  simp [selected]

lemma getD_selected (hi : i < ring.positions.length) :
    (ring.selected node).getD i false = true ↔
      node ∈ ring.lookup (ring.position ((i + 1) % ring.positions.length)) := by
  simp [selected, getD_eq_getElem?_getD, hi]

lemma selected_arc (hlen : 0 < ring.positions.length) (hh : h ∉ ring.positions.map Prod.fst) :
    (ring.selected node).getD (ring.arc h) false = true ↔ node ∈ ring.lookup h := by
  have hsame : ring.below (h + 1) = ring.below h := by
    have hiff : ∀ i, i < ring.below (h + 1) ↔ i < ring.below h := by
      intro i
      rw [lt_below_iff, lt_below_iff]
      refine and_congr_right fun hi => ?_
      have hne : ring.position i ≠ h := by
        rintro rfl
        rw [position_eq hi] at hh
        exact hh (mem_map_of_mem (get_mem _ _))
      omega
    have h1 := hiff (ring.below h)
    have h2 := hiff (ring.below (h + 1))
    omega
  have hnext : (ring.arc h + 1) % ring.positions.length = ring.below h % ring.positions.length := by
    rw [arc, hsame]
    split_ifs with hzero
    · rw [hzero, Nat.sub_add_cancel hlen, Nat.mod_self, Nat.zero_mod]
    · rw [Nat.sub_add_cancel (by omega)]
  rw [getD_selected (arc_lt hlen), hnext, ← lookup_eq hlen]

/-- If the node holds the arcs on both sides of the first position, it holds all arcs. -/
def SeamOk (ring : Ring) (node : NodeId) : Prop :=
  ∀ p ∈ ring.positions[0]?, ∀ q ∈ ring.positions[1]?, node ∈ ring.lookup p.1 →
    node ∈ ring.lookup q.1 → ∀ x ∈ ring.positions, node ∈ ring.lookup x.1

instance (ring : Ring) (node : NodeId) : Decidable (ring.SeamOk node) :=
  inferInstanceAs (Decidable (∀ p ∈ ring.positions[0]?, ∀ q ∈ ring.positions[1]?, _ → _ →
    ∀ x ∈ ring.positions, _))

/-- The range of hashes of a range of arcs. -/
def toRange (ring : Ring) (r : VnodeRange) : VnodeRange :=
  ⟨ring.position r.start, ring.position r.stop⟩

lemma contains_toRange {r : VnodeRange} (hr : IsRun (ring.selected node) r) :
    (ring.toRange r).contains h = r.contains (ring.arc h) := by
  have hstart := hr.start_lt
  have hstop := hr.stop_lt
  rw [length_selected] at hstart hstop
  exact contains_arc hstart hstop hr.ne

lemma rangesOwnedBy_cases (hpos : ring.positions ≠ []) (node : NodeId) :
    (ring.rangesOwnedBy node = [] ∧
        ∀ i < ring.positions.length, (ring.selected node).getD i false = false) ∨
      (ring.rangesOwnedBy node = [⟨0, 0⟩] ∧
        ∀ i < ring.positions.length, (ring.selected node).getD i false = true) ∨
      (∃ u < ring.positions.length, (ring.selected node).getD u false = false) ∧
        ring.rangesOwnedBy node =
          (mergeRuns (ring.selected node) id ring.positions.length 0).map ring.toRange := by
  have hget : ∀ i < ring.positions.length,
      (ring.selected node).getD i false ∈ ring.selected node := by
    intro i hi
    have hi' : i < (ring.selected node).length := by rwa [length_selected]
    rw [getD_eq_getElem _ _ hi']
    exact getElem_mem hi'
  rw [rangesOwnedBy, if_neg hpos]
  split_ifs with hnone hall
  · refine .inl ⟨rfl, fun i hi => ?_⟩
    exact Bool.eq_false_iff.mpr (any_eq_false.mp hnone _ (hget i hi))
  · exact .inr (.inl ⟨rfl, fun i hi => all_eq_true.mp hall _ (hget i hi)⟩)
  · refine .inr (.inr ⟨?_, ?_⟩)
    · obtain ⟨x, hx, hfalse⟩ := all_eq_false.mp (Bool.eq_false_iff.mpr hall)
      obtain ⟨u, hu, rfl⟩ := getElem_of_mem hx
      refine ⟨u, by rwa [length_selected] at hu, ?_⟩
      rw [getD_eq_getElem _ _ hu]
      exact Bool.eq_false_iff.mpr hfalse
    · rw [mergeRuns_eq_map, length_selected]
      rfl

lemma exists_range_iff (hh : h ∉ ring.positions.map Prod.fst) :
    (∃ r ∈ ring.rangesOwnedBy node, rangeContains r h = true) ↔ node ∈ ring.lookup h := by
  by_cases hpos : ring.positions = []
  · simp [rangesOwnedBy, lookup, hpos, collect]
  have hlen := length_pos_of_ne_nil hpos
  rw [← selected_arc hlen hh]
  have harc : ring.arc h < ring.positions.length := arc_lt hlen
  rcases rangesOwnedBy_cases hpos node with ⟨heq, hnone⟩ | ⟨heq, hall⟩ | ⟨⟨u, hu, hnot⟩, heq⟩
  · rw [heq, hnone _ harc]
    simp
  · rw [heq, hall _ harc]
    simp [rangeContains, VnodeRange.contains]
  · rw [← length_selected] at hu
    rw [heq]
    simp only [mem_map, exists_exists_and_eq_and, rangeContains]
    constructor
    · rintro ⟨r, hr, hcontains⟩
      obtain ⟨-, hrun⟩ := isRun_of_mem hu hnot hr
      rw [contains_toRange hrun] at hcontains
      exact hrun.inside _ (by rwa [length_selected]) hcontains
    · intro hsel
      have hfuel : (ring.selected node).length ≤ 0 + ring.positions.length := by simp
      obtain ⟨r, hr, hcontains⟩ := exists_run hu hnot hfuel (Nat.zero_le _)
        (by rwa [length_selected]) hsel
      obtain ⟨-, hrun⟩ := isRun_of_mem hu hnot hr
      exact ⟨r, hr, by rwa [contains_toRange hrun]⟩

lemma forall_selected_iff (hlen : 0 < ring.positions.length) :
    (∀ i < ring.positions.length, (ring.selected node).getD i false = true) ↔
      ∀ x ∈ ring.positions, node ∈ ring.lookup x.1 := by
  constructor
  · intro hall x hx
    obtain ⟨j, hj, rfl⟩ := getElem_of_mem hx
    have hprev : ((j + ring.positions.length - 1) % ring.positions.length + 1) %
        ring.positions.length = j := by
      rw [Nat.mod_add_mod, Nat.sub_add_cancel (by omega), Nat.add_mod_right, Nat.mod_eq_of_lt hj]
    have hsel := (getD_selected (Nat.mod_lt _ hlen)).mp
      (hall ((j + ring.positions.length - 1) % ring.positions.length) (Nat.mod_lt _ hlen))
    rwa [hprev, position_eq hj] at hsel
  · intro hall i hi
    rw [getD_selected hi, position_eq (Nat.mod_lt _ hlen)]
    exact hall _ (get_mem _ _)

lemma seamOk_iff (hlen : 0 < ring.positions.length) :
    ring.SeamOk node ↔ ((ring.selected node).getD 0 false = true ∧
      (ring.selected node).getD (ring.positions.length - 1) false = true →
      ∀ i < ring.positions.length, (ring.selected node).getD i false = true) := by
  rw [getD_selected (by omega : ring.positions.length - 1 < _), Nat.sub_add_cancel hlen,
    Nat.mod_self]
  rcases Nat.lt_or_ge 1 ring.positions.length with hlt | hle
  · rw [forall_selected_iff hlen, getD_selected hlen, Nat.mod_eq_of_lt (by omega), position_eq hlen,
      position_eq hlt, SeamOk, getElem?_eq_getElem hlen, getElem?_eq_getElem hlt]
    simp only [Option.mem_def, Option.some.injEq, forall_eq', get_eq_getElem]
    tauto
  · -- with one position both are the same arc
    have hone : ring.positions[1]? = none := getElem?_eq_none hle
    refine iff_of_true (by simp [SeamOk, hone]) fun hends i hi => ?_
    rw [show i = 0 by omega]
    exact hends.1

lemma not_disjoint_of_ends {u : ℕ} (hu : u < (ring.selected node).length)
    (hnot : (ring.selected node).getD u false = false)
    (hspace : ∀ p ∈ ring.positions, p.1 < hashSpace)
    (hfirst : (ring.selected node).getD 0 false = true)
    (hlast : (ring.selected node).getD ((ring.selected node).length - 1) false = true) :
    ¬(mergeRuns (ring.selected node) id (ring.selected node).length 0).Pairwise fun r r' =>
      (ring.toRange r).Disjoint (ring.toRange r') := by
  intro hdisjoint
  have hlen : 0 < ring.positions.length := by
    rw [length_selected] at hu
    omega
  obtain ⟨r, r', rest, hruns, hr', h0, h0'⟩ := overlap_of_ends hu hnot hfirst hlast
  have hrun := (isRun_of_mem hu hnot (hruns ▸ mem_cons_self : r ∈ _)).2
  have hrun' := (isRun_of_mem hu hnot (hruns ▸ mem_cons_of_mem _ hr' : r' ∈ _)).2
  have hposition : ring.position 0 < hashSpace := by
    rw [position_eq hlen]
    exact hspace _ (get_mem _ _)
  rw [hruns] at hdisjoint
  refine (pairwise_cons.mp hdisjoint).1 r' hr' (ring.position 0) hposition ⟨?_, ?_⟩
  · rwa [contains_toRange hrun, arc_position hlen]
  · rwa [contains_toRange hrun', arc_position hlen]

lemma disjoint_of_not_ends {u : ℕ} (hu : u < (ring.selected node).length)
    (hnot : (ring.selected node).getD u false = false)
    (hends : ¬((ring.selected node).getD 0 false = true ∧
      (ring.selected node).getD ((ring.selected node).length - 1) false = true)) :
    (mergeRuns (ring.selected node) id (ring.selected node).length 0).Pairwise fun r r' =>
      (ring.toRange r).Disjoint (ring.toRange r') := by
  have hlen := Nat.zero_lt_of_lt (hu.trans_eq (length_selected ring node))
  refine (pairwise_runs hu hnot hends _ _).imp_of_mem fun hr hr' hdisjoint h _ hboth => ?_
  rw [contains_toRange (isRun_of_mem hu hnot hr).2,
    contains_toRange (isRun_of_mem hu hnot hr').2] at hboth
  refine hdisjoint _ ?_ hboth
  rw [length_selected]
  exact arc_lt hlen

lemma pairwise_disjoint_iff (hspace : ∀ p ∈ ring.positions, p.1 < hashSpace) :
    (ring.rangesOwnedBy node).Pairwise VnodeRange.Disjoint ↔ ring.SeamOk node := by
  by_cases hpos : ring.positions = []
  · simp [rangesOwnedBy, SeamOk, hpos]
  have hlen := length_pos_of_ne_nil hpos
  rw [seamOk_iff hlen]
  rcases rangesOwnedBy_cases hpos node with ⟨heq, hnone⟩ | ⟨heq, hall⟩ | ⟨⟨u, hu, hnot⟩, heq⟩
  · rw [heq, hnone 0 hlen]
    simp
  · rw [heq]
    exact iff_of_true (pairwise_singleton _ _) fun _ => hall
  · rw [heq, pairwise_map]
    rw [← length_selected ring node] at hu ⊢
    constructor
    · rintro hdisjoint ⟨hfirst, hlast⟩
      exact absurd hdisjoint (not_disjoint_of_ends hu hnot hspace hfirst hlast)
    · intro hseam
      refine disjoint_of_not_ends hu hnot fun hends => ?_
      rw [hseam hends u hu] at hnot
      cases hnot

end Ring

/-- **The ranges of a node partition what it serves**, exactly where it does not hold the arcs on
both sides of the first position, or holds all arcs. -/
theorem ranges_partition_iff (ring : Ring) (node : NodeId)
    (hspace : ∀ p ∈ ring.positions, p.1 < hashSpace) :
    ((ring.rangesOwnedBy node).Pairwise VnodeRange.Disjoint ∧
      ∀ h < hashSpace, h ∉ ring.positions.map Prod.fst →
        ((∃ r ∈ ring.rangesOwnedBy node, rangeContains r h = true) ↔ node ∈ ring.lookup h)) ↔
      ring.SeamOk node :=
  (and_iff_left fun _ _ hh => Ring.exists_range_iff hh).trans (Ring.pairwise_disjoint_iff hspace)

/-- A ring of two nodes with one copy of each key. -/
def twoNodeRing (p₁ p₂ p₃ : NodeId) : Ring :=
  ⟨[(10, p₁), (20, p₂), (30, p₃)], by simp, 1⟩

/-- Node 1 holds the hashes from 10 to 30. -/
theorem ranges_of_inner_run :
    (twoNodeRing 2 1 1).rangesOwnedBy 1 = [⟨10, 30⟩] ∧
      ((twoNodeRing 2 1 1).rangesOwnedBy 1).Pairwise VnodeRange.Disjoint :=
  ⟨by decide, ((ranges_partition_iff (twoNodeRing 2 1 1) 1 (by decide)).mpr (by decide)).1⟩

/-- **A run through the end of the ring is returned twice**: node 1 holds the hashes from 30 over
the end to 20, and the range from 10 to 20 comes on its own as well. -/
theorem wrapped_run_twice :
    (twoNodeRing 1 1 2).rangesOwnedBy 1 = [⟨10, 20⟩, ⟨30, 20⟩] ∧
      ¬((twoNodeRing 1 1 2).rangesOwnedBy 1).Pairwise VnodeRange.Disjoint := by
  have heq : (twoNodeRing 1 1 2).rangesOwnedBy 1 = [⟨10, 20⟩, ⟨30, 20⟩] := by decide
  refine ⟨heq, ?_⟩
  rw [heq]
  intro hdisjoint
  have h10 := (pairwise_cons.mp hdisjoint).1 ⟨30, 20⟩ (by decide) 10 (by decide)
  exact h10 (by decide)

end OceanFs.Routing
