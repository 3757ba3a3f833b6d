import OceanFs.Durability.MerkleProofs
import Mathlib.Data.List.Sort

/-!
Comparing two Merkle trees leaf by leaf, and from the root down.

Both comparisons stop at equal roots, and both read the leaves that the two trees have in common.
For trees with one number of leaves they report what differs. For other trees the comparison of the
leaves reports the leaves that only the first one has if the smaller tree has at most four, and the
descent reports none of them and reads past the levels of a lower tree.
-/

namespace OceanFs.Durability.MerkleTree

open OceanFs.Core Lib Lib.Merkle Durability.Healing List

/-! ### The two comparisons -/

/-- A range of leaves, `stop` excluded. -/
structure LeafRange where
  start : ℕ
  stop : ℕ
  deriving DecidableEq

/-- The inner loop: the end of the run of differing leaves at `i`. -/
def runEnd (differs : ℕ → Bool) (maxLeaves : ℕ) : ℕ → ℕ → ℕ
  | 0, i => i
  | fuel + 1, i =>
    if i < maxLeaves ∧ differs i = true then runEnd differs maxLeaves fuel (i + 1) else i

/-- The outer loop from `i` on. -/
def divergences (differs : ℕ → Bool) (maxLeaves : ℕ) : ℕ → ℕ → List LeafRange
  | 0, _ => []
  | fuel + 1, i =>
    if i < maxLeaves then
      if differs i then
        let stop := runEnd differs maxLeaves fuel (i + 1)
        ⟨i, stop⟩ :: divergences differs maxLeaves fuel stop
      else divergences differs maxLeaves fuel (i + 1)
    else []

/-- Each range is joined to the current one if it starts where that ends. -/
def joinRanges : LeafRange → List LeafRange → List LeafRange
  | current, [] => [current]
  | current, range :: rest =>
    if range.start = current.stop then joinRanges ⟨current.start, range.stop⟩ rest
    else current :: joinRanges range rest

def coalesceRanges (ranges : List LeafRange) : List LeafRange :=
  match ranges.insertionSort (fun a b => a.start ≤ b.start) with
  | [] => []
  | current :: rest => joinRanges current rest

/-- The differing leaves among the first ones, each as a range of its own. -/
def singleRanges (differs : ℕ → Bool) (maxLeaves : ℕ) : List LeafRange :=
  ((List.range maxLeaves).filter differs).map fun i => ⟨i, i + 1⟩

variable {blake3 : Bytes → HashOutput} (t other : MerkleTree blake3)

def differs (i : ℕ) : Bool :=
  t.leafHashes[i]? ≠ other.leafHashes[i]?

def diff : List LeafRange :=
  if t.root.hash = other.root.hash then []
  else
    let maxLeaves := min t.leafHashes.length other.leafHashes.length
    if maxLeaves > 4 then coalesceRanges (singleRanges (t.differs other) maxLeaves)
    else
      divergences (t.differs other) maxLeaves maxLeaves 0 ++
        (List.range' maxLeaves (t.leafHashes.length - maxLeaves)).map fun i => ⟨i, i + 1⟩

/-- The two nodes at an index, if both levels reach that far. The other tree's level is indexed only
if this one's reaches; without that level the code panics. -/
def comparedAt (selfLevels otherLevels : List (List HashOutput)) (level nodeIdx : ℕ) :
    Option (Option (HashOutput × HashOutput)) :=
  match selfLevels[level]? with
  | none => none
  | some nodes =>
    match nodes[nodeIdx]? with
    | none => some none
    | some a =>
      match otherLevels[level]? with
      | none => none
      | some otherNodes => some (otherNodes[nodeIdx]?.map fun b => (a, b))

/-- The two calls for the children, the right one if leaves are left for it. -/
def descendChildren (inner : ℕ → ℕ → Option (List LeafRange))
    (leavesPerChildAtLevel nodeIdx leafCount : ℕ) : Option (List LeafRange) :=
  let leftLeafCount := min leavesPerChildAtLevel leafCount
  match inner (nodeIdx * 2) leftLeafCount with
  | none => none
  | some left =>
    if leafCount > leftLeafCount then
      (inner (nodeIdx * 2 + 1) (leafCount - leftLeafCount)).map (left ++ ·)
    else some left

/-- `descend_diff_inner`, or nothing if it panics. -/
def descendDiffInner (selfLevels otherLevels : List (List HashOutput)) :
    ℕ → ℕ → ℕ → Option (List LeafRange)
  | 0, nodeIdx, _ =>
    match comparedAt selfLevels otherLevels 0 nodeIdx with
    | none => none
    | some none => some []
    | some (some (a, b)) => some (if a ≠ b then [⟨nodeIdx, nodeIdx + 1⟩] else [])
  | level + 1, nodeIdx, leafCount =>
    match comparedAt selfLevels otherLevels (level + 1) nodeIdx with
    | none => none
    | some none =>
      descendChildren (descendDiffInner selfLevels otherLevels level) (2 ^ level) nodeIdx leafCount
    | some (some (a, b)) =>
      if a = b then some []
      else descendChildren (descendDiffInner selfLevels otherLevels level) (2 ^ level) nodeIdx
        leafCount

def descendDiff : Option (List LeafRange) :=
  if t.root.hash = other.root.hash then some []
  else
    let maxLevel := t.treeLevels.length - 1
    if maxLevel > 0 then
      (descendDiffInner t.treeLevels other.treeLevels maxLevel 0 t.leafHashes.length).map
        coalesceRanges
    else
      some (coalesceRanges (singleRanges (t.differs other)
        (min t.leafHashes.length other.leafHashes.length)))

/-! ### What ranges cover -/

def Covered (ranges : List LeafRange) (p : ℕ) : Prop := ∃ r ∈ ranges, r.start ≤ p ∧ p < r.stop

@[simp] lemma covered_nil (p : ℕ) : ¬ Covered [] p := by simp [Covered]

@[simp] lemma covered_cons (r : LeafRange) (ranges : List LeafRange) (p : ℕ) :
    Covered (r :: ranges) p ↔ (r.start ≤ p ∧ p < r.stop) ∨ Covered ranges p := by
  simp [Covered]

@[simp] lemma covered_append (ranges ranges' : List LeafRange) (p : ℕ) :
    Covered (ranges ++ ranges') p ↔ Covered ranges p ∨ Covered ranges' p := by
  simp only [Covered, mem_append, or_and_right, exists_or]

lemma covered_map_single (l : List ℕ) (p : ℕ) :
    Covered (l.map fun i => ⟨i, i + 1⟩) p ↔ p ∈ l := by
  simp only [Covered, mem_map, exists_exists_and_eq_and]
  constructor
  · rintro ⟨i, hi, hle, hlt⟩
    obtain rfl : i = p := by omega
    exact hi
  · exact fun hp => ⟨p, hp, le_rfl, Nat.lt_succ_self p⟩

lemma covered_singleRanges (d : ℕ → Bool) (n p : ℕ) :
    Covered (singleRanges d n) p ↔ p < n ∧ d p = true := by
  rw [singleRanges, covered_map_single, mem_filter, mem_range]

lemma covered_joinRanges {current : LeafRange} {ranges : List LeafRange}
    (h : ∀ r ∈ current :: ranges, r.start ≤ r.stop) (p : ℕ) :
    Covered (joinRanges current ranges) p ↔ Covered (current :: ranges) p := by
  induction ranges generalizing current with
  | nil => rfl
  | cons range rest ih =>
    simp only [forall_mem_cons] at h
    obtain ⟨hcur, hrange, hrest⟩ := h
    rw [joinRanges]
    split_ifs with hjoin
    · rw [ih (forall_mem_cons.mpr ⟨by simp only; omega, hrest⟩)]
      simp only [covered_cons, ← or_assoc]
      refine or_congr_left ?_
      omega
    · rw [covered_cons, ih (forall_mem_cons.mpr ⟨hrange, hrest⟩), ← covered_cons]

lemma covered_coalesceRanges {ranges : List LeafRange} (h : ∀ r ∈ ranges, r.start ≤ r.stop)
    (p : ℕ) : Covered (coalesceRanges ranges) p ↔ Covered ranges p := by
  have hperm := perm_insertionSort (fun a b : LeafRange => a.start ≤ b.start) ranges
  have hcov : Covered (ranges.insertionSort fun a b => a.start ≤ b.start) p ↔ Covered ranges p := by
    simp only [Covered, hperm.mem_iff]
  have hsorted : ∀ r ∈ ranges.insertionSort (fun a b => a.start ≤ b.start), r.start ≤ r.stop :=
    fun r hr => h r (hperm.mem_iff.mp hr)
  rw [← hcov, coalesceRanges]
  cases hs : ranges.insertionSort (fun a b => a.start ≤ b.start) with
  | nil => rfl
  | cons current rest => exact covered_joinRanges (hs ▸ hsorted) p

lemma singleRanges_ordered (d : ℕ → Bool) (n : ℕ) : ∀ r ∈ singleRanges d n, r.start ≤ r.stop := by
  intro r hr
  obtain ⟨i, -, rfl⟩ := mem_map.mp hr
  exact Nat.le_succ i

lemma runEnd_spec {d : ℕ → Bool} {n fuel i : ℕ} (hfuel : n ≤ i + fuel) :
    i ≤ runEnd d n fuel i ∧ (∀ p, i ≤ p → p < runEnd d n fuel i → p < n ∧ d p = true) := by
  induction fuel generalizing i with
  | zero => exact ⟨le_rfl, fun p h h' => absurd h' (by rw [runEnd]; omega)⟩
  | succ fuel ih =>
    rw [runEnd]
    split_ifs with hcond
    · obtain ⟨hle, hrun⟩ := ih (i := i + 1) (by omega)
      refine ⟨by omega, fun p h h' => ?_⟩
      rcases Nat.eq_or_lt_of_le h with rfl | hlt
      · exact hcond
      · exact hrun p hlt h'
    · exact ⟨le_rfl, fun p h h' => by omega⟩

lemma covered_divergences {d : ℕ → Bool} {n fuel i : ℕ} (hfuel : n ≤ i + fuel) (p : ℕ) :
    Covered (divergences d n fuel i) p ↔ i ≤ p ∧ p < n ∧ d p = true := by
  induction fuel generalizing i with
  | zero =>
    simp only [divergences, covered_nil, false_iff]
    omega
  | succ fuel ih =>
    rw [divergences]
    split_ifs with hlt hdiff
    · obtain ⟨hle, hrun⟩ := runEnd_spec (d := d) (show n ≤ i + 1 + fuel by omega)
      dsimp only
      rw [covered_cons, ih (by omega)]
      constructor
      · rintro (⟨hstart, hstop⟩ | ⟨hstop, hp⟩)
        · rcases Nat.eq_or_lt_of_le hstart with rfl | hgt
          · exact ⟨le_rfl, hlt, hdiff⟩
          · exact ⟨hstart, hrun p hgt hstop⟩
        · exact ⟨by omega, hp⟩
      · rintro ⟨hstart, hp⟩
        rcases Nat.lt_or_ge p (runEnd d n fuel (i + 1)) with hstop | hstop
        · exact .inl ⟨hstart, hstop⟩
        · exact .inr ⟨hstop, hp⟩
    · rw [ih (by omega)]
      constructor
      · rintro ⟨hle, hp⟩
        exact ⟨by omega, hp⟩
      · rintro ⟨hle, hp, hd⟩
        rcases Nat.eq_or_lt_of_le hle with rfl | hgt
        · exact absurd hd hdiff
        · exact ⟨hgt, hp, hd⟩
    · simp only [covered_nil, false_iff]
      omega

/-! ### Trees with one number of leaves -/

/-- The lists differ at a position, or only one of them has it. -/
def Differ (p : ℕ) : Prop :=
  t.leafHashes[p]? ≠ other.leafHashes[p]?

lemma differs_iff {t other : MerkleTree blake3} {p : ℕ} :
    t.differs other p = true ↔ t.Differ other p := by
  simp [differs, Differ]

/-- The pairs that are hashed for the two trees. -/
def bothPairs : List (HashOutput × HashOutput) :=
  treePairs blake3 t.leafHashes ++ treePairs blake3 other.leafHashes

section

variable {t other : MerkleTree blake3} (hlen : t.leafHashes.length = other.leafHashes.length)
include hlen

lemma height_eq : t.height = other.height := by rw [height, height, hlen]

lemma lt_of_differ {p : ℕ} (h : t.Differ other p) : p < t.leafHashes.length := by
  by_contra hp
  refine h ?_
  rw [getElem?_eq_none (by omega), getElem?_eq_none (by omega)]

lemma comparedAt_eq {h p : ℕ} (hh : h ≤ t.height) (hp : p < t.leafHashes.length) :
    ∃ a b, (level (hashPair blake3) h t.leafHashes)[p / 2 ^ h]? = some a ∧
      (level (hashPair blake3) h other.leafHashes)[p / 2 ^ h]? = some b ∧
      comparedAt t.treeLevels other.treeLevels h (p / 2 ^ h) = some (some (a, b)) := by
  obtain ⟨a, ha⟩ := exists_getElem?_level (hashPair blake3) hp h
  obtain ⟨b, hb⟩ := exists_getElem?_level (hashPair blake3) (hlen ▸ hp) h
  refine ⟨a, b, ha, hb, ?_⟩
  simp only [comparedAt, t.getElem?_treeLevels hh, ha,
    other.getElem?_treeLevels (height_eq hlen ▸ hh), hb, Option.map_some]

variable (hcoll : NoCollisions blake3 ((t.bothPairs other).map pairString))
include hcoll

lemma pair_eq_of_both {j : ℕ} (hj : j < t.height) :
    ∀ q ∈ pairs (level (hashPair blake3) j t.leafHashes),
      ∀ q' ∈ pairs (level (hashPair blake3) j other.leafHashes),
        hashed (hashPair blake3) q = hashed (hashPair blake3) q' → q = q' := by
  intro q hq q' hq' h
  have hmem : q ∈ treePairs blake3 t.leafHashes := pairs_level_subset _ (Nat.le_succ _) hj hq
  have hmem' : q' ∈ treePairs blake3 other.leafHashes :=
    pairs_level_subset _ (Nat.le_succ _) (hj.trans_eq (height_eq hlen)) hq'
  refine pairString_inj (hcoll _ ?_ _ ?_ h)
  · exact mem_map_of_mem (mem_append_left _ hmem)
  · exact mem_map_of_mem (mem_append_right _ hmem')

/-- What a descent must report of `count` leaves from `start` on. -/
def Reports (t other : MerkleTree blake3) (start count : ℕ) (ranges : List LeafRange) : Prop :=
  (∀ r ∈ ranges, r.start ≤ r.stop) ∧
    ∀ p, Covered ranges p ↔ start ≤ p ∧ p < start + count ∧ t.Differ other p

omit hlen hcoll in
lemma Reports.append {start count count' : ℕ} {ranges ranges' : List LeafRange}
    (h : t.Reports other start count ranges)
    (h' : t.Reports other (start + count) count' ranges') :
    t.Reports other start (count + count') (ranges ++ ranges') := by
  refine ⟨fun r hr => (mem_append.mp hr).elim (h.1 r) (h'.1 r), fun p => ?_⟩
  rw [covered_append, h.2, h'.2]
  constructor
  · rintro (⟨hge, hlt, hp⟩ | ⟨hge, hlt, hp⟩)
    · exact ⟨hge, by omega, hp⟩
    · exact ⟨by omega, by omega, hp⟩
  · rintro ⟨hge, hlt, hp⟩
    rcases Nat.lt_or_ge p (start + count) with hleft | hright
    · exact .inl ⟨hge, hleft, hp⟩
    · exact .inr ⟨hright, by omega, hp⟩

omit hlen hcoll in
lemma descendDiffInner_leaf {nodeIdx : ℕ} {a b : HashOutput} (ha : t.leafHashes[nodeIdx]? = some a)
    (hb : other.leafHashes[nodeIdx]? = some b) :
    t.Reports other nodeIdx 1 (if a ≠ b then [⟨nodeIdx, nodeIdx + 1⟩] else []) := by
  have hdiffer : t.Differ other nodeIdx ↔ a ≠ b := by
    rw [Differ, ha, hb, ne_eq, Option.some.injEq]
  refine ⟨by split_ifs <;> simp, fun p => ?_⟩
  split_ifs with hab
  · simp only [covered_cons, covered_nil, or_false]
    refine ⟨fun ⟨hge, hlt⟩ => ⟨hge, hlt, ?_⟩, fun ⟨hge, hlt, _⟩ => ⟨hge, hlt⟩⟩
    obtain rfl : p = nodeIdx := by omega
    exact hdiffer.mpr hab
  · simp only [covered_nil, false_iff]
    rintro ⟨hge, hlt, hp⟩
    obtain rfl : p = nodeIdx := by omega
    exact hab (hdiffer.mp hp)

omit hlen hcoll in
lemma descendChildren_reports {inner : ℕ → ℕ → Option (List LeafRange)} {h nodeIdx start count : ℕ}
    (hpos : 0 < count) (hle : count ≤ 2 ^ (h + 1)) (hstart : start = nodeIdx * 2 ^ (h + 1))
    (hinner : ∀ idx s c, s = idx * 2 ^ h → 0 < c → c ≤ 2 ^ h → s + c ≤ start + count →
      ∃ ranges, inner idx c = some ranges ∧ t.Reports other s c ranges) :
    ∃ ranges, descendChildren inner (2 ^ h) nodeIdx count = some ranges ∧
      t.Reports other start count ranges := by
  have hsize : 2 ^ (h + 1) = 2 ^ h + 2 ^ h := by rw [Nat.pow_succ, Nat.mul_two]
  have hhalf : 0 < 2 ^ h := Nat.two_pow_pos h
  have hleft : start = nodeIdx * 2 * 2 ^ h := by rw [hstart, Nat.pow_succ', Nat.mul_assoc]
  have hright : start + 2 ^ h = (nodeIdx * 2 + 1) * 2 ^ h := by rw [hleft, Nat.succ_mul]
  obtain ⟨left, hleftEq, hleftRep⟩ :=
    hinner _ start (min (2 ^ h) count) hleft (by omega) (by omega) (by omega)
  unfold descendChildren
  dsimp only
  rw [hleftEq]
  dsimp only
  split_ifs with hmore
  · have hmin : min (2 ^ h) count = 2 ^ h := by omega
    rw [hmin] at hleftRep ⊢
    obtain ⟨right, hrightEq, hrightRep⟩ :=
      hinner _ (start + 2 ^ h) (count - 2 ^ h) hright (by omega) (by omega) (by omega)
    have hsum : 2 ^ h + (count - 2 ^ h) = count := by omega
    exact ⟨left ++ right, by rw [hrightEq, Option.map_some], hsum ▸ hleftRep.append hrightRep⟩
  · have hmin : min (2 ^ h) count = count := by omega
    rw [hmin] at hleftRep
    exact ⟨left, rfl, hleftRep⟩

lemma descendDiffInner_exact {h nodeIdx start count : ℕ} (hh : h ≤ t.height)
    (hstart : start = nodeIdx * 2 ^ h) (hpos : 0 < count) (hle : count ≤ 2 ^ h)
    (hend : start + count ≤ t.leafHashes.length) :
    ∃ ranges, descendDiffInner t.treeLevels other.treeLevels h nodeIdx count = some ranges ∧
      t.Reports other start count ranges := by
  induction h generalizing nodeIdx start count with
  | zero =>
    obtain rfl : count = 1 := by omega
    obtain rfl : start = nodeIdx := by simpa using hstart
    obtain ⟨a, b, ha, hb, hcmp⟩ := comparedAt_eq hlen hh hend
    rw [Nat.pow_zero, Nat.div_one] at ha hb hcmp
    exact ⟨_, by rw [descendDiffInner, hcmp], descendDiffInner_leaf ha hb⟩
  | succ h ih =>
    obtain ⟨a, b, ha, hb, hcmp⟩ :=
      comparedAt_eq hlen hh (show start < t.leafHashes.length by omega)
    have hdiv : start / 2 ^ (h + 1) = nodeIdx := by
      rw [hstart, Nat.mul_div_cancel _ (Nat.two_pow_pos _)]
    rw [hdiv] at ha hb hcmp
    rw [descendDiffInner, hcmp]
    dsimp only
    split_ifs with hab
    · -- equal nodes have equal leaves below
      refine ⟨[], rfl, by simp, fun p => ?_⟩
      simp only [covered_nil, false_iff]
      rintro ⟨hge, hlt, hdiffer⟩
      have hp : p / 2 ^ (h + 1) = nodeIdx := by
        rw [Nat.div_eq_iff (Nat.two_pow_pos _)]
        omega
      have hnode : (level (hashPair blake3) (h + 1) t.leafHashes)[p / 2 ^ (h + 1)]? =
          (level (hashPair blake3) (h + 1) other.leafHashes)[p / 2 ^ (h + 1)]? := by
        rw [hp, ha, hb, hab]
      exact hdiffer (eq_of_node_eq hlen (fun j hj => pair_eq_of_both hlen hcoll (by omega)) hnode)
    · exact descendChildren_reports hpos hle hstart fun idx s c hs hc hc' hsc =>
        ih (by omega) hs hc hc' (by omega)

lemma leafHashes_eq_of_root (h : t.root.hash = other.root.hash) :
    t.leafHashes = other.leafHashes := by
  refine ext_getElem? fun p => ?_
  by_cases hp : p < t.leafHashes.length
  · refine eq_of_node_eq hlen (fun j hj => pair_eq_of_both hlen hcoll hj) ?_
    rw [t.root_above hp, height_eq hlen, other.root_above (hlen ▸ hp), h]
  · rw [getElem?_eq_none (by omega), getElem?_eq_none (by omega)]

lemma covered_diff (p : ℕ) : Covered (t.diff other) p ↔ t.Differ other p := by
  have hmin : min t.leafHashes.length other.leafHashes.length = t.leafHashes.length := by omega
  unfold diff
  split_ifs with hroot
  · simp [Differ, leafHashes_eq_of_root hlen hcoll hroot]
  · dsimp only
    rw [hmin]
    split_ifs
    · rw [covered_coalesceRanges (singleRanges_ordered _ _), covered_singleRanges, differs_iff]
      exact and_iff_right_of_imp (lt_of_differ hlen)
    · rw [Nat.sub_self, range'_zero, map_nil, append_nil,
        covered_divergences (by omega), differs_iff]
      exact ⟨fun h => h.2.2, fun h => ⟨Nat.zero_le p, lt_of_differ hlen h, h⟩⟩

lemma covered_descendDiff :
    ∃ ranges, t.descendDiff other = some ranges ∧ ∀ p, Covered ranges p ↔ t.Differ other p := by
  have hmin : min t.leafHashes.length other.leafHashes.length = t.leafHashes.length := by omega
  unfold descendDiff
  split_ifs with hroot
  · exact ⟨[], rfl, fun p => by simp [Differ, leafHashes_eq_of_root hlen hcoll hroot]⟩
  · dsimp only
    rw [hmin, length_treeLevels, Nat.add_sub_cancel]
    split_ifs with hheight
    · obtain ⟨ranges, heq, hordered, hcov⟩ := descendDiffInner_exact hlen hcoll le_rfl
        (Nat.zero_mul _).symm t.leaves_pos (Nat.le_pow_clog Nat.one_lt_two _)
        (Nat.zero_add _).le
      rw [heq]
      refine ⟨_, rfl, fun p => ?_⟩
      rw [covered_coalesceRanges hordered, hcov]
      exact ⟨fun h => h.2.2, fun h => ⟨Nat.zero_le p, by have := lt_of_differ hlen h; omega, h⟩⟩
    · refine ⟨_, rfl, fun p => ?_⟩
      rw [covered_coalesceRanges (singleRanges_ordered _ _), covered_singleRanges, differs_iff]
      exact and_iff_right_of_imp (lt_of_differ hlen)

end

/-! ### Trees with different numbers of leaves -/

section

variable {t other : MerkleTree blake3}

/-- The ranges are single leaves that both trees have. -/
def Common (t other : MerkleTree blake3) (ranges : List LeafRange) : Prop :=
  ∀ r ∈ ranges, r.stop = r.start + 1 ∧
    r.start < t.leafHashes.length ∧ r.start < other.leafHashes.length

lemma getElem?_treeLevels_zero (t : MerkleTree blake3) : t.treeLevels[0]? = some t.leafHashes :=
  t.getElem?_treeLevels (Nat.zero_le _)

lemma descendDiffInner_common {h nodeIdx count : ℕ} {ranges : List LeafRange}
    (heq : descendDiffInner t.treeLevels other.treeLevels h nodeIdx count = some ranges) :
    t.Common other ranges := by
  induction h generalizing nodeIdx count ranges with
  | zero =>
    rw [descendDiffInner] at heq
    simp only [comparedAt, getElem?_treeLevels_zero] at heq
    cases ha : t.leafHashes[nodeIdx]? <;> cases hb : other.leafHashes[nodeIdx]? <;>
      simp only [ha, hb, Option.map_none, Option.map_some, Option.some.injEq] at heq
    all_goals subst heq
    all_goals try exact forall_mem_nil _
    · split_ifs
      · intro r hr
        obtain rfl := mem_singleton.mp hr
        exact ⟨rfl, (List.getElem?_eq_some_iff.mp ha).1, (List.getElem?_eq_some_iff.mp hb).1⟩
      · exact forall_mem_nil _
  | succ h ih =>
    have hchildren : ∀ ranges, descendChildren (descendDiffInner t.treeLevels other.treeLevels h)
        (2 ^ h) nodeIdx count = some ranges → t.Common other ranges := by
      intro ranges hranges
      unfold descendChildren at hranges
      dsimp only at hranges
      split at hranges
      · cases hranges
      · rename_i left hleft
        split_ifs at hranges
        · obtain ⟨right, hright, rfl⟩ := Option.map_eq_some_iff.mp hranges
          exact forall_mem_append.mpr ⟨ih hleft, ih hright⟩
        · obtain rfl := Option.some.inj hranges
          exact ih hleft
    rw [descendDiffInner] at heq
    split at heq
    · cases heq
    · exact hchildren _ heq
    · split_ifs at heq
      · obtain rfl := Option.some.inj heq
        exact forall_mem_nil _
      · exact hchildren _ heq

lemma lt_of_covered_descendDiff {ranges : List LeafRange} (heq : t.descendDiff other = some ranges)
    {p : ℕ} (hp : Covered ranges p) :
    p < t.leafHashes.length ∧ p < other.leafHashes.length := by
  unfold descendDiff at heq
  split_ifs at heq
  · obtain rfl := Option.some.inj heq
    exact absurd hp (covered_nil p)
  · dsimp only at heq
    split_ifs at heq
    · obtain ⟨inner, hinner, rfl⟩ := Option.map_eq_some_iff.mp heq
      have hcommon := descendDiffInner_common hinner
      rw [covered_coalesceRanges fun r hr => (hcommon r hr).1 ▸ Nat.le_succ _] at hp
      obtain ⟨r, hr, hstart, hstop⟩ := hp
      obtain ⟨hone, hlt, hlt'⟩ := hcommon r hr
      omega
    · obtain rfl := Option.some.inj heq
      rw [covered_coalesceRanges (singleRanges_ordered _ _), covered_singleRanges] at hp
      omega

end

/-! ### Exact comparisons -/

/-- Both comparisons report exactly the positions at which the lists differ. -/
structure DiffExact : Prop where
  diff : ∀ p, Covered (t.diff other) p ↔ t.Differ other p
  empty : t.diff other = [] ↔ t.leafHashes = other.leafHashes
  descend : ∃ ranges, t.descendDiff other = some ranges ∧
    ∀ p, Covered ranges p ↔ t.Differ other p

/-- **Comparisons are exact exactly for trees with one number of leaves**, without collisions. -/
theorem diff_exact_iff {leaves leaves' : List HashOutput} {t other : MerkleTree blake3}
    (ht : buildFromHashes leaves = some t) (hother : buildFromHashes leaves' = some other)
    (hcoll : NoCollisions blake3
      ((treePairs blake3 leaves ++ treePairs blake3 leaves').map pairString)) :
    t.DiffExact other ↔ leaves.length = leaves'.length := by
  obtain rfl := leafHashes_of_buildFromHashes ht
  obtain rfl := leafHashes_of_buildFromHashes hother
  constructor
  · rintro ⟨-, -, ranges, heq, hcov⟩
    by_contra hne
    -- the first position that only one of the lists has
    set p := min t.leafHashes.length other.leafHashes.length with hp
    have hdiffer : t.Differ other p := by
      intro h
      have hiff : p < t.leafHashes.length ↔ p < other.leafHashes.length := by
        rw [← not_le, ← List.getElem?_eq_none_iff, h, List.getElem?_eq_none_iff, not_le]
      omega
    have hlt := lt_of_covered_descendDiff heq ((hcov p).mpr hdiffer)
    omega
  · intro hlen
    refine ⟨covered_diff hlen hcoll, ?_, covered_descendDiff hlen hcoll⟩
    constructor
    · intro hnil
      refine ext_getElem? fun p => ?_
      have hcov := covered_diff hlen hcoll p
      rw [hnil] at hcov
      simpa [Differ] using hcov
    · intro heq
      have hroot : t.root.hash = other.root.hash := by
        have h := other.root_eq
        rw [← heq, t.root_eq] at h
        exact Option.some.inj h
      rw [MerkleTree.diff, if_pos hroot]

/-- Two trees of three leaves that differ in the second. -/
theorem second_leaf_differs :
    ∃ t other : MerkleTree firstBytes,
      buildFromHashes [digest 1, digest 2, digest 3] = some t ∧
        buildFromHashes [digest 1, digest 4, digest 3] = some other ∧ t.DiffExact other := by
  obtain ⟨t, ht, -⟩ := exists_buildFromHashes firstBytes
    (show [digest 1, digest 2, digest 3] ≠ [] by simp)
  obtain ⟨other, hother, -⟩ := exists_buildFromHashes firstBytes
    (show [digest 1, digest 4, digest 3] ≠ [] by simp)
  exact ⟨t, other, ht, hother, (diff_exact_iff ht hother (by decide +kernel)).mpr rfl⟩

/-- What the comparisons of two lists report: the descent of three leaves against two reads a level
that is not there, and a sixth leaf is not reported. -/
theorem longer_list_not_compared :
    let compare (leaves leaves' : List HashOutput) :=
      (buildFromHashes leaves).bind fun t : MerkleTree firstBytes =>
        (buildFromHashes leaves').map fun other => (t.diff other, t.descendDiff other)
    let three := [digest 1, digest 2, digest 3]
    let five := [digest 1, digest 2, digest 3, digest 4, digest 5]
    NoCollisions firstBytes
        ((treePairs firstBytes three ++ treePairs firstBytes (three.take 2)).map pairString) ∧
      compare three (three.take 2) = some ([⟨2, 3⟩], none) ∧
      NoCollisions firstBytes
        ((treePairs firstBytes (five ++ [digest 6]) ++ treePairs firstBytes five).map pairString) ∧
      compare (five ++ [digest 6]) five = some ([], some []) := by
  decide +kernel

end OceanFs.Durability.MerkleTree
