import Mathlib.Algebra.Ring.Nat
import Mathlib.Data.List.Basic
import Mathlib.Data.List.Induction
import Mathlib.Data.Nat.Log
import Mathlib.Logic.Function.Iterate

/-!
Hash trees over a list of digests.

A level is made from the one below by hashing its digests in pairs; a last digest without a partner
is paired with itself. When no two pairs that are hashed collide, lists of one length with the same
root are equal. For lists of different lengths this fails: a last digest that is paired with itself
and one that is there twice give the same root.

A path goes from a node to the root through the siblings of the nodes on it. With a sibling at each
level the path hashes to the root, and without collisions it is the only one of its length.
-/

namespace OceanFs.Lib.Merkle

open List Option

variable {δ : Type} (node : δ → δ → δ)

/-- The pairs of a level. -/
def pairs : List δ → List (δ × δ)
  | a :: b :: rest => (a, b) :: pairs rest
  | [a] => [(a, a)]
  | [] => []

variable (l : List δ)

/-- The level above. -/
def parents : List δ := (pairs l).map fun p => node p.1 p.2

/-- Levels until one digest is left. A tree has fewer levels than leaves. -/
def root : ℕ → List δ → Option δ
  | 0, l => l.head?
  | levels + 1, l => if l.length ≤ 1 then l.head? else root levels (parents node l)

/-- All pairs that are hashed for a root. -/
def hashedPairs : ℕ → List δ → List (δ × δ)
  | 0, _ => []
  | levels + 1, l =>
    if l.length ≤ 1 then [] else pairs l ++ hashedPairs levels (parents node l)

lemma length_pairs : ∀ l : List δ, (pairs l).length = (l.length + 1) / 2
  | a :: b :: rest => by
    rw [pairs, length_cons, length_pairs rest, length_cons, length_cons]
    omega
  | [a] => by simp [pairs]
  | [] => by simp [pairs]

@[simp] lemma length_parents : (parents node l).length = (l.length + 1) / 2 := by
  rw [parents, length_map, length_pairs]

lemma pairs_inj : ∀ {l l' : List δ}, l.length = l'.length → pairs l = pairs l' → l = l'
  | a :: b :: rest, a' :: b' :: rest', hlen, h => by
    rw [pairs, pairs, cons.injEq, Prod.mk.injEq] at h
    obtain ⟨⟨rfl, rfl⟩, hrest⟩ := h
    rw [pairs_inj (by simpa using hlen) hrest]
  | [a], [a'], _, h => by
    rw [pairs, pairs, cons.injEq, Prod.mk.injEq] at h
    rw [h.1.1]
  | [], [], _, _ => rfl
  | [], _ :: _, hlen, _ => by simp at hlen
  | _ :: _, [], hlen, _ => by simp at hlen
  | [_], _ :: _ :: _, hlen, _ => by simp at hlen
  | _ :: _ :: _, [_], hlen, _ => by simp at hlen

lemma isSome_root {levels : ℕ} {l : List δ} (h : l ≠ []) :
    (root node levels l).isSome = true := by
  induction levels generalizing l with
  | zero => rwa [root, isSome_head?]
  | succ levels ih =>
    rw [root]
    split_ifs with hone
    · rwa [isSome_head?]
    · refine ih (ne_nil_of_length_pos ?_)
      rw [length_parents]
      omega

variable {node}

theorem root_inj {levels : ℕ} {l l' : List δ} (hlen : l.length = l'.length)
    (hlevels : l.length ≤ levels + 1)
    (hinj : ∀ p ∈ hashedPairs node levels l, ∀ q ∈ hashedPairs node levels l',
      node p.1 p.2 = node q.1 q.2 → p = q)
    (h : root node levels l = root node levels l') : l = l' := by
  induction levels generalizing l l' with
  | zero =>
    have hsingle : ∀ x : List δ, x.length ≤ 1 → x = x.head?.toList := by
      intro x hx
      rcases x with _ | ⟨a, _ | ⟨b, x⟩⟩
      · rfl
      · rfl
      · simp at hx
    rw [hsingle l hlevels, hsingle l' (hlen ▸ hlevels)]
    exact congrArg Option.toList h
  | succ levels ih =>
    by_cases hone : l.length ≤ 1
    · rcases l with _ | ⟨a, _ | ⟨b, l⟩⟩
      · exact (eq_nil_of_length_eq_zero hlen.symm).symm
      · obtain ⟨a', rfl⟩ := length_eq_one_iff.mp hlen.symm
        simpa [root] using h
      · simp at hone
    · have hone' : ¬ l'.length ≤ 1 := hlen ▸ hone
      rw [root, root, if_neg hone, if_neg hone'] at h
      simp only [hashedPairs, if_neg hone, if_neg hone'] at hinj
      have hparents : parents node l = parents node l' :=
        ih (by simp [hlen]) (by simp; omega)
          (fun p hp q hq => hinj p (mem_append_right _ hp) q (mem_append_right _ hq)) h
      have hpairs : pairs l = pairs l' := by
        refine ext_getElem (by rw [length_pairs, length_pairs, hlen]) fun i hi hi' => ?_
        refine hinj _ (mem_append_left _ (getElem_mem hi)) _
          (mem_append_left _ (getElem_mem hi')) ?_
        have hget := congrArg (·[i]?) hparents
        simpa [parents, hi, hi'] using hget
      exact pairs_inj hlen hpairs

/-! ### Levels -/

variable (node)

/-- The level at height `h`. -/
def level (h : ℕ) (l : List δ) : List δ := (parents node)^[h] l

/-- All levels from the leaves to the root. -/
def levels : ℕ → List δ → List (List δ)
  | 0, l => [l]
  | fuel + 1, l => if l.length ≤ 1 then [l] else l :: levels fuel (parents node l)

@[simp] lemma level_zero : level node 0 l = l := rfl

lemma level_succ (h : ℕ) (l : List δ) : level node (h + 1) l = parents node (level node h l) :=
  Function.iterate_succ_apply' ..

lemma level_parents (h : ℕ) (l : List δ) : level node h (parents node l) = level node (h + 1) l :=
  (Function.iterate_succ_apply ..).symm

@[simp] lemma length_level (h : ℕ) (l : List δ) :
    (level node h l).length = (l.length + 2 ^ h - 1) / 2 ^ h := by
  induction h with
  | zero => simp
  | succ h ih =>
    have hpos : 0 < 2 ^ h := Nat.two_pow_pos h
    rw [level_succ, length_parents, ih, ← Nat.add_div_right _ hpos, Nat.div_div_eq_div_mul,
      Nat.pow_succ]
    congr 1
    omega

lemma clog_half {n : ℕ} (h : ¬ n ≤ 1) : Nat.clog 2 n = Nat.clog 2 ((n + 1) / 2) + 1 :=
  Nat.clog_of_two_le Nat.one_lt_two (by omega)

lemma levels_eq {fuel : ℕ} {l : List δ} (h : l.length ≤ fuel + 1) :
    levels node fuel l =
      (List.range (Nat.clog 2 l.length + 1)).map fun h => level node h l := by
  induction fuel generalizing l with
  | zero =>
    rw [levels, Nat.clog_of_right_le_one h]
    rfl
  | succ fuel ih =>
    rw [levels]
    split_ifs with hone
    · rw [Nat.clog_of_right_le_one hone]
      rfl
    · rw [ih (by rw [length_parents]; omega), length_parents, clog_half hone,
        range_succ_eq_map (n := Nat.clog 2 ((l.length + 1) / 2) + 1), map_cons,
        List.map_map, level_zero]
      simp only [Function.comp_def, level_parents]

lemma root_eq {fuel : ℕ} {l : List δ} (h : l.length ≤ fuel + 1) :
    root node fuel l = (level node (Nat.clog 2 l.length) l)[0]? := by
  induction fuel generalizing l with
  | zero => rw [root, Nat.clog_of_right_le_one h, level_zero, head?_eq_getElem?]
  | succ fuel ih =>
    rw [root]
    split_ifs with hone
    · rw [Nat.clog_of_right_le_one hone, level_zero, head?_eq_getElem?]
    · rw [ih (by rw [length_parents]; omega), length_parents, clog_half hone, level_parents]

lemma pairs_level_subset {fuel h : ℕ} {l : List δ} (hfuel : l.length ≤ fuel + 1)
    (hh : h < Nat.clog 2 l.length) : pairs (level node h l) ⊆ hashedPairs node fuel l := by
  induction fuel generalizing h l with
  | zero => simp [Nat.clog_of_right_le_one hfuel] at hh
  | succ fuel ih =>
    have hone : ¬ l.length ≤ 1 := fun hone => by simp [Nat.clog_of_right_le_one hone] at hh
    rw [hashedPairs, if_neg hone]
    cases h with
    | zero => exact subset_append_left ..
    | succ h =>
      rw [clog_half hone] at hh
      rw [← level_parents]
      have hsub : pairs (level node h (parents node l)) ⊆ hashedPairs node fuel (parents node l) :=
        ih (by rw [length_parents]; omega) (by rw [length_parents]; omega)
      exact subset_append_of_subset_right _ hsub

/-! ### Paths -/

/-- The index of the other node of a pair. -/
def sibling (j : ℕ) : ℕ := if j % 2 = 0 then j + 1 else j - 1

/-- The pair of the node at index `j` and its sibling. -/
def paired (j : ℕ) (a s : δ) : δ × δ := if j % 2 = 0 then (a, s) else (s, a)

def hashed (p : δ × δ) : δ := node p.1 p.2

/-- The hash at the end of a path from the node `a` at index `j`. -/
def walk : List δ → ℕ → δ → δ
  | [], _, a => a
  | s :: rest, j, a => walk rest (j / 2) (hashed node (paired j a s))

/-- The pairs that are hashed on a path. -/
def walkPairs : List δ → ℕ → δ → List (δ × δ)
  | [], _, _ => []
  | s :: rest, j, a => paired j a s :: walkPairs rest (j / 2) (hashed node (paired j a s))

/-- The siblings on the way up from leaf `i`, below height `h`. -/
def siblingsBelow (i h : ℕ) : List δ :=
  (List.range h).flatMap fun j => ((level node j l)[sibling (i / 2 ^ j)]?).toList

lemma siblingsBelow_succ (i h : ℕ) :
    siblingsBelow node l i (h + 1) =
      siblingsBelow node l i h ++ ((level node h l)[sibling (i / 2 ^ h)]?).toList := by
  simp [siblingsBelow, range_succ]

lemma walk_concat (sibs : List δ) (s : δ) (j : ℕ) (a : δ) :
    walk node (sibs ++ [s]) j a =
      hashed node (paired (j / 2 ^ sibs.length) (walk node sibs j a) s) := by
  induction sibs generalizing j a with
  | nil => simp [walk]
  | cons t sibs ih =>
    rw [cons_append, walk, ih, walk, length_cons, Nat.div_div_eq_div_mul, ← Nat.pow_succ']

lemma walkPairs_concat (sibs : List δ) (s : δ) (j : ℕ) (a : δ) :
    walkPairs node (sibs ++ [s]) j a =
      walkPairs node sibs j a ++ [paired (j / 2 ^ sibs.length) (walk node sibs j a) s] := by
  induction sibs generalizing j a with
  | nil => simp [walk, walkPairs]
  | cons t sibs ih =>
    rw [cons_append, walkPairs, ih, walk, walkPairs, length_cons, Nat.div_div_eq_div_mul,
      ← Nat.pow_succ', cons_append]

/-- A node's pair: its sibling is the node itself if there is none. -/
lemma getElem?_pairs : ∀ {l : List δ} {j : ℕ} {a : δ}, l[j]? = some a →
    (pairs l)[j / 2]? = some (paired j a (l[sibling j]?.getD a))
  | [], j, a, h => by simp at h
  | [b], 0, a, h => by
    obtain rfl : b = a := by simpa using h
    simp [pairs, paired, sibling]
  | [b], j + 1, a, h => by simp at h
  | b :: c :: rest, 0, a, h => by
    obtain rfl : b = a := by simpa using h
    simp [pairs, paired, sibling]
  | b :: c :: rest, 1, a, h => by
    obtain rfl : c = a := by simpa using h
    simp [pairs, paired, sibling]
  | b :: c :: rest, j + 2, a, h => by
    have hrest : rest[j]? = some a := by simpa using h
    have hsib : (b :: c :: rest)[sibling (j + 2)]? = rest[sibling j]? := by
      unfold sibling
      rw [Nat.add_mod_right]
      split_ifs with heven
      · rfl
      · obtain ⟨m, rfl⟩ : ∃ m, j = m + 1 := ⟨j - 1, by omega⟩
        rfl
    rw [pairs, Nat.add_div_right j Nat.zero_lt_two, getElem?_cons_succ, getElem?_pairs hrest, hsib]
    simp only [paired, Nat.add_mod_right]

lemma getElem?_parents {l : List δ} {j : ℕ} {a : δ} (h : l[j]? = some a) :
    (parents node l)[j / 2]? = some (hashed node (paired j a (l[sibling j]?.getD a))) := by
  rw [parents, getElem?_map, getElem?_pairs h]
  rfl

lemma paired_mem_pairs {l : List δ} {j : ℕ} {a : δ} (h : l[j]? = some a) :
    paired j a (l[sibling j]?.getD a) ∈ pairs l :=
  mem_of_getElem? (getElem?_pairs h)

variable {node}

lemma paired_inj {j : ℕ} {a b s t : δ} (h : paired j a s = paired j b t) : a = b ∧ s = t := by
  unfold paired at h
  split_ifs at h
  · exact Prod.mk.inj h
  · exact (Prod.mk.inj h).symm

lemma eq_of_paired_eq {j j' : ℕ} {a b s : δ} (h : paired j a s = paired j' b s) : a = b := by
  unfold paired at h
  split_ifs at h <;> grind

lemma getElem?_level_succ {l : List δ} {i h : ℕ} {a : δ}
    (ha : (level node h l)[i / 2 ^ h]? = some a) :
    (level node (h + 1) l)[i / 2 ^ (h + 1)]? = some (hashed node
      (paired (i / 2 ^ h) a ((level node h l)[sibling (i / 2 ^ h)]?.getD a))) := by
  rw [level_succ, Nat.pow_succ, ← Nat.div_div_eq_div_mul]
  exact getElem?_parents node ha

lemma exists_getElem?_level (node : δ → δ → δ) {l : List δ} {i : ℕ} (hi : i < l.length) (h : ℕ) :
    ∃ x, (level node h l)[i / 2 ^ h]? = some x := by
  induction h with
  | zero => exact ⟨l[i], by simp [hi]⟩
  | succ h ih =>
    obtain ⟨x, hx⟩ := ih
    exact ⟨_, getElem?_level_succ hx⟩

theorem walk_siblingsBelow {l : List δ} {i h : ℕ} {a : δ} (ha : l[i]? = some a)
    (hpaired : ∀ j < h, sibling (i / 2 ^ j) < (level node j l).length) :
    (siblingsBelow node l i h).length = h ∧
      (level node h l)[i / 2 ^ h]? = some (walk node (siblingsBelow node l i h) i a) := by
  induction h with
  | zero => exact ⟨rfl, by simpa [siblingsBelow, walk] using ha⟩
  | succ h ih =>
    obtain ⟨hlen, hnode⟩ := ih fun j hj => hpaired j (by omega)
    obtain ⟨s, hs⟩ : ∃ s, (level node h l)[sibling (i / 2 ^ h)]? = some s :=
      ⟨_, getElem?_eq_getElem (hpaired h (by omega))⟩
    have hsplit : siblingsBelow node l i (h + 1) = siblingsBelow node l i h ++ [s] := by
      rw [siblingsBelow_succ, hs, toList_some]
    refine ⟨by rw [hsplit, length_append, hlen, length_singleton], ?_⟩
    rw [getElem?_level_succ hnode, hs, hsplit, walk_concat, hlen, getD_some]

theorem leaf_of_walk {l sibs : List δ} {i : ℕ} {a : δ} (hi : i < l.length)
    (hinj : ∀ p ∈ walkPairs node sibs i a, ∀ j < sibs.length, ∀ q ∈ pairs (level node j l),
      hashed node p = hashed node q → p = q)
    (h : (level node sibs.length l)[i / 2 ^ sibs.length]? = some (walk node sibs i a)) :
    l[i]? = some a := by
  induction sibs using List.reverseRecOn with
  | nil => simpa [walk] using h
  | append_singleton sibs s ih =>
    simp only [length_append, length_singleton, walkPairs_concat, walk_concat] at hinj h
    have hlt : i / 2 ^ sibs.length < (level node sibs.length l).length := by
      rw [length_level]
      have hpos : 0 < 2 ^ sibs.length := Nat.two_pow_pos _
      calc i / 2 ^ sibs.length < i / 2 ^ sibs.length + 1 := Nat.lt_succ_self _
        _ = (i + 2 ^ sibs.length) / 2 ^ sibs.length := (Nat.add_div_right _ hpos).symm
        _ ≤ (l.length + 2 ^ sibs.length - 1) / 2 ^ sibs.length :=
          Nat.div_le_div_right (by omega)
    obtain ⟨b, hb⟩ : ∃ b, (level node sibs.length l)[i / 2 ^ sibs.length]? = some b :=
      ⟨_, getElem?_eq_getElem hlt⟩
    rw [getElem?_level_succ hb, some.injEq] at h
    have hpair := hinj _ (mem_append_right _ (mem_singleton_self _)) sibs.length
      (Nat.lt_succ_self _) _ (paired_mem_pairs hb) h.symm
    have hwalk : walk node sibs i a = b := (paired_inj hpair).1
    refine ih (fun p hp j hj q hq => hinj p (mem_append_left _ hp) j (by omega) q hq) ?_
    rw [hb, hwalk]

theorem eq_of_node_eq {l l' : List δ} {h p : ℕ} (hlen : l.length = l'.length)
    (hinj : ∀ j < h, ∀ q ∈ pairs (level node j l), ∀ q' ∈ pairs (level node j l'),
      hashed node q = hashed node q' → q = q')
    (heq : (level node h l)[p / 2 ^ h]? = (level node h l')[p / 2 ^ h]?) : l[p]? = l'[p]? := by
  by_cases hp : p < l.length
  · induction h with
    | zero => simpa using heq
    | succ h ih =>
      obtain ⟨a, ha⟩ := exists_getElem?_level node hp h
      obtain ⟨b, hb⟩ := exists_getElem?_level node (hlen ▸ hp) h
      rw [getElem?_level_succ ha, getElem?_level_succ hb, some.injEq] at heq
      have hpair := hinj h (Nat.lt_succ_self h) _ (paired_mem_pairs ha) _ (paired_mem_pairs hb) heq
      refine ih (fun j hj => hinj j (by omega)) ?_
      rw [ha, hb, (paired_inj hpair).1]
  · rw [getElem?_eq_none (by omega), getElem?_eq_none (by omega)]

/-! ### Paths without a sibling at some level -/

lemma mem_siblingsBelow {l : List δ} {i h : ℕ} {s : δ} (hs : s ∈ siblingsBelow node l i h) :
    ∃ j < h, (level node j l)[sibling (i / 2 ^ j)]? = some s := by
  simpa [siblingsBelow] using hs

section

-- no digest of the tree is hashed, directly or over several levels, from itself
variable {rank : δ → ℕ} {l : List δ} {i h : ℕ}
  (hrank : ∀ j < h, ∀ p ∈ pairs (level node j l),
    rank p.1 < rank (hashed node p) ∧ rank p.2 < rank (hashed node p))
include hrank

lemma rank_lt_succ {j : ℕ} (hj : j < h) {x s y : δ} (hx : (level node j l)[i / 2 ^ j]? = some x)
    (hs : (level node j l)[sibling (i / 2 ^ j)]?.getD x = s)
    (hy : (level node (j + 1) l)[i / 2 ^ (j + 1)]? = some y) :
    rank x < rank y ∧ rank s < rank y := by
  rw [getElem?_level_succ hx, hs, some.injEq] at hy
  have hlt := hrank j hj _ (paired_mem_pairs hx)
  rw [hs, hy] at hlt
  unfold paired at hlt
  split_ifs at hlt
  · exact hlt
  · exact hlt.symm

variable (hi : i < l.length)
include hi

lemma rank_le_above {j m : ℕ} (hjm : j ≤ m) (hm : m ≤ h) {x y : δ}
    (hx : (level node j l)[i / 2 ^ j]? = some x) (hy : (level node m l)[i / 2 ^ m]? = some y) :
    rank x ≤ rank y := by
  induction m, hjm using Nat.le_induction generalizing y with
  | base => rw [some.inj (hx.symm.trans hy)]
  | succ m hjm ih =>
    obtain ⟨z, hz⟩ := exists_getElem?_level node hi m
    exact (ih (by omega) hz).trans (rank_lt_succ hrank hm hz rfl hy).1.le

omit hrank in
/-- A node without a sibling is hashed with itself, which a path without a sibling there misses. -/
lemma hashed_ne_walk {a x : δ} (ha : l[i]? = some a) (hx : (level node h l)[i / 2 ^ h]? = some x)
    (hnone : (level node h l)[sibling (i / 2 ^ h)]? = none)
    (hrank : ∀ j < h + 1, ∀ p ∈ pairs (level node j l),
      rank p.1 < rank (hashed node p) ∧ rank p.2 < rank (hashed node p))
    (hinj : ∀ p ∈ walkPairs node (siblingsBelow node l i h) i a, ∀ q ∈ pairs (level node h l),
      hashed node p = hashed node q → p = q) :
    hashed node (paired (i / 2 ^ h) x x) ≠ walk node (siblingsBelow node l i h) i a := by
  intro hwalk
  have hmem := paired_mem_pairs hx
  have hnext := getElem?_level_succ hx
  rw [hnone, getD_none] at hmem hnext
  rcases eq_nil_or_concat (siblingsBelow node l i h) with hnil | ⟨sibs, s, hsibs⟩
  · -- the path has stayed at the leaf
    rw [hnil, walk] at hwalk
    rw [hwalk] at hnext
    have hlt : rank x < rank a := (rank_lt_succ hrank (Nat.lt_succ_self h) hx rfl hnext).1
    have hle : rank a ≤ rank x :=
      rank_le_above hrank hi (Nat.zero_le h) (Nat.le_succ h) (by simpa using ha) hx
    omega
  · -- the last sibling, of a level below, would be `x`
    rw [concat_eq_append] at hsibs
    rw [hsibs, walkPairs_concat] at hinj
    rw [hsibs, walk_concat] at hwalk
    have hpair := hinj _ (mem_append_right _ (mem_singleton_self _)) _ hmem hwalk.symm
    have hsx : s = x := by
      unfold paired at hpair
      split_ifs at hpair <;> grind
    have hs : s ∈ siblingsBelow node l i h := by rw [hsibs]; simp
    obtain ⟨j, hj, hsj⟩ := mem_siblingsBelow hs
    obtain ⟨z, hz⟩ := exists_getElem?_level node hi j
    obtain ⟨y, hy⟩ := exists_getElem?_level node hi (j + 1)
    have hlt : rank s < rank y :=
      (rank_lt_succ hrank (by omega) hz (by rw [hsj, getD_some]) hy).2
    have hle : rank y ≤ rank x := rank_le_above hrank hi hj (Nat.le_succ h) hy hx
    rw [hsx] at hlt
    omega

theorem paired_of_walk {a : δ} (ha : l[i]? = some a)
    (hinj : ∀ p ∈ walkPairs node (siblingsBelow node l i h) i a, ∀ j < h,
      ∀ q ∈ pairs (level node j l), hashed node p = hashed node q → p = q)
    (hwalk : (level node h l)[i / 2 ^ h]? = some (walk node (siblingsBelow node l i h) i a)) :
    ∀ j < h, sibling (i / 2 ^ j) < (level node j l).length := by
  induction h with
  | zero => intro j hj; omega
  | succ h ih =>
    obtain ⟨x, hx⟩ := exists_getElem?_level node hi h
    rw [getElem?_level_succ hx, some.injEq] at hwalk
    cases hs : (level node h l)[sibling (i / 2 ^ h)]? with
    | some s =>
      have hsplit : siblingsBelow node l i (h + 1) = siblingsBelow node l i h ++ [s] := by
        rw [siblingsBelow_succ, hs, toList_some]
      rw [hsplit, walkPairs_concat] at hinj
      rw [hs, hsplit, walk_concat, getD_some] at hwalk
      have hmem := paired_mem_pairs hx
      rw [hs, getD_some] at hmem
      have hpair := hinj _ (mem_append_right _ (mem_singleton_self _)) h
        (Nat.lt_succ_self h) _ hmem hwalk.symm
      have hbelow := ih (fun j hj => hrank j (by omega))
        (fun p hp j hj => hinj p (mem_append_left _ hp) j (by omega))
        (by rw [hx, eq_of_paired_eq hpair])
      intro j hj
      rcases Nat.lt_succ_iff_lt_or_eq.mp hj with hj | rfl
      · exact hbelow j hj
      · exact (List.getElem?_eq_some_iff.mp hs).1
    | none =>
      have hsplit : siblingsBelow node l i (h + 1) = siblingsBelow node l i h := by
        rw [siblingsBelow_succ, hs, toList_none, append_nil]
      rw [hsplit] at hinj
      rw [hs, hsplit, getD_none] at hwalk
      exact absurd hwalk (hashed_ne_walk hi ha hx hs hrank
        fun p hp q hq => hinj p hp h (Nat.lt_succ_self h) q hq)

end

/-! ### Trees of one digest -/

variable (node) in
/-- A digest that is hashed with itself, `h` times over. -/
def doubled (h : ℕ) (a : δ) : δ := (fun x => node x x)^[h] a

lemma doubled_succ (h : ℕ) (a : δ) :
    doubled node (h + 1) a = node (doubled node h a) (doubled node h a) :=
  Function.iterate_succ_apply' ..

lemma doubled_add (h k : ℕ) (a : δ) : doubled node (h + k) a = doubled node h (doubled node k a) :=
  Function.iterate_add_apply ..

lemma pairs_replicate (a : δ) :
    ∀ n, pairs (List.replicate n a) = List.replicate ((n + 1) / 2) (a, a)
  | 0 => rfl
  | 1 => rfl
  | n + 2 => by
    have hhalf : (n + 2 + 1) / 2 = (n + 1) / 2 + 1 := by omega
    rw [hhalf, replicate_succ, replicate_succ, replicate_succ, pairs, pairs_replicate a n]

lemma level_replicate (h n : ℕ) (a : δ) :
    level node h (List.replicate n a) =
      List.replicate ((n + 2 ^ h - 1) / 2 ^ h) (doubled node h a) := by
  refine eq_replicate_iff.mpr ⟨by simp, ?_⟩
  induction h with
  | zero => exact fun b hb => eq_of_mem_replicate hb
  | succ h ih =>
    intro b hb
    rw [level_succ, parents, eq_replicate_iff.mpr ⟨rfl, ih⟩, pairs_replicate, map_replicate] at hb
    rw [eq_of_mem_replicate hb, doubled_succ]

lemma mem_hashedPairs_replicate {fuel n : ℕ} {a : δ} (hfuel : n ≤ fuel + 1) {p : δ × δ}
    (hp : p ∈ hashedPairs node fuel (List.replicate n a)) :
    ∃ j < Nat.clog 2 n, p = (doubled node j a, doubled node j a) := by
  induction fuel generalizing n a with
  | zero => simp [hashedPairs] at hp
  | succ fuel ih =>
    rw [hashedPairs, length_replicate] at hp
    split_ifs at hp with hone
    · simp at hp
    · rw [clog_half hone]
      rcases mem_append.mp hp with hp | hp
      · rw [pairs_replicate] at hp
        exact ⟨0, by omega, eq_of_mem_replicate hp⟩
      · rw [parents, pairs_replicate, map_replicate] at hp
        obtain ⟨j, hj, rfl⟩ := ih (by omega) hp
        exact ⟨j + 1, by omega, by rw [doubled_add j 1]; rfl⟩

/-- The siblings of a path through a tree of one digest. -/
def doubledSiblings (node : δ → δ → δ) (k : ℕ) (a : δ) : List δ :=
  (List.range k).map fun j => doubled node j a

@[simp] lemma paired_self (j : ℕ) (a : δ) : paired j a a = (a, a) := by
  simp [paired]

lemma walk_doubledSiblings (node : δ → δ → δ) (k i : ℕ) (a : δ) :
    walk node (doubledSiblings node k a) i a = doubled node k a ∧
      ∀ p ∈ walkPairs node (doubledSiblings node k a) i a,
        ∃ j < k, p = (doubled node j a, doubled node j a) := by
  induction k with
  | zero => exact ⟨rfl, by simp [doubledSiblings, walkPairs]⟩
  | succ k ih =>
    obtain ⟨hwalk, hpairs⟩ := ih
    have hsplit : doubledSiblings node (k + 1) a =
        doubledSiblings node k a ++ [doubled node k a] := by
      simp [doubledSiblings, range_succ]
    rw [hsplit, walk_concat, walkPairs_concat, hwalk, paired_self]
    refine ⟨(doubled_succ k a).symm, fun p hp => ?_⟩
    rcases mem_append.mp hp with hp | hp
    · obtain ⟨j, hj, rfl⟩ := hpairs p hp
      exact ⟨j, by omega, rfl⟩
    · exact ⟨k, Nat.lt_succ_self k, mem_singleton.mp hp⟩

end OceanFs.Lib.Merkle
