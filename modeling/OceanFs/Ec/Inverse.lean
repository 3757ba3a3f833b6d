import Mathlib.Data.List.OfFn
import Mathlib.LinearAlgebra.Matrix.NonsingularInverse
import OceanFs.Ec.Gf
import OceanFs.Lib.GaussJordan

/-!
The inversion of a matrix over the field of 256 elements.

Column by column, a row with a nonzero entry is brought up, scaled, and subtracted from the
others. On a matrix without kernel this never runs out of pivots, and what it returns is a left
inverse.
-/

namespace OceanFs.Ec

open Lib.GaussJordan Submodule List

/-! ### The algorithm -/

def entry (rows : List (List Gf8)) (i j : ℕ) : Gf8 := (rows.getD i []).getD j 0

/-- The matrix `[A | I]`. -/
def augment (matrix : List (List Gf8)) : List (List Gf8) :=
  let n := matrix.length
  (List.range n).map fun i =>
    (List.range n).map (entry matrix i) ++ (List.range n).map fun j => if j = i then 1 else 0

/-- The first row from `col` on with a nonzero entry in the column. -/
def pivotRow (n : ℕ) (aug : List (List Gf8)) (col : ℕ) : Option ℕ :=
  (List.range' col (n - col)).find? fun row => entry aug row col ≠ 0

def swapRows (aug : List (List Gf8)) (a b : ℕ) : List (List Gf8) :=
  (aug.set a (aug.getD b [])).set b (aug.getD a [])

/-- A row without its multiple of the pivot row. -/
def reducedRow (col : ℕ) (pivot r : List Gf8) : List Gf8 :=
  let factor := r.getD col 0
  if factor = 0 then r else List.zipWith (fun a p => a + factor * p) r pivot

/-- Row `col` is normalized and the column is eliminated from the others. The pivot is not zero,
so that its inverse exists. -/
def clearColumn (aug : List (List Gf8)) (col : ℕ) : List (List Gf8) :=
  let inv := (entry aug col col)⁻¹
  let pivot := (aug.getD col []).map (· * inv)
  aug.mapIdx fun row r => if row = col then pivot else reducedRow col pivot r

/-- One round of the elimination. -/
def eliminateColumn (n : ℕ) (aug : List (List Gf8)) (col : ℕ) : Option (List (List Gf8)) :=
  (pivotRow n aug col).map fun p => clearColumn (swapRows aug col p) col

/-- `invert_matrix`; `none` is returned for a singular matrix. -/
def invertMatrix (matrix : List (List Gf8)) : Option (List (List Gf8)) :=
  let n := matrix.length
  ((List.range n).foldlM (eliminateColumn n) (augment matrix)).map fun aug =>
    aug.map fun r => (List.range n).map fun j => r.getD (n + j) 0

/-! ### Rows as vectors -/

section

variable {n : ℕ} {aug aug' : List (List Gf8)}

/-- A list of `n` rows of length `w`. -/
def Shaped (n w : ℕ) (rows : List (List Gf8)) : Prop :=
  rows.length = n ∧ ∀ i < n, (rows.getD i []).length = w

def toMatrix (n : ℕ) (rows : List (List Gf8)) : Matrix (Fin n) (Fin n) Gf8 :=
  fun i j => entry rows i j

/-- The rows of an augmented matrix. -/
def augRows (n : ℕ) (aug : List (List Gf8)) : Fin n → Fin n ⊕ Fin n → Gf8 :=
  fun i => Sum.elim (fun j => entry aug i j) (fun j => entry aug i (n + j))

lemma sub_eq_add (a b : Gf8) : a - b = a + b := sub_eq_add_neg a b

lemma getD_swapRows {a b : ℕ} (ha : a < aug.length) (hb : b < aug.length) (i : ℕ) :
    (swapRows aug a b).getD i [] = aug.getD (if i = b then a else if i = a then b else i) [] := by
  unfold swapRows
  simp only [getD_eq_getElem?_getD, getElem?_set, length_set, ha, hb, if_true]
  split_ifs <;> first | rfl | omega

lemma augRows_swapRows (h : aug.length = n) (a b : Fin n) :
    augRows n (swapRows aug a b) = augRows n aug ∘ Equiv.swap a b := by
  funext i
  have hidx : (if (i : ℕ) = b then (a : ℕ) else if (i : ℕ) = a then b else i) =
      (Equiv.swap a b i : Fin n) := by
    rw [Equiv.swap_apply_def]
    split_ifs with h1 h2 h3 <;> simp_all [Fin.ext_iff]
  have hrow : (swapRows aug a b).getD i [] = aug.getD (Equiv.swap a b i : Fin n) [] := by
    rw [getD_swapRows (by omega) (by omega), hidx]
  simp only [augRows, entry, hrow, Function.comp_apply]

lemma shaped_swapRows {a b w : ℕ} (h : Shaped n w aug) (ha : a < n) (hb : b < n) :
    Shaped n w (swapRows aug a b) := by
  obtain ⟨hlen, hrows⟩ := h
  refine ⟨by simp [swapRows, hlen], fun i hi => ?_⟩
  rw [getD_swapRows (by omega) (by omega)]
  split_ifs
  · exact hrows a ha
  · exact hrows b hb
  · exact hrows i hi

/-! ### One round -/

lemma getD_reducedRow {w col j : ℕ} {pivot r : List Gf8} (hp : pivot.length = w) (hr : r.length = w)
    (hj : j < w) :
    (reducedRow col pivot r).getD j 0 = r.getD j 0 - r.getD col 0 * pivot.getD j 0 := by
  unfold reducedRow
  simp only [sub_eq_add]
  split_ifs with h
  · rw [h, zero_mul, add_zero]
  · have hjr : j < r.length := by omega
    have hjp : j < pivot.length := by omega
    simp [getD_eq_getElem?_getD, hjr, hjp]

lemma length_reducedRow {w col : ℕ} {pivot r : List Gf8} (hp : pivot.length = w)
    (hr : r.length = w) : (reducedRow col pivot r).length = w := by
  unfold reducedRow
  simp only
  split_ifs
  · exact hr
  · rw [length_zipWith, hp, hr, min_self]

lemma getD_map_mul {l : List Gf8} {j : ℕ} (hj : j < l.length) (a : Gf8) :
    (l.map (· * a)).getD j 0 = a * l.getD j 0 := by
  simp [getD_eq_getElem?_getD, hj, mul_comm]

lemma getD_clearColumn {i col : ℕ} (hi : i < aug.length) :
    (clearColumn aug col).getD i [] =
      if i = col then (aug.getD col []).map (· * (entry aug col col)⁻¹)
      else reducedRow col ((aug.getD col []).map (· * (entry aug col col)⁻¹)) (aug.getD i []) := by
  simp [clearColumn, getD_eq_getElem?_getD, hi]

lemma shaped_clearColumn {w col : ℕ} (h : Shaped n w aug) (hc : col < n) :
    Shaped n w (clearColumn aug col) := by
  obtain ⟨hlen, hrows⟩ := h
  refine ⟨by simp [clearColumn, hlen], fun i hi => ?_⟩
  have hpivot : ((aug.getD col []).map (· * (entry aug col col)⁻¹)).length = w := by
    rw [length_map]
    exact hrows col hc
  rw [getD_clearColumn (by omega)]
  split_ifs
  · exact hpivot
  · exact length_reducedRow hpivot (hrows i hi)

lemma entry_clearColumn {w i j col : ℕ} (h : Shaped n w aug) (hi : i < n) (hj : j < w)
    (hc : col < n) :
    entry (clearColumn aug col) i j =
      if i = col then (entry aug col col)⁻¹ * entry aug col j
      else entry aug i j - entry aug i col * ((entry aug col col)⁻¹ * entry aug col j) := by
  obtain ⟨hlen, hrows⟩ := h
  have hcol := hrows col hc
  rw [entry, getD_clearColumn (by omega)]
  split_ifs
  · exact getD_map_mul (by omega) _
  · rw [getD_reducedRow (by rw [length_map]; exact hcol) (hrows i hi) hj,
      getD_map_mul (by omega)]
    rfl

lemma augRows_clearColumn {col : Fin n} (h : Shaped n (n + n) aug) :
    augRows n (clearColumn aug col) = clear (augRows n aug) col (.inl col) := by
  funext i j
  rcases j with j | j
  · refine (entry_clearColumn h i.isLt (by omega) col.isLt).trans ?_
    by_cases hi : i = col <;> simp [clear, hi, augRows, Fin.val_inj]
  · refine (entry_clearColumn h i.isLt (by omega) col.isLt).trans ?_
    by_cases hi : i = col <;> simp [clear, hi, augRows, Fin.val_inj]

lemma eliminateColumn_eq_some {col : Fin n} (h : Shaped n (n + n) aug)
    (he : eliminateColumn n aug col = some aug') :
    ∃ p : Fin n, col ≤ p ∧ entry aug p col ≠ 0 ∧ Shaped n (n + n) aug' ∧
      augRows n aug' = clear (augRows n aug ∘ Equiv.swap col p) col (.inl col) := by
  obtain ⟨p, hp, rfl⟩ := Option.map_eq_some_iff.mp he
  have hmem := mem_of_find?_eq_some hp
  have hne := find?_some hp
  rw [mem_range'_1] at hmem
  simp only [decide_eq_true_eq] at hne
  have hpn : p < n := by omega
  have hshape : Shaped n (n + n) (swapRows aug col p) := shaped_swapRows h col.isLt hpn
  refine ⟨⟨p, hpn⟩, hmem.1, hne, shaped_clearColumn hshape col.isLt, ?_⟩
  rw [augRows_clearColumn hshape, ← augRows_swapRows h.1 col ⟨p, hpn⟩]

/-! ### The whole elimination -/

/-- The first `c` columns have been cleared, and the rows still span what they did. -/
structure Reduced (A : Matrix (Fin n) (Fin n) Gf8) (c : ℕ) (aug : List (List Gf8)) : Prop where
  shaped : Shaped n (n + n) aug
  span_eq : span Gf8 (Set.range (augRows n aug)) = span Gf8 (Set.range (augmented A 1))
  done : ∀ i j : Fin n, (j : ℕ) < c → entry aug i j = if i = j then 1 else 0

lemma Reduced.step {A : Matrix (Fin n) (Fin n) Gf8} {col : Fin n} (h : Reduced A col aug)
    (he : eliminateColumn n aug col = some aug') : Reduced A (col + 1) aug' := by
  obtain ⟨p, hle, hne, hshape, hrows⟩ := eliminateColumn_eq_some h.shaped he
  set M := augRows n aug ∘ Equiv.swap col p with hM
  have hpivot : M col (.inl col) ≠ 0 := by
    simpa [hM, augRows] using hne
  refine ⟨hshape, ?_, fun i j hj => ?_⟩
  · rw [hrows, span_clear hpivot, hM, EquivLike.range_comp]
    exact h.span_eq
  · have hentry : entry aug' i j = clear M col (.inl col) i (.inl j) :=
      congrFun (congrFun hrows i) (.inl j)
    rw [hentry]
    by_cases hjc : j = col
    · subst hjc
      exact clear_col hpivot i
    · -- the column is done, and neither of the swapped rows has its one there
      have hlt : (j : ℕ) < col := by omega
      have hzero : ∀ q : Fin n, col ≤ q → augRows n aug q (.inl j) = 0 := by
        intro q hq
        refine (h.done q j hlt).trans (if_neg fun heq => ?_)
        subst heq
        exact absurd hq (not_le.mpr hlt)
      rw [clear_of_zero (by simpa [hM] using hzero p hle)]
      rcases eq_or_ne i col with rfl | hic
      · rw [hM, Function.comp_apply, Equiv.swap_apply_left, hzero p hle, if_neg (Ne.symm hjc)]
      rcases eq_or_ne i p with rfl | hip
      · rw [hM, Function.comp_apply, Equiv.swap_apply_right, hzero col le_rfl, if_neg]
        rintro rfl
        exact absurd hle (not_le.mpr hlt)
      · rw [hM, Function.comp_apply, Equiv.swap_apply_of_ne_of_ne hic hip]
        exact h.done i j hlt

lemma Reduced.exists_step {A : Matrix (Fin n) (Fin n) Gf8} {col : Fin n} (h : Reduced A col aug)
    (hA : ∀ v : Fin n → Gf8, (∀ i, ∑ j, A i j * v j = 0) → v = 0) :
    ∃ aug', eliminateColumn n aug col = some aug' := by
  cases hp : pivotRow n aug col with
  | some p => exact ⟨_, by rw [eliminateColumn, hp]; rfl⟩
  | none =>
    have hnone : ∀ i : Fin n, i ≥ col → entry aug i col = 0 := by
      intro i hi
      have hfind := find?_eq_none.mp hp i (mem_range'_1.mpr ⟨hi, by omega⟩)
      simpa using hfind
    obtain ⟨v, hv, hkill⟩ := exists_kernel_of_no_pivot (M := toMatrix n aug)
      (fun j hj i => h.done i j hj) hnone
    exact absurd (hA v (mulVec_eq_zero_of_span h.span_eq hkill)) hv

variable {matrix : List (List Gf8)}

lemma entry_augment {i j : ℕ} (hi : i < matrix.length) (hj : j < matrix.length) :
    entry (augment matrix) i j = entry matrix i j ∧
      entry (augment matrix) i (matrix.length + j) = if j = i then 1 else 0 := by
  simp [entry, augment, getD_eq_getElem?_getD, hi, hj, getElem?_append]

lemma reduced_augment (h : matrix.length = n) :
    Reduced (toMatrix n matrix) 0 (augment matrix) := by
  subst h
  refine ⟨⟨by simp [augment], fun i hi => by simp [augment, getD_eq_getElem?_getD, hi]⟩, ?_,
    fun i j hj => absurd hj (Nat.not_lt_zero _)⟩
  congr 2
  funext i j
  rcases j with j | j
  · exact (entry_augment i.isLt j.isLt).1
  · refine (entry_augment i.isLt j.isLt).2.trans ?_
    simp [augmented, Matrix.one_apply, Fin.ext_iff, eq_comm]

lemma exists_reduced (h : matrix.length = n)
    (hA : ∀ v : Fin n → Gf8, (∀ i, ∑ j, toMatrix n matrix i j * v j = 0) → v = 0) {c : ℕ}
    (hc : c ≤ n) :
    ∃ aug, (List.range c).foldlM (eliminateColumn n) (augment matrix) = some aug ∧
      Reduced (toMatrix n matrix) c aug := by
  induction c with
  | zero => exact ⟨_, rfl, reduced_augment h⟩
  | succ c ih =>
    obtain ⟨aug, hfold, hred⟩ := ih (by omega)
    have hred : Reduced (toMatrix n matrix) (⟨c, hc⟩ : Fin n) aug := hred
    obtain ⟨aug', hstep⟩ := hred.exists_step hA
    refine ⟨aug', ?_, hred.step hstep⟩
    rw [range_succ, foldlM_append, hfold]
    simpa using hstep

theorem invertMatrix_of_injective (h : matrix.length = n)
    (hA : ∀ v : Fin n → Gf8, (∀ i, ∑ j, toMatrix n matrix i j * v j = 0) → v = 0) :
    ∃ inv, invertMatrix matrix = some inv ∧ Shaped n n inv ∧
      toMatrix n inv * toMatrix n matrix = 1 := by
  obtain ⟨aug, hfold, hred⟩ := exists_reduced h hA le_rfl
  refine ⟨_, by rw [invertMatrix, h, hfold]; rfl, ⟨by simp [hred.shaped.1], fun i hi => ?_⟩, ?_⟩
  · simp [getD_eq_getElem?_getD, hred.shaped.1, hi]
  · refine mul_eq_one_of_span ?_
    rw [← hred.span_eq]
    congr 2
    funext i j
    rcases j with j | j
    · exact (hred.done i j j.isLt).symm
    · have hi : (i : ℕ) < aug.length := by
        rw [hred.shaped.1]
        exact i.isLt
      simp [augmented, augRows, toMatrix, entry, getD_eq_getElem?_getD, hi]

end

end OceanFs.Ec
