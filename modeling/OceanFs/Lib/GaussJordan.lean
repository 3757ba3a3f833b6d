import Mathlib.Data.Matrix.Mul
import Mathlib.LinearAlgebra.Span.Basic

/-!
Gauss-Jordan elimination, by what it does to the span of the rows.

A step takes a row with a nonzero entry in the column, scales it to one there and clears the
column in the other rows. The span of the rows stays, so what is linear and holds of all rows
holds before a step exactly when it holds after it. An augmented matrix that ends with the
identity on its left therefore has a left inverse on its right.
-/

namespace OceanFs.Lib.GaussJordan

open Submodule

variable {F ι κ : Type*} [Field F] [DecidableEq ι]

/-- Row `r` is scaled to one in column `c`, which is cleared in the others. -/
def clear (M : ι → κ → F) (r : ι) (c : κ) : ι → κ → F := fun i =>
  if i = r then (M r c)⁻¹ • M r else M i - M i c • (M r c)⁻¹ • M r

section

variable {M : ι → κ → F} {r : ι} {c : κ}

theorem span_clear (h : M r c ≠ 0) :
    span F (Set.range (clear M r c)) = span F (Set.range M) := by
  have hself : clear M r c r = (M r c)⁻¹ • M r := if_pos rfl
  have hother : ∀ i, i ≠ r → clear M r c i = M i - M i c • (M r c)⁻¹ • M r :=
    fun i hi => if_neg hi
  have hold : ∀ i, M i ∈ span F (Set.range M) := fun i => subset_span ⟨i, rfl⟩
  have hnew : ∀ i, clear M r c i ∈ span F (Set.range (clear M r c)) := fun i => subset_span ⟨i, rfl⟩
  refine le_antisymm (span_le.mpr ?_) (span_le.mpr ?_)
  · rintro _ ⟨i, rfl⟩
    by_cases hi : i = r
    · rw [hi, hself]
      exact smul_mem _ _ (hold r)
    · rw [hother i hi]
      exact sub_mem (hold i) (smul_mem _ _ (smul_mem _ _ (hold r)))
  · rintro _ ⟨i, rfl⟩
    by_cases hi : i = r
    · have hback : M r = M r c • clear M r c r := by rw [hself, smul_inv_smul₀ h]
      rw [hi, hback]
      exact smul_mem _ _ (hnew r)
    · have hback : M i = clear M r c i + M i c • clear M r c r := by
        rw [hother i hi, hself, sub_add_cancel]
      rw [hback]
      exact add_mem (hnew i) (smul_mem _ _ (hnew r))

lemma clear_col (h : M r c ≠ 0) (i : ι) : clear M r c i c = if i = r then 1 else 0 := by
  unfold clear
  split_ifs with hi
  · simp [h]
  · simp [h]

lemma clear_of_zero {d : κ} (h : M r d = 0) (i : ι) : clear M r c i d = M i d := by
  unfold clear
  split_ifs with hi
  · subst hi
    simp [h]
  · simp [h]

end

/-! ### Augmented square matrices -/

section

variable {n : ℕ}

/-- The rows of `[A | B]`. -/
def augmented (A B : Matrix (Fin n) (Fin n) F) : Fin n → Fin n ⊕ Fin n → F :=
  fun i => Sum.elim (A i) (B i)

/-- What the rows of `[A | 1]` have in common: the left part is the right part times `A`. -/
def relation (A : Matrix (Fin n) (Fin n) F) : Submodule F (Fin n ⊕ Fin n → F) where
  carrier := { ρ | ∀ j, ρ (.inl j) = ∑ l, ρ (.inr l) * A l j }
  zero_mem' := by simp
  add_mem' ha hb j := by
    simp only [Pi.add_apply, add_mul, Finset.sum_add_distrib, ha j, hb j]
  smul_mem' a ρ h j := by
    simp only [Pi.smul_apply, smul_eq_mul, mul_assoc, ← Finset.mul_sum, h j]

lemma span_augmented_one_le (A : Matrix (Fin n) (Fin n) F) :
    span F (Set.range (augmented A 1)) ≤ relation A := by
  refine span_le.mpr ?_
  rintro _ ⟨i, rfl⟩ j
  simp [augmented, Matrix.one_apply]

/-- **What elimination computes**: when the left part has become the identity, the right part is
a left inverse of the matrix that it started with. -/
theorem mul_eq_one_of_span {A R : Matrix (Fin n) (Fin n) F}
    (h : span F (Set.range (augmented 1 R)) = span F (Set.range (augmented A 1))) :
    R * A = 1 := by
  ext i j
  have hmem : augmented 1 R i ∈ relation A :=
    span_augmented_one_le A (h ▸ subset_span ⟨i, rfl⟩)
  exact (hmem j).symm

/-- The rows whose left part is orthogonal to `v`. -/
def annihilator (v : Fin n → F) : Submodule F (Fin n ⊕ Fin n → F) where
  carrier := { ρ | ∑ j, ρ (.inl j) * v j = 0 }
  zero_mem' := by simp
  add_mem' ha hb := by
    simp only [Set.mem_ofPred_eq, Pi.add_apply, add_mul, Finset.sum_add_distrib] at *
    rw [ha, hb, add_zero]
  smul_mem' a ρ h := by
    simp only [Set.mem_ofPred_eq, Pi.smul_apply, smul_eq_mul, mul_assoc, ← Finset.mul_sum] at *
    rw [h, mul_zero]

lemma mulVec_eq_zero_of_span {M : Fin n → Fin n ⊕ Fin n → F} {A : Matrix (Fin n) (Fin n) F}
    {v : Fin n → F} (h : span F (Set.range M) = span F (Set.range (augmented A 1)))
    (hv : ∀ i, ∑ j, M i (.inl j) * v j = 0) (i : Fin n) : ∑ j, A i j * v j = 0 := by
  have hle : span F (Set.range M) ≤ annihilator v := by
    refine span_le.mpr ?_
    rintro _ ⟨i, rfl⟩
    exact hv i
  have hmem : augmented A 1 i ∈ annihilator v := hle (h ▸ subset_span ⟨i, rfl⟩)
  exact hmem

/-- **A pivot exists**: with the first `c` columns done, a column without one gives a vector that
the rows kill. -/
lemma exists_kernel_of_no_pivot {M : Matrix (Fin n) (Fin n) F} {c : Fin n}
    (hdone : ∀ j < c, ∀ i, M i j = if i = j then 1 else 0) (hnone : ∀ i ≥ c, M i c = 0) :
    ∃ v : Fin n → F, v ≠ 0 ∧ ∀ i, ∑ j, M i j * v j = 0 := by
  refine ⟨fun j => if j = c then 1 else if j < c then -M j c else 0, fun h => ?_, fun i => ?_⟩
  · have := congrFun h c
    simp at this
  · have hterm : ∀ j, M i j * (if j = c then 1 else if j < c then -M j c else 0) =
        (if j = c then M i c else 0) + (if j = i then (if i < c then -M i c else 0) else 0) := by
      intro j
      rcases lt_trichotomy j c with hj | rfl | hj
      · rw [hdone j hj i]
        by_cases hij : j = i
        · subst hij
          simp [hj, hj.ne]
        · simp [hj.ne, hij, Ne.symm hij]
      · by_cases hij : j = i
        · subst hij
          simp
        · simp [hij]
      · by_cases hij : j = i
        · subst hij
          simp [hj.ne', hj.not_gt]
        · simp [hj.ne', hj.not_gt, hij]
    simp only [hterm, Finset.sum_add_distrib, Finset.sum_ite_eq', Finset.mem_univ, if_true]
    split_ifs with hi
    · exact add_neg_cancel _
    · rw [hnone i (not_lt.mp hi), add_zero]

end

end OceanFs.Lib.GaussJordan
