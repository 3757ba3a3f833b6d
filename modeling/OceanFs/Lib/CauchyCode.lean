import Mathlib.Algebra.Polynomial.BigOperators
import Mathlib.Data.Finset.Sum
import Mathlib.LinearAlgebra.Lagrange

/-!
Systematic Cauchy codes over a field.

A word `v` is sent as its own coordinates and as the parities `∑ j, v j / (x j - y t)`. As long as
the points `x` and `y` are all different, a word that is zero at as many of these places as it has
coordinates is zero: multiplied by the product of the `x j - z`, the parities are the values of
one polynomial at the points `y t`, and it has more roots than its degree.
-/

namespace OceanFs.Lib.CauchyCode

open Polynomial Finset

variable {F ι κ : Type*} [Field F] [DecidableEq ι]

/-- The row of the generator matrix for a coordinate or a parity. -/
def row (x : ι → F) (y : κ → F) : ι ⊕ κ → ι → F
  | .inl i => Pi.single i 1
  | .inr t => fun j => (x j - y t)⁻¹

section

variable {x : ι → F} {y : κ → F} {v : ι → F} {J : Finset ι}

/-- The polynomial whose values at the points `y t` are the parities of a word that is zero
outside `J`, each times the product of the `x j - y t`. -/
noncomputable def numerator (x : ι → F) (v : ι → F) (J : Finset ι) : F[X] :=
  ∑ j ∈ J, C (v j) * ∏ l ∈ J.erase j, (C (x l) - X)

lemma eval_numerator (z : F) :
    (numerator x v J).eval z = ∑ j ∈ J, v j * ∏ l ∈ J.erase j, (x l - z) := by
  simp [numerator, eval_finsetSum, eval_prod]

lemma degree_numerator_lt : (numerator x v J).degree < #J := by
  refine (degree_sum_le _ _).trans_lt ((Finset.sup_lt_iff ?_).mpr fun j hj => ?_)
  · exact WithBot.bot_lt_coe _
  · have hfactor : ∀ l ∈ J.erase j, (C (x l) - X : F[X]).degree ≤ 1 :=
      fun l _ => (degree_sub_le _ _).trans (max_le (degree_C_le.trans (by simp)) degree_X_le)
    have hprod : (∏ l ∈ J.erase j, (C (x l) - X : F[X])).degree ≤ (#(J.erase j) : ℕ) := by
      refine (degree_prod_le _ _).trans ((Finset.sum_le_sum hfactor).trans ?_)
      simp
    rw [← smul_eq_C_mul]
    refine (degree_smul_le _ _).trans_lt (hprod.trans_lt ?_)
    exact_mod_cast Finset.card_erase_lt_of_mem hj

lemma eval_numerator_self {i : ι} (hi : i ∈ J) :
    (numerator x v J).eval (x i) = v i * ∏ l ∈ J.erase i, (x l - x i) := by
  rw [eval_numerator, Finset.sum_eq_single_of_mem i hi]
  intro j hj hne
  have hmem : i ∈ J.erase j := Finset.mem_erase.mpr ⟨hne.symm, hi⟩
  rw [Finset.prod_eq_zero hmem (sub_self _), mul_zero]

lemma eval_numerator_parity {t : κ} (hxy : ∀ j, x j ≠ y t) :
    (numerator x v J).eval (y t) = (∑ j ∈ J, (x j - y t)⁻¹ * v j) * ∏ l ∈ J, (x l - y t) := by
  rw [eval_numerator, Finset.sum_mul]
  refine Finset.sum_congr rfl fun j hj => ?_
  have hne : x j - y t ≠ 0 := sub_ne_zero.mpr (hxy j)
  rw [← Finset.mul_prod_erase J _ hj]
  field_simp

theorem eq_zero_of_rows [Fintype ι] (hx : Function.Injective x) (hy : Function.Injective y)
    (hxy : ∀ j t, x j ≠ y t) {S : Finset (ι ⊕ κ)} (hcard : Fintype.card ι ≤ #S)
    (h : ∀ r ∈ S, ∑ j, row x y r j * v j = 0) : v = 0 := by
  set J : Finset ι := S.toLeftᶜ with hJ
  have hout : ∀ i, i ∉ J → v i = 0 := by
    intro i hi
    have hmem : Sum.inl i ∈ S := by simpa [hJ] using hi
    simpa [row, Pi.single_apply] using h _ hmem
  have hsize : #J ≤ #S.toRight := by
    rw [hJ, Finset.card_compl]
    have := S.card_toLeft_add_card_toRight
    omega
  have hroots : ∀ t ∈ S.toRight, (numerator x v J).eval (y t) = 0 := by
    intro t ht
    have hsum := h _ (Finset.mem_toRight.mp ht)
    rw [eval_numerator_parity fun j => hxy j t,
      Finset.sum_subset (Finset.subset_univ J) fun j _ hj => by rw [hout j hj, mul_zero]]
    simp only [row] at hsum
    rw [hsum, zero_mul]
  have hzero : numerator x v J = 0 := by
    refine eq_zero_of_degree_lt_of_eval_index_eq_zero _ hy.injOn ?_ hroots
    exact degree_numerator_lt.trans_le (by exact_mod_cast hsize)
  funext i
  by_cases hi : i ∈ J
  · have hval := eval_numerator_self (x := x) (v := v) hi
    rw [hzero, eval_zero] at hval
    refine (mul_eq_zero.mp hval.symm).resolve_right (Finset.prod_ne_zero_iff.mpr fun l hl => ?_)
    exact sub_ne_zero.mpr fun heq => (Finset.mem_erase.mp hl).1 (hx heq)
  · exact hout i hi

end

end OceanFs.Lib.CauchyCode
