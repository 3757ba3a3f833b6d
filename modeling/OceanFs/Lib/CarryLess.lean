import Mathlib.Data.Nat.Bitwise
import Mathlib.Logic.Function.Iterate

/-!
Bytes as polynomials over the field of two elements.

Bit `i` of a number is the coefficient of degree `i`; addition is exclusive or. A byte is
multiplied by the indeterminate with a shift that is reduced by a polynomial of degree 8, and a
product of two bytes is formed without carries and reduced afterwards.
-/

namespace OceanFs.Lib.CarryLess

open List

/-- The indeterminate times `x`, modulo `poly`. -/
def double (poly x : ℕ) : ℕ :=
  if 256 ≤ x <<< 1 then (x <<< 1) ^^^ poly else x <<< 1

/-- The product of two bytes as polynomials, of degree at most 14. -/
def clmul (a b : ℕ) : ℕ :=
  (List.range 8).foldl (fun t i => if b.testBit i then t ^^^ (a <<< i) else t) 0

/-- One step of a reduction: the coefficient of degree `i` is cancelled. -/
def reduceBit (poly t i : ℕ) : ℕ := if t.testBit i then t ^^^ (poly <<< (i - 8)) else t

/-- What is left of a polynomial of degree at most 14 modulo `poly`. -/
def reduce (poly t : ℕ) : ℕ := [14, 13, 12, 11, 10, 9, 8].foldl (reduceBit poly) t

section

variable {poly x y : ℕ}

lemma double_eq (hx : x < 256) :
    double poly x = (x <<< 1) ^^^ (if x.testBit 7 then poly else 0) := by
  have hbit : 256 ≤ x <<< 1 ↔ x.testBit 7 = true := by
    rw [Nat.shiftLeft_eq, Nat.testBit_eq_decide_div_mod_eq, decide_eq_true_iff]
    omega
  unfold double
  by_cases h : x.testBit 7 = true
  · rw [if_pos (hbit.mpr h), if_pos h]
  · rw [if_neg (mt hbit.mp h), if_neg h, Nat.xor_zero]

lemma double_xor (hx : x < 256) (hy : y < 256) :
    double poly (x ^^^ y) = double poly x ^^^ double poly y := by
  rw [double_eq (Nat.xor_lt_two_pow (n := 8) hx hy), double_eq hx, double_eq hy,
    Nat.shiftLeft_xor_distrib, Nat.testBit_xor]
  cases x.testBit 7 <;> cases y.testBit 7 <;> simp [Nat.xor_comm, Nat.xor_left_comm]

lemma reduceBit_xor (i : ℕ) :
    reduceBit poly (x ^^^ y) i = reduceBit poly x i ^^^ reduceBit poly y i := by
  have hbit : ∀ t, reduceBit poly t i = t ^^^ (if t.testBit i then poly <<< (i - 8) else 0) := by
    intro t
    unfold reduceBit
    split_ifs <;> simp
  rw [hbit, hbit, hbit, Nat.testBit_xor]
  cases x.testBit i <;> cases y.testBit i <;>
    simp [Nat.xor_assoc, Nat.xor_comm, Nat.xor_left_comm]

lemma reduce_xor : reduce poly (x ^^^ y) = reduce poly x ^^^ reduce poly y := by
  simp only [reduce, foldl_cons, foldl_nil, reduceBit_xor]

end

lemma map_clmul {f : ℕ → ℕ} {P : ℕ → Prop} {a : ℕ} (b : ℕ) (hzero : P 0) (hf0 : f 0 = 0)
    (hP : ∀ x y, P x → P y → P (x ^^^ y)) (hf : ∀ x y, P x → P y → f (x ^^^ y) = f x ^^^ f y)
    (ha : ∀ i < 8, P (a <<< i)) :
    f (clmul a b) =
      (List.range 8).foldl (fun t i => if b.testBit i then t ^^^ f (a <<< i) else t) 0 := by
  suffices h : ∀ (l : List ℕ) (t : ℕ), (∀ i ∈ l, i < 8) → P t →
      f (l.foldl (fun t i => if b.testBit i then t ^^^ (a <<< i) else t) t) =
        l.foldl (fun t i => if b.testBit i then t ^^^ f (a <<< i) else t) (f t) by
    rw [clmul, h _ _ (by simp) hzero, hf0]
  intro l
  induction l with
  | nil => exact fun _ _ _ => rfl
  | cons i l ih =>
    intro t hl ht
    obtain ⟨hi, hl⟩ := forall_mem_cons.mp hl
    simp only [foldl_cons]
    split_ifs
    · rw [ih _ hl (hP _ _ ht (ha i hi)), hf _ _ ht (ha i hi)]
    · exact ih _ hl ht

/-! ### Products of bytes -/

lemma clmul_xor_left (x y b : ℕ) : clmul (x ^^^ y) b = clmul x b ^^^ clmul y b := by
  suffices h : ∀ (l : List ℕ) (s t : ℕ),
      l.foldl (fun t i => if b.testBit i then t ^^^ ((x ^^^ y) <<< i) else t) (s ^^^ t) =
        l.foldl (fun t i => if b.testBit i then t ^^^ (x <<< i) else t) s ^^^
          l.foldl (fun t i => if b.testBit i then t ^^^ (y <<< i) else t) t by
    simpa [clmul] using h (List.range 8) 0 0
  intro l
  induction l with
  | nil => exact fun _ _ => rfl
  | cons i l ih =>
    intro s t
    simp only [foldl_cons]
    rw [← ih]
    split_ifs
    · congr 1
      rw [Nat.shiftLeft_xor_distrib]
      simp [Nat.xor_assoc, Nat.xor_left_comm]
    · rfl

lemma clmul_one : ∀ b < 256, clmul 1 b = b := by decide +kernel

lemma clmul_shiftLeft_one : ∀ i < 8, ∀ c < 256, clmul (1 <<< i) c = c <<< i := by decide +kernel

lemma clmul_comm {b c : ℕ} (hb : b < 256) (hc : c < 256) : clmul b c = clmul c b := by
  have h := map_clmul (f := fun x => clmul x c) (P := fun _ => True) (a := 1) b trivial
    (by simp [clmul, List.range, List.range.loop]) (fun _ _ _ _ => trivial)
    (fun x y _ _ => clmul_xor_left x y c) fun _ _ => trivial
  simp only [clmul_one b hb] at h
  rw [h, clmul]
  -- bit `i` of `b` contributes `c` shifted by `i` on both sides
  have hfold : ∀ (l : List ℕ) (t : ℕ), (∀ i ∈ l, i < 8) →
      l.foldl (fun t i => if b.testBit i then t ^^^ clmul (1 <<< i) c else t) t =
        l.foldl (fun t i => if b.testBit i then t ^^^ (c <<< i) else t) t := by
    intro l
    induction l with
    | nil => exact fun _ _ => rfl
    | cons i l ih =>
      intro t hl
      obtain ⟨hi, hl⟩ := forall_mem_cons.mp hl
      rw [foldl_cons, foldl_cons, clmul_shiftLeft_one i hi c hc]
      exact ih _ hl
  exact hfold _ _ (by simp)

lemma clmul_lt {a : ℕ} (b : ℕ) (ha : a < 256) : clmul a b < 2 ^ 15 := by
  suffices h : ∀ (l : List ℕ) (t : ℕ), (∀ i ∈ l, i < 8) → t < 2 ^ 15 →
      l.foldl (fun t i => if b.testBit i then t ^^^ (a <<< i) else t) t < 2 ^ 15 from
    h _ _ (by simp) (by decide)
  intro l
  induction l with
  | nil => exact fun _ _ ht => ht
  | cons i l ih =>
    intro t hl ht
    obtain ⟨hi, hl⟩ := forall_mem_cons.mp hl
    have hshift : a <<< i < 2 ^ 15 := by
      rw [Nat.shiftLeft_eq]
      calc a * 2 ^ i ≤ 255 * 2 ^ 7 :=
            Nat.mul_le_mul (by omega) (Nat.pow_le_pow_right (by omega) (by omega))
        _ < 2 ^ 15 := by decide
    rw [foldl_cons]
    split_ifs
    · exact ih _ hl (Nat.xor_lt_two_pow ht hshift)
    · exact ih _ hl ht

lemma reduce_of_lt {poly t : ℕ} (ht : t < 256) : reduce poly t = t := by
  have hbit : ∀ i, 8 ≤ i → reduceBit poly t i = t := by
    intro i hi
    have hpow : 2 ^ 8 ≤ 2 ^ i := Nat.pow_le_pow_right (by decide) hi
    have hzero : t.testBit i = false := Nat.testBit_lt_two_pow (by omega)
    simp [reduceBit, hzero]
  simp [reduce, hbit]

lemma reduce_eq (poly t : ℕ) : reduce poly t = (t % 256) ^^^ reduce poly ((t / 256) <<< 8) := by
  have hsplit : t = (t % 256) ^^^ ((t / 256) <<< 8) := by
    refine Nat.eq_of_testBit_eq fun i => ?_
    rw [Nat.testBit_xor, Nat.testBit_shiftLeft, show 256 = 2 ^ 8 from rfl, Nat.testBit_mod_two_pow,
      Nat.testBit_div_two_pow]
    by_cases hi : i < 8
    · simp [hi, Nat.not_le.mpr hi]
    · have hi : 8 ≤ i := by omega
      simp [hi, Nat.not_lt.mpr hi, Nat.sub_add_cancel hi]
  conv_lhs => rw [hsplit]
  rw [reduce_xor, reduce_of_lt (Nat.mod_lt _ (by decide))]

end OceanFs.Lib.CarryLess
