import Mathlib.Algebra.Field.Defs
import Mathlib.Data.Finset.Card
import Mathlib.Order.Interval.Finset.Nat
import OceanFs.Core.Types
import OceanFs.Lib.CarryLess
import OceanFs.Lib.Lists

/-!
Arithmetic of the field of 256 elements by tables of logarithms and powers.

The tables list the powers of 2 in the polynomials modulo `x^8 + x^4 + x^3 + x^2 + 1`. A product
adds logarithms; since every byte but zero is a power of 2, this is a repeated doubling, from
which the laws of a field follow.
-/

namespace OceanFs.Ec

open OceanFs.Core Lib.CarryLess List

/-! ### The tables -/

/-- `PRIMITIVE_POLY`: x^8 + x^4 + x^3 + x^2 + 1. -/
def primitivePoly : ℕ := 0x11D

/-- The variable `x` of the loops that build the tables, in their iteration `i`. -/
def power : ℕ → ℕ
  | 0 => 1
  | i + 1 => double primitivePoly (power i)

/-- `build_log_table`. -/
def logTable : List UInt8 :=
  (List.range 255).foldl (fun log i => log.set (power i) (.ofNat i)) (List.replicate 256 0)

/-- `build_exp_table`. -/
def expTable : List UInt8 :=
  let exp := ((List.range 511).map fun i => UInt8.ofNat (power i)) ++ [0]
  exp.set 255 (exp.getD 0 0)

/-! ### The operations -/

variable (a b : UInt8)

def gfAdd : UInt8 := a ^^^ b

/-- The entry of the table of logarithms. -/
def logOf (a : UInt8) : ℕ := (logTable.getD a.toNat 0).toNat

def gfMul : UInt8 :=
  if a = 0 ∨ b = 0 then 0 else expTable.getD (logOf a + logOf b) 0

/-- `gf_div`, which panics on a zero divisor. -/
def gfDiv : Option UInt8 :=
  if a = 0 then some 0
  else if b = 0 then none
  else
    let diff : ℤ := logOf a - logOf b
    some (expTable.getD (if diff < 0 then diff + 255 else diff).toNat 0)

/-- `gf_inv`, which panics on zero. -/
def gfInv (a : UInt8) : Option UInt8 := if a = 0 then none else gfDiv 1 a

/-! ### Powers of 2 -/

lemma power_eq_iterate (i : ℕ) : power i = (double primitivePoly)^[i] 1 := by
  induction i with
  | zero => rfl
  | succ i ih => rw [power, ih, Function.iterate_succ_apply']

lemma power_add (i j : ℕ) : power (i + j) = (double primitivePoly)^[i] (power j) := by
  rw [power_eq_iterate, power_eq_iterate, Function.iterate_add_apply]

/-- Doubling undone. -/
def halve (x : ℕ) : ℕ := if x % 2 = 1 then (x ^^^ primitivePoly) >>> 1 else x >>> 1

lemma double_lt : ∀ x < 256, double primitivePoly x < 256 := by decide +kernel

lemma halve_double : ∀ x < 256, halve (double primitivePoly x) = x := by decide +kernel

lemma power_ne_one : ∀ d < 255, d ≠ 0 → power d ≠ 1 := by decide +kernel

lemma power_period : power 255 = 1 := by decide +kernel

lemma iterate_double_lt {x : ℕ} (hx : x < 256) (i : ℕ) :
    (double primitivePoly)^[i] x < 256 := by
  induction i with
  | zero => exact hx
  | succ i ih =>
    rw [Function.iterate_succ_apply']
    exact double_lt _ ih

lemma power_lt (i : ℕ) : power i < 256 := by
  rw [power_eq_iterate]
  exact iterate_double_lt (by decide) i

lemma double_inj {x y : ℕ} (hx : x < 256) (hy : y < 256)
    (h : double primitivePoly x = double primitivePoly y) : x = y := by
  rw [← halve_double x hx, h, halve_double y hy]

lemma iterate_double_inj {x y : ℕ} (hx : x < 256) (hy : y < 256) (i : ℕ)
    (h : (double primitivePoly)^[i] x = (double primitivePoly)^[i] y) : x = y := by
  induction i with
  | zero => exact h
  | succ i ih =>
    rw [Function.iterate_succ_apply', Function.iterate_succ_apply'] at h
    exact ih (double_inj (iterate_double_lt hx i) (iterate_double_lt hy i) h)

lemma power_inj {i j : ℕ} (hi : i < 255) (hj : j < 255) (h : power i = power j) : i = j := by
  wlog hle : i ≤ j
  · exact (this hj hi h.symm (by omega)).symm
  obtain ⟨d, rfl⟩ := Nat.exists_eq_add_of_le hle
  rw [power_add, power_eq_iterate i] at h
  have hd : 1 = power d := iterate_double_inj (by decide) (power_lt d) i h
  by_contra hne
  exact power_ne_one d (by omega) (by omega) hd.symm

lemma power_ne_zero (i : ℕ) : power i ≠ 0 := by
  intro h
  have hzero : (double primitivePoly)^[i] 1 = (double primitivePoly)^[i] 0 := by
    rw [← power_eq_iterate, h]
    exact (Function.iterate_fixed (by decide) i).symm
  exact absurd (iterate_double_inj (by decide) (by decide) i hzero) (by decide)

/-- Every byte but zero is a power of 2, since there are 255 of both. -/
lemma exists_power {x : ℕ} (h0 : x ≠ 0) (hx : x < 256) : ∃ i < 255, power i = x := by
  have hsub : (Finset.range 255).image power ⊆ Finset.Ico 1 256 := by
    intro y hy
    obtain ⟨i, -, rfl⟩ := Finset.mem_image.mp hy
    have := power_ne_zero i
    exact Finset.mem_Ico.mpr ⟨by omega, power_lt i⟩
  have hcard : ((Finset.range 255).image power).card = 255 := by
    rw [Finset.card_image_of_injOn, Finset.card_range]
    intro i hi j hj h
    simp only [Finset.coe_range, Set.mem_Iio] at hi hj
    exact power_inj hi hj h
  have heq := Finset.eq_of_subset_of_card_le hsub (by rw [hcard, Nat.card_Ico])
  have hmem : x ∈ (Finset.range 255).image power := by
    rw [heq]
    exact Finset.mem_Ico.mpr ⟨by omega, hx⟩
  obtain ⟨i, hi, rfl⟩ := Finset.mem_image.mp hmem
  exact ⟨i, Finset.mem_range.mp hi, rfl⟩

/-! ### What the tables hold -/

lemma expTable_getD {i : ℕ} (hi : i < 511) : expTable.getD i 0 = .ofNat (power i) := by
  unfold expTable
  simp only
  have hexp : ∀ j < 511, (((List.range 511).map fun i => UInt8.ofNat (power i)) ++ [0])[j]? =
      some (.ofNat (power j)) := by
    intro j hj
    rw [getElem?_append_left (by simpa using hj)]
    simp [hj]
  by_cases h : i = 255
  · subst h
    rw [getD_eq_getElem?_getD, getElem?_set_self (by simp), getD_eq_getElem?_getD,
      hexp 0 (by decide), power_period]
    rfl
  · rw [getD_eq_getElem?_getD, getElem?_set_ne (Ne.symm h), hexp i hi]
    rfl

lemma logOf_power {i : ℕ} (hi : i < 255) : logOf (.ofNat (power i)) = i := by
  have htable := @Lib.Lists.getD_foldl_set _ power UInt8.ofNat (List.replicate 256 0) 255 i 0
    (fun i hi j hj => power_inj hi hj)
    (fun i _ => by rw [length_replicate]; exact power_lt i) hi
  have hidx : (UInt8.ofNat (power i)).toNat = power i := by
    simpa using power_lt i
  rw [logOf, hidx, logTable, htable]
  simp
  omega

lemma power_logOf {a : UInt8} (ha : a ≠ 0) : power (logOf a) = a.toNat ∧ logOf a < 255 := by
  obtain ⟨i, hi, hp⟩ := exists_power (x := a.toNat) (fun h => ha (UInt8.toNat_inj.mp h)) a.toNat_lt
  have hlog : logOf a = i := by
    have h := logOf_power hi
    rwa [hp, UInt8.ofNat_toNat] at h
  exact ⟨by rw [hlog, hp], by omega⟩

/-! ### The field -/

lemma toNat_gfMul {a : UInt8} (ha : a ≠ 0) (b : UInt8) :
    (gfMul a b).toNat = (double primitivePoly)^[logOf a] b.toNat := by
  by_cases hb : b = 0
  · subst hb
    rw [gfMul, if_pos (.inr rfl)]
    exact (Function.iterate_fixed (by decide) _).symm
  · obtain ⟨hpb, hlb⟩ := power_logOf hb
    obtain ⟨-, hla⟩ := power_logOf ha
    rw [gfMul, if_neg (by simp [ha, hb]), expTable_getD (by omega), power_add, hpb]
    simpa using iterate_double_lt b.toNat_lt _

lemma gfMul_comm : gfMul a b = gfMul b a := by
  simp only [gfMul, or_comm, Nat.add_comm]

lemma gfMul_zero (a : UInt8) : gfMul a 0 = 0 := if_pos (.inr rfl)

lemma iterate_double_xor (i : ℕ) {x y : ℕ} (hx : x < 256) (hy : y < 256) :
    (double primitivePoly)^[i] (x ^^^ y) =
      (double primitivePoly)^[i] x ^^^ (double primitivePoly)^[i] y := by
  induction i with
  | zero => rfl
  | succ i ih =>
    simp only [Function.iterate_succ_apply']
    rw [ih, double_xor (iterate_double_lt hx i) (iterate_double_lt hy i)]

lemma gfMul_gfAdd (a b c : UInt8) : gfMul a (gfAdd b c) = gfAdd (gfMul a b) (gfMul a c) := by
  by_cases ha : a = 0
  · subst ha
    simp [gfMul_comm 0, gfMul_zero, gfAdd]
  · apply UInt8.toNat_inj.mp
    simp only [gfAdd, UInt8.toNat_xor, toNat_gfMul ha]
    exact iterate_double_xor _ b.toNat_lt c.toNat_lt

lemma gfMul_left_comm (a b c : UInt8) : gfMul a (gfMul b c) = gfMul b (gfMul a c) := by
  by_cases ha : a = 0
  · subst ha
    rw [gfMul_comm 0, gfMul_comm 0, gfMul_zero, gfMul_zero, gfMul_zero]
  by_cases hb : b = 0
  · subst hb
    rw [gfMul_comm 0, gfMul_comm 0, gfMul_zero, gfMul_zero, gfMul_zero]
  apply UInt8.toNat_inj.mp
  rw [toNat_gfMul ha, toNat_gfMul hb, toNat_gfMul hb, toNat_gfMul ha,
    ← Function.iterate_add_apply, ← Function.iterate_add_apply, Nat.add_comm]

lemma logOf_one : logOf 1 = 0 := logOf_power (i := 0) (by decide)

lemma one_gfMul (a : UInt8) : gfMul 1 a = a := by
  apply UInt8.toNat_inj.mp
  rw [toNat_gfMul (by decide), logOf_one]
  rfl

/-- An inverse has the logarithm that makes up for the order of 2. -/
lemma gfMul_gfInv {a : UInt8} (ha : a ≠ 0) : ∃ b, gfInv a = some b ∧ gfMul a b = 1 := by
  obtain ⟨hpa, hla⟩ := power_logOf ha
  rw [gfInv, if_neg ha, gfDiv, if_neg (by decide), if_neg ha, logOf_one]
  set idx : ℕ := (if ((0 : ℕ) : ℤ) - logOf a < 0 then ((0 : ℕ) : ℤ) - logOf a + 255
    else ((0 : ℕ) : ℤ) - logOf a).toNat with hidx
  have hpow : power (logOf a + idx) = 1 ∧ idx < 511 := by
    rcases Nat.eq_zero_or_pos (logOf a) with hzero | hpos
    · have : idx = 0 := by simp [hidx, hzero]
      rw [hzero, this]
      exact ⟨rfl, by decide⟩
    · have : idx = 255 - logOf a := by
        rw [hidx, if_pos (by omega)]
        omega
      rw [this, Nat.add_sub_cancel' hla.le]
      exact ⟨power_period, by omega⟩
  refine ⟨_, rfl, UInt8.toNat_inj.mp ?_⟩
  have hlt : power idx < 2 ^ 8 := power_lt idx
  rw [toNat_gfMul ha, expTable_getD hpow.2, UInt8.toNat_ofNat_of_lt' hlt, ← power_add, hpow.1]
  rfl

lemma reduce_shiftLeft : ∀ i < 8, ∀ a < 256,
    reduce primitivePoly (a <<< i) = (double primitivePoly)^[i] a := by decide +kernel

lemma power_shiftLeft : ∀ i < 8, 1 <<< i = power i := by decide +kernel

/-- **The tables compute the product of polynomials** modulo the primitive one. -/
theorem gfMul_eq_reduce :
    (gfMul a b).toNat = reduce primitivePoly (clmul a.toNat b.toNat) := by
  by_cases ha : a = 0
  · subst ha
    rw [gfMul, if_pos (.inl rfl), UInt8.toNat_zero]
    simp [clmul, reduce, reduceBit]
  · rw [map_clmul (P := fun _ => True) _ trivial (by decide) (fun _ _ _ _ => trivial)
      (fun _ _ _ _ => reduce_xor) (fun _ _ => trivial)]
    -- multiplication by `a` is additive too, and it is a doubling on the powers of 2
    rw [toNat_gfMul ha]
    nth_rewrite 1 [← clmul_one _ b.toNat_lt]
    rw [map_clmul (P := (· < 256)) _ (by decide) (Function.iterate_fixed (by decide) _)
      (fun _ _ hx hy => Nat.xor_lt_two_pow (n := 8) hx hy)
      (fun _ _ hx hy => iterate_double_xor _ hx hy) (by decide)]
    refine foldl_ext _ _ _ fun t i hi => ?_
    have hi : i < 8 := mem_range.mp hi
    have hlt : power i < 2 ^ 8 := power_lt i
    have hshift : (double primitivePoly)^[logOf a] (1 <<< i) =
        reduce primitivePoly (a.toNat <<< i) := by
      have hne : UInt8.ofNat (power i) ≠ 0 := by
        intro h
        refine power_ne_zero i ?_
        rw [← UInt8.toNat_ofNat_of_lt' hlt, h]
        rfl
      rw [reduce_shiftLeft i hi _ a.toNat_lt, power_shiftLeft i hi, ← UInt8.toNat_ofNat_of_lt' hlt,
        ← toNat_gfMul ha, gfMul_comm, toNat_gfMul hne, logOf_power (by omega)]
    rw [hshift]

/-- An element of the field; a byte of a shard is one. -/
@[ext]
structure Gf8 where
  byte : UInt8
  deriving DecidableEq

namespace Gf8

instance : Zero Gf8 := ⟨⟨0⟩⟩
instance : One Gf8 := ⟨⟨1⟩⟩
instance : Add Gf8 := ⟨fun a b => ⟨gfAdd a.byte b.byte⟩⟩
instance : Neg Gf8 := ⟨id⟩
instance : Mul Gf8 := ⟨fun a b => ⟨gfMul a.byte b.byte⟩⟩
instance : Inv Gf8 := ⟨fun a => ⟨(gfInv a.byte).getD 0⟩⟩

lemma mk_add (a b : UInt8) : (⟨a⟩ + ⟨b⟩ : Gf8) = ⟨gfAdd a b⟩ := rfl

instance : CommRing Gf8 where
  add_assoc a b c := Gf8.ext (UInt8.xor_assoc ..)
  zero_add a := Gf8.ext UInt8.zero_xor
  add_zero a := Gf8.ext UInt8.xor_zero
  add_comm a b := Gf8.ext (UInt8.xor_comm ..)
  neg_add_cancel a := Gf8.ext UInt8.xor_self
  mul_comm a b := Gf8.ext (gfMul_comm ..)
  one_mul a := Gf8.ext (one_gfMul _)
  mul_one a := Gf8.ext ((gfMul_comm ..).trans (one_gfMul _))
  zero_mul a := Gf8.ext ((gfMul_comm 0 a.byte).trans (gfMul_zero _))
  mul_zero a := Gf8.ext (gfMul_zero _)
  left_distrib a b c := Gf8.ext (gfMul_gfAdd ..)
  right_distrib a b c := by
    refine Gf8.ext ?_
    change gfMul (gfAdd a.byte b.byte) c.byte = _
    rw [gfMul_comm, gfMul_gfAdd, gfMul_comm c.byte, gfMul_comm c.byte]
    rfl
  mul_assoc a b c := by
    refine Gf8.ext ?_
    change gfMul (gfMul a.byte b.byte) c.byte = gfMul a.byte (gfMul b.byte c.byte)
    rw [gfMul_comm, gfMul_left_comm, gfMul_comm c.byte]
  nsmul := nsmulRec
  zsmul := zsmulRec

instance : Field Gf8 where
  exists_pair_ne := ⟨0, 1, by decide⟩
  mul_inv_cancel a ha := by
    have hne : a.byte ≠ 0 := fun h => ha (Gf8.ext h)
    obtain ⟨b, hb, hmul⟩ := gfMul_gfInv hne
    refine Gf8.ext ?_
    change gfMul a.byte ((gfInv a.byte).getD 0) = 1
    rw [hb]
    exact hmul
  inv_zero := by decide
  nnqsmul := _
  qsmul := _

end Gf8

end OceanFs.Ec
