import OceanFs.Ec.Gf
import OceanFs.Lib.Slices

/-!
Multiplication of a slice by a coefficient on x86.

The split tables look up the two halves of a byte, and multiplication is additive: they give the
products of `gf_mul`. The instruction `GF2P8MULB` multiplies in the field of another polynomial,
and the two fields agree on a byte only where nothing is reduced.
-/

namespace OceanFs.Ec

open OceanFs.Core Lib.CarryLess Lib.Slices List

/-! ### The instructions -/

/-- `PSHUFB`, on every 16 bytes with the same table. -/
def shuffleEpi8 (table indices : Bytes) : Bytes :=
  indices.map fun i => if 128 ≤ i.toNat then 0 else table.getD (i.toNat % 16) 0

/-- Eight bytes, the lowest first, shifted right as a 64-bit number. -/
def shiftLane : Bytes → Bytes
  | [] => []
  | [b] => [b >>> 4]
  | b :: c :: rest => ((b >>> 4) ||| (c <<< 4)) :: shiftLane (c :: rest)

/-- `_mm_srli_epi64::<4>` and its wider forms. -/
def srliEpi64 (v : Bytes) : Bytes :=
  ((List.range (v.length / 8)).map fun lane => shiftLane ((v.drop (lane * 8)).take 8)).flatten

/-- `GF2P8MULB` on one byte: the product modulo `x^8 + x^4 + x^3 + x + 1`. -/
def gf2p8mulb (a b : UInt8) : UInt8 := .ofNat (reduce 0x11B (clmul a.toNat b.toNat))

/-! ### The kernels -/

/-- The products of the low and of the high halves of a byte. -/
structure GfMulTableX86 where
  lo : Bytes
  hi : Bytes

variable (coeff : UInt8)

def GfMulTableX86.new : GfMulTableX86 where
  lo := (List.range 16).map fun i => gfMul coeff (.ofNat i)
  hi := (List.range 16).map fun i => gfMul coeff (.ofNat i * 16)

/-- A vector of 16, 32 or 64 bytes through the split table. -/
def splitTable (table : GfMulTableX86) (data : Bytes) : Bytes :=
  let loNibbles := data.map (· &&& 0x0F)
  let hiNibbles := (srliEpi64 data).map (· &&& 0x0F)
  List.zipWith (· ^^^ ·) (shuffleEpi8 table.lo loNibbles) (shuffleEpi8 table.hi hiNibbles)

/-- A vector of 32 or 64 bytes through the field multiplication of the processor. -/
def gfniVector (data : Bytes) : Bytes := data.map fun b => gf2p8mulb b coeff

/-- The loop over the whole vectors of a slice. -/
def vectors (width : ℕ) (kernel : Bytes → Bytes) (data : Bytes) : Bytes :=
  ((List.range (data.length / width)).map fun chunk =>
    kernel ((data.drop (chunk * width)).take width)).flatten

/-- What the loop leaves. -/
def remainder (width : ℕ) (data : Bytes) : Bytes := data.drop (data.length / width * width)

def gfMulPortable (data : Bytes) : Bytes := data.map (gfMul coeff)

def gfMulSse41Batch (data : Bytes) : Bytes :=
  vectors 16 (splitTable (.new coeff)) data ++ gfMulPortable coeff (remainder 16 data)

/-- The last 31 bytes at most: 16 of them in a vector if there are as many, the others one by
one. -/
def gfMulTail (data : Bytes) : Bytes :=
  if 16 ≤ data.length then
    splitTable (.new coeff) (data.take 16) ++ gfMulPortable coeff (data.drop 16)
  else gfMulPortable coeff data

def gfMulAvx2Batch (data : Bytes) : Bytes :=
  vectors 32 (splitTable (.new coeff)) data ++ gfMulTail coeff (remainder 32 data)

def gfMulAvx512Batch (data : Bytes) : Bytes :=
  vectors 64 (splitTable (.new coeff)) data ++ gfMulAvx2Batch coeff (remainder 64 data)

def gfMulGfniAvx2Batch (data : Bytes) : Bytes :=
  vectors 32 (gfniVector coeff) data ++ gfMulTail coeff (remainder 32 data)

def gfMulGfniAvx512Batch (data : Bytes) : Bytes :=
  vectors 64 (gfniVector coeff) data ++ gfMulGfniAvx2Batch coeff (remainder 64 data)

/-! ### Dispatch -/

/-- What the processor reports. -/
structure Features where
  gfni : Bool
  avx512f : Bool
  avx512bw : Bool
  avx2 : Bool
  sse41 : Bool

inductive GfSimdLevel
  | portable
  | sse41
  | avx2
  | avx512
  | gfni
  deriving DecidableEq

variable (cpu : Features)

def detect : GfSimdLevel :=
  if cpu.gfni && (cpu.avx512f || cpu.avx2) then .gfni
  else if cpu.avx512f && cpu.avx512bw then .avx512
  else if cpu.avx2 then .avx2
  else if cpu.sse41 then .sse41
  else .portable

/-- The kernel that is run for a slice. -/
def dispatch (coeff : UInt8) (data : Bytes) : Bytes :=
  match detect cpu with
  | .gfni =>
    if cpu.avx512f && cpu.avx512bw then gfMulGfniAvx512Batch coeff data
    else gfMulGfniAvx2Batch coeff data
  | .avx512 => gfMulAvx512Batch coeff data
  | .avx2 => gfMulAvx2Batch coeff data
  | .sse41 => gfMulSse41Batch coeff data
  | .portable => gfMulPortable coeff data

/-- `gf_mul_simd`: what `dst` holds afterwards. It panics when the lengths differ. -/
def gfMulSimd (coeff : UInt8) (data dst : Bytes) : Option Bytes :=
  if data.length ≠ dst.length then none else some (dispatch cpu coeff data)

/-! ### The split tables -/

lemma forall_byte {P : UInt8 → Prop} (h : ∀ n < 256, P (.ofNat n)) (b : UInt8) : P b := by
  have hb := h b.toNat b.toNat_lt
  rwa [UInt8.ofNat_toNat] at hb

variable (b : UInt8)

lemma shiftRight_and : (b >>> (4 : UInt8)) &&& 0x0F = b >>> (4 : UInt8) := by
  revert b
  exact forall_byte (by decide +kernel)

lemma shiftLeft_and : (b <<< (4 : UInt8)) &&& 0x0F = 0 := by
  revert b
  exact forall_byte (by decide +kernel)

lemma shiftLane_and (v : Bytes) :
    (shiftLane v).map (· &&& 0x0F) = v.map fun b => b >>> (4 : UInt8) := by
  fun_induction shiftLane v with
  | case1 => rfl
  | case2 b => simp [shiftRight_and]
  | case3 b c rest ih =>
    have hbyte : ((b >>> (4 : UInt8)) ||| (c <<< (4 : UInt8))) &&& 0x0F = b >>> (4 : UInt8) := by
      have hdist : ∀ x y z : UInt8, (x ||| y) &&& z = (x &&& z) ||| (y &&& z) := fun _ _ _ =>
        UInt8.eq_of_toBitVec_eq BitVec.and_or_distrib_right
      rw [hdist, shiftRight_and, shiftLeft_and, UInt8.or_zero]
    rw [map_cons, ih, map_cons, map_cons, map_cons, hbyte]

lemma srliEpi64_and {v : Bytes} (hv : 8 ∣ v.length) :
    (srliEpi64 v).map (· &&& 0x0F) = v.map fun b => b >>> (4 : UInt8) := by
  have hlane : ∀ lane, (shiftLane ((v.drop (lane * 8)).take 8)).map (· &&& 0x0F) =
      ((v.map fun b => b >>> (4 : UInt8)).drop (lane * 8)).take 8 := fun lane => by
    rw [shiftLane_and, map_take, map_drop]
  rw [srliEpi64, map_flatten, map_map]
  simp only [Function.comp_def, hlane]
  rw [flatten_map_take_drop, Nat.div_mul_cancel hv, take_of_length_le (by simp)]

lemma lookup_nibble {f : ℕ → UInt8} {i : UInt8} (hi : i.toNat < 16) :
    (if 128 ≤ i.toNat then 0 else ((List.range 16).map f).getD (i.toNat % 16) 0) = f i.toNat := by
  rw [if_neg (by omega), Nat.mod_eq_of_lt hi]
  simp [getD_eq_getElem?_getD, hi]

lemma and_lt : (b &&& 0x0F).toNat < 16 := by
  revert b
  exact forall_byte (by decide +kernel)

lemma shiftRight_lt : (b >>> (4 : UInt8)).toNat < 16 := by
  revert b
  exact forall_byte (by decide +kernel)

lemma gfAdd_halves : gfAdd (b &&& 0x0F) ((b >>> (4 : UInt8)) * 16) = b := by
  revert b
  exact forall_byte (by decide +kernel)

lemma splitTable_eq {data : Bytes} (hd : 8 ∣ data.length) :
    splitTable (.new coeff) data = data.map (gfMul coeff) := by
  unfold splitTable
  simp only [srliEpi64_and hd, shuffleEpi8, map_map, zipWith_map, zipWith_self, GfMulTableX86.new]
  refine map_congr_left fun b _ => ?_
  simp only [Function.comp_apply, lookup_nibble (and_lt b), lookup_nibble (shiftRight_lt b),
    UInt8.ofNat_toNat]
  rw [← gfAdd, ← gfMul_gfAdd, gfAdd_halves]

/-! ### The batches -/

lemma vectors_eq {width : ℕ} {kernel : Bytes → Bytes} {f : UInt8 → UInt8} (data : Bytes)
    (hkernel : ∀ v : Bytes, v.length = width → kernel v = v.map f) :
    vectors width kernel data = (data.take (data.length / width * width)).map f := by
  rw [← flatten_map_take_drop, map_flatten, map_map, vectors]
  refine congrArg List.flatten (map_congr_left fun chunk hc => hkernel _ ?_)
  have hle : (chunk + 1) * width ≤ data.length :=
    (Nat.mul_le_mul_right width (mem_range.mp hc)).trans (Nat.div_mul_le_self _ _)
  rw [Nat.succ_mul] at hle
  rw [length_take, length_drop]
  omega

lemma vectors_splitTable {width : ℕ} (hw : 8 ∣ width) (coeff : UInt8) (data : Bytes) :
    vectors width (splitTable (.new coeff)) data =
      (data.take (data.length / width * width)).map (gfMul coeff) :=
  vectors_eq data fun _ hv => splitTable_eq coeff (hv ▸ hw)

lemma vectors_gfniVector (width : ℕ) (coeff : UInt8) (data : Bytes) :
    vectors width (gfniVector coeff) data =
      (data.take (data.length / width * width)).map fun b => gf2p8mulb b coeff :=
  vectors_eq data fun _ _ => rfl

variable (data : Bytes)

lemma gfMulTail_eq :
    gfMulTail coeff data = data.map (gfMul coeff) := by
  unfold gfMulTail
  split_ifs with h
  · rw [splitTable_eq coeff (by rw [length_take, Nat.min_eq_left h]; decide), gfMulPortable,
      ← map_append, take_append_drop]
  · rfl

lemma map_take_append_drop (f : UInt8 → UInt8) (data : Bytes) (n : ℕ) :
    (data.take n).map f ++ (data.drop n).map f = data.map f := by
  rw [← map_append, take_append_drop]

lemma gfMulSse41Batch_eq :
    gfMulSse41Batch coeff data = data.map (gfMul coeff) := by
  rw [gfMulSse41Batch, vectors_splitTable (by decide), gfMulPortable, remainder,
    map_take_append_drop]

lemma gfMulAvx2Batch_eq :
    gfMulAvx2Batch coeff data = data.map (gfMul coeff) := by
  rw [gfMulAvx2Batch, vectors_splitTable (by decide), gfMulTail_eq, remainder, map_take_append_drop]

lemma gfMulAvx512Batch_eq :
    gfMulAvx512Batch coeff data = data.map (gfMul coeff) := by
  rw [gfMulAvx512Batch, vectors_splitTable (by decide), gfMulAvx2Batch_eq, remainder,
    map_take_append_drop]

/-- The bytes that the batches give to the field multiplication of the processor: those in whole
vectors of 32 bytes. -/
def gfniPart : Bytes := data.take (data.length / 32 * 32)

def gfniRest : Bytes := data.drop (data.length / 32 * 32)

lemma gfMulGfniAvx2Batch_eq :
    gfMulGfniAvx2Batch coeff data =
      (gfniPart data).map (fun b => gf2p8mulb b coeff) ++ (gfniRest data).map (gfMul coeff) := by
  rw [gfMulGfniAvx2Batch, vectors_gfniVector, gfMulTail_eq]
  rfl

lemma gfMulGfniAvx512Batch_eq :
    gfMulGfniAvx512Batch coeff data =
      (gfniPart data).map (fun b => gf2p8mulb b coeff) ++ (gfniRest data).map (gfMul coeff) := by
  -- what is left of the vectors of 64 bytes is cut into vectors of 32
  have hsplit : data.length / 32 * 32 =
      data.length / 64 * 64 + (data.length - data.length / 64 * 64) / 32 * 32 := by omega
  rw [gfMulGfniAvx512Batch, vectors_gfniVector, gfMulGfniAvx2Batch_eq, ← append_assoc, ← map_append]
  simp only [gfniPart, gfniRest, remainder, length_drop, drop_drop]
  rw [hsplit, take_add]

/-! ### The two fields -/

/-- The polynomials of the tables and of the instruction leave the same remainder only where
there is nothing to reduce. -/
lemma reduce_eq_reduce_iff {t : ℕ} (ht : t < 2 ^ 15) :
    reduce 0x11B t = reduce primitivePoly t ↔ t < 256 := by
  have hhigh : ∀ h < 128, reduce 0x11B (h <<< 8) = reduce primitivePoly (h <<< 8) → h = 0 := by
    decide +kernel
  refine ⟨fun heq => ?_, fun hlt => by rw [reduce_of_lt hlt, reduce_of_lt hlt]⟩
  rw [reduce_eq, reduce_eq primitivePoly, Nat.xor_right_inj] at heq
  have := hhigh (t / 256) (by omega) heq
  omega

lemma reduce_lt {t : ℕ} (ht : t < 2 ^ 15) : reduce 0x11B t < 256 := by
  have hhigh : ∀ h < 128, reduce 0x11B (h <<< 8) < 2 ^ 8 := by decide +kernel
  rw [reduce_eq]
  exact Nat.xor_lt_two_pow (n := 8) (Nat.mod_lt _ (by decide)) (hhigh _ (by omega))

lemma toNat_gf2p8mulb (coeff b : UInt8) :
    (gf2p8mulb b coeff).toNat = reduce 0x11B (clmul coeff.toNat b.toNat) := by
  rw [gf2p8mulb, clmul_comm b.toNat_lt coeff.toNat_lt,
    UInt8.toNat_ofNat_of_lt' (reduce_lt (clmul_lt b.toNat coeff.toNat_lt))]

lemma gf2p8mulb_eq_iff (coeff b : UInt8) :
    gf2p8mulb b coeff = gfMul coeff b ↔ clmul coeff.toNat b.toNat < 256 := by
  rw [← UInt8.toNat_inj, gfMul_eq_reduce, toNat_gf2p8mulb,
    reduce_eq_reduce_iff (clmul_lt b.toNat coeff.toNat_lt)]

/-- No byte in a whole vector of 32 has a product with the coefficient of degree 8 or more. -/
def NothingReduced (data : Bytes) : Prop :=
  ∀ b ∈ gfniPart data, clmul coeff.toNat b.toNat < 256

lemma gfniPart_append_gfniRest : gfniPart data ++ gfniRest data = data :=
  take_append_drop _ _

lemma gfni_eq_iff :
    (gfniPart data).map (fun b => gf2p8mulb b coeff) ++ (gfniRest data).map (gfMul coeff) =
      data.map (gfMul coeff) ↔ NothingReduced coeff data := by
  have hdata : data.map (gfMul coeff) =
      (gfniPart data).map (gfMul coeff) ++ (gfniRest data).map (gfMul coeff) := by
    rw [← map_append, gfniPart_append_gfniRest]
  rw [hdata, append_left_inj, map_inj_left]
  exact forall₂_congr fun b _ => gf2p8mulb_eq_iff coeff b

lemma dispatch_of_ne_gfni {cpu : Features} (h : detect cpu ≠ .gfni) (coeff : UInt8) (data : Bytes) :
    dispatch cpu coeff data = data.map (gfMul coeff) := by
  unfold dispatch
  cases hlevel : detect cpu with
  | gfni => exact absurd hlevel h
  | avx512 => exact gfMulAvx512Batch_eq coeff data
  | avx2 => exact gfMulAvx2Batch_eq coeff data
  | sse41 => exact gfMulSse41Batch_eq coeff data
  | portable => rfl

lemma dispatch_of_gfni {cpu : Features} (h : detect cpu = .gfni) (coeff : UInt8) (data : Bytes) :
    dispatch cpu coeff data =
      (gfniPart data).map (fun b => gf2p8mulb b coeff) ++ (gfniRest data).map (gfMul coeff) := by
  simp only [dispatch, h]
  split_ifs
  · exact gfMulGfniAvx512Batch_eq coeff data
  · exact gfMulGfniAvx2Batch_eq coeff data

lemma length_dispatch (coeff : UInt8) (data : Bytes) :
    (dispatch cpu coeff data).length = data.length := by
  by_cases h : detect cpu = .gfni
  · rw [dispatch_of_gfni h, length_append, length_map, length_map,
      ← length_append, gfniPart_append_gfniRest]
  · rw [dispatch_of_ne_gfni h, length_map]

/-- **The kernels against `gf_mul`**: the split tables give its products for every coefficient and
slice; the batches for `GF2P8MULB`, and the dispatcher where it selects them, do so exactly on the
slices where nothing is reduced. -/
theorem kernels_multiply_iff (coeff : UInt8) (data : Bytes) :
    gfMulSse41Batch coeff data = data.map (gfMul coeff) ∧
    gfMulAvx2Batch coeff data = data.map (gfMul coeff) ∧
    gfMulAvx512Batch coeff data = data.map (gfMul coeff) ∧
    (gfMulGfniAvx2Batch coeff data = data.map (gfMul coeff) ↔ NothingReduced coeff data) ∧
    (gfMulGfniAvx512Batch coeff data = data.map (gfMul coeff) ↔ NothingReduced coeff data) ∧
    ∀ (cpu : Features) (dst : Bytes), dst.length = data.length →
      (gfMulSimd cpu coeff data dst = some (data.map (gfMul coeff)) ↔
        detect cpu ≠ .gfni ∨ NothingReduced coeff data) := by
  refine ⟨gfMulSse41Batch_eq coeff data, gfMulAvx2Batch_eq coeff data,
    gfMulAvx512Batch_eq coeff data, ?_, ?_, fun cpu dst hdst => ?_⟩
  · rw [gfMulGfniAvx2Batch_eq, gfni_eq_iff]
  · rw [gfMulGfniAvx512Batch_eq, gfni_eq_iff]
  · rw [gfMulSimd, if_neg (not_not.mpr hdst.symm), Option.some.injEq]
    by_cases h : detect cpu = .gfni
    · rw [dispatch_of_gfni h, gfni_eq_iff]
      simp [h]
    · simp [dispatch_of_ne_gfni h, h]

/-- On a processor with GFNI, 32 bytes `0x80` times 2 are `0x1B` and not `0x1D`. -/
theorem gfni_multiplies_otherwise :
    gfMulSimd ⟨true, true, true, true, true⟩ 2 (List.replicate 32 0x80) (List.replicate 32 0) =
      some (List.replicate 32 0x1B) ∧
    (List.replicate 32 0x80).map (gfMul 2) = List.replicate 32 0x1D ∧
    gfMulSimd ⟨true, true, true, true, true⟩ 2 (List.replicate 32 0x80) (List.replicate 32 0) ≠
      some ((List.replicate 32 0x80).map (gfMul 2)) := by
  decide +kernel

theorem avx512_products_of_65_bytes :
    gfMulSimd ⟨false, true, true, true, true⟩ 3 (List.replicate 65 0x80) (List.replicate 65 0) =
      some ((List.replicate 65 0x80).map (gfMul 3)) :=
  ((kernels_multiply_iff 3 (List.replicate 65 0x80)).2.2.2.2.2 ⟨false, true, true, true, true⟩
    (List.replicate 65 0) (by simp)).mpr (.inl (by decide))

end OceanFs.Ec
