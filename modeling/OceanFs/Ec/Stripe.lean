import OceanFs.Ec.Cauchy
import OceanFs.Ec.Simd

/-!
Segments in stripes.

A segment is cut into stripes of `k` strips, the last one filled up with zeros; the strips of one
position, over all stripes, form a data shard. Every stripe is encoded and decoded for itself.
-/

namespace OceanFs.Ec

open OceanFs.Core Lib Lib.CauchyCode Lib.Slices List

/-! ### The layout -/

structure EncodingPlan where
  stripeCount : ℕ
  paddedSize : ℕ
  shardSize : ℕ
  dataShards : UInt8
  parityShards : UInt8

/-- A number computed in 64 bits; an overflow is a panic. -/
def word (n : ℕ) : Outcome ℕ := if n < 2 ^ 64 then .ok n else .error .panic

def divCeil (a b : ℕ) : ℕ := if a % b = 0 then a / b else a / b + 1

/-- `StripeLayout::compute`. -/
def compute (segmentSize : ℕ) (k m : UInt8) (stripSize : ℕ) : Outcome EncodingPlan :=
  if k = 0 then .error (.error (.invalidConfig "k must be > 0"))
  else if stripSize = 0 then .error (.error (.invalidConfig "strip_size must be > 0"))
  else if segmentSize = 0 then .error (.error (.invalidConfig "segment_size must be > 0"))
  else do
    let stripeDataSize ← word (k.toNat * stripSize)
    let stripeCount := divCeil segmentSize stripeDataSize
    let paddedSize ← word (stripeCount * stripeDataSize)
    return ⟨stripeCount, paddedSize, stripSize, k, m⟩

/-! ### Encoding -/

/-- The data and the parity shards, each over all stripes. -/
structure StripeBatch where
  data : List Bytes
  parity : List Bytes

/-- `BytesMut::zeroed`; no buffer is longer than `isize::MAX`. -/
def zeroed (len : ℕ) : Outcome Bytes :=
  if len < 2 ^ 63 then .ok (List.replicate len 0) else .error .panic

/-- One data shard. The bytes beyond the end of the segment remain zero. -/
def dataShard (segment : Bytes) (plan : EncodingPlan) (zeros : Bytes) (shardIdx : ℕ) : Bytes :=
  (List.range plan.stripeCount).foldl (fun shard stripeIdx =>
    let stripeStart := stripeIdx * (plan.dataShards.toNat * plan.shardSize)
    let srcOffset := stripeStart + shardIdx * plan.shardSize
    let dstOffset := stripeIdx * plan.shardSize
    if srcOffset < segment.length then
      writeAt shard dstOffset ((segment.drop srcOffset).take plan.shardSize)
    else shard) zeros

/-- The strip of a shard in one stripe. -/
def strip (plan : EncodingPlan) (stripeIdx : ℕ) (shard : Bytes) : Bytes :=
  (shard.drop (stripeIdx * plan.shardSize)).take plan.shardSize

/-- `ParallelEncoder::encode`, with a codec for the plan's number of data shards. -/
def parallelEncode (kernel : Kernel) (segment : Bytes) (plan : EncodingPlan) :
    Outcome StripeBatch := do
  let _ ← word (plan.dataShards.toNat * plan.shardSize)
  let shardLen ← word (plan.stripeCount * plan.shardSize)
  let zeros ← zeroed shardLen
  let data := (List.range plan.dataShards.toNat).map (dataShard segment plan zeros)
  let results ← (List.range plan.stripeCount).mapM fun stripeIdx =>
    encode kernel plan.dataShards (data.map (strip plan stripeIdx)) plan.parityShards
  let parity := (List.range plan.parityShards.toNat).map fun p =>
    (List.range plan.stripeCount).foldl (fun shard stripeIdx =>
      writeAt shard (stripeIdx * plan.shardSize) ((results.getD stripeIdx []).getD p [])) zeros
  return ⟨data, parity⟩

/-! ### The plan -/

lemma word_eq {n : ℕ} (h : n < 2 ^ 64) : word n = .ok n := if_pos h

lemma zeroed_eq {n : ℕ} (h : n < 2 ^ 63) : zeroed n = .ok (List.replicate n 0) := if_pos h

section

variable {n d : ℕ}

lemma le_divCeil_mul (hd : d ≠ 0) : n ≤ divCeil n d * d := by
  have hmod := Nat.mod_lt n (Nat.pos_of_ne_zero hd)
  have hdiv := Nat.div_add_mod n d
  rw [Nat.mul_comm] at hdiv
  unfold divCeil
  split_ifs
  · omega
  · rw [Nat.succ_mul]
    omega

lemma divCeil_pos (hd : d ≠ 0) (hn : n ≠ 0) : 0 < divCeil n d := by
  have h : n ≤ divCeil n d * d := le_divCeil_mul hd
  rcases Nat.eq_zero_or_pos (divCeil n d) with h0 | h0
  · rw [h0, Nat.zero_mul] at h
    omega
  · exact h0

end

/-- The plan of a segment. -/
def planOf (segmentSize : ℕ) (k m : UInt8) (stripSize : ℕ) : EncodingPlan where
  stripeCount := divCeil segmentSize (k.toNat * stripSize)
  paddedSize := divCeil segmentSize (k.toNat * stripSize) * (k.toNat * stripSize)
  shardSize := stripSize
  dataShards := k
  parityShards := m

/-- What a plan promises of the segment it was computed for. -/
structure Layout (segment : Bytes) (plan : EncodingPlan) : Prop where
  dataShards_ne_zero : plan.dataShards ≠ 0
  shardSize_ne_zero : plan.shardSize ≠ 0
  stripeCount_ne_zero : plan.stripeCount ≠ 0
  paddedSize_eq : plan.paddedSize = plan.stripeCount * (plan.dataShards.toNat * plan.shardSize)
  length_le : segment.length ≤ plan.paddedSize

lemma layout_planOf {segment : Bytes} {k m : UInt8} {stripSize : ℕ} (hseg : segment ≠ [])
    (hk : k ≠ 0) (hstrip : stripSize ≠ 0) :
    Layout segment (planOf segment.length k m stripSize) where
  dataShards_ne_zero := hk
  shardSize_ne_zero := hstrip
  stripeCount_ne_zero :=
    (divCeil_pos (Nat.mul_ne_zero (toNat_pos hk).ne' hstrip) (by simpa using hseg)).ne'
  paddedSize_eq := rfl
  length_le := le_divCeil_mul (Nat.mul_ne_zero (toNat_pos hk).ne' hstrip)

/-! ### What the encoder writes -/

section

variable {segment : Bytes} {plan : EncodingPlan}

/-- The segment, filled up with zeros. -/
def padded (segment : Bytes) (plan : EncodingPlan) : Bytes :=
  segment ++ List.replicate (plan.paddedSize - segment.length) 0

/-- A strip of the padded segment. -/
def stripOf (segment : Bytes) (plan : EncodingPlan) (stripeIdx i : ℕ) : Bytes :=
  ((padded segment plan).drop ((stripeIdx * plan.dataShards.toNat + i) * plan.shardSize)).take
    plan.shardSize

/-- The data strips of a stripe. -/
def stripeData (segment : Bytes) (plan : EncodingPlan) (stripeIdx : ℕ) : List Bytes :=
  (List.range plan.dataShards.toNat).map (stripOf segment plan stripeIdx)

/-- The parity of a stripe. -/
def stripeParity (kernel : Kernel) (segment : Bytes) (plan : EncodingPlan) (stripeIdx p : ℕ) :
    Bytes :=
  accumulate kernel ((List.range plan.dataShards.toNat).map (coefficient plan.dataShards p))
    (stripeData segment plan stripeIdx) plan.shardSize

/-- A shard from its strips. -/
def joined (plan : EncodingPlan) (strips : ℕ → Bytes) : Bytes :=
  ((List.range plan.stripeCount).map strips).flatten

/-- The data shards of a segment and the parity shards that belong to them. -/
def batchOf (kernel : Kernel) (segment : Bytes) (plan : EncodingPlan) : StripeBatch where
  data := (List.range plan.dataShards.toNat).map fun i =>
    joined plan fun s => stripOf segment plan s i
  parity := (List.range plan.parityShards.toNat).map fun p =>
    joined plan fun s => stripeParity kernel segment plan s p

namespace Layout

lemma length_padded (hp : Layout segment plan) :
    (padded segment plan).length = plan.paddedSize := by
  have := hp.length_le
  simp only [padded, length_append, length_replicate]
  omega

lemma strip_end_le (hp : Layout segment plan) {s i : ℕ} (hs : s < plan.stripeCount)
    (hi : i < plan.dataShards.toNat) :
    (s * plan.dataShards.toNat + i) * plan.shardSize + plan.shardSize ≤ plan.paddedSize := by
  have hidx : s * plan.dataShards.toNat + i + 1 ≤ plan.stripeCount * plan.dataShards.toNat := by
    have := Nat.mul_le_mul_right plan.dataShards.toNat (show s + 1 ≤ plan.stripeCount from hs)
    rw [Nat.succ_mul] at this
    omega
  rw [hp.paddedSize_eq, ← Nat.mul_assoc, ← Nat.succ_mul]
  exact Nat.mul_le_mul_right _ hidx

lemma length_stripOf (hp : Layout segment plan) {s i : ℕ} (hs : s < plan.stripeCount)
    (hi : i < plan.dataShards.toNat) : (stripOf segment plan s i).length = plan.shardSize := by
  have hend := hp.strip_end_le hs hi
  rw [stripOf, length_take, length_drop, hp.length_padded]
  exact Nat.min_eq_left (by omega)

lemma length_stripeData (s : ℕ) :
    (stripeData segment plan s).length = plan.dataShards.toNat := by
  simp [stripeData]

lemma length_of_mem_stripeData (hp : Layout segment plan) {s : ℕ} (hs : s < plan.stripeCount) :
    ∀ x ∈ stripeData segment plan s, x.length = plan.shardSize := by
  intro x hx
  obtain ⟨i, hi, rfl⟩ := mem_map.mp hx
  exact hp.length_stripOf hs (mem_range.mp hi)

lemma length_stripeParity (hp : Layout segment plan) {kernel : Kernel}
    (hkernel : ∀ c d, (kernel c d).length = d.length) {s : ℕ} (hs : s < plan.stripeCount) (p : ℕ) :
    (stripeParity kernel segment plan s p).length = plan.shardSize :=
  length_accumulate hkernel (hp.length_of_mem_stripeData hs)

end Layout

lemma strip_joined {strips : ℕ → Bytes}
    (h : ∀ s < plan.stripeCount, (strips s).length = plan.shardSize) {s : ℕ}
    (hs : s < plan.stripeCount) : strip plan s (joined plan strips) = strips s :=
  slice_flatten h hs

lemma foldl_writeAt_joined {strips : ℕ → Bytes}
    (h : ∀ s < plan.stripeCount, (strips s).length = plan.shardSize) :
    (List.range plan.stripeCount).foldl (fun shard s =>
        writeAt shard (s * plan.shardSize) (strips s))
      (List.replicate (plan.stripeCount * plan.shardSize) 0) = joined plan strips := by
  rw [foldl_writeAt _ _ _ _ fun s hs => (h s hs).le]
  refine congrArg List.flatten (map_congr_left fun s hs => ?_)
  simp [h s (mem_range.mp hs)]

lemma Layout.dataShard_eq (hp : Layout segment plan) {i : ℕ} (hi : i < plan.dataShards.toNat) :
    dataShard segment plan (List.replicate (plan.stripeCount * plan.shardSize) 0) i =
      joined plan fun s => stripOf segment plan s i := by
  have hle := hp.length_le
  have hoffset : ∀ s, s * (plan.dataShards.toNat * plan.shardSize) + i * plan.shardSize =
      (s * plan.dataShards.toNat + i) * plan.shardSize :=
    fun s => by rw [Nat.add_mul, Nat.mul_assoc]
  -- beyond the end of the segment an empty piece is written
  have hpiece : ∀ (shard : Bytes) (s : ℕ),
      (if (s * plan.dataShards.toNat + i) * plan.shardSize < segment.length then
        writeAt shard (s * plan.shardSize)
          ((segment.drop ((s * plan.dataShards.toNat + i) * plan.shardSize)).take plan.shardSize)
      else shard) = writeAt shard (s * plan.shardSize) ((segment.drop
        ((s * plan.dataShards.toNat + i) * plan.shardSize)).take plan.shardSize) := by
    intro shard s
    split_ifs with h
    · rfl
    · rw [drop_eq_nil_of_le (by omega)]
      simp [writeAt]
  simp only [dataShard, hoffset, hpiece]
  rw [foldl_writeAt _ _ _ _ fun s _ => length_take_le _ _]
  refine congrArg List.flatten (map_congr_left fun s hs => ?_)
  have hend := hp.strip_end_le (mem_range.mp hs) hi
  exact (slice_append_replicate segment 0 (by omega)).symm

lemma Layout.map_strip_data (hp : Layout segment plan) {kernel : Kernel} {s : ℕ}
    (hs : s < plan.stripeCount) :
    (batchOf kernel segment plan).data.map (strip plan s) = stripeData segment plan s := by
  simp only [batchOf, stripeData, map_map]
  refine map_congr_left fun i hi => strip_joined (fun s' hs' => ?_) hs
  exact hp.length_stripOf hs' (mem_range.mp hi)

lemma Layout.parallelEncode_eq (hp : Layout segment plan) {kernel : Kernel}
    (hkernel : ∀ c d, (kernel c d).length = d.length)
    (hword : plan.dataShards.toNat * plan.shardSize < 2 ^ 64)
    (hbuf : plan.stripeCount * plan.shardSize < 2 ^ 63)
    (h : plan.dataShards.toNat + plan.parityShards.toNat ≤ 256) :
    parallelEncode kernel segment plan = .ok (batchOf kernel segment plan) := by
  have hdata : (List.range plan.dataShards.toNat).map (dataShard segment plan
      (List.replicate (plan.stripeCount * plan.shardSize) 0)) =
      (batchOf kernel segment plan).data :=
    map_congr_left fun i hi => hp.dataShard_eq (mem_range.mp hi)
  have hresults : (List.range plan.stripeCount).mapM (fun s => encode kernel plan.dataShards
      ((batchOf kernel segment plan).data.map (strip plan s)) plan.parityShards) =
      .ok ((List.range plan.stripeCount).map fun s =>
        (List.range plan.parityShards.toNat).map (stripeParity kernel segment plan s)) := by
    refine Lists.mapM_eq_pure fun s hs => ?_
    have hs := mem_range.mp hs
    rw [hp.map_strip_data hs, encode_eq kernel hp.dataShards_ne_zero h
      (Layout.length_stripeData s) (hp.length_of_mem_stripeData hs)]
    rfl
  simp only [parallelEncode, word_eq hword, word_eq (hbuf.trans (by decide)), zeroed_eq hbuf,
    ok_bind, hdata, hresults]
  refine congrArg Except.ok (congrArg (StripeBatch.mk _) (map_congr_left fun p hpar => ?_))
  rw [← foldl_writeAt_joined fun s hs => hp.length_stripeParity hkernel hs p]
  refine foldl_ext _ _ _ fun shard s hs => ?_
  simp [getD_eq_getElem?_getD, mem_range.mp hs, mem_range.mp hpar]

/-! ### What the decoder reads -/

/-- The shards that are not missing. -/
def kept (k : UInt8) (missing : List ℕ) (i : ℕ) : Bool :=
  decide (k.toNat ≤ i) || !missing.contains i

end

end OceanFs.Ec
