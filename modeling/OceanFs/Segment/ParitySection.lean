import OceanFs.Ec.Recovery
import OceanFs.Lib.Bytes

/-!
The parity section of a sealed segment file.

The section holds the parity shards of the complete stripes, and for every shard, data or parity,
its hash. A tail of the data that is shorter than a stripe is covered by neither. The checksum in
the header is over the data and the section.
-/

namespace OceanFs.Segment

open OceanFs.Core Ec Lib Lib.Bytes Lib.Slices List

def paritySectionHeaderSize : ℕ := 12

def shardHashSize : ℕ := 32

/-! ### Reading -/

structure ParitySection where
  stripeCount : ℕ
  k : UInt8
  m : UInt8
  strip : ℕ
  shards : Bytes
  hashes : Bytes
  deriving DecidableEq

namespace ParitySection

def parse (bytes : Bytes) : Option ParitySection :=
  if bytes.length < paritySectionHeaderSize then none
  else
    let stripeCount := leNat (bytes.take 4)
    let k := bytes.getD 4 0
    let m := bytes.getD 5 0
    let strip := leNat ((bytes.drop 8).take 4)
    if stripeCount = 0 ∨ k = 0 ∨ m = 0 ∨ strip = 0 then none
    else
      let shardsLen := stripeCount * m.toNat * strip
      let hashesLen := stripeCount * (k.toNat + m.toNat) * shardHashSize
      if bytes.length ≠ paritySectionHeaderSize + shardsLen + hashesLen then none
      else some ⟨stripeCount, k, m, strip, (bytes.drop paritySectionHeaderSize).take shardsLen,
        bytes.drop (paritySectionHeaderSize + shardsLen)⟩

variable (sec : ParitySection)

def stripeLen : ℕ := sec.k.toNat * sec.strip

variable (data : Bytes)

def dataShard (stripe shard : ℕ) : Bytes :=
  (data.drop (stripe * sec.stripeLen + shard * sec.strip)).take sec.strip

def parityShard (stripe shard : ℕ) : Bytes :=
  (sec.shards.drop ((stripe * sec.m.toNat + shard) * sec.strip)).take sec.strip

def shardHash (stripe idx : ℕ) : Bytes :=
  (sec.hashes.drop ((stripe * (sec.k.toNat + sec.m.toNat) + idx) * shardHashSize)).take
    shardHashSize

/-- The shards of a stripe are counted through, the data shards first. -/
def shard (stripe idx : ℕ) : Bytes :=
  if idx < sec.k.toNat then sec.dataShard data stripe idx
  else sec.parityShard stripe (idx - sec.k.toNat)

/-- The shards of a stripe. -/
def stripeShards (stripe : ℕ) : List Bytes :=
  (List.range (sec.k.toNat + sec.m.toNat)).map (sec.shard data stripe)

/-- The data shards of a stripe. -/
def stripeData (stripe : ℕ) : List Bytes :=
  (List.range sec.k.toNat).map (sec.dataShard data stripe)

end ParitySection

/-! ### Writing -/

/-- The counts are cut to 32 bits. -/
def sectionHeader (stripeCount : ℕ) (k m : UInt8) (strip : ℕ) : Bytes :=
  leBytes 4 stripeCount ++ [k, m] ++ [0, 0] ++ leBytes 4 strip

variable (blake3 : Bytes → HashOutput)

/-- `build_parity_section`. -/
def buildParitySection (data : Bytes) (k m : UInt8) (parity : Option (List Bytes)) : Option Bytes :=
  match parity with
  | none => none
  | some parity =>
    if parity = [] ∨ k = 0 ∨ m = 0 then none
    else
      let strip := (parity.headD []).length
      if strip = 0 ∨ parity.length % m.toNat ≠ 0 then none
      else
        let stripeCount := parity.length / m.toNat
        let stripeLen := k.toNat * strip
        if (∃ s ∈ parity, s.length ≠ strip) ∨ data.length < stripeCount * stripeLen then none
        else some (sectionHeader stripeCount k m strip ++ parity.flatten ++
          (List.range stripeCount).flatMap fun stripe =>
            ((List.range k.toNat).flatMap fun d =>
              (blake3 ((data.drop (stripe * stripeLen + d * strip)).take strip)).val) ++
            (List.range m.toNat).flatMap fun p =>
              (blake3 (parity.getD (stripe * m.toNat + p) [])).val)

/-- A sealed segment file, cut as its header says: the checksum there, the data section, and the
parity section if there is one. -/
structure SegmentFile where
  checksum : HashOutput
  data : Bytes
  parity : Option Bytes
  deriving DecidableEq

/-- What the checksum is over. -/
def SegmentFile.text (file : SegmentFile) : Bytes := file.data ++ file.parity.getD []

/-- `seal_from_data_with_contained`, up to the file that is written. -/
def sealFromData (kernel : Kernel) (data : Bytes) (k m : UInt8) (strip : ℕ) : Outcome SegmentFile :=
  (encodeSegmentParity kernel data k m strip).map fun shards =>
    let parity := buildParitySection blake3 data k m shards
    ⟨blake3 (data ++ parity.getD []), data, parity⟩

/-! ### Where the shards are -/

/-- The number of stripes that a file with a parity section has. -/
def SegmentFile.stripes (k : UInt8) (strip : ℕ) (file : SegmentFile) : ℕ :=
  match file.parity with
  | none => 0
  | some _ => file.data.length / (k.toNat * strip)

/-- The parity section of a file that was sealed with `k`, `m` and `strip`, whatever its header
says. -/
def SegmentFile.layout (k m : UInt8) (strip : ℕ) (file : SegmentFile) : ParitySection where
  stripeCount := file.stripes k strip
  k := k
  m := m
  strip := strip
  shards := ((file.parity.getD []).drop paritySectionHeaderSize).take
    (file.stripes k strip * m.toNat * strip)
  hashes := (file.parity.getD []).drop
    (paritySectionHeaderSize + file.stripes k strip * m.toNat * strip)

namespace ParitySection

variable {sec : ParitySection} {data : Bytes} {s i : ℕ}

lemma dataShard_eq : sec.dataShard data s i = piece sec.strip data (s * sec.k.toNat + i) := by
  rw [dataShard, piece, stripeLen, Nat.add_mul, Nat.mul_assoc]

lemma parityShard_eq : sec.parityShard s i = piece sec.strip sec.shards (s * sec.m.toNat + i) :=
  rfl

lemma length_stripeShards : (sec.stripeShards data s).length = sec.k.toNat + sec.m.toNat := by
  simp [stripeShards]

lemma getD_stripeShards (hi : i < sec.k.toNat + sec.m.toNat) :
    (sec.stripeShards data s).getD i [] = sec.shard data s i := by
  simp [stripeShards, getD_eq_getElem?_getD, hi]

lemma length_stripeData : (sec.stripeData data s).length = sec.k.toNat := by
  simp [stripeData]

lemma getD_stripeData (hi : i < sec.k.toNat) :
    (sec.stripeData data s).getD i [] = sec.dataShard data s i := by
  simp [stripeData, getD_eq_getElem?_getD, hi]

/-- The data covers the stripes, and the regions of the section have their lengths. -/
structure Shaped (sec : ParitySection) (data : Bytes) : Prop where
  data_le : sec.stripeCount * sec.stripeLen ≤ data.length
  shards_length : sec.shards.length = sec.stripeCount * sec.m.toNat * sec.strip
  hashes_length :
    sec.hashes.length = sec.stripeCount * (sec.k.toNat + sec.m.toNat) * shardHashSize

namespace Shaped

variable (h : sec.Shaped data)

include h

section

variable (hs : s < sec.stripeCount)

include hs

lemma data_end_le (hi : i < sec.k.toNat) :
    (s * sec.k.toNat + i + 1) * sec.strip ≤ data.length := by
  refine (Nat.mul_le_mul_right _ (index_lt hs hi)).trans ?_
  rw [Nat.mul_assoc]
  exact h.data_le

lemma shards_end_le (hi : i < sec.m.toNat) :
    (s * sec.m.toNat + i + 1) * sec.strip ≤ sec.shards.length := by
  rw [h.shards_length]
  exact Nat.mul_le_mul_right _ (index_lt hs hi)

lemma length_dataShard (hi : i < sec.k.toNat) :
    (sec.dataShard data s i).length = sec.strip := by
  rw [dataShard_eq]
  exact length_piece (h.data_end_le hs hi)

lemma length_shard (hi : i < sec.k.toNat + sec.m.toNat) :
    (sec.shard data s i).length = sec.strip := by
  rw [shard]
  split_ifs with hk
  · exact h.length_dataShard hs hk
  · rw [parityShard_eq]
    exact length_piece (h.shards_end_le hs (by omega))

lemma length_of_mem_stripeData :
    ∀ x ∈ sec.stripeData data s, x.length = sec.strip := by
  intro x hx
  obtain ⟨i, hi, rfl⟩ := mem_map.mp hx
  exact h.length_dataShard hs (mem_range.mp hi)

end

end Shaped

end ParitySection

/-! ### What the sealer writes -/

/-- The parity of a stripe as the encoder computes it. -/
def encodedParity (kernel : Kernel) (k : UInt8) (strip : ℕ) (dataShards : List Bytes) (p : ℕ) :
    Bytes :=
  accumulate kernel ((List.range k.toNat).map (coefficient k p)) dataShards strip

section

variable {kernel : Kernel} {data : Bytes} {k m : UInt8} {strip : ℕ} {shards : List Bytes}

lemma divCeil_mul {n d : ℕ} (hd : d ≠ 0) : divCeil (n * d) d = n := by
  rw [divCeil, if_pos (Nat.mul_mod_left n d), Nat.mul_div_cancel _ (Nat.pos_of_ne_zero hd)]

lemma stripOf_take {n s i : ℕ} (hk : k ≠ 0) (hstrip : strip ≠ 0)
    (hn : n * (k.toNat * strip) ≤ data.length) (hs : s < n) (hi : i < k.toNat) :
    stripOf (data.take (n * (k.toNat * strip)))
        (planOf (n * (k.toNat * strip)) k m strip) s i =
      piece strip data (s * k.toNat + i) := by
  have hd : k.toNat * strip ≠ 0 := Nat.mul_ne_zero (toNat_pos hk).ne' hstrip
  have hend : (s * k.toNat + i + 1) * strip ≤ n * (k.toNat * strip) := by
    rw [← Nat.mul_assoc]
    exact Nat.mul_le_mul_right _ (index_lt hs hi)
  rw [Nat.succ_mul] at hend
  have hpad : padded (data.take (n * (k.toNat * strip)))
      (planOf (n * (k.toNat * strip)) k m strip) = data.take (n * (k.toNat * strip)) := by
    simp only [padded, planOf, divCeil_mul hd, length_take, Nat.min_eq_left hn, Nat.sub_self,
      replicate_zero, append_nil]
  rw [stripOf, hpad, piece]
  change ((data.take (n * (k.toNat * strip))).drop ((s * k.toNat + i) * strip)).take strip = _
  rw [drop_take, take_take, Nat.min_eq_left (by omega)]

lemma compute_eq_ok {size : ℕ} {plan : EncodingPlan} (h : compute size k m strip = .ok plan) :
    k.toNat * strip < 2 ^ 64 ∧ plan = planOf size k m strip := by
  unfold compute at h
  split_ifs at h
  by_cases hword : k.toNat * strip < 2 ^ 64
  · rw [word_eq hword, ok_bind] at h
    simp only [word] at h
    split_ifs at h
    · exact ⟨hword, (Except.ok.inj h).symm⟩
    · cases h
  · rw [word, if_neg hword, error_bind] at h
    cases h

lemma encodeSegmentParity_some (hkernel : ∀ c d, (kernel c d).length = d.length)
    (h : encodeSegmentParity kernel data k m strip = .ok (some shards)) :
    k ≠ 0 ∧ m ≠ 0 ∧ strip ≠ 0 ∧ data.length / (k.toNat * strip) ≠ 0 ∧
      k.toNat + m.toNat ≤ 256 ∧
      shards = (List.range (data.length / (k.toNat * strip))).flatMap fun s =>
        (List.range m.toNat).map fun p => encodedParity kernel k strip
          ((List.range k.toNat).map fun d => piece strip data (s * k.toNat + d)) p := by
  unfold encodeSegmentParity at h
  split at h
  · cases h
  rename_i hzero
  simp only at h
  split at h
  · cases h
  rename_i hcomplete
  obtain ⟨hk, hm, hstrip⟩ : k ≠ 0 ∧ m ≠ 0 ∧ strip ≠ 0 := by
    simpa only [not_or, ← ne_eq] using hzero
  set n := data.length / (k.toNat * strip) with hn
  have hle : n * (k.toNat * strip) ≤ data.length := Nat.div_mul_le_self _ _
  have hd : k.toNat * strip ≠ 0 := Nat.mul_ne_zero (toNat_pos hk).ne' hstrip
  set segment := data.take (n * (k.toNat * strip)) with hsegment
  have hlen : segment.length = n * (k.toNat * strip) := length_take_of_le hle
  have hne : segment ≠ [] := by
    rw [← length_pos_iff, hlen]
    exact Nat.pos_of_ne_zero (Nat.mul_ne_zero hcomplete hd)
  cases hplan : compute (n * (k.toNat * strip)) k m strip with
  | error e =>
    rw [hplan, error_bind] at h
    cases e <;> simp at h
  | ok plan =>
    obtain ⟨hword, rfl⟩ := compute_eq_ok hplan
    have hp : Layout segment (planOf (n * (k.toNat * strip)) k m strip) := by
      rw [← hlen]
      exact layout_planOf hne hk hstrip
    rw [hplan, ok_bind] at h
    by_cases hbad : ¬ (planOf (n * (k.toNat * strip)) k m strip).stripeCount * strip < 2 ^ 63 ∨
        257 ≤ k.toNat + m.toNat
    · rw [hp.parallelEncode_panic kernel hword hbad] at h
      simp at h
    · obtain ⟨hbuf, htotal⟩ := not_or.mp hbad
      have htotal : k.toNat + m.toNat ≤ 256 := by omega
      rw [hp.parallelEncode_eq hkernel hword (not_not.mp hbuf) htotal] at h
      refine ⟨hk, hm, hstrip, hcomplete, htotal, ?_⟩
      simp only [Except.ok.injEq, Option.some.injEq] at h
      rw [← h, flatMap_def, flatMap_def]
      refine congrArg List.flatten (map_congr_left fun s hs => ?_)
      refine map_congr_left fun p hpar => ?_
      have hs := mem_range.mp hs
      have hcount : (planOf (n * (k.toNat * strip)) k m strip).stripeCount = n := divCeil_mul hd
      have hget : (batchOf kernel segment (planOf (n * (k.toNat * strip)) k m strip)).parity.getD
          p [] = joined (planOf (n * (k.toNat * strip)) k m strip) fun s =>
            stripeParity kernel segment (planOf (n * (k.toNat * strip)) k m strip) s p := by
        simp [batchOf, getD_eq_getElem?_getD, mem_range.mp hpar, planOf]
      rw [hget]
      have hstripe := @strip_joined (planOf (n * (k.toNat * strip)) k m strip) _
        (fun s' hs' => hp.length_stripeParity hkernel hs' p) _ (hcount.symm ▸ hs)
      refine Eq.trans hstripe ?_
      rw [stripeParity, encodedParity]
      congr 1
      refine map_congr_left fun i hi => ?_
      exact stripOf_take hk hstrip hle hs (mem_range.mp hi)

end

@[simp] lemma length_sectionHeader (n : ℕ) (k m : UInt8) (strip : ℕ) :
    (sectionHeader n k m strip).length = paritySectionHeaderSize := by
  simp [sectionHeader, paritySectionHeaderSize]

/-- The counts fit into the fields of the header. -/
def CountsFit (stripeCount strip : ℕ) : Prop := stripeCount < 2 ^ 32 ∧ strip < 2 ^ 32

instance (stripeCount strip : ℕ) : Decidable (CountsFit stripeCount strip) :=
  inferInstanceAs (Decidable (_ ∧ _))

lemma parse_eq {n strip : ℕ} {k m : UInt8} {body : Bytes} (hn : n ≠ 0) (hk : k ≠ 0) (hm : m ≠ 0)
    (hstrip : strip ≠ 0)
    (hlen : body.length = n * m.toNat * strip + n * (k.toNat + m.toNat) * shardHashSize) :
    ParitySection.parse (sectionHeader n k m strip ++ body) =
      if CountsFit n strip then some ⟨n, k, m, strip, body.take (n * m.toNat * strip),
        body.drop (n * m.toNat * strip)⟩
      else none := by
  have hheader := length_sectionHeader n k m strip
  have hcount : leNat ((sectionHeader n k m strip ++ body).take 4) = n % 2 ^ 32 := by
    rw [sectionHeader]
    simp only [append_assoc]
    rw [take_left' (length_leBytes 4 n), leNat_leBytes_mod]
    norm_num
  have hsize : leNat (((sectionHeader n k m strip ++ body).drop 8).take 4) = strip % 2 ^ 32 := by
    have hfront : (leBytes 4 n ++ [k, m] ++ [0, 0]).length = 8 := by simp
    rw [sectionHeader, append_assoc, drop_left' hfront,
      take_left' (length_leBytes 4 strip), leNat_leBytes_mod]
    norm_num
  have hget : (sectionHeader n k m strip ++ body).getD 4 0 = k ∧
      (sectionHeader n k m strip ++ body).getD 5 0 = m := by
    simp [sectionHeader, getD_eq_getElem?_getD, leBytes]
  have hbytes : (sectionHeader n k m strip ++ body).length =
      paritySectionHeaderSize + n * m.toNat * strip +
        n * (k.toNat + m.toNat) * shardHashSize := by
    rw [length_append, hheader, hlen]
    omega
  have hlt : ¬ (sectionHeader n k m strip ++ body).length < paritySectionHeaderSize := by
    rw [hbytes]
    omega
  simp only [ParitySection.parse, hlt, if_false, hcount, hget, hsize]
  by_cases hfits : CountsFit n strip
  · rw [Nat.mod_eq_of_lt hfits.1, Nat.mod_eq_of_lt hfits.2, if_neg (by simp [hn, hk, hm, hstrip]),
      if_neg (not_not.mpr hbytes), if_pos hfits, ← drop_drop, drop_left' hheader]
  · rw [if_neg hfits]
    split_ifs with hzero hne
    · rfl
    · rfl
    · exfalso
      rw [not_not, hbytes] at hne
      simp only [not_or] at hzero
      -- one of the counts is smaller than it was, and so is the length that is expected
      have hn' : n % 2 ^ 32 ≤ n := Nat.mod_le _ _
      have hstrip' : strip % 2 ^ 32 ≤ strip := Nat.mod_le _ _
      have hm0 : 0 < m.toNat := toNat_pos hm
      have hshards : n % 2 ^ 32 * m.toNat * (strip % 2 ^ 32) ≤ n * m.toNat * strip :=
        Nat.mul_le_mul (Nat.mul_le_mul_right _ hn') hstrip'
      have hhashes : n % 2 ^ 32 * (k.toNat + m.toNat) * shardHashSize ≤
          n * (k.toNat + m.toNat) * shardHashSize :=
        Nat.mul_le_mul_right _ (Nat.mul_le_mul_right _ hn')
      rcases not_and_or.mp hfits with hbig | hbig
      · have hn'' : n % 2 ^ 32 < n := by omega
        have : n % 2 ^ 32 * (k.toNat + m.toNat) * shardHashSize <
            n * (k.toNat + m.toNat) * shardHashSize :=
          Nat.mul_lt_mul_of_pos_right (Nat.mul_lt_mul_of_pos_right hn'' (by omega)) (by decide)
        omega
      · have hstrip'' : strip % 2 ^ 32 < strip := by omega
        have : n % 2 ^ 32 * m.toNat * (strip % 2 ^ 32) < n * m.toNat * strip :=
          Nat.mul_lt_mul_of_le_of_lt (Nat.mul_le_mul_right _ hn') hstrip''
            (Nat.mul_pos (Nat.pos_of_ne_zero hn) hm0)
        omega

/-- What holds of a sealed file with a parity section. -/
structure Sealed (kernel : Kernel) (k m : UInt8) (strip : ℕ) (file : SegmentFile) : Prop where
  k_ne_zero : k ≠ 0
  m_ne_zero : m ≠ 0
  strip_ne_zero : strip ≠ 0
  total_le : k.toNat + m.toNat ≤ 256
  stripes_ne_zero : file.stripes k strip ≠ 0
  parity_eq : file.parity = some (sectionHeader (file.stripes k strip) k m strip ++
    ((file.layout k m strip).shards ++ (file.layout k m strip).hashes))
  shaped : (file.layout k m strip).Shaped file.data
  parityShard_eq : ∀ s < file.stripes k strip, ∀ p < m.toNat,
    (file.layout k m strip).parityShard s p =
      encodedParity kernel k strip ((file.layout k m strip).stripeData file.data s) p
  shardHash_eq : ∀ s < file.stripes k strip, ∀ i < k.toNat + m.toNat,
    (file.layout k m strip).shardHash s i =
      (blake3 ((file.layout k m strip).shard file.data s i)).val

section

variable {blake3 : Bytes → HashOutput} {kernel : Kernel} {data : Bytes} {k m : UInt8} {strip : ℕ}

lemma buildParitySection_eq {n : ℕ} {f : ℕ → ℕ → Bytes} (hk : k ≠ 0) (hm : m ≠ 0)
    (hstrip : strip ≠ 0) (hn : n ≠ 0) (hdata : n * (k.toNat * strip) ≤ data.length)
    (hf : ∀ s < n, ∀ p < m.toNat, (f s p).length = strip) :
    buildParitySection blake3 data k m
        (some ((List.range n).flatMap fun s => (List.range m.toNat).map (f s))) =
      some (sectionHeader n k m strip ++
        (((List.range n).flatMap fun s => (List.range m.toNat).flatMap (f s)) ++
          (List.range n).flatMap fun s => (List.range (k.toNat + m.toNat)).flatMap fun i =>
            (blake3 (if i < k.toNat then piece strip data (s * k.toNat + i)
              else f s (i - k.toNat))).val)) := by
  have hm0 : m.toNat ≠ 0 := (toNat_pos hm).ne'
  -- the shards in one row
  have hrow : ((List.range n).flatMap fun s => (List.range m.toNat).map (f s)) =
      (List.range (n * m.toNat)).map fun j => f (j / m.toNat) (j % m.toNat) := by
    have := flatMap_flatMap_range n m.toNat fun s p => [f s p]
    simpa only [flatMap_singleton', ← map_eq_flatMap, ← flatMap_def] using this
  have hlen : ((List.range n).flatMap fun s => (List.range m.toNat).map (f s)).length =
      n * m.toNat := by
    rw [hrow, length_map, length_range]
  have hall : ∀ x ∈ (List.range n).flatMap fun s => (List.range m.toNat).map (f s),
      x.length = strip := by
    intro x hx
    obtain ⟨s, hs, hx⟩ := mem_flatMap.mp hx
    obtain ⟨p, hp, rfl⟩ := mem_map.mp hx
    exact hf s (mem_range.mp hs) p (mem_range.mp hp)
  have hget : ∀ s < n, ∀ p < m.toNat,
      ((List.range n).flatMap fun s => (List.range m.toNat).map (f s)).getD
        (s * m.toNat + p) [] = f s p := by
    intro s hs p hp
    rw [hrow]
    simp [getD_eq_getElem?_getD, index_lt hs hp, index_div hp, index_mod hp]
  have hflat : ((List.range n).flatMap fun s => (List.range m.toNat).map (f s)).flatten =
      (List.range n).flatMap fun s => (List.range m.toNat).flatMap (f s) := by
    simp only [flatMap_def, flatten_flatten, map_map, Function.comp_def]
  generalize (List.range n).flatMap (fun s => (List.range m.toNat).map (f s)) = parity at *
  have hne : parity ≠ [] := by
    rw [← length_pos_iff, hlen]
    exact Nat.pos_of_ne_zero (Nat.mul_ne_zero hn hm0)
  have hhead : (parity.headD []).length = strip := by
    obtain ⟨x, rest, rfl⟩ := exists_cons_of_ne_nil hne
    exact hall x mem_cons_self
  have hcount : parity.length / m.toNat = n := by
    rw [hlen, Nat.mul_div_cancel _ (Nat.pos_of_ne_zero hm0)]
  have hmod : parity.length % m.toNat = 0 := by
    rw [hlen, Nat.mul_mod_left]
  have huniform : ¬ ((∃ x ∈ parity, x.length ≠ strip) ∨ data.length < n * (k.toNat * strip)) := by
    rintro (⟨x, hx, hne⟩ | hlt)
    · exact hne (hall x hx)
    · omega
  simp only [buildParitySection, hne, hk, hm, or_self, if_false, hhead, hstrip, hcount, huniform,
    hmod, ne_eq, not_true_eq_false, hflat, append_assoc, Option.some.injEq, append_cancel_left_eq]
  rw [flatMap_def, flatMap_def]
  refine congrArg List.flatten (map_congr_left fun s hs => ?_)
  rw [range_add, flatMap_append, flatMap_map]
  refine congrArg₂ _ ?_ ?_
  · rw [flatMap_def, flatMap_def]
    refine congrArg List.flatten (map_congr_left fun d hd => ?_)
    rw [if_pos (mem_range.mp hd), piece, Nat.add_mul, Nat.mul_assoc]
  · rw [flatMap_def, flatMap_def]
    refine congrArg List.flatten (map_congr_left fun p hp => ?_)
    rw [if_neg (by omega), Nat.add_sub_cancel_left, hget s (mem_range.mp hs) p (mem_range.mp hp)]

lemma layout_of_parity {file : SegmentFile} {shards hashes : Bytes}
    (hparity : file.parity = some (sectionHeader (file.stripes k strip) k m strip ++
      (shards ++ hashes)))
    (hlen : shards.length = file.stripes k strip * m.toNat * strip) :
    (file.layout k m strip).shards = shards ∧ (file.layout k m strip).hashes = hashes := by
  have hheader := length_sectionHeader (file.stripes k strip) k m strip
  simp only [SegmentFile.layout, hparity, Option.getD_some]
  rw [← hlen, drop_left' hheader, take_left' rfl, ← drop_drop, drop_left' hheader, drop_left' rfl]
  exact ⟨rfl, rfl⟩

lemma sealed_of_parts {file : SegmentFile} {n : ℕ} {f : ℕ → ℕ → Bytes} (hk : k ≠ 0) (hm : m ≠ 0)
    (hstrip : strip ≠ 0) (htotal : k.toNat + m.toNat ≤ 256)
    (hn : n = file.data.length / (k.toNat * strip)) (hn0 : n ≠ 0)
    (hf : ∀ s < n, ∀ p < m.toNat, (f s p).length = strip)
    (hfeq : ∀ s p, f s p = encodedParity kernel k strip
      ((List.range k.toNat).map fun d => piece strip file.data (s * k.toNat + d)) p)
    (hparity : file.parity = some (sectionHeader n k m strip ++
      (((List.range n).flatMap fun s => (List.range m.toNat).flatMap (f s)) ++
        (List.range n).flatMap fun s => (List.range (k.toNat + m.toNat)).flatMap fun i =>
          (blake3 (if i < k.toNat then piece strip file.data (s * k.toNat + i)
            else f s (i - k.toNat))).val))) :
    Sealed blake3 kernel k m strip file := by
  have hdata : n * (k.toNat * strip) ≤ file.data.length := hn ▸ Nat.div_mul_le_self _ _
  obtain rfl : n = file.stripes k strip := by
    rw [SegmentFile.stripes, hparity]
    exact hn
  obtain ⟨hshards, hhashes⟩ := layout_of_parity hparity (length_grid hf)
  have hhash : ∀ s < file.stripes k strip, ∀ i < k.toNat + m.toNat,
      (blake3 (if i < k.toNat then piece strip file.data (s * k.toNat + i)
        else f s (i - k.toNat))).val.length = shardHashSize :=
    fun s _ i _ => (blake3 _).property
  have hshard : ∀ s < file.stripes k strip, ∀ p < m.toNat,
      (file.layout k m strip).parityShard s p = f s p := by
    intro s hs p hp
    rw [ParitySection.parityShard, hshards]
    exact slice_grid hf hs hp
  have hstripe : ∀ s, (file.layout k m strip).stripeData file.data s =
      (List.range k.toNat).map fun d => piece strip file.data (s * k.toNat + d) :=
    fun s => map_congr_left fun d _ => ParitySection.dataShard_eq
  refine ⟨hk, hm, hstrip, htotal, hn0, ?_, ⟨hdata, ?_, ?_⟩, ?_, ?_⟩
  · rw [hshards, hhashes]
    exact hparity
  · rw [hshards]
    exact length_grid hf
  · rw [hhashes]
    exact length_grid hhash
  · intro s hs p hp
    rw [hshard s hs p hp, hfeq, hstripe]
  · intro s hs i hi
    rw [ParitySection.shardHash, hhashes]
    refine (slice_grid hhash hs hi).trans (congrArg (fun x => (blake3 x).val) ?_)
    rw [ParitySection.shard]
    change _ = if i < k.toNat then _ else _
    split_ifs with hik
    · exact (@ParitySection.dataShard_eq (file.layout k m strip) _ _ _).symm
    · exact (hshard s hs _ (by omega)).symm

lemma sealed_of_encode (hkernel : ∀ c d, (kernel c d).length = d.length) {shards : List Bytes}
    (h : encodeSegmentParity kernel data k m strip = .ok (some shards)) (checksum : HashOutput) :
    Sealed blake3 kernel k m strip
      ⟨checksum, data, buildParitySection blake3 data k m (some shards)⟩ := by
  obtain ⟨hk, hm, hstrip, hn, htotal, rfl⟩ := encodeSegmentParity_some hkernel h
  have hle : data.length / (k.toNat * strip) * (k.toNat * strip) ≤ data.length :=
    Nat.div_mul_le_self _ _
  have hpiece : ∀ s < data.length / (k.toNat * strip), ∀ d < k.toNat,
      (piece strip data (s * k.toNat + d)).length = strip := by
    intro s hs d hd
    refine length_piece ((Nat.mul_le_mul_right _ (index_lt hs hd)).trans ?_)
    rwa [Nat.mul_assoc]
  have hf : ∀ s < data.length / (k.toNat * strip), ∀ p < m.toNat,
      (encodedParity kernel k strip
        ((List.range k.toNat).map fun d => piece strip data (s * k.toNat + d)) p).length =
        strip := by
    intro s hs p _
    refine length_accumulate hkernel fun x hx => ?_
    obtain ⟨d, hd, rfl⟩ := mem_map.mp hx
    exact hpiece s hs d (mem_range.mp hd)
  exact sealed_of_parts hk hm hstrip htotal rfl hn hf (fun _ _ => rfl)
    (buildParitySection_eq hk hm hstrip hn hle hf)

lemma sealed_of_seal (hkernel : ∀ c d, (kernel c d).length = d.length) {file : SegmentFile}
    (h : sealFromData blake3 kernel data k m strip = .ok file) :
    file.data = data ∧ file.checksum = blake3 file.text ∧
      (file.parity = none ∨ Sealed blake3 kernel k m strip file) := by
  unfold sealFromData at h
  cases henc : encodeSegmentParity kernel data k m strip with
  | error e =>
    rw [henc] at h
    cases h
  | ok parity =>
    rw [henc] at h
    obtain rfl := Except.ok.inj h
    refine ⟨rfl, rfl, ?_⟩
    cases parity with
    | none => exact .inl rfl
    | some shards => exact .inr (sealed_of_encode hkernel henc _)

end

end OceanFs.Segment
