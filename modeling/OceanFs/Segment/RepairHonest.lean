import OceanFs.Segment.Repair
import OceanFs.Ec.Simd

/-!
What a successful self-repair says about a sealed segment file.

The stripes are repaired to what they were; the call succeeds although the tail of the data or the
hash table is damaged, and fails although few shards are, when the parity was not computed in the
code's field.
-/

namespace OceanFs.Segment

open OceanFs.Core Ec Lib Lib.Slices List Option

/-! ### Damage -/

/-- A file after bytes of its data, of its parity shards and of its hash table have changed. -/
structure Damaged (sealed file : SegmentFile) : Prop where
  checksum_eq : file.checksum = sealed.checksum
  length_eq : file.data.length = sealed.data.length
  parity_length_eq : file.parity.map List.length = sealed.parity.map List.length
  header_eq : file.parity.map (List.take paritySectionHeaderSize) =
    sealed.parity.map (List.take paritySectionHeaderSize)

section

variable (k m : UInt8) (strip : ℕ) (sealed file : SegmentFile)

/-- The shards of a stripe that are not as they were sealed. -/
def damagedShards (s : ℕ) : List ℕ :=
  (List.range (k.toNat + m.toNat)).filter fun i =>
    (file.layout k m strip).shard file.data s i ≠
      (sealed.layout k m strip).shard sealed.data s i

/-- What the stripes do not cover is as it was sealed: the tail of the data and the hash table. -/
def Intact : Prop :=
  file.data.drop (sealed.stripes k strip * (k.toNat * strip)) =
      sealed.data.drop (sealed.stripes k strip * (k.toNat * strip)) ∧
    (file.layout k m strip).hashes = (sealed.layout k m strip).hashes

/-- No stripe has more damaged shards than parity. -/
def FewPerStripe : Prop :=
  ∀ s < sealed.stripes k strip, (damagedShards k m strip sealed file s).length ≤ m.toNat

instance : Decidable (Intact k m strip sealed file) := inferInstanceAs (Decidable (_ ∧ _))

instance : Decidable (FewPerStripe k m strip sealed file) :=
  inferInstanceAs (Decidable (∀ s < _, _))

/-- **Honest self-repair**: a success leaves the data as it was sealed and the file verified, and
damage that the parity covers ends in a success. -/
def Honest (blake3 : Bytes → HashOutput) (kernel : Kernel) : Prop :=
  (∀ n, (verifyAndRepairSegment blake3 kernel file).2 = .ok n →
    (verifyAndRepairSegment blake3 kernel file).1.data = sealed.data ∧
      (verifyAndRepairSegment blake3 kernel
        (verifyAndRepairSegment blake3 kernel file).1).2 = .ok 0) ∧
  (Intact k m strip sealed file ∧ FewPerStripe k m strip sealed file →
    ∃ n, (verifyAndRepairSegment blake3 kernel file).2 = .ok n)

/-- The strings that are hashed: what the checksum of the sealed, the damaged and the repaired file
is over, the shards of the first two, and the data shards that are decoded. -/
def considered (blake3 : Bytes → HashOutput) (kernel : Kernel) : List Bytes :=
  [sealed.text, file.text, (verifyAndRepairSegment blake3 kernel file).1.text] ++
    (List.range (sealed.stripes k strip)).flatMap fun s =>
      (sealed.layout k m strip).stripeShards sealed.data s ++
        (file.layout k m strip).stripeShards file.data s ++
        (decode (availableShards (file.layout k m strip) file.data s
          (corruptShards blake3 (file.layout k m strip) file.data s)) k m).toOption.getD []

/-- The shards from which a damaged stripe is decoded are those of the code word of its data. -/
def ParityRight : Prop :=
  ∀ s < sealed.stripes k strip, damagedShards k m strip sealed file s ≠ [] →
    ∀ i ∈ ((List.range (k.toNat + m.toNat)).filter
        (· ∉ damagedShards k m strip sealed file s)).take k.toNat,
      ((sealed.layout k m strip).stripeData sealed.data s ++
        parityShards k m ((sealed.layout k m strip).stripeData sealed.data s) strip).getD i [] =
          (sealed.layout k m strip).shard sealed.data s i

end

instance (k m : UInt8) (strip : ℕ) (sealed file : SegmentFile) :
    Decidable (ParityRight k m strip sealed file) :=
  inferInstanceAs (Decidable (∀ s < _, _ → ∀ i ∈ _, _ = _))

section

variable {blake3 : Bytes → HashOutput} {kernel : Kernel} {k m : UInt8} {strip : ℕ}
variable {sealed file : SegmentFile}

/-! ### The parts of a damaged file -/

/-- What a damaged file consists of. -/
structure Parts (k m : UInt8) (strip : ℕ) (sealed file : SegmentFile) : Prop where
  stripes_eq : file.stripes k strip = sealed.stripes k strip
  parity_eq : file.parity = some (sectionHeader (sealed.stripes k strip) k m strip ++
    ((file.layout k m strip).shards ++ (file.layout k m strip).hashes))
  shaped : (file.layout k m strip).Shaped file.data

lemma Damaged.parts (hsealed : Sealed blake3 kernel k m strip sealed) (h : Damaged sealed file) :
    Parts k m strip sealed file := by
  obtain ⟨bytes, hbytes⟩ : ∃ bytes, file.parity = some bytes := by
    have := h.parity_length_eq
    rw [hsealed.parity_eq, map_some, map_eq_some_iff] at this
    obtain ⟨bytes, hbytes, -⟩ := this
    exact ⟨bytes, hbytes⟩
  have hheaderlen := length_sectionHeader (sealed.stripes k strip) k m strip
  have hlen : bytes.length = paritySectionHeaderSize +
      (sealed.stripes k strip * m.toNat * strip +
        sealed.stripes k strip * (k.toNat + m.toNat) * shardHashSize) := by
    have := h.parity_length_eq
    rw [hsealed.parity_eq, hbytes, map_some, map_some, some.injEq, length_append, length_append,
      hheaderlen, hsealed.shaped.shards_length, hsealed.shaped.hashes_length] at this
    exact this
  have hheader : bytes.take paritySectionHeaderSize =
      sectionHeader (sealed.stripes k strip) k m strip := by
    have := h.header_eq
    rwa [hsealed.parity_eq, hbytes, map_some, map_some, some.injEq, take_left' hheaderlen] at this
  have hstripes : file.stripes k strip = sealed.stripes k strip := by
    rw [SegmentFile.stripes, SegmentFile.stripes, hbytes, hsealed.parity_eq]
    simp only [h.length_eq]
  have hshards : (file.layout k m strip).shards = (bytes.drop paritySectionHeaderSize).take
      (sealed.stripes k strip * m.toNat * strip) := by
    simp only [SegmentFile.layout, hstripes, hbytes, getD_some]
  have hhashes : (file.layout k m strip).hashes = (bytes.drop paritySectionHeaderSize).drop
      (sealed.stripes k strip * m.toNat * strip) := by
    simp only [SegmentFile.layout, hstripes, hbytes, getD_some, drop_drop]
  have hcount : (file.layout k m strip).stripeCount = sealed.stripes k strip := hstripes
  refine ⟨hstripes, ?_, ⟨?_, ?_, ?_⟩⟩
  · rw [hshards, hhashes, take_append_drop, ← hheader, take_append_drop, hbytes]
  · rw [hcount, h.length_eq]
    exact hsealed.shaped.data_le
  · rw [hcount, hshards, length_take, length_drop, hlen]
    change min _ _ = sealed.stripes k strip * m.toNat * strip
    omega
  · rw [hcount, hhashes, length_drop, length_drop, hlen]
    change _ = sealed.stripes k strip * (k.toNat + m.toNat) * shardHashSize
    omega

@[simp] lemma layout_k : (file.layout k m strip).k = k := rfl

@[simp] lemma layout_m : (file.layout k m strip).m = m := rfl

@[simp] lemma layout_strip : (file.layout k m strip).strip = strip := rfl

lemma layout_shard_data {s i : ℕ} (hi : i < k.toNat) :
    (file.layout k m strip).shard file.data s i = piece strip file.data (s * k.toNat + i) :=
  (if_pos hi).trans ParitySection.dataShard_eq

lemma layout_shard_parity {s i : ℕ} :
    (file.layout k m strip).shard file.data s (k.toNat + i) =
      piece strip (file.layout k m strip).shards (s * m.toNat + i) := by
  rw [ParitySection.shard, layout_k, if_neg (by omega), Nat.add_sub_cancel_left]
  rfl

lemma Parts.stripeCount_eq (h : Parts k m strip sealed file) :
    (file.layout k m strip).stripeCount = sealed.stripes k strip := h.stripes_eq

namespace Parts

variable (h : Parts k m strip sealed file) (hsealed : Sealed blake3 kernel k m strip sealed)

include h hsealed

lemma parse_eq {bytes : Bytes} (hbytes : file.parity = some bytes) :
    ParitySection.parse bytes =
      if CountsFit (sealed.stripes k strip) strip then some (file.layout k m strip) else none := by
  have hshards := h.shaped.shards_length
  have hhashes := h.shaped.hashes_length
  rw [h.stripeCount_eq, layout_m, layout_strip] at hshards
  rw [h.stripeCount_eq, layout_m, layout_k] at hhashes
  obtain rfl := some.inj (hbytes.symm.trans h.parity_eq)
  rw [Segment.parse_eq hsealed.stripes_ne_zero hsealed.k_ne_zero hsealed.m_ne_zero
    hsealed.strip_ne_zero (by rw [length_append, hshards, hhashes]),
    take_left' hshards, drop_left' hshards]
  congr 2
  rw [← h.stripeCount_eq]
  rfl

variable (hcheck : blake3 file.text ≠ file.checksum)

include hcheck

lemma verify_not_fit (hfit : ¬ CountsFit (sealed.stripes k strip) strip) :
    verifyAndRepairSegment blake3 kernel file = (file, .error .segmentCorrupt) := by
  have hparse := h.parse_eq hsealed h.parity_eq
  rw [if_neg hfit] at hparse
  rw [verifyAndRepairSegment, if_neg hcheck]
  simp only [h.parity_eq, hparse]

lemma verify_fit (hfit : CountsFit (sealed.stripes k strip) strip) :
    verifyAndRepairSegment blake3 kernel file =
      finishRepair (repairStripes blake3 kernel (file.layout k m strip) file.data
        (List.range (file.layout k m strip).stripeCount) file 0) := by
  have hparse := h.parse_eq hsealed h.parity_eq
  rw [if_pos hfit] at hparse
  have hle := h.shaped.data_le
  rw [verifyAndRepairSegment, if_neg hcheck]
  simp only [h.parity_eq, hparse, Nat.not_lt.mpr hle, if_false]

end Parts

/-- The file after a repair with what the stripes decode to. -/
def repairedFile (blake3 : Bytes → HashOutput) (kernel : Kernel) (k m : UInt8) (strip : ℕ)
    (sealed file : SegmentFile) (recovered : ℕ → List Bytes) : SegmentFile where
  checksum := file.checksum
  data := rewrittenData blake3 (file.layout k m strip) file.data recovered
    (List.range (file.layout k m strip).stripeCount) file.data
  parity := some (sectionHeader (sealed.stripes k strip) k m strip ++
    (rewrittenShards blake3 kernel (file.layout k m strip) file.data recovered
      (List.range (file.layout k m strip).stripeCount) (file.layout k m strip).shards ++
        (file.layout k m strip).hashes))

namespace Parts

lemma exists_recovered {sec : ParitySection} {data : Bytes}
    (hpass : ∀ s < sec.stripeCount, Clean blake3 sec data s ∨ Repairable blake3 sec data s) :
    ∃ recovered : ℕ → List Bytes, ∀ s < sec.stripeCount,
      Passing blake3 sec data s (recovered s) := by
  have hall : ∀ s, ∃ d, s < sec.stripeCount → Passing blake3 sec data s d := by
    intro s
    by_cases hs : s < sec.stripeCount
    · rcases hpass s hs with hclean | ⟨hfew, d, hd⟩
      · exact ⟨[], fun _ => .inl hclean⟩
      · exact ⟨d, fun _ => .inr ⟨hfew, hd⟩⟩
    · exact ⟨[], fun hs' => absurd hs' hs⟩
  choose recovered hrec using hall
  exact ⟨recovered, hrec⟩

variable (h : Parts k m strip sealed file) (hsealed : Sealed blake3 kernel k m strip sealed)
  (hkernel : ∀ c d, (kernel c d).length = d.length)

include h hsealed hkernel

lemma repairStripes_eq {recovered : ℕ → List Bytes}
    (hpass : ∀ s < (file.layout k m strip).stripeCount,
      Passing blake3 (file.layout k m strip) file.data s (recovered s)) :
    repairStripes blake3 kernel (file.layout k m strip) file.data
        (List.range (file.layout k m strip).stripeCount) file 0 =
      (repairedFile blake3 kernel k m strip sealed file recovered,
        .ok ((List.range (file.layout k m strip).stripeCount).filter fun s =>
          corruptShards blake3 (file.layout k m strip) file.data s ≠ []).length) := by
  have hfile : file = ⟨file.checksum, file.data, some
      (sectionHeader (sealed.stripes k strip) k m strip ++
        ((file.layout k m strip).shards ++ (file.layout k m strip).hashes))⟩ := by
    rw [← h.parity_eq]
  have hloop := @repairStripes_ok blake3 kernel (file.layout k m strip) file.data hkernel
    hsealed.k_ne_zero hsealed.total_le h.shaped recovered file.checksum _
    (file.layout k m strip).hashes (length_sectionHeader (sealed.stripes k strip) k m strip)
    (List.range (file.layout k m strip).stripeCount) (fun s hs => mem_range.mp hs)
    (fun s hs => hpass s (mem_range.mp hs)) file.data _ rfl 0
  rw [← hfile, Nat.zero_add] at hloop
  exact hloop

lemma verify_ok (hcheck : blake3 file.text ≠ file.checksum)
    (hfit : CountsFit (sealed.stripes k strip) strip) {recovered : ℕ → List Bytes}
    (hpass : ∀ s < (file.layout k m strip).stripeCount,
      Passing blake3 (file.layout k m strip) file.data s (recovered s))
    (hsome : ∃ s < (file.layout k m strip).stripeCount,
      ¬ Clean blake3 (file.layout k m strip) file.data s) :
    ∃ n, verifyAndRepairSegment blake3 kernel file =
      (repairedFile blake3 kernel k m strip sealed file recovered, .ok (n + 1)) := by
  obtain ⟨s, hs, hclean⟩ := hsome
  obtain ⟨n, hn⟩ : ∃ n, ((List.range (file.layout k m strip).stripeCount).filter fun s =>
      corruptShards blake3 (file.layout k m strip) file.data s ≠ []).length = n + 1 := by
    refine Nat.exists_eq_succ_of_ne_zero (length_pos_of_mem (a := s) ?_).ne'
    exact mem_filter.mpr ⟨mem_range.mpr hs,
      decide_eq_true (mt corruptShards_eq_nil.mp hclean)⟩
  refine ⟨n, ?_⟩
  rw [h.verify_fit hsealed hcheck hfit, h.repairStripes_eq hsealed hkernel hpass, hn]
  rfl

lemma verify_error (hcheck : blake3 file.text ≠ file.checksum)
    (hfit : CountsFit (sealed.stripes k strip) strip)
    (hpass : ¬ Passes blake3 (file.layout k m strip) file.data) :
    ∃ file' e, verifyAndRepairSegment blake3 kernel file = (file', .error e) := by
  rw [h.verify_fit hsealed hcheck hfit]
  by_cases hall : ∀ s < (file.layout k m strip).stripeCount,
      Clean blake3 (file.layout k m strip) file.data s ∨
        Repairable blake3 (file.layout k m strip) file.data s
  · have hclean : ∀ s < (file.layout k m strip).stripeCount,
        Clean blake3 (file.layout k m strip) file.data s := by
      intro s hs
      by_contra hne
      exact hpass ⟨⟨s, hs, hne⟩, hall⟩
    obtain ⟨recovered, hrec⟩ := exists_recovered hall
    have hzero : ((List.range (file.layout k m strip).stripeCount).filter fun s =>
        corruptShards blake3 (file.layout k m strip) file.data s ≠ []) = [] := by
      rw [filter_eq_nil_iff]
      intro s hs hne
      exact of_decide_eq_true hne (corruptShards_eq_nil.mpr (hclean s (mem_range.mp hs)))
    rw [h.repairStripes_eq hsealed hkernel hrec, hzero]
    exact ⟨_, _, rfl⟩
  · push Not at hall
    obtain ⟨s, hs, hbad⟩ := hall
    obtain ⟨file', e, heq⟩ := @repairStripes_error blake3 kernel (file.layout k m strip) file.data
      hsealed.k_ne_zero hsealed.total_le h.shaped
      (List.range (file.layout k m strip).stripeCount) (fun s hs => mem_range.mp hs)
      ⟨s, mem_range.mpr hs, hbad⟩ file 0
    rw [heq]
    exact ⟨file', e, rfl⟩

end Parts

/-! ### An intact hash table -/

lemma mem_damagedShards {s i : ℕ} (hi : i < k.toNat + m.toNat) :
    i ∈ damagedShards k m strip sealed file s ↔
      (file.layout k m strip).shard file.data s i ≠
        (sealed.layout k m strip).shard sealed.data s i := by
  simp [damagedShards, hi]

section

variable (hsealed : Sealed blake3 kernel k m strip sealed)
  (hcoll : NoCollisions blake3 (considered k m strip sealed file blake3 kernel))
  (hintact : Intact k m strip sealed file)

include hsealed hintact

lemma shardHash_eq_sealed {s i : ℕ} (hs : s < sealed.stripes k strip) (hi : i < k.toNat + m.toNat) :
    (file.layout k m strip).shardHash s i =
      (blake3 ((sealed.layout k m strip).shard sealed.data s i)).val := by
  rw [← hsealed.shardHash_eq s hs i hi]
  simp only [ParitySection.shardHash, hintact.2, layout_k, layout_m]

include hcoll

lemma matches_iff {s i : ℕ} (hs : s < sealed.stripes k strip) (hi : i < k.toNat + m.toNat) :
    Matches blake3 (file.layout k m strip) file.data s i ↔
      (file.layout k m strip).shard file.data s i =
        (sealed.layout k m strip).shard sealed.data s i := by
  have hmem : ∀ x ∈ (sealed.layout k m strip).stripeShards sealed.data s ++
      (file.layout k m strip).stripeShards file.data s,
      x ∈ considered k m strip sealed file blake3 kernel := fun x hx =>
    mem_append_right _ (mem_flatMap.mpr ⟨s, mem_range.mpr hs, mem_append_left _ hx⟩)
  have hrange : i ∈ List.range (k.toNat + m.toNat) := mem_range.mpr hi
  rw [Matches, shardHash_eq_sealed hsealed hintact hs hi, ← Subtype.ext_iff]
  exact ⟨hcoll _ (hmem _ (mem_append_right _ (List.mem_map_of_mem hrange))) _
    (hmem _ (mem_append_left _ (List.mem_map_of_mem hrange))), fun heq => by rw [heq]⟩

lemma corruptShards_eq {s : ℕ} (hs : s < sealed.stripes k strip) :
    corruptShards blake3 (file.layout k m strip) file.data s =
      damagedShards k m strip sealed file s := by
  refine filter_congr fun i hi => decide_eq_decide.mpr (not_congr ?_)
  exact matches_iff hsealed hcoll hintact hs (mem_range.mp hi)

lemma clean_iff {s : ℕ} (hs : s < sealed.stripes k strip) :
    Clean blake3 (file.layout k m strip) file.data s ↔
      damagedShards k m strip sealed file s = [] := by
  rw [← corruptShards_eq_nil, corruptShards_eq hsealed hcoll hintact hs]

lemma matching_eq {s : ℕ} (hs : s < sealed.stripes k strip) :
    ((List.range (k.toNat + m.toNat)).filter
        (Matches blake3 (file.layout k m strip) file.data s ·)) =
      (List.range (k.toNat + m.toNat)).filter (· ∉ damagedShards k m strip sealed file s) := by
  refine filter_congr fun i hi => decide_eq_decide.mpr ?_
  have hi := mem_range.mp hi
  rw [matches_iff hsealed hcoll hintact hs hi, mem_damagedShards hi, not_not]

section

variable (h : Parts k m strip sealed file)

include h

/-- Data shards that explain a stripe are those that were sealed, and the shards they are decoded
from are those of their code word. -/
lemma explains_iff {s : ℕ} (hs : s < sealed.stripes k strip)
    (hfew : (damagedShards k m strip sealed file s).length ≤ m.toNat) {d : List Bytes} :
    Explains blake3 (file.layout k m strip) file.data s d ↔
      d = (sealed.layout k m strip).stripeData sealed.data s ∧
        ∀ i ∈ ((List.range (k.toNat + m.toNat)).filter
            (· ∉ damagedShards k m strip sealed file s)).take k.toNat,
          ((sealed.layout k m strip).stripeData sealed.data s ++
            parityShards k m ((sealed.layout k m strip).stripeData sealed.data s) strip).getD i []
              = (sealed.layout k m strip).shard sealed.data s i := by
  have hs' : s < (file.layout k m strip).stripeCount := hs.trans_eq h.stripes_eq.symm
  have hmatch := matching_eq hsealed hcoll hintact hs
  have hhash : ∀ i < k.toNat, (file.layout k m strip).shardHash s i =
      (blake3 ((sealed.layout k m strip).dataShard sealed.data s i)).val := by
    intro i hi
    have hshard : (sealed.layout k m strip).shard sealed.data s i =
        (sealed.layout k m strip).dataShard sealed.data s i := if_pos hi
    rw [← hshard, shardHash_eq_sealed hsealed hintact hs (by omega)]
  -- the shards that are taken are as they were sealed
  have hshard : ∀ i ∈ ((List.range (k.toNat + m.toNat)).filter
      (· ∉ damagedShards k m strip sealed file s)).take k.toNat,
      (file.layout k m strip).shard file.data s i =
        (sealed.layout k m strip).shard sealed.data s i := by
    intro i hi
    obtain ⟨hi, hout⟩ := mem_filter.mp (mem_of_mem_take hi)
    exact not_not.mp (mt (mem_damagedShards (mem_range.mp hi)).mpr (of_decide_eq_true hout))
  constructor
  · intro hd
    have hword := hd.codeword_eq
    have hdec := (decode_availableShards hsealed.k_ne_zero hsealed.total_le h.shaped hs'
      ((corruptShards_eq hsealed hcoll hintact hs).symm ▸ hfew)).mpr
        ⟨hd.length_eq, hd.length_of_mem, hword⟩
    have hmem : ∀ x ∈ d, x ∈ considered k m strip sealed file blake3 kernel := by
      intro x hx
      refine mem_append_right _ (mem_flatMap.mpr ⟨s, mem_range.mpr hs, mem_append_right _ ?_⟩)
      change x ∈ (decode (availableShards (file.layout k m strip) file.data s
        (corruptShards blake3 (file.layout k m strip) file.data s)) (file.layout k m strip).k
          (file.layout k m strip).m).toOption.getD []
      rw [hdec]
      exact hx
    have hmem' : ∀ i < k.toNat, (sealed.layout k m strip).dataShard sealed.data s i ∈
        considered k m strip sealed file blake3 kernel := by
      intro i hi
      refine mem_append_right _ (mem_flatMap.mpr ⟨s, mem_range.mpr hs, ?_⟩)
      refine mem_append_left _ (mem_append_left _ (List.mem_map.mpr ⟨i, ?_, if_pos hi⟩))
      exact mem_range.mpr (Nat.lt_add_right _ hi)
    obtain rfl : d = (sealed.layout k m strip).stripeData sealed.data s := by
      refine ext_getElem (hd.length_eq.trans ParitySection.length_stripeData.symm)
        fun i hi hi' => ?_
      have hik : i < k.toNat := hd.length_eq ▸ hi
      have hval := (hd.hash_eq i hik).trans (hhash i hik)
      rw [getD_eq_getElem _ _ hi, ← Subtype.ext_iff] at hval
      have heq := hcoll _ (hmem _ (getElem_mem hi)) _ (hmem' i hik) hval
      rw [heq, ← ParitySection.getD_stripeData hik, getD_eq_getElem _ _ hi']
    refine ⟨rfl, fun i hi => ?_⟩
    rw [← hshard i hi]
    exact hword i (hmatch.symm ▸ hi)
  · rintro ⟨rfl, hright⟩
    refine ⟨ParitySection.length_stripeData, hsealed.shaped.length_of_mem_stripeData hs,
      fun i hi => ?_, fun i hi => ?_⟩
    · rw [@ParitySection.getD_stripeData (sealed.layout k m strip) _ _ _ hi]
      exact (hhash i hi).symm
    · have hi' : i ∈ ((List.range (k.toNat + m.toNat)).filter
          (· ∉ damagedShards k m strip sealed file s)).take k.toNat := hmatch ▸ hi
      rw [hshard i hi']
      exact hright i hi'

lemma repairable_iff {s : ℕ} (hs : s < sealed.stripes k strip) :
    Repairable blake3 (file.layout k m strip) file.data s ↔
      (damagedShards k m strip sealed file s).length ≤ m.toNat ∧
        Explains blake3 (file.layout k m strip) file.data s
          ((sealed.layout k m strip).stripeData sealed.data s) := by
  have hcorrupt := corruptShards_eq hsealed hcoll hintact hs
  constructor
  · rintro ⟨hfew, d, hd⟩
    change (corruptShards blake3 (file.layout k m strip) file.data s).length ≤ m.toNat at hfew
    rw [hcorrupt] at hfew
    obtain ⟨rfl, -⟩ := (explains_iff hsealed hcoll hintact h hs hfew).mp hd
    exact ⟨hfew, hd⟩
  · rintro ⟨hfew, hd⟩
    refine ⟨?_, _, hd⟩
    change (corruptShards blake3 (file.layout k m strip) file.data s).length ≤ m.toNat
    rwa [hcorrupt]

lemma rewrittenData_eq (hdam : Damaged sealed file) :
    rewrittenData blake3 (file.layout k m strip) file.data
      ((sealed.layout k m strip).stripeData sealed.data)
      (List.range (file.layout k m strip).stripeCount) file.data = sealed.data := by
  have hn : sealed.stripes k strip * k.toNat * strip ≤ sealed.data.length := by
    rw [Nat.mul_assoc]
    exact hsealed.shaped.data_le
  have htail := hintact.1
  rw [← Nat.mul_assoc] at htail
  refine Eq.trans ?_ (@foldl_foldl_writeAt _ _ _ _ (Nat.pos_of_ne_zero hsealed.strip_ne_zero) _ _
    hdam.length_eq hn
    (fun s => (damagedShards k m strip sealed file s).filter (· < k.toNat))
    (fun s _ i hi => of_decide_eq_true (mem_filter.mp hi).2) ?_ htail)
  · rw [h.stripeCount_eq]
    refine foldl_ext _ _ _ fun buf s hs => ?_
    rw [rewriteData, corruptShards_eq hsealed hcoll hintact (mem_range.mp hs)]
    refine foldl_ext _ _ _ fun buf i hi => ?_
    have hik : i < k.toNat := of_decide_eq_true (mem_filter.mp hi).2
    rw [@ParitySection.getD_stripeData (sealed.layout k m strip) _ _ _ hik,
      ParitySection.dataShard_eq, ParitySection.stripeLen, ← Nat.mul_assoc, ← Nat.add_mul]
    rfl
  · intro s hs i hi hgood
    have hout : i ∉ damagedShards k m strip sealed file s := fun hin =>
      hgood (mem_filter.mpr ⟨hin, decide_eq_true hi⟩)
    have hshard := not_not.mp (mt (mem_damagedShards (by omega)).mpr hout)
    rwa [layout_shard_data hi, layout_shard_data hi] at hshard

lemma rewrittenShards_eq :
    rewrittenShards blake3 kernel (file.layout k m strip) file.data
      ((sealed.layout k m strip).stripeData sealed.data)
      (List.range (file.layout k m strip).stripeCount) (file.layout k m strip).shards =
        (sealed.layout k m strip).shards := by
  have hlen : (file.layout k m strip).shards.length =
      sealed.stripes k strip * m.toNat * strip := by
    rw [h.shaped.shards_length, h.stripeCount_eq]
    rfl
  have hlen' : (sealed.layout k m strip).shards.length =
      sealed.stripes k strip * m.toNat * strip := hsealed.shaped.shards_length
  have htail : (file.layout k m strip).shards.drop (sealed.stripes k strip * m.toNat * strip) =
      (sealed.layout k m strip).shards.drop (sealed.stripes k strip * m.toNat * strip) := by
    rw [drop_eq_nil_of_le hlen.le, drop_eq_nil_of_le hlen'.le]
  refine Eq.trans ?_ (@foldl_foldl_writeAt _ _ _ _ (Nat.pos_of_ne_zero hsealed.strip_ne_zero) _ _
    (hlen.trans hlen'.symm) hlen'.ge
    (fun s => ((damagedShards k m strip sealed file s).filter (k.toNat ≤ ·)).map (· - k.toNat))
    (fun s _ i hi => ?_) ?_ htail)
  · rw [h.stripeCount_eq]
    refine foldl_ext _ _ _ fun buf s hs => ?_
    have hs := mem_range.mp hs
    rw [rewriteShards, corruptShards_eq hsealed hcoll hintact hs, foldl_map]
    refine foldl_ext _ _ _ fun buf p hp => ?_
    obtain ⟨hp, hle⟩ := mem_filter.mp hp
    have hle : k.toNat ≤ p := of_decide_eq_true hle
    have hlt := mem_range.mp (mem_of_mem_filter hp)
    have hpm : p - k.toNat < m.toNat := by omega
    have hget : ((List.range (file.layout k m strip).m.toNat).map
        (encodedParity kernel (file.layout k m strip).k (file.layout k m strip).strip
          ((sealed.layout k m strip).stripeData sealed.data s))).getD
            (p - (file.layout k m strip).k.toNat) [] =
        (sealed.layout k m strip).parityShard s (p - k.toNat) := by
      rw [hsealed.parityShard_eq s hs _ hpm]
      simp [getD_eq_getElem?_getD, hpm]
    rw [hget]
    rfl
  · obtain ⟨p, hp, rfl⟩ := List.mem_map.mp hi
    obtain ⟨hp, hle⟩ := mem_filter.mp hp
    have hlt := mem_range.mp (mem_of_mem_filter hp)
    have hle : k.toNat ≤ p := of_decide_eq_true hle
    omega
  · intro s hs i hi hgood
    have hout : k.toNat + i ∉ damagedShards k m strip sealed file s := fun hin =>
      hgood (List.mem_map.mpr ⟨k.toNat + i, mem_filter.mpr
        ⟨hin, decide_eq_true (Nat.le_add_right _ _)⟩, Nat.add_sub_cancel_left _ _⟩)
    have hshard := not_not.mp (mt (mem_damagedShards (by omega)).mpr hout)
    rwa [layout_shard_parity, layout_shard_parity] at hshard

lemma repairedFile_eq (hdam : Damaged sealed file) :
    repairedFile blake3 kernel k m strip sealed file
      ((sealed.layout k m strip).stripeData sealed.data) = sealed := by
  rw [repairedFile, rewrittenData_eq hsealed hcoll hintact h hdam,
    rewrittenShards_eq hsealed hcoll hintact h, hintact.2, ← hsealed.parity_eq, hdam.checksum_eq]

end

end

/-! ### The tail and the hash table -/

lemma Parts.intact_of_repaired (h : Parts k m strip sealed file)
    (hsealed : Sealed blake3 kernel k m strip sealed)
    (hkernel : ∀ c d, (kernel c d).length = d.length) (hdam : Damaged sealed file)
    {recovered : ℕ → List Bytes}
    (hpass : ∀ s < (file.layout k m strip).stripeCount,
      Passing blake3 (file.layout k m strip) file.data s (recovered s))
    (htext : (repairedFile blake3 kernel k m strip sealed file recovered).text = sealed.text) :
    Intact k m strip sealed file := by
  have hcount := h.stripeCount_eq
  set N := sealed.stripes k strip * (k.toNat * strip) with hN
  have hle : N ≤ file.data.length := by
    rw [hdam.length_eq]
    exact hsealed.shaped.data_le
  have hlt : ∀ s ∈ List.range (file.layout k m strip).stripeCount,
      s < (file.layout k m strip).stripeCount := fun s hs => mem_range.mp hs
  have hpass' : ∀ s ∈ List.range (file.layout k m strip).stripeCount,
      Passing blake3 (file.layout k m strip) file.data s (recovered s) :=
    fun s hs => hpass s (mem_range.mp hs)
  have hfront : (file.data.take N).length =
      (file.layout k m strip).stripeCount * (file.layout k m strip).stripeLen := by
    rw [length_take_of_le hle, hcount]
    rfl
  obtain ⟨front, hdata, hlen⟩ := @rewrittenData_append blake3 (file.layout k m strip) file.data
    recovered _ hlt hpass' _ (file.data.drop N) hfront
  rw [take_append_drop] at hdata
  rw [length_take_of_le hle] at hlen
  have hshards := length_rewrittenShards hkernel h.shaped _ hlt hpass' rfl
  -- the texts are equal part by part
  simp only [SegmentFile.text, repairedFile, hdata, hsealed.parity_eq, getD_some] at htext
  have hdatalen : (front ++ file.data.drop N).length = sealed.data.length := by
    rw [length_append, hlen, length_drop, ← hdam.length_eq]
    omega
  obtain ⟨hdataeq, hparity⟩ := append_inj htext hdatalen
  have hbody := append_cancel_left hparity
  have hshardslen : (file.layout k m strip).shards.length =
      (sealed.layout k m strip).shards.length := by
    rw [h.shaped.shards_length, hsealed.shaped.shards_length, hcount]
    rfl
  refine ⟨?_, (append_inj hbody (hshards.trans hshardslen)).2⟩
  rw [← hN, ← hdataeq, drop_left' hlen]

/-! ### Honest self-repair -/

lemma Damaged.eq_of_text (h : Damaged sealed file) (htext : file.text = sealed.text) :
    file = sealed := by
  obtain ⟨checksum, data, parity⟩ := file
  obtain ⟨checksum', data', parity'⟩ := sealed
  obtain ⟨hdata, hparity⟩ := append_inj htext h.length_eq
  have hlen := h.parity_length_eq
  obtain rfl : checksum = checksum' := h.checksum_eq
  obtain rfl : data = data' := hdata
  cases parity <;> cases parity' <;> simp_all

lemma Damaged.checksum_ne (h : Damaged sealed file) (hsum : sealed.checksum = blake3 sealed.text)
    (hcoll : NoCollisions blake3 (considered k m strip sealed file blake3 kernel))
    (hne : file ≠ sealed) : blake3 file.text ≠ file.checksum := by
  rw [h.checksum_eq, hsum]
  intro heq
  exact hne (h.eq_of_text (hcoll _ (by simp [considered]) _ (by simp [considered]) heq))

lemma honest_sealed (hsum : sealed.checksum = blake3 sealed.text) :
    Honest k m strip sealed sealed blake3 kernel := by
  have hverify : verifyAndRepairSegment blake3 kernel sealed = (sealed, .ok 0) := by
    rw [verifyAndRepairSegment, if_pos hsum.symm]
  rw [Honest, hverify]
  exact ⟨fun _ _ => ⟨rfl, by rw [hverify]⟩, fun _ => ⟨0, rfl⟩⟩

lemma honest_of_error (h : ∃ file' e, verifyAndRepairSegment blake3 kernel file = (file', .error e))
    :
    Honest k m strip sealed file blake3 kernel ↔
      ¬ (Intact k m strip sealed file ∧ FewPerStripe k m strip sealed file) := by
  obtain ⟨file', e, h⟩ := h
  rw [Honest, h]
  simp

/-- When a call is honest: nothing is damaged; or only shards are, and if these are few, the parity
is what the code computes; or a damaged tail or hash table keeps the call from passing. -/
def HonestWhen (blake3 : Bytes → HashOutput) (k m : UInt8) (strip : ℕ) (sealed file : SegmentFile) :
    Prop :=
  file = sealed ∨
  Intact k m strip sealed file ∧ (FewPerStripe k m strip sealed file →
    CountsFit (sealed.stripes k strip) strip ∧ ParityRight k m strip sealed file) ∨
  ¬ Intact k m strip sealed file ∧
    ¬ (CountsFit (sealed.stripes k strip) strip ∧
      Passes blake3 (file.layout k m strip) file.data)

lemma honest_of_none (hparity : sealed.parity = none) (hsum : sealed.checksum = blake3 sealed.text)
    (hdam : Damaged sealed file)
    (hcoll : NoCollisions blake3 (considered k m strip sealed file blake3 kernel)) :
    Honest k m strip sealed file blake3 kernel ∧ HonestWhen blake3 k m strip sealed file := by
  rcases eq_or_ne file sealed with rfl | hne
  · exact ⟨honest_sealed hsum, .inl rfl⟩
  have hnone : file.parity = none := by
    have := hdam.parity_length_eq
    rwa [hparity, map_none, map_eq_none_iff] at this
  have hstripes : sealed.stripes k strip = 0 := by rw [SegmentFile.stripes, hparity]
  have hstripes' : (file.layout k m strip).stripeCount = 0 := by
    change file.stripes k strip = 0
    rw [SegmentFile.stripes, hnone]
  have hintact : ¬ Intact k m strip sealed file := by
    rintro ⟨htail, -⟩
    rw [hstripes, Nat.zero_mul, drop_zero, drop_zero] at htail
    refine hne (hdam.eq_of_text ?_)
    rw [SegmentFile.text, SegmentFile.text, htail, hparity, hnone]
  refine ⟨(honest_of_error ⟨_, _, verify_of_none (hdam.checksum_ne hsum hcoll hne) hnone⟩).mpr
    fun hcov => hintact hcov.1, .inr (.inr ⟨hintact, ?_⟩)⟩
  rintro ⟨-, ⟨s, hs, -⟩, -⟩
  omega

section

variable (hsealed : Sealed blake3 kernel k m strip sealed) (h : Parts k m strip sealed file)
  (hdam : Damaged sealed file)
  (hcoll : NoCollisions blake3 (considered k m strip sealed file blake3 kernel))

include hsealed h hcoll

lemma passing_iff (hintact : Intact k m strip sealed file) :
    (∀ s < sealed.stripes k strip, Clean blake3 (file.layout k m strip) file.data s ∨
        Repairable blake3 (file.layout k m strip) file.data s) ↔
      FewPerStripe k m strip sealed file ∧ ParityRight k m strip sealed file := by
  constructor
  · intro hpass
    have hstripe : ∀ s < sealed.stripes k strip, damagedShards k m strip sealed file s ≠ [] →
        (damagedShards k m strip sealed file s).length ≤ m.toNat ∧
          Explains blake3 (file.layout k m strip) file.data s
            ((sealed.layout k m strip).stripeData sealed.data s) := by
      intro s hs hne
      refine (repairable_iff hsealed hcoll hintact h hs).mp ((hpass s hs).resolve_left ?_)
      rwa [clean_iff hsealed hcoll hintact hs]
    refine ⟨fun s hs => ?_, fun s hs hne => ?_⟩
    · by_cases hne : damagedShards k m strip sealed file s = []
      · simp [hne]
      · exact (hstripe s hs hne).1
    · obtain ⟨hfew, hd⟩ := hstripe s hs hne
      exact ((explains_iff hsealed hcoll hintact h hs hfew).mp hd).2
  · rintro ⟨hfew, hright⟩ s hs
    by_cases hne : damagedShards k m strip sealed file s = []
    · exact .inl ((clean_iff hsealed hcoll hintact hs).mpr hne)
    · refine .inr ((repairable_iff hsealed hcoll hintact h hs).mpr ⟨hfew s hs, ?_⟩)
      exact (explains_iff hsealed hcoll hintact h hs (hfew s hs)).mpr ⟨rfl, hright s hs hne⟩

include hdam

lemma exists_not_clean (hintact : Intact k m strip sealed file) (hne : file ≠ sealed) :
    ∃ s < sealed.stripes k strip, ¬ Clean blake3 (file.layout k m strip) file.data s := by
  by_contra hall
  push Not at hall
  refine hne ?_
  have hclean : ∀ s ∈ List.range (file.layout k m strip).stripeCount,
      Clean blake3 (file.layout k m strip) file.data s :=
    fun s hs => hall s ((mem_range.mp hs).trans_eq h.stripes_eq)
  obtain ⟨hdata, hshards⟩ := @rewritten_of_clean blake3 kernel (file.layout k m strip) file.data _
    hclean ((sealed.layout k m strip).stripeData sealed.data) file.data
    (file.layout k m strip).shards
  -- what is written over nothing is the file, and it is the sealed one
  rw [← repairedFile_eq hsealed hcoll hintact h hdam, repairedFile, hdata, hshards, ← h.parity_eq]

variable (hkernel : ∀ c d, (kernel c d).length = d.length)
  (hsum : sealed.checksum = blake3 sealed.text)

include hkernel hsum

/-- Damage to shards alone is undone, or the call fails. -/
lemma verify_of_intact (hintact : Intact k m strip sealed file) (hne : file ≠ sealed) :
    (CountsFit (sealed.stripes k strip) strip ∧ FewPerStripe k m strip sealed file ∧
        ParityRight k m strip sealed file) ∧
        (∃ n, verifyAndRepairSegment blake3 kernel file = (sealed, .ok n)) ∨
      ¬ (CountsFit (sealed.stripes k strip) strip ∧ FewPerStripe k m strip sealed file ∧
        ParityRight k m strip sealed file) ∧
        ∃ file' e, verifyAndRepairSegment blake3 kernel file = (file', .error e) := by
  have hcheck := hdam.checksum_ne hsum hcoll hne
  have hcount := h.stripeCount_eq
  by_cases hfit : CountsFit (sealed.stripes k strip) strip
  swap
  · exact .inr ⟨fun hall => hfit hall.1, _, _, h.verify_not_fit hsealed hcheck hfit⟩
  by_cases hpass : ∀ s < sealed.stripes k strip,
      Clean blake3 (file.layout k m strip) file.data s ∨
        Repairable blake3 (file.layout k m strip) file.data s
  · have hpassing : ∀ s < (file.layout k m strip).stripeCount,
        Passing blake3 (file.layout k m strip) file.data s
          ((sealed.layout k m strip).stripeData sealed.data s) := by
      intro s hs
      rw [hcount] at hs
      refine (hpass s hs).imp_right fun hrep => ?_
      rw [corruptShards_eq hsealed hcoll hintact hs]
      exact (repairable_iff hsealed hcoll hintact h hs).mp hrep
    have hsome := exists_not_clean hsealed h hdam hcoll hintact hne
    rw [← hcount] at hsome
    obtain ⟨n, hverify⟩ := h.verify_ok hsealed hkernel hcheck hfit hpassing hsome
    rw [repairedFile_eq hsealed hcoll hintact h hdam] at hverify
    exact .inl ⟨⟨hfit, (passing_iff hsealed h hcoll hintact).mp hpass⟩, _, hverify⟩
  · have herror := h.verify_error hsealed hkernel hcheck hfit fun hp =>
      hpass fun s hs => hp.2 s (hcount.symm ▸ hs)
    exact .inr ⟨fun hall => hpass ((passing_iff hsealed h hcoll hintact).mpr hall.2), herror⟩

lemma honest_of_intact (hintact : Intact k m strip sealed file) (hne : file ≠ sealed) :
    Honest k m strip sealed file blake3 kernel ↔ (FewPerStripe k m strip sealed file →
      CountsFit (sealed.stripes k strip) strip ∧ ParityRight k m strip sealed file) := by
  rcases verify_of_intact hsealed h hdam hcoll hkernel hsum hintact hne with
    ⟨⟨hfit, -, hright⟩, n, hverify⟩ | ⟨hnot, herror⟩
  · refine iff_of_true ?_ fun _ => ⟨hfit, hright⟩
    rw [Honest, hverify]
    exact ⟨fun _ _ => ⟨rfl, verify_eq_zero_iff.mpr hsum.symm⟩, fun _ => ⟨_, rfl⟩⟩
  · rw [honest_of_error herror]
    tauto

lemma honest_of_not_intact (hintact : ¬ Intact k m strip sealed file) (hne : file ≠ sealed) :
    Honest k m strip sealed file blake3 kernel ↔
      ¬ (CountsFit (sealed.stripes k strip) strip ∧
        Passes blake3 (file.layout k m strip) file.data) := by
  have hcheck := hdam.checksum_ne hsum hcoll hne
  by_cases hfit : CountsFit (sealed.stripes k strip) strip
  swap
  · rw [honest_of_error ⟨_, _, h.verify_not_fit hsealed hcheck hfit⟩]
    simp [hintact, hfit]
  by_cases hpass : Passes blake3 (file.layout k m strip) file.data
  · obtain ⟨recovered, hrec⟩ := Parts.exists_recovered hpass.2
    obtain ⟨n, hverify⟩ := h.verify_ok hsealed hkernel hcheck hfit hrec hpass.1
    refine iff_of_false (fun hhonest => ?_) fun hnot => hnot ⟨hfit, hpass⟩
    obtain ⟨-, hagain⟩ := hhonest.1 (n + 1) (by rw [hverify])
    have hzero := verify_eq_zero_iff.mp hagain
    refine hintact (h.intact_of_repaired hsealed hkernel hdam hrec ?_)
    -- the repaired file has the checksum of the sealed one
    rw [hverify] at hzero
    refine hcoll _ ?_ _ (by simp [considered]) (hzero.trans (hdam.checksum_eq.trans hsum))
    simp [considered, hverify]
  · have herror := h.verify_error hsealed hkernel hcheck hfit hpass
    rw [honest_of_error herror]
    simp [hintact, hpass]

end

/-- **When a self-repair is honest.** Seal and repair run on one machine, whose vector units
multiply for the code. -/
theorem repair_honest_iff (blake3 : Bytes → HashOutput) (cpu : Features) (data : Bytes)
    (k m : UInt8) (strip : ℕ) (sealed file : SegmentFile)
    (hseal : sealFromData blake3 (dispatch cpu) data k m strip = .ok sealed)
    (hdam : Damaged sealed file)
    (hcoll : NoCollisions blake3 (considered k m strip sealed file blake3 (dispatch cpu))) :
    Honest k m strip sealed file blake3 (dispatch cpu) ↔
      HonestWhen blake3 k m strip sealed file := by
  obtain ⟨-, hsum, hnone | hsealed⟩ := sealed_of_seal (length_dispatch cpu) hseal
  · obtain ⟨hhonest, hwhen⟩ := honest_of_none hnone hsum hdam hcoll
    exact iff_of_true hhonest hwhen
  have h := hdam.parts hsealed
  rcases eq_or_ne file sealed with rfl | hne
  · exact iff_of_true (honest_sealed hsum) (.inl rfl)
  by_cases hintact : Intact k m strip sealed file
  · rw [honest_of_intact hsealed h hdam hcoll (length_dispatch cpu) hsum hintact hne]
    simp [HonestWhen, hne, hintact]
  · rw [honest_of_not_intact hsealed h hdam hcoll (length_dispatch cpu) hsum hintact hne]
    simp [HonestWhen, hne, hintact]

end

/-! ### A stripe and a tail -/

def plainCpu : Features := ⟨false, false, false, false, false⟩

/-- Two data shards of one byte and their parity; the third byte is the tail. -/
def threeBytes : SegmentFile :=
  (sealFromData prefixHash (dispatch plainCpu) [1, 2, 3] 2 1 1).toOption.getD
    ⟨prefixHash [], [], none⟩

/-- The first shard of `threeBytes` is lost. -/
def lostShard : SegmentFile := { threeBytes with data := [9, 2, 3] }

/-- The first shard of `threeBytes` is lost, and its tail. -/
def lostShardAndTail : SegmentFile := { threeBytes with data := [9, 2, 7] }

theorem lost_shard_repaired :
    Honest 2 1 1 threeBytes lostShard prefixHash (dispatch plainCpu) := by
  -- one computation of the parity for all the facts
  have hchecks :
      sealFromData prefixHash (dispatch plainCpu) [1, 2, 3] 2 1 1 = .ok threeBytes ∧
        lostShard.data.length = threeBytes.data.length ∧
        NoCollisions prefixHash
          (considered 2 1 1 threeBytes lostShard prefixHash (dispatch plainCpu)) ∧
        Intact 2 1 1 threeBytes lostShard ∧ CountsFit (threeBytes.stripes 2 1) 1 ∧
        ParityRight 2 1 1 threeBytes lostShard := by
    decide +kernel
  obtain ⟨hseal, hlen, hcoll, hintact, hright⟩ := hchecks
  exact (repair_honest_iff prefixHash plainCpu [1, 2, 3] 2 1 1 threeBytes lostShard hseal
    ⟨rfl, hlen, rfl, rfl⟩ hcoll).mpr (.inr (.inl ⟨hintact, fun _ => hright⟩))

/-- The shard is repaired and the call succeeds, with the tail as it was. -/
theorem damaged_tail_passed :
    sealFromData prefixHash (dispatch plainCpu) [1, 2, 3] 2 1 1 = .ok threeBytes ∧
      Damaged threeBytes lostShardAndTail ∧
      NoCollisions prefixHash
        (considered 2 1 1 threeBytes lostShardAndTail prefixHash (dispatch plainCpu)) ∧
      ¬ Honest 2 1 1 threeBytes lostShardAndTail prefixHash (dispatch plainCpu) := by
  have hchecks :
      sealFromData prefixHash (dispatch plainCpu) [1, 2, 3] 2 1 1 = .ok threeBytes ∧
        lostShardAndTail.data.length = threeBytes.data.length ∧
        NoCollisions prefixHash
          (considered 2 1 1 threeBytes lostShardAndTail prefixHash (dispatch plainCpu)) ∧
        (verifyAndRepairSegment prefixHash (dispatch plainCpu) lostShardAndTail).2 = .ok 1 ∧
        (verifyAndRepairSegment prefixHash (dispatch plainCpu) lostShardAndTail).1.data ≠
          threeBytes.data := by
    decide +kernel
  obtain ⟨hseal, hlen, hcoll, hok, hdata⟩ := hchecks
  exact ⟨hseal, ⟨rfl, hlen, rfl, rfl⟩, hcoll, fun hhonest => hdata (hhonest.1 1 hok).1⟩

end OceanFs.Segment
