import OceanFs.Segment.ParitySection

/-!
Verification and repair of a sealed segment file.

A file whose checksum is right is left alone. Otherwise the shards of each stripe are compared with
the hash table; up to `m` that differ are decoded from the others, checked against the table and
written in place. What no stripe covers, the tail of the data and the table itself, is not looked
at again: one repaired stripe makes the whole call a success.
-/

namespace OceanFs.Segment

open OceanFs.Core Ec Lib Lib.Slices List

/-! ### The repair -/

inductive RepairError
  | segmentCorrupt
  | decode (stripe : ℕ) (failure : Failure)
  | encode (stripe : ℕ) (failure : Failure)
  deriving DecidableEq

section

variable (blake3 : Bytes → HashOutput) (kernel : Kernel) (sec : ParitySection) (data : Bytes)

variable (stripe : ℕ)

/-- The shards of a stripe that are not what the hash table says. -/
def corruptShards : List ℕ :=
  (List.range (sec.k.toNat + sec.m.toNat)).filter fun idx =>
    (blake3 (sec.shard data stripe idx)).val ≠ sec.shardHash stripe idx

def availableShards (corrupt : List ℕ) : List (Option Bytes) :=
  (List.range (sec.k.toNat + sec.m.toNat)).map fun idx =>
    if corrupt.contains idx then none else some (sec.shard data stripe idx)

/-- The corrupt data shards, written to their places. -/
def rewriteData (recovered : List Bytes) (corrupt : List ℕ) (buf : Bytes) : Bytes :=
  (corrupt.filter (· < sec.k.toNat)).foldl (fun buf d =>
    writeAt buf (stripe * sec.stripeLen + d * sec.strip) (recovered.getD d [])) buf

/-- The corrupt parity shards, written to their places in the section. -/
def rewriteParity (parity : List Bytes) (corrupt : List ℕ) (buf : Bytes) : Bytes :=
  (corrupt.filter (sec.k.toNat ≤ ·)).foldl (fun buf p =>
    writeAt buf (paritySectionHeaderSize +
      (stripe * sec.m.toNat + (p - sec.k.toNat)) * sec.strip)
        (parity.getD (p - sec.k.toNat) [])) buf

/-- One stripe, with the data and the section as they were read before the loop. The result says
whether the stripe was repaired. -/
def repairStripe (file : SegmentFile) : SegmentFile × Except RepairError Bool :=
  let corrupt := corruptShards blake3 sec data stripe
  if corrupt = [] then (file, .ok false)
  else if sec.m.toNat < corrupt.length then (file, .error .segmentCorrupt)
  else match decode (availableShards sec data stripe corrupt) sec.k sec.m with
    | .error failure => (file, .error (.decode stripe failure))
    | .ok recovered =>
      if recovered.length ≠ sec.k.toNat then (file, .error .segmentCorrupt)
      else if ∃ d ∈ List.range recovered.length,
          (blake3 (recovered.getD d [])).val ≠ sec.shardHash stripe d then
        (file, .error .segmentCorrupt)
      else
        let file := { file with data := rewriteData sec stripe recovered corrupt file.data }
        if corrupt.any (sec.k.toNat ≤ ·) then
          match encode kernel sec.k recovered sec.m with
          | .error failure => (file, .error (.encode stripe failure))
          | .ok parity => ({ file with
              parity := file.parity.map (rewriteParity sec stripe parity corrupt) }, .ok true)
        else (file, .ok true)

/-- The loop over the stripes, which counts those that it repairs. -/
def repairStripes : List ℕ → SegmentFile → ℕ → SegmentFile × Except RepairError ℕ
  | [], file, repaired => (file, .ok repaired)
  | stripe :: rest, file, repaired =>
    match repairStripe blake3 kernel sec data stripe file with
    | (file, .error e) => (file, .error e)
    | (file, .ok done) => repairStripes rest file (if done then repaired + 1 else repaired)

end

/-- When the checksum is wrong and every stripe verifies, it is the tail that is damaged. -/
def finishRepair : SegmentFile × Except RepairError ℕ → SegmentFile × Except RepairError ℕ
  | (file, .error e) => (file, .error e)
  | (file, .ok 0) => (file, .error .segmentCorrupt)
  | (file, .ok (n + 1)) => (file, .ok (n + 1))

/-- `verify_and_repair_segment`. Stripes may have been rewritten when it fails. -/
def verifyAndRepairSegment (blake3 : Bytes → HashOutput) (kernel : Kernel) (file : SegmentFile) :
    SegmentFile × Except RepairError ℕ :=
  if blake3 file.text = file.checksum then (file, .ok 0)
  else match file.parity with
    | none => (file, .error .segmentCorrupt)
    | some bytes => match ParitySection.parse bytes with
      | none => (file, .error .segmentCorrupt)
      | some sec =>
        if file.data.length < sec.stripeCount * sec.stripeLen then (file, .error .segmentCorrupt)
        else finishRepair
          (repairStripes blake3 kernel sec file.data (List.range sec.stripeCount) file 0)

/-! ### Stripes that pass -/

section

variable (blake3 : Bytes → HashOutput) (sec : ParitySection) (data : Bytes) (s : ℕ)

/-- A shard is what the hash table says. -/
def Matches (i : ℕ) : Prop := (blake3 (sec.shard data s i)).val = sec.shardHash s i

instance (i : ℕ) : Decidable (Matches blake3 sec data s i) := inferInstanceAs (Decidable (_ = _))

/-- All shards of the stripe are what the hash table says. -/
def Clean : Prop := ∀ i < sec.k.toNat + sec.m.toNat, Matches blake3 sec data s i

/-- Data shards that the hash table and the first `k` matching shards agree on. -/
structure Explains (d : List Bytes) : Prop where
  length_eq : d.length = sec.k.toNat
  length_of_mem : ∀ x ∈ d, x.length = sec.strip
  hash_eq : ∀ i < sec.k.toNat, (blake3 (d.getD i [])).val = sec.shardHash s i
  codeword_eq : ∀ i ∈ ((List.range (sec.k.toNat + sec.m.toNat)).filter
      (Matches blake3 sec data s ·)).take sec.k.toNat,
    (d ++ parityShards sec.k sec.m d sec.strip).getD i [] = sec.shard data s i

/-- At most `m` shards differ from the hash table, and the others explain the stripe. -/
def Repairable : Prop :=
  ((List.range (sec.k.toNat + sec.m.toNat)).filter (¬ Matches blake3 sec data s ·)).length ≤
      sec.m.toNat ∧
    ∃ d, Explains blake3 sec data s d

end

/-- Some stripe differs from the hash table, and every one that does is repairable. -/
def Passes (blake3 : Bytes → HashOutput) (sec : ParitySection) (data : Bytes) : Prop :=
  (∃ s < sec.stripeCount, ¬ Clean blake3 sec data s) ∧
    ∀ s < sec.stripeCount, Clean blake3 sec data s ∨ Repairable blake3 sec data s

/-! ### One stripe -/

section

variable {blake3 : Bytes → HashOutput} {kernel : Kernel} {sec : ParitySection} {data : Bytes}
variable {s : ℕ} {d : List Bytes}

lemma corruptShards_eq_nil : corruptShards blake3 sec data s = [] ↔ Clean blake3 sec data s := by
  simp [corruptShards, Clean, Matches, filter_eq_nil_iff]

lemma availableShards_eq :
    availableShards sec data s (corruptShards blake3 sec data s) =
      surviving (fun i => decide (Matches blake3 sec data s i)) (sec.stripeShards data s) := by
  rw [surviving_eq, ParitySection.length_stripeShards]
  refine map_congr_left fun i hi => ?_
  have hi := mem_range.mp hi
  rw [ParitySection.getD_stripeShards hi]
  by_cases hmatch : Matches blake3 sec data s i
  · have hout : i ∉ corruptShards blake3 sec data s := by
      simp only [corruptShards, mem_filter, decide_eq_true_eq, not_and, not_not]
      exact fun _ => hmatch
    simp [hmatch, hout]
  · have hin : i ∈ corruptShards blake3 sec data s :=
      mem_filter.mpr ⟨mem_range.mpr hi, decide_eq_true hmatch⟩
    simp [hmatch, hin]

lemma le_length_matching (h : (corruptShards blake3 sec data s).length ≤ sec.m.toNat) :
    sec.k.toNat ≤ ((List.range (sec.k.toNat + sec.m.toNat)).filter
      fun i => decide (Matches blake3 sec data s i)).length := by
  have hsplit := Lists.length_filter_add (Matches blake3 sec data s)
    (List.range (sec.k.toNat + sec.m.toNat))
  rw [length_range] at hsplit
  have hcorrupt : ((List.range (sec.k.toNat + sec.m.toNat)).filter
    (¬ Matches blake3 sec data s ·)).length ≤ sec.m.toNat := h
  omega

lemma repairStripe_clean (h : Clean blake3 sec data s) (file : SegmentFile) :
    repairStripe blake3 kernel sec data s file = (file, .ok false) := by
  simp only [repairStripe, corruptShards_eq_nil.mpr h, if_true]

/-- The parity shards of a stripe, written to their places among all. -/
def rewriteShards (sec : ParitySection) (stripe : ℕ) (parity : List Bytes) (corrupt : List ℕ)
    (shards : Bytes) : Bytes :=
  (corrupt.filter (sec.k.toNat ≤ ·)).foldl (fun buf p =>
    writeAt buf ((stripe * sec.m.toNat + (p - sec.k.toNat)) * sec.strip)
      (parity.getD (p - sec.k.toNat) [])) shards

lemma parity_write_le (hkernel : ∀ c d, (kernel c d).length = d.length) (hshaped : sec.Shaped data)
    (hs : s < sec.stripeCount) (hd : ∀ x ∈ d, x.length = sec.strip)
    {p : ℕ} (hp : p ∈ (corruptShards blake3 sec data s).filter (sec.k.toNat ≤ ·)) :
    (s * sec.m.toNat + (p - sec.k.toNat)) * sec.strip +
        (((List.range sec.m.toNat).map (encodedParity kernel sec.k sec.strip d)).getD
          (p - sec.k.toNat) []).length ≤ sec.shards.length := by
  obtain ⟨hp, hle⟩ := mem_filter.mp hp
  have hlt := mem_range.mp (mem_of_mem_filter hp)
  have hle : sec.k.toNat ≤ p := of_decide_eq_true hle
  have hpm : p - sec.k.toNat < sec.m.toNat := by omega
  have hlen : (((List.range sec.m.toNat).map (encodedParity kernel sec.k sec.strip d)).getD
      (p - sec.k.toNat) []).length = sec.strip := by
    rw [getD_eq_getElem _ _ (by simpa using hpm)]
    simpa [encodedParity] using length_accumulate hkernel hd
  rw [hlen, ← Nat.succ_mul]
  exact hshaped.shards_end_le hs hpm

lemma data_write_le (hs : s < sec.stripeCount) (hlen : d.length = sec.k.toNat)
    (hd : ∀ x ∈ d, x.length = sec.strip) {i : ℕ}
    (hi : i ∈ (corruptShards blake3 sec data s).filter (· < sec.k.toNat)) :
    s * sec.stripeLen + i * sec.strip + (d.getD i []).length ≤
      sec.stripeCount * sec.stripeLen := by
  have hik : i < sec.k.toNat := of_decide_eq_true (mem_filter.mp hi).2
  have hshard : (d.getD i []).length = sec.strip := by
    rw [getD_eq_getElem _ _ (hlen.symm ▸ hik)]
    exact hd _ (getElem_mem _)
  rw [hshard, ParitySection.stripeLen, ← Nat.mul_assoc, ← Nat.add_mul, ← Nat.succ_mul,
    ← Nat.mul_assoc]
  exact Nat.mul_le_mul_right _ (index_lt hs hik)

section

variable (hk : sec.k ≠ 0) (htotal : sec.k.toNat + sec.m.toNat ≤ 256) (hshaped : sec.Shaped data)
  (hs : s < sec.stripeCount) (hclean : ¬ Clean blake3 sec data s)

include hk htotal hshaped hs

lemma decode_availableShards (hfew : (corruptShards blake3 sec data s).length ≤ sec.m.toNat) :
    decode (availableShards sec data s (corruptShards blake3 sec data s)) sec.k sec.m = .ok d ↔
      d.length = sec.k.toNat ∧ (∀ x ∈ d, x.length = sec.strip) ∧
        ∀ i ∈ ((List.range (sec.k.toNat + sec.m.toNat)).filter
            (Matches blake3 sec data s ·)).take sec.k.toNat,
          (d ++ parityShards sec.k sec.m d sec.strip).getD i [] = sec.shard data s i := by
  have hsize : ∀ i < sec.k.toNat + sec.m.toNat,
      ((sec.stripeShards data s).getD i []).length = sec.strip := by
    intro i hi
    rw [ParitySection.getD_stripeShards hi]
    exact hshaped.length_shard hs hi
  rw [availableShards_eq, decode_eq_ok_iff hk htotal ParitySection.length_stripeShards hsize
    (le_length_matching hfew)]
  refine and_congr_right fun _ => and_congr_right fun _ => forall₂_congr fun i hi => ?_
  have hi := mem_range.mp (mem_of_mem_filter (mem_of_mem_take hi))
  rw [ParitySection.getD_stripeShards hi]

include hclean

lemma repairStripe_repairable (hkernel : ∀ c d, (kernel c d).length = d.length)
    (hfew : (corruptShards blake3 sec data s).length ≤ sec.m.toNat)
    (hd : Explains blake3 sec data s d) {checksum : HashOutput} {buf header shards hashes : Bytes}
    (hheader : header.length = paritySectionHeaderSize)
    (hshards : shards.length = sec.shards.length) :
    repairStripe blake3 kernel sec data s ⟨checksum, buf, some (header ++ (shards ++ hashes))⟩ =
      (⟨checksum, rewriteData sec s d (corruptShards blake3 sec data s) buf,
        some (header ++ (rewriteShards sec s
          ((List.range sec.m.toNat).map (encodedParity kernel sec.k sec.strip d))
          (corruptShards blake3 sec data s) shards ++ hashes))⟩, .ok true) := by
  have hne : corruptShards blake3 sec data s ≠ [] := mt corruptShards_eq_nil.mp hclean
  have hdec := (decode_availableShards hk htotal hshaped hs hfew).mpr
    ⟨hd.length_eq, hd.length_of_mem, hd.codeword_eq⟩
  have hhash : ¬ ∃ i ∈ List.range d.length, (blake3 (d.getD i [])).val ≠ sec.shardHash s i := by
    rintro ⟨i, hi, hne⟩
    exact hne (hd.hash_eq i (hd.length_eq ▸ mem_range.mp hi))
  have henc : encode kernel sec.k d sec.m =
      .ok ((List.range sec.m.toNat).map (encodedParity kernel sec.k sec.strip d)) :=
    encode_eq kernel hk htotal hd.length_eq hd.length_of_mem
  -- every write of a parity shard is among the shards
  have hwrite : rewriteParity sec s
      ((List.range sec.m.toNat).map (encodedParity kernel sec.k sec.strip d))
        (corruptShards blake3 sec data s) (header ++ (shards ++ hashes)) =
      header ++ (rewriteShards sec s
        ((List.range sec.m.toNat).map (encodedParity kernel sec.k sec.strip d))
          (corruptShards blake3 sec data s) shards ++ hashes) := by
    rw [rewriteParity, ← hheader]
    refine foldl_writeAt_append _ fun p hp => ?_
    rw [hshards]
    exact parity_write_le hkernel hshaped hs hd.length_of_mem hp
  simp only [repairStripe, hne, if_false, Nat.not_lt.mpr hfew, hdec, hd.length_eq, ne_eq,
    not_true_eq_false]
  rw [hd.length_eq] at hhash
  rw [if_neg hhash]
  by_cases hany : (corruptShards blake3 sec data s).any (sec.k.toNat ≤ ·) = true
  · rw [if_pos hany, henc]
    simp only [Option.map_some, hwrite]
  · rw [if_neg hany]
    have hnone : (corruptShards blake3 sec data s).filter (sec.k.toNat ≤ ·) = [] := by
      rw [filter_eq_nil_iff]
      intro p hp hle
      exact hany (any_eq_true.mpr ⟨p, hp, hle⟩)
    rw [rewriteShards, hnone, foldl_nil]

lemma repairStripe_error (hrep : ¬ Repairable blake3 sec data s) (file : SegmentFile) :
    ∃ file' e, repairStripe blake3 kernel sec data s file = (file', .error e) := by
  have hne : corruptShards blake3 sec data s ≠ [] := mt corruptShards_eq_nil.mp hclean
  by_cases hfew : (corruptShards blake3 sec data s).length ≤ sec.m.toNat
  · cases hdec : decode (availableShards sec data s (corruptShards blake3 sec data s)) sec.k
        sec.m with
    | error failure =>
      simp only [repairStripe, hne, if_false, Nat.not_lt.mpr hfew, hdec]
      exact ⟨_, _, rfl⟩
    | ok d =>
      obtain ⟨hlen, hsize, hword⟩ := (decode_availableShards hk htotal hshaped hs hfew).mp hdec
      have hhash : ∃ i ∈ List.range d.length,
          (blake3 (d.getD i [])).val ≠ sec.shardHash s i := by
        by_contra hall
        push Not at hall
        refine hrep ⟨hfew, d, hlen, hsize, fun i hi => hall i ?_, hword⟩
        exact mem_range.mpr (hlen.symm ▸ hi)
      simp only [repairStripe, hne, if_false, Nat.not_lt.mpr hfew, hdec]
      rw [if_neg (not_not.mpr hlen), if_pos hhash]
      exact ⟨_, _, rfl⟩
  · simp only [repairStripe, hne, if_false, Nat.lt_of_not_le hfew, if_true]
    exact ⟨_, _, rfl⟩

end

/-! ### The loop -/

/-- The data with the corrupt data shards of some stripes written. -/
def rewrittenData (blake3 : Bytes → HashOutput) (sec : ParitySection) (data : Bytes)
    (recovered : ℕ → List Bytes) (stripes : List ℕ) (buf : Bytes) : Bytes :=
  stripes.foldl (fun buf s =>
    rewriteData sec s (recovered s) (corruptShards blake3 sec data s) buf) buf

/-- The parity shards with the corrupt ones of some stripes written. -/
def rewrittenShards (blake3 : Bytes → HashOutput) (kernel : Kernel) (sec : ParitySection)
    (data : Bytes) (recovered : ℕ → List Bytes) (stripes : List ℕ) (shards : Bytes) : Bytes :=
  stripes.foldl (fun shards s => rewriteShards sec s
    ((List.range sec.m.toNat).map (encodedParity kernel sec.k sec.strip (recovered s)))
    (corruptShards blake3 sec data s) shards) shards

lemma length_rewriteShards (hkernel : ∀ c d, (kernel c d).length = d.length)
    (hshaped : sec.Shaped data) (hs : s < sec.stripeCount)
    (hd : ∀ x ∈ d, x.length = sec.strip) {shards : Bytes}
    (hshards : shards.length = sec.shards.length) :
    (rewriteShards sec s ((List.range sec.m.toNat).map (encodedParity kernel sec.k sec.strip d))
      (corruptShards blake3 sec data s) shards).length = shards.length :=
  length_foldl_writeAt _ fun _ hp => hshards ▸ parity_write_le hkernel hshaped hs hd hp

lemma rewriteData_append (hs : s < sec.stripeCount) (hlen : d.length = sec.k.toNat)
    (hd : ∀ x ∈ d, x.length = sec.strip) {front tail : Bytes}
    (hfront : front.length = sec.stripeCount * sec.stripeLen) :
    ∃ front', rewriteData sec s d (corruptShards blake3 sec data s) (front ++ tail) =
      front' ++ tail ∧ front'.length = front.length := by
  have hin : ∀ i ∈ (corruptShards blake3 sec data s).filter (· < sec.k.toNat),
      s * sec.stripeLen + i * sec.strip + (d.getD i []).length ≤ front.length :=
    fun i hi => hfront ▸ data_write_le hs hlen hd hi
  refine ⟨_, ?_, length_foldl_writeAt _ hin⟩
  rw [rewriteData]
  have happend := @foldl_writeAt_append _ [] front tail _ _ _ hin
  simpa only [nil_append, length_nil, Nat.zero_add] using happend

lemma rewrite_of_clean (h : Clean blake3 sec data s) (parity : List Bytes) (buf shards : Bytes) :
    rewriteData sec s d (corruptShards blake3 sec data s) buf = buf ∧
      rewriteShards sec s parity (corruptShards blake3 sec data s) shards = shards := by
  rw [corruptShards_eq_nil.mpr h]
  exact ⟨rfl, rfl⟩

lemma rewritten_of_clean {stripes : List ℕ} (h : ∀ s ∈ stripes, Clean blake3 sec data s)
    (recovered : ℕ → List Bytes) (buf shards : Bytes) :
    rewrittenData blake3 sec data recovered stripes buf = buf ∧
      rewrittenShards blake3 kernel sec data recovered stripes shards = shards := by
  induction stripes with
  | nil => exact ⟨rfl, rfl⟩
  | cons s rest ih =>
    obtain ⟨hs, hrest⟩ := forall_mem_cons.mp h
    obtain ⟨hdata, hshards⟩ := @rewrite_of_clean blake3 sec data s (recovered s) hs
      ((List.range sec.m.toNat).map (encodedParity kernel sec.k sec.strip (recovered s)))
      buf shards
    rw [rewrittenData, rewrittenShards, foldl_cons, foldl_cons, hdata, hshards]
    exact ih hrest

/-- The stripe verifies, or the data shards explain it. -/
def Passing (blake3 : Bytes → HashOutput) (sec : ParitySection) (data : Bytes) (s : ℕ)
    (d : List Bytes) : Prop :=
  Clean blake3 sec data s ∨
    (corruptShards blake3 sec data s).length ≤ sec.m.toNat ∧ Explains blake3 sec data s d

lemma repairStripes_ok (hkernel : ∀ c d, (kernel c d).length = d.length) (hk : sec.k ≠ 0)
    (htotal : sec.k.toNat + sec.m.toNat ≤ 256) (hshaped : sec.Shaped data)
    {recovered : ℕ → List Bytes} {checksum : HashOutput} {header hashes : Bytes}
    (hheader : header.length = paritySectionHeaderSize) (stripes : List ℕ)
    (hlt : ∀ s ∈ stripes, s < sec.stripeCount)
    (hpass : ∀ s ∈ stripes, Passing blake3 sec data s (recovered s)) (buf shards : Bytes)
    (hshards : shards.length = sec.shards.length) (n : ℕ) :
    repairStripes blake3 kernel sec data stripes
        ⟨checksum, buf, some (header ++ (shards ++ hashes))⟩ n =
      (⟨checksum, rewrittenData blake3 sec data recovered stripes buf,
        some (header ++ (rewrittenShards blake3 kernel sec data recovered stripes shards ++
          hashes))⟩,
        .ok (n + (stripes.filter fun s => corruptShards blake3 sec data s ≠ []).length)) := by
  induction stripes generalizing buf shards n with
  | nil => rfl
  | cons s rest ih =>
    obtain ⟨hs, hrest⟩ := forall_mem_cons.mp hlt
    obtain ⟨hhead, htail⟩ := forall_mem_cons.mp hpass
    by_cases hclean : Clean blake3 sec data s
    · obtain ⟨hdata, hpar⟩ := @rewrite_of_clean blake3 sec data s (recovered s) hclean
        ((List.range sec.m.toNat).map (encodedParity kernel sec.k sec.strip (recovered s)))
        buf shards
      rw [repairStripes, repairStripe_clean hclean]
      simp only [Bool.false_eq_true, if_false]
      rw [ih hrest htail buf shards hshards,
        filter_cons_of_neg (by simpa using corruptShards_eq_nil.mpr hclean)]
      simp only [rewrittenData, rewrittenShards, foldl_cons, hdata, hpar]
    · obtain ⟨hfew, hd⟩ := hhead.resolve_left hclean
      have hne : corruptShards blake3 sec data s ≠ [] := mt corruptShards_eq_nil.mp hclean
      rw [repairStripes, repairStripe_repairable hk htotal hshaped hs hclean hkernel hfew hd
        hheader hshards]
      simp only [if_true]
      rw [ih hrest htail _ _ ((length_rewriteShards hkernel hshaped hs hd.length_of_mem
        hshards).trans hshards), filter_cons_of_pos (by simpa using hne)]
      simp only [rewrittenData, rewrittenShards, foldl_cons, length_cons]
      congr 2
      omega

lemma repairStripes_error (hk : sec.k ≠ 0) (htotal : sec.k.toNat + sec.m.toNat ≤ 256)
    (hshaped : sec.Shaped data) (stripes : List ℕ) (hlt : ∀ s ∈ stripes, s < sec.stripeCount)
    (hbad : ∃ s ∈ stripes, ¬ Clean blake3 sec data s ∧ ¬ Repairable blake3 sec data s)
    (file : SegmentFile) (n : ℕ) :
    ∃ file' e, repairStripes blake3 kernel sec data stripes file n = (file', .error e) := by
  induction stripes generalizing file n with
  | nil => simp at hbad
  | cons s rest ih =>
    obtain ⟨hs, hrest⟩ := forall_mem_cons.mp hlt
    rw [repairStripes]
    rcases hstripe : repairStripe blake3 kernel sec data s file with ⟨file', e | done⟩
    · exact ⟨file', e, rfl⟩
    · obtain ⟨t, ht, hclean, hrep⟩ := hbad
      rcases mem_cons.mp ht with rfl | ht
      · obtain ⟨_, _, herror⟩ := @repairStripe_error blake3 kernel sec data t hk htotal hshaped hs
          hclean hrep file
        rw [herror] at hstripe
        cases hstripe
      · exact ih hrest ⟨t, ht, hclean, hrep⟩ file' _

lemma rewrittenData_append {recovered : ℕ → List Bytes} (stripes : List ℕ)
    (hlt : ∀ s ∈ stripes, s < sec.stripeCount)
    (hpass : ∀ s ∈ stripes, Passing blake3 sec data s (recovered s)) {front tail : Bytes}
    (hfront : front.length = sec.stripeCount * sec.stripeLen) :
    ∃ front', rewrittenData blake3 sec data recovered stripes (front ++ tail) = front' ++ tail ∧
      front'.length = front.length := by
  induction stripes generalizing front with
  | nil => exact ⟨front, rfl, rfl⟩
  | cons s rest ih =>
    obtain ⟨hs, hrest⟩ := forall_mem_cons.mp hlt
    obtain ⟨hhead, htail⟩ := forall_mem_cons.mp hpass
    obtain ⟨front', heq, hlen⟩ : ∃ front',
        rewriteData sec s (recovered s) (corruptShards blake3 sec data s) (front ++ tail) =
          front' ++ tail ∧ front'.length = front.length := by
      rcases hhead with hclean | ⟨-, hd⟩
      · exact ⟨front, (rewrite_of_clean hclean [] _ []).1, rfl⟩
      · exact rewriteData_append hs hd.length_eq hd.length_of_mem hfront
    obtain ⟨front'', heq', hlen'⟩ := ih hrest htail (hlen.trans hfront)
    refine ⟨front'', ?_, hlen'.trans hlen⟩
    rw [rewrittenData, foldl_cons, heq]
    exact heq'

lemma length_rewrittenShards (hkernel : ∀ c d, (kernel c d).length = d.length)
    (hshaped : sec.Shaped data) {recovered : ℕ → List Bytes} (stripes : List ℕ)
    (hlt : ∀ s ∈ stripes, s < sec.stripeCount)
    (hpass : ∀ s ∈ stripes, Passing blake3 sec data s (recovered s)) {shards : Bytes}
    (hshards : shards.length = sec.shards.length) :
    (rewrittenShards blake3 kernel sec data recovered stripes shards).length =
      sec.shards.length := by
  induction stripes generalizing shards with
  | nil => exact hshards
  | cons s rest ih =>
    obtain ⟨hs, hrest⟩ := forall_mem_cons.mp hlt
    obtain ⟨hhead, htail⟩ := forall_mem_cons.mp hpass
    rw [rewrittenShards, foldl_cons]
    refine ih hrest htail ?_
    rcases hhead with hclean | ⟨-, hd⟩
    · rw [(@rewrite_of_clean blake3 sec data s [] hclean _ [] shards).2, hshards]
    · exact (length_rewriteShards hkernel hshaped hs hd.length_of_mem hshards).trans hshards

end

/-! ### The whole call -/

section

variable {blake3 : Bytes → HashOutput} {kernel : Kernel} {k m : UInt8} {strip : ℕ}
variable {sealed file : SegmentFile}

lemma verify_eq_zero_iff :
    (verifyAndRepairSegment blake3 kernel file).2 = .ok 0 ↔ blake3 file.text = file.checksum := by
  constructor
  · intro h
    by_contra hne
    rw [verifyAndRepairSegment, if_neg hne] at h
    split at h
    · cases h
    · split at h
      · cases h
      · split_ifs at h
        unfold finishRepair at h
        split at h <;> cases h
  · intro h
    rw [verifyAndRepairSegment, if_pos h]

lemma verify_of_none (hcheck : blake3 file.text ≠ file.checksum) (hparity : file.parity = none) :
    verifyAndRepairSegment blake3 kernel file = (file, .error .segmentCorrupt) := by
  rw [verifyAndRepairSegment, if_neg hcheck, hparity]

end

end OceanFs.Segment
