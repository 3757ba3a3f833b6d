import OceanFs.Segment.EventWal

/-!
Positions in the event log: packed into one word, and as the place that the log is truncated before.

The sequence number of a file has 32 bits and a packed position leaves 16 for it. A truncation
removes whole files that a position covers, and a read that starts at the position finds the same
records, whether its file is still there or not.
-/

namespace OceanFs.Segment

open OceanFs.Core List

@[ext]
structure EventWalPos where
  fileSeq : UInt32
  offset : UInt64
  deriving DecidableEq

namespace EventWalPos

/-- The derived order: the file, then the offset. -/
def le (p q : EventWalPos) : Prop :=
  p.fileSeq < q.fileSeq ∨ p.fileSeq = q.fileSeq ∧ p.offset ≤ q.offset

instance (p q : EventWalPos) : Decidable (p.le q) := inferInstanceAs (Decidable (_ ∨ _))

def packedOffsetBits : UInt64 := 48

def packedOffsetMask : UInt64 := (1 <<< packedOffsetBits) - 1

def packed (p : EventWalPos) : UInt64 :=
  (p.fileSeq.toUInt64 <<< packedOffsetBits) ||| (p.offset &&& packedOffsetMask)

def fromPacked (packed : UInt64) : EventWalPos where
  fileSeq := (packed >>> packedOffsetBits).toUInt32
  offset := packed &&& packedOffsetMask

end EventWalPos

/-- The files of the log by their numbers. -/
structure LogDir where
  files : List (UInt32 × Bytes)
  sorted : files.Pairwise (·.1 < ·.1)

/-- The test of `truncate_before`; the file that is written to is never covered. -/
def fullyCovered (current : UInt32) (pos : EventWalPos) (seq : UInt32) (size : ℕ) : Bool :=
  seq ≠ current ∧ (seq < pos.fileSeq ∨ seq = pos.fileSeq ∧ size ≤ pos.offset.toNat)

namespace LogDir

def truncateBefore (d : LogDir) (current : UInt32) (pos : EventWalPos) : LogDir where
  files := d.files.filter fun f => !fullyCovered current pos f.1 f.2.length
  sorted := d.sorted.filter _

/-- The rest of the file of a position, and the files after it. A file that is gone is skipped. -/
def filesFrom (d : LogDir) (pos : EventWalPos) : List Bytes :=
  (d.files.filter (·.1 = pos.fileSeq)).map (·.2.drop pos.offset.toNat) ++
    (d.files.filter (pos.fileSeq < ·.1)).map (·.2)

/-- What the reader returns from a position on. -/
def readFrom (C : Codecs) (d : LogDir) (pos : EventWalPos) : List SegmentEvent × ScanEnd :=
  readFiles C (d.filesFrom pos)

end LogDir

/-! ### Packing -/

namespace EventWalPos

variable {p q : EventWalPos}

lemma toNat_packed (p : EventWalPos) :
    p.packed.toNat = p.fileSeq.toNat % 2 ^ 16 * 2 ^ 48 + p.offset.toNat % 2 ^ 48 := by
  have hmask : (p.offset &&& packedOffsetMask).toNat = p.offset.toNat % 2 ^ 48 :=
    Nat.and_two_pow_sub_one_eq_mod p.offset.toNat 48
  have hseq : (p.fileSeq.toUInt64 <<< packedOffsetBits).toNat =
      (p.fileSeq.toNat % 2 ^ 16) <<< 48 := by
    have hshift : (p.fileSeq.toUInt64 <<< packedOffsetBits).toNat =
      (p.fileSeq.toNat <<< 48) % 2 ^ 64 := rfl
    rw [hshift, Nat.shiftLeft_eq, Nat.shiftLeft_eq]
    omega
  have hlow : p.offset.toNat % 2 ^ 48 < 2 ^ 48 := Nat.mod_lt _ (by decide)
  rw [packed, UInt64.toNat_or, hmask, hseq, ← Nat.shiftLeft_add_eq_or_of_lt hlow, Nat.shiftLeft_eq]

lemma fromPacked_packed (p : EventWalPos) :
    (fromPacked p.packed).fileSeq.toNat = p.fileSeq.toNat % 2 ^ 16 ∧
      (fromPacked p.packed).offset.toNat = p.offset.toNat % 2 ^ 48 := by
  have hseq : (fromPacked p.packed).fileSeq.toNat = p.packed.toNat >>> 48 % 2 ^ 32 := rfl
  have hoffset : (fromPacked p.packed).offset.toNat = p.packed.toNat % 2 ^ 48 :=
    Nat.and_two_pow_sub_one_eq_mod p.packed.toNat 48
  rw [hseq, hoffset, Nat.shiftRight_eq_div_pow, toNat_packed]
  omega

/-- What a word has room for. -/
def Packable (p : EventWalPos) : Prop := p.fileSeq.toNat < 2 ^ 16 ∧ p.offset.toNat < 2 ^ 48

lemma fromPacked_packed_iff : fromPacked p.packed = p ↔ p.Packable := by
  obtain ⟨hseq, hoffset⟩ := fromPacked_packed p
  rw [EventWalPos.ext_iff, ← UInt32.toNat_inj, ← UInt64.toNat_inj, hseq, hoffset, Packable]
  omega

lemma packed_le_iff (hp : p.Packable) (hq : q.Packable) : p.packed ≤ q.packed ↔ p.le q := by
  obtain ⟨hpseq, hpoff⟩ := hp
  obtain ⟨hqseq, hqoff⟩ := hq
  rw [UInt64.le_iff_toNat_le, toNat_packed, toNat_packed, le, UInt32.lt_iff_toNat_lt,
    UInt64.le_iff_toNat_le, ← UInt32.toNat_inj]
  omega

end EventWalPos

/-! ### Truncation -/

variable {C : Codecs} {d : LogDir} {current : UInt32} {pos : EventWalPos}

lemma readFiles_filter (files : List Bytes) :
    readFiles C (files.filter (· ≠ [])) = readFiles C files := by
  induction files with
  | nil => rfl
  | cons file files ih =>
    by_cases hfile : file = []
    · subst hfile
      have hscan : scanFile C files.flatten.length [] = ⟨[], 0, .clean⟩ :=
        @scanFile_records C _ [] nofun
      rw [filter_cons_of_neg (by simp), ih, readFiles, hscan]
      rfl
    · have hflatten : (files.filter (· ≠ [])).flatten = files.flatten := by
        simpa using flatten_filter_ne_nil
      rw [filter_cons_of_pos (by simpa using hfile), readFiles, readFiles, ih, hflatten]

lemma not_fullyCovered {f : UInt32 × Bytes}
    (h : f.1 = pos.fileSeq ∧ f.2.drop pos.offset.toNat ≠ [] ∨ pos.fileSeq < f.1) :
    fullyCovered current pos f.1 f.2.length = false := by
  refine decide_eq_false ?_
  rintro ⟨-, hcovered⟩
  simp only [ne_eq, drop_eq_nil_iff, UInt32.lt_iff_toNat_lt, ← UInt32.toNat_inj] at h hcovered
  omega

/-- **A read from the position is the same after the truncation.** -/
lemma readFrom_truncateBefore :
    (d.truncateBefore current pos).readFrom C pos = d.readFrom C pos := by
  have hhere : ((d.truncateBefore current pos).filesFrom pos).filter (· ≠ []) =
      (d.filesFrom pos).filter (· ≠ []) := by
    simp only [LogDir.filesFrom, LogDir.truncateBefore, filter_append, filter_map,
      filter_filter]
    congr 2 <;> refine filter_congr fun f _ => ?_
    · by_cases h : f.1 = pos.fileSeq ∧ f.2.drop pos.offset.toNat ≠ []
      · simp [not_fullyCovered (.inl h)]
      · simp only [Function.comp_apply]
        grind
    · by_cases h : pos.fileSeq < f.1
      · simp [not_fullyCovered (.inr h)]
      · simp [h]
  rw [LogDir.readFrom, LogDir.readFrom, ← readFiles_filter, hhere, readFiles_filter]

/-- **A position survives packing and truncation**: the sequence number of its file has to be below
`2 ^ 16` and its offset below `2 ^ 48` for the first, and nothing for the second. -/
theorem positions_survive_iff (p q : EventWalPos) (C : Codecs) (d : LogDir) (current : UInt32)
    (pos : EventWalPos) :
    ((EventWalPos.fromPacked p.packed = p ∧ EventWalPos.fromPacked q.packed = q ∧
          (p.packed ≤ q.packed ↔ p.le q)) ∧
        (∀ f ∈ d.files, ∀ offset : UInt64, offset.toNat < f.2.length → pos.le ⟨f.1, offset⟩ →
          f ∈ (d.truncateBefore current pos).files) ∧
        (d.truncateBefore current pos).readFrom C pos = d.readFrom C pos) ↔
      p.Packable ∧ q.Packable := by
  constructor
  · rintro ⟨⟨hp, hq, -⟩, -⟩
    exact ⟨EventWalPos.fromPacked_packed_iff.mp hp, EventWalPos.fromPacked_packed_iff.mp hq⟩
  · rintro ⟨hp, hq⟩
    refine ⟨⟨EventWalPos.fromPacked_packed_iff.mpr hp, EventWalPos.fromPacked_packed_iff.mpr hq,
      EventWalPos.packed_le_iff hp hq⟩, ?_, readFrom_truncateBefore⟩
    intro f hf offset hoffset hle
    refine mem_filter.mpr ⟨hf, ?_⟩
    rw [not_fullyCovered, Bool.not_false]
    rcases hle with hlt | ⟨heq, hle⟩
    · exact .inr hlt
    · refine .inl ⟨heq.symm, ?_⟩
      rw [ne_eq, drop_eq_nil_iff]
      have hle : pos.offset.toNat ≤ offset.toNat := hle
      omega

/-- The file after 65536 rotations is taken for the first one, and comes before the second. -/
theorem rotated_position_lost :
    EventWalPos.fromPacked (EventWalPos.packed ⟨65536, 40⟩) = ⟨0, 40⟩ ∧
      ¬ ((EventWalPos.packed ⟨1, 0⟩ ≤ EventWalPos.packed ⟨65536, 40⟩) ↔
        EventWalPos.le ⟨1, 0⟩ ⟨65536, 40⟩) := by
  decide

end OceanFs.Segment
