import OceanFs.Segment.RelocateCrash
import OceanFs.Segment.RepairHonest

/-!
Self-repair of a segment that was relocated.

The copy goes through a reader that returns the data section and a writer that puts a header of the
first version before it. The file on the target has a checksum over the data alone and no parity
section, so a damaged data section is found there and cannot be repaired.
-/

namespace OceanFs.Segment

open OceanFs.Core Ec Lib Option

/-! ### The sections of a file -/

/-- What verification reads of a file. -/
def DatFile.sections {blake3 : Bytes → HashOutput} (f : DatFile blake3) : SegmentFile where
  checksum := f.header.checksum
  data := f.data
  parity :=
    if f.header.parityOffset = 0 ∨ f.header.paritySize = 0 then none
    else some ((f.bytes.drop f.header.parityOffset).take f.header.paritySize)

lemma sections_v1File (blake3 : Bytes → HashOutput) (direct : Bool) (data : Bytes)
    (h : data.length < 2 ^ 32) :
    (v1File blake3 direct data h).sections = ⟨blake3 data, data, none⟩ := by
  have hdata := data_v1File blake3 direct data h
  have hplain : (v1File blake3 direct data h).header.parityOffset = 0 := rfl
  rw [DatFile.sections, hdata, if_pos (.inl hplain)]
  rfl

section

variable {blake3 : Bytes → HashOutput} {kernel : Kernel} {checksum : HashOutput} {data : Bytes}

lemma verify_plain :
    verifyAndRepairSegment blake3 kernel ⟨checksum, data, none⟩ =
      (⟨checksum, data, none⟩,
        if blake3 data = checksum then .ok 0 else .error .segmentCorrupt) := by
  have htext : SegmentFile.text ⟨checksum, data, none⟩ = data := List.append_nil data
  by_cases hsum : blake3 data = checksum
  · rw [verifyAndRepairSegment, htext, if_pos hsum, if_pos hsum]
  · rw [verify_of_none (by rwa [htext]) rfl, if_neg hsum]

end

lemma repaired_eq_sealed {blake3 : Bytes → HashOutput} {cpu : Features} {data : Bytes} {k m : UInt8}
    {strip n : ℕ} {sealed file : SegmentFile}
    (hseal : sealFromData blake3 (dispatch cpu) data k m strip = .ok sealed)
    (hparity : sealed.parity ≠ none) (hdam : Damaged sealed file)
    (hintact : Intact k m strip sealed file)
    (hcoll : NoCollisions blake3 (considered k m strip sealed file blake3 (dispatch cpu)))
    (hok : (verifyAndRepairSegment blake3 (dispatch cpu) file).2 = .ok n) :
    (verifyAndRepairSegment blake3 (dispatch cpu) file).1 = sealed := by
  obtain ⟨-, hsum, hnone | hsealed⟩ := sealed_of_seal (length_dispatch cpu) hseal
  · exact absurd hnone hparity
  rcases eq_or_ne file sealed with rfl | hne
  · rw [verifyAndRepairSegment, if_pos hsum.symm]
  rcases verify_of_intact hsealed (hdam.parts hsealed) hdam hcoll (length_dispatch cpu) hsum hintact
    hne with ⟨-, _, hverify⟩ | ⟨-, _, _, herror⟩
  · rw [hverify]
  · rw [herror] at hok
    cases hok

namespace Relocate

/-! ### The file on the target -/

variable {cfg : Config} {s s' : State cfg} {r : Relocation}

namespace State

lemma files_target_relocateStep {now : ℕ} {stage : Stage} (hne : r.source ≠ r.target)
    (hstage : stage ≠ .copy) :
    (s.relocateStep now r stage).files r.target = s.files r.target ∧
      ∀ h ∈ (s.relocateStep now r stage).holder, h.1 = r ∧ h.2 ≠ .copy := by
  cases stage with
  | copy => exact absurd rfl hstage
  | check =>
    simp only [relocateStep]
    split <;> simp [holding]
  | append => simp [relocateStep]
  | fold =>
    simp only [relocateStep]
    split <;> simp [holding]
  | purge => simp [relocateStep, holding]
  | unlink =>
    simp only [relocateStep]
    split <;> simp [holding, setFile, Function.update_of_ne hne.symm]

end State

lemma step_relocateStep {now : ℕ} (h : step s (.relocateStep now) = some s') :
    s.sweeping = none ∧ ∃ h ∈ s.holder, s' = s.relocateStep now h.1 h.2 := by
  simp only [step] at h
  split_ifs at h with hsweeping
  rw [serving, map_eq_some_iff] at h
  obtain ⟨holder, hholder, rfl⟩ := h
  exact ⟨isNone_iff_eq_none.mp hsweeping, holder, hholder, rfl⟩

lemma files_target_of_run (hne : r.source ≠ r.target) {times : List ℕ}
    (hholder : ∀ h ∈ s.holder, h.1 = r ∧ h.2 ≠ .copy)
    (hrun : Runs.run step s (times.map .relocateStep) = some s') :
    s'.files r.target = s.files r.target := by
  induction times generalizing s with
  | nil =>
    obtain rfl := some.inj hrun
    rfl
  | cons now times ih =>
    obtain ⟨t, hstep, hrest⟩ := Runs.run_cons.mp hrun
    obtain ⟨-, ⟨q, stage⟩, hq, rfl⟩ := step_relocateStep hstep
    obtain ⟨rfl, hstage⟩ := hholder _ hq
    obtain ⟨hfiles, hnext⟩ := @State.files_target_relocateStep _ s _ now _ hne hstage
    rw [ih hnext hrest, hfiles]

lemma relocated_file {now time target : ℕ} {times : List ℕ} {source : DatFile cfg.blake3}
    (hvalid : s.validate now target = some r) (hsource : s.sourceFile time = some source)
    (hlen : times.length = 5)
    (hrun : Runs.run step (s.holding (some (r, .copy))) ((time :: times).map .relocateStep) =
      some s') :
    ∃ h, s'.files target = some (v1File cfg.blake3 cfg.direct source.data h) := by
  obtain ⟨htarget, hne, -⟩ := ok_of_validate hvalid
  obtain ⟨t, hstep, hrest⟩ := Runs.run_cons.mp hrun
  obtain ⟨-, holder, hholder, rfl⟩ := step_relocateStep hstep
  obtain rfl := some.inj hholder
  have hfile : (s.holding (some (r, .copy))).sourceFile time = some source := hsource
  simp only [State.relocateStep, hfile] at hrest
  split at hrest
  · rename_i hsize
    refine ⟨hsize, ?_⟩
    rw [← htarget, files_target_of_run hne (by simp [State.holding]) hrest]
    simp [State.holding, State.setFile]
  · -- a copy that fails is the last step
    obtain ⟨time', times, rfl⟩ : ∃ time' rest, times = time' :: rest := by
      cases times with
      | nil => cases hlen
      | cons time' rest => exact ⟨_, _, rfl⟩
    obtain ⟨_, hstep', -⟩ := Runs.run_cons.mp hrest
    obtain ⟨-, _, hnone, -⟩ := step_relocateStep hstep'
    cases hnone

/-! ### Repair after a relocation -/

/-- The call on the damaged file of the target succeeds, with the data that the call on the damaged
file of the source leaves. -/
def RepairedAlike (blake3 : Bytes → HashOutput) (kernel : Kernel) (source target : SegmentFile) :
    Prop :=
  (∃ n, (verifyAndRepairSegment blake3 kernel target).2 = .ok n) ∧
    (verifyAndRepairSegment blake3 kernel target).1.data =
      (verifyAndRepairSegment blake3 kernel source).1.data

/-- **When a relocation keeps a segment repairable**: the damage spares the data section. The
relocation takes all its six steps; the damage is to shards and can be repaired where the file was
sealed, so no stripe has more damaged shards than parity. -/
theorem relocated_repairable_iff (cpu : Features) (data : Bytes) (k m : UInt8) (strip : ℕ)
    (s s' : State cfg) (r : Relocation) (now time target n : ℕ) (times : List ℕ)
    (source copied : DatFile cfg.blake3) (damaged : SegmentFile)
    (hseal : sealFromData cfg.blake3 (dispatch cpu) data k m strip = .ok source.sections)
    (hparity : source.sections.parity ≠ none)
    (hvalid : s.validate now target = some r) (hsource : s.sourceFile time = some source)
    (hlen : times.length = 5)
    (hrun : Runs.run step (s.holding (some (r, .copy))) ((time :: times).map .relocateStep) =
      some s')
    (hcopied : s'.files target = some copied)
    (hdam : Damaged source.sections damaged) (hintact : Intact k m strip source.sections damaged)
    (hcoll : NoCollisions cfg.blake3
      (considered k m strip source.sections damaged cfg.blake3 (dispatch cpu)))
    (hok : (verifyAndRepairSegment cfg.blake3 (dispatch cpu) damaged).2 = .ok n) :
    RepairedAlike cfg.blake3 (dispatch cpu) damaged { copied.sections with data := damaged.data } ↔
      damaged.data = source.data := by
  obtain ⟨hsize, hfile⟩ := relocated_file hvalid hsource hlen hrun
  obtain rfl := some.inj (hfile.symm.trans hcopied)
  rw [RepairedAlike, repaired_eq_sealed hseal hparity hdam hintact hcoll hok, sections_v1File,
    verify_plain]
  constructor
  · rintro ⟨-, hdata⟩
    exact hdata
  · intro hdata
    exact ⟨⟨0, by rw [hdata, if_pos rfl]⟩, hdata⟩

/-! ### Three bytes that move -/

/-- The header that `threeBytes` was sealed behind. -/
def threeBytesHeader : SegmentHeader where
  version := 2
  segmentId := 7
  size := 3
  blobCount := 1
  indexOffset := 95 + (threeBytes.parity.getD []).length
  checksum := threeBytes.checksum
  parityOffset := 95
  paritySize := (threeBytes.parity.getD []).length

-- one computation of the parity for all the fields of the file
lemma threeBytesFile_wellFormed :
    verifyHeader (threeBytesHeader.toBytes ++ threeBytes.text) = some threeBytesHeader ∧
      threeBytesHeader.dataEnd = threeBytesHeader.serializedSize + threeBytesHeader.size ∧
      threeBytesHeader.dataEnd + threeBytesHeader.paritySize ≤
        (threeBytesHeader.toBytes ++ threeBytes.text).length ∧
      prefixHash (((threeBytesHeader.toBytes ++ threeBytes.text).drop
          threeBytesHeader.serializedSize).take
            (threeBytesHeader.size + threeBytesHeader.paritySize)) =
        threeBytesHeader.checksum := by
  decide +kernel

def threeBytesFile : DatFile prefixHash where
  bytes := threeBytesHeader.toBytes ++ threeBytes.text
  header := threeBytesHeader
  parsed := threeBytesFile_wellFormed.1
  dataEnd_eq := threeBytesFile_wellFormed.2.1
  fits := threeBytesFile_wellFormed.2.2.1
  checksum_eq := threeBytesFile_wellFormed.2.2.2

/-- Segment 7 is on pool 1, as it was sealed. -/
def threeBytesOnOne : State node :=
  { sealedOnOne with files := Function.update (fun _ => none) 1 (some threeBytesFile) }

/-- The relocation to pool 2. -/
def toTwo : Relocation := ⟨1, 2, none⟩

def threeBytesOnTwo : State node :=
  (Runs.run step (threeBytesOnOne.holding (some (toTwo, .copy)))
    ((0 :: List.replicate 5 0).map .relocateStep)).get (by decide +kernel)

lemma run_toTwo : Runs.run step (threeBytesOnOne.holding (some (toTwo, .copy)))
    ((0 :: List.replicate 5 0).map .relocateStep) = some threeBytesOnTwo :=
  (some_get _).symm

/-- What pool 2 has then. -/
def copiedToTwo : DatFile prefixHash := v1File prefixHash false [1, 2, 3] three_bytes_fit

/-- The parity shard of `threeBytes` is lost. -/
def lostParity : SegmentFile :=
  { threeBytes with parity := threeBytes.parity.map fun p => p.set paritySectionHeaderSize 99 }

lemma sections_threeBytesFile : threeBytesFile.sections = threeBytes := by decide +kernel

/-- The call repairs the shard on pool 1 and has nothing to repair on pool 2. -/
theorem lost_parity_repaired_alike :
    RepairedAlike prefixHash (dispatch plainCpu) lostParity
      { copiedToTwo.sections with data := lostParity.data } := by
  have hchecks :
      sealFromData prefixHash (dispatch plainCpu) [1, 2, 3] 2 1 1 = .ok threeBytes ∧
        threeBytes.parity ≠ none ∧
        (lostParity.checksum = threeBytes.checksum ∧
          lostParity.data.length = threeBytes.data.length ∧
          lostParity.parity.map List.length = threeBytes.parity.map List.length ∧
          lostParity.parity.map (List.take paritySectionHeaderSize) =
            threeBytes.parity.map (List.take paritySectionHeaderSize)) ∧
        Intact 2 1 1 threeBytes lostParity ∧
        NoCollisions prefixHash
          (considered 2 1 1 threeBytes lostParity prefixHash (dispatch plainCpu)) ∧
        (verifyAndRepairSegment prefixHash (dispatch plainCpu) lostParity).2 = .ok 1 ∧
        lostParity.data = threeBytes.data := by
    decide +kernel
  rw [← sections_threeBytesFile] at hchecks
  obtain ⟨hseal, hparity, ⟨hsum, hlen, hplen, hheader⟩, hintact, hcoll, hok, hdata⟩ := hchecks
  exact (relocated_repairable_iff plainCpu [1, 2, 3] 2 1 1 threeBytesOnOne threeBytesOnTwo toTwo
    0 0 2 1 (List.replicate 5 0) threeBytesFile copiedToTwo lostParity hseal hparity
    (by decide +kernel) rfl rfl run_toTwo rfl ⟨hsum, hlen, hplen, hheader⟩ hintact hcoll hok).mpr
    hdata

/-- A lost data shard is repaired on pool 1, and the segment is corrupt on pool 2. -/
theorem lost_shard_corrupt_on_two :
    sealFromData prefixHash (dispatch plainCpu) [1, 2, 3] 2 1 1 = .ok threeBytesFile.sections ∧
      threeBytesOnOne.validate 0 2 = some toTwo ∧
      threeBytesOnOne.sourceFile 0 = some threeBytesFile ∧
      Runs.run step (threeBytesOnOne.holding (some (toTwo, .copy)))
        ((0 :: List.replicate 5 0).map .relocateStep) = some threeBytesOnTwo ∧
      threeBytesOnTwo.files 2 = some copiedToTwo ∧
      Damaged threeBytesFile.sections lostShard ∧
      Intact 2 1 1 threeBytesFile.sections lostShard ∧
      FewPerStripe 2 1 1 threeBytesFile.sections lostShard ∧
      verifyAndRepairSegment prefixHash (dispatch plainCpu) lostShard = (threeBytes, .ok 1) ∧
      verifyAndRepairSegment prefixHash (dispatch plainCpu)
          { copiedToTwo.sections with data := lostShard.data } =
        (⟨prefixHash [1, 2, 3], [9, 2, 3], none⟩, .error .segmentCorrupt) := by
  have hchecks :
      sealFromData prefixHash (dispatch plainCpu) [1, 2, 3] 2 1 1 = .ok threeBytes ∧
        lostShard.data.length = threeBytes.data.length ∧
        Intact 2 1 1 threeBytes lostShard ∧ FewPerStripe 2 1 1 threeBytes lostShard ∧
        verifyAndRepairSegment prefixHash (dispatch plainCpu) lostShard = (threeBytes, .ok 1) := by
    decide +kernel
  rw [sections_threeBytesFile]
  obtain ⟨hseal, hlen, hintact, hfew, hrepaired⟩ := hchecks
  exact ⟨hseal, by decide +kernel, rfl, run_toTwo, rfl, ⟨rfl, hlen, rfl, rfl⟩, hintact, hfew,
    hrepaired, by decide +kernel⟩

end Relocate

end OceanFs.Segment
