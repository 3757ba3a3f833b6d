import OceanFs.Lib.Lists
import OceanFs.Segment.LogFold

/-!
Which registries a checkpoint can hold.

The event of a seal leaves out a list of contained objects that is too long for its record, and
the registry keeps it. The snapshot has the same cap and fails on such a list, and so does every
later one until the segment is deleted. What a snapshot does write is not always what is read back:
a reserved segment loses its position, a sealed one without a position gets one, and an empty list
becomes no list.
-/

namespace OceanFs.Segment

open OceanFs.Core Lib Option List

section

variable (blobLen : List ContainedObject → ℕ)

/-- The snapshot of a registry can be made, and decodes to its live entries. -/
def CheckpointWritten (now : ℕ) (r : Registry) : Prop :=
  ∃ records, encodeSnapshot blobLen r = some records ∧
    ∃ r', decodeSnapshot now records = some r' ∧
      ∀ id, r'.lookup id = (r.lookup id).filter (!·.isDeleted)

/-- What a snapshot can hold of an entry. -/
def LifecycleEntry.Snapshotable (e : LifecycleEntry) : Prop :=
  match e.state with
  | .reserved => e.dataWalPos = none ∧ e.repackedFrom = none ∧ e.containedObjects = none
  | .sealed => e.dataWalPos ≠ none ∧
      ∀ l ∈ e.containedObjects, l ≠ [] ∧ blobLen l ≤ sealMaxContainedTailBytes
  | .deleted _ => True

end

variable {blobLen : List ContainedObject → ℕ} {r : Registry}

lemma encodeContained_isSome {o : Option (List ContainedObject)} :
    (encodeContained blobLen o).isSome ↔
      ∀ l ∈ o, l ≠ [] → blobLen l ≤ sealMaxContainedTailBytes := by
  rcases o with _ | _ | ⟨c, cs⟩
  · simp [encodeContained]
  · simp [encodeContained]
  · simp only [encodeContained]
    split_ifs with h
    · simpa using h
    · simpa using h

lemma LifecycleEntry.snapshotable_iff {e : LifecycleEntry} (id : SegmentId)
    (hlive : e.isDeleted = false) :
    (encodeEntry blobLen id e).isSome ∧ e.restored = e ↔ e.Snapshotable blobLen := by
  obtain ⟨state, metadata, pos, repackedFrom, contained⟩ := e
  cases state with
  | reserved =>
    simp only [encodeEntry, restored, Snapshotable, LifecycleEntry.new, mk.injEq, true_and,
      isSome_some]
    exact and_congr eq_comm (and_congr eq_comm eq_comm)
  | sealed =>
    simp only [encodeEntry, restored, Snapshotable, mk.injEq, true_and, isSome_map,
      encodeContained_isSome]
    rcases pos with _ | pos
    · simp
    · rcases contained with _ | _ | ⟨c, cs⟩ <;> simp
  | deleted evictAt => cases hlive

/-- **Which registries a checkpoint can hold.** -/
theorem checkpoint_written_iff (blobLen : List ContainedObject → ℕ) (now : ℕ) (r : Registry) :
    CheckpointWritten blobLen now r ↔ ∀ p ∈ r.live, p.2.Snapshotable blobLen := by
  have hentries : (∀ p ∈ r.live, p.2.Snapshotable blobLen) ↔
      (encodeSnapshot blobLen r).isSome ∧ ∀ p ∈ r.live, p.2.restored = p.2 := by
    rw [encodeSnapshot, Lists.isSome_mapM_iff, ← forall₂_and]
    exact forall₂_congr fun p hp => (p.2.snapshotable_iff p.1 (Registry.mem_live.mp hp).2).symm
  have hsame : (∀ id, (Registry.copy (·.restored) r.live ∅).lookup id =
      (r.lookup id).filter (!·.isDeleted)) ↔ ∀ p ∈ r.live, p.2.restored = p.2 := by
    simp only [Registry.lookup_copy_live]
    constructor
    · rintro h ⟨id, e⟩ hp
      obtain ⟨hl, hlive⟩ := Registry.mem_live.mp hp
      have hid := h id
      rw [hl, filter_some_pos (by simpa using hlive)] at hid
      exact some.inj hid
    · intro h id
      cases he : (r.lookup id).filter (!·.isDeleted) with
      | none => rfl
      | some e =>
        obtain ⟨hl, hlive⟩ := filter_eq_some_iff.mp he
        exact congrArg some (h (id, e) (Registry.mem_live.mpr ⟨hl, by simpa using hlive⟩))
  rw [hentries, ← hsame]
  constructor
  · rintro ⟨records, henc, r', hdec, hlookup⟩
    obtain rfl := some.inj ((decode_encode now henc).symm.trans hdec)
    exact ⟨by simp [henc], hlookup⟩
  · rintro ⟨hsome, hlookup⟩
    obtain ⟨records, henc⟩ := isSome_iff_exists.mp hsome
    exact ⟨records, henc, _, decode_encode now henc, hlookup⟩

variable (contained : List ContainedObject)

/-- Segment 7 is sealed with a list of contained objects. -/
def sealedWith : List Coordinator.Act :=
  Coordinator.submitted 0 (.reserve 7 .small 4 2) ++ Coordinator.submitted 1 (.sealWith 7
    ⟨7, 4, 2, .small, some zeroHash, [], some 3, 1, 100⟩ none (some contained))

lemma sealedWith_live :
    ∃ s, Runs.run (Coordinator.step 5) Coordinator.initial (sealedWith contained) = some s ∧
      ∃ e, (7, e) ∈ s.registry.live ∧ e.state = .sealed ∧ e.containedObjects = some contained :=
  ⟨_, rfl, _, Registry.mem_live.mpr ⟨rfl, rfl⟩, rfl, rfl⟩

/-- What bincode makes of a list: 64 bits for its length and for that of each text. -/
def bincodeLen : ℕ :=
  8 + (contained.map fun c => 16 + c.bucket.utf8ByteSize + c.key.utf8ByteSize).sum

lemma le_bincodeLen :
    16 * contained.length ≤ bincodeLen contained := by
  induction contained with
  | nil => exact Nat.zero_le _
  | cons c contained ih =>
    simp only [bincodeLen, map_cons, sum_cons, length_cons] at ih ⊢
    omega

/-- **A seal with half a million objects is accepted, and stops all checkpoints.** -/
theorem long_list_stops_checkpoints :
    ∃ s, Runs.run (Coordinator.step 5) Coordinator.initial
        (sealedWith ((List.range 500000).map fun i => ⟨"photos", toString i⟩)) = some s ∧
      ∀ now, ¬ CheckpointWritten bincodeLen now s.registry := by
  obtain ⟨s, hrun, e, hlive, hsealed, hcontained⟩ :=
    sealedWith_live ((List.range 500000).map fun i => ⟨"photos", toString i⟩)
  refine ⟨s, hrun, ?_⟩
  rintro now ⟨records, henc, -⟩
  have hlong := le_bincodeLen ((List.range 500000).map fun i => ⟨"photos", toString i⟩)
  have hlength : ((List.range 500000).map fun i =>
      ContainedObject.mk "photos" (toString i)).length = 500000 := by
    rw [length_map, length_range]
  generalize (List.range 500000).map (fun i => ContainedObject.mk "photos" (toString i)) = l at *
  have hnone : encodeEntry bincodeLen 7 e = none := by
    simp only [encodeEntry, hsealed, hcontained, map_eq_none_iff]
    rw [← not_isSome_iff_eq_none, encodeContained_isSome]
    intro h
    have hle := h l rfl (ne_nil_of_length_pos (by omega))
    rw [sealMaxContainedTailBytes] at hle
    omega
  rw [encodeSnapshot, Lists.mapM_eq_none ⟨_, hlive, hnone⟩] at henc
  cases henc

end OceanFs.Segment
