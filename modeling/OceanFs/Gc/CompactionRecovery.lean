import OceanFs.Metadata.Store
import OceanFs.Segment.EventCheckpoint

/-!
Startup recovery of incomplete compactions.

Every live entry with a compaction marker is a unit. Whether the objects of the unit have moved
is asked by reading the rows that the new segment's own list of contained objects names: if one
of them refers to the new segment the old one is deleted or swept, otherwise the new one is. A
segment without a list counts as not referred to.
-/

namespace OceanFs.Gc

open OceanFs.Core Metadata Segment Option

/-- The objects table, and the rows of it that cannot be read. -/
structure Objects where
  store : Store
  readFails : BucketId → ObjectKey → Bool

/-- `get_object_metadata`; the outer `none` is a failed read. -/
def Objects.getObjectMetadata (o : Objects) (b : BucketId) (k : ObjectKey) :
    Option (Option ObjectMetadata) :=
  if o.readFails b k then none else some (o.store.getObject b k)

/-- A chunk of the row is in the segment. -/
def refersTo (m : ObjectMetadata) (id : SegmentId) : Bool := m.chunks.any (·.segmentId = id)

/-- A row that the list names, and that can be read, refers to the segment. -/
def names (o : Objects) (contained : List ContainedObject) (id : SegmentId) : Bool :=
  contained.any fun co =>
    match o.getObjectMetadata co.bucket co.key with
    | some (some m) => refersTo m id
    | _ => false

/-- `StoreObjectLookup::is_referenced`. -/
def isReferenced (r : Registry) (now : ℕ) (o : Objects) (id : SegmentId) : Bool :=
  match r.get now id with
  | none => false
  | some e =>
    match e.containedObjects with
    | none => false
    | some contained => names o contained id

inductive CompactionRecoveryAction
  | finishOldDeletion (id : SegmentId)
  | sweepNewOrphan (id : SegmentId)
  | sweepOldDat (id : SegmentId)
  deriving DecidableEq

/-- The segment that the action removes. -/
def CompactionRecoveryAction.segment : CompactionRecoveryAction → SegmentId
  | .finishOldDeletion id => id
  | .sweepNewOrphan id => id
  | .sweepOldDat id => id

/-- What becomes of one unit; a reserved old segment is left alone. -/
def recoverUnit (r : Registry) (now : ℕ) (o : Objects) (newId oldId : SegmentId) :
    Option CompactionRecoveryAction :=
  if isReferenced r now o newId then
    match r.get now oldId with
    | none => some (.sweepOldDat oldId)
    | some e =>
      match e.state with
      | .sealed => some (.finishOldDeletion oldId)
      | .reserved => none
      | .deleted _ => some (.sweepOldDat oldId)
  else some (.sweepNewOrphan newId)

def recoverIncompleteCompactions (r : Registry) (now : ℕ) (o : Objects) :
    List CompactionRecoveryAction :=
  let units := r.live.filterMap fun (id, e) => e.repackedFrom.map (id, ·)
  units.filterMap fun (newId, oldId) => recoverUnit r now o newId oldId

/-- Some row of the table refers to the segment. -/
def References (s : Store) (id : SegmentId) : Prop :=
  ∃ b k m, s.getObject b k = some m ∧ refersTo m id = true

/-! ### The units of a registry -/

lemma mem_recover {r : Registry} {now : ℕ} {o : Objects} {a : CompactionRecoveryAction} :
    a ∈ recoverIncompleteCompactions r now o ↔
      ∃ newId e oldId, r.lookup newId = some e ∧ e.isDeleted = false ∧
        e.repackedFrom = some oldId ∧ recoverUnit r now o newId oldId = some a := by
  simp only [recoverIncompleteCompactions, List.mem_filterMap, Prod.exists, map_eq_some_iff,
    Prod.mk.injEq, Registry.mem_live]
  constructor
  · rintro ⟨newId, oldId, ⟨id, e, ⟨hl, hd⟩, old, hrep, rfl, rfl⟩, hunit⟩
    exact ⟨id, e, old, hl, hd, hrep, hunit⟩
  · rintro ⟨newId, e, oldId, hl, hd, hrep, hunit⟩
    exact ⟨newId, oldId, ⟨newId, e, ⟨hl, hd⟩, oldId, hrep, rfl, rfl⟩, hunit⟩

lemma isReferenced_of_live {r : Registry} {now : ℕ} {o : Objects} {id : SegmentId}
    {e : LifecycleEntry} (hl : r.lookup id = some e) (hd : e.isDeleted = false) :
    isReferenced r now o id = names o (e.containedObjects.getD []) id := by
  rw [isReferenced, Registry.get_of_live now hl hd]
  cases hc : e.containedObjects <;> simp [hc, names]

lemma recoverUnit_spares {r : Registry} {now : ℕ} {o : Objects} {newId oldId : SegmentId}
    {e : LifecycleEntry} (hl : r.lookup newId = some e) (hd : e.isDeleted = false) :
    (∀ a, recoverUnit r now o newId oldId = some a → ¬References o.store a.segment) ↔
      (References o.store newId → names o (e.containedObjects.getD []) newId = true) ∧
        (names o (e.containedObjects.getD []) newId = true →
          (∀ old ∈ r.lookup oldId, old.state ≠ .reserved) → ¬References o.store oldId) := by
  have href := @isReferenced_of_live r now o newId e hl hd
  cases hn : names o (e.containedObjects.getD []) newId with
  | false => simp [recoverUnit, href, hn, CompactionRecoveryAction.segment]
  | true =>
    simp only [recoverUnit, href, hn, if_true, implies_true, true_and, true_implies]
    rcases hold : r.lookup oldId with _ | ⟨state, m, pos, rep, con⟩
    · simp [Registry.get_of_absent now hold, CompactionRecoveryAction.segment]
    · cases state with
      | reserved => simp [Registry.get_of_live now hold rfl]
      | sealed => simp [Registry.get_of_live now hold rfl, CompactionRecoveryAction.segment]
      | deleted t =>
        -- past its grace or not, a deleted entry is no reserved one
        have hget : r.get now oldId = none ∨ r.get now oldId = r.lookup oldId := by
          rw [Registry.get, hold, unexpired, filter_some]
          split <;> simp
        rcases hget with hget | hget <;> simp [hget, hold, CompactionRecoveryAction.segment]

/-! ### After a boot -/

section

variable {blobLen : List ContainedObject → ℕ}

/-- The actions of recovery after a boot remove no segment that a row refers to. -/
def SparesLive (grace now : ℕ) (o : Objects) (checkpoint : Option (Checkpoint blobLen))
    (events : List (ℕ × SegmentEvent)) (ending : LogEnd) : Prop :=
  ∀ r, boot grace now (checkpoint.map (·.records)) events ending = .ok r →
    ∀ a ∈ recoverIncompleteCompactions r now o, ¬References o.store a.segment

/-- What the history must be like. Of every live segment with a compaction marker: if the
checkpoint covers its seal, no row refers to it. If not, a row refers to it only if one that its
list names does; and once one that its list names does, no row refers to the old segment, unless
that is only reserved. -/
def UnitsRecoverable (grace : ℕ) (o : Objects) (checkpoint : Option (Checkpoint blobLen))
    (events : List (ℕ × SegmentEvent)) (ending : LogEnd) : Prop :=
  ∀ i, bootIntact grace checkpoint events ending = .ok i →
    ∀ newId e oldId, i.lookup newId = some e → e.isDeleted = false → e.repackedFrom = some oldId →
      (Covered checkpoint events newId → ¬References o.store newId) ∧
      (¬Covered checkpoint events newId →
        (References o.store newId → names o (e.containedObjects.getD []) newId = true) ∧
        (names o (e.containedObjects.getD []) newId = true →
          (∀ old ∈ i.lookup oldId, old.state ≠ .reserved) → ¬References o.store oldId))

/-- **Recovery after a boot** removes no segment that a row refers to exactly when every unit of
the history is recoverable from what the boot keeps. -/
theorem recovery_spares_live_iff (grace now : ℕ) (o : Objects)
    (checkpoint : Option (Checkpoint blobLen)) (events : List (ℕ × SegmentEvent))
    (ending : LogEnd) :
    SparesLive grace now o checkpoint events ending ↔
      UnitsRecoverable grace o checkpoint events ending := by
  obtain ⟨herr, hok⟩ := boot_forgets grace now checkpoint events ending
  unfold SparesLive UnitsRecoverable
  rcases hi : bootIntact grace checkpoint events ending with e | i
  · rw [herr e hi]
    exact ⟨fun _ _ => nofun, fun _ _ => nofun⟩
  obtain ⟨r, hr, hforgets⟩ := hok i hi
  simp only [hr, Except.ok.injEq, forall_eq', mem_recover]
  constructor
  · intro hsafe newId e oldId hl hd hrep
    have hunit : ∀ e', r.lookup newId = some e' → e'.isDeleted = false →
        e'.repackedFrom = some oldId →
        ∀ a, recoverUnit r now o newId oldId = some a → ¬References o.store a.segment :=
      fun e' hl' hd' hrep' a ha => hsafe a ⟨newId, e', oldId, hl', hd', hrep', ha⟩
    refine ⟨fun hc => ?_, fun hc => ?_⟩
    · obtain ⟨e', he', -, hr'⟩ := (hforgets newId).1 hc
      obtain rfl : e' = e := some.inj (he'.symm.trans hl)
      have := ((recoverUnit_spares hr' hd).mp (hunit _ hr' hd hrep)).1
      simpa [LifecycleEntry.forget, names] using this
    · rcases (hforgets newId).2 hc with heq | ⟨e', t, he', hdel, -⟩
      · rw [hl] at heq
        have := (recoverUnit_spares heq hd).mp (hunit _ heq hd hrep)
        rwa [(hforgets oldId).reserved_iff] at this
      · obtain rfl : e' = e := some.inj (he'.symm.trans hl)
        simp [LifecycleEntry.isDeleted, hdel] at hd
  · rintro hgood a ⟨newId, e', oldId, hl', hd', hrep', ha⟩
    by_cases hc : Covered checkpoint events newId
    · obtain ⟨e, he, -, hr'⟩ := (hforgets newId).1 hc
      obtain rfl : e.forget = e' := some.inj (hr'.symm.trans hl')
      have hnot := (hgood newId e oldId he hd' hrep').1 hc
      refine (recoverUnit_spares hl' hd').mpr ⟨fun h => absurd h hnot, ?_⟩ a ha
      simp [LifecycleEntry.forget, names]
    · rcases (hforgets newId).2 hc with heq | ⟨e, t, -, hdel, hr'⟩
      · rw [hl'] at heq
        have := (hgood newId e' oldId heq.symm hd' hrep').2 hc
        rw [← (hforgets oldId).reserved_iff] at this
        exact (recoverUnit_spares hl' hd').mpr this a ha
      · obtain rfl : e.forget = e' := some.inj (hr'.symm.trans hl')
        simp [LifecycleEntry.isDeleted, LifecycleEntry.forget, hdel] at hd'

end

/-! ### A compaction that a checkpoint covers -/

def sealOf (id : SegmentId) (repackedFrom : Option SegmentId) : SegmentEvent :=
  .seal ⟨id, .standard, 4, 2, zeroHash, toLex (0, 0), 3, repackedFrom, 0,
    some [⟨"photos", "cat"⟩]⟩

/-- Segment 1 is repacked into segment 2, up to the delete of segment 1. -/
def compaction : List (ℕ × SegmentEvent) :=
  [(0, .reserve ⟨1, .standard, 4, 2⟩), (0, sealOf 1 none), (0, .reserve ⟨2, .standard, 4, 2⟩),
    (0, sealOf 2 (some 1)), (0, .delete 1)]

/-- The object of segment 1 has moved to segment 2. -/
def movedObjects : Objects where
  store := Store.empty.setKey "photos" "cat"
    { KeyState.empty with row := some ⟨"cat", 3, none, [⟨2, 0, 3, false, 3⟩], none, 0, ⟨1, 0⟩⟩ }
  readFails := fun _ _ => false

/-- **A finished compaction is undone**: when a checkpoint covers it, recovery sweeps the new
segment, which the moved object refers to. -/
theorem covered_repack_swept :
    ∃ c : Checkpoint List.length, rebuildFromEvents 0 compaction .clean ∅ = .ok c.registry ∧
      ¬SparesLive 0 0 movedObjects (some c) [] .clean := by
  let folded : Registry := (rebuildFromEvents 0 compaction .clean ∅).toOption.getD ∅
  refine ⟨⟨folded, (encodeSnapshot List.length folded).getD [], rfl⟩, rfl, fun hsafe => ?_⟩
  have href : References movedObjects.store 2 :=
    ⟨"photos", "cat", _, by simp [movedObjects, Store.getObject]; rfl, rfl⟩
  exact hsafe _ rfl (.sweepNewOrphan 2) (by decide) href

end OceanFs.Gc
