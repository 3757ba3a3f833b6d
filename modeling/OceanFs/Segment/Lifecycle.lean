import Mathlib.Data.List.AList
import OceanFs.Core.Types

/-!
The segment lifecycle registry and the fold of the event log into it.

A segment is reserved, then sealed, then deleted; a deleted entry stays for the delete grace and
counts as absent afterwards. Every transition looks at one entry, so it is given here on that
entry and lifted to the registry. The fold applies the events of the log in order and goes on
after a rejection that a race can leave behind.
-/

namespace OceanFs.Segment

open OceanFs.Core List

inductive SizeTier
  | inline
  | small
  | standard
  | multi
  deriving DecidableEq, Repr

/-- The file sequence number and the offset of an entry of the data WAL. -/
abbrev DataWalPos := ℕ ×ₗ ℕ

structure SegmentMetadata where
  segmentId : SegmentId
  ecK : UInt8
  ecM : UInt8
  sizeTier : SizeTier
  merkleRoot : Option HashOutput
  storageLocations : List NodeId
  sealedAt : Option ℤ
  poolId : PoolId
  totalBytes : ℕ
  deriving DecidableEq

structure ContainedObject where
  bucket : BucketId
  key : ObjectKey
  deriving DecidableEq

inductive SegmentState
  | reserved
  | sealed
  /-- With the end of the delete grace. -/
  | deleted (evictAt : ℕ)
  deriving DecidableEq

structure LifecycleEntry where
  state : SegmentState
  metadata : SegmentMetadata
  dataWalPos : Option DataWalPos
  repackedFrom : Option SegmentId
  containedObjects : Option (List ContainedObject)
  deriving DecidableEq

namespace LifecycleEntry

/-- `LifecycleEntry::new`. -/
def new (state : SegmentState) (metadata : SegmentMetadata) : LifecycleEntry where
  state := state
  metadata := metadata
  dataWalPos := none
  repackedFrom := none
  containedObjects := none

def isDeleted (e : LifecycleEntry) : Bool :=
  match e.state with
  | .deleted _ => true
  | _ => false

def deletedExpired (now : ℕ) (e : LifecycleEntry) : Bool :=
  match e.state with
  | .deleted evictAt => evictAt ≤ now
  | _ => false

end LifecycleEntry

inductive TransitionError
  | alreadySealed
  | alreadyDeleted
  | notReserved
  | missing
  deriving DecidableEq

/-! ### Transitions of one entry -/

/-- An entry past its grace counts as absent, whether its shard has been swept or not. -/
def unexpired (now : ℕ) (o : Option LifecycleEntry) : Option LifecycleEntry :=
  o.filter fun e => !e.deletedExpired now

abbrev Transition := Option LifecycleEntry → Except TransitionError (Option LifecycleEntry)

def reserveEntry (m : SegmentMetadata) : Transition
  | none => .ok (some (.new .reserved m))
  | some e =>
    match e.state with
    | .reserved => .ok (some e)
    | .sealed => .error .alreadySealed
    | .deleted _ => .error .alreadyDeleted

def sealEntry (m : SegmentMetadata) (repackedFrom : Option SegmentId)
    (contained : Option (List ContainedObject)) : Transition
  | none => .error .missing
  | some e =>
    match e.state with
    | .reserved => .ok (some { e with
        state := .sealed
        metadata := m
        repackedFrom := repackedFrom
        containedObjects := contained })
    | .sealed => .error .alreadySealed
    | .deleted _ => .error .notReserved

/-- A grace of zero removes the entry at once. -/
def deleteEntry (grace now : ℕ) : Transition
  | none => .error .missing
  | some e =>
    match e.state with
    | .deleted _ => .error .alreadyDeleted
    | _ => .ok (if grace = 0 then none else some { e with state := .deleted (now + grace) })

/-- The root is replaced, by `none` too; the holders and the pool only when given. -/
def refreshEntry (merkleRoot : Option HashOutput) (locations : Option (List NodeId))
    (poolId : Option PoolId) : Transition
  | none => .error .missing
  | some e =>
    match e.state with
    | .reserved => .error .notReserved
    | .sealed => .ok (some { e with metadata := { e.metadata with
        merkleRoot := merkleRoot
        storageLocations := locations.getD e.metadata.storageLocations
        poolId := poolId.getD e.metadata.poolId } })
    | .deleted _ => .error .alreadyDeleted

/-- `record_data_wal_pos`: a later record can only raise the position. -/
def recordPos (pos : DataWalPos) (o : Option LifecycleEntry) : Option LifecycleEntry :=
  o.map fun e =>
    if e.isDeleted then e
    else { e with dataWalPos := some (e.dataWalPos.elim pos (max · pos)) }

/-! ### What the transitions accept -/

lemma reserveEntry_ok {m : SegmentMetadata} {o o' : Option LifecycleEntry}
    (h : reserveEntry m o = .ok o') :
    o = none ∧ o' = some (.new .reserved m) ∨
      ∃ e, o = some e ∧ e.state = .reserved ∧ o' = some e := by
  unfold reserveEntry at h
  split at h
  · exact .inl ⟨rfl, (Except.ok.inj h).symm⟩
  · rename_i e
    split at h <;> simp only [reduceCtorEq, Except.ok.injEq] at h
    rename_i hs
    exact .inr ⟨e, rfl, hs, h.symm⟩

lemma sealEntry_ok {m : SegmentMetadata} {repackedFrom : Option SegmentId}
    {contained : Option (List ContainedObject)} {o o' : Option LifecycleEntry}
    (h : sealEntry m repackedFrom contained o = .ok o') :
    ∃ e e', o = some e ∧ e.state = .reserved ∧ o' = some e' ∧ e'.state = .sealed ∧
      e'.metadata = m := by
  unfold sealEntry at h
  split at h
  · simp at h
  · rename_i e
    split at h <;> simp only [reduceCtorEq, Except.ok.injEq] at h
    rename_i hs
    exact ⟨e, _, rfl, hs, h.symm, rfl, rfl⟩

lemma refreshEntry_ok {root : Option HashOutput} {locations : Option (List NodeId)}
    {poolId : Option PoolId} {o o' : Option LifecycleEntry}
    (h : refreshEntry root locations poolId o = .ok o') :
    ∃ e e', o = some e ∧ e.state = .sealed ∧ o' = some e' ∧ e'.state = .sealed ∧
      e'.metadata = { e.metadata with
        merkleRoot := root
        storageLocations := locations.getD e.metadata.storageLocations
        poolId := poolId.getD e.metadata.poolId } := by
  unfold refreshEntry at h
  split at h
  · simp at h
  · rename_i e
    split at h <;> simp only [reduceCtorEq, Except.ok.injEq] at h
    rename_i hs
    exact ⟨e, _, rfl, hs, h.symm, hs, rfl⟩

lemma deleteEntry_ok {grace now : ℕ} {o o' : Option LifecycleEntry}
    (h : deleteEntry grace now o = .ok o') :
    ∃ e, o = some e ∧ ∀ e', o' = some e' → e'.isDeleted = true ∧ e'.metadata = e.metadata := by
  unfold deleteEntry at h
  split at h
  · simp at h
  · rename_i e
    split at h
    · simp at h
    · refine ⟨e, rfl, ?_⟩
      rintro e' rfl
      split_ifs at h
      · simp at h
      · obtain rfl := Option.some.inj (Except.ok.inj h)
        exact ⟨rfl, rfl⟩

/-! ### The registry -/

abbrev Registry := AList fun _ : SegmentId => LifecycleEntry

lemma unexpired_of_not_deleted {now : ℕ} {e : LifecycleEntry} (h : e.isDeleted = false) :
    unexpired now (some e) = some e := by
  have hd : e.deletedExpired now = false := by
    unfold LifecycleEntry.isDeleted at h
    unfold LifecycleEntry.deletedExpired
    split at h <;> simp_all
  simp [unexpired, hd]

namespace Registry

variable (r : Registry)

def set (id : SegmentId) : Option LifecycleEntry → Registry
  | some e => r.insert id e
  | none => r.erase id

@[simp] lemma lookup_set (id id' : SegmentId) (o : Option LifecycleEntry) :
    (r.set id o).lookup id' = if id' = id then o else r.lookup id' := by
  by_cases h : id' = id
  · subst h
    cases o <;> simp [set]
  · cases o <;> simp [set, h]

/-- `get`. -/
def get (now : ℕ) (id : SegmentId) : Option LifecycleEntry :=
  unexpired now (r.lookup id)

lemma get_of_live {r : Registry} {id : SegmentId} {e : LifecycleEntry} (now : ℕ)
    (hl : r.lookup id = some e) (hd : e.isDeleted = false) : r.get now id = some e := by
  rw [get, hl, unexpired_of_not_deleted hd]

lemma get_of_absent {r : Registry} {id : SegmentId} (now : ℕ) (hl : r.lookup id = none) :
    r.get now id = none := by
  rw [get, hl]
  rfl

def transition (now : ℕ) (id : SegmentId) (f : Transition) :
    Except TransitionError Registry :=
  (f (r.get now id)).map (r.set id)

lemma lookup_of_get {r : Registry} {now : ℕ} {id : SegmentId} {e : LifecycleEntry}
    (h : r.get now id = some e) : r.lookup id = some e :=
  (Option.filter_eq_some_iff.mp h).1

/-- A registry after a request, which leaves it as it was when it is rejected. -/
def requested : Except TransitionError Registry → Registry
  | .ok r' => r'
  | .error _ => r

lemma requested_cases (now : ℕ) (id : SegmentId) (f : Transition) :
    r.requested (r.transition now id f) = r ∨
      ∃ o, f (r.get now id) = .ok o ∧ r.requested (r.transition now id f) = r.set id o := by
  unfold transition
  cases hf : f (r.get now id) with
  | error e => exact .inl rfl
  | ok o => exact .inr ⟨o, rfl, rfl⟩

lemma transition_ok {r r' : Registry} {now : ℕ} {id : SegmentId} {f : Transition}
    (h : r.transition now id f = .ok r') : ∃ o, f (r.get now id) = .ok o ∧ r' = r.set id o := by
  unfold transition at h
  cases hf : f (r.get now id) with
  | error e => simp [hf, Except.map] at h
  | ok o =>
    rw [hf] at h
    exact ⟨o, rfl, (Except.ok.inj h).symm⟩

lemma transition_of_ok {r : Registry} {now : ℕ} {id : SegmentId} {f : Transition}
    {o : Option LifecycleEntry} (h : f (r.get now id) = .ok o) :
    r.transition now id f = .ok (r.set id o) := by
  rw [transition, h]
  rfl

def reserve (now : ℕ) (id : SegmentId) (m : SegmentMetadata) :
    Except TransitionError Registry :=
  r.transition now id (reserveEntry m)

def sealWith (now : ℕ) (id : SegmentId) (m : SegmentMetadata) (repackedFrom : Option SegmentId)
    (contained : Option (List ContainedObject)) :
    Except TransitionError Registry :=
  r.transition now id (sealEntry m repackedFrom contained)

def recordDataWalPos (id : SegmentId) (pos : DataWalPos) : Registry :=
  r.set id (recordPos pos (r.lookup id))

/-- `for_each`: the entries it visits. -/
def live : List (SegmentId × LifecycleEntry) :=
  (r.entries.filter (!·.2.isDeleted)).map fun s => (s.1, s.2)

lemma mem_live {r : Registry} {id : SegmentId} {e : LifecycleEntry} :
    (id, e) ∈ r.live ↔ r.lookup id = some e ∧ e.isDeleted = false := by
  simp only [live, mem_map, mem_filter, Bool.not_eq_true']
  constructor
  · rintro ⟨⟨id', e'⟩, ⟨hmem, hd⟩, heq⟩
    obtain ⟨rfl, rfl⟩ := Prod.mk.inj heq
    exact ⟨AList.mem_lookup_iff.mpr hmem, hd⟩
  · rintro ⟨hl, hd⟩
    exact ⟨⟨id, e⟩, ⟨AList.mem_lookup_iff.mp hl, hd⟩, rfl⟩

lemma live_keys_nodup : (r.live.map (·.1)).Nodup := by
  have hkeys : r.live.map (·.1) = (r.entries.filter (!·.2.isDeleted)).keys := by
    simp [live, List.keys, Function.comp_def]
  rw [hkeys]
  exact r.nodupKeys.sublist filter_sublist

/-- A copy of the given entries, each changed by `f`. -/
def copy (f : LifecycleEntry → LifecycleEntry) (entries : List (SegmentId × LifecycleEntry))
    (r : Registry) : Registry :=
  entries.foldl (fun r p => r.insert p.1 (f p.2)) r

lemma lookup_copy {f : LifecycleEntry → LifecycleEntry}
    {entries : List (SegmentId × LifecycleEntry)} (hnd : (entries.map (·.1)).Nodup) (r : Registry) :
    (∀ p ∈ entries, (copy f entries r).lookup p.1 = some (f p.2)) ∧
      ∀ id, id ∉ entries.map (·.1) → (copy f entries r).lookup id = r.lookup id := by
  induction entries generalizing r with
  | nil => simp [copy]
  | cons q entries ih =>
    obtain ⟨hq, hnd⟩ := nodup_cons.mp hnd
    obtain ⟨hin, hout⟩ := ih hnd (r.insert q.1 (f q.2))
    refine ⟨fun p hp => ?_, fun id hid => ?_⟩
    · rcases mem_cons.mp hp with rfl | hp
      · exact (hout _ hq).trans (AList.lookup_insert _)
      · exact hin p hp
    · simp only [map_cons, mem_cons, not_or] at hid
      exact (hout id hid.2).trans (AList.lookup_insert_ne hid.1)

lemma lookup_copy_live (f : LifecycleEntry → LifecycleEntry) (r : Registry) (id : SegmentId) :
    (copy f r.live ∅).lookup id = ((r.lookup id).filter (!·.isDeleted)).map f := by
  obtain ⟨hin, hout⟩ := @lookup_copy f _ r.live_keys_nodup ∅
  cases he : (r.lookup id).filter (!·.isDeleted) with
  | none =>
    rw [hout id ?_]
    · rfl
    · intro hmem
      obtain ⟨⟨id', e⟩, hlive, rfl⟩ := mem_map.mp hmem
      obtain ⟨hl, hdel⟩ := mem_live.mp hlive
      simp [hl, hdel] at he
  | some e =>
    obtain ⟨hl, hdel⟩ := Option.filter_eq_some_iff.mp he
    exact hin (id, e) (mem_live.mpr ⟨hl, by simpa using hdel⟩)

end Registry

/-! ### Events -/

structure ReserveEvent where
  segmentId : SegmentId
  tier : SizeTier
  ecK : UInt8
  ecM : UInt8
  deriving DecidableEq

structure SealEvent where
  segmentId : SegmentId
  tier : SizeTier
  ecK : UInt8
  ecM : UInt8
  merkleRoot : HashOutput
  dataWalPos : DataWalPos
  totalBytes : ℕ
  repackedFrom : Option SegmentId
  poolId : PoolId
  containedObjects : Option (List ContainedObject)
  deriving DecidableEq

structure MetadataRefreshEvent where
  segmentId : SegmentId
  merkleRoot : Option HashOutput
  storageLocations : Option (List NodeId)
  poolId : Option PoolId
  deriving DecidableEq

inductive SegmentEvent
  | reserve (evt : ReserveEvent)
  | seal (evt : SealEvent)
  | delete (segmentId : SegmentId)
  | metadataRefresh (evt : MetadataRefreshEvent)
  deriving DecidableEq

namespace SegmentEvent

def segmentId : SegmentEvent → SegmentId
  | .reserve evt => evt.segmentId
  | .seal evt => evt.segmentId
  | .delete id => id
  | .metadataRefresh evt => evt.segmentId

end SegmentEvent

/-- The metadata of a segment that is only reserved. -/
def reservedMetadata (id : SegmentId) (tier : SizeTier) (ecK ecM : UInt8) : SegmentMetadata where
  segmentId := id
  ecK := ecK
  ecM := ecM
  sizeTier := tier
  merkleRoot := none
  storageLocations := []
  sealedAt := none
  poolId := 0
  totalBytes := 0

/-- What a seal event says of the segment; it carries no time and no holders. -/
def sealedMetadata (evt : SealEvent) : SegmentMetadata where
  segmentId := evt.segmentId
  ecK := evt.ecK
  ecM := evt.ecM
  sizeTier := evt.tier
  merkleRoot := some evt.merkleRoot
  storageLocations := []
  sealedAt := some 0
  poolId := evt.poolId
  totalBytes := evt.totalBytes

/-! ### The fold -/

/-- The rejections that the fold passes over. -/
def tolerated : TransitionError → Bool
  | .alreadySealed => true
  | .alreadyDeleted => true
  | .missing => true
  | .notReserved => false

/-- A transition, or the entry as it was with the rejection. -/
def attempt (now : ℕ) (o : Option LifecycleEntry) (f : Transition) :
    Option LifecycleEntry × Option TransitionError :=
  match f (unexpired now o) with
  | .ok o' => (o', none)
  | .error e => (o, some e)

/-- What an event does to its entry. A seal records its position first, and the position stays
when the seal is rejected. -/
def stepEntry (grace now : ℕ) (evt : SegmentEvent) (o : Option LifecycleEntry) :
    Option LifecycleEntry × Option TransitionError :=
  match evt with
  | .reserve evt => attempt now o
      (reserveEntry (reservedMetadata evt.segmentId evt.tier evt.ecK evt.ecM))
  | .seal evt => attempt now (recordPos evt.dataWalPos o)
      (sealEntry (sealedMetadata evt) evt.repackedFrom evt.containedObjects)
  | .delete _ => attempt now o (deleteEntry grace now)
  | .metadataRefresh evt =>
      attempt now o (refreshEntry evt.merkleRoot evt.storageLocations evt.poolId)

def foldEvent (grace now : ℕ) (evt : SegmentEvent) (r : Registry) :
    Except TransitionError Registry :=
  match stepEntry grace now evt (r.lookup evt.segmentId) with
  | (o, none) => .ok (r.set evt.segmentId o)
  | (o, some e) => if tolerated e then .ok (r.set evt.segmentId o) else .error e

/-- How the reader's stream of events ends. -/
inductive LogEnd
  | clean
  | torn
  | corrupt
  deriving DecidableEq

inductive FoldError
  | corruptEventLog
  | eventFold (e : TransitionError)
  deriving DecidableEq

/-- `rebuild_from_events`: the events, each with the time it is folded at. A torn record ends
the fold where it stands. -/
def rebuildFromEvents (grace : ℕ) :
    List (ℕ × SegmentEvent) → LogEnd → Registry → Except FoldError Registry
  | [], .corrupt, _ => .error .corruptEventLog
  | [], .clean, r => .ok r
  | [], .torn, r => .ok r
  | (now, evt) :: rest, ending, r =>
    match foldEvent grace now evt r with
    | .ok r => rebuildFromEvents grace rest ending r
    | .error e => .error (.eventFold e)

end OceanFs.Segment
