import OceanFs.Segment.Lifecycle

/-!
Checkpoints of the event log: the snapshot of the registry, what decoding it gives back, and
the registry that a boot starts its fold from.

A snapshot has one record per live entry. The record of a sealed entry carries its position, its
compaction marker and its list of contained objects; a list without objects is written like no
list. Decoding restores all of that into a registry of its own, and seeding copies that registry
into the one that the node boots with.
-/

namespace OceanFs.Segment

open OceanFs.Core Option List

/-- One record of a snapshot, after its length and checksum fields have been checked. -/
inductive SnapshotRecord
  | reserved (id : SegmentId) (metadata : SegmentMetadata)
  | sealed (id : SegmentId) (metadata : SegmentMetadata) (pos : DataWalPos)
      (repackedFrom : Option SegmentId) (contained : Option (List ContainedObject))
  deriving DecidableEq

namespace SnapshotRecord

def id : SnapshotRecord → SegmentId
  | .reserved id _ => id
  | .sealed id _ _ _ _ => id

/-- The entry that a record stands for. -/
def entry : SnapshotRecord → LifecycleEntry
  | .reserved _ m => .new .reserved m
  | .sealed _ m pos repackedFrom contained =>
    { state := .sealed, metadata := m, dataWalPos := some pos, repackedFrom := repackedFrom,
      containedObjects := contained }

end SnapshotRecord

def sealMaxContainedTailBytes : ℕ := 4 * 1024 * 1024

section

variable (blobLen : List ContainedObject → ℕ)

/-- The contained objects of a record; `none` when their serialization, of `blobLen` bytes, is
over the format's cap. -/
def encodeContained : Option (List ContainedObject) → Option (Option (List ContainedObject))
  | some (c :: cs) => if blobLen (c :: cs) > sealMaxContainedTailBytes then none
      else some (some (c :: cs))
  | _ => some none

def encodeEntry (id : SegmentId) (e : LifecycleEntry) : Option SnapshotRecord :=
  match e.state with
  | .reserved => some (.reserved id e.metadata)
  | .sealed => (encodeContained blobLen e.containedObjects).map
      (.sealed id e.metadata (e.dataWalPos.getD (toLex (0, 0))) e.repackedFrom ·)
  | .deleted _ => none

/-- `encode_snapshot`. -/
def encodeSnapshot (r : Registry) : Option (List SnapshotRecord) :=
  r.live.mapM fun (id, e) => encodeEntry blobLen id e

end

variable (now : ℕ)

/-- One record of `decode_snapshot`: a sealed entry is reserved, given its position, and sealed. -/
def decodeRecord (r : Registry) : SnapshotRecord → Option Registry
  | .reserved id m => (r.reserve now id m).toOption
  | .sealed id m pos repackedFrom contained => do
    let r ← (r.reserve now id (reservedMetadata id m.sizeTier m.ecK m.ecM)).toOption
    ((r.recordDataWalPos id pos).sealWith now id m repackedFrom contained).toOption

def decodeSnapshot (records : List SnapshotRecord) : Option Registry :=
  records.foldlM (decodeRecord now) ∅

/-- `seed_entry`, which is not given the contained objects. -/
def seedEntry (r : Registry) (now : ℕ) (id : SegmentId) (e : LifecycleEntry) : Registry :=
  match r.get now id with
  | some _ => r
  | none => r.insert id { LifecycleEntry.new e.state e.metadata with
      dataWalPos := e.dataWalPos
      repackedFrom := e.repackedFrom }

def seedFromCheckpoint (snapshot r : Registry) : Registry :=
  snapshot.live.foldl (fun r (id, e) => seedEntry r now id e) r

/-- The boot sequence: the checkpoint, if one can be read, then the events after it. -/
def boot (grace now : ℕ) (checkpoint : Option (List SnapshotRecord))
    (events : List (ℕ × SegmentEvent)) (ending : LogEnd) : Except FoldError Registry :=
  rebuildFromEvents grace events ending <|
    match checkpoint.bind (decodeSnapshot now) with
    | some snapshot => seedFromCheckpoint now snapshot ∅
    | none => ∅

/-! ### What a snapshot brings back -/

lemma absent_insert {r : Registry} {id : SegmentId} {ids : List SegmentId} (hid : id ∉ ids)
    (habs : ∀ i ∈ ids, r.lookup i = none) (e : LifecycleEntry) :
    ∀ i ∈ ids, (r.insert id e).lookup i = none := by
  intro i hi
  have hne : i ≠ id := fun h => hid (h ▸ hi)
  rw [AList.lookup_insert_ne hne]
  exact habs i hi

lemma decodeRecord_of_absent {r : Registry} {rec : SnapshotRecord} (h : r.lookup rec.id = none) :
    decodeRecord now r rec = some (r.insert rec.id rec.entry) := by
  have hget := Registry.get_of_absent now h
  cases rec with
  | reserved id m =>
    rw [decodeRecord, Registry.reserve, Registry.transition_of_ok (by
      rw [show r.get now id = none from hget]
      rfl)]
    rfl
  | sealed id m pos repackedFrom contained =>
    let e : LifecycleEntry := .new .reserved (reservedMetadata id m.sizeTier m.ecK m.ecM)
    have hpos : Registry.recordDataWalPos (r.insert id e) id pos =
        r.insert id { e with dataWalPos := some pos } := by
      rw [Registry.recordDataWalPos, AList.lookup_insert]
      exact AList.insert_insert r
    rw [decodeRecord, Registry.reserve, Registry.transition_of_ok (by
      rw [show r.get now id = none from hget]
      rfl)]
    simp only [Except.toOption, bind_eq_bind, bind_some]
    rw [show r.set id (some e) = r.insert id e from rfl, hpos, Registry.sealWith,
      Registry.transition_of_ok (by
        rw [Registry.get, AList.lookup_insert, unexpired_of_not_deleted rfl]
        rfl)]
    exact congrArg some (AList.insert_insert r)

/-- A live entry after its snapshot: a reserved one has no position, a sealed one always has,
and an empty list of contained objects has become no list. -/
def LifecycleEntry.restored (e : LifecycleEntry) : LifecycleEntry :=
  match e.state with
  | .reserved => .new .reserved e.metadata
  | _ => { e with
      dataWalPos := some (e.dataWalPos.getD (toLex (0, 0)))
      containedObjects := e.containedObjects.filter (· ≠ []) }

section

variable {blobLen : List ContainedObject → ℕ}

lemma encodeContained_some {o c : Option (List ContainedObject)}
    (h : encodeContained blobLen o = some c) : c = o.filter (· ≠ []) := by
  unfold encodeContained at h
  split at h
  · split at h
    · simp at h
    · obtain rfl := some.inj h
      rfl
  · rename_i hno
    obtain rfl := some.inj h
    rcases o with _ | _ | ⟨c, cs⟩
    · rfl
    · rfl
    · exact absurd rfl (hno c cs)

lemma encodeEntry_some {id : SegmentId} {e : LifecycleEntry} {rec : SnapshotRecord}
    (h : encodeEntry blobLen id e = some rec) : rec.id = id ∧ rec.entry = e.restored := by
  unfold encodeEntry at h
  unfold LifecycleEntry.restored
  split at h <;> rename_i hs <;> simp only [hs]
  · obtain rfl := some.inj h
    exact ⟨rfl, rfl⟩
  · obtain ⟨contained, hc, rfl⟩ := map_eq_some_iff.mp h
    obtain rfl := encodeContained_some hc
    exact ⟨rfl, rfl⟩
  · simp at h

lemma decode_encode_entries (now : ℕ) {entries : List (SegmentId × LifecycleEntry)}
    {records : List SnapshotRecord} {r : Registry}
    (henc : entries.mapM (fun (id, e) => encodeEntry blobLen id e) = some records)
    (hnd : (entries.map (·.1)).Nodup) (habs : ∀ id ∈ entries.map (·.1), r.lookup id = none) :
    records.foldlM (decodeRecord now) r = some (r.copy (·.restored) entries) := by
  induction entries generalizing records r with
  | nil =>
    obtain rfl : [] = records := by simpa using henc
    rfl
  | cons p entries ih =>
    obtain ⟨id, e⟩ := p
    obtain ⟨rec, hrec, records, hrest, rfl⟩ := by
      simpa [bind_eq_some_iff] using henc
    obtain ⟨rfl, hentry⟩ := encodeEntry_some hrec
    obtain ⟨hnot, hnd⟩ := nodup_cons.mp hnd
    rw [map_cons, forall_mem_cons] at habs
    rw [foldlM_cons, decodeRecord_of_absent now habs.1, hentry]
    exact ih hrest hnd (absent_insert hnot habs.2 _)

theorem decode_encode {r : Registry} {records : List SnapshotRecord} (now : ℕ)
    (h : encodeSnapshot blobLen r = some records) :
    decodeSnapshot now records = some (Registry.copy (·.restored) r.live ∅) :=
  decode_encode_entries now h r.live_keys_nodup (by simp)

end

/-! ### What seeding keeps -/

def LifecycleEntry.forget (e : LifecycleEntry) : LifecycleEntry :=
  { e with containedObjects := none }

lemma seed_entries {entries : List (SegmentId × LifecycleEntry)} {r : Registry}
    (hnd : (entries.map (·.1)).Nodup) (habs : ∀ id ∈ entries.map (·.1), r.lookup id = none) :
    entries.foldl (fun r (id, e) => seedEntry r now id e) r = r.copy (·.forget) entries := by
  induction entries generalizing r with
  | nil => rfl
  | cons p entries ih =>
    obtain ⟨id, e⟩ := p
    obtain ⟨hnot, hnd⟩ := nodup_cons.mp hnd
    rw [map_cons, forall_mem_cons] at habs
    have hseed : seedEntry r now id e = r.insert id e.forget := by
      simp [seedEntry, Registry.get, habs.1, unexpired, LifecycleEntry.new, LifecycleEntry.forget]
    simp only [foldl_cons, hseed]
    exact ih hnd (absent_insert hnot habs.2 _)

theorem seedFromCheckpoint_eq (snapshot : Registry) :
    seedFromCheckpoint now snapshot ∅ = Registry.copy (·.forget) snapshot.live ∅ :=
  seed_entries now snapshot.live_keys_nodup (by simp)

/-! ### A boot beside one that loses nothing -/

/-- The entry `r` of a boot beside the entry `i` of one that seeds the contained objects too. Of
a covered segment, sealed since the checkpoint, the boot has forgotten them; of another it has at
most forgotten those of a deleted entry. -/
def Forgets (covered : Prop) (i r : Option LifecycleEntry) : Prop :=
  (covered → ∃ e, i = some e ∧ e.state = .sealed ∧ r = some e.forget) ∧
    (¬covered → r = i ∨ ∃ e t, i = some e ∧ e.state = .deleted t ∧ r = some e.forget)

variable {covered : Prop}

lemma Forgets.of_eq {o : Option LifecycleEntry} (h : ¬covered) :
    Forgets covered o o :=
  ⟨fun hc => absurd hc h, fun _ => .inl rfl⟩

lemma Forgets.of_sealed {e : LifecycleEntry} (h : covered) (hs : e.state = .sealed) :
    Forgets covered (some e) (some e.forget) :=
  ⟨fun _ => ⟨e, rfl, hs, rfl⟩, fun hc => absurd h hc⟩

lemma Forgets.of_deleted {e : LifecycleEntry} {t : ℕ} (h : ¬covered) (hd : e.state = .deleted t) :
    Forgets covered (some e) (some e.forget) :=
  ⟨fun hc => absurd hc h, fun _ => .inr ⟨e, t, rfl, hd, rfl⟩⟩

lemma Forgets.reserved_iff {i r : Option LifecycleEntry} (h : Forgets covered i r) :
    (∀ e ∈ r, e.state ≠ .reserved) ↔ ∀ e ∈ i, e.state ≠ .reserved := by
  by_cases hc : covered
  · obtain ⟨e, rfl, -, rfl⟩ := h.1 hc
    simp [LifecycleEntry.forget]
  · rcases h.2 hc with rfl | ⟨e, t, rfl, -, rfl⟩
    · rfl
    · simp [LifecycleEntry.forget]

lemma stepEntry_forgets (grace now : ℕ) (evt : SegmentEvent) {covered : Prop}
    {i r : Option LifecycleEntry} (h : Forgets covered i r) :
    (stepEntry grace now evt r).2 = (stepEntry grace now evt i).2 ∧
      Forgets (covered ∧ ∀ id, evt ≠ .delete id) (stepEntry grace now evt i).1
        (stepEntry grace now evt r).1 := by
  by_cases hc : covered
  · obtain ⟨⟨state, m, pos, rep, con⟩, rfl, rfl, rfl⟩ := h.1 hc
    rcases evt with evt | evt | id | evt
    · exact ⟨rfl, .of_sealed ⟨hc, nofun⟩ rfl⟩
    · exact ⟨rfl, .of_sealed ⟨hc, nofun⟩ rfl⟩
    · by_cases hg : grace = 0
      · subst hg
        exact ⟨rfl, .of_eq fun hno => hno.2 id rfl⟩
      · have hdel : ∀ con, stepEntry grace now (.delete id) (some ⟨.sealed, m, pos, rep, con⟩) =
            (some ⟨.deleted (now + grace), m, pos, rep, con⟩, none) := by
          intro con
          simp only [stepEntry, attempt]
          rw [unexpired_of_not_deleted rfl]
          simp [deleteEntry, hg]
        rw [LifecycleEntry.forget, hdel, hdel]
        exact ⟨rfl, .of_deleted (fun hno => hno.2 id rfl) rfl⟩
    · exact ⟨rfl, .of_sealed ⟨hc, nofun⟩ rfl⟩
  · have hc' : ¬(covered ∧ ∀ id, evt ≠ .delete id) := fun hno => hc hno.1
    rcases h.2 hc with rfl | ⟨⟨state, m, pos, rep, con⟩, t, rfl, rfl, rfl⟩
    · exact ⟨rfl, .of_eq hc'⟩
    · by_cases hexp : t ≤ now
      · have hgone : ∀ con, unexpired now (some ⟨.deleted t, m, pos, rep, con⟩) = none := by
          simp [unexpired, LifecycleEntry.deletedExpired, hexp]
        cases evt <;>
          simp only [stepEntry, attempt, recordPos, map_some, LifecycleEntry.isDeleted,
            if_true, LifecycleEntry.forget, hgone, reserveEntry, sealEntry, deleteEntry,
            refreshEntry, true_and]
        · exact .of_eq hc'
        all_goals exact .of_deleted hc' rfl
      · have hthere : ∀ con, unexpired now (some ⟨.deleted t, m, pos, rep, con⟩) =
            some ⟨.deleted t, m, pos, rep, con⟩ := by
          simp [unexpired, LifecycleEntry.deletedExpired, hexp]
        cases evt <;>
          simp only [stepEntry, attempt, recordPos, map_some, LifecycleEntry.isDeleted,
            if_true, LifecycleEntry.forget, hthere, reserveEntry, sealEntry, deleteEntry,
            refreshEntry, true_and]
        all_goals exact .of_deleted hc' rfl

lemma foldEvent_forgets {grace now : ℕ} {evt : SegmentEvent} {covered : SegmentId → Prop}
    {i r : Registry} (h : ∀ id, Forgets (covered id) (i.lookup id) (r.lookup id)) :
    (∀ e, foldEvent grace now evt i = .error e → foldEvent grace now evt r = .error e) ∧
      ∀ i', foldEvent grace now evt i = .ok i' → ∃ r', foldEvent grace now evt r = .ok r' ∧
        ∀ id, Forgets (covered id ∧ evt ≠ .delete id) (i'.lookup id) (r'.lookup id) := by
  obtain ⟨herr, hentry⟩ := stepEntry_forgets grace now evt (h evt.segmentId)
  -- the two registries differ from what they were at the event's segment only
  have hset : ∀ id, Forgets (covered id ∧ evt ≠ .delete id)
      ((i.set evt.segmentId (stepEntry grace now evt (i.lookup evt.segmentId)).1).lookup id)
      ((r.set evt.segmentId (stepEntry grace now evt (r.lookup evt.segmentId)).1).lookup id) := by
    intro id
    rw [Registry.lookup_set, Registry.lookup_set]
    by_cases hid : id = evt.segmentId
    · subst hid
      rw [if_pos rfl, if_pos rfl]
      have hiff : (covered evt.segmentId ∧ ∀ id, evt ≠ .delete id) ↔
          covered evt.segmentId ∧ evt ≠ .delete evt.segmentId := by
        refine and_congr_right fun _ => ⟨fun hno => hno _, fun hno id heq => hno ?_⟩
        rw [heq]
        rfl
      rwa [Forgets, hiff] at hentry
    · rw [if_neg hid, if_neg hid]
      have hne : evt ≠ .delete id := by
        rintro rfl
        exact hid rfl
      have hiff : (covered id ∧ evt ≠ .delete id) ↔ covered id := and_iff_left hne
      rw [Forgets, hiff]
      exact h id
  unfold foldEvent
  rcases hi : stepEntry grace now evt (i.lookup evt.segmentId) with ⟨oi, _ | e⟩ <;>
    rcases hr : stepEntry grace now evt (r.lookup evt.segmentId) with ⟨or, _ | e'⟩ <;>
    rw [hi, hr] at herr hset
  · refine ⟨nofun, fun i' hi' => ⟨_, rfl, ?_⟩⟩
    obtain rfl := Except.ok.inj hi'
    exact hset
  · simp at herr
  · simp at herr
  · obtain rfl := some.inj herr
    by_cases ht : tolerated e' = true
    · simp only [ht, if_true]
      refine ⟨nofun, fun i' hi' => ⟨_, rfl, ?_⟩⟩
      obtain rfl := Except.ok.inj hi'
      exact hset
    · simp only [ht, Bool.false_eq_true, if_false]
      exact ⟨fun e h => h, nofun⟩

/-- **The fold keeps the two boots side by side**: it fails on one as on the other, and in the
end a segment is covered that was so before and that no event has deleted. -/
theorem rebuildFromEvents_forgets {grace : ℕ} {events : List (ℕ × SegmentEvent)} {ending : LogEnd}
    {covered : SegmentId → Prop} {i r : Registry}
    (h : ∀ id, Forgets (covered id) (i.lookup id) (r.lookup id)) :
    (∀ e, rebuildFromEvents grace events ending i = .error e →
        rebuildFromEvents grace events ending r = .error e) ∧
      ∀ i', rebuildFromEvents grace events ending i = .ok i' →
        ∃ r', rebuildFromEvents grace events ending r = .ok r' ∧
          ∀ id, Forgets (covered id ∧ ∀ x ∈ events, x.2 ≠ .delete id) (i'.lookup id)
            (r'.lookup id) := by
  induction events generalizing covered i r with
  | nil =>
    cases ending with
    | corrupt => exact ⟨fun e h => h, nofun⟩
    | clean | torn =>
      refine ⟨nofun, fun i' hi' => ⟨r, rfl, fun id => ?_⟩⟩
      obtain rfl := Except.ok.inj hi'
      simpa using h id
  | cons x events ih =>
    obtain ⟨now, evt⟩ := x
    obtain ⟨herr, hok⟩ := @foldEvent_forgets grace now evt _ _ _ h
    rcases hi : foldEvent grace now evt i with e | i₁
    · simp only [rebuildFromEvents, hi, herr e hi]
      exact ⟨fun e h => h, nofun⟩
    · obtain ⟨r₁, hr₁, hnext⟩ := hok i₁ hi
      simp only [rebuildFromEvents, hi, hr₁, forall_mem_cons, ← and_assoc]
      exact ih hnext

/-- A checkpoint file: the records of the registry it was taken of. -/
structure Checkpoint (blobLen : List ContainedObject → ℕ) where
  registry : Registry
  records : List SnapshotRecord
  written : encodeSnapshot blobLen registry = some records

section

variable {blobLen : List ContainedObject → ℕ}

/-- A boot that would also seed the contained objects. -/
def bootIntact (grace : ℕ) (checkpoint : Option (Checkpoint blobLen))
    (events : List (ℕ × SegmentEvent)) (ending : LogEnd) : Except FoldError Registry :=
  rebuildFromEvents grace events ending <|
    match checkpoint with
    | some c => Registry.copy (·.restored) c.registry.live ∅
    | none => ∅

/-- The segment was sealed when the checkpoint was taken, and no event after it deletes it. -/
def Covered (checkpoint : Option (Checkpoint blobLen)) (events : List (ℕ × SegmentEvent))
    (id : SegmentId) : Prop :=
  (∃ c ∈ checkpoint, ∃ e ∈ c.registry.lookup id, e.state = .sealed) ∧
    ∀ x ∈ events, x.2 ≠ .delete id

lemma start_forgets (now : ℕ) (c : Checkpoint blobLen) (id : SegmentId) :
    Forgets (∃ e ∈ c.registry.lookup id, e.state = .sealed)
      ((Registry.copy (·.restored) c.registry.live ∅).lookup id)
      ((seedFromCheckpoint now (Registry.copy (·.restored) c.registry.live ∅) ∅).lookup id) := by
  simp only [seedFromCheckpoint_eq, Registry.lookup_copy_live]
  rcases c.registry.lookup id with _ | ⟨_ | _ | t, m, pos, rep, con⟩
  · refine Forgets.of_eq ?_
    simp
  · refine Forgets.of_eq ?_
    simp
  · refine Forgets.of_sealed ?_ rfl
    exact ⟨_, rfl, rfl⟩
  · refine Forgets.of_eq ?_
    simp

theorem boot_forgets (grace now : ℕ) (checkpoint : Option (Checkpoint blobLen))
    (events : List (ℕ × SegmentEvent)) (ending : LogEnd) :
    (∀ e, bootIntact grace checkpoint events ending = .error e →
        boot grace now (checkpoint.map (·.records)) events ending = .error e) ∧
      ∀ i, bootIntact grace checkpoint events ending = .ok i →
        ∃ r, boot grace now (checkpoint.map (·.records)) events ending = .ok r ∧
          ∀ id, Forgets (Covered checkpoint events id) (i.lookup id) (r.lookup id) := by
  cases checkpoint with
  | none =>
    have h := @rebuildFromEvents_forgets grace events ending (fun _ => False) ∅ ∅
      (fun _ => .of_eq not_false)
    simpa [boot, bootIntact, Covered] using h
  | some c =>
    have h := @rebuildFromEvents_forgets grace events ending _ _ _ (start_forgets now c)
    simpa [boot, bootIntact, Covered, decode_encode now c.written] using h

end

end OceanFs.Segment
