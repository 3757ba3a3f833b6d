import OceanFs.Gc.CompactionRace
import OceanFs.Metadata.DeadChunks

/-!
A cycle of the garbage collector beside the puts and deletes of clients.

A cycle begins by collecting the dead-chunk records that are old enough. The keys of the plain
tombstones among them count as dead for its compactions, and when a segment has been compacted
the tombstones with chunks in it are removed together with the rows of their keys. Nothing is
looked at again by then, so a key that was put in the meantime loses its row.
-/

namespace OceanFs.Gc

open OceanFs.Core Lib Lib.Runs Metadata Segment List Option

/-! ### Collecting -/

/-- A dead-chunk record of the store: the tombstone of a key, or the supersede record of a
version. -/
abbrev RecordRef := BucketId × ObjectKey × Option Hlc

def recordAt (s : Store) : RecordRef → Option (BucketId × ObjectKey × DeadChunkRecord)
  | (b, k, none) => (s.keys b k).tombstone.map fun t => (b, k, .of .tombstone t)
  | (b, k, some version) =>
    ((s.keys b k).supersedes version).map fun t => (b, k, .of .supersede t)

/-- `collect_aged_dead_chunk_records`, over the records that can be decoded. -/
def collectAged (s : Store) (refs : List RecordRef) (nowMs ttlMs : ℤ) :
    List (BucketId × ObjectKey × DeadChunkRecord) :=
  (refs.filterMap (recordAt s)).filter fun r => nowMs - r.2.2.capturedAt > ttlMs

/-- What a cycle remembers of the records: the keys that count as dead, and what is to be cleaned
up after each segment. -/
structure Snapshot where
  dead : List (BucketId × ObjectKey)
  tombstoneKeys : List (SegmentId × BucketId × ObjectKey)
  supersedes : List (SegmentId × BucketId × ObjectKey × Hlc)
  keys_dead : ∀ p ∈ tombstoneKeys, p.2 ∈ dead

/-- `process_tombstones`. -/
def processTombstones (records : List (BucketId × ObjectKey × DeadChunkRecord)) : Snapshot where
  dead := records.filterMap fun r => if r.2.2.kind = .tombstone then some (r.1, r.2.1) else none
  tombstoneKeys := records.flatMap fun r =>
    if r.2.2.kind = .tombstone then r.2.2.chunks.map (·.segmentId, r.1, r.2.1) else []
  supersedes := records.flatMap fun r =>
    if r.2.2.kind = .supersede then r.2.2.chunks.map (·.segmentId, r.1, r.2.1, r.2.2.hlc) else []
  keys_dead := by
    intro p hp
    obtain ⟨r, hr, hmem⟩ := mem_flatMap.mp hp
    split_ifs at hmem with hkind
    · obtain ⟨ch, -, rfl⟩ := List.mem_map.mp hmem
      exact mem_filterMap.mpr ⟨r, hr, by simp [hkind]⟩
    · simp at hmem

/-! ### Cleaning up -/

inductive Cleanup
  | tombstone (bucket : BucketId) (key : ObjectKey)
  | row (bucket : BucketId) (key : ObjectKey)
  | supersede (bucket : BucketId) (key : ObjectKey) (version : Hlc)
  deriving DecidableEq

/-- The calls that follow the compaction of a segment. -/
def Snapshot.cleanup (n : Snapshot) (segment : SegmentId) : List Cleanup :=
  (n.tombstoneKeys.flatMap fun p =>
      if p.1 = segment then [.tombstone p.2.1 p.2.2, .row p.2.1 p.2.2] else []) ++
    n.supersedes.filterMap fun p =>
      if p.1 = segment then some (.supersede p.2.1 p.2.2.1 p.2.2.2) else none

lemma Snapshot.row_mem_cleanup {n : Snapshot} {segment : SegmentId} {b : BucketId} {k : ObjectKey}
    (h : .row b k ∈ n.cleanup segment) : (b, k) ∈ n.dead := by
  rcases mem_append.mp h with h | h
  · obtain ⟨p, hp, hmem⟩ := mem_flatMap.mp h
    split_ifs at hmem
    · simp only [mem_cons, reduceCtorEq, Cleanup.row.injEq, not_mem_nil, or_false, false_or] at hmem
      obtain ⟨rfl, rfl⟩ := hmem
      exact n.keys_dead p hp
    · simp at hmem
  · obtain ⟨p, -, hmem⟩ := mem_filterMap.mp h
    split_ifs at hmem
    simp at hmem

/-- One of these calls, whose failure is passed over. The row is deleted as of time zero. -/
def clean (s : Store) (nowMs : ℤ) (fault : WriteFault) : Cleanup → Store
  | .tombstone b k =>
    if fault = .none then s.setKey b k { s.keys b k with tombstone := none } else s
  | .row b k => (s.deleteObject b k .zero nowMs fault).1
  | .supersede b k version =>
    if fault = .none then s.setKey b k { s.keys b k with
      supersedes := Function.update (s.keys b k).supersedes version none }
    else s

/-! ### The machine -/

structure Cycle where
  race : Race
  /-- Of the cycle that runs. -/
  snapshot : Option Snapshot
  cleanup : List Cleanup

namespace Cycle

def initial : Cycle := ⟨.initial, none, []⟩

/-- What is dead for the cycle that runs. -/
def dead (s : Cycle) : List (BucketId × ObjectKey) := (s.snapshot.map (·.dead)).getD []

inductive Act
  | put (bucket : BucketId) (m : ObjectMetadata) (nowMs : ℤ) (fault : WriteFault)
  | delete (bucket : BucketId) (key : ObjectKey) (hlc : Hlc) (nowMs : ℤ) (fault : WriteFault)
  | collect (refs : List RecordRef) (nowMs ttlMs : ℤ)
  /-- The compaction of a candidate, with the dead keys of the cycle. -/
  | start (call : Compaction)
  | read (i : ℕ)
  | commit (i : ℕ) (data : Bytes) (fault : WriteFault)
  /-- A compaction returns with an error. -/
  | fail (i : ℕ)
  /-- A compaction returns without one, and is received. -/
  | receive (i : ℕ)
  | clean (nowMs : ℤ) (fault : WriteFault)
  | finish

/-- The compaction has nothing left to do but to delete the old segment. -/
def done (t : Task) : Bool := t.allRead && (t.committed || t.found.isEmpty)

variable (s : Cycle)

def onRace (a : Race.Act) : Option Cycle :=
  (s.race.step a).map fun race => { s with race := race }

def step : Act → Option Cycle
  | .put b m nowMs fault => s.onRace (.put b m nowMs fault)
  | .delete b k hlc nowMs fault => s.onRace (.delete b k hlc nowMs fault)
  | .collect refs nowMs ttlMs =>
    match s.snapshot with
    | none => some { s with
        snapshot := some (processTombstones (collectAged s.race.store refs nowMs ttlMs)) }
    | some _ => none
  | .start call =>
    match s.snapshot with
    | some snapshot => s.onRace (.start { call with dead := snapshot.dead })
    | none => none
  | .read i => s.onRace (.read i)
  | .commit i data fault => s.onRace (.commit i data fault)
  | .fail i => s.onRace (.leave i)
  | .receive i =>
    match s.snapshot, s.race.tasks[i]? with
    | some snapshot, some t =>
      if done t then (s.onRace (.leave i)).map fun s =>
        { s with cleanup := s.cleanup ++ snapshot.cleanup t.call.old }
      else none
    | _, _ => none
  | .clean nowMs fault =>
    match s.cleanup with
    | c :: rest => some { s with
        race := { s.race with store := Gc.clean s.race.store nowMs fault c }
        cleanup := rest }
    | [] => none
  | .finish =>
    if s.snapshot.isSome ∧ s.race.tasks.length = 0 ∧ s.cleanup = [] then
      some { s with snapshot := none }
    else none

/-- A key whose last client operation is a put has its row, with the version of the put. -/
def LiveKept : Prop :=
  ∀ b k m, latest s.race.client b k = some (.put b m) →
    versionOf s.race.store b k = some (logicalOfRow m)

/-- A client operation does not fall between a compaction's read of the row and its batch, and a
put is not on a key that the cycle has collected as dead. -/
def Spared : Act → Prop
  | .put b m _ _ => s.race.Free b m.objectKey ∧ (b, m.objectKey) ∉ s.dead
  | .delete b k _ _ _ => s.race.Free b k
  | _ => True

instance (s : Cycle) : DecidablePred s.Spared := fun a => by
  cases a <;> unfold Cycle.Spared <;> infer_instance

/-! ### The invariant -/

/-- A key with a tombstone has no row, nor has one that the cycle has collected as dead; and only
the rows of such keys are to be deleted. -/
structure Sound : Prop where
  race : s.race.Sound
  tombstone : ∀ b k, ((s.race.store.keys b k).tombstone).isSome = true →
    versionOf s.race.store b k = none
  dead : ∀ p ∈ s.dead, versionOf s.race.store p.1 p.2 = none
  cleanup : ∀ b k, .row b k ∈ s.cleanup → (b, k) ∈ s.dead

lemma Sound.initial : Sound initial where
  race := Race.Sound.initial
  tombstone := by simp [Cycle.initial, Race.initial, Store.empty, KeyState.empty]
  dead := by simp [Cycle.initial, Cycle.dead]
  cleanup := by simp [Cycle.initial]

lemma Sound.liveKept {s : Cycle} (h : Sound s) : s.LiveKept := by
  intro b k m hlatest
  rw [h.race.latest, hlatest]
  rfl

end Cycle

/-! ### What a step does to one key -/

lemma clientStep_store (s : Race) (op : ClientOp) (r : Store × Except StoreError Unit) :
    (s.clientStep op r).store = r.1 := by
  obtain ⟨store, _ | _⟩ := r <;> rfl

lemma Race.step_key {s s' : Race} {a : Race.Act} (h : s.Sound) (hs : s.step a = some s')
    (b : BucketId) (k : ObjectKey) :
    (versionOf s'.store b k = versionOf s.store b k ∧
        (s'.store.keys b k).tombstone = (s.store.keys b k).tombstone) ∨
      ((∃ m nowMs fault, a = .put b m nowMs fault ∧ m.objectKey = k) ∧
        (s'.store.keys b k).tombstone = none) ∨
      versionOf s'.store b k = none := by
  have hsame : ∀ store : Store, store.keys b k = s.store.keys b k →
      versionOf store b k = versionOf s.store b k ∧
        (store.keys b k).tombstone = (s.store.keys b k).tombstone := by
    intro store hkeys
    rw [versionOf, versionOf, Store.getObject, Store.getObject, hkeys]
    exact ⟨rfl, rfl⟩
  cases a with
  | put b' m nowMs fault =>
    obtain rfl := some.inj hs
    rw [clientStep_store]
    by_cases hkey : b = b' ∧ k = m.objectKey
    · obtain ⟨rfl, rfl⟩ := hkey
      by_cases hf : fault = .none
      · refine .inr (.inl ⟨⟨m, nowMs, fault, rfl, rfl⟩, ?_⟩)
        rw [Store.putObjectInBucket_keys, if_pos hf, KeyState.put_tombstone]
      · exact .inl (hsame _ (by rw [Store.putObjectInBucket_keys, if_neg hf]))
    · exact .inl (hsame _ (Store.commit_keys_of_ne _ _ _ _ hkey))
  | delete b' k' hlc nowMs fault =>
    obtain rfl := some.inj hs
    rw [clientStep_store]
    by_cases hkey : b = b' ∧ k = k'
    · obtain ⟨rfl, rfl⟩ := hkey
      by_cases hf : fault = .none
      · refine .inr (.inr ?_)
        rw [versionOf, Store.getObject, Store.deleteObject_keys, if_pos hf]
        rfl
      · exact .inl (hsame _ (by rw [Store.deleteObject_keys, if_neg hf]))
    · exact .inl (hsame _ (Store.commit_keys_of_ne _ _ _ _ hkey))
  | start call =>
    obtain rfl := some.inj hs
    exact .inl ⟨rfl, rfl⟩
  | read i =>
    simp only [Race.step] at hs
    split at hs
    · obtain ⟨co, -, rfl⟩ := map_eq_some_iff.mp hs
      exact .inl ⟨rfl, rfl⟩
    · simp at hs
  | commit i data fault =>
    obtain ⟨t, ht, hcom, ⟨rows, hrows, rfl⟩ | ⟨store, hkeys, rfl⟩⟩ := Race.step_commit hs
    · refine .inl ⟨(Race.version_writeAll h.keyed (h.rows_current ht hcom hrows)).1 b k, ?_⟩
      rw [Store.writeAll_putOp_keys]
      cases Store.lastRow rows b k <;> rfl
    · exact .inl (hsame _ (by rw [hkeys]))
  | leave i =>
    simp only [Race.step] at hs
    split_ifs at hs
    obtain rfl := some.inj hs
    exact .inl ⟨rfl, rfl⟩

namespace Cycle

variable {s s' : Cycle}

/-! ### Every action keeps the invariant -/

lemma Sound.onRace {a : Race.Act} (h : Sound s)
    (hput : ∀ b m nowMs fault, a = .put b m nowMs fault →
      s.race.Free b m.objectKey ∧ (b, m.objectKey) ∉ s.dead)
    (hdelete : ∀ b k hlc nowMs fault, a = .delete b k hlc nowMs fault → s.race.Free b k)
    (hs : s.onRace a = some s') : Sound s' := by
  obtain ⟨race, hrace, rfl⟩ := map_eq_some_iff.mp hs
  have hkey := fun b k => Race.step_key h.race hrace b k
  refine ⟨h.race.step (fun b m t f ha => (hput b m t f ha).1) hdelete hrace, ?_, ?_, h.cleanup⟩
  · intro b k htomb
    rcases hkey b k with ⟨hversion, hsame⟩ | ⟨-, hnone⟩ | hnone
    · rw [hversion]
      exact h.tombstone b k (hsame ▸ htomb)
    · rw [hnone] at htomb
      simp at htomb
    · exact hnone
  · rintro ⟨b, k⟩ hp
    rcases hkey b k with ⟨hversion, -⟩ | ⟨⟨m, nowMs, fault, ha, rfl⟩, -⟩ | hnone
    · exact hversion.trans (h.dead (b, k) hp)
    · exact absurd hp (hput b m nowMs fault ha).2
    · exact hnone

variable {store : Store}

lemma tombstone_of_dead {refs : List RecordRef} {nowMs ttlMs : ℤ} {p : BucketId × ObjectKey}
    (hp : p ∈ (processTombstones (collectAged store refs nowMs ttlMs)).dead) :
    ((store.keys p.1 p.2).tombstone).isSome = true := by
  obtain ⟨r, hr, hkind⟩ := mem_filterMap.mp hp
  split_ifs at hkind with htomb
  obtain rfl := some.inj hkind
  obtain ⟨⟨b, k, version⟩, -, hrec⟩ := mem_filterMap.mp (mem_filter.mp hr).1
  cases version with
  | none =>
    obtain ⟨t, ht, rfl⟩ := map_eq_some_iff.mp hrec
    simp [ht]
  | some version =>
    obtain ⟨t, -, rfl⟩ := map_eq_some_iff.mp hrec
    simp [DeadChunkRecord.of] at htomb

lemma setKey_key {b b' : BucketId} {k k' : ObjectKey} {ks : KeyState}
    (hrow : ks.row = (store.keys b k).row)
    (htomb : ks.tombstone.isSome = true →
      ((store.keys b k).tombstone).isSome = true ∨ store.getObject b k = none) :
    (store.setKey b k ks).getObject b' k' = store.getObject b' k' ∧
      (((store.setKey b k ks).keys b' k').tombstone.isSome = true →
        ((store.keys b' k').tombstone).isSome = true ∨ store.getObject b' k' = none) := by
  by_cases hkey : b' = b ∧ k' = k
  · obtain ⟨rfl, rfl⟩ := hkey
    rw [Store.getObject, Store.setKey_self]
    exact ⟨hrow, htomb⟩
  · rw [Store.getObject, Store.setKey_of_ne _ _ hkey]
    exact ⟨rfl, .inl⟩

lemma clean_key (nowMs : ℤ) (fault : WriteFault) {c : Cleanup}
    (hc : ∀ b k, c = .row b k → store.getObject b k = none) (b : BucketId) (k : ObjectKey) :
    (clean store nowMs fault c).getObject b k = store.getObject b k ∧
      (((clean store nowMs fault c).keys b k).tombstone.isSome = true →
        ((store.keys b k).tombstone).isSome = true ∨ store.getObject b k = none) := by
  cases c with
  | tombstone b' k' =>
    rw [clean]
    split_ifs
    · exact setKey_key rfl (by simp)
    · exact ⟨rfl, .inl⟩
  | row b' k' =>
    have hnone := hc b' k' rfl
    rw [clean, Store.deleteObject]
    cases fault with
    | none => exact @setKey_key store b' b k' k _ hnone.symm fun _ => .inr hnone
    | journalAppend => exact ⟨rfl, .inl⟩
    | batchWrite => exact ⟨rfl, .inl⟩
  | supersede b' k' version =>
    rw [clean]
    split_ifs
    · exact setKey_key rfl .inl
    · exact ⟨rfl, .inl⟩

lemma versionOf_eq_none {b : BucketId} {k : ObjectKey} :
    versionOf store b k = none ↔ store.getObject b k = none := map_eq_none_iff

lemma Sound.clean {c : Cleanup} {rest : List Cleanup} (h : Sound s) (hc : s.cleanup = c :: rest)
    (nowMs : ℤ) (fault : WriteFault) :
    Sound { s with
      race := { s.race with store := Gc.clean s.race.store nowMs fault c }
      cleanup := rest } := by
  have hkey := @clean_key s.race.store nowMs fault c fun b k hrow =>
    versionOf_eq_none.mp (h.dead (b, k) (h.cleanup b k (by simp [hc, hrow])))
  have hversion : ∀ b k, versionOf (Gc.clean s.race.store nowMs fault c) b k =
      versionOf s.race.store b k := fun b k => by rw [versionOf, (hkey b k).1, versionOf]
  refine ⟨h.race.of_versions hversion fun b k m hm => ?_, fun b k htomb => ?_, fun p hp => ?_,
    fun b k hrow => h.cleanup b k (by simp [hc, hrow])⟩
  · exact h.race.keyed b k m (by rwa [(hkey b k).1] at hm)
  · rw [hversion]
    exact ((hkey b k).2 htomb).elim (h.tombstone b k) versionOf_eq_none.mpr
  · rw [hversion]
    exact h.dead p hp

lemma Sound.step {a : Act} (h : Sound s) (hok : s.Spared a) (hs : s.step a = some s') :
    Sound s' := by
  have hgc : ∀ a, (∀ b m nowMs fault, a ≠ .put b m nowMs fault) →
      (∀ b k hlc nowMs fault, a ≠ .delete b k hlc nowMs fault) →
      ∀ s', s.onRace a = some s' → Sound s' := fun a hput hdelete s' hs' =>
    h.onRace (fun b m t f ha => absurd ha (hput b m t f))
      (fun b k hlc t f ha => absurd ha (hdelete b k hlc t f)) hs'
  cases a with
  | put b m nowMs fault =>
    refine h.onRace ?_ (by simp) hs
    rintro b' m' t f ha
    obtain ⟨rfl, rfl, -, -⟩ := Race.Act.put.inj ha
    exact hok
  | delete b k hlc nowMs fault =>
    refine h.onRace (by simp) ?_ hs
    rintro b' k' hlc' t f ha
    obtain ⟨rfl, rfl, -, -, -⟩ := Race.Act.delete.inj ha
    exact hok
  | collect refs nowMs ttlMs =>
    simp only [Cycle.step] at hs
    split at hs
    · rename_i hnone
      obtain rfl := some.inj hs
      refine ⟨h.race, h.tombstone, fun p hp => h.tombstone _ _ (tombstone_of_dead hp), ?_⟩
      -- between two cycles no row is waiting to be deleted
      intro b k hrow
      have hdead := h.cleanup b k hrow
      simp [Cycle.dead, hnone] at hdead
    · simp at hs
  | start call =>
    simp only [Cycle.step] at hs
    split at hs
    · exact hgc _ (by simp) (by simp) _ hs
    · simp at hs
  | read i => exact hgc _ (by simp) (by simp) _ hs
  | commit i data fault => exact hgc _ (by simp) (by simp) _ hs
  | fail i => exact hgc _ (by simp) (by simp) _ hs
  | receive i =>
    simp only [Cycle.step] at hs
    split at hs
    · rename_i snapshot t hsnap ht
      split_ifs at hs
      obtain ⟨s₁, hs₁, rfl⟩ := map_eq_some_iff.mp hs
      have h₁ := hgc _ (by simp) (by simp) _ hs₁
      obtain ⟨race, -, rfl⟩ := map_eq_some_iff.mp hs₁
      refine { h₁ with cleanup := fun b k hrow => ?_ }
      rcases mem_append.mp hrow with hrow | hrow
      · exact h₁.cleanup b k hrow
      · rw [Cycle.dead, hsnap]
        exact Snapshot.row_mem_cleanup hrow
    · simp at hs
  | clean nowMs fault =>
    simp only [Cycle.step] at hs
    split at hs
    · rename_i hc
      obtain rfl := some.inj hs
      exact h.clean hc nowMs fault
    · simp at hs
  | finish =>
    simp only [Cycle.step] at hs
    split_ifs at hs with hdone
    obtain rfl := some.inj hs
    exact ⟨h.race, h.tombstone, by simp [Cycle.dead], by simp [hdone.2.2]⟩

/-- **A cycle beside clients**: where no client operation falls between the read of a row and the
batch, and no key is put that the cycle has collected as dead, a key whose last operation is a put
always has the row of it. -/
theorem liveKept_of_spared {acts : List Act} (h : Guarded step Spared initial acts) :
    Always step LiveKept initial acts :=
  always_of_guarded (fun _ _ _ hsound hok hs => hsound.step hok hs)
    (fun _ hsound => hsound.liveKept) Sound.initial h

/-! ### A key that is put again -/

/-- An object is deleted and a cycle collects its tombstone and compacts its segment; `between` is
what happens between the two. -/
def collectedWhile (between : List Act) : List Act :=
  [.put "photos" (Race.raceRow 1 1) 0 .none, .delete "photos" "cat" ⟨2, 0⟩ 0 .none,
      .collect [("photos", "cat", none)] 100 10] ++ between ++
    [.start Race.raceCompaction, .read 0, .receive 0, .clean 100 .none, .clean 100 .none, .finish]

/-- After the cycle, the key may be put again. -/
theorem put_after_cycle :
    Guarded step Spared initial
        (collectedWhile [] ++ [.put "photos" (Race.raceRow 3 3) 0 .none]) ∧
      Always step LiveKept initial
        (collectedWhile [] ++ [.put "photos" (Race.raceRow 3 3) 0 .none]) :=
  have h : Guarded step Spared initial
      (collectedWhile [] ++ [.put "photos" (Race.raceRow 3 3) 0 .none]) := by decide +kernel
  ⟨h, liveKept_of_spared h⟩

/-- **A key that is put during the cycle** loses its row in the cleanup. -/
theorem put_during_cycle_lost :
    ¬Always step LiveKept initial (collectedWhile [.put "photos" (Race.raceRow 3 3) 0 .none]) := by
  rw [always_iff_run]
  intro h
  have hend := h _ _ prefix_rfl rfl "photos" "cat" (Race.raceRow 3 3)
  revert hend
  decide +kernel

end Cycle

end OceanFs.Gc
