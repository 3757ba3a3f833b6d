import OceanFs.Gc.Compactor
import OceanFs.Gc.Cycle

/-!
The records of a deleted key across cycles of the garbage collector.

The chunks of a deleted object may lie in several segments, and a cycle compacts some of them. As
soon as one is gone the tombstone is removed, whatever other chunks it has, and the row is deleted
once more as of time zero. The second delete finds no row and leaves a tombstone without chunks,
which no cycle ever removes.
-/

namespace OceanFs.Gc.DeletionLedger

open OceanFs.Core Lib Lib.Runs Metadata Segment List

/-! ### Liveness -/

/-- What the registry has of a sealed segment. -/
structure Registered where
  metadata : SegmentMetadata
  contained : Option (List ContainedObject)

abbrev Segments := SegmentId → Option Registered

structure LivenessTracker where
  /-- Of the segments that are known. -/
  liveBytes : SegmentId → Option ℕ
  deadBytes : SegmentId → ℕ

namespace LivenessTracker

/-- Every segment is registered with the size it was sealed with. -/
def registerAll (segments : Segments) : LivenessTracker where
  liveBytes id := (segments id).map (·.metadata.totalBytes)
  deadBytes _ := 0

def markDead (t : LivenessTracker) (c : ChunkRef) : LivenessTracker where
  liveBytes := Function.update t.liveBytes c.segmentId
    ((t.liveBytes c.segmentId).map (· - c.length))
  deadBytes := Function.update t.deadBytes c.segmentId (t.deadBytes c.segmentId + c.length)

/-- The liveness ratio is below the threshold; `below live total` compares the quotient, and a
segment without bytes has the ratio one. -/
def isCandidate (below : ℕ → ℕ → Bool) (t : LivenessTracker) (id : SegmentId) : Bool :=
  match t.liveBytes id with
  | none => false
  | some live =>
    if live + t.deadBytes id = 0 then below 1 1 else below live (live + t.deadBytes id)

end LivenessTracker

/-! ### What a call does to a key -/

/-- The record that the call is about. -/
def ref : Cleanup → RecordRef
  | .tombstone b k => (b, k, none)
  | .row b k => (b, k, none)
  | .supersede b k version => (b, k, some version)

def effect (nowMs : ℤ) : Cleanup → KeyState → KeyState
  | .tombstone _ _, ks => { ks with tombstone := none }
  | .row _ _, ks => ks.delete .zero nowMs
  | .supersede _ _ version, ks =>
    { ks with supersedes := Function.update ks.supersedes version none }

lemma clean_keys (s : Store) (nowMs : ℤ) (fault : WriteFault) (c : Cleanup) (b : BucketId)
    (k : ObjectKey) : (clean s nowMs fault c).keys b k =
      if fault = .none ∧ b = (ref c).1 ∧ k = (ref c).2.1 then effect nowMs c (s.keys b k)
      else s.keys b k := by
  have hset : ∀ b' k' ks, (s.setKey b' k' ks).keys b k =
      if b = b' ∧ k = k' then ks else s.keys b k := by
    intro b' k' ks
    split_ifs with h
    · obtain ⟨rfl, rfl⟩ := h
      exact Store.setKey_self ..
    · exact Store.setKey_of_ne _ _ h
  cases c with
  | tombstone b' k' =>
    by_cases hf : fault = .none
    · simp only [clean, hf, if_true, hset, ref, true_and]
      split_ifs with h
      · rw [h.1, h.2]; rfl
      · rfl
    · simp [clean, hf]
  | row b' k' =>
    by_cases hkey : b = b' ∧ k = k'
    · obtain ⟨rfl, rfl⟩ := hkey
      simp [clean, Store.deleteObject_keys, ref, effect]
    · rw [if_neg fun h => hkey h.2]
      exact Store.commit_keys_of_ne _ _ _ _ hkey
  | supersede b' k' version =>
    by_cases hf : fault = .none
    · simp only [clean, hf, if_true, hset, ref, true_and]
      split_ifs with h
      · rw [h.1, h.2]; rfl
      · rfl
    · simp [clean, hf]

lemma row_clean (s : Store) (nowMs : ℤ) (fault : WriteFault) (c : Cleanup) (b : BucketId)
    (k : ObjectKey) : (clean s nowMs fault c).getObject b k = s.getObject b k ∨
      c = .row b k ∧ (clean s nowMs fault c).getObject b k = none := by
  rw [Store.getObject, clean_keys]
  split_ifs with h
  · obtain ⟨-, hb, hk⟩ := h
    cases c with
    | tombstone b' k' => exact .inl rfl
    | row b' k' => exact .inr ⟨by rw [hb, hk]; rfl, rfl⟩
    | supersede b' k' version => exact .inl rfl
  · exact .inl rfl

/-! ### The cycle -/

structure Ledger where
  node : Node
  segments : Segments

/-- A call of the cleanup, with its time and how it ends. -/
structure Call where
  cleanup : Cleanup
  nowMs : ℤ
  fault : WriteFault
  deriving DecidableEq

/-- How the compaction of a candidate goes: the id that it draws, how its operations end, what comes
of it, and how the calls of the cleanup end that follow it. One that fails may have deleted the
segment. -/
structure Attempt where
  segment : SegmentId
  new : SegmentId
  faults : CompactFaults
  succeeds : Bool
  deletes : Bool
  calls : ℕ → ℤ × WriteFault

/-- A cycle: the records as they are listed, the time, and the compactions in the order in which
they return. -/
structure CycleInput where
  refs : List RecordRef
  nowMs : ℤ
  ttlMs : ℤ
  attempts : List Attempt

namespace Ledger

/-- A segment is there from its seal until it is deleted. -/
def applyStep (w : Ledger) (step : DurableStep) : Ledger where
  node := w.node.apply step
  segments id :=
    if step.removes id then none
    else
      match step with
      | .event (.seal evt) =>
        if evt.segmentId = id then some ⟨sealedMetadata evt, evt.containedObjects⟩
        else w.segments id
      | _ => w.segments id

lemma keyed_clean (n : Node) (c : Call) :
    ∀ b k, ∀ m ∈ (Gc.clean n.store c.nowMs c.fault c.cleanup).getObject b k, m.objectKey = k := by
  intro b k m hm
  rcases row_clean n.store c.nowMs c.fault c.cleanup b k with hsame | ⟨-, hnone⟩
  · exact n.keyed b k m (hsame ▸ hm)
  · rw [hnone] at hm
    cases hm

def clean (w : Ledger) (c : Call) : Ledger :=
  { w with node := { w.node with
      store := Gc.clean w.node.store c.nowMs c.fault c.cleanup
      keyed := keyed_clean w.node c } }

end Ledger

/-- The calls that follow a compaction: none if it fails. -/
def callsOf (snapshot : Snapshot) (a : Attempt) : List Call :=
  if a.succeeds then
    (snapshot.cleanup a.segment).zipIdx.map fun p => ⟨p.1, (a.calls p.2).1, (a.calls p.2).2⟩
  else []

lemma cleanup_of_mem_callsOf {snapshot : Snapshot} {a : Attempt} {c : Call}
    (h : c ∈ callsOf snapshot a) : c.cleanup ∈ snapshot.cleanup a.segment := by
  unfold callsOf at h
  split_ifs at h
  · obtain ⟨⟨cleanup, i⟩, hp, rfl⟩ := mem_map.mp h
    exact fst_mem_of_mem_zipIdx hp
  · cases h

section

variable (merkleRoot : Bytes → HashOutput) (below : ℕ → ℕ → Bool) (snapshot : Snapshot)

/-- What the compaction of a candidate makes durable, and whether it succeeds. A segment of unknown
size is passed over, and so is one whose objects are not known. -/
def compaction (tracker : LivenessTracker) (w : Ledger) (a : Attempt) :
    List DurableStep × Bool :=
  match w.segments a.segment with
  | none => ([], false)
  | some entry =>
    if tracker.isCandidate below a.segment ∧ entry.contained ≠ none ∧
        entry.metadata.totalBytes ≠ 0 then
      (compactSegment merkleRoot
        ⟨a.segment, a.new, entry.metadata, entry.contained, snapshot.dead, a.faults⟩ w.node).map
          id (·.isOk)
    else ([], false)

/-- One candidate, with the calls of its cleanup, if what is said to come of it is what does. -/
def attempt (tracker : LivenessTracker) (w : Ledger) (a : Attempt) :
    Option Ledger :=
  let r := compaction merkleRoot below snapshot tracker w a
  if a.succeeds = r.2 ∧ a.deletes = r.1.any (·.removes a.segment) then
    some ((callsOf snapshot a).foldl Ledger.clean (r.1.foldl Ledger.applyStep w))
  else none

def attempts (tracker : LivenessTracker) (w : Ledger) (as : List Attempt) :
    Option Ledger :=
  as.foldlM (attempt merkleRoot below snapshot tracker) w

/-- Something comes of every compaction. -/
lemma exists_attempts (tracker : LivenessTracker) (w : Ledger) (as : List Attempt) :
    ∃ as', as.Forall₂ (fun a a' => ∃ s d, a' = { a with succeeds := s, deletes := d }) as' ∧
      (attempts merkleRoot below snapshot tracker w as').isSome = true := by
  induction as generalizing w with
  | nil => exact ⟨[], .nil, rfl⟩
  | cons a as ih =>
    let r := compaction merkleRoot below snapshot tracker w a
    let a' : Attempt := { a with succeeds := r.2, deletes := r.1.any (·.removes a.segment) }
    have hfirst : attempt merkleRoot below snapshot tracker w a' = some
        ((callsOf snapshot a').foldl Ledger.clean (r.1.foldl Ledger.applyStep w)) :=
      if_pos ⟨rfl, rfl⟩
    obtain ⟨as', hsame, hrest⟩ := ih ((callsOf snapshot a').foldl Ledger.clean
      (r.1.foldl Ledger.applyStep w))
    refine ⟨a' :: as', .cons ⟨_, _, rfl⟩ hsame, ?_⟩
    rw [attempts, foldlM_cons, hfirst]
    exact hrest

def snapshotOf (w : Ledger) (i : CycleInput) : Snapshot :=
  processTombstones (collectAged w.node.store i.refs i.nowMs i.ttlMs)

/-- `run_cycle` -/
def step (w : Ledger) (i : CycleInput) : Option Ledger :=
  let records := collectAged w.node.store i.refs i.nowMs i.ttlMs
  let tracker := (records.flatMap (·.2.2.chunks)).foldl LivenessTracker.markDead
    (.registerAll w.segments)
  attempts merkleRoot below (snapshotOf w i) tracker w i.attempts

end

/-! ### The property -/

/-- The segment of the chunk is there. -/
def Present (w : Ledger) (c : ChunkRef) : Prop := (w.segments c.segmentId).isSome = true

instance (w : Ledger) (c : ChunkRef) : Decidable (Present w c) :=
  inferInstanceAs (Decidable (_ = true))

/-- The chunk is in a dead-chunk record of some key. -/
def Recorded (s : Store) (c : ChunkRef) : Prop := ∃ b k, (s.keys b k).Dead c

/-- What is to hold of a deleted key: the chunks of its tombstone are in records as long as their
segments are there, its tombstone is no older than it was, and it has none when all its segments
are gone. -/
structure Consistent (b : BucketId) (k : ObjectKey) (t : Tombstone) (w : Ledger) : Prop where
  recorded : ∀ c ∈ t.chunks, Present w c → Recorded w.node.store c
  hlc : ∀ t' ∈ (w.node.store.keys b k).tombstone, t.hlc ≤ t'.hlc
  removed : (∀ c ∈ t.chunks, ¬Present w c) → (w.node.store.keys b k).tombstone = none

/-- The calls that do not fail. -/
def completed (calls : List Call) : List Cleanup :=
  (calls.filter (·.fault = .none)).map (·.cleanup)

/-- The last completed call about the tombstone of a key. -/
def lastOn (calls : List Call) (b : BucketId) (k : ObjectKey) : Option Cleanup :=
  ((completed calls).filter (ref · = (b, k, none))).getLast?

def chunksAt (s : Store) : RecordRef → List ChunkRef
  | (b, k, none) => ((s.keys b k).tombstone.map (·.chunks)).getD []
  | (b, k, some version) => (((s.keys b k).supersedes version).map (·.chunks)).getD []

/-- The cleanup of the records that are collected: the calls for those with chunks in a segment
whose compaction succeeds. -/
def calls (w : Ledger) (i : CycleInput) : List Call := i.attempts.flatMap (callsOf (snapshotOf w i))

/-- The segment of the chunk is there, and no compaction deletes it. -/
def Stays (w : Ledger) (i : CycleInput) (c : ChunkRef) : Prop :=
  Present w c ∧ ∀ a ∈ i.attempts, a.segment = c.segmentId → a.deletes = false

instance (w : Ledger) (i : CycleInput) (c : ChunkRef) : Decidable (Stays w i c) :=
  inferInstanceAs (Decidable (_ ∧ _))

/-- What the records, the compactions and the calls have to be for a cycle to spare a tombstone: as
long as one of its segments stays, its chunks are in a record for which every call fails; the second
delete fails, unless the first was as of time zero too and a segment stays; and when none stays the
calls end with the removal of the tombstone. -/
structure Spared (b : BucketId) (k : ObjectKey) (t : Tombstone) (w : Ledger) (i : CycleInput) :
    Prop where
  recorded : ∀ c ∈ t.chunks, Stays w i c → ∃ r, c ∈ chunksAt w.node.store r ∧
    ∀ call ∈ calls w i, ref call.cleanup = r → call.fault ≠ .none
  row : lastOn (calls w i) b k = some (.row b k) → t.hlc = .zero ∧ ∃ c ∈ t.chunks, Stays w i c
  removed : (∀ c ∈ t.chunks, ¬Stays w i c) → lastOn (calls w i) b k = some (.tombstone b k) ∨
    lastOn (calls w i) b k = none ∧ (w.node.store.keys b k).tombstone = none

/-! ### The records after a list of calls -/

/-- The tombstone of a key, by the last of the calls about it. -/
def TombstoneAfter (last : Option Cleanup) (before after : KeyState) : Prop :=
  match last with
  | none => after.tombstone = before.tombstone
  | some (.row _ _) => after.row = none ∧ ∃ nowMs, after.tombstone = some ⟨nowMs, .zero, []⟩
  | some _ => after.tombstone = none

/-- The store after some calls, rows apart: a record that one of them was about has no chunks any
more, and the others are as they were. -/
structure Traced (s : Store) (calls : List Call) (s' : Store) : Prop where
  row : ∀ b k, (s.keys b k).row = none → (s'.keys b k).row = none
  chunks : ∀ r, chunksAt s' r = if r ∈ (completed calls).map ref then [] else chunksAt s r
  tombstone : ∀ b k, TombstoneAfter (lastOn calls b k) (s.keys b k) (s'.keys b k)

lemma recorded_iff {s : Store} {c : ChunkRef} : Recorded s c ↔ ∃ r, c ∈ chunksAt s r := by
  have hgetD : ∀ o : Option Tombstone, c ∈ (o.map (·.chunks)).getD [] ↔ ∃ t ∈ o, c ∈ t.chunks := by
    rintro (_ | t) <;> simp
  simp only [Recorded, KeyState.dead_iff, Filed]
  constructor
  · rintro ⟨b, k, h | ⟨version, h⟩⟩
    · exact ⟨(b, k, none), (hgetD _).mpr h⟩
    · exact ⟨(b, k, some version), (hgetD _).mpr h⟩
  · rintro ⟨⟨b, k, _ | version⟩, h⟩
    · exact ⟨b, k, .inl ((hgetD _).mp h)⟩
    · exact ⟨b, k, .inr ⟨version, (hgetD _).mp h⟩⟩

section

variable {s s₁ s₂ : Store} {calls calls' : List Call} {b : BucketId} {k : ObjectKey}

lemma completed_append : completed (calls ++ calls') = completed calls ++ completed calls' := by
  simp [completed]

lemma lastOn_append : lastOn (calls ++ calls') b k = (lastOn calls' b k).or (lastOn calls b k) := by
  simp only [lastOn, completed_append, filter_append, getLast?_append]

lemma Traced.of_rows (h : ∀ b k, (s₁.keys b k).tombstone = (s.keys b k).tombstone ∧
      (s₁.keys b k).supersedes = (s.keys b k).supersedes ∧
      ((s.keys b k).row = none → (s₁.keys b k).row = none)) : Traced s [] s₁ where
  row b k := (h b k).2.2
  chunks := by
    rintro ⟨b, k, _ | version⟩
    · simp [chunksAt, (h b k).1, completed]
    · simp [chunksAt, (h b k).2.1, completed]
  tombstone b k := (h b k).1

lemma Traced.trans (h : Traced s calls s₁) (h' : Traced s₁ calls' s₂) :
    Traced s (calls ++ calls') s₂ where
  row b k hrow := h'.row b k (h.row b k hrow)
  chunks r := by
    rw [h'.chunks, h.chunks]
    simp only [completed_append, map_append, mem_append]
    by_cases hmem : r ∈ (completed calls).map ref
    · simp [hmem]
    · simp [hmem]
  tombstone b k := by
    have htomb := h.tombstone b k
    have htomb' := h'.tombstone b k
    rw [lastOn_append]
    rcases hlast' : lastOn calls' b k with _ | c'
    · -- the later calls leave the tombstone alone
      rw [hlast', TombstoneAfter] at htomb'
      rw [Option.none_or]
      unfold TombstoneAfter at htomb ⊢
      rw [htomb']
      split at htomb
      · exact htomb
      · exact ⟨h'.row b k htomb.1, htomb.2⟩
      · exact htomb
    · rw [hlast'] at htomb'
      rw [Option.some_or]
      unfold TombstoneAfter at htomb' ⊢
      split at htomb'
      · rename_i hnone
        cases hnone
      · exact htomb'
      · exact htomb'

lemma completed_singleton (c : Call) :
    completed [c] = if c.fault = .none then [c.cleanup] else [] := by
  by_cases hf : c.fault = .none <;> simp [completed, hf]

lemma Traced.clean (c : Call) (hrow : ∀ b k, c.cleanup = .row b k → (s.keys b k).row = none) :
    Traced s [c] (Gc.clean s c.nowMs c.fault c.cleanup) := by
  obtain ⟨c, nowMs, fault⟩ := c
  by_cases hf : fault = .none
  swap
  · -- a call that fails does nothing
    have hkeys : (Gc.clean s nowMs fault c).keys = s.keys := by
      funext b k
      rw [clean_keys, if_neg fun h => hf h.1]
    have hnone : completed [⟨c, nowMs, fault⟩] = [] := by rw [completed_singleton, if_neg hf]
    refine ⟨fun b k h => by rwa [hkeys], fun r => ?_, fun b k => ?_⟩
    · obtain ⟨b, k, _ | version⟩ := r <;> simp [chunksAt, hkeys, hnone]
    · simp [TombstoneAfter, lastOn, hnone, hkeys]
  subst hf
  have hdone : completed [⟨c, nowMs, .none⟩] = [c] := rfl
  -- another key is not touched
  have hne : ∀ b k, ¬(b = (ref c).1 ∧ k = (ref c).2.1) →
      (Gc.clean s nowMs .none c).keys b k = s.keys b k ∧ ∀ version, (b, k, version) ≠ ref c := by
    refine fun b k h => ⟨by rw [clean_keys, if_neg fun h' => h h'.2], fun version heq => h ?_⟩
    exact ⟨congrArg Prod.fst heq, congrArg (·.2.1) heq⟩
  have hself : (Gc.clean s nowMs .none c).keys (ref c).1 (ref c).2.1 =
      effect nowMs c (s.keys (ref c).1 (ref c).2.1) := by
    rw [clean_keys, if_pos ⟨rfl, rfl, rfl⟩]
  refine ⟨fun b k hnone => ?_, fun r => ?_, fun b k => ?_⟩
  · exact (row_clean s nowMs .none c b k).elim (fun h => h.trans hnone) And.right
  · rw [hdone, map_singleton]
    obtain ⟨b, k, version⟩ := r
    by_cases hkey : b = (ref c).1 ∧ k = (ref c).2.1
    · obtain ⟨rfl, rfl⟩ := hkey
      cases c with
      | tombstone b k => cases version <;> simp_all [chunksAt, ref, effect]
      | row b k => cases version <;> simp_all [chunksAt, ref, effect, KeyState.delete]
      | supersede b k v =>
        cases version with
        | none => simp_all [chunksAt, ref, effect]
        | some version =>
          by_cases hv : version = v <;> simp_all [chunksAt, ref, effect]
    · obtain ⟨hkeys, href⟩ := hne b k hkey
      rw [if_neg (by simpa using href version)]
      cases version <;> simp only [chunksAt, hkeys]
  · by_cases hkey : b = (ref c).1 ∧ k = (ref c).2.1
    · obtain ⟨rfl, rfl⟩ := hkey
      rw [hself, lastOn, hdone]
      cases c with
      | tombstone b k => simp [TombstoneAfter, ref, effect]
      | row b k => simp [TombstoneAfter, ref, effect, KeyState.delete, hrow b k rfl]
      | supersede b k v => simp [TombstoneAfter, ref, effect]
    · obtain ⟨hkeys, href⟩ := hne b k hkey
      have hlast : lastOn [⟨c, nowMs, .none⟩] b k = none := by
        simp [lastOn, hdone, Ne.symm (href none)]
      rw [hlast, hkeys]
      rfl

lemma Traced.cleanAll {w : Ledger}
    (hrow : ∀ c ∈ calls, ∀ b k, c.cleanup = .row b k → (w.node.store.keys b k).row = none) :
    Traced w.node.store calls (calls.foldl Ledger.clean w).node.store := by
  induction calls generalizing w with
  | nil => exact Traced.of_rows fun b k => ⟨rfl, rfl, id⟩
  | cons c calls ih =>
    have hfirst := Traced.clean c (hrow c mem_cons_self)
    refine hfirst.trans (@ih (w.clean c) fun c' hc' b k h => ?_)
    exact hfirst.row b k (hrow c' (mem_cons_of_mem _ hc') b k h)

end

/-! ### Compactions and records -/

section

variable {n : Node}

lemma Traced.steps {steps : List DurableStep}
    (h : ∀ rows, .batch rows ∈ steps → ∀ q ∈ rows, n.store.getObject q.1 q.2.objectKey ≠ none) :
    Traced n.store [] (n.after steps).store := by
  induction steps generalizing n with
  | nil => exact Traced.of_rows fun b k => ⟨rfl, rfl, id⟩
  | cons step steps ih =>
    have hfirst : Traced n.store [] (n.apply step).store ∧
        ∀ b k, n.store.getObject b k ≠ none → (n.apply step).store.getObject b k ≠ none := by
      rcases step with _ | _ | rows | _
      · exact ⟨Traced.of_rows fun b k => ⟨rfl, rfl, id⟩, fun _ _ => id⟩
      · exact ⟨Traced.of_rows fun b k => ⟨rfl, rfl, id⟩, fun _ _ => id⟩
      · refine ⟨Traced.of_rows fun b k => ?_, fun b k hsome => ?_⟩
        · simp only [Node.apply, Store.writeAll_putOp_keys]
          rcases hlast : Store.lastRow rows b k with _ | m
          · exact ⟨rfl, rfl, id⟩
          · obtain ⟨hm, rfl⟩ := Store.lastRow_some hlast
            exact ⟨rfl, rfl, fun hnone => absurd hnone (h rows mem_cons_self _ hm)⟩
        · simp only [Node.apply, Store.getObject_writeAll_putOp]
          simp [hsome]
      · exact ⟨Traced.of_rows fun b k => ⟨rfl, rfl, id⟩, fun _ _ => id⟩
    refine hfirst.1.trans (ih fun rows hrows q hq => hfirst.2 _ _ ?_)
    exact h rows (mem_cons_of_mem _ hrows) q hq

lemma batch_compactSegment {merkleRoot : Bytes → HashOutput} {c : Compaction}
    {rows : List (BucketId × ObjectMetadata)}
    (hrows : .batch rows ∈ (compactSegment merkleRoot c n).1) {q : BucketId × ObjectMetadata}
    (hq : q ∈ rows) : n.store.getObject q.1 q.2.objectKey ≠ none := by
  rcases mem_compactSegment hrows with hnew | hold | ⟨data, p, -, hbatch⟩
  · exact hnew.elim
  · simp [DurableStep.removes] at hold
  · obtain rfl := DurableStep.batch.inj hbatch
    obtain ⟨⟨b, m⟩, hm, rfl⟩ := mem_map.mp hq
    simp [remapRow, (Compaction.mem_found.mp hm).1]

lemma segments_foldl_applyStep {w : Ledger} {steps : List DurableStep} {id : SegmentId}
    (h : ∀ evt, .event (.seal evt) ∈ steps → evt.segmentId ≠ id) :
    (steps.foldl Ledger.applyStep w).segments id =
      if steps.any (·.removes id) = true then none else w.segments id := by
  induction steps generalizing w with
  | nil => rfl
  | cons step steps ih =>
    rw [foldl_cons, ih fun evt hevt => h evt (mem_cons_of_mem _ hevt), any_cons]
    have hstep : (w.applyStep step).segments id =
        if step.removes id = true then none else w.segments id := by
      simp only [Ledger.applyStep]
      split_ifs
      · rfl
      · split
        · exact if_neg (h _ mem_cons_self)
        · rfl
    rw [hstep]
    cases step.removes id <;> simp

lemma node_foldl_applyStep (w : Ledger) (steps : List DurableStep) :
    (steps.foldl Ledger.applyStep w).node = w.node.after steps := by
  induction steps generalizing w with
  | nil => rfl
  | cons step steps ih => exact ih (w.applyStep step)

end

section

variable {merkleRoot : Bytes → HashOutput} {below : ℕ → ℕ → Bool} {snapshot : Snapshot}
  {tracker : LivenessTracker} {w w' : Ledger} {a : Attempt} {as : List Attempt} {id : SegmentId}

/-- The keys that a cycle has collected as dead have no rows. -/
def Quiet (snapshot : Snapshot) (s : Store) : Prop :=
  ∀ p ∈ snapshot.dead, (s.keys p.1 p.2).row = none

lemma mem_compaction {step : DurableStep}
    (h : step ∈ (compaction merkleRoot below snapshot tracker w a).1) :
    ∃ c : Compaction, c.old = a.segment ∧ c.new = a.new ∧
      step ∈ (compactSegment merkleRoot c w.node).1 := by
  unfold compaction at h
  split at h
  · cases h
  · split_ifs at h
    · exact ⟨_, rfl, rfl, h⟩
    · cases h

lemma attempt_some (h : attempt merkleRoot below snapshot tracker w a = some w') :
    a.deletes = (compaction merkleRoot below snapshot tracker w a).1.any (·.removes a.segment) ∧
      w' = (callsOf snapshot a).foldl Ledger.clean
        ((compaction merkleRoot below snapshot tracker w a).1.foldl Ledger.applyStep w) := by
  simp only [attempt] at h
  split_ifs at h with hsame
  exact ⟨hsame.2, (Option.some.inj h).symm⟩

lemma Traced.attempt (h : Quiet snapshot w.node.store)
    (ha : attempt merkleRoot below snapshot tracker w a = some w') :
    Traced w.node.store (callsOf snapshot a) w'.node.store := by
  obtain ⟨-, rfl⟩ := attempt_some ha
  have hmoved : Traced w.node.store [] ((compaction merkleRoot below snapshot tracker w a).1.foldl
      Ledger.applyStep w).node.store := by
    rw [node_foldl_applyStep]
    refine Traced.steps fun rows hrows q hq => ?_
    obtain ⟨c, -, -, hstep⟩ := mem_compaction hrows
    exact batch_compactSegment hstep hq
  refine hmoved.trans (Traced.cleanAll fun c hc b k hrow => ?_)
  exact hmoved.row b k (h (b, k) (Snapshot.row_mem_cleanup (hrow ▸ cleanup_of_mem_callsOf hc)))

lemma Traced.attempts (h : Quiet snapshot w.node.store)
    (ha : attempts merkleRoot below snapshot tracker w as = some w') :
    Traced w.node.store (as.flatMap (callsOf snapshot)) w'.node.store := by
  induction as generalizing w with
  | nil =>
    obtain rfl := Option.some.inj ha
    exact Traced.of_rows fun b k => ⟨rfl, rfl, id⟩
  | cons a as ih =>
    obtain ⟨w₁, hfirst, hrest⟩ := Option.bind_eq_some_iff.mp ha
    have hfirst := Traced.attempt h hfirst
    exact hfirst.trans (ih (fun p hp => hfirst.row p.1 p.2 (h p hp)) hrest)

/-- The segment is gone after the attempts that delete it. -/
lemma segments_attempt (ha : attempt merkleRoot below snapshot tracker w a = some w')
    (hnew : a.new ≠ id) :
    w'.segments id = none ↔ w.segments id = none ∨ a.segment = id ∧ a.deletes = true := by
  obtain ⟨hdel, rfl⟩ := attempt_some ha
  have hclean : ∀ (calls : List Call) (w : Ledger),
      (calls.foldl Ledger.clean w).segments = w.segments := by
    intro calls
    induction calls with
    | nil => exact fun _ => rfl
    | cons c calls ih => exact fun w => ih (w.clean c)
  have hany : (compaction merkleRoot below snapshot tracker w a).1.any (·.removes id) = true ↔
      a.segment = id ∧ a.deletes = true := by
    constructor
    · intro h
      obtain ⟨step, hstep, hrem⟩ := any_eq_true.mp h
      obtain ⟨c, hold, hc, hstep⟩ := mem_compaction hstep
      obtain rfl : a.segment = id := by
        rcases mem_compactSegment hstep with hs | hs | ⟨_, _, _, rfl⟩
        · exact absurd (DurableStep.eq_of_removes hrem (.inl hs)).symm (hc ▸ hnew)
        · exact (hold ▸ DurableStep.eq_of_removes hrem (.inr hs)).symm
        · cases hrem
      exact ⟨rfl, hdel.trans h⟩
    · rintro ⟨rfl, h⟩
      exact hdel.symm.trans h
  rw [hclean, segments_foldl_applyStep]
  · by_cases h : a.segment = id ∧ a.deletes = true
    · simp [hany.mpr h, h]
    · rw [if_neg (hany.not.mpr h), or_iff_left h]
  · intro evt hevt
    obtain ⟨c, -, hc, hstep⟩ := mem_compaction hevt
    rcases mem_compactSegment hstep with hs | hs | ⟨_, _, _, hs⟩
    · exact fun h => hnew (hc.symm.trans (hs.symm.trans h))
    · simp [DurableStep.removes] at hs
    · cases hs

lemma segments_attempts (ha : attempts merkleRoot below snapshot tracker w as = some w')
    (hnew : ∀ a ∈ as, a.new ≠ id) :
    w'.segments id = none ↔
      w.segments id = none ∨ ∃ a ∈ as, a.segment = id ∧ a.deletes = true := by
  induction as generalizing w with
  | nil =>
    obtain rfl := Option.some.inj ha
    simp
  | cons a as ih =>
    obtain ⟨w₁, hfirst, hrest⟩ := Option.bind_eq_some_iff.mp ha
    rw [ih hrest fun a ha => hnew a (mem_cons_of_mem _ ha),
      segments_attempt hfirst (hnew a mem_cons_self)]
    simp [or_assoc]

/-- A deleted key has no row. -/
def Deleted (s : Store) : Prop :=
  ∀ b k, (s.keys b k).tombstone.isSome = true → (s.keys b k).row = none

/-- **A cycle** does to the records what its completed calls say. -/
lemma Traced.step (h : Deleted w.node.store) {i : CycleInput}
    (hs : step merkleRoot below w i = some w') : Traced w.node.store (calls w i) w'.node.store :=
  Traced.attempts (fun p hp => h p.1 p.2 (Cycle.tombstone_of_dead hp)) hs

lemma present_step {i : CycleInput} {c : ChunkRef} (hs : step merkleRoot below w i = some w')
    (hnew : ∀ a ∈ i.attempts, a.new ≠ c.segmentId) : Present w' c ↔ Stays w i c := by
  simp only [Present, Stays, Option.isSome_iff_ne_none, ne_eq, segments_attempts hs hnew]
  simp [not_or]

lemma lastOn_cases (calls : List Call) (b : BucketId) (k : ObjectKey) :
    lastOn calls b k = none ∨ lastOn calls b k = some (.tombstone b k) ∨
      lastOn calls b k = some (.row b k) := by
  rcases hlast : lastOn calls b k with _ | c
  · exact .inl rfl
  · have href := (mem_filter.mp (mem_of_getLast? hlast)).2
    simp only [decide_eq_true_eq] at href
    cases c with
    | tombstone b' k' =>
      obtain ⟨rfl, h⟩ := Prod.mk.inj href
      obtain ⟨rfl, -⟩ := Prod.mk.inj h
      exact .inr (.inl rfl)
    | row b' k' =>
      obtain ⟨rfl, h⟩ := Prod.mk.inj href
      obtain ⟨rfl, -⟩ := Prod.mk.inj h
      exact .inr (.inr rfl)
    | supersede b' k' version => simp [ref] at href

lemma Deleted.step (h : Deleted w.node.store) {i : CycleInput}
    (hs : step merkleRoot below w i = some w') : Deleted w'.node.store := by
  have htrace := Traced.step h hs
  intro b k hsome
  have htomb := htrace.tombstone b k
  rcases lastOn_cases (calls w i) b k with hlast | hlast | hlast <;> rw [hlast] at htomb
  · exact htrace.row b k (h b k (htomb ▸ hsome))
  · rw [show (_ : Option Tombstone) = none from htomb] at hsome
    simp at hsome
  · exact htomb.1

end

/-! ### Cycle after cycle -/

section

variable {merkleRoot : Bytes → HashOutput} {below : ℕ → ℕ → Bool} {b : BucketId} {k : ObjectKey}
  {t : Tombstone} {w w' : Ledger}

/-- What is known between two cycles. -/
structure Inv (b : BucketId) (k : ObjectKey) (t : Tombstone) (w : Ledger) : Prop where
  deleted : Deleted w.node.store
  hlc : ∀ t' ∈ (w.node.store.keys b k).tombstone, t.hlc ≤ t'.hlc

lemma le_zero_iff {h : Hlc} : h ≤ .zero ↔ h = .zero := by
  obtain ⟨w, l⟩ := h
  simp [Hlc.le_iff, Hlc.zero]

lemma not_mem_completed {calls : List Call} {r : RecordRef} : r ∉ (completed calls).map ref ↔
    ∀ call ∈ calls, ref call.cleanup = r → call.fault ≠ .none := by
  simp only [completed, map_map, mem_map, mem_filter, decide_eq_true_eq, not_exists,
    not_and, Function.comp_apply, and_imp]
  exact forall₂_congr fun c hc => ⟨fun h hr hf => h hf hr, fun h hf hr => h hr hf⟩

lemma Inv.consistent_iff (h : Inv b k t w) {i : CycleInput}
    (hs : step merkleRoot below w i = some w')
    (hnew : ∀ c ∈ t.chunks, ∀ a ∈ i.attempts, a.new ≠ c.segmentId) :
    Consistent b k t w' ↔ Spared b k t w i := by
  have htrace := Traced.step h.deleted hs
  have htomb := htrace.tombstone b k
  have hstays := fun c hc => present_step hs (hnew c hc)
  have hgone : (∀ c ∈ t.chunks, ¬Present w' c) ↔ ∀ c ∈ t.chunks, ¬Stays w i c :=
    forall₂_congr fun c hc => not_congr (hstays c hc)
  have hrecorded : (∀ c ∈ t.chunks, Present w' c → Recorded w'.node.store c) ↔
      ∀ c ∈ t.chunks, Stays w i c → ∃ r, c ∈ chunksAt w.node.store r ∧
        ∀ call ∈ calls w i, ref call.cleanup = r → call.fault ≠ .none := by
    refine forall₂_congr fun c hc => imp_congr (hstays c hc) ?_
    rw [recorded_iff]
    refine exists_congr fun r => ?_
    rw [htrace.chunks, ← not_mem_completed]
    split_ifs with hr <;> simp [hr]
  rcases lastOn_cases (calls w i) b k with hlast | hlast | hlast <;> rw [hlast] at htomb
  · -- no call is about the tombstone
    have hsame : (w'.node.store.keys b k).tombstone = (w.node.store.keys b k).tombstone := htomb
    refine ⟨fun ⟨hrec, _, hnone⟩ => ⟨hrecorded.mp hrec, by simp [hlast], fun hall => ?_⟩,
      fun ⟨hrec, _, hnone⟩ => ⟨hrecorded.mpr hrec, hsame ▸ h.hlc, fun hall => ?_⟩⟩
    · exact .inr ⟨hlast, hsame ▸ hnone (hgone.mpr hall)⟩
    · rcases hnone (hgone.mp hall) with hlast' | ⟨-, hnone⟩
      · simp [hlast] at hlast'
      · rw [hsame, hnone]
  · have hnone : (w'.node.store.keys b k).tombstone = none := htomb
    exact ⟨fun hc => ⟨hrecorded.mp hc.recorded, by simp [hlast], fun _ => .inl hlast⟩,
      fun hs => ⟨hrecorded.mpr hs.recorded, by simp [hnone], fun _ => hnone⟩⟩
  · obtain ⟨-, nowMs, hzero⟩ := htomb
    constructor
    · rintro ⟨hrec, hhlc, hnone⟩
      have hleft : ∃ c ∈ t.chunks, Stays w i c := by
        by_contra hall
        have := hnone (hgone.mpr fun c hc hs => hall ⟨c, hc, hs⟩)
        simp [hzero] at this
      refine ⟨hrecorded.mp hrec, fun _ => ⟨le_zero_iff.mp (hhlc _ hzero), hleft⟩, fun hall => ?_⟩
      obtain ⟨c, hc, hs⟩ := hleft
      exact absurd hs (hall c hc)
    · rintro ⟨hrec, hrow, -⟩
      obtain ⟨hz, c, hc, hs⟩ := hrow hlast
      refine ⟨hrecorded.mpr hrec, fun t' ht' => ?_, fun hall => absurd hs (hgone.mp hall c hc)⟩
      rw [hz, ← Option.some.inj (hzero.symm.trans ht')]

variable (merkleRoot below b k t)

/-- **The records of a deleted key** are consistent after every one of some cycles exactly when
each of them spares the records. No compaction draws the id of a segment of the object. -/
theorem consistent_cycles_iff (hdeleted : Deleted w.node.store)
    (ht : (w.node.store.keys b k).tombstone = some t) (cycles : List CycleInput)
    (hnew : ∀ i ∈ cycles, ∀ c ∈ t.chunks, ∀ a ∈ i.attempts, a.new ≠ c.segmentId) :
    Guarded (step merkleRoot below)
        (fun w i => ∀ w', step merkleRoot below w i = some w' → Consistent b k t w') w cycles ↔
      Guarded (step merkleRoot below) (Spared b k t) w cycles := by
  have h0 : Inv b k t w := by
    refine ⟨hdeleted, fun t' ht' => ?_⟩
    rw [← Option.some.inj (ht.symm.trans ht')]
  refine guarded_iff_of_inv (fun i hi w w' h hs => ?_) h0
  have hiff := h.consistent_iff hs (hnew i hi)
  refine ⟨⟨fun hc => hiff.mp (hc _ hs), fun hsp w₁ hs₁ => ?_⟩,
    fun hc => ⟨h.deleted.step hs, (hc _ hs).hlc⟩⟩
  exact Option.some.inj (hs.symm.trans hs₁) ▸ hiff.mpr hsp

end

/-! ### An object in two segments -/

def catTombstone : Tombstone := ⟨0, ⟨5, 0⟩, [⟨1, 0, 3, false, 3⟩, ⟨2, 0, 3, false, 3⟩]⟩

def catDeleted : Store :=
  Store.empty.setKey "photos" "cat" ⟨none, some catTombstone, fun _ => none⟩

lemma row_catDeleted (b : BucketId) (k : ObjectKey) : (catDeleted.keys b k).row = none := by
  by_cases hkey : b = "photos" ∧ k = "cat"
  · rw [hkey.1, hkey.2]
    rfl
  · rw [catDeleted, Store.setKey_of_ne _ _ hkey]
    rfl

/-- Nothing but the object is in its segments. -/
def twoSegments : Ledger where
  node := {
    store := catDeleted
    keyed := fun b k m hm => by
      rw [Store.getObject, row_catDeleted] at hm
      cases hm
    pool := fun _ => 0
    dat := fun _ _ => none }
  segments id :=
    if id = 1 ∨ id = 2 then
      some ⟨{ reservedMetadata id .standard 4 2 with totalBytes := 3 }, some []⟩
    else none

/-- A cycle that compacts one segment. -/
def collects (segment : SegmentId) (faults : ℕ → WriteFault) : CycleInput where
  refs := [("photos", "cat", none)]
  nowMs := 100
  ttlMs := 10
  attempts := [⟨segment, 9, .none, true, true, fun n => (100, faults n)⟩]

lemma deleted_twoSegments : Deleted twoSegments.node.store := fun b k _ => row_catDeleted b k

def someLive (live total : ℕ) : Bool := live < total

/-- The cleanup of the first cycle fails, and that of the second one after its first call. -/
def lastRemoves : List CycleInput :=
  [collects 1 fun _ => .batchWrite, collects 2 fun n => if n = 0 then .none else .batchWrite]

theorem removed_by_last_cycle :
    (run (step prefixHash someLive) twoSegments lastRemoves).isSome = true ∧
      Guarded (step prefixHash someLive)
        (fun w i => ∀ w', step prefixHash someLive w i = some w' →
          Consistent "photos" "cat" catTombstone w') twoSegments lastRemoves := by
  refine ⟨by decide +kernel, (consistent_cycles_iff prefixHash someLive "photos" "cat" catTombstone
    deleted_twoSegments rfl _ (by decide)).mpr fun w hw => ⟨⟨?_, ?_, ?_⟩, fun w' hw' =>
      ⟨⟨?_, ?_, ?_⟩, trivial⟩⟩⟩
  · exact fun c hc _ => ⟨("photos", "cat", none), hc, by decide +kernel⟩
  · decide +kernel
  · decide +kernel
  all_goals obtain rfl : w = (step prefixHash someLive twoSegments
    (collects 1 fun _ => .batchWrite)).getD twoSegments := by rw [hw]; rfl
  · have hgone : ∀ c ∈ catTombstone.chunks, ¬Stays ((step prefixHash someLive twoSegments
        (collects 1 fun _ => .batchWrite)).getD twoSegments)
        (collects 2 fun n => if n = 0 then .none else .batchWrite) c := by decide +kernel
    exact fun c hc hs => absurd hs (hgone c hc)
  · decide +kernel
  · decide +kernel

/-- **One segment of two is compacted**: the tombstone is replaced by one as of time zero. -/
theorem tombstone_set_back :
    Deleted twoSegments.node.store ∧
      (twoSegments.node.store.keys "photos" "cat").tombstone = some catTombstone ∧
      ¬Guarded (step prefixHash someLive)
        (fun w i => ∀ w', step prefixHash someLive w i = some w' →
          Consistent "photos" "cat" catTombstone w')
        twoSegments [collects 1 fun _ => .none] := by
  refine ⟨deleted_twoSegments, rfl, fun h => ?_⟩
  have hhlc := ((h _ rfl).1 _ rfl).hlc ⟨100, .zero, []⟩ (by decide +kernel)
  revert hhlc
  decide

end OceanFs.Gc.DeletionLedger
