import OceanFs.Cache.Entries
import OceanFs.Routing.Ring
import OceanFs.Write.Rows

/-!
What one request of an object handler reads and changes.

`World` is the state: the metadata store, clock and negative cache of every node, the object
and metadata caches of every node, the hints and the open segments of the node that serves the
request. `Env` is everything else the request meets: the ring and membership views, the
configuration, the times, and the outcome of every call that can fail.
-/

namespace OceanFs.Write

open OceanFs.Core Metadata Grpc Routing Cache

/-- How the routing hint of a peer classes it as a write target. -/
inductive CandidateClass
  | preferred
  | fallback
  | excluded
  deriving DecidableEq

/-- What becomes of a call to a peer. A call whose reply is lost has run on the peer; a late one
is still under way when its caller stops waiting. -/
inductive CallFate
  | answered
  | lostReply
  | late
  | lostRequest
  deriving DecidableEq

/-- The serving node's view of a peer, and the fate of the call it makes to it. A channel that
cannot be opened is a lost request. -/
structure Peer where
  alive : Bool
  hasAddress : Bool
  cls : CandidateClass
  fate : CallFate

/-- The call runs on the peer before its caller goes on. -/
def Peer.reached (p : Peer) : Bool :=
  p.hasAddress && (p.fate = .answered || p.fate = .lostReply)

/-- The call runs on the peer after its caller has gone on. -/
def Peer.overdue (p : Peer) : Bool := p.hasAddress && p.fate = .late

inductive HintPayload
  | inline (data : Bytes)
  | segmentRef (segmentId : SegmentId) (offset length : ℕ)
  | delete
  deriving DecidableEq

structure HintRecord where
  intendedFor : NodeId
  bucket : BucketId
  key : ObjectKey
  payload : HintPayload
  timestamp : Hlc
  deriving DecidableEq

/-! ### Size tiers -/

structure SegmentSizeConfig where
  inlineThresholdBytes : ℕ
  smallThresholdBytes : ℕ
  defaultTargetSize : ℕ

inductive SizeTier
  | inline
  | small
  | standard
  | multi
  deriving DecidableEq

def SegmentSizeConfig.classify (cfg : SegmentSizeConfig) (blobSize : ℕ) : SizeTier :=
  if blobSize ≤ cfg.inlineThresholdBytes then .inline
  else if blobSize ≤ cfg.smallThresholdBytes then .small
  else if blobSize ≤ cfg.defaultTargetSize then .standard
  else .multi

/-- The compression context of a PUT; `compressInto` is the backend, `none` its error. -/
structure Compression where
  minChunkBytes : ℕ
  compressInto : Bytes → Option Bytes

/-- What the segment pipeline does with one chunk: it takes it into a segment, refuses it (for
backpressure, or for another reason), or fails after the append (at the reserve, the WAL entry
or the seal hand-off). -/
inductive AppendFate
  | appended (segmentId : SegmentId)
  | refused (backpressure : Bool)
  | failedAfter (segmentId : SegmentId)
  deriving DecidableEq

/-! ### Errors -/

/-- The errors of the write path. Texts that the code formats from a lower error keep their
fixed part; a panic ends the request as an error. -/
inductive WriteError
  | serviceUnavailable (reason : String)
  | routing (reason : String)
  | quorumNotMet (required received : ℕ)
  | forwardFailed (target : NodeId) (reason : String)
  | storage (reason : String)
  | internal (reason : String)
  | metadata
  | writeOverloaded
  | panicked
  deriving DecidableEq

/-! ### State and environment -/

structure World where
  replica : NodeId → Replica
  l1 : NodeId → EntryCache Bytes
  l2 : NodeId → EntryCache ObjectMetadata
  hints : List HintRecord
  segments : SegmentId → Bytes
  /-- Appends that their caller no longer waits for. -/
  inFlight : List (NodeId × SegmentAppendRequest)

structure Env where
  self : NodeId
  ring : Ring
  keyHash : ObjectKey → ℕ
  /-- The write queue has a permit for the request. -/
  admitted : Bool
  servesRequests : Bool
  acceptsWrites : Bool
  ready : Bool
  quorumRequiresRing : Bool
  peer : NodeId → Peer
  service : NodeId → ServiceEnv
  /-- A node gives its segment service the metadata store. -/
  wired : ∀ n, (service n).hasMetadataStore = true
  sizeConfig : SegmentSizeConfig
  hintInlineThresholdBytes : ℕ
  compression : Option Compression
  hash : Bytes → HashOutput
  /-- The pipeline's outcome for each chunk of the body, in order. -/
  append : ℕ → AppendFate
  /-- The segment id that a forwarded write makes up. -/
  forwardSegment : SegmentId
  /-- The hints pool at the check before the write, and at each target's enqueue. -/
  hintsPoolAccepts : Bool
  hintGate : NodeId → Bool
  hintIo : NodeId → Bool
  cancelIo : NodeId → Bool
  physical : ℕ
  cancelPhysical : ℕ
  rollbackPhysical : ℕ
  nowMs : ℤ
  /-- Store faults of the inline row, the handler's own write, and the rollback. -/
  inlineFault : WriteFault
  handlerFault : WriteFault
  rollbackFault : WriteFault
  /-- The cache invalidation reaches the peer. -/
  invalidateReaches : NodeId → Bool

def Env.replicaSet (env : Env) (key : ObjectKey) : List NodeId := env.ring.lookup (env.keyHash key)

lemma Env.replicaSet_nodup (env : Env) (key : ObjectKey) : (env.replicaSet key).Nodup :=
  env.ring.lookup_nodup _

lemma Env.replicaSet_length_mod (env : Env) (key : ObjectKey) :
    (env.replicaSet key).length % 256 = (env.replicaSet key).length :=
  Nat.mod_eq_of_lt (env.ring.lookup_length_lt _)

/-- An environment in which nothing fails: every peer is alive and answers, bodies of up to four
bytes are inline, and all chunks go to one segment. -/
def Env.calm (self : NodeId) (ring : Ring) : Env where
  self := self
  ring := ring
  keyHash := fun _ => 0
  admitted := true
  servesRequests := true
  acceptsWrites := true
  ready := true
  quorumRequiresRing := true
  peer := fun _ => ⟨true, true, .preferred, .answered⟩
  service := fun _ => ⟨true, none, ⟨false, 0, none, 0⟩, 1, 0, .none⟩
  wired := fun _ => rfl
  sizeConfig := ⟨4, 8, 16⟩
  hintInlineThresholdBytes := 4
  compression := none
  hash := fun _ => zeroHash
  append := fun _ => .appended 1
  forwardSegment := 2
  hintsPoolAccepts := true
  hintGate := fun _ => true
  hintIo := fun _ => true
  cancelIo := fun _ => true
  physical := 1
  cancelPhysical := 1
  rollbackPhysical := 1
  nowMs := 0
  inlineFault := .none
  handlerFault := .none
  rollbackFault := .none
  invalidateReaches := fun _ => true

namespace World

/-- Nothing has been written yet. -/
def blank : World :=
  ⟨fun _ => ⟨.empty, Hlc.zero, none⟩, fun _ => .empty, fun _ => .empty, [], fun _ => [], []⟩

def setReplica (w : World) (n : NodeId) (r : Replica) : World :=
  { w with replica := Function.update w.replica n r }

/-- One key of one node's metadata store. -/
def keyAt (w : World) (n : NodeId) (b : BucketId) (k : ObjectKey) : KeyState :=
  (w.replica n).store.keys b k

/-- An append that goes on after its caller gave it up. -/
def leaveInFlight (w : World) (p : Peer) (n : NodeId) (request : SegmentAppendRequest) : World :=
  if p.overdue then { w with inFlight := w.inFlight ++ [(n, request)] } else w

def tick (w : World) (n : NodeId) (physical : ℕ) : World × Hlc :=
  let c := (w.replica n).clock.now physical
  (w.setReplica n { w.replica n with clock := c }, c)

/-- A node's own put, and its own delete. -/
def putRow (w : World) (n : NodeId) (b : BucketId) (row : ObjectMetadata) (nowMs : ℤ)
    (fault : WriteFault) : World × Except StoreError Unit :=
  let r := w.replica n
  let out := r.store.putObjectInBucket b row nowMs fault
  (w.setReplica n { r with store := out.1 }, out.2)

def deleteRow (w : World) (n : NodeId) (b : BucketId) (k : ObjectKey) (hlc : Hlc) (nowMs : ℤ)
    (fault : WriteFault) : World × Except StoreError Unit :=
  let r := w.replica n
  let out := r.store.deleteObject b k hlc nowMs fault
  (w.setReplica n { r with store := out.1 }, out.2)

variable (w : World) (n m : NodeId) (r : Replica) (b : BucketId) (k : ObjectKey) (physical : ℕ)

@[simp] lemma setReplica_hints : (w.setReplica n r).hints = w.hints := rfl
@[simp] lemma setReplica_segments : (w.setReplica n r).segments = w.segments := rfl
@[simp] lemma setReplica_inFlight : (w.setReplica n r).inFlight = w.inFlight := rfl
@[simp] lemma setReplica_replica_self : (w.setReplica n r).replica n = r := by simp [setReplica]

lemma setReplica_replica_of_ne {m n : NodeId} (h : m ≠ n) :
    (w.setReplica n r).replica m = w.replica m := by
  simp [setReplica, h]

@[simp] lemma setReplica_keyAt_self : (w.setReplica n r).keyAt n b k = r.store.keys b k := by
  simp [keyAt]

lemma setReplica_keyAt_of_ne {m n : NodeId} (h : m ≠ n) :
    (w.setReplica n r).keyAt m b k = w.keyAt m b k := by
  simp [keyAt, setReplica_replica_of_ne w r h]

lemma setReplica_keyAt_of_store {w : World} {n : NodeId} {r : Replica}
    (h : r.store = (w.replica n).store) (m : NodeId) :
    (w.setReplica n r).keyAt m b k = w.keyAt m b k := by
  by_cases hm : m = n
  · subst hm
    simp [keyAt, h]
  · exact setReplica_keyAt_of_ne w r b k hm

@[simp] lemma tick_keyAt : (w.tick n physical).1.keyAt m b k = w.keyAt m b k :=
  setReplica_keyAt_of_store b k (by rfl) m

@[simp] lemma tick_hints : (w.tick n physical).1.hints = w.hints := rfl
@[simp] lemma tick_segments : (w.tick n physical).1.segments = w.segments := rfl
@[simp] lemma tick_inFlight : (w.tick n physical).1.inFlight = w.inFlight := rfl
section

variable (p : Peer) (request : SegmentAppendRequest)

@[simp] lemma leaveInFlight_keyAt : (w.leaveInFlight p n request).keyAt m b k = w.keyAt m b k := by
  unfold leaveInFlight
  split <;> rfl

@[simp] lemma leaveInFlight_hints : (w.leaveInFlight p n request).hints = w.hints := by
  unfold leaveInFlight
  split <;> rfl

@[simp] lemma leaveInFlight_segments : (w.leaveInFlight p n request).segments = w.segments := by
  unfold leaveInFlight
  split <;> rfl

lemma leaveInFlight_inFlight : (w.leaveInFlight p n request).inFlight =
    w.inFlight ++ if p.overdue then [(n, request)] else [] := by
  unfold leaveInFlight
  split <;> simp

end

lemma tick_hlc : (w.tick n physical).2 = (w.replica n).clock.now physical := rfl

section

variable (row : ObjectMetadata) (hlc : Hlc) (nowMs : ℤ) (fault : WriteFault)

lemma putRow_keyAt : (w.putRow n b row nowMs fault).1.keyAt m b row.objectKey =
    if m = n ∧ fault = .none then (w.keyAt n b row.objectKey).put row nowMs
    else w.keyAt m b row.objectKey := by
  by_cases hm : m = n
  · subst hm
    simp [putRow, Store.putObjectInBucket_keys, keyAt]
  · simp [putRow, hm, setReplica_keyAt_of_ne]

lemma putRow_ok_iff : (w.putRow n b row nowMs fault).2 = .ok () ↔ fault = .none :=
  Store.putObjectInBucket_ok_iff ..

lemma putRow_frame : (w.putRow n b row nowMs fault).1.hints = w.hints ∧
    (w.putRow n b row nowMs fault).1.inFlight = w.inFlight ∧
    ((w.putRow n b row nowMs fault).1.replica n).clock = (w.replica n).clock := by
  simp [putRow]

@[simp] lemma putRow_hints : (w.putRow n b row nowMs fault).1.hints = w.hints := rfl
@[simp] lemma putRow_segments : (w.putRow n b row nowMs fault).1.segments = w.segments := rfl
lemma deleteRow_keyAt : (w.deleteRow n b k hlc nowMs fault).1.keyAt m b k =
    if m = n ∧ fault = .none then (w.keyAt n b k).delete hlc nowMs else w.keyAt m b k := by
  by_cases hm : m = n
  · subst hm
    simp [deleteRow, Store.deleteObject_keys, keyAt]
  · simp [deleteRow, hm, setReplica_keyAt_of_ne]

lemma deleteRow_ok_iff : (w.deleteRow n b k hlc nowMs fault).2 = .ok () ↔ fault = .none :=
  Store.deleteObject_ok_iff ..

@[simp] lemma deleteRow_hints : (w.deleteRow n b k hlc nowMs fault).1.hints = w.hints := rfl
end

end World

end OceanFs.Write
