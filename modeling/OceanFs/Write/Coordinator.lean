import OceanFs.Write.World

/-!
The write coordinator.

`put` routes the key, writes the body locally, replicates it, checks the quorum and records a
hint for every member of the replica set that missed the write; a write that fails after it
started is rolled back. Each step is a function from a world to a world and a result, in the
order of the source, and `put` only strings them together.
-/

namespace OceanFs.Write

open OceanFs.Core Metadata Grpc Routing

structure WriteRequest where
  bucket : BucketId
  key : ObjectKey
  data : Bytes
  writeQuorum : UInt8

structure WriteResult where
  chunks : List ChunkRef
  size : ℕ
  blake3Hash : Option HashOutput
  hlc : Hlc
  deriving DecidableEq

abbrev Outcome (α : Type) := World × Except WriteError α

def maxReplicaFanout : ℕ := 6

/-! ### Hints -/

/-- `hint_debt_gate`, against the state the hints pool is in at that moment. -/
def hintDebtGate (accepts : Bool) : Except WriteError Unit :=
  if accepts then .ok ()
  else .error (.serviceUnavailable "hints pool dead — cannot record hinted-handoff debt")

variable (env : Env)

/-- The honest-debt check before a write, against the pool's state at that moment. -/
def debtGate (debt : Bool) : Except WriteError Unit :=
  if debt then hintDebtGate env.hintsPoolAccepts else .ok ()

/-- The hint for a replica that missed a write: the body when it is small or has no chunk, and
otherwise a reference to the first chunk. -/
def writeHint (req : WriteRequest) (chunks : List ChunkRef) (hlc : Hlc) (target : NodeId) :
    HintRecord where
  intendedFor := target
  bucket := req.bucket
  key := req.key
  payload :=
    if req.data.length ≤ env.hintInlineThresholdBytes then .inline req.data
    else match chunks.head? with
      | some c => .segmentRef c.segmentId c.offset c.length
      | none => .inline req.data
  timestamp := hlc

def deleteHint (bucket : BucketId) (key : ObjectKey) (hlc : Hlc) (target : NodeId) :
    HintRecord where
  intendedFor := target
  bucket := bucket
  key := key
  payload := .delete
  timestamp := hlc

def World.enqueue (w : World) (hint : HintRecord) : World := { w with hints := w.hints ++ [hint] }

/-- `enqueue_write_hint` and `enqueue_delete_hint`: the gate, then the hint WAL. -/
def enqueueHint (failure : String) (hint : HintRecord) (w : World) : Outcome Unit :=
  match hintDebtGate (env.hintGate hint.intendedFor) with
  | .error e => (w, .error e)
  | .ok () =>
    if env.hintIo hint.intendedFor then (w.enqueue hint, .ok ())
    else (w, .error (.serviceUnavailable failure))

def enqueueWriteHint (req : WriteRequest) (chunks : List ChunkRef) (hlc : Hlc) (target : NodeId) :
    World → Outcome Unit :=
  enqueueHint env "hinted handoff enqueue failed — debt unrecordable"
    (writeHint env req chunks hlc target)

def enqueueDeleteHint (bucket : BucketId) (key : ObjectKey) (hlc : Hlc) (target : NodeId) :
    World → Outcome Unit :=
  enqueueHint env "hinted handoff enqueue failed — delete debt unrecordable"
    (deleteHint bucket key hlc target)

/-- Hints every target in order; an error comes with the targets hinted before it. -/
def hintAll (env : Env) (req : WriteRequest) (chunks : List ChunkRef) (hlc : Hlc) :
    List NodeId → List NodeId → World → World × Except (WriteError × List NodeId) Unit
  | [], _, w => (w, .ok ())
  | t :: targets, hinted, w =>
    match enqueueWriteHint env req chunks hlc t w with
    | (w, .ok ()) => hintAll env req chunks hlc targets (hinted ++ [t]) w
    | (w, .error e) => (w, .error (e, hinted))

def knownDownDebtTargets (replicaSet : List NodeId) : Bool :=
  replicaSet.any fun t => t ≠ env.self && (!(env.peer t).alive || !(env.peer t).hasAddress)

/-! ### Undoing a write -/

/-- Deletes the row this request wrote, under a fresh timestamp; a failure is only logged. -/
def rollbackFailedWrite (req : WriteRequest) (localMetadataRowWritten : Bool) (w : World) : World :=
  if localMetadataRowWritten then
    let (w, hlc) := w.tick env.self env.rollbackPhysical
    (w.deleteRow env.self req.bucket req.key hlc env.nowMs env.rollbackFault).1
  else w

/-- Queues a delete hint, under one fresh timestamp, behind each hint of the rejected write. -/
def cancelPartialHints (targets : List NodeId) (bucket : BucketId) (key : ObjectKey) (w : World) :
    World :=
  if targets = [] then w
  else
    let (w, hlc) := w.tick env.self env.cancelPhysical
    { w with hints := w.hints ++ (targets.filter env.cancelIo).map (deleteHint bucket key hlc) }

/-! ### The local write -/

/-- `compress_chunk`: the stored bytes, the logical length in 32 bits, and the flag. -/
def compressChunk (ctx : Option Compression) (data : Bytes) :
    Except WriteError (Bytes × ℕ × Bool) :=
  match ctx with
  | none => .ok (data, data.length % 2 ^ 32, false)
  | some c =>
    if data.length < c.minChunkBytes then .ok (data, data.length % 2 ^ 32, false)
    else match c.compressInto data with
      | none => .error (.storage "compress failed")
      | some out =>
        if data.length ≤ out.length then .ok (data, data.length % 2 ^ 32, false)
        else .ok (out, data.length % 2 ^ 32, true)

def World.appendBytes (w : World) (seg : SegmentId) (bytes : Bytes) : World :=
  { w with segments := Function.update w.segments seg (w.segments seg ++ bytes) }

/-- One chunk through compression and the segment pipeline. -/
def storeChunk (tier : String) (i : ℕ) (data : Bytes) (w : World) : Outcome ChunkRef :=
  match compressChunk env.compression data with
  | .error e => (w, .error e)
  | .ok (stored, logicalLen, compressed) =>
    match env.append i with
    | .refused true => (w, .error .writeOverloaded)
    | .refused false => (w, .error (.storage (tier ++ " tier append")))
    | .failedAfter seg => (w.appendBytes seg stored, .error (.storage (tier ++ " tier append")))
    | .appended seg => (w.appendBytes seg stored, .ok
        { segmentId := seg
          offset := (w.segments seg).length
          length := min stored.length (2 ^ 32 - 1)
          compressed := compressed
          logicalLength := logicalLen })

def storeChunks (env : Env) (tier : String) : ℕ → List Bytes → World → Outcome (List ChunkRef)
  | _, [], w => (w, .ok [])
  | i, data :: rest, w =>
    match storeChunk env tier i data w with
    | (w, .error e) => (w, .error e)
    | (w, .ok c) =>
      match storeChunks env tier (i + 1) rest w with
      | (w, .error e) => (w, .error e)
      | (w, .ok cs) => (w, .ok (c :: cs))

/-- `SegmentSplitter::split`, for a chunk size above zero. -/
def split (chunkSize : ℕ) (data : Bytes) : List Bytes :=
  (List.range ((data.length + chunkSize - 1) / chunkSize)).map fun i =>
    (data.drop (i * chunkSize)).take chunkSize

/-- What the local write stores: the chunks, and whether it wrote the row itself. -/
def writeLocal (req : WriteRequest) (hlc : Hlc) (w : World) :
    Outcome (List ChunkRef × Bool) :=
  match env.sizeConfig.classify req.data.length with
  | .inline =>
    match w.putRow env.self req.bucket
      (inlineRow req.key req.data (env.hash req.data) hlc env.nowMs) env.nowMs env.inlineFault with
    | (w, .error _) => (w, .error (.storage "inline metadata write"))
    | (w, .ok ()) => (w, .ok ([], true))
  | .small => chunked "small" [req.data]
  | .standard => chunked "standard" [req.data]
  | .multi =>
    if env.sizeConfig.defaultTargetSize = 0 then (w, .error .panicked)
    else chunked "multi" (split env.sizeConfig.defaultTargetSize req.data)
where
  chunked (tier : String) (pieces : List Bytes) : Outcome (List ChunkRef × Bool) :=
    match storeChunks env tier 0 pieces w with
    | (w, .error e) => (w, .error e)
    | (w, .ok chunks) => (w, .ok (chunks, false))

/-! ### Replication -/

/-- The targets of the fan-out: preferred peers, then fallbacks, up to the cap. -/
def remoteTargets (replicaSet : List NodeId) : List NodeId :=
  let others := replicaSet.filter (· ≠ env.self)
  (others.filter (fun t => (env.peer t).cls = .preferred) ++
    others.filter (fun t => (env.peer t).cls = .fallback)).take maxReplicaFanout

def unattempted (replicaSet : List NodeId) : List NodeId :=
  replicaSet.filter fun t => t ≠ env.self && t ∉ remoteTargets env replicaSet

/-- `replicate_to_single`; any answer that is not an error counts as an ack. -/
def replicateToSingle (req : WriteRequest) (chunks : List ChunkRef) (hlc : Hlc) (target : NodeId)
    (w : World) : World × Bool :=
  let peer := env.peer target
  let request := replicateRequest req.bucket req.key req.data (env.hash req.data) chunks hlc
  if peer.reached then
    let call := appendSegment (env.service target) [request] (w.replica target)
    (w.setReplica target call.1, peer.fate = .answered && call.2.isOk)
  else (w.leaveInFlight peer target request, false)

/-- Every target's outcome, and the ones that did not ack. -/
def replicateWrite (env : Env) (req : WriteRequest) (chunks : List ChunkRef) (hlc : Hlc) :
    List NodeId → World → World × ℕ × List NodeId
  | [], w => (w, 0, [])
  | t :: targets, w =>
    let (w, ack) := replicateToSingle env req chunks hlc t w
    let (w, acks, failed) := replicateWrite env req chunks hlc targets w
    if ack then (w, acks + 1, failed) else (w, acks, t :: failed)

def requiredQuorum (writeQuorum : UInt8) (replicaSet : List NodeId) : ℕ :=
  if env.quorumRequiresRing then writeQuorum.toNat
  else min writeQuorum.toNat (replicaSet.length % 256)

/-! ### Forwarding -/

/-- The peer a write is forwarded to: an alive preferred one, else an alive fallback, else any
alive one. -/
def forwardTarget (replicaSet : List NodeId) : Option NodeId :=
  let alive := replicaSet.filter fun t => (env.peer t).alive
  (alive.find? fun t => (env.peer t).cls = .preferred).or
    ((alive.find? fun t => (env.peer t).cls = .fallback).or alive.head?)

/-- The request of `forward_write`, which names no hash and no chunks. -/
def forwardRequest (req : WriteRequest) (hlc : Hlc) : SegmentAppendRequest where
  data := req.data
  hlc := some hlc
  bucketId := req.bucket
  objectKey := req.key
  objectSize := req.data.length
  blake3Hash := []
  chunkSegmentIds := []
  chunkOffsets := []
  chunkLengths := []

/-- `forward_write`: one append, whose answer becomes a result with a made-up chunk. -/
def forwardWrite (target : NodeId) (req : WriteRequest) (w : World) :
    Outcome WriteResult :=
  let peer := env.peer target
  if peer.hasAddress then
    let (w, hlc) := w.tick env.self env.physical
    if peer.reached then
      let call := appendSegment (env.service target) [forwardRequest req hlc] (w.replica target)
      let w := w.setReplica target call.1
      if peer.fate = .answered && call.2.isOk then
        (w, .ok
          { chunks := [
              { segmentId := env.forwardSegment
                offset := 0
                length := req.data.length % 2 ^ 32
                compressed := false
                logicalLength := req.data.length % 2 ^ 32 }]
            size := req.data.length
            blake3Hash := some (env.hash req.data)
            hlc := hlc })
      else (w, .error (.forwardFailed target "gRPC forward failed"))
    else (w.leaveInFlight peer target (forwardRequest req hlc),
      .error (.forwardFailed target "gRPC forward failed"))
  else (w, .error (.forwardFailed target "node address not found in membership"))

/-! ### Put -/

/-- Steps 0 to 1c: what is refused before the key is routed to a node. -/
def admission (req : WriteRequest) : Except WriteError Unit :=
  let set := env.replicaSet req.key
  if !env.servesRequests then
    .error (.serviceUnavailable "node unavailable — metadata pool dead")
  else if set = [] then .error (.routing "ring returned empty replica set")
  else if !env.ready && set.length < 2 then
    .error (.quorumNotMet (min req.writeQuorum.toNat 2) set.length)
  else if env.quorumRequiresRing && set.length % 256 < req.writeQuorum.toNat then
    .error (.quorumNotMet req.writeQuorum.toNat set.length)
  else .ok ()

/-- Steps 2b and 3: what a replica of the key refuses before it writes. -/
def admissionLocal (req : WriteRequest) : Except WriteError Unit :=
  let set := env.replicaSet req.key
  let debt := knownDownDebtTargets env set ||
    set.any fun t => t ≠ env.self && (env.peer t).cls = .excluded
  match debtGate env debt with
  | .error e => .error e
  | .ok () =>
    if !env.acceptsWrites then
      .error (.serviceUnavailable "node write_degraded — wal pool dead")
    else .ok ()

/-- Steps 5 to 7: replication, the quorum, and the hints. -/
def replicateAndHint (req : WriteRequest) (chunks : List ChunkRef) (rowWritten : Bool) (hlc : Hlc)
    (w : World) : Outcome WriteResult :=
  let set := env.replicaSet req.key
  let quorum := requiredQuorum env req.writeQuorum set
  let (w, acks, failed) := replicateWrite env req chunks hlc (remoteTargets env set) w
  if acks + 1 < quorum then
    (rollbackFailedWrite env req rowWritten w, .error (.quorumNotMet quorum (acks + 1)))
  else
    match hintAll env req chunks hlc (failed ++ unattempted env set) [] w with
    | (w, .error (e, hinted)) =>
      (rollbackFailedWrite env req rowWritten
        (cancelPartialHints env hinted req.bucket req.key w), .error e)
    | (w, .ok ()) => (w, .ok
        { chunks := chunks, size := req.data.length, blake3Hash := some (env.hash req.data),
          hlc := hlc })

/-- Steps 3 to 7 on a replica of the key. An empty body returns before anything is written. -/
def putLocal (req : WriteRequest) (w : World) : Outcome WriteResult :=
  let (w, hlc) := w.tick env.self env.physical
  if req.data = [] then
    (w, .ok { chunks := [], size := 0, blake3Hash := some (env.hash req.data), hlc := hlc })
  else
    match writeLocal env req hlc w with
    | (w, .error e) => (w, .error e)
    | (w, .ok (chunks, rowWritten)) => replicateAndHint env req chunks rowWritten hlc w

/-- `WriteCoordinator::put`. -/
def put (req : WriteRequest) (w : World) : Outcome WriteResult :=
  match admission env req with
  | .error e => (w, .error e)
  | .ok () =>
    if env.self ∈ env.replicaSet req.key then
      match admissionLocal env req with
      | .error e => (w, .error e)
      | .ok () => putLocal env req w
    else
      match forwardTarget env (env.replicaSet req.key) with
      | none => (w, .error (.routing "no alive replica to forward write"))
      | some target => forwardWrite env target req w

/-! ### Delete -/

/-- One delete call: what an answer that is no error says about the deletion. -/
def deleteOnSingle (bucket : BucketId) (key : ObjectKey) (hlc : Hlc) (target : NodeId) (w : World) :
    World × Option Bool :=
  let peer := env.peer target
  if peer.reached then
    let call := Grpc.deleteObject (env.service target) ⟨bucket, key, some hlc⟩ (w.replica target)
    (w.setReplica target call.1,
      if peer.fate = .answered then call.2.toOption.map (·.deleted) else none)
  else (w, none)

/-- The replication of a delete: one call to each other member, in order. A member whose call
fails is hinted, and the first hint that cannot be recorded ends the loop; an answer that does
not confirm is neither counted nor hinted. -/
def deleteRemote (env : Env) (bucket : BucketId) (key : ObjectKey) (hlc : Hlc) :
    List NodeId → World → Outcome ℕ
  | [], w => (w, .ok 0)
  | t :: targets, w =>
    if t = env.self then deleteRemote env bucket key hlc targets w
    else
      match deleteOnSingle env bucket key hlc t w with
      | (w, some deleted) =>
        match deleteRemote env bucket key hlc targets w with
        | (w, .error e) => (w, .error e)
        | (w, .ok n) => (w, .ok (if deleted then n + 1 else n))
      | (w, none) =>
        match enqueueDeleteHint env bucket key hlc t w with
        | (w, .error e) => (w, .error e)
        | (w, .ok ()) => deleteRemote env bucket key hlc targets w

/-- `WriteCoordinator::delete`: the number of confirmed remote deletes. -/
def delete (bucket : BucketId) (key : ObjectKey) (hlc : Hlc) (w : World) : Outcome ℕ :=
  let set := env.replicaSet key
  if set = [] then (w, .error (.routing "ring returned empty replica set"))
  else
    match debtGate env (knownDownDebtTargets env set) with
    | .error e => (w, .error e)
    | .ok () => deleteRemote env bucket key hlc set w

end OceanFs.Write
