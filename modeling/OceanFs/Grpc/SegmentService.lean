import OceanFs.Cache.Negative
import OceanFs.Core.Clock
import OceanFs.Metadata.Store

/-!
The object-ring half of the segment service: the `AppendSegment` and `DeleteObject` calls
that a coordinator makes on the other replicas of a key.

An append carries metadata only. An append of no bytes is answered without an error and
stores nothing; a row it does store replaces whatever row or tombstone is there, whatever its
timestamp, and so does a delete.
-/

namespace OceanFs.Grpc

open OceanFs.Core Metadata Cache

/-- The part of a node that its object handlers and services share. -/
structure Replica where
  store : Store
  clock : HlcClock
  negativeCache : Option NegativeCache

inductive Status
  | internal (message : String)
  | invalidArgument (message : String)
  deriving DecidableEq

structure SegmentAppendRequest where
  data : Bytes
  hlc : Option Hlc
  bucketId : BucketId
  objectKey : ObjectKey
  objectSize : ℕ
  blake3Hash : Bytes
  chunkSegmentIds : List SegmentId
  chunkOffsets : List ℕ
  chunkLengths : List ℕ

inductive AckStatus
  | ok
  | error
  deriving DecidableEq

structure SegmentAppendResponse where
  walPosition : ℕ
  ack : AckStatus
  deriving DecidableEq

/-- What the service is wired with, and what one call meets: the time and the store's faults.
`remapAlias` resolves chunk references into segments that compaction replaced. -/
structure ServiceEnv where
  hasMetadataStore : Bool
  remapAlias : Option (SegmentId → ℕ → ℕ → Option (SegmentId × ℕ))
  l3 : NegativeCacheConfig
  physical : ℕ
  nowMs : ℤ
  fault : WriteFault

/-- The metadata of a stream comes from its first chunk that names a bucket. -/
def metadataChunk (stream : List SegmentAppendRequest) : Option SegmentAppendRequest :=
  stream.find? fun chunk => chunk.bucketId ≠ ""

def streamData (stream : List SegmentAppendRequest) : Bytes := stream.flatMap (·.data)

def toHashOutput (b : Bytes) : Option HashOutput := if h : b.length = 32 then some ⟨b, h⟩ else none

lemma toHashOutput_getD (hash : Option HashOutput) :
    toHashOutput ((hash.map (·.1)).getD []) = hash := by
  cases hash with
  | none => simp [toHashOutput]
  | some h => simp [toHashOutput, h.2]

variable (env : ServiceEnv)

/-- One persisted chunk reference; the wire carries no compression flag. -/
def persistedChunk (segmentId : SegmentId) (offset length : ℕ) : ChunkRef :=
  let (seg, off) := match env.remapAlias with
    | some resolve => (resolve segmentId offset length).getD (segmentId, offset)
    | none => (segmentId, offset)
  { segmentId := seg, offset := off, length := length, compressed := false,
    logicalLength := length }

def persistedChunks (req : SegmentAppendRequest) : List ChunkRef :=
  (req.chunkSegmentIds.zip (req.chunkOffsets.zip req.chunkLengths)).map fun c =>
    persistedChunk env c.1 c.2.1 c.2.2

/-- The row an append persists: chunkless metadata embeds the payload. -/
def appendRow (req : SegmentAppendRequest) (data : Bytes) (hlc : Hlc) :
    ObjectMetadata where
  objectKey := req.objectKey
  size := req.objectSize
  blake3Hash := toHashOutput req.blake3Hash
  chunks := persistedChunks env req
  inlineData := if (persistedChunks env req).isEmpty then some data else none
  createdAt := env.nowMs
  hlc := hlc

def Replica.invalidateNegative (r : Replica) (env : ServiceEnv) (b : BucketId) (k : ObjectKey) :
    Replica :=
  { r with negativeCache := r.negativeCache.map fun c => c.invalidate env.l3 b k }

def appendSegment (stream : List SegmentAppendRequest) (r : Replica) :
    Replica × Except Status SegmentAppendResponse :=
  let data := streamData stream
  if data = [] then (r, .ok ⟨0, .error⟩)
  else
    match env.hasMetadataStore, metadataChunk stream with
    | true, some req =>
      match req.hlc with
      | none => (r, .error (.invalidArgument
          "append_segment requires a non-zero HLC on the metadata chunk"))
      | some hlc =>
        if hlc = Hlc.zero then (r, .error (.invalidArgument
          "append_segment requires a non-zero HLC on the metadata chunk"))
        else
          let r := { r with clock := r.clock.update hlc env.physical }
          let put := r.store.putObjectInBucket req.bucketId (appendRow env req data hlc) env.nowMs
            env.fault
          match put.2 with
          | .error _ => ({ r with store := put.1 },
              .error (.internal "failed to persist replicated metadata"))
          | .ok () => ({ r with store := put.1 }.invalidateNegative env req.bucketId req.objectKey,
              .ok ⟨data.length, .ok⟩)
    | _, _ => (r, .error (.invalidArgument
        "append_segment without object metadata is not supported"))

structure DeleteObjectRequest where
  bucketId : BucketId
  objectKey : ObjectKey
  hlc : Option Hlc

structure DeleteObjectResponse where
  deleted : Bool
  deriving DecidableEq

def deleteObject (req : DeleteObjectRequest) (r : Replica) :
    Replica × Except Status DeleteObjectResponse :=
  let hlc := req.hlc.getD Hlc.zero
  let r := { r with clock := r.clock.update hlc env.physical }
  if env.hasMetadataStore then
    let del := r.store.deleteObject req.bucketId req.objectKey hlc env.nowMs env.fault
    match del.2 with
    | .error _ => ({ r with store := del.1 }, .error (.internal "metadata delete failed"))
    | .ok () => ({ r with store := del.1 }, .ok ⟨true⟩)
  else (r, .ok ⟨true⟩)

/-! ### What one call leaves behind -/

/-- The call stores a row: it carries bytes, a bucket and a non-zero timestamp, and the store
takes the write. -/
def Accepts (env : ServiceEnv) (req : SegmentAppendRequest) (hlc : Hlc) : Prop :=
  req.data ≠ [] ∧ hlc ≠ Hlc.zero ∧ req.bucketId ≠ "" ∧ env.hasMetadataStore ∧ env.fault = .none

instance (env : ServiceEnv) (req : SegmentAppendRequest) (hlc : Hlc) :
    Decidable (Accepts env req hlc) :=
  inferInstanceAs (Decidable (_ ∧ _))

@[simp] lemma metadataChunk_singleton (req : SegmentAppendRequest) :
    metadataChunk [req] = if req.bucketId ≠ "" then some req else none := by
  by_cases h : req.bucketId = "" <;> simp [metadataChunk, h]

@[simp] lemma streamData_singleton (req : SegmentAppendRequest) : streamData [req] = req.data := by
  simp [streamData]

@[simp] lemma invalidateNegative_store (r : Replica) (env : ServiceEnv) (b : BucketId)
    (k : ObjectKey) : (r.invalidateNegative env b k).store = r.store := rfl

/-- **An append** puts its row when it is accepted, and answers without an error exactly then or
when it carries no bytes. -/
lemma appendSegment_spec {env : ServiceEnv} {req : SegmentAppendRequest} {hlc : Hlc} (r : Replica)
    (hreq : req.hlc = some hlc) :
    ((appendSegment env [req] r).1.store.keys req.bucketId req.objectKey =
      if Accepts env req hlc then
        (r.store.keys req.bucketId req.objectKey).put (appendRow env req req.data hlc) env.nowMs
      else r.store.keys req.bucketId req.objectKey) ∧
    ((appendSegment env [req] r).2.isOk ↔ req.data = [] ∨ Accepts env req hlc) := by
  unfold appendSegment
  simp only [streamData_singleton, metadataChunk_singleton]
  by_cases hd : req.data = []
  · simp [hd, Accepts, Except.isOk, Except.toBool]
  by_cases hb : req.bucketId = ""
  · cases env.hasMetadataStore <;> simp [hd, hb, Accepts, Except.isOk, Except.toBool]
  cases hm : env.hasMetadataStore with
  | false => simp [hd, hm, Accepts, Except.isOk, Except.toBool]
  | true =>
    by_cases hz : hlc = Hlc.zero
    · simp [hd, hb, hreq, hz, Accepts, Except.isOk, Except.toBool]
    · cases hf : env.fault <;>
        simp [hd, hb, hm, hreq, hz, hf, Accepts, Except.isOk, Except.toBool,
          Store.putObjectInBucket, Store.commit, appendRow]

lemma deleteObject_spec (b : BucketId) (k : ObjectKey) (hlc : Hlc) (r : Replica) :
    ((deleteObject env ⟨b, k, some hlc⟩ r).1.store.keys b k =
      if env.hasMetadataStore ∧ env.fault = .none then (r.store.keys b k).delete hlc env.nowMs
      else r.store.keys b k) ∧
    ((deleteObject env ⟨b, k, some hlc⟩ r).2 = .ok ⟨true⟩ ↔
      (env.hasMetadataStore = true → env.fault = .none)) := by
  cases hm : env.hasMetadataStore <;> cases hf : env.fault <;>
    simp [deleteObject, hm, hf, Store.deleteObject, Store.commit]

end OceanFs.Grpc
