import OceanFs.Grpc.SegmentService

/-!
The rows and requests that one PUT gives rise to.

The coordinator writes the row of an inline object itself; the row of a segment-stored object
is written by the HTTP handler once the coordinator has returned. The other replicas get an
append request with the coordinator's chunk references and hash.
-/

namespace OceanFs.Write

open OceanFs.Core Metadata Grpc

/-- The row of the inline arm of `WriteCoordinator::put`. -/
def inlineRow (key : ObjectKey) (data : Bytes) (hash : HashOutput) (hlc : Hlc) (nowMs : ℤ) :
    ObjectMetadata where
  objectKey := key
  size := data.length
  blake3Hash := some hash
  chunks := []
  inlineData := some data
  createdAt := nowMs
  hlc := hlc

/-- The row of the HTTP handler, for a result that has chunks. -/
def segmentRow (key : ObjectKey) (size : ℕ) (hash : Option HashOutput) (chunks : List ChunkRef)
    (hlc : Hlc) (nowMs : ℤ) : ObjectMetadata where
  objectKey := key
  size := size
  blake3Hash := hash
  chunks := chunks
  inlineData := none
  createdAt := nowMs
  hlc := hlc

@[simp] lemma inlineRow_objectKey (key : ObjectKey) (data : Bytes) (hash : HashOutput) (hlc : Hlc)
    (nowMs : ℤ) : (inlineRow key data hash hlc nowMs).objectKey = key := rfl
@[simp] lemma inlineRow_hlc (key : ObjectKey) (data : Bytes) (hash : HashOutput) (hlc : Hlc)
    (nowMs : ℤ) : (inlineRow key data hash hlc nowMs).hlc = hlc := rfl
@[simp] lemma segmentRow_objectKey (key : ObjectKey) (size : ℕ) (hash : Option HashOutput)
    (chunks : List ChunkRef) (hlc : Hlc) (nowMs : ℤ) :
    (segmentRow key size hash chunks hlc nowMs).objectKey = key := rfl
@[simp] lemma segmentRow_hlc (key : ObjectKey) (size : ℕ) (hash : Option HashOutput)
    (chunks : List ChunkRef) (hlc : Hlc) (nowMs : ℤ) :
    (segmentRow key size hash chunks hlc nowMs).hlc = hlc := rfl

/-- The request of `replicate_to_single`. -/
def replicateRequest (bucket : BucketId) (key : ObjectKey) (data : Bytes) (hash : HashOutput)
    (chunks : List ChunkRef) (hlc : Hlc) : SegmentAppendRequest where
  data := data
  hlc := some hlc
  bucketId := bucket
  objectKey := key
  objectSize := data.length
  blake3Hash := hash.1
  chunkSegmentIds := chunks.map (·.segmentId)
  chunkOffsets := chunks.map (·.offset)
  chunkLengths := chunks.map (·.length)

lemma persistedChunks_replicateRequest (env : ServiceEnv) (bucket : BucketId) (key : ObjectKey)
    (data : Bytes) (hash : HashOutput) (chunks : List ChunkRef) (hlc : Hlc) :
    persistedChunks env (replicateRequest bucket key data hash chunks hlc) =
      chunks.map fun c => persistedChunk env c.segmentId c.offset c.length := by
  simp only [persistedChunks, replicateRequest]
  induction chunks with
  | nil => rfl
  | cons c cs ih => simpa using ih

@[simp] lemma toHashOutput_val (h : HashOutput) : toHashOutput h.1 = some h := by
  simp [toHashOutput, h.2]

section

variable (env : ServiceEnv) (bucket : BucketId) (key : ObjectKey) (data : Bytes) (hash : HashOutput)
  (chunks : List ChunkRef) (hlc : Hlc)

/-- The row that the request leaves on a replica. -/
def replicatedRow : ObjectMetadata :=
  appendRow env (replicateRequest bucket key data hash chunks hlc) data hlc

@[simp] lemma replicatedRow_size :
    (replicatedRow env bucket key data hash chunks hlc).size = data.length := rfl
@[simp] lemma replicatedRow_hlc :
    (replicatedRow env bucket key data hash chunks hlc).hlc = hlc := rfl
@[simp] lemma replicatedRow_blake3Hash :
    (replicatedRow env bucket key data hash chunks hlc).blake3Hash = some hash :=
  toHashOutput_val hash
@[simp] lemma replicatedRow_chunks : (replicatedRow env bucket key data hash chunks hlc).chunks =
    chunks.map fun c => persistedChunk env c.segmentId c.offset c.length :=
  persistedChunks_replicateRequest ..
@[simp] lemma replicatedRow_inlineData :
    (replicatedRow env bucket key data hash chunks hlc).inlineData =
      if chunks = [] then some data else none := by
  simp [replicatedRow, appendRow, persistedChunks_replicateRequest]

/-- The replica takes the row of the request. -/
def AcceptsReplicate : Prop :=
  data ≠ [] ∧ hlc ≠ Hlc.zero ∧ bucket ≠ "" ∧ env.hasMetadataStore ∧ env.fault = .none

instance : Decidable (AcceptsReplicate env bucket data hlc) :=
  inferInstanceAs (Decidable (_ ∧ _))

lemma append_replicateRequest_keys (r : Replica) :
    (appendSegment env [replicateRequest bucket key data hash chunks hlc] r).1.store.keys bucket key
      = if AcceptsReplicate env bucket data hlc then
          (r.store.keys bucket key).put (replicatedRow env bucket key data hash chunks hlc)
            env.nowMs
        else r.store.keys bucket key :=
  (appendSegment_spec r rfl).1

lemma append_replicateRequest_isOk (r : Replica) :
    (appendSegment env [replicateRequest bucket key data hash chunks hlc] r).2.isOk ↔
      data = [] ∨ AcceptsReplicate env bucket data hlc :=
  (appendSegment_spec r rfl).2

end

end OceanFs.Write
