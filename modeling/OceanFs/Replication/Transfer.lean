import OceanFs.Durability.LateWrites
import OceanFs.Write.Rows

/-!
Rows on their way to another node.

A row travels as parallel lists of its chunks' fields: in an append request, in a read-repair push,
and in the answer to a metadata request. An append has no field for compression, the receiver of a
push does not read the fields that the request has, and empty inline data is read back as none. An
append without bytes stores nothing.
-/

namespace OceanFs.Replication.Transfer

open OceanFs.Core Metadata Grpc Read Write
open Durability.LateWrites

/-! ### Read-repair pushes -/

/-- The whole request; the handler reads the part that it extends. -/
structure PutObjectMetadataRequest extends PushRequest where
  bucketId : BucketId
  objectKey : ObjectKey
  chunkLogicalLengths : List ℕ
  chunkCompressed : List Bool

def buildPutMetadataRequest (bucket : BucketId) (key : ObjectKey) (m : ObjectMetadata) :
    PutObjectMetadataRequest where
  bucketId := bucket
  objectKey := key
  size := m.size
  blake3Hash := (m.blake3Hash.map (·.1)).getD []
  hlc := some m.hlc
  inlineData := m.inlineData.getD []
  chunkSegmentIds := m.chunks.map (·.segmentId)
  chunkOffsets := m.chunks.map (·.offset)
  chunkLengths := m.chunks.map (·.length)
  chunkLogicalLengths := m.chunks.map fun c => if c.compressed then c.logicalLength else c.length
  chunkCompressed := m.chunks.map (·.compressed)

inductive PushStatus
  | unimplemented (message : String)
  | rejected (reason : Rejection)
  | internal (message : String)
  deriving DecidableEq

/-- The `PutObjectMetadata` call: the two comparisons and the put. -/
def putObjectMetadata (env : ServiceEnv) (req : PutObjectMetadataRequest) (r : Replica) :
    Replica × Except PushStatus Unit :=
  if !env.hasMetadataStore then (r, .error (.unimplemented "no metadata store configured"))
  else
    match req.timestamp with
    | .error reason => (r, .error (.rejected reason))
    | .ok hlc =>
      let r := { r with clock := r.clock.update hlc env.physical }
      let key := r.store.keys req.bucketId req.objectKey
      if key.tombstone.any (hlc ≤ ·.hlc) then
        (r, .error (.rejected (.failedPrecondition "object is tombstoned")))
      else if key.row.any (hlc < ·.hlc) then
        (r, .error (.rejected (.failedPrecondition "push is older than local version")))
      else
        let put := r.store.putObjectInBucket req.bucketId
          (req.row req.objectKey hlc env.nowMs) env.nowMs env.fault
        match put.2 with
        | .error _ => ({ r with store := put.1 },
            .error (.internal "metadata write during read repair"))
        | .ok () => ({ r with store := put.1 }, .ok ())

/-! ### What each path makes of a row -/

/-- The two rows say the same of the object. -/
structure SameRow (m m' : ObjectMetadata) : Prop where
  size : m'.size = m.size
  blake3Hash : m'.blake3Hash = m.blake3Hash
  hlc : m'.hlc = m.hlc
  inlineData : m'.inlineData = m.inlineData
  chunks : m'.chunks = m.chunks

/-- The row of a put of `data`: it has the data inline or in chunks. -/
structure PutRow (m : ObjectMetadata) (data : Bytes) (hash : HashOutput) : Prop where
  size : m.size = data.length
  blake3Hash : m.blake3Hash = some hash
  inlineData : m.inlineData = if m.chunks = [] then some data else none
  /-- there is something in the chunks -/
  chunks : m.chunks ≠ [] → data ≠ []

/-- The service can store rows. -/
structure Working (env : ServiceEnv) : Prop where
  store : env.hasMetadataStore = true
  fault : env.fault = .none

/-- Every path leaves the peer with the same row. -/
structure Faithful (bucket : BucketId) (key : ObjectKey) (m : ObjectMetadata) : Prop where
  /-- `replicate_to_single` and `append_segment` -/
  append : ∀ env r data hash, Working env → env.remapAlias = none → PutRow m data hash →
    ∃ m', ((appendSegment env [replicateRequest bucket key data hash m.chunks m.hlc] r).1.store.keys
      bucket key).row = some m' ∧ SameRow m m'
  /-- `build_put_metadata_request` and `put_object_metadata`, where the peer has nothing newer -/
  push : ∀ env r, Working env →
    (r.store.keys bucket key).tombstone.any (m.hlc ≤ ·.hlc) = false →
    (r.store.keys bucket key).row.any (m.hlc < ·.hlc) = false →
    ∃ m', ((putObjectMetadata env (buildPutMetadataRequest bucket key m) r).1.store.keys
      bucket key).row = some m' ∧ SameRow m m'
  /-- `get_object_metadata` and `object_metadata_from_response` -/
  fetch : ∀ s createdAt, s.row = some m →
    SameRow m (objectMetadataFromResponse (getObjectMetadata s) key createdAt)
  /-- `get_object_metadata` and `compare_with_quorum`, where all other replicas have this row -/
  compare : ∀ env renv localMeta w winner,
    (∀ t ∈ env.replicaSet key, ∀ row, (w.keyAt t bucket key).row = some row → row = m) →
    (compareWithQuorum env renv bucket key localMeta w).2 = some winner → SameRow m winner

/-- The stored bytes are the logical ones. -/
def Plain (c : ChunkRef) : Prop := c.compressed = false ∧ c.logicalLength = c.length

instance (c : ChunkRef) : Decidable (Plain c) := inferInstanceAs (Decidable (_ ∧ _))

/-- Nothing of the row is lost on the wire. -/
structure Transferable (m : ObjectMetadata) : Prop where
  hlc : m.hlc ≠ Hlc.zero
  inlineData : m.inlineData ≠ some []
  chunks : ∀ c ∈ m.chunks, Plain c

/-- A chunk as a receiver without the compression fields stores it. -/
def uncompressed (c : ChunkRef) : ChunkRef :=
  { c with compressed := false, logicalLength := c.length }

lemma uncompressed_of_plain {c : ChunkRef} (h : Plain c) : uncompressed c = c := by
  obtain ⟨segmentId, offset, length, compressed, logicalLength⟩ := c
  obtain ⟨rfl, rfl⟩ : compressed = false ∧ logicalLength = length := h
  rfl

lemma map_uncompressed_iff {chunks : List ChunkRef} :
    chunks.map uncompressed = chunks ↔ ∀ c ∈ chunks, Plain c := by
  have hid : chunks.map uncompressed = chunks ↔ ∀ c ∈ chunks, uncompressed c = c := by
    conv_lhs => rhs; rw [← List.map_id chunks]
    exact List.map_inj_left
  rw [hid]
  refine forall₂_congr fun c _ => ⟨fun hfix => ?_, uncompressed_of_plain⟩
  rw [← hfix]
  exact ⟨rfl, rfl⟩

section

variable {bucket : BucketId} {key : ObjectKey} {m : ObjectMetadata} {env : ServiceEnv} {r : Replica}

/-! ### Appends -/

lemma replicatedRow_same {data : Bytes} {hash : HashOutput} (halias : env.remapAlias = none)
    (hrow : PutRow m data hash) (h : ∀ c ∈ m.chunks, Plain c) :
    SameRow m (replicatedRow env bucket key data hash m.chunks m.hlc) where
  size := hrow.size.symm
  blake3Hash := by rw [replicatedRow_blake3Hash, hrow.blake3Hash]
  hlc := rfl
  inlineData := by rw [replicatedRow_inlineData, hrow.inlineData]
  chunks := by
    have hchunk : (fun c : ChunkRef => persistedChunk env c.segmentId c.offset c.length) =
        uncompressed := by
      funext c
      simp only [persistedChunk, halias, uncompressed]
    rw [replicatedRow_chunks, hchunk, map_uncompressed_iff.mpr h]

lemma append_same {data : Bytes} {hash : HashOutput} (hbucket : bucket ≠ "") (henv : Working env)
    (halias : env.remapAlias = none) (hrow : PutRow m data hash) (h : Transferable m) :
    ∃ m', ((appendSegment env [replicateRequest bucket key data hash m.chunks m.hlc] r).1.store.keys
      bucket key).row = some m' ∧ SameRow m m' := by
  have hdata : data ≠ [] := by
    by_cases hchunks : m.chunks = []
    · rintro rfl
      have hinline := hrow.inlineData
      rw [if_pos hchunks] at hinline
      exact h.inlineData hinline
    · exact hrow.chunks hchunks
  have haccepts : AcceptsReplicate env bucket data m.hlc :=
    ⟨hdata, h.hlc, hbucket, henv.store, henv.fault⟩
  rw [append_replicateRequest_keys, if_pos haccepts]
  exact ⟨_, rfl, replicatedRow_same halias hrow h.chunks⟩

/-! ### Pushes -/

/-- The row that a push leaves on the peer. -/
def pushedRow (key : ObjectKey) (m : ObjectMetadata) (nowMs : ℤ) : ObjectMetadata :=
  { m with
    objectKey := key
    chunks := m.chunks.map uncompressed
    inlineData := if m.inlineData = some [] then none else m.inlineData
    createdAt := nowMs }

lemma zip_chunks (chunks : List ChunkRef) :
    ((chunks.map (·.segmentId)).zip ((chunks.map (·.offset)).zip (chunks.map (·.length)))).map
      (fun c : SegmentId × ℕ × ℕ =>
        ({ segmentId := c.1, offset := c.2.1, length := c.2.2, compressed := false,
           logicalLength := c.2.2 } : ChunkRef)) = chunks.map uncompressed := by
  induction chunks with
  | nil => rfl
  | cons c cs ih => simpa [uncompressed] using ih

lemma row_buildPutMetadataRequest (nowMs : ℤ) :
    (buildPutMetadataRequest bucket key m).row key m.hlc nowMs = pushedRow key m nowMs := by
  obtain ⟨objectKey, size, hash, chunks, inlineData, createdAt, hlc⟩ := m
  have hhash : toHashOutput (hash.unattach.getD []) = hash := toHashOutput_getD hash
  cases inlineData <;>
    simp [PushRequest.row, buildPutMetadataRequest, zip_chunks, pushedRow, hhash]

lemma push_row (henv : Working env) (hhlc : m.hlc ≠ Hlc.zero)
    (htomb : (r.store.keys bucket key).tombstone.any (m.hlc ≤ ·.hlc) = false)
    (hrow : (r.store.keys bucket key).row.any (m.hlc < ·.hlc) = false) :
    ((putObjectMetadata env (buildPutMetadataRequest bucket key m) r).1.store.keys bucket key).row =
      some (pushedRow key m env.nowMs) := by
  have hstamp : (buildPutMetadataRequest bucket key m).timestamp = .ok m.hlc := by
    simp [PushRequest.timestamp, buildPutMetadataRequest, hhlc]
  have hput : (r.store.putObjectInBucket bucket (pushedRow key m env.nowMs) env.nowMs
      env.fault).1.keys bucket key =
        (r.store.keys bucket key).put (pushedRow key m env.nowMs) env.nowMs :=
    (Store.putObjectInBucket_keys ..).trans (if_pos henv.fault)
  have hok := (Store.putObjectInBucket_ok_iff r.store bucket (pushedRow key m env.nowMs) env.nowMs
    env.fault).mpr henv.fault
  simp only [putObjectMetadata, henv.store, Bool.not_true, Bool.false_eq_true, if_false, hstamp]
  rw [show (buildPutMetadataRequest bucket key m).bucketId = bucket from rfl,
    show (buildPutMetadataRequest bucket key m).objectKey = key from rfl]
  simp only [htomb, hrow, Bool.false_eq_true, if_false, row_buildPutMetadataRequest, hok, hput,
    KeyState.put_row]

lemma pushedRow_same_iff (nowMs : ℤ) :
    SameRow m (pushedRow key m nowMs) ↔
      m.inlineData ≠ some [] ∧ ∀ c ∈ m.chunks, Plain c := by
  constructor
  · rintro ⟨-, -, -, hinline, hchunks⟩
    refine ⟨fun hempty => ?_, map_uncompressed_iff.mp hchunks⟩
    simp only [pushedRow, if_pos hempty] at hinline
    rw [hempty] at hinline
    cases hinline
  · rintro ⟨hinline, hchunks⟩
    exact ⟨rfl, rfl, rfl, if_neg hinline, map_uncompressed_iff.mpr hchunks⟩

lemma push_zero_hlc (hhlc : m.hlc = Hlc.zero) :
    (putObjectMetadata env (buildPutMetadataRequest bucket key m) r).1 = r := by
  have hstamp : (buildPutMetadataRequest bucket key m).timestamp =
      .error (.invalidArgument "put_object_metadata rejects an all-zero HLC") := by
    simp [PushRequest.timestamp, buildPutMetadataRequest, hhlc]
  unfold putObjectMetadata
  split_ifs
  · rfl
  · rw [hstamp]

/-! ### Answers to metadata requests -/

lemma wireRow_same (h : Transferable m) (createdAt : ℤ) : SameRow m (wireRow m key createdAt) where
  size := rfl
  blake3Hash := rfl
  hlc := rfl
  inlineData := if_neg h.inlineData
  chunks := by
    have hchunk : ∀ c ∈ m.chunks,
        { c with logicalLength := if c.compressed then c.logicalLength else c.length } = c := by
      intro c hc
      obtain ⟨hcompressed, hlength⟩ := h.chunks c hc
      obtain ⟨segmentId, offset, length, compressed, logicalLength⟩ := c
      simp_all
    exact (List.map_congr_left hchunk).trans (List.map_id _)

/-- **A row arrives unchanged on every path exactly if** its timestamp is not zero, its inline data
is not empty and its chunks are not compressed. -/
theorem transfer_faithful_iff (hbucket : bucket ≠ "") :
    Faithful bucket key m ↔ Transferable m := by
  constructor
  · intro h
    -- a push to a peer that has nothing of the key shows all three
    let env : ServiceEnv := ⟨true, none, ⟨false, 0, none, 0⟩, 0, 0, .none⟩
    have henv : Working env := ⟨rfl, rfl⟩
    obtain ⟨m', hm', hsame⟩ := h.push env ⟨.empty, Hlc.zero, none⟩ henv rfl rfl
    have hhlc : m.hlc ≠ Hlc.zero := by
      intro hzero
      rw [push_zero_hlc hzero] at hm'
      cases hm'
    rw [push_row henv hhlc rfl rfl, Option.some.injEq] at hm'
    subst hm'
    obtain ⟨hinline, hchunks⟩ := (pushedRow_same_iff _).mp hsame
    exact ⟨hhlc, hinline, hchunks⟩
  · intro h
    refine ⟨fun env r data hash henv halias hrow => append_same hbucket henv halias hrow h,
      fun env r henv htomb hrow => ?_, fun s createdAt hs => ?_,
      fun env renv localMeta w winner hall hwin => ?_⟩
    · exact ⟨_, push_row henv h.hlc htomb hrow, (pushedRow_same_iff _).mpr ⟨h.inlineData, h.chunks⟩⟩
    · rw [objectMetadataFromResponse_eq hs]
      exact wireRow_same h createdAt
    · obtain ⟨t, ht, row, hrow, rfl⟩ :=
        (compareWithQuorum_frame localMeta w).2.2 winner hwin
      rw [hall t ht row hrow]
      exact wireRow_same h _

/-- A row of five bytes in one chunk. -/
def plainRow : ObjectMetadata :=
  ⟨"cat", 5, some (prefixHash []), [⟨7, 0, 5, false, 5⟩], none, 0, ⟨3, 1⟩⟩

theorem plain_row_faithful :
    PutRow plainRow [1, 1, 1, 1, 1] (prefixHash []) ∧ Faithful "photos" "cat" plainRow :=
  ⟨⟨rfl, rfl, rfl, fun _ => by decide⟩,
    (transfer_faithful_iff (by decide)).mpr ⟨by decide, by decide, by decide⟩⟩

/-- A peer with an empty store. -/
def emptyPeer : Replica := ⟨.empty, Hlc.zero, none⟩

def service : ServiceEnv := ⟨true, none, ⟨false, 0, none, 0⟩, 0, 0, .none⟩

/-- A compressed chunk arrives as one that is not, by an append and by a push. An empty object is
not stored by an append. -/
theorem compression_lost :
    let m := { plainRow with size := 9, chunks := [⟨7, 0, 5, true, 9⟩] }
    let data : Bytes := [1, 1, 1, 1, 1, 1, 1, 1, 1]
    let empty := { plainRow with size := 0, chunks := [], inlineData := some [] }
    (PutRow m data (prefixHash []) ∧
      ((appendSegment service [replicateRequest "photos" "cat" data (prefixHash []) m.chunks m.hlc]
        emptyPeer).1.store.keys "photos" "cat").row.map (·.chunks) =
          some [⟨7, 0, 5, false, 5⟩]) ∧
    ((putObjectMetadata service (buildPutMetadataRequest "photos" "cat" m) emptyPeer).1.store.keys
      "photos" "cat").row.map (·.chunks) = some [⟨7, 0, 5, false, 5⟩] ∧
    (PutRow empty [] (prefixHash []) ∧
      ((appendSegment service [replicateRequest "photos" "cat" [] (prefixHash []) [] empty.hlc]
        emptyPeer).1.store.keys "photos" "cat").row = none) := by
  refine ⟨⟨⟨rfl, rfl, rfl, fun _ => by decide⟩, by decide +kernel⟩, by decide +kernel,
    ⟨rfl, rfl, rfl, fun h => absurd rfl h⟩, by decide +kernel⟩

end

end OceanFs.Replication.Transfer
