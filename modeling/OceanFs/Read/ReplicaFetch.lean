import OceanFs.Ec.Recovery
import OceanFs.Lib.Lists
import OceanFs.Lib.Slices
import OceanFs.Read.Fetch

/-!
What a chunk fetch gets from the strategies and from the replicas.

The strategies differ in how they wait for the chunks. A chunk that the node does not hold is
asked from the segment's replicas in order: a replica streams what it holds of the chunk in
blocks, closed by an empty message, and the reader joins what arrives. It takes a stream that
breaks for one that ends, and the first answer with any bytes in it for the chunk.
-/

namespace OceanFs.Read

open OceanFs.Core Metadata Cache Lib Write Ec List Option

/-! ### Strategies -/

section

variable {renv : ReadEnv} {m : ObjectMetadata} {w : World}

lemma exists_fetched (h : ¬∃ c ∈ m.chunks, ∃ e, fetchSingleChunk renv w c = .error e) :
    ∃ ds, List.Forall₂ (fun c d => fetchSingleChunk renv w c = .ok d) m.chunks ds := by
  cases hserial : fetchAllChunksSerial renv m.chunks w with
  | ok ds => exact ⟨ds, Gather.inOrder_eq_ok_iff.mp hserial⟩
  | error e =>
    obtain ⟨c, hc, he⟩ := Gather.inOrder_error hserial
    exact absurd ⟨c, hc, e, he⟩ h

/-- **Every strategy** fetches the whole object, and reports a chunk that cannot be had, exactly
when the fastest-k rule waits for as many chunks as there are. A chunk that fails hides the
difference: the fetch fails as it should. -/
theorem fetch_whole_iff (parallelFetch useFastestK : Bool) (hi : m.inlineData = none) :
    (∀ ds, List.Forall₂ (fun c d => fetchSingleChunk renv w c = .ok d) m.chunks ds →
        fetchChunksInner renv parallelFetch useFastestK m w = .ok ds) ∧
      ((∃ c ∈ m.chunks, ∃ e, fetchSingleChunk renv w c = .error e) →
        ∃ e, fetchChunksInner renv parallelFetch useFastestK m w = .error e) ↔
    (parallelFetch = true → useFastestK = true → ∀ k ∈ renv.ecParams, m.chunks.length ≤ k) ∨
      ∃ c ∈ m.chunks, ∃ e, fetchSingleChunk renv w c = .error e := by
  constructor
  · rintro ⟨hall, -⟩
    by_cases hbad : ∃ c ∈ m.chunks, ∃ e, fetchSingleChunk renv w c = .error e
    · exact .inr hbad
    · obtain ⟨ds, hds⟩ := exists_fetched hbad
      exact .inl ((fetchChunksInner_eq_ok_iff hi).mp (hall ds hds)).1
  · intro h
    refine ⟨fun ds hds => ?_, fun hbad => ?_⟩
    · rcases h with hwaits | ⟨c, hc, e, he⟩
      · exact (fetchChunksInner_eq_ok_iff hi).mpr ⟨hwaits, hds⟩
      · obtain ⟨d, -, hd⟩ := Lists.forall₂_mem_left hds hc
        simp [hd] at he
    · obtain ⟨c, hc, e, he⟩ := hbad
      cases hf : fetchChunksInner renv parallelFetch useFastestK m w with
      | error e' => exact ⟨e', rfl⟩
      | ok ds =>
        obtain ⟨d, -, hd⟩ := Lists.forall₂_mem_left ((fetchChunksInner_eq_ok_iff hi).mp hf).2 hc
        simp [hd] at he

end

/-- A reader whose node holds nothing and gets each chunk from elsewhere; one data shard is
configured, and the fetches end in reverse order. -/
def remoteReader : ReadEnv where
  networked := true
  defaultFetchStrategy := .fastestK
  fetchStrategy := none
  hasDecoder := true
  ecDataShards := 1
  decompressor := none
  elsewhere := fun c => some [UInt8.ofNat c.offset]
  hasCandidates := fun _ => true
  completion := fun n => (List.range n).reverse
  completes := fun n => (List.range n).reverse_perm
  arrivals := []
  repairArrivals := []
  repairFault := .none
  physical := 1
  nowMs := 0
  l1 := ⟨true, 0, some 16⟩
  l2 := ⟨true, 0, none⟩
  cacheNow := 0
  evict := fun _ _ => false

/-- An object of so many chunks of one byte. -/
def remoteObject (count : ℕ) : ObjectMetadata :=
  ⟨"cat", count, none, (List.range count).map fun i => ⟨1, i, 1, false, 1⟩, none, 0, ⟨1, 1⟩⟩

/-- A single chunk under the fastest-k rule. -/
theorem single_chunk_fetched :
    fetchChunksInner remoteReader true true (remoteObject 1) .blank = .ok [[0]] :=
  ((@fetch_whole_iff remoteReader (remoteObject 1) .blank true true rfl).mpr
    (.inl (by decide))).1 [[0]] (.cons rfl .nil)

/-- Two chunks, both of which can be fetched: the fetch stops after the one that one data shard
asks for. -/
theorem second_chunk_not_awaited :
    List.Forall₂ (fun c d => fetchSingleChunk remoteReader .blank c = .ok d)
        (remoteObject 2).chunks [[0], [1]] ∧
      fetchChunksInner remoteReader true true (remoteObject 2) .blank =
        .error (.internal "all chunk fetches failed") :=
  ⟨.cons rfl (.cons rfl .nil), by decide⟩

/-! ### One replica -/

/-- The client's loop over the messages of a stream. An empty message is the end; a stream that
breaks has no message either, and ends there. -/
def collectMessages : List Bytes → Bytes
  | [] => []
  | message :: rest => if message = [] then [] else message ++ collectMessages rest

/-- `stream_shard_bytes`: blocks of 64 KiB and the empty message. -/
def streamShardBytes (shardBytes : Bytes) : List Bytes := Slices.blocks 65536 shardBytes ++ [[]]

/-- A replica of the segment as the reader meets it. -/
inductive Candidate
  /-- It has no known address, or no channel to it can be had. -/
  | unreachable
  | timedOut
  /-- It answers from what it holds, and so many messages arrive before its stream ends or
  breaks. -/
  | answering (host : ShardHost) (arrived : ℕ)

namespace Candidate

/-- The request for a chunk: one range, at the chunk's place in the segment. -/
def request (c : ChunkRef) : FetchShardRequest := ⟨0, 0, 0, [⟨0, c.offset, c.length⟩]⟩

/-- What the reader has joined when the replica's stream is over. -/
def answer (c : ChunkRef) : Candidate → Option Bytes
  | .unreachable => none
  | .timedOut => none
  | .answering host arrived =>
    match fetchShard host (request c) with
    | .error _ => none
    | .ok shardBytes => some (collectMessages ((streamShardBytes shardBytes).take arrived))

/-- An answer without bytes counts as none. -/
def served (c : ChunkRef) (r : Candidate) : Option Bytes := (r.answer c).filter (· ≠ [])

/-- The replica holds the segment, or the front of it, or nothing. -/
def Holds (segment : Bytes) : Candidate → Prop
  | .answering host _ => ∀ data ∈ host.data, data <+: segment
  | _ => True

end Candidate

section

variable {c : ChunkRef} {segment : Bytes}

namespace Candidate

end Candidate

end

/-! ### All replicas -/

section

variable {renv : ReadEnv} {w : World} {c : ChunkRef} {segment : Bytes}
  {replicas : ChunkRef → List Candidate} {recovered : ChunkRef → Option Bytes}

variable {rs : List Candidate}

end

/-- A replica that holds this much of a segment, with the messages that arrive. -/
def holder (data : Bytes) (arrived : ℕ) : Candidate := .answering ⟨some (1, 1), some data⟩ arrived

end OceanFs.Read
