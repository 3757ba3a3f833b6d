import OceanFs.Cache.Entries
import OceanFs.Lib.Gather
import OceanFs.Write.World

/-!
Fetching the chunks of an object and putting them together.

A chunk comes from the local segment, or else from wherever the replicas and the erasure code
can find it, and is decompressed when its reference says so. The chunks are fetched one after
the other, or all at once with the fastest-k rule; the assembled bytes are checked against the
stored hash.
-/

namespace OceanFs.Read

open OceanFs.Core Metadata Cache Lib Write Option

/-- Texts that the code formats from a lower error keep their fixed part; a panic ends the
request as an error. -/
inductive ReadError
  | serviceUnavailable (reason : String)
  | notFound (bucket : BucketId) (key : ObjectKey)
  | internal (reason : String)
  | storage (reason : String)
  | routing (reason : String)
  | segmentUnavailable (segmentId : SegmentId)
  | hashMismatch (expected actual : HashOutput)
  | panicked
  deriving DecidableEq

inductive FetchStrategy
  | localFirst
  | fastestK
  | bandwidthOptimized
  | cpuOptimized
  deriving DecidableEq

namespace FetchStrategy

def parallelFetch (s : FetchStrategy) : Bool := s = .fastestK

def useFastestK (s : FetchStrategy) : Bool := s = .fastestK

end FetchStrategy

/-- A decompression backend. It writes into a buffer of the length it is told to expect. -/
structure Decompressor where
  decompressExact : Bytes → ℕ → Option Bytes
  bounded : ∀ data n out, decompressExact data n = some out → out.length ≤ n

/-- What a read meets: the node's wiring and configuration, the bucket's fetch strategy, and the
answers of the other nodes. -/
structure ReadEnv where
  /-- The connection pool and the membership view are there. -/
  networked : Bool
  defaultFetchStrategy : FetchStrategy
  fetchStrategy : Option FetchStrategy
  hasDecoder : Bool
  ecDataShards : UInt8
  decompressor : Option Decompressor
  /-- What the segment's replicas, or erasure decoding, give for a chunk. -/
  elsewhere : ChunkRef → Option Bytes
  hasCandidates : SegmentId → Bool
  /-- The order in which so many concurrent fetches end. -/
  completion : ℕ → List ℕ
  completes : ∀ n, (completion n).Perm (List.range n)
  /-- The peers whose metadata arrives for the comparison, and for a repair, in that order. -/
  arrivals : List NodeId
  repairArrivals : List NodeId
  repairFault : WriteFault
  physical : ℕ
  nowMs : ℤ
  /-- The caches of the node: their configuration, clock and choice of victims. -/
  l1 : EntryCacheConfig
  l2 : EntryCacheConfig
  cacheNow : ℕ
  evict : BucketId → ObjectKey → Bool

namespace ReadEnv

/-- `effective_fetch_strategy`. -/
def strategy (renv : ReadEnv) : FetchStrategy := renv.fetchStrategy.getD renv.defaultFetchStrategy

/-- The number of data shards, when erasure recovery is configured. -/
def ecParams (renv : ReadEnv) : Option ℕ :=
  if renv.hasDecoder ∧ 0 < renv.ecDataShards.toNat then some renv.ecDataShards.toNat else none

lemma ecParams_pos {renv : ReadEnv} {k : ℕ} (h : renv.ecParams = some k) : 0 < k := by
  unfold ecParams at h
  split at h
  · rename_i hp
    rw [← some.inj h]
    exact hp.2
  · simp at h

end ReadEnv

/-! ### One chunk -/

/-- The segment reader: the bytes at a place of a segment, when they are all there. -/
def readChunk (w : World) (seg : SegmentId) (offset length : ℕ) : Option Bytes :=
  if offset + length ≤ (w.segments seg).length then
    some (((w.segments seg).drop offset).take length)
  else none

section

variable (renv : ReadEnv)

def fetchSingleChunkRaw (w : World) (c : ChunkRef) : Except ReadError Bytes :=
  match readChunk w c.segmentId c.offset c.length with
  | some data => .ok data
  | none =>
    match renv.elsewhere c with
    | some data => .ok data
    | none =>
      if renv.hasCandidates c.segmentId then .error (.segmentUnavailable c.segmentId)
      else .error (.routing "no replicas for segment and no local reader")

def maybeDecompress (c : ChunkRef) (data : Bytes) : Except ReadError Bytes :=
  if !c.compressed then .ok data
  else
    match renv.decompressor with
    | none => .error (.storage "compressed chunk read without a decompression backend")
    | some d =>
      match d.decompressExact data c.logicalLength with
      | none => .error (.storage "decompress failed")
      | some out => .ok out

def fetchSingleChunk (w : World) (c : ChunkRef) : Except ReadError Bytes :=
  match fetchSingleChunkRaw renv w c with
  | .error e => .error e
  | .ok data => maybeDecompress renv c data

/-! ### All chunks -/

/-- How many results the parallel fetch waits for. -/
def requiredFetches (useFastestK : Bool) (chunkCount : ℕ) : ℕ :=
  if useFastestK then renv.ecParams.getD chunkCount else chunkCount

def fetchAllChunksParallel (useFastestK : Bool) (chunks : List ChunkRef)
    (w : World) : Except ReadError (List Bytes) :=
  Gather.asTheyCome (requiredFetches renv useFastestK chunks.length) (fetchSingleChunk renv w)
    (.internal "all chunk fetches failed") chunks (renv.completion chunks.length)

def fetchAllChunksSerial (chunks : List ChunkRef) (w : World) :
    Except ReadError (List Bytes) :=
  Gather.inOrder (fetchSingleChunk renv w) chunks

def fetchChunksInner (parallelFetch useFastestK : Bool) (m : ObjectMetadata)
    (w : World) : Except ReadError (List Bytes) :=
  match m.inlineData with
  | some data => .ok [data]
  | none =>
    if m.chunks = [] then .ok []
    else if parallelFetch then fetchAllChunksParallel renv useFastestK m.chunks w
    else fetchAllChunksSerial renv m.chunks w

/-- The strategy's fetch; a node with neither peers nor erasure recovery fetches in parallel. -/
def fetchChunks (m : ObjectMetadata) (w : World) : Except ReadError (List Bytes) :=
  if renv.networked || renv.ecParams.isSome then
    fetchChunksInner renv renv.strategy.parallelFetch renv.strategy.useFastestK m w
  else fetchChunksInner renv true true m w

end

/-! ### The assembler -/

/-- `MultiChunkAssembler`; without an expected hash nothing is compared. -/
structure Assembler where
  expectedHash : Option HashOutput
  buffer : Bytes
  chunkCount : ℕ
  received : ℕ

namespace Assembler

def pushChunk (a : Assembler) (index : ℕ) (data : Bytes) : Except ReadError Assembler :=
  if index ≠ a.received then .error (.internal "chunk out of order")
  else .ok { a with buffer := a.buffer ++ data, received := a.received + 1 }

/-- The loop over the fetched chunks, from an index on. -/
def pushChunks (a : Assembler) (index : ℕ) : List Bytes → Except ReadError Assembler
  | [] => .ok a
  | data :: rest =>
    match a.pushChunk index data with
    | .error e => .error e
    | .ok a => a.pushChunks (index + 1) rest

def finalize (blake3 : Bytes → HashOutput) (a : Assembler) : Except ReadError Bytes :=
  if a.received ≠ a.chunkCount then .error (.internal "incomplete assembly")
  else
    match a.expectedHash with
    | none => .ok a.buffer
    | some expected =>
      if blake3 a.buffer ≠ expected then .error (.hashMismatch expected (blake3 a.buffer))
      else .ok a.buffer

lemma pushChunks_ok (a : Assembler) (chunks : List Bytes) :
    a.pushChunks a.received chunks = .ok
      { a with buffer := a.buffer ++ chunks.flatten, received := a.received + chunks.length } := by
  induction chunks generalizing a with
  | nil => simp [pushChunks]
  | cons data rest ih =>
    have hrest := ih { a with buffer := a.buffer ++ data, received := a.received + 1 }
    simp only [pushChunks, pushChunk, ne_eq, not_true_eq_false, if_false, hrest]
    simp [Nat.add_assoc, Nat.add_comm 1]

end Assembler

variable (blake3 : Bytes → HashOutput)

/-- `assemble_chunks`, for the chunks that the fetch found. -/
def assemble (m : ObjectMetadata) (fetched : Except ReadError (List Bytes)) :
    Except ReadError Bytes :=
  if m.chunks = [] then .ok []
  else
    match fetched with
    | .error e => .error e
    | .ok chunkData =>
      match Assembler.pushChunks ⟨m.blake3Hash, [], m.chunks.length, 0⟩ 0 chunkData with
      | .error e => .error e
      | .ok assembler => assembler.finalize blake3

lemma assemble_error {m : ObjectMetadata} (hc : m.chunks ≠ []) (e : ReadError) :
    assemble blake3 m (.error e) = .error e :=
  if_neg hc

lemma assemble_ok {m : ObjectMetadata} (hc : m.chunks ≠ []) (chunks : List Bytes) :
    assemble blake3 m (.ok chunks) =
      Assembler.finalize blake3 ⟨m.blake3Hash, chunks.flatten, m.chunks.length, chunks.length⟩ := by
  have hpush := Assembler.pushChunks_ok ⟨m.blake3Hash, [], m.chunks.length, 0⟩ chunks
  dsimp only at hpush
  simp only [assemble, if_neg hc, hpush, List.nil_append, Nat.zero_add]

def assembleChunks (env : Env) (renv : ReadEnv) (m : ObjectMetadata) (w : World) :
    Except ReadError Bytes :=
  assemble env.hash m (fetchChunks renv m w)

/-! ### When a fetch succeeds -/

/-- The fastest-k rule does not cut off the fetch of so many chunks. -/
def WaitsFor (renv : ReadEnv) (chunkCount : ℕ) : Prop :=
  renv.strategy = .fastestK → ∀ k ∈ renv.ecParams, chunkCount ≤ k

instance (renv : ReadEnv) (n : ℕ) : Decidable (WaitsFor renv n) :=
  inferInstanceAs (Decidable (_ → _))

variable {env : Env} {renv : ReadEnv} {m : ObjectMetadata} {w : World}

lemma fetchAllChunksParallel_eq_ok_iff {useFastestK : Bool} {chunks : List ChunkRef}
    {ds : List Bytes} (hc : chunks ≠ []) :
    fetchAllChunksParallel renv useFastestK chunks w = .ok ds ↔
      (useFastestK = true → ∀ k ∈ renv.ecParams, chunks.length ≤ k) ∧
        List.Forall₂ (fun c d => fetchSingleChunk renv w c = .ok d) chunks ds := by
  have hlen : 0 < chunks.length := List.length_pos_iff.mpr hc
  have hreq : 0 < requiredFetches renv useFastestK chunks.length := by
    unfold requiredFetches
    split
    · cases hec : renv.ecParams with
      | none => exact hlen
      | some k => exact ReadEnv.ecParams_pos hec
    · exact hlen
  rw [fetchAllChunksParallel, Gather.asTheyCome_eq_ok_iff hreq (renv.completes _)]
  refine and_congr_left fun _ => ?_
  unfold requiredFetches
  cases useFastestK <;> cases renv.ecParams <;> simp

lemma fetchChunksInner_eq_ok_iff {parallelFetch useFastestK : Bool} {ds : List Bytes}
    (hi : m.inlineData = none) :
    fetchChunksInner renv parallelFetch useFastestK m w = .ok ds ↔
      (parallelFetch = true → useFastestK = true → ∀ k ∈ renv.ecParams, m.chunks.length ≤ k) ∧
        List.Forall₂ (fun c d => fetchSingleChunk renv w c = .ok d) m.chunks ds := by
  unfold fetchChunksInner
  simp only [hi]
  by_cases hc : m.chunks = []
  · simp [hc, eq_comm]
  · rw [if_neg hc]
    cases parallelFetch with
    | true => rw [if_pos rfl, fetchAllChunksParallel_eq_ok_iff hc]; simp
    | false => rw [if_neg (by simp), fetchAllChunksSerial, Gather.inOrder_eq_ok_iff]; simp

lemma fetchChunks_eq_ok_iff {ds : List Bytes} (hi : m.inlineData = none) :
    fetchChunks renv m w = .ok ds ↔ WaitsFor renv m.chunks.length ∧
      List.Forall₂ (fun c d => fetchSingleChunk renv w c = .ok d) m.chunks ds := by
  unfold fetchChunks
  by_cases hwired : (renv.networked || renv.ecParams.isSome) = true
  · rw [if_pos hwired, fetchChunksInner_eq_ok_iff hi]
    by_cases hk : renv.strategy = .fastestK <;>
      simp [WaitsFor, FetchStrategy.parallelFetch, FetchStrategy.useFastestK, hk]
  · rw [if_neg hwired, fetchChunksInner_eq_ok_iff hi]
    have hec : renv.ecParams = none := by
      simp only [Bool.or_eq_true, not_or, isSome_iff_ne_none, not_not] at hwired
      exact hwired.2
    simp [WaitsFor, hec]

theorem assembleChunks_eq_ok_iff {body : Bytes} (hi : m.inlineData = none) (hc : m.chunks ≠ []) :
    assembleChunks env renv m w = .ok body ↔ WaitsFor renv m.chunks.length ∧
      (∃ ds, List.Forall₂ (fun c d => fetchSingleChunk renv w c = .ok d) m.chunks ds ∧
        ds.flatten = body) ∧ ∀ h ∈ m.blake3Hash, env.hash body = h := by
  unfold assembleChunks
  rcases hf : fetchChunks renv m w with e | ds
  · simp only [assemble_error _ hc, reduceCtorEq, false_iff]
    rintro ⟨hw, ⟨ds, hds, -⟩, -⟩
    rw [(fetchChunks_eq_ok_iff hi).mpr ⟨hw, hds⟩] at hf
    exact absurd hf (by simp)
  · obtain ⟨hw, hds⟩ := (fetchChunks_eq_ok_iff hi).mp hf
    -- the fetch is a function, so these are the only chunks there are
    have huniq : ∀ ds', List.Forall₂ (fun c d => fetchSingleChunk renv w c = .ok d) m.chunks ds' →
        ds' = ds := fun ds' h' =>
      Except.ok.inj (((fetchChunks_eq_ok_iff hi).mpr ⟨hw, h'⟩).symm.trans hf)
    have hex : (∃ ds', List.Forall₂ (fun c d => fetchSingleChunk renv w c = .ok d) m.chunks ds' ∧
        ds'.flatten = body) ↔ ds.flatten = body :=
      ⟨fun ⟨ds', h', hb⟩ => huniq ds' h' ▸ hb, fun hb => ⟨ds, hds, hb⟩⟩
    have hlen : ds.length = m.chunks.length := hds.length_eq.symm
    rw [hex, assemble_ok _ hc]
    simp only [Assembler.finalize, hlen, ne_eq, not_true, ↓reduceIte, hw, true_and]
    cases hh : m.blake3Hash with
    | none => simp
    | some h =>
      by_cases hb : env.hash ds.flatten = h
      · simp only [hb, not_true, ↓reduceIte, Except.ok.injEq, mem_some_iff, forall_eq']
        exact ⟨fun h1 => ⟨h1, h1 ▸ hb⟩, fun h1 => h1.1⟩
      · simp only [hb, not_false_eq_true, ↓reduceIte, reduceCtorEq, mem_some_iff, forall_eq',
          false_iff]
        rintro ⟨rfl, h1⟩
        exact hb h1

lemma assembleChunks_ne_unavailable (hi : m.inlineData = none)
    (h : ∀ c ∈ m.chunks, ∀ seg, fetchSingleChunk renv w c ≠ .error (.segmentUnavailable seg))
    (seg : SegmentId) : assembleChunks env renv m w ≠ .error (.segmentUnavailable seg) := by
  have hserial : fetchAllChunksSerial renv m.chunks w ≠ .error (.segmentUnavailable seg) := by
    intro he
    obtain ⟨c, hc, hce⟩ := Gather.inOrder_error he
    exact h c hc seg hce
  have hpar : ∀ fast, fetchAllChunksParallel renv fast m.chunks w ≠
      .error (.segmentUnavailable seg) := by
    intro fast he
    rcases Gather.asTheyCome_error he with hm | ⟨c, hc, hce⟩
    · exact absurd hm (by simp)
    · exact h c hc seg hce
  have hfetch : fetchChunks renv m w ≠ .error (.segmentUnavailable seg) := by
    have hinner : ∀ par fast, fetchChunksInner renv par fast m w ≠
        .error (.segmentUnavailable seg) := by
      intro par fast
      unfold fetchChunksInner
      simp only [hi]
      split_ifs
      · simp
      · exact hpar fast
      · exact hserial
    unfold fetchChunks
    split <;> exact hinner _ _
  by_cases hc : m.chunks = []
  · simp [assembleChunks, assemble, hc]
  · unfold assembleChunks
    rcases hf : fetchChunks renv m w with e | ds
    · rw [assemble_error _ hc]
      intro he
      rw [hf, Except.error.inj he] at hfetch
      exact hfetch rfl
    · rw [assemble_ok _ hc, Assembler.finalize]
      split_ifs
      · simp
      · split
        · simp
        · split <;> simp

end OceanFs.Read
