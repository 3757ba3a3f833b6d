import OceanFs.Read.Fetch

/-!
The read coordinator.

`get` starts from the local row, compares its timestamp with the rows of the other replicas and
goes on with the winner, which it rebuilds from the answer over the wire. Equal timestamps are
broken by the node ids. A row whose segment no node holds is repaired once from the other
replicas.
-/

namespace OceanFs.Read

open OceanFs.Core Metadata Grpc Write List Option

/-! ### Rows over the wire -/

structure GetObjectMetadataResponse where
  found : Bool
  size : ℕ
  blake3Hash : Bytes
  hlc : Option Hlc
  inlineData : Bytes
  chunkSegmentIds : List SegmentId
  chunkOffsets : List ℕ
  chunkLengths : List ℕ
  chunkLogicalLengths : List ℕ
  chunkCompressed : List Bool

/-- The `GetObjectMetadata` call of the segment service. -/
def getObjectMetadata (s : KeyState) : GetObjectMetadataResponse :=
  match s.row with
  | none => ⟨false, 0, [], none, [], [], [], [], [], []⟩
  | some m =>
    { found := true
      size := m.size
      blake3Hash := (m.blake3Hash.map (·.1)).getD []
      hlc := some m.hlc
      inlineData := m.inlineData.getD []
      chunkSegmentIds := m.chunks.map (·.segmentId)
      chunkOffsets := m.chunks.map (·.offset)
      chunkLengths := m.chunks.map (·.length)
      chunkLogicalLengths :=
        m.chunks.map fun c => if c.compressed then c.logicalLength else c.length
      chunkCompressed := m.chunks.map (·.compressed) }

/-- The row rebuilt from an answer; the creation time is the caller's. -/
def objectMetadataFromResponse (resp : GetObjectMetadataResponse) (key : ObjectKey)
    (createdAt : ℤ) : ObjectMetadata where
  objectKey := key
  size := resp.size
  blake3Hash := toHashOutput resp.blake3Hash
  chunks :=
    let count := min (min resp.chunkSegmentIds.length resp.chunkOffsets.length)
      resp.chunkLengths.length
    (List.range count).map fun i =>
      { segmentId := resp.chunkSegmentIds.getD i 0
        offset := resp.chunkOffsets.getD i 0
        length := resp.chunkLengths.getD i 0
        compressed := resp.chunkCompressed.getD i false
        logicalLength := resp.chunkLogicalLengths.getD i (resp.chunkLengths.getD i 0) }
  inlineData := if resp.inlineData = [] then none else some resp.inlineData
  createdAt := createdAt
  hlc := resp.hlc.getD Hlc.zero

/-- What the wire does to a row. -/
def wireRow (m : ObjectMetadata) (key : ObjectKey) (createdAt : ℤ) : ObjectMetadata :=
  { m with
    objectKey := key
    chunks := m.chunks.map fun c =>
      { c with logicalLength := if c.compressed then c.logicalLength else c.length }
    inlineData := if m.inlineData = some [] then none else m.inlineData
    createdAt := createdAt }

lemma objectMetadataFromResponse_eq {s : KeyState} {m : ObjectMetadata} (h : s.row = some m)
    (key : ObjectKey) (createdAt : ℤ) :
    objectMetadataFromResponse (getObjectMetadata s) key createdAt = wireRow m key createdAt := by
  have hchunks : (List.range m.chunks.length).map (fun i : ℕ =>
      ({ segmentId := (m.chunks.map (·.segmentId)).getD i 0
         offset := (m.chunks.map (·.offset)).getD i 0
         length := (m.chunks.map (·.length)).getD i 0
         compressed := (m.chunks.map (·.compressed)).getD i false
         logicalLength := (m.chunks.map fun c =>
          if c.compressed then c.logicalLength else c.length).getD i
            ((m.chunks.map (·.length)).getD i 0) } : ChunkRef)) =
      m.chunks.map fun c =>
        { c with logicalLength := if c.compressed then c.logicalLength else c.length } := by
    refine ext_getElem (by simp) fun i hi _ => ?_
    have hlt : i < m.chunks.length := by simpa using hi
    simp [hlt]
  have hhash := toHashOutput_getD m.blake3Hash
  have hinline : (if m.inlineData.getD [] = [] then none else some (m.inlineData.getD [])) =
      if m.inlineData = some [] then none else m.inlineData := by
    cases m.inlineData <;> simp
  simp only [objectMetadataFromResponse, getObjectMetadata, h, wireRow, length_map, min_self,
    hchunks, hhash, hinline, getD_some]

/-! ### The comparison -/

/-- `LwwResolver::resolve`: whether the remote version is accepted. -/
def acceptRemote (localHlc remoteHlc : Hlc) (localNode remoteNode : NodeId) : Bool :=
  localHlc < remoteHlc || (remoteHlc = localHlc && localNode < remoteNode)

/-- The receive rule of a node's clock. -/
def receive (w : World) (n : NodeId) (hlc : Hlc) (physical : ℕ) : World :=
  w.setReplica n { w.replica n with clock := (w.replica n).clock.update hlc physical }

/-- The timestamp of an answer that has a row. -/
def remoteHlc (resp : GetObjectMetadataResponse) : Option Hlc :=
  if resp.found then resp.hlc else none

/-- The best timestamp so far with its answer, after the answer of one more node. -/
def compareAnswer (self : NodeId) (best : Hlc × Option GetObjectMetadataResponse) (t : NodeId)
    (resp : GetObjectMetadataResponse) : Hlc × Option GetObjectMetadataResponse :=
  match remoteHlc resp with
  | none => best
  | some hlc => if acceptRemote best.1 hlc self t then (hlc, some resp) else best

/-- One answer of the comparison; its timestamp advances the clock. -/
def compareStep (env : Env) (renv : ReadEnv) (b : BucketId) (k : ObjectKey)
    (p : World × Hlc × Option GetObjectMetadataResponse) (t : NodeId) :
    World × Hlc × Option GetObjectMetadataResponse :=
  let resp := getObjectMetadata (p.1.keyAt t b k)
  ((remoteHlc resp).elim p.1 fun hlc => receive p.1 env.self hlc renv.physical,
    compareAnswer env.self p.2 t resp)

/-- The other members of the replica set whose answer arrives. -/
def answering (env : Env) (k : ObjectKey) (arrivals : List NodeId) : List NodeId :=
  arrivals.filter fun t => t ∈ env.replicaSet k && t ≠ env.self

def compareWithQuorum (env : Env) (renv : ReadEnv) (b : BucketId) (k : ObjectKey)
    (localMeta : ObjectMetadata) (w : World) : World × Option ObjectMetadata :=
  if !renv.networked || (env.replicaSet k).length ≤ 1 then (w, none)
  else
    let (w, _, winning) := (answering env k renv.arrivals).foldl (compareStep env renv b k)
      (w, localMeta.hlc, none)
    (w, winning.map fun resp => objectMetadataFromResponse resp k renv.nowMs)

/-! ### Repair -/

/-- The answer brings chunks, some of them in a segment the row does not name. -/
def repoints (k : ObjectKey) (m : ObjectMetadata) (resp : GetObjectMetadataResponse) : Bool :=
  let repaired := objectMetadataFromResponse resp k m.createdAt
  resp.found && !resp.chunkSegmentIds.isEmpty && !repaired.chunks.isEmpty &&
    !repaired.chunks.all fun ch => m.chunks.any fun lc => lc.segmentId = ch.segmentId

lemma chunks_ne_nil_of_repoints {k : ObjectKey} {m : ObjectMetadata}
    {resp : GetObjectMetadataResponse} (h : repoints k m resp = true) :
    (objectMetadataFromResponse resp k m.createdAt).chunks ≠ [] := by
  simp only [repoints, Bool.and_eq_true, Bool.not_eq_true', isEmpty_eq_false_iff] at h
  exact h.1.2

/-- `repair_dangling_metadata`: the first answer that re-points the row is written locally. -/
def repairDanglingMetadata (env : Env) (renv : ReadEnv) (b : BucketId) (k : ObjectKey)
    (m : ObjectMetadata) (w : World) : World × Option ObjectMetadata :=
  if !renv.networked then (w, none)
  else
    match ((answering env k renv.repairArrivals).map fun t =>
        getObjectMetadata (w.keyAt t b k)).find? (repoints k m) with
    | none => (w, none)
    | some resp =>
      let repaired := objectMetadataFromResponse resp k m.createdAt
      match w.putRow env.self b repaired renv.nowMs renv.repairFault with
      | (w, .error _) => (w, none)
      | (w, .ok ()) => (w, some repaired)

/-! ### Get -/

/-- The bytes of a segment-stored row, with one retry after a repair. -/
def readChunks (env : Env) (renv : ReadEnv) (b : BucketId) (k : ObjectKey) (m : ObjectMetadata)
    (w : World) : World × Except ReadError (Bytes × ObjectMetadata) :=
  match assembleChunks env renv m w with
  | .ok data => (w, .ok (data, m))
  | .error (.segmentUnavailable seg) =>
    match repairDanglingMetadata env renv b k m w with
    | (w, none) => (w, .error (.segmentUnavailable seg))
    | (w, some repaired) =>
      match assembleChunks env renv repaired w with
      | .ok data => (w, .ok (data, repaired))
      | .error _ => (w, .error (.segmentUnavailable seg))
  | .error e => (w, .error e)

/-- `ReadCoordinator::get_object`, for a request with data that may ask the other replicas. -/
def get (env : Env) (renv : ReadEnv) (b : BucketId) (k : ObjectKey) (w : World) :
    World × Except ReadError (Bytes × ObjectMetadata) :=
  if !env.servesRequests then
    (w, .error (.serviceUnavailable "node unavailable — metadata pool dead"))
  else
    match (w.keyAt env.self b k).row with
    | none => (w, .error (.notFound b k))
    | some localMeta =>
      let (w, winning) := compareWithQuorum env renv b k localMeta w
      let m := winning.getD localMeta
      match m.inlineData with
      | some data => (w, .ok (data, m))
      | none =>
        if m.chunks = [] then (w, .error (.notFound b k))
        else readChunks env renv b k m w

/-! ### What the comparison picks -/

variable {env : Env} {renv : ReadEnv} {b : BucketId} {k : ObjectKey} {w : World}

@[simp] lemma receive_keyAt (n m : NodeId) (hlc : Hlc) (physical : ℕ) (b' : BucketId)
    (k' : ObjectKey) : (receive w n hlc physical).keyAt m b' k' = w.keyAt m b' k' :=
  World.setReplica_keyAt_of_store b' k' (by rfl) m

@[simp] lemma receive_segments (n : NodeId) (hlc : Hlc) (physical : ℕ) :
    (receive w n hlc physical).segments = w.segments := rfl

lemma remoteHlc_getObjectMetadata (s : KeyState) :
    remoteHlc (getObjectMetadata s) = s.row.map (·.hlc) := by
  unfold remoteHlc getObjectMetadata
  cases s.row <;> rfl

lemma compareStep_of_none {t : NodeId} (hrow : (w.keyAt t b k).row = none) (hlc : Hlc)
    (best : Option GetObjectMetadataResponse) :
    compareStep env renv b k (w, hlc, best) t = (w, hlc, best) := by
  simp [compareStep, compareAnswer, remoteHlc_getObjectMetadata, hrow]

lemma compareStep_of_some {t : NodeId} {row : ObjectMetadata}
    (hrow : (w.keyAt t b k).row = some row) (hlc : Hlc) (best : Option GetObjectMetadataResponse) :
    compareStep env renv b k (w, hlc, best) t =
      if acceptRemote hlc row.hlc env.self t then
        (receive w env.self row.hlc renv.physical, row.hlc,
          some (getObjectMetadata (w.keyAt t b k)))
      else (receive w env.self row.hlc renv.physical, hlc, best) := by
  simp only [compareStep, compareAnswer, remoteHlc_getObjectMetadata, hrow, map_some,
    elim_some]
  split_ifs <;> rfl

lemma foldl_compareStep_frame (ts : List NodeId) (w : World) (hlc : Hlc)
    (best : Option GetObjectMetadataResponse) :
    (∀ m b' k', (ts.foldl (compareStep env renv b k) (w, hlc, best)).1.keyAt m b' k' =
      w.keyAt m b' k') ∧
    (ts.foldl (compareStep env renv b k) (w, hlc, best)).1.segments = w.segments ∧
    ∀ resp, (ts.foldl (compareStep env renv b k) (w, hlc, best)).2.2 = some resp →
      best = some resp ∨ ∃ t ∈ ts, ∃ row, (w.keyAt t b k).row = some row ∧
        resp = getObjectMetadata (w.keyAt t b k) := by
  induction ts generalizing w hlc best with
  | nil => exact ⟨fun _ _ _ => rfl, rfl, fun resp h => .inl h⟩
  | cons t ts ih =>
    rw [foldl_cons]
    cases hrow : (w.keyAt t b k).row with
    | none =>
      rw [compareStep_of_none hrow]
      obtain ⟨hk, hs, hr⟩ := ih w hlc best
      refine ⟨hk, hs, fun resp h => (hr resp h).imp_right ?_⟩
      rintro ⟨t', ht', row, hrow', he⟩
      exact ⟨t', by simp [ht'], row, hrow', he⟩
    | some row =>
      rw [compareStep_of_some hrow]
      split
      · obtain ⟨hk, hs, hr⟩ := ih (receive w env.self row.hlc renv.physical) row.hlc
          (some (getObjectMetadata (w.keyAt t b k)))
        refine ⟨fun m b' k' => by simp [hk], by simp [hs], fun resp h => .inr ?_⟩
        rcases hr resp h with he | ⟨t', ht', row', hrow', he⟩
        · exact ⟨t, by simp, row, hrow, (some.inj he).symm⟩
        · exact ⟨t', by simp [ht'], row', by simpa using hrow', by simpa using he⟩
      · obtain ⟨hk, hs, hr⟩ := ih (receive w env.self row.hlc renv.physical) hlc best
        refine ⟨fun m b' k' => by simp [hk], by simp [hs], fun resp h => (hr resp h).imp_right ?_⟩
        rintro ⟨t', ht', row', hrow', he⟩
        exact ⟨t', by simp [ht'], row', by simpa using hrow', by simpa using he⟩

/-- The node holds a version with this timestamp, and wins the tie. -/
def Ties (env : Env) (b : BucketId) (k : ObjectKey) (w : World) (hlc : Hlc) (t : NodeId) : Prop :=
  (w.keyAt t b k).row.map (·.hlc) = some hlc ∧ env.self < t

instance (hlc : Hlc) (t : NodeId) : Decidable (Ties env b k w hlc t) :=
  inferInstanceAs (Decidable (_ ∧ _))

@[simp] lemma ties_receive (n : NodeId) (h hlc : Hlc) (physical : ℕ) (t : NodeId) :
    Ties env b k (receive w n h physical) hlc t ↔ Ties env b k w hlc t := by
  simp [Ties]

lemma acceptRemote_of_le {localHlc remoteHlc : Hlc} (h : remoteHlc ≤ localHlc) (n t : NodeId) :
    acceptRemote localHlc remoteHlc n t = decide (remoteHlc = localHlc ∧ n < t) := by
  simp [acceptRemote, not_lt.mpr h]

lemma foldl_compareStep_of_le {ts : List NodeId} {w : World} {hlc : Hlc}
    (best : Option GetObjectMetadataResponse)
    (hle : ∀ t ∈ ts, ∀ row, (w.keyAt t b k).row = some row → row.hlc ≤ hlc) :
    (ts.foldl (compareStep env renv b k) (w, hlc, best)).2.2 =
      ((ts.filter (Ties env b k w hlc ·)).getLast?.map
        fun t => getObjectMetadata (w.keyAt t b k)).or best := by
  induction ts generalizing w best with
  | nil => simp
  | cons t ts ih =>
    rw [foldl_cons]
    have hts : ∀ t' ∈ ts, ∀ row, (w.keyAt t' b k).row = some row → row.hlc ≤ hlc :=
      fun t' ht' => hle t' (by simp [ht'])
    cases hrow : (w.keyAt t b k).row with
    | none =>
      rw [compareStep_of_none hrow, ih best hts]
      simp [Ties, hrow]
    | some row =>
      rw [compareStep_of_some hrow, acceptRemote_of_le (hle t (by simp) row hrow)]
      have hrec : ∀ h best', (ts.foldl (compareStep env renv b k)
          (receive w env.self h renv.physical, hlc, best')).2.2 =
          ((ts.filter (Ties env b k w hlc ·)).getLast?.map
            fun t => getObjectMetadata (w.keyAt t b k)).or best' := by
        intro h best'
        simpa using @ih (receive w env.self h renv.physical) best'
          fun t' ht' row' hrow' => hts t' ht' row' (by simpa using hrow')
      by_cases htie : row.hlc = hlc ∧ env.self < t
      · have hT : Ties env b k w hlc t := ⟨by simp [hrow, htie.1], htie.2⟩
        obtain ⟨rfl, hlt⟩ := htie
        rw [if_pos (by simpa using hlt), hrec, filter_cons_of_pos (by simpa using hT),
          getLast?_cons]
        cases (ts.filter (Ties env b k w row.hlc ·)).getLast? <;> simp
      · have hT : ¬Ties env b k w hlc t := fun hT => htie ⟨by simpa [hrow] using hT.1, hT.2⟩
        rw [if_neg (by simpa using htie), hrec, filter_cons_of_neg (by simpa using hT)]

lemma compareWithQuorum_frame (localMeta : ObjectMetadata) (w : World) :
    (∀ m b' k', (compareWithQuorum env renv b k localMeta w).1.keyAt m b' k' = w.keyAt m b' k') ∧
    (compareWithQuorum env renv b k localMeta w).1.segments = w.segments ∧
    ∀ m, (compareWithQuorum env renv b k localMeta w).2 = some m → ∃ t ∈ env.replicaSet k,
      ∃ row, (w.keyAt t b k).row = some row ∧ m = wireRow row k renv.nowMs := by
  unfold compareWithQuorum
  split
  · simp
  · obtain ⟨hk, hs, hr⟩ := @foldl_compareStep_frame env renv b k (answering env k renv.arrivals) w
      localMeta.hlc none
    refine ⟨hk, hs, fun m hm => ?_⟩
    obtain ⟨resp, hresp, rfl⟩ := map_eq_some_iff.mp hm
    obtain ⟨t, ht, row, hrow, rfl⟩ := (hr resp hresp).resolve_left (by simp)
    simp only [answering, mem_filter, Bool.and_eq_true, decide_eq_true_eq] at ht
    exact ⟨t, ht.2.1, row, hrow, objectMetadataFromResponse_eq hrow _ _⟩

variable {localMeta : ObjectMetadata}

lemma compareWithQuorum_of_le
    (hle : ∀ t ∈ answering env k renv.arrivals, ∀ row, (w.keyAt t b k).row = some row →
      row.hlc ≤ localMeta.hlc) :
    let ties := (answering env k renv.arrivals).filter (Ties env b k w localMeta.hlc ·)
    ((renv.networked = true ∧ 1 < (env.replicaSet k).length ∧ ties ≠ []) ∧
      ∃ t ∈ ties, ∃ row, (w.keyAt t b k).row = some row ∧
        (compareWithQuorum env renv b k localMeta w).2 = some (wireRow row k renv.nowMs)) ∨
    (¬(renv.networked = true ∧ 1 < (env.replicaSet k).length ∧ ties ≠ []) ∧
      (compareWithQuorum env renv b k localMeta w).2 = none) := by
  intro ties
  unfold compareWithQuorum
  by_cases hn : (!renv.networked || decide ((env.replicaSet k).length ≤ 1)) = true
  · rw [if_pos hn]
    refine .inr ⟨fun ⟨h1, h2, _⟩ => ?_, rfl⟩
    simp [h1] at hn
    omega
  · rw [if_neg hn]
    have hnet : renv.networked = true ∧ 1 < (env.replicaSet k).length := by simpa using hn
    have hbest := @foldl_compareStep_of_le env renv b k _ w localMeta.hlc none hle
    simp only [hbest, or_none]
    rcases hl : ties.getLast? with _ | t
    · exact .inr ⟨fun h => h.2.2 (getLast?_eq_none_iff.mp hl), rfl⟩
    · have hmem : t ∈ ties := mem_of_getLast? hl
      have hties : Ties env b k w localMeta.hlc t := by
        simpa using (mem_filter.mp hmem).2
      obtain ⟨row, hrow, -⟩ := map_eq_some_iff.mp hties.1
      refine .inl ⟨⟨hnet.1, hnet.2, ne_nil_of_mem hmem⟩, t, hmem, row, hrow, ?_⟩
      simp [objectMetadataFromResponse_eq hrow]

/-! ### What is read -/

lemma readChunks_eq {m : ObjectMetadata}
    (h : ∀ seg, assembleChunks env renv m w ≠ .error (.segmentUnavailable seg)) :
    readChunks env renv b k m w = (w, (assembleChunks env renv m w).map (·, m)) := by
  unfold readChunks
  rcases hA : assembleChunks env renv m w with e | data
  · cases e with
    | segmentUnavailable seg => exact absurd hA (h seg)
    | _ => rfl
  · rfl

/-- The row that a read goes on with. -/
def chosen (env : Env) (renv : ReadEnv) (b : BucketId) (k : ObjectKey) (localMeta : ObjectMetadata)
    (w : World) : ObjectMetadata :=
  (compareWithQuorum env renv b k localMeta w).2.getD localMeta

lemma get_of_inline {data : Bytes} (hs : env.servesRequests = true)
    (hrow : (w.keyAt env.self b k).row = some localMeta)
    (hi : (chosen env renv b k localMeta w).inlineData = some data) :
    (get env renv b k w).2 = .ok (data, chosen env renv b k localMeta w) := by
  unfold chosen at hi ⊢
  simp [get, hs, hrow, hi]

lemma get_of_neither (hs : env.servesRequests = true)
    (hrow : (w.keyAt env.self b k).row = some localMeta)
    (hi : (chosen env renv b k localMeta w).inlineData = none)
    (hc : (chosen env renv b k localMeta w).chunks = []) :
    (get env renv b k w).2 = .error (.notFound b k) := by
  unfold chosen at hi hc
  simp [get, hs, hrow, hi, hc]

lemma get_of_chunks (hs : env.servesRequests = true)
    (hrow : (w.keyAt env.self b k).row = some localMeta)
    (hi : (chosen env renv b k localMeta w).inlineData = none)
    (hc : (chosen env renv b k localMeta w).chunks ≠ []) :
    (get env renv b k w).2 = (readChunks env renv b k (chosen env renv b k localMeta w)
      (compareWithQuorum env renv b k localMeta w).1).2 := by
  unfold chosen at hi hc ⊢
  simp [get, hs, hrow, hi, hc]

end OceanFs.Read
