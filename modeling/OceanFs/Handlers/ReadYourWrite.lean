import OceanFs.Handlers.Accounting
import OceanFs.Handlers.Get
import OceanFs.Read.Stored

/-!
Which acknowledged PUTs are read back by the node that served them.

The row, the chunks and the caches that a PUT leaves are enough for the GET that follows it,
with four exceptions: an empty body is never stored; a chunk may be too long for its reference;
the fastest-k rule may stop before all chunks are there; and the row that another replica holds,
which wins the tie on equal timestamps if its node id is greater, does not say that a chunk is
compressed.
-/

namespace OceanFs.Handlers

open OceanFs.Core Metadata Grpc Cache Write Read List Option

variable {env : Env} {renv : ReadEnv} {req : WriteRequest} {w w' : World} {hlc : Hlc}

/-! ### What a PUT leaves for the reader -/

/-- The row of the node that served the PUT. -/
def ownRow (env : Env) (req : WriteRequest) (chunks : List ChunkRef) (hlc : Hlc) : ObjectMetadata :=
  if chunks = [] then inlineRow req.key req.data (env.hash req.data) hlc env.nowMs
  else segmentRow req.key req.data.length (some (env.hash req.data)) chunks hlc env.nowMs

/-- The copies of a PUT of some bytes, on the node that served it and on the others. -/
structure Copies (env : Env) (req : WriteRequest) (hlc : Hlc) (w w' : World)
    (chunks : List ChunkRef) : Prop where
  own : (w'.keyAt env.self req.bucket req.key).row = some (ownRow env req chunks hlc)
  others : ∀ t, t ≠ env.self → w'.keyAt t req.bucket req.key =
    if t ∈ remoteTargets env (env.replicaSet req.key) ∧ Stores env req hlc t then
      (w.keyAt t req.bucket req.key).put (replicaRow env req chunks hlc t) (env.service t).nowMs
    else w.keyAt t req.bucket req.key
  stored : List.Forall₂ (fun piece c => ∃ s, StoredAs env w' piece c s) (pieces env req.data) chunks
  joined : chunks ≠ [] → (pieces env req.data).flatten = req.data

variable {result : WriteResult}

lemma persistRow_segments (h : persistRow env req result w = (w', .ok ())) :
    w'.segments = w.segments := by
  unfold persistRow at h
  split at h
  · simp only [Prod.mk.injEq, and_true] at h
    rw [h]
  · have hs := w.putRow_segments env.self req.bucket (segmentRow req.key result.size
      result.blake3Hash result.chunks result.hlc env.nowMs) env.nowMs env.handlerFault
    split at h
    · simp at h
    · rename_i hp
      simp only [Prod.mk.injEq, and_true] at h
      rw [hp] at hs
      rw [← h]
      exact hs

theorem putLocal_copies {w₁ w₂ : World} {result : WriteResult} (hd : req.data ≠ [])
    (hp : putLocal env req w = (w₁, .ok result))
    (hrow : persistRow env req result w₁ = (w₂, .ok ())) :
    Copies env req result.hlc w w₂ result.chunks := by
  obtain ⟨-, hrk⟩ := persistRow_ok hrow
  have hrs := persistRow_segments hrow
  unfold putLocal at hp
  simp only [hd, ↓reduceIte] at hp
  set w₀ := (w.tick env.self env.physical).1 with hw₀
  set hlc := (w.tick env.self env.physical).2
  obtain ⟨-, -, -, hlocal⟩ := @writeLocal_spec env req hlc hd w₀
  rcases hwl : writeLocal env req hlc w₀ with ⟨v, e | ⟨chunks, row⟩⟩
  · simp [hwl] at hp
  simp only [hwl] at hp hlocal
  obtain ⟨hrc, hri, hvk⟩ := hlocal
  obtain ⟨hst, hjoin⟩ := writeLocal_storedAs hwl
  obtain ⟨rfl, -, hkey, -, hsegs, -⟩ := replicateAndHint_ok hp
  have hnotTarget : env.self ∉ remoteTargets env (env.replicaSet req.key) :=
    fun hmem => (mem_of_mem_remoteTargets hmem).2 rfl
  refine ⟨?_, fun t ht => ?_, ?_, fun hc => hjoin fun hin => hc (hrc.mp (hri.mpr hin))⟩
  · have hown := hkey env.self
    rw [if_neg (fun hc => hnotTarget hc.1), hvk] at hown
    rw [hrk, hown]
    by_cases hc : chunks = []
    · simp [hc, hrc.mpr hc, ownRow]
    · simp [hc, ownRow]
  · have hv : v.keyAt t req.bucket req.key = w.keyAt t req.bucket req.key := by
      rw [hvk, if_neg (fun hc => ht hc.1), hw₀, World.tick_keyAt]
    rw [hrk, if_neg (fun hc => ht hc.1), hkey, hv]
  · refine hst.imp fun piece c ⟨s, hs⟩ => ⟨s, ?_⟩
    exact (hs.of_segments hsegs).of_segments hrs

/-! ### The caches -/

lemma invalidateCacheOnReplicas_self (b : BucketId) (k : ObjectKey) (w : World) :
    (invalidateCacheOnReplicas env b k w).l1 env.self = w.l1 env.self ∧
    (invalidateCacheOnReplicas env b k w).l2 env.self = w.l2 env.self ∧
    (invalidateCacheOnReplicas env b k w).replica env.self = w.replica env.self ∧
    (invalidateCacheOnReplicas env b k w).segments = w.segments := by
  unfold invalidateCacheOnReplicas
  induction env.replicaSet k generalizing w with
  | nil => exact ⟨rfl, rfl, rfl, rfl⟩
  | cons t ts ih =>
    rw [foldl_cons]
    obtain ⟨h1, h2, h3, h4⟩ := ih (if t ≠ env.self ∧ (env.peer t).hasAddress ∧
      env.invalidateReaches t then invalidateNegative env t b k (invalidateCaches t b k w) else w)
    rw [h1, h2, h3, h4]
    split
    · rename_i hc
      have hne : env.self ≠ t := Ne.symm hc.1
      simp [invalidateNegative, invalidateCaches, World.setReplica, hne]
    · exact ⟨rfl, rfl, rfl, rfl⟩

lemma cleared_self (b : BucketId) (k : ObjectKey) (w : World) :
    let u := invalidateCacheOnReplicas env b k
      (invalidateNegative env env.self b k (invalidateCaches env.self b k w))
    u.l1 env.self b k = none ∧ u.l2 env.self b k = none ∧ u.segments = w.segments ∧
      (u.replica env.self).negativeCache = (w.replica env.self).negativeCache.map
        (·.invalidate (env.service env.self).l3 b k) := by
  intro u
  obtain ⟨h1, h2, h3, h4⟩ := @invalidateCacheOnReplicas_self env b k
    (invalidateNegative env env.self b k (invalidateCaches env.self b k w))
  refine ⟨?_, ?_, h4, ?_⟩
  · rw [h1]
    simp [invalidateNegative, invalidateCaches, World.setReplica]
  · rw [h2]
    simp [invalidateNegative, invalidateCaches, World.setReplica]
  · rw [h3]
    simp [invalidateNegative, Replica.invalidateNegative, invalidateCaches]

lemma putRow_negativeCache (n m : NodeId) (b : BucketId) (row : ObjectMetadata) (nowMs : ℤ)
    (fault : WriteFault) (w : World) :
    ((w.putRow n b row nowMs fault).1.replica m).negativeCache = (w.replica m).negativeCache := by
  by_cases hm : m = n
  · subst hm
    simp [World.putRow]
  · simp [World.putRow, World.setReplica_replica_of_ne _ _ hm]

lemma writeLocal_negativeCache (n : NodeId) (w : World) :
    ((writeLocal env req hlc w).1.replica n).negativeCache = (w.replica n).negativeCache := by
  have hchunked : ∀ tier ps, ((writeLocal.chunked env w tier ps).1.replica n).negativeCache =
      (w.replica n).negativeCache := by
    intro tier ps
    have hr := (@storeChunks_frame env tier 0 ps w).1
    unfold writeLocal.chunked
    split <;> rename_i hs <;> simp only [hs] at hr <;> simp [hr]
  unfold writeLocal
  split
  · have hn := putRow_negativeCache env.self n req.bucket
      (inlineRow req.key req.data (env.hash req.data) hlc env.nowMs) env.nowMs env.inlineFault w
    split <;> rename_i hp <;> rw [hp] at hn <;> exact hn
  · exact hchunked _ _
  · exact hchunked _ _
  · split
    · rfl
    · exact hchunked _ _

lemma persistRow_negativeCache (n : NodeId) (h : persistRow env req result w = (w', .ok ())) :
    (w'.replica n).negativeCache = (w.replica n).negativeCache := by
  unfold persistRow at h
  split at h
  · simp only [Prod.mk.injEq, and_true] at h
    rw [h]
  · have hn := putRow_negativeCache env.self n req.bucket (segmentRow req.key result.size
      result.blake3Hash result.chunks result.hlc env.nowMs) env.nowMs env.handlerFault w
    split at h
    · simp at h
    · rename_i hp
      simp only [Prod.mk.injEq, and_true] at h
      rw [hp] at hn
      rw [← h]
      exact hn

lemma putLocal_negativeCache {w₁ w₂ : World} {result : WriteResult}
    (hp : putLocal env req w = (w₁, .ok result))
    (hrow : persistRow env req result w₁ = (w₂, .ok ())) :
    (w₂.replica env.self).negativeCache = (w.replica env.self).negativeCache := by
  by_cases hd : req.data = []
  · rw [putLocal_empty hd hp hrow]
    simp [World.tick]
  · rw [persistRow_negativeCache env.self hrow]
    unfold putLocal at hp
    simp only [hd, ↓reduceIte] at hp
    have hn := @writeLocal_negativeCache env req (w.tick env.self env.physical).2 env.self
      (w.tick env.self env.physical).1
    rcases hwl : writeLocal env req (w.tick env.self env.physical).2
      (w.tick env.self env.physical).1 with ⟨v, e | ⟨chunks, row⟩⟩
    · simp [hwl] at hp
    simp only [hwl] at hp hn
    obtain ⟨-, -, -, -, -, hself⟩ := replicateAndHint_ok hp
    rw [hself, hn]
    simp [World.tick]

lemma getObject_of_cleared {hashKey : HashKey} {b : BucketId} {k : ObjectKey} (hk : k ≠ "")
    (h1 : w.l1 env.self b k = none) (h2 : w.l2 env.self b k = none) {before : Option NegativeCache}
    (hneg : (w.replica env.self).negativeCache =
      before.map (·.invalidate (env.service env.self).l3 b k)) :
    (∃ c ∈ before, (env.service env.self).l3.enabled = true ∧
        c.Overflows (env.service env.self).l3 b k ∧ (env.service env.self).l3.bitCount = 0) ∧
      (getObject env renv hashKey b k w).2 = .error .panicked ∨
    (¬∃ c ∈ before, (env.service env.self).l3.enabled = true ∧
        c.Overflows (env.service env.self).l3 b k ∧ (env.service env.self).l3.bitCount = 0) ∧
      ∃ u : World, (∀ t, u.keyAt t b k = w.keyAt t b k) ∧ u.segments = w.segments ∧
        (getObject env renv hashKey b k w).2 = (serveRead env renv b k u).2 := by
  have hl1 : getL1 env renv b k w = (w, none) := by
    simp [getL1, EntryCache.get_of_none renv.l1 renv.cacheNow h1, setL1]
  have hl2 : getL2 env renv b k w = (w, none) := by
    simp [getL2, EntryCache.get_of_none renv.l2 renv.cacheNow h2, setL2]
  rw [getObject, if_neg hk, hl1]
  simp only [hl2, bind_none]
  cases before with
  | none =>
    refine .inr ⟨by simp, w, fun _ => rfl, rfl, ?_⟩
    simp [containsNegative, hneg]
  | some c =>
    have hans := @NegativeCache.answer_invalidate hashKey (env.service env.self).l3 c b k
    rw [NegativeCache.answer] at hans
    simp only [mem_some_iff, exists_eq_left']
    split at hans
    · rename_i hpanic
      refine .inl ⟨hpanic, ?_⟩
      simp [containsNegative, hneg, map_eq_none_iff.mp hans]
    · rename_i hno
      obtain ⟨⟨c', absent⟩, hc, rfl⟩ := map_eq_some_iff.mp hans
      refine .inr ⟨hno, w.setReplica env.self
        { w.replica env.self with negativeCache := some c' }, fun t => ?_, rfl, ?_⟩
      · exact World.setReplica_keyAt_of_store b k (by rfl) t
      · simp [containsNegative, hneg, hc]

/-! ### Reading a PUT of some bytes -/

/-- No compaction has replaced a segment that the PUT appends to. -/
def Unmoved (env : Env) : Prop :=
  ∀ t i seg, env.append i = .appended seg → ∀ resolve, (env.service t).remapAlias = some resolve →
    ∀ offset length, resolve seg offset length = none

/-- Another replica keeps a copy of the PUT, answers the read and wins the tie. -/
def Overruled (env : Env) (renv : ReadEnv) (req : WriteRequest) (hlc : Hlc) : Prop :=
  renv.networked = true ∧ ∃ t ∈ renv.arrivals, env.self < t ∧
    t ∈ remoteTargets env (env.replicaSet req.key) ∧ Stores env req hlc t

instance (renv : ReadEnv) (req : WriteRequest) (hlc : Hlc) :
    Decidable (Overruled env renv req hlc) :=
  inferInstanceAs (Decidable (_ ∧ _))

/-- The chunks come back: none is too long, the strategy waits for all of them, and a compressed
one is not read through the row of another replica. -/
def ChunksReadBack (env : Env) (renv : ReadEnv) (req : WriteRequest) (hlc : Hlc) : Prop :=
  (∀ p ∈ pieces env req.data, p.length < 2 ^ 32) ∧ WaitsFor renv (pieces env req.data).length ∧
    (Overruled env renv req hlc → ∀ p ∈ pieces env req.data, shrinks env p = false)

instance (renv : ReadEnv) (req : WriteRequest) (hlc : Hlc) :
    Decidable (ChunksReadBack env renv req hlc) :=
  inferInstanceAs (Decidable (_ ∧ _))

variable {chunks : List ChunkRef}

lemma persistedChunk_samePlace (hun : Unmoved env) (t : NodeId) {c : ChunkRef}
    (hc : ∃ i, env.append i = .appended c.segmentId) :
    SamePlace c (persistedChunk (env.service t) c.segmentId c.offset c.length) ∧
      (persistedChunk (env.service t) c.segmentId c.offset c.length).compressed = false := by
  obtain ⟨i, hi⟩ := hc
  unfold persistedChunk SamePlace
  cases hr : (env.service t).remapAlias with
  | none => simp
  | some resolve => simp [hun t i _ hi resolve hr]

lemma Copies.other_row (hcopy : Copies env req hlc w w' chunks) {t : NodeId} (ht : t ≠ env.self)
    {row : ObjectMetadata} (hrow : (w'.keyAt t req.bucket req.key).row = some row) :
    (t ∈ remoteTargets env (env.replicaSet req.key) ∧ Stores env req hlc t) ∧
        row = replicaRow env req chunks hlc t ∨
      (w.keyAt t req.bucket req.key).row = some row := by
  rw [hcopy.others t ht] at hrow
  split at hrow
  · rename_i hst
    exact .inl ⟨hst, by simpa using hrow.symm⟩
  · exact .inr hrow

variable {k : ObjectKey}

lemma mem_answering {t : NodeId} :
    t ∈ answering env k renv.arrivals ↔
      t ∈ renv.arrivals ∧ t ∈ env.replicaSet k ∧ t ≠ env.self := by
  simp [answering]

lemma one_lt_length_of_mem {l : List NodeId} {a b : NodeId} (ha : a ∈ l) (hb : b ∈ l)
    (hne : a ≠ b) : 1 < l.length := by
  match l, ha, hb with
  | [x], ha, hb =>
    exact absurd ((mem_singleton.mp ha).trans (mem_singleton.mp hb).symm) hne
  | _ :: _ :: _, _, _ => simp

lemma ties_ne_nil_iff (hcopy : Copies env req hlc w w' chunks)
    (hself : env.self ∈ env.replicaSet req.key)
    (hold : ∀ t ∈ env.replicaSet req.key, t ≠ env.self → ∀ row,
      (w.keyAt t req.bucket req.key).row = some row → row.hlc < hlc) :
    (renv.networked = true ∧ 1 < (env.replicaSet req.key).length ∧
      (answering env req.key renv.arrivals).filter (Ties env req.bucket req.key w' hlc ·) ≠ []) ↔
    Overruled env renv req hlc := by
  constructor
  · rintro ⟨hn, -, hne⟩
    obtain ⟨t, ht⟩ := exists_mem_of_ne_nil _ hne
    obtain ⟨hans, htie⟩ := mem_filter.mp ht
    obtain ⟨harr, hset, hts⟩ := mem_answering.mp hans
    obtain ⟨hh, hlt⟩ : Ties env req.bucket req.key w' hlc t := by simpa using htie
    obtain ⟨row, hrow, hrowh⟩ := map_eq_some_iff.mp hh
    rcases hcopy.other_row hts hrow with ⟨⟨hrt, hst⟩, -⟩ | hwas
    · exact ⟨hn, t, harr, hlt, hrt, hst⟩
    · exact absurd (hrowh ▸ hold t hset hts row hwas) (lt_irrefl _)
  · rintro ⟨hn, t, harr, hlt, hrt, hst⟩
    obtain ⟨hset, hts⟩ := mem_of_mem_remoteTargets hrt
    have hkey := hcopy.others t hts
    rw [if_pos ⟨hrt, hst⟩] at hkey
    have htie : Ties env req.bucket req.key w' hlc t := ⟨by rw [hkey]; simp [replicaRow], hlt⟩
    refine ⟨hn, one_lt_length_of_mem hself hset (Ne.symm hts), ne_nil_of_mem (a := t) ?_⟩
    exact mem_filter.mpr ⟨mem_answering.mpr ⟨harr, hset, hts⟩, by simpa using htie⟩

lemma readChunks_copy_iff {Whole : Bytes → Prop} {b : BucketId} {k : ObjectKey} {m : ObjectMetadata}
    {ps : List Bytes} (hi : m.inlineData = none) (hc : m.chunks ≠ [])
    (hh : m.blake3Hash = some (env.hash ps.flatten))
    (hplace : List.Forall₂ (fun p c' => ∃ c s, StoredAs env w p c s ∧ SamePlace c c') ps m.chunks)
    (hwhole : List.Forall₂ (fun p c => (Whole p → fetchSingleChunk renv w c = .ok p) ∧
      (¬Whole p → ∀ d, fetchSingleChunk renv w c = .ok d → d.length < p.length)) ps m.chunks) :
    (∃ m', (readChunks env renv b k m w).2 = .ok (ps.flatten, m')) ↔
      WaitsFor renv ps.length ∧ ∀ p ∈ ps, Whole p := by
  have hav : ∀ c' ∈ m.chunks, ∀ seg,
      fetchSingleChunk renv w c' ≠ .error (.segmentUnavailable seg) := by
    intro c' hc' seg
    obtain ⟨i, hi', rfl⟩ := mem_iff_getElem.mp hc'
    obtain ⟨c, s, hst, hsame⟩ := hplace.get (by rw [hplace.length_eq]; exact hi') hi'
    exact hst.ne_unavailable hsame seg
  rw [readChunks_eq (assembleChunks_ne_unavailable hi hav), hplace.length_eq]
  have hex : (∃ m', (assembleChunks env renv m w).map (·, m) = .ok (ps.flatten, m')) ↔
      assembleChunks env renv m w = .ok ps.flatten := by
    rcases assembleChunks env renv m w with e | d <;> simp [Except.map]
  rw [hex, assembleChunks_eq_ok_iff hi hc, joined_iff hwhole]
  simp [hh]

section

variable (hcopy : Copies env req hlc w w' chunks)

include hcopy

lemma Copies.congr {u : World}
    (hk : ∀ t, u.keyAt t req.bucket req.key = w'.keyAt t req.bucket req.key)
    (hs : u.segments = w'.segments) : Copies env req hlc w u chunks where
  own := by rw [hk]; exact hcopy.own
  others t ht := by rw [hk]; exact hcopy.others t ht
  stored := hcopy.stored.imp fun _ _ ⟨s, h⟩ => ⟨s, h.of_segments hs⟩
  joined := hcopy.joined

lemma Copies.own_readBack (hinv : Inverts env renv) (hc : chunks ≠ []) (b : BucketId)
    (k : ObjectKey) :
    (∃ m, (readChunks env renv b k (ownRow env req chunks hlc) w').2 = .ok (req.data, m)) ↔
      WaitsFor renv (pieces env req.data).length ∧
        ∀ p ∈ pieces env req.data, p.length < 2 ^ 32 := by
  have hrow : ownRow env req chunks hlc =
      segmentRow req.key req.data.length (some (env.hash req.data)) chunks hlc env.nowMs := by
    simp [ownRow, hc]
  have hiff := @readChunks_copy_iff env renv w' (fun p => p.length < 2 ^ 32) b k
    (ownRow env req chunks hlc) (pieces env req.data) (by rw [hrow]; rfl) (by rw [hrow]; exact hc)
    (by rw [hrow, hcopy.joined hc]; rfl) ?_ ?_
  · rw [hcopy.joined hc] at hiff
    exact hiff
  · rw [hrow]
    exact hcopy.stored.imp fun p c ⟨s, hs⟩ => ⟨c, s, hs, rfl, rfl, rfl⟩
  · rw [hrow]
    exact hcopy.stored.imp fun p c ⟨s, hs⟩ =>
      ⟨fun hsmall => hs.fetch hinv hsmall, fun hlarge d hd => hs.fetch_large (not_lt.mp hlarge) hd⟩

lemma Copies.other_readBack (hun : Unmoved env) (hc : chunks ≠ []) (b : BucketId) (k : ObjectKey)
    (t : NodeId) (createdAt : ℤ) :
    (∃ m, (readChunks env renv b k (wireRow (replicaRow env req chunks hlc t) k createdAt) w').2 =
      .ok (req.data, m)) ↔
      WaitsFor renv (pieces env req.data).length ∧
        ∀ p ∈ pieces env req.data, p.length < 2 ^ 32 ∧ shrinks env p = false := by
  set row := wireRow (replicaRow env req chunks hlc t) k createdAt with hrow
  have hchunks : row.chunks = chunks.map fun c =>
      persistedChunk (env.service t) c.segmentId c.offset c.length := by
    have hwire : ∀ c : ChunkRef, (fun c : ChunkRef =>
        { c with logicalLength := if c.compressed then c.logicalLength else c.length })
        (persistedChunk (env.service t) c.segmentId c.offset c.length) =
        persistedChunk (env.service t) c.segmentId c.offset c.length := by
      intro c
      simp [persistedChunk]
    rw [hrow]
    simp only [wireRow, replicaRow, replicatedRow_chunks, List.map_map]
    exact map_congr_left fun c _ => hwire c
  have hplaced : List.Forall₂ (fun p c' => ∃ c s, StoredAs env w' p c s ∧ SamePlace c c' ∧
      c'.compressed = false) (pieces env req.data) row.chunks := by
    rw [hchunks, forall₂_map_right_iff]
    refine hcopy.stored.imp ?_
    rintro p c ⟨s, hs⟩
    exact ⟨c, s, hs, persistedChunk_samePlace hun t hs.appended⟩
  have hiff := @readChunks_copy_iff env renv w'
    (fun p => p.length < 2 ^ 32 ∧ shrinks env p = false) b k row (pieces env req.data)
    (by simp [hrow, wireRow, replicaRow, hc]) (by simp [hchunks, hc])
    (by rw [hcopy.joined hc]; simp [hrow, wireRow, replicaRow])
    (hplaced.imp ?_) (hplaced.imp ?_)
  · rw [hcopy.joined hc] at hiff
    exact hiff
  · rintro _ _ ⟨c, s, hs, hsame, -⟩
    exact ⟨c, s, hs, hsame⟩
  · rintro _ _ ⟨_, _, hs, hsame, hplain⟩
    exact hs.fetch_plain hsame hplain

variable (hself : env.self ∈ env.replicaSet req.key)
  (hold : ∀ t ∈ env.replicaSet req.key, t ≠ env.self → ∀ row,
    (w.keyAt t req.bucket req.key).row = some row → row.hlc < hlc)

include hself hold

lemma Copies.chosen_row :
    (Overruled env renv req hlc ∧ ∃ t,
      chosen env renv req.bucket req.key (ownRow env req chunks hlc) w' =
        wireRow (replicaRow env req chunks hlc t) req.key renv.nowMs) ∨
    (¬Overruled env renv req hlc ∧
      chosen env renv req.bucket req.key (ownRow env req chunks hlc) w' =
        ownRow env req chunks hlc) := by
  have hownhlc : (ownRow env req chunks hlc).hlc = hlc := by
    unfold ownRow
    split <;> rfl
  have hle : ∀ t ∈ answering env req.key renv.arrivals, ∀ row,
      (w'.keyAt t req.bucket req.key).row = some row →
        row.hlc ≤ (ownRow env req chunks hlc).hlc := by
    intro t ht row hrow
    obtain ⟨-, hset, hts⟩ := mem_answering.mp ht
    rw [hownhlc]
    rcases hcopy.other_row hts hrow with ⟨-, rfl⟩ | hwas
    · simp [replicaRow]
    · exact (hold t hset hts row hwas).le
  have hcmp := compareWithQuorum_of_le hle
  simp only [hownhlc, ties_ne_nil_iff hcopy hself hold] at hcmp
  rcases hcmp with ⟨hover, t, ht, row, hrow, heq⟩ | ⟨hover, heq⟩
  · obtain ⟨hans, htie⟩ := mem_filter.mp ht
    obtain ⟨-, hset, hts⟩ := mem_answering.mp hans
    rcases hcopy.other_row hts hrow with ⟨-, rfl⟩ | hwas
    · exact .inl ⟨hover, t, by rw [chosen, heq, getD_some]⟩
    · -- an older row does not tie
      have hh : row.hlc = hlc := by simpa [Ties, hrow] using (of_decide_eq_true htie).1
      exact absurd (hh ▸ hold t hset hts row hwas) (lt_irrefl _)
  · exact .inr ⟨hover, by rw [chosen, heq, getD_none]⟩

/-- **The read that follows a PUT** of some bytes finds them exactly when its chunks come back. -/
theorem get_copies_iff (hs : env.servesRequests = true) (hd : req.data ≠ [])
    (hinv : Inverts env renv) (hun : Unmoved env) :
    (∃ m, (Read.get env renv req.bucket req.key w').2 = .ok (req.data, m)) ↔
      ChunksReadBack env renv req hlc := by
  obtain ⟨hframe, hsegs, -⟩ := @compareWithQuorum_frame env renv req.bucket req.key
    (ownRow env req chunks hlc) w'
  have hcopy' := hcopy.congr (fun t => hframe t req.bucket req.key) hsegs
  have hrow := @Copies.chosen_row env renv req w w' hlc chunks hcopy hself hold
  by_cases hc : chunks = []
  · -- an inline body is in every copy
    have hps : pieces env req.data = [] := by
      rw [← length_eq_zero_iff, hcopy.stored.length_eq, hc]
      rfl
    refine iff_of_true ⟨_, get_of_inline hs hcopy.own ?_⟩ (by simp [ChunksReadBack, hps, WaitsFor])
    rcases hrow with ⟨-, t, heq⟩ | ⟨-, heq⟩
    · rw [heq]
      simp [wireRow, replicaRow, hc, hd]
    · rw [heq]
      simp [ownRow, hc, inlineRow]
  · rcases hrow with ⟨hover, t, heq⟩ | ⟨hover, heq⟩
    · rw [get_of_chunks hs hcopy.own]
      · rw [heq, hcopy'.other_readBack hun hc]
        simp only [ChunksReadBack, hover, true_implies]
        exact ⟨fun h => ⟨fun p hp => (h.2 p hp).1, h.1, fun p hp => (h.2 p hp).2⟩,
          fun h => ⟨h.2.1, fun p hp => ⟨h.1 p hp, h.2.2 p hp⟩⟩⟩
      · rw [heq]
        simp [wireRow, replicaRow, hc]
      · rw [heq]
        simp [wireRow, replicaRow, hc]
    · rw [get_of_chunks hs hcopy.own]
      · rw [heq, hcopy'.own_readBack hinv hc]
        simp only [ChunksReadBack, hover, false_implies, and_true]
        exact and_comm
      · rw [heq]
        simp [ownRow, hc, segmentRow]
      · rw [heq]
        simp [ownRow, hc, segmentRow]

end

/-! ### Reading after an empty PUT -/

/-- The row is the version of an object that is not empty: its payload is not, or its hash is not
that of the empty body. -/
def NonEmptyRow (env : Env) (row : ObjectMetadata) : Prop :=
  row.inlineData ≠ some [] ∧
    (row.inlineData = none → ∃ h, row.blake3Hash = some h ∧ h ≠ env.hash [])

lemma NonEmptyRow.wire {row : ObjectMetadata} (h : NonEmptyRow env row) (k : ObjectKey)
    (createdAt : ℤ) : NonEmptyRow env (wireRow row k createdAt) := by
  obtain ⟨hi, hh⟩ := h
  simpa [NonEmptyRow, wireRow, hi] using hh

lemma assembleChunks_ne_nil {m : ObjectMetadata} (h : NonEmptyRow env m) (hc : m.chunks ≠ []) :
    assembleChunks env renv m w ≠ .ok [] := by
  cases hi : m.inlineData with
  | none =>
    rw [Ne, assembleChunks_eq_ok_iff hi hc]
    obtain ⟨d, hd, hne⟩ := h.2 hi
    exact fun hok => hne (hok.2.2 d hd).symm
  | some data =>
    have hdata : data ≠ [] := fun he => h.1 (he ▸ hi)
    have hfetch : fetchChunks renv m w = .ok [data] := by
      unfold fetchChunks fetchChunksInner
      simp [hi]
    rw [assembleChunks, hfetch, assemble_ok _ hc, Assembler.finalize]
    split_ifs
    · simp
    · split
      · simpa using hdata
      · split
        · simp
        · simpa using hdata

variable {b : BucketId}

lemma repairDanglingMetadata_some {m repaired : ObjectMetadata}
    (h : repairDanglingMetadata env renv b k m w = (w', some repaired)) :
    repaired.chunks ≠ [] ∧ ∃ t ∈ env.replicaSet k, ∃ row, (w.keyAt t b k).row = some row ∧
      repaired = wireRow row k m.createdAt := by
  unfold repairDanglingMetadata at h
  split at h
  · simp at h
  split at h
  · simp at h
  · rename_i resp hfind
    have hre := find?_some hfind
    obtain ⟨t, ht, rfl⟩ := List.mem_map.mp (mem_of_find?_eq_some hfind)
    have hset : t ∈ env.replicaSet k := by
      simp only [answering, mem_filter, Bool.and_eq_true, decide_eq_true_eq] at ht
      exact ht.2.1
    dsimp only at h
    split at h
    · simp at h
    · simp only [Prod.mk.injEq, some.injEq] at h
      obtain ⟨-, rfl⟩ := h
      cases hrow : (w.keyAt t b k).row with
      | none => simp [repoints, getObjectMetadata, hrow] at hre
      | some row =>
        exact ⟨chunks_ne_nil_of_repoints hre, t, hset, row, hrow,
          objectMetadataFromResponse_eq hrow _ _⟩

lemma readChunks_ne_nil {m : ObjectMetadata}
    (h : ∀ t row, (w.keyAt t b k).row = some row → NonEmptyRow env row) (hm : NonEmptyRow env m)
    (hc : m.chunks ≠ []) (m' : ObjectMetadata) :
    (readChunks env renv b k m w).2 ≠ .ok ([], m') := by
  have hne : ∀ {n : ObjectMetadata} {v : World} {data : Bytes}, NonEmptyRow env n → n.chunks ≠ [] →
      assembleChunks env renv n v = .ok data →
      (Except.ok (data, n) : Except ReadError (Bytes × ObjectMetadata)) ≠ .ok ([], m') := by
    intro n v data hn hnc hA hd
    simp only [Except.ok.injEq, Prod.mk.injEq] at hd
    exact assembleChunks_ne_nil hn hnc (hd.1 ▸ hA)
  unfold readChunks
  split
  · rename_i hA
    exact hne hm hc hA
  · split
    · simp
    · rename_i hrep
      obtain ⟨hc', t, -, row, hr, rfl⟩ := repairDanglingMetadata_some hrep
      split
      · rename_i hA
        exact hne ((h t row hr).wire _ _) hc' hA
      · simp
  · simp

theorem get_ne_nil (h : ∀ t row, (w.keyAt t b k).row = some row → NonEmptyRow env row)
    (m : ObjectMetadata) :
    (Read.get env renv b k w).2 ≠ .ok ([], m) := by
  by_cases hs : env.servesRequests = true
  swap
  · simp [Read.get, hs]
  cases hrow : (w.keyAt env.self b k).row with
  | none => simp [Read.get, hs, hrow]
  | some localMeta =>
    obtain ⟨hframe, -, hwin⟩ := @compareWithQuorum_frame env renv b k localMeta w
    have hm : NonEmptyRow env (chosen env renv b k localMeta w) := by
      unfold chosen
      cases hc : (compareWithQuorum env renv b k localMeta w).2 with
      | none => exact h _ _ hrow
      | some m' =>
        obtain ⟨t, -, row, hr, rfl⟩ := hwin m' hc
        exact (h t row hr).wire _ _
    cases hi : (chosen env renv b k localMeta w).inlineData with
    | some data =>
      rw [get_of_inline hs hrow hi]
      intro hd
      simp only [Except.ok.injEq, Prod.mk.injEq] at hd
      exact hm.1 (hd.1 ▸ hi)
    | none =>
      by_cases hc : (chosen env renv b k localMeta w).chunks = []
      · rw [get_of_neither hs hrow hi hc]
        simp
      · rw [get_of_chunks hs hrow hi hc]
        exact readChunks_ne_nil (fun t row hr => h t row (hframe t b k ▸ hr)) hm hc m

/-! ### Read your write -/

/-- What lets a GET on the node that served a PUT return its body: the key and the body are not
empty, the negative cache can be probed, and the chunks come back. -/
def ReadsBack (env : Env) (renv : ReadEnv) (req : WriteRequest) (w : World) : Prop :=
  req.key ≠ "" ∧ req.data ≠ [] ∧
    (¬∃ c ∈ (w.replica env.self).negativeCache, (env.service env.self).l3.enabled = true ∧
      c.Overflows (env.service env.self).l3 req.bucket req.key ∧
      (env.service env.self).l3.bitCount = 0) ∧
    ChunksReadBack env renv req (writeStamp env w)

lemma putLocal_hlc (hp : putLocal env req w = (w', .ok result)) :
    result.hlc = writeStamp env w := by
  unfold putLocal at hp
  by_cases hd : req.data = []
  · simp only [hd, ↓reduceIte, Prod.mk.injEq, Except.ok.injEq] at hp
    rw [← hp.2]
    rfl
  · simp only [hd, ↓reduceIte] at hp
    split at hp
    · simp at hp
    · rw [(replicateAndHint_ok hp).1]
      rfl

lemma serveRead_eq_ok_iff {body : Bytes} :
    (serveRead env renv b k w).2 = .ok body ↔ ∃ m, (Read.get env renv b k w).2 = .ok (body, m) := by
  unfold serveRead
  rcases Read.get env renv b k w with ⟨v, e | ⟨d, m⟩⟩ <;> simp

/-- **Read your write.** A node of the replica set that has acknowledged a PUT serves its body
afterwards exactly when the body reads back. -/
theorem read_your_write_iff {hashKey : HashKey} (hput : putObject env req w = (w', .ok hlc))
    (hself : env.self ∈ env.replicaSet req.key)
    (hold : ∀ t ∈ env.replicaSet req.key, t ≠ env.self → ∀ row,
      (w.keyAt t req.bucket req.key).row = some row → row.hlc < hlc)
    (hrows : req.data = [] → ∀ t row, (w.keyAt t req.bucket req.key).row = some row →
      NonEmptyRow env row)
    (hinv : Inverts env renv) (hun : Unmoved env) :
    (getObject env renv hashKey req.bucket req.key w').2 = .ok req.data ↔
      ReadsBack env renv req w := by
  obtain ⟨w₁, result, w₂, hp, hrow, rfl, rfl⟩ := putObject_ok hput
  obtain ⟨hserves, -, ⟨-, hl⟩ | ⟨hns, -⟩⟩ := put_ok hp
  swap
  · exact absurd hself hns
  obtain ⟨h1, h2, hsegs, hneg⟩ := @cleared_self env req.bucket req.key w₂
  rw [putLocal_negativeCache hl hrow] at hneg
  have hclear := @cleared_frame env req.bucket req.key w₂ env.self
  by_cases hk : req.key = ""
  · refine iff_of_false ?_ fun h => h.1 hk
    simp [getObject, hk]
  rcases getObject_of_cleared hk h1 h2 hneg with ⟨hpanic, heq⟩ | ⟨hcalm, u, huk, hus, heq⟩
  · rw [heq]
    exact iff_of_false (by simp) fun h => h.2.2.1 hpanic
  rw [heq, serveRead_eq_ok_iff]
  have hukey := fun t => (huk t).trans (hclear t).1
  by_cases hd : req.data = []
  · -- the rows are what they were
    refine iff_of_false ?_ fun h => h.2.1 hd
    rintro ⟨m, hm⟩
    rw [hd] at hm
    refine get_ne_nil (fun t row hr => hrows hd t row ?_) m hm
    rw [hukey, putLocal_empty hd hl hrow] at hr
    simpa using hr
  · have hcopy := (putLocal_copies hd hl hrow).congr hukey (hus.trans hsegs)
    rw [get_copies_iff hcopy hself hold hserves hd hinv hun, putLocal_hlc hl]
    exact ⟨fun h => ⟨hk, hd, hcalm, h⟩, fun h => h.2.2.2⟩

/-! ### A node that compresses runs of one byte -/

def runCompression : Compression where
  minChunkBytes := 2
  compressInto data := some <|
    match data with
    | [] => []
    | x :: _ => if data = List.replicate data.length x then [x] else data

def runDecompressor : Decompressor where
  decompressExact data n :=
    if data.length = n then some data
    else match data with
      | [x] => some (List.replicate n x)
      | _ => none
  bounded data n out h := by
    split at h
    · rename_i hl
      rw [← some.inj h]
      exact hl.le
    · split at h
      · rw [← some.inj h, length_replicate]
      · simp at h

/-- One of two nodes, with a hash that tells bodies of different length apart. -/
def pairNode (self : NodeId) : Env :=
  { Env.calm self twoNodes with
    compression := some runCompression
    hash := fun data => ⟨UInt8.ofNat data.length :: List.replicate 31 0, by simp⟩ }

/-- The reader of that node, which hears from both. -/
def pairReader : ReadEnv where
  networked := true
  defaultFetchStrategy := .localFirst
  fetchStrategy := none
  hasDecoder := true
  ecDataShards := 1
  decompressor := some runDecompressor
  elsewhere := fun _ => none
  hasCandidates := fun _ => true
  completion := List.range
  completes := fun _ => .refl _
  arrivals := [1, 2]
  repairArrivals := []
  repairFault := .none
  physical := 1
  nowMs := 0
  l1 := ⟨true, 0, some 16⟩
  l2 := ⟨true, 0, none⟩
  cacheNow := 0
  evict := fun _ _ => false

lemma pairNode_inverts (self : NodeId) : Inverts (pairNode self) pairReader := by
  intro c hc
  obtain rfl : runCompression = c := some.inj hc
  refine ⟨runDecompressor, rfl, fun data out h => ?_⟩
  obtain rfl := some.inj h
  cases data with
  | nil => rfl
  | cons x xs =>
    simp only [runDecompressor]
    split
    · rename_i hrun
      by_cases hxs : xs = []
      · simp [hxs]
      · simpa [hxs] using hrun.symm
    · simp

/-- A body of six equal bytes is stored compressed by node 2, and read back. -/
theorem read_your_write_compressed :
    let req : WriteRequest := ⟨"photos", "cat", [7, 7, 7, 7, 7, 7], 2⟩
    let out := putObject (pairNode 2) req .blank
    out.2 = .ok ⟨1, 1⟩ ∧
      (getObject (pairNode 2) pairReader (fun _ _ => (0, 1)) "photos" "cat" out.1).2 =
        .ok [7, 7, 7, 7, 7, 7] :=
  ⟨by decide, (@read_your_write_iff (pairNode 2) pairReader
    ⟨"photos", "cat", [7, 7, 7, 7, 7, 7], 2⟩ .blank _ ⟨1, 1⟩ (fun _ _ => (0, 1))
    (by exact Prod.ext rfl (by decide)) (by decide) (fun _ _ _ _ h => by cases h)
    (fun h => by cases h) (pairNode_inverts 2) (fun _ _ _ _ _ h => by cases h)).mpr
      ⟨by decide, by decide, by simp [World.blank], by decide⟩⟩

/-- Three acknowledged PUTs that the same node does not serve: the empty body, for which the
earlier version is served; the compressed body on node 1, whose copy on node 2 wins the tie and
fails the hash; and a body of two chunks where one data shard is enough for the fastest-k rule. -/
theorem write_not_read_back :
    (let w := (putObject (pairNode 1) ⟨"photos", "cat", [7], 2⟩ .blank).1
     let out := putObject (pairNode 1) ⟨"photos", "cat", [], 2⟩ w
     out.2 = .ok ⟨1, 2⟩ ∧
       (getObject (pairNode 1) pairReader (fun _ _ => (0, 1)) "photos" "cat" out.1).2 = .ok [7]) ∧
    (let out := putObject (pairNode 1) ⟨"photos", "cat", [7, 7, 7, 7, 7, 7], 2⟩ .blank
     out.2 = .ok ⟨1, 1⟩ ∧
       (getObject (pairNode 1) pairReader (fun _ _ => (0, 1)) "photos" "cat" out.1).2 =
         .error (.hashMismatch ((pairNode 1).hash [7, 7, 7, 7, 7, 7]) ((pairNode 1).hash [7]))) ∧
    (let body : Bytes := [1, 2, 3, 4, 5, 6, 7, 8, 9, 10, 11, 12, 13, 14, 15, 16, 17]
     let out := putObject (pairNode 2) ⟨"photos", "cat", body, 2⟩ .blank
     out.2 = .ok ⟨1, 1⟩ ∧
       (getObject (pairNode 2) { pairReader with fetchStrategy := some .fastestK }
         (fun _ _ => (0, 1)) "photos" "cat" out.1).2 =
         .error (.internal "all chunk fetches failed")) := by
  decide

end OceanFs.Handlers
