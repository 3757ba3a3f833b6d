import OceanFs.Handlers.Mutations
import OceanFs.Write.Steps

/-!
Which acknowledged mutations are accounted for on every replica.

A mutation is accounted for when enough members of the key's replica set hold its version, and
each of the others is owed a hint for it. The replica that serves a PUT keeps these ledgers in
step; a PUT of no bytes, a forwarded PUT and a DELETE served outside the replica set do not.
-/

namespace OceanFs.Handlers

open OceanFs.Core Metadata Grpc Cache Write List

inductive Mutation
  | put (req : WriteRequest)
  | delete (bucket : BucketId) (key : ObjectKey) (writeQuorum : UInt8)

namespace Mutation

def bucket : Mutation → BucketId
  | put req => req.bucket
  | delete b _ _ => b

def key : Mutation → ObjectKey
  | put req => req.key
  | delete _ k _ => k

def writeQuorum : Mutation → ℕ
  | put req => req.writeQuorum.toNat
  | delete _ _ q => q.toNat

def handle (env : Env) (hashKey : HashKey) : Mutation → World → Outcome Hlc
  | put req => putObject env req
  | delete b k q => deleteObject env hashKey b k q

/-- The key's state is the version that the mutation wrote at `hlc`. -/
def Wrote (hlc : Hlc) (s : KeyState) : Mutation → Prop
  | put _ => s.row.map (·.hlc) = some hlc
  | delete _ _ _ => s.tombstone.map (·.hlc) = some hlc

instance (hlc : Hlc) (s : KeyState) (m : Mutation) : Decidable (m.Wrote hlc s) := by
  cases m <;> exact inferInstanceAs (Decidable (_ = _))

def isDelete : Mutation → Bool
  | put _ => false
  | delete _ _ _ => true

/-- The hint is debt for this mutation. -/
def Owes (m : Mutation) (hlc : Hlc) (t : NodeId) (hint : HintRecord) : Prop :=
  hint.intendedFor = t ∧ hint.bucket = m.bucket ∧ hint.key = m.key ∧ hint.timestamp = hlc ∧
    (hint.payload = .delete ↔ m.isDelete = true)

instance (m : Mutation) (hlc : Hlc) (t : NodeId) (hint : HintRecord) :
    Decidable (m.Owes hlc t hint) :=
  inferInstanceAs (Decidable (_ ∧ _))

end Mutation

/-- The members of the replica set that hold the mutation's version. -/
def holders (env : Env) (m : Mutation) (hlc : Hlc) (w : World) : List NodeId :=
  (env.replicaSet m.key).filter fun t => m.Wrote hlc (w.keyAt t m.bucket m.key)

def Accounted (env : Env) (m : Mutation) (hlc : Hlc) (w : World) : Prop :=
  m.writeQuorum ≤ (holders env m hlc w).length ∧
    ∀ t ∈ env.replicaSet m.key, t ∉ holders env m hlc w → ∃ hint ∈ w.hints, m.Owes hlc t hint

instance (env : Env) (m : Mutation) (hlc : Hlc) (w : World) : Decidable (Accounted env m hlc w) :=
  inferInstanceAs (Decidable (_ ∧ _))

/-- No replica and no hint has the timestamp before the mutation. -/
def Fresh (env : Env) (m : Mutation) (hlc : Hlc) (w : World) : Prop :=
  (∀ t ∈ env.replicaSet m.key, ¬m.Wrote hlc (w.keyAt t m.bucket m.key)) ∧
    ∀ hint ∈ w.hints, hint.timestamp ≠ hlc

/-- A PUT carries bytes, and is served by a member of a replica set that has `W` members, or
forwarded to the only member; a DELETE is served by a member of such a set, or its calls take
effect on `W` members. -/
def Covered (env : Env) (m : Mutation) : Prop :=
  let set := env.replicaSet m.key
  match m with
  | .put req => req.data ≠ [] ∧
      ((env.self ∈ set ∧ m.writeQuorum ≤ set.length) ∨
        (env.self ∉ set ∧ set.length = 1 ∧ m.writeQuorum ≤ 1))
  | .delete _ _ _ =>
      (env.self ∈ set ∧ m.writeQuorum ≤ set.length) ∨
        (env.self ∉ set ∧ m.writeQuorum ≤ (set.filter (Erases env ·)).length)

/-! ### The tail of the handlers -/

section

variable (env : Env) (n t : NodeId) (b b' : BucketId) (k k' : ObjectKey) (w : World)

@[simp] lemma invalidateCaches_keyAt : (invalidateCaches n b k w).keyAt t b' k' = w.keyAt t b' k' :=
  rfl
@[simp] lemma invalidateCaches_hints : (invalidateCaches n b k w).hints = w.hints := rfl

@[simp] lemma invalidateNegative_keyAt :
    (invalidateNegative env n b k w).keyAt t b' k' = w.keyAt t b' k' :=
  World.setReplica_keyAt_of_store b' k' (by rfl) t
@[simp] lemma invalidateNegative_hints : (invalidateNegative env n b k w).hints = w.hints := rfl

lemma invalidateCacheOnReplicas_frame :
    (invalidateCacheOnReplicas env b k w).keyAt t b' k' = w.keyAt t b' k' ∧
      (invalidateCacheOnReplicas env b k w).hints = w.hints := by
  unfold invalidateCacheOnReplicas
  induction env.replicaSet k generalizing w with
  | nil => exact ⟨rfl, rfl⟩
  | cons x xs ih =>
    rw [foldl_cons]
    refine ⟨(ih _).1.trans ?_, (ih _).2.trans ?_⟩ <;> split <;> simp

lemma insertNegative_frame {env : Env} {n : NodeId} {b : BucketId} {k : ObjectKey} {w w' : World}
    {hashKey : HashKey} (h : insertNegative env hashKey n b k w = some w') (t : NodeId)
    (b' : BucketId) (k' : ObjectKey) :
    w'.keyAt t b' k' = w.keyAt t b' k' ∧ w'.hints = w.hints := by
  unfold insertNegative at h
  cases hc : (w.replica n).negativeCache with
  | none =>
    simp only [hc, Option.some.injEq] at h
    subst h
    exact ⟨rfl, rfl⟩
  | some c =>
    simp only [hc] at h
    obtain ⟨c', -, rfl⟩ := Option.map_eq_some_iff.mp h
    exact ⟨World.setReplica_keyAt_of_store b' k' (by rfl) t, rfl⟩

end

/-! ### PUT -/

variable {env : Env} {req : WriteRequest} {w w' : World} {h : Hlc}

lemma persistRow_ok {result : WriteResult} (hp : persistRow env req result w = (w', .ok ())) :
    w'.hints = w.hints ∧ ∀ m, w'.keyAt m req.bucket req.key =
      if m = env.self ∧ result.chunks ≠ [] then
        (w.keyAt m req.bucket req.key).put
          (segmentRow req.key result.size result.blake3Hash result.chunks result.hlc env.nowMs)
          env.nowMs
      else w.keyAt m req.bucket req.key := by
  unfold persistRow at hp
  by_cases hc : result.chunks = []
  · simp only [hc, ↓reduceIte, Prod.mk.injEq, and_true] at hp
    subst hp
    simp [hc]
  · rw [if_neg hc] at hp
    set row := segmentRow req.key result.size result.blake3Hash result.chunks result.hlc env.nowMs
      with hrow
    have hkey := fun m => w.putRow_keyAt env.self m req.bucket row env.nowMs env.handlerFault
    have hok := w.putRow_ok_iff env.self req.bucket row env.nowMs env.handlerFault
    have hh := w.putRow_hints env.self req.bucket row env.nowMs env.handlerFault
    rcases hq : w.putRow env.self req.bucket row env.nowMs env.handlerFault with ⟨w₁, _ | _⟩
    · simp [hq] at hp
    · simp only [hq, Prod.mk.injEq, and_true] at hp
      subst hp
      simp only [hq, true_iff] at hkey hok hh
      refine ⟨hh, fun m => ?_⟩
      by_cases hm : m = env.self
      · subst hm
        simpa [hok, hc, hrow] using hkey env.self
      · simpa [hm, hrow] using hkey m

lemma putObject_ok (hp : putObject env req w = (w', .ok h)) :
    ∃ w₁ result w₂, put env req w = (w₁, .ok result) ∧
      persistRow env req result w₁ = (w₂, .ok ()) ∧ h = result.hlc ∧
      w' = invalidateCacheOnReplicas env req.bucket req.key
        (invalidateNegative env env.self req.bucket req.key
          (invalidateCaches env.self req.bucket req.key w₂)) := by
  unfold putObject at hp
  split at hp
  · simp at hp
  · rcases hput : put env req w with ⟨w₁, e | result⟩
    · simp [hput] at hp
    · simp only [hput] at hp
      rcases hrow : persistRow env req result w₁ with ⟨w₂, e | _⟩
      · simp [hrow] at hp
      · simp only [hrow, Prod.mk.injEq, Except.ok.injEq] at hp
        exact ⟨w₁, result, w₂, rfl, hrow, hp.2.symm, hp.1.symm⟩

lemma cleared_frame (b : BucketId) (k : ObjectKey) (w : World) (n t : NodeId) :
    (invalidateCacheOnReplicas env b k (invalidateNegative env n b k
      (invalidateCaches n b k w))).keyAt t b k = w.keyAt t b k ∧
    (invalidateCacheOnReplicas env b k (invalidateNegative env n b k
      (invalidateCaches n b k w))).hints = w.hints := by
  obtain ⟨hk, hh⟩ := invalidateCacheOnReplicas_frame env t b b k k
    (invalidateNegative env n b k (invalidateCaches n b k w))
  exact ⟨by rw [hk]; simp, by rw [hh]; simp⟩

lemma put_ok {result : WriteResult} (hp : put env req w = (w', .ok result)) :
    env.servesRequests = true ∧ env.replicaSet req.key ≠ [] ∧
      ((env.self ∈ env.replicaSet req.key ∧ putLocal env req w = (w', .ok result)) ∨
        (env.self ∉ env.replicaSet req.key ∧ ∃ t,
          forwardTarget env (env.replicaSet req.key) = some t ∧
          forwardWrite env t req w = (w', .ok result))) := by
  unfold put at hp
  cases ha : admission env req with
  | error e => simp [ha] at hp
  | ok u =>
    have hs : env.servesRequests = true := by
      by_contra hs
      simp [admission, Bool.eq_false_iff.mpr hs] at ha
    have hne : env.replicaSet req.key ≠ [] := by
      intro hnil
      simp [admission, hnil, hs] at ha
    refine ⟨hs, hne, ?_⟩
    simp only [ha] at hp
    by_cases hself : env.self ∈ env.replicaSet req.key
    · rw [if_pos hself] at hp
      cases hl : admissionLocal env req with
      | error e => simp [hl] at hp
      | ok u => exact .inl ⟨hself, by simpa [hl] using hp⟩
    · rw [if_neg hself] at hp
      cases ht : forwardTarget env (env.replicaSet req.key) with
      | none => simp [ht] at hp
      | some t => exact .inr ⟨hself, t, rfl, by simpa [ht] using hp⟩

lemma mem_of_forwardTarget {set : List NodeId} {t : NodeId} (ht : forwardTarget env set = some t) :
    t ∈ set := by
  unfold forwardTarget at ht
  simp only [Option.or_eq_some_iff] at ht
  rcases ht with ht | ⟨-, ht | ⟨-, ht⟩⟩
  · exact mem_of_mem_filter (mem_of_find?_eq_some ht)
  · exact mem_of_mem_filter (mem_of_find?_eq_some ht)
  · exact mem_of_mem_filter (mem_of_mem_head? ht)

lemma forwardWrite_ok {t : NodeId} {result : WriteResult}
    (hp : forwardWrite env t req w = (w', .ok result)) :
    w'.hints = w.hints ∧ result.chunks ≠ [] ∧
    (∀ m, m ≠ t → w'.keyAt m req.bucket req.key = w.keyAt m req.bucket req.key) ∧
    (req.data ≠ [] → (w'.keyAt t req.bucket req.key).row.map (·.hlc) = some result.hlc) ∧
    (req.data = [] → w'.keyAt t req.bucket req.key = w.keyAt t req.bucket req.key) := by
  unfold forwardWrite at hp
  by_cases ha : (env.peer t).hasAddress <;> simp only [ha, Bool.false_eq_true, ↓reduceIte] at hp
  swap
  · simp at hp
  by_cases hr : (env.peer t).reached <;> simp only [hr, Bool.false_eq_true, ↓reduceIte] at hp
  swap
  · simp at hp
  set w₁ := (w.tick env.self env.physical).1 with hw₁
  set hlc := (w.tick env.self env.physical).2 with hhlc
  obtain ⟨hkey, hok⟩ := @appendSegment_spec (env.service t) (forwardRequest req hlc) hlc
    (w₁.replica t) rfl
  split at hp
  · rename_i hans
    simp only [Bool.and_eq_true, decide_eq_true_eq] at hans
    simp only [Prod.mk.injEq, Except.ok.injEq] at hp
    obtain ⟨rfl, rfl⟩ := hp
    have hreq : (forwardRequest req hlc).data = req.data := rfl
    rw [hreq] at hok
    refine ⟨rfl, by simp, fun m hm => ?_, fun hd => ?_, fun hd => ?_⟩
    · rw [World.setReplica_keyAt_of_ne _ _ _ _ hm, hw₁, World.tick_keyAt]
    · have hacc := (hok.mp hans.2).resolve_left hd
      rw [if_pos hacc] at hkey
      rw [World.setReplica_keyAt_self]
      exact congrArg (fun s : KeyState => s.row.map (·.hlc)) hkey
    · rw [if_neg fun hacc => hacc.1 hd] at hkey
      rw [World.setReplica_keyAt_self]
      exact hkey.trans (World.tick_keyAt ..)
  · simp at hp

lemma putLocal_empty {w₁ w₂ : World} {result : WriteResult} (hd : req.data = [])
    (hp : putLocal env req w = (w₁, .ok result))
    (hrow : persistRow env req result w₁ = (w₂, .ok ())) :
    w₂ = (w.tick env.self env.physical).1 := by
  unfold putLocal at hp
  simp only [hd, ↓reduceIte, Prod.mk.injEq, Except.ok.injEq] at hp
  obtain ⟨rfl, rfl⟩ := hp
  simp only [persistRow, ↓reduceIte, Prod.mk.injEq, and_true] at hrow
  exact hrow.symm

/-- What a successful PUT of some bytes leaves behind when a replica serves it. -/
structure ServedLocally (env : Env) (req : WriteRequest) (hlc : Hlc) (w w' : World) : Prop where
  own : (w'.keyAt env.self req.bucket req.key).row.map (·.hlc) = some hlc
  stored : ∀ t ∈ remoteTargets env (env.replicaSet req.key), Stores env req hlc t →
    (w'.keyAt t req.bucket req.key).row.map (·.hlc) = some hlc
  quorum : requiredQuorum env req.writeQuorum (env.replicaSet req.key) ≤
    ((remoteTargets env (env.replicaSet req.key)).filter (Acks env req hlc ·)).length + 1
  hints : ∃ chunks, w'.hints = w.hints ++
    ((remoteTargets env (env.replicaSet req.key)).filter (¬Acks env req hlc ·) ++
      unattempted env (env.replicaSet req.key)).map (writeHint env req chunks hlc)

/-- **A replica that serves a PUT** of some bytes writes its own copy, and acks or owes every
other. -/
theorem putLocal_ok {w₁ w₂ : World} {result : WriteResult} (hd : req.data ≠ [])
    (hp : putLocal env req w = (w₁, .ok result))
    (hrow : persistRow env req result w₁ = (w₂, .ok ())) :
    ServedLocally env req result.hlc w w₂ := by
  obtain ⟨hrh, hrk⟩ := persistRow_ok hrow
  unfold putLocal at hp
  simp only [hd, ↓reduceIte] at hp
  set w₀ := (w.tick env.self env.physical).1 with hw₀
  set hlc := (w.tick env.self env.physical).2
  obtain ⟨hlh, -, -, hlocal⟩ := @writeLocal_spec env req hlc hd w₀
  rcases hwl : writeLocal env req hlc w₀ with ⟨v, e | ⟨chunks, row⟩⟩
  · simp [hwl] at hp
  simp only [hwl] at hp hlh hlocal
  obtain ⟨hrc, -, hvk⟩ := hlocal
  obtain ⟨rfl, hq, hkey, hhints, -, -⟩ := replicateAndHint_ok hp
  have hnotTarget : env.self ∉ remoteTargets env (env.replicaSet req.key) :=
    fun hmem => (mem_of_mem_remoteTargets hmem).2 rfl
  refine ⟨?_, fun t ht hst => ?_, hq, chunks, ?_⟩
  · -- the row is the inline one or the handler's
    have hown := hkey env.self
    rw [if_neg (fun hc => hnotTarget hc.1), hvk] at hown
    rw [hrk, hown]
    by_cases hc : chunks = []
    · simp [hc, hrc.mpr hc]
    · simp [hc]
  · have hts := (mem_of_mem_remoteTargets ht).2
    rw [hrk, if_neg (fun hc => hts hc.1), hkey, if_pos ⟨ht, hst⟩]
    simp [replicaRow]
  · rw [hrh, hhints, hlh, hw₀, World.tick_hints]

lemma requiredQuorum_eq {q : UInt8} {key : ObjectKey} (h : q.toNat ≤ (env.replicaSet key).length) :
    requiredQuorum env q (env.replicaSet key) = q.toNat := by
  unfold requiredQuorum
  rw [env.replicaSet_length_mod]
  split <;> omega

lemma mem_holders {m : Mutation} {t : NodeId} : t ∈ holders env m h w ↔
    t ∈ env.replicaSet m.key ∧ m.Wrote h (w.keyAt t m.bucket m.key) := by
  simp [holders]

lemma holders_length_le (m : Mutation) :
    (holders env m h w).length ≤ (env.replicaSet m.key).length :=
  length_filter_le ..

lemma holders_congr {m : Mutation}
    (hk : ∀ t ∈ env.replicaSet m.key, w'.keyAt t m.bucket m.key = w.keyAt t m.bucket m.key) :
    holders env m h w' = holders env m h w := by
  refine filter_congr fun t ht => ?_
  rw [decide_eq_decide, hk t ht]

lemma ServedLocally.accounted (hs : ServedLocally env req h w w') (hd : req.data ≠ [])
    (hself : env.self ∈ env.replicaSet req.key)
    (hW : req.writeQuorum.toNat ≤ (env.replicaSet req.key).length) :
    Accounted env (.put req) h w' := by
  have hmem : ∀ t ∈ remoteTargets env (env.replicaSet req.key),
      t ∈ env.replicaSet req.key ∧ t ≠ env.self := fun t => mem_of_mem_remoteTargets
  constructor
  · -- this node and the targets that acked are holders
    have hnd : (env.self ::
        (remoteTargets env (env.replicaSet req.key)).filter (Acks env req h ·)).Nodup := by
      refine nodup_cons.mpr ⟨fun hc => ?_, ?_⟩
      · exact (hmem _ (mem_of_mem_filter hc)).2 rfl
      · exact (remoteTargets_nodup (env.replicaSet_nodup _)).filter _
    have hsub : env.self ::
        (remoteTargets env (env.replicaSet req.key)).filter (Acks env req h ·) ⊆
          holders env (.put req) h w' := by
      intro t ht
      rcases mem_cons.mp ht with rfl | ht
      · exact mem_holders.mpr ⟨hself, hs.own⟩
      · obtain ⟨htt, hack⟩ := mem_filter.mp ht
        have hst := Acks.stores (of_decide_eq_true hack) hd
        exact mem_holders.mpr ⟨(hmem t htt).1, hs.stored t htt hst⟩
    have hlen := (hnd.subperm hsub).length_le
    have hq := hs.quorum
    rw [requiredQuorum_eq hW] at hq
    rw [length_cons] at hlen
    exact hq.trans hlen
  · intro t ht hnot
    obtain ⟨chunks, hhints⟩ := hs.hints
    have hts : t ≠ env.self := by
      rintro rfl
      exact hnot (mem_holders.mpr ⟨ht, hs.own⟩)
    refine ⟨writeHint env req chunks h t, ?_, rfl, rfl, rfl, rfl, ?_⟩
    · rw [hhints]
      refine mem_append_right _ (mem_map_of_mem ?_)
      by_cases htt : t ∈ remoteTargets env (env.replicaSet req.key)
      · -- an attempted target without the row did not ack
        have hnack : ¬Acks env req h t := fun hack =>
          hnot (mem_holders.mpr ⟨ht, hs.stored t htt (hack.stores hd)⟩)
        exact mem_append_left _ (mem_filter.mpr ⟨htt, by simpa using hnack⟩)
      · exact mem_append_right _ (mem_filter.mpr ⟨ht, by simp [hts, htt]⟩)
    · simp only [writeHint, Mutation.isDelete, Bool.false_eq_true, iff_false]
      split
      · simp
      · split <;> simp

lemma Fresh.not_accounted (hf : Fresh env (.put req) h w) (hne : env.replicaSet req.key ≠ [])
    (hkeys : ∀ t ∈ env.replicaSet req.key,
      w'.keyAt t req.bucket req.key = w.keyAt t req.bucket req.key)
    (hhints : w'.hints = w.hints) : ¬Accounted env (.put req) h w' := by
  intro hacc
  obtain ⟨t, ht⟩ := exists_mem_of_ne_nil _ hne
  have hnot : t ∉ holders env (.put req) h w' := fun hc => by
    have := (mem_holders.mp hc).2
    rw [show (Mutation.put req).bucket = req.bucket from rfl,
      show (Mutation.put req).key = req.key from rfl, hkeys t ht] at this
    exact hf.1 t ht this
  obtain ⟨hint, hmem, -, -, -, hts, -⟩ := hacc.2 t ht hnot
  exact hf.2 hint (hhints ▸ hmem) hts

lemma put_accounted (hp : putObject env req w = (w', .ok h)) :
    (Covered env (.put req) → Accounted env (.put req) h w') ∧
      (Fresh env (.put req) h w → Accounted env (.put req) h w' → Covered env (.put req)) := by
  obtain ⟨w₁, result, w₂, hput, hrow, rfl, rfl⟩ := putObject_ok hp
  have hclear := @cleared_frame env req.bucket req.key w₂ env.self
  have hcongr : ∀ v : World, (∀ t, v.keyAt t req.bucket req.key = w₂.keyAt t req.bucket req.key) →
      v.hints = w₂.hints →
      (Accounted env (.put req) result.hlc v ↔ Accounted env (.put req) result.hlc w₂) := by
    intro v hkeys hhints
    rw [Accounted, Accounted, holders_congr fun t _ => hkeys t, hhints]
  rw [hcongr _ (fun t => (hclear t).1) (hclear env.self).2]
  obtain ⟨-, hne, ⟨hself, hl⟩ | ⟨hself, t, ht, hfw⟩⟩ := put_ok hput
  · by_cases hd : req.data = []
    · -- an empty body leaves everything as it was
      have hun : (∀ m, w₂.keyAt m req.bucket req.key = w.keyAt m req.bucket req.key) ∧
          w₂.hints = w.hints := by
        rw [putLocal_empty hd hl hrow]
        simp
      refine ⟨fun hc => absurd hd hc.1, fun hf hacc => ?_⟩
      exact absurd hacc (hf.not_accounted hne (fun m _ => hun.1 m) hun.2)
    · have hs := putLocal_ok hd hl hrow
      refine ⟨fun hc => ?_, fun _ hacc => ⟨hd, .inl ⟨hself, hacc.1.trans (holders_length_le _)⟩⟩⟩
      rcases hc.2 with ⟨-, hW⟩ | ⟨hns, -⟩
      · exact hs.accounted hd hself hW
      · exact absurd hself hns
  · -- forwarded: the handler's row is on this node, which is no member
    obtain ⟨hfh, hchunks, hother, hsome, hnone⟩ := forwardWrite_ok hfw
    obtain ⟨hrh, hrk⟩ := persistRow_ok hrow
    have hmt : t ∈ env.replicaSet req.key := mem_of_forwardTarget ht
    have hkey₂ : ∀ m ∈ env.replicaSet req.key,
        w₂.keyAt m req.bucket req.key = w₁.keyAt m req.bucket req.key := fun m hm =>
      (hrk m).trans (if_neg fun hc : m = env.self ∧ _ => hself (hc.1 ▸ hm))
    constructor
    · rintro ⟨hd, ⟨hs, -⟩ | ⟨-, hone, hW⟩⟩
      · exact absurd hs hself
      obtain ⟨x, hx⟩ := length_eq_one_iff.mp
        (show (env.replicaSet req.key).length = 1 from hone)
      have hall : ∀ m ∈ env.replicaSet req.key, m = t := by
        intro m hm
        rw [hx, mem_singleton] at hm hmt
        rw [hm, hmt]
      have hhold : t ∈ holders env (.put req) result.hlc w₂ := by
        refine mem_holders.mpr ⟨hmt, ?_⟩
        change (w₂.keyAt t req.bucket req.key).row.map (·.hlc) = some result.hlc
        rw [hkey₂ t hmt]
        exact hsome hd
      exact ⟨hW.trans (length_pos_of_mem hhold), fun m hm hnot =>
        absurd (hall m hm ▸ hhold) hnot⟩
    · intro hf hacc
      have hhints₂ : w₂.hints = w.hints := hrh.trans hfh
      have hd : req.data ≠ [] := by
        intro hd
        refine hf.not_accounted hne (fun m hm => ?_) hhints₂ hacc
        rw [hkey₂ m hm]
        by_cases hmt' : m = t
        · exact hmt' ▸ hnone hd
        · exact hother m hmt'
      -- a member other than the target has neither the row nor a hint
      have hall : ∀ m ∈ env.replicaSet req.key, m = t := by
        intro m hm
        by_contra hmt'
        have hnot : m ∉ holders env (.put req) result.hlc w₂ := fun hc => by
          have := (mem_holders.mp hc).2
          rw [show (Mutation.put req).bucket = req.bucket from rfl,
            show (Mutation.put req).key = req.key from rfl, hkey₂ m hm, hother m hmt'] at this
          exact hf.1 m hm this
        obtain ⟨hint, hmem, -, -, -, hts, -⟩ := hacc.2 m hm hnot
        exact hf.2 hint (hhints₂ ▸ hmem) hts
      have hone : (env.replicaSet req.key).length = 1 := by
        have hle := ((env.replicaSet_nodup req.key).subperm
          (show env.replicaSet req.key ⊆ [t] from fun m hm => by simp [hall m hm])).length_le
        have hpos := length_pos_iff.mpr hne
        simp only [length_singleton] at hle
        omega
      exact ⟨hd, .inr ⟨hself, hone, hone ▸ hacc.1.trans (holders_length_le _)⟩⟩

/-! ### DELETE -/

variable {hashKey : HashKey} {bucket : BucketId} {key : ObjectKey} {q : UInt8}

/-- What a successful DELETE leaves behind: its tombstone on every member that takes it, a
confirmation or a hint from each of the others, and a quorum that counts this node. -/
lemma deleteObject_ok (hp : deleteObject env hashKey bucket key q w = (w', .ok h)) :
    (∀ m ∈ env.replicaSet key, w'.keyAt m bucket key =
      if m = env.self then (w.keyAt m bucket key).delete h env.nowMs
      else if Erases env m then (w.keyAt m bucket key).delete h (env.service m).nowMs
      else w.keyAt m bucket key) ∧
    requiredQuorum env q (env.replicaSet key) ≤
      1 + ((env.replicaSet key).filter fun t => t ≠ env.self ∧ Confirms env t).length ∧
    w'.hints = w.hints ++ ((env.replicaSet key).filter fun t =>
      t ≠ env.self ∧ ¬Confirms env t).map (deleteHint bucket key h) := by
  unfold deleteObject at hp
  simp only at hp
  set w₀ := (w.tick env.self env.physical).1 with hw₀
  set hlc := (w.tick env.self env.physical).2
  split at hp
  · simp at hp
  have hkey₁ := fun m => w₀.deleteRow_keyAt env.self m bucket key hlc env.nowMs env.handlerFault
  have hok := w₀.deleteRow_ok_iff env.self bucket key hlc env.nowMs env.handlerFault
  have hh₁ := w₀.deleteRow_hints env.self bucket key hlc env.nowMs env.handlerFault
  rcases hd : w₀.deleteRow env.self bucket key hlc env.nowMs env.handlerFault with ⟨w₁, _ | _⟩
  · simp [hd] at hp
  simp only [hd, true_iff] at hp hkey₁ hok hh₁
  rcases hdel : Write.delete env bucket key hlc w₁ with ⟨w₂, e | n⟩
  · simp [hdel] at hp
  simp only [hdel] at hp
  have hrem : deleteRemote env bucket key hlc (env.replicaSet key) w₁ = (w₂, .ok n) := by
    unfold Write.delete at hdel
    simp only at hdel
    split at hdel
    · simp at hdel
    · split at hdel
      · simp at hdel
      · exact hdel
  obtain ⟨hkey₂, hn, hh₂⟩ := deleteRemote_spec (env.replicaSet_nodup key) hrem
  split at hp
  · simp at hp
  rename_i hq
  split at hp
  · simp at hp
  rename_i w₃ hneg
  simp only [Prod.mk.injEq, Except.ok.injEq] at hp
  obtain ⟨rfl, rfl⟩ := hp
  have hframe := fun m => insertNegative_frame hneg m bucket key
  have hinv := fun m => invalidateCacheOnReplicas_frame env m bucket bucket key key
    (invalidateCaches env.self bucket key w₂)
  refine ⟨fun m hm => ?_, by omega, ?_⟩
  · rw [(hframe m).1, (hinv m).1, invalidateCaches_keyAt, hkey₂, hkey₁]
    by_cases hs : m = env.self
    · simp [hs, hok, hw₀]
    · simp [hs, hm, hw₀]
  · rw [(hframe env.self).2, (hinv env.self).2, invalidateCaches_hints, hh₂, hh₁, hw₀,
      World.tick_hints]

lemma delete_wrote_iff (hf : Fresh env (.delete bucket key q) h w)
    (hp : deleteObject env hashKey bucket key q w = (w', .ok h)) {m : NodeId}
    (hm : m ∈ env.replicaSet key) :
    (Mutation.delete bucket key q).Wrote h (w'.keyAt m bucket key) ↔
      m = env.self ∨ Erases env m := by
  rw [(deleteObject_ok hp).1 m hm]
  by_cases hs : m = env.self
  · simp [hs, Mutation.Wrote]
  · by_cases he : Erases env m
    · simp [hs, he, Mutation.Wrote]
    · simp only [hs, he, ↓reduceIte, or_self, iff_false]
      exact hf.1 m hm

lemma delete_accounted (hp : deleteObject env hashKey bucket key q w = (w', .ok h)) :
    (Covered env (.delete bucket key q) → Accounted env (.delete bucket key q) h w') ∧
      (Fresh env (.delete bucket key q) h w → Accounted env (.delete bucket key q) h w' →
        Covered env (.delete bucket key q)) := by
  obtain ⟨hkey, hq, hhints⟩ := deleteObject_ok hp
  have herase : ∀ t ∈ env.replicaSet key, t = env.self ∨ Erases env t →
      t ∈ holders env (.delete bucket key q) h w' := by
    intro t ht hor
    refine mem_holders.mpr ⟨ht, ?_⟩
    change (w'.keyAt t bucket key).tombstone.map (·.hlc) = some h
    rw [hkey t ht]
    by_cases hs : t = env.self
    · simp [hs]
    · simp [hs, hor.resolve_left hs]
  constructor
  · intro hc
    refine ⟨?_, fun t ht hnot => ⟨deleteHint bucket key h t, ?_, rfl, rfl, rfl, rfl, by
      simp [deleteHint, Mutation.isDelete]⟩⟩
    · rcases hc with ⟨hself, hW⟩ | ⟨-, hW⟩
      · -- this node and the members that confirmed are holders
        have hnd : (env.self :: (env.replicaSet key).filter fun t =>
            t ≠ env.self ∧ Confirms env t).Nodup :=
          nodup_cons.mpr ⟨by simp, (env.replicaSet_nodup key).filter _⟩
        have hsub : (env.self :: (env.replicaSet key).filter fun t =>
            t ≠ env.self ∧ Confirms env t) ⊆ holders env (.delete bucket key q) h w' := by
          intro t ht
          rcases mem_cons.mp ht with rfl | ht
          · exact herase _ hself (.inl rfl)
          · obtain ⟨hm, hc⟩ := mem_filter.mp ht
            exact herase t hm (.inr (of_decide_eq_true hc).2.1)
        have hlen := (hnd.subperm hsub).length_le
        rw [requiredQuorum_eq (show q.toNat ≤ (env.replicaSet key).length from hW)] at hq
        rw [length_cons] at hlen
        change q.toNat ≤ _
        omega
      · have hsub : (env.replicaSet key).filter (Erases env ·) ⊆
            holders env (.delete bucket key q) h w' := by
          intro t ht
          obtain ⟨hm, he⟩ := mem_filter.mp ht
          exact herase t hm (.inr (of_decide_eq_true he))
        exact hW.trans (((env.replicaSet_nodup key).filter _).subperm hsub).length_le
    · -- a member without the tombstone did not confirm
      have hts : ¬(t = env.self ∨ Erases env t) := fun hor => hnot (herase t ht hor)
      rw [hhints]
      refine mem_append_right _ (mem_map_of_mem (mem_filter.mpr ⟨ht, ?_⟩))
      have hnc : ¬Confirms env t := fun hc => hts (.inr hc.1)
      exact decide_eq_true ⟨fun he => hts (.inl he), hnc⟩
  · intro hf hacc
    by_cases hself : env.self ∈ env.replicaSet key
    · exact .inl ⟨hself, hacc.1.trans (holders_length_le _)⟩
    · refine .inr ⟨hself, hacc.1.trans (le_of_eq ?_)⟩
      refine congrArg List.length (filter_congr fun m hm => ?_)
      have hiff := delete_wrote_iff hf hp hm
      have hms : m ≠ env.self := fun he => hself (he ▸ hm)
      rw [decide_eq_decide]
      exact hiff.trans (or_iff_right hms)

/-- **Every acknowledged mutation is accounted for on every replica exactly when it is covered.**
That it is then accounted for needs nothing of the state before; for the other direction, no
replica may already hold a version with the mutation's timestamp. -/
theorem acknowledged_accounted_iff (env : Env) (hashKey : HashKey) (m : Mutation) (w w' : World)
    (hlc : Hlc) (hp : m.handle env hashKey w = (w', .ok hlc)) :
    (Covered env m → Accounted env m hlc w') ∧
      (Fresh env m hlc w → Accounted env m hlc w' → Covered env m) := by
  cases m with
  | put req => exact put_accounted hp
  | delete b k q => exact delete_accounted hp

/-- A ring of two nodes, in which every key has both as its replicas. -/
def twoNodes : Routing.Ring := ⟨[(0, 1), (10, 2)], by decide, 2⟩

theorem acknowledged_accounted_put :
    let m : Mutation := .put ⟨"photos", "cat", [7], 2⟩
    let out := m.handle (.calm 1 twoNodes) (fun _ _ => (0, 1)) .blank
    out.2 = .ok ⟨1, 1⟩ ∧ Accounted (.calm 1 twoNodes) m ⟨1, 1⟩ out.1 :=
  ⟨by decide, (acknowledged_accounted_iff (.calm 1 twoNodes) (fun _ _ => (0, 1))
    (.put ⟨"photos", "cat", [7], 2⟩) .blank _ ⟨1, 1⟩ (by exact Prod.ext rfl (by decide))).1
      ⟨by decide, .inl (by decide)⟩⟩

/-- The node returns success to a PUT of no bytes, to a PUT it forwards to one of the two
members, and to a DELETE of a key it is no replica of that only one of them took, and none of
them is accounted for. -/
theorem acknowledged_unaccounted :
    (let m : Mutation := .put ⟨"photos", "cat", [], 2⟩
     let out := m.handle (.calm 1 twoNodes) (fun _ _ => (0, 1)) .blank
     out.2 = .ok ⟨1, 1⟩ ∧ ¬Accounted (.calm 1 twoNodes) m ⟨1, 1⟩ out.1) ∧
    (let m : Mutation := .put ⟨"photos", "cat", [7], 2⟩
     let out := m.handle (.calm 3 twoNodes) (fun _ _ => (0, 1)) .blank
     out.2 = .ok ⟨1, 1⟩ ∧ ¬Accounted (.calm 3 twoNodes) m ⟨1, 1⟩ out.1) ∧
    (let m : Mutation := .delete "photos" "cat" 2
     let env : Env := { Env.calm 3 twoNodes with
       peer := fun n => ⟨true, true, .preferred, if n = 2 then .lostRequest else .answered⟩ }
     let out := m.handle env (fun _ _ => (0, 1)) .blank
     out.2 = .ok ⟨1, 1⟩ ∧ ¬Accounted env m ⟨1, 1⟩ out.1) := by
  decide

end OceanFs.Handlers
