import Mathlib.Data.List.TakeWhile
import OceanFs.Write.Coordinator

/-!
What each step of the write path leaves behind: one lemma for each function, in terms of the
key on every node and of the hints. The fan-outs are described exactly, target by target.
-/

namespace OceanFs.Write

open OceanFs.Core Metadata Grpc Routing List

variable {env : Env} {req : WriteRequest} {chunks : List ChunkRef} {hlc : Hlc}

/-- The timestamp of a write that starts in the world. -/
def writeStamp (env : Env) (w : World) : Hlc := (w.tick env.self env.physical).2

/-! ### The local write -/

lemma storeChunk_frame (tier : String) (i : ℕ) (data : Bytes) (w : World) :
    (storeChunk env tier i data w).1.replica = w.replica ∧
      (storeChunk env tier i data w).1.hints = w.hints ∧
      (storeChunk env tier i data w).1.inFlight = w.inFlight := by
  unfold storeChunk
  split
  · simp
  · split <;> simp [World.appendBytes]

lemma storeChunks_frame (tier : String) (i : ℕ) (pieces : List Bytes) (w : World) :
    (storeChunks env tier i pieces w).1.replica = w.replica ∧
      (storeChunks env tier i pieces w).1.hints = w.hints ∧
      (storeChunks env tier i pieces w).1.inFlight = w.inFlight ∧
      ∀ cs, (storeChunks env tier i pieces w).2 = .ok cs → cs.length = pieces.length := by
  induction pieces generalizing i w with
  | nil =>
    refine ⟨rfl, rfl, rfl, fun cs h => ?_⟩
    rw [← Except.ok.inj h, length_nil, length_nil]
  | cons data rest ih =>
    obtain ⟨hr, hh, hf⟩ := @storeChunk_frame env tier i data w
    rcases hone : storeChunk env tier i data w with ⟨w₁, _ | c⟩
    · simp only [hone] at hr hh hf
      simp [storeChunks, hone, hr, hh, hf]
    · simp only [hone] at hr hh hf
      obtain ⟨ihr, ihh, ihf, ihl⟩ := ih (i + 1) w₁
      rcases hrest : storeChunks env tier (i + 1) rest w₁ with ⟨w₂, _ | cs⟩ <;>
        rw [hrest] at ihr ihh ihf ihl <;>
        simp_all [storeChunks]

lemma split_ne_nil {n : ℕ} {data : Bytes} (hn : n ≠ 0) (hd : data ≠ []) : split n data ≠ [] := by
  have hlen : 0 < data.length := length_pos_iff.mpr hd
  have hdiv : 0 < (data.length + n - 1) / n := Nat.div_pos (by omega) (by omega)
  intro h
  have := congrArg List.length h
  simp only [split, length_map, length_range, length_nil] at this
  omega

/-- What the outcome of a local write says about the key: the row of an inline object is put,
and nothing else; what fails leaves every key alone. -/
def WroteLocally (env : Env) (req : WriteRequest) (hlc : Hlc) (w : World)
    (out : Outcome (List ChunkRef × Bool)) : Prop :=
  out.1.hints = w.hints ∧ out.1.inFlight = w.inFlight ∧
  (out.1.replica env.self).clock = (w.replica env.self).clock ∧
  match out.2 with
  | .error _ => ∀ m, out.1.keyAt m req.bucket req.key = w.keyAt m req.bucket req.key
  | .ok (chunks, rowWritten) => (rowWritten = true ↔ chunks = []) ∧
      (rowWritten = true ↔ env.sizeConfig.classify req.data.length = .inline) ∧
      ∀ m, out.1.keyAt m req.bucket req.key =
        if m = env.self ∧ rowWritten = true then
          (w.keyAt m req.bucket req.key).put
            (inlineRow req.key req.data (env.hash req.data) hlc env.nowMs) env.nowMs
        else w.keyAt m req.bucket req.key

lemma wroteLocally_chunked (w : World) (tier : String) {pieces : List Bytes} (h : pieces ≠ [])
    (htier : env.sizeConfig.classify req.data.length ≠ .inline) :
    WroteLocally env req hlc w (writeLocal.chunked env w tier pieces) := by
  obtain ⟨hr, hh, hf, hl⟩ := @storeChunks_frame env tier 0 pieces w
  rcases hs : storeChunks env tier 0 pieces w with ⟨w₁, _ | cs⟩
  · simp only [hs] at hr hh hf
    simp [WroteLocally, writeLocal.chunked, hs, hh, hf, World.keyAt, hr]
  · simp only [hs] at hr hh hf hl
    have hcs : cs ≠ [] := by
      rw [← length_pos_iff, hl cs rfl]
      exact length_pos_iff.mpr h
    simp [WroteLocally, writeLocal.chunked, hs, hh, hf, World.keyAt, hr, hcs, htier]

theorem writeLocal_spec (hd : req.data ≠ []) (w : World) :
    WroteLocally env req hlc w (writeLocal env req hlc w) := by
  unfold writeLocal
  cases htier : env.sizeConfig.classify req.data.length with
  | inline =>
    simp only
    set row := inlineRow req.key req.data (env.hash req.data) hlc env.nowMs with hrow
    have hkey := fun m => w.putRow_keyAt env.self m req.bucket row env.nowMs env.inlineFault
    have hok := w.putRow_ok_iff env.self req.bucket row env.nowMs env.inlineFault
    have hframe := w.putRow_frame env.self req.bucket row env.nowMs env.inlineFault
    rcases hp : w.putRow env.self req.bucket row env.nowMs env.inlineFault with ⟨w₁, _ | _⟩
    · simp only [hp, reduceCtorEq, false_iff] at hkey hok hframe
      exact ⟨hframe.1, hframe.2.1, hframe.2.2, fun m => by simpa [hok, hrow] using hkey m⟩
    · simp only [hp, true_iff] at hkey hok hframe
      refine ⟨hframe.1, hframe.2.1, hframe.2.2, by simp, by simp [htier], fun m => ?_⟩
      by_cases hm : m = env.self
      · subst hm
        simpa [hok, hrow] using hkey env.self
      · simpa [hm, hrow] using hkey m
  | small => exact wroteLocally_chunked w _ (by simp) (by simp [htier])
  | standard => exact wroteLocally_chunked w _ (by simp) (by simp [htier])
  | multi =>
    simp only
    split
    · exact ⟨rfl, rfl, rfl, fun _ => rfl⟩
    · rename_i hz
      exact wroteLocally_chunked w _ (split_ne_nil hz hd) (by simp [htier])

/-! ### Replication -/

/-- The append reaches the target and is stored there. -/
def Stores (env : Env) (req : WriteRequest) (hlc : Hlc) (t : NodeId) : Prop :=
  (env.peer t).reached = true ∧ AcceptsReplicate (env.service t) req.bucket req.data hlc

instance (t : NodeId) : Decidable (Stores env req hlc t) := inferInstanceAs (Decidable (_ ∧ _))

/-- The target's ack is counted. -/
def Acks (env : Env) (req : WriteRequest) (hlc : Hlc) (t : NodeId) : Prop :=
  (env.peer t).reached = true ∧ (env.peer t).fate = .answered ∧
    (req.data = [] ∨ AcceptsReplicate (env.service t) req.bucket req.data hlc)

instance (t : NodeId) : Decidable (Acks env req hlc t) := inferInstanceAs (Decidable (_ ∧ _))

lemma Acks.stores {t : NodeId} (h : Acks env req hlc t) (hd : req.data ≠ []) :
    Stores env req hlc t :=
  ⟨h.1, h.2.2.resolve_left hd⟩

/-- The row that the write leaves on another replica. -/
def replicaRow (env : Env) (req : WriteRequest) (chunks : List ChunkRef) (hlc : Hlc) (t : NodeId) :
    ObjectMetadata :=
  replicatedRow (env.service t) req.bucket req.key req.data (env.hash req.data) chunks hlc

def replicaRequest (env : Env) (req : WriteRequest) (chunks : List ChunkRef) (hlc : Hlc) :
    SegmentAppendRequest :=
  replicateRequest req.bucket req.key req.data (env.hash req.data) chunks hlc

lemma Peer.overdue_of_reached {p : Peer} (h : p.reached = true) : p.overdue = false := by
  simp only [Peer.reached, Bool.and_eq_true, Bool.or_eq_true, decide_eq_true_eq] at h
  rcases h.2 with hf | hf <;> simp [Peer.overdue, hf]

lemma replicateToSingle_spec (t m : NodeId) (w : World) :
    (replicateToSingle env req chunks hlc t w).1.keyAt m req.bucket req.key =
      (if m = t ∧ Stores env req hlc t then
        (w.keyAt t req.bucket req.key).put (replicaRow env req chunks hlc t) (env.service t).nowMs
      else w.keyAt m req.bucket req.key) ∧
    (replicateToSingle env req chunks hlc t w).1.hints = w.hints ∧
    (replicateToSingle env req chunks hlc t w).1.segments = w.segments ∧
    (replicateToSingle env req chunks hlc t w).1.inFlight = w.inFlight ++
      (if (env.peer t).overdue then [(t, replicaRequest env req chunks hlc)] else []) ∧
    (replicateToSingle env req chunks hlc t w).2 = decide (Acks env req hlc t) := by
  unfold replicateToSingle
  by_cases hr : (env.peer t).reached
  · have hno : (env.peer t).overdue = false := Peer.overdue_of_reached hr
    simp only [hr, hno, ↓reduceIte, World.setReplica_hints, World.setReplica_segments,
      World.setReplica_inFlight, Bool.false_eq_true, append_nil, true_and]
    constructor
    · by_cases hm : m = t
      · subst hm
        rw [World.setReplica_keyAt_self, append_replicateRequest_keys]
        simp [Stores, hr, replicaRow, World.keyAt]
      · rw [World.setReplica_keyAt_of_ne _ _ _ _ hm, if_neg (by tauto)]
    · have hok := append_replicateRequest_isOk (env.service t) req.bucket req.key req.data
        (env.hash req.data) chunks hlc (w.replica t)
      rw [Bool.eq_iff_iff]
      simp [Acks, hr, ← hok]
  · simp [hr, Stores, Acks, World.leaveInFlight_inFlight, replicaRequest]

lemma replicateToSingle_replica_of_ne {t m : NodeId} (h : m ≠ t) (w : World) :
    (replicateToSingle env req chunks hlc t w).1.replica m = w.replica m := by
  unfold replicateToSingle
  simp only
  split
  · exact World.setReplica_replica_of_ne _ _ h
  · simp only [World.leaveInFlight]
    split <;> rfl

lemma replicateWrite_cons (t : NodeId) (ts : List NodeId) (w : World) :
    replicateWrite env req chunks hlc (t :: ts) w =
      (let one := replicateToSingle env req chunks hlc t w
       let rest := replicateWrite env req chunks hlc ts one.1
       if one.2 then (rest.1, rest.2.1 + 1, rest.2.2) else (rest.1, rest.2.1, t :: rest.2.2)) :=
  rfl

variable {targets : List NodeId}

/-- **The fan-out of a write.** It puts its row on every target that stores it, and sorts the
targets by whether their ack came. -/
theorem replicateWrite_spec (hnd : targets.Nodup) (w : World) :
    (∀ m, (replicateWrite env req chunks hlc targets w).1.keyAt m req.bucket req.key =
      if m ∈ targets ∧ Stores env req hlc m then
        (w.keyAt m req.bucket req.key).put (replicaRow env req chunks hlc m) (env.service m).nowMs
      else w.keyAt m req.bucket req.key) ∧
    (replicateWrite env req chunks hlc targets w).1.hints = w.hints ∧
    (replicateWrite env req chunks hlc targets w).1.segments = w.segments ∧
    (replicateWrite env req chunks hlc targets w).1.inFlight = w.inFlight ++
      (targets.filter fun t => (env.peer t).overdue).map (·, replicaRequest env req chunks hlc) ∧
    (replicateWrite env req chunks hlc targets w).2.1 =
      (targets.filter (Acks env req hlc ·)).length ∧
    (replicateWrite env req chunks hlc targets w).2.2 =
      targets.filter (¬Acks env req hlc ·) := by
  induction targets generalizing w with
  | nil => simp [replicateWrite]
  | cons t ts ih =>
    obtain ⟨ht, hts⟩ := nodup_cons.mp hnd
    rw [replicateWrite_cons]
    have hone := fun m => @replicateToSingle_spec env req chunks hlc t m w
    obtain ⟨-, hh, hs, hfl, hack⟩ := hone t
    obtain ⟨ikey, ihh, ihs, ihfl, ihn, ihf⟩ := ih hts (replicateToSingle env req chunks hlc t w).1
    have hkey : ∀ m, (replicateWrite env req chunks hlc ts
        (replicateToSingle env req chunks hlc t w).1).1.keyAt m req.bucket req.key =
        if m ∈ t :: ts ∧ Stores env req hlc m then
          (w.keyAt m req.bucket req.key).put (replicaRow env req chunks hlc m)
            (env.service m).nowMs
        else w.keyAt m req.bucket req.key := by
      intro m
      rw [ikey m, (hone m).1]
      by_cases hm : m = t
      · subst hm
        simp [ht]
      · simp [hm]
    have hflight : (replicateWrite env req chunks hlc ts
        (replicateToSingle env req chunks hlc t w).1).1.inFlight = w.inFlight ++
        ((t :: ts).filter fun t => (env.peer t).overdue).map
          (·, replicaRequest env req chunks hlc) := by
      rw [ihfl, hfl]
      cases ho : (env.peer t).overdue <;> simp [ho]
    simp only [hack]
    by_cases ha : Acks env req hlc t
    · simp only [ha, decide_true, ↓reduceIte]
      exact ⟨hkey, by rw [ihh, hh], by rw [ihs, hs], hflight, by simp [ha, ihn], by simp [ha, ihf]⟩
    · simp only [ha, decide_false, Bool.false_eq_true, ↓reduceIte]
      exact ⟨hkey, by rw [ihh, hh], by rw [ihs, hs], hflight, by simp [ha, ihn], by simp [ha, ihf]⟩

lemma replicateWrite_replica_of_notMem {m : NodeId} (h : m ∉ targets) (w : World) :
    (replicateWrite env req chunks hlc targets w).1.replica m = w.replica m := by
  induction targets generalizing w with
  | nil => rfl
  | cons t ts ih =>
    rw [mem_cons, not_or] at h
    have hrest := ih h.2 (replicateToSingle env req chunks hlc t w).1
    rw [replicateToSingle_replica_of_ne h.1] at hrest
    rw [replicateWrite_cons]
    simp only
    split <;> exact hrest

/-! ### Hints -/

/-- The target's hint is recorded. -/
def Hintable (env : Env) (t : NodeId) : Prop := env.hintGate t = true ∧ env.hintIo t = true

instance (t : NodeId) : Decidable (Hintable env t) := inferInstanceAs (Decidable (_ ∧ _))

lemma enqueueHint_of_hintable (failure : String) {hint : HintRecord}
    (h : Hintable env hint.intendedFor) (w : World) :
    enqueueHint env failure hint w = (w.enqueue hint, .ok ()) := by
  simp [enqueueHint, hintDebtGate, h.1, h.2]

lemma enqueueHint_of_not_hintable (failure : String) {hint : HintRecord}
    (h : ¬Hintable env hint.intendedFor) (w : World) :
    ∃ e, enqueueHint env failure hint w = (w, .error e) := by
  cases hg : env.hintGate hint.intendedFor with
  | false => exact ⟨_, by simp only [enqueueHint, hintDebtGate, hg]; rfl⟩
  | true =>
    have hio : env.hintIo hint.intendedFor = false := by
      simpa [Hintable, hg] using h
    exact ⟨_, by simp only [enqueueHint, hintDebtGate, hg, hio]; rfl⟩

/-- **Hinting a list of targets.** The targets up to the first that cannot be hinted get their
hint; there is no error exactly when that is all of them. -/
lemma hintAll_spec (targets hinted : List NodeId) (w : World) :
    (hintAll env req chunks hlc targets hinted w).1 =
      { w with hints := w.hints ++
          (targets.takeWhile (Hintable env ·)).map (writeHint env req chunks hlc) } ∧
    ((hintAll env req chunks hlc targets hinted w).2 = .ok () ↔ ∀ t ∈ targets, Hintable env t) ∧
    ∀ e h, (hintAll env req chunks hlc targets hinted w).2 = .error (e, h) →
      h = hinted ++ targets.takeWhile (Hintable env ·) := by
  induction targets generalizing hinted w with
  | nil => simp [hintAll]
  | cons t ts ih =>
    by_cases hh : Hintable env t
    · have hstep : hintAll env req chunks hlc (t :: ts) hinted w =
          hintAll env req chunks hlc ts (hinted ++ [t])
            (w.enqueue (writeHint env req chunks hlc t)) := by
        simp only [hintAll, enqueueWriteHint]
        rw [enqueueHint_of_hintable _ (by exact hh)]
      obtain ⟨ihw, iho, ihe⟩ := ih (hinted ++ [t]) (w.enqueue (writeHint env req chunks hlc t))
      rw [hstep]
      refine ⟨?_, by rw [iho]; simp [hh], fun e h he => ?_⟩
      · rw [ihw]
        simp [hh, World.enqueue]
      · simpa [hh] using ihe e h he
    · obtain ⟨e, he⟩ := enqueueHint_of_not_hintable
        "hinted handoff enqueue failed — debt unrecordable"
        (show ¬Hintable env (writeHint env req chunks hlc t).intendedFor from hh) w
      simp only [hintAll, enqueueWriteHint]
      rw [he]
      simp [hh]

lemma remoteTargets_nodup {set : List NodeId} (h : set.Nodup) : (remoteTargets env set).Nodup := by
  refine Nodup.sublist (take_sublist _ _) (nodup_append.mpr ⟨?_, ?_, ?_⟩)
  · exact (h.filter _).filter _
  · exact (h.filter _).filter _
  · rintro a ha b hb rfl
    simp only [mem_filter, decide_eq_true_eq] at ha hb
    rw [ha.2] at hb
    exact absurd hb.2 (by decide)

lemma mem_of_mem_remoteTargets {set : List NodeId} {t : NodeId} (h : t ∈ remoteTargets env set) :
    t ∈ set ∧ t ≠ env.self := by
  have := mem_of_mem_take h
  simp only [mem_append, mem_filter, decide_eq_true_eq] at this
  tauto

/-- **Replication that succeeds**: the quorum has acked, the targets that store the row have it,
and every member without an ack has a hint. -/
theorem replicateAndHint_ok {rowWritten : Bool} {w w' : World} {result : WriteResult}
    (h : replicateAndHint env req chunks rowWritten hlc w = (w', .ok result)) :
    result = ⟨chunks, req.data.length, some (env.hash req.data), hlc⟩ ∧
    requiredQuorum env req.writeQuorum (env.replicaSet req.key) ≤
      ((remoteTargets env (env.replicaSet req.key)).filter (Acks env req hlc ·)).length + 1 ∧
    (∀ m, w'.keyAt m req.bucket req.key =
      if m ∈ remoteTargets env (env.replicaSet req.key) ∧ Stores env req hlc m then
        (w.keyAt m req.bucket req.key).put (replicaRow env req chunks hlc m) (env.service m).nowMs
      else w.keyAt m req.bucket req.key) ∧
    w'.hints = w.hints ++
      ((remoteTargets env (env.replicaSet req.key)).filter (¬Acks env req hlc ·) ++
        unattempted env (env.replicaSet req.key)).map (writeHint env req chunks hlc) ∧
    w'.segments = w.segments ∧ w'.replica env.self = w.replica env.self := by
  have hself := @replicateWrite_replica_of_notMem env req chunks hlc
    (remoteTargets env (env.replicaSet req.key)) env.self
    (fun hmem => (mem_of_mem_remoteTargets hmem).2 rfl) w
  unfold replicateAndHint at h
  obtain ⟨hkey, hhints, hsegs, -, hacks, hfailed⟩ := @replicateWrite_spec env req chunks hlc
    (remoteTargets env (env.replicaSet req.key)) (remoteTargets_nodup (env.replicaSet_nodup _)) w
  rcases hrep : replicateWrite env req chunks hlc (remoteTargets env (env.replicaSet req.key)) w
    with ⟨u, acks, failed⟩
  simp only [hrep] at h hkey hhints hsegs hacks hfailed hself
  split at h
  · simp at h
  rename_i hq
  obtain ⟨hworld, hall, -⟩ := @hintAll_spec env req chunks hlc
    (failed ++ unattempted env (env.replicaSet req.key)) [] u
  rcases hha : hintAll env req chunks hlc (failed ++ unattempted env (env.replicaSet req.key)) [] u
    with ⟨u', ⟨e, hinted⟩ | _⟩
  · simp [hha] at h
  simp only [hha, Prod.mk.injEq, Except.ok.injEq, true_iff] at h hworld hall
  obtain ⟨rfl, rfl⟩ := h
  -- no target was refused its hint, so the loop went through all of them
  have htake : (failed ++ unattempted env (env.replicaSet req.key)).takeWhile (Hintable env ·) =
      failed ++ unattempted env (env.replicaSet req.key) :=
    takeWhile_eq_self_iff.mpr fun t ht => by simpa using hall t ht
  rw [htake, hfailed] at hworld
  subst hworld
  exact ⟨rfl, by omega, hkey, by rw [← hhints], hsegs, hself⟩

/-- The members that a write without their ack owes a hint, in the order they are hinted. -/
def missed (env : Env) (req : WriteRequest) (hlc : Hlc) : List NodeId :=
  (remoteTargets env (env.replicaSet req.key)).filter (¬Acks env req hlc ·) ++
    unattempted env (env.replicaSet req.key)

/-- The members that are hinted: none without the quorum, and otherwise those before the first
whose hint cannot be recorded. -/
def hintedTargets (env : Env) (req : WriteRequest) (hlc : Hlc) : List NodeId :=
  if ((remoteTargets env (env.replicaSet req.key)).filter (Acks env req hlc ·)).length + 1 <
      requiredQuorum env req.writeQuorum (env.replicaSet req.key) then []
  else (missed env req hlc).takeWhile (Hintable env ·)

lemma rollbackFailedWrite_spec (rowWritten : Bool) (w : World) :
    (∀ m, (rollbackFailedWrite env req rowWritten w).keyAt m req.bucket req.key =
      if m = env.self ∧ rowWritten = true ∧ env.rollbackFault = .none then
        (w.keyAt m req.bucket req.key).delete (w.tick env.self env.rollbackPhysical).2 env.nowMs
      else w.keyAt m req.bucket req.key) ∧
    (rollbackFailedWrite env req rowWritten w).hints = w.hints ∧
    (rollbackFailedWrite env req rowWritten w).inFlight = w.inFlight := by
  unfold rollbackFailedWrite
  cases rowWritten with
  | false => simp
  | true =>
    refine ⟨fun m => ?_, rfl, rfl⟩
    simp only [↓reduceIte, World.deleteRow_keyAt, World.tick_keyAt, true_and]
    by_cases hm : m = env.self
    · subst hm
      rfl
    · simp [hm]

lemma cancelPartialHints_spec (targets : List NodeId) (bucket : BucketId) (key : ObjectKey)
    (w : World) :
    (∀ m b k, (cancelPartialHints env targets bucket key w).keyAt m b k = w.keyAt m b k) ∧
    (cancelPartialHints env targets bucket key w).hints =
      w.hints ++ (targets.filter env.cancelIo).map
        (deleteHint bucket key (w.tick env.self env.cancelPhysical).2) ∧
    (cancelPartialHints env targets bucket key w).inFlight = w.inFlight := by
  unfold cancelPartialHints
  split
  · rename_i h
    simp [h]
  · exact ⟨fun m b k => World.tick_keyAt w env.self m b k env.cancelPhysical, rfl, rfl⟩

/-- **Replication that fails** keeps the rows it has put on other replicas, takes this node's own
row back, and leaves the hints it recorded with a delete behind each that could be cancelled. -/
theorem replicateAndHint_error {rowWritten : Bool} {w w' : World} {e : WriteError}
    (h : replicateAndHint env req chunks rowWritten hlc w = (w', .error e)) :
    (∀ m, m ≠ env.self → w'.keyAt m req.bucket req.key =
      if m ∈ remoteTargets env (env.replicaSet req.key) ∧ Stores env req hlc m then
        (w.keyAt m req.bucket req.key).put (replicaRow env req chunks hlc m) (env.service m).nowMs
      else w.keyAt m req.bucket req.key) ∧
    (∃ rollbackHlc, w'.keyAt env.self req.bucket req.key =
      if rowWritten = true ∧ env.rollbackFault = .none then
        (w.keyAt env.self req.bucket req.key).delete rollbackHlc env.nowMs
      else w.keyAt env.self req.bucket req.key) ∧
    w'.hints = w.hints ++ (hintedTargets env req hlc).map (writeHint env req chunks hlc) ++
      ((hintedTargets env req hlc).filter env.cancelIo).map
        (deleteHint req.bucket req.key (w.tick env.self env.cancelPhysical).2) ∧
    w'.inFlight = w.inFlight ++
      ((remoteTargets env (env.replicaSet req.key)).filter fun t => (env.peer t).overdue).map
        (·, replicaRequest env req chunks hlc) := by
  have hself : env.self ∉ remoteTargets env (env.replicaSet req.key) :=
    fun hmem => (mem_of_mem_remoteTargets hmem).2 rfl
  unfold replicateAndHint at h
  obtain ⟨hkey, hhints, -, hflight, hacks, hfailed⟩ := @replicateWrite_spec env req chunks hlc
    (remoteTargets env (env.replicaSet req.key)) (remoteTargets_nodup (env.replicaSet_nodup _)) w
  have hclock := @replicateWrite_replica_of_notMem env req chunks hlc _ _ hself w
  rcases hrep : replicateWrite env req chunks hlc (remoteTargets env (env.replicaSet req.key)) w
    with ⟨u, acks, failed⟩
  simp only [hrep] at h hkey hhints hflight hacks hfailed hclock
  have hself' := hkey env.self
  rw [if_neg fun hc => hself hc.1] at hself'
  -- the rollback ends the call wherever it fails
  have hfinish : ∀ {v : World}, (∀ m, v.keyAt m req.bucket req.key =
        u.keyAt m req.bucket req.key) → v.inFlight = u.inFlight →
      rollbackFailedWrite env req rowWritten v = w' →
      (∀ m, m ≠ env.self → w'.keyAt m req.bucket req.key = u.keyAt m req.bucket req.key) ∧
      (∃ rollbackHlc, w'.keyAt env.self req.bucket req.key =
        if rowWritten = true ∧ env.rollbackFault = .none then
          (w.keyAt env.self req.bucket req.key).delete rollbackHlc env.nowMs
        else w.keyAt env.self req.bucket req.key) ∧
      w'.hints = v.hints ∧ w'.inFlight = u.inFlight := by
    rintro v hv hvf rfl
    obtain ⟨hrk, hrh, hrf⟩ := @rollbackFailedWrite_spec env req rowWritten v
    refine ⟨fun m hm => ?_, ⟨(v.tick env.self env.rollbackPhysical).2, ?_⟩, hrh, hrf.trans hvf⟩
    · rw [hrk, if_neg fun hc => hm hc.1, hv]
    · rw [hrk, hv, hself']
      simp only [true_and]
  split at h
  · rename_i hq
    obtain ⟨hk, hs, hh, hf⟩ := hfinish (fun _ => rfl) rfl (congrArg Prod.fst h)
    have hnone : hintedTargets env req hlc = [] := by
      rw [hintedTargets, if_pos (by omega)]
    exact ⟨fun m hm => by rw [hk m hm, hkey], hs, by rw [hh, hhints, hnone]; simp,
      by rw [hf, hflight]⟩
  · rename_i hq
    have hhinted : hintedTargets env req hlc =
        (failed ++ unattempted env (env.replicaSet req.key)).takeWhile (Hintable env ·) := by
      rw [hintedTargets, if_neg (by omega), missed, hfailed]
    obtain ⟨hworld, -, hlist⟩ := @hintAll_spec env req chunks hlc
      (failed ++ unattempted env (env.replicaSet req.key)) [] u
    rcases hha : hintAll env req chunks hlc (failed ++ unattempted env (env.replicaSet req.key))
      [] u with ⟨u', ⟨e', hinted⟩ | _⟩
    swap
    · simp [hha] at h
    simp only [hha] at h hworld hlist
    have hlist' := hlist e' hinted rfl
    rw [nil_append, ← hhinted] at hlist'
    rw [← hhinted] at hworld
    obtain ⟨hck, hch, hcf⟩ := @cancelPartialHints_spec env hinted req.bucket req.key u'
    have hu' : ∀ m, u'.keyAt m req.bucket req.key = u.keyAt m req.bucket req.key := by
      intro m
      rw [hworld]
      rfl
    obtain ⟨hk, hs, hh, hf⟩ := hfinish (fun m => (hck m _ _).trans (hu' m))
      (by rw [hcf, hworld]) (congrArg Prod.fst h)
    have hstamp : (u'.tick env.self env.cancelPhysical).2 =
        (w.tick env.self env.cancelPhysical).2 := by
      rw [World.tick_hlc, World.tick_hlc, hworld, ← hclock]
    refine ⟨fun m hm => by rw [hk m hm, hkey], hs, ?_, by rw [hf, hflight]⟩
    rw [hh, hch, hstamp, hlist', hworld, ← hhints]

/-! ### The replication of a delete -/

/-- The delete call reaches the target and its store takes the tombstone. -/
def Erases (env : Env) (t : NodeId) : Prop :=
  (env.peer t).reached = true ∧ (env.service t).fault = .none

instance (t : NodeId) : Decidable (Erases env t) := inferInstanceAs (Decidable (_ ∧ _))

/-- The target's confirmation is counted. -/
def Confirms (env : Env) (t : NodeId) : Prop := Erases env t ∧ (env.peer t).fate = .answered

instance (t : NodeId) : Decidable (Confirms env t) := inferInstanceAs (Decidable (_ ∧ _))

variable {bucket : BucketId} {key : ObjectKey}

lemma deleteOnSingle_spec (t m : NodeId) (w : World) :
    (deleteOnSingle env bucket key hlc t w).1.keyAt m bucket key =
      (if m = t ∧ Erases env t then (w.keyAt t bucket key).delete hlc (env.service t).nowMs
      else w.keyAt m bucket key) ∧
    (deleteOnSingle env bucket key hlc t w).1.hints = w.hints ∧
    (deleteOnSingle env bucket key hlc t w).2 = if Confirms env t then some true else none := by
  unfold deleteOnSingle
  by_cases hr : (env.peer t).reached
  · obtain ⟨hkey, hans⟩ := deleteObject_spec (env.service t) bucket key hlc (w.replica t)
    simp only [hr, ↓reduceIte, World.setReplica_hints, true_and]
    constructor
    · by_cases hm : m = t
      · subst hm
        rw [World.setReplica_keyAt_self, hkey]
        simp [Erases, hr, env.wired, World.keyAt]
      · rw [World.setReplica_keyAt_of_ne _ _ _ _ hm, if_neg (by tauto)]
    · cases hf : (env.service t).fault <;>
        simp [Confirms, Erases, hr, hf, Grpc.deleteObject, env.wired, Store.deleteObject,
          Store.commit, Except.toOption]
  · simp [hr, Erases, Confirms]

/-- **The fan-out of a delete** that does not fail: a tombstone on every other member that takes
it, and from each of them a confirmation or a hint. -/
theorem deleteRemote_spec (hnd : targets.Nodup) {w w' : World} {n : ℕ}
    (h : deleteRemote env bucket key hlc targets w = (w', .ok n)) :
    (∀ m, w'.keyAt m bucket key =
      if m ∈ targets ∧ m ≠ env.self ∧ Erases env m then
        (w.keyAt m bucket key).delete hlc (env.service m).nowMs
      else w.keyAt m bucket key) ∧
    n = (targets.filter fun t => t ≠ env.self ∧ Confirms env t).length ∧
    w'.hints = w.hints ++
      (targets.filter fun t => t ≠ env.self ∧ ¬Confirms env t).map (deleteHint bucket key hlc) := by
  induction targets generalizing w n with
  | nil =>
    simp only [deleteRemote, Prod.mk.injEq, Except.ok.injEq] at h
    obtain ⟨rfl, rfl⟩ := h
    simp
  | cons t ts ih =>
    obtain ⟨ht, hts⟩ := nodup_cons.mp hnd
    rw [deleteRemote] at h
    by_cases hself : t = env.self
    · rw [if_pos hself] at h
      obtain ⟨ikey, ihn, ihh⟩ := ih hts h
      refine ⟨fun m => ?_, by simp [hself, ihn], by simp [hself, ihh]⟩
      rw [ikey m]
      by_cases hm : m = t
      · simp [hm, hself]
      · simp only [mem_cons, hm, false_or]
    · have hone := fun m => @deleteOnSingle_spec env hlc bucket key t m w
      rw [if_neg hself] at h
      rcases hcall : deleteOnSingle env bucket key hlc t w with ⟨w₁, answer⟩
      simp only [hcall] at hone h
      obtain ⟨-, hhints, rfl⟩ := hone t
      -- the rest of the loop starts from the keys that the call left
      have hkeys : ∀ {v : World}, (∀ m, v.keyAt m bucket key = w₁.keyAt m bucket key) →
          (∀ m, w'.keyAt m bucket key = if m ∈ ts ∧ m ≠ env.self ∧ Erases env m then
            (v.keyAt m bucket key).delete hlc (env.service m).nowMs else v.keyAt m bucket key) →
          ∀ m, w'.keyAt m bucket key = if m ∈ t :: ts ∧ m ≠ env.self ∧ Erases env m then
            (w.keyAt m bucket key).delete hlc (env.service m).nowMs else w.keyAt m bucket key := by
        intro v hv hrest m
        rw [hrest m, hv m, (hone m).1]
        by_cases hm : m = t
        · subst hm
          simp [ht, hself]
        · simp [hm]
      by_cases hc : Confirms env t
      · simp only [hc, ↓reduceIte] at h
        rcases hrest : deleteRemote env bucket key hlc ts w₁ with ⟨v, out⟩
        rw [hrest] at h
        cases out with
        | error e => simp at h
        | ok k =>
          simp only [Prod.mk.injEq, Except.ok.injEq] at h
          obtain ⟨rfl, rfl⟩ := h
          obtain ⟨ikey, ihn, ihh⟩ := ih hts hrest
          exact ⟨hkeys (fun _ => rfl) ikey, by simp [hself, hc, ihn],
            by simp [hself, hc, ihh, hhints]⟩
      · simp only [hc, ↓reduceIte, enqueueDeleteHint] at h
        by_cases hh : Hintable env t
        · rw [enqueueHint_of_hintable _ (by exact hh)] at h
          obtain ⟨ikey, ihn, ihh⟩ := ih hts h
          exact ⟨hkeys (fun _ => rfl) ikey, by simp [hself, hc, ihn],
            by simp [hself, hc, ihh, hhints, World.enqueue]⟩
        · obtain ⟨e, he⟩ := enqueueHint_of_not_hintable
            "hinted handoff enqueue failed — delete debt unrecordable"
            (show ¬Hintable env (deleteHint bucket key hlc t).intendedFor from hh) w₁
          rw [he] at h
          simp at h

end OceanFs.Write
