import OceanFs.Durability.Hints
import OceanFs.Write.Steps

/-!
What a PUT that fails leaves on the replicas.

The state is looked at once everything the call left behind has arrived: its hints, the
deletes that cancel them, and the appends that were still under way. A rollback and a cancel
are themselves deletes under fresh timestamps, so they remove the earlier version together with
the failed one; an append that was stored elsewhere is not undone at all.
-/

namespace OceanFs.Write

open OceanFs.Core Metadata Grpc Durability List Option

/-- The timestamp of the deletes that cancel the hints of a write. -/
def cancelStamp (env : Env) (w : World) : Hlc :=
  HlcClock.now (writeStamp env w) env.cancelPhysical

/-- The hints that a call queued for a node. -/
def hintsLeft (w w' : World) (t : NodeId) : List HintRecord :=
  (w'.hints.drop w.hints.length).filter (·.intendedFor = t)

/-- The appends to a node that a call left under way. -/
def appendsLeft (w w' : World) (t : NodeId) : List SegmentAppendRequest :=
  ((w'.inFlight.drop w.inFlight.length).filter (·.1 = t)).map Prod.snd

/-- An append at the key it is for. -/
def landAppend (service : ServiceEnv) (s : KeyState) (r : SegmentAppendRequest) : KeyState :=
  match r.hlc with
  | none => s
  | some hlc =>
    if Accepts service r hlc then s.put (appendRow service r r.data hlc) service.nowMs else s

lemma appendSegment_eq_landAppend (service : ServiceEnv) (r : SegmentAppendRequest)
    (replica : Replica) :
    (appendSegment service [r] replica).1.store.keys r.bucketId r.objectKey =
      landAppend service (replica.store.keys r.bucketId r.objectKey) r := by
  cases hr : r.hlc with
  | some hlc => rw [(appendSegment_spec replica hr).1, landAppend, hr]
  | none =>
    rw [landAppend, hr]
    unfold appendSegment
    simp only [streamData_singleton, metadataChunk_singleton]
    by_cases hd : r.data = []
    · simp [hd]
    by_cases hb : r.bucketId = ""
    · cases service.hasMetadataStore <;> simp [hd, hb]
    · cases service.hasMetadataStore <;> simp [hd, hb, hr]

/-- The key of a node once everything has arrived there. -/
def settled (env : Env) (receiver : Receiver) (req : WriteRequest) (w w' : World)
    (batches : List (List HintRecord)) (t : NodeId) : KeyState :=
  (appendsLeft w w' t).foldl (landAppend (env.service t))
    (deliver receiver (w'.keyAt env.self req.bucket req.key).row (w'.keyAt t req.bucket req.key)
      batches)

/-- A node that served the earlier version still does, and none serves the failed one. -/
structure Intact (prior failed : Hlc) (before after : KeyState) : Prop where
  keeps : served before = some prior → served after = some prior
  drops : served after ≠ some failed

/-- The key holds no version after the earlier one, and no tombstone of the failed write's time. -/
structure Earlier (prior failed : Hlc) (s : KeyState) : Prop where
  row : ∀ m ∈ s.row, m.hlc ≤ prior
  tombstone : ∀ ts ∈ s.tombstone, ts.hlc < failed

/-! ### The condition -/

/-- A replica of the key takes the write as far as its own copy. -/
def Attempted (env : Env) (req : WriteRequest) (w : World) : Prop :=
  admission env req = .ok () ∧ env.self ∈ env.replicaSet req.key ∧ admissionLocal env req = .ok () ∧
    req.data ≠ [] ∧
    (writeLocal env req (writeStamp env w) (w.tick env.self env.physical).1).2.isOk = true

/-- The member's hint is followed by a delete. -/
def Cancelled (env : Env) (req : WriteRequest) (hlc : Hlc) (t : NodeId) : Prop :=
  t ∈ hintedTargets env req hlc ∧ env.cancelIo t = true

/-- The body is neither inline nor small enough to ride in a hint. -/
def ByReference (env : Env) (req : WriteRequest) : Prop :=
  env.hintInlineThresholdBytes < req.data.length ∧
    env.sizeConfig.classify req.data.length ≠ .inline

/-- What must hold at another member: if its hint is cancelled, it did not have the earlier
version; if not, it did not store the row, and its hint is a reference. No append to it is
late. -/
def MemberSpared (env : Env) (req : WriteRequest) (prior hlc : Hlc) (w : World) (t : NodeId) :
    Prop :=
  (Cancelled env req hlc t → served (w.keyAt t req.bucket req.key) ≠ some prior) ∧
  (¬Cancelled env req hlc t →
    ¬(t ∈ remoteTargets env (env.replicaSet req.key) ∧ Stores env req hlc t) ∧
    (t ∈ hintedTargets env req hlc → ByReference env req)) ∧
  ¬(t ∈ remoteTargets env (env.replicaSet req.key) ∧ (env.peer t).overdue = true ∧
    AcceptsReplicate (env.service t) req.bucket req.data hlc)

/-- What must hold at the serving node: it wrote no inline row, or it had no earlier version and
its rollback is stored. -/
def SelfSpared (env : Env) (req : WriteRequest) (prior : Hlc) (w : World) : Prop :=
  env.sizeConfig.classify req.data.length = .inline →
    served (w.keyAt env.self req.bucket req.key) ≠ some prior ∧ env.rollbackFault = .none

/-- A forwarded write is not stored by the node it went to. -/
def ForwardSpared (env : Env) (req : WriteRequest) (hlc : Hlc) (t : NodeId) : Prop :=
  (env.peer t).reached = true ∨ (env.peer t).overdue = true →
    ¬Accepts (env.service t) (forwardRequest req hlc) hlc

def Spared (env : Env) (req : WriteRequest) (prior : Hlc) (w : World) : Prop :=
  (Attempted env req w → SelfSpared env req prior w ∧
    ∀ t ∈ env.replicaSet req.key, t ≠ env.self →
      MemberSpared env req prior (writeStamp env w) w t) ∧
  (admission env req = .ok () → env.self ∉ env.replicaSet req.key →
    ∀ t, forwardTarget env (env.replicaSet req.key) = some t →
      ForwardSpared env req (writeStamp env w) t)

/-! ### One member, once its hints have arrived -/

section

variable {receiver : Receiver} {origin : Option ObjectMetadata} {batches : List (List HintRecord)}
  {prior h rh : Hlc} {s : KeyState}

lemma Earlier.upTo (hs : Earlier prior h s) (hp : prior < h) : UpTo h h s :=
  ⟨fun m hm => (hs.row m hm).trans hp.le, fun ts hts => (hs.tombstone ts hts).le⟩

lemma upTo_put (s : KeyState) (m : ObjectMetadata) (t : ℤ) : UpTo m.hlc m.hlc (s.put m t) :=
  ⟨by simp, by simp⟩

lemma Earlier.intact (hs : Earlier prior h s) (hp : prior < h) : Intact prior h s s := by
  refine ⟨id, fun hc => ?_⟩
  obtain ⟨m, hm, hmh⟩ := map_eq_some_iff.mp hc
  exact absurd (hs.row m hm) (hmh ▸ hp.not_ge)

lemma served_cancelled_inline {a c : HintRecord} {data : Bytes} (ha : a.payload = .inline data)
    (hat : a.timestamp = h) (hc : c.payload = .delete) (hct : c.timestamp = rh) (hlt : h < rh)
    (hs : UpTo h h s) (hb : batches.flatten = [a, c]) :
    served (deliver receiver origin s batches) = none := by
  have hfirst : applyHint receiver s a =
      s.put (appliedRow receiver a.key data receiver.nowMs h) receiver.nowMs := by
    simp only [applyHint, ha, hat]
    exact applyHintObject_of_le hs
  have hsecond : applyHint receiver (s.put (appliedRow receiver a.key data receiver.nowMs h)
      receiver.nowMs) c = (s.put (appliedRow receiver a.key data receiver.nowMs h)
      receiver.nowMs).delete rh receiver.nowMs := by
    simp only [applyHint, hc, hct]
    exact applyHintDelete_of_le (by simp [appliedRow, hlt.le]) (by simp)
  have hskip : ∀ s', applyFetched receiver origin s' a = s' := fun s' => by
    simp [applyFetched, ha]
  have hskip' : ∀ s', applyFetched receiver origin s' c = s' := fun s' => by
    simp [applyFetched, hc]
  rcases deliver_of_flatten_pair hb s with he | he <;> rw [he] <;>
    simp [deliverBatch, hfirst, hsecond, hskip, hskip', served]

lemma served_inline {a : HintRecord} {data : Bytes} (ha : a.payload = .inline data)
    (hat : a.timestamp = h) (hs : UpTo h h s) (hb : batches.flatten = [a]) :
    served (deliver receiver origin s batches) = some h := by
  rw [deliver_of_flatten_singleton hb]
  simp only [deliverBatch, foldl_cons, foldl_nil, applyHint, applyFetched, ha, hat]
  rw [applyHintObject_of_le hs]
  rfl

lemma served_cancelled_reference {a c : HintRecord} {seg : SegmentId} {off len : ℕ}
    (ha : a.payload = .segmentRef seg off len) (hc : c.payload = .delete)
    (hct : c.timestamp = rh) (hlt : h < rh) (hp : prior < h) (hs : UpTo h h s)
    (ho : ∀ m ∈ origin, m.hlc ≤ prior) (hb : batches.flatten = [a, c]) :
    served (deliver receiver origin s batches) = none := by
  have hdel : applyHint receiver s c = s.delete rh receiver.nowMs := by
    simp only [applyHint, hc, hct]
    exact applyHintDelete_of_le (fun m hm => (hs.row m hm).trans hlt.le)
      (fun ts hts => (hs.tombstone ts hts).trans_lt hlt)
  have hskip : ∀ s', applyHint receiver s' a = s' := fun s' => by
    simp [applyHint, ha]
  have hskip' : ∀ s', applyFetched receiver origin s' c = s' := fun s' => by
    simp [applyFetched, hc]
  rcases deliver_of_flatten_pair hb s with he | he
  · -- one batch: the delete comes first, and what is fetched is older than it
    rw [he]
    simp only [deliverBatch, foldl_cons, foldl_nil, hskip, hdel, hskip']
    rcases applyFetched_eq receiver origin (s.delete rh receiver.nowMs) a with hf | ⟨m, hm, hf⟩
    · rw [hf]
      rfl
    · rw [hf, applyHintObject_of_tombstone rfl ((ho m hm).trans_lt (hp.trans hlt))]
      rfl
  · -- two batches: the fetched version, or what was there, is deleted
    rw [he]
    simp only [deliverBatch, foldl_cons, foldl_nil, hskip, hskip']
    have hup : UpTo h h (applyFetched receiver origin s a) := by
      rcases applyFetched_eq receiver origin s a with hf | ⟨m, hm, hf⟩
      · rw [hf]
        exact hs
      · rw [hf, applyHintObject]
        split
        · exact hs
        · split
          · exact hs
          · exact ⟨by simpa [appliedRow] using (ho m hm).trans hp.le, by simp⟩
    simp only [applyHint, hc, hct]
    rw [applyHintDelete_of_le (fun m hm => (hup.row m hm).trans hlt.le)
      (fun ts hts => (hup.tombstone ts hts).trans_lt hlt)]
    rfl

lemma served_reference {a : HintRecord} {seg : SegmentId} {off len : ℕ}
    (ha : a.payload = .segmentRef seg off len) (ho : ∀ m ∈ origin, m.hlc ≤ prior)
    (hb : batches.flatten = [a]) :
    (served (deliver receiver origin s batches) = served s ∨
      ∃ x ≤ prior, served (deliver receiver origin s batches) = some x) ∧
    ∀ x, prior ≤ x → served s = some x → served (deliver receiver origin s batches) = some x := by
  rw [deliver_of_flatten_singleton hb]
  simp only [deliverBatch, foldl_cons, foldl_nil, applyHint, ha]
  rcases applyFetched_eq receiver origin s a with hf | ⟨m, hm, hf⟩
  · rw [hf]
    exact ⟨.inl rfl, fun _ _ hx => hx⟩
  · rw [hf]
    have hor := served_applyHintObject receiver a.key (receiver.read m) 0 m.hlc s
    refine ⟨hor.imp_right fun h => ⟨_, ho m hm, h⟩, fun x hx hsx => ?_⟩
    obtain ⟨row, hrow, rfl⟩ := map_eq_some_iff.mp hsx
    -- what is fetched is the version that is there, or older than it and dropped
    rcases ((ho m hm).trans hx).eq_or_lt with heq | hlt
    · exact hor.elim (fun h => h.trans hsx) fun h => by rw [h, heq]
    · rw [applyHintObject, if_pos (by simp [hrow, hlt])]
      exact hsx

end

/-! ### What the call leaves for one member -/

lemma filter_map_of_nodup {α β : Type*} [DecidableEq α] {f : α → β} {name : β → α}
    (hf : ∀ a, name (f a) = a) {l : List α} (hl : l.Nodup) (t : α) :
    (l.map f).filter (fun b => name b = t) = if t ∈ l then [f t] else [] := by
  induction l with
  | nil => simp
  | cons a l ih =>
    obtain ⟨ha, hl'⟩ := nodup_cons.mp hl
    rw [map_cons, filter_cons, ih hl']
    by_cases hat : a = t
    · subst hat
      simp [hf, ha]
    · simp [hf, hat, Ne.symm hat]

variable {env : Env} {req : WriteRequest} {w w' : World}

lemma missed_nodup (hlc : Hlc) : (missed env req hlc).Nodup := by
  have hset := env.replicaSet_nodup req.key
  refine nodup_append.mpr ⟨(remoteTargets_nodup hset).filter _, hset.filter _, ?_⟩
  rintro a ha b hb rfl
  have hnot := (mem_filter.mp hb).2
  simp [mem_of_mem_filter ha] at hnot

lemma hintedTargets_nodup (hlc : Hlc) : (hintedTargets env req hlc).Nodup := by
  unfold hintedTargets
  split
  · exact nodup_nil
  · exact (missed_nodup hlc).sublist (takeWhile_sublist _)

lemma mem_of_mem_hintedTargets {hlc : Hlc} {t : NodeId} (h : t ∈ hintedTargets env req hlc) :
    t ∈ env.replicaSet req.key ∧ t ≠ env.self := by
  unfold hintedTargets at h
  split at h
  · simp at h
  · have hm := (takeWhile_sublist _).subset h
    rcases mem_append.mp hm with hm | hm
    · exact mem_of_mem_remoteTargets (mem_of_mem_filter hm)
    · have := mem_filter.mp hm
      simp only [ne_eq, Bool.and_eq_true, decide_eq_true_eq] at this
      exact ⟨this.1, this.2.1⟩

lemma hintsLeft_eq {hlc rh : Hlc} {chunks : List ChunkRef}
    (h : w'.hints = w.hints ++ (hintedTargets env req hlc).map (writeHint env req chunks hlc) ++
      ((hintedTargets env req hlc).filter env.cancelIo).map (deleteHint req.bucket req.key rh))
    (t : NodeId) :
    hintsLeft w w' t =
      if t ∈ hintedTargets env req hlc then
        writeHint env req chunks hlc t ::
          if env.cancelIo t then [deleteHint req.bucket req.key rh t] else []
      else [] := by
  have hnd := @hintedTargets_nodup env req hlc
  have hwrite := @filter_map_of_nodup _ _ _ (writeHint env req chunks hlc)
    HintRecord.intendedFor (fun _ => rfl) _ hnd t
  have hdelete := @filter_map_of_nodup _ _ _ (deleteHint req.bucket req.key rh)
    HintRecord.intendedFor (fun _ => rfl) _ (hnd.filter env.cancelIo) t
  rw [hintsLeft, h, append_assoc, drop_left, filter_append, hwrite, hdelete]
  by_cases ht : t ∈ hintedTargets env req hlc
  · cases hc : env.cancelIo t <;> simp [ht, hc]
  · simp [ht]

lemma appendsLeft_eq {hlc : Hlc} {chunks : List ChunkRef}
    (h : w'.inFlight = w.inFlight ++ ((remoteTargets env (env.replicaSet req.key)).filter fun t =>
      (env.peer t).overdue).map (·, replicaRequest env req chunks hlc)) (t : NodeId) :
    appendsLeft w w' t =
      if t ∈ remoteTargets env (env.replicaSet req.key) ∧ (env.peer t).overdue = true then
        [replicaRequest env req chunks hlc]
      else [] := by
  have hnd := (@remoteTargets_nodup env _ (env.replicaSet_nodup req.key)).filter
    (fun t => (env.peer t).overdue)
  have hfilter := @filter_map_of_nodup _ _ _ (fun t => (t, replicaRequest env req chunks hlc))
    Prod.fst (fun _ => rfl) _ hnd t
  rw [appendsLeft, h, drop_left, hfilter]
  by_cases ht : t ∈ remoteTargets env (env.replicaSet req.key) ∧ (env.peer t).overdue = true
  · rw [if_pos (mem_filter.mpr ht), if_pos ht]
    rfl
  · rw [if_neg (fun hm => ht (mem_filter.mp hm)), if_neg ht]
    rfl

lemma landAppend_replicaRequest (t : NodeId) (chunks : List ChunkRef) (hlc : Hlc) (s : KeyState) :
    landAppend (env.service t) s (replicaRequest env req chunks hlc) =
      if AcceptsReplicate (env.service t) req.bucket req.data hlc then
        s.put (replicaRow env req chunks hlc t) (env.service t).nowMs
      else s := rfl

lemma writeHint_payload {chunks : List ChunkRef} {hlc : Hlc} {t : NodeId}
    (hc : chunks = [] ↔ env.sizeConfig.classify req.data.length = .inline) :
    (ByReference env req → ∃ seg off len,
      (writeHint env req chunks hlc t).payload = .segmentRef seg off len) ∧
    (¬ByReference env req → (writeHint env req chunks hlc t).payload = .inline req.data) := by
  simp only [ByReference, writeHint, ne_eq, ← hc]
  rcases chunks with _ | ⟨c, cs⟩
  · simp
  · constructor
    · rintro ⟨hlen, -⟩
      exact ⟨c.segmentId, c.offset, c.length, by simp [Nat.not_le.mpr hlen]⟩
    · intro hn
      simp only [reduceCtorEq, not_false_eq_true, and_true, Nat.not_lt] at hn
      simp [hn]

section

variable {receiver : Receiver} {batches : List (List HintRecord)} {origin : Option ObjectMetadata}
  {chunks : List ChunkRef} {prior h rh : Hlc} {t : NodeId} {s s₁ : KeyState} {stored : Prop}

lemma unhinted_intact_iff (hs : Earlier prior h s)
    (hrow : stored ∧ served s₁ = some h ∨ ¬stored ∧ s₁ = s) (hprior : prior < h)
    (hb : batches.flatten = []) :
    Intact prior h s (deliver receiver origin s₁ batches) ↔ ¬stored := by
  rw [deliver_of_flatten_nil hb]
  rcases hrow with ⟨hst, hserved⟩ | ⟨hst, rfl⟩
  · exact iff_of_false (fun hi => hi.drops hserved) fun hn => hn hst
  · exact iff_of_true (hs.intact hprior) hst

/-- An append that arrives late wins over everything. -/
lemma late_intact_iff :
    Intact prior h s
      ((if t ∈ remoteTargets env (env.replicaSet req.key) ∧ (env.peer t).overdue = true then
          [replicaRequest env req chunks h] else []).foldl (landAppend (env.service t)) s₁) ↔
      Intact prior h s s₁ ∧
        ¬(t ∈ remoteTargets env (env.replicaSet req.key) ∧ (env.peer t).overdue = true ∧
          AcceptsReplicate (env.service t) req.bucket req.data h) := by
  rw [← and_assoc]
  split
  · rename_i ht
    rw [foldl_cons, foldl_nil, landAppend_replicaRequest]
    split_ifs with hacc
    · exact iff_of_false (fun hi => hi.drops rfl) fun hc => hc.2 ⟨ht, hacc⟩
    · exact ⟨fun hi => ⟨hi, fun hc => hacc hc.2⟩, And.left⟩
  · rename_i ht
    exact ⟨fun hi => ⟨hi, fun hc => ht hc.1⟩, And.left⟩

variable (hprior : prior < h)
  (hc : chunks = [] ↔ env.sizeConfig.classify req.data.length = .inline)
  (ho : chunks ≠ [] → ∀ m ∈ origin, m.hlc ≤ prior)

include hprior hc ho

/-- Hinted and cancelled: the key ends deleted. -/
lemma cancelled_intact_iff (hs₁ : UpTo h h s₁) (hcancel : h < rh)
    (hb : batches.flatten = [writeHint env req chunks h t, deleteHint req.bucket req.key rh t]) :
    Intact prior h s (deliver receiver origin s₁ batches) ↔ served s ≠ some prior := by
  have hnone : served (deliver receiver origin s₁ batches) = none := by
    by_cases href : ByReference env req
    · obtain ⟨seg, off, len, hpay⟩ := (writeHint_payload hc).1 href
      exact served_cancelled_reference hpay rfl rfl hcancel hprior hs₁
        (ho fun hnil => href.2 (hc.mp hnil)) hb
    · exact @served_cancelled_inline receiver origin batches h rh s₁ _ _ _
        ((writeHint_payload hc).2 href) rfl rfl rfl hcancel hs₁ hb
  exact ⟨fun hi hheld => by simpa [hnone] using hi.keeps hheld,
    fun hheld => ⟨fun hp => absurd hp hheld, by simp [hnone]⟩⟩

/-- Hinted and not cancelled: a reference brings the earlier version, if anything; a body is applied
and nothing takes it back. -/
lemma hinted_intact_iff (hs : Earlier prior h s) (hs₁ : UpTo h h s₁)
    (hrow : stored ∧ served s₁ = some h ∨ ¬stored ∧ s₁ = s)
    (hb : batches.flatten = [writeHint env req chunks h t]) :
    Intact prior h s (deliver receiver origin s₁ batches) ↔ ¬stored ∧ ByReference env req := by
  by_cases href : ByReference env req
  · obtain ⟨seg, off, len, hpay⟩ := (writeHint_payload hc).1 href
    obtain ⟨hor, hkeep⟩ := @served_reference receiver origin batches prior s₁ _ _ _ _ hpay
      (ho fun hnil => href.2 (hc.mp hnil)) hb
    rcases hrow with ⟨hst, hserved⟩ | ⟨hst, rfl⟩
    · exact iff_of_false (fun hi => hi.drops (hkeep h hprior.le hserved)) fun hc => hc.1 hst
    · refine iff_of_true ⟨hkeep prior le_rfl, fun hc => ?_⟩ ⟨hst, href⟩
      rcases hor with hor | ⟨x, hx, hor⟩
      · exact (hs.intact hprior).drops (hor ▸ hc)
      · exact hx.not_gt (some.inj (hor.symm.trans hc) ▸ hprior)
  · refine iff_of_false (fun hi => hi.drops ?_) fun hc => href hc.2
    exact served_inline ((writeHint_payload hc).2 href) rfl hs₁ hb

theorem member_intact_iff (hs : Earlier prior h s) (hsw : w.keyAt t req.bucket req.key = s)
    (hcancel : h < rh)
    (hb : batches.flatten = if t ∈ hintedTargets env req h then
        writeHint env req chunks h t ::
          if env.cancelIo t then [deleteHint req.bucket req.key rh t] else []
      else []) :
    Intact prior h s
      ((if t ∈ remoteTargets env (env.replicaSet req.key) ∧ (env.peer t).overdue = true then
          [replicaRequest env req chunks h] else []).foldl (landAppend (env.service t))
        (deliver receiver origin
          (if t ∈ remoteTargets env (env.replicaSet req.key) ∧ Stores env req h t then
            s.put (replicaRow env req chunks h t) (env.service t).nowMs else s) batches)) ↔
      MemberSpared env req prior h w t := by
  rw [late_intact_iff, MemberSpared, hsw, ← and_assoc (b := _ → _ ∧ _)]
  refine and_congr_left fun _ => ?_
  generalize hs₁ : (if t ∈ remoteTargets env (env.replicaSet req.key) ∧ Stores env req h t then
    s.put (replicaRow env req chunks h t) (env.service t).nowMs else s) = s₁
  have hrow : (t ∈ remoteTargets env (env.replicaSet req.key) ∧ Stores env req h t) ∧
      served s₁ = some h ∨
      ¬(t ∈ remoteTargets env (env.replicaSet req.key) ∧ Stores env req h t) ∧ s₁ = s := by
    rw [← hs₁]
    split_ifs with hst
    · exact .inl ⟨hst, rfl⟩
    · exact .inr ⟨hst, rfl⟩
  have hup : UpTo h h s₁ := by
    rw [← hs₁]
    split
    · exact upTo_put s (replicaRow env req chunks h t) _
    · exact hs.upTo hprior
  by_cases hh : t ∈ hintedTargets env req h
  · by_cases hx : env.cancelIo t = true
    · rw [cancelled_intact_iff hprior hc ho hup hcancel (by simpa [hh, hx] using hb)]
      simp [Cancelled, hh, hx]
    · rw [hinted_intact_iff hprior hc ho hs hup hrow (by simpa [hh, hx] using hb)]
      simp [Cancelled, hh, hx]
  · rw [unhinted_intact_iff hs hrow hprior (by simpa [hh] using hb)]
    simp [Cancelled, hh]

end

/-! ### The whole call -/

lemma forwardWrite_error {t : NodeId} {e : WriteError}
    (h : forwardWrite env t req w = (w', .error e)) :
    w'.hints = w.hints ∧
    (∀ m, m ≠ t → w'.keyAt m req.bucket req.key = w.keyAt m req.bucket req.key) ∧
    w'.keyAt t req.bucket req.key =
      (if (env.peer t).reached then
        landAppend (env.service t) (w.keyAt t req.bucket req.key)
          (forwardRequest req (writeStamp env w))
      else w.keyAt t req.bucket req.key) ∧
    w'.inFlight = w.inFlight ++
      if (env.peer t).overdue then [(t, forwardRequest req (writeStamp env w))] else [] := by
  unfold forwardWrite at h
  cases ha : (env.peer t).hasAddress with
  | false =>
    simp only [ha, Bool.false_eq_true, ↓reduceIte, Prod.mk.injEq] at h
    obtain ⟨rfl, -⟩ := h
    simp [Peer.reached, Peer.overdue, ha]
  | true =>
    simp only [ha, ↓reduceIte] at h
    cases hr : (env.peer t).reached with
    | false =>
      simp only [hr, Bool.false_eq_true, ↓reduceIte, Prod.mk.injEq] at h
      obtain ⟨rfl, -⟩ := h
      simp [World.leaveInFlight_inFlight, writeStamp]
    | true =>
      have hno := Peer.overdue_of_reached hr
      simp only [hr, ↓reduceIte] at h
      have hkey := appendSegment_eq_landAppend (env.service t)
        (forwardRequest req (writeStamp env w)) ((w.tick env.self env.physical).1.replica t)
      split at h
      · simp at h
      · simp only [Prod.mk.injEq] at h
        obtain ⟨rfl, -⟩ := h
        refine ⟨rfl, fun m hm => ?_, ?_, by simp [hno]⟩
        · rw [World.setReplica_keyAt_of_ne _ _ _ _ hm, World.tick_keyAt]
        · rw [World.setReplica_keyAt_self, if_pos rfl,
            ← World.tick_keyAt w env.self t req.bucket req.key env.physical]
          exact hkey

/-- The ways a put can fail: before it writes anything, in the replication, or as a forward. -/
lemma put_error {e : WriteError} (h : put env req w = (w', .error e)) :
    ((∀ m, w'.keyAt m req.bucket req.key = w.keyAt m req.bucket req.key) ∧ w'.hints = w.hints ∧
      w'.inFlight = w.inFlight ∧ ¬Attempted env req w ∧
      (admission env req = .ok () → env.self ∉ env.replicaSet req.key →
        forwardTarget env (env.replicaSet req.key) = none)) ∨
    (Attempted env req w ∧ ∃ v chunks rowWritten,
      writeLocal env req (writeStamp env w) (w.tick env.self env.physical).1 =
        (v, .ok (chunks, rowWritten)) ∧
      replicateAndHint env req chunks rowWritten (writeStamp env w) v = (w', .error e)) ∨
    (admission env req = .ok () ∧ env.self ∉ env.replicaSet req.key ∧ ∃ t,
      forwardTarget env (env.replicaSet req.key) = some t ∧
      forwardWrite env t req w = (w', .error e)) := by
  unfold put at h
  rcases hadm : admission env req with e₁ | _
  · simp only [hadm, Prod.mk.injEq] at h
    obtain ⟨rfl, -⟩ := h
    exact .inl ⟨fun _ => rfl, rfl, rfl, fun ha => by simp [ha.1] at hadm, by simp⟩
  simp only [hadm] at h
  by_cases hself : env.self ∈ env.replicaSet req.key
  · rw [if_pos hself] at h
    rcases hlocal : admissionLocal env req with e₁ | _
    · simp only [hlocal, Prod.mk.injEq] at h
      obtain ⟨rfl, -⟩ := h
      exact .inl ⟨fun _ => rfl, rfl, rfl, fun ha => by simp [ha.2.2.1] at hlocal,
        fun _ hn => absurd hself hn⟩
    simp only [hlocal] at h
    unfold putLocal at h
    by_cases hd : req.data = []
    · simp [hd] at h
    simp only [hd, ↓reduceIte] at h
    obtain ⟨hh, hf, -, hspec⟩ := @writeLocal_spec env req (writeStamp env w) hd
      (w.tick env.self env.physical).1
    rcases hw : writeLocal env req (writeStamp env w) (w.tick env.self env.physical).1
      with ⟨v, e₁ | ⟨chunks, rowWritten⟩⟩
    · rw [writeStamp] at hw
      simp only [writeStamp, hw] at h hh hf hspec
      simp only [Prod.mk.injEq] at h
      obtain ⟨rfl, -⟩ := h
      refine .inl ⟨fun m => (hspec m).trans (World.tick_keyAt ..), hh, hf, fun ha => ?_,
        fun _ hn => absurd hself hn⟩
      have hok := ha.2.2.2.2
      rw [writeStamp, hw] at hok
      simp [Except.isOk, Except.toBool] at hok
    · refine .inr (.inl ⟨⟨hadm, hself, hlocal, hd, by rw [hw]; rfl⟩, v, chunks,
        rowWritten, rfl, ?_⟩)
      rw [writeStamp] at hw ⊢
      simpa only [hw] using h
  · rw [if_neg hself] at h
    cases ht : forwardTarget env (env.replicaSet req.key) with
    | none =>
      simp only [ht, Prod.mk.injEq] at h
      obtain ⟨rfl, -⟩ := h
      exact .inl ⟨fun _ => rfl, rfl, rfl, fun ha => hself ha.2.1, fun _ _ => rfl⟩
    | some t => exact .inr (.inr ⟨rfl, hself, t, rfl, by simpa only [ht] using h⟩)

lemma self_intact_iff {prior h : Hlc} {rowWritten : Bool} {s s₁ : KeyState} {rollbackHlc : Hlc}
    {row : ObjectMetadata} (hs : Earlier prior h s) (hsw : w.keyAt env.self req.bucket req.key = s)
    (hprior : prior < h) (hrow : row.hlc = h)
    (htier : rowWritten = true ↔ env.sizeConfig.classify req.data.length = .inline)
    (hs₁ : s₁ = if rowWritten = true then s.put row env.nowMs else s) :
    Intact prior h s (if rowWritten = true ∧ env.rollbackFault = .none then
      s₁.delete rollbackHlc env.nowMs else s₁) ↔ SelfSpared env req prior w := by
  rw [SelfSpared, ← htier, hsw, hs₁]
  cases rowWritten with
  | false => simpa using hs.intact hprior
  | true =>
    by_cases hf : env.rollbackFault = .none
    · simp only [hf, and_self, ↓reduceIte, forall_const, and_true]
      exact ⟨fun hi hp => by simpa [served] using hi.keeps hp,
        fun hn => ⟨fun hp => absurd hp hn, by simp [served]⟩⟩
    · simp only [hf, and_false, ↓reduceIte, forall_const, iff_false]
      exact fun hi => hi.drops (by simp [served, hrow])

section

variable {receiver : Receiver} {batches : List (List HintRecord)} {prior : Hlc} {t x : NodeId}
  {e : WriteError} {v : World} {chunks : List ChunkRef} {rowWritten : Bool}

lemma intact_of_unchanged (hold : Earlier prior (writeStamp env w) (w.keyAt t req.bucket req.key))
    (hprior : prior < writeStamp env w) (hb : batches.flatten = []) (ha : appendsLeft w w' t = [])
    (hkey : w'.keyAt t req.bucket req.key = w.keyAt t req.bucket req.key) :
    Intact prior (writeStamp env w) (w.keyAt t req.bucket req.key)
      (settled env receiver req w w' batches t) := by
  rw [settled, ha, foldl_nil, deliver_of_flatten_nil hb, hkey]
  exact hold.intact hprior

/-- What a write that fails in the replication leaves. -/
structure Replicated (env : Env) (req : WriteRequest) (w w' : World) (chunks : List ChunkRef)
    (rowWritten : Bool) : Prop where
  chunks_nil : chunks = [] ↔ rowWritten = true
  inline : rowWritten = true ↔ env.sizeConfig.classify req.data.length = .inline
  own : ∃ rollbackHlc, w'.keyAt env.self req.bucket req.key =
    let s := w.keyAt env.self req.bucket req.key
    let s₁ := if rowWritten = true then
      s.put (inlineRow req.key req.data (env.hash req.data) (writeStamp env w) env.nowMs) env.nowMs
      else s
    if rowWritten = true ∧ env.rollbackFault = .none then s₁.delete rollbackHlc env.nowMs else s₁
  other : ∀ m, m ≠ env.self → w'.keyAt m req.bucket req.key =
    if m ∈ remoteTargets env (env.replicaSet req.key) ∧ Stores env req (writeStamp env w) m then
      (w.keyAt m req.bucket req.key).put (replicaRow env req chunks (writeStamp env w) m)
        (env.service m).nowMs
    else w.keyAt m req.bucket req.key
  hints : ∀ m, hintsLeft w w' m =
    if m ∈ hintedTargets env req (writeStamp env w) then
      writeHint env req chunks (writeStamp env w) m ::
        if env.cancelIo m then [deleteHint req.bucket req.key (cancelStamp env w) m] else []
    else []
  appends : ∀ m, appendsLeft w w' m =
    if m ∈ remoteTargets env (env.replicaSet req.key) ∧ (env.peer m).overdue = true then
      [replicaRequest env req chunks (writeStamp env w)]
    else []

lemma Replicated.of_error (hatt : Attempted env req w)
    (hw : writeLocal env req (writeStamp env w) (w.tick env.self env.physical).1 =
      (v, .ok (chunks, rowWritten)))
    (hrep : replicateAndHint env req chunks rowWritten (writeStamp env w) v = (w', .error e)) :
    Replicated env req w w' chunks rowWritten := by
  obtain ⟨hlh, hlf, hlc, hspec⟩ := @writeLocal_spec env req (writeStamp env w) hatt.2.2.2.1
    (w.tick env.self env.physical).1
  simp only [hw, World.tick_hints, World.tick_inFlight, World.tick_keyAt] at hlh hlf hlc hspec
  obtain ⟨hrc, htier, hvk⟩ := hspec
  obtain ⟨hother, ⟨rollbackHlc, hown⟩, hhints, hflight⟩ := replicateAndHint_error hrep
  have hstamp : (v.tick env.self env.cancelPhysical).2 = cancelStamp env w := by
    rw [World.tick_hlc, hlc]
    simp [cancelStamp, writeStamp, World.tick]
  rw [hstamp, hlh] at hhints
  rw [hlf] at hflight
  refine ⟨hrc.symm, htier, ⟨rollbackHlc, ?_⟩, fun m hm => ?_, hintsLeft_eq hhints,
    appendsLeft_eq hflight⟩
  · rw [hown, hvk]
    simp
  · have hv : v.keyAt m req.bucket req.key = w.keyAt m req.bucket req.key := by
      rw [hvk, if_neg fun hc => hm hc.1]
    rw [hother m hm, hv]

/-- The serving node. -/
lemma Replicated.self_intact_iff (h : Replicated env req w w' chunks rowWritten)
    (hold : Earlier prior (writeStamp env w) (w.keyAt env.self req.bucket req.key))
    (hprior : prior < writeStamp env w) (hb : batches.flatten = hintsLeft w w' env.self) :
    Intact prior (writeStamp env w) (w.keyAt env.self req.bucket req.key)
        (settled env receiver req w w' batches env.self) ↔ SelfSpared env req prior w := by
  obtain ⟨rollbackHlc, hown⟩ := h.own
  rw [h.hints, if_neg fun hm => (mem_of_mem_hintedTargets hm).2 rfl] at hb
  rw [settled, h.appends, if_neg fun hm => (mem_of_mem_remoteTargets hm.1).2 rfl, foldl_nil,
    deliver_of_flatten_nil hb, hown]
  exact Write.self_intact_iff hold rfl hprior rfl h.inline rfl

/-- The other nodes. -/
lemma Replicated.other_intact_iff (h : Replicated env req w w' chunks rowWritten)
    (hold : ∀ t, Earlier prior (writeStamp env w) (w.keyAt t req.bucket req.key))
    (hprior : prior < writeStamp env w) (hcancel : writeStamp env w < cancelStamp env w)
    (ht : t ≠ env.self) (hb : batches.flatten = hintsLeft w w' t) :
    Intact prior (writeStamp env w) (w.keyAt t req.bucket req.key)
        (settled env receiver req w w' batches t) ↔
      MemberSpared env req prior (writeStamp env w) w t := by
  rw [settled, h.appends, h.other t ht]
  refine member_intact_iff hprior (h.chunks_nil.trans h.inline) (fun hne m hm => ?_) (hold t) rfl
    hcancel (hb.trans (h.hints t))
  obtain ⟨rollbackHlc, hown⟩ := h.own
  have hrow : ¬rowWritten = true := fun hr => hne (h.chunks_nil.mpr hr)
  rw [hown] at hm
  exact (hold env.self).row m (by simpa [hrow] using hm)

/-- A node outside the replica set is neither asked nor hinted. -/
lemma memberSpared_of_notMem (ht : t ∉ env.replicaSet req.key) (hlc : Hlc) :
    MemberSpared env req prior hlc w t := by
  have hnt : t ∉ remoteTargets env (env.replicaSet req.key) := fun hm =>
    ht (mem_of_mem_remoteTargets hm).1
  have hnh : t ∉ hintedTargets env req hlc := fun hm => ht (mem_of_mem_hintedTargets hm).1
  exact ⟨fun hcn => absurd hcn.1 hnh, fun _ => ⟨fun hst => hnt hst.1, fun hm => absurd hm hnh⟩,
    fun hl => hnt hl.1⟩

lemma appendsLeft_forward (hfw : forwardWrite env x req w = (w', .error e)) (t : NodeId) :
    appendsLeft w w' t =
      if t = x ∧ (env.peer x).overdue = true then [forwardRequest req (writeStamp env w)]
      else [] := by
  obtain ⟨-, -, -, hflight⟩ := forwardWrite_error hfw
  rw [appendsLeft, hflight, drop_left]
  by_cases ht : t = x <;> split <;> simp_all [Ne.symm]

/-- The node that a write was forwarded to: it must never run an append that it takes. -/
lemma forwarded_intact_iff (hold : Earlier prior (writeStamp env w) (w.keyAt x req.bucket req.key))
    (hprior : prior < writeStamp env w) (hfw : forwardWrite env x req w = (w', .error e))
    (hb : batches.flatten = []) :
    Intact prior (writeStamp env w) (w.keyAt x req.bucket req.key)
        (settled env receiver req w w' batches x) ↔
      ForwardSpared env req (writeStamp env w) x := by
  obtain ⟨-, -, hkey, -⟩ := forwardWrite_error hfw
  rw [settled, appendsLeft_forward hfw, deliver_of_flatten_nil hb, hkey, ForwardSpared]
  have hland : ∀ s, landAppend (env.service x) s (forwardRequest req (writeStamp env w)) =
      if Accepts (env.service x) (forwardRequest req (writeStamp env w)) (writeStamp env w) then
        s.put (appendRow (env.service x) (forwardRequest req (writeStamp env w)) req.data
          (writeStamp env w)) (env.service x).nowMs
      else s := fun _ => rfl
  by_cases hacc : Accepts (env.service x) (forwardRequest req (writeStamp env w)) (writeStamp env w)
  · have hput : ∀ s, ¬Intact prior (writeStamp env w) (w.keyAt x req.bucket req.key)
        (landAppend (env.service x) s (forwardRequest req (writeStamp env w))) := by
      intro s hi
      rw [hland, if_pos hacc] at hi
      exact hi.drops rfl
    cases hover : (env.peer x).overdue <;> cases hreached : (env.peer x).reached <;>
      simp [hacc, hput, hold.intact hprior]
  · refine iff_of_true ?_ fun _ => hacc
    simp only [hland, if_neg hacc, ite_self]
    split_ifs <;> simpa [hland, hacc] using hold.intact hprior

end

/-- **A failed PUT leaves the earlier version in place exactly when it is spared.** The replicas
hold no version after the earlier one, it is older than the failed one, and the clock has not run
out of timestamps for the cancels; the hints reach their nodes in any batches. -/
theorem failed_put_intact_iff (env : Env) (receiver : NodeId → Receiver) (req : WriteRequest)
    (w w' : World) (e : WriteError) (prior : Hlc) (batches : NodeId → List (List HintRecord))
    (hput : put env req w = (w', .error e))
    (hbatches : ∀ t, (batches t).flatten = hintsLeft w w' t)
    (hold : ∀ t, Earlier prior (writeStamp env w) (w.keyAt t req.bucket req.key))
    (hprior : prior < writeStamp env w) (hcancel : writeStamp env w < cancelStamp env w) :
    (∀ t, Intact prior (writeStamp env w) (w.keyAt t req.bucket req.key)
        (settled env (receiver t) req w w' (batches t) t)) ↔
      Spared env req prior w := by
  rcases put_error hput with ⟨hkeys, hhints, hflight, hna, hfw⟩ | ⟨hatt, v, chunks, row, hw, hrep⟩ |
    ⟨hadm, hself, x, hx, hfw⟩
  · -- nothing was written
    refine iff_of_true (fun t => ?_) ⟨fun ha => absurd ha hna, fun ha hs t ht => ?_⟩
    · exact intact_of_unchanged (hold t) hprior (by simp [hbatches, hintsLeft, hhints])
        (by simp [appendsLeft, hflight]) (hkeys t)
    · simp [hfw ha hs] at ht
  · have hdone := Replicated.of_error hatt hw hrep
    constructor
    · intro hall
      exact ⟨fun _ => ⟨(hdone.self_intact_iff (hold _) hprior (hbatches _)).mp (hall _),
        fun t _ ht => (hdone.other_intact_iff hold hprior hcancel ht (hbatches t)).mp (hall t)⟩,
        fun _ hn => absurd hatt.2.1 hn⟩
    · intro hsp t
      obtain ⟨hself, hmem⟩ := hsp.1 hatt
      by_cases ht : t = env.self
      · subst ht
        exact (hdone.self_intact_iff (hold _) hprior (hbatches _)).mpr hself
      · refine (hdone.other_intact_iff hold hprior hcancel ht (hbatches t)).mpr ?_
        by_cases hset : t ∈ env.replicaSet req.key
        · exact hmem t hset ht
        · exact memberSpared_of_notMem hset _
  · -- forwarded
    obtain ⟨hhints, hother, -, -⟩ := forwardWrite_error hfw
    have hb : ∀ t, (batches t).flatten = [] := fun t => by simp [hbatches, hintsLeft, hhints]
    constructor
    · intro hall
      refine ⟨fun ha => absurd ha.2.1 hself, fun _ _ t ht => ?_⟩
      obtain rfl : t = x := some.inj (ht.symm.trans hx)
      exact (forwarded_intact_iff (hold t) hprior hfw (hb t)).mp (hall t)
    · intro hsp t
      by_cases ht : t = x
      · subst ht
        exact (forwarded_intact_iff (hold t) hprior hfw (hb t)).mpr (hsp.2 hadm hself t hx)
      · exact intact_of_unchanged (hold t) hprior (hb t)
          (by rw [appendsLeft_forward hfw, if_neg fun h => ht h.1]) (hother t ht)

section

/-- Every node holds the version `⟨1, 1⟩` of one key. -/
def committed : World :=
  { World.blank with
    replica := fun _ =>
      ⟨Store.empty.setKey "photos" "cat" (KeyState.empty.put
        (inlineRow "cat" [1] zeroHash ⟨1, 1⟩ 0) 0), ⟨1, 1⟩, none⟩ }

def threeNodes : Routing.Ring := ⟨[(0, 1), (10, 2), (20, 3)], by decide, 3⟩

/-- No peer can be reached. -/
def isolated : Env :=
  { Env.calm 1 threeNodes with peer := fun _ => ⟨true, true, .preferred, .lostRequest⟩ }

/-- One of the peers cannot be reached, and no hint can be recorded for it. -/
def unreachable (peer : NodeId) : Env :=
  { Env.calm 1 threeNodes with
    peer := fun n => ⟨true, true, .preferred, if n = peer then .lostRequest else .answered⟩
    hintIo := fun n => n ≠ peer }

def plainReceiver : Receiver := ⟨[], fun _ => [], fun _ => zeroHash, 0⟩

theorem failed_put_spared :
    let req : WriteRequest := ⟨"photos", "cat", [1, 2, 3, 4, 5], 2⟩
    ∀ t, Intact ⟨1, 1⟩ ⟨1, 2⟩ (committed.keyAt t "photos" "cat")
      (settled isolated plainReceiver req committed (put isolated req committed).1 [] t) := by
  intro req
  have hput : put isolated req committed =
      ((put isolated req committed).1, .error (.quorumNotMet 2 1)) := Prod.ext rfl (by decide)
  refine (failed_put_intact_iff isolated (fun _ => plainReceiver) req committed _ _ ⟨1, 1⟩
    (fun _ => []) hput (fun t => ?_) (fun t => ⟨?_, ?_⟩) (by decide) (by decide)).mpr ?_
  · have hnone : (put isolated req committed).1.hints = [] := by decide
    simp [hintsLeft, hnone]
  · intro m hm
    obtain rfl : m = inlineRow "cat" [1] zeroHash ⟨1, 1⟩ 0 :=
      (some.inj hm).symm
    rfl
  · intro ts hts
    have hnone : (committed.keyAt t req.bucket req.key).tombstone = none := rfl
    simp [hnone] at hts
  · refine ⟨fun _ => ⟨fun hc => absurd hc (by decide), fun t _ _ => ?_⟩, fun _ hn => ?_⟩
    · have hnh : hintedTargets isolated req (writeStamp isolated committed) = [] := by decide
      have hreach : (isolated.peer t).reached = false := rfl
      have hover : (isolated.peer t).overdue = false := rfl
      refine ⟨fun hc => ?_, fun _ => ⟨fun hst => ?_, fun hm => ?_⟩, fun hl => ?_⟩
      · exact absurd hc.1 (by simp [hnh])
      · exact absurd hst.2.1 (by simp [hreach])
      · exact absurd hm (by simp [hnh])
      · exact absurd hl.2.1 (by simp [hover])
    · exact absurd (by decide) hn

/-- An inline overwrite that misses its quorum is rolled back by a delete, which takes the
earlier version with it. A larger one that reached its quorum, but not the third member nor its
hint, fails too, and stays on the member that acked it. -/
theorem failed_put_disturbs :
    (let req : WriteRequest := ⟨"photos", "cat", [7], 2⟩
     let out := put isolated req committed
     out.2 = .error (.quorumNotMet 2 1) ∧
       served (committed.keyAt 1 "photos" "cat") = some ⟨1, 1⟩ ∧
       served (settled isolated plainReceiver req committed out.1 [] 1) = none) ∧
    (let req : WriteRequest := ⟨"photos", "cat", [1, 2, 3, 4, 5], 2⟩
     let out := put (unreachable 3) req committed
     out.2 = .error (.serviceUnavailable "hinted handoff enqueue failed — debt unrecordable") ∧
       served (committed.keyAt 2 "photos" "cat") = some ⟨1, 1⟩ ∧
       served (settled (unreachable 3) plainReceiver req committed out.1 [] 2) =
         some (writeStamp (unreachable 3) committed)) := by
  decide

end

end OceanFs.Write
