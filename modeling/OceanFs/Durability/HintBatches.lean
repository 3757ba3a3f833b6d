import Mathlib.Data.Finset.Card
import Mathlib.Data.List.Range
import OceanFs.Durability.HintDelivery
import OceanFs.Lib.Lists

/-!
How the hints of a batch are counted, by the node that sends them and by the node that gets them.

The receiver goes through the batch twice. The references that it can fetch are put off, and are
fetched by tasks of their own; when one of these tasks panics, its index is lost, and all the
deferred hints are reported for retry, those that were accepted too. The sender subtracts the
number of reported indices from the size of its batch, whatever the indices are.
-/

namespace OceanFs.Durability.Delivery

open OceanFs.Core Lib List

/-! ### The receiver -/

/-- A hint of a request, as far as its way through `hinted_handoff` depends on it. -/
inductive ProtoHint
  | inline (intendedFor : Option String)
  | segmentRef (intendedFor : Option String)
  | delete (intendedFor : Option String)
  /-- there is no record -/
  | none
  deriving DecidableEq

/-- How a fetch task ends. -/
inductive Joined
  /-- the object, and whether it is applied -/
  | object (applied : Bool)
  | absent
  | failed
  | panicked
  deriving DecidableEq

/-- The receiving node, and what becomes of the hint at each index. -/
structure HandoffEnv where
  localNodeId : Option String
  /-- the sender's address is known and there is a fetcher -/
  canFetch : Bool
  applyInline : ℕ → Bool
  applyDelete : ℕ → Bool
  handoff : ℕ → Bool
  fetch : ℕ → Joined

variable (env : HandoffEnv)

def HandoffEnv.isLocalHint (intendedFor : Option String) : Bool :=
  env.localNodeId = some (intendedFor.getD "unknown")

structure Tally where
  acceptedCount : ℕ
  retryIndices : List ℕ
  pendingFetches : List ℕ
  deriving DecidableEq

def Tally.accept (t : Tally) : Tally := { t with acceptedCount := t.acceptedCount + 1 }

def Tally.retry (t : Tally) (idx : ℕ) : Tally :=
  { t with retryIndices := t.retryIndices ++ [idx] }

def Tally.acceptIf (t : Tally) (ok : Bool) (idx : ℕ) : Tally :=
  if ok then t.accept else t.retry idx

/-- One round of the loop over the batch. -/
def handleHint (t : Tally) : ProtoHint × ℕ → Tally
  | (.inline intendedFor, idx) =>
    if env.isLocalHint intendedFor then t.acceptIf (env.applyInline idx) idx
    else t.acceptIf (env.handoff idx) idx
  | (.segmentRef intendedFor, idx) =>
    if env.isLocalHint intendedFor then
      if env.canFetch then { t with pendingFetches := t.pendingFetches ++ [idx] }
      else t.retry idx
    else t.acceptIf (env.handoff idx) idx
  | (.delete intendedFor, idx) =>
    if env.isLocalHint intendedFor then t.acceptIf (env.applyDelete idx) idx else t.retry idx
  | (.none, idx) => t.retry idx

def firstPass (hints : List ProtoHint) : Tally :=
  hints.zipIdx.foldl (handleHint env) ⟨0, [], []⟩

/-- The deferred hints in the order in which their tasks end. -/
def Arrivals (hints : List ProtoHint) :=
  { order : List ℕ // order.Perm (firstPass env hints).pendingFetches }

/-- One round of the loop over the ended tasks. -/
def join (deferred : List ℕ) (t : Tally) (idx : ℕ) : Tally :=
  match env.fetch idx with
  | .object applied => t.acceptIf applied idx
  | .absent => t.accept
  | .failed => t.retry idx
  | .panicked => { t with retryIndices := t.retryIndices ++ deferred }

/-- `hinted_handoff`, as far as it counts. -/
def hintedHandoff (hints : List ProtoHint) (order : Arrivals env hints) :
    Tally :=
  let t := firstPass env hints
  order.val.foldl (join env t.pendingFetches) t

/-! ### The sender -/

/-- What `drain_and_deliver` takes off the queue. -/
def drained (cfg : Config) (queue : List Queued) : List Queued :=
  queue.take (batchSize cfg 0 0 queue)

/-- What it counts as delivered when the batch is answered; nothing if the subtraction
underflows. -/
def deliveredCount (cfg : Config) (queue : List Queued) (retryIndices : List ℕ) : Option ℕ :=
  let batch := drained cfg queue
  if batch = [] then some 0
  else
    let retry := retryIndices.toFinset
    if retry.card ≤ batch.length then some (batch.length - retry.card) else none

/-! ### Batches -/

section

variable {cfg : Config} {queue : List Queued}

lemma le_batchSize (n bytes : ℕ) (queue : List Queued) : n ≤ batchSize cfg n bytes queue := by
  induction queue generalizing n bytes with
  | nil => exact Nat.le_refl n
  | cons item items ih =>
    simp only [batchSize]
    split_ifs
    · exact Nat.le_refl n
    · exact Nat.le_refl n
    · exact Nat.le_of_succ_le (ih (n + 1) _)

lemma drained_ne_nil_iff : (queue ≠ [] → drained cfg queue ≠ []) ↔
    ∀ item ∈ queue.head?,
      0 < cfg.maxBatchSize ∧ recordPayloadBytes item.record ≤ cfg.maxBatchBytes := by
  cases queue with
  | nil => simp
  | cons item items =>
    have hsize : 0 < batchSize cfg 0 0 (item :: items) ↔
        0 < cfg.maxBatchSize ∧ recordPayloadBytes item.record ≤ cfg.maxBatchBytes := by
      have hrest := @le_batchSize cfg (0 + 1) (0 + recordPayloadBytes item.record) items
      simp only [batchSize]
      split_ifs <;> omega
    rw [Nat.pos_iff_ne_zero] at hsize
    simp [drained, hsize]

lemma length_acceptedOf (retry : List ℕ) (batch : List Queued) :
    (acceptedOf retry batch).length + (retry.toFinset.filter (· < batch.length)).card =
      batch.length := by
  have haccepted : (acceptedOf retry batch).length =
      ((List.range batch.length).filter (· ∉ retry)).length := by
    rw [acceptedOf, length_map, range_eq_range', ← zipIdx_map_snd 0 batch, filter_map, length_map]
    rfl
  have hlisted : (retry.toFinset.filter (· < batch.length)).card =
      ((List.range batch.length).filter (· ∈ retry)).length := by
    rw [← toFinset_card_of_nodup (List.nodup_range.filter _)]
    congr 1
    ext i
    simp [and_comm]
  have hsplit := Lists.length_filter_add (· ∈ retry) (List.range batch.length)
  rw [length_range] at hsplit
  omega

lemma deliveredCount_iff {retry : List ℕ} :
    deliveredCount cfg queue retry = some (acceptedOf retry (drained cfg queue)).length ↔
      drained cfg queue = [] ∨ ∀ i ∈ retry, i < (drained cfg queue).length := by
  unfold deliveredCount
  generalize drained cfg queue = batch
  by_cases hempty : batch = []
  · simp [hempty, acceptedOf]
  have haccepted := length_acceptedOf retry batch
  have hle := Finset.card_filter_le retry.toFinset (· < batch.length)
  have hall : (∀ i ∈ retry, i < batch.length) ↔
      (retry.toFinset.filter (· < batch.length)).card = retry.toFinset.card := by
    rw [Finset.card_filter_eq_iff]
    simp only [mem_toFinset]
  simp only [hempty, if_false, false_or, hall]
  split_ifs
  · rw [Option.some.injEq]
    omega
  · refine iff_of_false nofun ?_
    omega

end

/-! ### The receiver's counts -/

section

variable {env : HandoffEnv} {hints : List ProtoHint}

/-- After some hints: each is accepted, reported or deferred. -/
structure Balanced (seen : List ℕ) (t : Tally) : Prop where
  total : t.acceptedCount + (t.retryIndices ++ t.pendingFetches).length = seen.length
  nodup : (t.retryIndices ++ t.pendingFetches).Nodup
  subset : t.retryIndices ++ t.pendingFetches ⊆ seen

lemma Balanced.accept {seen : List ℕ} {t : Tally} (h : Balanced seen t) (idx : ℕ) :
    Balanced (seen ++ [idx]) t.accept where
  total := by
    rw [@length_append _ seen, length_singleton, ← h.total]
    simp only [Tally.accept]
    omega
  nodup := h.nodup
  subset := subset_append_of_subset_left _ h.subset

lemma Balanced.list {seen : List ℕ} {t t' : Tally} (h : Balanced seen t) {idx : ℕ}
    (hidx : idx ∉ seen) (haccepted : t'.acceptedCount = t.acceptedCount)
    (hperm : (t'.retryIndices ++ t'.pendingFetches).Perm
      (idx :: (t.retryIndices ++ t.pendingFetches))) : Balanced (seen ++ [idx]) t' where
  total := by
    rw [hperm.length_eq, haccepted, length_append, length_singleton, ← h.total, length_cons]
    omega
  nodup := hperm.nodup_iff.mpr (nodup_cons.mpr ⟨fun hin => hidx (h.subset hin), h.nodup⟩)
  subset i hi := by
    rcases mem_cons.mp (hperm.mem_iff.mp hi) with rfl | hi
    · exact mem_append_right _ mem_cons_self
    · exact mem_append_left _ (h.subset hi)

lemma Balanced.retry {seen : List ℕ} {t : Tally} (h : Balanced seen t) {idx : ℕ}
    (hidx : idx ∉ seen) : Balanced (seen ++ [idx]) (t.retry idx) :=
  h.list hidx rfl (by simp [Tally.retry])

lemma Balanced.acceptIf {seen : List ℕ} {t : Tally} (h : Balanced seen t) {idx : ℕ}
    (hidx : idx ∉ seen) (ok : Bool) : Balanced (seen ++ [idx]) (t.acceptIf ok idx) := by
  unfold Tally.acceptIf
  split
  · exact h.accept idx
  · exact h.retry hidx

lemma Balanced.handleHint {seen : List ℕ} {t : Tally} (h : Balanced seen t) {idx : ℕ}
    (hidx : idx ∉ seen) (hint : ProtoHint) :
    Balanced (seen ++ [idx]) (Delivery.handleHint env t (hint, idx)) := by
  cases hint with
  | inline intendedFor =>
    simp only [Delivery.handleHint]
    split_ifs
    · exact h.acceptIf hidx _
    · exact h.acceptIf hidx _
  | segmentRef intendedFor =>
    simp only [Delivery.handleHint]
    split_ifs
    · exact h.list hidx rfl (by simp [← append_assoc])
    · exact h.retry hidx
    · exact h.acceptIf hidx _
  | delete intendedFor =>
    simp only [Delivery.handleHint]
    split_ifs
    · exact h.acceptIf hidx _
    · exact h.retry hidx
  | none => exact h.retry hidx

lemma balanced_firstPass (env : HandoffEnv) (hints : List ProtoHint) :
    Balanced (List.range hints.length) (firstPass env hints) := by
  induction hints using List.reverseRecOn with
  | nil => exact ⟨rfl, nodup_nil, nil_subset _⟩
  | append_singleton hints hint ih =>
    rw [firstPass, zipIdx_append, foldl_append, length_append, length_singleton, range_succ]
    have hnew : hints.length ∉ List.range hints.length := by simp
    simpa [firstPass] using ih.handleHint hnew hint

/-- The hint at the index is a reference for this node, which can fetch it. -/
def Deferred (env : HandoffEnv) (hints : List ProtoHint) (i : ℕ) : Prop :=
  env.canFetch = true ∧
    ∃ intendedFor, hints[i]? = some (.segmentRef intendedFor) ∧ env.isLocalHint intendedFor = true

lemma mem_pendingFetches_handleHint {t : Tally} {hint : ProtoHint} {i idx : ℕ} :
    i ∈ (handleHint env t (hint, idx)).pendingFetches ↔ i ∈ t.pendingFetches ∨
      i = idx ∧ env.canFetch = true ∧
        ∃ intendedFor, hint = .segmentRef intendedFor ∧ env.isLocalHint intendedFor = true := by
  have hsame : ∀ ok, (t.acceptIf ok idx).pendingFetches = t.pendingFetches := by
    rintro (_ | _) <;> rfl
  cases hint with
  | inline _ =>
    simp only [handleHint]
    split_ifs <;> simp [hsame]
  | segmentRef _ =>
    simp only [handleHint]
    split_ifs <;> simp [Tally.retry, *]
  | delete _ =>
    simp only [handleHint]
    split_ifs <;> simp [hsame, Tally.retry]
  | none => simp [handleHint, Tally.retry]

lemma mem_pendingFetches {i : ℕ} :
    i ∈ (firstPass env hints).pendingFetches ↔ Deferred env hints i := by
  induction hints using List.reverseRecOn with
  | nil => simp [firstPass, Deferred]
  | append_singleton hints hint ih =>
    have hlast : (firstPass env (hints ++ [hint])) =
        handleHint env (firstPass env hints) (hint, hints.length) := by
      simp [firstPass, zipIdx_append]
    rw [hlast, mem_pendingFetches_handleHint, ih, Deferred, Deferred]
    rcases Nat.lt_trichotomy i hints.length with h | rfl | h
    · simp [getElem?_append_left h, h.ne]
    · simp
    · have hnone : (hints ++ [hint])[i]? = none := getElem?_eq_none (by simp; omega)
      simp [getElem?_eq_none h.le, hnone, h.ne']

def Joined.accepts (j : Joined) : Bool := j = .object true ∨ j = .absent

def Joined.rejects (j : Joined) : Bool := j = .object false ∨ j = .failed

lemma join_spec (deferred : List ℕ) (t : Tally) (idx : ℕ) :
    (join env deferred t idx).acceptedCount =
        t.acceptedCount + ([idx].filter fun i => (env.fetch i).accepts).length ∧
      ∀ i, i ∈ (join env deferred t idx).retryIndices ↔ i ∈ t.retryIndices ∨
        i = idx ∧ (env.fetch idx).rejects ∨ i ∈ deferred ∧ env.fetch idx = .panicked := by
  cases hfetch : env.fetch idx with
  | object applied => cases applied <;>
      simp [join, hfetch, Tally.acceptIf, Tally.accept, Tally.retry, Joined.accepts, Joined.rejects]
  | absent => simp [join, hfetch, Tally.accept, Joined.accepts, Joined.rejects]
  | failed => simp [join, hfetch, Tally.retry, Joined.accepts, Joined.rejects]
  | panicked => simp [join, hfetch, Joined.accepts, Joined.rejects]

lemma foldl_join_spec (deferred order : List ℕ) (t : Tally) :
    (order.foldl (join env deferred) t).acceptedCount =
        t.acceptedCount + (order.filter fun i => (env.fetch i).accepts).length ∧
      ∀ i, i ∈ (order.foldl (join env deferred) t).retryIndices ↔ i ∈ t.retryIndices ∨
        (i ∈ order ∧ (env.fetch i).rejects) ∨
          i ∈ deferred ∧ ∃ j ∈ order, env.fetch j = .panicked := by
  induction order generalizing t with
  | nil => simp
  | cons idx rest ih =>
    obtain ⟨hcount, hmem⟩ := ih (join env deferred t idx)
    obtain ⟨hcount', hmem'⟩ := @join_spec env deferred t idx
    refine ⟨?_, fun i => ?_⟩
    · rw [foldl_cons, hcount, hcount', Nat.add_assoc, ← length_append, ← filter_append]
      rfl
    · rw [foldl_cons, hmem, hmem']
      simp only [mem_cons, exists_eq_or_imp]
      grind

lemma counts_iff (order : Arrivals env hints) :
    (hintedHandoff env hints order).acceptedCount +
        (hintedHandoff env hints order).retryIndices.toFinset.card = hints.length ↔
      ∀ i ∈ (firstPass env hints).pendingFetches, env.fetch i = .panicked →
        ∀ j ∈ (firstPass env hints).pendingFetches, (env.fetch j).accepts = false := by
  have hbalanced := balanced_firstPass env hints
  obtain ⟨order, hperm⟩ := order
  simp only [hintedHandoff]
  generalize firstPass env hints = t at hbalanced hperm ⊢
  obtain ⟨hcount, hmem⟩ := @foldl_join_spec env t.pendingFetches order t
  have htotal := hbalanced.total
  rw [length_range, length_append] at htotal
  rw [hcount, (hperm.filter _).length_eq]
  by_cases hpanic : ∃ i ∈ t.pendingFetches, env.fetch i = .panicked
  · -- everything deferred is reported
    obtain ⟨p, hp, hpanicked⟩ := hpanic
    have hset : (order.foldl (join env t.pendingFetches) t).retryIndices.toFinset =
        (t.retryIndices ++ t.pendingFetches).toFinset := by
      ext i
      simp only [mem_toFinset, hmem, mem_append]
      constructor
      · rintro (h | ⟨h, -⟩ | ⟨h, -⟩)
        · exact .inl h
        · exact .inr (hperm.mem_iff.mp h)
        · exact .inr h
      · exact Or.imp_right fun h => .inr ⟨h, p, hperm.mem_iff.mpr hp, hpanicked⟩
    have hnone : (t.pendingFetches.filter fun i => (env.fetch i).accepts).length = 0 ↔
        ∀ j ∈ t.pendingFetches, (env.fetch j).accepts = false := by
      simp [filter_eq_nil_iff]
    rw [hset, toFinset_card_of_nodup hbalanced.nodup, length_append]
    constructor
    · intro h _ _ _
      exact hnone.mp (by omega)
    · intro h
      have hzero := hnone.mpr (h p hp hpanicked)
      omega
  · -- each deferred hint is accepted or reported by itself
    have hset : (order.foldl (join env t.pendingFetches) t).retryIndices.toFinset =
        (t.retryIndices ++ t.pendingFetches.filter fun i => (env.fetch i).rejects).toFinset := by
      ext i
      simp [hmem, hperm.mem_iff, hpanic]
    have hnodup := hbalanced.nodup.sublist (Sublist.append_left
      (@filter_sublist _ (fun i => (env.fetch i).rejects) t.pendingFetches) t.retryIndices)
    have hrejects : t.pendingFetches.filter (fun i => (env.fetch i).rejects) =
        t.pendingFetches.filter fun i => !(env.fetch i).accepts := by
      refine filter_congr fun i hi => ?_
      cases hfetch : env.fetch i with
      | object applied => cases applied <;> rfl
      | absent => rfl
      | failed => rfl
      | panicked => exact absurd ⟨i, hi, hfetch⟩ hpanic
    have hsplit := length_eq_length_filter_add (l := t.pendingFetches)
      fun i => (env.fetch i).accepts
    rw [hset, toFinset_card_of_nodup hnodup, length_append, hrejects]
    refine iff_of_true (by omega) fun i hi h => absurd ⟨i, hi, h⟩ hpanic

end

/-- **When batches are accounted exactly.** -/
theorem batches_accounted_iff (cfg : Config) (queue : List Queued) (env : HandoffEnv)
    (hints : List ProtoHint) (order : Arrivals env hints) (retry : List ℕ) :
    ((queue ≠ [] → drained cfg queue ≠ []) ∧ drained cfg queue <+: queue ∧
        (hintedHandoff env hints order).acceptedCount +
          (hintedHandoff env hints order).retryIndices.toFinset.card = hints.length ∧
        deliveredCount cfg queue retry = some (acceptedOf retry (drained cfg queue)).length) ↔
      (∀ item ∈ queue.head?,
          0 < cfg.maxBatchSize ∧ recordPayloadBytes item.record ≤ cfg.maxBatchBytes) ∧
        (∀ i, Deferred env hints i → env.fetch i = .panicked →
          ∀ j, Deferred env hints j → (env.fetch j).accepts = false) ∧
        (drained cfg queue = [] ∨ ∀ i ∈ retry, i < (drained cfg queue).length) := by
  have hfront : drained cfg queue <+: queue := take_prefix _ _
  rw [drained_ne_nil_iff, counts_iff, deliveredCount_iff]
  simp only [hfront, true_and, mem_pendingFetches]

/-- Two references to objects that the receiver can fetch. -/
def twoReferences : List ProtoHint := [.segmentRef (some "a"), .segmentRef (some "a")]

/-- The second fetch panics. -/
def secondPanics : HandoffEnv where
  localNodeId := some "a"
  canFetch := true
  applyInline _ := true
  applyDelete _ := true
  handoff _ := true
  fetch i := if i = 1 then .panicked else .object true

/-- **A hint that is larger than a batch is never sent; a panic counts an accepted hint twice; and
an index out of range underflows the sender's count.** -/
theorem batches_miscounted :
    drained ⟨8, 200, 5, fun _ => 9⟩ [⟨0, 9, ⟨0, .segmentRef, 1, 0⟩⟩] = [] ∧
      (hintedHandoff secondPanics twoReferences ⟨[0, 1], .refl _⟩).acceptedCount +
        (hintedHandoff secondPanics twoReferences ⟨[0, 1], .refl _⟩).retryIndices.toFinset.card ≠
          twoReferences.length ∧
      deliveredCount ⟨8, 400, 5, fun _ => 9⟩ [⟨0, 9, ⟨0, .segmentRef, 1, 0⟩⟩] [0, 7] = none := by
  decide

end OceanFs.Durability.Delivery
