import Mathlib.Data.Finset.Card
import OceanFs.Core.Types
import OceanFs.Lib.Runs

/-!
The queue of the reconciliation loop.

A segment that waits is in a set and in a heap, under two locks. A batch takes items from the heap
alone, and the set keeps them while it looks at each one, so that nobody enqueues them again. Each
item goes back to the heap, or leaves the set when the batch finds nothing to repair.
-/

namespace OceanFs.Durability.Reconcile

open OceanFs.Core Lib List Option

structure ReconcileConfig where
  retryAfterTicks : ℕ
  maxBatchPerTick : ℕ
  maxQueueDepth : ℕ

structure WorkItem where
  segmentId : SegmentId
  live : ℕ
  deriving DecidableEq

/-- `a` is the greater one: fewer live copies, then the greater id. -/
def WorkItem.before (a b : WorkItem) : Bool :=
  a.live < b.live ∨ a.live = b.live ∧ b.segmentId < a.segmentId

/-- The membership view: the nodes that are alive, and those that hold no data. -/
structure View where
  alive : Finset NodeId
  unavailable : Finset NodeId
  deriving DecidableEq

def liveCopyCount (locations : List NodeId) (view : View) : ℕ :=
  locations.countP fun n => n ∈ view.alive ∧ n ∉ view.unavailable

/-- The heap, from which `pop` takes the greatest item. -/
def peek : List WorkItem → Option WorkItem
  | [] => none
  | x :: queue =>
    match peek queue with
    | none => some x
    | some y => if y.before x then some y else some x

def popBatch : ℕ → List WorkItem → List WorkItem × List WorkItem
  | 0, queue => ([], queue)
  | n + 1, queue =>
    match peek queue with
    | none => ([], queue)
    | some x => (x :: (popBatch n (queue.erase x)).1, (popBatch n (queue.erase x)).2)

/-- The loop with the registry, of which the storage locations matter, and a batch in progress: what
it popped, its membership view, what the registry answered for the first item, and the repairs. -/
structure State where
  registry : SegmentId → Option (List NodeId)
  view : View
  inQueue : Finset SegmentId
  queue : List WorkItem
  tick : ℕ
  lastEnqueuedTick : SegmentId → Option ℕ
  popped : List WorkItem
  snapshot : Option View
  seen : Option (Option (List NodeId))
  toEnqueue : List SegmentId

def State.fresh (registry : SegmentId → Option (List NodeId)) (view : View) : State :=
  ⟨registry, view, ∅, [], 0, fun _ => none, [], none, none, []⟩

inductive Act where
  | changeRegistry (registry : SegmentId → Option (List NodeId))
  | changeView (view : View)
  | enqueue (segmentId : SegmentId)
  /-- The drift scan at a segment, with the view it took when it began. -/
  | drift (segmentId : SegmentId) (view : View)
  | pop
  | takeSnapshot
  | look
  | decide
  /-- The answer of the repair sink; either way the segment goes back. -/
  | repaired (ok : Bool)

variable (config : ReconcileConfig) (rf : ℕ)

namespace State

def enqueueWithLive (s : State) (segmentId : SegmentId) (live : ℕ) : State :=
  if segmentId ∈ s.inQueue ∨ config.maxQueueDepth < (insert segmentId s.inQueue).card then s
  else
    { s with inQueue := insert segmentId s.inQueue, queue := ⟨segmentId, live⟩ :: s.queue }

/-- `usize::MAX` for a segment that the registry does not know. -/
def computeLive (s : State) (segmentId : SegmentId) : ℕ :=
  ((s.registry segmentId).map (liveCopyCount · s.view)).getD (2 ^ 64 - 1)

/-- Too soon after the last repair of the segment. -/
def Paced (s : State) (segmentId : SegmentId) : Prop :=
  ∃ last ∈ s.lastEnqueuedTick segmentId, s.tick - 1 - last < config.retryAfterTicks

instance (s : State) (segmentId : SegmentId) : Decidable (s.Paced config segmentId) :=
  inferInstanceAs (Decidable (∃ _ ∈ _, _))

/-- Nothing to repair: the segment is gone, or it has its copies. -/
def Done (s : State) : Prop :=
  ∃ view ∈ s.snapshot, ∃ found ∈ s.seen, ∀ locations ∈ found, rf ≤ liveCopyCount locations view

instance (s : State) : Decidable (s.Done rf) := inferInstanceAs (Decidable (∃ _ ∈ _, ∃ _ ∈ _, _))

def idle (s : State) : Bool := s.popped = [] ∧ s.toEnqueue = []

end State

open State

def step (s : State) : Act → Option State
  | .changeRegistry registry => some { s with registry }
  | .changeView view => some { s with view }
  | .enqueue segmentId => some (s.enqueueWithLive config segmentId (s.computeLive segmentId))
  | .drift segmentId view =>
    (s.registry segmentId).bind fun locations =>
      if liveCopyCount locations view < rf then
        some (s.enqueueWithLive config segmentId (liveCopyCount locations view))
      else none
  | .pop =>
    if s.idle then
      let b := popBatch config.maxBatchPerTick s.queue
      some { s with
        popped := b.1, queue := b.2, tick := s.tick + 1, snapshot := none, seen := none }
    else none
  | .takeSnapshot =>
    if s.popped ≠ [] ∧ s.snapshot = none then some { s with snapshot := some s.view } else none
  | .look =>
    match s.popped, s.snapshot, s.seen with
    | x :: _, some _, none => some { s with seen := some (s.registry x.segmentId) }
    | _, _, _ => none
  | .decide =>
    match s.popped, s.seen with
    | x :: popped, some _ =>
      let s' := { s with popped, seen := none }
      if s.Done rf then some { s' with inQueue := s.inQueue.erase x.segmentId }
      else if s.Paced config x.segmentId then some { s' with queue := x :: s.queue }
      else
        some { s' with
          lastEnqueuedTick := Function.update s.lastEnqueuedTick x.segmentId (some (s.tick - 1))
          toEnqueue := s.toEnqueue ++ [x.segmentId] }
    | _, _ => none
  | .repaired _ =>
    match s.popped, s.toEnqueue with
    | [], segmentId :: toEnqueue =>
      some { s with toEnqueue, queue := ⟨segmentId, 0⟩ :: s.queue }
    | _, _ => none

/-- Between batches the set has the ids of the heap, each of which is there once. -/
def Consistent (s : State) : Prop :=
  (s.idle = true → (s.queue.map (·.segmentId)).Nodup ∧
    ∀ id, id ∈ s.inQueue ↔ id ∈ s.queue.map (·.segmentId)) ∧
  s.inQueue.card ≤ config.maxQueueDepth

/-- On the run `acts`, since its last pop, there was a moment when the batch had `id` and the
membership view was `view`. -/
def ViewRead (start : State) (acts : List Act) (id : SegmentId) (view : View) : Prop :=
  ∃ before after s, acts = before ++ after ∧ .pop ∉ after ∧
    Runs.run (step config rf) start before = some s ∧ id ∈ s.popped.map (·.segmentId) ∧
    s.view = view

/-- After that moment there was one when the registry had `found` for the segment. -/
def RegistryRead (start : State) (acts : List Act) (id : SegmentId) (view : View)
    (found : Option (List NodeId)) : Prop :=
  ∃ before after s, acts = before ++ after ∧ .pop ∉ after ∧
    Runs.run (step config rf) start before = some s ∧
    ViewRead config rf start before id view ∧ s.registry id = found

/-- The batch in progress has seen the segment deleted or with its copies. -/
def SeenDone (start : State) (acts : List Act) (id : SegmentId) : Prop :=
  ∃ view found, RegistryRead config rf start acts id view found ∧
    ∀ locations ∈ found, rf ≤ liveCopyCount locations view

variable {config rf} {s s' : State} {a : Act}

lemma peek_mem {queue : List WorkItem} {x : WorkItem} (h : peek queue = some x) : x ∈ queue := by
  induction queue generalizing x with
  | nil => simp [peek] at h
  | cons y queue ih =>
    rw [peek] at h
    grind

lemma popBatch_perm (n : ℕ) (queue : List WorkItem) :
    queue.Perm ((popBatch n queue).1 ++ (popBatch n queue).2) := by
  induction n generalizing queue with
  | zero => exact .refl _
  | succ n ih =>
    rw [popBatch]
    cases hx : peek queue with
    | none => exact .refl _
    | some x => exact (perm_cons_erase (peek_mem hx)).trans ((ih _).cons x)

/-- The ids in the heap and in the batch. -/
def pending (s : State) : List SegmentId :=
  s.queue.map (·.segmentId) ++ (s.popped.map (·.segmentId) ++ s.toEnqueue)

structure Inv (config : ReconcileConfig) (s : State) : Prop where
  nodup : (pending s).Nodup
  mem : ∀ id, id ∈ s.inQueue ↔ id ∈ pending s
  card : s.inQueue.card ≤ config.maxQueueDepth

namespace Inv

variable (h : Inv config s)

include h

lemma consistent : Consistent config s := by
  refine ⟨fun hidle => ?_, h.card⟩
  have hpending : pending s = s.queue.map (·.segmentId) := by
    simp only [idle, decide_eq_true_eq] at hidle
    simp [pending, hidle]
  exact ⟨hpending ▸ h.nodup, hpending ▸ h.mem⟩

lemma of_perm (hset : s'.inQueue = s.inQueue) (hperm : (pending s').Perm (pending s)) :
    Inv config s' where
  nodup := hperm.nodup_iff.mpr h.nodup
  mem id := by rw [hset, h.mem, hperm.mem_iff]
  card := hset ▸ h.card

lemma enqueueWithLive (id : SegmentId) (live : ℕ) :
    Inv config (s.enqueueWithLive config id live) := by
  rw [State.enqueueWithLive]
  split
  · exact h
  · rename_i hnew
    obtain ⟨hnew, hcard⟩ := not_or.mp hnew
    refine ⟨nodup_cons.mpr ⟨fun hid => hnew ((h.mem id).mpr hid), h.nodup⟩, fun id' => ?_,
      Nat.le_of_not_lt hcard⟩
    rw [Finset.mem_insert, h.mem]
    exact mem_cons.symm

lemma step (hs : step config rf s a = some s') : Inv config s' := by
  cases a with
  | changeRegistry registry => cases hs; exact h.of_perm rfl (.refl _)
  | changeView view => cases hs; exact h.of_perm rfl (.refl _)
  | enqueue id => cases hs; exact h.enqueueWithLive id _
  | drift id view =>
    obtain ⟨locations, -, hs⟩ := bind_eq_some_iff.mp hs
    split at hs <;> cases hs
    exact h.enqueueWithLive id _
  | pop =>
    simp only [Reconcile.step] at hs
    split at hs <;> cases hs
    rename_i hidle
    simp only [idle, decide_eq_true_eq] at hidle
    refine h.of_perm rfl ?_
    have hperm := (popBatch_perm config.maxBatchPerTick s.queue).map (·.segmentId)
    rw [map_append] at hperm
    simpa [pending, hidle] using perm_append_comm.trans hperm.symm
  | takeSnapshot =>
    simp only [Reconcile.step] at hs
    split at hs <;> cases hs
    exact h.of_perm rfl (.refl _)
  | look =>
    simp only [Reconcile.step] at hs
    split at hs <;> cases hs
    exact h.of_perm rfl (.refl _)
  | decide =>
    simp only [Reconcile.step] at hs
    split at hs
    · rename_i x popped found hpopped hseen
      have hpending : (pending s).Perm (x.segmentId :: (s.queue.map (·.segmentId) ++
          (popped.map (·.segmentId) ++ s.toEnqueue))) := by
        rw [pending, hpopped]
        exact perm_middle
      split at hs
      · cases hs
        obtain ⟨hx, hnodup⟩ := nodup_cons.mp (hpending.nodup_iff.mp h.nodup)
        refine ⟨hnodup, fun id => ?_, (Finset.card_erase_le).trans h.card⟩
        have hmem := (h.mem id).trans (hpending.mem_iff.trans mem_cons)
        rw [Finset.mem_erase, hmem]
        exact ⟨fun hid => hid.2.resolve_left hid.1,
          fun hid => ⟨fun heq => hx (heq ▸ hid), .inr hid⟩⟩
      · split at hs <;> cases hs
        · exact h.of_perm rfl hpending.symm
        · refine h.of_perm rfl (.trans ?_ hpending.symm)
          simp only [pending, ← append_assoc]
          exact perm_append_singleton _ _
    · cases hs
  | repaired ok =>
    simp only [Reconcile.step] at hs
    split at hs <;> cases hs
    rename_i id toEnqueue hpopped htoEnqueue
    refine h.of_perm rfl ?_
    simpa [pending, hpopped, htoEnqueue] using perm_middle.symm

end Inv

lemma mem_enqueueWithLive {id id' : SegmentId} {live : ℕ} (hid : id ∈ s.inQueue) :
    id ∈ (s.enqueueWithLive config id' live).inQueue := by
  rw [State.enqueueWithLive]
  split
  · exact hid
  · exact Finset.mem_insert_of_mem hid

lemma done_of_left (hs : step config rf s a = some s') {id : SegmentId} (hid : id ∈ s.inQueue)
    (hleft : id ∉ s'.inQueue) :
    (∃ x popped, s.popped = x :: popped ∧ x.segmentId = id) ∧ s.Done rf := by
  cases a with
  | changeRegistry | changeView => cases hs; exact absurd hid hleft
  | enqueue => cases hs; exact absurd (mem_enqueueWithLive hid) hleft
  | drift =>
    obtain ⟨locations, -, hs⟩ := bind_eq_some_iff.mp hs
    split at hs <;> cases hs
    exact absurd (mem_enqueueWithLive hid) hleft
  | pop | takeSnapshot | look | repaired =>
    simp only [step] at hs
    split at hs <;> cases hs
    exact absurd hid hleft
  | decide =>
    simp only [step] at hs
    split at hs
    · rename_i x popped found hpopped hseen
      split at hs
      · rename_i hdone
        cases hs
        refine ⟨⟨x, popped, hpopped, ?_⟩, hdone⟩
        by_contra hne
        exact hleft (Finset.mem_erase.mpr ⟨Ne.symm hne, hid⟩)
      · split at hs <;> cases hs <;> exact absurd hid hleft
    · cases hs

/-! ### What a batch has read -/

variable {start : State} {acts : List Act} {id : SegmentId} {view : View}
  {found : Option (List NodeId)}

lemma ViewRead.snoc (h : ViewRead config rf start acts id view) (ha : a ≠ .pop) :
    ViewRead config rf start (acts ++ [a]) id view := by
  obtain ⟨before, after, t, rfl, hpop, ht⟩ := h
  exact ⟨before, after ++ [a], t, append_assoc .., by simp [hpop, ha.symm], ht⟩

lemma RegistryRead.snoc (h : RegistryRead config rf start acts id view found) (ha : a ≠ .pop) :
    RegistryRead config rf start (acts ++ [a]) id view found := by
  obtain ⟨before, after, t, rfl, hpop, ht⟩ := h
  exact ⟨before, after ++ [a], t, append_assoc .., by simp [hpop, ha.symm], ht⟩

lemma popped_enqueueWithLive (s : State) (id : SegmentId) (live : ℕ) :
    (s.enqueueWithLive config id live).popped = s.popped ∧
      (s.enqueueWithLive config id live).snapshot = s.snapshot ∧
      (s.enqueueWithLive config id live).seen = s.seen := by
  rw [State.enqueueWithLive]
  split <;> exact ⟨rfl, rfl, rfl⟩

/-- What the batch keeps of its view and of the registry is what they were when it read them. -/
structure Tracked (config : ReconcileConfig) (rf : ℕ) (start : State) (acts : List Act)
    (s : State) : Prop where
  view : ∀ view ∈ s.snapshot, ∀ x ∈ s.popped, ViewRead config rf start acts x.segmentId view
  registry : ∀ found ∈ s.seen, ∀ x popped, s.popped = x :: popped → ∀ view ∈ s.snapshot,
    RegistryRead config rf start acts x.segmentId view found
  looked : s.snapshot = none → s.seen = none

namespace Tracked

variable (h : Tracked config rf start acts s)

include h

lemma snoc (ha : a ≠ .pop)
    (hkept : s'.popped = s.popped ∧ s'.snapshot = s.snapshot ∧ s'.seen = s.seen) :
    Tracked config rf start (acts ++ [a]) s' where
  view view hview x hx := by
    rw [hkept.2.1] at hview
    rw [hkept.1] at hx
    exact (h.view view hview x hx).snoc ha
  registry found hfound x popped hpopped view hview := by
    rw [hkept.2.2] at hfound
    rw [hkept.1] at hpopped
    rw [hkept.2.1] at hview
    exact (h.registry found hfound x popped hpopped view hview).snoc ha
  looked hnone := by
    rw [hkept.2.1] at hnone
    exact hkept.2.2.trans (h.looked hnone)

/-- The decision on the first item: the view stays, and the registry is read anew. -/
lemma decided {x : WorkItem} {popped : List WorkItem} (hpopped : s.popped = x :: popped)
    (hrest : s'.popped = popped) (hview : s'.snapshot = s.snapshot) (hseen : s'.seen = none) :
    Tracked config rf start (acts ++ [.decide]) s' where
  view view hv y hy := by
    rw [hview] at hv
    rw [hrest] at hy
    exact (h.view view hv y (hpopped ▸ mem_cons_of_mem _ hy)).snoc (by simp)
  registry found hfound := by simp [hseen] at hfound
  looked _ := hseen

lemma step (hrun : Runs.run (step config rf) start acts = some s)
    (hs : step config rf s a = some s') : Tracked config rf start (acts ++ [a]) s' := by
  cases a with
  | changeRegistry | changeView => cases hs; exact h.snoc (by simp) ⟨rfl, rfl, rfl⟩
  | enqueue => cases hs; exact h.snoc (by simp) (popped_enqueueWithLive _ _ _)
  | drift =>
    obtain ⟨locations, -, hs⟩ := bind_eq_some_iff.mp hs
    split at hs <;> cases hs
    exact h.snoc (by simp) (popped_enqueueWithLive _ _ _)
  | pop =>
    -- a new batch has read nothing yet
    simp only [Reconcile.step] at hs
    split at hs <;> cases hs
    exact ⟨fun _ hview => by simp at hview, fun _ hfound => by simp at hfound, fun _ => rfl⟩
  | takeSnapshot =>
    simp only [Reconcile.step] at hs
    split at hs <;> cases hs
    rename_i hnone
    have hnow : ∀ x ∈ s.popped,
        ViewRead config rf start (acts ++ [.takeSnapshot]) x.segmentId s.view := fun x hx =>
      ⟨acts, [.takeSnapshot], s, rfl, by simp, hrun, mem_map_of_mem hx, rfl⟩
    refine ⟨fun view hview x hx => some.inj hview ▸ hnow x hx, fun found hfound => ?_,
      fun hview => by simp at hview⟩
    simp [h.looked hnone.2] at hfound
  | look =>
    simp only [Reconcile.step] at hs
    split at hs
    · rename_i x popped view hpopped hview hseen
      cases hs
      refine ⟨fun v hv y hy => (h.view v hv y hy).snoc (by simp),
        fun found hfound y rest hrest v hv => ?_, fun hnone => by simp [hview] at hnone⟩
      obtain ⟨rfl, rfl⟩ := cons.inj (hpopped.symm.trans hrest)
      have hx : x ∈ s.popped := hpopped ▸ mem_cons_self
      exact ⟨acts, [.look], s, rfl, by simp, hrun, h.view v hv x hx, some.inj hfound⟩
    · cases hs
  | decide =>
    simp only [Reconcile.step] at hs
    split at hs
    · rename_i x popped found hpopped hseen
      split at hs
      · cases hs; exact h.decided hpopped rfl rfl rfl
      · split at hs <;> cases hs <;> exact h.decided hpopped rfl rfl rfl
    · cases hs
  | repaired =>
    simp only [Reconcile.step] at hs
    split at hs <;> cases hs
    exact h.snoc (by simp) ⟨rfl, rfl, rfl⟩

end Tracked

lemma tracked_of_run {registry : SegmentId → Option (List NodeId)} {acts : List Act} {s : State}
    (hrun : Runs.run (step config rf) (.fresh registry view) acts = some s) :
    Tracked config rf (.fresh registry view) acts s := by
  induction acts using List.reverseRecOn generalizing s with
  | nil =>
    cases hrun
    exact ⟨fun _ hview => by simp [fresh] at hview, fun _ hfound => by simp [fresh] at hfound,
      fun _ => rfl⟩
  | append_singleton acts a ih =>
    obtain ⟨t, ht, hlast⟩ := Runs.run_append.mp hrun
    obtain ⟨u, hu, hnil⟩ := Runs.run_cons.mp hlast
    cases hnil
    exact (ih ht).step ht hu

/-- **The queue forgets nothing**: on every run the set and the heap agree between batches and the
set stays within the depth, and a segment leaves the set only when the batch in progress has seen
it deleted or with its copies. -/
theorem queue_forgets_nothing (config : ReconcileConfig) (rf : ℕ)
    (registry : SegmentId → Option (List NodeId)) (view : View) (acts : List Act) :
    Runs.Always (step config rf) (Consistent config) (.fresh registry view) acts ∧
      ∀ s a s', Runs.run (step config rf) (.fresh registry view) acts = some s →
        step config rf s a = some s' → ∀ id ∈ s.inQueue, id ∉ s'.inQueue →
          SeenDone config rf (.fresh registry view) acts id := by
  constructor
  · refine Runs.always_of_inv (fun _ _ _ => Inv.step) (fun _ => Inv.consistent) ?_
    exact ⟨.nil, fun _ => by simp [pending, fresh], Nat.zero_le _⟩
  · intro s a s' hrun hs id hid hleft
    have htracked := tracked_of_run hrun
    obtain ⟨⟨x, popped, hpopped, rfl⟩, seenView, hview, found, hfound, hdone⟩ :=
      done_of_left hs hid hleft
    exact ⟨seenView, found, htracked.registry found hfound x popped hpopped seenView hview, hdone⟩

end OceanFs.Durability.Reconcile
