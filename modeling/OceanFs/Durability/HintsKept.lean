import OceanFs.Durability.HintDelivery
import OceanFs.Lib.Lists

/-!
When the hints of a target are kept.

A hint that is in the file and not settled is also in the queue or with a delivery that still has
to retry or count it, as long as nobody who removes the file or its contents is under way. So a
rewrite may clear the file when the queue is empty and no delivery has such a hint; a removal of
the file is then safe as long as no hint is written before it.
-/

namespace OceanFs.Durability.Delivery

open OceanFs.Core Durability Lib List Option

/-! ### The guard -/

/-- Between the decision to remove the file and its removal. -/
def InFlight.removing : InFlight → Bool
  | .emptied _ | .closed _ => true
  | _ => false

def Prune.removing : Prune → Bool
  | .departed | .forgotten | .dequeued => true
  | _ => false

/-- The hints that a delivery has and that are not accepted. -/
def InFlight.pending : InFlight → List ℕ
  | .sent batch => batch.map (·.record.id)
  | .answered a => (a.requeue ++ a.givenUp).map Hint.id
  | .emptied givenUp | .closed givenUp | .counting givenUp => givenUp.map Hint.id

def Holder.pending : Holder → List ℕ
  | .enqueue _ _ => []
  | .rewrite _ a _ => (a.requeue ++ a.givenUp).map Hint.id

def State.held (s : State) : List ℕ :=
  s.lock.elim [] Holder.pending ++ s.flights.flatMap InFlight.pending

/-- The log of the enqueue under way is on the file under the target's name. -/
def State.writesToPath (s : State) : Bool :=
  match s.lock with
  | some (.enqueue wal _) => s.path = some (s.wals wal).file
  | _ => true

/-- The rewrite under way has found nothing to write again. -/
def State.rewritesNothing (s : State) : Bool :=
  match s.lock with
  | some (.rewrite _ _ (.replayed survivors)) => survivors = []
  | _ => true

/-- The log of the prune is on the file under the target's name, if there is one. -/
def State.prunesPath (s : State) (i : ℕ) : Bool :=
  match s.prunes[i]? with
  | some (.opened wal) => s.path.all (· = (s.wals wal).file)
  | _ => true

def State.nothingExpired (s : State) (i now ttl : ℕ) : Bool :=
  match s.prunes[i]? with
  | some (.opened wal) => (s.recordsOf wal).all (!expired now ttl ·)
  | _ => true

/-- A hint is written only to the file under the target's name and while nobody removes that. A
delivery clears the file only when no hint is queued, none is in a batch without an answer or
was refused in an answer, and none has to be written again. A prune of a target that has left
looks at the file under its name. A prune by age finds nothing. -/
def Undisturbed (s : State) : Act → Prop
  | .enqueueWrite _ => s.writesToPath ∧ ¬ s.flights.any InFlight.removing ∧
      ¬ s.prunes.any Prune.removing
  | .rewriteClear => s.queue = [] ∧ s.held = [] ∧ s.rewritesNothing
  | .pruneDeparted i => s.prunesPath i
  | .pruneReplay i now ttl => s.nothingExpired i now ttl
  | _ => True

instance (s : State) : DecidablePred (Undisturbed s) := fun a => by
  cases a <;> unfold Undisturbed <;> infer_instance

/-! ### The invariant -/

/-- The rewrite has cleared the file. -/
def Holder.cleared : Holder → Bool
  | .rewrite _ _ (.writing _ _) => true
  | _ => false

/-- Somebody has cleared the file or is about to remove it. -/
def State.emptying (s : State) : Prop :=
  s.lock.any Holder.cleared ∨ s.flights.any InFlight.removing ∨ s.prunes.any Prune.removing

/-- The hint is settled, or the node still knows that it is not. -/
def Tracked (s : State) (id : ℕ) : Prop :=
  id ∈ s.queue.map (·.record.id) ∨ id ∈ s.held ∨ Settled s id

/-- A rewrite that has cleared the file has nothing to write. -/
def Holder.Calm : Holder → Prop
  | .rewrite _ _ (.writing todo rebuilt) => todo = [] ∧ rebuilt = []
  | _ => True

/-- A prune by age has not found anything. -/
def Prune.Calm : Prune → Prop
  | .opened _ | .departed | .forgotten | .dequeued => True
  | _ => False

structure Inv (s : State) : Prop where
  kept : HintsKept s
  tracked : ∀ r ∈ s.inFile, Tracked s r.id
  settled : s.emptying → ∀ r ∈ s.inFile, Settled s r.id
  lock_calm : ∀ h ∈ s.lock, h.Calm
  prunes_calm : ∀ p ∈ s.prunes, p.Calm

variable {cfg : Config} {s s' : State}

lemma Inv.init : Inv State.init where
  kept := by simp [HintsKept, State.init]
  tracked := by simp [State.inFile, State.init]
  settled := by simp [State.inFile, State.init]
  lock_calm := by simp [State.init]
  prunes_calm := by simp [State.init]

lemma Inv.frame (h : Inv s) (hfile : s'.inFile = s.inFile) (henq : s'.enqueued = s.enqueued)
    (hsettled : ∀ id, Settled s id → Settled s' id)
    (htracked : ∀ r ∈ s.inFile, Tracked s r.id → Tracked s' r.id)
    (hemptying : s'.emptying → s.emptying)
    (hlock : ∀ h ∈ s'.lock, h.Calm) (hprunes : ∀ p ∈ s'.prunes, p.Calm) : Inv s' where
  kept id hid := by
    rw [henq] at hid
    rw [hfile]
    exact (h.kept id hid).imp_right (hsettled id)
  tracked r hr := by
    rw [hfile] at hr
    exact htracked r hr (h.tracked r hr)
  settled he r hr := by
    rw [hfile] at hr
    exact hsettled _ (h.settled (hemptying he) r hr)
  lock_calm := hlock
  prunes_calm := hprunes

lemma Inv.removed (h : Inv s) (hall : ∀ r ∈ s.inFile, Settled s' r.id)
    (hfile : s'.inFile = s.inFile ∨ s'.inFile = []) (henq : s'.enqueued = s.enqueued)
    (hsettled : ∀ id, Settled s id → Settled s' id)
    (hlock : ∀ h ∈ s'.lock, h.Calm) (hprunes : ∀ p ∈ s'.prunes, p.Calm) : Inv s' := by
  have hall' : ∀ r ∈ s'.inFile, Settled s' r.id := by
    intro r hr
    rcases hfile with hfile | hfile
    · rw [hfile] at hr
      exact hall r hr
    · rw [hfile] at hr
      cases hr
  refine ⟨fun id hid => .inr ?_, fun r hr => .inr (.inr (hall' r hr)), fun _ => hall', hlock,
    hprunes⟩
  rw [henq] at hid
  rcases h.kept id hid with hin | hdone
  · obtain ⟨r, hr, rfl⟩ := List.mem_map.mp hin
    exact hall r hr
  · exact hsettled id hdone

/-! ### Files -/

lemma inFile_setRecords (s : State) (wal : ℕ) (records : List Hint) (position : ℕ) :
    (s.setRecords wal records position).inFile =
      if s.path = some (s.wals wal).file then records else s.inFile := by
  simp only [State.inFile, State.setRecords]
  rcases hp : s.path with _ | f
  · simp
  · simp only [elim_some, Function.update_apply, some.injEq]

lemma openPath_eq (cfg : Config) (s : State) : ∃ contents nextFile path wals nextWal,
    (s.openPath cfg).1 = { s with contents, nextFile, path, wals, nextWal } ∧
      Option.elim path [] contents = s.inFile ∧
      (wals (s.openPath cfg).2).file = path.getD 0 ∧ path.isSome := by
  rcases hp : s.path with _ | f
  · refine ⟨_, _, _, _, _, by rw [State.openPath]; simp only [hp]; rfl, ?_, ?_, ?_⟩
    · simp [State.inFile, hp]
    · simp [State.openPath, hp]
    · rfl
  · refine ⟨_, _, _, _, _, by rw [State.openPath]; simp only [hp]; rfl, ?_, ?_, ?_⟩
    · simp [State.inFile, hp]
    · simp [State.openPath, hp]
    · rfl

lemma getOrOpenNodeWal_eq (cfg : Config) (s : State) :
    ∃ contents nextFile path wals nextWal nodeWal,
    (s.getOrOpenNodeWal cfg).1 = { s with contents, nextFile, path, wals, nextWal, nodeWal } ∧
      Option.elim path [] contents = s.inFile := by
  rw [State.getOrOpenNodeWal]
  rcases hw : s.nodeWal with _ | wal
  · obtain ⟨contents, nextFile, path, wals, nextWal, hopen, hfile, -⟩ := openPath_eq cfg s
    exact ⟨contents, nextFile, path, wals, nextWal, some (s.openPath cfg).2,
      by simp only [hopen], hfile⟩
  · exact ⟨s.contents, s.nextFile, s.path, s.wals, s.nextWal, s.nodeWal, rfl, rfl⟩

/-! ### Enqueue -/

lemma Inv.enqueueOpen (h : Inv s) {body : Body} {storedAtSecs attempts : ℕ}
    (hs : enqueueOpen cfg s body storedAtSecs attempts = some s') : Inv s' := by
  rw [Delivery.enqueueOpen] at hs
  split at hs
  · cases hs
  · rename_i hlock
    obtain ⟨contents, nextFile, path, wals, nextWal, nodeWal, hopen, hfile⟩ :=
      getOrOpenNodeWal_eq cfg s
    simp only [hopen] at hs
    obtain rfl := some.inj hs
    refine h.frame hfile rfl (fun _ hid => hid) (fun r _ hr => ?_) (fun he => ?_) ?_ h.prunes_calm
    · simpa [Tracked, State.held, Settled, hlock, Holder.pending] using hr
    · simpa [State.emptying, hlock, Holder.cleared] using he
    · simp [Holder.Calm]

lemma Inv.enqueueWrite (h : Inv s) {now : ℕ} (hg : Undisturbed s (.enqueueWrite now))
    (hs : enqueueWrite cfg s now = some s') : Inv s' := by
  rw [Delivery.enqueueWrite] at hs
  split at hs
  · rename_i wal r hlock
    obtain ⟨hpath, hflights, hprunes⟩ := hg
    have hpath : s.path = some (s.wals wal).file := by simpa [State.writesToPath, hlock] using hpath
    set r' : Hint := if r.storedAtSecs = 0 then { r with storedAtSecs := now } else r with hr'
    obtain rfl := some.inj hs
    have hfile : (s.writeHint cfg wal r').1.inFile = s.inFile ++ [r'] := by
      rw [State.writeHint, inFile_setRecords, if_pos hpath, State.recordsOf, State.inFile, hpath]
      rfl
    refine ⟨fun id hid => ?_, fun x hx => ?_, fun he => ?_, by simp, h.prunes_calm⟩
    · show id ∈ (s.writeHint cfg wal r').1.inFile.map Hint.id ∨ Settled s id
      rw [hfile, map_append, mem_append]
      rcases mem_append.mp hid with hid | hid
      · exact (h.kept id hid).imp_left .inl
      · exact .inl (.inr hid)
    · replace hx : x ∈ (s.writeHint cfg wal r').1.inFile := hx
      rw [hfile] at hx
      rcases mem_append.mp hx with hx | hx
      · have := h.tracked x hx
        simp only [Tracked, State.held, Settled, hlock, elim_some, Holder.pending] at this ⊢
        rw [map_append, mem_append]
        rcases this with hq | hheld | hdone
        · exact .inl (.inl hq)
        · exact .inr (.inl hheld)
        · exact .inr (.inr hdone)
      · obtain rfl := mem_singleton.mp hx
        exact .inl (List.mem_map.mpr ⟨_, mem_append_right _ mem_cons_self, rfl⟩)
    · rcases he with he | he | he
      · simp at he
      · exact absurd he hflights
      · exact absurd he hprunes
  · cases hs

/-! ### Delivery -/

lemma Inv.drain (h : Inv s) (hs : drain cfg s = some s') : Inv s' := by
  rw [Delivery.drain] at hs
  split at hs
  · cases hs
  · simp only at hs
    split_ifs at hs with hn
    · exact some.inj hs ▸ h
    · obtain rfl := some.inj hs
      refine h.frame rfl rfl (fun _ hid => hid) (fun r _ hr => ?_) (fun he => ?_) h.lock_calm
        h.prunes_calm
      · -- the batch is with the delivery now
        rw [Tracked, ← take_append_drop (batchSize cfg 0 0 s.queue) s.queue] at hr
        simp only [Tracked, State.held, Settled, map_append, flatMap_append, flatMap_cons,
          flatMap_nil, InFlight.pending, mem_append, append_nil] at hr ⊢
        tauto
      · simpa [State.emptying, InFlight.removing] using he

lemma Tracked.of_flights {id : ℕ} (h : Tracked s id) (hlock : s'.lock = s.lock)
    (hqueue : id ∈ s.queue.map (·.record.id) → id ∈ s'.queue.map (·.record.id))
    (hflights : id ∈ s.flights.flatMap InFlight.pending → Tracked s' id)
    (hsettled : Settled s id → Settled s' id) : Tracked s' id := by
  rcases h with hq | hheld | hdone
  · exact .inl (hqueue hq)
  · rcases mem_append.mp hheld with hheld | hheld
    · exact .inr (.inl (mem_append_left _ (by rwa [hlock])))
    · exact hflights hheld
  · exact .inr (.inr (hsettled hdone))

lemma Inv.fail (h : Inv s) {i : ℕ} (hs : fail s i = some s') : Inv s' := by
  rw [Delivery.fail] at hs
  split at hs
  · rename_i batch hlock hi
    obtain rfl := some.inj hs
    refine h.frame rfl rfl (fun _ hid => hid) (fun r _ hr => ?_) (fun he => ?_) h.lock_calm
      h.prunes_calm
    · refine hr.of_flights rfl (fun hq => ?_) (fun hheld => ?_) fun hdone => hdone
      · rw [map_append]
        exact mem_append_right _ hq
      · rcases Lists.mem_flatMap_eraseIdx hi hheld with hbatch | hrest
        · refine .inl ?_
          rw [map_append]
          exact mem_append_left _ hbatch
        · exact .inr (.inl (mem_append_right _ hrest))
    · exact he.imp_right fun he => he.imp_left Lists.any_of_any_eraseIdx
  · cases hs

lemma mem_answer {retry : List ℕ} {batch : List Queued} {id : ℕ}
    (hid : id ∈ batch.map (·.record.id)) : id ∈ (acceptedOf retry batch).map Hint.id ∨
      id ∈ ((answerOf cfg retry batch).requeue ++ (answerOf cfg retry batch).givenUp).map
        Hint.id := by
  obtain ⟨q, hq, rfl⟩ := List.mem_map.mp hid
  obtain ⟨k, hk, rfl⟩ := mem_iff_getElem.mp hq
  have hmem : (batch[k], k) ∈ batch.zipIdx := by
    rw [mem_zipIdx_iff_getElem?]
    exact getElem?_eq_getElem hk
  by_cases hretry : k ∈ retry
  · have hretried : batch[k].record ∈ retriedOf retry batch :=
      List.mem_map.mpr ⟨_, mem_filter.mpr ⟨hmem, by simpa using hretry⟩, rfl⟩
    rw [map_append, mem_append]
    by_cases hcap : nextAttempts batch[k].record ≤ cfg.maxDeliveryAttempts
    · have hkept : batch[k].record ∈ (retriedOf retry batch).filter
          (nextAttempts · ≤ cfg.maxDeliveryAttempts) :=
        mem_filter.mpr ⟨hretried, by simpa using hcap⟩
      exact .inr (.inl (List.mem_map.mpr ⟨_, List.mem_map.mpr ⟨_, hkept, rfl⟩, rfl⟩))
    · refine .inr (.inr (List.mem_map.mpr ⟨_, mem_filter.mpr ⟨hretried, ?_⟩, rfl⟩))
      simpa using hcap
  · have haccepted : batch[k].record ∈ acceptedOf retry batch :=
      List.mem_map.mpr ⟨_, mem_filter.mpr ⟨hmem, by simpa using hretry⟩, rfl⟩
    exact .inl (List.mem_map_of_mem haccepted)

lemma Inv.answer (h : Inv s) {i : ℕ} {retry : List ℕ} (hs : answer cfg s i retry = some s') :
    Inv s' := by
  rw [Delivery.answer] at hs
  split at hs
  · rename_i batch hi
    obtain rfl := some.inj hs
    refine h.frame rfl rfl (fun _ hid => ?_) (fun r _ hr => ?_) (fun he => ?_) h.lock_calm
      h.prunes_calm
    · exact hid.imp_left fun hid => mem_append_left _ hid
    · refine hr.of_flights rfl (fun hq => hq) (fun hheld => ?_)
        fun hdone => hdone.imp_left fun hid => mem_append_left _ hid
      -- accepted hints are delivered, the others stay with the delivery
      by_cases haccepted : r.id ∈ (acceptedOf retry batch).map Hint.id
      · exact .inr (.inr (.inl (mem_append_right _ haccepted)))
      · refine .inr (.inl (mem_append_right _ ?_))
        refine Lists.mem_flatMap_set hi (fun hid => ?_) hheld
        exact (mem_answer hid).resolve_left haccepted
    · refine he.imp_right fun he => he.imp_left ?_
      exact Lists.any_of_any_set hi (by simp [InFlight.removing])
  · cases hs

lemma Inv.rewriteOpen (h : Inv s) {i : ℕ} (hs : rewriteOpen cfg s i = some s') : Inv s' := by
  rw [Delivery.rewriteOpen] at hs
  split at hs
  · rename_i a hlock hi
    obtain ⟨contents, nextFile, path, wals, nextWal, nodeWal, hopen, hfile⟩ :=
      getOrOpenNodeWal_eq cfg s
    simp only [hopen] at hs
    obtain rfl := some.inj hs
    refine h.frame hfile rfl (fun _ hid => hid) (fun r _ hr => ?_) (fun he => ?_) ?_ h.prunes_calm
    · rcases hr with hq | hheld | hdone
      · exact .inl hq
      · rw [State.held, hlock] at hheld
        rcases Lists.mem_flatMap_eraseIdx hi hheld with ha | hrest
        · exact .inr (.inl (mem_append_left _ ha))
        · exact .inr (.inl (mem_append_right _ hrest))
      · exact .inr (.inr hdone)
    · rcases he with he | he | he
      · cases he
      · exact .inr (.inl (Lists.any_of_any_eraseIdx he))
      · exact .inr (.inr he)
    · simp [Holder.Calm]
  · cases hs

lemma Inv.rewriteReplay (h : Inv s) (hs : rewriteReplay cfg s = some s') : Inv s' := by
  rw [Delivery.rewriteReplay] at hs
  split at hs
  · rename_i wal a hlock
    obtain rfl := some.inj hs
    refine h.frame rfl rfl (fun _ hid => hid) (fun r _ hr => ?_) (fun he => ?_) ?_ h.prunes_calm
    · rw [Tracked, State.held, hlock] at hr
      exact hr
    · rw [State.emptying, hlock]
      exact he
    · simp [Holder.Calm]
  · cases hs

lemma Inv.rewriteClear (h : Inv s) (hg : Undisturbed s .rewriteClear)
    (hs : rewriteClear s = some s') : Inv s' := by
  rw [Delivery.rewriteClear] at hs
  split at hs
  · rename_i wal a survivors hlock
    obtain ⟨hqueue, hheld, hnothing⟩ := hg
    obtain rfl := some.inj hs
    have hall : ∀ r ∈ s.inFile, Settled s r.id := by
      intro r hr
      rcases h.tracked r hr with hq | hin | hdone
      · rw [hqueue] at hq
        cases hq
      · rw [hheld] at hin
        cases hin
      · exact hdone
    refine h.removed hall ?_ rfl (fun _ hid => hid) ?_ h.prunes_calm
    · have hfile := inFile_setRecords s wal [] 0
      split_ifs at hfile
      · exact .inr hfile
      · exact .inl hfile
    · have hsurvivors : survivors = [] := by
        simpa [State.rewritesNothing, hlock] using hnothing
      have hrequeue : a.requeue = [] := by
        rw [State.held, hlock, append_eq_nil_iff] at hheld
        have := map_eq_nil_iff.mp hheld.1
        exact (append_eq_nil_iff.mp this).1
      simp [Holder.Calm, hsurvivors, hrequeue]
  · cases hs

lemma Inv.rewriteWrite (h : Inv s) (hs : rewriteWrite cfg s = some s') : Inv s' := by
  rw [Delivery.rewriteWrite] at hs
  split at hs
  · rename_i wal a r todo rebuilt hlock
    have hcalm := h.lock_calm _ hlock
    simp [Holder.Calm] at hcalm
  · cases hs

lemma Inv.rewriteFinish (h : Inv s) (hs : rewriteFinish s = some s') : Inv s' := by
  rw [Delivery.rewriteFinish] at hs
  split at hs
  · rename_i wal a rebuilt hlock
    obtain rfl := some.inj hs
    have hall := h.settled (.inl (by rw [hlock]; rfl))
    exact h.removed hall (.inl rfl) rfl (fun _ hid => hid) (by simp) h.prunes_calm
  · cases hs

/-! ### Removing the file -/

lemma Inv.close (h : Inv s) {i : ℕ} (hs : close s i = some s') : Inv s' := by
  rw [Delivery.close] at hs
  split at hs
  · rename_i givenUp hi
    obtain rfl := some.inj hs
    refine h.frame rfl rfl (fun _ hid => hid) (fun r _ hr => ?_) (fun he => ?_) h.lock_calm
      h.prunes_calm
    · refine hr.of_flights rfl (fun hq => hq) (fun hheld => ?_) fun hdone => hdone
      exact .inr (.inl (mem_append_right _ (Lists.mem_flatMap_set hi (fun hid => hid) hheld)))
    · exact he.imp_right fun he => he.imp_left (Lists.any_of_any_set hi fun _ => rfl)
  · cases hs

lemma Inv.remove (h : Inv s) {i : ℕ} (hs : remove s i = some s') : Inv s' := by
  rw [Delivery.remove] at hs
  split at hs
  · rename_i givenUp hi
    obtain rfl := some.inj hs
    have hremoving : s.flights.any InFlight.removing :=
      List.any_eq_true.mpr ⟨_, mem_of_getElem? hi, rfl⟩
    exact h.removed (h.settled (.inr (.inl hremoving))) (.inr rfl) rfl (fun _ hid => hid)
      h.lock_calm h.prunes_calm
  · cases hs

lemma Inv.count (h : Inv s) {i : ℕ} (hs : count s i = some s') : Inv s' := by
  rw [Delivery.count] at hs
  split at hs
  · rename_i givenUp hi
    obtain rfl := some.inj hs
    have hsettled : ∀ id, Settled s id → id ∈ s.delivered ∨ id ∈ s.counted ++ givenUp.map Hint.id :=
      fun id hid => hid.imp_right fun hid => mem_append_left _ hid
    refine h.frame rfl rfl hsettled (fun r _ hr => ?_) (fun he => ?_) h.lock_calm h.prunes_calm
    · refine hr.of_flights rfl (fun hq => hq) (fun hheld => ?_) (hsettled _)
      rcases Lists.mem_flatMap_eraseIdx hi hheld with hgiven | hrest
      · exact .inr (.inr (.inr (mem_append_right _ hgiven)))
      · exact .inr (.inl (mem_append_right _ hrest))
    · exact he.imp_right fun he => he.imp_left Lists.any_of_any_eraseIdx
  · cases hs

/-! ### Pruning -/

section

variable (h : Inv s)

include h

lemma Inv.calm_set (i : ℕ) {q : Prune} (hq : q.Calm) :
    ∀ p ∈ s.prunes.set i q, p.Calm := by
  intro p hp
  rcases mem_or_eq_of_mem_set hp with hp | rfl
  · exact h.prunes_calm p hp
  · exact hq

lemma Inv.calm_eraseIdx (i : ℕ) : ∀ p ∈ s.prunes.eraseIdx i, p.Calm :=
  fun p hp => h.prunes_calm p (mem_of_mem_eraseIdx hp)

lemma Inv.settled_of_prune {i : ℕ} {p : Prune} (hi : s.prunes[i]? = some p) (hp : p.removing) :
    ∀ r ∈ s.inFile, Settled s r.id :=
  h.settled (.inr (.inr (List.any_eq_true.mpr ⟨p, mem_of_getElem? hi, hp⟩)))

lemma Inv.pruneOpen (hs : pruneOpen cfg s = some s') : Inv s' := by
  have hcalm : ∀ wal, ∀ p ∈ s.prunes ++ [.opened wal], p.Calm := by
    intro wal p hp
    rcases mem_append.mp hp with hp | hp
    · exact h.prunes_calm p hp
    · rw [mem_singleton.mp hp]
      trivial
  have hremoving : ∀ wal, (s.prunes ++ [Prune.opened wal]).any Prune.removing →
      s.prunes.any Prune.removing := by
    intro wal hany
    simpa [Prune.removing] using hany
  rw [Delivery.pruneOpen] at hs
  split at hs
  · rename_i wal _
    obtain rfl := some.inj hs
    exact h.frame rfl rfl (fun _ hid => hid) (fun _ _ hr => hr)
      (fun he => he.imp_right fun he => he.imp_right (hremoving wal)) h.lock_calm (hcalm wal)
  · obtain ⟨contents, nextFile, path, wals, nextWal, hopen, hfile, -⟩ := openPath_eq cfg s
    simp only [hopen] at hs
    obtain rfl := some.inj hs
    exact h.frame hfile rfl (fun _ hid => hid) (fun _ _ hr => hr)
      (fun he => he.imp_right fun he => he.imp_right (hremoving _)) h.lock_calm (hcalm _)
  · cases hs

lemma Inv.pruneDeparted {i : ℕ} (hg : Undisturbed s (.pruneDeparted i))
    (hs : pruneDeparted s i = some s') : Inv s' := by
  rw [Delivery.pruneDeparted] at hs
  split at hs
  · rename_i wal hi
    obtain rfl := some.inj hs
    refine h.removed (fun r hr => .inr (mem_append_right _ (List.mem_map_of_mem ?_)))
      (.inl rfl) rfl (fun _ hid => hid.imp_right fun hid => mem_append_left _ hid) h.lock_calm
      (h.calm_set i trivial)
    -- the log is on the file under the name
    have hpath : s.path.all (· = (s.wals wal).file) := by
      simpa [Undisturbed, State.prunesPath, hi] using hg
    rw [State.recordsOf]
    rcases hp : s.path with _ | f
    · simp [State.inFile, hp] at hr
    · obtain rfl : f = (s.wals wal).file := by simpa [hp] using hpath
      simpa [State.inFile, hp] using hr
  · cases hs

lemma Inv.pruneForget {i : ℕ} (hs : pruneForget s i = some s') : Inv s' := by
  rw [Delivery.pruneForget] at hs
  split at hs
  · rename_i hi
    obtain rfl := some.inj hs
    exact h.removed (h.settled_of_prune hi rfl) (.inl rfl) rfl (fun _ hid => hid) h.lock_calm
      (h.calm_set i trivial)
  · cases hs

lemma Inv.pruneDequeue {i : ℕ} (hs : pruneDequeue s i = some s') : Inv s' := by
  rw [Delivery.pruneDequeue] at hs
  split at hs
  · rename_i hi
    obtain rfl := some.inj hs
    exact h.removed (h.settled_of_prune hi rfl) (.inl rfl) rfl (fun _ hid => hid) h.lock_calm
      (h.calm_set i trivial)
  · cases hs

lemma Inv.pruneRemove {i : ℕ} (hs : pruneRemove s i = some s') : Inv s' := by
  rw [Delivery.pruneRemove] at hs
  split at hs
  · rename_i hi
    obtain rfl := some.inj hs
    exact h.removed (h.settled_of_prune hi rfl) (.inr rfl) rfl (fun _ hid => hid) h.lock_calm
      (h.calm_eraseIdx i)
  · cases hs

lemma Inv.pruneReplay {i now ttl : ℕ} (hg : Undisturbed s (.pruneReplay i now ttl))
    (hs : pruneReplay s i now ttl = some s') : Inv s' := by
  rw [Delivery.pruneReplay] at hs
  split at hs
  · rename_i wal hi
    have hnone : (s.recordsOf wal).filter (expired now ttl) = [] := by
      rw [filter_eq_nil_iff]
      simpa [Undisturbed, State.nothingExpired, hi] using hg
    simp only [hnone, if_true] at hs
    obtain rfl := some.inj hs
    exact h.frame rfl rfl (fun _ hid => hid) (fun _ _ hr => hr)
      (fun he => he.imp_right fun he => he.imp_right Lists.any_of_any_eraseIdx) h.lock_calm
      (h.calm_eraseIdx i)
  · cases hs

lemma Inv.not_expiring (cfg : Config) (i : ℕ) :
    pruneClear s i = none ∧ pruneWrite cfg s i = none ∧ pruneReread cfg s i = none ∧
      pruneRebuild s i = none ∧ pruneCount s i = none := by
  rw [pruneClear, pruneWrite, pruneReread, pruneRebuild, pruneCount]
  rcases hi : s.prunes[i]? with _ | p
  · cases s.lock <;> simp
  · have hcalm := h.prunes_calm p (mem_of_getElem? hi)
    cases p with
    | opened wal => cases s.lock <;> simp
    | departed => cases s.lock <;> simp
    | forgotten => cases s.lock <;> simp
    | dequeued => cases s.lock <;> simp
    | expiring => exact hcalm.elim
    | writing => exact hcalm.elim
    | reread => exact hcalm.elim
    | counting => exact hcalm.elim

end

/-! ### Crashes -/

lemma Inv.crash (h : Inv s) : Inv (crash cfg s) := by
  have hinit : ∀ s' : State, s'.inFile = s.inFile → s'.enqueued = s.enqueued →
      s'.delivered = s.delivered → s'.counted = s.counted → s'.lock = none → s'.flights = [] →
      s'.prunes = [] → (∀ r ∈ s.inFile, r.id ∈ s'.queue.map (·.record.id)) → Inv s' := by
    intro s' hfile henq hdelivered hcounted hlock hflights hprunes hqueue
    refine h.frame hfile henq (fun id hid => ?_) (fun r hr _ => .inl (hqueue r hr)) (fun he => ?_)
      (by simp [hlock]) (by simp [hprunes])
    · rwa [Settled, hdelivered, hcounted]
    · simp [State.emptying, hlock, hflights, hprunes] at he
  rw [Delivery.crash]
  simp only
  split
  · rename_i hpath
    refine hinit _ rfl rfl rfl rfl rfl rfl rfl fun r hr => ?_
    simp [State.inFile, hpath] at hr
  · set s₀ : State :=
      { s with lock := none, flights := [], prunes := [], queue := [], nodeWal := none }
    obtain ⟨contents, nextFile, path, wals, nextWal, hopen, hfile, hwal, hsome⟩ :=
      openPath_eq cfg s₀
    simp only [hopen]
    refine hinit _ hfile rfl rfl rfl rfl rfl rfl fun r hr => ?_
    -- the log that is opened is on the file under the name
    obtain ⟨f, rfl⟩ := isSome_iff_exists.mp hsome
    have hrecords : contents (wals (s₀.openPath cfg).2).file = s.inFile := by
      rw [hwal]
      exact hfile
    simp only [State.replay, State.recordsOf, hrecords]
    have hmem : r ∈ (spans cfg.frameLen 0 s.inFile).map Replayed.record := by
      rwa [records_spans]
    obtain ⟨q, hq, rfl⟩ := List.mem_map.mp hmem
    exact List.mem_map_of_mem hq

/-! ### Runs -/

lemma Inv.step (h : Inv s) {a : Act} (hg : Undisturbed s a) (hs : step cfg s a = some s') :
    Inv s' := by
  cases a with
  | enqueueOpen body storedAtSecs attempts => exact h.enqueueOpen hs
  | enqueueWrite now => exact h.enqueueWrite hg hs
  | drain => exact h.drain hs
  | fail i => exact h.fail hs
  | answer i retry => exact h.answer hs
  | rewriteOpen i => exact h.rewriteOpen hs
  | rewriteReplay => exact h.rewriteReplay hs
  | rewriteClear => exact h.rewriteClear hg hs
  | rewriteWrite => exact h.rewriteWrite hs
  | rewriteFinish => exact h.rewriteFinish hs
  | close i => exact h.close hs
  | remove i => exact h.remove hs
  | count i => exact h.count hs
  | pruneOpen => exact h.pruneOpen hs
  | pruneDeparted i => exact h.pruneDeparted hg hs
  | pruneForget i => exact h.pruneForget hs
  | pruneDequeue i => exact h.pruneDequeue hs
  | pruneRemove i => exact h.pruneRemove hs
  | pruneReplay i now ttl => exact h.pruneReplay hg hs
  | pruneClear i => exact absurd hs (by simp [Delivery.step, (h.not_expiring cfg i).1])
  | pruneWrite i => exact absurd hs (by simp [Delivery.step, (h.not_expiring cfg i).2.1])
  | pruneReread i =>
    exact absurd hs (by simp [Delivery.step, (h.not_expiring cfg i).2.2.1])
  | pruneRebuild i =>
    exact absurd hs (by simp [Delivery.step, (h.not_expiring cfg i).2.2.2.1])
  | pruneCount i =>
    exact absurd hs (by simp [Delivery.step, (h.not_expiring cfg i).2.2.2.2])
  | evict =>
    obtain rfl := some.inj hs
    exact h.frame rfl rfl (fun _ hid => hid) (fun _ _ hr => hr) (fun he => he) h.lock_calm
      h.prunes_calm
  | crash =>
    obtain rfl := some.inj hs
    exact h.crash

/-- **No hint is lost** in a run that is not disturbed: at every moment a hint whose enqueue
returned is in the file, was reported as delivered, or was counted. -/
theorem hints_kept_of_undisturbed (cfg : Config) (acts : List Act)
    (hg : Runs.Guarded (step cfg) Undisturbed State.init acts) :
    Runs.Always (step cfg) HintsKept State.init acts := by
  have hstep : ∀ s a s', Inv s → Undisturbed s a → Delivery.step cfg s a = some s' → Inv s' :=
    fun _ _ _ h hg hs => h.step hg hs
  exact Runs.always_of_guarded hstep (fun _ h => h.kept) Inv.init hg

/-- Two hints are sent again after a failed call and a crash, and are accepted; the target leaves
before a third is sent, and a fourth is enqueued after that. -/
def calmRun : List Act :=
  [.enqueueOpen .delete 0 0, .enqueueWrite 1, .enqueueOpen .segmentRef 0 0, .enqueueWrite 1, .drain,
    .fail 0, .pruneOpen, .pruneReplay 0 2 100, .crash, .drain, .answer 0 [], .rewriteOpen 0,
    .rewriteReplay, .rewriteClear, .rewriteFinish, .close 0, .remove 0, .count 0,
    .enqueueOpen .segmentRef 0 0, .enqueueWrite 5, .evict, .pruneOpen, .pruneDeparted 0,
    .pruneForget 0, .pruneDequeue 0, .pruneRemove 0, .enqueueOpen .delete 0 0, .enqueueWrite 9,
    .crash]

def sampleConfig (maxBatchSize : ℕ) : Config :=
  ⟨maxBatchSize, 1000, 3, fun _ => 10⟩

theorem resent_hints_kept : Runs.Always (step (sampleConfig 2)) HintsKept State.init calmRun :=
  hints_kept_of_undisturbed (sampleConfig 2) calmRun (by decide +kernel)

/-- The first of two hints is delivered. The node stops between the clear of the file and the
write of the second one, which nobody has then. -/
theorem cleared_survivor_lost : ¬ ∀ (cfg : Config) (acts : List Act),
    Runs.Always (step cfg) HintsKept State.init acts := by
  intro h
  exact absurd (h (sampleConfig 1) [.enqueueOpen .delete 0 0, .enqueueWrite 1,
    .enqueueOpen .delete 0 0, .enqueueWrite 1, .drain, .answer 0 [], .rewriteOpen 0, .rewriteReplay,
    .rewriteClear, .crash]) (by decide +kernel)

end OceanFs.Durability.Delivery
