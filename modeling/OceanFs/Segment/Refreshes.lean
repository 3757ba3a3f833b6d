import Mathlib.Algebra.BigOperators.Group.List.Basic
import OceanFs.Lib.LastWrite
import OceanFs.Lib.Lists
import OceanFs.Segment.Coordinator

/-!
Metadata refreshes of one sealed segment.

A stamp of the holder set and a relocation read the root of the entry and carry it to the refresh
that they request, since a refresh without a root clears it; a heal clears it on purpose. Each is
checked, logged and folded into the entry, in steps that interleave with those of the others. A
relocation reads the root before it waits for the lock of the segment, which it has until the file
on the source is gone; the others take no lock.
-/

namespace OceanFs.Segment.Refreshes

open OceanFs.Core Lib Lib.LastWrite List Option

/-- A refresh, with the root that was read for it. -/
inductive Refresh
  /-- `persist_storage_locations`. -/
  | stamp (locations : List NodeId) (root : Option HashOutput)
  /-- The commit of a relocation. -/
  | relocate (target : PoolId) (root : Option HashOutput)
  /-- The last step of `execute_heal`. -/
  | heal
  deriving DecidableEq

namespace Refresh

/-! The arguments of `request_refresh_metadata`. -/

def merkleRoot : Refresh → Option HashOutput
  | .stamp _ root => root
  | .relocate _ root => root
  | .heal => none

def storageLocations : Refresh → Option (List NodeId)
  | .stamp locations _ => some locations
  | _ => none

def poolId : Refresh → Option PoolId
  | .relocate target _ => some target
  | _ => none

/-- The root that a refresh is meant to set. -/
def newRoot : Refresh → Option (Option HashOutput)
  | .heal => some none
  | _ => none

end Refresh

inductive Stage
  | read
  /-- The relocation has the lock. -/
  | locked
  | checked
  | logged
  | folded
  | finished
  deriving DecidableEq

/-- A refresh under way. `overtaken` says that a heal was folded after the root was read. -/
structure Task where
  refresh : Refresh
  stage : Stage
  overtaken : Bool
  deriving DecidableEq

namespace Task

/-- A relocation between its lock and its end. -/
def HoldsLock (t : Task) : Prop := t.refresh.poolId ≠ none ∧ t.stage ≠ .read ∧ t.stage ≠ .finished

instance (t : Task) : Decidable t.HoldsLock := inferInstanceAs (Decidable (_ ∧ _ ∧ _))

/-- The stage in which the refresh is requested. -/
def ready (t : Task) : Stage := if t.refresh.poolId ≠ none then .locked else .read

def toStage (t : Task) (stage : Stage) : Task := { t with stage := stage }

/-- What the fold of a refresh makes of the others. -/
def after (r : Refresh) (t : Task) : Task :=
  { t with overtaken := t.overtaken || r.newRoot.isSome }

end Task

/-- The entry, the refreshes that are not logged yet, and the log, with how far each one is. -/
structure State where
  entry : Option LifecycleEntry
  starting : List Task
  log : List Task

namespace State

def root (s : State) : Option HashOutput := s.entry.bind (·.metadata.merkleRoot)

def LockFree (s : State) : Prop := ∀ t ∈ s.starting ++ s.log, ¬ t.HoldsLock

instance (s : State) : Decidable s.LockFree := inferInstanceAs (Decidable (∀ t ∈ _, _))

def start (s : State) (r : Refresh) : State :=
  { s with starting := s.starting ++ [⟨r, .read, false⟩] }

/-- `fold_refresh` of the refresh at position `p`. -/
def fold (s : State) (p : ℕ) (t : Task) : State :=
  match refreshEntry t.refresh.merkleRoot t.refresh.storageLocations t.refresh.poolId s.entry with
  | .ok entry =>
    { entry := entry
      starting := s.starting.map (Task.after t.refresh)
      log := (s.log.map (Task.after t.refresh)).set p (t.toStage .folded) }
  | .error _ => { s with log := s.log.set p (t.toStage .finished) }

end State

inductive Act
  | stamp (locations : List NodeId)
  | relocate (target : PoolId)
  | heal
  | lock (i : ℕ)
  | check (i : ℕ)
  | append (i : ℕ)
  /-- The refresh fails before it is logged. -/
  | fail (i : ℕ)
  /-- The append fails after its record is written, or its caller is gone. -/
  | lose (p : ℕ)
  | fold (p : ℕ)
  | finish (p : ℕ)
  deriving DecidableEq

def step (s : State) : Act → Option State
  | .stamp locations => some (s.start (.stamp locations s.root))
  | .relocate target => s.entry.bind fun e =>
    if e.state ≠ .sealed ∨ e.metadata.poolId = target then none
    else some (s.start (.relocate target e.metadata.merkleRoot))
  | .heal => some (s.start .heal)
  | .lock i => s.starting[i]?.bind fun t =>
    if t.refresh.poolId ≠ none ∧ t.stage = .read ∧ s.LockFree then
      some { s with starting := s.starting.set i (t.toStage .locked) }
    else none
  | .check i => s.starting[i]?.bind fun t =>
    if t.stage = t.ready then
      match validateRefresh s.entry with
      | .ok _ => some { s with starting := s.starting.set i (t.toStage .checked) }
      | .error _ => some { s with starting := s.starting.eraseIdx i }
    else none
  | .append i => s.starting[i]?.bind fun t =>
    if t.stage = .checked then
      some { s with starting := s.starting.eraseIdx i, log := s.log ++ [t.toStage .logged] }
    else none
  | .fail i => s.starting[i]?.map fun _ => { s with starting := s.starting.eraseIdx i }
  | .lose p => s.log[p]?.bind fun t =>
    if t.stage = .logged then some { s with log := s.log.set p (t.toStage .finished) } else none
  | .fold p => s.log[p]?.bind fun t => if t.stage = .logged then some (s.fold p t) else none
  | .finish p => s.log[p]?.bind fun t =>
    if t.stage = .folded then some { s with log := s.log.set p (t.toStage .finished) } else none

/-! ### What the steps do -/

/-- What a step does to a state, other than a refresh that is logged and lost. -/
inductive Effect (s : State) : Act → State → Prop
  | started {a : Act} (r : Refresh) (hroot : r.newRoot = none → r.merkleRoot = s.root) :
      Effect s a (s.start r)
  | moved {a : Act} {i : ℕ} {t : Task} {stage : Stage} (ht : s.starting[i]? = some t)
      (hlock : (t.toStage stage).HoldsLock → t.HoldsLock ∨ s.LockFree) :
      Effect s a { s with starting := s.starting.set i (t.toStage stage) }
  | dropped {a : Act} {i : ℕ} {t : Task} (ht : s.starting[i]? = some t) :
      Effect s a { s with starting := s.starting.eraseIdx i }
  | logged {a : Act} {i : ℕ} {t : Task} (ht : s.starting[i]? = some t)
      (hstage : t.stage = .checked) :
      Effect s a { s with starting := s.starting.eraseIdx i, log := s.log ++ [t.toStage .logged] }
  | folded {p : ℕ} {t : Task} (ht : s.log[p]? = some t) (hstage : t.stage = .logged) :
      Effect s (.fold p) (s.fold p t)
  | finished {a : Act} {p : ℕ} {t : Task} (ht : s.log[p]? = some t) (hstage : t.stage = .folded) :
      Effect s a { s with log := s.log.set p (t.toStage .finished) }

lemma step_effect {s s' : State} {a : Act} (hkept : ∀ p, a ≠ .lose p) (h : step s a = some s') :
    Effect s a s' := by
  cases a with
  | stamp locations =>
    obtain rfl := some.inj h
    exact .started _ fun _ => rfl
  | relocate target =>
    obtain ⟨e, he, h⟩ := bind_eq_some_iff.mp h
    split_ifs at h
    obtain rfl := some.inj h
    exact .started _ fun _ => by simp [State.root, he, Refresh.merkleRoot]
  | heal =>
    obtain rfl := some.inj h
    exact .started _ nofun
  | lock i =>
    obtain ⟨t, ht, h⟩ := bind_eq_some_iff.mp h
    split_ifs at h with hfree
    obtain rfl := some.inj h
    exact .moved ht fun _ => .inr hfree.2.2
  | check i =>
    obtain ⟨t, ht, h⟩ := bind_eq_some_iff.mp h
    split_ifs at h with hready
    split at h
    · obtain rfl := some.inj h
      refine .moved ht fun hheld => .inl ?_
      have hpool : t.refresh.poolId ≠ none := hheld.1
      have hlocked : t.stage = .locked := by rw [hready, Task.ready, if_pos hpool]
      exact ⟨hpool, by simp [hlocked]⟩
    · obtain rfl := some.inj h
      exact .dropped ht
  | append i =>
    obtain ⟨t, ht, h⟩ := bind_eq_some_iff.mp h
    split_ifs at h with hstage
    obtain rfl := some.inj h
    exact .logged ht hstage
  | fail i =>
    obtain ⟨t, ht, rfl⟩ := map_eq_some_iff.mp h
    exact .dropped ht
  | lose p => exact absurd rfl (hkept p)
  | fold p =>
    obtain ⟨t, ht, h⟩ := bind_eq_some_iff.mp h
    split_ifs at h with hstage
    obtain rfl := some.inj h
    exact .folded ht hstage
  | finish p =>
    obtain ⟨t, ht, h⟩ := bind_eq_some_iff.mp h
    split_ifs at h with hstage
    obtain rfl := some.inj h
    exact .finished ht hstage

lemma fold_of_sealed {s : State} {e : LifecycleEntry} (he : s.entry = some e)
    (hsealed : e.state = .sealed) (p : ℕ) (t : Task) :
    s.fold p t =
      { entry := some { e with metadata := { e.metadata with
          merkleRoot := t.refresh.merkleRoot
          storageLocations := t.refresh.storageLocations.getD e.metadata.storageLocations
          poolId := t.refresh.poolId.getD e.metadata.poolId } }
        starting := s.starting.map (Task.after t.refresh)
        log := (s.log.map (Task.after t.refresh)).set p (t.toStage .folded) } := by
  simp only [State.fold, refreshEntry, he, hsealed]

/-! ### The log as writes to one field -/

section

variable {ω : Type*} (val : Refresh → Option ω) (log : List Task)

/-- What the log writes to a field, and whether it was folded. -/
def writes : List (Option ω × Bool) :=
  log.map fun t => (val t.refresh, decide (t.stage ≠ .logged))

lemma getElem?_writes {log : List Task} {p : ℕ} {t : Task} (ht : log[p]? = some t) :
    (writes val log)[p]? = some (val t.refresh, decide (t.stage ≠ .logged)) := by
  simp [writes, ht]

lemma writes_append (t : Task) :
    writes val (log ++ [t.toStage .logged]) = writes val log ++ [(val t.refresh, false)] := by
  simp [writes, Task.toStage]

lemma writes_fold (r : Refresh) (p : ℕ) (t : Task) :
    writes val ((log.map (Task.after r)).set p (t.toStage .folded)) =
      (writes val log).set p (val t.refresh, true) := by
  rw [writes, map_set, List.map_map]
  rfl

lemma writes_finish {log : List Task} {p : ℕ} {t : Task} (ht : log[p]? = some t)
    (hstage : t.stage = .folded) :
    writes val (log.set p (t.toStage .finished)) = writes val log := by
  have hsame := getElem?_writes val ht
  simp only [hstage, ne_eq, reduceCtorEq, not_false_eq_true, decide_true] at hsame
  obtain ⟨hlt, hget⟩ := List.getElem?_eq_some_iff.mp hsame
  rw [writes, map_set]
  change (writes val log).set p (val t.refresh, true) = writes val log
  rw [← hget, set_getElem_self]

lemma lastValue_writes :
    lastValue id ((writes val log).map Prod.fst) = lastValue val (log.map (·.refresh)) := by
  simp only [lastValue, writes, filterMap_map, Function.comp_def, id_eq]

end

/-! ### The entry and the lock -/

def lockWeight (t : Task) : ℕ := if t.HoldsLock then 1 else 0

/-- A sealed entry with the metadata `m` but for what refreshes set. One relocation at most has the
lock, so those of the log are folded in its order. -/
structure Base (m : SegmentMetadata) (s : State) (e : LifecycleEntry) : Prop where
  entry_eq : s.entry = some e
  sealed : e.state = .sealed
  rest_eq : e.metadata = { m with
    merkleRoot := e.metadata.merkleRoot
    storageLocations := e.metadata.storageLocations
    poolId := e.metadata.poolId }
  lock : (s.starting.map lockWeight).sum + (s.log.map lockWeight).sum ≤ 1
  pool : UpTo (writes Refresh.poolId s.log) m.poolId e.metadata.poolId

section

variable {m : SegmentMetadata} {s s' : State} {e : LifecycleEntry} {a : Act}

lemma Base.root_eq (h : Base m s e) : s.root = e.metadata.merkleRoot := by
  rw [State.root, h.entry_eq, bind_some]

lemma lockWeight_after (r : Refresh) (t : Task) : lockWeight (t.after r) = lockWeight t := rfl

lemma sum_lockWeight_after (r : Refresh) (l : List Task) :
    ((l.map (Task.after r)).map lockWeight).sum = (l.map lockWeight).sum := by
  rw [List.map_map]
  rfl

lemma sum_lockWeight_of_free {l : List Task} (h : ∀ t ∈ l, ¬ t.HoldsLock) :
    (l.map lockWeight).sum = 0 := by
  refine sum_eq_zero fun w hw => ?_
  obtain ⟨t, ht, rfl⟩ := List.mem_map.mp hw
  exact if_neg (h t ht)

lemma Base.first_relocation (h : Base m s e) {p : ℕ} {t : Task} (ht : s.log[p]? = some t)
    (hstage : t.stage = .logged) (hpool : t.refresh.poolId ≠ none) :
    ∀ q < p, ∀ w applied, (writes Refresh.poolId s.log)[q]? = some (some w, applied) →
      applied = true := by
  intro q hq w applied hw
  rw [writes, getElem?_map, map_eq_some_iff] at hw
  obtain ⟨t', ht', heq⟩ := hw
  obtain ⟨hw, rfl⟩ := Prod.mk.inj heq
  by_contra hlogged
  have hstage' : t'.stage = .logged := by simpa using hlogged
  have hweight : lockWeight t = 1 := if_pos ⟨hpool, by simp [hstage]⟩
  have hweight' : lockWeight t' = 1 := if_pos ⟨by simp [hw], by simp [hstage']⟩
  have hsum := Lists.add_le_sum_map lockWeight ht ht' (Nat.ne_of_gt hq)
  have hlock := h.lock
  omega

lemma Base.effect (h : Base m s e) (heff : Effect s a s') : ∃ e', Base m s' e' := by
  have hlock := h.lock
  cases heff with
  | started r =>
    refine ⟨e, h.entry_eq, h.sealed, h.rest_eq, ?_, h.pool⟩
    have hweight : lockWeight ⟨r, .read, false⟩ = 0 := if_neg fun hheld => hheld.2.1 rfl
    simp only [State.start, map_append, sum_append, map_cons, map_nil, sum_cons, sum_nil, hweight]
    omega
  | @moved _ i t stage ht hheld =>
    refine ⟨e, h.entry_eq, h.sealed, h.rest_eq, ?_, h.pool⟩
    have hset := Lists.sum_map_set lockWeight ht (t.toStage stage)
    by_cases hnew : (t.toStage stage).HoldsLock
    · have hweight : lockWeight (t.toStage stage) = 1 := if_pos hnew
      rcases hheld hnew with hold | hfree
      · have hweight' : lockWeight t = 1 := if_pos hold
        dsimp only
        omega
      · have hstarting := @sum_lockWeight_of_free s.starting fun t ht =>
          hfree t (mem_append_left _ ht)
        have hlog := @sum_lockWeight_of_free s.log fun t ht =>
          hfree t (mem_append_right _ ht)
        dsimp only
        omega
    · have hweight : lockWeight (t.toStage stage) = 0 := if_neg hnew
      dsimp only
      omega
  | @dropped _ i t ht =>
    refine ⟨e, h.entry_eq, h.sealed, h.rest_eq, ?_, h.pool⟩
    have herase := Lists.sum_map_eraseIdx lockWeight ht
    dsimp only
    omega
  | @logged _ i t ht hstage =>
    refine ⟨e, h.entry_eq, h.sealed, h.rest_eq, ?_, ?_⟩
    · have herase := Lists.sum_map_eraseIdx lockWeight ht
      have hsame : lockWeight (t.toStage .logged) = lockWeight t := by
        simp [lockWeight, Task.HoldsLock, Task.toStage, hstage]
      simp only [map_append, sum_append, map_cons, map_nil, sum_cons, sum_nil, hsame]
      omega
    · rw [writes_append]
      exact h.pool.append _
  | @folded p t ht hstage =>
    rw [fold_of_sealed h.entry_eq h.sealed]
    refine ⟨_, rfl, h.sealed, ?_, ?_, ?_⟩
    · rw [h.rest_eq]
    · have hget : (s.log.map (Task.after t.refresh))[p]? = some (t.after t.refresh) := by
        rw [getElem?_map, ht, map_some]
      have hset := Lists.sum_map_set lockWeight hget (t.toStage .folded)
      have hsame : lockWeight (t.toStage .folded) = lockWeight t := by
        simp [lockWeight, Task.HoldsLock, Task.toStage, hstage]
      rw [sum_lockWeight_after, hsame, lockWeight_after] at hset
      dsimp only
      rw [sum_lockWeight_after]
      omega
    · rw [writes_fold]
      have hget := getElem?_writes Refresh.poolId ht
      rw [hstage] at hget
      cases hpool : t.refresh.poolId with
      | none =>
        rw [hpool] at hget
        exact h.pool.skip hget true
      | some target =>
        rw [hpool] at hget
        exact h.pool.apply hget (h.first_relocation ht hstage (by simp [hpool]))
  | @finished _ p t ht hstage =>
    refine ⟨e, h.entry_eq, h.sealed, h.rest_eq, ?_, by rw [writes_finish _ ht hstage]; exact h.pool⟩
    have hset := Lists.sum_map_set lockWeight ht (t.toStage .finished)
    have hweight : lockWeight (t.toStage .finished) = 0 := if_neg fun hheld => hheld.2.2 rfl
    dsimp only
    omega

/-! ### The root -/

/-- What a refresh that is not folded yet carries: where a heal overtook it, the entry has no root
any more; otherwise the root is the one of the entry. -/
def Carries (s : State) (t : Task) : Prop :=
  if t.overtaken then s.root = none else t.refresh.newRoot = none → t.refresh.merkleRoot = s.root

/-- The root is as it was until the first heal is folded, and gone from then on. -/
structure RootKept (m : SegmentMetadata) (s : State) : Prop where
  starting : ∀ t ∈ s.starting, Carries s t
  logged : ∀ t ∈ s.log, t.stage = .logged → Carries s t
  root_eq : s.root =
    if (some none, true) ∈ writes Refresh.newRoot s.log then none else m.merkleRoot

/-- A refresh that carries a root is folded only if no heal overtook it. -/
def Fresh (s : State) : Act → Prop
  | .fold p => ∀ t ∈ s.log[p]?, t.overtaken = true → t.refresh.merkleRoot = none
  | _ => True

/-- Stamps and relocations do not change the root. -/
def KeepsRoot (s : State) : Act → Prop
  | .fold p => ∀ t ∈ s.log[p]?, t.refresh.newRoot = none → ∀ s' ∈ step s (.fold p), s'.root = s.root
  | _ => True

lemma Carries.root_eq {t : Task} (h : Carries s t) (hnew : t.refresh.newRoot = none) :
    t.refresh.merkleRoot = s.root ↔ (t.overtaken = true → t.refresh.merkleRoot = none) := by
  unfold Carries at h
  split at h
  · rename_i hover
    rw [h]
    exact ⟨fun heq _ => heq, fun himp => himp hover⟩
  · rename_i hover
    exact iff_of_true (h hnew) fun hover' => absurd hover' hover

lemma Base.root_fold (h : Base m s e) (p : ℕ) (t : Task) :
    (s.fold p t).root = t.refresh.merkleRoot := by
  rw [fold_of_sealed h.entry_eq h.sealed, State.root, bind_some]

lemma merkleRoot_of_newRoot {r : Refresh} (h : r.newRoot ≠ none) : r.merkleRoot = none := by
  cases r with
  | heal => rfl
  | _ => exact absurd rfl h

lemma RootKept.keepsRoot_iff (h : RootKept m s) (hb : Base m s e) (hs : step s a = some s') :
    KeepsRoot s a ↔ Fresh s a := by
  cases a with
  | fold p =>
    obtain ⟨t, ht, hfold⟩ := bind_eq_some_iff.mp hs
    split_ifs at hfold with hstage
    obtain rfl := some.inj hfold
    have hkeeps : KeepsRoot s (.fold p) ↔
        (t.refresh.newRoot = none → t.refresh.merkleRoot = s.root) := by
      simp only [KeepsRoot, ht, hs, mem_def, some.injEq, forall_eq', hb.root_fold]
    have hfresh : Fresh s (.fold p) ↔ (t.overtaken = true → t.refresh.merkleRoot = none) := by
      simp only [Fresh, ht, mem_def, some.injEq, forall_eq']
    rw [hkeeps, hfresh]
    by_cases hnew : t.refresh.newRoot = none
    · rw [← (h.logged t (mem_of_getElem? ht) hstage).root_eq hnew]
      exact ⟨fun hroot => hroot hnew, fun hroot _ => hroot⟩
    · exact iff_of_true (fun hnone => absurd hnone hnew) fun _ => merkleRoot_of_newRoot hnew
  | _ => exact Iff.rfl

lemma newRoot_eq {r : Refresh} (h : r.newRoot ≠ none) : r.newRoot = some none := by
  cases r with
  | heal => rfl
  | _ => exact absurd rfl h

lemma RootKept.keep (h : RootKept m s) (hb : Base m s e) {p : ℕ} {t : Task}
    (ht : s.log[p]? = some t) (hnew : t.refresh.newRoot = none)
    (hroot : (s.fold p t).root = s.root) : RootKept m (s.fold p t) := by
  have hafter : Task.after t.refresh = id := by
    funext t'
    simp [Task.after, hnew]
  have hcarries (t' : Task) : Carries (s.fold p t) t' ↔ Carries s t' := by
    rw [Carries, Carries, hroot]
  have hfold := fold_of_sealed hb.entry_eq hb.sealed p t
  rw [hafter, List.map_id, List.map_id] at hfold
  refine ⟨fun t' ht' => (hcarries t').mpr ?_, fun t' ht' hlogged => (hcarries t').mpr ?_, ?_⟩
  · rw [hfold] at ht'
    exact h.starting t' ht'
  · rw [hfold] at ht'
    rcases mem_or_eq_of_mem_set ht' with ht' | rfl
    · exact h.logged t' ht' hlogged
    · cases hlogged
  · -- the folded refresh is no heal, so the same heals are folded as before
    have hget := getElem?_writes Refresh.newRoot ht
    rw [hnew] at hget
    have hmem : (some none, true) ∈ (writes Refresh.newRoot s.log).set p (none, true) ↔
        (some none, true) ∈ writes Refresh.newRoot s.log := by
      refine ⟨fun hm => ?_, fun hm => Lists.mem_set_of_ne hget hm (by simp)⟩
      rcases mem_or_eq_of_mem_set hm with hm | hm
      · exact hm
      · cases hm
    have hwrites : writes Refresh.newRoot (s.fold p t).log =
        (writes Refresh.newRoot s.log).set p (none, true) := by
      rw [fold_of_sealed hb.entry_eq hb.sealed, writes_fold, hnew]
    rw [hroot, h.root_eq, hwrites]
    simp only [hmem]

lemma RootKept.heal (hb : Base m s e) {p : ℕ} {t : Task} (ht : s.log[p]? = some t)
    (hnew : t.refresh.newRoot ≠ none) (hroot : (s.fold p t).root = none) :
    RootKept m (s.fold p t) := by
  have hcarries (t' : Task) : Carries (s.fold p t) (t'.after t.refresh) := by
    rw [Carries, if_pos (by simp [Task.after, newRoot_eq hnew])]
    exact hroot
  have hfold := fold_of_sealed hb.entry_eq hb.sealed p t
  refine ⟨fun t' ht' => ?_, fun t' ht' hlogged => ?_, ?_⟩
  · rw [hfold] at ht'
    obtain ⟨t', -, rfl⟩ := List.mem_map.mp ht'
    exact hcarries t'
  · rw [hfold] at ht'
    rcases mem_or_eq_of_mem_set ht' with ht' | rfl
    · obtain ⟨t', -, rfl⟩ := List.mem_map.mp ht'
      exact hcarries t'
    · cases hlogged
  · rw [hroot, if_pos]
    rw [fold_of_sealed hb.entry_eq hb.sealed, writes_fold, newRoot_eq hnew]
    obtain ⟨hlt, -⟩ := List.getElem?_eq_some_iff.mp ht
    exact mem_set (by simpa [writes] using hlt) _

lemma RootKept.effect (h : RootKept m s) (hb : Base m s e) (heff : Effect s a s')
    (hfresh : Fresh s a) : RootKept m s' := by
  cases heff with
  | started r hroot =>
    refine ⟨fun t ht => ?_, h.logged, h.root_eq⟩
    rcases mem_append.mp ht with ht | ht
    · exact h.starting t ht
    · obtain rfl := mem_singleton.mp ht
      exact hroot
  | @moved _ i t stage ht =>
    refine ⟨fun t' ht' => ?_, h.logged, h.root_eq⟩
    rcases mem_or_eq_of_mem_set ht' with ht' | rfl
    · exact h.starting t' ht'
    · exact h.starting t (mem_of_getElem? ht)
  | dropped =>
    exact ⟨fun t' ht' => h.starting t' (mem_of_mem_eraseIdx ht'), h.logged, h.root_eq⟩
  | @logged _ i t ht =>
    refine ⟨fun t' ht' => h.starting t' (mem_of_mem_eraseIdx ht'),
      fun t' ht' hlogged => ?_, ?_⟩
    · rcases mem_append.mp ht' with ht' | ht'
      · exact h.logged t' ht' hlogged
      · obtain rfl := mem_singleton.mp ht'
        exact h.starting t (mem_of_getElem? ht)
    · simp only [writes_append, mem_append, mem_singleton, Prod.mk.injEq,
        Bool.true_eq_false, and_false, or_false]
      exact h.root_eq
  | @folded p t ht hstage =>
    have hroot := hb.root_fold p t
    by_cases hnew : t.refresh.newRoot = none
    · refine h.keep hb ht hnew ?_
      rw [hroot]
      exact ((h.logged t (mem_of_getElem? ht) hstage).root_eq hnew).mpr (hfresh t ht)
    · exact .heal hb ht hnew (hroot.trans (merkleRoot_of_newRoot hnew))
  | @finished _ p t ht hstage =>
    refine ⟨h.starting, fun t' ht' hlogged => ?_, ?_⟩
    · rcases mem_or_eq_of_mem_set ht' with ht' | rfl
      · exact h.logged t' ht' hlogged
      · cases hlogged
    · rw [writes_finish _ ht hstage]
      exact h.root_eq

/-! ### The holders -/

/-- A stamp is folded only when no stamp that was logged before it is waiting, and no refresh that
is logged is lost. -/
def InOrder (s : State) : Act → Prop
  | .lose _ => False
  | .fold p => ∀ t ∈ s.log[p]?, t.refresh.storageLocations ≠ none →
    ∀ q < p, ∀ t' ∈ s.log[q]?, t'.refresh.storageLocations ≠ none → t'.stage ≠ .logged
  | _ => True

def HoldersKept (m : SegmentMetadata) (s : State) : Prop :=
  ∀ e ∈ s.entry, UpTo (writes Refresh.storageLocations s.log) m.storageLocations
    e.metadata.storageLocations

lemma HoldersKept.effect (h : HoldersKept m s) (hb : Base m s e) (heff : Effect s a s')
    (horder : InOrder s a) : HoldersKept m s' := by
  cases heff with
  | started => exact h
  | moved => exact h
  | dropped => exact h
  | logged =>
    intro e' he'
    rw [writes_append]
    exact (h e' he').append _
  | @folded p t ht hstage =>
    intro e' he'
    have hkept := h e hb.entry_eq
    have hget := getElem?_writes Refresh.storageLocations ht
    rw [hstage] at hget
    rw [fold_of_sealed hb.entry_eq hb.sealed] at he' ⊢
    obtain rfl := some.inj he'
    rw [writes_fold]
    cases hlocations : t.refresh.storageLocations with
    | none =>
      rw [hlocations] at hget
      exact hkept.skip hget true
    | some locations =>
      rw [hlocations] at hget
      refine hkept.apply hget fun q hq w applied hw => ?_
      rw [writes, getElem?_map, map_eq_some_iff] at hw
      obtain ⟨t', ht', heq⟩ := hw
      obtain ⟨hw, rfl⟩ := Prod.mk.inj heq
      simpa using horder t ht (by simp [hlocations]) q hq t' ht' (by simp [hw])
  | finished ht hstage =>
    intro e' he'
    rw [writes_finish _ ht hstage]
    exact h e' he'

/-! ### What is left when all have finished -/

/-- **The value of each field**: once all refreshes have finished, the one that the last refresh of
the log that was meant to change it gave. -/
def Kept (m : SegmentMetadata) (s : State) : Prop :=
  s.starting = [] → (∀ t ∈ s.log, t.stage = .finished) →
    s.entry.map (·.metadata) = some { m with
      merkleRoot := (lastValue Refresh.newRoot (s.log.map (·.refresh))).getD m.merkleRoot
      storageLocations :=
        (lastValue Refresh.storageLocations (s.log.map (·.refresh))).getD m.storageLocations
      poolId := (lastValue Refresh.poolId (s.log.map (·.refresh))).getD m.poolId }

lemma all_writes {ω : Type*} (val : Refresh → Option ω) {log : List Task}
    (h : ∀ t ∈ log, t.stage = .finished) : ∀ x ∈ writes val log, x.2 = true := by
  intro x hx
  obtain ⟨t, ht, rfl⟩ := List.mem_map.mp hx
  simp [h t ht]

lemma RootKept.root_eq_last (h : RootKept m s) (hall : ∀ t ∈ s.log, t.stage = .finished) :
    s.root = (lastValue Refresh.newRoot (s.log.map (·.refresh))).getD m.merkleRoot := by
  rw [h.root_eq]
  split_ifs with hheal
  · obtain ⟨t, ht, heq⟩ := List.mem_map.mp hheal
    have hnew : t.refresh.newRoot = some none := (Prod.mk.inj heq).1
    cases hlast : lastValue Refresh.newRoot (s.log.map (·.refresh)) with
    | none =>
      rw [lastValue_eq_none.mp hlast _ (List.mem_map_of_mem ht)] at hnew
      cases hnew
    | some w =>
      obtain ⟨r, -, hr⟩ := lastValue_eq_some hlast
      rw [newRoot_eq (by simp [hr])] at hr
      exact some.inj hr
  · rw [lastValue_eq_none.mpr]
    · rfl
    · intro r hr
      obtain ⟨t, ht, rfl⟩ := List.mem_map.mp hr
      by_contra hnew
      refine hheal (List.mem_map.mpr ⟨t, ht, ?_⟩)
      simp [newRoot_eq hnew, hall t ht]

lemma kept_of_invariants (hb : Base m s e) (hroot : RootKept m s) (hholders : HoldersKept m s) :
    Kept m s := by
  intro _ hall
  have hpool := hb.pool.eq_last (all_writes _ hall)
  have hstamp := (hholders e hb.entry_eq).eq_last (all_writes _ hall)
  rw [lastValue_writes] at hpool hstamp
  rw [hb.entry_eq, map_some, hb.rest_eq, ← hb.root_eq, hroot.root_eq_last hall, ← hpool, ← hstamp]

/-- A sealed segment that nothing refreshes. -/
structure AtRest (m : SegmentMetadata) (s : State) : Prop where
  entry : ∃ e, s.entry = some e ∧ e.state = .sealed ∧ e.metadata = m
  starting : s.starting = []
  log : s.log = []

lemma AtRest.base (h : AtRest m s) : ∃ e, Base m s e := by
  obtain ⟨e, he, hsealed, rfl⟩ := h.entry
  refine ⟨e, he, hsealed, rfl, by simp [h.starting, h.log], ?_⟩
  rw [h.log]
  exact .nil _

lemma AtRest.rootKept (h : AtRest m s) : RootKept m s := by
  obtain ⟨e, he, -, rfl⟩ := h.entry
  exact ⟨by simp [h.starting], by simp [h.log], by simp [h.log, writes, State.root, he]⟩

lemma AtRest.holdersKept (h : AtRest m s) : HoldersKept m s := by
  obtain ⟨e, he, -, rfl⟩ := h.entry
  intro e' he'
  obtain rfl := some.inj (he.symm.trans he')
  rw [h.log]
  exact .nil _

/-- **When refreshes keep each other's fields**, in every run in which stamps are folded in the
order of the log: no heal is folded between the read of a root and the fold of the refresh that
carries it. -/
theorem refreshes_kept_iff (h : AtRest m s) (as : List Act)
    (horder : Runs.Guarded step InOrder s as) :
    Runs.Always step (Kept m) s as ∧ Runs.Guarded step KeepsRoot s as ↔
      Runs.Guarded step Fresh s as := by
  have hiff : ∀ s a s', (∃ e, Base m s e) ∧ RootKept m s ∧ HoldersKept m s →
      step s a = some s' → (KeepsRoot s a ↔ Fresh s a) := by
    rintro s a s' ⟨⟨e, hb⟩, hroot, -⟩ hs
    exact hroot.keepsRoot_iff hb hs
  have hsteps : ∀ s a s', (∃ e, Base m s e) ∧ RootKept m s ∧ HoldersKept m s →
      InOrder s a ∧ Fresh s a → step s a = some s' →
      (∃ e, Base m s' e) ∧ RootKept m s' ∧ HoldersKept m s' := by
    rintro s a s' ⟨⟨e, hb⟩, hroot, hholders⟩ ⟨horder, hfresh⟩ hs
    have heff := step_effect (fun p hp => by subst hp; exact horder) hs
    exact ⟨hb.effect heff, hroot.effect hb heff hfresh, hholders.effect hb heff horder⟩
  have hrest := And.intro h.base (And.intro h.rootKept h.holdersKept)
  constructor
  · rintro ⟨-, hkeeps⟩
    exact Runs.Guarded.imp_of_inv
      (fun s a s' hinv hok hs => hsteps s a s' hinv ⟨hok.1, (hiff s a s' hinv hs).mp hok.2⟩ hs)
      (fun s a s' hinv hok hs => (hiff s a s' hinv hs).mp hok.2) hrest (horder.and hkeeps)
  · intro hfresh
    refine ⟨Runs.always_of_guarded hsteps ?_ hrest (horder.and hfresh), ?_⟩
    · rintro s ⟨⟨e, hb⟩, hroot, hholders⟩
      exact kept_of_invariants hb hroot hholders
    · exact Runs.Guarded.imp_of_inv hsteps
        (fun s a s' hinv hok hs => (hiff s a s' hinv hs).mpr hok.2) hrest (horder.and hfresh)

end

/-! ### A stamp and a heal -/

instance (s : State) (a : Act) : Decidable (Fresh s a) := by
  cases a <;> unfold Fresh <;> infer_instance

instance (s : State) (a : Act) : Decidable (InOrder s a) := by
  cases a <;> unfold InOrder <;> infer_instance

instance (m : SegmentMetadata) : DecidablePred (Kept m) := fun _ =>
  inferInstanceAs (Decidable (_ → _ → _))

def sealedMetadata : SegmentMetadata :=
  { reservedMetadata 7 .standard 0 0 with
    merkleRoot := some (prefixHash [1])
    storageLocations := [1]
    poolId := 1 }

/-- Segment 7, sealed on pool 1 with a root. -/
def sealedAlone : State := ⟨some (.new .sealed sealedMetadata), [], []⟩

lemma atRest_sealedAlone : AtRest sealedMetadata sealedAlone :=
  ⟨⟨_, rfl, rfl, rfl⟩, rfl, rfl⟩

/-- A relocation and a stamp interleave, and a heal comes after both. -/
theorem heal_after_stamp_kept :
    Runs.Always step (Kept sealedMetadata) sealedAlone
        [.relocate 2, .stamp [1, 3], .lock 0, .check 1, .check 0, .append 1, .append 0, .fold 1,
          .fold 0, .finish 0, .finish 1, .heal, .check 0, .append 0, .fold 2, .finish 2] ∧
      Runs.Guarded step KeepsRoot sealedAlone
        [.relocate 2, .stamp [1, 3], .lock 0, .check 1, .check 0, .append 1, .append 0, .fold 1,
          .fold 0, .finish 0, .finish 1, .heal, .check 0, .append 0, .fold 2, .finish 2] :=
  (refreshes_kept_iff atRest_sealedAlone _ (by decide +kernel)).mpr (by decide +kernel)

/-- A stamp reads the root, a heal clears it, and the fold of the stamp brings it back; the heal is
the later one in the log. And two stamps are folded in the other order than they are logged. -/
theorem stamp_restores_root :
    ¬ Runs.Always step (Kept sealedMetadata) sealedAlone
        [.stamp [1, 3], .heal, .check 0, .check 1, .append 0, .append 0, .fold 1, .fold 0,
          .finish 0, .finish 1] ∧
      ((Runs.run step sealedAlone
        [.stamp [1, 3], .heal, .check 0, .check 1, .append 0, .append 0, .fold 1, .fold 0,
          .finish 0, .finish 1]).map fun s => (s.log.map (·.refresh), s.root)) =
        some ([.stamp [1, 3] (some (prefixHash [1])), .heal], some (prefixHash [1])) ∧
      ¬ Runs.Always step (Kept sealedMetadata) sealedAlone
        [.stamp [1, 3], .stamp [1, 4], .check 0, .check 1, .append 0, .append 0, .fold 1, .fold 0,
          .finish 0, .finish 1] := by
  decide +kernel

end OceanFs.Segment.Refreshes
