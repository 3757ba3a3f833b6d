import Mathlib.Data.Rat.Defs
import Mathlib.Algebra.Order.Ring.Rat
import OceanFs.Lib.Runs
import OceanFs.Pool.Registry

/-!
The health monitor beside the drains of a node.

The status of a pool, its drain record and the status that the monitor has in mind for it are three
stores. A tick decides under the lock of the monitor and sets the status after it; a drain opens its
record first and sets the status then; a reset of a dead pool makes it healthy without a look at the
record. New segments go by the status alone.
-/

namespace OceanFs.Pool

open OceanFs.Core Lib Option List

/-! ### The decision of a tick -/

/-- What a window of the observer reports, as far as the decision reads it. Latencies are the
percentiles of each operation in nanoseconds; floating-point numbers are rationals. -/
structure PoolSignal where
  errorRate : ℚ
  errors : ℕ
  p50 : List (Option ℕ)
  p99 : List (Option ℕ)
  notFound : ℕ
  other : ℕ
  invalidData : ℕ
  deriving DecidableEq

structure PoolHealthConfig where
  errorRateThreshold : ℚ
  minErrors : ℕ
  latencyFactor : ℚ
  recoveryWindowSecs : ℕ

inductive TrendVerdict
  | stable
  | degrading
  deriving DecidableEq

inductive ConfirmedLoss
  | segmentNotFound
  | fsyncIo
  | deviceUnplug
  deriving DecidableEq

variable (signal : PoolSignal)

/-- `ConfirmedLoss::from_signal`. -/
def ConfirmedLoss.fromSignal : Option ConfirmedLoss :=
  if 0 < signal.notFound then some .segmentNotFound
  else if 0 < signal.other then some .fsyncIo
  else if 0 < signal.invalidData then some .deviceUnplug
  else none

/-- The worst of the latencies that are there. -/
def worst (latencies : List (Option ℕ)) : ℕ := (latencies.filterMap id).foldl max 0

def latencySpike (config : PoolHealthConfig) : Bool :=
  0 < worst signal.p50 ∧ config.latencyFactor * worst signal.p50 < worst signal.p99

def saturate (n : ℕ) : ℕ := min n (2 ^ 64 - 1)

/-- `decide_transition`: the next status and the number of clean windows so far. -/
def decideTransition (current : PoolStatus) (signal : PoolSignal) (verdict : TrendVerdict)
    (config : PoolHealthConfig) (cleanWindows tickSecs : ℕ) : PoolStatus × ℕ :=
  match current with
  | .healthy =>
    if verdict = .degrading ∨
        (config.minErrors ≤ signal.errors ∧ config.errorRateThreshold < signal.errorRate) ∨
        latencySpike signal config then (.degraded, 0)
    else (.healthy, cleanWindows)
  | .degraded =>
    if (ConfirmedLoss.fromSignal signal).isSome then (.dead, 0)
    else if signal.errors = 0 then
      if config.recoveryWindowSecs ≤ saturate (saturate (cleanWindows + 1) * tickSecs) then
        (.healthy, 0)
      else (.degraded, saturate (cleanWindows + 1))
    else (.degraded, 0)
  | .dead => (.dead, cleanWindows)
  | .draining =>
    if (ConfirmedLoss.fromSignal signal).isSome then (.dead, 0) else (.draining, cleanWindows)

lemma decideTransition_draining (verdict : TrendVerdict) (config : PoolHealthConfig)
    (cleanWindows tickSecs : ℕ) :
    (decideTransition .draining signal verdict config cleanWindows tickSecs).1 = .draining ∨
      (decideTransition .draining signal verdict config cleanWindows tickSecs).1 = .dead := by
  rw [decideTransition]
  split
  · exact .inr rfl
  · exact .inl rfl

lemma current_of_decideTransition {current : PoolStatus} {signal : PoolSignal}
    {verdict : TrendVerdict} {config : PoolHealthConfig} {cleanWindows tickSecs : ℕ}
    (h : (decideTransition current signal verdict config cleanWindows tickSecs).1 = .draining) :
    current = .draining := by
  cases current with
  | healthy =>
    rw [decideTransition] at h
    split at h <;> cases h
  | degraded =>
    rw [decideTransition] at h
    split_ifs at h
  | dead => cases h
  | draining => rfl

namespace HealthMonitor

/-! ### The state -/

/-- What the monitor has in mind for a pool. -/
structure PoolState where
  status : PoolStatus
  cleanWindows : ℕ
  deriving DecidableEq

/-- A tick that has decided: the status it saw and the one it will set. -/
structure Tick where
  pool : PoolId
  saw : PoolStatus
  status : PoolStatus
  deriving DecidableEq

/-- A drain that begins, before or after its record is there. -/
structure Drain where
  pool : PoolId
  mode : DrainMode
  recorded : Bool
  deriving DecidableEq

/-- The registry, the mirror of the monitor, and the calls in progress. One task ticks the pools;
the others are called by any task. -/
structure State where
  registry : PoolRegistry
  mirror : PoolId → Option PoolState
  tick : Option Tick
  /-- Confirmed losses whose status is still to be set. -/
  losses : List PoolId
  drains : List Drain
  /-- `set_pool_empty` past its look at the status. -/
  empties : List PoolId
  /-- Resets past their probe, and with the status set. -/
  resets : List (PoolId × Bool)
  /-- Detaches past their checks, and with the pool removed. -/
  detaches : List (PoolId × Bool)

namespace State

variable (s : State) (p : PoolId)

def setStatus (status : PoolStatus) : State :=
  { s with registry := s.registry.setStatus p status }

/-- The entry of the monitor for a pool, which takes over that the pool drains. -/
def entry (s : State) (q : StoragePool) : PoolState :=
  let entry := (s.mirror q.id).getD ⟨q.status, 0⟩
  if q.status = .draining then { entry with status := .draining } else entry

/-- `tick_pool` up to the end of its critical section. A tick that is not due changes the entry
only. -/
def tickPool (q : StoragePool) (due : Bool) (signal : PoolSignal) (verdict : TrendVerdict)
    (config : PoolHealthConfig) (tickSecs : ℕ) : State :=
  if due then
    let next := decideTransition (s.entry q).status signal verdict config (s.entry q).cleanWindows
      tickSecs
    { s with
      mirror := Function.update s.mirror q.id (some ⟨next.1, next.2⟩)
      tick := if next.1 ≠ (s.entry q).status then some ⟨q.id, q.status, next.1⟩ else none }
  else { s with mirror := Function.update s.mirror q.id (some (s.entry q)) }

/-- `report_confirmed_loss` up to the end of its critical section. -/
def reportLoss : State :=
  let entry := (s.mirror p).getD ⟨((s.registry.poolById p).map (·.status)).getD .healthy, 0⟩
  { s with
    mirror := Function.update s.mirror p (some { entry with status := .dead })
    losses := if entry.status ≠ .dead then s.losses ++ [p] else s.losses }

/-- What `reset_dead_pool` sets once the root is probed. -/
def revive (free : ℕ) : State :=
  { s with
    registry := (s.registry.setStatus p .healthy).mapPools
      (fun q => if q.id = p then { q with writeDegraded := false, freeBytes := free } else q)
      (fun q => by split <;> rfl) }

/-- The pool leaves the list; its records are dropped later. -/
def remove : State :=
  { s with registry := { s.registry with
      pools := s.registry.pools.filter (·.id ≠ p)
      ids_nodup := s.registry.ids_nodup.sublist (List.filter_sublist.map _) } }

def forget : State :=
  { s with registry := { s.registry with
      drainState := Function.update s.registry.drainState p .idle
      drainMode := Function.update s.registry.drainMode p .intraNode } }

end State

/-! ### The machine -/

inductive Act
  | tick (pool : PoolId) (due : Bool) (signal : PoolSignal) (verdict : TrendVerdict)
      (config : PoolHealthConfig) (tickSecs : ℕ)
  | tickStatus
  | loss (pool : PoolId)
  | lossStatus (i : ℕ)
  | beginDrain (pool : PoolId) (mode : DrainMode)
  | drainRecord (i : ℕ)
  | drainStatus (i : ℕ)
  | emptyCheck (pool : PoolId)
  | emptyRecord (i : ℕ)
  /-- The probe of the root succeeds. -/
  | resetCheck (pool : PoolId)
  | resetStatus (i free : ℕ)
  | resetMirror (i : ℕ)
  | detachCheck (pool : PoolId)
  | detachRemove (i : ℕ)
  | detachForget (i : ℕ)

variable (s : State)

def step : Act → Option State
  | .tick p due signal verdict config tickSecs =>
    if s.tick.isNone then
      (s.registry.poolById p).map fun q => s.tickPool q due signal verdict config tickSecs
    else none
  | .tickStatus => s.tick.map fun t => { s.setStatus t.pool t.status with tick := none }
  | .loss p => some (s.reportLoss p)
  | .lossStatus i => s.losses[i]?.map fun p =>
    { s.setStatus p .dead with losses := s.losses.eraseIdx i }
  | .beginDrain p mode => (s.registry.poolById p).bind fun q =>
    if q.role ≠ .data ∨ q.status = .dead ∨ q.status = .draining then none
    else some { s with drains := s.drains ++ [⟨p, mode, false⟩] }
  | .drainRecord i => s.drains[i]?.bind fun d =>
    if d.recorded then none
    else some { s with
      registry := { s.registry.setRecord d.pool (.draining none false) with
        drainMode := Function.update s.registry.drainMode d.pool d.mode }
      drains := s.drains.set i { d with recorded := true } }
  | .drainStatus i => s.drains[i]?.bind fun d =>
    if d.recorded then
      some { s.setStatus d.pool .draining with drains := s.drains.eraseIdx i }
    else none
  | .emptyCheck p => (s.registry.poolById p).bind fun q =>
    if q.status = .draining then some { s with empties := s.empties ++ [p] } else none
  | .emptyRecord i => s.empties[i]?.map fun p =>
    { s with
      registry :=
        if (s.registry.drainState p).isDraining then s.registry.setRecord p .detachable
        else s.registry
      empties := s.empties.eraseIdx i }
  | .resetCheck p => (s.registry.poolById p).bind fun q =>
    if q.role = .data ∧ q.status = .dead then some { s with resets := s.resets ++ [(p, false)] }
    else none
  | .resetStatus i free => s.resets[i]?.bind fun r =>
    if r.2 then none else some { s.revive r.1 free with resets := s.resets.set i (r.1, true) }
  | .resetMirror i => s.resets[i]?.bind fun r =>
    if r.2 then some { s with
      mirror := Function.update s.mirror r.1 (some ⟨.healthy, 0⟩)
      resets := s.resets.eraseIdx i }
    else none
  | .detachCheck p => (s.registry.poolById p).bind fun q =>
    if q.role = .data ∧ s.registry.drainState p = .detachable then
      some { s with detaches := s.detaches ++ [(p, false)] }
    else none
  | .detachRemove i => s.detaches[i]?.bind fun d =>
    if d.2 then none else some { s.remove d.1 with detaches := s.detaches.set i (d.1, true) }
  | .detachForget i => s.detaches[i]?.bind fun d =>
    if d.2 then some { s.forget d.1 with detaches := s.detaches.eraseIdx i } else none

/-! ### Pools that drain -/

/-- The record of the pool is open: a drain empties it, or has found it empty. -/
def Recorded (s : State) (p : PoolId) : Prop := s.registry.drainState p ≠ .idle

instance (s : State) (p : PoolId) : Decidable (Recorded s p) := inferInstanceAs (Decidable (_ ≠ _))

/-- A `begin_drain` of the pool is in progress. -/
def Beginning (s : State) (p : PoolId) : Prop := ∃ d ∈ s.drains, d.pool = p

instance (s : State) (p : PoolId) : Decidable (Beginning s p) :=
  inferInstanceAs (Decidable (∃ d ∈ s.drains, d.pool = p))

/-- Every registered pool with an open record has a status that keeps writes away, or a drain of it
is still to set one. -/
def Closed : Prop :=
  ∀ q ∈ s.registry.pools, Recorded s q.id → q.status = .draining ∨ q.status = .dead ∨
    Beginning s q.id

/-- **A draining pool takes no writes**: while no drain begins, registered pools with an open record
are draining or dead, and placement selects none of them. -/
def TakesNoWrites : Prop :=
  s.drains = [] →
    (∀ q ∈ s.registry.pools, Recorded s q.id → q.status = .draining ∨ q.status = .dead) ∧
      ∀ q ∈ selectFromPools s.registry.dataPools, ¬ Recorded s q.id

/-- A status that lets segments in is not set on a pool with an open record, unless a drain of it
begins: neither by a tick that decided before it saw the pool draining nor by a reset. -/
def SparesDrains : Act → Prop
  | .tickStatus => ∀ t ∈ s.tick, t.saw ≠ .draining → t.status ≠ .dead →
    (∃ q ∈ s.registry.pools, q.id = t.pool) → Recorded s t.pool → Beginning s t.pool
  | .resetStatus i _ => ∀ r ∈ s.resets[i]?,
    (∃ q ∈ s.registry.pools, q.id = r.1) → Recorded s r.1 → Beginning s r.1
  | _ => True

/-! ### One status is set -/

/-- The registry after the status of one pool was set. -/
structure SetsStatus (r r' : PoolRegistry) (p : PoolId) (status : PoolStatus) : Prop where
  drainState_eq : r'.drainState = r.drainState
  old : ∀ q ∈ r'.pools, ∃ q₀ ∈ r.pools, q₀.id = q.id ∧
    q.status = if q.id = p then status else q₀.status
  new : ∀ q₀ ∈ r.pools, q₀.id = p → ∃ q ∈ r'.pools, q.id = p ∧ q.status = status

lemma setsStatus_setStatus (r : PoolRegistry) (p : PoolId) (status : PoolStatus) :
    SetsStatus r (r.setStatus p status) p status where
  drainState_eq := rfl
  old q hq := by
    obtain ⟨q₀, hq₀, rfl⟩ := mem_map.mp hq
    refine ⟨q₀, hq₀, ?_⟩
    by_cases hid : q₀.id = p <;> simp [hid]
  new q₀ hq₀ hid := ⟨_, mem_map_of_mem hq₀, by simp [hid], by simp [hid]⟩

lemma SetsStatus.mapPools {r r' : PoolRegistry} {p : PoolId} {status : PoolStatus}
    (h : SetsStatus r r' p status) {f : StoragePool → StoragePool} (hf : ∀ q, (f q).id = q.id)
    (hstatus : ∀ q, (f q).status = q.status) : SetsStatus r (r'.mapPools f hf) p status where
  drainState_eq := h.drainState_eq
  old q hq := by
    obtain ⟨q', hq', rfl⟩ := mem_map.mp hq
    rw [hf, hstatus]
    exact h.old q' hq'
  new q₀ hq₀ hid := by
    obtain ⟨q, hq, hid', hst⟩ := h.new q₀ hq₀ hid
    exact ⟨f q, mem_map_of_mem hq, (hf q).trans hid', (hstatus q).trans hst⟩

lemma setsStatus_revive (p : PoolId) (free : ℕ) :
    SetsStatus s.registry (s.revive p free).registry p .healthy :=
  (setsStatus_setStatus s.registry p .healthy).mapPools (fun q => by split <;> rfl)
    fun q => by split <;> rfl

section

variable {s s' : State} {a : Act} {p : PoolId} {status : PoolStatus}

lemma SetsStatus.recorded_iff (h : SetsStatus s.registry s'.registry p status) (p' : PoolId) :
    Recorded s' p' ↔ Recorded s p' := by
  rw [Recorded, Recorded, h.drainState_eq]

lemma Closed.sets_iff (h : Closed s) (hset : SetsStatus s.registry s'.registry p status)
    (hdrains : s'.drains = s.drains) :
    Closed s' ↔ (status ≠ .draining → status ≠ .dead →
      (∃ q ∈ s.registry.pools, q.id = p) → Recorded s p → Beginning s p) := by
  have hbegin (p' : PoolId) : Beginning s' p' ↔ Beginning s p' := by
    rw [Beginning, Beginning, hdrains]
  constructor
  · rintro hclosed hdraining hdead ⟨q₀, hq₀, hid⟩ hrec
    obtain ⟨q, hq, rfl, rfl⟩ := hset.new q₀ hq₀ hid
    rcases hclosed q hq ((hset.recorded_iff q.id).mpr hrec) with hst | hst | hst
    · exact absurd hst hdraining
    · exact absurd hst hdead
    · exact (hbegin q.id).mp hst
  · intro hspare q hq hrec
    obtain ⟨q₀, hq₀, hid, hst⟩ := hset.old q hq
    rw [hset.recorded_iff] at hrec
    rw [hbegin]
    by_cases hp : q.id = p
    · rw [if_pos hp] at hst
      rw [hst]
      by_cases hdraining : status = .draining
      · exact .inl hdraining
      by_cases hdead : status = .dead
      · exact .inr (.inl hdead)
      rw [hp] at hrec hid ⊢
      exact .inr (.inr (hspare hdraining hdead ⟨q₀, hq₀, hid⟩ hrec))
    · rw [if_neg hp] at hst
      rw [hst, ← hid]
      exact h q₀ hq₀ (hid ▸ hrec)

lemma Closed.drainStatus (h : Closed s) {i : ℕ} {d : Drain} (hd : s.drains[i]? = some d) :
    Closed { s.setStatus d.pool .draining with drains := s.drains.eraseIdx i } := by
  intro q hq hrec
  obtain ⟨q₀, hq₀, hid, hst⟩ := (setsStatus_setStatus s.registry d.pool .draining).old q hq
  by_cases hp : q.id = d.pool
  · exact .inl (by rw [hst, if_pos hp])
  · rw [if_neg hp] at hst
    rw [hst, ← hid]
    refine (h q₀ hq₀ (hid ▸ hrec)).imp_right (Or.imp_right ?_)
    rintro ⟨d', hd', hpool⟩
    refine ⟨d', Lists.mem_eraseIdx_of_ne hd hd' ?_, hpool⟩
    rintro rfl
    exact hp (hid.symm.trans hpool.symm)

lemma Closed.drainRecord (h : Closed s) {i : ℕ} {d : Drain} (hd : s.drains[i]? = some d) :
    Closed { s with
      registry := { s.registry.setRecord d.pool (.draining none false) with
        drainMode := Function.update s.registry.drainMode d.pool d.mode }
      drains := s.drains.set i { d with recorded := true } } := by
  intro q hq hrec
  obtain ⟨hlt, -⟩ := List.getElem?_eq_some_iff.mp hd
  by_cases hp : q.id = d.pool
  · exact .inr (.inr ⟨{ d with recorded := true }, mem_set hlt _, hp.symm⟩)
  · have hrec' : Recorded s q.id := by
      intro hidle
      exact hrec (by simpa [PoolRegistry.setRecord, Function.update_of_ne hp] using hidle)
    refine (h q hq hrec').imp_right (Or.imp_right ?_)
    rintro ⟨d', hd', hpool⟩
    refine ⟨d', Lists.mem_set_of_ne hd hd' ?_, hpool⟩
    rintro rfl
    exact hp hpool.symm

lemma recorded_of_update {p' : PoolId} {d : DrainState} (hd : d ≠ .idle → Recorded s p)
    (h : Function.update s.registry.drainState p d p' ≠ .idle) : Recorded s p' := by
  by_cases hp : p' = p
  · subst hp
    rw [Function.update_self] at h
    exact hd h
  · rwa [Function.update_of_ne hp] at h

/-- A tick that saw the pool draining sets it dead, if it sets anything, and no tick starts a
drain. -/
def TickSound (s : State) : Prop :=
  ∀ t ∈ s.tick, (t.saw = .draining → t.status = .dead) ∧ t.status ≠ .draining

lemma TickSound.tickPool {q : StoragePool} {due : Bool} {signal : PoolSignal}
    {verdict : TrendVerdict} {config : PoolHealthConfig} {tickSecs : ℕ} (h : TickSound s) :
    TickSound (s.tickPool q due signal verdict config tickSecs) := by
  unfold State.tickPool
  cases due with
  | false => exact h
  | true =>
    intro t ht
    simp only [if_true, mem_def] at ht
    split_ifs at ht with hchanged
    obtain rfl := some.inj ht
    refine ⟨fun hsaw => ?_, fun hnext => ?_⟩
    · have hentry : (s.entry q).status = .draining := by
        rw [State.entry, if_pos hsaw]
      rw [hentry] at hchanged ⊢
      exact (decideTransition_draining signal verdict config _ tickSecs).resolve_left hchanged
    · exact hchanged (hnext.trans (current_of_decideTransition hnext).symm)

lemma tickPool_registry {q : StoragePool} {due : Bool} {signal : PoolSignal}
    {verdict : TrendVerdict} {config : PoolHealthConfig} {tickSecs : ℕ} :
    (s.tickPool q due signal verdict config tickSecs).registry = s.registry ∧
      (s.tickPool q due signal verdict config tickSecs).drains = s.drains := by
  cases due <;> exact ⟨rfl, rfl⟩

lemma Closed.congr (h : Closed s) (hreg : s'.registry = s.registry)
    (hdrains : s'.drains = s.drains) : Closed s' := by
  intro q hq hrec
  rw [hreg] at hq
  rw [Recorded, hreg] at hrec
  rw [Beginning, hdrains]
  exact h q hq hrec

lemma Closed.beginDrain (h : Closed s) (d : Drain) :
    Closed { s with drains := s.drains ++ [d] } := by
  intro q hq hrec
  refine (h q hq hrec).imp_right (Or.imp_right ?_)
  rintro ⟨d', hd', hpool⟩
  exact ⟨d', mem_append_left _ hd', hpool⟩

lemma Closed.emptyRecord (h : Closed s) (p : PoolId) (empties : List PoolId) :
    Closed { s with
      registry :=
        if (s.registry.drainState p).isDraining then s.registry.setRecord p .detachable
        else s.registry
      empties := empties } := by
  intro q hq hrec
  unfold Recorded at hrec
  split_ifs at hq hrec with hdraining
  · refine h q hq (recorded_of_update (fun _ hidle => ?_) hrec)
    rw [hidle] at hdraining
    cases hdraining
  · exact h q hq hrec

lemma Closed.tickStatus_iff (h : Closed s) (ht : TickSound s) (hs : step s .tickStatus = some s') :
    Closed s' ↔ SparesDrains s .tickStatus := by
  obtain ⟨t, htick, hs⟩ := map_eq_some_iff.mp hs
  have hset : SetsStatus s.registry s'.registry t.pool t.status :=
    hs ▸ setsStatus_setStatus s.registry t.pool t.status
  rw [h.sets_iff hset (hs ▸ rfl)]
  obtain ⟨hsound, hdraining⟩ := ht t htick
  simp only [SparesDrains, htick, mem_def, some.injEq, forall_eq']
  constructor
  · intro hspare _ hdead
    exact hspare hdraining hdead
  · intro hspare _ hdead
    exact hspare (fun hsaw => hdead (hsound hsaw)) hdead

lemma Closed.resetStatus_iff (h : Closed s) {i free : ℕ}
    (hs : step s (.resetStatus i free) = some s') :
    Closed s' ↔ SparesDrains s (.resetStatus i free) := by
  obtain ⟨r, hr, hs⟩ := bind_eq_some_iff.mp hs
  split_ifs at hs
  have hs := some.inj hs
  have hset : SetsStatus s.registry s'.registry r.1 .healthy := hs ▸ setsStatus_revive s r.1 free
  rw [h.sets_iff hset (hs ▸ rfl)]
  simp [SparesDrains, hr]

lemma TickSound.step (ht : TickSound s) (hs : step s a = some s') : TickSound s' := by
  have hother : s'.tick = s.tick → TickSound s' := fun htick => by rwa [TickSound, htick]
  cases a with
  | tick p due signal verdict config tickSecs =>
    simp only [HealthMonitor.step] at hs
    split_ifs at hs
    obtain ⟨q, -, rfl⟩ := map_eq_some_iff.mp hs
    exact ht.tickPool
  | tickStatus =>
    obtain ⟨t, -, rfl⟩ := map_eq_some_iff.mp hs
    exact fun t ht => by cases ht
  | loss => exact hother (by rw [← some.inj hs]; rfl)
  | lossStatus | emptyRecord =>
    obtain ⟨_, -, rfl⟩ := map_eq_some_iff.mp hs
    exact hother rfl
  | beginDrain | drainRecord | drainStatus | emptyCheck | resetCheck | resetStatus | resetMirror
      | detachCheck | detachRemove | detachForget =>
    obtain ⟨_, -, hs⟩ := bind_eq_some_iff.mp hs
    split_ifs at hs
    obtain rfl := some.inj hs
    exact hother rfl

lemma Closed.step_iff (h : Closed s) (ht : TickSound s) (hs : step s a = some s') :
    Closed s' ↔ SparesDrains s a := by
  cases a with
  | tick p due signal verdict config tickSecs =>
    simp only [step] at hs
    split_ifs at hs
    obtain ⟨q, -, rfl⟩ := map_eq_some_iff.mp hs
    exact iff_of_true (h.congr tickPool_registry.1 tickPool_registry.2) trivial
  | tickStatus => exact h.tickStatus_iff ht hs
  | loss p => exact iff_of_true (h.congr (by rw [← some.inj hs]; rfl)
      (by rw [← some.inj hs]; rfl)) trivial
  | lossStatus i =>
    obtain ⟨p, -, hs⟩ := map_eq_some_iff.mp hs
    have hset : SetsStatus s.registry s'.registry p .dead :=
      hs ▸ setsStatus_setStatus s.registry p .dead
    exact iff_of_true ((h.sets_iff hset (hs ▸ rfl)).mpr fun _ hdead => absurd rfl hdead) trivial
  | emptyRecord i =>
    obtain ⟨p, -, rfl⟩ := map_eq_some_iff.mp hs
    exact iff_of_true (h.emptyRecord p _) trivial
  | resetStatus i free => exact h.resetStatus_iff hs
  | emptyCheck | resetCheck | resetMirror | detachCheck =>
    obtain ⟨d, hd, hs⟩ := bind_eq_some_iff.mp hs
    split_ifs at hs
    obtain rfl := some.inj hs
    exact iff_of_true h trivial
  | beginDrain p mode =>
    obtain ⟨d, hd, hs⟩ := bind_eq_some_iff.mp hs
    split_ifs at hs
    obtain rfl := some.inj hs
    exact iff_of_true (h.beginDrain _) trivial
  | drainRecord i =>
    obtain ⟨d, hd, hs⟩ := bind_eq_some_iff.mp hs
    split_ifs at hs
    obtain rfl := some.inj hs
    exact iff_of_true (h.drainRecord hd) trivial
  | drainStatus i =>
    obtain ⟨d, hd, hs⟩ := bind_eq_some_iff.mp hs
    split_ifs at hs
    obtain rfl := some.inj hs
    exact iff_of_true (h.drainStatus hd) trivial
  | detachRemove i =>
    obtain ⟨d, hd, hs⟩ := bind_eq_some_iff.mp hs
    split_ifs at hs
    obtain rfl := some.inj hs
    exact iff_of_true (fun q hq hrec => h q (mem_of_mem_filter hq) hrec) trivial
  | detachForget i =>
    obtain ⟨d, hd, hs⟩ := bind_eq_some_iff.mp hs
    split_ifs at hs
    obtain rfl := some.inj hs
    refine iff_of_true (fun q hq hrec => ?_) trivial
    exact h q hq (recorded_of_update (fun hidle => absurd rfl hidle) hrec)

lemma Closed.takesNoWrites (h : Closed s) : TakesNoWrites s := by
  intro hnone
  have hclosed : ∀ q ∈ s.registry.pools, Recorded s q.id →
      q.status = .draining ∨ q.status = .dead := by
    intro q hq hrec
    refine (h q hq hrec).imp_right fun hst => hst.resolve_right ?_
    rintro ⟨d, hd, -⟩
    rw [hnone] at hd
    cases hd
  refine ⟨hclosed, fun q hq hrec => ?_⟩
  obtain ⟨q', hq', hid, hhealthy⟩ := PoolRegistry.selectFromPools_healthy hq
  rcases hclosed q' hq' (hid.symm ▸ hrec) with hst | hst <;> rw [hhealthy] at hst <;> cases hst

/-- **When draining pools take no writes**: in every run of ticks, losses, drains, emptied pools,
resets and detaches from a state with no tick under way. Pool by pool the condition is exact; while
no drain begins at all it keeps every pool closed, and placement away from them. -/
theorem drains_spared_iff (h : Closed s) (htick : s.tick = none) (as : List Act) :
    (Runs.Always step Closed s as ↔ Runs.Guarded step SparesDrains s as) ∧
      (Runs.Guarded step SparesDrains s as → Runs.Always step TakesNoWrites s as) := by
  have hinit : Closed s ∧ TickSound s := ⟨h, by simp [TickSound, htick]⟩
  have hstep : ∀ s a s', Closed s ∧ TickSound s → step s a = some s' →
      (Closed s' → SparesDrains s a) ∧ (SparesDrains s a → Closed s' ∧ TickSound s') := by
    rintro s a s' ⟨hclosed, hsound⟩ hs
    have hiff := hclosed.step_iff hsound hs
    exact ⟨hiff.mp, fun hspares => ⟨hiff.mpr hspares, hsound.step hs⟩⟩
  refine ⟨Runs.always_iff_guarded_of_inv (fun _ hinv => hinv.1) hstep hinit, fun hspares => ?_⟩
  exact Runs.always_of_guarded (fun s a s' hinv hspares hs => (hstep s a s' hinv hs).2 hspares)
    (fun _ hinv => hinv.1.takesNoWrites) hinit hspares

end

/-! ### A tick and a reset -/

instance (s : State) (a : Act) : Decidable (SparesDrains s a) := by
  cases a <;> unfold SparesDrains <;> infer_instance

instance : DecidablePred TakesNoWrites := fun _ =>
  inferInstanceAs (Decidable (_ → (∀ q ∈ _, _) ∧ ∀ q ∈ _, _))

/-- Two healthy data pools with room. -/
def twoPools : State where
  registry := {
    pools := [⟨0, .data, 1, .healthy, false, 2 ^ 30⟩, ⟨1, .data, 1, .healthy, false, 2 ^ 20⟩]
    ids_nodup := by decide
    drainState := fun _ => .idle
    drainMode := fun _ => .intraNode }
  mirror := fun _ => none
  tick := none
  losses := []
  drains := []
  empties := []
  resets := []
  detaches := []

lemma closed_twoPools : Closed twoPools := fun _ _ hrec => (hrec rfl).elim

def spiking : PoolSignal := ⟨1, 10, [], [], 0, 0, 0⟩
def lossy : PoolSignal := ⟨1, 10, [], [], 1, 0, 0⟩
def thresholds : PoolHealthConfig := ⟨1 / 2, 5, 10, 60⟩

/-- The pool drains, errors do not change its status, and it is detached. -/
theorem drain_with_errors_closed :
    Runs.Always step TakesNoWrites twoPools
      [.beginDrain 0 .intraNode, .drainRecord 0, .drainStatus 0,
        .tick 0 true spiking .degrading thresholds 1, .emptyCheck 0, .emptyRecord 0,
        .detachCheck 0, .detachRemove 0, .detachForget 0] :=
  (drains_spared_iff closed_twoPools rfl _).2 (by decide +kernel)

/-- The draining pool dies and is reset: it is healthy, its record is open, and placement selects
it. And a tick decides that the pool is degraded, the pool begins to drain, and the tick sets its
status. -/
theorem reset_refills_draining_pool :
    ¬ Runs.Always step TakesNoWrites twoPools
        [.beginDrain 0 .intraNode, .drainRecord 0, .drainStatus 0,
          .tick 0 true lossy .stable thresholds 1, .tickStatus, .resetCheck 0,
          .resetStatus 0 (2 ^ 30), .resetMirror 0] ∧
      ((Runs.run step twoPools
        [.beginDrain 0 .intraNode, .drainRecord 0, .drainStatus 0,
          .tick 0 true lossy .stable thresholds 1, .tickStatus, .resetCheck 0,
          .resetStatus 0 (2 ^ 30), .resetMirror 0]).bind fun s =>
        (selectFromPools s.registry.dataPools).map fun q =>
          (s.drains, q.id, s.registry.drainState q.id)) =
        some ([], 0, .draining none false) ∧
      ¬ Runs.Always step TakesNoWrites twoPools
        [.tick 0 true spiking .stable thresholds 1, .beginDrain 0 .intraNode, .drainRecord 0,
          .drainStatus 0, .tickStatus] := by
  decide +kernel

end HealthMonitor

end OceanFs.Pool
