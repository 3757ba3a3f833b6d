import Mathlib.Data.List.Nodup
import OceanFs.Core.Types
import OceanFs.Lib.Lists

/-!
The storage pools of a node: the drain record of each pool, and the choice of a pool for a
segment.

A pool that drains keeps its status until it is detached; the record beside it says whether
the drain is still at work or has found the pool empty. New segments go to healthy pools.
-/

namespace OceanFs.Pool

open OceanFs.Core

inductive PoolRole
  | data
  | wal
  | metadata
  | hints
  deriving DecidableEq

inductive PoolStatus
  | healthy
  | degraded
  | dead
  | draining
  deriving DecidableEq

/-- Which mover a draining pool belongs to. -/
inductive DrainMode
  | intraNode
  | cluster
  deriving DecidableEq

inductive RelocateError
  | targetPoolMissing (poolId : PoolId)
  | targetNotDataRole (poolId : PoolId)
  | samePool (segmentId : SegmentId) (poolId : PoolId)
  | notSealed (segmentId : SegmentId)
  | notHeldLocally (segmentId : SegmentId)
  | sourceFileMissing (segmentId : SegmentId)
  | commit (segmentId : SegmentId)
  | store (segmentId : SegmentId)
  deriving DecidableEq

inductive DrainDispatchError
  | noEligibleTarget
  | noAddress (target : NodeId)
  | channel (target : NodeId)
  | notDurable (target : NodeId)
  | rpc (target : NodeId)
  | timedOut (target : NodeId)
  deriving DecidableEq

/-- Why a drain is parked. -/
inductive BlockedReason
  | noSiblingCapacity (segmentId : SegmentId) (totalBytes : ℕ)
  | relocating (segmentId : SegmentId) (err : RelocateError)
  | noClusterTarget (segmentId : SegmentId)
  | dispatching (segmentId : SegmentId) (err : DrainDispatchError)
  deriving DecidableEq

inductive DrainState
  | idle
  | draining (blockedReason : Option BlockedReason) (paused : Bool)
  | detachable
  deriving DecidableEq

namespace DrainState

def isDraining : DrainState → Bool
  | .draining _ _ => true
  | _ => false

end DrainState

structure StoragePool where
  id : PoolId
  role : PoolRole
  weight : ℕ
  status : PoolStatus
  writeDegraded : Bool
  freeBytes : ℕ
  deriving DecidableEq

/-- `PoolRegistry`. A pool without a record in the drain map is idle, and a drain without a mode
belongs to the mover inside the node. -/
structure PoolRegistry where
  pools : List StoragePool
  ids_nodup : (pools.map (·.id)).Nodup
  drainState : PoolId → DrainState
  drainMode : PoolId → DrainMode

inductive DrainStateError
  | unknownPool (poolId : PoolId)
  | notDataPool (poolId : PoolId)
  | deadPool (poolId : PoolId)
  | alreadyDraining (poolId : PoolId)
  | notDraining (poolId : PoolId)
  deriving DecidableEq

namespace PoolRegistry

variable (r : PoolRegistry)

def poolById (p : PoolId) : Option StoragePool :=
  r.pools.find? (·.id = p)

def dataPools : List StoragePool :=
  r.pools.filter (·.role = .data)

/-! ### Changes of the registry -/

/-- Changes pools in place; their identities stay. -/
def mapPools (f : StoragePool → StoragePool) (hf : ∀ q, (f q).id = q.id) :
    PoolRegistry where
  pools := r.pools.map f
  ids_nodup := by
    have hids : (r.pools.map f).map (·.id) = r.pools.map (·.id) := by simp [hf]
    exact hids ▸ r.ids_nodup
  drainState := r.drainState
  drainMode := r.drainMode

def setStatus (p : PoolId) (status : PoolStatus) : PoolRegistry :=
  r.mapPools (fun q => if q.id = p then { q with status := status } else q)
    (fun q => by split <;> rfl)

def setRecord (p : PoolId) (d : DrainState) : PoolRegistry :=
  { r with drainState := Function.update r.drainState p d }

/-- `begin_drain_with_mode`. -/
def beginDrain (p : PoolId) (mode : DrainMode) :
    Except DrainStateError PoolRegistry :=
  match r.poolById p with
  | none => .error (.unknownPool p)
  | some q =>
    if q.role ≠ .data then .error (.notDataPool p)
    else match q.status with
      | .dead => .error (.deadPool p)
      | .draining => .error (.alreadyDraining p)
      | .healthy | .degraded =>
        .ok ({ r.setRecord p (.draining none false) with
          drainMode := Function.update r.drainMode p mode }.setStatus p .draining)

end PoolRegistry

/-! ### Placement -/

/-- `MIN_FREE_HEADROOM_BYTES`: 64 MiB. -/
def minFreeHeadroomBytes : ℕ := 64 * 1024 * 1024

/-- Whether a pool beats the best one so far: more free space for its weight, and the smaller
identifier on equal scores. -/
def beats (q best : StoragePool) : Bool :=
  let score (q : StoragePool) := q.freeBytes / max q.weight 1
  score q > score best || (score q == score best && q.id < best.id)

def bestWeightedLeastFree (pools : List StoragePool) : Option StoragePool :=
  pools.foldl (fun best q =>
    match best with
    | none => some q
    | some b => if beats q b then some q else some b) none

def selectFromPools (pools : List StoragePool) : Option StoragePool :=
  bestWeightedLeastFree (pools.filter fun q =>
    q.status = .healthy && !q.writeDegraded && minFreeHeadroomBytes < q.freeBytes)

lemma bestWeightedLeastFree_mem {pools : List StoragePool} {q : StoragePool}
    (h : bestWeightedLeastFree pools = some q) : q ∈ pools := by
  refine Lib.Lists.mem_of_foldl_select (fun best q => ?_) h
  split
  · exact .inr rfl
  · split
    · exact .inr rfl
    · exact .inl rfl

/-! ### Healthy pools -/

namespace PoolRegistry

variable {r r' : PoolRegistry} {p p' : PoolId} {q : StoragePool}

/-- A registered pool that takes new segments as far as its status goes. -/
def Healthy (r : PoolRegistry) (p : PoolId) : Prop :=
  ∃ q ∈ r.pools, q.id = p ∧ q.status = .healthy

lemma selectFromPools_healthy (h : selectFromPools r.dataPools = some q) : r.Healthy q.id := by
  have hmem := bestWeightedLeastFree_mem h
  simp only [List.mem_filter, dataPools, Bool.and_eq_true, decide_eq_true_eq] at hmem
  exact ⟨q, hmem.1.1, rfl, hmem.2.1.1⟩

end PoolRegistry

end OceanFs.Pool
