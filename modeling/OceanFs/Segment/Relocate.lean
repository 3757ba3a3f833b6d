import OceanFs.Lib.Runs
import OceanFs.Segment.DatFile
import OceanFs.Segment.EntryFold

/-!
Relocations of a segment between data pools, its deletion, crashes, and the sweep at boot.

A relocation reads the entry, waits for the lock of the segment, copies the data to the target,
makes the new pool id durable in the event log, folds it into the registry, purges the readers'
caches and unlinks the file on the source. The source is the pool that it read before it had the
lock. A deletion makes its event durable, folds it and unlinks the file on a pool that it read at
some time before; it takes no lock. Either can end at any step. A crash keeps the event log and the
files, but the directories are never synced, so a power loss may take back their last changes. The
boot that follows folds the log and removes, pool by pool, the files that the registry does not
place there.

The event log is cut down to this segment and starts from a registry in which it is sealed.
-/

namespace OceanFs.Segment.Relocate

open OceanFs.Core

structure Config where
  blake3 : Bytes → HashOutput
  /-- Whether files are written with O_DIRECT. -/
  direct : Bool
  id : SegmentId
  grace : ℕ
  /-- The registered data pools; each has a root of its own. -/
  pools : List PoolId
  /-- The registry that the events of the log are folded into. -/
  base : Registry

/-! ### The state -/

/-- What a relocation read before it waited for the lock. -/
structure Relocation where
  source : PoolId
  target : PoolId
  merkleRoot : Option HashOutput
  deriving DecidableEq

/-- The part of a relocation that comes next; `check`, `append` and `fold` are the request that
commits the pool id. -/
inductive Stage
  | copy
  | check
  | append
  | fold
  | purge
  | unlink
  deriving DecidableEq

inductive DeleteStage
  | check
  | append
  | fold
  | unlink
  deriving DecidableEq

/-- A deletion, with the pool whose file it will unlink. -/
structure Deletion where
  pool : PoolId
  stage : DeleteStage
  deriving DecidableEq

structure State (cfg : Config) where
  files : PoolId → Option (DatFile cfg.blake3)
  /-- What was on a pool before each change of its directory that is not on disk yet, the last
  change first. -/
  undone : PoolId → List (Option (DatFile cfg.blake3))
  entries : Registry
  /-- The durable events. -/
  log : List SegmentEvent
  waiting : List Relocation
  /-- The relocation that holds the lock. -/
  holder : Option (Relocation × Stage)
  deletions : List Deletion
  /-- The pools that the sweep at boot has still to look at. -/
  sweeping : Option (List PoolId)

variable {cfg : Config}

namespace State

/-! ### Relocations -/

def refreshEvent (cfg : Config) (r : Relocation) : SegmentEvent :=
  .metadataRefresh ⟨cfg.id, r.merkleRoot, none, some r.target⟩

variable (s : State cfg)

/-- The checks of `relocate` before the lock. -/
def validate (now : ℕ) (target : PoolId) : Option Relocation :=
  if target ∉ cfg.pools then none
  else match s.entries.get now cfg.id with
    | none => none
    | some e =>
      if e.state ≠ .sealed ∨ e.metadata.poolId = target then none
      else some ⟨e.metadata.poolId, target, e.metadata.merkleRoot⟩

/-- The file of `read_segment_data`, by the pool that the registry has now. -/
def sourceFile (now : ℕ) : Option (DatFile cfg.blake3) :=
  (s.entries.get now cfg.id).bind fun e =>
    if e.metadata.poolId ∈ cfg.pools then s.files e.metadata.poolId else none

/-- A link, a rename or an unlink. The file that is linked has been synced, its directory is
not. -/
def setFile (p : PoolId) (o : Option (DatFile cfg.blake3)) : State cfg :=
  { s with
    files := Function.update s.files p o
    undone := Function.update s.undone p (s.files p :: s.undone p) }

def holding (h : Option (Relocation × Stage)) : State cfg := { s with holder := h }

/-- One step of the relocation that holds the lock. A step that fails ends it. -/
def relocateStep (now : ℕ) (r : Relocation) : Stage → State cfg
  | .copy =>
    match s.sourceFile now with
    | none => s.holding none
    | some f =>
      if h : f.data.length < 2 ^ 32 then
        (s.setFile r.target (some (v1File cfg.blake3 cfg.direct f.data h))).holding
          (some (r, .check))
      else s.holding none
  | .check =>
    match validateRefresh (s.entries.get now cfg.id) with
    | .ok () => s.holding (some (r, .append))
    | .error _ => s.holding none
  | .append => { s with log := s.log ++ [refreshEvent cfg r], holder := some (r, .fold) }
  | .fold =>
    match s.entries.transition now cfg.id (refreshEntry r.merkleRoot none (some r.target)) with
    | .ok entries => { s with entries := entries, holder := some (r, .purge) }
    | .error _ => s.holding none
  | .purge => s.holding (some (r, .unlink))
  | .unlink =>
    if r.source ∈ cfg.pools then (s.setFile r.source none).holding none else s.holding none

/-! ### Deletions -/

/-- One step of a deletion. The deletion of what is deleted already goes on to the unlink. -/
def deleteStep (now i : ℕ) (d : Deletion) : State cfg :=
  match d.stage with
  | .check =>
    match validateDelete now (s.entries.lookup cfg.id) with
    | .ok () => { s with deletions := s.deletions.set i { d with stage := .append } }
    | .error _ => { s with deletions := s.deletions.set i { d with stage := .unlink } }
  | .append =>
    { s with
      log := s.log ++ [.delete cfg.id]
      deletions := s.deletions.set i { d with stage := .fold } }
  | .fold =>
    { s with
      entries := s.entries.requested (s.entries.transition now cfg.id (deleteEntry cfg.grace now))
      deletions := s.deletions.set i { d with stage := .unlink } }
  | .unlink =>
    let unlinked := if d.pool ∈ cfg.pools then s.setFile d.pool none else s
    { unlinked with deletions := s.deletions.eraseIdx i }

/-! ### Boot -/

/-- `is_startup_residue`. -/
def isStartupResidue (state : Option SegmentState) (authoritative found : PoolId) : Bool :=
  match state with
  | none => true
  | some (.deleted _) => true
  | some .sealed => authoritative ≠ found
  | some .reserved => false

/-- What a pool's directory has, and may have after a power loss. -/
def mayHave (p : PoolId) : List (Option (DatFile cfg.blake3)) :=
  s.files p :: s.undone p

/-- The pool when the last `n` changes of its directory are lost, or all that are not on disk. -/
def left (n : ℕ) (p : PoolId) : Option (DatFile cfg.blake3) :=
  (s.mayHave p).getD (min n (s.undone p).length) none

/-- What the files and the event log make of the node when it starts again; the last `lost p`
changes of the directory of a pool `p` are lost. -/
def restart (now : ℕ) (lost : PoolId → ℕ) : Option (State cfg) :=
  match rebuildFromEvents cfg.grace (s.log.map (now, ·)) .clean cfg.base with
  | .ok entries => some { s with
      files := fun p => s.left (lost p) p
      undone := fun _ => []
      entries := entries
      waiting := []
      holder := none
      deletions := []
      sweeping := some cfg.pools }
  | .error _ => none

/-- The sweep of one pool. -/
def sweepPool (now : ℕ) (p : PoolId) : State cfg :=
  let entry := s.entries.get now cfg.id
  if isStartupResidue (entry.map (·.state)) (entry.elim 0 (·.metadata.poolId)) p then
    s.setFile p none
  else s

end State

/-! ### The machine -/

inductive Act
  | relocate (now : ℕ) (target : PoolId)
  | lock (i : ℕ)
  | relocateStep (now : ℕ)
  /-- The relocation ends before its next step. An append that fails may have reached the log. -/
  | relocateEnd (logged : Bool)
  | delete (pool : PoolId)
  | deleteStep (now i : ℕ)
  | deleteEnd (i : ℕ) (logged : Bool)
  /-- The changes of the pool's directory reach the disk. -/
  | writeback (p : PoolId)
  | crash (now : ℕ) (lost : PoolId → ℕ)
  | sweep (now : ℕ)
  /-- The sweep is over and the node serves. -/
  | serve

/-- The steps of a node that serves. -/
def serving (s : State cfg) : Act → Option (State cfg)
  | .relocate now target =>
    (s.validate now target).map fun r => { s with waiting := s.waiting ++ [r] }
  | .lock i =>
    if s.holder.isNone then
      s.waiting[i]?.map fun r =>
        { s with holder := some (r, .copy), waiting := s.waiting.eraseIdx i }
    else none
  | .relocateStep now => s.holder.map fun h => s.relocateStep now h.1 h.2
  | .relocateEnd logged => s.holder.map fun h =>
    { s with
      log := if logged ∧ h.2 = .append then s.log ++ [State.refreshEvent cfg h.1] else s.log
      holder := none }
  | .delete pool => some { s with deletions := s.deletions ++ [⟨pool, .check⟩] }
  | .deleteStep now i => s.deletions[i]?.map fun d => s.deleteStep now i d
  | .deleteEnd i logged => s.deletions[i]?.map fun d =>
    { s with
      log := if logged ∧ d.stage = .append then s.log ++ [.delete cfg.id] else s.log
      deletions := s.deletions.eraseIdx i }
  | .writeback _ | .crash _ _ | .sweep _ | .serve => none

def step (s : State cfg) : Act → Option (State cfg)
  | .writeback p => some { s with undone := Function.update s.undone p [] }
  | .crash now lost => s.restart now lost
  | .sweep now =>
    match s.sweeping with
    | some (p :: rest) => some { s.sweepPool now p with sweeping := some rest }
    | _ => none
  | .serve => if s.sweeping = some [] then some { s with sweeping := none } else none
  | a => if s.sweeping.isNone then serving s a else none

end OceanFs.Segment.Relocate
