import OceanFs.Lib.Runs
import OceanFs.Segment.EventWal

/-!
The lifecycle coordinator: requests that are validated, logged and folded into the registry.

A request looks at the registry, appends its event to the log, folds the transition into the
registry and then stores the position of its event. Each of these is a step of its own, and the
steps of different requests interleave. A checkpoint reads the stored position, later takes a
snapshot of the registry, and then truncates the log.
-/

namespace OceanFs.Segment

open OceanFs.Core Option

inductive Request
  | reserve (id : SegmentId) (tier : SizeTier) (ecK ecM : UInt8)
  | sealWith (id : SegmentId) (metadata : SegmentMetadata) (repackedFrom : Option SegmentId)
      (contained : Option (List ContainedObject))
  | delete (id : SegmentId)
  | refresh (id : SegmentId) (merkleRoot : Option HashOutput) (locations : Option (List NodeId))
      (poolId : Option PoolId)
  deriving DecidableEq

inductive RequestError
  | transition (e : TransitionError)
  | durableWriteFailed
  deriving DecidableEq

/-! ### Validation -/

def validateReserve (now : ℕ) : Option LifecycleEntry → Except TransitionError Unit
  | none => .ok ()
  | some e =>
    match e.state with
    | .reserved => .ok ()
    | .sealed => .error .alreadySealed
    | .deleted evictAt => if evictAt ≤ now then .ok () else .error .alreadyDeleted

def validateSeal (now : ℕ) : Option LifecycleEntry → Except TransitionError Unit
  | none => .error .missing
  | some e =>
    match e.state with
    | .reserved => .ok ()
    | .sealed => .error .alreadySealed
    | .deleted evictAt => .error (if evictAt ≤ now then .missing else .notReserved)

/-- An entry past its grace passes, other than in the fold. -/
def validateDelete (now : ℕ) : Option LifecycleEntry → Except TransitionError Unit
  | none => .error .missing
  | some e =>
    match e.state with
    | .deleted evictAt => if evictAt ≤ now then .ok () else .error .alreadyDeleted
    | _ => .ok ()

/-- The check of `request_refresh_metadata`, on what `get` returns. -/
def validateRefresh : Option LifecycleEntry → Except TransitionError Unit
  | none => .error .missing
  | some e =>
    match e.state with
    | .reserved => .error .notReserved
    | .sealed => .ok ()
    | .deleted _ => .error .alreadyDeleted

/-- A repack keeps the storage shape of its source, where the registry has the source. -/
def sameShape (now : ℕ) (r : Registry) (m : SegmentMetadata) (repackedFrom : Option SegmentId) :
    Bool :=
  match repackedFrom.bind (r.get now) with
  | none => true
  | some old => old.metadata.sizeTier = m.sizeTier ∧ old.metadata.ecK = m.ecK ∧
      old.metadata.ecM = m.ecM

namespace Request

def segmentId : Request → SegmentId
  | .reserve id _ _ _ => id
  | .sealWith id _ _ _ => id
  | .delete id => id
  | .refresh id _ _ _ => id

def validate (now : ℕ) (r : Registry) : Request → Except RequestError Unit
  | .reserve id _ _ _ => (validateReserve now (r.lookup id)).mapError .transition
  | .sealWith id m repackedFrom _ => do
    (validateSeal now (r.lookup id)).mapError .transition
    if !sameShape now r m repackedFrom then .error .durableWriteFailed
    else if m.merkleRoot = none then .error .durableWriteFailed
    else .ok ()
  | .delete id => (validateDelete now (r.lookup id)).mapError .transition
  | .refresh id _ _ _ => (validateRefresh (r.get now id)).mapError .transition

/-- The event that a request logs; a seal carries the data WAL position recorded so far, and
cannot be logged without a root. -/
def event (r : Registry) : Request → Option SegmentEvent
  | .reserve id tier ecK ecM => some (.reserve ⟨id, tier, ecK, ecM⟩)
  | .sealWith id m repackedFrom contained => m.merkleRoot.map fun root =>
      .seal ⟨id, m.sizeTier, m.ecK, m.ecM, root,
        ((r.lookup id).bind (·.dataWalPos)).getD (toLex (0, 0)), m.totalBytes, repackedFrom,
        m.poolId, contained⟩
  | .delete id => some (.delete id)
  | .refresh id merkleRoot locations poolId =>
      some (.metadataRefresh ⟨id, merkleRoot, locations, poolId⟩)

/-- The fold of a request, which has the metadata of its caller. -/
def apply (grace now : ℕ) : Request → Transition
  | .reserve id tier ecK ecM => reserveEntry (reservedMetadata id tier ecK ecM)
  | .sealWith _ m repackedFrom contained => sealEntry m repackedFrom contained
  | .delete _ => deleteEntry grace now
  | .refresh _ merkleRoot locations poolId => refreshEntry merkleRoot locations poolId

end Request

/-! ### The machine -/

/-- How far a request is, with the position of its event in the log. -/
inductive Phase
  | validated
  | appended (pos : ℕ)
  | folded (pos : ℕ)
  deriving DecidableEq

structure Task where
  request : Request
  event : SegmentEvent
  phase : Phase
  deriving DecidableEq

/-- The position of an event that is logged and not folded yet. -/
def Task.unfolded (t : Task) : Option ℕ :=
  match t.phase with
  | .appended pos => some pos
  | _ => none

/-- The position of an event that is folded and whose position is still to be stored. -/
def Task.landed (t : Task) : Option ℕ :=
  match t.phase with
  | .folded pos => some pos
  | _ => none

/-- A checkpoint: the position it covers, the registry it was taken of, and the positions of the
events whose folds had run by then. -/
structure CheckpointFile where
  covered : ℕ
  registry : Registry
  folded : List ℕ

/-- The coordinator. `folded` has the positions of the events whose folds have run, landed or
rejected, and `truncated` how much of the front of the log is gone. -/
structure Coordinator where
  registry : Registry
  log : List SegmentEvent
  tasks : List Task
  lastFolded : ℕ
  folded : List ℕ
  upTo : Option ℕ
  checkpoints : List CheckpointFile
  truncated : ℕ

namespace Coordinator

def initial : Coordinator := ⟨∅, [], [], 0, [], none, [], 0⟩

inductive Act
  | request (now : ℕ) (req : Request)
  | append (now i : ℕ)
  /-- The append failed before its record was written. -/
  | abandon (i : ℕ)
  /-- The append failed after its record was written, or its caller is gone. -/
  | lose (i : ℕ)
  | fold (now i : ℕ)
  | store (i : ℕ)
  /-- A writer records the position of a data WAL entry. -/
  | recordPos (id : SegmentId) (pos : DataWalPos)
  | loadCovered
  | snapshot
  /-- Removes files of the log that the last checkpoint covers. -/
  | truncate (count : ℕ)
  deriving DecidableEq

/-- The fold of a request in the registry; a rejected one leaves no trace. -/
def foldRequest (grace now : ℕ) (req : Request) (r : Registry) : Registry :=
  r.requested (r.transition now req.segmentId (req.apply grace now))

def step (grace : ℕ) (s : Coordinator) : Act → Option Coordinator
  | .request now req =>
    match req.validate now s.registry, req.event s.registry with
    | .ok _, some evt => some { s with tasks := s.tasks ++ [⟨req, evt, .validated⟩] }
    | _, _ => none
  | .append _ i =>
    match s.tasks[i]? with
    | some ⟨req, evt, .validated⟩ => some { s with
        log := s.log ++ [evt]
        tasks := s.tasks.set i ⟨req, evt, .appended s.log.length⟩ }
    | _ => none
  | .abandon i =>
    match s.tasks[i]? with
    | some ⟨_, _, .validated⟩ => some { s with tasks := s.tasks.eraseIdx i }
    | _ => none
  | .lose i =>
    match s.tasks[i]? with
    | some ⟨_, _, .appended _⟩ => some { s with tasks := s.tasks.eraseIdx i }
    | _ => none
  | .fold now i =>
    match s.tasks[i]? with
    | some ⟨req, evt, .appended pos⟩ => some { s with
        registry := foldRequest grace now req s.registry
        folded := pos :: s.folded
        tasks := match s.registry.transition now req.segmentId (req.apply grace now) with
          | .ok _ => s.tasks.set i ⟨req, evt, .folded pos⟩
          | .error _ => s.tasks.eraseIdx i }
    | _ => none
  | .store i =>
    match s.tasks[i]? with
    | some ⟨_, _, .folded pos⟩ => some { s with lastFolded := pos, tasks := s.tasks.eraseIdx i }
    | _ => none
  | .recordPos id pos => some { s with registry := s.registry.recordDataWalPos id pos }
  | .loadCovered =>
    match s.upTo with
    | none => some { s with upTo := some s.lastFolded }
    | some _ => none
  | .snapshot =>
    match s.upTo with
    | some covered => some { s with
        checkpoints := ⟨covered, s.registry, s.folded⟩ :: s.checkpoints
        upTo := none }
    | none => none
  | .truncate count =>
    match s.checkpoints with
    | c :: _ =>
      if count ≤ c.covered then some { s with truncated := max s.truncated count } else none
    | [] => none

/-! ### What the steps do -/

variable {grace : ℕ} {s s' : Coordinator}

lemma step_request {now : ℕ} {req : Request} (h : step grace s (.request now req) = some s') :
    ∃ evt, req.validate now s.registry = .ok () ∧ req.event s.registry = some evt ∧
      s' = { s with tasks := s.tasks ++ [⟨req, evt, .validated⟩] } := by
  simp only [step] at h
  split at h
  · rename_i hv he
    exact ⟨_, hv, he, (some.inj h).symm⟩
  · simp at h

lemma step_append {now i : ℕ} (h : step grace s (.append now i) = some s') :
    ∃ req evt, s.tasks[i]? = some ⟨req, evt, .validated⟩ ∧
      s' = { s with
        log := s.log ++ [evt]
        tasks := s.tasks.set i ⟨req, evt, .appended s.log.length⟩ } := by
  simp only [step] at h
  split at h
  · rename_i ht
    exact ⟨_, _, ht, (some.inj h).symm⟩
  · simp at h

lemma step_abandon {i : ℕ} (h : step grace s (.abandon i) = some s') :
    ∃ req evt, s.tasks[i]? = some ⟨req, evt, .validated⟩ ∧
      s' = { s with tasks := s.tasks.eraseIdx i } := by
  simp only [step] at h
  split at h
  · rename_i ht
    exact ⟨_, _, ht, (some.inj h).symm⟩
  · simp at h

lemma step_fold {now i : ℕ} (h : step grace s (.fold now i) = some s') :
    ∃ req evt pos tasks, s.tasks[i]? = some ⟨req, evt, .appended pos⟩ ∧
      (tasks = s.tasks.set i ⟨req, evt, .folded pos⟩ ∨ tasks = s.tasks.eraseIdx i) ∧
      s' = { s with
        registry := foldRequest grace now req s.registry
        folded := pos :: s.folded
        tasks := tasks } := by
  simp only [step] at h
  split at h
  · rename_i ht
    refine ⟨_, _, _, _, ht, ?_, (some.inj h).symm⟩
    split
    · exact .inl rfl
    · exact .inr rfl
  · simp at h

lemma step_store {i : ℕ} (h : step grace s (.store i) = some s') :
    ∃ req evt pos, s.tasks[i]? = some ⟨req, evt, .folded pos⟩ ∧
      s' = { s with lastFolded := pos, tasks := s.tasks.eraseIdx i } := by
  simp only [step] at h
  split at h
  · rename_i ht
    exact ⟨_, _, _, ht, (some.inj h).symm⟩
  · simp at h

lemma step_loadCovered (h : step grace s .loadCovered = some s') :
    s' = { s with upTo := some s.lastFolded } := by
  simp only [step] at h
  split at h
  · exact (some.inj h).symm
  · simp at h

lemma step_snapshot (h : step grace s .snapshot = some s') :
    ∃ covered, s.upTo = some covered ∧ s' = { s with
      checkpoints := ⟨covered, s.registry, s.folded⟩ :: s.checkpoints
      upTo := none } := by
  simp only [step] at h
  split at h
  · rename_i hu
    exact ⟨_, hu, (some.inj h).symm⟩
  · simp at h

lemma step_truncate {count : ℕ} (h : step grace s (.truncate count) = some s') :
    ∃ c rest, s.checkpoints = c :: rest ∧ count ≤ c.covered ∧
      s' = { s with truncated := max s.truncated count } := by
  simp only [step] at h
  split at h
  · rename_i hc
    split_ifs at h with hle
    exact ⟨_, _, hc, hle, (some.inj h).symm⟩
  · simp at h

end Coordinator

end OceanFs.Segment
