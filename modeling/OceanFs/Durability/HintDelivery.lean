import Mathlib.Logic.Function.Basic
import OceanFs.Durability.HintWal
import OceanFs.Lib.Runs

/-!
The hints that a node keeps for one target: enqueue, delivery, pruning, crashes.

A hint is appended to the target's WAL file and queued in memory. A delivery takes a batch off
the queue, sends it without any lock, and then rewrites the file from what its replay finds
behind the batch and from the hints that the receiver wants again. Enqueues and rewrites hold
the lock of the queue; a prune holds it only where it rebuilds the queue. Every step here makes
at most one operation on the file, so a crash falls between any two of them, and a file is a
list of whole frames.

A file stays where it is for the handles that are open on it when its name is removed: names and
files are kept apart, and a handle has a position of its own.
-/

namespace OceanFs.Durability.Delivery

open OceanFs.Core Durability

/-! ### Hints -/

inductive Body
  | inline (data : Bytes)
  | segmentRef
  | delete
  deriving DecidableEq

/-- A hint record. The number tells apart hints of equal contents; it is not in the file. -/
structure Hint where
  id : ℕ
  body : Body
  storedAtSecs : ℕ
  attempts : ℕ
  deriving DecidableEq

/-- The settings, and the length of a record's frame. -/
structure Config where
  maxBatchSize : ℕ
  maxBatchBytes : ℕ
  maxDeliveryAttempts : ℕ
  frameLen : Hint → ℕ

def recordPayloadBytes (r : Hint) : ℕ :=
  match r.body with
  | .inline data => data.length + 128
  | .segmentRef => 256
  | .delete => 128

abbrev Queued := Replayed Hint

/-- The loop of `drain_and_deliver` over the queue: how many hints are taken. -/
def batchSize (cfg : Config) : ℕ → ℕ → List Queued → ℕ
  | n, _, [] => n
  | n, bytes, item :: items =>
    if cfg.maxBatchSize ≤ n then n
    else
      let payload := recordPayloadBytes item.record
      if cfg.maxBatchBytes < bytes + payload then n
      else batchSize cfg (n + 1) (bytes + payload) items

/-- What a delivery does when it has its answer. -/
structure Answer where
  drainedEnd : ℕ
  requeue : List Hint
  givenUp : List Hint
  deriving DecidableEq

/-- `saturating_add` on a `u32`. -/
def nextAttempts (r : Hint) : ℕ :=
  min (r.attempts + 1) (2 ^ 32 - 1)

def acceptedOf (retry : List ℕ) (batch : List Queued) : List Hint :=
  (batch.zipIdx.filter (·.2 ∉ retry)).map (·.1.record)

def retriedOf (retry : List ℕ) (batch : List Queued) : List Hint :=
  (batch.zipIdx.filter (·.2 ∈ retry)).map (·.1.record)

def answerOf (cfg : Config) (retry : List ℕ) (batch : List Queued) : Answer where
  drainedEnd := (batch.getLast?.map Replayed.stop).getD 0
  requeue := ((retriedOf retry batch).filter (nextAttempts · ≤ cfg.maxDeliveryAttempts)).map
    fun r => { r with attempts := nextAttempts r }
  givenUp := (retriedOf retry batch).filter (cfg.maxDeliveryAttempts < nextAttempts ·)

/-- The test of `prune_expired`; a record without a time is kept. -/
def expired (now ttl : ℕ) (r : Hint) : Bool :=
  0 < r.storedAtSecs ∧ ttl ≤ now - r.storedAtSecs

/-! ### State -/

/-- A delivery that does not hold the lock. -/
inductive InFlight
  /-- the batch is with the receiver -/
  | sent (batch : List Queued)
  | answered (a : Answer)
  /-- nothing is left for the target and the lock is given back -/
  | emptied (givenUp : List Hint)
  /-- the log is out of the map of open logs too -/
  | closed (givenUp : List Hint)
  | counting (givenUp : List Hint)
  deriving DecidableEq

/-- How far `rewrite_after_partial` is. -/
inductive Stage
  | opened
  | replayed (survivors : List Hint)
  | writing (todo : List Hint) (rebuilt : List Queued)
  deriving DecidableEq

/-- Who holds the lock of the queue. -/
inductive Holder
  | enqueue (wal : ℕ) (r : Hint)
  | rewrite (wal : ℕ) (a : Answer) (stage : Stage)
  deriving DecidableEq

inductive Prune
  | opened (wal : ℕ)
  /-- the target has left: its hints are counted, the log, the queue and the file go next -/
  | departed
  | forgotten
  | dequeued
  | expiring (wal : ℕ) (survivors dropped : List Hint)
  | writing (wal : ℕ) (todo dropped : List Hint)
  | reread (records : List Queued) (dropped : List Hint)
  | counting (dropped : List Hint)
  deriving DecidableEq

/-- An open log: the file it is on and its own position. -/
structure OpenWal where
  file : ℕ
  position : ℕ
  deriving DecidableEq

structure State where
  contents : ℕ → List Hint
  nextFile : ℕ
  /-- the file under the target's name -/
  path : Option ℕ
  wals : ℕ → OpenWal
  nextWal : ℕ
  /-- the target's entry of `node_wals` -/
  nodeWal : Option ℕ
  queue : List Queued
  lock : Option Holder
  flights : List InFlight
  prunes : List Prune
  nextId : ℕ
  /-- hints whose enqueue returned -/
  enqueued : List ℕ
  /-- hints that a receiver reported as delivered -/
  delivered : List ℕ
  /-- hints counted as dropped or as expired -/
  counted : List ℕ

def State.init : State where
  contents _ := []
  nextFile := 0
  path := none
  wals _ := ⟨0, 0⟩
  nextWal := 0
  nodeWal := none
  queue := []
  lock := none
  flights := []
  prunes := []
  nextId := 0
  enqueued := []
  delivered := []
  counted := []

/-- The records in the target's WAL file. -/
def State.inFile (s : State) : List Hint :=
  s.path.elim [] s.contents

/-! ### File operations -/

section Files

variable (cfg : Config) (s : State)

/-- `HintWal::open` on the target's name; a missing file is created. -/
def State.openPath : State × ℕ :=
  let s := match s.path with
    | some _ => s
    | none => { s with
        contents := Function.update s.contents s.nextFile []
        path := some s.nextFile
        nextFile := s.nextFile + 1 }
  let size := (s.inFile.map cfg.frameLen).sum
  ({ s with
      wals := Function.update s.wals s.nextWal ⟨s.path.getD 0, size⟩
      nextWal := s.nextWal + 1 }, s.nextWal)

def State.getOrOpenNodeWal : State × ℕ :=
  match s.nodeWal with
  | some wal => (s, wal)
  | none =>
    let (s, wal) := s.openPath cfg
    ({ s with nodeWal := some wal }, wal)

def State.recordsOf (wal : ℕ) : List Hint :=
  s.contents (s.wals wal).file

def State.replay (wal : ℕ) : List Queued :=
  spans cfg.frameLen 0 (s.recordsOf wal)

def State.setRecords (wal : ℕ) (records : List Hint) (position : ℕ) : State :=
  let w := s.wals wal
  { s with
    contents := Function.update s.contents w.file records
    wals := Function.update s.wals wal { w with position := position } }

def State.writeHint (wal : ℕ) (r : Hint) : State × Queued :=
  let start := (s.wals wal).position
  let stop := start + cfg.frameLen r
  (s.setRecords wal (s.recordsOf wal ++ [r]) stop, ⟨start, stop, r⟩)

/-- `truncate_after(0)`. -/
def State.truncateAll (wal : ℕ) : State :=
  s.setRecords wal [] 0

end Files

/-! ### Steps -/

inductive Act
  | enqueueOpen (body : Body) (storedAtSecs attempts : ℕ)
  | enqueueWrite (now : ℕ)
  | drain
  | fail (i : ℕ)
  | answer (i : ℕ) (retry : List ℕ)
  | rewriteOpen (i : ℕ)
  | rewriteReplay
  | rewriteClear
  | rewriteWrite
  | rewriteFinish
  | close (i : ℕ)
  | remove (i : ℕ)
  | count (i : ℕ)
  | pruneOpen
  | pruneDeparted (i : ℕ)
  | pruneForget (i : ℕ)
  | pruneDequeue (i : ℕ)
  | pruneRemove (i : ℕ)
  | pruneReplay (i now ttl : ℕ)
  | pruneClear (i : ℕ)
  | pruneWrite (i : ℕ)
  | pruneReread (i : ℕ)
  | pruneRebuild (i : ℕ)
  | pruneCount (i : ℕ)
  | evict
  | crash
  deriving DecidableEq

section Steps

variable (cfg : Config) (s : State)

/-- The part of `enqueue` up to the write. -/
def enqueueOpen (body : Body) (storedAtSecs attempts : ℕ) : Option State :=
  match s.lock with
  | some _ => none
  | none =>
    let (s, wal) := s.getOrOpenNodeWal cfg
    some { s with
      lock := some (.enqueue wal ⟨s.nextId, body, storedAtSecs, attempts⟩)
      nextId := s.nextId + 1 }

/-- The rest of `enqueue`; the time is stamped once. -/
def enqueueWrite (now : ℕ) : Option State :=
  match s.lock with
  | some (.enqueue wal r) =>
    let r := if r.storedAtSecs = 0 then { r with storedAtSecs := now } else r
    let (s, item) := s.writeHint cfg wal r
    some { s with
      queue := s.queue ++ [item]
      enqueued := s.enqueued ++ [r.id]
      lock := none }
  | _ => none

def drain : Option State :=
  match s.lock with
  | some _ => none
  | none =>
    let n := batchSize cfg 0 0 s.queue
    if n = 0 then some s
    else some { s with
      queue := s.queue.drop n
      flights := s.flights ++ [.sent (s.queue.take n)] }

/-- No address, or the call failed: the batch goes back to the front of the queue. -/
def fail (i : ℕ) : Option State :=
  match s.lock, s.flights[i]? with
  | none, some (.sent batch) => some { s with
      queue := batch ++ s.queue
      flights := s.flights.eraseIdx i }
  | _, _ => none

def answer (i : ℕ) (retry : List ℕ) : Option State :=
  match s.flights[i]? with
  | some (.sent batch) => some { s with
      flights := s.flights.set i (.answered (answerOf cfg retry batch))
      delivered := s.delivered ++ (acceptedOf retry batch).map Hint.id }
  | _ => none

def rewriteOpen (i : ℕ) : Option State :=
  match s.lock, s.flights[i]? with
  | none, some (.answered a) =>
    let (s, wal) := s.getOrOpenNodeWal cfg
    some { s with
      flights := s.flights.eraseIdx i
      lock := some (.rewrite wal a .opened) }
  | _, _ => none

def rewriteReplay : Option State :=
  match s.lock with
  | some (.rewrite wal a .opened) =>
    let survivors := ((s.replay cfg wal).filter (a.drainedEnd < ·.stop)).map Replayed.record
    some { s with lock := some (.rewrite wal a (.replayed survivors)) }
  | _ => none

def rewriteClear : Option State :=
  match s.lock with
  | some (.rewrite wal a (.replayed survivors)) => some { s.truncateAll wal with
      lock := some (.rewrite wal a (.writing (survivors ++ a.requeue) [])) }
  | _ => none

def rewriteWrite : Option State :=
  match s.lock with
  | some (.rewrite wal a (.writing (r :: todo) rebuilt)) =>
    let (s, item) := s.writeHint cfg wal r
    some { s with lock := some (.rewrite wal a (.writing todo (rebuilt ++ [item]))) }
  | _ => none

/-- The queue becomes what was written; when that is nothing, the file goes next, without the
lock. -/
def rewriteFinish : Option State :=
  match s.lock with
  | some (.rewrite _ a (.writing [] rebuilt)) => some { s with
      queue := rebuilt
      lock := none
      flights := s.flights ++
        [if rebuilt = [] then .emptied a.givenUp else .counting a.givenUp] }
  | _ => none

def close (i : ℕ) : Option State :=
  match s.flights[i]? with
  | some (.emptied givenUp) => some { s with
      nodeWal := none
      flights := s.flights.set i (.closed givenUp) }
  | _ => none

def remove (i : ℕ) : Option State :=
  match s.flights[i]? with
  | some (.closed givenUp) => some { s with
      path := none
      flights := s.flights.set i (.counting givenUp) }
  | _ => none

def count (i : ℕ) : Option State :=
  match s.flights[i]? with
  | some (.counting givenUp) => some { s with
      counted := s.counted ++ givenUp.map Hint.id
      flights := s.flights.eraseIdx i }
  | _ => none

/-- The log of the map of open logs, or the file opened by its name when it is not in the map. -/
def pruneOpen : Option State :=
  match s.nodeWal, s.path with
  | some wal, _ => some { s with prunes := s.prunes ++ [.opened wal] }
  | none, some _ =>
    let (s, wal) := s.openPath cfg
    some { s with prunes := s.prunes ++ [.opened wal] }
  | none, none => none

/-- The target is not in the membership any more. -/
def pruneDeparted (i : ℕ) : Option State :=
  match s.prunes[i]? with
  | some (.opened wal) => some { s with
      counted := s.counted ++ (s.recordsOf wal).map Hint.id
      prunes := s.prunes.set i .departed }
  | _ => none

def pruneForget (i : ℕ) : Option State :=
  match s.prunes[i]? with
  | some .departed => some { s with nodeWal := none, prunes := s.prunes.set i .forgotten }
  | _ => none

def pruneDequeue (i : ℕ) : Option State :=
  match s.lock, s.prunes[i]? with
  | none, some .forgotten => some { s with queue := [], prunes := s.prunes.set i .dequeued }
  | _, _ => none

def pruneRemove (i : ℕ) : Option State :=
  match s.prunes[i]? with
  | some .dequeued => some { s with path := none, prunes := s.prunes.eraseIdx i }
  | _ => none

/-- The target is in the membership: only hints past their time go. -/
def pruneReplay (i now ttl : ℕ) : Option State :=
  match s.prunes[i]? with
  | some (.opened wal) =>
    let records := s.recordsOf wal
    let dropped := records.filter (expired now ttl)
    if dropped = [] then some { s with prunes := s.prunes.eraseIdx i }
    else some { s with
      prunes := s.prunes.set i (.expiring wal (records.filter (!expired now ttl ·)) dropped) }
  | _ => none

def pruneClear (i : ℕ) : Option State :=
  match s.prunes[i]? with
  | some (.expiring wal survivors dropped) => some { s.truncateAll wal with
      prunes := s.prunes.set i (.writing wal survivors dropped) }
  | _ => none

def pruneWrite (i : ℕ) : Option State :=
  match s.prunes[i]? with
  | some (.writing wal (r :: todo) dropped) => some { (s.writeHint cfg wal r).1 with
      prunes := s.prunes.set i (.writing wal todo dropped) }
  | _ => none

def pruneReread (i : ℕ) : Option State :=
  match s.prunes[i]? with
  | some (.writing wal [] dropped) => some { s with
      prunes := s.prunes.set i (.reread (s.replay cfg wal) dropped) }
  | _ => none

def pruneRebuild (i : ℕ) : Option State :=
  match s.lock, s.prunes[i]? with
  | none, some (.reread records dropped) => some { s with
      queue := records
      prunes := s.prunes.set i (.counting dropped) }
  | _, _ => none

def pruneCount (i : ℕ) : Option State :=
  match s.prunes[i]? with
  | some (.counting dropped) => some { s with
      counted := s.counted ++ dropped.map Hint.id
      prunes := s.prunes.eraseIdx i }
  | _ => none

/-- The next start, with `replay_and_enqueue`; only a file that is there is opened. -/
def crash : State :=
  let s := { s with lock := none, flights := [], prunes := [], queue := [], nodeWal := none }
  match s.path with
  | none => s
  | some _ =>
    let (s, wal) := s.openPath cfg
    { s with nodeWal := some wal, queue := s.replay cfg wal }

def step : Act → Option State
  | .enqueueOpen body storedAtSecs attempts => enqueueOpen cfg s body storedAtSecs attempts
  | .enqueueWrite now => enqueueWrite cfg s now
  | .drain => drain cfg s
  | .fail i => fail s i
  | .answer i retry => answer cfg s i retry
  | .rewriteOpen i => rewriteOpen cfg s i
  | .rewriteReplay => rewriteReplay cfg s
  | .rewriteClear => rewriteClear s
  | .rewriteWrite => rewriteWrite cfg s
  | .rewriteFinish => rewriteFinish s
  | .close i => close s i
  | .remove i => remove s i
  | .count i => count s i
  | .pruneOpen => pruneOpen cfg s
  | .pruneDeparted i => pruneDeparted s i
  | .pruneForget i => pruneForget s i
  | .pruneDequeue i => pruneDequeue s i
  | .pruneRemove i => pruneRemove s i
  | .pruneReplay i now ttl => pruneReplay s i now ttl
  | .pruneClear i => pruneClear s i
  | .pruneWrite i => pruneWrite cfg s i
  | .pruneReread i => pruneReread cfg s i
  | .pruneRebuild i => pruneRebuild s i
  | .pruneCount i => pruneCount s i
  -- the map of open logs is full of other targets' logs
  | .evict => some { s with nodeWal := none }
  | .crash => some (crash cfg s)

end Steps

/-! ### No hint is lost without a reason -/

/-- The hint was reported as delivered or counted. -/
def Settled (s : State) (id : ℕ) : Prop :=
  id ∈ s.delivered ∨ id ∈ s.counted

/-- Every hint whose enqueue returned is in the file or settled. -/
def HintsKept (s : State) : Prop :=
  ∀ id ∈ s.enqueued, id ∈ s.inFile.map Hint.id ∨ Settled s id

instance (s : State) (id : ℕ) : Decidable (Settled s id) :=
  inferInstanceAs (Decidable (_ ∨ _))

instance (s : State) : Decidable (HintsKept s) :=
  inferInstanceAs (Decidable (∀ id ∈ s.enqueued, _ ∨ _))

end OceanFs.Durability.Delivery
