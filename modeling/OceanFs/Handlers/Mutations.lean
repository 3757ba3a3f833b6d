import OceanFs.Write.Coordinator

/-!
The PUT and DELETE handlers.

The PUT handler persists the row of a segment-stored object after the coordinator has
returned; the DELETE handler writes the local tombstone before it replicates the delete. Both
clear the caches of the key only once everything else has succeeded.
-/

namespace OceanFs.Handlers

open OceanFs.Core Metadata Grpc Cache Write

/-- Drops a key from the object and metadata caches of a node. -/
def invalidateCaches (n : NodeId) (b : BucketId) (k : ObjectKey) (w : World) : World :=
  { w with
    l1 := Function.update w.l1 n ((w.l1 n).invalidate b k)
    l2 := Function.update w.l2 n ((w.l2 n).invalidate b k) }

variable (env : Env)

def invalidateNegative (n : NodeId) (b : BucketId) (k : ObjectKey) (w : World) :
    World :=
  w.setReplica n ((w.replica n).invalidateNegative (env.service n) b k)

/-- Marks a key absent in the negative cache of a node; a filter of no bits panics. -/
def insertNegative (hashKey : HashKey) (n : NodeId) (b : BucketId) (k : ObjectKey) (w : World) :
    Option World :=
  let r := w.replica n
  match r.negativeCache with
  | none => some w
  | some c => (c.insert hashKey (env.service n).l3 b k).map fun c =>
      w.setReplica n { r with negativeCache := some c }

/-- `invalidate_cache_on_replicas`, whose receivers drop the key at all three levels. -/
def invalidateCacheOnReplicas (b : BucketId) (k : ObjectKey) (w : World) : World :=
  (env.replicaSet k).foldl
    (fun w t =>
      if t ≠ env.self ∧ (env.peer t).hasAddress ∧ env.invalidateReaches t then
        invalidateNegative env t b k (invalidateCaches t b k w)
      else w) w

/-- The row the PUT handler writes for a result that has chunks. -/
def persistRow (req : WriteRequest) (result : WriteResult) (w : World) : Outcome Unit :=
  if result.chunks = [] then (w, .ok ())
  else
    match w.putRow env.self req.bucket
      (segmentRow req.key result.size result.blake3Hash result.chunks result.hlc env.nowMs)
      env.nowMs env.handlerFault with
    | (w, .error _) => (w, .error (.internal "metadata write failed"))
    | (w, .ok ()) => (w, .ok ())

/-- `put_object`: on success, the timestamp of the write. -/
def putObject (req : WriteRequest) (w : World) : Outcome Hlc :=
  if !env.admitted then (w, .error .writeOverloaded)
  else
    match put env req w with
    | (w, .error e) => (w, .error e)
    | (w, .ok result) =>
      match persistRow env req result w with
      | (w, .error e) => (w, .error e)
      | (w, .ok ()) =>
        let w := invalidateNegative env env.self req.bucket req.key
          (invalidateCaches env.self req.bucket req.key w)
        (invalidateCacheOnReplicas env req.bucket req.key w, .ok result.hlc)

/-- `delete_object`: on success, the timestamp of the delete. -/
def deleteObject (hashKey : HashKey) (bucket : BucketId) (key : ObjectKey) (writeQuorum : UInt8)
    (w : World) : Outcome Hlc :=
  let (w, hlc) := w.tick env.self env.physical
  let set := env.replicaSet key
  if env.quorumRequiresRing && set.length % 256 < writeQuorum.toNat then
    (w, .error (.quorumNotMet writeQuorum.toNat set.length))
  else
    match w.deleteRow env.self bucket key hlc env.nowMs env.handlerFault with
    | (w, .error _) => (w, .error .metadata)
    | (w, .ok ()) =>
      match Write.delete env bucket key hlc w with
      | (w, .error e) => (w, .error e)
      | (w, .ok remoteDeleted) =>
        let required := requiredQuorum env writeQuorum set
        if 1 + remoteDeleted < required then
          (w, .error (.quorumNotMet required (1 + remoteDeleted)))
        else
          let w := invalidateCacheOnReplicas env bucket key
            (invalidateCaches env.self bucket key w)
          match insertNegative env hashKey env.self bucket key w with
          | none => (w, .error .panicked)
          | some w => (w, .ok hlc)

end OceanFs.Handlers
