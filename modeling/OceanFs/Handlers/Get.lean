import OceanFs.Handlers.Mutations
import OceanFs.Read.Coordinator

/-!
The GET handler.

It looks the key up in the object cache, the metadata cache and the negative cache before it
asks the read coordinator, and fills the first two from what the coordinator returns. A cached
body is served even when it does not match the hash in the metadata cache; the entry is dropped
then, and the answer is not.
-/

namespace OceanFs.Handlers

open OceanFs.Core Metadata Grpc Cache Write Read

inductive GetResponse
  | ok (body : Bytes)
  | listing (bucket : BucketId)
  | notFound (bucket : BucketId) (key : ObjectKey)
  | error (e : ReadError)
  deriving DecidableEq

def setL1 (w : World) (n : NodeId) (c : EntryCache Bytes) : World :=
  { w with l1 := Function.update w.l1 n c }

def setL2 (w : World) (n : NodeId) (c : EntryCache ObjectMetadata) : World :=
  { w with l2 := Function.update w.l2 n c }

section

variable (env : Env) (renv : ReadEnv) (hashKey : HashKey) (b : BucketId) (k : ObjectKey) (w : World)

def getL1 : World × Option Bytes :=
  let (c, hit) := (w.l1 env.self).get renv.l1 renv.cacheNow b k
  (setL1 w env.self c, hit)

def getL2 : World × Option ObjectMetadata :=
  let (c, hit) := (w.l2 env.self).get renv.l2 renv.cacheNow b k
  (setL2 w env.self c, hit)

def putL1 (body : Bytes) (w : World) : World :=
  setL1 w env.self ((w.l1 env.self).put renv.l1 List.length renv.evict renv.cacheNow b k body)

def putL2 (m : ObjectMetadata) (w : World) : World :=
  setL2 w env.self ((w.l2 env.self).put renv.l2 (fun _ => 0) renv.evict renv.cacheNow b k m)

/-- `NegativeCache::contains` on this node; `none` is its panic. -/
def containsNegative : Option (World × Bool) :=
  let r := w.replica env.self
  match r.negativeCache with
  | none => some (w, false)
  | some c => (c.contains hashKey (env.service env.self).l3 b k).map fun (c, absent) =>
      (w.setReplica env.self { r with negativeCache := some c }, absent)

/-- An object cache hit. -/
def serveCached (body : Bytes) (w : World) : World × GetResponse :=
  let (w, hit) := getL2 env renv b k w
  let stale : Bool := match hit.bind (·.blake3Hash) with
    | some stored => env.hash body ≠ stored
    | none => false
  if stale then (setL1 w env.self ((w.l1 env.self).invalidate b k), .ok body) else (w, .ok body)

/-- The coordinator's read, which fills the caches. -/
def serveRead : World × GetResponse :=
  match Read.get env renv b k w with
  | (w, .ok (body, m)) => (putL2 env renv b k m (putL1 env renv b k body w), .ok body)
  | (w, .error e) => (w, .error e)

/-- `get_object`. -/
def getObject : World × GetResponse :=
  if k = "" then (w, .listing b)
  else
    match getL1 env renv b k w with
    | (w, some body) => serveCached env renv b k body w
    | (w, none) =>
      let (w, hit) := getL2 env renv b k w
      match hit.bind (·.inlineData) with
      | some body => (putL1 env renv b k body w, .ok body)
      | none =>
        match containsNegative env hashKey b k w with
        | none => (w, .error .panicked)
        | some (w, true) => (w, .notFound b k)
        | some (w, false) => serveRead env renv b k w

end

end OceanFs.Handlers
