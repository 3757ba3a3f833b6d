import Mathlib.Data.List.MinMax
import OceanFs.Lib.LastWrite
import OceanFs.Write.Rows

/-!
Direct replication of one key: what a replica holds after receiving PUTs and DELETEs.

A replica receives an operation on its own local path or as a call from the coordinator. The
logical state of a key is its row without the physical chunk references, or its tombstone's
timestamp. The store does not compare timestamps, so the logical state is that of the last
delivery that took effect, and the greatest timestamp wins only where it comes last.
-/

namespace OceanFs.Replication

open OceanFs.Core Metadata Grpc Write Lib.LastWrite Option

/-- What two replicas of a key must agree on. -/
inductive Logical
  | absent
  | row (size : ℕ) (hash : Option HashOutput) (inlineData : Option Bytes) (hlc : Hlc)
  | tombstone (hlc : Hlc)
  deriving DecidableEq

def Logical.hlc? : Logical → Option Hlc
  | .absent => none
  | .row _ _ _ h => some h
  | .tombstone h => some h

def logical (s : KeyState) : Logical :=
  match s.row, s.tombstone with
  | some m, _ => .row m.size m.blake3Hash m.inlineData m.hlc
  | none, some t => .tombstone t.hlc
  | none, none => .absent

@[simp] lemma logical_put (s : KeyState) (m : ObjectMetadata) (t : ℤ) :
    logical (s.put m t) = .row m.size m.blake3Hash m.inlineData m.hlc := rfl
@[simp] lemma logical_delete (s : KeyState) (h : Hlc) (t : ℤ) :
    logical (s.delete h t) = .tombstone h := rfl

/-- An operation on the key, as its coordinator stamped it. A PUT comes with the chunks the
coordinator stored; an inline object has none. -/
inductive Op
  | put (hlc : Hlc) (data : Bytes) (hash : HashOutput) (chunks : List ChunkRef)
  | delete (hlc : Hlc)
  deriving DecidableEq

namespace Op

def hlc : Op → Hlc
  | .put h _ _ _ => h
  | .delete h => h

/-- The state of the key that the operation stands for. -/
def state : Op → Logical
  | .put h data hash chunks =>
    .row data.length (some hash) (if chunks = [] then some data else none) h
  | .delete h => .tombstone h

@[simp] lemma state_hlc (o : Op) : o.state.hlc? = some o.hlc := by
  cases o <;> rfl

end Op

/-- One receipt of an operation: on the local path of a handler, or as a call. -/
inductive Delivery
  | own (op : Op) (nowMs : ℤ) (fault : WriteFault)
  | rpc (op : Op) (env : ServiceEnv)

namespace Delivery

def op : Delivery → Op
  | .own o _ _ => o
  | .rpc o _ => o

end Delivery

variable (bucket : BucketId) (key : ObjectKey) (r : Replica)

/-- The store write of the coordinator's inline arm, or of the handler. An empty body has
neither. -/
def localPut (hlc : Hlc) (data : Bytes) (hash : HashOutput) (chunks : List ChunkRef) (nowMs : ℤ)
    (fault : WriteFault) : Replica :=
  if data = [] then r
  else if chunks = [] then
    { r with store :=
        (r.store.putObjectInBucket bucket (inlineRow key data hash hlc nowMs) nowMs fault).1 }
  else
    { r with store := (r.store.putObjectInBucket bucket
        (segmentRow key data.length (some hash) chunks hlc nowMs) nowMs fault).1 }

def deliver : Delivery → Replica
  | .own (.put hlc data hash chunks) nowMs fault =>
    localPut bucket key r hlc data hash chunks nowMs fault
  | .own (.delete hlc) nowMs fault =>
    { r with store := (r.store.deleteObject bucket key hlc nowMs fault).1 }
  | .rpc (.put hlc data hash chunks) env =>
    (appendSegment env [replicateRequest bucket key data hash chunks hlc] r).1
  | .rpc (.delete hlc) env => (deleteObject env ⟨bucket, key, some hlc⟩ r).1

/-- Whether a delivery reaches the store: it meets no fault, a PUT has a body, and the service
accepts its metadata. -/
def effective : Delivery → Bool
  | .own (.put _ data _ _) _ fault => data ≠ [] ∧ fault = .none
  | .own (.delete _) _ fault => fault = .none
  | .rpc (.put hlc data _ _) env =>
    data ≠ [] ∧ hlc ≠ Hlc.zero ∧ bucket ≠ "" ∧ env.hasMetadataStore ∧ env.fault = .none
  | .rpc (.delete _) env => env.hasMetadataStore ∧ env.fault = .none

def receive (ds : List Delivery) : Replica := ds.foldl (deliver bucket key) r

/-- The operation of the last delivery that takes effect. -/
def lastEffective (ds : List Delivery) : Option Op :=
  ((ds.filter (effective bucket)).getLast?).map Delivery.op

/-! ### One delivery -/

variable {bucket key}

lemma logical_localPut (hlc : Hlc) (data : Bytes) (hash : HashOutput) (chunks : List ChunkRef)
    (nowMs : ℤ) (fault : WriteFault) :
    logical ((localPut bucket key r hlc data hash chunks nowMs fault).store.keys bucket key) =
      if data ≠ [] ∧ fault = .none then (Op.put hlc data hash chunks).state
      else logical (r.store.keys bucket key) := by
  unfold localPut
  by_cases hd : data = []
  · simp [hd]
  by_cases hc : chunks = []
  · have h := r.store.putObjectInBucket_keys bucket (inlineRow key data hash hlc nowMs) nowMs fault
    simp only [inlineRow] at h
    simp only [hd, hc, if_true, if_false, inlineRow, h]
    split_ifs <;> simp_all [Op.state]
  · have h := r.store.putObjectInBucket_keys bucket
      (segmentRow key data.length (some hash) chunks hlc nowMs) nowMs fault
    simp only [segmentRow] at h
    simp only [hd, hc, if_false, segmentRow, h]
    split_ifs <;> simp_all [Op.state]

lemma logical_deliver (d : Delivery) :
    logical ((deliver bucket key r d).store.keys bucket key) =
      if effective bucket d then d.op.state else logical (r.store.keys bucket key) := by
  cases d with
  | own o nowMs fault =>
    cases o with
    | put hlc data hash chunks => simpa [deliver, effective, Delivery.op] using logical_localPut ..
    | delete hlc =>
      simp only [deliver, Store.deleteObject_keys, effective, Delivery.op, decide_eq_true_eq]
      split_ifs <;> simp [Op.state]
  | rpc o env =>
    cases o with
    | put hlc data hash chunks =>
      have hiff : AcceptsReplicate env bucket data hlc ↔
          effective bucket (.rpc (.put hlc data hash chunks) env) = true := by
        simp [AcceptsReplicate, effective]
      simp only [deliver, append_replicateRequest_keys, hiff]
      split_ifs <;> simp [Delivery.op, Op.state]
    | delete hlc =>
      simp only [deliver, (deleteObject_spec env bucket key hlc r).1, effective, Delivery.op,
        decide_eq_true_eq]
      split_ifs <;> simp [Op.state]

/-! ### Any order of deliveries -/

/-- The state a delivery writes, where it takes effect. -/
def written (bucket : BucketId) (d : Delivery) : Option Logical :=
  if effective bucket d then some d.op.state else none

lemma overwrites : Overwrites (deliver bucket key)
    (fun r => logical (r.store.keys bucket key)) (written bucket) := by
  intro r d
  simp only [logical_deliver, written]
  split_ifs <;> rfl

lemma lastValue_written (ds : List Delivery) :
    lastValue (written bucket) ds = (lastEffective bucket ds).map Op.state := by
  have h : ds.filterMap (written bucket) =
      (ds.filter (effective bucket)).map fun d => d.op.state := by
    induction ds with
    | nil => rfl
    | cons d ds ih => by_cases hd : effective bucket d = true <;> simp [written, hd, ih]
  rw [lastValue, h, lastEffective, List.getLast?_map, map_map]
  rfl

lemma logical_receive (ds : List Delivery) :
    logical ((receive bucket key r ds).store.keys bucket key) =
      ((lastEffective bucket ds).map Op.state).getD (logical (r.store.keys bucket key)) := by
  rw [← lastValue_written]
  exact obs_foldl overwrites ds r

lemma lastEffective_mem {ds : List Delivery} {o : Op} (h : lastEffective bucket ds = some o) :
    ∃ d ∈ ds, d.op = o := by
  obtain ⟨d, hd, rfl⟩ := map_eq_some_iff.mp h
  exact ⟨d, List.mem_of_mem_filter (List.mem_of_getLast? hd), rfl⟩

/-- **Replicas agree on the newest operation exactly where it comes last.** The operations have
distinct timestamps, `newest` has the greatest, and no replica starts out with a version of that
timestamp. -/
theorem replicas_converge_iff {ι : Type*} (bucket : BucketId) (key : ObjectKey) (ops : List Op)
    (newest : Op) (replica : ι → Replica) (received : ι → List Delivery)
    (hdistinct : ∀ o ∈ ops, ∀ o' ∈ ops, o.hlc = o'.hlc → o = o')
    (hnewest : ops.argmax Op.hlc = some newest)
    (hold : ∀ i, (logical ((replica i).store.keys bucket key)).hlc? ≠ some newest.hlc)
    (hfrom : ∀ i, ∀ d ∈ received i, d.op ∈ ops) :
    (∀ i, logical ((receive bucket key (replica i) (received i)).store.keys bucket key) =
        newest.state) ↔
      ∀ i, lastEffective bucket (received i) = some newest := by
  refine forall_congr' fun i => ?_
  rw [logical_receive]
  constructor
  · intro h
    have hlc := congrArg Logical.hlc? h
    cases hl : lastEffective bucket (received i) with
    | none => exact absurd (by simpa [hl] using hlc) (hold i)
    | some o =>
      obtain ⟨d, hd, rfl⟩ := lastEffective_mem hl
      have hmem : newest ∈ ops := List.argmax_mem hnewest
      simp only [hl, map_some, getD_some, Op.state_hlc, some.injEq] at hlc
      rw [hdistinct _ (hfrom i d hd) _ hmem hlc]
  · intro h
    simp [h]

section

/-- A replica that wires its services and meets no fault. -/
def quietEnv : ServiceEnv := ⟨true, none, ⟨false, 0, none, 0⟩, 0, 0, .none⟩

def freshReplica : Replica := ⟨.empty, Hlc.zero, none⟩

def samplePut : Op := .put ⟨1, 1⟩ [7] zeroHash []

def sampleDelete : Op := .delete ⟨2, 1⟩

theorem replicas_converge_in_order :
    logical ((receive "b" "k" freshReplica
      [.rpc samplePut quietEnv, .own sampleDelete 0 .none]).store.keys "b" "k") =
        sampleDelete.state :=
  (replicas_converge_iff "b" "k" [samplePut, sampleDelete] sampleDelete
    (fun _ : Unit => freshReplica) (fun _ => [.rpc samplePut quietEnv, .own sampleDelete 0 .none])
    (by decide) (by decide) (fun _ => by decide) (fun _ => by decide)).mpr (fun _ => by decide) ()

/-- The append of an older PUT that arrives after the DELETE puts the row back on one replica,
while the other, which got them in order, keeps the tombstone. -/
theorem late_append_resurrects :
    logical ((receive "b" "k" freshReplica
      [.rpc samplePut quietEnv, .rpc sampleDelete quietEnv]).store.keys "b" "k") =
        sampleDelete.state ∧
    logical ((receive "b" "k" freshReplica
      [.rpc sampleDelete quietEnv, .rpc samplePut quietEnv]).store.keys "b" "k") =
        samplePut.state ∧
    samplePut.hlc < sampleDelete.hlc := by
  decide

end

end OceanFs.Replication
