import Mathlib.Logic.Function.Basic
import Mathlib.Order.WithBot
import OceanFs.Core.Types

/-!
The metadata store: object rows, plain tombstones and supersede records, with the change
journal.

A write is one batch. It captures what it makes dead (the overwritten row's chunks, or the
chunks of the tombstone it clears), clears the tombstone and puts the row; a delete removes
the row and writes the tombstone. Neither compares the timestamp it writes with the one it
replaces: the only comparison decides whether the overwritten row's chunks are captured. The reads
before a batch succeed; the source takes one that fails for the absence of the record.
-/

namespace OceanFs.Metadata

open OceanFs.Core

/-- Everything the store holds for one `(bucket, key)`. -/
structure KeyState where
  row : Option ObjectMetadata
  tombstone : Option Tombstone
  supersedes : Hlc → Option Tombstone

namespace KeyState

def empty : KeyState := ⟨none, none, fun _ => none⟩

variable (s : KeyState)

/-- The dead chunks a put captures, with the timestamp and the time they are filed under. -/
def capture (m : ObjectMetadata) (nowMs : ℤ) : Option Tombstone :=
  match s.row, s.tombstone with
  | some prev, _ =>
    if prev.isSegmentStored ∧ m.hlc > prev.hlc then
      some { deletionTime := nowMs, hlc := prev.hlc, chunks := prev.chunks }
    else none
  | none, some ts =>
    if ts.chunks ≠ [] then
      some { deletionTime := ts.deletionTime, hlc := ts.hlc, chunks := ts.chunks }
    else none
  | none, none => none

/-- `put_object_in_bucket_locked`: the batch of one put. -/
def put (m : ObjectMetadata) (nowMs : ℤ) : KeyState where
  row := some m
  tombstone := none
  supersedes :=
    match s.capture m nowMs with
    | some dead => Function.update s.supersedes dead.hlc (some dead)
    | none => s.supersedes

/-- `delete_object_locked`: the batch of one delete. -/
def delete (hlc : Hlc) (nowMs : ℤ) : KeyState where
  row := none
  tombstone := some
    { deletionTime := nowMs, hlc := hlc, chunks := (s.row.map (·.chunks)).getD [] }
  supersedes := s.supersedes

/-- The timestamp of the row, or of the tombstone when there is no row. -/
def version : WithBot Hlc :=
  match s.row, s.tombstone with
  | some m, _ => m.hlc
  | none, some t => t.hlc
  | none, none => ⊥

@[simp] lemma version_put (s : KeyState) (m : ObjectMetadata) (t : ℤ) :
    (s.put m t).version = m.hlc := rfl
@[simp] lemma version_delete (h : Hlc) (t : ℤ) : (s.delete h t).version = h := rfl

@[simp] lemma put_row (s : KeyState) (m : ObjectMetadata) (t : ℤ) : (s.put m t).row = some m := rfl
@[simp] lemma put_tombstone (s : KeyState) (m : ObjectMetadata) (t : ℤ) :
    (s.put m t).tombstone = none := rfl
@[simp] lemma delete_row (s : KeyState) (h : Hlc) (t : ℤ) : (s.delete h t).row = none := rfl
@[simp] lemma delete_tombstone_hlc (h : Hlc) (t : ℤ) :
    (s.delete h t).tombstone.map (·.hlc) = some h := rfl

end KeyState

/-! ### The store -/

inductive JournalOp
  | put
  | delete
  deriving DecidableEq

structure JournalRecord where
  op : JournalOp
  bucket : BucketId
  key : ObjectKey
  hlc : Hlc
  deriving DecidableEq

structure Store where
  keys : BucketId → ObjectKey → KeyState
  journal : List JournalRecord

/-- How the two fallible writes of one mutation go: the journal append comes first, and
the batch is not written when it fails. -/
inductive WriteFault
  | none
  | journalAppend
  | batchWrite
  deriving DecidableEq

inductive StoreError
  | io
  deriving DecidableEq

namespace Store

def empty : Store := ⟨fun _ _ => KeyState.empty, []⟩

variable (s : Store)

def setKey (b : BucketId) (k : ObjectKey) (ks : KeyState) : Store :=
  { s with keys := Function.update s.keys b (Function.update (s.keys b) k ks) }

def journalAppend (r : JournalRecord) : Store := { s with journal := s.journal ++ [r] }

/-- The journal append and the batch write of one mutation. -/
def commit (fault : WriteFault) (r : JournalRecord) (ks : KeyState) :
    Store × Except StoreError Unit :=
  match fault with
  | .journalAppend => (s, .error .io)
  | .batchWrite => (s.journalAppend r, .error .io)
  | .none => ((s.journalAppend r).setKey r.bucket r.key ks, .ok ())

def putObjectInBucket (bucket : BucketId) (m : ObjectMetadata) (nowMs : ℤ) (fault : WriteFault) :
    Store × Except StoreError Unit :=
  s.commit fault ⟨.put, bucket, m.objectKey, m.hlc⟩
    ((s.keys bucket m.objectKey).put m nowMs)

def deleteObject (bucket : BucketId) (key : ObjectKey) (hlc : Hlc) (nowMs : ℤ)
    (fault : WriteFault) : Store × Except StoreError Unit :=
  s.commit fault ⟨.delete, bucket, key, hlc⟩ ((s.keys bucket key).delete hlc nowMs)

def getObject (bucket : BucketId) (key : ObjectKey) : Option ObjectMetadata :=
  (s.keys bucket key).row

def getTombstone (bucket : BucketId) (key : ObjectKey) : Option Tombstone :=
  (s.keys bucket key).tombstone

variable (b : BucketId)

@[simp] lemma setKey_self (k : ObjectKey) (ks : KeyState) :
    (s.setKey b k ks).keys b k = ks := by
  simp [setKey]

lemma setKey_of_ne {b b' : BucketId} {k k' : ObjectKey} (ks : KeyState) (h : ¬(b' = b ∧ k' = k)) :
    (s.setKey b k ks).keys b' k' = s.keys b' k' := by
  by_cases hb : b' = b
  · subst hb
    have hk : k' ≠ k := fun e => h ⟨rfl, e⟩
    simp [setKey, hk]
  · simp [setKey, hb]

@[simp] lemma journalAppend_keys (r : JournalRecord) :
    (s.journalAppend r).keys = s.keys := rfl

lemma commit_keys (fault : WriteFault) (r : JournalRecord) (ks : KeyState) :
    (s.commit fault r ks).1.keys r.bucket r.key =
      if fault = .none then ks else s.keys r.bucket r.key := by
  cases fault <;> simp [commit]

lemma commit_keys_of_ne (fault : WriteFault) (r : JournalRecord) (ks : KeyState) {b : BucketId}
    {k : ObjectKey} (h : ¬(b = r.bucket ∧ k = r.key)) :
    (s.commit fault r ks).1.keys b k = s.keys b k := by
  cases fault <;> simp [commit, setKey_of_ne, h]

lemma commit_ok_iff (fault : WriteFault) (r : JournalRecord) (ks : KeyState) :
    (s.commit fault r ks).2 = .ok () ↔ fault = .none := by
  cases fault <;> simp [commit]

lemma putObjectInBucket_keys (m : ObjectMetadata) (t : ℤ) (fault : WriteFault) :
    (s.putObjectInBucket b m t fault).1.keys b m.objectKey =
      if fault = .none then (s.keys b m.objectKey).put m t else s.keys b m.objectKey :=
  commit_keys ..

lemma putObjectInBucket_ok_iff (m : ObjectMetadata) (t : ℤ) (fault : WriteFault) :
    (s.putObjectInBucket b m t fault).2 = .ok () ↔ fault = .none :=
  commit_ok_iff ..

lemma deleteObject_keys (k : ObjectKey) (h : Hlc) (t : ℤ) (fault : WriteFault) :
    (s.deleteObject b k h t fault).1.keys b k =
      if fault = .none then (s.keys b k).delete h t else s.keys b k :=
  commit_keys ..

lemma deleteObject_ok_iff (k : ObjectKey) (h : Hlc) (t : ℤ) (fault : WriteFault) :
    (s.deleteObject b k h t fault).2 = .ok () ↔ fault = .none :=
  commit_ok_iff ..

end Store

end OceanFs.Metadata
