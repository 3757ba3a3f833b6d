import OceanFs.Lib.LastWrite
import OceanFs.Metadata.SyncApply

/-!
Batches of metadata operations.

A batch is written at once. Before that it journals the operations that change a logical record,
which it finds out by reading each record as it is before the batch. It takes no lock of a key
and compares no timestamps, and a put leaves the tombstone of its key where it is.
-/

namespace OceanFs.Metadata

open OceanFs.Core Lib.LastWrite List

inductive BatchOp
  | putObject (bucket : BucketId) (key : ObjectKey) (value : ObjectMetadata)
  | deleteObject (bucket : BucketId) (key : ObjectKey)
  | putTombstone (bucket : BucketId) (key : ObjectKey) (tombstone : Tombstone)
  | deleteTombstone (bucket : BucketId) (key : ObjectKey)
  deriving DecidableEq

namespace BatchOp

/-- What an operation journals, in the state before the batch. -/
def journalEntry (s : Store) : BatchOp → Option JournalRecord
  | .putObject b k value =>
    if (s.getObject b k).any (objectLogicallyEqual · value) then none
    else some ⟨.put, b, k, value.hlc⟩
  | .deleteObject b k => (s.getObject b k).map fun previous => ⟨.delete, b, k, previous.hlc⟩
  | .putTombstone b k t =>
    if (s.getTombstone b k).any (·.hlc = t.hlc) then none else some ⟨.delete, b, k, t.hlc⟩
  | .deleteTombstone _ _ => none

def write (s : Store) : BatchOp → Store
  | .putObject b k value => s.setKey b k { s.keys b k with row := some value }
  | .deleteObject b k => s.setKey b k { s.keys b k with row := none }
  | .putTombstone b k t => s.setKey b k { s.keys b k with tombstone := some t }
  | .deleteTombstone b k => s.setKey b k { s.keys b k with tombstone := none }

end BatchOp

namespace Store

variable (s : Store) (ops : List BatchOp)

/-- The operations of a batch, with the records they journal. -/
def writeAll : Store :=
  ops.foldl BatchOp.write { s with journal := s.journal ++ ops.filterMap (·.journalEntry s) }

/-- `batch_write`; the journal is not appended to when there is nothing to journal. -/
def batchWrite (fault : WriteFault) :
    Store × Except StoreError Unit :=
  let records := ops.filterMap (·.journalEntry s)
  match fault with
  | .journalAppend => if records = [] then (s.writeAll ops, .ok ()) else (s, .error .io)
  | .batchWrite => ({ s with journal := s.journal ++ records }, .error .io)
  | .none => (s.writeAll ops, .ok ())

/-! ### What a batch leaves of a row -/

lemma batchWrite_cases (fault : WriteFault) :
    (s.batchWrite ops fault = (s.writeAll ops, .ok ())) ∨
      ∃ s', s'.keys = s.keys ∧ s.batchWrite ops fault = (s', .error .io) := by
  unfold batchWrite
  cases fault with
  | none => exact .inl rfl
  | journalAppend =>
    dsimp only
    split_ifs
    · exact .inl rfl
    · exact .inr ⟨s, rfl, rfl⟩
  | batchWrite =>
    exact .inr ⟨{ s with journal := s.journal ++ ops.filterMap (·.journalEntry s) },
      rfl, rfl⟩

/-! ### Batches of rows -/

variable (p : BucketId × ObjectMetadata)

/-- A row that is put under its own key. -/
def putOp : BatchOp := .putObject p.1 p.2.objectKey p.2

lemma write_putOp_self :
    (BatchOp.write s (putOp p)).keys p.1 p.2.objectKey =
      { s.keys p.1 p.2.objectKey with row := some p.2 } := by
  simp [BatchOp.write, putOp]

lemma write_putOp_of_ne {p : BucketId × ObjectMetadata} {b : BucketId} {k : ObjectKey}
    (h : ¬(b = p.1 ∧ k = p.2.objectKey)) : (BatchOp.write s (putOp p)).keys b k = s.keys b k :=
  setKey_of_ne _ _ h

variable (rows : List (BucketId × ObjectMetadata)) (b : BucketId)

/-- The last of the rows for a key. -/
def lastRow (k : ObjectKey) :
    Option ObjectMetadata :=
  (rows.reverse.find? fun p => p.1 = b ∧ p.2.objectKey = k).map (·.2)

lemma lastRow_snoc (k : ObjectKey) :
    lastRow (rows ++ [p]) b k =
      if p.1 = b ∧ p.2.objectKey = k then some p.2 else lastRow rows b k := by
  rw [lastRow, reverse_append, reverse_singleton, singleton_append, find?_cons]
  by_cases h : p.1 = b ∧ p.2.objectKey = k
  · simp [h]
  · simp [lastRow, h]

lemma lastRow_some {rows : List (BucketId × ObjectMetadata)} {b : BucketId} {k : ObjectKey}
    {m : ObjectMetadata} (h : lastRow rows b k = some m) : (b, m) ∈ rows ∧ m.objectKey = k := by
  obtain ⟨⟨b', m'⟩, hfind, rfl⟩ := Option.map_eq_some_iff.mp h
  have hp := find?_some hfind
  simp only [decide_eq_true_eq] at hp
  obtain ⟨rfl, rfl⟩ := hp
  exact ⟨mem_reverse.mp (mem_of_find?_eq_some hfind), rfl⟩

lemma writeAll_putOp_keys (k : ObjectKey) :
    (s.writeAll (rows.map putOp)).keys b k =
      (lastRow rows b k).elim (s.keys b k) fun m => { s.keys b k with row := some m } := by
  -- the journal plays no part, so the fold may start from any store with these keys
  suffices hfold : ∀ t : Store, ((rows.map putOp).foldl BatchOp.write t).keys b k =
      (lastRow rows b k).elim (t.keys b k) fun m => { t.keys b k with row := some m } from
    hfold _
  intro t
  induction rows using List.reverseRecOn with
  | nil => rfl
  | append_singleton rows p ih =>
    rw [map_append, foldl_append, lastRow_snoc]
    simp only [map_cons, map_nil, foldl_cons, foldl_nil]
    by_cases h : p.1 = b ∧ p.2.objectKey = k
    · obtain ⟨rfl, rfl⟩ := h
      rw [write_putOp_self, ih, if_pos ⟨rfl, rfl⟩]
      cases lastRow rows p.1 p.2.objectKey <;> rfl
    · have hne : ¬(b = p.1 ∧ k = p.2.objectKey) := fun hb => h ⟨hb.1.symm, hb.2.symm⟩
      rw [write_putOp_of_ne _ hne, ih, if_neg h]

lemma getObject_writeAll_putOp (k : ObjectKey) :
    (s.writeAll (rows.map putOp)).getObject b k = (lastRow rows b k).or (s.getObject b k) := by
  rw [getObject, writeAll_putOp_keys]
  cases lastRow rows b k <;> rfl

end Store

end OceanFs.Metadata
