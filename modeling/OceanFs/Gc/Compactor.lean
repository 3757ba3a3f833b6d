import Mathlib.Data.List.Dedup
import Mathlib.Data.List.Sort
import OceanFs.Gc.CompactionRecovery
import OceanFs.Metadata.Batch
import OceanFs.Read.Fetch

/-!
Compaction of one segment.

The objects of the segment come from its list of contained objects, with one read of each row. The
chunks of those that are alive are copied to a new segment one after the other, and a table keyed
by the place of a chunk says where it went. The rows are rewritten through the table in one batch
and the old segment is deleted. What a call makes durable is a list of steps, so that what it
leaves behind when it fails, or when the node crashes, is a prefix of them.
-/

namespace OceanFs.Gc

open OceanFs.Core Metadata Segment List Option

def tierTargetSize : SizeTier → ℕ
  | .small => 65536
  | .standard => 4194304
  | .multi => 4194304
  | .inline => 0

/-- How a request for the deletion of a segment ends; a segment that is gone already counts as
deleted. -/
inductive DeleteOutcome
  | done
  | gone
  | failed
  deriving DecidableEq

/-- How the operations of a call end: the reads of rows by their number, and then each operation
in turn. -/
structure CompactFaults where
  rowRead : ℕ → Bool
  dataRead : Bool
  reserve : Bool
  writeData : Bool
  sealNew : Bool
  batch : Bool
  delete : DeleteOutcome
  unlink : Bool
  cleanupDelete : Bool
  cleanupUnlink : Bool

def CompactFaults.none : CompactFaults :=
  ⟨fun _ => false, false, false, false, false, false, .done, false, false, false⟩

/-- One call of `compact_segment`, with the id that it draws for the new segment. -/
structure Compaction where
  old : SegmentId
  new : SegmentId
  metadata : SegmentMetadata
  contained : Option (List ContainedObject)
  dead : List (BucketId × ObjectKey)
  faults : CompactFaults

inductive CompactError
  | refused
  | read
  | notPresent
  | panicked
  | reserve
  | write
  | merkle
  | sealFailed
  | batch
  | delete
  | unlink
  deriving DecidableEq

/-! ### Live objects -/

namespace Compaction

/-- The row of a contained object, if it is to be moved. A read that fails counts as no row. -/
def liveRow (c : Compaction) (s : Store) (co : ContainedObject) (i : ℕ) :
    Option (BucketId × ObjectMetadata) :=
  if (co.bucket, co.key) ∈ c.dead then none
  else if c.faults.rowRead i then none
  else ((s.getObject co.bucket co.key).filter (refersTo · c.old)).map (co.bucket, ·)

def findLive (c : Compaction) (s : Store) (contained : List ContainedObject) :
    List (BucketId × ObjectMetadata) :=
  contained.zipIdx.filterMap fun p => c.liveRow s p.1 p.2

/-- The objects that a call finds alive. -/
def found (c : Compaction) (s : Store) : List (BucketId × ObjectMetadata) :=
  c.findLive s (c.contained.getD [])

end Compaction

/-! ### Repacking -/

/-- Where a chunk is, and how long it is there. -/
def place (c : ChunkRef) : SegmentId × ℕ × ℕ := (c.segmentId, c.offset, c.length)

/-- The new segment so far. The offset counts the lengths that the references say, the bytes those
that the old segment has. -/
structure Repack where
  bytes : Bytes
  newOffset : ℕ
  remap : SegmentId × ℕ × ℕ → Option ChunkRef

namespace Repack

def empty : Repack := ⟨[], 0, fun _ => none⟩

/-- One chunk; slicing panics when it starts behind the end of the data. -/
def add (old new : SegmentId) (data : Bytes) (p : Repack) (c : ChunkRef) : Option Repack :=
  if c.segmentId ≠ old then some p
  else if data.length < c.offset then none
  else some {
    bytes := p.bytes ++ (data.drop c.offset).take (min (c.offset + c.length) data.length - c.offset)
    newOffset := p.newOffset + c.length
    remap := Function.update p.remap (place c)
      (some { c with segmentId := new, offset := p.newOffset }) }

end Repack

def repack (old new : SegmentId) (data : Bytes) (found : List (BucketId × ObjectMetadata)) :
    Option Repack :=
  (found.flatMap (·.2.chunks)).foldlM (Repack.add old new data) .empty

/-- A row with its chunks of the old segment where the table says; one that the table does not
have is left out. -/
def remapRow (old : SegmentId) (remap : SegmentId × ℕ × ℕ → Option ChunkRef) (m : ObjectMetadata) :
    ObjectMetadata :=
  { m with chunks := m.chunks.filterMap fun c =>
      if c.segmentId = old then remap (place c) else some c }

section

variable {old new : SegmentId} {data : Bytes} {found : List (BucketId × ObjectMetadata)}
  {p p' : Repack}

lemma Repack.remap_add {c : ChunkRef} (h : p.add old new data c = some p') :
    c.segmentId ≠ old ∧ p'.remap = p.remap ∨
      c.segmentId = old ∧ ∃ moved, moved.segmentId = new ∧ moved.length = c.length ∧
        p'.remap = Function.update p.remap (place c) (some moved) := by
  unfold Repack.add at h
  split_ifs at h with hold hbound
  · exact .inl ⟨hold, by rw [← some.inj h]⟩
  · exact .inr ⟨not_ne_iff.mp hold, { c with segmentId := new, offset := p.newOffset }, rfl, rfl,
      by rw [← some.inj h]⟩

lemma Repack.remap_foldlM_add {chunks : List ChunkRef}
    (h : chunks.foldlM (Repack.add old new data) p = some p')
    (hp : ∀ x c, p.remap x = some c → c.segmentId = new ∧ c.length = x.2.2) :
    (∀ x c, p'.remap x = some c → c.segmentId = new ∧ c.length = x.2.2) ∧
      (∀ x, p.remap x ≠ none → p'.remap x ≠ none) ∧
      ∀ c ∈ chunks, c.segmentId = old → p'.remap (place c) ≠ none := by
  induction chunks generalizing p with
  | nil =>
    obtain rfl := some.inj h
    exact ⟨hp, fun _ => id, by simp⟩
  | cons c chunks ih =>
    obtain ⟨p₁, hadd, hrest⟩ := bind_eq_some_iff.mp h
    rcases Repack.remap_add hadd with ⟨hold, hsame⟩ | ⟨hold, moved, hseg, hlen, hmap⟩
    · obtain ⟨hnew, hkept, hmoved⟩ := ih hrest (hsame ▸ hp)
      exact ⟨hnew, hsame ▸ hkept, forall_mem_cons.mpr ⟨fun h => absurd h hold, hmoved⟩⟩
    · obtain ⟨hnew, hkept, hmoved⟩ := ih hrest (by
        intro x c' hx
        by_cases hxc : x = place c
        · rw [hmap, hxc, Function.update_self] at hx
          exact some.inj hx ▸ ⟨hseg, hxc ▸ hlen⟩
        · exact hp x c' (by rwa [hmap, Function.update_of_ne hxc] at hx))
      have hc : p₁.remap (place c) ≠ none := by simp [hmap]
      refine ⟨hnew, fun x hx => hkept x ?_, forall_mem_cons.mpr ⟨fun _ => hkept _ hc, hmoved⟩⟩
      by_cases hxc : x = place c
      · exact hxc ▸ hc
      · rwa [hmap, Function.update_of_ne hxc]

/-- Every chunk of a row that is moved is kept, in its place or in the new segment. -/
lemma remapRow_chunks (h : repack old new data found = some p) {q : BucketId × ObjectMetadata}
    (hq : q ∈ found) :
    List.Forall₂ (fun c c' => if c.segmentId = old then c'.segmentId = new ∧ c'.length = c.length
      else c' = c) q.2.chunks (remapRow old p.remap q.2).chunks := by
  obtain ⟨hnew, -, hmoved⟩ := Repack.remap_foldlM_add h (by simp [Repack.empty])
  have hmoved := fun c hc => hmoved c (mem_flatMap.mpr ⟨q, hq, hc⟩)
  rw [remapRow]
  generalize q.2.chunks = chunks at hmoved
  induction chunks with
  | nil => exact .nil
  | cons c chunks ih =>
    have hrest := ih fun c' hc' => hmoved c' (mem_cons_of_mem _ hc')
    by_cases hold : c.segmentId = old
    · obtain ⟨c', hc'⟩ := ne_none_iff_exists'.mp (hmoved c mem_cons_self hold)
      rw [filterMap_cons_some (by rw [if_pos hold, hc'])]
      exact .cons (by rw [if_pos hold]; exact hnew _ _ hc') hrest
    · rw [filterMap_cons_some (by rw [if_neg hold])]
      exact .cons (by rw [if_neg hold]) hrest

end

/-! ### The call -/

inductive DurableStep
  | event (evt : SegmentEvent)
  | writeData (id : SegmentId) (pool : PoolId) (data : Bytes)
  | batch (rows : List (BucketId × ObjectMetadata))
  | unlink (id : SegmentId) (pool : PoolId)
  deriving DecidableEq

/-- The order that `ContainedObject` derives. -/
def containedLe (a b : ContainedObject) : Prop :=
  a.bucket < b.bucket ∨ a.bucket = b.bucket ∧ a.key ≤ b.key

instance : DecidableRel containedLe := fun _ _ => inferInstanceAs (Decidable (_ ∨ _))

def sortedDedup (objects : List ContainedObject) : List ContainedObject :=
  (objects.insertionSort containedLe).dedup

namespace Compaction

variable (c : Compaction)

/-- `request_old_deletion`, and the unlink of the old segment after it. -/
def deleteOld : List DurableStep × Except CompactError ℕ :=
  let unlinkOld : List DurableStep × Except CompactError ℕ :=
    if c.faults.unlink then ([], .error .unlink)
    else ([.unlink c.old c.metadata.poolId], .ok (tierTargetSize c.metadata.sizeTier))
  match c.faults.delete with
  | .failed => ([], .error .delete)
  | .gone => unlinkOld
  | .done => (.event (.delete c.old) :: unlinkOld.1, unlinkOld.2)

/-- `cleanup_reserved_new`. -/
def cleanup : List DurableStep :=
  (if c.faults.cleanupDelete then [] else [.event (.delete c.new)]) ++
    if c.faults.cleanupUnlink then [] else [.unlink c.new 0]

def membership (found : List (BucketId × ObjectMetadata)) : List ContainedObject :=
  sortedDedup (found.map fun p => ⟨p.1, p.2.objectKey⟩)

def reserveEvent : SegmentEvent :=
  .reserve ⟨c.new, c.metadata.sizeTier, c.metadata.ecK, c.metadata.ecM⟩

def sealEvent (merkleRoot : Bytes → HashOutput) (c : Compaction) (p : Repack)
    (found : List (BucketId × ObjectMetadata)) : SegmentEvent :=
  .seal ⟨c.new, c.metadata.sizeTier, c.metadata.ecK, c.metadata.ecM, merkleRoot p.bytes,
    toLex (0, 0), p.bytes.length, some c.old, 0, some (membership found)⟩

def remapped (p : Repack) (found : List (BucketId × ObjectMetadata)) :
    List (BucketId × ObjectMetadata) :=
  found.map fun q => (q.1, remapRow c.old p.remap q.2)

/-- The call from the reserve on. There is no root of an empty segment. -/
def move (merkleRoot : Bytes → HashOutput) (c : Compaction) (p : Repack)
    (found : List (BucketId × ObjectMetadata)) : List DurableStep × Except CompactError ℕ :=
  if c.faults.reserve then ([], .error .reserve)
  else if c.faults.writeData then (.event c.reserveEvent :: c.cleanup, .error .write)
  else if p.bytes = [] then
    ([.event c.reserveEvent, .writeData c.new 0 p.bytes], .error .merkle)
  else if c.faults.sealNew then
    (.event c.reserveEvent :: .writeData c.new 0 p.bytes :: c.cleanup, .error .sealFailed)
  else
    let toSeal : List DurableStep := [.event c.reserveEvent, .writeData c.new 0 p.bytes,
      .event (c.sealEvent merkleRoot p found)]
    if c.faults.batch then (toSeal, .error .batch)
    else (toSeal ++ .batch (c.remapped p found) :: c.deleteOld.1, c.deleteOld.2)

end Compaction

/-- The objects table, the `.dat` files, and the pool that the registry has for each segment. Every
row is stored under its own key. -/
structure Node where
  store : Store
  keyed : ∀ b k, ∀ m ∈ store.getObject b k, m.objectKey = k
  pool : SegmentId → PoolId
  dat : PoolId → SegmentId → Option Bytes

/-- What a call makes durable, step by step, and what it returns. -/
def compactSegment (merkleRoot : Bytes → HashOutput) (c : Compaction) (n : Node) :
    List DurableStep × Except CompactError ℕ :=
  match c.contained with
  | none => ([], .error .refused)
  | some contained =>
    let found := c.findLive n.store contained
    if found = [] then c.deleteOld
    else if c.faults.dataRead then ([], .error .read)
    else
      match n.dat (n.pool c.old) c.old with
      | none => ([], .error .notPresent)
      | some data =>
        match repack c.old c.new data found with
        | none => ([], .error .panicked)
        | some p => c.move merkleRoot p found

namespace Node

def setDat (n : Node) (pool : PoolId) (id : SegmentId) (data : Option Bytes) : Node :=
  { n with dat := Function.update n.dat pool (Function.update (n.dat pool) id data) }

lemma keyed_writeAll (n : Node) (rows : List (BucketId × ObjectMetadata)) :
    ∀ b k, ∀ m ∈ (n.store.writeAll (rows.map Store.putOp)).getObject b k, m.objectKey = k := by
  intro b k m hm
  rw [Store.getObject_writeAll_putOp] at hm
  rcases or_eq_some_iff.mp hm with hlast | ⟨-, hrow⟩
  · exact (Store.lastRow_some hlast).2
  · exact n.keyed b k m hrow

/-- What a durable step does to the node; the event log is kept apart. -/
def apply (n : Node) : DurableStep → Node
  | .event _ => n
  | .writeData id pool data => n.setDat pool id (some data)
  | .batch rows => { n with
      store := n.store.writeAll (rows.map Store.putOp)
      keyed := n.keyed_writeAll rows }
  | .unlink id pool => n.setDat pool id none

def after (n : Node) (steps : List DurableStep) : Node := steps.foldl apply n

end Node

/-! ### What is found -/

section

variable {c : Compaction} {n : Node}

lemma Compaction.mem_found {b : BucketId} {m : ObjectMetadata} :
    (b, m) ∈ c.found n.store ↔ n.store.getObject b m.objectKey = some m ∧
      refersTo m c.old = true ∧ (b, m.objectKey) ∉ c.dead ∧
      ∃ i, (c.contained.getD [])[i]? = some ⟨b, m.objectKey⟩ ∧ c.faults.rowRead i = false := by
  simp only [found, findLive, mem_filterMap, Prod.exists, liveRow, mem_zipIdx_iff_getElem?]
  constructor
  · rintro ⟨⟨b', k⟩, i, hi, hrow⟩
    split_ifs at hrow with hdead hread
    obtain ⟨m', hm', heq⟩ := map_eq_some_iff.mp hrow
    obtain ⟨rfl, rfl⟩ := Prod.mk.inj heq
    obtain ⟨hget, href⟩ := filter_eq_some_iff.mp hm'
    have hkey : m'.objectKey = k := n.keyed _ _ _ hget
    exact ⟨hkey.symm ▸ hget, href, hkey.symm ▸ hdead, i, hkey.symm ▸ hi, by simpa using hread⟩
  · rintro ⟨hget, href, hdead, i, hi, hread⟩
    refine ⟨⟨b, m.objectKey⟩, i, hi, ?_⟩
    simp [hdead, hread, hget, href]

end

/-! ### How a call can go -/

namespace DurableStep

/-- The step deletes the segment, in the log or on disk. -/
def removes (id : SegmentId) : DurableStep → Bool
  | .event (.delete id') => id' = id
  | .unlink id' _ => id' = id
  | _ => false

/-- The step is about one segment, and about no row. -/
def Concerns (id : SegmentId) : DurableStep → Prop
  | .event evt => evt.segmentId = id
  | .writeData id' _ _ => id' = id
  | .batch _ => False
  | .unlink id' _ => id' = id

lemma eq_of_removes {id id' : SegmentId} {step : DurableStep} (h : step.removes id = true)
    (hc : step.Concerns id' ∨ step.removes id' = true) : id = id' := by
  unfold removes Concerns at *
  split at h <;> simp_all [SegmentEvent.segmentId]

end DurableStep

namespace Node

@[simp] lemma after_nil (n : Node) : n.after [] = n := rfl

@[simp] lemma apply_event (n : Node) (evt : SegmentEvent) : n.apply (.event evt) = n := rfl

end Node

namespace Compaction

variable {c : Compaction}

lemma concerns_cleanup : ∀ step ∈ c.cleanup, step.Concerns c.new := by
  intro step hstep
  unfold cleanup at hstep
  rcases mem_append.mp hstep with h | h <;> split_ifs at h
  · simp at h
  · rw [mem_singleton.mp h]
    rfl
  · simp at h
  · rw [mem_singleton.mp h]
    rfl

lemma move_quiet (merkleRoot : Bytes → HashOutput) {p : Repack}
    {found : List (BucketId × ObjectMetadata)} :
    (p.bytes ≠ [] ∧ c.faults.reserve = false ∧ c.faults.writeData = false ∧
        c.faults.sealNew = false ∧ c.faults.batch = false ∧
        c.move merkleRoot p found =
          ([.event c.reserveEvent, .writeData c.new 0 p.bytes,
              .event (c.sealEvent merkleRoot p found)] ++
            .batch (c.remapped p found) :: c.deleteOld.1, c.deleteOld.2)) ∨
      (p.bytes = [] ∨ c.faults.reserve = true ∨ c.faults.writeData = true ∨
          c.faults.sealNew = true ∨ c.faults.batch = true) ∧
        (∀ step ∈ (c.move merkleRoot p found).1, step.Concerns c.new) ∧
        ∃ e, (c.move merkleRoot p found).2 = .error e := by
  have hres : DurableStep.Concerns c.new (.event c.reserveEvent) := rfl
  have hdat : DurableStep.Concerns c.new (.writeData c.new 0 p.bytes) := rfl
  have hseal : DurableStep.Concerns c.new (.event (c.sealEvent merkleRoot p found)) := rfl
  have hclean := @concerns_cleanup c
  unfold move
  by_cases h1 : c.faults.reserve = true
  · exact .inr ⟨.inr (.inl h1), by simp [h1], by simp [h1]⟩
  by_cases h2 : c.faults.writeData = true
  · refine .inr ⟨.inr (.inr (.inl h2)), ?_, by simp [h1, h2]⟩
    simp only [h1, h2, Bool.false_eq_true, if_true, if_false]
    exact forall_mem_cons.mpr ⟨hres, hclean⟩
  by_cases h3 : p.bytes = []
  · refine .inr ⟨.inl h3, ?_, by simp [h1, h2, h3]⟩
    simp only [h1, h2, h3, Bool.false_eq_true, if_true, if_false]
    rw [h3] at hdat
    simp [hres, hdat]
  by_cases h4 : c.faults.sealNew = true
  · refine .inr ⟨.inr (.inr (.inr (.inl h4))), ?_, by simp [h1, h2, h3, h4]⟩
    simp only [h1, h2, h3, h4, Bool.false_eq_true, if_true, if_false]
    exact forall_mem_cons.mpr ⟨hres, forall_mem_cons.mpr ⟨hdat, hclean⟩⟩
  by_cases h5 : c.faults.batch = true
  · refine .inr ⟨.inr (.inr (.inr (.inr h5))), ?_, by simp [h1, h2, h3, h4, h5]⟩
    simp only [h1, h2, h3, h4, h5, Bool.false_eq_true, if_true, if_false]
    simp [hres, hdat, hseal]
  · simp only [Bool.not_eq_true] at h1 h2 h4 h5
    exact .inl ⟨h3, h1, h2, h4, h5, by simp [h1, h2, h3, h4, h5]⟩

lemma removes_of_mem_deleteOld {step : DurableStep} (h : step ∈ c.deleteOld.1) :
    step.removes c.old = true := by
  unfold deleteOld at h
  cases hd : c.faults.delete <;> cases hu : c.faults.unlink <;> simp [hd, hu] at h
  · rcases h with rfl | rfl <;> simp [DurableStep.removes]
  · simp [h, DurableStep.removes]
  · simp [h, DurableStep.removes]

end Compaction

section

variable {merkleRoot : Bytes → HashOutput} {c : Compaction} {n : Node}

/-- What a call makes durable: steps about the new segment, the batch of the rows that are moved,
and the deletion of the old segment. -/
lemma mem_compactSegment {step : DurableStep} (h : step ∈ (compactSegment merkleRoot c n).1) :
    step.Concerns c.new ∨ step.removes c.old = true ∨
      ∃ data p, repack c.old c.new data (c.found n.store) = some p ∧
        step = .batch (c.remapped p (c.found n.store)) := by
  rcases hcon : c.contained with _ | contained
  · simp [compactSegment, hcon] at h
  have hfind : c.findLive n.store contained = c.found n.store := by simp [Compaction.found, hcon]
  simp only [compactSegment, hcon, hfind] at h
  split_ifs at h
  · exact .inr (.inl (Compaction.removes_of_mem_deleteOld h))
  · simp at h
  split at h
  · simp at h
  rename_i data _
  split at h
  · simp at h
  rename_i p hp
  rcases @Compaction.move_quiet c merkleRoot p (c.found n.store) with
    ⟨-, -, -, -, -, hmove⟩ | ⟨-, hquiet, -⟩
  · rw [hmove] at h
    simp only [cons_append, nil_append, mem_cons] at h
    rcases h with rfl | rfl | rfl | rfl | h
    · exact .inl rfl
    · exact .inl rfl
    · exact .inl rfl
    · exact .inr (.inr ⟨data, p, hp, rfl⟩)
    · exact .inr (.inl (Compaction.removes_of_mem_deleteOld h))
  · exact .inl (hquiet _ h)

end

end OceanFs.Gc
