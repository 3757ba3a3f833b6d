import OceanFs.Gc.Compactor
import OceanFs.Lib.Lists
import OceanFs.Lib.Runs

/-!
Compactions beside the puts and deletes of clients.

A compaction reads its rows one after the other, and some time later writes all that it has found
back in one batch, with other chunks. The batch takes no lock of a key and looks at no timestamp,
so a client write that falls between the read of a row and the batch is overwritten.
-/

namespace OceanFs.Gc

open OceanFs.Core Lib Lib.Runs Metadata Segment List Option

/-- What a key holds, apart from where its chunks are. -/
def versionOf (s : Store) (b : BucketId) (k : ObjectKey) : Option Logical :=
  (s.getObject b k).map logicalOfRow

/-! ### What clients have done -/

inductive ClientOp
  | put (bucket : BucketId) (m : ObjectMetadata)
  | delete (bucket : BucketId) (key : ObjectKey) (hlc : Hlc)
  deriving DecidableEq

namespace ClientOp

def On (b : BucketId) (k : ObjectKey) : ClientOp → Prop
  | put b' m => b' = b ∧ m.objectKey = k
  | delete b' k' _ => b' = b ∧ k' = k

instance (b : BucketId) (k : ObjectKey) : DecidablePred (On b k)
  | put _ _ => inferInstanceAs (Decidable (_ ∧ _))
  | delete _ _ _ => inferInstanceAs (Decidable (_ ∧ _))

def hlc : ClientOp → Hlc
  | put _ m => m.hlc
  | delete _ _ hlc => hlc

/-- What the key holds after the operation. -/
def version : ClientOp → Option Logical
  | put _ m => some (logicalOfRow m)
  | delete _ _ _ => none

end ClientOp

/-- The last of the operations on a key; they are listed from the last to the first. -/
def latest (ops : List ClientOp) (b : BucketId) (k : ObjectKey) : Option ClientOp :=
  ops.find? fun op => op.On b k

/-- The operation on a key with the greatest timestamp, the last one of these. -/
def newest (b : BucketId) (k : ObjectKey) : List ClientOp → Option ClientOp
  | [] => none
  | op :: ops =>
    if op.On b k then
      match newest b k ops with
      | some op' => if op'.hlc ≤ op.hlc then some op else some op'
      | none => some op
    else newest b k ops

/-! ### The machine -/

/-- A compaction that runs: how many contained objects it has read, and what it has found. -/
structure Task where
  call : Compaction
  next : ℕ
  found : List (BucketId × ObjectMetadata)
  committed : Bool

namespace Task

/-- The task has read the row of the key, and will write it. -/
def Holds (t : Task) (b : BucketId) (k : ObjectKey) : Prop :=
  t.committed = false ∧ ∃ q ∈ t.found, q.1 = b ∧ q.2.objectKey = k

instance (t : Task) (b : BucketId) (k : ObjectKey) : Decidable (t.Holds b k) :=
  inferInstanceAs (Decidable (_ ∧ _))

/-- All contained objects have been read. -/
def allRead (t : Task) : Bool := (t.call.contained.getD []).length ≤ t.next

/-- The rows that the task writes; nothing is written when there is nothing to repack. -/
def rows (t : Task) (data : Bytes) : Option (List (BucketId × ObjectMetadata)) :=
  match repack t.call.old t.call.new data t.found with
  | some p => if p.bytes = [] then none else some (t.call.remapped p t.found)
  | none => none

end Task

/-- The metadata store with the compactions that run, and the client operations that succeeded. -/
structure Race where
  store : Store
  client : List ClientOp
  tasks : List Task

namespace Race

def initial : Race := ⟨.empty, [], []⟩

inductive Act
  | put (bucket : BucketId) (m : ObjectMetadata) (nowMs : ℤ) (fault : WriteFault)
  | delete (bucket : BucketId) (key : ObjectKey) (hlc : Hlc) (nowMs : ℤ) (fault : WriteFault)
  | start (call : Compaction)
  /-- A compaction reads the row of its next contained object. -/
  | read (i : ℕ)
  /-- A compaction, with the data of its segment, writes its batch. -/
  | commit (i : ℕ) (data : Bytes) (fault : WriteFault)
  | leave (i : ℕ)

/-- The state after a mutation of the store, with the operation if it succeeded. -/
def clientStep (s : Race) (op : ClientOp) : Store × Except StoreError Unit → Race
  | (store, .ok _) => { s with store := store, client := op :: s.client }
  | (store, .error _) => { s with store := store }

def step (s : Race) : Act → Option Race
  | .put b m nowMs fault =>
    some (s.clientStep (.put b m) (s.store.putObjectInBucket b m nowMs fault))
  | .delete b k hlc nowMs fault =>
    some (s.clientStep (.delete b k hlc) (s.store.deleteObject b k hlc nowMs fault))
  | .start call => some { s with tasks := s.tasks ++ [⟨call, 0, [], false⟩] }
  | .read i =>
    match s.tasks[i]? with
    | some t => ((t.call.contained.getD [])[t.next]?).map fun co =>
        { s with tasks := s.tasks.set i { t with
          next := t.next + 1
          found := t.found ++ (t.call.liveRow s.store co t.next).toList } }
    | none => none
  | .commit i data fault =>
    match s.tasks[i]? with
    | some t =>
      if t.allRead ∧ t.committed = false then
        (t.rows data).map fun rows =>
          match s.store.batchWrite (rows.map Store.putOp) fault with
          | (store, .ok _) =>
            { s with store := store, tasks := s.tasks.set i { t with committed := true } }
          | (store, .error _) => { s with store := store, tasks := s.tasks.eraseIdx i }
      else none
    | none => none
  | .leave i => if i < s.tasks.length then some { s with tasks := s.tasks.eraseIdx i } else none

/-- Every key holds the newest client version, or nothing if that is a delete. -/
def NewestKept (s : Race) : Prop :=
  ∀ b k, versionOf s.store b k = (newest b k s.client).bind ClientOp.version

/-- No compaction holds the row of the key. -/
def Free (s : Race) (b : BucketId) (k : ObjectKey) : Prop := ∀ t ∈ s.tasks, ¬t.Holds b k

instance (s : Race) (b : BucketId) (k : ObjectKey) : Decidable (s.Free b k) :=
  inferInstanceAs (Decidable (∀ t ∈ s.tasks, ¬t.Holds b k))

/-- The timestamp is above those of the operations on the key so far. -/
def Newer (s : Race) (b : BucketId) (k : ObjectKey) (hlc : Hlc) : Prop :=
  ∀ op ∈ s.client, op.On b k → op.hlc < hlc

instance (s : Race) (b : BucketId) (k : ObjectKey) (hlc : Hlc) : Decidable (s.Newer b k hlc) :=
  inferInstanceAs (Decidable (∀ op ∈ s.client, op.On b k → op.hlc < hlc))

/-- A client operation is newer than those before it on its key, and no compaction is between its
read of the row and its batch. -/
def Undisturbed (s : Race) : Act → Prop
  | .put b m _ _ => s.Newer b m.objectKey m.hlc ∧ s.Free b m.objectKey
  | .delete b k hlc _ _ => s.Newer b k hlc ∧ s.Free b k
  | _ => True

instance (s : Race) : DecidablePred s.Undisturbed := fun a => by
  cases a <;> unfold Race.Undisturbed <;> infer_instance

/-! ### What a batch writes -/

/-- The invariant: rows are under their keys, every key holds what the last client operation left,
and a compaction holds rows that are still current. -/
structure Sound (s : Race) : Prop where
  keyed : ∀ b k, ∀ m ∈ s.store.getObject b k, m.objectKey = k
  latest : ∀ b k, versionOf s.store b k = (latest s.client b k).bind ClientOp.version
  held : ∀ t ∈ s.tasks, t.committed = false → ∀ q ∈ t.found,
    versionOf s.store q.1 q.2.objectKey = some (logicalOfRow q.2)

lemma Sound.initial : Sound initial where
  keyed := by simp [Race.initial, Store.getObject, Store.empty, KeyState.empty]
  latest := by
    simp [Race.initial, versionOf, Store.getObject, Store.empty, KeyState.empty, Gc.latest]
  held := by simp [Race.initial]

variable {s s' : Race}

lemma version_writeAll {store : Store} {rows : List (BucketId × ObjectMetadata)}
    (hkeyed : ∀ b k, ∀ m ∈ store.getObject b k, m.objectKey = k)
    (hrows : ∀ q ∈ rows, versionOf store q.1 q.2.objectKey = some (logicalOfRow q.2)) :
    (∀ b k, versionOf (store.writeAll (rows.map Store.putOp)) b k = versionOf store b k) ∧
      ∀ b k, ∀ m ∈ (store.writeAll (rows.map Store.putOp)).getObject b k, m.objectKey = k := by
  refine ⟨fun b k => ?_, fun b k m hm => ?_⟩
  · rw [versionOf, Store.getObject_writeAll_putOp]
    cases hlast : Store.lastRow rows b k with
    | none => rfl
    | some m =>
      obtain ⟨hmem, rfl⟩ := Store.lastRow_some hlast
      exact (hrows _ hmem).symm
  · rw [Store.getObject_writeAll_putOp] at hm
    rcases or_eq_some_iff.mp hm with hlast | ⟨-, hrow⟩
    · exact (Store.lastRow_some hlast).2
    · exact hkeyed b k m hrow

lemma rows_version {t : Task} {data : Bytes} {rows : List (BucketId × ObjectMetadata)}
    (h : t.rows data = some rows) {q : BucketId × ObjectMetadata} (hq : q ∈ rows) :
    ∃ q' ∈ t.found, q.1 = q'.1 ∧ q.2.objectKey = q'.2.objectKey ∧
      logicalOfRow q.2 = logicalOfRow q'.2 := by
  unfold Task.rows at h
  split at h
  · split_ifs at h
    obtain rfl := some.inj h
    obtain ⟨q', hq', rfl⟩ := List.mem_map.mp hq
    exact ⟨q', hq', rfl, rfl, rfl⟩
  · simp at h

/-! ### Every action keeps the invariant -/

lemma Sound.client {store : Store} {op : ClientOp} {b : BucketId} {k : ObjectKey} (h : Sound s)
    (hop : ∀ b' k', op.On b' k' ↔ b' = b ∧ k' = k) (hfree : s.Free b k)
    (hself : versionOf store b k = op.version)
    (hrow : ∀ m ∈ store.getObject b k, m.objectKey = k)
    (hother : ∀ b' k', ¬(b' = b ∧ k' = k) → store.keys b' k' = s.store.keys b' k') :
    Sound { s with store := store, client := op :: s.client } where
  keyed b' k' m hm := by
    by_cases hb : b' = b ∧ k' = k
    · obtain ⟨rfl, rfl⟩ := hb
      exact hrow m hm
    · rw [Store.getObject, hother _ _ hb] at hm
      exact h.keyed b' k' m hm
  latest b' k' := by
    simp only [Gc.latest, find?_cons]
    by_cases hb : b' = b ∧ k' = k
    · obtain ⟨rfl, rfl⟩ := hb
      simp [(hop b' k').mpr ⟨rfl, rfl⟩, hself]
    · rw [versionOf, Store.getObject, hother _ _ hb]
      simp only [(hop b' k').not.mpr hb, decide_false]
      exact h.latest b' k'
  held t ht hcom q hq := by
    have hne : ¬(q.1 = b ∧ q.2.objectKey = k) := fun hb => hfree t ht ⟨hcom, q, hq, hb⟩
    rw [versionOf, Store.getObject, hother _ _ hne]
    exact h.held t ht hcom q hq

lemma Sound.of_versions {store : Store} (h : Sound s)
    (hversion : ∀ b k, versionOf store b k = versionOf s.store b k)
    (hkeyed : ∀ b k, ∀ m ∈ store.getObject b k, m.objectKey = k) :
    Sound { s with store := store } where
  keyed := hkeyed
  latest b k := (hversion b k).trans (h.latest b k)
  held t ht hcom q hq := (hversion _ _).trans (h.held t ht hcom q hq)

lemma Sound.of_keys {store : Store} (h : Sound s) (hkeys : store.keys = s.store.keys) :
    Sound { s with store := store } :=
  h.of_versions (fun b k => by rw [versionOf, versionOf, Store.getObject, Store.getObject, hkeys])
    fun b k m hm => h.keyed b k m (by rwa [Store.getObject, hkeys] at hm)

lemma Sound.put {b : BucketId} {m : ObjectMetadata} {nowMs : ℤ} {fault : WriteFault} (h : Sound s)
    (hfree : s.Free b m.objectKey) :
    Sound (s.clientStep (.put b m) (s.store.putObjectInBucket b m nowMs fault)) := by
  unfold Store.putObjectInBucket
  cases fault with
  | none =>
    refine h.client (fun b' k' => ?_) hfree ?_ ?_ ?_
    · simp [ClientOp.On, eq_comm]
    · simp [versionOf, Store.getObject, ClientOp.version]
    · simp [Store.getObject]
    · exact fun b' k' hne => Store.setKey_of_ne _ _ hne
  | journalAppend => exact h.of_keys rfl
  | batchWrite => exact h.of_keys rfl

lemma Sound.delete {b : BucketId} {k : ObjectKey} {hlc : Hlc} {nowMs : ℤ} {fault : WriteFault}
    (h : Sound s) (hfree : s.Free b k) :
    Sound (s.clientStep (.delete b k hlc) (s.store.deleteObject b k hlc nowMs fault)) := by
  unfold Store.deleteObject
  cases fault with
  | none =>
    refine h.client (fun b' k' => ?_) hfree ?_ ?_ ?_
    · simp [ClientOp.On, eq_comm]
    · simp [versionOf, Store.getObject, ClientOp.version]
    · simp [Store.getObject]
    · exact fun b' k' hne => Store.setKey_of_ne _ _ hne
  | journalAppend => exact h.of_keys rfl
  | batchWrite => exact h.of_keys rfl

lemma Sound.of_tasks {tasks : List Task} (h : Sound s)
    (htasks : ∀ t ∈ tasks, t.committed = false → ∀ q ∈ t.found,
      versionOf s.store q.1 q.2.objectKey = some (logicalOfRow q.2)) :
    Sound { s with tasks := tasks } :=
  { h with held := htasks }

lemma Sound.read {i : ℕ} (h : Sound s) (hs : step s (.read i) = some s') : Sound s' := by
  simp only [step] at hs
  split at hs
  · rename_i t ht
    obtain ⟨co, hco, rfl⟩ := map_eq_some_iff.mp hs
    have htmem : t ∈ s.tasks := mem_of_getElem? ht
    refine h.of_tasks fun t' ht' hcom q hq => ?_
    rcases mem_or_eq_of_mem_set ht' with ht' | rfl
    · exact h.held t' ht' hcom q hq
    rcases mem_append.mp hq with hq | hq
    · exact h.held t htmem hcom q hq
    · -- the row has just been read
      rw [mem_toList, Compaction.liveRow] at hq
      split_ifs at hq
      obtain ⟨m, hm, rfl⟩ := map_eq_some_iff.mp hq
      have hget := (filter_eq_some_iff.mp hm).1
      rw [h.keyed _ _ m hget, versionOf, hget]
      rfl
  · simp at hs

lemma step_commit {i : ℕ} {data : Bytes} {fault : WriteFault}
    (hs : step s (.commit i data fault) = some s') :
    ∃ t, t ∈ s.tasks ∧ t.committed = false ∧
      ((∃ rows, t.rows data = some rows ∧ s' = { s with
          store := s.store.writeAll (rows.map Store.putOp)
          tasks := s.tasks.set i { t with committed := true } }) ∨
        ∃ store, store.keys = s.store.keys ∧ s' = { s with
          store := store
          tasks := s.tasks.eraseIdx i }) := by
  simp only [step] at hs
  split at hs
  · rename_i t ht
    split_ifs at hs with hready
    obtain ⟨rows, hrows, rfl⟩ := map_eq_some_iff.mp hs
    refine ⟨t, mem_of_getElem? ht, hready.2, ?_⟩
    rcases s.store.batchWrite_cases (rows.map Store.putOp) fault with hok | ⟨store, hkeys, herr⟩
    · exact .inl ⟨rows, hrows, by rw [hok]⟩
    · exact .inr ⟨store, hkeys, by rw [herr]⟩
  · simp at hs

lemma Sound.rows_current {t : Task} {data : Bytes} {rows : List (BucketId × ObjectMetadata)}
    (h : Sound s) (ht : t ∈ s.tasks) (hcom : t.committed = false)
    (hrows : t.rows data = some rows) :
    ∀ q ∈ rows, versionOf s.store q.1 q.2.objectKey = some (logicalOfRow q.2) := by
  intro q hq
  obtain ⟨q', hq', hb, hk, hlog⟩ := rows_version hrows hq
  rw [hb, hk, hlog]
  exact h.held t ht hcom q' hq'

lemma Sound.commit {i : ℕ} {data : Bytes} {fault : WriteFault} (h : Sound s)
    (hs : step s (.commit i data fault) = some s') : Sound s' := by
  obtain ⟨t, ht, hcom, ⟨rows, hrows, rfl⟩ | ⟨store, hkeys, rfl⟩⟩ := step_commit hs
  · obtain ⟨hversion, hkeyed⟩ := version_writeAll h.keyed (h.rows_current ht hcom hrows)
    have hwritten := h.of_versions hversion hkeyed
    refine hwritten.of_tasks fun t' ht' hcom' q hq => ?_
    rcases mem_or_eq_of_mem_set ht' with ht' | rfl
    · exact hwritten.held t' ht' hcom' q hq
    · simp at hcom'
  · exact (h.of_keys hkeys).of_tasks fun t' ht' =>
      (h.of_keys hkeys).held t' (mem_of_mem_eraseIdx ht')

lemma Sound.step {a : Act} (h : Sound s)
    (hput : ∀ b m nowMs fault, a = .put b m nowMs fault → s.Free b m.objectKey)
    (hdelete : ∀ b k hlc nowMs fault, a = .delete b k hlc nowMs fault → s.Free b k)
    (hs : step s a = some s') : Sound s' := by
  cases a with
  | put b m nowMs fault =>
    obtain rfl := some.inj hs
    exact h.put (hput b m nowMs fault rfl)
  | delete b k hlc nowMs fault =>
    obtain rfl := some.inj hs
    exact h.delete (hdelete b k hlc nowMs fault rfl)
  | start call =>
    obtain rfl := some.inj hs
    refine h.of_tasks fun t ht hcom q hq => ?_
    rcases mem_append.mp ht with ht | ht
    · exact h.held t ht hcom q hq
    · rw [mem_singleton.mp ht] at hq
      simp at hq
  | read i => exact h.read hs
  | commit i data fault => exact h.commit hs
  | leave i =>
    simp only [Race.step] at hs
    split_ifs at hs
    obtain rfl := some.inj hs
    exact h.of_tasks fun t ht => h.held t (mem_of_mem_eraseIdx ht)

/-! ### Newest by timestamp -/

/-- Each operation is newer than those before it on its key. -/
def Ordered : List ClientOp → Prop
  | [] => True
  | op :: ops => (∀ b k, op.On b k → ∀ op' ∈ ops, op'.On b k → op'.hlc < op.hlc) ∧ Ordered ops

lemma newest_eq_latest {ops : List ClientOp} (h : Ordered ops) (b : BucketId) (k : ObjectKey) :
    newest b k ops = Gc.latest ops b k := by
  induction ops with
  | nil => rfl
  | cons op ops ih =>
    obtain ⟨hop, hrest⟩ := h
    have hlast : Gc.latest (op :: ops) b k =
        if op.On b k then some op else Gc.latest ops b k := by
      rw [Gc.latest, find?_cons]
      by_cases hon : op.On b k <;> simp [hon, Gc.latest]
    rw [newest, ih hrest, hlast]
    by_cases hon : op.On b k
    · simp only [hon, if_true]
      cases hl : Gc.latest ops b k with
      | none => rfl
      | some op' =>
        have hon' : op'.On b k := by simpa using find?_some hl
        have hlt := hop b k hon op' (mem_of_find?_eq_some hl) hon'
        simp [hlt.le]
    · simp only [hon, if_false]

lemma ordered_cons {op : ClientOp} {b : BucketId} {k : ObjectKey} (hord : Ordered s.client)
    (hop : ∀ b' k', op.On b' k' → b' = b ∧ k' = k) (hnew : s.Newer b k op.hlc) :
    Ordered (op :: s.client) := by
  refine ⟨fun b' k' hon op' hmem hon' => ?_, hord⟩
  obtain ⟨rfl, rfl⟩ := hop b' k' hon
  exact hnew op' hmem hon'

lemma step_ordered {a : Act} (hord : Ordered s.client) (hok : s.Undisturbed a)
    (hs : step s a = some s') : Ordered s'.client := by
  have hstep : ∀ op b k r, (∀ b' k', op.On b' k' → b' = b ∧ k' = k) → s.Newer b k op.hlc →
      Ordered (s.clientStep op r).client := by
    rintro op b k ⟨store, _ | _⟩ hop hnew
    · exact hord
    · exact ordered_cons hord hop hnew
  cases a with
  | put b m nowMs fault =>
    obtain rfl := some.inj hs
    exact hstep _ b m.objectKey _ (fun b' k' h => ⟨h.1.symm, h.2.symm⟩) hok.1
  | delete b k hlc nowMs fault =>
    obtain rfl := some.inj hs
    exact hstep _ b k _ (fun b' k' h => ⟨h.1.symm, h.2.symm⟩) hok.1
  | start call =>
    obtain rfl := some.inj hs
    exact hord
  | read i =>
    simp only [step] at hs
    split at hs
    · obtain ⟨co, -, rfl⟩ := map_eq_some_iff.mp hs
      exact hord
    · simp at hs
  | commit i data fault =>
    obtain ⟨t, -, -, ⟨rows, -, rfl⟩ | ⟨store, -, rfl⟩⟩ := step_commit hs <;> exact hord
  | leave i =>
    simp only [step] at hs
    split_ifs at hs
    obtain rfl := some.inj hs
    exact hord

/-- **Compactions beside clients**: where no client operation falls between the read of a row and
the batch, and those on one key come in the order of their timestamps, every key always holds the
newest client version. -/
theorem newestKept_of_undisturbed {acts : List Act} (h : Guarded step Undisturbed initial acts) :
    Always step NewestKept initial acts := by
  have hstep : ∀ s a s', (Sound s ∧ Ordered s.client) → s.Undisturbed a → step s a = some s' →
      Sound s' ∧ Ordered s'.client := by
    rintro s a s' ⟨hsound, hord⟩ hok hs
    refine ⟨hsound.step ?_ ?_ hs, step_ordered hord hok hs⟩
    · rintro b m nowMs fault rfl
      exact hok.2
    · rintro b k hlc nowMs fault rfl
      exact hok.2
  refine always_of_guarded hstep ?_ ⟨Sound.initial, trivial⟩ h
  rintro s ⟨hsound, hord⟩ b k
  rw [newest_eq_latest hord]
  exact hsound.latest b k

/-! ### A put during a compaction -/

def raceRow (hlc : ℕ) (segment : SegmentId) : ObjectMetadata :=
  ⟨"cat", 3, none, [⟨segment, 0, 3, false, 3⟩], none, 0, ⟨hlc, 0⟩⟩

def raceCompaction : Compaction :=
  ⟨1, 2, reservedMetadata 1 .standard 4 2, some [⟨"photos", "cat"⟩], [], .none⟩

/-- An object is put and its segment is compacted; `between` is what happens between the read of
its row and the batch. -/
def compactedWhile (between : List Act) : List Act :=
  [.put "photos" (raceRow 1 1) 0 .none, .start raceCompaction, .read 0] ++ between ++
    [.commit 0 [7, 8, 9] .none, .leave 0]

/-- Before and after, the client may write. -/
theorem put_before_and_after :
    Guarded step Undisturbed initial
        (compactedWhile [] ++ [.put "photos" (raceRow 2 3) 0 .none]) ∧
      Always step NewestKept initial
        (compactedWhile [] ++ [.put "photos" (raceRow 2 3) 0 .none]) :=
  have h : Guarded step Undisturbed initial
      (compactedWhile [] ++ [.put "photos" (raceRow 2 3) 0 .none]) := by decide +kernel
  ⟨h, newestKept_of_undisturbed h⟩

/-- **A put during a compaction is undone**: the batch brings the older row back, and so it does
after a delete. -/
theorem put_during_compaction_undone :
    ¬Always step NewestKept initial (compactedWhile [.put "photos" (raceRow 2 3) 0 .none]) ∧
      ¬Always step NewestKept initial (compactedWhile [.delete "photos" "cat" ⟨2, 0⟩ 0 .none]) := by
  constructor <;>
  · rw [always_iff_run]
    intro h
    have hend := h _ _ prefix_rfl rfl "photos" "cat"
    revert hend
    decide +kernel

end Race

end OceanFs.Gc
