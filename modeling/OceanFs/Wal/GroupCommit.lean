import Mathlib.Data.List.ReduceOption
import OceanFs.Lib.Runs
import OceanFs.Segment.EventRecord

/-!
Acknowledgements of the data WAL and the syncs behind them.

An append writes under the lock of the file, registers with the flusher and returns when it is
woken. The flusher wakes whom it has collected once its sync function has come back, whatever that
has done: it does nothing when the lock is taken, nothing when the file is not longer than the
last synced position, which a rotation leaves as it is, and an error is logged. Where the flushes
do reach the file, an append returns only after a sync has covered its bytes.
-/

namespace OceanFs.Wal

open OceanFs.Core Segment Lib.Runs List Option

structure WalConfig where
  maxFileSizeBytes : ℕ
  walUseSyncFileRange : Bool

/-- Where a call of `append` stands. -/
inductive Phase
  | checking
  | rotating
  | writing
  | submitting
  | waiting
  | returned
  | failed
  deriving DecidableEq

/-- A call of `append`: the serialized size of its entry, and the position it returns. -/
structure Append where
  size : ℕ
  phase : Phase
  pos : DataWalPos
  deriving DecidableEq

/-- Who holds the lock of the file. -/
inductive Holder
  | append (id : ℕ)
  | truncate (position : ℕ)
  | sync
  deriving DecidableEq

inductive Flusher
  | idle
  | collected (waiters : List ℕ)
  | flushed (waiters : List ℕ)
  deriving DecidableEq

def Flusher.waiters : Flusher → List ℕ
  | .idle => []
  | .collected waiters => waiters
  | .flushed waiters => waiters

/-- The writer with its calls. A byte of the current file is known by the append that has written
it and its place in the entry; other bytes are those found at the start, and zeros. The bytes that
a successful sync has covered are listed, and the file whose flush has set `lastSynced`. -/
structure GroupCommit where
  seq : ℕ
  file : List (Option (ℕ × ℕ))
  lock : Option Holder
  syncPosition : ℕ
  lastSynced : ℕ
  lastSyncedSeq : ℕ
  appends : List Append
  queue : List ℕ
  flusher : Flusher
  durable : List (ℕ × ℕ)
  deriving DecidableEq

/-- `DEFAULT_SYNC_BATCH_MAX_WAITERS`. -/
def syncBatchMaxWaiters : ℕ := 64

def syncChannelCapacity : ℕ := 1024

namespace GroupCommit

/-- `open` on a file of the given size. -/
def initial (seq existingSize : ℕ) : GroupCommit where
  seq := seq
  file := List.replicate existingSize none
  lock := none
  syncPosition := existingSize
  lastSynced := existingSize
  lastSyncedSeq := seq
  appends := []
  queue := []
  flusher := .idle
  durable := []

section

variable (s : GroupCommit)

def InPhase (id : ℕ) (phase : Phase) : Prop :=
  s.appends[id]?.map Append.phase = some phase

instance (s : GroupCommit) (id : ℕ) (phase : Phase) : Decidable (s.InPhase id phase) :=
  inferInstanceAs (Decidable (_ = _))

def setPhase (id : ℕ) (phase : Phase) : GroupCommit :=
  { s with appends := s.appends.modify id fun a => { a with phase := phase } }

/-- A sync of the whole file that succeeds. -/
def syncAll : GroupCommit :=
  { s with durable := s.durable ++ s.file.reduceOption }

/-- Whether the entry fits in the current file. -/
def check (config : WalConfig) (s : GroupCommit) (id : ℕ) : GroupCommit :=
  let size := s.appends[id]?.elim 0 Append.size
  s.setPhase id (if s.file.length + size > config.maxFileSizeBytes then .rotating else .writing)

/-- `rotate`, given the result of its sync. -/
def rotate (id : ℕ) (ok : Bool) : GroupCommit :=
  if ok then
    { s.syncAll.setPhase id .writing with
      syncPosition := 0, seq := s.seq + 1, file := [], lock := none }
  else { s.setPhase id .failed with lock := none }

/-- The bytes of an entry. -/
def entryBytes (id size : ℕ) : List (Option (ℕ × ℕ)) :=
  (List.range size).map fun i => some (id, i)

/-- The part of `append` under the lock. The entry is in the file also where the number of the
file is too large for a position. -/
def write (id : ℕ) : GroupCommit :=
  let size := s.appends[id]?.elim 0 Append.size
  { s with
    file := s.file ++ entryBytes id size
    syncPosition := s.file.length + size
    lock := none
    appends := s.appends.modify id fun a =>
      { a with
        phase := if s.seq < 2 ^ 32 then .submitting else .failed
        pos := toLex (s.seq, s.file.length) } }

def truncate (position : ℕ) : GroupCommit :=
  { s with
    file := s.file.take position ++ List.replicate (position - s.file.length) none
    syncPosition := position
    lastSynced := min s.lastSynced position
    lock := none }

def submit (id : ℕ) : GroupCommit :=
  { s.setPhase id .waiting with queue := s.queue ++ [id] }

def collect : GroupCommit :=
  { s with
    flusher := .collected (s.queue.take syncBatchMaxWaiters)
    queue := s.queue.drop syncBatchMaxWaiters }

/-- The function that the flusher calls, given the results of `sync_file_range` and of the
`fdatasync` or `fsync`. -/
def fsync (config : WalConfig) (s : GroupCommit) (rangeOk dataOk : Bool) : GroupCommit :=
  if s.lock ≠ none then s
  else if config.walUseSyncFileRange then
    if s.lastSynced < s.syncPosition then
      if rangeOk && dataOk then
        { s.syncAll with lastSynced := s.syncPosition, lastSyncedSeq := s.seq }
      else s
    else s
  else if dataOk then s.syncAll else s

def flush (config : WalConfig) (s : GroupCommit) (waiters : List ℕ) (rangeOk dataOk : Bool) :
    GroupCommit :=
  { s.fsync config rangeOk dataOk with flusher := .flushed waiters }

def wake (s : GroupCommit) (waiters : List ℕ) : GroupCommit :=
  { s with
    appends := s.appends.mapIdx fun id a =>
      if id ∈ waiters then { a with phase := .returned } else a
    flusher := .idle }

inductive Act
  | append (size : ℕ)
  | check (id : ℕ)
  | acquire (holder : Holder)
  | rotate (id : ℕ) (ok : Bool)
  | write (id : ℕ)
  | truncate (position : ℕ)
  | sync (ok : Bool)
  | submit (id : ℕ)
  | collect
  | flush (rangeOk dataOk : Bool)
  | wake
  deriving DecidableEq

/-- An append takes the lock to rotate or to write. -/
def MayAcquire : Holder → Prop
  | .append id => s.InPhase id .rotating ∨ s.InPhase id .writing
  | .truncate _ => True
  | .sync => True

instance (s : GroupCommit) : ∀ holder, Decidable (s.MayAcquire holder)
  | .append _ => inferInstanceAs (Decidable (_ ∨ _))
  | .truncate _ => .isTrue trivial
  | .sync => .isTrue trivial

def step (config : WalConfig) (s : GroupCommit) : Act → Option GroupCommit
  | .append size => some { s with appends := s.appends ++ [⟨size, .checking, toLex (0, 0)⟩] }
  | .check id => if s.InPhase id .checking then some (s.check config id) else none
  | .acquire holder =>
    if s.lock = none ∧ s.MayAcquire holder then some { s with lock := some holder } else none
  | .rotate id ok =>
    if s.lock = some (.append id) ∧ s.InPhase id .rotating then some (s.rotate id ok) else none
  | .write id =>
    if s.lock = some (.append id) ∧ s.InPhase id .writing then some (s.write id) else none
  | .truncate position =>
    if s.lock = some (.truncate position) then some (s.truncate position) else none
  | .sync ok =>
    if s.lock = some .sync then some { if ok then s.syncAll else s with lock := none } else none
  | .submit id =>
    if s.InPhase id .submitting ∧ s.queue.length < syncChannelCapacity then some (s.submit id)
    else none
  | .collect => if s.flusher = .idle ∧ s.queue ≠ [] then some s.collect else none
  | .flush rangeOk dataOk =>
    match s.flusher with
    | .collected waiters => some (s.flush config waiters rangeOk dataOk)
    | _ => none
  | .wake =>
    match s.flusher with
    | .flushed waiters => some (s.wake waiters)
    | _ => none

/-- Of every append that has returned, each byte has been covered by a successful sync of its
file. -/
def AckedDurable : Prop :=
  ∀ id a, s.appends[id]? = some a → a.phase = .returned → ∀ i < a.size, (id, i) ∈ s.durable

/-- A flush finds the lock free, its calls succeed, and it does not compare with a position in a
file that has been left unless the new one is already longer; a truncation takes away only bytes
that have been synced, or those of failed appends. -/
def Flushes (config : WalConfig) (s : GroupCommit) : Act → Prop
  | .flush rangeOk dataOk => s.lock = none ∧ dataOk = true ∧
      (config.walUseSyncFileRange = true → rangeOk = true ∧
        (s.lastSyncedSeq = s.seq ∨ s.lastSynced < s.syncPosition))
  | .truncate position => ∀ b ∈ (s.file.drop position).reduceOption,
      b ∈ s.durable ∨ s.InPhase b.1 .failed
  | _ => True

/-! ### The invariant -/

/-- What an append that has written can count on. -/
structure Kept (file durable : List (ℕ × ℕ)) (id : ℕ) (a : Append) : Prop where
  written : a.phase = .submitting ∨ a.phase = .waiting →
    ∀ i < a.size, (id, i) ∈ file ∨ (id, i) ∈ durable
  returned : a.phase = .returned → ∀ i < a.size, (id, i) ∈ durable

lemma Kept.mono {file durable file' durable' : List (ℕ × ℕ)} {id : ℕ} {a : Append}
    (h : Kept file durable id a)
    (hfile : ∀ i, (id, i) ∈ file → (id, i) ∈ file' ∨ (id, i) ∈ durable')
    (hdurable : durable ⊆ durable') : Kept file' durable' id a where
  written := fun hp i hi => (h.written hp i hi).elim (hfile i) fun hd => .inr (hdurable hd)
  returned := fun hp i hi => hdurable (h.returned hp i hi)

structure Sound : Prop where
  position : s.syncPosition = s.file.length
  older : s.lastSyncedSeq ≤ s.seq
  bound : s.lastSyncedSeq = s.seq → s.lastSynced ≤ s.file.length ∧
    (s.file.take s.lastSynced).reduceOption ⊆ s.durable
  kept : ∀ id a, s.appends[id]? = some a → Kept s.file.reduceOption s.durable id a
  waiters : ∀ id ∈ s.queue ++ s.flusher.waiters, s.InPhase id .waiting
  distinct : (s.queue ++ s.flusher.waiters).Nodup
  flushed : ∀ ids, s.flusher = .flushed ids → ∀ id ∈ ids, ∀ a, s.appends[id]? = some a →
    ∀ i < a.size, (id, i) ∈ s.durable

end

variable {config : WalConfig} {s s' : GroupCommit} {id : ℕ}

lemma sound_initial (seq existingSize : ℕ) : Sound (initial seq existingSize) where
  position := by simp [initial]
  older := le_rfl
  bound := fun _ => by simp [initial, reduceOption_replicate_none]
  kept := by simp [initial]
  waiters := by simp [initial, Flusher.waiters]
  distinct := by simp [initial, Flusher.waiters]
  flushed := by simp [initial]

section

variable (h : Sound s)

include h

lemma Sound.ackedDurable : AckedDurable s :=
  fun id a ha hp => (h.kept id a ha).returned hp

lemma Sound.modify {phase : Phase} (hphase : s.InPhase id phase)
    (hne : phase ≠ .waiting) {f : Append → Append} (hsize : ∀ a, (f a).size = a.size)
    (hkept : ∀ a, s.appends[id]? = some a → Kept s.file.reduceOption s.durable id (f a)) :
    Sound { s with appends := s.appends.modify id f } := by
  have hcases : ∀ id' a, (s.appends.modify id f)[id']? = some a →
      s.appends[id']? = some a ∨ id' = id ∧ ∃ b, s.appends[id]? = some b ∧ a = f b := by
    intro id' a ha
    rw [getElem?_modify] at ha
    obtain ⟨b, hb, rfl⟩ := map_eq_some_iff.mp ha
    split_ifs with heq
    · subst heq
      exact .inr ⟨rfl, b, hb, rfl⟩
    · exact .inl hb
  refine { h with kept := ?_, waiters := ?_, flushed := ?_ }
  · intro id' a ha
    rcases hcases id' a ha with hold | ⟨rfl, b, hb, rfl⟩
    · exact h.kept id' a hold
    · exact hkept b hb
  · intro id' hid'
    have hw := h.waiters id' hid'
    have hdiff : id ≠ id' := by
      rintro rfl
      exact hne (some.inj (hphase.symm.trans hw))
    simpa [InPhase, getElem?_modify, hdiff] using hw
  · intro ids hids id' hid' a ha
    rcases hcases id' a ha with hold | ⟨rfl, b, hb, rfl⟩
    · exact h.flushed ids hids id' hid' a hold
    · rw [hsize]
      exact h.flushed ids hids id' hid' b hb

lemma Sound.setLock (lock : Option Holder) : Sound { s with lock := lock } :=
  { h with }

lemma Sound.syncAll : Sound s.syncAll := by
  have hsub : s.durable ⊆ s.durable ++ s.file.reduceOption := subset_append_left _ _
  exact
    { h with
      bound := fun hseq => ⟨(h.bound hseq).1, List.Subset.trans (h.bound hseq).2 hsub⟩
      kept := fun id a ha => (h.kept id a ha).mono (fun _ hi => .inl hi) hsub
      flushed := fun ids hids id hid a ha i hi => hsub (h.flushed ids hids id hid a ha i hi) }

lemma Sound.leave (hall : s.file.reduceOption ⊆ s.durable) :
    Sound { s with syncPosition := 0, seq := s.seq + 1, file := [], lock := none } :=
  { h with
    position := rfl
    older := h.older.trans (Nat.le_succ _)
    bound := fun hseq => absurd h.older (by simp only at hseq; omega)
    kept := fun id a ha =>
      (h.kept id a ha).mono (fun _ hi => .inr (hall hi)) (Subset.refl _) }

lemma Sound.grow (bytes : List (Option (ℕ × ℕ))) :
    Sound { s with
      file := s.file ++ bytes, syncPosition := s.file.length + bytes.length, lock := none } :=
  { h with
    position := by simp
    bound := fun hseq => by
      obtain ⟨hle, hsub⟩ := h.bound hseq
      refine ⟨?_, ?_⟩
      · rw [length_append]
        exact hle.trans (Nat.le_add_right _ _)
      · rw [take_append_of_le_length hle]
        exact hsub
    kept := fun id a ha => (h.kept id a ha).mono
      (fun _ hi => .inl (by rw [reduceOption_append]; exact mem_append_left _ hi))
      (Subset.refl _) }

/-! ### The steps -/

lemma Sound.append (size : ℕ) :
    Sound { s with appends := s.appends ++ [⟨size, .checking, toLex (0, 0)⟩] } := by
  have hcases : ∀ id a, (s.appends ++ [⟨size, .checking, toLex (0, 0)⟩])[id]? = some a →
      s.appends[id]? = some a ∨ a.phase = .checking ∧ s.appends.length ≤ id := by
    intro id a ha
    rcases Nat.lt_or_ge id s.appends.length with hlt | hge
    · rw [getElem?_append_left hlt] at ha
      exact .inl ha
    · rw [getElem?_append_right hge] at ha
      rw [getElem?_singleton, ite_none_right_eq_some] at ha
      exact .inr ⟨some.inj ha.2 ▸ rfl, hge⟩
  have hold : ∀ id phase, s.InPhase id phase → id < s.appends.length := by
    intro id phase hp
    obtain ⟨a, ha, -⟩ := map_eq_some_iff.mp hp
    exact (List.getElem?_eq_some_iff.mp ha).1
  refine { h with kept := ?_, waiters := ?_, flushed := ?_ }
  · intro id a ha
    rcases hcases id a ha with ha | ⟨hp, -⟩
    · exact h.kept id a ha
    · exact ⟨by simp [hp], by simp [hp]⟩
  · intro id hid
    have hw := h.waiters id hid
    rw [InPhase, getElem?_append_left (hold id _ hw)]
    exact hw
  · intro ids hids id hid a ha
    rcases hcases id a ha with ha | ⟨-, hge⟩
    · exact h.flushed ids hids id hid a ha
    · have hw := h.waiters id (by rw [hids]; exact mem_append_right _ hid)
      have := hold id _ hw
      omega

lemma Sound.setPhase {phase next : Phase} (hphase : s.InPhase id phase)
    (hne : phase ≠ .waiting) (hnext : next = .rotating ∨ next = .writing ∨ next = .failed) :
    Sound (s.setPhase id next) := by
  refine h.modify hphase hne (fun _ => rfl) fun a _ => ⟨?_, ?_⟩
  · rcases hnext with rfl | rfl | rfl <;> simp
  · rcases hnext with rfl | rfl | rfl <;> simp

lemma Sound.check (hphase : s.InPhase id .checking) : Sound (s.check config id) := by
  refine h.setPhase hphase nofun ?_
  split_ifs
  · exact .inl rfl
  · exact .inr (.inl rfl)

lemma Sound.rotate (hphase : s.InPhase id .rotating) (ok : Bool) :
    Sound (s.rotate id ok) := by
  unfold GroupCommit.rotate
  split_ifs
  · exact (h.syncAll.setPhase hphase nofun (.inr (.inl rfl))).leave (subset_append_right _ _)
  · exact (h.setPhase hphase nofun (.inr (.inr rfl))).setLock none

end

lemma mem_entryBytes {size i : ℕ} (hi : i < size) : (id, i) ∈ (entryBytes id size).reduceOption :=
  reduceOption_mem_iff.mpr (List.mem_map_of_mem (mem_range.mpr hi))

lemma Sound.write (h : Sound s) (hphase : s.InPhase id .writing) : Sound (s.write id) := by
  have hgrown := h.grow (entryBytes id (s.appends[id]?.elim 0 Append.size))
  have hlen : (entryBytes id (s.appends[id]?.elim 0 Append.size)).length =
      s.appends[id]?.elim 0 Append.size := by simp [entryBytes]
  rw [hlen] at hgrown
  refine hgrown.modify hphase nofun (fun _ => rfl) fun a ha => ⟨fun _ i hi => .inl ?_, ?_⟩
  · replace ha : s.appends[id]? = some a := ha
    rw [ha, elim_some, reduceOption_append]
    exact mem_append_right _ (mem_entryBytes hi)
  · split_ifs <;> nofun

lemma length_truncate (s : GroupCommit) (position : ℕ) :
    (s.truncate position).file.length = position := by
  simp only [GroupCommit.truncate, length_append, length_take, length_replicate]
  omega

lemma Sound.truncate (h : Sound s) {position : ℕ} (hok : Flushes config s (.truncate position)) :
    Sound (s.truncate position) := by
  have hfile : (s.truncate position).file.reduceOption = (s.file.take position).reduceOption := by
    simp [GroupCommit.truncate, reduceOption_append, reduceOption_replicate_none]
  refine { h with
    position := (length_truncate s position).symm
    bound := fun hseq => ?_
    kept := fun id a ha => ?_ }
  · obtain ⟨hle, hsub⟩ := h.bound hseq
    rw [length_truncate]
    refine ⟨min_le_right _ _, fun b hb => hsub ?_⟩
    have htake : (s.truncate position).file.take (min s.lastSynced position) =
        s.file.take (min s.lastSynced position) := by
      rw [GroupCommit.truncate, take_append_of_le_length (by rw [length_take]; omega),
        take_take, min_assoc, min_self]
    rw [reduceOption_mem_iff] at hb ⊢
    replace hb : some b ∈ (s.truncate position).file.take (min s.lastSynced position) := hb
    rw [htake] at hb
    exact take_subset_take_left _ (min_le_left _ _) hb
  · rw [hfile]
    have hold := h.kept id a ha
    refine ⟨fun hp i hi => ?_, hold.returned⟩
    rcases hold.written hp i hi with hin | hd
    · rw [← take_append_drop position s.file, reduceOption_append] at hin
      rcases mem_append.mp hin with hin | hout
      · exact .inl hin
      · rcases hok _ hout with hd | hfailed
        · exact .inr hd
        · replace ha : s.appends[id]? = some a := ha
          have hf : a.phase = .failed := by simpa [InPhase, ha] using hfailed
          simp [hf] at hp
    · exact .inr hd

lemma Sound.submit (h : Sound s) (hphase : s.InPhase id .submitting) : Sound (s.submit id) := by
  have hmod : Sound (s.setPhase id .waiting) := by
    refine h.modify hphase nofun (fun _ => rfl) fun a ha => ⟨fun _ => ?_, nofun⟩
    have hp : a.phase = .submitting := by simpa [InPhase, ha] using hphase
    exact (h.kept id a ha).written (.inl hp)
  have hnew : (s.setPhase id .waiting).InPhase id .waiting := by
    obtain ⟨a, ha, -⟩ := map_eq_some_iff.mp hphase
    simp [InPhase, GroupCommit.setPhase, ha]
  have hout : id ∉ s.queue ++ s.flusher.waiters := fun hid =>
    nomatch (h.waiters id hid).symm.trans hphase
  have hperm : (s.queue ++ [id] ++ s.flusher.waiters).Perm
      (id :: (s.queue ++ s.flusher.waiters)) := by
    rw [append_assoc, singleton_append]
    exact perm_middle
  refine { hmod with waiters := fun id' hid' => ?_, distinct := ?_ }
  · rcases mem_cons.mp (hperm.mem_iff.mp hid') with rfl | hid'
    · exact hnew
    · exact hmod.waiters id' hid'
  · exact hperm.nodup_iff.mpr (nodup_cons.mpr ⟨hout, h.distinct⟩)

lemma Sound.collect (h : Sound s) (hidle : s.flusher = .idle) : Sound s.collect := by
  have hperm : (s.queue.drop syncBatchMaxWaiters ++ s.queue.take syncBatchMaxWaiters).Perm
      (s.queue ++ s.flusher.waiters) := by
    rw [hidle, Flusher.waiters, append_nil]
    exact perm_append_comm.trans (.of_eq (take_append_drop _ _))
  exact
    { h with
      waiters := fun id hid => h.waiters id (hperm.mem_iff.mp hid)
      distinct := hperm.nodup_iff.mpr h.distinct
      flushed := nofun }

lemma Sound.fsync (h : Sound s) (rangeOk dataOk : Bool) :
    Sound (s.fsync config rangeOk dataOk) := by
  have hrange : Sound { s.syncAll with lastSynced := s.syncPosition, lastSyncedSeq := s.seq } := by
    refine { h.syncAll with older := le_rfl, bound := fun _ => ?_ }
    rw [h.position]
    exact ⟨le_rfl, fun b hb => mem_append_right _ (by simpa [GroupCommit.syncAll] using hb)⟩
  unfold GroupCommit.fsync
  split_ifs
  · exact h
  · exact hrange
  · exact h
  · exact h
  · exact h.syncAll
  · exact h

lemma Sound.fsync_covers (h : Sound s) {rangeOk dataOk : Bool}
    (hok : Flushes config s (.flush rangeOk dataOk)) :
    s.file.reduceOption ⊆ (s.fsync config rangeOk dataOk).durable := by
  obtain ⟨hlock, rfl, hrange⟩ := hok
  rw [GroupCommit.fsync, if_neg (not_not.mpr hlock)]
  split_ifs with huse hlt hcalls hcalls
  · exact subset_append_right _ _
  · simp [(hrange huse).1] at hcalls
  · -- the position is one in this file, and the file is no longer than that
    obtain ⟨-, hseq | hless⟩ := hrange huse
    · obtain ⟨hle, hsub⟩ := h.bound hseq
      rw [h.position] at hlt
      rwa [take_of_length_le (by omega)] at hsub
    · exact absurd hless hlt
  · exact subset_append_right _ _
  · exact absurd rfl hcalls

lemma fsync_frame (s : GroupCommit) (rangeOk dataOk : Bool) :
    (s.fsync config rangeOk dataOk).appends = s.appends ∧
      (s.fsync config rangeOk dataOk).queue = s.queue ∧
      s.durable ⊆ (s.fsync config rangeOk dataOk).durable := by
  unfold GroupCommit.fsync
  split_ifs <;> simp [syncAll]

lemma Sound.flush (h : Sound s) {waiters : List ℕ} (hcollected : s.flusher = .collected waiters)
    {rangeOk dataOk : Bool} (hok : Flushes config s (.flush rangeOk dataOk)) :
    Sound (s.flush config waiters rangeOk dataOk) := by
  have hsync := @Sound.fsync config s h rangeOk dataOk
  obtain ⟨happends, hqueue, hdurable⟩ := @fsync_frame config s rangeOk dataOk
  have hwaiters : (s.flush config waiters rangeOk dataOk).queue ++ waiters =
      s.queue ++ s.flusher.waiters := by
    rw [hcollected, Flusher.waiters, GroupCommit.flush, hqueue]
  refine { hsync with waiters := fun id hid => ?_, distinct := ?_, flushed := ?_ }
  · rw [InPhase, GroupCommit.flush, happends]
    exact h.waiters id (hwaiters ▸ hid)
  · exact hwaiters ▸ h.distinct
  · rintro _ ⟨⟩ id hid a ha i hi
    rw [GroupCommit.flush, happends] at ha
    have hw := h.waiters id (by rw [hcollected]; exact mem_append_right _ hid)
    have hp : a.phase = .waiting := by simpa [InPhase, ha] using hw
    rcases (h.kept id a ha).written (.inr hp) i hi with hin | hd
    · exact h.fsync_covers hok hin
    · exact hdurable hd

lemma Sound.wake (h : Sound s) {waiters : List ℕ} (hflushed : s.flusher = .flushed waiters) :
    Sound (s.wake waiters) := by
  have hcases : ∀ id a, (s.wake waiters).appends[id]? = some a → ∃ b, s.appends[id]? = some b ∧
      a = if id ∈ waiters then { b with phase := .returned } else b := by
    intro id a ha
    rw [GroupCommit.wake, getElem?_mapIdx] at ha
    obtain ⟨b, hb, rfl⟩ := map_eq_some_iff.mp ha
    exact ⟨b, hb, rfl⟩
  have hdistinct := h.distinct
  rw [hflushed, Flusher.waiters, nodup_append] at hdistinct
  refine { h with kept := ?_, waiters := ?_, distinct := ?_, flushed := nofun }
  · intro id a ha
    obtain ⟨b, hb, rfl⟩ := hcases id a ha
    split_ifs with hid
    · exact ⟨by simp, fun _ => h.flushed waiters hflushed id hid b hb⟩
    · exact h.kept id b hb
  · intro id hid
    rw [GroupCommit.wake, Flusher.waiters, append_nil] at hid
    have hout : id ∉ waiters := fun hw => hdistinct.2.2 id hid id hw rfl
    have hw := h.waiters id (mem_append_left _ hid)
    simpa [InPhase, GroupCommit.wake, hout] using hw
  · simpa [GroupCommit.wake, Flusher.waiters] using hdistinct.1

lemma Sound.step (h : Sound s) {a : Act} (hok : Flushes config s a)
    (hs : GroupCommit.step config s a = some s') : Sound s' := by
  cases a <;> simp only [GroupCommit.step, ite_none_right_eq_some, some.injEq] at hs
  case append size => exact hs ▸ h.append size
  case check id => exact hs.2 ▸ h.check hs.1
  case acquire holder => exact hs.2 ▸ h.setLock _
  case rotate id ok => exact hs.2 ▸ h.rotate hs.1.2 ok
  case write id => exact hs.2 ▸ h.write hs.1.2
  case truncate position => exact hs.2 ▸ h.truncate hok
  case sync ok =>
    obtain ⟨-, rfl⟩ := hs
    refine Sound.setLock ?_ none
    split_ifs
    · exact h.syncAll
    · exact h
  case submit id => exact hs.2 ▸ h.submit hs.1.1
  case collect => exact hs.2 ▸ h.collect hs.1.1
  case flush rangeOk dataOk =>
    split at hs
    · rename_i waiters hcollected
      exact some.inj hs ▸ h.flush hcollected hok
    · cases hs
  case wake =>
    split at hs
    · rename_i waiters hflushed
      exact some.inj hs ▸ h.wake hflushed
    · cases hs

instance decidableFlushes (config : WalConfig) (s : GroupCommit) :
    DecidablePred (Flushes config s) := fun a => by
  cases a <;> unfold Flushes <;> infer_instance

/-- **What an append returns is durable**: in every interleaving of appends, rotations, truncations
and flushes in which the flushes reach the file, an append that has returned has had every byte of
its entry covered by a sync of its file that succeeded. -/
theorem ackedDurable_of_flushes (config : WalConfig) (seq existingSize : ℕ) (acts : List Act)
    (hok : Guarded (GroupCommit.step config) (Flushes config) (GroupCommit.initial seq existingSize)
      acts) :
    Always (GroupCommit.step config) AckedDurable (GroupCommit.initial seq existingSize) acts :=
  always_of_guarded (fun _ _ _ h hok hs => Sound.step h hok hs) (fun _ h => Sound.ackedDurable h)
    (sound_initial seq existingSize) hok

/-- Two appends share a flush; the next one rotates, and is longer than what was synced before. -/
theorem flush_shared_then_rotated :
    Always (GroupCommit.step ⟨200, true⟩) AckedDurable (GroupCommit.initial 0 0)
      [.append 88, .append 88, .check 0, .check 1, .acquire (.append 0), .write 0,
        .acquire (.append 1), .submit 0, .write 1, .submit 1, .collect, .flush true true, .wake,
        .append 180, .check 2, .acquire (.append 2), .rotate 2 true, .acquire (.append 2),
        .write 2, .submit 2, .collect, .flush true true, .wake, .acquire (.truncate 0),
        .truncate 0] :=
  ackedDurable_of_flushes ⟨200, true⟩ 0 0 _ (by decide +kernel)

/-- An append has returned, and its first byte has not been synced. -/
def Unsynced (id : ℕ) (s : GroupCommit) : Prop :=
  ∃ a ∈ s.appends[id]?, a.phase = .returned ∧ 0 < a.size ∧ (id, 0) ∉ s.durable

instance (id : ℕ) (s : GroupCommit) : Decidable (s.Unsynced id) :=
  inferInstanceAs (Decidable (∃ _ ∈ _, _))

lemma not_always_of_unsynced {acts : List Act} {s₀ : GroupCommit}
    (h : ∃ s ∈ run (GroupCommit.step config) s₀ acts, s.Unsynced id) :
    ¬ Always (GroupCommit.step config) AckedDurable s₀ acts := by
  intro hall
  obtain ⟨s, hs, a, ha, hp, hpos, hout⟩ := h
  exact hout ((always_iff_run _ _).mp hall _ s prefix_rfl hs id a ha hp 0 hpos)

/-- The flusher finds the lock taken by another append; its sync fails; and a rotation leaves a
synced position that the next file does not reach. -/
theorem returned_without_sync :
    ¬ Always (GroupCommit.step ⟨1000, false⟩) AckedDurable (GroupCommit.initial 0 0)
        [.append 88, .check 0, .acquire (.append 0), .write 0, .submit 0, .append 88, .check 1,
          .acquire (.append 1), .collect, .flush true true, .wake] ∧
      ¬ Always (GroupCommit.step ⟨1000, false⟩) AckedDurable (GroupCommit.initial 0 0)
        [.append 88, .check 0, .acquire (.append 0), .write 0, .submit 0, .collect,
          .flush true false, .wake] ∧
      ¬ Always (GroupCommit.step ⟨200, true⟩) AckedDurable (GroupCommit.initial 0 0)
        [.append 150, .check 0, .acquire (.append 0), .write 0, .submit 0, .collect,
          .flush true true, .wake, .append 100, .check 1, .acquire (.append 1), .rotate 1 true,
          .acquire (.append 1), .write 1, .submit 1, .collect, .flush true true, .wake] := by
  refine ⟨@not_always_of_unsynced _ 0 _ _ ?_, @not_always_of_unsynced _ 0 _ _ ?_,
    @not_always_of_unsynced _ 1 _ _ ?_⟩
  all_goals decide +kernel

end GroupCommit

end OceanFs.Wal
