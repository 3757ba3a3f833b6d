import Mathlib.Data.List.Induction
import OceanFs.Lib.Runs
import OceanFs.Wal.Entry

/-!
Rebuilding a segment from its data WAL entries.

A chunk gets its place in the segment when it is appended to the slot, and its WAL entry is
written later, in whatever order the writers come to it. A replay does not look at the offset in
the entries: it appends their data one behind the other. The chunks come to lie where they were
exactly as far as the entries are in the WAL in the order of the offsets and without gaps.
-/

namespace OceanFs.Wal

open OceanFs.Core Segment Lib.Runs List Option

/-- The target sizes of the segments and the tier of a blob by its size. -/
structure SegmentSizeConfig where
  smallTargetSize : ℕ
  defaultTargetSize : ℕ
  classify : ℕ → SizeTier

def fillTarget (config : SegmentSizeConfig) : SizeTier → ℕ
  | .small => config.smallTargetSize
  | _ => config.defaultTargetSize

/-! ### A segment in the pool -/

/-- What a replay has made of one segment: the one that a slot is filling, and the buffers that
have been frozen and handed to the seal worker. -/
structure Rebuild where
  building : Option Bytes
  frozen : List Bytes
  deriving DecidableEq

/-- `append_replayed`: the data goes to the slot that is filling the segment, or else to an empty
one. A segment that is full is frozen at once. -/
def appendReplayed (target : ℕ) (r : Rebuild) (data : Bytes) : Rebuild :=
  let buffer := r.building.getD [] ++ data
  if target ≤ buffer.length then ⟨none, r.frozen ++ [buffer]⟩ else ⟨some buffer, r.frozen⟩

def sealReplayedPartial (r : Rebuild) : List Bytes :=
  r.frozen ++ r.building.toList

/-- `drain_replay_group`, and the same in `replay_queued_segment`. -/
def drainReplayGroup (target : ℕ) (data : List Bytes) : List Bytes :=
  sealReplayedPartial (data.foldl (appendReplayed target) ⟨none, []⟩)

/-- The data of a segment's entries, in the order of the WAL. -/
def group (id : SegmentId) (entries : List WalEntry) : List Bytes :=
  (entries.filter (·.segmentId = id)).map (·.data)

/-- The part of `recover_reserved_unsealed` for one segment: a `.dat` file that the interrupted
seal has left is adopted, or else the entries are replayed. -/
def recoverReservedUnsealed (target : ℕ) (dat : Option Bytes) (id : SegmentId)
    (entries : List WalEntry) : List Bytes :=
  match dat with
  | some data => [data]
  | none => drainReplayGroup target (group id entries)

/-! ### `replay_wal` -/

structure QueuedSegment where
  segmentId : SegmentId
  tier : SizeTier
  entries : List Bytes
  bytes : ℕ
  complete : Bool
  deriving DecidableEq

/-- The queue, the bytes in its complete groups, and the segments that have been rebuilt. -/
structure ReplayState where
  queue : List QueuedSegment
  completeBytes : ℕ
  rebuilt : List (SegmentId × List Bytes)
  deriving DecidableEq

/-- `REPLAY_QUEUE_BOUND`. -/
def replayQueueBound : ℕ := 64 * 1024 * 1024

section

variable (config : SegmentSizeConfig)

def QueuedSegment.push (g : QueuedSegment) (e : WalEntry) : QueuedSegment :=
  { g with
    entries := g.entries ++ [e.data]
    bytes := g.bytes + e.length
    complete := g.complete || fillTarget config g.tier ≤ g.bytes + e.length }

/-- The entry is added to the group of its segment; the number is what that adds to the bytes in
complete groups. -/
def enqueue (tier : SizeTier) (e : WalEntry) : List QueuedSegment → List QueuedSegment × ℕ
  | [] =>
    let g := QueuedSegment.push config ⟨e.segmentId, tier, [], 0, false⟩ e
    ([g], if g.complete then g.bytes else 0)
  | g :: queue =>
    if g.segmentId = e.segmentId then
      let g' := g.push config e
      (g' :: queue, if !g.complete && g'.complete then g'.bytes else 0)
    else
      let r := enqueue tier e queue
      (g :: r.1, r.2)

def replayQueuedSegment (g : QueuedSegment) : SegmentId × List Bytes :=
  match g.tier with
  | .inline => (g.segmentId, [])
  | tier => (g.segmentId, drainReplayGroup (fillTarget config tier) g.entries)

/-- The pool that an entry names, or the one for its size. -/
def entryTier (e : WalEntry) : SizeTier :=
  if e.tier = 0 then .small else if e.tier = 1 then .standard else config.classify e.length

/-- The groups that are complete are rebuilt when there is too much of them. -/
def drainComplete (s : ReplayState) : ReplayState :=
  if replayQueueBound ≤ s.completeBytes then
    { queue := s.queue.filter (!·.complete)
      completeBytes := 0
      rebuilt := s.rebuilt ++ (s.queue.filter (·.complete)).map (replayQueuedSegment config) }
  else s

def replayEntry (alreadySealed : SegmentId → Bool) (s : ReplayState) (e : WalEntry) :
    ReplayState :=
  if alreadySealed e.segmentId then s
  else if entryTier config e = .inline then s
  else
    let r := enqueue config (entryTier config e) e s.queue
    drainComplete config ⟨r.1, s.completeBytes + r.2, s.rebuilt⟩

def replayWal (alreadySealed : SegmentId → Bool) (entries : List WalEntry) :
    List (SegmentId × List Bytes) :=
  let s := entries.foldl (replayEntry config alreadySealed) ⟨[], 0, []⟩
  s.rebuilt ++ s.queue.map (replayQueuedSegment config)

end

/-- The buffers that have been frozen for a segment. -/
def rebuiltOf (id : SegmentId) (rebuilt : List (SegmentId × List Bytes)) : List Bytes :=
  (rebuilt.filter (·.1 = id)).flatMap (·.2)

/-! ### Groups that fill their segment once -/

/-- Before each entry of the segment, the entries in front of it do not fill the segment. -/
def FillsLast (target : ℕ) (id : SegmentId) (entries : List WalEntry) : Prop :=
  ∀ k e, entries[k]? = some e → e.segmentId = id →
    (group id (entries.take k)).flatten.length < target

variable {config : SegmentSizeConfig} {target : ℕ} {id : SegmentId} {entries : List WalEntry}
  {e : WalEntry}

lemma group_append (id : SegmentId) (a b : List WalEntry) :
    group id (a ++ b) = group id a ++ group id b := by
  simp [group]

lemma group_singleton (he : e.segmentId = id) : group id [e] = [e.data] := by
  simp [group, he]

lemma group_singleton_of_ne (he : e.segmentId ≠ id) : group id [e] = [] := by
  simp [group, he]

lemma FillsLast.init (h : FillsLast target id (entries ++ [e])) : FillsLast target id entries := by
  intro k e' he' hid
  have hlt : k < entries.length := (List.getElem?_eq_some_iff.mp he').1
  have := h k e' (by rw [getElem?_append_left hlt]; exact he') hid
  rwa [take_append_of_le_length hlt.le] at this

lemma FillsLast.last (h : FillsLast target id (entries ++ [e])) (he : e.segmentId = id) :
    (group id entries).flatten.length < target := by
  simpa using h entries.length e (by simp) he

/-- What is in the pool after the entries: nothing, a segment that is not full, or a full one that
has left its slot. -/
lemma foldl_group (h : FillsLast target id entries) (hne : group id entries ≠ []) :
    (group id entries).foldl (appendReplayed target) ⟨none, []⟩ =
      if target ≤ (group id entries).flatten.length then ⟨none, [(group id entries).flatten]⟩
      else ⟨some (group id entries).flatten, []⟩ := by
  induction entries using List.reverseRecOn with
  | nil => exact absurd rfl hne
  | append_singleton entries e ih =>
    rw [group_append] at hne ⊢
    by_cases he : e.segmentId = id
    · have hlt := h.last he
      rw [group_singleton he, foldl_append, foldl_cons, foldl_nil,
        flatten_append, flatten_singleton]
      by_cases hnil : group id entries = []
      · simp [hnil, appendReplayed]
      · rw [ih h.init hnil, if_neg (Nat.not_le.mpr hlt)]
        simp [appendReplayed]
    · rw [group_singleton_of_ne he, append_nil] at hne ⊢
      exact ih h.init hne

lemma drainReplayGroup_eq (h : FillsLast target id entries) (hne : group id entries ≠ []) :
    drainReplayGroup target (group id entries) = [(group id entries).flatten] := by
  rw [drainReplayGroup, foldl_group h hne]
  split_ifs <;> rfl

/-! ### The queue -/

/-- The byte that the write path records for a pool. -/
def poolByte : SizeTier → UInt8
  | .small => 0
  | _ => 1

/-- The tier that a replay reads from it. -/
def poolTier : SizeTier → SizeTier
  | .small => .small
  | _ => .standard

lemma entryTier_eq {tier : SizeTier} (he : e.tier = poolByte tier) :
    entryTier config e = poolTier tier := by
  rw [entryTier, he]
  cases tier <;> rfl

variable (tier : SizeTier)

lemma fillTarget_poolTier :
    fillTarget config (poolTier tier) = fillTarget config tier := by
  cases tier <;> rfl

/-- The entries of a segment record their pool and the length of their data. -/
def Labelled (id : SegmentId) (entries : List WalEntry) : Prop :=
  ∀ e ∈ entries, e.segmentId = id → e.tier = poolByte tier ∧ e.length = e.data.length

/-- The group of a segment after its entries have been added. -/
def queued (config : SegmentSizeConfig) (tier : SizeTier) (id : SegmentId) (data : List Bytes) :
    QueuedSegment :=
  ⟨id, poolTier tier, data, data.flatten.length, fillTarget config tier ≤ data.flatten.length⟩

lemma filter_enqueue_of_ne (he : e.segmentId ≠ id) (queue : List QueuedSegment) :
    (enqueue config tier e queue).1.filter (·.segmentId = id) =
      queue.filter (·.segmentId = id) := by
  induction queue with
  | nil => simp [enqueue, QueuedSegment.push, he]
  | cons g queue ih =>
    rw [enqueue]
    split_ifs with hg
    · have hne : g.segmentId ≠ id := hg ▸ he
      simp [QueuedSegment.push, hne]
    · simp only [filter_cons, ih]

lemma filter_enqueue_of_nil (he : e.segmentId = id) {queue : List QueuedSegment}
    (hnil : queue.filter (·.segmentId = id) = []) :
    (enqueue config tier e queue).1.filter (·.segmentId = id) =
      [QueuedSegment.push config ⟨id, tier, [], 0, false⟩ e] := by
  induction queue with
  | nil => simp [enqueue, QueuedSegment.push, he]
  | cons g queue ih =>
    have hg : g.segmentId ≠ id := by
      intro hg
      simp [hg] at hnil
    have hrest : queue.filter (·.segmentId = id) = [] := by simpa [hg] using hnil
    rw [enqueue, if_neg (he ▸ hg), filter_cons_of_neg (by simpa using hg), ih hrest]

lemma filter_enqueue_of_singleton (he : e.segmentId = id) {queue : List QueuedSegment}
    {g : QueuedSegment} (hone : queue.filter (·.segmentId = id) = [g]) :
    (enqueue config tier e queue).1.filter (·.segmentId = id) = [g.push config e] := by
  induction queue with
  | nil => simp at hone
  | cons g' queue ih =>
    by_cases hg : g'.segmentId = id
    · rw [filter_cons_of_pos (by simpa using hg)] at hone
      obtain ⟨rfl, hrest⟩ := cons.inj hone
      have hg' : (g'.push config e).segmentId = id := hg
      rw [enqueue, if_pos (hg.trans he.symm)]
      simp [hg', hrest]
    · rw [filter_cons_of_neg (by simpa using hg)] at hone
      rw [enqueue, if_neg (he ▸ hg), filter_cons_of_neg (by simpa using hg), ih hone]

/-- Where the entries of a segment are: there are none, or they are in the queue, or there are
enough for a full segment and it has been rebuilt. -/
def Replaying (config : SegmentSizeConfig) (tier : SizeTier) (id : SegmentId) (data : List Bytes)
    (s : ReplayState) : Prop :=
  (data = [] ∧ s.queue.filter (·.segmentId = id) = [] ∧ s.rebuilt.filter (·.1 = id) = []) ∨
  (data ≠ [] ∧ s.queue.filter (·.segmentId = id) = [queued config tier id data] ∧
    s.rebuilt.filter (·.1 = id) = []) ∨
  (fillTarget config tier ≤ data.flatten.length ∧ s.queue.filter (·.segmentId = id) = [] ∧
    s.rebuilt.filter (·.1 = id) = [(id, drainReplayGroup (fillTarget config tier) data)])

lemma replayQueuedSegment_fst (g : QueuedSegment) :
    (replayQueuedSegment config g).1 = g.segmentId := by
  unfold replayQueuedSegment
  split <;> rfl

lemma replayQueuedSegment_queued (data : List Bytes) :
    replayQueuedSegment config (queued config tier id data) =
      (id, drainReplayGroup (fillTarget config tier) data) := by
  cases tier <;> rfl

lemma filter_map_replayQueuedSegment (queue : List QueuedSegment) :
    (queue.map (replayQueuedSegment config)).filter (·.1 = id) =
      (queue.filter (·.segmentId = id)).map (replayQueuedSegment config) := by
  rw [List.filter_map]
  refine congrArg _ (filter_congr fun g _ => ?_)
  simp [replayQueuedSegment_fst]

lemma Replaying.drainComplete {tier : SizeTier} {data : List Bytes} {s : ReplayState}
    (h : Replaying config tier id data s) :
    Replaying config tier id data (Wal.drainComplete config s) := by
  unfold Wal.drainComplete
  split_ifs
  · have hqueue : (s.queue.filter (!·.complete)).filter (·.segmentId = id) =
        (s.queue.filter (·.segmentId = id)).filter (!·.complete) := filter_comm ..
    have hdone : (s.queue.filter (·.complete)).filter (·.segmentId = id) =
        (s.queue.filter (·.segmentId = id)).filter (·.complete) := filter_comm ..
    unfold Replaying
    simp only [filter_append, filter_map_replayQueuedSegment, hqueue, hdone]
    rcases h with ⟨hdata, hq, hr⟩ | ⟨hdata, hq, hr⟩ | ⟨hfull, hq, hr⟩
    · exact .inl ⟨hdata, by simp [hq], by simp [hq, hr]⟩
    · by_cases hfull : fillTarget config tier ≤ data.flatten.length
      · have hc : (queued config tier id data).complete = true := decide_eq_true hfull
        exact .inr (.inr ⟨hfull, by simp [hq, hc],
          by simp [hq, hr, hc, replayQueuedSegment_queued]⟩)
      · have hc : (queued config tier id data).complete = false := decide_eq_false hfull
        exact .inr (.inl ⟨hdata, by simp [hq, hc], by simp [hq, hr, hc]⟩)
    · exact .inr (.inr ⟨hfull, by simp [hq], by simp [hq, hr]⟩)
  · exact h

lemma push_queued {tier : SizeTier} {data : List Bytes} (hlen : e.length = e.data.length)
    (hopen : data.flatten.length < fillTarget config tier) :
    (queued config tier id data).push config e = queued config tier id (data ++ [e.data]) := by
  have hlt : ¬ fillTarget config tier ≤ data.flatten.length := Nat.not_le.mpr hopen
  simp only [QueuedSegment.push, queued, fillTarget_poolTier, hlen, flatten_append,
    flatten_singleton, length_append, decide_eq_false hlt, Bool.false_or]

lemma Replaying.replayEntry {tier : SizeTier} {s : ReplayState} {alreadySealed : SegmentId → Bool}
    (hopen : alreadySealed id = false) (hlabel : Labelled tier id (entries ++ [e]))
    (hfill : FillsLast (fillTarget config tier) id (entries ++ [e]))
    (h : Replaying config tier id (group id entries) s) :
    Replaying config tier id (group id (entries ++ [e]))
      (Wal.replayEntry config alreadySealed s e) := by
  rw [group_append]
  unfold Wal.replayEntry
  by_cases he : e.segmentId = id
  · obtain ⟨htier, hlen⟩ := hlabel e (by simp) he
    have hlt := hfill.last he
    have hinline : entryTier config e ≠ .inline := by
      rw [entryTier_eq htier]
      cases tier <;> nofun
    rw [group_singleton he, he, hopen, if_neg Bool.false_ne_true, if_neg hinline]
    refine Replaying.drainComplete ?_
    rcases h with ⟨hdata, hq, hr⟩ | ⟨hdata, hq, hr⟩ | ⟨hfull, -, -⟩
    · refine .inr (.inl ⟨by simp, ?_, hr⟩)
      rw [hdata] at hlt ⊢
      have hempty : queued config tier id [] = ⟨id, poolTier tier, [], 0, false⟩ :=
        congrArg (QueuedSegment.mk id _ [] 0) (decide_eq_false (Nat.not_le.mpr hlt))
      rw [filter_enqueue_of_nil _ he hq, entryTier_eq htier, ← push_queued hlen hlt, hempty]
    · refine .inr (.inl ⟨by simp, ?_, hr⟩)
      rw [filter_enqueue_of_singleton _ he hq, push_queued hlen hlt]
    · omega
  · rw [group_singleton_of_ne he, append_nil]
    split_ifs
    · exact h
    · exact h
    · refine Replaying.drainComplete ?_
      unfold Replaying at h ⊢
      rwa [filter_enqueue_of_ne _ he]

theorem rebuiltOf_replayWal {tier : SizeTier} {alreadySealed : SegmentId → Bool}
    (hopen : alreadySealed id = false) (hlabel : Labelled tier id entries)
    (hfill : FillsLast (fillTarget config tier) id entries) :
    rebuiltOf id (replayWal config alreadySealed entries) =
      drainReplayGroup (fillTarget config tier) (group id entries) := by
  have hrun : Replaying config tier id (group id entries)
      (entries.foldl (Wal.replayEntry config alreadySealed) ⟨[], 0, []⟩) := by
    induction entries using List.reverseRecOn with
    | nil => exact .inl ⟨rfl, rfl, rfl⟩
    | append_singleton entries e ih =>
      rw [foldl_append]
      exact Replaying.replayEntry hopen hlabel hfill
        (ih (fun e' he' => hlabel e' (mem_append_left _ he')) hfill.init)
  rw [rebuiltOf, replayWal, filter_append, filter_map_replayQueuedSegment]
  rcases hrun with ⟨hdata, hq, hr⟩ | ⟨hdata, hq, hr⟩ | ⟨hfull, hq, hr⟩
  · rw [hq, hr, hdata]
    rfl
  · simp [hq, hr, replayQueuedSegment_queued]
  · simp [hq, hr]

/-! ### Writers and a crash -/

/-- How far a chunk has come: it has its place, its entry is the one with this number in the WAL,
or the write has been acknowledged as well. -/
inductive Stage
  | placed
  | logged (index : ℕ)
  | acked (index : ℕ)
  deriving DecidableEq

structure ChunkWrite where
  entry : WalEntry
  stage : Stage
  deriving DecidableEq

/-- An active segment with its writers: its buffer, whether it takes no more chunks, whether its
`.dat` file is durable, and the entries of the WAL, those of other segments among them. -/
structure Filling where
  buffer : Bytes
  frozen : Bool
  dat : Bool
  wal : List WalEntry
  writes : List ChunkWrite
  deriving DecidableEq

namespace Filling

def initial : Filling := ⟨[], false, false, [], []⟩

inductive Act
  /-- A slot append. Of the entry, the data, the logical length, the time and the checksum are the
  writer's. -/
  | place (e : WalEntry)
  /-- The segment is sealed before it is full. -/
  | freeze
  /-- The seal worker has written the `.dat` file. -/
  | persist
  | log (i : ℕ)
  | other (e : WalEntry)
  | ack (i : ℕ)
  deriving DecidableEq

section

variable (config : SegmentSizeConfig) (tier : SizeTier) (id : SegmentId)

/-- The entry of a chunk that has been put at the end of the segment. -/
def placedEntry (s : Filling) (e : WalEntry) : WalEntry :=
  { e with
    segmentId := id
    offset := s.buffer.length
    length := e.data.length
    tier := poolByte tier }

/-- `try_append_with_hook`: a segment that is full takes no more chunks. -/
def place (s : Filling) (e : WalEntry) : Filling :=
  { s with
    buffer := s.buffer ++ e.data
    frozen := fillTarget config tier ≤ (s.buffer ++ e.data).length
    writes := s.writes ++ [⟨placedEntry tier id s e, .placed⟩] }

def step (s : Filling) : Act → Option Filling
  | .place e =>
    if s.frozen ∨ fillTarget config tier ≤ s.buffer.length then none
    else some (s.place config tier id e)
  | .freeze => if s.frozen ∨ s.buffer = [] then none else some { s with frozen := true }
  | .persist => if s.frozen then some { s with dat := true } else none
  | .log i =>
    match s.writes[i]? with
    | some ⟨e, .placed⟩ =>
      some { s with wal := s.wal ++ [e], writes := s.writes.set i ⟨e, .logged s.wal.length⟩ }
    | _ => none
  | .other e => if e.segmentId = id then none else some { s with wal := s.wal ++ [e] }
  | .ack i =>
    match s.writes[i]? with
    | some ⟨e, .logged index⟩ => some { s with writes := s.writes.set i ⟨e, .acked index⟩ }
    | _ => none

/-- There is one buffer for the segment, and the data of the entry is in its place. -/
def ReadsBack (e : WalEntry) (buffers : List Bytes) : Prop :=
  ∃ buffer, buffers = [buffer] ∧ (buffer.drop e.offset).take e.length = e.data

/-- After a crash that leaves a part of the WAL with all acknowledged entries in it, the recovery at
startup and `replay_wal` put the data of each of them in its place. -/
def Recovers (s : Filling) : Prop :=
  ∀ n, (∀ w ∈ s.writes, ∀ k, w.stage = .acked k → k < n) →
    ∀ w ∈ s.writes, ∀ k, w.stage = .acked k →
      ReadsBack w.entry (recoverReservedUnsealed (fillTarget config tier)
        (if s.dat then some s.buffer else none) id (s.wal.take n)) ∧
      ∀ alreadySealed : SegmentId → Bool, alreadySealed id = false →
        ReadsBack w.entry (rebuiltOf id (replayWal config alreadySealed (s.wal.take n)))

/-- An entry is logged when the WAL holds what lies before it in the segment. -/
def InOffsetOrder (s : Filling) : Act → Prop
  | .log i => ∀ w ∈ s.writes[i]?, w.entry.offset = (group id s.wal).flatten.length
  | _ => True

/-! ### The invariant -/

/-- An entry of the segment, whose data is in the segment's buffer at its place. -/
structure Placed (buffer : Bytes) (e : WalEntry) : Prop where
  segment : e.segmentId = id
  pool : e.tier = poolByte tier
  length : e.length = e.data.length
  inside : e.offset < fillTarget config tier
  data : (buffer.drop e.offset).take e.length = e.data

structure Sound (s : Filling) : Prop where
  writes : ∀ w ∈ s.writes, Placed config tier id s.buffer w.entry
  logged : ∀ w ∈ s.writes, ∀ k, w.stage = .logged k ∨ w.stage = .acked k → s.wal[k]? = some w.entry
  wal : ∀ k e, s.wal[k]? = some e → e.segmentId = id →
    Placed config tier id s.buffer e ∧ e.offset = (group id (s.wal.take k)).flatten.length

variable {config tier id} {s s' : Filling}

lemma sound_initial : Sound config tier id initial where
  writes := by simp [initial]
  logged := by simp [initial]
  wal := by simp [initial]

lemma Sound.fillsLast (h : Sound config tier id s) (n : ℕ) :
    FillsLast (fillTarget config tier) id (s.wal.take n) := by
  intro k e he hid
  rw [getElem?_take, ite_none_right_eq_some] at he
  obtain ⟨hplaced, hoffset⟩ := h.wal k e he.2 hid
  rw [take_take, min_eq_left he.1.le, ← hoffset]
  exact hplaced.inside

lemma Sound.labelled (h : Sound config tier id s) (n : ℕ) :
    Labelled tier id (s.wal.take n) := by
  intro e he hid
  obtain ⟨k, hk⟩ := mem_iff_getElem?.mp (mem_of_mem_take he)
  obtain ⟨hplaced, -⟩ := h.wal k e hk hid
  exact ⟨hplaced.pool, hplaced.length⟩

lemma Sound.readsBack (h : Sound config tier id s) {n k : ℕ} {e : WalEntry}
    (he : s.wal[k]? = some e) (hid : e.segmentId = id) (hk : k < n) :
    group id (s.wal.take n) ≠ [] ∧
      ((group id (s.wal.take n)).flatten.drop e.offset).take e.length = e.data := by
  obtain ⟨hplaced, hoffset⟩ := h.wal k e he hid
  obtain ⟨rest, hrest⟩ : ∃ rest, s.wal.take n = s.wal.take k ++ ([e] ++ rest) := by
    have hget : (s.wal.take n)[k]? = some e := by rwa [getElem?_take_of_lt hk]
    obtain ⟨hlt, rfl⟩ := List.getElem?_eq_some_iff.mp hget
    refine ⟨(s.wal.take n).drop (k + 1), ?_⟩
    rw [singleton_append, ← drop_eq_getElem_cons, ← min_eq_left hk.le, ← take_take,
      min_eq_left hk.le, take_append_drop]
  rw [hrest, group_append, group_append, group_singleton hid]
  refine ⟨by simp, ?_⟩
  rw [flatten_append, hoffset, drop_left, hplaced.length]
  simp

lemma Sound.recovers (h : Sound config tier id s) : Recovers config tier id s := by
  intro n hn w hw k hk
  have he := h.logged w hw k (.inr hk)
  have hplaced := h.writes w hw
  obtain ⟨hne, hdata⟩ := h.readsBack he hplaced.segment (hn w hw k hk)
  have hdrain : ReadsBack w.entry
      (drainReplayGroup (fillTarget config tier) (group id (s.wal.take n))) :=
    ⟨_, drainReplayGroup_eq (h.fillsLast n) hne, hdata⟩
  refine ⟨?_, fun alreadySealed hopen => ?_⟩
  · unfold recoverReservedUnsealed
    split_ifs
    · exact ⟨_, rfl, hplaced.data⟩
    · exact hdrain
  · rwa [rebuiltOf_replayWal hopen (h.labelled n) (h.fillsLast n)]

lemma Placed.append {buffer : Bytes} {e : WalEntry} (h : Placed config tier id buffer e)
    (data : Bytes) : Placed config tier id (buffer ++ data) e := by
  refine { h with data := ?_ }
  have hlen : e.length ≤ (buffer.drop e.offset).length := by
    have := congrArg List.length h.data
    rw [length_take, ← h.length] at this
    omega
  rw [drop_append, take_append_of_le_length hlen, h.data]

/-! ### The steps -/

variable (h : Sound config tier id s)

include h

lemma Sound.place {e : WalEntry} (hroom : s.buffer.length < fillTarget config tier) :
    Sound config tier id (s.place config tier id e) := by
  refine ⟨fun w hw => ?_, fun w hw k hk => ?_, fun k e' he' hid => ?_⟩
  · rcases mem_append.mp hw with hw | hw
    · exact (h.writes w hw).append e.data
    · rw [mem_singleton.mp hw]
      exact ⟨rfl, rfl, rfl, hroom, by simp [Filling.place, placedEntry]⟩
  · rcases mem_append.mp hw with hw | hw
    · exact h.logged w hw k hk
    · rw [mem_singleton.mp hw] at hk
      simp at hk
  · obtain ⟨hplaced, hoffset⟩ := h.wal k e' he' hid
    exact ⟨hplaced.append e.data, hoffset⟩

lemma Sound.extend {e : WalEntry}
    (he : e.segmentId = id → Placed config tier id s.buffer e ∧
      e.offset = (group id s.wal).flatten.length) :
    Sound config tier id { s with wal := s.wal ++ [e] } := by
  refine { h with logged := fun w hw k hk => ?_, wal := fun k e' he' hid => ?_ }
  · have hold := h.logged w hw k hk
    rw [getElem?_append_left (List.getElem?_eq_some_iff.mp hold).1]
    exact hold
  · rcases Nat.lt_or_ge k s.wal.length with hlt | hge
    · rw [getElem?_append_left hlt] at he'
      rw [take_append_of_le_length hlt.le]
      exact h.wal k e' he' hid
    · rw [getElem?_append_right hge, getElem?_singleton, ite_none_right_eq_some] at he'
      obtain ⟨hk, he'⟩ := he'
      obtain rfl := some.inj he'
      obtain rfl : k = s.wal.length := by omega
      rw [take_left]
      exact he hid

lemma Sound.setStage {i : ℕ} {e : WalEntry} {old new : Stage} (hi : s.writes[i]? = some ⟨e, old⟩)
    (hnew : ∀ k, new = .logged k ∨ new = .acked k → s.wal[k]? = some e) :
    Sound config tier id { s with writes := s.writes.set i ⟨e, new⟩ } := by
  have hmem : ∀ w ∈ s.writes.set i ⟨e, new⟩, w ∈ s.writes ∨ w = ⟨e, new⟩ := fun w hw =>
    mem_or_eq_of_mem_set hw
  refine { h with writes := fun w hw => ?_, logged := fun w hw k hk => ?_ }
  · rcases hmem w hw with hold | rfl
    · exact h.writes w hold
    · exact h.writes ⟨e, old⟩ (mem_of_getElem? hi)
  · rcases hmem w hw with hold | rfl
    · exact h.logged w hold k hk
    · exact hnew k hk

lemma Sound.log {i : ℕ} {e : WalEntry} (hi : s.writes[i]? = some ⟨e, .placed⟩)
    (hok : InOffsetOrder id s (.log i)) :
    Sound config tier id
      { s with wal := s.wal ++ [e], writes := s.writes.set i ⟨e, .logged s.wal.length⟩ } := by
  have hext := h.extend fun _ => ⟨h.writes _ (mem_of_getElem? hi), hok _ hi⟩
  refine hext.setStage hi fun k hk => ?_
  obtain rfl : s.wal.length = k := by simpa using hk
  simp

lemma Sound.ack {i index : ℕ} {e : WalEntry} (hi : s.writes[i]? = some ⟨e, .logged index⟩) :
    Sound config tier id { s with writes := s.writes.set i ⟨e, .acked index⟩ } := by
  refine h.setStage hi fun k hk => ?_
  obtain rfl : index = k := by simpa using hk
  exact h.logged _ (mem_of_getElem? hi) index (.inl rfl)

lemma Sound.step {a : Act} (hok : InOffsetOrder id s a)
    (hs : Filling.step config tier id s a = some s') : Sound config tier id s' := by
  cases a with
  | place e =>
    simp only [Filling.step, ite_none_left_eq_some, not_or, not_le] at hs
    exact some.inj hs.2 ▸ h.place hs.1.2
  | freeze =>
    simp only [Filling.step, ite_none_left_eq_some] at hs
    exact some.inj hs.2 ▸ { h with }
  | persist =>
    simp only [Filling.step, ite_none_right_eq_some] at hs
    exact some.inj hs.2 ▸ { h with }
  | log i =>
    simp only [Filling.step] at hs
    split at hs
    · rename_i e hi
      exact some.inj hs ▸ h.log hi hok
    · cases hs
  | other e =>
    simp only [Filling.step, ite_none_left_eq_some] at hs
    exact some.inj hs.2 ▸ h.extend fun hid => absurd hid hs.1
  | ack i =>
    simp only [Filling.step] at hs
    split at hs
    · rename_i e index hi
      exact some.inj hs ▸ h.ack hi
    · cases hs

end

instance decidableInOffsetOrder (id : SegmentId) (s : Filling) :
    DecidablePred (InOffsetOrder id s) := fun a => by
  cases a <;> unfold InOffsetOrder <;> infer_instance

/-- **Recovery rebuilds the acknowledged segment**: in every interleaving of slot appends, WAL
appends and acknowledgements in which the entries of the segment are logged in the order of their
offsets without a gap, a crash at any time leaves what a replay puts back in place. -/
theorem recovers_of_inOffsetOrder (config : SegmentSizeConfig) (tier : SizeTier) (id : SegmentId)
    (acts : List Act)
    (hok : Guarded (Filling.step config tier id) (InOffsetOrder id) Filling.initial acts) :
    Always (Filling.step config tier id) (Recovers config tier id) Filling.initial acts :=
  always_of_guarded (fun _ _ _ h hok hs => Sound.step h hok hs) (fun _ h => Sound.recovers h)
    sound_initial hok

def sampleSizes : SegmentSizeConfig := ⟨8, 100, fun _ => .standard⟩

/-- An entry as the writer of a chunk has it. -/
def sampleChunk (id : SegmentId) (data : Bytes) : WalEntry where
  segmentId := id
  offset := 0
  length := data.length
  logicalLength := data.length
  tier := 0
  hlcWallTime := 1000
  hlcLogical := 0
  checksum := zeroHash
  data := data

/-- The second chunk is acknowledged before the first; the third fills the segment and is never
logged. -/
theorem chunks_logged_in_turn :
    Always (Filling.step sampleSizes .small 7) (Recovers sampleSizes .small 7) Filling.initial
      [.place (sampleChunk 7 [1, 2, 3]), .place (sampleChunk 7 [4, 5]), .log 0,
        .other (sampleChunk 9 [6]), .place (sampleChunk 7 [7, 8, 9]), .log 1, .ack 1, .ack 0,
        .persist] :=
  recovers_of_inOffsetOrder sampleSizes .small 7 _ (by decide +kernel)

/-- Two writers log their entries in the other order, and each gets the other's data back. -/
theorem chunks_logged_crosswise :
    ¬ Always (Filling.step sampleSizes .small 7) (Recovers sampleSizes .small 7) Filling.initial
      [.place (sampleChunk 7 [1]), .place (sampleChunk 7 [2]), .log 1, .log 0, .ack 1, .ack 0] := by
  intro h
  let e₁ := placedEntry .small 7 ⟨[], false, false, [], []⟩ (sampleChunk 7 [1])
  let e₂ := placedEntry .small 7 ⟨[1], false, false, [], []⟩ (sampleChunk 7 [2])
  have hs : run (Filling.step sampleSizes .small 7) Filling.initial
      [.place (sampleChunk 7 [1]), .place (sampleChunk 7 [2]), .log 1, .log 0, .ack 1, .ack 0] =
        some ⟨[1, 2], false, false, [e₂, e₁], [⟨e₁, .acked 1⟩, ⟨e₂, .acked 0⟩]⟩ := by
    decide +kernel
  have hstate := (always_iff_run _ _).mp h _ _ prefix_rfl hs
  obtain ⟨⟨buffer, hbuffer, hdata⟩, -⟩ := hstate 2 (by simp) ⟨e₁, .acked 1⟩ (by simp) 1 rfl
  have hrebuilt : recoverReservedUnsealed (fillTarget sampleSizes .small) none 7 [e₂, e₁] =
      [[2, 1]] := by decide +kernel
  obtain rfl : [2, 1] = buffer := singleton_inj.mp (hrebuilt.symm.trans hbuffer)
  exact absurd hdata (by decide)

end Filling

end OceanFs.Wal
