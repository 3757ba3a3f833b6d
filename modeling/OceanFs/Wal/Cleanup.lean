import Mathlib.Logic.Relation
import OceanFs.Lib.Runs
import OceanFs.Segment.Lifecycle
import OceanFs.Wal.Reader

/-!
The removal of old files of the data WAL.

A file in front of the retention window is removed when no entry that is read from it is live. An
entry is live while its segment is only reserved, or is sealed with a smaller position; where the
registry has no entry the segment has been deleted, since it is reserved before its first entry
is written. What cannot be read is not looked at.
-/

namespace OceanFs.Wal

open OceanFs.Core Lib.Bytes Segment Lib.Runs List Option

/-- `entry_is_garbage`. -/
def entryIsGarbage (e : LifecycleEntry) (pos : DataWalPos) : Bool :=
  match e.state with
  | .deleted _ => true
  | .sealed => e.dataWalPos.any fun p => pos ≤ p
  | .reserved => false

/-- The liveness closure of the node, on its registry. -/
def isEntryGarbage (r : Registry) (now : ℕ) (id : SegmentId) (pos : DataWalPos) : Bool :=
  match r.get now id with
  | some e => entryIsGarbage e pos
  | none => true

/-- `file_contains_live_entries`, on the bytes that can be read. -/
def fileContainsLiveEntries (crc : Bytes → UInt32) (garbage : SegmentId → DataWalPos → Bool)
    (seq : ℕ) (b : Bytes) : Bool :=
  (scanFile crc b).entries.any fun p => !garbage p.2.segmentId (toLex (seq, p.1))

/-- The files from this number on are in the retention window, where `seq` is the current one. -/
def retentionFloor (seq keep : ℕ) : ℕ := seq - (keep - 1)

namespace Cleanup

/-- A file with the entries that were written to it, and what is on disk. -/
structure WalFile where
  seq : ℕ
  entries : List WalEntry
  bytes : Bytes
  deriving DecidableEq

/-- A call of `cleanup_old_wal_files`: the files still to be looked at, and the one that has been
found to have no live entry. -/
structure Sweep where
  pending : List ℕ
  doomed : Option ℕ
  deriving DecidableEq

/-- The registry, the segments that have been deleted, the files in front of the one that is
written to, that file, and the cleanup. -/
structure State where
  registry : Registry
  deleted : List SegmentId
  old : List WalFile
  current : WalFile
  sweep : Option Sweep

def State.initial : State := ⟨∅, [], [], ⟨0, [], []⟩, none⟩

inductive Act
  | reserve (now : ℕ) (m : SegmentMetadata)
  | append (e : WalEntry)
  | recordPos (id : SegmentId) (pos : DataWalPos)
  | sealSegment (now : ℕ) (id : SegmentId) (m : SegmentMetadata)
  | delete (now : ℕ) (id : SegmentId)
  /-- An entry past its grace is dropped from its shard. -/
  | evict (now : ℕ) (id : SegmentId)
  | rotate
  /-- `keep` is the number of files that the retention window has. -/
  | start (keep : ℕ)
  /-- Looks at the next file; `readable` is where a read fails, if the file can be opened. -/
  | check (now : ℕ) (readable : Option ℕ)
  | remove
  /-- The file could not be removed, or no file is left to be looked at. -/
  | skip
  /-- The bytes of a file change on disk. -/
  | damage (seq : ℕ) (b : Bytes)
  deriving DecidableEq

section

variable (crc : Bytes → UInt32) (grace : ℕ)

/-- What a reader gets of a file. -/
def readBytes (f : WalFile) : Option ℕ → Bytes
  | none => []
  | some n => f.bytes.take n

def reserve (now : ℕ) (m : SegmentMetadata) (s : State) : State :=
  { s with registry := s.registry.requested (s.registry.reserve now m.segmentId m) }

/-- A segment is reserved before its first entry is written. -/
def append (e : WalEntry) (s : State) : Option State :=
  if e.InRange ∧ ((s.registry.lookup e.segmentId).isSome ∨ e.segmentId ∈ s.deleted) then
    some { s with current := { s.current with
      entries := s.current.entries ++ [e]
      bytes := s.current.bytes ++ e.toBytes crc } }
  else none

def delete (now : ℕ) (id : SegmentId) (s : State) : State :=
  match s.registry.transition now id (deleteEntry grace now) with
  | .ok r => { s with registry := r, deleted := id :: s.deleted }
  | .error _ => s

def evict (now : ℕ) (id : SegmentId) (s : State) : State :=
  match s.registry.lookup id with
  | some e => if e.deletedExpired now then { s with registry := s.registry.erase id } else s
  | none => s

/-- The files in front of the retention window. -/
def start (keep : ℕ) (s : State) : State :=
  let old := s.old.filter (·.seq < retentionFloor s.current.seq keep)
  { s with sweep := some ⟨old.map (·.seq), none⟩ }

def check (now : ℕ) (readable : Option ℕ) (s : State) : Option State :=
  match s.sweep with
  | some ⟨seq :: pending, none⟩ =>
    match s.old.find? (·.seq = seq) with
    | none => some { s with sweep := some ⟨pending, none⟩ }
    | some f =>
      if fileContainsLiveEntries crc (isEntryGarbage s.registry now) f.seq
          (readBytes f readable) then
        some { s with sweep := some ⟨pending, none⟩ }
      else some { s with sweep := some ⟨pending, some seq⟩ }
  | _ => none

def remove (s : State) : Option State :=
  match s.sweep with
  | some ⟨pending, some seq⟩ =>
    some { s with old := s.old.filter (·.seq ≠ seq), sweep := some ⟨pending, none⟩ }
  | _ => none

def damage (seq : ℕ) (b : Bytes) (s : State) : State :=
  { s with
    old := s.old.map fun f => if f.seq = seq then { f with bytes := b } else f
    current := if s.current.seq = seq then { s.current with bytes := b } else s.current }

def step (s : State) : Act → Option State
  | .reserve now m => some (reserve now m s)
  | .append e => append crc e s
  | .recordPos id pos => some { s with registry := s.registry.recordDataWalPos id pos }
  | .sealSegment now id m =>
    some { s with registry := s.registry.requested (s.registry.sealWith now id m none none) }
  | .delete now id => some (delete grace now id s)
  | .evict now id => some (evict now id s)
  | .rotate =>
    some { s with old := s.old ++ [s.current], current := ⟨s.current.seq + 1, [], []⟩ }
  | .start keep => if s.sweep = none then some (start keep s) else none
  | .check now readable => check crc now readable s
  | .remove => remove s
  | .skip =>
    match s.sweep with
    | some ⟨pending, some _⟩ => some { s with sweep := some ⟨pending, none⟩ }
    | some ⟨[], none⟩ => some { s with sweep := none }
    | _ => none
  | .damage seq b => some (damage seq b s)

end

/-- The segment is sealed or deleted, or it has been deleted and its entry is gone. -/
def Done (s : State) (id : SegmentId) : Prop :=
  match s.registry.lookup id with
  | some e => e.state ≠ .reserved
  | none => id ∈ s.deleted

/-- A removal takes away no entry of a segment that is neither sealed nor deleted. -/
def RemovesDone (s : State) : Act → Prop
  | .remove => ∀ sweep ∈ s.sweep, ∀ seq ∈ sweep.doomed, ∀ f ∈ s.old, f.seq = seq →
      ∀ e ∈ f.entries, Done s e.segmentId
  | _ => True

/-- The bytes that a file was written with. -/
def written (crc : Bytes → UInt32) (entries : List WalEntry) : Bytes :=
  entries.flatMap (·.toBytes crc)

/-- A file that is looked at is undamaged and is read to its end, and a segment that has been
deleted is not reserved again. -/
def WholeFile (crc : Bytes → UInt32) (s : State) : Act → Prop
  | .check _ readable => ∀ sweep ∈ s.sweep, ∀ f ∈ s.old, sweep.pending.head? = some f.seq →
      readBytes f readable = written crc f.entries
  | .reserve _ m => m.segmentId ∉ s.deleted
  | _ => True

/-! ### Files that are whole -/

variable {crc : Bytes → UInt32} {grace now : ℕ} {s s' : State} {seg : SegmentId}

/-- The entries of a file with their offsets. -/
def located : ℕ → List WalEntry → List (ℕ × WalEntry)
  | _, [] => []
  | off, e :: es => (off, e) :: located (off + e.serializedSize) es

variable {es : List WalEntry}

lemma exists_located {e : WalEntry} (h : e ∈ es) (off : ℕ) :
    ∃ o, (o, e) ∈ located off es := by
  induction es generalizing off with
  | nil => simp at h
  | cons e' es ih =>
    rcases mem_cons.mp h with rfl | h
    · exact ⟨off, mem_cons_self⟩
    · obtain ⟨o, ho⟩ := ih h (off + e'.serializedSize)
      exact ⟨o, mem_cons_of_mem _ ho⟩

lemma mem_of_located {off : ℕ} {p : ℕ × WalEntry} (h : p ∈ located off es) :
    p.2 ∈ es := by
  induction es generalizing off with
  | nil => simp [located] at h
  | cons e es ih =>
    rcases mem_cons.mp h with rfl | h
    · exact mem_cons_self
    · exact mem_cons_of_mem _ (ih h)

lemma scans_written (h : ∀ e ∈ es, e.InRange) (off : ℕ) :
    Scans crc off (written crc es) ⟨located off es, .done⟩ := by
  induction es generalizing off with
  | nil => exact .done off
  | cons e es ih =>
    obtain ⟨he, hes⟩ := forall_mem_cons.mp h
    have hrest := ih hes (off + (e.toBytes crc).length)
    have hscan := (scans_toBytes he off).append rfl hrest
    rw [WalEntry.length_toBytes] at hscan
    exact hscan

/-! ### The registry moves on -/

lemma done_of_lookup {e : LifecycleEntry} (h : s.registry.lookup seg = some e) :
    Done s seg ↔ e.state ≠ .reserved := by
  rw [Done, h]

lemma done_of_absent (h : s.registry.lookup seg = none) : Done s seg ↔ seg ∈ s.deleted := by
  rw [Done, h]

def Known (s : State) (seg : SegmentId) : Prop :=
  (s.registry.lookup seg).isSome ∨ seg ∈ s.deleted

/-- Deleted entries are marked as such. -/
def Marked (s : State) : Prop :=
  ∀ seg, ∀ e ∈ s.registry.lookup seg, e.isDeleted = true → seg ∈ s.deleted

/-- A step of the registry, which leaves the files and the cleanup alone. -/
structure Moves (s s' : State) : Prop where
  files : s'.old = s.old ∧ s'.current = s.current ∧ s'.sweep = s.sweep
  done : ∀ seg, Done s seg → Done s' seg
  known : ∀ seg, Known s seg → Known s' seg
  marked : Marked s'

lemma Moves.refl (h : Marked s) : Moves s s :=
  ⟨⟨rfl, rfl, rfl⟩, fun _ => id, fun _ => id, h⟩

lemma moves_set (h : Marked s) {o : Option LifecycleEntry} {deleted : List SegmentId}
    (hdeleted : s.deleted ⊆ deleted) (hdone : Done s seg → ∀ e ∈ o, e.state ≠ .reserved)
    (hnone : o = none → seg ∈ deleted) (hmark : ∀ e ∈ o, e.isDeleted = true → seg ∈ deleted) :
    Moves s { s with registry := s.registry.set seg o, deleted := deleted } := by
  have hother : ∀ {seg'}, seg' ≠ seg →
      (s.registry.set seg o).lookup seg' = s.registry.lookup seg' :=
    fun hne => by rw [Registry.lookup_set, if_neg hne]
  have hself : (s.registry.set seg o).lookup seg = o := by rw [Registry.lookup_set, if_pos rfl]
  refine ⟨⟨rfl, rfl, rfl⟩, fun seg' hd => ?_, fun seg' hk => ?_, fun seg' e he hdel => ?_⟩
  · by_cases hseg : seg' = seg
    · subst hseg
      cases o with
      | none => exact (done_of_absent hself).mpr (hnone rfl)
      | some e => exact (done_of_lookup hself).mpr (hdone hd e rfl)
    · cases hl : s.registry.lookup seg' with
      | none =>
        refine (done_of_absent ((hother hseg).trans hl)).mpr (hdeleted ?_)
        exact (done_of_absent hl).mp hd
      | some e =>
        refine (done_of_lookup ((hother hseg).trans hl)).mpr ?_
        exact (done_of_lookup hl).mp hd
  · by_cases hseg : seg' = seg
    · subst hseg
      cases o with
      | none => exact .inr (hnone rfl)
      | some e => exact .inl (by rw [hself]; rfl)
    · refine hk.imp (fun hk => ?_) (hdeleted ·)
      rw [hother hseg]
      exact hk
  · by_cases hseg : seg' = seg
    · subst hseg
      exact hmark e (hself.symm.trans he) hdel
    · exact hdeleted (h seg' e ((hother hseg).symm.trans he) hdel)

lemma moves_reserve (h : Marked s) {m : SegmentMetadata} (hok : m.segmentId ∉ s.deleted) :
    Moves s (reserve now m s) := by
  unfold reserve Registry.reserve
  rcases Registry.requested_cases s.registry now m.segmentId (reserveEntry m) with
    hsame | ⟨o, ho, hset⟩
  · rw [hsame]
    exact .refl h
  · rw [hset]
    rcases reserveEntry_ok ho with ⟨hget, rfl⟩ | ⟨e, hget, hs, rfl⟩
    · refine moves_set h (Subset.refl _) (fun hd => ?_) (absurd · (some_ne_none _))
        fun e he hdel => ?_
      · -- what is done has an entry that a reserve does not replace, or is deleted
        cases hl : s.registry.lookup m.segmentId with
        | none => exact absurd ((done_of_absent hl).mp hd) hok
        | some e =>
          by_cases hdel : e.isDeleted = true
          · exact absurd (h _ e hl hdel) hok
          · rw [Registry.get_of_live now hl (by simpa using hdel)] at hget
            simp at hget
      · obtain rfl := some.inj he
        simp [LifecycleEntry.new, LifecycleEntry.isDeleted] at hdel
    · have hl := Registry.lookup_of_get hget
      refine moves_set h (Subset.refl _) (fun hd => ?_) (absurd · (some_ne_none _))
        fun e' he' hdel => ?_
      · exact absurd hs ((done_of_lookup hl).mp hd)
      · obtain rfl := some.inj he'
        exact h _ e hl hdel

lemma moves_seal (h : Marked s) (now : ℕ) (seg : SegmentId) (m : SegmentMetadata) :
    Moves s { s with
      registry := s.registry.requested (s.registry.sealWith now seg m none none) } := by
  unfold Registry.sealWith
  rcases Registry.requested_cases s.registry now seg (sealEntry m none none) with
    hsame | ⟨o, ho, hset⟩
  · rw [hsame]
    exact .refl h
  · rw [hset]
    obtain ⟨-, e', -, -, rfl, hs', -⟩ := sealEntry_ok ho
    refine moves_set h (Subset.refl _) (fun _ e he => ?_) nofun fun e he hdel => ?_
    · obtain rfl := some.inj he
      rw [hs']
      simp
    · obtain rfl := some.inj he
      simp [LifecycleEntry.isDeleted, hs'] at hdel

lemma moves_delete (h : Marked s) (now : ℕ) (seg : SegmentId) :
    Moves s (delete grace now seg s) := by
  unfold delete
  split
  · rename_i r hr
    obtain ⟨o, ho, rfl⟩ := Registry.transition_ok hr
    obtain ⟨_, _, hdel⟩ := deleteEntry_ok ho
    refine moves_set h (subset_cons_self _ _) (fun _ e he hs => ?_)
      (fun _ => mem_cons_self) fun _ _ _ => mem_cons_self
    have hd := (hdel e he).1
    simp [LifecycleEntry.isDeleted, hs] at hd
  · exact .refl h

lemma isDeleted_of_expired {e : LifecycleEntry} (h : e.deletedExpired now = true) :
    e.isDeleted = true := by
  unfold LifecycleEntry.deletedExpired at h
  unfold LifecycleEntry.isDeleted
  split at h
  · rfl
  · simp at h

lemma moves_evict (h : Marked s) (now : ℕ) (seg : SegmentId) : Moves s (evict now seg s) := by
  unfold evict
  split
  · rename_i e he
    split_ifs with hexp
    · have hdel : seg ∈ s.deleted := h seg e he (isDeleted_of_expired hexp)
      exact @moves_set s seg h none s.deleted (Subset.refl _) (fun _ => nofun) (fun _ => hdel)
        nofun
    · exact .refl h
  · exact .refl h

lemma map_state_recordPos (pos : DataWalPos) (o : Option LifecycleEntry) :
    (recordPos pos o).map (·.state) = o.map (·.state) := by
  cases o with
  | none => rfl
  | some e =>
    simp only [recordPos, map_some]
    split_ifs <;> rfl

lemma moves_recordPos (h : Marked s) (seg : SegmentId) (pos : DataWalPos) :
    Moves s { s with registry := s.registry.recordDataWalPos seg pos } := by
  have hstate : ∀ seg', ((s.registry.recordDataWalPos seg pos).lookup seg').map (·.state) =
      (s.registry.lookup seg').map (·.state) := by
    intro seg'
    rw [Registry.recordDataWalPos, Registry.lookup_set]
    split_ifs with hseg
    · rw [hseg, map_state_recordPos]
    · rfl
  refine ⟨⟨rfl, rfl, rfl⟩, fun seg' hd => ?_, fun seg' hk => ?_, fun seg' e he hdel => ?_⟩
  · have hs := hstate seg'
    cases hl : s.registry.lookup seg' with
    | none =>
      rw [hl, map_none, map_eq_none_iff] at hs
      exact (done_of_absent hs).mpr ((done_of_absent hl).mp hd)
    | some e =>
      rw [hl, map_some] at hs
      obtain ⟨e', he', heq⟩ := map_eq_some_iff.mp hs
      refine (done_of_lookup he').mpr ?_
      rw [heq]
      exact (done_of_lookup hl).mp hd
  · refine hk.imp_left fun hk => ?_
    rw [← isSome_map, hstate, isSome_map]
    exact hk
  · have hs := hstate seg'
    rw [show (s.registry.recordDataWalPos seg pos).lookup seg' = some e from he] at hs
    obtain ⟨e₀, he₀, heq⟩ := map_eq_some_iff.mp hs.symm
    refine h seg' e₀ he₀ ?_
    simpa [LifecycleEntry.isDeleted, heq] using hdel

/-! ### The entries of a file in turn -/

/-- The entries are looked at one after the other, the registry moves on in between, and each is
garbage when it is looked at. -/
inductive Looks : State → List (SegmentId × DataWalPos) → State → Prop
  | nil (s : State) : Looks s [] s
  | cons {s t s' : State} {seg : SegmentId} {pos : DataWalPos} {rest} (now : ℕ)
      (hgarbage : isEntryGarbage s.registry now seg pos = true)
      (hmoves : Relation.ReflTransGen Moves s t) (hrest : Looks t rest s') :
      Looks s ((seg, pos) :: rest) s'

lemma done_of_garbage {pos : DataWalPos} (hknown : Known s seg)
    (h : isEntryGarbage s.registry now seg pos = true) : Done s seg := by
  cases hl : s.registry.lookup seg with
  | none =>
    refine (done_of_absent hl).mpr ?_
    simpa [Known, hl] using hknown
  | some entry =>
    refine (done_of_lookup hl).mpr fun hs => ?_
    have hget : s.registry.get now seg = some entry :=
      Registry.get_of_live now hl (by simp [LifecycleEntry.isDeleted, hs])
    simp [isEntryGarbage, hget, entryIsGarbage, hs] at h

lemma moves_star (h : Relation.ReflTransGen Moves s s') :
    (∀ seg, Done s seg → Done s' seg) ∧ ∀ seg, Known s seg → Known s' seg := by
  induction h with
  | refl => exact ⟨fun _ => id, fun _ => id⟩
  | tail _ hm ih =>
    exact ⟨fun seg hd => hm.done seg (ih.1 seg hd), fun seg hk => hm.known seg (ih.2 seg hk)⟩

/-- **What is garbage stays garbage**, so a file can be looked at entry by entry. -/
lemma Looks.done {looked : List (SegmentId × DataWalPos)} (h : Looks s looked s')
    (hknown : ∀ p ∈ looked, Known s p.1) :
    (∀ seg, Done s seg → Done s' seg) ∧ ∀ p ∈ looked, Done s' p.1 := by
  induction h with
  | nil s => exact ⟨fun _ => id, by simp⟩
  | cons now hgarbage hmoves _ ih =>
    obtain ⟨hdone, hk⟩ := moves_star hmoves
    obtain ⟨hseg, hrest⟩ := forall_mem_cons.mp hknown
    obtain ⟨hkeep, hall⟩ := ih fun p hp => hk _ (hrest p hp)
    refine ⟨fun seg hd => hkeep seg (hdone seg hd), forall_mem_cons.mpr ⟨?_, hall⟩⟩
    exact hkeep _ (hdone _ (done_of_garbage hseg hgarbage))

lemma looks_of_not_live {seq : ℕ} {b : Bytes}
    (h : fileContainsLiveEntries crc (isEntryGarbage s.registry now) seq b = false) :
    Looks s ((scanFile crc b).entries.map fun p => (p.2.segmentId, toLex (seq, p.1))) s := by
  rw [fileContainsLiveEntries, List.any_eq_false] at h
  generalize (scanFile crc b).entries = entries at h
  induction entries with
  | nil => exact .nil s
  | cons p entries ih =>
    obtain ⟨hp, hrest⟩ := forall_mem_cons.mp h
    exact .cons now (by simpa using hp) .refl (ih hrest)

/-! ### The files -/

structure Inv (s : State) : Prop where
  marked : Marked s
  entries : ∀ f ∈ s.current :: s.old, ∀ e ∈ f.entries, e.InRange ∧ Known s e.segmentId
  nodup : (s.old.map (·.seq)).Nodup
  older : ∀ f ∈ s.old, f.seq < s.current.seq
  pending : ∀ sweep ∈ s.sweep, (∀ seq ∈ sweep.pending, seq < s.current.seq) ∧
    ∀ seq ∈ sweep.doomed, seq < s.current.seq ∧
      ∀ f ∈ s.old, f.seq = seq → ∀ e ∈ f.entries, Done s e.segmentId

lemma Inv.initial : Inv .initial where
  marked := by simp [Marked, State.initial]
  entries := by simp [State.initial]
  nodup := nodup_nil
  older := by simp [State.initial]
  pending := by simp [State.initial]

section

variable (h : Inv s)

include h

lemma Inv.moves (hm : Moves s s') : Inv s' := by
  obtain ⟨⟨hold, hcurrent, hsweep⟩, hdone, hknown, hmarked⟩ := hm
  refine ⟨hmarked, ?_, ?_, ?_, ?_⟩
  · rw [hold, hcurrent]
    exact fun f hf e he => (h.entries f hf e he).imp_right (hknown _)
  · rw [hold]
    exact h.nodup
  · rw [hold, hcurrent]
    exact h.older
  · rw [hold, hcurrent, hsweep]
    intro sweep hmem
    obtain ⟨hpending, hdoomed⟩ := h.pending sweep hmem
    exact ⟨hpending, fun seq hseq => ⟨(hdoomed seq hseq).1, fun f hf heq e he =>
      hdone _ ((hdoomed seq hseq).2 f hf heq e he)⟩⟩

lemma Inv.append {e : WalEntry} (hs : append crc e s = some s') : Inv s' := by
  unfold Cleanup.append at hs
  split_ifs at hs with hcond
  obtain rfl := some.inj hs
  refine ⟨h.marked, ?_, h.nodup, h.older, h.pending⟩
  refine forall_mem_cons.mpr ⟨fun e' he' => ?_, fun f hf =>
    h.entries f (mem_cons_of_mem _ hf)⟩
  rcases mem_append.mp he' with he' | he'
  · exact h.entries s.current mem_cons_self e' he'
  · obtain rfl := mem_singleton.mp he'
    exact hcond

lemma Inv.rotate :
    Inv { s with old := s.old ++ [s.current], current := ⟨s.current.seq + 1, [], []⟩ } := by
  refine ⟨h.marked, ?_, ?_, ?_, fun sweep hmem => ?_⟩
  · refine forall_mem_cons.mpr ⟨by simp, fun f hf => ?_⟩
    refine h.entries f ?_
    rcases mem_append.mp hf with hf | hf
    · exact mem_cons_of_mem _ hf
    · exact mem_cons.mpr (.inl (mem_singleton.mp hf))
  · rw [map_append, map_singleton, nodup_append]
    refine ⟨h.nodup, nodup_singleton _, ?_⟩
    rintro seq hseq _ hcur rfl
    obtain ⟨f, hf, hfs⟩ := List.mem_map.mp hseq
    have hlt := h.older f hf
    rw [mem_singleton.mp hcur] at hfs
    omega
  · intro f hf
    rcases mem_append.mp hf with hf | hf
    · exact (h.older f hf).trans (Nat.lt_succ_self _)
    · rw [mem_singleton.mp hf]
      exact Nat.lt_succ_self _
  · obtain ⟨hpending, hdoomed⟩ := h.pending sweep hmem
    refine ⟨fun seq hseq => (hpending seq hseq).trans (Nat.lt_succ_self _), fun seq hseq => ?_⟩
    obtain ⟨hlt, hfiles⟩ := hdoomed seq hseq
    refine ⟨hlt.trans (Nat.lt_succ_self _), fun f hf heq => ?_⟩
    rcases mem_append.mp hf with hf | hf
    · exact hfiles f hf heq
    · -- the file that was written to is not one that is being removed
      rw [mem_singleton.mp hf] at heq
      omega

lemma Inv.start (keep : ℕ) : Inv (start keep s) := by
  refine ⟨h.marked, h.entries, h.nodup, h.older, fun sweep hmem => ?_⟩
  obtain rfl := some.inj hmem
  refine ⟨fun seq hseq => ?_, nofun⟩
  obtain ⟨f, hf, rfl⟩ := List.mem_map.mp hseq
  exact h.older f (mem_of_mem_filter hf)

lemma Inv.done_of_checked {f : WalFile} (hf : f ∈ s.old) {b : Bytes}
    (hb : b = written crc f.entries)
    (hlive : fileContainsLiveEntries crc (isEntryGarbage s.registry now) f.seq b = false)
    {e : WalEntry} (he : e ∈ f.entries) : Done s e.segmentId := by
  subst hb
  have hentries := h.entries f (mem_cons_of_mem _ hf)
  have hlooks := looks_of_not_live hlive
  rw [(scans_written (fun e he => (hentries e he).1) 0).scanFile_eq] at hlooks
  obtain ⟨o, ho⟩ := exists_located he 0
  refine (hlooks.done fun p hp => ?_).2 _ (List.mem_map_of_mem ho)
  obtain ⟨q, hq, rfl⟩ := List.mem_map.mp hp
  exact (hentries q.2 (mem_of_located hq)).2

lemma Inv.check {readable : Option ℕ} (hok : WholeFile crc s (.check now readable))
    (hs : check crc now readable s = some s') : Inv s' := by
  unfold Cleanup.check at hs
  split at hs
  · rename_i seq pending hsweep
    obtain ⟨hpending, -⟩ := h.pending _ hsweep
    have hrest : ∀ q ∈ pending, q < s.current.seq := fun q hq =>
      hpending q (mem_cons_of_mem _ hq)
    have hkeep : Inv { s with sweep := some ⟨pending, none⟩ } := by
      refine ⟨h.marked, h.entries, h.nodup, h.older, fun sweep hmem => ?_⟩
      obtain rfl := some.inj hmem
      exact ⟨hrest, nofun⟩
    split at hs
    · exact some.inj hs ▸ hkeep
    · rename_i f hfind
      have hf : f ∈ s.old := mem_of_find?_eq_some hfind
      have hseq : f.seq = seq := by simpa using find?_some hfind
      split_ifs at hs with hlive
      · exact some.inj hs ▸ hkeep
      · obtain rfl := some.inj hs
        refine ⟨h.marked, h.entries, h.nodup, h.older, fun sweep hmem => ?_⟩
        obtain rfl := some.inj hmem
        refine ⟨hrest, fun q hq => ?_⟩
        obtain rfl := some.inj hq
        refine ⟨hpending _ mem_cons_self, fun f' hf' heq e he => ?_⟩
        obtain rfl : f' = f := inj_on_of_nodup_map h.nodup hf' hf (heq.trans hseq.symm)
        have hwhole := hok _ hsweep f' hf (by rw [hseq]; rfl)
        exact h.done_of_checked hf hwhole (by simpa using hlive) he
  · simp at hs

lemma Inv.remove (hs : remove s = some s') : Inv s' := by
  unfold Cleanup.remove at hs
  split at hs
  · rename_i pending seq hsweep
    obtain rfl := some.inj hs
    refine ⟨h.marked, ?_, ?_, fun f hf => h.older f (mem_of_mem_filter hf), ?_⟩
    · refine forall_mem_cons.mpr ⟨h.entries s.current mem_cons_self, fun f hf => ?_⟩
      exact h.entries f (mem_cons_of_mem _ (mem_of_mem_filter hf))
    · exact h.nodup.sublist (List.filter_sublist.map _)
    · intro sweep hmem
      obtain rfl := some.inj hmem
      exact ⟨(h.pending _ hsweep).1, nofun⟩
  · simp at hs

lemma Inv.skip (hs : step crc grace s .skip = some s') : Inv s' := by
  rw [Cleanup.step] at hs
  split at hs
  · rename_i pending seq hsweep
    obtain rfl := some.inj hs
    refine ⟨h.marked, h.entries, h.nodup, h.older, fun sweep hmem => ?_⟩
    obtain rfl := some.inj hmem
    exact ⟨(h.pending _ hsweep).1, nofun⟩
  · obtain rfl := some.inj hs
    exact ⟨h.marked, h.entries, h.nodup, h.older, nofun⟩
  · simp at hs

lemma Inv.damage (seq : ℕ) (b : Bytes) : Inv (Cleanup.damage seq b s) := by
  have hcurrent : (Cleanup.damage seq b s).current.seq = s.current.seq ∧
      (Cleanup.damage seq b s).current.entries = s.current.entries := by
    simp only [Cleanup.damage]
    split_ifs <;> exact ⟨rfl, rfl⟩
  have hold : ∀ f ∈ (Cleanup.damage seq b s).old, ∃ f₀ ∈ s.old, f.seq = f₀.seq ∧
      f.entries = f₀.entries := by
    intro f hf
    obtain ⟨f₀, hf₀, rfl⟩ := List.mem_map.mp hf
    exact ⟨f₀, hf₀, by split_ifs <;> rfl, by split_ifs <;> rfl⟩
  have hseqs : (Cleanup.damage seq b s).old.map (·.seq) = s.old.map (·.seq) := by
    simp only [Cleanup.damage, List.map_map]
    refine map_congr_left fun f _ => ?_
    simp only [Function.comp_apply]
    split_ifs <;> rfl
  refine ⟨h.marked, ?_, ?_, fun f hf => ?_, fun sweep hmem => ?_⟩
  · refine forall_mem_cons.mpr ⟨?_, fun f hf => ?_⟩
    · rw [hcurrent.2]
      exact h.entries s.current mem_cons_self
    · obtain ⟨f₀, hf₀, -, hentries⟩ := hold f hf
      rw [hentries]
      exact h.entries f₀ (mem_cons_of_mem _ hf₀)
  · rw [hseqs]
    exact h.nodup
  · obtain ⟨f₀, hf₀, hseq, -⟩ := hold f hf
    rw [hseq, hcurrent.1]
    exact h.older f₀ hf₀
  · rw [hcurrent.1]
    obtain ⟨hpending, hdoomed⟩ := h.pending sweep hmem
    refine ⟨hpending, fun q hq => ⟨(hdoomed q hq).1, fun f hf heq e he => ?_⟩⟩
    obtain ⟨f₀, hf₀, hseq, hentries⟩ := hold f hf
    exact (hdoomed q hq).2 f₀ hf₀ (hseq.symm.trans heq) e (hentries ▸ he)

lemma Inv.step {a : Act} (hok : WholeFile crc s a) (hs : step crc grace s a = some s') :
    Inv s' := by
  cases a with
  | reserve now m => exact some.inj hs ▸ h.moves (moves_reserve h.marked hok)
  | append e => exact h.append hs
  | recordPos seg pos => exact some.inj hs ▸ h.moves (moves_recordPos h.marked seg pos)
  | sealSegment now seg m => exact some.inj hs ▸ h.moves (moves_seal h.marked now seg m)
  | delete now seg => exact some.inj hs ▸ h.moves (moves_delete h.marked now seg)
  | evict now seg => exact some.inj hs ▸ h.moves (moves_evict h.marked now seg)
  | rotate => exact some.inj hs ▸ h.rotate
  | start keep =>
    rw [Cleanup.step] at hs
    split_ifs at hs with hidle
    exact some.inj hs ▸ h.start keep
  | check now readable => exact h.check hok hs
  | remove => exact h.remove hs
  | skip => exact h.skip hs
  | damage seq b => exact some.inj hs ▸ h.damage seq b

lemma Inv.removesDone (a : Act) : RemovesDone s a := by
  cases a with
  | remove => exact fun sweep hmem seq hseq => ((h.pending sweep hmem).2 seq hseq).2
  | reserve | append | recordPos | sealSegment | delete | evict | rotate | start | check | skip
  | damage => trivial

end

/-- **A cleanup removes no entry of a live segment**, in every run in which the files that it
looks at are undamaged and read to their end. -/
theorem removes_done_of_whole_files (crc : Bytes → UInt32) (grace : ℕ) {acts : List Act}
    (h : Guarded (step crc grace) (WholeFile crc) .initial acts) :
    Guarded (step crc grace) RemovesDone .initial acts := by
  have hstep : ∀ s a s', Inv s → WholeFile crc s a → Cleanup.step crc grace s a = some s' →
      Inv s' := fun _ _ _ hinv hok hs => hinv.step hok hs
  exact Guarded.imp_of_inv hstep (fun _ a _ hinv _ _ => hinv.removesDone a) .initial h

instance (crc : Bytes → UInt32) (s : State) : DecidablePred (WholeFile crc s) := fun a => by
  cases a <;> unfold WholeFile <;> infer_instance

instance (s : State) (seg : SegmentId) : Decidable (Done s seg) :=
  match h : s.registry.lookup seg with
  | some e => decidable_of_iff (e.state ≠ .reserved) (done_of_lookup h).symm
  | none => decidable_of_iff (seg ∈ s.deleted) (done_of_absent h).symm

instance (s : State) : DecidablePred (RemovesDone s) := fun a => by
  cases a <;> unfold RemovesDone <;> infer_instance

def sampleMetadata : SegmentMetadata :=
  ⟨7, 4, 2, .small, some zeroHash, [], none, 1, 2⟩

def sampleEntry (seg : SegmentId) : WalEntry :=
  ⟨seg, 0, 2, 2, 0, 5, 0, zeroHash, [1, 2]⟩

/-- A segment is sealed while the cleanup runs, another one is deleted. -/
def sampleSealed : List Act :=
  [.reserve 0 sampleMetadata, .reserve 0 { sampleMetadata with segmentId := 8 },
    .append (sampleEntry 7), .append (sampleEntry 8), .recordPos 7 (toLex (0, 0)), .rotate,
    .append (sampleEntry 7), .start 1, .check 1 (some 500), .skip, .sealSegment 1 7 sampleMetadata,
    .delete 1 8, .start 1, .check 2 (some 500), .append (sampleEntry 7), .remove]

theorem sealed_file_removed :
    Guarded (step crc32 9) (WholeFile crc32) .initial sampleSealed ∧
      Guarded (step crc32 9) RemovesDone .initial sampleSealed := by
  have hok : Guarded (step crc32 9) (WholeFile crc32) .initial sampleSealed := by decide +kernel
  exact ⟨hok, removes_done_of_whole_files crc32 9 hok⟩

/-- The file of a segment that is only reserved cannot be opened when it is looked at. -/
def sampleUnreadable : List Act :=
  [.reserve 0 sampleMetadata, .append (sampleEntry 7), .rotate, .start 1, .check 1 none, .remove]

/-- It counts as one without live entries and is removed. -/
theorem unreadable_file_removed :
    ¬Guarded (step crc32 9) RemovesDone .initial sampleUnreadable := by
  decide +kernel

end Cleanup

end OceanFs.Wal
