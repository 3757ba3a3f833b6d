import OceanFs.Lib.Runs
import OceanFs.Metadata.SyncApply

/-!
The dead-chunk records of a key.

A chunk that a row of the key had is dead once no row has it, and garbage collection learns of it
from the records alone. A put files the row that it supersedes, or the tombstone that it clears,
under that one's timestamp; a delete puts the chunks into the tombstone. A record is lost when
another is written in its place: a second delete replaces the tombstone of the first, and a put
that is not newer than the row files nothing.
-/

namespace OceanFs.Metadata

open OceanFs.Core Lib Lib.Runs Option List

inductive DeadChunkKind
  | tombstone
  | supersede
  deriving DecidableEq

structure DeadChunkRecord where
  kind : DeadChunkKind
  capturedAt : ℤ
  hlc : Hlc
  chunks : List ChunkRef
  deriving DecidableEq

def DeadChunkRecord.of (kind : DeadChunkKind) (t : Tombstone) : DeadChunkRecord :=
  ⟨kind, t.deletionTime, t.hlc, t.chunks⟩

namespace KeyState

/-- The records of the key among those that `list_dead_chunk_records_all` returns. -/
inductive Lists (s : KeyState) : DeadChunkRecord → Prop
  | tombstone {t} (h : s.tombstone = some t) : Lists s (.of .tombstone t)
  | supersede {version t} (h : s.supersedes version = some t) : Lists s (.of .supersede t)

/-- The chunk is in a dead-chunk record. -/
def Dead (s : KeyState) (c : ChunkRef) : Prop := ∃ r, s.Lists r ∧ c ∈ r.chunks

/-- The chunk is in the current row. -/
def Live (s : KeyState) (c : ChunkRef) : Prop := ∃ m ∈ s.row, c ∈ m.chunks

end KeyState

/-! ### Histories of a key -/

inductive KeyOp
  | put (m : ObjectMetadata) (nowMs : ℤ)
  | delete (hlc : Hlc) (nowMs : ℤ)
  | syncObject (m : ObjectMetadata) (nowMs : ℤ)
  | syncTombstone (t : Tombstone) (nowMs : ℤ)
  deriving DecidableEq

/-- The chunks that an operation brings. -/
def KeyOp.chunks : KeyOp → List ChunkRef
  | .put m _ => m.chunks
  | .delete _ _ => []
  | .syncObject m _ => m.chunks
  | .syncTombstone t _ => t.chunks

/-- A key with the chunks that its rows have had, and those that the operations have brought. -/
structure KeyHistory where
  key : KeyState
  carried : List ChunkRef
  seen : List ChunkRef

namespace KeyHistory

section

variable {ω : Type*} [LinearOrder ω] (blake3 : Bytes → ω)

def applyOp (s : KeyState) : KeyOp → KeyState
  | .put m nowMs => s.put m nowMs
  | .delete hlc nowMs => s.delete hlc nowMs
  | .syncObject m nowMs => (s.syncApplyObject blake3 m nowMs).1
  | .syncTombstone t nowMs => (s.syncApplyTombstone blake3 t nowMs).1

def step (s : KeyHistory) (op : KeyOp) : Option KeyHistory :=
  let key := applyOp blake3 s.key op
  some ⟨key, s.carried ++ (key.row.map (·.chunks)).getD [], s.seen ++ op.chunks⟩

def start : KeyHistory := ⟨.empty, [], []⟩

end

/-- Every chunk that a row of the key has had is in the row or in a record. -/
def Accounted (s : KeyHistory) : Prop := ∀ c ∈ s.carried, s.key.Live c ∨ s.key.Dead c

/-- No chunk of the row is in a record. -/
def LiveSpared (s : KeyHistory) : Prop := ∀ c, s.key.Live c → ¬ s.key.Dead c

end KeyHistory

/-! ### Filing a record -/

/-- The chunk is in one of the supersede records. -/
def Filed (records : Hlc → Option Tombstone) (c : ChunkRef) : Prop :=
  ∃ version, ∃ t ∈ records version, c ∈ t.chunks

section

variable {records : Hlc → Option Tombstone} {dead : Tombstone} {c : ChunkRef}

lemma filed_update (h : Filed (Function.update records dead.hlc (some dead)) c) :
    Filed records c ∨ c ∈ dead.chunks := by
  obtain ⟨version, t, ht, hc⟩ := h
  by_cases hv : version = dead.hlc
  · subst hv
    rw [Function.update_self] at ht
    exact .inr (some.inj ht ▸ hc)
  · rw [Function.update_of_ne hv] at ht
    exact .inl ⟨version, t, ht, hc⟩

lemma filed_update_of_free (hfree : ∀ t ∈ records dead.hlc, t.chunks ⊆ dead.chunks)
    (h : Filed records c ∨ c ∈ dead.chunks) :
    Filed (Function.update records dead.hlc (some dead)) c := by
  by_cases hdead : c ∈ dead.chunks
  · exact ⟨dead.hlc, dead, by simp, hdead⟩
  obtain ⟨version, t, ht, hc⟩ := h.resolve_right hdead
  have hv : version ≠ dead.hlc := by
    rintro rfl
    exact hdead (hfree t ht hc)
  exact ⟨version, t, by simpa [Function.update_of_ne hv] using ht, hc⟩

end

namespace KeyState

variable {s : KeyState} {c : ChunkRef} {m : ObjectMetadata} {t : Tombstone} {nowMs : ℤ}

lemma dead_iff : s.Dead c ↔ (∃ t ∈ s.tombstone, c ∈ t.chunks) ∨ Filed s.supersedes c := by
  constructor
  · rintro ⟨_, ⟨h⟩ | ⟨h⟩, hc⟩
    · exact .inl ⟨_, h, hc⟩
    · exact .inr ⟨_, _, h, hc⟩
  · rintro (⟨t, ht, hc⟩ | ⟨version, t, ht, hc⟩)
    · exact ⟨_, .tombstone ht, hc⟩
    · exact ⟨_, .supersede ht, hc⟩

lemma capture_eq_some {dead : Tombstone} (h : s.capture m nowMs = some dead) :
    (∃ prev ∈ s.row, prev.hlc < m.hlc ∧ dead.hlc = prev.hlc ∧ dead.chunks = prev.chunks) ∨
      s.row = none ∧ ∃ t ∈ s.tombstone, dead.hlc = t.hlc ∧ dead.chunks = t.chunks := by
  unfold capture at h
  rcases hrow : s.row with _ | prev <;> rw [hrow] at h
  · rcases htomb : s.tombstone with _ | t <;> rw [htomb] at h
    · cases h
    · simp only at h
      split_ifs at h
      exact .inr ⟨rfl, t, rfl, some.inj h ▸ ⟨rfl, rfl⟩⟩
  · simp only at h
    split_ifs at h with hnew
    exact .inl ⟨prev, rfl, hnew.2, some.inj h ▸ ⟨rfl, rfl⟩⟩

lemma exists_capture_row {prev : ObjectMetadata} (hrow : s.row = some prev) (hlt : prev.hlc < m.hlc)
    (hc : c ∈ prev.chunks) :
    ∃ dead, s.capture m nowMs = some dead ∧ dead.hlc = prev.hlc ∧ dead.chunks = prev.chunks := by
  have hstored : prev.isSegmentStored = true := by
    simpa [ObjectMetadata.isSegmentStored] using ne_nil_of_mem hc
  exact ⟨_, by simp only [capture, hrow]; exact if_pos ⟨hstored, hlt⟩, rfl, rfl⟩

lemma exists_capture_tombstone (hrow : s.row = none) (htomb : s.tombstone = some t)
    (hc : c ∈ t.chunks) :
    ∃ dead, s.capture m nowMs = some dead ∧ dead.hlc = t.hlc ∧ dead.chunks = t.chunks :=
  ⟨_, by simp only [capture, hrow, htomb]; exact if_pos (ne_nil_of_mem hc), rfl, rfl⟩

lemma supersedes_put (h : s.capture m nowMs = none) :
    (s.put m nowMs).supersedes = s.supersedes := by
  simp [put, h]

lemma supersedes_put_capture {dead : Tombstone} (h : s.capture m nowMs = some dead) :
    (s.put m nowMs).supersedes = Function.update s.supersedes dead.hlc (some dead) := by
  simp [put, h]

lemma dead_put (h : (s.put m nowMs).Dead c) :
    s.Dead c ∨ ∃ prev ∈ s.row, prev.hlc < m.hlc ∧ c ∈ prev.chunks := by
  have hfiled : Filed (s.put m nowMs).supersedes c := (dead_iff.mp h).resolve_left (by simp)
  rcases hcap : s.capture m nowMs with _ | dead
  · rw [supersedes_put hcap] at hfiled
    exact .inl (dead_iff.mpr (.inr hfiled))
  · rw [supersedes_put_capture hcap] at hfiled
    rcases filed_update hfiled with hold | hdead
    · exact .inl (dead_iff.mpr (.inr hold))
    · rcases capture_eq_some hcap with ⟨prev, hprev, hlt, -, heq⟩ | ⟨-, t, ht, -, heq⟩
      · exact .inr ⟨prev, hprev, hlt, heq ▸ hdead⟩
      · exact .inl (dead_iff.mpr (.inl ⟨t, ht, heq ▸ hdead⟩))

lemma dead_applyTombstoneRow (h : (s.applyTombstoneRow t nowMs).Dead c) :
    s.Live c ∨ s.Dead c ∨ c ∈ t.chunks := by
  rcases dead_iff.mp h with ⟨t', ht', hc⟩ | hfiled
  · exact .inr (.inr (some.inj ht' ▸ hc))
  · simp only [applyTombstoneRow] at hfiled
    split at hfiled
    · rename_i prev hrow
      split_ifs at hfiled
      · rcases @filed_update _ ⟨nowMs, prev.hlc, prev.chunks⟩ _ hfiled with hold | hdead
        · exact .inr (.inl (dead_iff.mpr (.inr hold)))
        · exact .inl ⟨prev, hrow, hdead⟩
      · exact .inr (.inl (dead_iff.mpr (.inr hfiled)))
    · exact .inr (.inl (dead_iff.mpr (.inr hfiled)))

lemma dead_delete {hlc : Hlc} (h : (s.delete hlc nowMs).Dead c) : s.Live c ∨ s.Dead c := by
  rcases dead_iff.mp h with ⟨t, ht, hc⟩ | hfiled
  · rw [← some.inj ht] at hc
    rcases hrow : s.row with _ | prev
    · simp [hrow] at hc
    · exact .inl ⟨prev, hrow, by simpa [hrow] using hc⟩
  · exact .inr (dead_iff.mpr (.inr hfiled))

end KeyState

/-! ### Live chunks are not in records -/

namespace KeyHistory

section

variable {ω : Type*} [LinearOrder ω] (blake3 : Bytes → ω)

/-- The row brings chunks that no operation has brought before, or repeats the current row. -/
def FreshRow (s : KeyHistory) (m : ObjectMetadata) : Prop :=
  (∀ c ∈ m.chunks, c ∉ s.seen) ∨ ∃ prev ∈ s.key.row, m.chunks ⊆ prev.chunks ∧ m.hlc ≤ prev.hlc

/-- A row that is stored is fresh. -/
def BringsFresh (s : KeyHistory) : KeyOp → Prop
  | .put m _ => s.FreshRow m
  | .delete _ _ => True
  | .syncObject m _ => decideObject blake3 m s.key.row s.key.tombstone = .apply → s.FreshRow m
  | .syncTombstone _ _ => True

instance (s : KeyHistory) (m : ObjectMetadata) : Decidable (s.FreshRow m) :=
  inferInstanceAs (Decidable (_ ∨ _))

instance (s : KeyHistory) : DecidablePred (BringsFresh blake3 s) := fun op => by
  cases op <;> unfold BringsFresh <;> infer_instance

/-- Live chunks are not in records, and whatever is in the row or a record has been seen. -/
structure Sparing (s : KeyHistory) : Prop where
  spared : s.LiveSpared
  seen : ∀ c, s.key.Live c ∨ s.key.Dead c → c ∈ s.seen

variable {blake3} {s : KeyHistory} {m : ObjectMetadata} {nowMs : ℤ} {c : ChunkRef}

lemma liveOrDead_applyOp {key : KeyState} {op : KeyOp}
    (h : (applyOp blake3 key op).Live c ∨ (applyOp blake3 key op).Dead c) :
    key.Live c ∨ key.Dead c ∨ c ∈ op.chunks := by
  have hput : ∀ {m : ObjectMetadata} {nowMs : ℤ},
      (key.put m nowMs).Live c ∨ (key.put m nowMs).Dead c →
        key.Live c ∨ key.Dead c ∨ c ∈ m.chunks := by
    rintro m nowMs (⟨_, ⟨⟩, hc⟩ | hdead)
    · exact .inr (.inr hc)
    · rcases KeyState.dead_put hdead with hdead | ⟨prev, hprev, -, hc⟩
      · exact .inr (.inl hdead)
      · exact .inl ⟨prev, hprev, hc⟩
  cases op with
  | put m nowMs => exact hput h
  | delete hlc nowMs =>
    rcases h with ⟨_, hnone, -⟩ | hdead
    · cases hnone
    · exact (KeyState.dead_delete hdead).imp_right .inl
  | syncObject m nowMs =>
    simp only [applyOp, KeyState.syncApplyObject] at h
    split_ifs at h
    · exact hput h
    · exact h.imp_right .inl
  | syncTombstone t nowMs =>
    simp only [applyOp, KeyState.syncApplyTombstone] at h
    split_ifs at h
    · rcases h with ⟨_, hnone, -⟩ | hdead
      · cases hnone
      · exact KeyState.dead_applyTombstoneRow hdead
    · exact h.imp_right .inl

lemma Sparing.put (h : s.Sparing) (hfresh : s.FreshRow m) :
    ∀ c, (s.key.put m nowMs).Live c → ¬ (s.key.put m nowMs).Dead c := by
  rintro c ⟨_, ⟨⟩, hc⟩ hdead
  rcases hfresh with hnew | ⟨prev, hprev, hsub, hle⟩
  · refine hnew c hc (h.seen c ?_)
    rcases KeyState.dead_put hdead with hdead | ⟨prev, hprev, -, hc⟩
    · exact .inr hdead
    · exact .inl ⟨prev, hprev, hc⟩
  · rcases KeyState.dead_put hdead with hdead | ⟨prev', hprev', hlt, -⟩
    · exact h.spared c ⟨prev, hprev, hsub hc⟩ hdead
    · obtain rfl := some.inj (hprev.symm.trans hprev')
      exact absurd hlt (not_lt.mpr hle)

lemma Sparing.step {op : KeyOp} {s' : KeyHistory} (h : s.Sparing) (hok : BringsFresh blake3 s op)
    (hs : step blake3 s op = some s') : s'.Sparing := by
  obtain rfl := some.inj hs
  refine ⟨?_, fun c hc => ?_⟩
  · cases op with
    | put m nowMs => exact h.put hok
    | delete hlc nowMs =>
      rintro c ⟨_, hnone, -⟩
      cases hnone
    | syncObject m nowMs =>
      simp only [LiveSpared, applyOp, KeyState.syncApplyObject]
      split_ifs with happly
      · exact h.put (hok happly)
      · exact h.spared
    | syncTombstone t nowMs =>
      simp only [LiveSpared, applyOp, KeyState.syncApplyTombstone]
      split_ifs
      · rintro c ⟨_, hnone, -⟩
        cases hnone
      · exact h.spared
  · rw [mem_append]
    rcases liveOrDead_applyOp hc with hlive | hdead | hnew
    · exact .inl (h.seen c (.inl hlive))
    · exact .inl (h.seen c (.inr hdead))
    · exact .inr hnew

lemma sparing_start : start.Sparing := by
  have hnone : ∀ c, ¬ (KeyState.empty.Live c ∨ KeyState.empty.Dead c) := by
    rintro c (⟨_, hnone, -⟩ | hdead)
    · cases hnone
    · rcases KeyState.dead_iff.mp hdead with ⟨_, hnone, -⟩ | ⟨_, _, hnone, -⟩ <;> cases hnone
  exact ⟨fun c hlive => absurd (.inl hlive) (hnone c), fun c hc => absurd hc (hnone c)⟩

end

/-- **Live chunks are not counted dead** in any state of a history in which every row that is
stored brings chunks that are new to the key, or repeats the row that is there. -/
theorem liveSpared_of_bringsFresh {ω : Type*} [LinearOrder ω] (blake3 : Bytes → ω)
    (ops : List KeyOp) (h : Guarded (step blake3) (BringsFresh blake3) start ops) :
    Always (step blake3) LiveSpared start ops :=
  always_of_guarded (fun _ _ _ hinv hok hs => hinv.step hok hs) (fun _ hinv => hinv.spared)
    sparing_start h

/-- A row of one chunk. -/
def sampleRow (hlc : ℕ) (segment : SegmentId) : ObjectMetadata :=
  ⟨"cat", 3, none, [⟨segment, 0, 3, false, 3⟩], none, 0, ⟨hlc, 0⟩⟩

/-- Two versions, the second of them delivered twice, a delete and a third version. -/
theorem version_delivered_twice :
    Always (step Bytes.leNat) LiveSpared start
      [.put (sampleRow 1 1) 0, .put (sampleRow 2 2) 0, .put (sampleRow 2 2) 0, .delete ⟨3, 0⟩ 0,
        .syncObject (sampleRow 4 3) 0] :=
  liveSpared_of_bringsFresh Bytes.leNat _ (by decide +kernel)

/-- A put that is delivered again after the delete of its version: the row comes back, and its
chunk moves from the tombstone to a supersede record. -/
theorem redelivered_row_counted_dead :
    ¬ Always (step Bytes.leNat) LiveSpared start
      [.put (sampleRow 1 1) 0, .delete ⟨2, 0⟩ 0, .put (sampleRow 1 1) 0] := by
  rw [always_iff_run]
  intro h
  refine h _ _ prefix_rfl rfl ⟨1, 0, 3, false, 3⟩ ⟨sampleRow 1 1, rfl, by decide⟩ ?_
  exact ⟨_, @KeyState.Lists.supersede _ ⟨2, 0⟩ _ rfl, by decide⟩

/-! ### Every chunk is accounted for -/

section

variable {ω : Type*} [LinearOrder ω] (blake3 : Bytes → ω)

/-- Nothing but these chunks is filed under the timestamp. -/
def FreeFor (s : KeyState) (hlc : Hlc) (chunks : List ChunkRef) : Prop :=
  ∀ t ∈ s.supersedes hlc, t.chunks ⊆ chunks

/-- The row that is replaced is older or has no other chunks, and a record can be filed. -/
def PutKeeps (s : KeyState) (m : ObjectMetadata) : Prop :=
  (∀ prev ∈ s.row,
    (prev.hlc < m.hlc ∨ prev.chunks ⊆ m.chunks) ∧ FreeFor s prev.hlc prev.chunks) ∧
  ∀ t ∈ s.tombstone, FreeFor s t.hlc t.chunks

/-- No record is written in the place of another that has other chunks. -/
def KeepsRecords (s : KeyHistory) : KeyOp → Prop
  | .put m _ => PutKeeps s.key m
  | .delete _ _ => ∀ t ∈ s.key.tombstone, t.chunks = []
  | .syncObject m _ =>
    decideObject blake3 m s.key.row s.key.tombstone = .apply → PutKeeps s.key m
  | .syncTombstone t _ =>
    decideTombstone blake3 t s.key.row s.key.tombstone = .apply →
      (∀ t' ∈ s.key.tombstone, t'.chunks ⊆ t.chunks) ∧
      ∀ prev ∈ s.key.row, FreeFor s.key prev.hlc prev.chunks

instance (s : KeyState) (hlc : Hlc) (chunks : List ChunkRef) : Decidable (FreeFor s hlc chunks) :=
  inferInstanceAs (Decidable (∀ t ∈ s.supersedes hlc, t.chunks ⊆ chunks))

instance (s : KeyState) (m : ObjectMetadata) : Decidable (PutKeeps s m) :=
  inferInstanceAs (Decidable (_ ∧ _))

instance (s : KeyHistory) : DecidablePred (KeepsRecords blake3 s) := fun op => by
  cases op <;> unfold KeepsRecords <;> infer_instance

variable {blake3} {s : KeyHistory} {key : KeyState} {m : ObjectMetadata} {nowMs : ℤ}
  {c : ChunkRef}

lemma exclusive_applyOp (h : key.Exclusive) (op : KeyOp) :
    (applyOp blake3 key op).Exclusive := by
  cases op with
  | put m nowMs => exact .inr rfl
  | delete hlc nowMs => exact .inl rfl
  | syncObject m nowMs => exact KeyState.exclusive_pull h (.object m, nowMs)
  | syncTombstone t nowMs => exact KeyState.exclusive_pull h (.tombstone t, nowMs)

lemma liveOrDead_put (hexcl : key.Exclusive) (hok : PutKeeps key m) (h : key.Live c ∨ key.Dead c) :
    (key.put m nowMs).Live c ∨ (key.put m nowMs).Dead c := by
  -- a captured record is filed, and keeps what is filed already
  have hfile : ∀ {dead : Tombstone}, key.capture m nowMs = some dead →
      Filed key.supersedes c ∨ c ∈ dead.chunks → (key.put m nowMs).Dead c := by
    intro dead hcap hc
    refine KeyState.dead_iff.mpr (.inr ?_)
    rw [KeyState.supersedes_put_capture hcap]
    refine filed_update_of_free ?_ hc
    rcases KeyState.capture_eq_some hcap with ⟨prev, hprev, -, hhlc, hchunks⟩ |
      ⟨-, t, ht, hhlc, hchunks⟩
    · rw [hhlc, hchunks]
      exact (hok.1 prev hprev).2
    · rw [hhlc, hchunks]
      exact hok.2 t ht
  rcases h with ⟨prev, hprev, hc⟩ | hdead
  · rcases (hok.1 prev hprev).1 with hlt | hsub
    · obtain ⟨dead, hcap, -, hchunks⟩ := KeyState.exists_capture_row hprev hlt hc
      exact .inr (hfile hcap (.inr (hchunks ▸ hc)))
    · exact .inl ⟨m, rfl, hsub hc⟩
  · refine .inr ?_
    rcases KeyState.dead_iff.mp hdead with ⟨t, ht, hc⟩ | hfiled
    · have hrow : key.row = none := hexcl.resolve_right (by rw [ht]; simp)
      obtain ⟨dead, hcap, -, hchunks⟩ := KeyState.exists_capture_tombstone hrow ht hc
      exact hfile hcap (.inr (hchunks ▸ hc))
    · rcases hcap : key.capture m nowMs with _ | dead
      · rw [KeyState.dead_iff, KeyState.supersedes_put hcap]
        exact .inr hfiled
      · exact hfile hcap (.inl hfiled)

lemma liveOrDead_applyTombstoneRow {t : Tombstone}
    (htomb : ∀ t' ∈ key.tombstone, t'.chunks ⊆ t.chunks)
    (hfree : ∀ prev ∈ key.row, FreeFor key prev.hlc prev.chunks)
    (h : key.Live c ∨ key.Dead c) : (key.applyTombstoneRow t nowMs).Dead c := by
  rw [KeyState.dead_iff]
  by_cases hc : c ∈ t.chunks
  · exact .inl ⟨t, rfl, hc⟩
  have hold : key.Live c ∨ Filed key.supersedes c := by
    refine h.imp_right fun hdead => (KeyState.dead_iff.mp hdead).resolve_left ?_
    rintro ⟨t', ht', hc'⟩
    exact hc (htomb t' ht' hc')
  refine .inr ?_
  rcases hrow : key.row with _ | prev
  · have hfiled := hold.resolve_left (by rintro ⟨_, hprev, -⟩; rw [hrow] at hprev; cases hprev)
    simpa [KeyState.applyTombstoneRow, hrow] using hfiled
  · simp only [KeyState.applyTombstoneRow, hrow]
    split_ifs with hstored
    · refine @filed_update_of_free _ ⟨nowMs, prev.hlc, prev.chunks⟩ _ (hfree prev hrow) ?_
      refine hold.symm.imp_right ?_
      rintro ⟨prev', hprev', hc'⟩
      exact some.inj (hrow.symm.trans hprev') ▸ hc'
    · refine hold.resolve_left ?_
      rintro ⟨prev', hprev', hc'⟩
      obtain rfl := some.inj (hrow.symm.trans hprev')
      exact hstored (by simpa [ObjectMetadata.isSegmentStored] using ne_nil_of_mem hc')

lemma liveOrDead_delete {hlc : Hlc} (htomb : ∀ t ∈ key.tombstone, t.chunks = [])
    (h : key.Live c ∨ key.Dead c) : (key.delete hlc nowMs).Dead c := by
  rw [KeyState.dead_iff]
  rcases h with ⟨prev, hprev, hc⟩ | hdead
  · refine .inl ⟨_, rfl, ?_⟩
    rw [mem_def] at hprev
    simpa [hprev] using hc
  · refine .inr ((KeyState.dead_iff.mp hdead).resolve_left ?_)
    rintro ⟨t, ht, hc⟩
    rw [htomb t ht] at hc
    cases hc

lemma liveOrDead_of_keepsRecords {op : KeyOp} (hexcl : s.key.Exclusive)
    (hok : KeepsRecords blake3 s op) (h : s.key.Live c ∨ s.key.Dead c) :
    (applyOp blake3 s.key op).Live c ∨ (applyOp blake3 s.key op).Dead c := by
  cases op with
  | put m nowMs => exact liveOrDead_put hexcl hok h
  | delete hlc nowMs => exact .inr (liveOrDead_delete hok h)
  | syncObject m nowMs =>
    simp only [applyOp, KeyState.syncApplyObject]
    split_ifs with happly
    · exact liveOrDead_put hexcl (hok happly) h
    · exact h
  | syncTombstone t nowMs =>
    simp only [applyOp, KeyState.syncApplyTombstone]
    split_ifs with happly
    · exact .inr (liveOrDead_applyTombstoneRow (hok happly).1 (hok happly).2 h)
    · exact h

lemma accounted_step {op : KeyOp} {s' : KeyHistory} (h : s.key.Exclusive ∧ s.Accounted)
    (hok : KeepsRecords blake3 s op) (hs : step blake3 s op = some s') :
    s'.key.Exclusive ∧ s'.Accounted := by
  obtain rfl := some.inj hs
  refine ⟨exclusive_applyOp h.1 op, fun c hc => ?_⟩
  rcases mem_append.mp hc with hold | hnew
  · exact liveOrDead_of_keepsRecords h.1 hok (h.2 c hold)
  · refine .inl ?_
    rcases hrow : (applyOp blake3 s.key op).row with _ | m
    · simp [hrow] at hnew
    · exact ⟨m, hrow, by simpa [hrow] using hnew⟩

end

/-- **Dead bytes are accounted for** in every state of a history in which no record is written in
the place of another. -/
theorem accounted_of_keepsRecords {ω : Type*} [LinearOrder ω] (blake3 : Bytes → ω)
    (ops : List KeyOp) (h : Guarded (step blake3) (KeepsRecords blake3) start ops) :
    Always (step blake3) Accounted start ops :=
  always_of_guarded (fun _ _ _ hinv hok hs => accounted_step hinv hok hs) (fun _ hinv => hinv.2)
    ⟨.inl rfl, nofun⟩ h

/-- Two versions, a delete, a third version and a pulled tombstone. -/
theorem versions_and_deletes_accounted :
    Always (step Bytes.leNat) Accounted start
      [.put (sampleRow 1 1) 0, .put (sampleRow 2 2) 0, .delete ⟨3, 0⟩ 0, .put (sampleRow 4 3) 0,
        .syncTombstone ⟨0, ⟨5, 0⟩, []⟩ 0] :=
  accounted_of_keepsRecords Bytes.leNat _ (by decide +kernel)

/-- A second delete of a key replaces the tombstone that has the chunks. -/
theorem deleted_twice_forgotten :
    ¬ Always (step Bytes.leNat) Accounted start
      [.put (sampleRow 1 1) 0, .delete ⟨2, 0⟩ 0, .delete ⟨3, 0⟩ 0] := by
  rw [always_iff_run]
  intro h
  rcases h _ _ prefix_rfl rfl ⟨1, 0, 3, false, 3⟩ (by decide) with ⟨_, hnone, -⟩ | hdead
  · cases hnone
  · rcases KeyState.dead_iff.mp hdead with ⟨_, ht, hc⟩ | ⟨_, _, hnone, -⟩
    · cases ht
      cases hc
    · cases hnone

end KeyHistory

end OceanFs.Metadata
