import Mathlib.Data.Multiset.MapFold
import OceanFs.Lib.Bytes
import OceanFs.Lib.MaxRegister
import OceanFs.Metadata.Store

/-!
Rows and tombstones that are pulled from a peer.

A pulled record is applied when it wins against what the store has for its key. Records are
compared by timestamp and, at one timestamp, by the hash of their logical identity; where the
chunks of a row are is not part of that. A row that is applied clears the tombstone and a
tombstone removes the row, so a key never has both.
-/

namespace OceanFs.Metadata

open OceanFs.Core Lib Lib.Bytes List

/-! ### Logical identity -/

/-- What two replicas agree on when they are in sync. -/
inductive Logical
  | live (size : ℕ) (hash : Option HashOutput) (inlineData : Option Bytes) (hlc : Hlc)
  | deleted (hlc : Hlc)
  deriving DecidableEq

namespace Logical

def hlc : Logical → Hlc
  | live _ _ _ hlc => hlc
  | deleted hlc => hlc

/-- `oceanfs-meta-object-row-v1` -/
def objectTag : Bytes :=
  [111, 99, 101, 97, 110, 102, 115, 45, 109, 101, 116, 97, 45, 111, 98, 106, 101, 99, 116, 45, 114,
    111, 119, 45, 118, 49]

/-- `oceanfs-meta-tombstone-v1` -/
def tombstoneTag : Bytes :=
  [111, 99, 101, 97, 110, 102, 115, 45, 109, 101, 116, 97, 45, 116, 111, 109, 98, 115, 116, 111,
    110, 101, 45, 118, 49]

/-- The bytes that are hashed. -/
def identity : Logical → Bytes
  | live size hash inlineData hlc =>
    objectTag ++ (leBytes 8 size ++ (hash.elim [0] (fun h => 1 :: h.val) ++
      (inlineData.elim [0] (fun d => 1 :: (leBytes 8 d.length ++ d)) ++
        (leBytes 8 hlc.wallTime ++ leBytes 4 hlc.logical))))
  | deleted hlc => tombstoneTag ++ (leBytes 8 hlc.wallTime ++ leBytes 4 hlc.logical)

end Logical

def logicalOfRow (m : ObjectMetadata) : Logical :=
  .live m.size m.blake3Hash m.inlineData m.hlc

def logicalOfTombstone (t : Tombstone) : Logical := .deleted t.hlc

def objectLogicallyEqual (a b : ObjectMetadata) : Bool :=
  a.size = b.size ∧ a.blake3Hash = b.blake3Hash ∧ a.inlineData = b.inlineData ∧ a.hlc = b.hlc

lemma objectLogicallyEqual_iff {a b : ObjectMetadata} :
    objectLogicallyEqual a b = true ↔ logicalOfRow a = logicalOfRow b := by
  simp [objectLogicallyEqual, logicalOfRow]

/-! ### Decisions -/

inductive LwwDecision
  | apply
  | alreadyCurrent
  | localWins
  deriving DecidableEq

section

variable {ω : Type*} [LinearOrder ω] (blake3 : Bytes → ω)

def objectIdentityHash (m : ObjectMetadata) : ω := blake3 (logicalOfRow m).identity

def tombstoneIdentityHash (t : Tombstone) : ω := blake3 (logicalOfTombstone t).identity

/-- Whether a pulled row wins: the tombstone is looked at first, then the row. -/
def decideObject (pulled : ObjectMetadata) (localRow : Option ObjectMetadata)
    (localTombstone : Option Tombstone) : LwwDecision :=
  let againstRow :=
    match localRow with
    | none => .apply
    | some row =>
      if pulled.hlc < row.hlc then .localWins
      else if pulled.hlc = row.hlc then
        if objectLogicallyEqual pulled row then .alreadyCurrent
        else if objectIdentityHash blake3 pulled ≤ objectIdentityHash blake3 row then .localWins
        else .apply
      else .apply
  match localTombstone with
  | none => againstRow
  | some t =>
    if pulled.hlc < t.hlc then .localWins
    else if pulled.hlc = t.hlc ∧
        objectIdentityHash blake3 pulled ≤ tombstoneIdentityHash blake3 t then .localWins
    else againstRow

def applyAfterRowCheck (pulled : Tombstone) (localRow : Option ObjectMetadata) : LwwDecision :=
  match localRow with
  | none => .apply
  | some row =>
    if pulled.hlc < row.hlc then .localWins
    else if pulled.hlc = row.hlc ∧
        tombstoneIdentityHash blake3 pulled ≤ objectIdentityHash blake3 row then .localWins
    else .apply

def decideTombstone (pulled : Tombstone) (localRow : Option ObjectMetadata)
    (localTombstone : Option Tombstone) : LwwDecision :=
  match localTombstone with
  | none => applyAfterRowCheck blake3 pulled localRow
  | some t =>
    if pulled.hlc < t.hlc then .localWins
    else if pulled.hlc = t.hlc then .alreadyCurrent
    else applyAfterRowCheck blake3 pulled localRow

/-! ### Application -/

inductive SyncApplyOutcome
  | applied
  | alreadyCurrent
  | localWins
  deriving DecidableEq

def LwwDecision.outcome : LwwDecision → SyncApplyOutcome
  | .apply => .applied
  | .alreadyCurrent => .alreadyCurrent
  | .localWins => .localWins

namespace KeyState

/-- `apply_tombstone_row_locked`: the row's chunks are captured under the row's timestamp. -/
def applyTombstoneRow (s : KeyState) (t : Tombstone) (nowMs : ℤ) : KeyState where
  row := none
  tombstone := some t
  supersedes :=
    match s.row with
    | some m =>
      if m.isSegmentStored then
        Function.update s.supersedes m.hlc
          (some { deletionTime := nowMs, hlc := m.hlc, chunks := m.chunks })
      else s.supersedes
    | none => s.supersedes

def syncApplyObject (s : KeyState) (m : ObjectMetadata) (nowMs : ℤ) :
    KeyState × SyncApplyOutcome :=
  let decision := decideObject blake3 m s.row s.tombstone
  (if decision = .apply then s.put m nowMs else s, decision.outcome)

def syncApplyTombstone (s : KeyState) (t : Tombstone) (nowMs : ℤ) :
    KeyState × SyncApplyOutcome :=
  let decision := decideTombstone blake3 t s.row s.tombstone
  (if decision = .apply then s.applyTombstoneRow t nowMs else s, decision.outcome)

end KeyState

/-- A record that is pulled from a peer. -/
inductive Pulled
  | object (m : ObjectMetadata)
  | tombstone (t : Tombstone)
  deriving DecidableEq

def Pulled.logical : Pulled → Logical
  | object m => logicalOfRow m
  | tombstone t => logicalOfTombstone t

namespace KeyState

def pull (s : KeyState) : Pulled × ℤ → KeyState
  | (.object m, nowMs) => (s.syncApplyObject blake3 m nowMs).1
  | (.tombstone t, nowMs) => (s.syncApplyTombstone blake3 t nowMs).1

/-- Records applied one after the other, each at its time. -/
def pullAll (s : KeyState) (records : List (Pulled × ℤ)) : KeyState :=
  records.foldl (pull blake3) s

def logical (s : KeyState) : Option Logical :=
  match s.row, s.tombstone with
  | some m, _ => some (logicalOfRow m)
  | none, some t => some (logicalOfTombstone t)
  | none, none => none

end KeyState

/-! ### The order of records -/

/-- By timestamp, and at one timestamp by identity hash. -/
def Logical.rank (l : Logical) : Hlc ×ₗ ω := toLex (l.hlc, blake3 l.identity)

def KeyState.rank (s : KeyState) : WithBot (Hlc ×ₗ ω) :=
  s.logical.elim ⊥ fun l => ((l.rank blake3 : Hlc ×ₗ ω) : WithBot (Hlc ×ₗ ω))

/-- A key has a row or a tombstone, not both. -/
def KeyState.Exclusive (s : KeyState) : Prop := s.row = none ∨ s.tombstone = none

variable {blake3}

lemma Logical.rank_lt_iff {a b : Logical} :
    a.rank blake3 < b.rank blake3 ↔
      ¬ b.hlc < a.hlc ∧ ¬ (b.hlc = a.hlc ∧ blake3 b.identity ≤ blake3 a.identity) := by
  rw [Logical.rank, Logical.rank, Prod.Lex.toLex_lt_toLex]
  rcases lt_trichotomy a.hlc b.hlc with h | h | h
  · simp [h, h.not_gt, h.ne']
  · simp [h]
  · simp [h, h.not_gt, h.ne']

namespace KeyState

variable {s : KeyState} {m row : ObjectMetadata} {t tomb : Tombstone}

omit [LinearOrder ω] in
lemma rank_of_row (h : s.row = some row) :
    s.rank blake3 = ((logicalOfRow row).rank blake3 : WithBot (Hlc ×ₗ ω)) := by
  simp [rank, logical, h]

omit [LinearOrder ω] in
lemma rank_of_tombstone (hrow : s.row = none) (h : s.tombstone = some tomb) :
    s.rank blake3 = ((logicalOfTombstone tomb).rank blake3 : WithBot (Hlc ×ₗ ω)) := by
  simp [rank, logical, hrow, h]

omit [LinearOrder ω] in
lemma rank_of_none (hrow : s.row = none) (h : s.tombstone = none) : s.rank blake3 = ⊥ := by
  simp [rank, logical, hrow, h]

lemma decideObject_eq_apply_iff (h : s.Exclusive) :
    decideObject blake3 m s.row s.tombstone = .apply ↔
      s.rank blake3 < ((logicalOfRow m).rank blake3 : WithBot (Hlc ×ₗ ω)) := by
  rcases hrow : s.row with _ | row
  · rcases htomb : s.tombstone with _ | tomb
    · simp [decideObject, rank_of_none hrow htomb]
    · rw [rank_of_tombstone hrow htomb, WithBot.coe_lt_coe, Logical.rank_lt_iff]
      simp only [decideObject, objectIdentityHash, tombstoneIdentityHash]
      change _ ↔ ¬ m.hlc < tomb.hlc ∧ ¬ (m.hlc = tomb.hlc ∧ _)
      split_ifs with hlt htie <;> simp [*]
  · have htomb : s.tombstone = none := h.resolve_left (by simp [hrow])
    rw [htomb, rank_of_row hrow, WithBot.coe_lt_coe, Logical.rank_lt_iff]
    simp only [decideObject, objectIdentityHash]
    change _ ↔ ¬ m.hlc < row.hlc ∧ ¬ (m.hlc = row.hlc ∧ _)
    split_ifs with hlt heq hsame hle <;> simp [*]
    rw [objectLogicallyEqual_iff.mp hsame]

lemma applyAfterRowCheck_eq_apply_iff (hrow : s.row = some row) :
    applyAfterRowCheck blake3 t s.row = .apply ↔
      s.rank blake3 < ((logicalOfTombstone t).rank blake3 : WithBot (Hlc ×ₗ ω)) := by
  rw [rank_of_row hrow, WithBot.coe_lt_coe, Logical.rank_lt_iff, hrow]
  simp only [applyAfterRowCheck, objectIdentityHash, tombstoneIdentityHash]
  change _ ↔ ¬ t.hlc < row.hlc ∧ ¬ (t.hlc = row.hlc ∧ _)
  split_ifs with hlt htie <;> simp [*]

lemma decideTombstone_eq_apply_iff (h : s.Exclusive) :
    decideTombstone blake3 t s.row s.tombstone = .apply ↔
      s.rank blake3 < ((logicalOfTombstone t).rank blake3 : WithBot (Hlc ×ₗ ω)) := by
  rcases htomb : s.tombstone with _ | tomb
  · rcases hrow : s.row with _ | row
    · simp [decideTombstone, applyAfterRowCheck, rank_of_none hrow htomb]
    · rw [decideTombstone, ← hrow, applyAfterRowCheck_eq_apply_iff hrow]
  · have hrow : s.row = none := h.resolve_right (by simp [htomb])
    rw [rank_of_tombstone hrow htomb, WithBot.coe_lt_coe, Logical.rank_lt_iff, hrow]
    simp only [decideTombstone, applyAfterRowCheck]
    change _ ↔ ¬ t.hlc < tomb.hlc ∧ ¬ (t.hlc = tomb.hlc ∧ _)
    split_ifs with hlt heq <;> simp [*, logicalOfTombstone]

lemma logical_pull (h : s.Exclusive) (d : Pulled × ℤ) :
    (s.pull blake3 d).logical =
      if s.rank blake3 < (d.1.logical.rank blake3 : WithBot (Hlc ×ₗ ω)) then some d.1.logical
      else s.logical := by
  obtain ⟨m | t, nowMs⟩ := d
  · simp only [pull, syncApplyObject]
    rw [apply_ite logical]
    exact if_congr (decideObject_eq_apply_iff h) rfl rfl
  · simp only [pull, syncApplyTombstone]
    rw [apply_ite logical]
    exact if_congr (decideTombstone_eq_apply_iff h) rfl rfl

variable (blake3) in
lemma logical_pull_or (s : KeyState) (d : Pulled × ℤ) :
    (s.pull blake3 d).logical = s.logical ∨ (s.pull blake3 d).logical = some d.1.logical := by
  obtain ⟨m | t, nowMs⟩ := d
  · simp only [pull, syncApplyObject]
    split_ifs
    · exact .inr rfl
    · exact .inl rfl
  · simp only [pull, syncApplyTombstone]
    split_ifs
    · exact .inr rfl
    · exact .inl rfl

lemma exclusive_pull (h : s.Exclusive) (d : Pulled × ℤ) : (s.pull blake3 d).Exclusive := by
  obtain ⟨m | t, nowMs⟩ := d
  · simp only [pull, syncApplyObject]
    split_ifs
    · exact .inr rfl
    · exact h
  · simp only [pull, syncApplyTombstone]
    split_ifs
    · exact .inl rfl
    · exact h

lemma raises_pull : MaxRegister.Raises (pull blake3) Exclusive (rank blake3)
    fun d : Pulled × ℤ => d.1.logical.rank blake3 where
  inv _ d h := exclusive_pull h d
  rank_eq s d h := by
    rw [rank, logical_pull h d]
    split_ifs with hlt
    · exact (max_eq_right hlt.le).symm
    · exact (max_eq_left (not_lt.mp hlt)).symm

variable (blake3) in
lemma rank_pullAll (records : List (Pulled × ℤ)) :
    (empty.pullAll blake3 records).rank blake3 =
      (records.map fun d => d.1.logical.rank blake3).maximum := by
  rw [pullAll, raises_pull.rank_foldl (.inl rfl), rank_of_none rfl rfl, bot_sup_eq]

variable (blake3) in
lemma exists_logical_pullAll {records : List (Pulled × ℤ)} (hne : records ≠ []) :
    ∃ d ∈ records.map Prod.fst, (empty.pullAll blake3 records).logical = some d.logical ∧
      ∀ d' ∈ records.map Prod.fst, d'.logical.rank blake3 ≤ d.logical.rank blake3 := by
  have hrank := rank_pullAll blake3 records
  rcases MaxRegister.obs_foldl (logical_pull_or blake3) empty records with hnone | ⟨d, hd, hlogical⟩
  · rw [rank, pullAll, hnone] at hrank
    exact absurd (map_eq_nil_iff.mp (maximum_eq_bot.mp hrank.symm)) hne
  · rw [rank, pullAll, hlogical, Option.elim_some, eq_comm, maximum_eq_coe_iff] at hrank
    refine ⟨d.1, mem_map_of_mem hd, hlogical, fun d' hd' => ?_⟩
    obtain ⟨p, hp, rfl⟩ := mem_map.mp hd'
    exact hrank.2 _ (mem_map_of_mem hp)

end KeyState

/-- **Pull-apply converges.** Two stores that are given the same records of a key, in any two
orders and at any times, end in one logical state. It is that of a record, none of the records is
above it by timestamp and identity hash, and only without records is there none. -/
theorem pull_apply_converges (blake3 : Bytes → ω) (records : Multiset Pulled)
    (hinj : ∀ a ∈ records, ∀ b ∈ records,
      blake3 a.logical.identity = blake3 b.logical.identity → a.logical = b.logical)
    (first second : List (Pulled × ℤ)) (hfirst : ↑(first.map Prod.fst) = records)
    (hsecond : ↑(second.map Prod.fst) = records) :
    (KeyState.empty.pullAll blake3 first).logical =
        (KeyState.empty.pullAll blake3 second).logical ∧
      ((KeyState.empty.pullAll blake3 first).logical = none ↔ records = 0) ∧
      ∀ l ∈ (KeyState.empty.pullAll blake3 first).logical,
        (∃ d ∈ records, d.logical = l) ∧
          ∀ d ∈ records, d.logical.rank blake3 ≤ l.rank blake3 := by
  subst hfirst
  have hperm := Multiset.coe_eq_coe.mp hsecond
  rcases eq_or_ne first [] with rfl | hne
  · have hnil : second = [] := by simpa using hperm
    simp [hnil, KeyState.pullAll, KeyState.logical, KeyState.empty]
  have hne' : second ≠ [] := by
    rintro rfl
    simp [hne] at hperm
  obtain ⟨d, hd, hlogical, hmax⟩ := KeyState.exists_logical_pullAll blake3 hne
  obtain ⟨d', hd', hlogical', hmax'⟩ := KeyState.exists_logical_pullAll blake3 hne'
  have hrank : d.logical.rank blake3 = d'.logical.rank blake3 :=
    le_antisymm (hmax' d (hperm.mem_iff.mpr hd)) (hmax d' (hperm.mem_iff.mp hd'))
  have hsame : d.logical = d'.logical :=
    hinj d hd d' (hperm.mem_iff.mp hd') (congrArg (fun r => (ofLex r).2) hrank)
  refine ⟨by rw [hlogical, hlogical', hsame], by simp [hlogical, hne], fun l hl => ?_⟩
  rw [hlogical, Option.mem_some_iff] at hl
  subst hl
  exact ⟨⟨d, hd, rfl⟩, hmax⟩

/-- **A record that comes again is not applied**, whatever came before and after it: the key keeps
its row, its tombstone and its supersede records. -/
theorem pull_of_pulled (blake3 : Bytes → ω) (earlier later : List (Pulled × ℤ)) (d : Pulled)
    (first again : ℤ) :
    let s := KeyState.empty.pullAll blake3 (earlier ++ (d, first) :: later)
    s.pull blake3 (d, again) = s := by
  intro s
  have hexclusive : s.Exclusive :=
    List.foldlRecOn _ _ (.inl rfl) fun _ h d _ => KeyState.exclusive_pull h d
  have hle : ¬ s.rank blake3 < (d.logical.rank blake3 : WithBot (Hlc ×ₗ ω)) := by
    rw [KeyState.rank_pullAll, not_lt]
    exact le_maximum_of_mem' (mem_map.mpr ⟨(d, first), by simp, rfl⟩)
  cases d with
  | object m => exact if_neg (mt (KeyState.decideObject_eq_apply_iff hexclusive).mp hle)
  | tombstone t => exact if_neg (mt (KeyState.decideTombstone_eq_apply_iff hexclusive).mp hle)

end

/-- A row and a tombstone of one timestamp, given in both orders; the hash is the number that the
bytes stand for. -/
theorem row_and_tombstone_in_both_orders :
    (KeyState.empty.pullAll leNat
        [(.object ⟨"cat", 3, none, [⟨1, 0, 3, false, 3⟩], none, 0, ⟨1, 0⟩⟩, 0),
          (.tombstone ⟨0, ⟨1, 0⟩, []⟩, 0)]).logical =
      (KeyState.empty.pullAll leNat
        [(.tombstone ⟨0, ⟨1, 0⟩, []⟩, 5),
          (.object ⟨"cat", 3, none, [⟨1, 0, 3, false, 3⟩], none, 0, ⟨1, 0⟩⟩, 6)]).logical := by
  refine (pull_apply_converges leNat {.object ⟨"cat", 3, none, [⟨1, 0, 3, false, 3⟩], none, 0,
    ⟨1, 0⟩⟩, .tombstone ⟨0, ⟨1, 0⟩, []⟩} (by decide +kernel) _ _ rfl ?_).1
  exact Multiset.coe_eq_coe.mpr (List.Perm.swap ..)

end OceanFs.Metadata
