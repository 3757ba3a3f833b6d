import OceanFs.Segment.DamagedCheckpoint

/-!
The replacement of a lost WAL pool on a running node.

A remount creates a fresh event log, removes the checkpoint files and, once the drain is done,
writes a checkpoint of the registry: the gate. The coordinator keeps running, so the checkpoint is
written under the position that it folded last, which after the reopen can still be one of the
log that is gone. A node that starts folds the log without the coordinator, whose last position is
then zero until a request is folded.
-/

namespace OceanFs.Segment

open OceanFs.Core Lib.Runs List Option

/-- The node while it remounts, and between remounts. -/
structure Remounted where
  disk : Disk
  remounting : Bool

namespace Remounted

def initial : Remounted := ⟨.initial, false⟩

inductive Act
  | disk (a : Disk.Act)
  /-- The node stops and starts again. -/
  | restart (now : ℕ) (times : ℕ → ℕ)
  /-- `prepare_wal_replacement`: `EventWal::reopen_fresh` and `reset_for_fresh`. -/
  | reopen
  /-- The checkpoint at the end of `run_drain_with_gate`. -/
  | gate

/-- The log and the checkpoint files are new, the coordinator and its last position are not. -/
def reopen (s : Disk) : Disk :=
  { s with
    coord := { s.coord with lastFolded := s.coord.log.length, checkpoints := [] }
    log := .fresh
    base := s.coord.log.length
    stale := s.lastFolded ≠ eventPos 0 0
    files := []
    written := none }

/-- The coordinator of a node that starts with the given registry. -/
def started (r : Registry) (s : Disk) : Disk :=
  { s with
    coord := { s.coord with registry := r, lastFolded := s.coord.log.length, checkpoints := [] }
    lastFolded := eventPos 0 0
    stale := !s.log.events.isEmpty
    written := none }

section

variable (C : Codecs) (limit grace : ℕ)

/-- A node whose log cannot be folded does not start. A gate whose snapshot cannot be written fails
the remount. -/
def step (s : Remounted) : Act → Option Remounted
  | .disk a => (s.disk.step C limit grace a).map fun disk => { s with disk := disk }
  | .restart now times =>
    if s.remounting then none
    else match s.disk.boot C grace now times s.disk.files with
      | .ok r => some ⟨started r s.disk, false⟩
      | .error _ => none
  | .reopen => some ⟨reopen s.disk, true⟩
  | .gate =>
    if s.remounting ∧ (Disk.snapshot C s.disk.coord.registry).isSome then
      some ⟨s.disk.writeCheckpoint C, false⟩
    else none

end

/-- Requests are plain, the positions of their records have room in the word, and a checkpoint is
one of a registry without lists, under a position of the log that is open. -/
def OwnPosition (C : Codecs) (limit grace : ℕ) (s : Remounted) : Act → Prop
  | .disk (.submit now req) =>
    Coordinator.Plain C grace s.disk.coord (.submit now req) ∧ s.disk.Packs C limit req
  | .disk (.recordPos _ _) => True
  | .disk .checkpoint | .gate =>
    Coordinator.Plain C grace s.disk.coord .checkpoint ∧ s.disk.stale = false
  | .disk .truncate => True
  | .restart _ _ => True
  | .reopen => True

variable {C : Codecs} {limit grace now : ℕ} {req : Request} {s s' : Remounted} {d d' : Disk}

/-- The files and the log that are needed are there. -/
structure Ready (C : Codecs) (grace : ℕ) (s : Remounted) : Prop where
  sound : s.disk.Sound C grace
  /-- The checkpoint that truncations follow is on disk. -/
  written : ∀ pos ∈ s.disk.written, ∃ f ∈ s.disk.files, f.pos = pos
  kept : s.disk.log.removed ≤ Disk.covered s.disk.files - s.disk.base
  gated : s.remounting = false → s.disk.base = 0 ∨ s.disk.files ≠ []

lemma Ready.initial : Ready C grace initial where
  sound := .initial
  written := by simp [Remounted.initial, Disk.initial]
  kept := Nat.zero_le _
  gated _ := .inl rfl

lemma sound_reopen (h : d.Sound C grace) : (reopen d).Sound C grace where
  coord := { h.coord with
    position := le_rfl
    tail := by
      rw [reopen, drop_length]
      exact Coordinator.absorbed_nil _
    taken := by simp [reopen] }
  events := by
    rw [reopen, drop_length]
    rfl
  base_le := le_rfl
  first_le := le_rfl
  place hstale := by
    have hpos : d.lastFolded = eventPos 0 0 := by simpa [reopen] using hstale
    change EventLog.At C .fresh d.lastFolded (d.coord.log.length - d.coord.log.length)
    rw [hpos, Nat.sub_self]
    exact EventLog.at_start _
  saved := by simp [reopen]

section

variable (h : Ready C grace s)

include h

lemma Ready.submit
    (hok : Coordinator.Plain C grace s.disk.coord (.submit now req))
    (hpacks : s.disk.Packs C limit req) (hs : s.disk.submit C limit grace now req = some d') :
    Ready C grace { s with disk := d' } := by
  have hsound := h.sound.submit hok hpacks hs
  obtain ⟨coord, evt, -, -, rfl⟩ := Disk.submit_eq hs
  refine ⟨hsound, h.written, ?_, h.gated⟩
  change (s.disk.log.append C limit evt).1.removed ≤ _
  rw [EventLog.removed_append h.sound.first_le]
  exact h.kept

lemma Ready.checkpoint
    (hok : Coordinator.Plain C grace s.disk.coord .checkpoint) (hstale : s.disk.stale = false) :
    Ready C grace { s with disk := s.disk.writeCheckpoint C } := by
  have hsound := h.sound.writeCheckpoint hok hstale
  rcases Disk.writeCheckpoint_cases C s.disk with hsame | ⟨hencodes, hwrite⟩
  · rwa [hsame]
  · have hcurrent := h.sound.saved_current hok hstale hencodes
    have hcovered := h.sound.covered_le_cons hcurrent (p := fun _ => true) rfl
    rw [filter_true, filter_true] at hcovered
    rw [hwrite] at hsound ⊢
    refine ⟨hsound, fun pos hpos => ?_, h.kept.trans (Nat.sub_le_sub_right hcovered _), fun _ => ?_⟩
    · exact ⟨s.disk.current, mem_cons_self, some.inj hpos⟩
    · exact .inr (cons_ne_nil _ _)

lemma Ready.truncate :
    Ready C grace { s with disk := s.disk.truncate C } := by
  have hsound := h.sound.truncate
  unfold Disk.truncate at hsound ⊢
  split at hsound
  · exact h
  · rename_i pos hpos
    refine ⟨hsound, h.written, ?_, h.gated⟩
    obtain ⟨f, hf, rfl⟩ := h.written pos hpos
    have hplace := (h.sound.saved f hf).place
    have hremoved := hplace.removed_truncateBefore hplace le_rfl
    have hcovered := Disk.le_covered h.sound.saved hf
    have hkept := h.kept
    change (s.disk.log.truncateBefore C f.pos).removed ≤ _
    exact hremoved.trans (max_le hkept (Nat.sub_le_sub_right hcovered _))

lemma Ready.gate (hok : Coordinator.Plain C grace s.disk.coord .checkpoint)
    (hstale : s.disk.stale = false) (hencodes : (Disk.snapshot C s.disk.coord.registry).isSome) :
    Ready C grace ⟨s.disk.writeCheckpoint C, false⟩ := by
  obtain ⟨hsound, hwritten, hkept, -⟩ := h.checkpoint hok hstale
  refine ⟨hsound, hwritten, hkept, fun _ => .inr ?_⟩
  change (s.disk.writeCheckpoint C).files ≠ []
  rw [Disk.writeCheckpoint]
  obtain ⟨records, hrecords⟩ := isSome_iff_exists.mp hencodes
  rw [hrecords]
  exact cons_ne_nil _ _

lemma Ready.boot (hdone : s.remounting = false) (now : ℕ) (times : ℕ → ℕ) :
    ∃ r, s.disk.boot C grace now times s.disk.files = .ok r ∧
      Coordinator.Alike C grace s.disk.coord.log s.disk.coord.registry r := by
  have hkept := h.kept
  cases hnew : Disk.newest s.disk.files with
  | none =>
    rcases h.gated hdone with hbase | hfiles
    · rw [Disk.covered, hnew] at hkept
      exact h.sound.boot_none hnew hbase (by simpa using hkept) now times
    · exact absurd (argmax_eq_none.mp hnew) hfiles
  | some f =>
    rw [Disk.covered, hnew] at hkept
    exact h.sound.boot_newest hnew (argmax_mem hnew) hkept now times

end

/-- A registry that is seen like the live one can take its place. -/
lemma sound_started (h : d.Sound C grace) {r : Registry}
    (halike : Coordinator.Alike C grace d.coord.log d.coord.registry r) :
    (started r d).Sound C grace where
  coord := { h.coord with
    position := le_rfl
    deletes := halike.deletes
    fresh := fun seg v hv => h.coord.fresh seg v (halike.seen seg ▸ hv)
    tail := by
      rw [started, drop_length]
      exact Coordinator.absorbed_nil _
    full := h.coord.full.congr halike.seen
    taken := by simp [started] }
  events := h.events
  base_le := h.base_le.trans h.coord.position
  first_le := h.first_le
  place hstale := by
    have hnil : d.log.events = [] := by simpa [started] using hstale
    have hlen := congrArg List.length (h.events.symm.trans hnil)
    rw [length_drop, length_nil] at hlen
    change EventLog.At C d.log (eventPos 0 0) (d.coord.log.length - d.base)
    rw [hlen]
    exact EventLog.at_start _
  saved f hf :=
    have hsaved := h.saved f hf
    { encodes := hsaved.encodes
      base_le := hsaved.base_le
      le_length := hsaved.le_length
      place := hsaved.place
      restores := hsaved.restores.congr halike.seen }

lemma Ready.restart (h : Ready C grace s) (hdone : s.remounting = false) {now : ℕ} {times : ℕ → ℕ}
    {r : Registry} (hboot : s.disk.boot C grace now times s.disk.files = .ok r) :
    Ready C grace ⟨started r s.disk, false⟩ := by
  obtain ⟨r', hr', halike⟩ := h.boot hdone now times
  obtain rfl : r' = r := Except.ok.inj (hr'.symm.trans hboot)
  exact ⟨sound_started h.sound halike, by simp [started], h.kept, fun _ => h.gated hdone⟩

lemma Ready.step {a : Act} (h : Ready C grace s) (hok : OwnPosition C limit grace s a)
    (hs : step C limit grace s a = some s') : Ready C grace s' := by
  cases a with
  | restart now times =>
    rw [Remounted.step] at hs
    split_ifs at hs with hdone
    split at hs
    · rename_i r hboot
      obtain rfl := some.inj hs
      exact h.restart (Bool.eq_false_of_not_eq_true hdone) hboot
    · cases hs
  | reopen =>
    obtain rfl := some.inj hs
    exact ⟨sound_reopen h.sound, by simp [reopen], Nat.zero_le _, by simp⟩
  | gate =>
    rw [Remounted.step] at hs
    split_ifs at hs with hgate
    obtain rfl := some.inj hs
    exact h.gate hok.1 hok.2 hgate.2
  | disk a =>
    obtain ⟨d', hd', rfl⟩ := map_eq_some_iff.mp hs
    cases a with
    | submit now req => exact h.submit hok.1 hok.2 hd'
    | recordPos seg pos =>
      obtain rfl := some.inj hd'
      exact ⟨h.sound.recordPos seg pos, h.written, h.kept, h.gated⟩
    | checkpoint =>
      obtain rfl := some.inj hd'
      exact h.checkpoint hok.1 hok.2
    | truncate =>
      obtain rfl := some.inj hd'
      exact h.truncate

instance (C : Codecs) (limit grace : ℕ) (s : Remounted) :
    DecidablePred (OwnPosition C limit grace s) := by
  rintro (⟨_ | _⟩ | _ | _ | _) <;> unfold OwnPosition <;> infer_instance

end Remounted

end OceanFs.Segment
