import Mathlib.Data.List.MinMax
import OceanFs.Segment.CheckpointEquivalence
import OceanFs.Segment.EventLog

/-!
Checkpoint files on disk, the truncation of the log behind them, and a boot that finds one of the
files damaged.

A boot loads the checkpoint file of the greatest position that it can read, and folds the log from
that position on. Where the newest file is damaged it takes an older one. The log has meanwhile
been truncated for the newest, so the older one brings back what it needs only if its suffix of
the log was left.
-/

namespace OceanFs.Segment

open OceanFs.Core Lib.Runs List Option

/-- A checkpoint file, named by the position it covers. `covered` is the number of the event
there, over all events ever logged. -/
structure SavedCheckpoint where
  pos : EventPos
  covered : ℕ
  registry : Registry

/-- The coordinator with its files. `base` is the number of events that were logged before this
log was created, `stale` that `lastFolded` is not the position the coordinator's registry is at in
this log, and `written` the position of the checkpoint written last. -/
structure Disk where
  coord : Coordinator
  log : EventLog
  base : ℕ
  lastFolded : EventPos
  stale : Bool
  files : List SavedCheckpoint
  written : Option EventPos

namespace Disk

def initial : Disk := ⟨.initial, .fresh, 0, eventPos 0 0, false, [], none⟩

inductive Act
  | submit (now : ℕ) (req : Request)
  | recordPos (id : SegmentId) (pos : DataWalPos)
  | checkpoint
  /-- `truncate_before` the position of the checkpoint written last. -/
  | truncate
  deriving DecidableEq

section

variable (C : Codecs) (limit grace : ℕ)

/-- The snapshot of a registry, if each of its entries has an encoding. -/
def snapshot (r : Registry) : Option (List SnapshotRecord) :=
  encodeSnapshot (fun l => (C.serialize l).length) r

def submit (now : ℕ) (req : Request) (s : Disk) : Option Disk :=
  match Coordinator.submit grace now req s.coord, req.event s.coord.registry with
  | some coord, some evt =>
    let appended := s.log.append C limit evt
    some { s with
      coord := coord
      log := appended.1
      lastFolded := if Coordinator.lands grace now req s.coord.registry then appended.2.repacked
        else s.lastFolded
      stale := !Coordinator.lands grace now req s.coord.registry && s.stale }
  | _, _ => none

/-- `write_checkpoint`; a snapshot that cannot be encoded leaves no file, and a file of the same
position is replaced. -/
def writeCheckpoint (s : Disk) : Disk :=
  match snapshot C s.coord.registry with
  | none => s
  | some _ => { s with
      files := ⟨s.lastFolded, s.coord.lastFolded, s.coord.registry⟩ ::
        s.files.filter (·.pos ≠ s.lastFolded)
      written := some s.lastFolded }

def truncate (s : Disk) : Disk :=
  match s.written with
  | none => s
  | some pos => { s with log := s.log.truncateBefore C pos }

def step (s : Disk) : Act → Option Disk
  | .submit now req => s.submit C limit grace now req
  | .recordPos id pos =>
    (s.coord.step grace (.recordPos id pos)).map fun coord => { s with coord := coord }
  | .checkpoint => some (s.writeCheckpoint C)
  | .truncate => some (s.truncate C)

end

/-- `load_checkpoint`: the readable file of the greatest position. -/
def newest (files : List SavedCheckpoint) : Option SavedCheckpoint := files.argmax (·.pos)

/-- The files that can be read when the one of the given position is damaged. -/
def readable (damaged : EventPos) (s : Disk) : List SavedCheckpoint :=
  s.files.filter (·.pos ≠ damaged)

/-- The events in front of the checkpoint that is loaded. -/
def covered (files : List SavedCheckpoint) : ℕ := ((newest files).map (·.covered)).getD 0

/-- A boot from the readable checkpoint files and the log. -/
def boot (C : Codecs) (grace now : ℕ) (times : ℕ → ℕ) (files : List SavedCheckpoint) (s : Disk) :
    Except FoldError Registry :=
  let checkpoint := newest files
  let read := s.log.readFrom C ((checkpoint.map (·.pos)).getD (eventPos 0 0))
  Segment.boot grace now (checkpoint.bind fun c => snapshot C c.registry) (timed times read.1)
    read.2.logEnd

/-- Whichever checkpoint file is damaged, a boot fails or gives the registry of the whole log. -/
def DamageDetected (C : Codecs) (limit grace : ℕ) (s : Disk) : Prop :=
  ∀ damaged now times times',
    (∃ e, s.boot C grace now times (s.readable damaged) = .error e) ∨
      ∃ r r', s.boot C grace now times (s.readable damaged) = .ok r ∧
        rebuildLog C limit grace times' s.coord.log = .ok r' ∧
        ∀ seg, view id (r.lookup seg) = view id (r'.lookup seg)

/-! ### The files of a run -/

variable {C : Codecs} {limit grace now : ℕ} {req : Request} {s s' : Disk}

/-- A checkpoint file brings the registry back with the log from its position on. -/
structure Saved (C : Codecs) (grace : ℕ) (s : Disk) (f : SavedCheckpoint) : Prop where
  encodes : (snapshot C f.registry).isSome
  base_le : s.base ≤ f.covered
  le_length : f.covered ≤ s.coord.log.length
  place : s.log.At C f.pos (f.covered - s.base)
  restores : Coordinator.Restores C grace s.coord.log s.coord.registry
    (Coordinator.seeded f.registry) (s.coord.log.drop f.covered)

structure Sound (C : Codecs) (grace : ℕ) (s : Disk) : Prop where
  coord : Coordinator.Sequential C grace s.coord
  events : s.log.events = s.coord.log.drop s.base
  base_le : s.base ≤ s.coord.lastFolded
  first_le : s.log.first ≤ s.log.rotated.length
  place : s.stale = false → s.log.At C s.lastFolded (s.coord.lastFolded - s.base)
  saved : ∀ f ∈ s.files, Saved C grace s f

lemma Sound.initial : Sound C grace initial where
  coord := .initial
  events := rfl
  base_le := le_rfl
  first_le := le_rfl
  place _ := EventLog.at_start _
  saved := by simp [Disk.initial]

lemma submit_eq (h : s.submit C limit grace now req = some s') :
    ∃ coord evt, Coordinator.submit grace now req s.coord = some coord ∧
      req.event s.coord.registry = some evt ∧
      s' = { s with
        coord := coord
        log := (s.log.append C limit evt).1
        lastFolded := if Coordinator.lands grace now req s.coord.registry then
          (s.log.append C limit evt).2.repacked else s.lastFolded
        stale := !Coordinator.lands grace now req s.coord.registry && s.stale } := by
  unfold Disk.submit at h
  split at h
  · rename_i coord evt hcoord hevt
    exact ⟨coord, evt, hcoord, hevt, (some.inj h).symm⟩
  · simp at h

/-- The position of the request's record has room in `last_folded_pos`. -/
def Packs (C : Codecs) (limit : ℕ) (req : Request) (s : Disk) : Prop :=
  ∀ evt ∈ req.event s.coord.registry, (s.log.append C limit evt).2.Packable

lemma Sound.submit (h : Sound C grace s) (hok : Coordinator.Plain C grace s.coord (.submit now req))
    (hpacks : s.Packs C limit req)
    (hs : s.submit C limit grace now req = some s') : Sound C grace s' := by
  obtain ⟨coord, evt, hcoord, hevt, rfl⟩ := submit_eq hs
  obtain ⟨evt', -, hevt', -, hlog, -, -, hpos⟩ := Coordinator.submit_cases h.coord.idle hcoord
  obtain rfl : evt' = evt := some.inj (hevt'.symm.trans hevt)
  have hbase : s.base ≤ s.coord.log.length := h.base_le.trans h.coord.position
  have hlength : s.log.events.length = s.coord.log.length - s.base := by
    rw [h.events, length_drop]
  constructor
  case coord => exact h.coord.submit hok hcoord
  case events =>
    change (s.log.append C limit evt').1.events = coord.log.drop s.base
    rw [EventLog.events_append, h.events, hlog, drop_append_of_le_length hbase]
  case base_le =>
    rcases hpos with ⟨-, hlast⟩ | ⟨-, hlast, -⟩
    · exact hbase.trans hlast.ge
    · exact h.base_le.trans hlast.ge
  case first_le => exact EventLog.first_append_le h.first_le
  case place =>
    intro hstale
    rcases hpos with ⟨hlands, hlast⟩ | ⟨hlands, hlast, -⟩
    · simp only [hlands, if_true, hlast, ← hlength,
        EventPos.repacked_of_packable (hpacks evt' hevt)]
      exact EventLog.at_append s.log evt'
    · simp only [hlands, hlast, Bool.false_eq_true, if_false]
      exact (h.place (by simpa [hlands] using hstale)).append
  case saved =>
    intro f hf
    obtain ⟨hencodes, hle, hlen, hplace, hrestores⟩ := h.saved f hf
    refine ⟨hencodes, hle, ?_, hplace.append, ?_⟩
    · change f.covered ≤ coord.log.length
      rw [hlog, length_append]
      omega
    · have hrestores' := h.coord.restores_submit hok hcoord hevt hrestores
      rwa [← drop_append_of_le_length hlen, ← hlog] at hrestores'

lemma Sound.recordPos (h : Sound C grace s) (seg : SegmentId) (pos : DataWalPos) :
    Sound C grace
      { s with coord := { s.coord with registry := s.coord.registry.recordDataWalPos seg pos } } :=
  have hseen := fun seg' => Coordinator.view_recordDataWalPos (kept C) s.coord.registry seg seg' pos
  { coord := h.coord.recordPos seg pos
    events := h.events
    base_le := h.base_le
    first_le := h.first_le
    place := h.place
    saved := fun f hf =>
      have hsaved := h.saved f hf
      { encodes := hsaved.encodes
        base_le := hsaved.base_le
        le_length := hsaved.le_length
        place := hsaved.place
        restores := hsaved.restores.congr hseen } }

/-- The checkpoint of the state. -/
def current (s : Disk) : SavedCheckpoint := ⟨s.lastFolded, s.coord.lastFolded, s.coord.registry⟩

lemma writeCheckpoint_cases (C : Codecs) (s : Disk) :
    s.writeCheckpoint C = s ∨ (snapshot C s.coord.registry).isSome ∧
      s.writeCheckpoint C = { s with
        files := s.current :: s.files.filter (·.pos ≠ s.lastFolded)
        written := some s.lastFolded } := by
  unfold Disk.writeCheckpoint
  split
  · exact .inl rfl
  · rename_i records hrecords
    exact .inr ⟨by rw [hrecords]; rfl, rfl⟩

lemma Sound.saved_current (h : Sound C grace s)
    (hok : Coordinator.Plain C grace s.coord .checkpoint) (hstale : s.stale = false)
    (hencodes : (snapshot C s.coord.registry).isSome) : Saved C grace s s.current :=
  ⟨hencodes, h.base_le, h.coord.position, h.place hstale, h.coord.restores_checkpoint hok⟩

lemma Sound.writeCheckpoint (h : Sound C grace s)
    (hok : Coordinator.Plain C grace s.coord .checkpoint) (hstale : s.stale = false) :
    Sound C grace (s.writeCheckpoint C) := by
  rcases writeCheckpoint_cases C s with hsame | ⟨hencodes, hwrite⟩
  · rwa [hsame]
  · rw [hwrite]
    refine ⟨h.coord, h.events, h.base_le, h.first_le, h.place, ?_⟩
    refine forall_mem_cons.mpr ⟨?_, fun f hf => ?_⟩
    · obtain ⟨hencodes, hle, hlen, hplace, hrestores⟩ := h.saved_current hok hstale hencodes
      exact ⟨hencodes, hle, hlen, hplace, hrestores⟩
    · obtain ⟨hencodes, hle, hlen, hplace, hrestores⟩ := h.saved f (mem_of_mem_filter hf)
      exact ⟨hencodes, hle, hlen, hplace, hrestores⟩

lemma Sound.truncate (h : Sound C grace s) : Sound C grace (s.truncate C) := by
  unfold Disk.truncate
  split
  · exact h
  · rename_i pos hpos
    refine ⟨h.coord, h.events, h.base_le, EventLog.first_truncateBefore_le pos h.first_le, h.place,
      fun f hf => ?_⟩
    obtain ⟨hencodes, hle, hlen, hplace, hrestores⟩ := h.saved f hf
    exact ⟨hencodes, hle, hlen, hplace, hrestores⟩

lemma Sound.boot_newest (h : Sound C grace s) {files : List SavedCheckpoint} {f : SavedCheckpoint}
    (hf : newest files = some f) (hmem : f ∈ s.files)
    (hkept : s.log.removed ≤ f.covered - s.base) (now : ℕ) (times : ℕ → ℕ) :
    ∃ r, s.boot C grace now times files = .ok r ∧
      Coordinator.Alike C grace s.coord.log s.coord.registry r := by
  obtain ⟨hencodes, hle, hlen, hplace, hrestores⟩ := h.saved f hmem
  obtain ⟨records, hrecords⟩ := isSome_iff_exists.mp hencodes
  have hread : Readable C s.log.events := fun evt hevt =>
    h.coord.readable evt (mem_of_mem_drop (h.events ▸ hevt))
  have hevents : s.log.events.drop (f.covered - s.base) = s.coord.log.drop f.covered := by
    rw [h.events, drop_drop, show s.base + (f.covered - s.base) = f.covered by omega]
  obtain ⟨r, hr, halike⟩ := hrestores times
  refine ⟨r, ?_, halike⟩
  simp only [boot, hf, map_some, getD_some, bind_some, hrecords,
    hplace.readFrom hread h.first_le hkept, hevents]
  exact (Coordinator.boot_of_snapshot hrecords grace now _ _).trans hr

lemma Sound.boot_none (h : Sound C grace s) {files : List SavedCheckpoint}
    (hf : newest files = none) (hbase : s.base = 0) (hkept : s.log.removed = 0) (now : ℕ)
    (times : ℕ → ℕ) :
    ∃ r, s.boot C grace now times files = .ok r ∧
      Coordinator.Alike C grace s.coord.log s.coord.registry r := by
  have hevents : s.log.events = s.coord.log := by rw [h.events, hbase, drop_zero]
  have hread : Readable C s.log.events := hevents ▸ h.coord.readable
  obtain ⟨r, hr, halike⟩ := h.coord.full times
  refine ⟨r, ?_, halike⟩
  simp only [boot, hf, map_none, getD_none, bind_none,
    (EventLog.at_start _).readFrom hread h.first_le hkept.le, hevents, drop_zero]
  exact hr

/-! ### One damaged file -/

lemma covered_mono {files files' : List SavedCheckpoint} (hfiles : ∀ f ∈ files, Saved C grace s f)
    (hfiles' : ∀ f ∈ files', Saved C grace s f)
    (hle : ∀ f ∈ files, ∃ f' ∈ files', f.pos ≤ f'.pos) : covered files ≤ covered files' := by
  unfold covered
  cases hnew : newest files with
  | none => exact Nat.zero_le _
  | some f =>
    have hf : f ∈ files := argmax_mem hnew
    obtain ⟨g, hg, hfg⟩ := hle f hf
    cases hnew' : newest files' with
    | none => simp [argmax_eq_none.mp hnew'] at hg
    | some f' =>
      have hf' : f' ∈ files' := argmax_mem hnew'
      have hsaved := hfiles f hf
      have hsaved' := hfiles' f' hf'
      have hindex := hsaved.place.mono hsaved'.place (hfg.trans (le_of_mem_argmax hg hnew'))
      have hbase := hsaved'.base_le
      change f.covered ≤ f'.covered
      omega

lemma le_covered {files : List SavedCheckpoint} (hfiles : ∀ f ∈ files, Saved C grace s f)
    {f : SavedCheckpoint} (hf : f ∈ files) : f.covered ≤ covered files := by
  have hone : covered [f] ≤ covered files :=
    covered_mono (fun g hg => mem_singleton.mp hg ▸ hfiles f hf) hfiles
      fun g hg => ⟨f, hf, (mem_singleton.mp hg ▸ le_rfl : g.pos ≤ f.pos)⟩
  exact hone

lemma Sound.covered_le_cons (h : Sound C grace s) (hcurrent : Saved C grace s s.current)
    {p : SavedCheckpoint → Bool} (hp : p s.current = true) :
    covered (s.files.filter p) ≤
      covered ((s.current :: s.files.filter (·.pos ≠ s.lastFolded)).filter p) := by
  refine covered_mono (fun f hf => h.saved f (mem_of_mem_filter hf)) (fun f hf => ?_)
    fun f hf => ?_
  · rcases mem_cons.mp (mem_of_mem_filter hf) with rfl | hf
    · exact hcurrent
    · exact h.saved f (mem_of_mem_filter hf)
  · obtain ⟨hmem, hpf⟩ := mem_filter.mp hf
    by_cases hsame : f.pos = s.lastFolded
    · exact ⟨s.current, mem_filter.mpr ⟨mem_cons_self, hp⟩, hsame.le⟩
    · refine ⟨f, mem_filter.mpr ⟨mem_cons_of_mem _ ?_, hpf⟩, le_rfl⟩
      exact mem_filter.mpr ⟨hmem, by simpa using hsame⟩

/-- What the fallback of a damaged file needs is still in the log. -/
def FallbackKept (s : Disk) : Prop := ∀ damaged, s.log.removed ≤ covered (s.readable damaged)

/-- A request is plain, its record's position has room in the word, a checkpoint is one of a
registry without lists, and a truncation is for a position in the first file of the log, or
beside each checkpoint another one lies in the file of the position or a later one. -/
def Careful (C : Codecs) (limit grace : ℕ) (s : Disk) : Act → Prop
  | .submit now req => Coordinator.Plain C grace s.coord (.submit now req) ∧ s.Packs C limit req
  | .recordPos _ _ => True
  | .checkpoint => Coordinator.Plain C grace s.coord .checkpoint
  | .truncate => ∀ pos ∈ s.written, pos.fileSeq = 0 ∨
      ∀ f ∈ s.files, ∃ g ∈ s.files, g.pos ≠ f.pos ∧ pos.fileSeq ≤ g.pos.fileSeq

/-- In a run on one log, every fallback has what it needs. -/
structure Backed (C : Codecs) (grace : ℕ) (s : Disk) : Prop where
  sound : Sound C grace s
  base : s.base = 0
  fresh : s.stale = false
  /-- The checkpoint that truncations follow is on disk. -/
  written : ∀ pos ∈ s.written, ∃ f ∈ s.files, f.pos = pos
  kept : FallbackKept s

lemma Backed.initial : Backed C grace initial :=
  ⟨.initial, rfl, rfl, by simp [Disk.initial], fun _ => Nat.zero_le _⟩

section

variable (h : Backed C grace s)

include h

lemma Backed.submit
    (hok : Coordinator.Plain C grace s.coord (.submit now req)) (hpacks : s.Packs C limit req)
    (hs : s.submit C limit grace now req = some s') : Backed C grace s' := by
  have hsound := h.sound.submit hok hpacks hs
  obtain ⟨coord, evt, -, -, rfl⟩ := submit_eq hs
  refine ⟨hsound, h.base, ?_, h.written, fun damaged => ?_⟩
  · simp [h.fresh]
  · change (s.log.append C limit evt).1.removed ≤ covered (s.readable damaged)
    rw [EventLog.removed_append h.sound.first_le]
    exact h.kept damaged

lemma Backed.checkpoint (hok : Coordinator.Plain C grace s.coord .checkpoint)
    :
    Backed C grace (s.writeCheckpoint C) := by
  have hsound := h.sound.writeCheckpoint hok h.fresh
  rcases writeCheckpoint_cases C s with hsame | ⟨hencodes, hwrite⟩
  · rwa [hsame]
  rw [hwrite] at hsound ⊢
  have hwritten : ∀ pos ∈ some s.lastFolded,
      ∃ f ∈ s.current :: s.files.filter (·.pos ≠ s.lastFolded), f.pos = pos :=
    fun pos hpos => ⟨s.current, mem_cons_self, some.inj hpos⟩
  refine ⟨hsound, h.base, h.fresh, hwritten, fun damaged => (h.kept damaged).trans ?_⟩
  by_cases hdamaged : damaged = s.lastFolded
  · -- the new file is the damaged one, so the fallback is the one of before
    subst hdamaged
    simp [readable, current, List.filter_filter]
  · exact h.sound.covered_le_cons (h.sound.saved_current hok h.fresh hencodes)
      (decide_eq_true (Ne.symm hdamaged))

/-- After a truncation, a boot from the given files still has what it needs. -/
lemma Backed.removed_truncateBefore {pos : EventPos} (hpos : pos ∈ s.written)
    {files : List SavedCheckpoint} (hfiles : ∀ f ∈ files, f ∈ s.files)
    (hkept : s.log.removed ≤ covered files)
    (hcareful : pos.fileSeq = 0 ∨ ∃ g ∈ files, pos.fileSeq ≤ g.pos.fileSeq) :
    (s.log.truncateBefore C pos).removed ≤ covered files := by
  obtain ⟨w, hw, rfl⟩ := h.written pos hpos
  have hplace := (h.sound.saved w hw).place
  rcases hcareful with hfirst | ⟨g, hg, hfile⟩
  · have hremoved := hplace.removed_truncateBefore (EventLog.at_start s.log) hfirst.le
    exact hremoved.trans (max_le hkept (Nat.zero_le _))
  · have hsaved := fun f hf => h.sound.saved f (hfiles f hf)
    have hremoved := hplace.removed_truncateBefore (hsaved g hg).place hfile
    rw [h.base, Nat.sub_zero] at hremoved
    exact hremoved.trans (max_le hkept (le_covered hsaved hg))

lemma Backed.truncate (hok : Careful C limit grace s .truncate) :
    Backed C grace (s.truncate C) := by
  have hsound := h.sound.truncate
  unfold Disk.truncate at hsound ⊢
  split at hsound
  · exact h
  rename_i pos hpos
  refine ⟨hsound, h.base, h.fresh, h.written, fun damaged => ?_⟩
  refine h.removed_truncateBefore hpos (fun f hf => mem_of_mem_filter hf) (h.kept damaged)
    ((hok pos hpos).imp_right fun hother => ?_)
  obtain ⟨w, hw, rfl⟩ := h.written pos hpos
  by_cases hdamaged : w.pos = damaged
  · obtain ⟨g, hg, hne, hfile⟩ := hother w hw
    exact ⟨g, mem_filter.mpr ⟨hg, by simpa using hdamaged ▸ hne⟩, hfile⟩
  · -- the file that the log is truncated for is itself readable
    exact ⟨w, mem_filter.mpr ⟨hw, by simpa using hdamaged⟩, le_rfl⟩

lemma Backed.step {a : Act} (hok : Careful C limit grace s a)
    (hs : step C limit grace s a = some s') : Backed C grace s' := by
  cases a with
  | submit now req => exact h.submit hok.1 hok.2 hs
  | recordPos seg pos =>
    obtain rfl := some.inj hs
    exact ⟨h.sound.recordPos seg pos, h.base, h.fresh, h.written, h.kept⟩
  | checkpoint =>
    obtain rfl := some.inj hs
    exact h.checkpoint hok
  | truncate =>
    obtain rfl := some.inj hs
    exact h.truncate hok

lemma Backed.damageDetected (limit : ℕ) :
    DamageDetected C limit grace s := by
  intro damaged now times times'
  have hkept := h.kept damaged
  obtain ⟨r', hr', halike'⟩ := h.sound.coord.full times'
  obtain ⟨r, hr, halike⟩ : ∃ r, s.boot C grace now times (s.readable damaged) = .ok r ∧
      Coordinator.Alike C grace s.coord.log s.coord.registry r := by
    cases hnew : newest (s.readable damaged) with
    | none =>
      rw [covered, hnew] at hkept
      exact h.sound.boot_none hnew h.base (Nat.le_zero.mp hkept) now times
    | some f =>
      rw [covered, hnew] at hkept
      have hmem : f ∈ s.files := mem_of_mem_filter (argmax_mem hnew)
      exact h.sound.boot_newest hnew hmem (by rw [h.base]; exact hkept) now times
  exact .inr ⟨r, r', hr, (rebuildLog_eq limit times' h.sound.coord.readable).trans hr',
    halike.view_id halike'⟩

end

/-- **One damaged checkpoint file loses nothing**, in every run whose truncations find, beside each
checkpoint, another one as far in the log. -/
theorem damage_detected_of_careful (C : Codecs) (limit grace : ℕ) {acts : List Act}
    (h : Guarded (step C limit grace) (Careful C limit grace) initial acts) :
    Always (step C limit grace) (DamageDetected C limit grace) initial acts :=
  always_of_guarded (fun _ _ _ hinv hok hs => Backed.step hinv hok hs)
    (fun _ hinv => hinv.damageDetected limit) .initial h

instance (C : Codecs) (limit : ℕ) (req : Request) (s : Disk) : Decidable (s.Packs C limit req) :=
  inferInstanceAs (Decidable (∀ evt ∈ req.event s.coord.registry, _))

instance (C : Codecs) (limit grace : ℕ) (s : Disk) : DecidablePred (Careful C limit grace s) :=
  fun a => by cases a <;> unfold Careful <;> infer_instance

/-- Two records to a file; both checkpoints cover events of the second. -/
def sampleBacked : List Act :=
  [.submit 0 (.reserve 5 .small 4 2), .submit 0 (.reserve 6 .small 4 2),
    .submit 0 (.reserve 7 .small 4 2), .checkpoint, .submit 0 (.reserve 8 .small 4 2), .checkpoint,
    .truncate, .submit 0 (.delete 6)]

theorem both_checkpoints_in_one_file :
    Guarded (step sampleCodecs 100 5) (Careful sampleCodecs 100 5) initial sampleBacked ∧
      Always (step sampleCodecs 100 5) (DamageDetected sampleCodecs 100 5) initial
        sampleBacked := by
  have hok : Guarded (step sampleCodecs 100 5) (Careful sampleCodecs 100 5) initial
      sampleBacked := by decide +kernel
  exact ⟨hok, damage_detected_of_careful sampleCodecs 100 5 hok⟩

/-- One record to a file; the log is truncated for the second checkpoint. -/
def sampleDamaged : List Act :=
  [.submit 0 (.reserve 7 .small 4 2), .submit 0 (.reserve 8 .small 4 2), .checkpoint,
    .submit 0 (.reserve 9 .small 4 2), .submit 0 (.reserve 10 .small 4 2), .checkpoint, .truncate]

/-- With the second checkpoint damaged, the first one and what is left of the log have no trace
of segment 9. -/
theorem damaged_checkpoint_loses_event :
    ¬Always (step sampleCodecs 10 5) (DamageDetected sampleCodecs 10 5) initial sampleDamaged := by
  intro h
  obtain ⟨s, hs⟩ : ∃ s, run (step sampleCodecs 10 5) initial sampleDamaged = some s :=
    isSome_iff_exists.mp (by decide +kernel)
  have hdiff : ∀ s ∈ run (step sampleCodecs 10 5) initial sampleDamaged,
      (s.boot sampleCodecs 5 0 (fun _ => 0) (s.readable (eventPos 4 0))).map
          (fun r => view id (r.lookup 9)) ≠
        (rebuildLog sampleCodecs 10 5 (fun _ => 0) s.coord.log).map
          (fun r => view id (r.lookup 9)) ∧
      (s.boot sampleCodecs 5 0 (fun _ => 0) (s.readable (eventPos 4 0))).isOk := by
    decide +kernel
  obtain ⟨hne, hok⟩ := hdiff s hs
  rcases (always_iff_run _ _).mp h _ s prefix_rfl hs (eventPos 4 0) 0 (fun _ => 0) fun _ => 0
    with ⟨e, he⟩ | ⟨r, r', hr, hr', hview⟩
  · rw [he] at hok
    simp [Except.isOk, Except.toBool] at hok
  · refine hne ?_
    rw [hr, hr']
    exact congrArg Except.ok (hview 9)

end Disk

end OceanFs.Segment
