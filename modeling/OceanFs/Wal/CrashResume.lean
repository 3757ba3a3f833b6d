import Mathlib.Data.List.Flatten
import OceanFs.Wal.Cleanup

/-!
The data WAL across crashes and restarts.

A restart opens the last file as the crash has left it and appends behind whatever is there. The
reader looks for the next header right behind the last entry it has read, so an entry that is
appended behind a torn one is not found again. As long as every file that is appended to ends
with a whole entry, no file is left with an entry cut in its data, and the clean-up of old files
leaves those with acknowledged entries, a replay returns what was acknowledged.
-/

namespace OceanFs.Wal

open OceanFs.Core Segment Lib.Runs List Option

/-- The writer and its directory: the files before the current one, oldest first, and how much of
the current one is durable. `acknowledged` has the entries that a sync has covered, with their
positions, since the log was created, but for those that were truncated; `pending` those that were
written since the last sync. -/
structure DataWal where
  rotated : List (ℕ × Bytes)
  current : ℕ × Bytes
  synced : ℕ
  acknowledged : List (DataWalPos × WalEntry)
  pending : List (DataWalPos × WalEntry)
  deriving DecidableEq

namespace DataWal

def initial : DataWal := ⟨[], (0, []), 0, [], []⟩

/-- The directory as a reader sees it. -/
def directory (s : DataWal) : List (ℕ × Bytes) := s.rotated ++ [s.current]

def written (s : DataWal) : List (DataWalPos × WalEntry) := s.acknowledged ++ s.pending

end DataWal

/-- `WAL_RETENTION_FILES`. -/
def walRetentionFiles : ℕ := 4

section

variable (crc : Bytes → UInt32)

/-- `cleanup_old_wal_files`, where `seq` is the greatest number: the files that stay. -/
def cleanupOldWalFiles (garbage : Option (SegmentId → DataWalPos → Bool)) (seq : ℕ)
    (files : List (ℕ × Bytes)) : List (ℕ × Bytes) :=
  files.filter fun f => retentionFloor seq walRetentionFiles ≤ f.1 ||
    garbage.any fun garbage => fileContainsLiveEntries crc garbage f.1 f.2

/-- An entry is in the retention window, or the liveness closure calls it live. -/
def Retained (garbage : Option (SegmentId → DataWalPos → Bool)) (seq : ℕ)
    (p : DataWalPos × WalEntry) : Prop :=
  retentionFloor seq walRetentionFiles ≤ (ofLex p.1).1 ∨
    garbage.any fun garbage => !garbage p.2.segmentId p.1

namespace DataWal

/-- `rotate`: the file is synced and left, and old files are cleaned up. -/
def rotate (garbage : Option (SegmentId → DataWalPos → Bool)) (s : DataWal) : DataWal where
  rotated := cleanupOldWalFiles crc garbage (s.current.1 + 1) s.directory
  current := (s.current.1 + 1, [])
  synced := 0
  acknowledged := s.written
  pending := []

/-- The entry does not fit in the current file, `limit` being the configured file size. -/
def rotates (limit : ℕ) (s : DataWal) (e : WalEntry) : Bool :=
  s.current.2.length + (e.toBytes crc).length > limit

def write (s : DataWal) (e : WalEntry) : DataWal :=
  { s with
    current := (s.current.1, s.current.2 ++ e.toBytes crc)
    pending := s.pending ++ [(toLex (s.current.1, s.current.2.length), e)] }

def append (limit : ℕ) (garbage : Option (SegmentId → DataWalPos → Bool)) (s : DataWal)
    (e : WalEntry) : DataWal :=
  (if s.rotates crc limit e then s.rotate crc garbage else s).write crc e

/-- A sync of the current file that succeeds. -/
def sync (s : DataWal) : DataWal :=
  { s with synced := s.current.2.length, acknowledged := s.written, pending := [] }

/-- An entry of a file before the number, or in front of the offset in the file of that number. -/
def before (seq offset : ℕ) (p : DataWalPos × WalEntry) : Bool :=
  p.1 < toLex (seq, offset)

/-- `truncate`: entries at or after the position are discarded. A position behind the end fills
the file up with zeros. -/
def truncate (s : DataWal) (position : ℕ) : DataWal :=
  { s with
    current := (s.current.1, s.current.2.take position ++
      List.replicate (position - s.current.2.length) 0)
    synced := min s.synced position
    acknowledged := s.acknowledged.filter (before s.current.1 position)
    pending := s.pending.filter (before s.current.1 position) }

/-- `open`: the file with the greatest number is appended to. -/
def openLatest (files : List (ℕ × Bytes)) (acknowledged : List (DataWalPos × WalEntry)) : DataWal :=
  let seq := (files.map (·.1)).foldl max 0
  let current := (files.find? (·.1 = seq)).getD (seq, [])
  { rotated := files.filter (·.1 ≠ seq)
    current := current
    synced := current.2.length
    acknowledged := acknowledged
    pending := [] }

inductive Act
  | append (e : WalEntry) (garbage : Option (SegmentId → DataWalPos → Bool))
  | sync
  | truncate (position : ℕ)
  /-- A crash that leaves the first `cut` bytes of the current file, and the restart. -/
  | restart (cut : ℕ)
  /-- The device has been replaced by an empty one. -/
  | reopenFresh

def step (limit : ℕ) (s : DataWal) : Act → Option DataWal
  | .append e garbage => some (s.append crc limit garbage e)
  | .sync => some s.sync
  | .truncate position => some (s.truncate position)
  | .restart cut =>
    if s.synced ≤ cut ∧ cut ≤ s.current.2.length then
      some (openLatest (s.rotated ++ [(s.current.1, s.current.2.take cut)]) s.acknowledged)
    else none
  | .reopenFresh => some { initial with acknowledged := s.acknowledged }

/-- A replay returns entries only, and every acknowledged one that is not truncated is among
them, in the order of the appends, with its position, header fields and data. -/
def Replays (s : DataWal) : Prop :=
  ∃ entries, replayPositions crc s.directory = entries.map .ok ∧
    s.acknowledged.Sublist entries

/-- A file that is appended to ends with a whole entry; one that is left does not end in the data
of an entry and has a number of eight digits, as has the next, and the clean-up that follows spares
what is acknowledged; a truncation leaves whole entries; and a device is replaced when nothing on
it is acknowledged. -/
def EndsWhole (limit : ℕ) (s : DataWal) : Act → Prop
  | .append e garbage => e.InRange ∧
      if s.rotates crc limit e then
        (scanFile crc s.current.2).tail ≠ .truncatedData ∧ s.current.1 + 1 < 10 ^ 8 ∧
          ∀ p ∈ s.written, Retained garbage (s.current.1 + 1) p
      else (scanFile crc s.current.2).tail = .done
  | .truncate position => position ≤ s.current.2.length ∧
      (scanFile crc (s.current.2.take position)).tail = .done
  | .sync => True
  | .restart _ => True
  | .reopenFresh => s.acknowledged = []

/-! ### The invariant -/

/-- What is found in the files, in turn. -/
def found (files : List (ℕ × Bytes)) : List (DataWalPos × WalEntry) :=
  files.flatMap fun f => positions crc f.1 f.2

structure Sound (s : DataWal) : Prop where
  ordered : s.directory.Pairwise (·.1 < ·.1)
  small : s.current.1 < 10 ^ 8
  left : ∀ f ∈ s.rotated, (scanFile crc f.2).tail ≠ .truncatedData
  kept : s.written.Sublist (found crc s.directory)
  durable : ∀ p ∈ s.acknowledged, (ofLex p.1).1 = s.current.1 →
    stop ((ofLex p.1).2, p.2) ≤ s.synced

variable {crc} {limit : ℕ} {s s' : DataWal} {e : WalEntry} {files : List (ℕ × Bytes)}
  {p : DataWalPos × WalEntry}

lemma found_append (files files' : List (ℕ × Bytes)) :
    found crc (files ++ files') = found crc files ++ found crc files' :=
  flatMap_append

lemma found_singleton (f : ℕ × Bytes) : found crc [f] = positions crc f.1 f.2 :=
  flatMap_singleton _ _

lemma mem_positions {seq : ℕ} {b : Bytes} (h : p ∈ positions crc seq b) :
    (ofLex p.1).1 = seq ∧ ((ofLex p.1).2, p.2) ∈ (scanFile crc b).entries := by
  obtain ⟨q, hq, rfl⟩ := List.mem_map.mp h
  exact ⟨rfl, hq⟩

lemma Sound.latest (h : Sound crc s) {f : ℕ × Bytes} (hf : f ∈ s.rotated) : f.1 < s.current.1 :=
  (pairwise_append.mp h.ordered).2.2 f hf _ (mem_singleton_self _)

lemma Sound.mem_current (h : Sound crc s) (hp : p ∈ found crc s.directory)
    (hseq : (ofLex p.1).1 = s.current.1) :
    ((ofLex p.1).2, p.2) ∈ (scanFile crc s.current.2).entries := by
  obtain ⟨f, hf, hpf⟩ := mem_flatMap.mp hp
  obtain ⟨hfseq, hmem⟩ := mem_positions hpf
  rcases mem_append.mp hf with hrot | hcur
  · have := h.latest hrot
    omega
  · rwa [mem_singleton.mp hcur] at hmem

lemma Sound.initial : Sound crc initial where
  ordered := pairwise_singleton _ _
  small := by decide
  left := by simp [DataWal.initial]
  kept := nil_sublist _
  durable := by simp [DataWal.initial]

lemma Sound.byName_directory (h : Sound crc s) : byName s.directory = s.directory := by
  refine byName_eq h.ordered fun f hf => ?_
  rcases mem_append.mp hf with hrot | hcur
  · exact (h.latest hrot).trans h.small
  · rw [mem_singleton.mp hcur]
    exact h.small

lemma Sound.replays (h : Sound crc s) : Replays crc s := by
  refine ⟨found crc s.directory, ?_, (sublist_append_left _ _).trans h.kept⟩
  rw [replayPositions, h.byName_directory, directory]
  exact readInTurn_eq h.left

/-! ### The steps -/

lemma Sound.write (h : Sound crc s) (hr : e.InRange)
    (hdone : (scanFile crc s.current.2).tail = .done) : Sound crc (s.write crc e) where
  ordered := by simpa [DataWal.write, directory, pairwise_append] using h.ordered
  small := h.small
  left := h.left
  kept := by
    have hkept := h.kept
    rw [directory, found_append, found_singleton] at hkept
    rw [directory, found_append, found_singleton, DataWal.written, DataWal.write, positions,
      scanFile_append hdone hr, map_append, ← append_assoc, ← append_assoc]
    exact hkept.append (Sublist.refl _)
  durable := h.durable

/-- What is in files that stay is still found. -/
lemma sublist_found_filter {stays : ℕ × Bytes → Bool} {l : List (DataWalPos × WalEntry)}
    (h : l.Sublist (found crc files))
    (hstays : ∀ f ∈ files, ∀ p ∈ positions crc f.1 f.2, p ∈ l → stays f = true) :
    l.Sublist (found crc (files.filter stays)) := by
  induction files generalizing l with
  | nil => exact h
  | cons f files ih =>
    rw [found, flatMap_cons] at h
    obtain ⟨l₁, l₂, rfl, h₁, h₂⟩ := sublist_append_iff.mp h
    have hrest := ih h₂ fun g hg p hp hpl =>
      hstays g (mem_cons_of_mem _ hg) p hp (mem_append_right _ hpl)
    cases hf : stays f with
    | true =>
      rw [filter_cons_of_pos hf]
      exact h₁.append hrest
    | false =>
      -- the file goes, so nothing of the list is in it
      have hnil : l₁ = [] := eq_nil_iff_forall_not_mem.mpr fun p hp => by
        have := hstays f mem_cons_self p (h₁.subset hp) (mem_append_left _ hp)
        simp [hf] at this
      rw [filter_cons_of_neg (by simp [hf]), hnil]
      exact hrest

lemma stays_of_retained {garbage : Option (SegmentId → DataWalPos → Bool)} {seq : ℕ} {f : ℕ × Bytes}
    (hp : p ∈ positions crc f.1 f.2) (h : Retained garbage seq p) :
    (decide (retentionFloor seq walRetentionFiles ≤ f.1) ||
      garbage.any fun garbage => fileContainsLiveEntries crc garbage f.1 f.2) = true := by
  obtain ⟨hseq, hmem⟩ := mem_positions hp
  rcases h with hwindow | hlive
  · rw [hseq] at hwindow
    simp [hwindow]
  · cases garbage with
    | none => simp at hlive
    | some g =>
      have hfile : fileContainsLiveEntries crc g f.1 f.2 = true :=
        List.any_eq_true.mpr ⟨_, hmem, by rw [← hseq]; simpa using hlive⟩
      simp [hfile]

lemma Sound.rotate (h : Sound crc s) {garbage : Option (SegmentId → DataWalPos → Bool)}
    (htail : (scanFile crc s.current.2).tail ≠ .truncatedData)
    (hseq : s.current.1 + 1 < 10 ^ 8)
    (hretained : ∀ p ∈ s.written, Retained garbage (s.current.1 + 1) p) :
    Sound crc (s.rotate crc garbage) := by
  have hmem : ∀ f ∈ (s.rotate crc garbage).rotated, f ∈ s.rotated ∨ f = s.current := by
    intro f hf
    simpa [directory] using mem_of_mem_filter hf
  constructor
  case ordered =>
    refine pairwise_append.mpr
      ⟨h.ordered.sublist filter_sublist, pairwise_singleton _ _, fun f hf g hg => ?_⟩
    rw [mem_singleton.mp hg]
    rcases hmem f hf with hold | rfl
    · exact (h.latest hold).trans (Nat.lt_succ_self _)
    · exact Nat.lt_succ_self _
  case small => exact hseq
  case left =>
    intro f hf
    rcases hmem f hf with hold | rfl
    · exact h.left f hold
    · exact htail
  case kept =>
    have hkept : s.written.Sublist
        (found crc (cleanupOldWalFiles crc garbage (s.current.1 + 1) s.directory)) :=
      sublist_found_filter h.kept fun f _ p hp hpw => stays_of_retained hp (hretained p hpw)
    rw [DataWal.written, directory, found_append]
    simpa [DataWal.rotate] using hkept.trans (sublist_append_left _ _)
  case durable =>
    intro p hp hcur
    obtain ⟨f, hf, hpf⟩ := mem_flatMap.mp (h.kept.subset hp)
    have hfseq := (mem_positions hpf).1
    have hold : f.1 ≤ s.current.1 := by
      rcases mem_append.mp hf with hrot | hlast
      · exact (h.latest hrot).le
      · rw [mem_singleton.mp hlast]
    have hnew : (ofLex p.1).1 = s.current.1 + 1 := hcur
    omega

lemma Sound.append (h : Sound crc s) {garbage : Option (SegmentId → DataWalPos → Bool)}
    (hok : EndsWhole crc limit s (.append e garbage)) :
    Sound crc (s.append crc limit garbage e) := by
  obtain ⟨hr, hok⟩ := hok
  unfold DataWal.append
  split_ifs at hok ⊢ with hrot
  · exact (h.rotate hok.1 hok.2.1 hok.2.2).write hr rfl
  · exact h.write hr hok

lemma Sound.sync (h : Sound crc s) : Sound crc s.sync := by
  refine { h with kept := ?_, durable := fun p hp hseq => ?_ }
  · rw [DataWal.written, DataWal.sync, append_nil]
    exact h.kept
  · exact stop_le_of_mem_scanFile (h.mem_current (h.kept.subset hp) hseq)

/-- The entries in front of a cut of the current file, where those that start before it end there or
before. -/
lemma Sound.sublist_cut (h : Sound crc s) {l : List (DataWalPos × WalEntry)} {cut : ℕ}
    (hl : l.Sublist s.written) (hwhole : ∀ p ∈ l, (ofLex p.1).1 = s.current.1 →
      stop ((ofLex p.1).2, p.2) ≤ cut) :
    l.Sublist (found crc (s.rotated ++ [(s.current.1, s.current.2.take cut)])) := by
  have hkept := hl.trans h.kept
  rw [directory, found_append, found_singleton] at hkept
  obtain ⟨l₁, l₂, rfl, h₁, h₂⟩ := sublist_append_iff.mp hkept
  rw [found_append, found_singleton]
  refine h₁.append ?_
  have hself : l₂.filter (fun p => stop ((ofLex p.1).2, p.2) ≤ cut) = l₂ :=
    filter_eq_self.mpr fun p hp =>
      decide_eq_true (hwhole p (mem_append_right _ hp) (mem_positions (h₂.subset hp)).1)
  rw [← hself, positions, (scanFile_take s.current.2 cut).1]
  have hfilter := h₂.filter fun p => stop ((ofLex p.1).2, p.2) ≤ cut
  rwa [positions, List.filter_map] at hfilter

lemma Sound.ordered_cut (h : Sound crc s) (b : Bytes) :
    (s.rotated ++ [(s.current.1, b)]).Pairwise (·.1 < ·.1) := by
  simpa [directory, pairwise_append] using h.ordered

lemma Sound.truncate (h : Sound crc s) {position : ℕ}
    (hok : EndsWhole crc limit s (.truncate position)) : Sound crc (s.truncate position) := by
  obtain ⟨hle, hdone⟩ := hok
  have hbytes : (s.truncate position).current = (s.current.1, s.current.2.take position) := by
    simp [DataWal.truncate, Nat.sub_eq_zero_of_le hle]
  -- a written entry that starts in front of the position ends there or before
  have hwhole : ∀ p ∈ s.written.filter (before s.current.1 position),
      (ofLex p.1).1 = s.current.1 → stop ((ofLex p.1).2, p.2) ≤ position := by
    intro p hp hseq
    obtain ⟨hp, hbefore⟩ := mem_filter.mp hp
    have hstart : (ofLex p.1).2 < position := by
      have hlt := Prod.Lex.lt_iff.mp (of_decide_eq_true hbefore)
      simpa [hseq] using hlt
    exact (scanFile_take s.current.2 position).2 hdone _
      (h.mem_current (h.kept.subset hp) hseq) hstart
  have hwritten : (s.truncate position).written =
      s.written.filter (before s.current.1 position) := by
    simp [DataWal.written, DataWal.truncate]
  constructor
  case ordered =>
    rw [directory, hbytes]
    exact h.ordered_cut _
  case small => exact h.small
  case left => exact h.left
  case kept =>
    rw [hwritten, directory, hbytes]
    exact h.sublist_cut filter_sublist hwhole
  case durable =>
    intro p hp hseq
    have hmem : p ∈ s.written.filter (before s.current.1 position) :=
      hwritten ▸ mem_append_left _ hp
    exact le_min (h.durable p (mem_of_mem_filter hp) hseq) (hwhole p hmem hseq)

lemma openLatest_eq {f : ℕ × Bytes} (h : ∀ g ∈ files, g.1 < f.1)
    (acknowledged : List (DataWalPos × WalEntry)) :
    openLatest (files ++ [f]) acknowledged = ⟨files, f, f.2.length, acknowledged, []⟩ := by
  have hmax : ((files ++ [f]).map (·.1)).foldl max 0 = f.1 := by
    have hle : ∀ {l : List ℕ} {n : ℕ}, n ≤ f.1 → (∀ x ∈ l, x < f.1) → l.foldl max n ≤ f.1 := by
      intro l
      induction l with
      | nil => exact fun hn _ => hn
      | cons x l ih =>
        intro n hn hl
        obtain ⟨hx, hl⟩ := forall_mem_cons.mp hl
        exact ih (max_le hn hx.le) hl
    rw [map_append, foldl_append]
    refine max_eq_right (hle (Nat.zero_le _) fun x hx => ?_)
    obtain ⟨g, hg, rfl⟩ := List.mem_map.mp hx
    exact h g hg
  have hfind : (files ++ [f]).find? (·.1 = f.1) = some f := by
    rw [find?_append, find?_eq_none.mpr]
    · simp
    · intro g hg
      have := h g hg
      simp only [decide_eq_true_eq]
      omega
  have hrest : (files ++ [f]).filter (·.1 ≠ f.1) = files := by
    rw [filter_append, filter_eq_self.mpr fun g hg => ?_]
    · simp
    · have := h g hg
      simp only [ne_eq, decide_eq_true_eq]
      omega
  simp only [openLatest, hmax, hfind, hrest, getD_some]

lemma Sound.restart (h : Sound crc s) {cut : ℕ} (hcut : s.synced ≤ cut) :
    Sound crc (openLatest (s.rotated ++ [(s.current.1, s.current.2.take cut)]) s.acknowledged) := by
  rw [openLatest_eq (f := (s.current.1, s.current.2.take cut)) fun g hg => h.latest hg]
  have hkept := h.sublist_cut (sublist_append_left _ _) fun p hp hseq =>
    (h.durable p hp hseq).trans hcut
  refine ⟨h.ordered_cut _, h.small, h.left, ?_, fun p hp hseq => ?_⟩
  · rw [DataWal.written, append_nil]
    exact hkept
  · -- all that is left of the file is durable
    obtain ⟨f, hf, hpf⟩ := mem_flatMap.mp (hkept.subset hp)
    obtain ⟨hfseq, hmem⟩ := mem_positions hpf
    rcases mem_append.mp hf with hrot | hlast
    · have := h.latest hrot
      have hcur : (ofLex p.1).1 = s.current.1 := hseq
      omega
    · rw [mem_singleton.mp hlast] at hmem
      exact stop_le_of_mem_scanFile hmem

lemma Sound.step (h : Sound crc s) {a : Act} (hok : EndsWhole crc limit s a)
    (hs : DataWal.step crc limit s a = some s') : Sound crc s' := by
  cases a with
  | append e garbage => exact some.inj hs ▸ h.append hok
  | sync => exact some.inj hs ▸ h.sync
  | truncate position => exact some.inj hs ▸ h.truncate hok
  | restart cut =>
    simp only [DataWal.step, ite_none_right_eq_some, some.injEq] at hs
    obtain ⟨hcut, rfl⟩ := hs
    exact h.restart hcut.1
  | reopenFresh =>
    have hnone : s.acknowledged = [] := hok
    rw [DataWal.step, hnone] at hs
    exact some.inj hs ▸ Sound.initial

instance decidableRetained (garbage : Option (SegmentId → DataWalPos → Bool)) (seq : ℕ)
    (p : DataWalPos × WalEntry) : Decidable (Retained garbage seq p) :=
  inferInstanceAs (Decidable (_ ∨ _))

instance decidableEndsWhole (crc : Bytes → UInt32) (limit : ℕ) (s : DataWal) :
    DecidablePred (EndsWhole crc limit s) := fun a => by
  cases a <;> unfold EndsWhole <;> infer_instance

/-- **Crash and resume**: in every run of appends, syncs, truncations, crashes and restarts whose
files end with a whole entry wherever the writer goes on, and whose clean-ups spare what is
acknowledged, a replay of the directory returns every acknowledged entry that is not truncated. -/
theorem replays_of_endsWhole (crc : Bytes → UInt32) (limit : ℕ) (acts : List Act)
    (hok : Guarded (DataWal.step crc limit) (EndsWhole crc limit) DataWal.initial acts) :
    Always (DataWal.step crc limit) (Replays crc) DataWal.initial acts :=
  always_of_guarded (fun _ _ _ h hok hs => Sound.step h hok hs) (fun _ h => Sound.replays h)
    Sound.initial hok

def sampleEntry (offset : ℕ) (data : Bytes) : WalEntry where
  segmentId := 7
  offset := offset
  length := data.length
  logicalLength := data.length
  tier := 1
  hlcWallTime := 1000
  hlcLogical := 0
  checksum := zeroHash
  data := data

/-- The second entry is torn by the crash, and the third does not fit behind it. -/
theorem torn_file_rotated_away :
    Always (DataWal.step crc32 200) (Replays crc32) DataWal.initial
      [.append (sampleEntry 0 [1]) none, .sync, .append (sampleEntry 1 [2]) none, .restart 100,
        .append (sampleEntry 1 (List.replicate 20 3)) none, .sync,
        .append (sampleEntry 21 [4]) none, .truncate 108, .restart 108] :=
  replays_of_endsWhole crc32 200 _ (by decide +kernel)

/-- The first entry is torn by a crash before any sync; the second is appended behind what is left
of it and synced, and a replay does not return it. -/
theorem entry_behind_torn_one_lost :
    ¬ Always (DataWal.step crc32 1000) (Replays crc32) DataWal.initial
      [.append (sampleEntry 0 [1]) none, .restart 10, .append (sampleEntry 0 [2]) none, .sync] := by
  intro h
  obtain ⟨s, hs⟩ : ∃ s, run (DataWal.step crc32 1000) DataWal.initial
      [.append (sampleEntry 0 [1]) none, .restart 10, .append (sampleEntry 0 [2]) none, .sync] =
        some s := isSome_iff_exists.mp (by decide +kernel)
  have hlost : ∀ s ∈ run (DataWal.step crc32 1000) DataWal.initial
      [.append (sampleEntry 0 [1]) none, .restart 10, .append (sampleEntry 0 [2]) none, .sync],
        replayPositions crc32 s.directory = [] ∧ s.acknowledged ≠ [] := by
    decide +kernel
  obtain ⟨hnone, hacked⟩ := hlost s hs
  obtain ⟨entries, hreplay, hsub⟩ := (always_iff_run _ _).mp h _ s prefix_rfl hs
  rw [hnone] at hreplay
  rw [map_eq_nil_iff.mp hreplay.symm] at hsub
  exact hacked (sublist_nil.mp hsub)

end DataWal

end

end OceanFs.Wal
