import Mathlib.Data.Prod.Lex
import OceanFs.Segment.LogFold
import OceanFs.Segment.LogPositions

/-!
Positions in the event log, and its truncation.

A position is a file and an offset in it. Truncation removes files in front of a position, never
the one that is written to. A read starts at a position; when the file of that position is gone
it starts at the oldest file that is left, without a word about what was between.
-/

namespace OceanFs.Segment

open OceanFs.Core List

/-- `EventWalPos`, in its order. -/
abbrev EventPos := ℕ ×ₗ ℕ

def eventPos (fileSeq offset : ℕ) : EventPos := toLex (fileSeq, offset)

namespace EventPos

variable (p : EventPos)

def fileSeq : ℕ := (ofLex p).1

def offset : ℕ := (ofLex p).2

@[simp] lemma fileSeq_eventPos (s o : ℕ) : (eventPos s o).fileSeq = s := rfl
@[simp] lemma offset_eventPos (s o : ℕ) : (eventPos s o).offset = o := rfl

/-- The position as `last_folded_pos` has it, packed into a word. -/
def repacked : EventPos :=
  let q := EventWalPos.fromPacked (EventWalPos.packed ⟨.ofNat p.fileSeq, .ofNat p.offset⟩)
  eventPos q.fileSeq.toNat q.offset.toNat

/-- The word has room for the position. -/
def Packable : Prop := p.fileSeq < 2 ^ 16 ∧ p.offset < 2 ^ 48

instance (p : EventPos) : Decidable p.Packable := inferInstanceAs (Decidable (_ ∧ _))

lemma repacked_of_packable {p : EventPos} (h : p.Packable) : p.repacked = p := by
  obtain ⟨hseq, hoffset⟩ := h
  have hs : (UInt32.ofNat p.fileSeq).toNat = p.fileSeq :=
    UInt32.toNat_ofNat_of_lt' (hseq.trans (by decide))
  have ho : (UInt64.ofNat p.offset).toNat = p.offset :=
    UInt64.toNat_ofNat_of_lt' (hoffset.trans (by decide))
  obtain ⟨hseq', hoffset'⟩ :=
    EventWalPos.fromPacked_packed ⟨.ofNat p.fileSeq, .ofNat p.offset⟩
  simp only [hs, Nat.mod_eq_of_lt hseq] at hseq'
  simp only [ho, Nat.mod_eq_of_lt hoffset] at hoffset'
  rw [repacked, hseq', hoffset']
  rfl

end EventPos

/-- The records of every file since the log was created. The files before number `first` are
removed. -/
structure EventLog where
  rotated : List (List SegmentEvent)
  current : List SegmentEvent
  first : ℕ
  deriving DecidableEq

namespace EventLog

def fresh : EventLog := ⟨[], [], 0⟩

/-- Every file since the log was created. -/
def groups (l : EventLog) : List (List SegmentEvent) := l.rotated ++ [l.current]

def events (l : EventLog) : List SegmentEvent := l.groups.flatten

/-- How many events were in the files that are removed. -/
def removed (l : EventLog) : ℕ := (l.groups.take l.first).flatten.length

section

variable (C : Codecs)

/-- The files that are left. -/
def wal (l : EventLog) : EventWal :=
  ⟨(l.rotated.drop l.first).map (fileOf C), fileOf C l.current⟩

/-- `append`, with the position of the record. -/
def append (limit : ℕ) (l : EventLog) (evt : SegmentEvent) : EventLog × EventPos :=
  if (fileOf C l.current).length + (evt.toRecordBytes C).length > limit then
    ({ l with rotated := l.rotated ++ [l.current], current := [evt] },
      eventPos (l.rotated.length + 1) 0)
  else
    ({ l with current := l.current ++ [evt] },
      eventPos l.rotated.length (fileOf C l.current).length)

/-- The number of the first file that `truncate_before` keeps. -/
def firstKept (pos : EventPos) : ℕ → List (List SegmentEvent) → ℕ
  | seq, [] => seq
  | seq, g :: gs =>
    if seq < pos.fileSeq ∨ seq = pos.fileSeq ∧ (fileOf C g).length ≤ pos.offset then
      firstKept pos (seq + 1) gs
    else seq

def truncateBefore (pos : EventPos) (l : EventLog) : EventLog :=
  { l with first := firstKept C pos l.first (l.rotated.drop l.first) }

/-- `read_from`, to the end of the log. -/
def readFrom (l : EventLog) (pos : EventPos) : List SegmentEvent × ScanEnd :=
  if pos.fileSeq < l.first then readFiles C (l.wal C).files
  else
    match (l.wal C).files.drop (pos.fileSeq - l.first) with
    | [] => ([], .clean)
    | f :: fs => readFiles C (f.drop pos.offset :: fs)

end

/-! ### Appending -/

variable {C : Codecs} {l : EventLog} {evt : SegmentEvent} {limit : ℕ}

lemma events_append (l : EventLog) (evt : SegmentEvent) :
    (l.append C limit evt).1.events = l.events ++ [evt] := by
  unfold append
  split_ifs <;> simp [events, groups]

lemma first_append_le (hfirst : l.first ≤ l.rotated.length) :
    (l.append C limit evt).1.first ≤ (l.append C limit evt).1.rotated.length := by
  unfold append
  split_ifs
  · rw [length_append]
    exact Nat.le_add_right_of_le hfirst
  · exact hfirst

lemma removed_append (hfirst : l.first ≤ l.rotated.length) :
    (l.append C limit evt).1.removed = l.removed := by
  have htake : ∀ gs : List (List SegmentEvent), (l.rotated ++ gs).take l.first =
      l.rotated.take l.first := fun gs => take_append_of_le_length hfirst
  unfold append
  split_ifs
  · simp only [removed, groups, append_assoc, htake]
  · simp only [removed, groups, htake]

/-- The position is that of the event with the given number, or the start of the log. -/
def At (C : Codecs) (l : EventLog) (pos : EventPos) (i : ℕ) : Prop :=
  ∃ before g after k, l.groups = before ++ g :: after ∧ (k < g.length ∨ before = [] ∧ k = 0) ∧
    pos = eventPos before.length (fileOf C (g.take k)).length ∧ i = before.flatten.length + k

lemma at_start (l : EventLog) : At C l (eventPos 0 0) 0 := by
  rcases hrotated : l.rotated with _ | ⟨g, gs⟩
  · exact ⟨[], l.current, [], 0, by simp [groups, hrotated], .inr ⟨rfl, rfl⟩, rfl, rfl⟩
  · exact ⟨[], g, gs ++ [l.current], 0, by simp [groups, hrotated], .inr ⟨rfl, rfl⟩, rfl, rfl⟩

lemma le_length {before : List (List SegmentEvent)} {g : List SegmentEvent} {k : ℕ}
    (h : k < g.length ∨ before = [] ∧ k = 0) : k ≤ g.length := by
  rcases h with hlt | ⟨-, rfl⟩
  · exact hlt.le
  · exact Nat.zero_le _

lemma At.append {pos : EventPos} {i : ℕ} (h : At C l pos i) :
    At C (l.append C limit evt).1 pos i := by
  obtain ⟨before, g, after, k, hgroups, hk, rfl, rfl⟩ := h
  unfold EventLog.append
  split_ifs with hrotate
  · refine ⟨before, g, after ++ [[evt]], k, ?_, hk, rfl, rfl⟩
    calc l.rotated ++ [l.current] ++ [[evt]] = (before ++ g :: after) ++ [[evt]] := by
          rw [← hgroups, groups]
      _ = before ++ g :: (after ++ [[evt]]) := by simp
  · -- the file of the position, or one behind it, has one record more
    rcases eq_nil_or_concat after with rfl | ⟨after, last, rfl⟩
    · obtain ⟨rfl, hg⟩ := append_inj' hgroups rfl
      obtain rfl : l.current = g := by simpa using hg
      refine ⟨l.rotated, l.current ++ [evt], [], k, rfl, ?_, ?_, rfl⟩
      · rw [length_append]
        exact hk.imp_left fun hk => by omega
      · rw [take_append_of_le_length (le_length hk)]
    · have hsplit : l.rotated ++ [l.current] = (before ++ g :: after) ++ [last] := by
        rw [← concat_eq_append, concat_eq_append, append_assoc]
        simpa [groups] using hgroups
      obtain ⟨hrotated, hlast⟩ := append_inj' hsplit rfl
      obtain rfl : l.current = last := by simpa using hlast
      exact ⟨before, g, after ++ [l.current ++ [evt]], k, by simp [groups, hrotated], hk, rfl, rfl⟩

lemma at_append (l : EventLog) (evt : SegmentEvent) :
    At C (l.append C limit evt).1 (l.append C limit evt).2 l.events.length := by
  unfold append
  split_ifs
  · refine ⟨l.rotated ++ [l.current], [evt], [], 0, rfl, .inl Nat.zero_lt_one, ?_, rfl⟩
    rw [length_append]
    rfl
  · refine ⟨l.rotated, l.current ++ [evt], [], l.current.length, rfl, .inl (by simp), ?_, ?_⟩
    · rw [take_left]
    · simp [events, groups]

/-! ### Reading -/

lemma files_wal (l : EventLog) (hfirst : l.first ≤ l.rotated.length) :
    (l.wal C).files = (l.groups.drop l.first).map (fileOf C) := by
  rw [groups, drop_append_of_le_length hfirst]
  simp [wal, EventWal.files]

lemma fileOf_drop (g : List SegmentEvent) (k : ℕ) :
    (fileOf C g).drop (fileOf C (g.take k)).length = fileOf C (g.drop k) := by
  have hsplit : fileOf C g = fileOf C (g.take k) ++ fileOf C (g.drop k) := by
    rw [fileOf, fileOf, fileOf, ← flatMap_append, take_append_drop]
  rw [hsplit]
  exact drop_left

/-- **A read from the position of an event** gives the events from that one on, if no file with
one of them is removed. -/
theorem At.readFrom {pos : EventPos} {i : ℕ} (h : At C l pos i) (hread : Readable C l.events)
    (hfirst : l.first ≤ l.rotated.length) (hkept : l.removed ≤ i) :
    l.readFrom C pos = ((l.events.drop i).map (·.stored C), .clean) := by
  obtain ⟨before, g, after, k, hgroups, hrec, rfl, rfl⟩ := h
  have hk := le_length hrec
  rw [EventLog.readFrom, files_wal l hfirst]
  by_cases hgone : before.length < l.first
  · -- the file of the position is gone, so the position was at its end
    have htake : l.groups.take l.first =
        (before ++ [g]) ++ after.take (l.first - (before.length + 1)) := by
      have hsplit : l.groups = (before ++ [g]) ++ after := by rw [hgroups]; simp
      rw [hsplit, take_append, take_of_length_le (by simp; omega)]
      simp
    have hle : before.flatten.length + k ≤ l.removed := by
      rw [removed, htake]
      simp only [flatten_append, length_append, flatten_cons, flatten_nil, append_nil]
      omega
    have heq : before.flatten.length + k = (l.groups.take l.first).flatten.length :=
      le_antisymm hle hkept
    have hevents : l.events.drop (before.flatten.length + k) =
        (l.groups.drop l.first).flatten := by
      have hsplit : l.events =
          (l.groups.take l.first).flatten ++ (l.groups.drop l.first).flatten := by
        rw [← flatten_append, take_append_drop, events]
      rw [heq, hsplit]
      exact drop_left
    rw [EventPos.fileSeq_eventPos, if_pos hgone, readFiles_records, hevents]
    intro evt hevt
    refine hread evt ?_
    rw [events, ← take_append_drop l.first l.groups, flatten_append]
    exact mem_append_right _ hevt
  · have hdrop : (l.groups.drop l.first).drop (before.length - l.first) = g :: after := by
      have hlen : l.first + (before.length - l.first) = before.length := by omega
      rw [drop_drop, hlen, hgroups]
      exact drop_left
    have hevents : l.events.drop (before.flatten.length + k) = (g.drop k :: after).flatten := by
      rw [events, hgroups, flatten_append, drop_append]
      simp [drop_append_of_le_length hk]
    rw [EventPos.fileSeq_eventPos, if_neg hgone, ← map_drop, hdrop, hevents]
    simp only [map_cons, EventPos.offset_eventPos, fileOf_drop]
    rw [← map_cons, readFiles_records]
    intro evt hevt
    refine hread evt ?_
    rw [← hevents] at hevt
    exact mem_of_mem_drop hevt

/-! ### Order -/

lemma length_fileOf_append (g g' : List SegmentEvent) :
    (fileOf C (g ++ g')).length = (fileOf C g).length + (fileOf C g').length := by
  rw [fileOf, flatMap_append, length_append, fileOf, fileOf]

lemma eq_nil_of_fileOf {g : List SegmentEvent} (h : (fileOf C g).length = 0) : g = [] := by
  cases g with
  | nil => rfl
  | cons evt g =>
    rw [fileOf, flatMap_cons, length_append, length_toRecordBytes] at h
    simp [eventRecordHeaderSize] at h

lemma At.mono {p q : EventPos} {i j : ℕ} (hp : At C l p i) (hq : At C l q j) (hpq : p ≤ q) :
    i ≤ j := by
  obtain ⟨before, g, after, k, hgroups, hrec, rfl, rfl⟩ := hp
  obtain ⟨before', g', after', k', hgroups', hrec', rfl, rfl⟩ := hq
  have hk := le_length hrec
  have hk' := le_length hrec'
  rcases Prod.Lex.le_iff.mp hpq with hfile | ⟨hfile, hoffset⟩
  · -- the file of the first one is in front of the other
    have hlt : before.length < before'.length := hfile
    have hleft : before ++ [g] <+: l.groups := ⟨after, by simp [hgroups]⟩
    have hright : before' <+: l.groups := ⟨g' :: after', hgroups'.symm⟩
    have hpre : before ++ [g] <+: before' := by
      refine prefix_of_prefix_length_le hleft hright ?_
      rw [length_append]
      exact hlt
    obtain ⟨rest, rfl⟩ := hpre
    simp only [flatten_append, length_append, flatten_cons, flatten_nil, append_nil]
    omega
  · obtain ⟨rfl, hrest⟩ := append_inj (hgroups.symm.trans hgroups') hfile
    obtain ⟨rfl, rfl⟩ := cons.inj hrest
    by_contra hlt
    have hle : (fileOf C (g.take k)).length ≤ (fileOf C (g.take k')).length := hoffset
    have hsplit : g.take k = g.take k' ++ (g.take k).drop k' := by
      conv_lhs => rw [← take_append_drop k' (g.take k), take_take]
      rw [min_eq_left (by omega)]
    rw [hsplit, length_fileOf_append] at hle
    have hnil := eq_nil_of_fileOf (C := C) (g := (g.take k).drop k') (by omega)
    have hlen := congrArg List.length hnil
    rw [length_drop, length_take, length_nil] at hlen
    omega

/-! ### Truncation -/

lemma firstKept_le (pos : EventPos) (seq : ℕ) (gs : List (List SegmentEvent)) :
    firstKept C pos seq gs ≤ seq + gs.length := by
  induction gs generalizing seq with
  | nil => exact le_rfl
  | cons g gs ih =>
    rw [firstKept]
    split_ifs
    · have := ih (seq + 1)
      rw [length_cons]
      omega
    · omega

lemma firstKept_cases (pos : EventPos) (seq : ℕ) (gs : List (List SegmentEvent)) :
    firstKept C pos seq gs ≤ max seq pos.fileSeq ∨
      firstKept C pos seq gs = pos.fileSeq + 1 ∧ seq ≤ pos.fileSeq ∧
        ∃ g, gs[pos.fileSeq - seq]? = some g ∧ (fileOf C g).length ≤ pos.offset := by
  induction gs generalizing seq with
  | nil => exact .inl (le_max_left _ _)
  | cons g gs ih =>
    rw [firstKept]
    split_ifs with hcovered
    · rcases hcovered with hlt | ⟨rfl, hsize⟩
      · rcases ih (seq + 1) with hle | ⟨heq, hle, g', hg', hsize⟩
        · exact .inl (hle.trans (by omega))
        · refine .inr ⟨heq, hlt.le, g', ?_, hsize⟩
          rwa [show pos.fileSeq - seq = pos.fileSeq - (seq + 1) + 1 by omega,
            getElem?_cons_succ]
      · rcases ih (pos.fileSeq + 1) with hle | ⟨-, hle, -⟩
        · by_cases hfirst : firstKept C pos (pos.fileSeq + 1) gs ≤ pos.fileSeq
          · exact .inl (hfirst.trans (by omega))
          · exact .inr ⟨by omega, le_rfl, g, by simp, hsize⟩
        · omega
    · exact .inl (le_max_left _ _)

lemma removed_truncateBefore_le {pos : EventPos} {n : ℕ} (h : (l.truncateBefore C pos).first ≤ n) :
    (l.truncateBefore C pos).removed ≤ (l.groups.take n).flatten.length := by
  change ((l.groups.take (l.truncateBefore C pos).first).flatten).length ≤ _
  obtain ⟨rest, hrest⟩ := take_prefix_take_left (l := l.groups) h
  rw [← hrest, flatten_append, length_append]
  omega

lemma At.le_of_file {pos : EventPos} {i n : ℕ} (h : At C l pos i) (hn : n ≤ pos.fileSeq) :
    (l.groups.take n).flatten.length ≤ i := by
  obtain ⟨before, g, after, k, hgroups, -, rfl, rfl⟩ := h
  have hn : n ≤ before.length := hn
  rw [hgroups, take_append_of_le_length hn]
  obtain ⟨rest, hrest⟩ := take_prefix n before
  have hlen := congrArg (fun gs => gs.flatten.length) hrest
  simp only [flatten_append, length_append] at hlen
  omega

/-- A truncation removes no event behind a position in its own file or a later one. -/
lemma At.removed_truncateBefore {pos q : EventPos} {i j : ℕ} (h : At C l pos i) (hq : At C l q j)
    (hfile : pos.fileSeq ≤ q.fileSeq) : (l.truncateBefore C pos).removed ≤ max l.removed j := by
  rcases firstKept_cases (C := C) pos l.first (l.rotated.drop l.first) with
    hle | ⟨heq, hfirst, g', hg', hsize⟩
  · have hremoved := removed_truncateBefore_le (l := l) hle
    rcases le_total l.first pos.fileSeq with hfirst | hfirst
    · rw [max_eq_right hfirst] at hremoved
      exact hremoved.trans ((hq.le_of_file hfile).trans (le_max_right _ _))
    · rw [max_eq_left hfirst] at hremoved
      exact hremoved.trans (le_max_left _ _)
  · -- the file of the position is covered, so it has no record there: it is the empty first one
    obtain ⟨before, g, after, k, hgroups, hrec, rfl, rfl⟩ := h
    have hseq : l.first + (before.length - l.first) = before.length := by
      rw [EventPos.fileSeq_eventPos] at hfirst
      omega
    rw [getElem?_drop, EventPos.fileSeq_eventPos, hseq] at hg'
    have hget : l.groups[before.length]? = some g' := by
      rw [groups, getElem?_append_left (List.getElem?_eq_some_iff.mp hg').1]
      exact hg'
    rw [hgroups] at hget
    obtain rfl : g = g' := by simpa using hget
    have hend : g.length ≤ k := by
      have hsplit := length_fileOf_append (C := C) (g.take k) (g.drop k)
      rw [take_append_drop] at hsplit
      rw [EventPos.offset_eventPos] at hsize
      have hnil := congrArg List.length (eq_nil_of_fileOf (C := C) (g := g.drop k) (by omega))
      rw [length_drop, length_nil] at hnil
      omega
    obtain ⟨rfl, rfl⟩ : before = [] ∧ k = 0 := hrec.resolve_left (by omega)
    obtain rfl : g = [] := length_eq_zero_iff.mp (Nat.le_zero.mp hend)
    have hremoved := removed_truncateBefore_le (l := l) heq.le
    rw [hgroups] at hremoved
    exact hremoved.trans (Nat.zero_le _)

lemma first_truncateBefore_le (pos : EventPos) (hfirst : l.first ≤ l.rotated.length) :
    (l.truncateBefore C pos).first ≤ l.rotated.length := by
  have h := firstKept_le (C := C) pos l.first (l.rotated.drop l.first)
  rw [length_drop] at h
  exact h.trans (by omega)

end EventLog

end OceanFs.Segment
