import Mathlib.Data.List.Lex
import Mathlib.Data.List.Sort
import Mathlib.Data.Nat.Log
import OceanFs.Wal.Entry

/-!
The reader of the data WAL.

The reader takes a header and then the data that the header announces. A header that it cannot
use is passed over, so what follows is read where the next header would be. It stops in a file
where too little is left, and takes that for the end of the log only in the last file. The files
are read in the order of their names.
-/

namespace OceanFs.Wal

open OceanFs.Core Lib.Bytes Segment List

/-- What is left of a file when the reader has come to its end. -/
inductive Tail
  | done
  | partialHeader
  | truncatedData
  deriving DecidableEq

/-- The entries of a file, each with its offset, and its end. -/
structure FileScan where
  entries : List (ℕ × WalEntry)
  tail : Tail
  deriving DecidableEq

section

variable (crc : Bytes → UInt32)

/-- Reads from the given offset on; the first argument bounds the number of headers. -/
def scanFrom : ℕ → ℕ → Bytes → FileScan
  | 0, _, _ => ⟨[], .done⟩
  | fuel + 1, off, b =>
    match takeBytes headerSize b with
    | none => ⟨[], if b = [] then .done else .partialHeader⟩
    | some (header, rest) =>
      match WalEntry.fromHeaderBytes crc header with
      | none => scanFrom fuel (off + headerSize) rest
      | some e =>
        match takeBytes e.length rest with
        | none => ⟨[], .truncatedData⟩
        | some (data, rest) =>
          let s := scanFrom fuel (off + (headerSize + data.length)) rest
          ⟨(off, { e with data := data }) :: s.entries, s.tail⟩

def scanFile (b : Bytes) : FileScan :=
  scanFrom crc (b.length + 1) 0 b

/-- What a scan of the bytes from an offset on comes to. -/
inductive Scans : ℕ → Bytes → FileScan → Prop
  | done (off : ℕ) : Scans off [] ⟨[], .done⟩
  | partialHeader {off : ℕ} {b : Bytes} (hne : b ≠ []) (hlen : b.length < headerSize) :
      Scans off b ⟨[], .partialHeader⟩
  | skip {off : ℕ} {header rest : Bytes} {s : FileScan} (hlen : header.length = headerSize)
      (hbad : WalEntry.fromHeaderBytes crc header = none) (h : Scans (off + headerSize) rest s) :
      Scans off (header ++ rest) s
  | truncatedData {off : ℕ} {header rest : Bytes} {e : WalEntry}
      (hlen : header.length = headerSize) (he : WalEntry.fromHeaderBytes crc header = some e)
      (hshort : rest.length < e.length) : Scans off (header ++ rest) ⟨[], .truncatedData⟩
  | entry {off : ℕ} {header data rest : Bytes} {e : WalEntry} {s : FileScan}
      (hlen : header.length = headerSize) (he : WalEntry.fromHeaderBytes crc header = some e)
      (hdata : data.length = e.length) (h : Scans (off + (headerSize + data.length)) rest s) :
      Scans off (header ++ (data ++ rest)) ⟨(off, { e with data := data }) :: s.entries, s.tail⟩

variable {crc}

lemma takeBytes_eq_none {n : ℕ} {b : Bytes} (h : takeBytes n b = none) : b.length < n := by
  unfold takeBytes at h
  split_ifs at h with hle
  omega

lemma scans_scanFrom {fuel off : ℕ} {b : Bytes} (hfuel : b.length < fuel) :
    Scans crc off b (scanFrom crc fuel off b) := by
  induction fuel generalizing off b with
  | zero => omega
  | succ fuel ih =>
    rw [scanFrom]
    split
    · rename_i hnone
      split_ifs with hb
      · subst hb
        exact .done off
      · exact .partialHeader hb (takeBytes_eq_none hnone)
    · rename_i header rest htake
      obtain ⟨hlen, rfl⟩ := takeBytes_eq_some htake
      rw [length_append, hlen, headerSize] at hfuel
      split
      · rename_i hbad
        exact .skip hlen hbad (ih (by omega))
      · rename_i e he
        split
        · rename_i hnone
          exact .truncatedData hlen he (takeBytes_eq_none hnone)
        · rename_i data rest htake
          obtain ⟨hdata, rfl⟩ := takeBytes_eq_some htake
          rw [length_append] at hfuel
          exact .entry hlen he hdata (ih (by omega))

lemma Scans.scanFrom_eq {off : ℕ} {b : Bytes} {s : FileScan} (h : Scans crc off b s) {fuel : ℕ}
    (hfuel : b.length < fuel) : scanFrom crc fuel off b = s := by
  induction h generalizing fuel with
  | done off =>
    obtain ⟨fuel, rfl⟩ := Nat.exists_eq_add_of_lt hfuel
    simp [scanFrom, takeBytes, headerSize]
  | partialHeader hne hlen =>
    obtain ⟨fuel, rfl⟩ : ∃ n, fuel = n + 1 := ⟨fuel - 1, by omega⟩
    rw [scanFrom, takeBytes, if_neg (by omega)]
    simp only [if_neg hne]
  | skip hlen hbad _ ih =>
    obtain ⟨fuel, rfl⟩ : ∃ n, fuel = n + 1 := ⟨fuel - 1, by omega⟩
    rw [length_append, hlen, headerSize] at hfuel
    rw [scanFrom, takeBytes_append hlen]
    simp only [hbad]
    exact ih (by omega)
  | truncatedData hlen he hshort =>
    obtain ⟨fuel, rfl⟩ : ∃ n, fuel = n + 1 := ⟨fuel - 1, by omega⟩
    rw [scanFrom, takeBytes_append hlen]
    simp only [he]
    rw [takeBytes, if_neg (by omega)]
  | entry hlen he hdata _ ih =>
    obtain ⟨fuel, rfl⟩ : ∃ n, fuel = n + 1 := ⟨fuel - 1, by omega⟩
    rw [length_append, length_append, hlen, headerSize] at hfuel
    rw [scanFrom, takeBytes_append hlen]
    simp only [he]
    rw [takeBytes_append hdata]
    simp only
    rw [ih (by omega)]

lemma scans_scanFile (b : Bytes) : Scans crc 0 b (scanFile crc b) :=
  scans_scanFrom (Nat.lt_succ_self _)

lemma Scans.scanFile_eq {b : Bytes} {s : FileScan} (h : Scans crc 0 b s) : scanFile crc b = s :=
  h.scanFrom_eq (Nat.lt_succ_self _)

/-! ### What a scan returns -/

/-- Where an entry ends in its file. -/
def stop (p : ℕ × WalEntry) : ℕ := p.1 + p.2.serializedSize

lemma Scans.bounds {off : ℕ} {b : Bytes} {s : FileScan} (h : Scans crc off b s) :
    ∀ p ∈ s.entries, off ≤ p.1 ∧ stop p ≤ off + b.length := by
  induction h with
  | done off => simp
  | partialHeader hne hlen => simp
  | skip hlen hbad _ ih =>
    intro p hp
    obtain ⟨hoff, hstop⟩ := ih p hp
    rw [length_append, hlen]
    omega
  | truncatedData hlen he hshort => simp
  | entry hlen he hdata _ ih =>
    intro p hp
    rw [length_append, length_append, hlen]
    rcases mem_cons.mp hp with rfl | hp
    · simp only [stop, WalEntry.serializedSize]
      omega
    · obtain ⟨hoff, hstop⟩ := ih p hp
      omega

lemma Scans.append {off : ℕ} {b c : Bytes} {s s' : FileScan} (h : Scans crc off b s)
    (hdone : s.tail = .done) (h' : Scans crc (off + b.length) c s') :
    Scans crc off (b ++ c) ⟨s.entries ++ s'.entries, s'.tail⟩ := by
  induction h with
  | done off => exact h'
  | partialHeader hne hlen => simp at hdone
  | skip hlen hbad _ ih =>
    rw [append_assoc]
    refine .skip hlen hbad (ih hdone ?_)
    rwa [length_append, hlen, ← Nat.add_assoc] at h'
  | truncatedData hlen he hshort => simp at hdone
  | @entry off header data rest e s hlen he hdata _ ih =>
    have hoff : off + (header ++ (data ++ rest)).length =
        off + (headerSize + data.length) + rest.length := by
      rw [length_append, length_append, hlen]
      omega
    rw [hoff] at h'
    rw [append_assoc, append_assoc]
    exact .entry hlen he hdata (ih hdone h')

lemma scans_toBytes {e : WalEntry} (h : e.InRange) (off : ℕ) :
    Scans crc off (e.toBytes crc) ⟨[(off, e)], .done⟩ := by
  have hscan := @Scans.entry crc off _ e.data [] _ _ (WalEntry.length_toHeaderBytes e)
    (WalEntry.fromHeaderBytes_toHeaderBytes h) h.2.2.2.2.2.2 (.done _)
  rwa [append_nil] at hscan

lemma scans_short {off : ℕ} {b : Bytes} (h : b.length < headerSize) :
    ∃ t, Scans crc off b ⟨[], t⟩ ∧ (t = .done → b = []) := by
  by_cases hb : b = []
  · subst hb
    exact ⟨_, .done off, fun _ => rfl⟩
  · exact ⟨_, .partialHeader hb h, nofun⟩

/-- Of the entries, those that end before the cut are found. Where the cut leaves whole entries,
those that start before it end before it. -/
def CutAt (crc : Bytes → UInt32) (off n : ℕ) (b : Bytes) (entries : List (ℕ × WalEntry)) : Prop :=
  ∃ t, Scans crc off b ⟨entries.filter (stop · ≤ off + n), t⟩ ∧
    (t = .done → ∀ p ∈ entries, p.1 < off + n → stop p ≤ off + n)

section

variable {off n : ℕ} {b header rest : Bytes} {entries : List (ℕ × WalEntry)} {t : Tail}

/-- A cut inside the first header or entry leaves nothing that is found. -/
lemma cutAt_of_nil (hscan : Scans crc off b ⟨[], t⟩)
    (hl : ∀ p ∈ entries, off ≤ p.1 ∧ off + n < stop p) (hdone : t = .done → n = 0) :
    CutAt crc off n b entries := by
  have hnil : entries.filter (stop · ≤ off + n) = [] := by
    refine filter_eq_nil_iff.mpr fun p hp => ?_
    have := (hl p hp).2
    simp only [decide_eq_true_eq]
    omega
  rw [CutAt, hnil]
  refine ⟨t, hscan, fun ht p hp hlt => ?_⟩
  have := (hl p hp).1
  have := hdone ht
  omega

lemma cutAt_header (hb : headerSize ≤ b.length) (hn : n < headerSize)
    (hl : ∀ p ∈ entries, off ≤ p.1 ∧ off + n < stop p) : CutAt crc off n (b.take n) entries := by
  obtain ⟨t, hscan, hdone⟩ := @scans_short crc off (b.take n) (by rw [length_take]; omega)
  refine cutAt_of_nil hscan hl fun ht => ?_
  have hlen := congrArg List.length (hdone ht)
  rw [length_take, length_nil] at hlen
  omega

lemma take_header (hlen : header.length = headerSize) (hn : headerSize ≤ n) :
    (header ++ rest).take n = header ++ rest.take (n - headerSize) := by
  rw [take_append, hlen, take_of_length_le (by omega)]

end

/-- A cut at or behind the end of the first entry. -/
lemma cutAt_entry {off n : ℕ} {header data rest : Bytes} {e : WalEntry}
    {entries : List (ℕ × WalEntry)} (hlen : header.length = headerSize)
    (he : WalEntry.fromHeaderBytes crc header = some e) (hdata : data.length = e.length)
    (hn : headerSize + data.length ≤ n)
    (h : CutAt crc (off + (headerSize + data.length)) (n - (headerSize + data.length))
      (rest.take (n - (headerSize + data.length))) entries) :
    CutAt crc off n ((header ++ (data ++ rest)).take n)
      ((off, { e with data := data }) :: entries) := by
  obtain ⟨t, ht, hdone⟩ := h
  rw [show off + (headerSize + data.length) + (n - (headerSize + data.length)) = off + n by
    omega] at ht hdone
  have hin : stop (off, { e with data := data }) ≤ off + n := by
    simp only [stop, WalEntry.serializedSize]
    omega
  rw [CutAt, take_header hlen (by omega), take_append, take_of_length_le (by omega),
    Nat.sub_sub, filter_cons_of_pos (by simpa using hin)]
  exact ⟨t, .entry hlen he hdata ht, fun hd => forall_mem_cons.mpr ⟨fun _ => hin, hdone hd⟩⟩

lemma Scans.take {off : ℕ} {b : Bytes} {s : FileScan} (h : Scans crc off b s) (n : ℕ) :
    CutAt crc off n (b.take n) s.entries := by
  induction h generalizing n with
  | done off =>
    rw [take_nil]
    exact ⟨_, .done off, fun _ => nofun⟩
  | partialHeader hne hlen =>
    obtain ⟨t, hscan, -⟩ := @scans_short crc _ (List.take n _)
      (by rw [length_take]; exact (Nat.min_le_right _ _).trans_lt hlen)
    exact ⟨t, hscan, fun _ => nofun⟩
  | @skip off header rest s hlen hbad hrest ih =>
    by_cases hn : n < headerSize
    · refine cutAt_header (by rw [length_append]; omega) hn fun p hp => ?_
      have := hrest.bounds p hp
      simp only [stop] at this ⊢
      omega
    · obtain ⟨t, ht, hdone⟩ := ih (n - headerSize)
      rw [show off + headerSize + (n - headerSize) = off + n by omega] at ht hdone
      rw [take_header hlen (by omega)]
      exact ⟨t, .skip hlen hbad ht, hdone⟩
  | truncatedData hlen he hrest =>
    by_cases hn : n < headerSize
    · exact cutAt_header (by rw [length_append]; omega) hn nofun
    · rw [take_header hlen (by omega)]
      exact ⟨_, .truncatedData hlen he (by rw [length_take]; omega), nofun⟩
  | @entry off header data rest e s hlen he hdata hrest ih =>
    have hstop : ∀ p ∈ ((off, { e with data := data }) :: s.entries : List (ℕ × WalEntry)),
        off ≤ p.1 ∧ off + (headerSize + data.length) ≤ stop p := by
      intro p hp
      rcases mem_cons.mp hp with rfl | hp
      · exact ⟨le_rfl, le_rfl⟩
      · have := hrest.bounds p hp
        simp only [stop] at this ⊢
        omega
    by_cases hcut : n < headerSize + data.length
    · have hlost : ∀ p ∈ ((off, { e with data := data }) :: s.entries : List (ℕ × WalEntry)),
          off ≤ p.1 ∧ off + n < stop p := fun p hp => ⟨(hstop p hp).1, by have := hstop p hp; omega⟩
      by_cases hn : n < headerSize
      · exact cutAt_header (by rw [length_append]; omega) hn hlost
      · rw [take_header hlen (by omega)]
        exact cutAt_of_nil (.truncatedData hlen he (by rw [length_take]; omega)) hlost nofun
    · exact cutAt_entry hlen he hdata (by omega) (ih _)

/-! ### The scan of a file -/

lemma stop_le_of_mem_scanFile {b : Bytes} {p : ℕ × WalEntry} (hp : p ∈ (scanFile crc b).entries) :
    stop p ≤ b.length := by
  simpa using ((scans_scanFile b).bounds p hp).2

lemma scanFile_append {b : Bytes} {e : WalEntry} (hdone : (scanFile crc b).tail = .done)
    (h : e.InRange) : (scanFile crc (b ++ e.toBytes crc)).entries =
      (scanFile crc b).entries ++ [(b.length, e)] := by
  have hscan := (scans_scanFile b).append hdone (scans_toBytes h (0 + b.length))
  rw [hscan.scanFile_eq, Nat.zero_add]

lemma scanFile_take (b : Bytes) (n : ℕ) :
    (scanFile crc (b.take n)).entries = (scanFile crc b).entries.filter (stop · ≤ n) ∧
      ((scanFile crc (b.take n)).tail = .done →
        ∀ p ∈ (scanFile crc b).entries, p.1 < n → stop p ≤ n) := by
  obtain ⟨t, hscan, hwhole⟩ := (@scans_scanFile crc b).take n
  rw [Nat.zero_add] at hscan hwhole
  rw [hscan.scanFile_eq]
  exact ⟨rfl, hwhole⟩

end

/-! ### The order of the files -/

/-- The last `w` decimal digits. -/
def fixedDigits : ℕ → ℕ → List ℕ
  | 0, _ => []
  | w + 1, n => n / 10 ^ w % 10 :: fixedDigits w n

/-- The digits in the name of a file, at least eight; the rest of the names is the same in all of
them, and shorter names come before longer ones that start alike. -/
def seqDigits (seq : ℕ) : List ℕ :=
  fixedDigits (if seq < 10 ^ 8 then 8 else Nat.log 10 seq + 1) seq

lemma add_mul_lt_iff {d q q' r r' : ℕ} (hr : r < d) (hr' : r' < d) :
    r + d * q < r' + d * q' ↔ q < q' ∨ q = q' ∧ r < r' := by
  rcases lt_trichotomy q q' with hlt | rfl | hgt
  · have hmul := Nat.mul_le_mul_left d (Nat.succ_le_of_lt hlt)
    rw [Nat.mul_succ] at hmul
    omega
  · omega
  · have hmul := Nat.mul_le_mul_left d (Nat.succ_le_of_lt hgt)
    rw [Nat.mul_succ] at hmul
    omega

lemma fixedDigits_lt_iff (w a b : ℕ) :
    fixedDigits w a < fixedDigits w b ↔ a % 10 ^ w < b % 10 ^ w := by
  induction w with
  | zero => simp [fixedDigits, Nat.mod_one]
  | succ w ih =>
    have hpos : 0 < 10 ^ w := Nat.pow_pos (by omega)
    rw [fixedDigits, fixedDigits, cons_lt_cons_iff, ih, Nat.mod_pow_succ, Nat.mod_pow_succ,
      add_mul_lt_iff (Nat.mod_lt a hpos) (Nat.mod_lt b hpos)]

lemma seqDigits_lt {a b : ℕ} (hab : a < b) (hb : b < 10 ^ 8) : seqDigits a < seqDigits b := by
  rw [seqDigits, seqDigits, if_pos (hab.trans hb), if_pos hb, fixedDigits_lt_iff,
    Nat.mod_eq_of_lt (hab.trans hb), Nat.mod_eq_of_lt hb]
  exact hab

inductive ReadError
  | unexpectedEof
  deriving DecidableEq

section

variable (crc : Bytes → UInt32)

/-- The entries of a file with their positions. -/
def positions (seq : ℕ) (b : Bytes) : List (DataWalPos × WalEntry) :=
  (scanFile crc b).entries.map fun p => (toLex (seq, p.1), p.2)

/-- The files in turn; data that is cut short is an error when another file follows. -/
def readInTurn : List (ℕ × Bytes) → List (Except ReadError (DataWalPos × WalEntry))
  | [] => []
  | [f] => (positions crc f.1 f.2).map .ok
  | f :: g :: files => (positions crc f.1 f.2).map .ok ++
      (if (scanFile crc f.2).tail = .truncatedData then [.error .unexpectedEof] else []) ++
      readInTurn (g :: files)

/-- The files of the directory in the order of their names. -/
def byName (files : List (ℕ × Bytes)) : List (ℕ × Bytes) :=
  files.insertionSort fun f g => seqDigits f.1 ≤ seqDigits g.1

/-- `replay_positions`. -/
def replayPositions (files : List (ℕ × Bytes)) : List (Except ReadError (DataWalPos × WalEntry)) :=
  readInTurn crc (byName files)

end

variable {crc : Bytes → UInt32}

lemma byName_eq {files : List (ℕ × Bytes)} (hlt : files.Pairwise (·.1 < ·.1))
    (hsmall : ∀ f ∈ files, f.1 < 10 ^ 8) : byName files = files := by
  refine Pairwise.insertionSort_eq ?_
  refine (Pairwise.and_mem.mp hlt).imp ?_
  rintro f g ⟨-, hg, hfg⟩
  exact le_of_lt (seqDigits_lt hfg (hsmall g hg))

lemma readInTurn_eq {files : List (ℕ × Bytes)} {last : ℕ × Bytes}
    (h : ∀ f ∈ files, (scanFile crc f.2).tail ≠ .truncatedData) :
    readInTurn crc (files ++ [last]) =
      ((files ++ [last]).flatMap fun f => positions crc f.1 f.2).map .ok := by
  induction files with
  | nil => simp [readInTurn]
  | cons f files ih =>
    obtain ⟨hf, hfiles⟩ := forall_mem_cons.mp h
    have hcons : ∃ g rest, files ++ [last] = g :: rest := exists_cons_of_ne_nil (by simp)
    obtain ⟨g, rest, hrest⟩ := hcons
    rw [cons_append, flatMap_cons, map_append, ← ih hfiles, hrest, readInTurn,
      if_neg hf, append_nil]

end OceanFs.Wal
