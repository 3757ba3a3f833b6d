import Mathlib.Logic.Encodable.Basic
import Mathlib.Logic.Equiv.List
import OceanFs.Lib.Framing
import OceanFs.Segment.EventRecord

/-!
The event log on disk: appending with rotation, a crash that cuts the last file, the repair when
the log is opened, and the reader.

The reader takes records off the front of a file. Where it finds none it can use, it tells a torn
tail from corruption by the bytes that follow, and opening the log cuts a torn tail off. A record
that was written in full but cannot be decoded looks like a torn tail when it is the last one.
-/

namespace OceanFs.Segment

open OceanFs.Core Lib.Bytes Lib.Framing List

/-- The files of the log, oldest first, and the one that is written to. -/
@[ext]
structure EventWal where
  rotated : List Bytes
  current : Bytes
  deriving DecidableEq

namespace EventWal

def empty : EventWal := ⟨[], []⟩

def files (d : EventWal) : List Bytes := d.rotated ++ [d.current]

end EventWal

section

variable (C : Codecs)

/-- `append`, where `limit` is the configured file size: a record that does not fit starts a new
file, also when the file it leaves is empty. -/
def EventWal.append (limit : ℕ) (d : EventWal) (evt : SegmentEvent) : EventWal :=
  if d.current.length + (evt.toRecordBytes C).length > limit then
    ⟨d.rotated ++ [d.current], evt.toRecordBytes C⟩
  else ⟨d.rotated, d.current ++ evt.toRecordBytes C⟩

def EventWal.appendAll (limit : ℕ) (d : EventWal) (events : List SegmentEvent) : EventWal :=
  events.foldl (EventWal.append C limit) d

/-- A crash that leaves the first `cut` bytes of the file that was written to. -/
def EventWal.crash (d : EventWal) (cut : ℕ) : EventWal :=
  { d with current := d.current.take cut }

/-! ### The reader -/

/-- The shape that seals had before there were pools. -/
def isPrePoolSeal (kind : UInt8) (payload : Bytes) : Bool :=
  kind = kindSeal ∧ 4 ≤ payload.length ∧
    payload.getD 3 0 &&& ~~~(sealFlagRepackedFrom ||| sealFlagPoolId) = 0 ∧
    payload.getD 3 0 &&& sealFlagPoolId = 0 ∧ (payload.length = 48 ∨ payload.length = 48 + 16)

/-- What the reader finds at the front of the rest of a file. -/
inductive Found
  | nothing
  | record (evt : SegmentEvent) (size : ℕ)
  /-- A record that cannot be used, with the size it is taken to have. -/
  | bad (size : ℕ)
  | prePool
  deriving DecidableEq

/-- The rest of a record after its header, which says how long the payload is. A payload that
goes past the end of the file takes all that is left. -/
def readPayload (left : ℕ) (header rest : Bytes) (payloadLen : ℕ) : Found :=
  match takeBytes (payloadLen + 4) rest with
  | none => .bad left
  | some (tail, _) =>
    let payload := tail.take payloadLen
    let size := eventRecordHeaderSize + (payloadLen + 4)
    if leNat (tail.drop payloadLen) ≠ (C.crc (header ++ payload)).toNat then .bad size
    else match decodePayload C (header.getD 5 0) (leNat (header.drop 12)) payload with
      | some evt => .record evt size
      | none => if isPrePoolSeal (header.getD 5 0) payload then .prePool else .bad size

def readRecord (b : Bytes) : Found :=
  match takeBytes eventRecordHeaderSize b with
  | none => if b = [] then .nothing else .bad b.length
  | some (header, rest) =>
    if header.take 4 ≠ eventRecordMagic then .bad 32
    else if header.getD 4 0 ≠ eventRecordVersion then .bad 32
    else if leNat ((header.drop 8).take 4) > maxPayloadSize then .bad 32
    else readPayload C b.length header rest (leNat ((header.drop 8).take 4))

inductive ScanEnd
  | clean
  | torn
  | corrupt
  | unsupportedPrePool
  deriving DecidableEq

structure Scan where
  events : List SegmentEvent
  /-- The end of the last record that could be used. -/
  lastGoodEnd : ℕ
  ending : ScanEnd
  deriving DecidableEq

/-- The records of a file that has `later` bytes in the files after it. The first argument bounds
the number of steps. -/
def scan (later : ℕ) : ℕ → Bytes → Scan
  | 0, _ => ⟨[], 0, .clean⟩
  | fuel + 1, b =>
    match readRecord C b with
    | .nothing => ⟨[], 0, .clean⟩
    | .record evt size =>
      let s := scan later fuel (b.drop size)
      ⟨evt :: s.events, size + s.lastGoodEnd, s.ending⟩
    | .bad size => ⟨[], 0, if b.length - size + later > 0 then .corrupt else .torn⟩
    | .prePool => ⟨[], 0, .unsupportedPrePool⟩

def scanFile (later : ℕ) (file : Bytes) : Scan :=
  scan C later (file.length + 1) file

/-- A read from the beginning: the files in order, until one does not end cleanly. -/
def readFiles : List Bytes → List SegmentEvent × ScanEnd
  | [] => ([], .clean)
  | file :: files =>
    let s := scanFile C files.flatten.length file
    match s.ending with
    | .clean => (s.events ++ (readFiles files).1, (readFiles files).2)
    | ending => (s.events, ending)

/-- `open`, which cuts a torn tail off the last file and leaves corruption as it is. -/
def EventWal.openLog (d : EventWal) : Option EventWal :=
  match (scanFile C 0 d.current).ending with
  | .torn => some { d with current := d.current.take (scanFile C 0 d.current).lastGoodEnd }
  | .unsupportedPrePool => none
  | _ => some d

/-! ### Records -/

variable {C}

lemma header_fields (evt : SegmentEvent) :
    (evt.header C).take 4 = eventRecordMagic ∧ (evt.header C).getD 4 0 = eventRecordVersion ∧
      (evt.header C).getD 5 0 = evt.kind ∧
      ((evt.header C).drop 8).take 4 = leBytes 4 (evt.payload C).length ∧
      (evt.header C).drop 12 = leBytes 16 evt.segmentId :=
  ⟨rfl, rfl, rfl, take_left' (length_leBytes 4 _),
    drop_left' (length_leBytes 4 (evt.payload C).length)⟩

variable {evt : SegmentEvent}

lemma InRange.segmentId_lt (h : evt.InRange) : evt.segmentId < 256 ^ 16 := by
  rcases evt with evt | evt | id | evt
  · exact h
  · exact h.1
  · exact h
  · exact h.1

lemma readRecord_header {b rest : Bytes} (hlen : (evt.payload C).length ≤ maxPayloadSize)
    (h : takeBytes eventRecordHeaderSize b = some (evt.header C, rest)) :
    readRecord C b = readPayload C b.length (evt.header C) rest (evt.payload C).length := by
  obtain ⟨hmagic, hversion, -, hpl, -⟩ := header_fields (C := C) evt
  have hnat : leNat (leBytes 4 (evt.payload C).length) = (evt.payload C).length :=
    leNat_leBytes (hlen.trans_lt (by decide))
  rw [readRecord, h]
  simp only [hmagic, hversion, hpl, hnat, ne_eq, not_true_eq_false, if_false,
    if_neg (not_lt.mpr hlen)]

lemma readRecord_append (hr : evt.InRange) (hf : evt.Fits C) (rest : Bytes) :
    readRecord C (evt.toRecordBytes C ++ rest) =
      .record (evt.stored C) (evt.toRecordBytes C).length := by
  obtain ⟨-, -, hkind, -, hid⟩ := header_fields (C := C) evt
  have hhead : takeBytes eventRecordHeaderSize (evt.toRecordBytes C ++ rest) =
      some (evt.header C, (evt.payload C ++
        leBytes 4 (C.crc (evt.header C ++ evt.payload C)).toNat) ++ rest) := by
    rw [SegmentEvent.toRecordBytes, append_assoc]
    exact takeBytes_append (length_header evt) _
  have htail : takeBytes ((evt.payload C).length + 4) ((evt.payload C ++
      leBytes 4 (C.crc (evt.header C ++ evt.payload C)).toNat) ++ rest) =
        some (evt.payload C ++ leBytes 4 (C.crc (evt.header C ++ evt.payload C)).toNat, rest) :=
    takeBytes_append (by simp) _
  have hcrc : leNat (leBytes 4 (C.crc (evt.header C ++ evt.payload C)).toNat) =
      (C.crc (evt.header C ++ evt.payload C)).toNat :=
    leNat_leBytes (UInt32.toNat_lt _)
  rw [readRecord_header (length_payload_le hf) hhead, readPayload, htail]
  simp only [hkind, hid, leNat_leBytes (InRange.segmentId_lt hr), take_left, drop_left,
    hcrc, length_toRecordBytes, ne_eq, not_true_eq_false, if_false, decodePayload_payload hr hf]

lemma readRecord_take (hf : evt.Fits C) {q : ℕ} (hpos : 0 < q)
    (hq : q < (evt.toRecordBytes C).length) :
    readRecord C ((evt.toRecordBytes C).take q) = .bad q := by
  have hlength : ((evt.toRecordBytes C).take q).length = q := length_take_of_le hq.le
  by_cases hshort : q < eventRecordHeaderSize
  · have hnone : takeBytes eventRecordHeaderSize ((evt.toRecordBytes C).take q) = none :=
      if_neg (by omega)
    have hne : (evt.toRecordBytes C).take q ≠ [] := length_pos_iff.mp (by omega)
    rw [readRecord, hnone]
    simp only [hne, if_false, hlength]
  · rw [length_toRecordBytes] at hq
    have hhead : takeBytes eventRecordHeaderSize ((evt.toRecordBytes C).take q) =
        some (evt.header C, (evt.payload C ++
          leBytes 4 (C.crc (evt.header C ++ evt.payload C)).toNat).take
            (q - eventRecordHeaderSize)) := by
      rw [SegmentEvent.toRecordBytes, take_append, length_header,
        take_of_length_le (by rw [length_header]; omega)]
      exact takeBytes_append (length_header evt) _
    have htail : takeBytes ((evt.payload C).length + 4) ((evt.payload C ++
        leBytes 4 (C.crc (evt.header C ++ evt.payload C)).toNat).take
          (q - eventRecordHeaderSize)) = none := by
      refine if_neg ?_
      rw [length_take]
      omega
    rw [readRecord_header (length_payload_le hf) hhead, readPayload, htail, hlength]

/-! ### What a scan returns -/

/-- Events whose records the reader can use. -/
def Readable (C : Codecs) (events : List SegmentEvent) : Prop :=
  ∀ evt ∈ events, evt.InRange ∧ evt.Fits C

/-- The bytes of a file with the given records. -/
abbrev fileOf (C : Codecs) (events : List SegmentEvent) : Bytes :=
  events.flatMap (SegmentEvent.toRecordBytes C)

lemma scan_append {later fuel : ℕ} {events : List SegmentEvent} (h : Readable C events)
    (hfuel : events.length ≤ fuel) (rest : Bytes) :
    scan C later fuel (fileOf C events ++ rest) =
      ⟨events.map (·.stored C) ++ (scan C later (fuel - events.length) rest).events,
        (fileOf C events).length + (scan C later (fuel - events.length) rest).lastGoodEnd,
        (scan C later (fuel - events.length) rest).ending⟩ := by
  induction events generalizing fuel with
  | nil => simp
  | cons evt events ih =>
    obtain ⟨⟨hr, hf⟩, h⟩ := forall_mem_cons.mp h
    obtain ⟨fuel, rfl⟩ : ∃ n, fuel = n + 1 := ⟨fuel - 1, by rw [length_cons] at hfuel; omega⟩
    rw [fileOf, flatMap_cons, append_assoc, scan, readRecord_append hr hf]
    simp only [drop_left]
    rw [ih h (by simpa using hfuel)]
    simp [Nat.add_assoc]

lemma length_le_fileOf (events : List SegmentEvent) :
    events.length ≤ (fileOf C events).length := by
  induction events with
  | nil => simp
  | cons evt events ih =>
    rw [fileOf] at ih
    rw [fileOf, flatMap_cons, length_append, length_cons, length_toRecordBytes]
    omega

lemma scanFile_append {later : ℕ} {events : List SegmentEvent} (h : Readable C events)
    (rest : Bytes) :
    ∃ fuel, scanFile C later (fileOf C events ++ rest) =
      ⟨events.map (·.stored C) ++ (scan C later (fuel + 1) rest).events,
        (fileOf C events).length + (scan C later (fuel + 1) rest).lastGoodEnd,
        (scan C later (fuel + 1) rest).ending⟩ := by
  have hle := length_le_fileOf (C := C) events
  refine ⟨(fileOf C events).length - events.length + rest.length, ?_⟩
  rw [scanFile, scan_append h (by rw [length_append]; omega), length_append,
    show ∀ n m, n - events.length + m + 1 = n - events.length + (m + 1) by omega,
    Nat.add_assoc, Nat.sub_add_comm hle]

lemma scanFile_records {later : ℕ} {events : List SegmentEvent} (h : Readable C events) :
    scanFile C later (fileOf C events) =
      ⟨events.map (·.stored C), (fileOf C events).length, .clean⟩ := by
  obtain ⟨fuel, hscan⟩ := @scanFile_append C later events h []
  rw [append_nil] at hscan
  rw [hscan]
  simp [scan, readRecord, takeBytes, eventRecordHeaderSize]

lemma scanFile_torn {events : List SegmentEvent} (h : Readable C events) {evt : SegmentEvent}
    (hf : evt.Fits C) {q : ℕ} (hpos : 0 < q) (hq : q < (evt.toRecordBytes C).length) :
    scanFile C 0 (fileOf C events ++ (evt.toRecordBytes C).take q) =
      ⟨events.map (·.stored C), (fileOf C events).length, .torn⟩ := by
  obtain ⟨fuel, hscan⟩ := @scanFile_append C 0 events h ((evt.toRecordBytes C).take q)
  rw [hscan, scan, readRecord_take hf hpos hq]
  simp

/-! ### What the log returns -/

lemma readFiles_records {groups : List (List SegmentEvent)} (h : Readable C groups.flatten) :
    readFiles C (groups.map (fileOf C)) = (groups.flatten.map (·.stored C), .clean) := by
  induction groups with
  | nil => rfl
  | cons g groups ih =>
    rw [flatten_cons, Readable, forall_mem_append] at h
    simp only [map_cons, readFiles, scanFile_records h.1, ih h.2, flatten_cons, map_append]

lemma flatten_map_fileOf (groups : List (List SegmentEvent)) :
    (groups.map (fileOf C)).flatten = fileOf C groups.flatten := by
  induction groups with
  | nil => rfl
  | cons g groups ih => simp [ih]

/-- The files hold the records of the events, in order and in full. -/
def EventWal.Holds (C : Codecs) (d : EventWal) (events : List SegmentEvent) : Prop :=
  ∃ (groups : List (List SegmentEvent)) (last : List SegmentEvent),
    d = ⟨groups.map (fileOf C), fileOf C last⟩ ∧ groups.flatten ++ last = events

namespace EventWal.Holds

variable {d : EventWal} {events later : List SegmentEvent}

lemma append (h : d.Holds C events) (limit : ℕ) (evt : SegmentEvent) :
    (d.append C limit evt).Holds C (events ++ [evt]) := by
  obtain ⟨groups, last, rfl, rfl⟩ := h
  unfold EventWal.append
  split_ifs
  · exact ⟨groups ++ [last], [evt], by simp, by simp⟩
  · exact ⟨groups, last ++ [evt], by simp, by simp⟩

section

variable (h : d.Holds C events)

include h

lemma appendAll (limit : ℕ) :
    (d.appendAll C limit later).Holds C (events ++ later) := by
  induction later generalizing d events with
  | nil => rwa [append_nil]
  | cons evt later ih =>
    have hrest := ih (h.append limit evt)
    rwa [append_assoc] at hrest

lemma exists_files :
    ∃ groups : List (List SegmentEvent), d.files = groups.map (fileOf C) ∧
      groups.flatten = events := by
  obtain ⟨groups, last, rfl, rfl⟩ := h
  exact ⟨groups ++ [last], by simp [EventWal.files], by simp⟩

lemma flatten_files : d.files.flatten = fileOf C events := by
  obtain ⟨groups, hfiles, rfl⟩ := h.exists_files
  rw [hfiles, flatten_map_fileOf]

lemma readFiles_eq (hf : Readable C events) :
    readFiles C d.files = (events.map (·.stored C), .clean) := by
  obtain ⟨groups, hfiles, rfl⟩ := h.exists_files
  rw [hfiles, readFiles_records hf]

lemma openLog (hf : Readable C events) (cut : ℕ) :
    ∃ d', (d.crash cut).openLog C = some d' ∧
      d'.Holds C
        (whole (SegmentEvent.toRecordBytes C) (d.rotated.flatten.length + cut) events) := by
  obtain ⟨groups, last, rfl, rfl⟩ := h
  rw [Readable, forall_mem_append] at hf
  rw [flatten_map_fileOf, whole_append]
  have hwhole : Readable C (whole (SegmentEvent.toRecordBytes C) cut last) := fun evt hevt =>
    hf.2 evt (whole_subset _ _ _ hevt)
  refine ⟨⟨groups.map (fileOf C), fileOf C (whole (SegmentEvent.toRecordBytes C) cut last)⟩, ?_,
    groups, _, rfl, rfl⟩
  obtain ⟨part, hcut, hpart⟩ := take_flatMap (SegmentEvent.toRecordBytes C) cut last
  unfold EventWal.openLog EventWal.crash
  simp only [hcut]
  rcases hpart with rfl | ⟨evt, hevt, q, hpos, hq, rfl⟩
  · rw [append_nil, scanFile_records hwhole]
  · rw [scanFile_torn hwhole (hf.2 evt hevt).2 hpos hq]
    simp

end

end EventWal.Holds

lemma EventWal.holds_appendAll_empty (limit : ℕ) (events : List SegmentEvent) :
    (EventWal.empty.appendAll C limit events).Holds C events := by
  have hempty : EventWal.empty.Holds C [] := ⟨[], [], rfl, rfl⟩
  exact hempty.appendAll limit

/-! ### Crash and reopen -/

/-- The log after a crash that leaves the first `cut` bytes of the last file, and after further
appends: opening it leaves the records that were written in full, and a read returns what `read`
makes of their events and of all later ones. -/
def CrashSafe (C : Codecs) (read : SegmentEvent → SegmentEvent) (limit cut : ℕ)
    (events later : List SegmentEvent) : Prop :=
  let d := EventWal.empty.appendAll C limit events
  let written := whole (SegmentEvent.toRecordBytes C) (d.rotated.flatten.length + cut) events
  ∃ d', (d.crash cut).openLog C = some d' ∧
    d'.files.flatten = written.flatMap (SegmentEvent.toRecordBytes C) ∧
    readFiles C (d'.appendAll C limit later).files = ((written ++ later).map read, .clean)

/-- **The log survives a crash.** Every record that was written in full stays, and every event is
read back as its record says. -/
theorem crashSafe_stored (C : Codecs) (limit cut : ℕ) {events later : List SegmentEvent}
    (hr : ∀ evt ∈ events ++ later, evt.InRange) (hf : ∀ evt ∈ events ++ later, evt.Fits C) :
    CrashSafe C (·.stored C) limit cut events later := by
  have hread : Readable C (events ++ later) := fun evt hevt => ⟨hr evt hevt, hf evt hevt⟩
  rw [Readable, forall_mem_append] at hread
  obtain ⟨d', hopen, hholds⟩ :=
    (EventWal.holds_appendAll_empty limit events).openLog hread.1 cut
  refine ⟨d', hopen, hholds.flatten_files, (hholds.appendAll limit).readFiles_eq ?_⟩
  exact forall_mem_append.mpr ⟨fun evt hevt => hread.1 evt (whole_subset _ _ _ hevt), hread.2⟩

end

instance (C : Codecs) (evt : SegmentEvent) : Decidable (evt.Fits C) := by
  cases evt <;> unfold SegmentEvent.Fits <;> infer_instance

instance (evt : SegmentEvent) : Decidable evt.InRange := by
  cases evt <;> unfold SegmentEvent.InRange <;> infer_instance

/-- Codecs to evaluate the log with: the name of a node is as many zero bytes as its number. -/
def sampleCodecs : Codecs where
  crc _ := 0
  nodeName n := List.replicate n 0
  nodeOf b := if b = List.replicate b.length 0 then some b.length else none
  nodeOf_eq_some b n := by
    constructor
    · intro h
      split_ifs at h with hb
      rw [← Option.some.inj h, ← hb]
    · rintro rfl
      simp
  serialize l := List.replicate (Encodable.encode (l.map fun c =>
    (c.bucket.toList.map Char.toNat, c.key.toList.map Char.toNat))) 0
  deserialize b := (Encodable.decode b.length).map (List.map fun p : List ℕ × List ℕ =>
    ⟨String.ofList (p.1.map Char.ofNat), String.ofList (p.2.map Char.ofNat)⟩)
  deserialize_serialize l := by simp [Function.comp_def]

/-- A refresh of segment 7 with that many holders. -/
def sampleRefresh (holders : ℕ) : SegmentEvent :=
  .metadataRefresh ⟨7, none, some (List.range holders), some 1⟩

/-- A seal of segment 7 with the given list of contained objects. -/
def sampleSeal (contained : Option (List ContainedObject)) : SegmentEvent :=
  .seal ⟨7, .small, 4, 2, zeroHash, toLex (0, 0), 100, none, 1, contained⟩

/-- The crash cuts the refresh, and the delete is appended after it. -/
theorem cut_refresh_dropped :
    (∀ evt ∈ [sampleSeal none, sampleRefresh 16] ++ [.delete 7], evt.Fits sampleCodecs) ∧
      CrashSafe sampleCodecs (·.stored sampleCodecs) 4096 100 [sampleSeal none, sampleRefresh 16]
        [.delete 7] :=
  ⟨by decide, crashSafe_stored sampleCodecs 4096 100 (by decide) (by decide)⟩

/-- A seal with an empty list is read back as one without a list. -/
theorem empty_list_read_as_none :
    ¬CrashSafe sampleCodecs id 4096 92 [sampleSeal (some [])] [] := by
  rintro ⟨d', hopen, -, hread⟩
  have hd : ((EventWal.empty.appendAll sampleCodecs 4096 [sampleSeal (some [])]).crash 92).openLog
      sampleCodecs = some ⟨[], (sampleSeal none).toRecordBytes sampleCodecs⟩ := by decide +kernel
  obtain rfl := Option.some.inj (hd.symm.trans hopen)
  revert hread
  decide +kernel

/-- The record of a refresh with 17 holders is in the file, and opening the log removes it. -/
example : (EventWal.empty.appendAll sampleCodecs 4096 [sampleRefresh 17]).openLog sampleCodecs =
    some .empty := by decide +kernel

end OceanFs.Segment
