import OceanFs.Core.Types
import OceanFs.Lib.Bytes

/-!
The write-ahead log of the hints for one target.

A record is a frame: the length of the payload, the payload, and the checksum of the payload. A
replay reads frames from the start of the file and stops at the first one that is not whole. It
cuts the file there when the frame has at least the eight bytes of its two numbers; a shorter
remainder is left in the file.
-/

namespace OceanFs.Durability

open OceanFs.Core Lib.Bytes List

variable {ρ : Type}

/-- The encoding of the records (protobuf); a message is shorter than a `u32` can count. -/
structure HintCodec (ρ : Type) where
  encode : ρ → Bytes
  decode : Bytes → Except String ρ
  decode_encode : ∀ r, decode (encode r) = .ok r
  length_encode_lt : ∀ r, (encode r).length < 256 ^ 4

/-- The log file, and the position of its end that the log keeps beside it. -/
structure HintWal where
  file : Bytes
  position : ℕ
  deriving DecidableEq

inductive HintWalError
  | internal (msg : String)
  deriving DecidableEq

/-- A record of a replay, with the positions its frame starts and ends at. -/
structure Replayed (ρ : Type) where
  start : ℕ
  stop : ℕ
  record : ρ
  deriving DecidableEq

/-- Records one after another, each with the positions it starts and ends at. -/
def spans (len : ρ → ℕ) (cursor : ℕ) : List ρ → List (Replayed ρ)
  | [] => []
  | r :: rs => ⟨cursor, cursor + len r, r⟩ :: spans len (cursor + len r) rs

@[simp] lemma records_spans (len : ρ → ℕ) (cursor : ℕ) (rs : List ρ) :
    (spans len cursor rs).map Replayed.record = rs := by
  induction rs generalizing cursor with
  | nil => rfl
  | cons r rs ih => rw [spans, map_cons, ih]

section Code

variable (crc : Bytes → UInt32) (codec : HintCodec ρ)

def buildFrame (payload : Bytes) : Bytes :=
  leBytes 4 payload.length ++ payload ++ leBytes 4 (crc payload).toNat

def HintWal.openFile (file : Bytes) : HintWal :=
  ⟨file, file.length⟩

/-- The file is opened for appending, so the frame goes to its end whatever the position is. -/
def HintWal.writeHint (w : HintWal) (r : ρ) : HintWal × ℕ × ℕ :=
  let frame := buildFrame crc (codec.encode r)
  (⟨w.file ++ frame, w.position + frame.length⟩, w.position, w.position + frame.length)

/-- `truncate_after` and `truncate_to`. -/
def HintWal.truncateAfter (w : HintWal) (position : ℕ) : HintWal :=
  ⟨w.file.take position, position⟩

/-- What a replay finds where it stands. -/
inductive Frame
  | short
  | torn
  | whole (payload : Bytes)
  deriving DecidableEq

def nextFrame (remaining : Bytes) : Frame :=
  if remaining.length < 8 then .short
  else
    let payloadLen := leNat (remaining.take 4)
    let frameTotal := 4 + payloadLen + 4
    if remaining.length < frameTotal then .torn
    else
      let payload := (remaining.drop 4).take payloadLen
      let expectedCrc := leNat ((remaining.drop (4 + payloadLen)).take 4)
      if (crc payload).toNat = expectedCrc then .whole payload else .torn

/-- The records that a replay collected, and where it cuts the file. -/
structure ReplayEnd (ρ : Type) where
  records : List (Replayed ρ)
  truncateTo : Option ℕ
  deriving DecidableEq

/-- Reads from the cursor on; the first argument bounds the number of frames. -/
def replayFrom : ℕ → ℕ → Bytes → Except HintWalError (ReplayEnd ρ)
  | 0, _, _ => .ok ⟨[], none⟩
  | fuel + 1, cursor, remaining =>
    match nextFrame crc remaining with
    | .short => .ok ⟨[], none⟩
    | .torn => .ok ⟨[], some cursor⟩
    | .whole payload =>
      match codec.decode payload with
      | .error e => .error (.internal
          ("hint WAL protobuf decode failure at position " ++ toString cursor ++ ": " ++ e))
      | .ok record =>
        let endPosition := cursor + (payload.length + 8)
        (replayFrom fuel endPosition (remaining.drop (payload.length + 8))).map fun s =>
          ⟨⟨cursor, endPosition, record⟩ :: s.records, s.truncateTo⟩

/-- The result of a replay and the log it leaves. -/
def HintWal.replay (w : HintWal) : Except HintWalError (List (Replayed ρ)) × HintWal :=
  match replayFrom crc codec (w.file.length + 1) 0 w.file with
  | .error e => (.error e, w)
  | .ok s => (.ok s.records, s.truncateTo.elim w w.truncateAfter)

def HintWal.writeHints (w : HintWal) (rs : List ρ) : HintWal :=
  rs.foldl (fun w r => (w.writeHint crc codec r).1) w

end Code

/-! ### The frames of a file -/

section Frames

variable (crc : Bytes → UInt32) (codec : HintCodec ρ)

/-- The frame of a record. -/
def frameOf (r : ρ) : Bytes :=
  buildFrame crc (codec.encode r)

/-- A file with these records and nothing else. -/
def framesOf (rs : List ρ) : Bytes :=
  rs.flatMap (frameOf crc codec)

/-- The records as a replay returns them that starts at the given position. -/
def entriesFrom (cursor : ℕ) (rs : List ρ) : List (Replayed ρ) :=
  spans (fun r => (frameOf crc codec r).length) cursor rs

variable {crc codec}

@[simp] lemma length_buildFrame (payload : Bytes) :
    (buildFrame crc payload).length = payload.length + 8 := by
  simp only [buildFrame, length_append, length_leBytes]
  omega

lemma length_frameOf (r : ρ) : (frameOf crc codec r).length = (codec.encode r).length + 8 :=
  length_buildFrame _

@[simp] lemma framesOf_nil : framesOf crc codec [] = [] := rfl

@[simp] lemma framesOf_cons (r : ρ) (rs : List ρ) :
    framesOf crc codec (r :: rs) = frameOf crc codec r ++ framesOf crc codec rs := rfl

lemma framesOf_append (rs rs' : List ρ) :
    framesOf crc codec (rs ++ rs') = framesOf crc codec rs ++ framesOf crc codec rs' :=
  flatMap_append

lemma file_writeHints (w : HintWal) (rs : List ρ) :
    (w.writeHints crc codec rs).file = w.file ++ framesOf crc codec rs := by
  induction rs generalizing w with
  | nil => exact (append_nil _).symm
  | cons r rs ih =>
    have hstep : w.writeHints crc codec (r :: rs) =
        ((w.writeHint crc codec r).1).writeHints crc codec rs := rfl
    rw [hstep, ih, framesOf_cons, ← append_assoc]
    rfl

/-! ### One frame -/

lemma nextFrame_short {b : Bytes} (h : b.length < 8) : nextFrame crc b = .short :=
  if_pos h

lemma leNat_take_leBytes {n : ℕ} (hn : n < 256 ^ 4) (rest : Bytes) :
    leNat ((leBytes 4 n ++ rest).take 4) = n := by
  rw [take_left' (length_leBytes 4 n), leNat_leBytes hn]

lemma nextFrame_frameOf (r : ρ) (rest : Bytes) :
    nextFrame crc (frameOf crc codec r ++ rest) = .whole (codec.encode r) := by
  have hcrc : (crc (codec.encode r)).toNat < 256 ^ 4 := (crc (codec.encode r)).toNat_lt
  have hlen : leNat ((frameOf crc codec r ++ rest).take 4) = (codec.encode r).length := by
    rw [frameOf, buildFrame, append_assoc, append_assoc]
    exact leNat_take_leBytes (codec.length_encode_lt r) _
  have hpayload : ((frameOf crc codec r ++ rest).drop 4).take (codec.encode r).length =
      codec.encode r := by
    rw [frameOf, buildFrame, append_assoc, append_assoc, drop_left' (length_leBytes _ _), take_left]
  have hsum : leNat (((frameOf crc codec r ++ rest).drop (4 + (codec.encode r).length)).take 4) =
      (crc (codec.encode r)).toNat := by
    rw [frameOf, buildFrame, append_assoc, drop_left' (by rw [length_append, length_leBytes])]
    exact leNat_take_leBytes hcrc rest
  unfold nextFrame
  rw [if_neg (by rw [length_append, length_frameOf]; omega)]
  simp only [hlen, hpayload, hsum]
  rw [if_neg (by rw [length_append, length_frameOf]; omega), if_pos trivial]

lemma nextFrame_take {r : ρ} {p : ℕ} (hp : 8 ≤ p) (hlt : p < (frameOf crc codec r).length) :
    nextFrame crc ((frameOf crc codec r).take p) = .torn := by
  have hlength : ((frameOf crc codec r).take p).length = p :=
    length_take_of_le hlt.le
  have hlen : leNat (((frameOf crc codec r).take p).take 4) = (codec.encode r).length := by
    rw [take_take, Nat.min_eq_left (by omega), frameOf, buildFrame, append_assoc]
    exact leNat_take_leBytes (codec.length_encode_lt r) _
  rw [length_frameOf] at hlt
  unfold nextFrame
  rw [if_neg (by omega)]
  simp only [hlen, hlength]
  rw [if_pos (by omega)]

lemma take_append_drop_add (b : Bytes) (a n : ℕ) :
    (b.drop a).take n ++ b.drop (a + n) = b.drop a := by
  rw [← drop_drop, take_append_drop]

lemma eq_of_nextFrame {b payload : Bytes} (h : nextFrame crc b = .whole payload) :
    b = buildFrame crc payload ++ b.drop (payload.length + 8) := by
  unfold nextFrame at h
  split at h
  · cases h
  simp only at h
  split_ifs at h with hlong hcrc
  have hpayload := Frame.whole.inj h
  set n := leNat (b.take 4)
  have hlen : payload.length = n := by
    rw [← hpayload, length_take_of_le (by rw [length_drop]; omega)]
  have hhead : leBytes 4 payload.length = b.take 4 := by
    have h4 : (b.take 4).length = 4 := length_take_of_le (by omega)
    calc leBytes 4 payload.length = leBytes (b.take 4).length (leNat (b.take 4)) := by rw [h4, hlen]
      _ = b.take 4 := leBytes_leNat _
  have hsum : leBytes 4 (crc payload).toNat = (b.drop (4 + n)).take 4 := by
    have h4 : ((b.drop (4 + n)).take 4).length = 4 :=
      length_take_of_le (by rw [length_drop]; omega)
    calc leBytes 4 (crc payload).toNat =
          leBytes ((b.drop (4 + n)).take 4).length (leNat ((b.drop (4 + n)).take 4)) := by
            rw [h4, ← hcrc, hpayload]
      _ = (b.drop (4 + n)).take 4 := leBytes_leNat _
  rw [buildFrame, hhead, hsum, hlen, ← hpayload, show n + 8 = 4 + n + 4 by omega, append_assoc,
    append_assoc, take_append_drop_add, take_append_drop_add, take_append_drop]

/-! ### A replay -/

lemma replayFrom_short {b : Bytes} (h : b.length < 8) (fuel cursor : ℕ) :
    replayFrom crc codec (fuel + 1) cursor b = .ok ⟨[], none⟩ := by
  rw [replayFrom, nextFrame_short h]

lemma replayFrom_torn {b : Bytes} (h : nextFrame crc b = .torn) (fuel cursor : ℕ) :
    replayFrom crc codec (fuel + 1) cursor b = .ok ⟨[], some cursor⟩ := by
  rw [replayFrom, h]

lemma replayFrom_frames (rs : List ρ) (rest : Bytes) (fuel cursor : ℕ) :
    replayFrom crc codec (rs.length + fuel) cursor (framesOf crc codec rs ++ rest) =
      (replayFrom crc codec fuel (cursor + (framesOf crc codec rs).length) rest).map fun s =>
        ⟨entriesFrom crc codec cursor rs ++ s.records, s.truncateTo⟩ := by
  induction rs generalizing cursor with
  | nil =>
    simp only [length_nil, Nat.zero_add, framesOf_nil, nil_append, Nat.add_zero, entriesFrom, spans]
    cases replayFrom crc codec fuel cursor rest <;> rfl
  | cons r rs ih =>
    have hdrop : (frameOf crc codec r ++ (framesOf crc codec rs ++ rest)).drop
        ((codec.encode r).length + 8) = framesOf crc codec rs ++ rest :=
      drop_left' (length_frameOf r)
    rw [length_cons, Nat.add_right_comm, framesOf_cons, append_assoc, replayFrom, nextFrame_frameOf]
    simp only [codec.decode_encode, hdrop, ih, entriesFrom, spans, length_frameOf,
      length_append, Nat.add_assoc]
    cases replayFrom crc codec fuel
      (cursor + ((codec.encode r).length + (8 + (framesOf crc codec rs).length))) rest <;> rfl

lemma length_le_framesOf (crc : Bytes → UInt32) (codec : HintCodec ρ) (rs : List ρ) :
    rs.length ≤ (framesOf crc codec rs).length := by
  induction rs with
  | nil => exact Nat.zero_le _
  | cons r rs ih =>
    rw [framesOf_cons, length_append, length_frameOf, length_cons]
    omega

lemma replay_append {w : HintWal} {rs : List ρ} {rest : Bytes}
    (hfile : w.file = framesOf crc codec rs ++ rest) :
    ∃ fuel, rest.length ≤ fuel ∧ w.replay crc codec =
      match replayFrom crc codec (fuel + 1) (framesOf crc codec rs).length rest with
      | .error e => (.error e, w)
      | .ok s => (.ok (entriesFrom crc codec 0 rs ++ s.records),
          s.truncateTo.elim w w.truncateAfter) := by
  have hle := length_le_framesOf crc codec rs
  have hlength : w.file.length = (framesOf crc codec rs).length + rest.length := by
    rw [hfile, length_append]
  refine ⟨w.file.length - rs.length, by omega, ?_⟩
  rw [HintWal.replay, show w.file.length + 1 = rs.length + (w.file.length - rs.length + 1) by omega,
    hfile, replayFrom_frames, Nat.zero_add]
  cases replayFrom crc codec _ (framesOf crc codec rs).length rest <;> rfl

lemma replay_of_short {w : HintWal} {rs : List ρ} (rest : Bytes)
    (hfile : w.file = framesOf crc codec rs ++ rest) (hshort : rest.length < 8) :
    w.replay crc codec = (.ok (entriesFrom crc codec 0 rs), w) := by
  obtain ⟨fuel, -, hreplay⟩ := replay_append hfile
  rw [hreplay, replayFrom_short hshort]
  simp

lemma replay_of_torn {w : HintWal} {rs : List ρ} {rest : Bytes}
    (hfile : w.file = framesOf crc codec rs ++ rest) (htorn : nextFrame crc rest = .torn) :
    w.replay crc codec = (.ok (entriesFrom crc codec 0 rs),
      ⟨framesOf crc codec rs, (framesOf crc codec rs).length⟩) := by
  obtain ⟨fuel, -, hreplay⟩ := replay_append hfile
  rw [hreplay, replayFrom_torn htorn]
  simp [HintWal.truncateAfter, hfile]

end Frames

/-! ### Torn tails -/

section TornTail

variable (crc : Bytes → UInt32) (codec : HintCodec ρ)

/-- The file after a crash in the middle of a write: `p` bytes of the frame are there. -/
def crashedFile (first : List ρ) (t : ρ) (p : ℕ) : Bytes :=
  ((HintWal.openFile []).writeHints crc codec first).file ++
    (buildFrame crc (codec.encode t)).take p

/-- The file when the node has started again and has written more hints. -/
def continuedFile (first : List ρ) (t : ρ) (p : ℕ) (second : List ρ) : Bytes :=
  ((((HintWal.openFile (crashedFile crc codec first t p)).replay crc codec).2).writeHints
    crc codec second).file

/-- The next start returns exactly the hints whose writes came to their end. -/
def TornTailHeals (first : List ρ) (t : ρ) (p : ℕ) (second : List ρ) : Prop :=
  ((HintWal.openFile (continuedFile crc codec first t p second)).replay crc codec).1.map
    (List.map Replayed.record) = .ok (first ++ second)

/-- The strings that pass for payloads where a replay looks for them. -/
def accepted : ℕ → Bytes → List Bytes
  | 0, _ => []
  | fuel + 1, b =>
    match nextFrame crc b with
    | .whole payload => payload :: accepted fuel (b.drop (payload.length + 8))
    | _ => []

/-- The checksum has no collisions on the strings that a replay of the file considers: only the
payload of a record passes for one. -/
def CrcDetects (records : List ρ) (file : Bytes) : Prop :=
  accepted crc (file.length + 1) file ⊆ records.map codec.encode

instance [DecidableEq ρ] (first : List ρ) (t : ρ) (p : ℕ) (second : List ρ) :
    Decidable (TornTailHeals crc codec first t p second) :=
  inferInstanceAs (Decidable (_ = _))

instance (records : List ρ) (file : Bytes) : Decidable (CrcDetects crc codec records file) :=
  inferInstanceAs (Decidable (accepted crc (file.length + 1) file ⊆ records.map codec.encode))

variable {crc codec} {first second : List ρ} {t : ρ} {p : ℕ}

lemma crashedFile_eq : crashedFile crc codec first t p =
    framesOf crc codec first ++ (frameOf crc codec t).take p := by
  rw [crashedFile, file_writeHints]
  rfl

/-- A part of at least eight bytes is gone, a shorter one is followed by the new frames. -/
lemma continuedFile_eq (first second : List ρ) (hp : p < (frameOf crc codec t).length) :
    continuedFile crc codec first t p second = framesOf crc codec first ++
      ((if 8 ≤ p then [] else (frameOf crc codec t).take p) ++ framesOf crc codec second) := by
  have hfile : (HintWal.openFile (crashedFile crc codec first t p)).file =
      framesOf crc codec first ++ (frameOf crc codec t).take p := crashedFile_eq
  rw [continuedFile, file_writeHints]
  split_ifs with h8
  · rw [replay_of_torn hfile (nextFrame_take h8 hp), nil_append]
  · rw [replay_of_short _ hfile (by rw [length_take_of_le hp.le]; omega)]
    simp only [hfile, append_assoc]

lemma frames_of_replayFrom {records : List ρ} {fuel cursor : ℕ} {b : Bytes} {s : ReplayEnd ρ}
    (h : replayFrom crc codec fuel cursor b = .ok s)
    (hdetects : accepted crc fuel b ⊆ records.map codec.encode) :
    framesOf crc codec (s.records.map Replayed.record) <+: b := by
  induction fuel generalizing cursor b s with
  | zero =>
    obtain rfl := Except.ok.inj h
    exact nil_prefix
  | succ fuel ih =>
    rw [replayFrom] at h
    rw [accepted] at hdetects
    cases hframe : nextFrame crc b with
    | short =>
      rw [hframe] at h
      obtain rfl := Except.ok.inj h
      exact nil_prefix
    | torn =>
      rw [hframe] at h
      obtain rfl := Except.ok.inj h
      exact nil_prefix
    | whole payload =>
      rw [hframe] at h hdetects
      simp only [cons_subset] at hdetects
      obtain ⟨r, -, rfl⟩ := mem_map.mp hdetects.1
      simp only [codec.decode_encode] at h
      cases hrest : replayFrom crc codec fuel (cursor + ((codec.encode r).length + 8))
          (b.drop ((codec.encode r).length + 8)) with
      | error e => rw [hrest] at h; cases h
      | ok s' =>
        rw [hrest] at h
        obtain rfl := Except.ok.inj h
        obtain ⟨rest, hprefix⟩ := ih hrest hdetects.2
        refine ⟨rest, ?_⟩
        simp only [map_cons, framesOf_cons, append_assoc, hprefix]
        exact (eq_of_nextFrame hframe).symm

lemma heals_of_short (rest : Bytes) (hfile : continuedFile crc codec first t p second =
    framesOf crc codec (first ++ second) ++ rest) (hshort : rest.length < 8) :
    TornTailHeals crc codec first t p second := by
  have hopen : (HintWal.openFile (continuedFile crc codec first t p second)).file =
      framesOf crc codec (first ++ second) ++ rest := hfile
  rw [TornTailHeals, replay_of_short rest hopen hshort]
  exact congrArg Except.ok (records_spans _ 0 _)

lemma frames_prefix_of_heals (h : TornTailHeals crc codec first t p second)
    (hdetects : CrcDetects crc codec (first ++ t :: second)
      (continuedFile crc codec first t p second)) :
    framesOf crc codec (first ++ second) <+: continuedFile crc codec first t p second := by
  rw [TornTailHeals, HintWal.replay] at h
  cases hreplay : replayFrom crc codec
      ((continuedFile crc codec first t p second).length + 1) 0
      (continuedFile crc codec first t p second) with
  | error e =>
    simp only [HintWal.openFile, hreplay] at h
    cases h
  | ok s =>
    simp only [HintWal.openFile, hreplay] at h
    have hrecords : s.records.map Replayed.record = first ++ second := Except.ok.inj h
    rw [← hrecords]
    exact frames_of_replayFrom hreplay hdetects

/-- A torn tail heals when nothing of the frame or at least eight bytes of it are there. A
shorter part stays in front of the frames that are written next, and these are then returned
only if shifting them by the part gives them again. -/
theorem torn_tail_heals_iff (crc : Bytes → UInt32) (codec : HintCodec ρ) (first second : List ρ)
    (t : ρ) (p : ℕ) (hp : p < (frameOf crc codec t).length)
    (hdetects : CrcDetects crc codec (first ++ t :: second)
      (continuedFile crc codec first t p second)) :
    TornTailHeals crc codec first t p second ↔
      p = 0 ∨ 8 ≤ p ∨
        framesOf crc codec second <+:
          (frameOf crc codec t).take p ++ framesOf crc codec second := by
  have hfile := continuedFile_eq first second hp
  by_cases hcut : p = 0 ∨ 8 ≤ p
  · -- the file has whole frames only
    refine ⟨fun _ => hcut.imp_right .inl, fun _ => heals_of_short [] ?_ (by decide)⟩
    rw [hfile, framesOf_append, append_nil]
    rcases hcut with rfl | h8
    · simp
    · rw [if_pos h8, nil_append]
  · push Not at hcut
    rw [if_neg (by omega)] at hfile
    constructor
    · intro h
      have hprefix := frames_prefix_of_heals h hdetects
      rw [hfile, framesOf_append, prefix_append_right_inj] at hprefix
      exact .inr (.inr hprefix)
    · rintro (h | h | ⟨rest, hrest⟩)
      · omega
      · omega
      · have hlength := congrArg List.length hrest
        rw [length_append, length_append, length_take_of_le hp.le] at hlength
        refine heals_of_short rest ?_ (by omega)
        rw [hfile, framesOf_append, ← hrest, append_assoc]

/-- Records of one byte, with their value as the checksum of a payload. -/
def byteCodec : HintCodec UInt8 where
  encode r := [r]
  decode b := match b with
    | [r] => .ok r
    | _ => .error "invalid wire type"
  decode_encode _ := rfl
  length_encode_lt _ := by simp

def byteSum (b : Bytes) : UInt32 :=
  b.foldl (fun n x => 31 * n + x.toUInt32) 7

theorem torn_frame_cut : TornTailHeals byteSum byteCodec [1, 2] 3 8 [4, 5] :=
  (torn_tail_heals_iff byteSum byteCodec [1, 2] [4, 5] 3 8 (by decide) (by decide)).mpr
    (.inr (.inl (by decide)))

/-- One byte of a frame is left, and the hint that is written next is lost. -/
theorem short_remainder_shifts_frames : ¬ ∀ (first second : List UInt8) (t : UInt8) (p : ℕ),
    p < (frameOf byteSum byteCodec t).length →
    CrcDetects byteSum byteCodec (first ++ t :: second)
      (continuedFile byteSum byteCodec first t p second) →
    TornTailHeals byteSum byteCodec first t p second := by
  intro h
  exact absurd (h [] [6] 5 1 (by decide) (by decide)) (by decide)

end TornTail

end OceanFs.Durability
