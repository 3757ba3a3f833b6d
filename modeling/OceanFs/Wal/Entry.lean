import OceanFs.Segment.EventRecord

/-!
Entries of the data WAL and their layout.

An entry is a header of 88 bytes followed by the data. The header ends with a checksum of the
fields before it, in which the three reserved bytes count as zero; the data has no checksum that
the reader checks.
-/

namespace OceanFs.Wal

open OceanFs.Core Lib.Bytes Segment List

structure WalEntry where
  segmentId : SegmentId
  offset : ℕ
  length : ℕ
  logicalLength : ℕ
  /-- The pool that the entry goes to: 0 for small segments, 1 for standard ones. -/
  tier : UInt8
  hlcWallTime : ℕ
  hlcLogical : ℕ
  checksum : HashOutput
  data : Bytes
  deriving DecidableEq

def walEntryMagic : Bytes := [87, 65, 76, 1]

def headerSize : ℕ := 88

namespace WalEntry

variable (e : WalEntry)

/-- The fields that the checksum of the header covers. -/
def crcFields : Bytes :=
  walEntryMagic ++ (leBytes 16 e.segmentId ++ (leBytes 8 e.offset ++ (leBytes 4 e.length ++
    (leBytes 4 e.logicalLength ++ (e.tier :: ([0, 0, 0] ++ (leBytes 8 e.hlcWallTime ++
      (leBytes 4 e.hlcLogical ++ e.checksum.val))))))))

variable (crc : Bytes → UInt32)

def toHeaderBytes : Bytes :=
  e.crcFields ++ leBytes 4 (crc e.crcFields).toNat

def toBytes : Bytes :=
  e.toHeaderBytes crc ++ e.data

def serializedSize : ℕ := headerSize + e.data.length

/-- A header without its data; the reserved bytes are passed over. -/
def fromHeaderBytes (header : Bytes) : Option WalEntry := do
  let (magic, b) ← takeBytes 4 header
  guard (magic = walEntryMagic)
  let (segmentId, b) ← readNat 16 b
  let (offset, b) ← readNat 8 b
  let (length, b) ← readNat 4 b
  let (logicalLength, b) ← readNat 4 b
  let (tier, b) ← takeBytes 1 b
  let (_, b) ← takeBytes 3 b
  let (hlcWallTime, b) ← readNat 8 b
  let (hlcLogical, b) ← readNat 4 b
  let (checksum, b) ← readHash b
  let (stored, _) ← readNat 4 b
  let e : WalEntry :=
    { segmentId, offset, length, logicalLength, tier := tier.headD 0, hlcWallTime, hlcLogical,
      checksum, data := [] }
  guard (stored = (crc e.crcFields).toNat)
  return e

/-- The numbers are within the integer types of the source, and the length is that of the data. -/
def InRange : Prop :=
  e.segmentId < 256 ^ 16 ∧ e.offset < 256 ^ 8 ∧ e.length < 256 ^ 4 ∧ e.logicalLength < 256 ^ 4 ∧
    e.hlcWallTime < 256 ^ 8 ∧ e.hlcLogical < 256 ^ 4 ∧ e.data.length = e.length

instance (e : WalEntry) : Decidable e.InRange :=
  inferInstanceAs (Decidable (_ ∧ _ ∧ _ ∧ _ ∧ _ ∧ _ ∧ _))

variable {crc}

lemma length_toHeaderBytes : (e.toHeaderBytes crc).length = headerSize := by
  simp [toHeaderBytes, crcFields, walEntryMagic, headerSize, e.checksum.property]

lemma length_toBytes : (e.toBytes crc).length = e.serializedSize := by
  rw [toBytes, length_append, length_toHeaderBytes, serializedSize]

theorem fromHeaderBytes_toHeaderBytes {e : WalEntry} (h : e.InRange) :
    fromHeaderBytes crc (e.toHeaderBytes crc) = some { e with data := [] } := by
  obtain ⟨hseg, hoff, hlen, hlog, hwall, hlogical, -⟩ := h
  have hmagic : ∀ rest : Bytes, takeBytes 4 (walEntryMagic ++ rest) = some (walEntryMagic, rest) :=
    takeBytes_append rfl
  have htier : ∀ rest : Bytes, takeBytes 1 (e.tier :: rest) = some ([e.tier], rest) := fun rest =>
    @takeBytes_append _ 1 [e.tier] rfl rest
  have hreserved : ∀ rest : Bytes, takeBytes 3 (0 :: 0 :: 0 :: rest) = some ([0, 0, 0], rest) :=
    fun rest => @takeBytes_append _ 3 [0, 0, 0] rfl rest
  have hcrc : readNat 4 (leBytes 4 (crc e.crcFields).toNat) =
      some ((crc e.crcFields).toNat, []) := by
    have hlt : (crc e.crcFields).toNat < 256 ^ 4 := UInt32.toNat_lt _
    rw [← append_nil (leBytes 4 _), readNat_append hlt]
  have hfields : ({ e with data := [] } : WalEntry).crcFields = e.crcFields := rfl
  rw [fromHeaderBytes, toHeaderBytes]
  nth_rewrite 1 [crcFields]
  simp only [append_assoc, cons_append, nil_append, hmagic, htier, hreserved,
    readNat_append hseg, readNat_append hoff, readNat_append hlen, readNat_append hlog,
    readNat_append hwall, readNat_append hlogical, readHash_append, Option.bind_eq_bind,
    Option.bind_some, guard_true, Option.pure_def, hcrc, headD_cons, hfields]

end WalEntry

/-! ### The checksum -/

def crc32Bit (c : ℕ) : ℕ :=
  if c % 2 = 1 then (c / 2) ^^^ 0xEDB88320 else c / 2

def crc32Byte (c : ℕ) (b : UInt8) : ℕ :=
  Nat.iterate crc32Bit 8 (c ^^^ b.toNat)

/-- The remainder after more bytes; it is taken apart so that it is a number before the next
byte. -/
def crc32Bytes : ℕ → Bytes → ℕ
  | c, [] => c
  | 0, b :: bs => crc32Bytes (crc32Byte 0 b) bs
  | c + 1, b :: bs => crc32Bytes (crc32Byte (c + 1) b) bs

/-- CRC-32, as `crc32fast` computes it. -/
def crc32 (b : Bytes) : UInt32 :=
  UInt32.ofNat (crc32Bytes 0xFFFFFFFF b ^^^ 0xFFFFFFFF)

example : crc32 [49, 50, 51, 52, 53, 54, 55, 56, 57] = 0xCBF43926 := by decide +kernel

end OceanFs.Wal
