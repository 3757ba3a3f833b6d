import OceanFs.Segment.EventRecord

/-!
The file of a sealed segment as bytes: the header, the data section behind it, and what follows.

The header has 76 bytes in the first version of the format and 92 in the second, so where the
data section starts depends on the file. A file that the store writes anew, for a repair or a move
to another pool, has a header of the first version whatever the old one had.
-/

namespace OceanFs.Segment

open OceanFs.Core Lib.Bytes List

def segmentMagic : Bytes := [79, 70, 83, 71]
def segmentVersion : ℕ := 2
def segmentHeaderSize : ℕ := 92
def segmentHeaderSizeV1 : ℕ := 76

/-- Without the magic bytes, which are always the same. -/
structure SegmentHeader where
  version : ℕ
  segmentId : SegmentId
  size : ℕ
  blobCount : ℕ
  indexOffset : ℕ
  checksum : HashOutput
  parityOffset : ℕ
  paritySize : ℕ
  deriving DecidableEq

namespace SegmentHeader

/-- The two fields that only the second version has. -/
def parityFields (version len : ℕ) (b : Bytes) : ℕ × ℕ :=
  if segmentVersion ≤ version ∧ segmentHeaderSize ≤ len then
    (leNat (b.take 8), leNat ((b.drop 8).take 8))
  else (0, 0)

/-- `SegmentHeader::from_bytes`. -/
def fromBytes (data : Bytes) : Option SegmentHeader := do
  guard (segmentHeaderSizeV1 ≤ data.length)
  let (magic, b) ← takeBytes 4 data
  guard (magic = segmentMagic)
  let (version, b) ← readNat 2 b
  let (id, b) ← readNat 16 b
  let (size, b) ← readNat 8 b
  let (blobCount, b) ← readNat 4 b
  let (indexOffset, b) ← readNat 8 b
  let (checksum, b) ← readHash b
  let (parityOffset, paritySize) := parityFields version data.length b
  return ⟨version, id, size, blobCount, indexOffset, checksum, parityOffset, paritySize⟩

/-- `to_bytes`, always in the layout of the second version. -/
def toBytes (h : SegmentHeader) : Bytes :=
  segmentMagic ++ leBytes 2 h.version ++ leBytes 16 h.segmentId ++ leBytes 8 h.size ++
    leBytes 4 h.blobCount ++ leBytes 8 h.indexOffset ++ h.checksum.val ++
    leBytes 8 h.parityOffset ++ leBytes 8 h.paritySize ++ leBytes 2 0

def headerSize (version : ℕ) : ℕ :=
  if segmentVersion ≤ version then segmentHeaderSize else segmentHeaderSizeV1

def serializedSize (h : SegmentHeader) : ℕ := headerSize h.version

def dataEnd (h : SegmentHeader) : ℕ :=
  if 0 < h.parityOffset then h.parityOffset else h.indexOffset

end SegmentHeader

/-- The buffer of 128 bytes that the start of a file is read into. -/
def headerBuf (bytes : Bytes) : Bytes := bytes.take 128 ++ List.replicate (128 - bytes.length) 0

/-- `SegmentFileReader::verify_header`. -/
def verifyHeader (bytes : Bytes) : Option SegmentHeader :=
  if bytes.length < segmentHeaderSizeV1 then none else SegmentHeader.fromBytes (headerBuf bytes)

/-! ### Files that are not damaged -/

section

variable (blake3 : Bytes → HashOutput)

/-- A file that is not damaged: its header is read, the sections are where the header says and
the checksum over data and parity is right, so verification answers that nothing was repaired. -/
structure DatFile where
  bytes : Bytes
  header : SegmentHeader
  parsed : verifyHeader bytes = some header
  dataEnd_eq : header.dataEnd = header.serializedSize + header.size
  fits : header.dataEnd + header.paritySize ≤ bytes.length
  checksum_eq : blake3 ((bytes.drop header.serializedSize).take (header.size + header.paritySize)) =
    header.checksum
  deriving DecidableEq

end

namespace DatFile

variable {blake3 : Bytes → HashOutput}

def headerLen (f : DatFile blake3) : ℕ := f.header.serializedSize

/-- The data section. -/
def data (f : DatFile blake3) : Bytes := (f.bytes.drop f.headerLen).take f.header.size

end DatFile

/-! ### Files that the store writes -/

section

variable (blake3 : Bytes → HashOutput)

/-- `v1_header_bytes`. The segment id is left zero. -/
def v1HeaderBytes (data : Bytes) : Bytes :=
  segmentMagic ++ leBytes 2 1 ++ leBytes 16 0 ++ leBytes 8 data.length ++ leBytes 4 0 ++
    leBytes 8 (segmentHeaderSizeV1 + data.length) ++ (blake3 data).val ++ leBytes 2 0

@[simp] lemma length_v1HeaderBytes (data : Bytes) :
    (v1HeaderBytes blake3 data).length = segmentHeaderSizeV1 := by
  simp [v1HeaderBytes, segmentMagic, segmentHeaderSizeV1, (blake3 data).2]

/-- The header that the bytes stand for. -/
def v1Header (data : Bytes) : SegmentHeader where
  version := 1
  segmentId := 0
  size := data.length
  blobCount := 0
  indexOffset := segmentHeaderSizeV1 + data.length
  checksum := blake3 data
  parityOffset := 0
  paritySize := 0

lemma parityFields_one (len : ℕ) (b : Bytes) : SegmentHeader.parityFields 1 len b = (0, 0) := by
  rw [SegmentHeader.parityFields, if_neg (by simp [segmentVersion])]

lemma fromBytes_v1HeaderBytes {data : Bytes} (h : segmentHeaderSizeV1 + data.length < 256 ^ 8)
    (rest : Bytes) :
    SegmentHeader.fromBytes (v1HeaderBytes blake3 data ++ rest) = some (v1Header blake3 data) := by
  have hlen : segmentHeaderSizeV1 ≤ (v1HeaderBytes blake3 data ++ rest).length := by
    rw [length_append, length_v1HeaderBytes]
    exact Nat.le_add_right _ _
  have hsize : data.length < 256 ^ 8 := Nat.lt_of_le_of_lt (Nat.le_add_left _ _) h
  have hmagic (b : Bytes) : takeBytes 4 (segmentMagic ++ b) = some (segmentMagic, b) :=
    takeBytes_append (show segmentMagic.length = 4 from rfl) b
  have hversion (b : Bytes) : readNat 2 (leBytes 2 1 ++ b) = some (1, b) :=
    readNat_append (by decide) b
  have hzero (w : ℕ) (b : Bytes) : readNat w (leBytes w 0 ++ b) = some (0, b) :=
    readNat_append (Nat.pow_pos (by decide)) b
  have hbytes : v1HeaderBytes blake3 data ++ rest = segmentMagic ++ (leBytes 2 1 ++ (leBytes 16 0 ++
      (leBytes 8 data.length ++ (leBytes 4 0 ++ (leBytes 8 (segmentHeaderSizeV1 + data.length) ++
        ((blake3 data).val ++ (leBytes 2 0 ++ rest))))))) := by
    simp only [v1HeaderBytes, append_assoc]
  rw [SegmentHeader.fromBytes, guard, if_pos hlen, hbytes]
  simp only [Option.pure_def, Option.bind_eq_bind, Option.bind_some, hmagic, guard_true, hversion,
    hzero, readNat_append hsize, readNat_append h, readHash_append, parityFields_one]
  rfl

/-- What `write_dat_atomic` writes. With O_DIRECT the file is filled up to a block of 512 bytes. -/
def v1FileBytes (direct : Bool) (data : Bytes) : Bytes :=
  let total := segmentHeaderSizeV1 + data.length
  v1HeaderBytes blake3 data ++ data ++
    List.replicate (if direct then (512 - total % 512) % 512 else 0) 0

lemma verifyHeader_v1FileBytes (direct : Bool) {data : Bytes}
    (h : segmentHeaderSizeV1 + data.length < 256 ^ 8) :
    verifyHeader (v1FileBytes blake3 direct data) = some (v1Header blake3 data) := by
  have hlen : ¬ (v1FileBytes blake3 direct data).length < segmentHeaderSizeV1 := by
    simp only [v1FileBytes, length_append, length_v1HeaderBytes]
    omega
  have htake (b : Bytes) : (v1HeaderBytes blake3 data ++ b).take 128 =
      v1HeaderBytes blake3 data ++ b.take (128 - segmentHeaderSizeV1) := by
    rw [take_append, length_v1HeaderBytes,
      take_of_length_le (by rw [length_v1HeaderBytes]; decide)]
  rw [verifyHeader, if_neg hlen, headerBuf, v1FileBytes, append_assoc, htake,
    append_assoc, fromBytes_v1HeaderBytes blake3 h]

/-- The file that a whole-file write leaves. The store reads at most `u32::MAX` bytes of data. -/
def v1File (direct : Bool) (data : Bytes) (h : data.length < 2 ^ 32) : DatFile blake3 where
  bytes := v1FileBytes blake3 direct data
  header := v1Header blake3 data
  parsed := verifyHeader_v1FileBytes blake3 direct (by
    have : segmentHeaderSizeV1 = 76 := rfl
    omega)
  dataEnd_eq := rfl
  fits := by
    simp [v1FileBytes, v1Header, SegmentHeader.dataEnd]
  checksum_eq := by
    have hsize : (v1Header blake3 data).serializedSize = (v1HeaderBytes blake3 data).length := by
      rw [length_v1HeaderBytes]
      rfl
    rw [hsize, v1FileBytes, append_assoc, drop_left]
    simp [v1Header]

@[simp] lemma data_v1File (direct : Bool) (data : Bytes) (h : data.length < 2 ^ 32) :
    (v1File blake3 direct data h).data = data := by
  have hsize : (v1File blake3 direct data h).headerLen = (v1HeaderBytes blake3 data).length := by
    rw [length_v1HeaderBytes]
    rfl
  rw [DatFile.data, hsize]
  simp [v1File, v1FileBytes, v1Header]

end

end OceanFs.Segment
