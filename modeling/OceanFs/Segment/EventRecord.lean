import Mathlib.Data.Option.Basic
import OceanFs.Lib.Bytes
import OceanFs.Segment.EventCheckpoint

/-!
The records of the event log: how an event is laid out in bytes, and what the decoder makes of
them.

A record is a header with the kind and the segment, a payload and a checksum. The writer stores
counts and lengths in as many bits as the format has for them and looks at no limit; the decoder
rejects what is over the limits of the format. A list of contained objects that is empty or too
long is left out of the record of a seal.
-/

namespace OceanFs.Segment

open OceanFs.Core Lib.Bytes List Option

/-- What the record format takes from elsewhere: the checksum, the names of nodes as UTF-8, and
the serialization of a list of contained objects. -/
structure Codecs where
  crc : Bytes → UInt32
  nodeName : NodeId → Bytes
  nodeOf : Bytes → Option NodeId
  /-- A node id is its name. -/
  nodeOf_eq_some : ∀ b n, nodeOf b = some n ↔ nodeName n = b
  serialize : List ContainedObject → Bytes
  deserialize : Bytes → Option (List ContainedObject)
  deserialize_serialize : ∀ l, deserialize (serialize l) = some l

def eventRecordMagic : Bytes := [69, 86, 76, 1]
def eventRecordVersion : UInt8 := 1
def eventRecordHeaderSize : ℕ := 28

def sealFlagRepackedFrom : UInt8 := 1
def sealFlagPoolId : UInt8 := 2
def sealFlagContainedObjects : UInt8 := 4

def refreshFlagMerkleRoot : UInt8 := 1
def refreshFlagLocations : UInt8 := 2
def refreshFlagPoolId : UInt8 := 4

def refreshMaxLocations : ℕ := 16
def refreshMaxNodeIdLen : ℕ := 255

/-- The seal payload with every section, and a tail of the largest size. -/
def maxPayloadSize : ℕ := 56 + 16 + 4 + 4 + sealMaxContainedTailBytes

def kindReserve : UInt8 := 0
def kindSeal : UInt8 := 1
def kindDelete : UInt8 := 2
def kindMetadataRefresh : UInt8 := 3

def tierToU8 : SizeTier → UInt8
  | .inline => 0
  | .small => 1
  | .standard => 2
  | .multi => 3

def tierFromU8 (b : UInt8) : Option SizeTier :=
  if b = 0 then some .inline
  else if b = 1 then some .small
  else if b = 2 then some .standard
  else if b = 3 then some .multi
  else none

/-- The flags byte: `base`, with a bit for each section that is there. -/
def withFlag (present : Bool) (bit base : UInt8) : UInt8 :=
  if present then base ||| bit else base

/-! ### Writing -/

section

variable (C : Codecs)

/-- The tail of a seal: dropped when there are no objects, or too many of them. -/
def containedBlob (evt : SealEvent) : Option (List ContainedObject) :=
  evt.containedObjects.filter fun l =>
    l ≠ [] ∧ (C.serialize l).length ≤ sealMaxContainedTailBytes

def containedTail (l : List ContainedObject) : Bytes :=
  leBytes 4 (C.serialize l).length ++ C.serialize l

def sealFlags (evt : SealEvent) : UInt8 :=
  withFlag (containedBlob C evt).isSome sealFlagContainedObjects
    (withFlag evt.repackedFrom.isSome sealFlagRepackedFrom sealFlagPoolId)

def location (n : NodeId) : Bytes :=
  UInt8.ofNat (C.nodeName n).length :: C.nodeName n

def locationsSection (l : List NodeId) : Bytes :=
  UInt8.ofNat l.length :: (l.map (location C)).flatten

def refreshFlags (evt : MetadataRefreshEvent) : UInt8 :=
  withFlag evt.poolId.isSome refreshFlagPoolId
    (withFlag evt.storageLocations.isSome refreshFlagLocations
      (withFlag evt.merkleRoot.isSome refreshFlagMerkleRoot 0))

namespace SegmentEvent

def kind : SegmentEvent → UInt8
  | .reserve _ => kindReserve
  | .seal _ => kindSeal
  | .delete _ => kindDelete
  | .metadataRefresh _ => kindMetadataRefresh

def payload : SegmentEvent → Bytes
  | .reserve evt => [tierToU8 evt.tier, evt.ecK, evt.ecM, 0]
  | .seal evt =>
    tierToU8 evt.tier :: evt.ecK :: evt.ecM :: sealFlags C evt ::
      (evt.merkleRoot.val ++ (leBytes 4 (ofLex evt.dataWalPos).1 ++
        (leBytes 8 (ofLex evt.dataWalPos).2 ++ (leBytes 8 evt.totalBytes ++
          (evt.repackedFrom.elim [] (leBytes 16) ++ (leBytes 4 evt.poolId ++
            (containedBlob C evt).elim [] (containedTail C)))))))
  | .delete _ => []
  | .metadataRefresh evt =>
    refreshFlags evt :: (evt.merkleRoot.elim [] (·.val) ++
      (evt.storageLocations.elim [] (locationsSection C) ++ evt.poolId.elim [] (leBytes 4)))

/-- The 16 bytes of a segment id are those of its number. -/
def header (evt : SegmentEvent) : Bytes :=
  eventRecordMagic ++ eventRecordVersion :: evt.kind :: 0 :: 0 ::
    (leBytes 4 (evt.payload C).length ++ leBytes 16 evt.segmentId)

def toRecordBytes (evt : SegmentEvent) : Bytes :=
  evt.header C ++ (evt.payload C ++
    leBytes 4 (C.crc (evt.header C ++ evt.payload C)).toNat)

end SegmentEvent

/-! ### Decoding -/

def hashFromBytes (b : Bytes) : Option HashOutput :=
  if h : b.length = 32 then some ⟨b, h⟩ else none

def readHash (b : Bytes) : Option (HashOutput × Bytes) := do
  let (hash, rest) ← takeBytes 32 b
  return (← hashFromBytes hash, rest)

def readContained (b : Bytes) : Option (List ContainedObject × Bytes) := do
  let (blobLen, rest) ← readNat 4 b
  guard (blobLen ≤ sealMaxContainedTailBytes)
  let (blob, rest) ← takeBytes blobLen rest
  return (← C.deserialize blob, rest)

def readNodes : ℕ → Bytes → Option (List NodeId × Bytes)
  | 0, b => some ([], b)
  | _ + 1, [] => none
  | count + 1, len :: b => do
    let (name, rest) ← takeBytes len.toNat b
    guard (len.toNat ≤ refreshMaxNodeIdLen)
    let node ← C.nodeOf name
    let (nodes, rest) ← readNodes count rest
    return (node :: nodes, rest)

def readLocations : Bytes → Option (List NodeId × Bytes)
  | [] => none
  | count :: b => do
    guard (count.toNat ≤ refreshMaxLocations)
    readNodes C count.toNat b

def decodeReserve (id : SegmentId) : Bytes → Option SegmentEvent
  | [tier, ecK, ecM, _] => (tierFromU8 tier).map fun tier => .reserve ⟨id, tier, ecK, ecM⟩
  | _ => none

/-- The fields before the first optional section are the 56 bytes that a seal has at least. -/
def decodeSeal (id : SegmentId) : Bytes → Option SegmentEvent
  | tier :: ecK :: ecM :: flags :: b => do
    guard (flags &&& ~~~(sealFlagRepackedFrom ||| sealFlagPoolId ||| sealFlagContainedObjects) = 0)
    guard (flags &&& sealFlagPoolId ≠ 0)
    let (merkleRoot, b) ← readHash b
    let (fileSeq, b) ← readNat 4 b
    let (offset, b) ← readNat 8 b
    let (totalBytes, b) ← readNat 8 b
    let (repackedFrom, b) ← flagged (flags &&& sealFlagRepackedFrom ≠ 0) (readNat 16) b
    let (poolId, b) ← readNat 4 b
    let (contained, b) ← flagged (flags &&& sealFlagContainedObjects ≠ 0) (readContained C) b
    guard (b = [])
    let tier ← tierFromU8 tier
    return .seal ⟨id, tier, ecK, ecM, merkleRoot, toLex (fileSeq, offset), totalBytes, repackedFrom,
      poolId, contained⟩
  | _ => none

def decodeRefresh (id : SegmentId) : Bytes → Option SegmentEvent
  | [] => none
  | flags :: b =>
    if b.length = 0 ∧ flags = 0 then some (.metadataRefresh ⟨id, none, none, none⟩)
    else if b.length = 32 ∧ flags = 1 then
      (hashFromBytes b).map fun root => .metadataRefresh ⟨id, some root, none, none⟩
    else if flags &&& (refreshFlagLocations ||| refreshFlagPoolId) ≠ 0 then do
      guard (flags &&&
        ~~~(refreshFlagMerkleRoot ||| refreshFlagLocations ||| refreshFlagPoolId) = 0)
      let (merkleRoot, b) ← flagged (flags &&& refreshFlagMerkleRoot ≠ 0) readHash b
      let (locations, b) ← flagged (flags &&& refreshFlagLocations ≠ 0) (readLocations C) b
      let (poolId, b) ← flagged (flags &&& refreshFlagPoolId ≠ 0) (readNat 4) b
      guard (b = [])
      return .metadataRefresh ⟨id, merkleRoot, locations, poolId⟩
    else none

def decodePayload (kind : UInt8) (id : SegmentId) (payload : Bytes) : Option SegmentEvent :=
  if kind = kindReserve then decodeReserve id payload
  else if kind = kindSeal then decodeSeal C id payload
  else if kind = kindDelete then if payload = [] then some (.delete id) else none
  else if kind = kindMetadataRefresh then decodeRefresh C id payload
  else none

/-! ### Limits of the format -/

namespace SegmentEvent

/-- The numbers are within the integer types of the source. -/
def InRange : SegmentEvent → Prop
  | .reserve evt => evt.segmentId < 256 ^ 16
  | .seal evt => evt.segmentId < 256 ^ 16 ∧ (ofLex evt.dataWalPos).1 < 256 ^ 4 ∧
      (ofLex evt.dataWalPos).2 < 256 ^ 8 ∧ evt.totalBytes < 256 ^ 8 ∧
      (∀ old ∈ evt.repackedFrom, old < 256 ^ 16) ∧ evt.poolId < 256 ^ 4
  | .delete id => id < 256 ^ 16
  | .metadataRefresh evt => evt.segmentId < 256 ^ 16 ∧ ∀ p ∈ evt.poolId, p < 256 ^ 4

/-- A refresh is within the limits that the decoder checks: at most 16 holders, whose names have
at most 255 bytes. -/
def Fits : SegmentEvent → Prop
  | .metadataRefresh evt => ∀ l ∈ evt.storageLocations,
      l.length ≤ refreshMaxLocations ∧ ∀ n ∈ l, (C.nodeName n).length ≤ refreshMaxNodeIdLen
  | _ => True

/-- What the record of an event says of it. -/
def stored : SegmentEvent → SegmentEvent
  | .seal evt => .seal { evt with containedObjects := containedBlob C evt }
  | evt => evt

end SegmentEvent

end

/-! ### Sections read back -/

variable {C : Codecs}

lemma readHash_append (h : HashOutput) (rest : Bytes) :
    readHash (h.val ++ rest) = some (h, rest) := by
  simp [readHash, takeBytes_append h.2, hashFromBytes, h.2]

lemma tierFromU8_tierToU8 (t : SizeTier) : tierFromU8 (tierToU8 t) = some t := by
  cases t <;> rfl

lemma readContained_append {l : List ContainedObject}
    (h : (C.serialize l).length ≤ sealMaxContainedTailBytes) (rest : Bytes) :
    readContained C (containedTail C l ++ rest) = some (l, rest) := by
  have hlt : (C.serialize l).length < 256 ^ 4 := h.trans_lt (by decide)
  simp only [readContained, containedTail, append_assoc, readNat_append hlt]
  simp [h, takeBytes_append, C.deserialize_serialize]

lemma readNodes_append {l : List NodeId} (h : ∀ n ∈ l, (C.nodeName n).length ≤ refreshMaxNodeIdLen)
    (rest : Bytes) :
    readNodes C l.length ((l.map (location C)).flatten ++ rest) = some (l, rest) := by
  induction l with
  | nil => rfl
  | cons n l ih =>
    obtain ⟨hn, hl⟩ := forall_mem_cons.mp h
    have hbyte : (UInt8.ofNat (C.nodeName n).length).toNat = (C.nodeName n).length :=
      UInt8.toNat_ofNat_of_lt' (hn.trans_lt (by decide))
    have hname : C.nodeOf (C.nodeName n) = some n := (C.nodeOf_eq_some _ _).mpr rfl
    simp [readNodes, location, hbyte, takeBytes_append, hn, hname, ih hl]

lemma readLocations_append {l : List NodeId} (hlen : l.length ≤ refreshMaxLocations)
    (h : ∀ n ∈ l, (C.nodeName n).length ≤ refreshMaxNodeIdLen) (rest : Bytes) :
    readLocations C (locationsSection C l ++ rest) = some (l, rest) := by
  have hbyte : (UInt8.ofNat l.length).toNat = l.length :=
    UInt8.toNat_ofNat_of_lt' (hlen.trans_lt (by decide))
  simp [readLocations, locationsSection, hbyte, hlen, readNodes_append h]

/-! ### Events read back -/

lemma sealFlags_spec (evt : SealEvent) :
    sealFlags C evt &&&
        ~~~(sealFlagRepackedFrom ||| sealFlagPoolId ||| sealFlagContainedObjects) = 0 ∧
      sealFlags C evt &&& sealFlagPoolId ≠ 0 ∧
      decide (sealFlags C evt &&& sealFlagRepackedFrom ≠ 0) = evt.repackedFrom.isSome ∧
      decide (sealFlags C evt &&& sealFlagContainedObjects ≠ 0) =
        (containedBlob C evt).isSome := by
  unfold sealFlags
  cases evt.repackedFrom.isSome <;> cases (containedBlob C evt).isSome <;> decide

lemma refreshFlags_spec (evt : MetadataRefreshEvent) :
    refreshFlags evt &&&
        ~~~(refreshFlagMerkleRoot ||| refreshFlagLocations ||| refreshFlagPoolId) = 0 ∧
      decide (refreshFlags evt &&& refreshFlagMerkleRoot ≠ 0) = evt.merkleRoot.isSome ∧
      decide (refreshFlags evt &&& refreshFlagLocations ≠ 0) = evt.storageLocations.isSome ∧
      decide (refreshFlags evt &&& refreshFlagPoolId ≠ 0) = evt.poolId.isSome ∧
      decide (refreshFlags evt &&& (refreshFlagLocations ||| refreshFlagPoolId) ≠ 0) =
        (evt.storageLocations.isSome || evt.poolId.isSome) := by
  unfold refreshFlags
  cases evt.merkleRoot.isSome <;> cases evt.storageLocations.isSome <;>
    cases evt.poolId.isSome <;> decide

lemma decodeSeal_payload {evt : SealEvent} (hr : (SegmentEvent.seal evt).InRange) :
    decodeSeal C evt.segmentId ((SegmentEvent.seal evt).payload C) =
      some (.seal { evt with containedObjects := containedBlob C evt }) := by
  obtain ⟨-, hseq, hoff, htotal, hold, hpool⟩ := hr
  obtain ⟨hknown, hpoolflag, hrepacked, hcontained⟩ := sealFlags_spec (C := C) evt
  have hold' : ∀ rest, flagged evt.repackedFrom.isSome (readNat 16)
      (evt.repackedFrom.elim [] (leBytes 16) ++ rest) = some (evt.repackedFrom, rest) :=
    fun rest => flagged_append fun old h => readNat_append (hold old h) rest
  have htail : flagged (containedBlob C evt).isSome (readContained C)
      ((containedBlob C evt).elim [] (containedTail C)) = some (containedBlob C evt, []) := by
    rw [← append_nil (Option.elim _ _ _)]
    refine flagged_append fun l hl => readContained_append ?_ []
    obtain ⟨-, hl⟩ := filter_eq_some_iff.mp hl
    exact (of_decide_eq_true hl).2
  simp only [SegmentEvent.payload, decodeSeal, hrepacked, hcontained]
  simp [hknown, hpoolflag, readHash_append, readNat_append hseq, readNat_append hoff,
    readNat_append htotal, hold', readNat_append hpool, htail, tierFromU8_tierToU8]

lemma decodeRefresh_payload {evt : MetadataRefreshEvent}
    (hr : (SegmentEvent.metadataRefresh evt).InRange)
    (hs : (SegmentEvent.metadataRefresh evt).Fits C) :
    decodeRefresh C evt.segmentId ((SegmentEvent.metadataRefresh evt).payload C) =
      some (.metadataRefresh evt) := by
  obtain ⟨hknown, hroot, hlocations, hpool, hextended⟩ := refreshFlags_spec evt
  by_cases hext : evt.storageLocations.isSome || evt.poolId.isSome
  · -- the section parser
    have hroot' : ∀ rest, flagged evt.merkleRoot.isSome readHash
        (evt.merkleRoot.elim [] (·.val) ++ rest) = some (evt.merkleRoot, rest) :=
      fun rest => flagged_append fun root _ => readHash_append root rest
    have hlocations' : ∀ rest, flagged evt.storageLocations.isSome (readLocations C)
        (evt.storageLocations.elim [] (locationsSection C) ++ rest) =
          some (evt.storageLocations, rest) :=
      fun rest => flagged_append fun l hl => readLocations_append (hs l hl).1 (hs l hl).2 rest
    have hpool' : flagged evt.poolId.isSome (readNat 4) (evt.poolId.elim [] (leBytes 4)) =
        some (evt.poolId, []) := by
      rw [← append_nil (Option.elim _ _ _)]
      exact flagged_append fun p hp => readNat_append (hr.2 p hp) []
    rw [hext, decide_eq_true_eq] at hextended
    have hshort : refreshFlags evt ≠ 0 ∧ refreshFlags evt ≠ 1 := by
      refine ⟨fun h => ?_, fun h => ?_⟩ <;> rw [h] at hextended <;> exact hextended rfl
    simp only [SegmentEvent.payload, decodeRefresh, hroot, hlocations, hpool]
    simp [hshort, hextended, hknown, hroot', hlocations', hpool']
  · -- the two short shapes
    obtain ⟨id, root, locations, pool⟩ := evt
    simp only [Bool.or_eq_true, isSome_iff_ne_none, ne_eq, not_or, not_not] at hext
    obtain ⟨rfl, rfl⟩ := hext
    cases root with
    | none => rfl
    | some root =>
      simp [SegmentEvent.payload, decodeRefresh, refreshFlags, withFlag, refreshFlagMerkleRoot,
        root.2, hashFromBytes]

theorem decodePayload_payload {evt : SegmentEvent} (hr : evt.InRange) (hf : evt.Fits C) :
    decodePayload C evt.kind evt.segmentId (evt.payload C) = some (evt.stored C) := by
  rcases evt with evt | evt | id | evt
  · simp [decodePayload, SegmentEvent.kind, SegmentEvent.payload, decodeReserve,
      tierFromU8_tierToU8, SegmentEvent.segmentId, SegmentEvent.stored]
  · exact decodeSeal_payload hr
  · rfl
  · exact decodeRefresh_payload hr hf

/-! ### Lengths -/

lemma length_locations_le {l : List NodeId}
    (h : ∀ n ∈ l, (C.nodeName n).length ≤ refreshMaxNodeIdLen) :
    ((l.map (location C)).flatten).length ≤ 256 * l.length := by
  induction l with
  | nil => simp
  | cons n l ih =>
    obtain ⟨hn, hl⟩ := forall_mem_cons.mp h
    have hl := ih hl
    simp only [refreshMaxNodeIdLen] at hn
    simp only [map_cons, flatten_cons, location, length_append, length_cons]
    omega

lemma length_payload_le {evt : SegmentEvent} (h : evt.Fits C) :
    (evt.payload C).length ≤ maxPayloadSize := by
  rcases evt with evt | evt | id | evt
  · exact (by decide : 4 ≤ maxPayloadSize)
  · have hold : (evt.repackedFrom.elim [] (leBytes 16)).length ≤ 16 := by
      cases evt.repackedFrom <;> simp
    have htail : ((containedBlob C evt).elim [] (containedTail C)).length ≤
        4 + sealMaxContainedTailBytes := by
      cases h : containedBlob C evt with
      | none => simp
      | some l =>
        obtain ⟨-, hl⟩ := filter_eq_some_iff.mp h
        simpa [containedTail] using (of_decide_eq_true hl).2
    simp only [SegmentEvent.payload, length_cons, length_append, evt.merkleRoot.2,
      length_leBytes, maxPayloadSize]
    omega
  · exact Nat.zero_le _
  · have hroot : (evt.merkleRoot.elim [] (·.val)).length ≤ 32 := by
      cases hr : evt.merkleRoot with
      | none => simp
      | some root => simp [root.2]
    have hpool : (evt.poolId.elim [] (leBytes 4)).length ≤ 4 := by
      cases evt.poolId <;> simp
    have hlocations : (evt.storageLocations.elim [] (locationsSection C)).length ≤ 4097 := by
      cases hl : evt.storageLocations with
      | none => simp
      | some l =>
        obtain ⟨hlen, hnames⟩ := h l hl
        have := length_locations_le hnames
        simp only [refreshMaxLocations] at hlen
        simp only [elim_some, locationsSection, length_cons]
        omega
    simp only [SegmentEvent.payload, length_cons, length_append, maxPayloadSize,
      sealMaxContainedTailBytes]
    omega

@[simp] lemma length_header (evt : SegmentEvent) :
    (evt.header C).length = eventRecordHeaderSize := by
  simp [SegmentEvent.header, eventRecordMagic, eventRecordHeaderSize]

lemma length_toRecordBytes (evt : SegmentEvent) :
    (evt.toRecordBytes C).length = eventRecordHeaderSize + ((evt.payload C).length + 4) := by
  simp [SegmentEvent.toRecordBytes]

end OceanFs.Segment
