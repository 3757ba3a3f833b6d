import OceanFs.Ec.KeptShards

/-!
Recovery of damaged segments, and the layout they were sealed in.

A seal encodes the complete stripes of a segment and stores the parity in a section of its own.
The read path and the heal worker do not read that section. Both cut the data section into
`k + m` pieces of one size and take the last `m` of them for parity. The read path takes a piece
for damaged only when its bytes are zero; the worker writes the damaged data back once for each
piece, with that piece alone repaired.
-/

namespace OceanFs.Ec

open OceanFs.Core Lib Lib.CauchyCode List

/-! ### Sealing -/

/-- A sealed segment: the data section, and the parity shards, stripe after stripe. -/
structure SealedSegment where
  k : UInt8
  m : UInt8
  data : Bytes
  parity : Option (List Bytes)
  deriving DecidableEq

/-- `encode_segment_parity`: only complete stripes are encoded, and an error of the encoder leaves
the segment without parity. -/
def encodeSegmentParity (kernel : Kernel) (data : Bytes) (k m : UInt8) (stripSize : ℕ) :
    Outcome (Option (List Bytes)) :=
  if k = 0 ∨ m = 0 ∨ stripSize = 0 then .ok none
  else
    let stripeLen := k.toNat * stripSize
    let complete := data.length / stripeLen
    if complete = 0 then .ok none
    else
      let encoded := compute (complete * stripeLen) k m stripSize >>=
        parallelEncode kernel (data.take (complete * stripeLen))
      match encoded with
      | .ok batch => .ok (some ((List.range complete).flatMap fun stripe =>
          (List.range m.toNat).map fun p =>
            ((batch.parity.getD p []).drop (stripe * stripSize)).take stripSize))
      | .error (.error _) => .ok none
      | .error .panic => .error .panic

def sealSegment (kernel : Kernel) (data : Bytes) (k m : UInt8) (stripSize : ℕ) :
    Outcome SealedSegment :=
  (encodeSegmentParity kernel data k m stripSize).map fun parity => ⟨k, m, data, parity⟩

/-! ### The pieces -/

/-- One of the pieces into which recovery cuts the data. -/
def piece (size : ℕ) (data : Bytes) (i : ℕ) : Bytes :=
  (data.drop (i * size)).take size

/-- The size of the pieces. -/
def pieceSize (k m : UInt8) (data : Bytes) : ℕ := data.length / (k.toNat + m.toNat)

/-! ### `fetch_shard` -/

structure ShardRange where
  shardIndex : ℕ
  offset : ℕ
  length : ℕ

structure FetchShardRequest where
  shardIndex : ℕ
  offset : ℕ
  length : ℕ
  shards : List ShardRange

/-- A node that is asked for shards: the geometry in its registry and its data section. -/
structure ShardHost where
  entry : Option (UInt8 × UInt8)
  data : Option Bytes
  deriving DecidableEq

inductive FetchStatus
  | notFound
  | failedPrecondition
  | outOfRange
  deriving DecidableEq

/-- A length of zero asks for the rest of the shard. -/
def rangeBytes (data : Bytes) (size : ℕ) (r : ShardRange) : Bytes :=
  let len := if r.length = 0 then size - r.offset else r.length
  let start := r.shardIndex * size + r.offset
  (data.take (start + len)).drop start

def fetchShard (host : ShardHost) (req : FetchShardRequest) : Except FetchStatus Bytes :=
  match host.entry, host.data with
  | none, _ => .error .notFound
  | some (k, m), data =>
    if k.toNat + m.toNat = 0 then .error .failedPrecondition
    else match data with
      | none => .error .notFound
      | some [] => .error .notFound
      | some data =>
        let size := pieceSize k m data
        if req.shards ≠ [] then .ok (req.shards.flatMap (rangeBytes data size))
        else if data.length ≤ req.shardIndex * size + req.offset then .error .outOfRange
        else .ok (rangeBytes data size ⟨req.shardIndex, req.offset, req.length⟩)

/-- The first replica that answers with data. -/
def fetchParityShard (hosts : List ShardHost) (shardIndex size : ℕ) : Option Bytes :=
  hosts.findSome? fun host =>
    match fetchShard host ⟨shardIndex, 0, size, []⟩ with
    | .ok data => if data = [] then none else some data
    | .error _ => none

/-! ### The read path -/

inductive RecoveryError
  | noShards
  | unreadable
  | tooSmall
  | spansParity
  | parityUnavailable
  | decode (failure : Failure)
  | outOfBounds
  deriving DecidableEq

/-- The bytes from `start` to `stop`, out of the shards that they span. -/
def extract (shards : ℕ → Option Bytes) (size start stop first last : ℕ) : Option Bytes :=
  ((List.range' first (last + 1 - first)).mapM fun i => do
    let shard ← shards i
    let lo := if i = first then start - i * size else 0
    let hi := if i = last then min (stop - i * size) size else size
    if lo ≤ hi ∧ hi ≤ shard.length then some ((shard.take hi).drop lo) else none).map List.flatten

def isZero (shard : Bytes) : Bool := shard.all (· = 0)

/-- `try_ec_recovery_for_chunk`, given what the reader serves and, if there are replicas to ask,
these. -/
def tryEcRecoveryForChunk (k m : UInt8) (served : Option Bytes) (remote : Option (List ShardHost))
    (offset length : ℕ) : Except RecoveryError Bytes := do
  let total := k.toNat + m.toNat
  if total = 0 then throw .noShards
  let data ← served.elim (throw .unreadable) pure
  if data.length < total then throw .tooSmall
  let size := pieceSize k m data
  let stop := offset + length
  let first := offset / size
  let last := (stop - 1) / size
  if k.toNat ≤ first ∨ k.toNat ≤ last then throw .spansParity
  if !isZero (piece size data first) then
    (extract (fun i => some (piece size data i)) size offset stop first last).elim
      (throw .outOfBounds) pure
  else
    let dataShards := (List.range k.toNat).map fun i =>
      if first ≤ i ∧ i ≤ last ∧ isZero (piece size data i) then none
      else some (piece size data i)
    let parity ← match remote with
      | some hosts => ((List.range m.toNat).mapM fun i =>
          fetchParityShard hosts (k.toNat + i) size).elim (throw .parityUnavailable) pure
      | none => pure ((List.range m.toNat).map fun i => piece size data (k.toNat + i))
    match decode (dataShards ++ parity.map some) k m with
    | .error failure => throw (.decode failure)
    | .ok recovered =>
      (extract (recovered[·]?) size offset stop first last).elim (throw .outOfBounds) pure

/-! ### The heal worker -/

inductive HealError
  | noGeometry
  | overflow
  | notDivisible
  | decode (failure : Failure)
  | missingShard
  deriving DecidableEq

/-- What a heal has written to the store, one after the other, and its result. -/
structure HealOutcome where
  writes : List Bytes
  result : Except HealError ℕ

/-- The data with one piece replaced. -/
def splice (size : ℕ) (data : Bytes) (i : ℕ) (shard : Bytes) : Bytes :=
  data.take (i * size) ++ shard ++ data.drop (i * size + shard.length)

/-- The loop over the damaged pieces. -/
def repairShards (size total : ℕ) (data : Bytes) (recovered : List Bytes) : List ℕ → HealOutcome
  | [] => ⟨[], .ok 0⟩
  | i :: rest =>
    if total ≤ i then repairShards size total data recovered rest
    else match recovered[i]? with
      | none => ⟨[], .error .missingShard⟩
      | some [] => repairShards size total data recovered rest
      | some shard =>
        let r := repairShards size total data recovered rest
        ⟨splice size data i shard :: r.writes, r.result.map (shard.length + ·)⟩

/-- `execute_heal`, up to the refresh of the metadata: with the data section of the local store,
or, when that is empty, what a replica sends. -/
def executeHeal (k m : UInt8) (localData : Bytes) (remote : Option Bytes) (corrupt : List ℕ) :
    HealOutcome :=
  if k = 0 then ⟨[], .error .noGeometry⟩
  else if 256 ≤ k.toNat + m.toNat then ⟨[], .error .overflow⟩
  else
    let total := k.toNat + m.toNat
    let data := if localData = [] then remote.getD [] else localData
    let size := pieceSize k m data
    if size = 0 ∧ data ≠ [] then ⟨[], .error .notDivisible⟩
    else
      let available := (List.range total).map fun i =>
        if corrupt.contains i then none else some (piece size data i)
      match decode available k m with
      | .error failure => ⟨[], .error (.decode failure)⟩
      | .ok recovered => repairShards size total data recovered corrupt

/-! ### Agreement with the sealed data -/

variable (seg : SealedSegment)

/-- Damage confined to some of the data shards, at most as many as there are parity shards. -/
structure Damage (shards : List ℕ) (damaged : Bytes) : Prop where
  nodup : shards.Nodup
  lt : ∀ i ∈ shards, i < seg.k.toNat
  few : shards.length ≤ seg.m.toNat
  length_eq : damaged.length = seg.data.length
  same : ∀ b, b / pieceSize seg.k seg.m seg.data ∉ shards → damaged[b]? = seg.data[b]?

/-- What the read path returns of a damaged segment is what was sealed. The reader fails or serves
the segment as it is, and replicas have it as it was sealed. -/
def ReadAgrees : Prop :=
  ∀ shards damaged, Damage seg shards damaged → ∀ served, served = none ∨ served = some damaged →
    ∀ remote : Option (List ShardHost),
      (∀ hosts ∈ remote, ∀ host ∈ hosts, host = ⟨some (seg.k, seg.m), some seg.data⟩) →
      ∀ offset length, offset + length ≤ seg.data.length → ∀ bytes,
        tryEcRecoveryForChunk seg.k seg.m served remote offset length = .ok bytes →
          bytes = (seg.data.drop offset).take length

/-- What the heal worker stores for a damaged segment is what was sealed, and so is what it
leaves when it succeeds. -/
def HealAgrees : Prop :=
  ∀ shards damaged, Damage seg shards damaged → ∀ remote, remote = none ∨ remote = some seg.data →
    (∀ written ∈ (executeHeal seg.k seg.m damaged remote shards).writes, written = seg.data) ∧
      ∀ repaired, (executeHeal seg.k seg.m damaged remote shards).result = .ok repaired →
        (executeHeal seg.k seg.m damaged remote shards).writes.getLastD damaged = seg.data

/-- The first of the pieces that recovery takes for parity is the parity of the pieces before. -/
def FirstParity (seg : SealedSegment) : Prop :=
  let size := pieceSize seg.k seg.m seg.data
  (parityShards seg.k seg.m ((List.range seg.k.toNat).map (piece size seg.data)) size).getD 0 [] =
    piece size seg.data seg.k.toNat

instance (seg : SealedSegment) : Decidable (FirstParity seg) :=
  inferInstanceAs (Decidable (_ = _))

/-! ### Bytes of pieces -/

section

variable {size i b : ℕ} {data damaged shard : Bytes}

lemma getElem?_piece (hb : b < size) : (piece size data i)[b]? = data[i * size + b]? := by
  rw [piece, getElem?_take_of_lt hb, getElem?_drop]

lemma length_piece (h : (i + 1) * size ≤ data.length) : (piece size data i).length = size := by
  rw [Nat.succ_mul] at h
  rw [piece, length_take, length_drop]
  omega

lemma piece_congr (h : ∀ b < size, damaged[i * size + b]? = data[i * size + b]?) :
    piece size damaged i = piece size data i := by
  refine ext_getElem? fun b => ?_
  rcases Nat.lt_or_ge b size with hb | hb
  · rw [getElem?_piece hb, getElem?_piece hb, h b hb]
  · rw [getElem?_eq_none (by rw [piece, length_take]; omega),
      getElem?_eq_none (by rw [piece, length_take]; omega)]

lemma getElem?_splice (hshard : shard.length = size) (h : (i + 1) * size ≤ data.length) (b : ℕ) :
    (splice size data i shard)[b]? =
      if i * size ≤ b ∧ b < i * size + size then shard[b - i * size]? else data[b]? := by
  rw [Nat.succ_mul] at h
  have htake : (data.take (i * size)).length = i * size := length_take_of_le (by omega)
  rw [splice, append_assoc, getElem?_append, getElem?_append, htake, hshard]
  split_ifs with hlt hin hmid hmid
  · omega
  · rw [getElem?_take_of_lt hlt]
  · rfl
  · omega
  · omega
  · rw [getElem?_drop]
    congr 1
    omega

lemma div_eq_iff_mem (hsize : 0 < size) : b / size = i ↔ i * size ≤ b ∧ b < i * size + size := by
  rw [Nat.div_eq_iff hsize]
  omega

lemma splice_eq (hsize : 0 < size) (hlen : damaged.length = data.length)
    (h : (i + 1) * size ≤ data.length) (hsame : ∀ b, b / size ≠ i → damaged[b]? = data[b]?)
    (hshard : shard = piece size data i) : splice size damaged i shard = data := by
  subst hshard
  refine ext_getElem? fun b => ?_
  rw [getElem?_splice (length_piece h) (hlen.symm ▸ h)]
  split_ifs with hb
  · rw [getElem?_piece (by omega), Nat.add_sub_cancel' hb.1]
  · exact hsame b fun hi => hb ((div_eq_iff_mem hsize).mp hi)

lemma eq_piece_of_splice (hshard : shard.length = size) (hlen : damaged.length = data.length)
    (h : (i + 1) * size ≤ data.length) (heq : splice size damaged i shard = data) :
    shard = piece size data i := by
  refine ext_getElem? fun b => ?_
  rcases Nat.lt_or_ge b size with hb | hb
  · have hget := getElem?_splice hshard (hlen.symm ▸ h) (i * size + b)
    rw [heq, if_pos ⟨by omega, by omega⟩, Nat.add_sub_cancel_left] at hget
    rw [getElem?_piece hb, hget]
  · rw [getElem?_eq_none (by omega), getElem?_eq_none (by rw [length_piece h]; exact hb)]

end

/-! ### What a heal computes -/

section

variable {k m : UInt8} {data : Bytes} {shards : List ℕ}

lemma piece_end_le {i : ℕ} (hi : i < k.toNat + m.toNat) :
    (i + 1) * pieceSize k m data ≤ data.length :=
  (Nat.mul_le_mul_right _ hi).trans (Nat.mul_div_le _ _)

lemma getD_pieces {i : ℕ} (hi : i < k.toNat + m.toNat) (size : ℕ) :
    ((List.range (k.toNat + m.toNat)).map (piece size data)).getD i [] = piece size data i := by
  simp [getD_eq_getElem?_getD, hi]

lemma available_eq (hlt : ∀ i ∈ shards, i < k.toNat) (size : ℕ) :
    ((List.range (k.toNat + m.toNat)).map fun i =>
        if shards.contains i then none else some (piece size data i)) =
      surviving (kept k shards) ((List.range (k.toNat + m.toNat)).map (piece size data)) := by
  rw [surviving_eq, length_map, length_range]
  refine map_congr_left fun i hi => ?_
  rw [getD_pieces (mem_range.mp hi), kept]
  by_cases hmem : i ∈ shards
  · have := hlt i hmem
    simp [hmem]
    omega
  · simp [hmem]

lemma repairShards_eq {size total : ℕ} {recovered : List Bytes} (hsize : 0 < size)
    (htotal : k.toNat ≤ total) (hlen : recovered.length = k.toNat)
    (hrec : ∀ i < k.toNat, (recovered.getD i []).length = size)
    (hlt : ∀ i ∈ shards, i < k.toNat) :
    repairShards size total data recovered shards =
      ⟨shards.map fun i => splice size data i (recovered.getD i []),
        .ok (shards.length * size)⟩ := by
  induction shards with
  | nil => simp [repairShards]
  | cons i rest ih =>
    obtain ⟨hi, hrest⟩ := forall_mem_cons.mp hlt
    have hshard := hrec i hi
    have hget : recovered[i]? = some (recovered.getD i []) := by
      rw [getD_eq_getElem?_getD, getElem?_eq_getElem (hlen.symm ▸ hi), Option.getD_some]
    rw [repairShards, if_neg (by omega), hget, ih hrest]
    cases hr : recovered.getD i [] with
    | nil =>
      rw [hr, length_nil] at hshard
      omega
    | cons c cs =>
      rw [hr] at hshard
      simp only [map_cons, hr, hshard, length_cons, Except.map, Nat.succ_mul]
      congr 2
      omega

end

section

variable {seg : SealedSegment} {shards : List ℕ} {damaged : Bytes}

lemma Damage.pieceSize_eq (h : Damage seg shards damaged) :
    pieceSize seg.k seg.m damaged = pieceSize seg.k seg.m seg.data := by
  rw [pieceSize, pieceSize, h.length_eq]

lemma Damage.piece_eq (h : Damage seg shards damaged) (hsize : 0 < pieceSize seg.k seg.m seg.data)
    {i : ℕ} (hi : i ∉ shards) :
    piece (pieceSize seg.k seg.m seg.data) damaged i =
      piece (pieceSize seg.k seg.m seg.data) seg.data i := by
  refine piece_congr fun b hb => h.same _ ?_
  rwa [(div_eq_iff_mem hsize).mpr ⟨Nat.le_add_right _ b, by omega⟩]

/-- **What a heal computes**: shards whose sums with the rows of the shards it takes are the sealed
pieces. Each is written back into the damaged data for itself. -/
lemma exists_heal (hk : seg.k ≠ 0) (h255 : seg.k.toNat + seg.m.toNat ≤ 255)
    (hlen : seg.k.toNat + seg.m.toNat ≤ seg.data.length) (h : Damage seg shards damaged)
    (remote : Option Bytes) :
    ∃ recovered : List Bytes,
      executeHeal seg.k seg.m damaged remote shards =
        ⟨shards.map fun i =>
            splice (pieceSize seg.k seg.m seg.data) damaged i (recovered.getD i []),
          .ok (shards.length * pieceSize seg.k seg.m seg.data)⟩ ∧
      recovered.length = seg.k.toNat ∧
      (∀ i < seg.k.toNat, (recovered.getD i []).length = pieceSize seg.k seg.m seg.data) ∧
      ∀ b < pieceSize seg.k seg.m seg.data, ∀ idx : Fin (seg.k.toNat + seg.m.toNat),
        ((idx : ℕ) < seg.k.toNat ∧ (idx : ℕ) ∉ shards ∨
          seg.k.toNat ≤ idx ∧ (idx : ℕ) < seg.k.toNat + shards.length) →
        ∑ j : Fin seg.k.toNat, row (xs seg.k) (ys seg.k seg.m) (finSumFinEquiv.symm idx) j *
            gfByte (recovered.getD j []) b =
          gfByte (piece (pieceSize seg.k seg.m seg.data) seg.data idx) b := by
  have hpos := toNat_pos hk
  have hsize : 0 < pieceSize seg.k seg.m seg.data := Nat.div_pos hlen (by omega)
  have hne : damaged ≠ [] := by
    rintro rfl
    have := h.length_eq
    rw [length_nil] at this
    omega
  obtain ⟨recovered, hdec, hreclen, hrec, hrows⟩ := exists_decode hk (by omega)
    (by simp : ((List.range (seg.k.toNat + seg.m.toNat)).map
      (piece (pieceSize seg.k seg.m seg.data) damaged)).length = _)
    (fun i hi => by
      rw [getD_pieces hi, length_piece]
      exact h.length_eq.symm ▸ piece_end_le hi)
    (le_length_kept h.nodup h.lt h.few)
  refine ⟨recovered, ?_, hreclen, hrec, fun b hb idx hidx => ?_⟩
  · rw [executeHeal, if_neg hk, if_neg (by omega)]
    simp only [hne, if_false, h.pieceSize_eq, hsize.ne', false_and]
    rw [available_eq h.lt, hdec]
    exact repairShards_eq hsize (Nat.le_add_right _ _) hreclen hrec h.lt
  · rw [hrows b hb idx ((mem_firstKept h.nodup h.lt h.few).mpr hidx), getD_pieces idx.isLt,
      h.piece_eq hsize fun hmem => ?_]
    have := h.lt _ hmem
    rcases hidx with ⟨-, hout⟩ | hpar
    · exact hout hmem
    · omega

lemma firstParity_iff (hm : seg.k.toNat < seg.k.toNat + seg.m.toNat) :
    FirstParity seg ↔ ∀ b < pieceSize seg.k seg.m seg.data,
      ∑ j : Fin seg.k.toNat, row (xs seg.k) (ys seg.k seg.m)
          (finSumFinEquiv.symm ⟨seg.k.toNat, hm⟩) j *
            gfByte (piece (pieceSize seg.k seg.m seg.data) seg.data j) b =
        gfByte (piece (pieceSize seg.k seg.m seg.data) seg.data seg.k.toNat) b := by
  set size := pieceSize seg.k seg.m seg.data with hsize
  set pieces := (List.range seg.k.toNat).map (piece size seg.data) with hpieces
  have hlen : pieces.length = seg.k.toNat := by simp [hpieces]
  have hget : ∀ j : Fin seg.k.toNat, pieces.getD j [] = piece size seg.data j := fun j => by
    simp [hpieces, getD_eq_getElem?_getD]
  have hparity : ∀ b < size, gfByte ((parityShards seg.k seg.m pieces size).getD 0 []) b =
      ∑ j : Fin seg.k.toNat, row (xs seg.k) (ys seg.k seg.m)
        (finSumFinEquiv.symm ⟨seg.k.toNat, hm⟩) j * gfByte (piece size seg.data j) b := by
    intro b hb
    have hword := gfByte_codeword hlen hb ⟨seg.k.toNat, hm⟩
    simp only [hget] at hword
    rw [← hword, getD_append_right _ _ _ _ hlen.le, hlen, Nat.sub_self]
  have hlength : ((parityShards seg.k seg.m pieces size).getD 0 []).length = size :=
    length_getD_combine (by simp; omega)
  rw [FirstParity, ← hsize, ← hpieces]
  constructor
  · intro heq b hb
    rw [← hparity b hb, heq]
  · intro hall
    refine shard_ext ?_ fun b hb => ?_
    · rw [hlength, length_piece (piece_end_le hm)]
    · rw [hlength] at hb
      rw [hparity b hb, hall b hb]

/-! ### The heal worker against the sealed data -/

lemma repairShards_of_empty {size total k : ℕ} {data : Bytes} {recovered : List Bytes}
    (hlen : recovered.length = k) (hrec : ∀ i < k, recovered.getD i [] = [])
    (hlt : ∀ i ∈ shards, i < k) :
    repairShards size total data recovered shards = ⟨[], .ok 0⟩ := by
  induction shards with
  | nil => rfl
  | cons i rest ih =>
    obtain ⟨hi, hrest⟩ := forall_mem_cons.mp hlt
    have hget : recovered[i]? = some [] := by
      rw [← hrec i hi, getD_eq_getElem?_getD, getElem?_eq_getElem (hlen.symm ▸ hi),
        Option.getD_some]
    rw [repairShards, hget, ih hrest, ite_self]

lemma executeHeal_nil {k m : UInt8} (hk : k ≠ 0) (h255 : k.toNat + m.toNat ≤ 255)
    (hnodup : shards.Nodup) (hlt : ∀ i ∈ shards, i < k.toNat) (hle : shards.length ≤ m.toNat)
    {remote : Option Bytes} (hremote : remote.getD [] = []) :
    executeHeal k m [] remote shards = ⟨[], .ok 0⟩ := by
  have hpiece : ∀ size i, piece size [] i = [] := fun size i => by simp [piece]
  obtain ⟨recovered, hdec, hreclen, hrec, -⟩ := exists_decode hk (by omega)
    (by simp : ((List.range (k.toNat + m.toNat)).map (piece (pieceSize k m []) [])).length = _)
    (fun i hi => by rw [getD_pieces hi, hpiece, length_nil])
    (le_length_kept hnodup hlt hle)
  rw [executeHeal, if_neg hk, if_neg (by omega)]
  simp only [hremote, if_true, ne_eq, not_true_eq_false, and_false, if_false]
  rw [available_eq hlt, hdec]
  exact repairShards_of_empty hreclen (fun i hi => eq_nil_of_length_eq_zero (hrec i hi)) hlt

lemma healAgrees_of_small (hk : seg.k ≠ 0) (hlen : seg.data.length < seg.k.toNat + seg.m.toNat) :
    HealAgrees seg := by
  intro shards damaged h remote hremote
  by_cases h255 : seg.k.toNat + seg.m.toNat ≤ 255
  · rcases eq_or_ne damaged [] with rfl | hne
    · have hdata : seg.data = [] := eq_nil_of_length_eq_zero h.length_eq.symm
      have hget : remote.getD [] = [] := by
        rcases hremote with rfl | rfl
        · rfl
        · exact hdata
      rw [executeHeal_nil hk h255 h.nodup h.lt h.few hget, hdata]
      simp
    · have hsize : pieceSize seg.k seg.m damaged = 0 := by
        rw [h.pieceSize_eq]
        exact Nat.div_eq_of_lt hlen
      rw [executeHeal, if_neg hk, if_neg (by omega)]
      simp [hne, hsize]
  · rw [executeHeal, if_neg hk, if_pos (by omega)]
    simp

lemma healAgrees_of_overflow (hk : seg.k ≠ 0) (h256 : 255 < seg.k.toNat + seg.m.toNat) :
    HealAgrees seg := by
  intro shards damaged h remote hremote
  rw [executeHeal, if_neg hk, if_pos (by omega)]
  simp

lemma recovered_eq {i : ℕ} {recovered : List Bytes} (hi : i < seg.k.toNat) (hm : 0 < seg.m.toNat)
    (h255 : seg.k.toNat + seg.m.toNat ≤ 255) (hparity : FirstParity seg)
    (hrec : ∀ j < seg.k.toNat, (recovered.getD j []).length = pieceSize seg.k seg.m seg.data)
    (hrows : ∀ b < pieceSize seg.k seg.m seg.data, ∀ idx : Fin (seg.k.toNat + seg.m.toNat),
      ((idx : ℕ) < seg.k.toNat ∧ (idx : ℕ) ∉ [i] ∨
        seg.k.toNat ≤ idx ∧ (idx : ℕ) < seg.k.toNat + [i].length) →
      ∑ j : Fin seg.k.toNat, row (xs seg.k) (ys seg.k seg.m) (finSumFinEquiv.symm idx) j *
          gfByte (recovered.getD j []) b =
        gfByte (piece (pieceSize seg.k seg.m seg.data) seg.data idx) b) :
    recovered.getD i [] = piece (pieceSize seg.k seg.m seg.data) seg.data i := by
  have hnodup : [i].Nodup := nodup_singleton i
  have hlt : ∀ j ∈ [i], j < seg.k.toNat := by simpa using hi
  have hle : [i].length ≤ seg.m.toNat := hm
  refine shard_ext ?_ fun b hb => ?_
  · rw [hrec i hi, length_piece (piece_end_le (by omega))]
  rw [hrec i hi] at hb
  have hbytes : (fun j : Fin seg.k.toNat => gfByte (recovered.getD j []) b) =
      fun j : Fin seg.k.toNat => gfByte (piece (pieceSize seg.k seg.m seg.data) seg.data j) b := by
    refine (firstKept _ (le_length_kept hnodup hlt hle)).eq_of_rows (by omega) fun idx hidx => ?_
    have htaken := (mem_firstKept hnodup hlt hle).mp hidx
    rw [hrows b hb idx htaken]
    rcases htaken with ⟨hdata, -⟩ | ⟨hge, hone⟩
    · exact (sum_row_data ⟨idx, hdata⟩ fun j : Fin seg.k.toNat =>
        gfByte (piece (pieceSize seg.k seg.m seg.data) seg.data j) b).symm
    · rw [length_singleton] at hone
      have hpar : (⟨seg.k.toNat, by omega⟩ : Fin (seg.k.toNat + seg.m.toNat)) = idx :=
        Fin.ext (by simp; omega)
      rw [← hpar]
      exact ((firstParity_iff (by omega)).mp hparity b hb).symm
  exact congrFun hbytes ⟨i, hi⟩

lemma healAgrees_of_firstParity (hk : seg.k ≠ 0) (hone : seg.k = 1 ∨ seg.m = 1)
    (hm : 0 < seg.m.toNat) (h255 : seg.k.toNat + seg.m.toNat ≤ 255)
    (hlen : seg.k.toNat + seg.m.toNat ≤ seg.data.length) (hparity : FirstParity seg) :
    HealAgrees seg := by
  intro shards damaged h remote hremote
  have hsize : 0 < pieceSize seg.k seg.m seg.data := Nat.div_pos hlen (by omega)
  obtain ⟨recovered, hheal, hreclen, hrec, hrows⟩ := exists_heal hk h255 hlen h remote
  rw [hheal]
  rcases shards with _ | ⟨i, rest⟩
  · have hsame : damaged = seg.data := ext_getElem? fun b => h.same b (by simp)
    simp [hsame]
  · have hi := h.lt i mem_cons_self
    obtain rfl : rest = [] := by
      refine eq_nil_of_length_eq_zero ?_
      have hfew := h.few
      have hcard : (i :: rest).length ≤ (List.range seg.k.toNat).length :=
        (subperm_of_subset h.nodup fun j hj => mem_range.mpr (h.lt j hj)).length_le
      rw [length_cons] at hfew hcard
      rw [length_range] at hcard
      rcases hone with h1 | h1
      · rw [h1, UInt8.toNat_one] at hcard
        omega
      · rw [h1, UInt8.toNat_one] at hfew
        omega
    have hwrite : splice (pieceSize seg.k seg.m seg.data) damaged i (recovered.getD i []) =
        seg.data :=
      splice_eq hsize h.length_eq (piece_end_le (by omega))
        (fun b hb => h.same b (by simpa using hb)) (recovered_eq hi hm h255 hparity hrec hrows)
    rw [map_singleton, hwrite]
    simp

lemma damage_self {shards : List ℕ} (hnodup : shards.Nodup) (hlt : ∀ i ∈ shards, i < seg.k.toNat)
    (hle : shards.length ≤ seg.m.toNat) : Damage seg shards seg.data :=
  ⟨hnodup, hlt, hle, rfl, fun _ _ => rfl⟩

lemma damage_first {shards : List ℕ} (hnodup : shards.Nodup) (hlt : ∀ i ∈ shards, i < seg.k.toNat)
    (hle : shards.length ≤ seg.m.toNat) (hzero : 0 ∈ shards) (c : UInt8) :
    Damage seg shards (seg.data.set 0 c) := by
  refine ⟨hnodup, hlt, hle, length_set, fun b hb => ?_⟩
  have hne : 0 ≠ b := by
    rintro rfl
    exact hb (by simpa using hzero)
  rw [getElem?_set_ne hne]

section

variable (hk : seg.k ≠ 0) (hm : 0 < seg.m.toNat) (h255 : seg.k.toNat + seg.m.toNat ≤ 255)
  (hlen : seg.k.toNat + seg.m.toNat ≤ seg.data.length) (h : HealAgrees seg)

include hk hm h255 hlen h

lemma firstParity_of_healAgrees : FirstParity seg := by
  have hpos := toNat_pos hk
  have hdamage : Damage seg [0] seg.data :=
    damage_self (nodup_singleton 0) (by simpa using hpos) hm
  obtain ⟨recovered, hheal, hreclen, hrec, hrows⟩ := exists_heal hk h255 hlen hdamage none
  have hwrite := (h [0] seg.data hdamage none (.inl rfl)).1
  rw [hheal] at hwrite
  have hfirst := eq_piece_of_splice (hrec 0 hpos) rfl (piece_end_le (by omega))
    (hwrite _ (mem_map_of_mem mem_cons_self))
  refine (firstParity_iff (by omega)).mpr fun b hb => ?_
  rw [← hrows b hb ⟨seg.k.toNat, by omega⟩ (.inr ⟨le_rfl, by simp⟩)]
  refine Finset.sum_congr rfl fun j _ => ?_
  congr 1
  by_cases hj : (j : ℕ) = 0
  · rw [hj, hfirst]
  · have hrow := hrows b hb (Fin.castAdd _ j) (.inl ⟨j.isLt, by simpa using hj⟩)
    rw [sum_row_data] at hrow
    exact hrow.symm

/-- With two pieces to repair, the second write puts the damage of the first back. -/
lemma one_of_healAgrees : seg.k = 1 ∨ seg.m = 1 := by
  have hpos := toNat_pos hk
  have hsize : 0 < pieceSize seg.k seg.m seg.data := Nat.div_pos hlen (by omega)
  by_contra hne
  rw [not_or] at hne
  have hk2 : seg.k.toNat ≠ 1 := fun h1 => hne.1 (UInt8.toNat_inj.mp h1)
  have hm2 : seg.m.toNat ≠ 1 := fun h1 => hne.2 (UInt8.toNat_inj.mp h1)
  obtain ⟨c, hc⟩ : ∃ c : UInt8, seg.data[0]? ≠ some c := by
    by_cases h0 : seg.data[0]? = some 0
    · exact ⟨1, by simp [h0]⟩
    · exact ⟨0, h0⟩
  have hdamage : Damage seg [0, 1] (seg.data.set 0 c) :=
    damage_first (by decide) (by simp; omega) (by simp; omega) (by decide) c
  obtain ⟨recovered, hheal, hreclen, hrec, -⟩ := exists_heal hk h255 hlen hdamage none
  have hwrite := (h _ _ hdamage none (.inl rfl)).1
  rw [hheal] at hwrite
  have hsecond := hwrite _ (mem_map_of_mem (mem_cons_of_mem 0 mem_cons_self))
  refine hc ?_
  rw [← hsecond, getElem?_splice (hrec 1 (by omega))
    (by rw [length_set]; exact piece_end_le (by omega)), if_neg (by omega)]
  exact getElem?_set_self (by omega)

end

lemma healAgrees_iff (hk : seg.k ≠ 0) (hm : seg.m ≠ 0) :
    HealAgrees seg ↔ seg.data.length < seg.k.toNat + seg.m.toNat ∨
      255 < seg.k.toNat + seg.m.toNat ∨ (seg.k = 1 ∨ seg.m = 1) ∧ FirstParity seg := by
  have hmpos := toNat_pos hm
  rcases Nat.lt_or_ge seg.data.length (seg.k.toNat + seg.m.toNat) with hlen | hlen
  · simp [hlen, healAgrees_of_small hk hlen]
  rcases Nat.lt_or_ge 255 (seg.k.toNat + seg.m.toNat) with h256 | h255
  · simp [h256, healAgrees_of_overflow hk h256]
  constructor
  · intro h
    exact .inr (.inr ⟨one_of_healAgrees hk hmpos h255 hlen h,
      firstParity_of_healAgrees hk hmpos h255 hlen h⟩)
  · rintro (hsmall | hbig | ⟨hone, hparity⟩)
    · omega
    · omega
    · exact healAgrees_of_firstParity hk hone hmpos h255 hlen hparity

/-! ### The read path against the sealed data -/

lemma tryEcRecoveryForChunk_first {k m c : UInt8} {data : Bytes} (hk : 0 < k.toNat)
    (hlen : k.toNat + m.toNat ≤ data.length) (hfirst : data[0]? = some c) (hc : c ≠ 0) :
    tryEcRecoveryForChunk k m (some data) none 0 1 = .ok [c] := by
  have hsize : 0 < pieceSize k m data := Nat.div_pos hlen (by omega)
  obtain ⟨rest, rfl⟩ : ∃ rest, data = c :: rest := by
    rcases data with _ | ⟨c', rest⟩
    · simp at hfirst
    · simp only [getElem?_cons_zero, Option.some.injEq] at hfirst
      exact ⟨rest, by rw [hfirst]⟩
  have hzero : isZero (piece (pieceSize k m (c :: rest)) (c :: rest) 0) = false := by
    obtain ⟨n, hn⟩ := Nat.exists_eq_succ_of_ne_zero hsize.ne'
    simp [isZero, piece, hn, hc]
  have hextract : extract (fun i => some (piece (pieceSize k m (c :: rest)) (c :: rest) i))
      (pieceSize k m (c :: rest)) 0 1 0 0 = some [c] := by
    obtain ⟨n, hn⟩ := Nat.exists_eq_succ_of_ne_zero hsize.ne'
    simp [extract, piece, hn]
  have htotal : k.toNat + m.toNat ≠ 0 := by omega
  have hbig : ¬ List.length (c :: rest) < k.toNat + m.toNat := by omega
  simp only [tryEcRecoveryForChunk, htotal, hbig, if_false, pure_bind, Option.elim_some,
    Nat.zero_add, Nat.sub_self, Nat.zero_div, Nat.not_le.mpr hk, or_self, hzero, Bool.not_false,
    if_true, hextract]
  rfl

lemma readAgrees_iff (hk : seg.k ≠ 0) (hm : seg.m ≠ 0) :
    ReadAgrees seg ↔ seg.data.length < seg.k.toNat + seg.m.toNat := by
  have hpos := toNat_pos hk
  have hmpos := toNat_pos hm
  constructor
  · intro h
    by_contra hlen
    rw [not_lt] at hlen
    obtain ⟨c, hne, hc⟩ : ∃ c : UInt8, seg.data[0]? ≠ some c ∧ c ≠ 0 := by
      by_cases h1 : seg.data[0]? = some 1
      · exact ⟨2, by rw [h1]; decide, by decide⟩
      · exact ⟨1, h1, by decide⟩
    have hdamage : Damage seg [0] (seg.data.set 0 c) :=
      damage_first (nodup_singleton 0) (by simpa using hpos) hmpos (by simp) c
    have hread := tryEcRecoveryForChunk_first (m := seg.m) hpos
      (by rw [length_set]; exact hlen) (getElem?_set_self (by omega)) hc
    have hbytes := h _ _ hdamage _ (.inr rfl) none (by simp) 0 1 (by omega) _ hread
    refine hne ?_
    rw [← getElem?_take_of_lt Nat.zero_lt_one, ← drop_zero (l := seg.data), ← hbytes]
    rfl
  · intro hlen shards damaged h served hserved remote hremote offset length hle bytes hread
    have hsmall : damaged.length < seg.k.toNat + seg.m.toNat := by rw [h.length_eq]; exact hlen
    have htotal : seg.k.toNat + seg.m.toNat ≠ 0 := by omega
    rcases hserved with rfl | rfl
    · simp only [tryEcRecoveryForChunk, htotal, if_false, pure_bind, Option.elim_none] at hread
      exact nomatch hread
    · simp only [tryEcRecoveryForChunk, htotal, hsmall, if_false, if_true, pure_bind,
        Option.elim_some] at hread
      exact nomatch hread

end

lemma fields_of_sealSegment {kernel : Kernel} {data : Bytes} {k m : UInt8} {stripSize : ℕ}
    {seg : SealedSegment} (h : sealSegment kernel data k m stripSize = .ok seg) :
    seg.k = k ∧ seg.m = m ∧ seg.data = data := by
  rw [sealSegment] at h
  cases henc : encodeSegmentParity kernel data k m stripSize with
  | error failure => rw [henc] at h; cases h
  | ok parity => rw [henc] at h; cases h; exact ⟨rfl, rfl, rfl⟩

/-- **Recovery against the sealed layout.** What the read path returns is right only where it never
returns. The heal worker is right only where it always fails, or where one piece at most can be
damaged and the piece after the first `k` happens to be their parity. -/
theorem recovery_agrees_iff (kernel : Kernel) (data : Bytes) (k m : UInt8) (stripSize : ℕ)
    (seg : SealedSegment) (hk : k ≠ 0) (hm : m ≠ 0)
    (hseal : sealSegment kernel data k m stripSize = .ok seg) :
    (ReadAgrees seg ↔ data.length < k.toNat + m.toNat) ∧
      (HealAgrees seg ↔ data.length < k.toNat + m.toNat ∨ 255 < k.toNat + m.toNat ∨
        (k = 1 ∨ m = 1) ∧ FirstParity seg) := by
  obtain ⟨rfl, rfl, rfl⟩ := fields_of_sealSegment hseal
  exact ⟨readAgrees_iff hk hm, healAgrees_iff hk hm⟩

/-- Two bytes of which the second is the parity of the first. -/
theorem second_byte_is_parity :
    ∃ seg, sealSegment scalarKernel [1, 244] 1 1 1 = .ok seg ∧ ¬ ReadAgrees seg ∧
      HealAgrees seg := by
  have hseal : sealSegment scalarKernel [1, 244] 1 1 1 =
      .ok ⟨1, 1, [1, 244], some [[244], [167]]⟩ := by decide +kernel
  have hiff := recovery_agrees_iff _ _ _ _ _ _ (by decide) (by decide) hseal
  refine ⟨_, hseal, fun h => ?_, hiff.2.mpr (.inr (.inr ⟨.inl rfl, by decide +kernel⟩))⟩
  exact absurd (hiff.1.mp h) (by decide)

/-- One wrong byte in the first shard is returned as it is, and a heal of that shard stores two
other wrong bytes. -/
theorem damaged_byte_kept :
    ∃ seg, sealSegment scalarKernel [1, 2, 3, 4, 5, 6] 2 1 1 = .ok seg ∧ ¬ ReadAgrees seg ∧
      ¬ HealAgrees seg := by
  refine ⟨⟨2, 1, [1, 2, 3, 4, 5, 6], some [[140], [139], [138]]⟩, by decide +kernel, fun h => ?_,
    fun h => ?_⟩
  · have hbytes := h [0] [9, 2, 3, 4, 5, 6]
      (damage_first (by decide) (by decide) (by decide) (by decide) 9) _ (.inr rfl) none
      (by simp) 0 1 (by decide) [9] (by decide +kernel)
    exact absurd hbytes (by decide)
  · have hwrite := (h [0] [9, 2, 3, 4, 5, 6]
      (damage_first (by decide) (by decide) (by decide) (by decide) 9) none (.inl rfl)).1
      [12, 4, 3, 4, 5, 6] (by decide +kernel)
    exact absurd hwrite (by decide)

end OceanFs.Ec
