import OceanFs.Ec.Recovery
import OceanFs.Lib.Merkle
import OceanFs.Lib.Runs
import Mathlib.Data.List.TakeWhile

/-!
Scrubbing, anti-entropy and healing of one sealed segment.

The scrubber and anti-entropy compare Merkle roots and ask for a heal; the heal worker decodes the
shards it is told about, writes them back and clears the root that the registry records. Nothing
compares the result with that root before it is cleared.
-/

namespace OceanFs.Durability.Healing

open OceanFs.Core Ec Lib List Option

/-! ### Merkle roots -/

def defaultLeafSize : ℕ := 65536

/-- `data.chunks(leaf_size)`. -/
def chunks (leafSize : ℕ) (data : Bytes) : List Bytes :=
  (List.range ((data.length + leafSize - 1) / leafSize)).map fun i =>
    (data.drop (i * leafSize)).take leafSize

section

variable (blake3 : Bytes → HashOutput)

def hashPair (a b : HashOutput) : HashOutput := blake3 (a.val ++ b.val)

def leafHashes (data : Bytes) : List HashOutput := (chunks defaultLeafSize data).map blake3

/-- The root of `MerkleTree::build`; there is none of an empty section. -/
def merkleRoot (data : Bytes) : Option HashOutput :=
  Merkle.root (hashPair blake3) (chunks defaultLeafSize data).length (leafHashes blake3 data)

/-- The strings that are hashed for the root. -/
def hashedFor (data : Bytes) : List Bytes :=
  chunks defaultLeafSize data ++ (Merkle.hashedPairs (hashPair blake3)
    (chunks defaultLeafSize data).length (leafHashes blake3 data)).map fun p => p.1.val ++ p.2.val

end

/-! ### The three components -/

structure HealRequest where
  corruptShardIndices : List ℕ
  retryCount : ℕ
  deriving DecidableEq

structure Env where
  blake3 : Bytes → HashOutput
  k : UInt8
  m : UInt8
  queueCapacity : ℕ
  healRetryLimit : ℕ

/-- The segment's data section, if its file is there, the root that its registry entry records, and
the heal queue. -/
structure St where
  data : Option Bytes
  root : Option HashOutput
  queue : List HealRequest

/-- `enqueue_blocking`. -/
def St.enqueue (env : Env) (s : St) (r : HealRequest) : St :=
  if s.queue.length < env.queueCapacity then { s with queue := s.queue ++ [r] } else s

structure ScrubResult where
  healthy : Bool
  corruptShardIndices : List ℕ
  merkleMismatch : Bool
  bytesScanned : ℕ
  enqueuedHeal : Bool
  skipped : Bool
  deriving DecidableEq

/-- `scrub_segment`; a read may fail. -/
def scrubSegment (env : Env) (s : St) (readOk : Bool) : ScrubResult × St :=
  if !readOk then (⟨false, [], true, 0, false, false⟩, s)
  else match s.data with
    | none => (⟨true, [], false, 0, false, true⟩, s)
    | some data => match merkleRoot env.blake3 data with
      | none => (⟨true, [], false, data.length, false, false⟩, s)
      | some computed => match s.root with
        | none => (⟨true, [], false, data.length, false, false⟩, s)
        | some stored =>
          if computed = stored then (⟨true, [], false, data.length, false, false⟩, s)
          else
            -- every leaf is taken for corrupt
            let indices := List.range (leafHashes env.blake3 data).length
            (⟨false, indices, true, data.length, s.queue.length < env.queueCapacity, false⟩,
              s.enqueue env ⟨indices, 0⟩)

/-- What the outside does to a heal: whether the read succeeds, what a replica sends if the local
data is empty, which write fails, and whether the event of the refresh is appended. -/
structure HealIo where
  readOk : Bool
  remote : Option Bytes
  failingWrite : Option ℕ
  refreshOk : Bool
  deriving DecidableEq

/-- The writes before the one that fails. -/
def HealIo.performed {α : Type} (io : HealIo) (writes : List α) : List α :=
  match io.failingWrite with
  | none => writes
  | some j => writes.take j

/-- `execute_heal`, with the writes and the refresh of the metadata, which clears the root. -/
def heal (env : Env) (io : HealIo) (indices : List ℕ) (s : St) : St × Bool :=
  if !io.readOk then (s, false)
  else
    let out := executeHeal env.k env.m (s.data.getD []) io.remote indices
    let performed := io.performed out.writes
    let s := { s with data := performed.getLast?.or s.data }
    if performed.length < out.writes.length then (s, false)
    else match out.result with
      | .error _ => (s, false)
      | .ok _ => if io.refreshOk then ({ s with root := none }, true) else (s, false)

inductive Act
  | scrub (readOk : Bool)
  /-- Anti-entropy over a tracked root, with what the exchange with a peer returns. -/
  | continuousCycle (tracked : Bool) (exchange : Option Bool)
  | samplingCycle (tracked : Bool) (exchange : Option Bool)
  /-- Any other request to the heal queue. -/
  | request (indices : List ℕ)
  /-- The worker takes a request out of the queue. -/
  | heal (i : ℕ) (io : HealIo)

def step (env : Env) (s : St) : Act → Option St
  | .scrub readOk => some (scrubSegment env s readOk).2
  | .continuousCycle tracked exchange =>
    -- a failed exchange counts as a mismatch
    some (if tracked ∧ exchange ≠ some true then s.enqueue env ⟨[], 0⟩ else s)
  | .samplingCycle tracked exchange =>
    some (if tracked ∧ exchange = some false then s.enqueue env ⟨[], 0⟩ else s)
  | .request indices => some (s.enqueue env ⟨indices, 0⟩)
  | .heal i io => (s.queue[i]?).map fun r =>
    let (s, ok) := heal env io r.corruptShardIndices { s with queue := s.queue.eraseIdx i }
    if ok ∨ env.healRetryLimit ≤ r.retryCount then s
    else s.enqueue env { r with retryCount := r.retryCount + 1 }

/-! ### Corruption stays visible -/

section

variable (env : Env) (original : Bytes) (recorded : HashOutput)

/-- The data section has the recorded root, or the registry entry still records it. -/
def Recorded (s : St) : Prop :=
  s.data.bind (merkleRoot env.blake3) = some recorded ∨ s.root = some recorded

instance (s : St) : Decidable (Recorded env recorded s) := inferInstanceAs (Decidable (_ ∨ _))

/-- A scrub of a damaged section reports a mismatch. -/
def Reported (s : St) : Prop :=
  ∀ data, s.data = some data → data.length = original.length → data ≠ original →
    NoCollisions env.blake3 (hashedFor env.blake3 original ++ hashedFor env.blake3 data) →
      (scrubSegment env s true).1.merkleMismatch = true

def Visible (s : St) : Prop := Recorded env recorded s ∧ Reported env original s

end

/-! ### Heals that hide nothing -/

section

variable (env : Env) (original : Bytes) (recorded : HashOutput)

/-- What the worker cuts into shards. -/
def fullData (s : St) (io : HealIo) : Bytes :=
  if s.data.getD [] = [] then io.remote.getD [] else s.data.getD []

/-- The heal fails before it writes: there is no geometry, no byte for each shard, or more than `m`
shards are listed. -/
def Stops (data : Bytes) (indices : List ℕ) : Prop :=
  env.k = 0 ∨ 256 ≤ env.k.toNat + env.m.toNat ∨ pieceSize env.k env.m data = 0 ∧ data ≠ [] ∨
    env.m.toNat < ((List.range (env.k.toNat + env.m.toNat)).filter (· ∈ indices)).length

/-- The shards that are written, one after the other: those before the first one that is not a data
shard. -/
def writtenShards (data : Bytes) (indices : List ℕ) : List ℕ :=
  if pieceSize env.k env.m data = 0 then []
  else (indices.filter (· < env.k.toNat + env.m.toNat)).takeWhile (· < env.k.toNat)

/-- The data differs from the original in one shard only, and the shards from which that one is
decoded are those of the original's code word. -/
def DecodesTo (data : Bytes) (indices : List ℕ) (i : ℕ) : Prop :=
  let size := pieceSize env.k env.m data
  let pieces := (List.range env.k.toNat).map (piece size original)
  data.length = original.length ∧ (∀ b < data.length, b / size ≠ i → data[b]? = original[b]?) ∧
    ∀ j ∈ ((List.range (env.k.toNat + env.m.toNat)).filter (· ∉ indices)).take env.k.toNat,
      (pieces ++ parityShards env.k env.m pieces size).getD j [] = piece size data j

/-- The data section is as it was sealed if nothing is written; otherwise the shard written last
completes it. -/
def LeavesOriginal (s : St) (io : HealIo) (indices : List ℕ) : Prop :=
  ((io.performed (writtenShards env (fullData s io) indices)).getLast?).elim
    (s.data = some original) (DecodesTo env original (fullData s io) indices)

/-- All listed shards are data shards, and no write and no refresh fails. -/
def Completes (s : St) (io : HealIo) (indices : List ℕ) : Prop :=
  (∀ i ∈ indices, i < env.k.toNat + env.m.toNat → i < env.k.toNat) ∧
    io.performed (writtenShards env (fullData s io) indices) =
      writtenShards env (fullData s io) indices ∧
    io.refreshOk = true

def HealSafe (s : St) (io : HealIo) (indices : List ℕ) : Prop :=
  io.readOk = false ∨ Stops env (fullData s io) indices ∨ LeavesOriginal env original s io indices ∨
    s.root = some recorded ∧ ¬ Completes env s io indices

instance (data : Bytes) (indices : List ℕ) : Decidable (Stops env data indices) :=
  inferInstanceAs (Decidable (_ ∨ _ ∨ _ ∨ _))

instance (data : Bytes) (indices : List ℕ) (i : ℕ) :
    Decidable (DecodesTo env original data indices i) :=
  inferInstanceAs (Decidable (_ ∧ (∀ b < _, _ → _) ∧ ∀ j ∈ List.take _ _, _))

instance (s : St) (io : HealIo) (indices : List ℕ) :
    Decidable (LeavesOriginal env original s io indices) :=
  match h : (io.performed (writtenShards env (fullData s io) indices)).getLast? with
  | none => decidable_of_iff (s.data = some original) (by rw [LeavesOriginal, h]; rfl)
  | some i => decidable_of_iff (DecodesTo env original (fullData s io) indices i)
      (by rw [LeavesOriginal, h]; rfl)

instance (s : St) (io : HealIo) (indices : List ℕ) : Decidable (Completes env s io indices) :=
  inferInstanceAs (Decidable (_ ∧ _ ∧ _))

instance (s : St) (io : HealIo) (indices : List ℕ) :
    Decidable (HealSafe env original recorded s io indices) :=
  inferInstanceAs (Decidable (_ ∨ _ ∨ _ ∨ _ ∧ _))

/-- A heal is taken up only when it fails before it writes, leaves the original, or fails while the
root is still recorded. -/
def Safe (s : St) : Act → Prop
  | .heal i io => ∀ r ∈ s.queue[i]?, HealSafe env original recorded s io r.corruptShardIndices
  | _ => True

instance (s : St) : DecidablePred (Safe env original recorded s) := fun a => by
  cases a <;> unfold Safe <;> infer_instance

end

/-! ### Roots of damaged data -/

section

variable {blake3 : Bytes → HashOutput} {data original : Bytes}

lemma length_chunks (size : ℕ) (h : data.length = original.length) :
    (chunks size data).length = (chunks size original).length := by
  rw [chunks, chunks, length_map, length_map, length_range, length_range, h]

lemma eq_of_merkleRoot (hlen : data.length = original.length)
    (hcoll : NoCollisions blake3 (hashedFor blake3 original ++ hashedFor blake3 data))
    (h : merkleRoot blake3 data = merkleRoot blake3 original) : data = original := by
  have hchunks := length_chunks defaultLeafSize hlen
  have hleaves : leafHashes blake3 data = leafHashes blake3 original := by
    rw [merkleRoot, merkleRoot, ← hchunks] at h
    refine Merkle.root_inj (by simp [leafHashes, hchunks]) (by simp [leafHashes]) ?_ h
    intro p hp q hq hpq
    rw [hchunks] at hq
    have hstring : p.1.val ++ p.2.val = q.1.val ++ q.2.val := by
      refine hcoll _ (mem_append_right _ (mem_append_right _ ?_)) _
        (mem_append_left _ (mem_append_right _ ?_)) hpq
      · exact List.mem_map.mpr ⟨p, hp, rfl⟩
      · exact List.mem_map.mpr ⟨q, hq, rfl⟩
    obtain ⟨h1, h2⟩ := append_inj hstring (p.1.property.trans q.1.property.symm)
    exact Prod.ext (Subtype.ext h1) (Subtype.ext h2)
  have hpieces : chunks defaultLeafSize data = chunks defaultLeafSize original := by
    refine ext_getElem hchunks fun i hi hi' => ?_
    refine hcoll _ (mem_append_right _ (mem_append_left _ (getElem_mem hi))) _
      (mem_append_left _ (mem_append_left _ (getElem_mem hi'))) ?_
    have hget : (leafHashes blake3 data)[i]? = (leafHashes blake3 original)[i]? := by
      rw [hleaves]
    rw [leafHashes, leafHashes, getElem?_map, getElem?_map,
      getElem?_eq_getElem hi, getElem?_eq_getElem hi'] at hget
    exact some.inj hget
  have hsize : defaultLeafSize ≠ 0 := by decide
  rw [← Slices.flatten_slices hsize data, ← Slices.flatten_slices hsize original]
  exact congrArg List.flatten hpieces

lemma isSome_merkleRoot (h : data ≠ []) : (merkleRoot blake3 data).isSome = true := by
  refine Merkle.isSome_root _ (ne_nil_of_length_pos ?_)
  have hpos : 0 < data.length := length_pos_iff.mpr h
  rw [leafHashes, chunks, length_map, length_map, length_range, defaultLeafSize]
  omega

end

section

variable {env : Env} {original : Bytes} {recorded : HashOutput} {s : St}

/-- The data section is the original, or the registry entry records its root. -/
def Kept (original : Bytes) (recorded : HashOutput) (s : St) : Prop :=
  s.data = some original ∨ s.root = some recorded

lemma Kept.visible (hroot : merkleRoot env.blake3 original = some recorded)
    (h : Kept original recorded s) : Visible env original recorded s := by
  refine ⟨h.imp_left fun hdata =>
    bind_eq_some_iff.mpr ⟨original, hdata, hroot⟩, ?_⟩
  intro data hdata hlen hne hcoll
  have hrec : s.root = some recorded := h.resolve_left fun horig =>
    hne (some.inj (hdata.symm.trans horig))
  have hnil : data ≠ [] := by
    rintro rfl
    obtain rfl : original = [] := eq_nil_of_length_eq_zero hlen.symm
    exact hne rfl
  obtain ⟨computed, hcomputed⟩ := isSome_iff_exists.mp
    (@isSome_merkleRoot env.blake3 _ hnil)
  have hdiff : computed ≠ recorded := by
    rintro rfl
    exact hne (eq_of_merkleRoot hlen hcoll (hcomputed.trans hroot.symm))
  -- the root is a variable in what follows: the kernel would evaluate it for the match
  obtain ⟨rootOf, hrootOf⟩ : ∃ f, merkleRoot env.blake3 = f := ⟨_, rfl⟩
  unfold scrubSegment
  rw [hrootOf] at hcomputed ⊢
  simp only [Bool.not_true, Bool.false_eq_true, if_false, hdata, hcomputed, hrec, hdiff]

end

/-! ### What a heal does -/

section

variable {env : Env} {original data : Bytes} {recorded : HashOutput} {s : St} {io : HealIo}
variable {indices : List ℕ}

lemma available_eq_surviving (k m : UInt8) (size : ℕ) :
    ((List.range (k.toNat + m.toNat)).map fun i =>
        if indices.contains i then none else some (piece size data i)) =
      surviving (· ∉ indices) ((List.range (k.toNat + m.toNat)).map (piece size data)) := by
  rw [surviving_eq, length_map, length_range]
  refine map_congr_left fun i hi => ?_
  rw [getD_pieces (mem_range.mp hi)]
  by_cases hmem : i ∈ indices <;> simp [hmem]

lemma length_not_listed (indices : List ℕ) (k m : ℕ) :
    ((List.range (k + m)).filter (· ∈ indices)).length ≤ m ↔
      k ≤ ((List.range (k + m)).filter (· ∉ indices)).length := by
  have hsplit := Lists.length_filter_add (· ∈ indices) (List.range (k + m))
  rw [length_range] at hsplit
  omega

lemma decode_of_few {k m : UInt8} {shards : List Bytes} {keep : ℕ → Bool}
    (hlen : shards.length = k.toNat + m.toNat)
    (hfew : ((List.range (k.toNat + m.toNat)).filter keep).length < k.toNat) :
    ∃ failure, decode (surviving keep shards) k m = .error failure := by
  have htotal : (surviving keep shards).length = k.toNat + m.toNat := by simp [surviving, hlen]
  rw [decode, htotal, presentShards_surviving, hlen]
  simp only [ne_eq, not_true_eq_false, if_false, hfew, if_true]
  exact ⟨_, rfl⟩

lemma executeHeal_of_stops {localData : Bytes} {remote : Option Bytes}
    (h : Stops env (if localData = [] then remote.getD [] else localData) indices) :
    ∃ e, executeHeal env.k env.m localData remote indices = ⟨[], .error e⟩ := by
  unfold executeHeal
  by_cases hk : env.k = 0
  · exact ⟨_, if_pos hk⟩
  rw [if_neg hk]
  by_cases h256 : 256 ≤ env.k.toNat + env.m.toNat
  · exact ⟨_, if_pos h256⟩
  rw [if_neg h256]
  generalize (if localData = [] then remote.getD [] else localData) = data at *
  by_cases hsize : pieceSize env.k env.m data = 0 ∧ data ≠ []
  · exact ⟨_, if_pos hsize⟩
  simp only [hsize, if_false]
  have hmany : env.m.toNat <
      ((List.range (env.k.toNat + env.m.toNat)).filter (· ∈ indices)).length := by
    rcases h with h | h | h | h
    · exact absurd h hk
    · exact absurd h h256
    · exact absurd h hsize
    · exact h
  have hfew := Nat.lt_of_not_le (mt (length_not_listed indices env.k.toNat env.m.toNat).mpr
    (Nat.not_le.mpr hmany))
  obtain ⟨failure, hdec⟩ := @decode_of_few env.k env.m
    ((List.range (env.k.toNat + env.m.toNat)).map (piece (pieceSize env.k env.m data) data)) _
    (by simp) hfew
  rw [available_eq_surviving, hdec]
  exact ⟨_, rfl⟩

/-- **The loop over the listed shards**: it writes those before the first that is not a data shard,
and fails if there is one. -/
lemma repairShards_spec {size total k : ℕ} {recovered : List Bytes} (hlen : recovered.length = k)
    (hrec : ∀ i < k, (recovered.getD i []).length = size) :
    (repairShards size total data recovered indices).writes =
        (if size = 0 then [] else (indices.filter (· < total)).takeWhile (· < k)).map
          (fun i => splice size data i (recovered.getD i [])) ∧
      ((∃ n, (repairShards size total data recovered indices).result = .ok n) ↔
        ∀ i ∈ indices, i < total → i < k) := by
  induction indices with
  | nil => simp [repairShards]
  | cons i rest ih =>
    obtain ⟨hwrites, hresult⟩ := ih
    by_cases hout : total ≤ i
    · rw [repairShards, if_pos hout, filter_cons_of_neg (by simpa using hout)]
      refine ⟨hwrites, hresult.trans ?_⟩
      rw [forall_mem_cons]
      exact ⟨fun h => ⟨fun hlt => by omega, h⟩, fun h => h.2⟩
    have hin : i < total := by omega
    rw [repairShards, if_neg hout, filter_cons_of_pos (by simpa using hin)]
    by_cases hk : i < k
    · have hget : recovered[i]? = some (recovered.getD i []) := by
        rw [getD_eq_getElem?_getD, getElem?_eq_getElem (hlen.symm ▸ hk), getD_some]
      have hforall : (∀ j ∈ i :: rest, j < total → j < k) ↔ ∀ j ∈ rest, j < total → j < k := by
        rw [forall_mem_cons]
        exact ⟨fun h => h.2, fun h => ⟨fun _ => hk, h⟩⟩
      rw [hget, takeWhile_cons_of_pos (by simpa using hk), hforall]
      have hshard := hrec i hk
      cases hr : recovered.getD i [] with
      | nil =>
        have hzero : size = 0 := by rw [← hshard, hr, length_nil]
        simp only [hzero, if_true, map_nil] at hwrites ⊢
        rw [hzero] at hresult
        exact ⟨hwrites, hresult⟩
      | cons c cs =>
        have hpos : size ≠ 0 := by
          rw [← hshard, hr, length_cons]
          omega
        simp only [hpos, if_false] at hwrites ⊢
        refine ⟨by rw [hwrites, map_cons, hr], ?_⟩
        rw [← hresult]
        cases (repairShards size total data recovered rest).result <;> simp [Except.map]
    · have hget : recovered[i]? = none := getElem?_eq_none (by omega)
      rw [hget, takeWhile_cons_of_neg (by simpa using hk)]
      refine ⟨by simp, iff_of_false (by simp) fun h => hk (h i mem_cons_self hin)⟩

/-- **A heal that does not stop**: what it writes, and when it completes. The shards are decoded
from the first `k` that are not listed. -/
lemma executeHeal_spec {localData : Bytes} {remote : Option Bytes}
    (hdata : data = if localData = [] then remote.getD [] else localData)
    (h : ¬ Stops env data indices) :
    ∃ recovered : List Bytes,
      (executeHeal env.k env.m localData remote indices).writes =
          (writtenShards env data indices).map
            (fun i => splice (pieceSize env.k env.m data) data i (recovered.getD i [])) ∧
        ((∃ n, (executeHeal env.k env.m localData remote indices).result = .ok n) ↔
          ∀ i ∈ indices, i < env.k.toNat + env.m.toNat → i < env.k.toNat) ∧
        ∀ d, (d.length = env.k.toNat ∧ (∀ x ∈ d, x.length = pieceSize env.k env.m data) ∧
          ∀ j ∈ ((List.range (env.k.toNat + env.m.toNat)).filter (· ∉ indices)).take env.k.toNat,
            (d ++ parityShards env.k env.m d (pieceSize env.k env.m data)).getD j [] =
              piece (pieceSize env.k env.m data) data j) → recovered = d := by
  simp only [Stops, not_or] at h
  obtain ⟨hk, h256, hsize, hfew⟩ := h
  have hkeep := (length_not_listed indices env.k.toNat env.m.toNat).mp (Nat.le_of_not_lt hfew)
  have hshards : ∀ i < env.k.toNat + env.m.toNat,
      (((List.range (env.k.toNat + env.m.toNat)).map
        (piece (pieceSize env.k env.m data) data)).getD i []).length =
          pieceSize env.k env.m data := by
    intro i hi
    rw [getD_pieces hi, length_piece (piece_end_le hi)]
  obtain ⟨recovered, hdec, hlen, hrec, -⟩ := exists_decode hk (by omega)
    (by simp : ((List.range (env.k.toNat + env.m.toNat)).map
      (piece (pieceSize env.k env.m data) data)).length = _) hshards hkeep
  have hheal : executeHeal env.k env.m localData remote indices =
      repairShards (pieceSize env.k env.m data) (env.k.toNat + env.m.toNat) data recovered
        indices := by
    unfold executeHeal
    rw [if_neg hk, if_neg h256]
    simp only [← hdata, hsize, if_false, available_eq_surviving, hdec]
  obtain ⟨hwrites, hresult⟩ := @repairShards_spec data indices _
    (env.k.toNat + env.m.toNat) _ recovered hlen hrec
  refine ⟨recovered, ?_, ?_, fun d ⟨hdlen, hdsize, hdword⟩ => ?_⟩
  · rw [hheal, hwrites, writtenShards]
  · rw [hheal, hresult]
  · refine Except.ok.inj (hdec.symm.trans ((decode_eq_ok_iff hk (by omega) (by simp) hshards
      hkeep).mpr ⟨hdlen, hdsize, fun j hj => ?_⟩))
    rw [hdword j hj, getD_pieces]
    exact mem_range.mp (mem_of_mem_filter (mem_of_mem_take hj))

lemma performed_map {α β : Type} (io : HealIo) (f : α → β) (l : List α) :
    io.performed (l.map f) = (io.performed l).map f := by
  unfold HealIo.performed
  split
  · rfl
  · exact map_take.symm

lemma performed_eq_of_length {α : Type} {io : HealIo} {l : List α}
    (h : ¬ (io.performed l).length < l.length) : io.performed l = l := by
  unfold HealIo.performed at *
  split at h
  · rfl
  · rw [length_take] at h
    exact take_of_length_le (by omega)

lemma heal_spec (hread : io.readOk = true) :
    (heal env io indices s).1.data = ((io.performed
        (executeHeal env.k env.m (s.data.getD []) io.remote indices).writes).getLast?).or s.data ∧
      ((heal env io indices s).1.root = s.root ∨
        io.performed (executeHeal env.k env.m (s.data.getD []) io.remote indices).writes =
            (executeHeal env.k env.m (s.data.getD []) io.remote indices).writes ∧
          (∃ n, (executeHeal env.k env.m (s.data.getD []) io.remote indices).result = .ok n) ∧
          io.refreshOk = true) := by
  unfold heal
  simp only [hread, Bool.not_true, Bool.false_eq_true, if_false]
  split
  · exact ⟨rfl, .inl rfl⟩
  · rename_i hall
    cases hresult : (executeHeal env.k env.m (s.data.getD []) io.remote indices).result with
    | error e => exact ⟨rfl, .inl rfl⟩
    | ok n =>
      by_cases hrefresh : io.refreshOk = true
      · simp only [hrefresh, if_true]
        exact ⟨trivial, .inr ⟨performed_eq_of_length hall, ⟨n, rfl⟩, trivial⟩⟩
      · simp only [hrefresh]
        exact ⟨rfl, .inl rfl⟩

lemma heal_original (hread : io.readOk = true) (hstops : ¬ Stops env (fullData s io) indices)
    (h : LeavesOriginal env original s io indices) :
    (heal env io indices s).1.data = some original := by
  obtain ⟨recovered, hwrites, -, hunique⟩ :=
    @executeHeal_spec env (fullData s io) indices (s.data.getD []) io.remote rfl hstops
  rw [(heal_spec hread).1, hwrites, performed_map, getLast?_map]
  unfold LeavesOriginal at h
  cases hlast : (io.performed (writtenShards env (fullData s io) indices)).getLast? with
  | none =>
    rw [hlast] at h
    exact h
  | some i =>
    rw [hlast] at h
    obtain ⟨hlen, hsame, hword⟩ := h
    -- the shard that is written last is a data shard, and shards are not empty
    have hmem : i ∈ writtenShards env (fullData s io) indices := by
      have hin := mem_of_getLast? hlast
      unfold HealIo.performed at hin
      split at hin
      · exact hin
      · exact mem_of_mem_take hin
    unfold writtenShards at hmem
    split at hmem
    · simp at hmem
    rename_i hsize
    have hdec := mem_takeWhile_imp hmem
    have hik : i < env.k.toNat := of_decide_eq_true hdec
    have hend : (i + 1) * pieceSize env.k env.m (fullData s io) ≤ original.length := by
      rw [← hlen]
      exact piece_end_le (by omega)
    have hrec := hunique ((List.range env.k.toNat).map
      (piece (pieceSize env.k env.m (fullData s io)) original)) ⟨by simp, ?_, hword⟩
    · have hget : recovered.getD i [] =
          piece (pieceSize env.k env.m (fullData s io)) original i := by
        rw [hrec]
        simp [getD_eq_getElem?_getD, hik]
      rw [map_some, hget, some_or]
      refine congrArg some (splice_eq (Nat.pos_of_ne_zero hsize) hlen hend (fun b hb => ?_) rfl)
      rcases Nat.lt_or_ge b (fullData s io).length with hlt | hge
      · exact hsame b hlt hb
      · rw [getElem?_eq_none hge, getElem?_eq_none (hlen ▸ hge)]
    · intro x hx
      obtain ⟨j, hj, rfl⟩ := List.mem_map.mp hx
      refine length_piece ?_
      rw [← hlen]
      exact piece_end_le (Nat.lt_add_right _ (mem_range.mp hj))

lemma Kept.heal (h : Kept original recorded s) (hsafe : HealSafe env original recorded s io indices)
    :
    Kept original recorded (heal env io indices s).1 := by
  by_cases hread : io.readOk = true
  swap
  · rw [Healing.heal]
    simpa [hread] using h
  by_cases hstops : Stops env (fullData s io) indices
  · obtain ⟨e, hout⟩ := executeHeal_of_stops hstops
    have hspec := @heal_spec env s io indices hread
    rw [hout] at hspec
    obtain ⟨hdata, hroot | ⟨-, ⟨n, hn⟩, -⟩⟩ := hspec
    · have hnil : io.performed ([] : List Bytes) = [] := by
        unfold HealIo.performed
        split <;> simp
      rw [hnil, getLast?_nil, none_or] at hdata
      exact h.imp (hdata.trans ·) (hroot.trans ·)
    · cases hn
  rcases hsafe with hread' | hstops' | hleaves | ⟨hrec, hcomplete⟩
  · rw [hread] at hread'
    cases hread'
  · exact absurd hstops' hstops
  · exact .inl (heal_original hread hstops hleaves)
  · refine .inr ?_
    obtain hroot | ⟨hall, hok, hrefresh⟩ := (@heal_spec env s io indices hread).2
    · exact hroot.trans hrec
    · obtain ⟨recovered, hwrites, hresult, -⟩ :=
        @executeHeal_spec env (fullData s io) indices (s.data.getD []) io.remote rfl hstops
      have hlength := congrArg List.length hall
      rw [hwrites, performed_map, length_map, length_map] at hlength
      exact absurd ⟨hresult.mp hok, performed_eq_of_length (by omega), hrefresh⟩ hcomplete

lemma Kept.enqueue (h : Kept original recorded s) (r : HealRequest) :
    Kept original recorded (s.enqueue env r) := by
  unfold St.enqueue
  split_ifs
  · exact h
  · exact h

lemma Kept.scrub (h : Kept original recorded s) (readOk : Bool) :
    Kept original recorded (scrubSegment env s readOk).2 := by
  obtain ⟨rootOf, hrootOf⟩ : ∃ f, merkleRoot env.blake3 = f := ⟨_, rfl⟩
  unfold scrubSegment
  rw [hrootOf]
  split_ifs
  · exact h
  split
  · exact h
  split
  · exact h
  split
  · exact h
  split_ifs
  · exact h
  · exact h.enqueue _

lemma Kept.step {a : Act} {s' : St} (h : Kept original recorded s)
    (hsafe : Safe env original recorded s a) (hs : Healing.step env s a = some s') :
    Kept original recorded s' := by
  cases a with
  | scrub readOk =>
    obtain rfl := some.inj hs
    exact h.scrub readOk
  | continuousCycle tracked exchange =>
    obtain rfl := some.inj hs
    split_ifs
    · exact h.enqueue _
    · exact h
  | samplingCycle tracked exchange =>
    obtain rfl := some.inj hs
    split_ifs
    · exact h.enqueue _
    · exact h
  | request indices =>
    obtain rfl := some.inj hs
    exact h.enqueue _
  | heal i io =>
    obtain ⟨r, hr, rfl⟩ := map_eq_some_iff.mp hs
    have hheal := @Kept.heal env original recorded { s with queue := s.queue.eraseIdx i } io
      r.corruptShardIndices h (hsafe r hr)
    simp only
    split_ifs
    · exact hheal
    · exact hheal.enqueue _

end

/-- **Healing hides no corruption**, in runs whose heals are safe. -/
theorem corruption_visible (env : Env) (original : Bytes) (recorded : HashOutput)
    (hroot : merkleRoot env.blake3 original = some recorded) (damaged : Option Bytes)
    (queue : List HealRequest) (as : List Act)
    (hsafe : Runs.Guarded (step env) (Safe env original recorded)
      ⟨damaged, some recorded, queue⟩ as) :
    Runs.Always (step env) (Visible env original recorded) ⟨damaged, some recorded, queue⟩ as := by
  have hstep : ∀ s a s', Kept original recorded s → Safe env original recorded s a →
      step env s a = some s' → Kept original recorded s' := fun s a s' h hs hs' => h.step hs hs'
  have himp : ∀ s, Kept original recorded s → Visible env original recorded s :=
    fun s h => h.visible hroot
  exact Runs.always_of_guarded hstep himp (.inr rfl) hsafe

/-- One data shard and one parity shard of one byte. -/
def mirrored : Env := ⟨prefixHash, 1, 1, 8, 3⟩

def healsWell : HealIo := ⟨true, none, none, true⟩

/-- The scrubber finds the damaged shard, the heal restores it, and the request that anti-entropy
makes afterwards changes nothing. -/
theorem scrubbed_shard_healed :
    Runs.Always (step mirrored) (Visible mirrored [6, 2] (prefixHash [6, 2]))
      ⟨some [9, 2], some (prefixHash [6, 2]), []⟩
      [.scrub true, .heal 0 healsWell, .continuousCycle true none, .heal 0 healsWell,
        .scrub true] :=
  corruption_visible mirrored [6, 2] (prefixHash [6, 2]) (by decide +kernel) (some [9, 2]) [] _
    (by decide +kernel)

/-- Anti-entropy asks for a heal without naming a shard: nothing is repaired, and the root is
cleared. -/
theorem empty_request_hides_damage :
    merkleRoot mirrored.blake3 [6, 2] = some (prefixHash [6, 2]) ∧
      ¬ Runs.Always (step mirrored) (Recorded mirrored (prefixHash [6, 2]))
        ⟨some [9, 2], some (prefixHash [6, 2]), []⟩
        [.continuousCycle true (some false), .heal 0 healsWell] := by
  decide +kernel

end OceanFs.Durability.Healing
