import OceanFs.Ec.Inverse
import OceanFs.Lib.CauchyCode
import OceanFs.Lib.Lists

/-!
The Cauchy Reed-Solomon codec.

Parity `i` is the sum of the data shards with the coefficients `1 / (x j + y i)`, where the points
are the numbers `1 … k + m` as bytes. Any `k` of the `k + m` shards give back the data.
-/

namespace OceanFs.Ec

open OceanFs.Core Lib Lib.CarryLess Lib.CauchyCode List

/-! ### The matrices -/

def cauchyMatrix4x2 : List UInt8 :=
  [0x47, 0xba, 0x7a, 0x01,
   0xba, 0x47, 0xa7, 0x8e]

def cauchyMatrix6x3 : List UInt8 :=
  [0x7a, 0xa7, 0x47, 0xf4, 0x8e, 0x01,
   0x9d, 0xdd, 0x98, 0x3d, 0xaa, 0x5d,
   0xad, 0x98, 0xdd, 0xaa, 0x3d, 0x96]

def cauchyMatrix8x4 : List UInt8 :=
  [0xad, 0x98, 0xdd, 0xaa, 0x3d, 0x96, 0x5d, 0x01,
   0x98, 0xad, 0x9d, 0x5d, 0x96, 0x3d, 0xaa, 0x8e,
   0xdd, 0x9d, 0xad, 0x96, 0x5d, 0xaa, 0x3d, 0xf4,
   0xaa, 0x5d, 0x96, 0xad, 0x9d, 0xdd, 0x98, 0x47]

def cauchyMatrix10x6 : List UInt8 :=
  [0xdd, 0x9d, 0xad, 0x96, 0x5d, 0xaa, 0x3d, 0xf4, 0x8e, 0x01,
   0xaa, 0x5d, 0x96, 0xad, 0x9d, 0xdd, 0x98, 0x47, 0xa7, 0x7a,
   0x3d, 0x96, 0x5d, 0x9d, 0xad, 0x98, 0xdd, 0xa7, 0x47, 0xba,
   0x96, 0x3d, 0xaa, 0xdd, 0x98, 0xad, 0x9d, 0x7a, 0xba, 0x47,
   0x5d, 0xaa, 0x3d, 0x98, 0xdd, 0x9d, 0xad, 0xba, 0x7a, 0xa7,
   0x72, 0xc0, 0x58, 0xe0, 0x3e, 0x4c, 0x66, 0x90, 0xde, 0x55]

/-- `get_const_cauchy_matrix`: the matrices that are stored, row after row. -/
def getConstCauchyMatrix (k m : UInt8) : Option (List UInt8) :=
  if k = 4 ∧ m = 2 then some cauchyMatrix4x2
  else if k = 6 ∧ m = 3 then some cauchyMatrix6x3
  else if k = 8 ∧ m = 4 then some cauchyMatrix8x4
  else if k = 10 ∧ m = 6 then some cauchyMatrix10x6
  else none

/-- The points of the data and of the parity shards, as bytes. -/
def xPoint (j : ℕ) : UInt8 := .ofNat (j + 1)

def yPoint (k i : ℕ) : UInt8 := .ofNat (k + i + 1)

/-- `compute_cauchy_matrix`, which panics when two of the points are equal. -/
def computeCauchyMatrix (k m : UInt8) : Option (List (List Gf8)) :=
  (List.range m.toNat).mapM fun i => (List.range k.toNat).mapM fun j =>
    (gfInv (gfAdd (xPoint j) (yPoint k.toNat i))).map Gf8.mk

def cauchyMatrix (k m : UInt8) : Option (List (List Gf8)) :=
  match getConstCauchyMatrix k m with
  | some flat => some ((List.range m.toNat).map fun i =>
      ((flat.drop (i * k.toNat)).take k.toNat).map Gf8.mk)
  | none => computeCauchyMatrix k m

/-- The identity over the Cauchy matrix. -/
def generatorMatrix (k m : UInt8) : Option (List (List Gf8)) :=
  (cauchyMatrix k m).map fun cauchy =>
    ((List.range k.toNat).map fun i => (List.range k.toNat).map fun j => if j = i then 1 else 0) ++
      (List.range m.toNat).map fun i => (List.range k.toNat).map (entry cauchy i)

/-! ### Encoding and decoding -/

inductive EcError
  | notEnoughShards (needed available : ℕ)
  | invalidConfig (message : String)
  | shardSizeMismatch (expected actual : ℕ)
  | decodingFailed (message : String)
  deriving DecidableEq

/-- How a call ends without a result. -/
inductive Failure
  | error (err : EcError)
  | panic
  deriving DecidableEq

abbrev Outcome := Except Failure

@[simp] lemma ok_bind {α β : Type} (a : α) (f : α → Outcome β) :
    (Except.ok a : Outcome α) >>= f = f a := rfl

@[simp] lemma error_bind {α β : Type} (e : Failure) (f : α → Outcome β) :
    (Except.error e : Outcome α) >>= f = .error e := rfl

def dot (row column : List Gf8) : Gf8 := (List.zipWith (· * ·) row column).foldl (· + ·) 0

/-- The bytes of the shards at one place. -/
def byteColumn (shards : List Bytes) (b : ℕ) : List Gf8 := shards.map fun s => ⟨s.getD b 0⟩

/-- The sums of the shards with the coefficients of each row. -/
def combine (rows : List (List Gf8)) (shards : List Bytes) (size : ℕ) : List Bytes :=
  rows.map fun row => (List.range size).map fun b => (dot row (byteColumn shards b)).byte

/-- What multiplies the bytes of a slice by a coefficient: `gf_mul` byte by byte, or a vector
kernel. -/
abbrev Kernel := UInt8 → Bytes → Bytes

def scalarKernel : Kernel := fun coeff data => data.map (gfMul coeff)

/-- A parity shard: the products are added to a zeroed buffer, one data shard after another. -/
def accumulate (kernel : Kernel) (row : List Gf8) (dataShards : List Bytes) (size : ℕ) : Bytes :=
  (List.zipWith (fun coeff shard => kernel coeff.byte shard) row dataShards).foldl
    (List.zipWith gfAdd) (List.replicate size 0)

def encodeCauchy (kernel : Kernel) (k m : UInt8) (dataShards : List Bytes) :
    Outcome (List Bytes) :=
  match cauchyMatrix k m with
  | none => .error .panic
  | some cm =>
    let shardSize := (dataShards.headD []).length
    .ok (cm.map fun row => accumulate kernel row dataShards shardSize)

/-- `Encoder::encode` of a codec for `k` data shards. -/
def encode (kernel : Kernel) (k : UInt8) (dataShards : List Bytes) (parityCount : UInt8) :
    Outcome (List Bytes) :=
  let expected := k.toNat
  let got := dataShards.length
  if got ≠ expected then
    .error (.error (.invalidConfig s!"expected {expected} data shards, got {got}"))
  else if dataShards.isEmpty then .ok []
  else
    let shardSize := (dataShards.headD []).length
    match dataShards.find? (·.length ≠ shardSize) with
    | some shard => .error (.error (.shardSizeMismatch shardSize shard.length))
    | none => encodeCauchy kernel k parityCount dataShards

variable (available : List (Option Bytes))

/-- The shards that are there, in order. -/
def presentShards : List ℕ :=
  (List.range available.length).filter fun i => (available.getD i none).isSome

/-- The bytes of a shard that is there. -/
def shardAt (i : ℕ) : Bytes := (available.getD i none).getD []

/-- `Decoder::decode`. Without any shard there is no first one to take the size from, and a shard
that is shorter than the first one is read beyond its end. -/
def decode (dataCount parityCount : UInt8) :
    Outcome (List Bytes) :=
  let k := dataCount.toNat
  let total := k + parityCount.toNat
  let got := available.length
  if got ≠ total then
    .error (.error (.invalidConfig s!"expected {total} available shards, got {got}"))
  else
    let present := presentShards available
    if present.length < k then .error (.error (.notEnoughShards k present.length))
    else match present, generatorMatrix dataCount parityCount with
      | [], _ => .error .panic
      | _, none => .error .panic
      | first :: _, some gen =>
        let shardSize := (shardAt available first).length
        let selected := present.take k
        let subData := selected.map (shardAt available)
        match invertMatrix (selected.map fun idx => gen.getD idx []) with
        | none => .error (.error (.decodingFailed "matrix is singular"))
        | some inv =>
          if subData.any (·.length < shardSize) then .error .panic
          else .ok (combine inv subData shardSize)

/-! ### The coefficients -/

lemma toNat_pos {k : UInt8} (h : k ≠ 0) : 0 < k.toNat :=
  Nat.pos_of_ne_zero fun h0 => h (UInt8.toNat_inj.mp h0)

section

variable {k m : UInt8}

lemma inv_mk {a b : UInt8} (h : gfInv a = some b) : (⟨a⟩ : Gf8)⁻¹ = ⟨b⟩ :=
  Gf8.ext (by change (gfInv a).getD 0 = b; rw [h]; rfl)

lemma eq_inv_of_gfMul {a b : UInt8} (h : gfMul b a = 1) : (⟨b⟩ : Gf8) = (⟨a⟩ : Gf8)⁻¹ :=
  eq_inv_of_mul_eq_one_left (Gf8.ext h)

/-- The points are `k + m` different numbers from 1 to 256, of which only 256 wraps. -/
lemma xPoint_ne_yPoint (h : k.toNat + m.toNat ≤ 256) {i j : ℕ} (hi : i < m.toNat)
    (hj : j < k.toNat) : gfAdd (xPoint j) (yPoint k.toNat i) ≠ 0 := by
  intro heq
  have hpt : xPoint j = yPoint k.toNat i := UInt8.xor_eq_zero_iff.mp heq
  have := congrArg UInt8.toNat hpt
  simp only [xPoint, yPoint, UInt8.toNat_ofNat', Nat.reducePow] at this
  omega

/-- The coefficient of data shard `j` in parity shard `i`. -/
def coefficient (k : UInt8) (i j : ℕ) : Gf8 := (⟨xPoint j⟩ + ⟨yPoint k.toNat i⟩)⁻¹

lemma computeCauchyMatrix_eq (h : k.toNat + m.toNat ≤ 256) :
    computeCauchyMatrix k m = some ((List.range m.toNat).map fun i =>
      (List.range k.toNat).map (coefficient k i)) := by
  refine Lists.mapM_eq_pure fun i hi => Lists.mapM_eq_pure fun j hj => ?_
  rw [mem_range] at hi hj
  obtain ⟨b, hb, -⟩ := gfMul_gfInv (xPoint_ne_yPoint h hi hj)
  rw [hb]
  exact congrArg some (inv_mk hb).symm

lemma computeCauchyMatrix_eq_none (h : 257 ≤ k.toNat + m.toNat) :
    computeCauchyMatrix k m = none := by
  have hk := k.toNat_lt
  have hm := m.toNat_lt
  -- the point of parity shard `256 - k` wraps to that of data shard 0
  refine Lists.mapM_eq_none ⟨256 - k.toNat, mem_range.mpr (by omega), ?_⟩
  refine Lists.mapM_eq_none ⟨0, mem_range.mpr (by omega), ?_⟩
  have hpoint : yPoint k.toNat (256 - k.toNat) = 1 := by
    rw [yPoint, show k.toNat + (256 - k.toNat) + 1 = 257 by omega]
    rfl
  rw [hpoint]
  rfl

lemma rows_eq_of_flat {flat : List UInt8} (hlen : flat.length = m.toNat * k.toNat)
    (h : ∀ i < m.toNat, ∀ j < k.toNat,
      reduce primitivePoly (clmul (flat.getD (i * k.toNat + j) 0).toNat
        (gfAdd (xPoint j) (yPoint k.toNat i)).toNat) = 1) :
    ((List.range m.toNat).map fun i => ((flat.drop (i * k.toNat)).take k.toNat).map Gf8.mk) =
      (List.range m.toNat).map fun i => (List.range k.toNat).map (coefficient k i) := by
  refine map_congr_left fun i hi => ?_
  rw [mem_range] at hi
  have hle : i * k.toNat + k.toNat ≤ flat.length := by
    rw [hlen, ← Nat.succ_mul]
    exact Nat.mul_le_mul_right _ hi
  refine ext_getElem (by simp; omega) fun j hj hj' => ?_
  have hj : j < k.toNat := by simpa using hj'
  have hmul := h i hi j hj
  rw [← gfMul_eq_reduce] at hmul
  have hinv := eq_inv_of_gfMul (UInt8.toNat_inj.mp hmul)
  have hidx : i * k.toNat + j < flat.length := by omega
  rw [getD_eq_getElem?_getD, getElem?_eq_getElem hidx] at hinv
  simpa [coefficient, Gf8.mk_add] using hinv

lemma cauchyMatrix_eq (h : k.toNat + m.toNat ≤ 256) :
    cauchyMatrix k m = some ((List.range m.toNat).map fun i =>
      (List.range k.toNat).map (coefficient k i)) := by
  unfold cauchyMatrix getConstCauchyMatrix
  split_ifs with h1 h2 h3 h4
  · obtain ⟨rfl, rfl⟩ := h1
    exact congrArg some (rows_eq_of_flat (by decide) (by decide +kernel))
  · obtain ⟨rfl, rfl⟩ := h2
    exact congrArg some (rows_eq_of_flat (by decide) (by decide +kernel))
  · obtain ⟨rfl, rfl⟩ := h3
    exact congrArg some (rows_eq_of_flat (by decide) (by decide +kernel))
  · obtain ⟨rfl, rfl⟩ := h4
    exact congrArg some (rows_eq_of_flat (by decide) (by decide +kernel))
  · exact computeCauchyMatrix_eq h

lemma cauchyMatrix_eq_none (h : 257 ≤ k.toNat + m.toNat) : cauchyMatrix k m = none := by
  unfold cauchyMatrix getConstCauchyMatrix
  split_ifs with h1 h2 h3 h4
  · obtain ⟨rfl, rfl⟩ := h1
    exact absurd h (by decide)
  · obtain ⟨rfl, rfl⟩ := h2
    exact absurd h (by decide)
  · obtain ⟨rfl, rfl⟩ := h3
    exact absurd h (by decide)
  · obtain ⟨rfl, rfl⟩ := h4
    exact absurd h (by decide)
  · exact computeCauchyMatrix_eq_none h

/-! ### Sums over shards -/

lemma dot_eq_sum {n : ℕ} {row column : List Gf8} (hr : row.length = n) (hc : column.length = n) :
    dot row column = ∑ i : Fin n, row.getD i 0 * column.getD i 0 := by
  have hsum : dot row column = (List.zipWith (· * ·) row column).sum := sum_eq_foldl.symm
  rw [hsum]
  clear hsum
  induction n generalizing row column with
  | zero =>
    rw [length_eq_zero_iff.mp hr]
    simp
  | succ n ih =>
    obtain ⟨a, row, rfl⟩ := exists_cons_of_length_eq_add_one hr
    obtain ⟨c, column, rfl⟩ := exists_cons_of_length_eq_add_one hc
    rw [Fin.sum_univ_succ, zipWith_cons_cons, sum_cons, ih (by simpa using hr) (by simpa using hc)]
    simp

/-- The byte of a shard at one place, as an element of the field. -/
def gfByte (shard : Bytes) (b : ℕ) : Gf8 := ⟨shard.getD b 0⟩

lemma length_combine {rows : List (List Gf8)} {shards : List Bytes} {size : ℕ} :
    (combine rows shards size).length = rows.length := by
  simp [combine]

lemma gfByte_combine {n size i b : ℕ} {rows : List (List Gf8)} {shards : List Bytes}
    (hi : i < rows.length) (hrow : (rows.getD i []).length = n) (hshards : shards.length = n)
    (hb : b < size) :
    gfByte ((combine rows shards size).getD i []) b =
      ∑ j : Fin n, entry rows i j * gfByte (shards.getD j []) b := by
  have hdot : gfByte ((combine rows shards size).getD i []) b =
      dot (rows.getD i []) (byteColumn shards b) := by
    simp [gfByte, combine, getD_eq_getElem?_getD, hi, hb]
  rw [hdot, dot_eq_sum hrow (by simpa [byteColumn] using hshards)]
  refine Finset.sum_congr rfl fun j _ => ?_
  have hj : (j : ℕ) < shards.length := by omega
  simp [entry, byteColumn, gfByte, getD_eq_getElem?_getD, hj]

lemma length_getD_combine {size i : ℕ} {rows : List (List Gf8)} {shards : List Bytes}
    (hi : i < rows.length) : ((combine rows shards size).getD i []).length = size := by
  simp [combine, getD_eq_getElem?_getD, hi]

lemma shard_ext {s t : Bytes} (hlen : s.length = t.length)
    (h : ∀ b < s.length, gfByte s b = gfByte t b) : s = t := by
  refine ext_getElem hlen fun b hb hb' => ?_
  have hbyte := congrArg Gf8.byte (h b hb)
  simpa [gfByte, getD_eq_getElem?_getD, hb, hb'] using hbyte

lemma shards_ext {n size : ℕ} {s t : List Bytes} (hs : s.length = n) (ht : t.length = n)
    (hs' : ∀ i < n, (s.getD i []).length = size) (ht' : ∀ x ∈ t, x.length = size)
    (h : ∀ b < size,
      (fun j : Fin n => gfByte (s.getD j []) b) = fun j : Fin n => gfByte (t.getD j []) b) :
    s = t := by
  refine ext_getElem (hs.trans ht.symm) fun i hi hi' => ?_
  have hsi : (s.get ⟨i, hi⟩).length = size := by
    have := hs' i (hs ▸ hi)
    rwa [getD_eq_getElem _ _ hi] at this
  refine shard_ext (hsi.trans (ht' _ (getElem_mem hi')).symm) fun b hb => ?_
  have hb : b < size := hsi ▸ hb
  have hbyte := congrFun (h b hb) ⟨i, hs ▸ hi⟩
  simpa only [getD_eq_getElem _ _ hi, getD_eq_getElem _ _ hi'] using hbyte

variable {size : ℕ}

lemma length_foldl_gfAdd {products : List Bytes} (h : ∀ p ∈ products, p.length = size) {acc : Bytes}
    (hacc : acc.length = size) :
    (products.foldl (List.zipWith gfAdd) acc).length = size := by
  induction products generalizing acc with
  | nil => exact hacc
  | cons p products ih =>
    obtain ⟨hp, hrest⟩ := forall_mem_cons.mp h
    exact ih hrest (by simp [hacc, hp])

lemma gfByte_foldl_gfAdd {size b : ℕ} (hb : b < size) {products : List Bytes}
    (h : ∀ p ∈ products, p.length = size) {acc : Bytes} (hacc : acc.length = size) :
    gfByte (products.foldl (List.zipWith gfAdd) acc) b =
      (products.map fun p => gfByte p b).foldl (· + ·) (gfByte acc b) := by
  induction products generalizing acc with
  | nil => rfl
  | cons p products ih =>
    obtain ⟨hp, hrest⟩ := forall_mem_cons.mp h
    have hstep : gfByte (List.zipWith gfAdd acc p) b = gfByte acc b + gfByte p b := by
      simp [gfByte, Gf8.mk_add, getD_eq_getElem?_getD, hacc, hp, hb]
    rw [foldl_cons, ih hrest (by simp [hacc, hp]), hstep, map_cons, foldl_cons]

section

variable {kernel : Kernel} {row : List Gf8} {dataShards : List Bytes} {size : ℕ}

section

variable (hkernel : ∀ c d, (kernel c d).length = d.length)
  (hsize : ∀ s ∈ dataShards, s.length = size)

include hkernel hsize

lemma length_products :
    ∀ p ∈ List.zipWith (fun coeff shard => kernel coeff.byte shard) row dataShards,
      p.length = size := by
  intro p hp
  rw [← map_uncurry_zip_eq_zipWith, mem_map] at hp
  obtain ⟨⟨c, s⟩, hcs, rfl⟩ := hp
  exact (hkernel _ _).trans (hsize s (of_mem_zip hcs).2)

lemma length_accumulate : (accumulate kernel row dataShards size).length = size :=
  length_foldl_gfAdd (length_products hkernel hsize) length_replicate

lemma gfByte_accumulate {b : ℕ} (hb : b < size) :
    gfByte (accumulate kernel row dataShards size) b =
      (List.zipWith (fun coeff shard => gfByte (kernel coeff.byte shard) b) row dataShards).foldl
        (· + ·) 0 := by
  have hzero : gfByte (List.replicate size 0) b = 0 := by
    simp [gfByte, getD_eq_getElem?_getD, hb]
    rfl
  rw [accumulate, gfByte_foldl_gfAdd hb (length_products hkernel hsize) length_replicate,
    map_zipWith, hzero]

end

lemma length_scalarKernel (c : UInt8) (d : Bytes) : (scalarKernel c d).length = d.length :=
  length_map _

lemma gfByte_scalarKernel (c : Gf8) (d : Bytes) (b : ℕ) :
    gfByte (scalarKernel c.byte d) b = c * gfByte d b := by
  have hzero : gfMul c.byte 0 = 0 := gfMul_zero c.byte
  rcases Nat.lt_or_ge b d.length with hb | hb
  · simp [gfByte, scalarKernel, getD_eq_getElem?_getD, hb]
    rfl
  · simp [gfByte, scalarKernel, getD_eq_getElem?_getD, hb]
    exact Gf8.ext hzero.symm

lemma accumulate_scalarKernel (hsize : ∀ s ∈ dataShards, s.length = size) :
    accumulate scalarKernel row dataShards size =
      (List.range size).map fun b => (dot row (byteColumn dataShards b)).byte := by
  have hlen : (accumulate scalarKernel row dataShards size).length = size :=
    length_accumulate length_scalarKernel hsize
  refine shard_ext (by simp [hlen]) fun b hb => ?_
  rw [hlen] at hb
  rw [gfByte_accumulate length_scalarKernel hsize hb]
  simp only [gfByte_scalarKernel]
  simp [gfByte, dot, byteColumn, getD_eq_getElem?_getD, hb, zipWith_map_right]

end

/-! ### Code words -/

/-- The rows of the generator matrix. -/
def generatorRows (k m : UInt8) : List (List Gf8) :=
  ((List.range k.toNat).map fun i => (List.range k.toNat).map fun j => if j = i then 1 else 0) ++
    (List.range m.toNat).map fun i => (List.range k.toNat).map (coefficient k i)

lemma generatorMatrix_eq (h : k.toNat + m.toNat ≤ 256) :
    generatorMatrix k m = some (generatorRows k m) := by
  rw [generatorMatrix, cauchyMatrix_eq h, Option.map_some, generatorRows]
  congr 2
  refine map_congr_left fun i hi => map_congr_left fun j hj => ?_
  rw [mem_range] at hi hj
  simp [entry, getD_eq_getElem?_getD, hi, hj]

/-- The points of the code. -/
def xs (k : UInt8) (j : Fin k.toNat) : Gf8 := ⟨xPoint j⟩

def ys (k m : UInt8) (i : Fin m.toNat) : Gf8 := ⟨yPoint k.toNat i⟩

lemma entry_generatorRows (idx : Fin (k.toNat + m.toNat)) (j : Fin k.toNat) :
    entry (generatorRows k m) idx j = row (xs k) (ys k m) (finSumFinEquiv.symm idx) j := by
  induction idx using Fin.addCases with
  | left i =>
    rw [finSumFinEquiv_symm_apply_castAdd]
    simp [entry, generatorRows, getD_eq_getElem?_getD, getElem?_append, row,
      Pi.single_apply, Fin.ext_iff]
  | right i =>
    rw [finSumFinEquiv_symm_apply_natAdd]
    simp [entry, generatorRows, getD_eq_getElem?_getD, row, coefficient, xs, ys, sub_eq_add]

lemma xs_injective : Function.Injective (xs k) := by
  intro i j h
  have := congrArg (fun a : Gf8 => a.byte.toNat) h
  have hk := k.toNat_lt
  simp only [xs, xPoint, UInt8.toNat_ofNat', Nat.reducePow] at this
  omega

lemma ys_injective (h : k.toNat + m.toNat ≤ 256) : Function.Injective (ys k m) := by
  intro i j hij
  have := congrArg (fun a : Gf8 => a.byte.toNat) hij
  simp only [ys, yPoint, UInt8.toNat_ofNat', Nat.reducePow] at this
  omega

lemma xs_ne_ys (h : k.toNat + m.toNat ≤ 256) (j : Fin k.toNat) (i : Fin m.toNat) :
    xs k j ≠ ys k m i := by
  intro hij
  have hbyte : xPoint j = yPoint k.toNat i := congrArg Gf8.byte hij
  exact xPoint_ne_yPoint h i.isLt j.isLt (by rw [gfAdd, hbyte, UInt8.xor_self])

/-- The parity shards of data shards of one size. -/
def parityShards (k m : UInt8) (dataShards : List Bytes) (size : ℕ) : List Bytes :=
  combine ((List.range m.toNat).map fun i => (List.range k.toNat).map (coefficient k i))
    dataShards size

variable {dataShards : List Bytes}

lemma length_parityShards :
    (parityShards k m dataShards size).length = m.toNat := by
  simp [parityShards, length_combine]

lemma encode_eq_encodeCauchy (kernel : Kernel) {dataShards : List Bytes} {size : ℕ} (hk : k ≠ 0)
    (hlen : dataShards.length = k.toNat) (hsize : ∀ s ∈ dataShards, s.length = size) :
    encode kernel k dataShards m = encodeCauchy kernel k m dataShards ∧
      (dataShards.headD []).length = size := by
  have hne : dataShards ≠ [] := by
    rintro rfl
    exact hk (UInt8.toNat_inj.mp hlen.symm)
  have hhead : (dataShards.headD []).length = size := by
    obtain ⟨s, rest, rfl⟩ := exists_cons_of_ne_nil hne
    exact hsize s mem_cons_self
  have hfind : dataShards.find? (·.length ≠ size) = none :=
    find?_eq_none.mpr fun s hs => by simp [hsize s hs]
  refine ⟨?_, hhead⟩
  simp only [encode, hlen, ne_eq, not_true_eq_false, if_false, List.isEmpty_iff, hne, hhead]
  simp only [ne_eq] at hfind
  rw [hfind]

lemma encode_eq (kernel : Kernel) {dataShards : List Bytes} {size : ℕ} (hk : k ≠ 0)
    (h : k.toNat + m.toNat ≤ 256) (hlen : dataShards.length = k.toNat)
    (hsize : ∀ s ∈ dataShards, s.length = size) :
    encode kernel k dataShards m = .ok ((List.range m.toNat).map fun i =>
      accumulate kernel ((List.range k.toNat).map (coefficient k i)) dataShards size) := by
  obtain ⟨hencode, hhead⟩ := encode_eq_encodeCauchy (m := m) kernel hk hlen hsize
  rw [hencode]
  simp only [encodeCauchy, cauchyMatrix_eq h, hhead, map_map, Function.comp_def]

lemma encode_scalarKernel (hk : k ≠ 0) (h : k.toNat + m.toNat ≤ 256)
    (hlen : dataShards.length = k.toNat) (hsize : ∀ s ∈ dataShards, s.length = size) :
    encode scalarKernel k dataShards m = .ok (parityShards k m dataShards size) := by
  rw [encode_eq scalarKernel hk h hlen hsize, parityShards, combine, map_map]
  refine congrArg Except.ok (map_congr_left fun i _ => ?_)
  exact accumulate_scalarKernel hsize

lemma gfByte_codeword {size b : ℕ} (hlen : dataShards.length = k.toNat) (hb : b < size)
    (idx : Fin (k.toNat + m.toNat)) :
    gfByte ((dataShards ++ parityShards k m dataShards size).getD idx []) b =
      ∑ j : Fin k.toNat, row (xs k) (ys k m) (finSumFinEquiv.symm idx) j *
        gfByte (dataShards.getD j []) b := by
  induction idx using Fin.addCases with
  | left i =>
    rw [finSumFinEquiv_symm_apply_castAdd]
    have hi : (i : ℕ) < dataShards.length := by omega
    simp [row, Pi.single_apply, getD_eq_getElem?_getD, getElem?_append, hi]
  | right i =>
    have hget : (dataShards ++ parityShards k m dataShards size).getD (k.toNat + i) [] =
        (parityShards k m dataShards size).getD i [] := by
      rw [getD_eq_getElem?_getD, getElem?_append_right (by omega), hlen,
        Nat.add_sub_cancel_left, getD_eq_getElem?_getD]
    rw [Fin.val_natAdd, hget, parityShards,
      gfByte_combine (n := k.toNat) (by simp) (by simp [getD_eq_getElem?_getD]) hlen hb]
    refine Finset.sum_congr rfl fun j _ => ?_
    rw [← entry_generatorRows]
    simp [entry, generatorRows, getD_eq_getElem?_getD]

lemma length_codeword {size idx : ℕ} (hlen : dataShards.length = k.toNat)
    (hsize : ∀ s ∈ dataShards, s.length = size) (hidx : idx < k.toNat + m.toNat) :
    ((dataShards ++ parityShards k m dataShards size).getD idx []).length = size := by
  rw [getD_eq_getElem?_getD, getElem?_append]
  split_ifs with hi
  · simpa [hi] using hsize _ (getElem_mem hi)
  · rw [← getD_eq_getElem?_getD]
    refine length_getD_combine ?_
    simp
    omega

/-! ### Recovery -/

/-- The shards that `keep` keeps. -/
def surviving (keep : ℕ → Bool) (shards : List Bytes) : List (Option Bytes) :=
  shards.mapIdx fun i s => if keep i then some s else none

variable {keep : ℕ → Bool} {shards : List Bytes}

lemma getD_surviving {i : ℕ} (hi : i < shards.length) :
    (surviving keep shards).getD i none = if keep i then some (shards.getD i []) else none := by
  simp [surviving, getD_eq_getElem?_getD, hi]

lemma surviving_eq (keep : ℕ → Bool) (shards : List Bytes) :
    surviving keep shards = (List.range shards.length).map fun i =>
      if keep i then some (shards.getD i []) else none := by
  refine ext_getElem (by simp [surviving]) fun i hi hi' => ?_
  have hi : i < shards.length := by simpa using hi'
  simp [surviving, getD_eq_getElem?_getD, hi]

lemma presentShards_surviving (keep : ℕ → Bool) (shards : List Bytes) :
    presentShards (surviving keep shards) = (List.range shards.length).filter keep := by
  have hlen : (surviving keep shards).length = shards.length := by simp [surviving]
  rw [presentShards, hlen]
  refine filter_congr fun i hi => ?_
  rw [getD_surviving (mem_range.mp hi)]
  cases keep i <;> rfl

lemma shardAt_surviving {i : ℕ} (hi : i < shards.length) (hk : keep i = true) :
    shardAt (surviving keep shards) i = shards.getD i [] := by
  rw [shardAt, getD_surviving hi, if_pos hk, Option.getD_some]

/-- A choice of `k` different shards out of the `k + m`. -/
structure Selection (k m : UInt8) where
  indices : List ℕ
  length_eq : indices.length = k.toNat
  nodup : indices.Nodup
  lt : ∀ i ∈ indices, i < k.toNat + m.toNat

namespace Selection

variable (σ : Selection k m)

def index (r : Fin k.toNat) : Fin (k.toNat + m.toNat) :=
  ⟨σ.indices.get (r.cast σ.length_eq.symm), σ.lt _ (get_mem _ _)⟩

lemma index_injective : Function.Injective σ.index := by
  intro r r' h
  have := σ.nodup.injective_get (Fin.val_eq_of_eq h)
  simpa [Fin.ext_iff] using this

lemma getD_map {α : Type*} (f : ℕ → α) (d : α) (r : Fin k.toNat) :
    (σ.indices.map f).getD r d = f (σ.index r) := by
  have hr : (r : ℕ) < σ.indices.length := by
    rw [σ.length_eq]
    exact r.isLt
  simp [getD_eq_getElem?_getD, hr, index]

/-- The rows of the chosen shards. -/
def rows : List (List Gf8) := σ.indices.map fun idx => (generatorRows k m).getD idx []

lemma toMatrix_rows (r j : Fin k.toNat) :
    toMatrix k.toNat σ.rows r j = row (xs k) (ys k m) (finSumFinEquiv.symm (σ.index r)) j := by
  rw [← entry_generatorRows]
  exact congrArg (List.getD · j 0) (σ.getD_map _ _ r)

lemma eq_zero_of_rows (h : k.toNat + m.toNat ≤ 256) {v : Fin k.toNat → Gf8}
    (hv : ∀ r, ∑ j, row (xs k) (ys k m) (finSumFinEquiv.symm (σ.index r)) j * v j = 0) :
    v = 0 := by
  set S : Finset (Fin k.toNat ⊕ Fin m.toNat) :=
    Finset.univ.image fun r => finSumFinEquiv.symm (σ.index r)
  have hcard : Fintype.card (Fin k.toNat) ≤ S.card :=
    (Finset.card_image_of_injective _
      (finSumFinEquiv.symm.injective.comp σ.index_injective)).ge
  refine CauchyCode.eq_zero_of_rows xs_injective (ys_injective h) (xs_ne_ys h) hcard fun ρ hρ => ?_
  obtain ⟨r, -, rfl⟩ := Finset.mem_image.mp hρ
  exact hv r

lemma index_mem (r : Fin k.toNat) : (σ.index r : ℕ) ∈ σ.indices := get_mem _ _

lemma exists_index {idx : Fin (k.toNat + m.toNat)} (h : (idx : ℕ) ∈ σ.indices) :
    ∃ r, σ.index r = idx := by
  obtain ⟨i, hi⟩ := get_of_mem h
  exact ⟨i.cast σ.length_eq, Fin.ext hi⟩

lemma eq_of_rows (h : k.toNat + m.toNat ≤ 256) {v w : Fin k.toNat → Gf8}
    (hvw : ∀ idx : Fin (k.toNat + m.toNat), (idx : ℕ) ∈ σ.indices →
      ∑ j, row (xs k) (ys k m) (finSumFinEquiv.symm idx) j * v j =
        ∑ j, row (xs k) (ys k m) (finSumFinEquiv.symm idx) j * w j) : v = w := by
  refine sub_eq_zero.mp (σ.eq_zero_of_rows h fun r => ?_)
  simp only [Pi.sub_apply, mul_sub, Finset.sum_sub_distrib]
  exact sub_eq_zero.mpr (hvw _ (σ.index_mem r))

lemma exists_inverse (h : k.toNat + m.toNat ≤ 256) :
    ∃ inv, invertMatrix σ.rows = some inv ∧ Shaped k.toNat k.toNat inv ∧
      toMatrix k.toNat inv * toMatrix k.toNat σ.rows = 1 := by
  refine invertMatrix_of_injective (by simp [rows, σ.length_eq]) fun v hv => ?_
  exact σ.eq_zero_of_rows h (by simpa only [toMatrix_rows] using hv)

lemma sum_combine {inv : List (List Gf8)} {shards : List Bytes} {size b : ℕ}
    (hshape : Shaped k.toNat k.toNat inv)
    (hinv : toMatrix k.toNat inv * toMatrix k.toNat σ.rows = 1) (hb : b < size)
    (r : Fin k.toNat) :
    ∑ j : Fin k.toNat, row (xs k) (ys k m) (finSumFinEquiv.symm (σ.index r)) j *
        gfByte ((combine inv (σ.indices.map fun idx => shards.getD idx []) size).getD j []) b =
      gfByte (shards.getD (σ.index r) []) b := by
  set d : Fin k.toNat → Gf8 := fun r => gfByte (shards.getD (σ.index r) []) b
  have hbyte : ∀ j : Fin k.toNat,
      gfByte ((combine inv (σ.indices.map fun idx => shards.getD idx []) size).getD j []) b =
        (toMatrix k.toNat inv).mulVec d j := by
    intro j
    have hj : (j : ℕ) < inv.length := hshape.1.symm ▸ j.isLt
    rw [gfByte_combine hj (hshape.2 j j.isLt) (by simp [σ.length_eq]) hb]
    refine Finset.sum_congr rfl fun r' _ => ?_
    rw [σ.getD_map]
    rfl
  calc ∑ j : Fin k.toNat, row (xs k) (ys k m) (finSumFinEquiv.symm (σ.index r)) j *
        gfByte ((combine inv (σ.indices.map fun idx => shards.getD idx []) size).getD j []) b
      = (toMatrix k.toNat σ.rows).mulVec ((toMatrix k.toNat inv).mulVec d) r := by
        refine Finset.sum_congr rfl fun j _ => ?_
        rw [hbyte, ← toMatrix_rows]
    _ = d r := by
        rw [Matrix.mulVec_mulVec, mul_eq_one_comm.mp hinv, Matrix.one_mulVec]

end Selection

/-- The first `k` of at least `k` shards that `keep` keeps. -/
def firstKept (keep : ℕ → Bool)
    (hk : k.toNat ≤ ((List.range (k.toNat + m.toNat)).filter keep).length) : Selection k m where
  indices := ((List.range (k.toNat + m.toNat)).filter keep).take k.toNat
  length_eq := by rw [length_take, Nat.min_eq_left hk]
  nodup := (List.nodup_range.filter _).sublist (take_sublist _ _)
  lt i hi := mem_range.mp (mem_of_mem_filter (mem_of_mem_take hi))

lemma Selection.eq_of_codeword (σ : Selection k m) (h : k.toNat + m.toNat ≤ 256) {d e : List Bytes}
    {size : ℕ} (hd : d.length = k.toNat) (he : e.length = k.toNat)
    (hdsize : ∀ i < k.toNat, (d.getD i []).length = size) (hesize : ∀ x ∈ e, x.length = size)
    (heq : ∀ i ∈ σ.indices, (d ++ parityShards k m d size).getD i [] =
      (e ++ parityShards k m e size).getD i []) : d = e := by
  refine shards_ext hd he hdsize hesize fun b hb => σ.eq_of_rows h fun idx hidx => ?_
  rw [← gfByte_codeword hd hb, ← gfByte_codeword he hb, heq idx hidx]

section

variable (hk0 : k ≠ 0) (h : k.toNat + m.toNat ≤ 256) (hlen : shards.length = k.toNat + m.toNat)
  (hsize : ∀ i < k.toNat + m.toNat, (shards.getD i []).length = size)
  (hk : k.toNat ≤ ((List.range (k.toNat + m.toNat)).filter keep).length)

include hk0 h hlen hsize

lemma decode_eq {inv : List (List Gf8)} (hinv : invertMatrix (firstKept keep hk).rows = some inv) :
    decode (surviving keep shards) k m =
      .ok (combine inv ((firstKept keep hk).indices.map fun idx => shards.getD idx []) size) := by
  have hpos := toNat_pos hk0
  have hshard : ∀ i ∈ (List.range (k.toNat + m.toNat)).filter keep,
      shardAt (surviving keep shards) i = shards.getD i [] := by
    intro i hi
    obtain ⟨hi, hki⟩ := mem_filter.mp hi
    exact shardAt_surviving (hlen.symm ▸ mem_range.mp hi) hki
  have hsub : (firstKept keep hk).indices.map (shardAt (surviving keep shards)) =
      (firstKept keep hk).indices.map fun idx => shards.getD idx [] :=
    map_congr_left fun i hi => hshard i (mem_of_mem_take hi)
  have hany : (((firstKept keep hk).indices.map fun idx => shards.getD idx []).any
      (·.length < size)) = false := by
    rw [any_map, any_eq_false]
    intro i hi
    have := hsize i ((firstKept keep hk).lt i hi)
    rw [Function.comp_apply, this]
    exact decide_eq_false (Nat.lt_irrefl size) ▸ Bool.false_ne_true
  obtain ⟨first, rest, hpresent⟩ : ∃ first rest,
      (List.range (k.toNat + m.toNat)).filter keep = first :: rest :=
    exists_cons_of_length_pos (hpos.trans_le hk)
  have hfirst : (shardAt (surviving keep shards) first).length = size := by
    have hmem : first ∈ (List.range (k.toNat + m.toNat)).filter keep := by simp [hpresent]
    rw [hshard first hmem]
    exact hsize first (mem_range.mp (mem_of_mem_filter hmem))
  have htotal : (surviving keep shards).length = k.toNat + m.toNat := by simp [surviving, hlen]
  have hrows : (firstKept keep hk).indices.map (fun idx => (generatorRows k m).getD idx []) =
      (firstKept keep hk).rows := rfl
  have hindices : (first :: rest).take k.toNat = (firstKept keep hk).indices := by
    rw [← hpresent]; rfl
  rw [hpresent] at hk
  rw [decode, htotal, presentShards_surviving, hlen, hpresent, generatorMatrix_eq h]
  simp only [ne_eq, not_true_eq_false, if_false, Nat.not_lt.mpr hk, hfirst, hindices, hrows, hinv,
    hsub, hany, Bool.false_eq_true]

/-- **What `decode` returns**, whatever the shards hold: shards whose sums with the rows of the
shards it takes are those shards. -/
lemma exists_decode :
    ∃ recovered, decode (surviving keep shards) k m = .ok recovered ∧
      recovered.length = k.toNat ∧ (∀ i < k.toNat, (recovered.getD i []).length = size) ∧
      ∀ b < size, ∀ idx : Fin (k.toNat + m.toNat), (idx : ℕ) ∈ (firstKept keep hk).indices →
        ∑ j : Fin k.toNat, row (xs k) (ys k m) (finSumFinEquiv.symm idx) j *
          gfByte (recovered.getD j []) b = gfByte (shards.getD idx []) b := by
  obtain ⟨inv, hinv, hshape, hmul⟩ := (firstKept keep hk).exists_inverse h
  refine ⟨_, decode_eq hk0 h hlen hsize hk hinv, by rw [length_combine, hshape.1],
    fun i hi => length_getD_combine (hshape.1.symm ▸ hi), fun b hb idx hidx => ?_⟩
  obtain ⟨r, rfl⟩ := (firstKept keep hk).exists_index hidx
  exact (firstKept keep hk).sum_combine hshape hmul hb r

include hk

/-- **What `decode` returns**: the data shards whose code word has the first `k` of the shards that
are there. -/
lemma decode_eq_ok_iff {d : List Bytes} :
    decode (surviving keep shards) k m = .ok d ↔
      d.length = k.toNat ∧ (∀ x ∈ d, x.length = size) ∧
        ∀ i ∈ ((List.range (k.toNat + m.toNat)).filter keep).take k.toNat,
          (d ++ parityShards k m d size).getD i [] = shards.getD i [] := by
  obtain ⟨e, hdec, helen, hesize, hrows⟩ := exists_decode hk0 h hlen hsize hk
  have hesize' : ∀ x ∈ e, x.length = size := by
    intro x hx
    obtain ⟨i, hi, rfl⟩ := getElem_of_mem hx
    have := hesize i (helen ▸ hi)
    rwa [getD_eq_getElem _ _ hi] at this
  have heword : ∀ i ∈ (firstKept keep hk).indices,
      (e ++ parityShards k m e size).getD i [] = shards.getD i [] := by
    intro i hi
    have hlt := (firstKept keep hk).lt i hi
    have hword : ((e ++ parityShards k m e size).getD i []).length = size :=
      length_codeword helen hesize' hlt
    refine shard_ext (hword.trans (hsize i hlt).symm) fun b hb => ?_
    rw [hword] at hb
    exact (gfByte_codeword helen hb ⟨i, hlt⟩).trans (hrows b hb ⟨i, hlt⟩ hi)
  rw [hdec, Except.ok.injEq]
  constructor
  · rintro rfl
    exact ⟨helen, hesize', heword⟩
  · rintro ⟨hdlen, hdsize, hdword⟩
    refine (firstKept keep hk).eq_of_codeword h helen hdlen hesize hdsize fun i hi => ?_
    rw [heword i hi, hdword i hi]

end

/-- **Any `k` of the `k + m` shards give back the data**: whatever shards are lost, as long as `k`
are left, the rows that `decode` selects are inverted and it returns the data shards. -/
theorem decode_encode_mds (k m : UInt8) (hk0 : k ≠ 0) (h : k.toNat + m.toNat ≤ 256)
    (dataShards : List Bytes) (size : ℕ) (hlen : dataShards.length = k.toNat)
    (hsize : ∀ s ∈ dataShards, s.length = size) :
    ∃ parity, encode scalarKernel k dataShards m = .ok parity ∧ parity.length = m.toNat ∧
      ∀ keep : ℕ → Bool, k.toNat ≤ ((List.range (k.toNat + m.toNat)).filter keep).length →
        (∃ gen inv, generatorMatrix k m = some gen ∧
          invertMatrix (((presentShards (surviving keep (dataShards ++ parity))).take k.toNat).map
            fun idx => gen.getD idx []) = some inv) ∧
        decode (surviving keep (dataShards ++ parity)) k m = .ok dataShards := by
  have hparity : (parityShards k m dataShards size).length = m.toNat := length_parityShards
  refine ⟨parityShards k m dataShards size, encode_scalarKernel hk0 h hlen hsize, hparity,
    fun keep hk => ?_⟩
  have htotal : (dataShards ++ parityShards k m dataShards size).length = k.toNat + m.toNat := by
    rw [length_append, hlen, hparity]
  refine ⟨?_, ?_⟩
  · obtain ⟨inv, hinv, -⟩ := (firstKept keep hk).exists_inverse h
    refine ⟨generatorRows k m, inv, generatorMatrix_eq h, ?_⟩
    rw [presentShards_surviving, htotal]
    exact hinv
  · exact (decode_eq_ok_iff hk0 h htotal (fun i hi => length_codeword hlen hsize hi) hk).mpr
      ⟨hlen, hsize, fun _ _ => rfl⟩

theorem lost_shards_restored :
    ∃ parity, encode scalarKernel 2 [[1, 2], [3, 4]] 1 = .ok parity ∧ parity.length = 1 ∧
      ∀ keep : ℕ → Bool, 2 ≤ ((List.range 3).filter keep).length →
        (∃ gen inv, generatorMatrix 2 1 = some gen ∧
          invertMatrix (((presentShards (surviving keep ([[1, 2], [3, 4]] ++ parity))).take 2).map
            fun idx => gen.getD idx []) = some inv) ∧
        decode (surviving keep ([[1, 2], [3, 4]] ++ parity)) 2 1 = .ok [[1, 2], [3, 4]] :=
  decode_encode_mds 2 1 (by decide) (by decide) [[1, 2], [3, 4]] 2 rfl (by decide)

end

end OceanFs.Ec
