import OceanFs.Durability.Healing

/-!
Merkle trees of segments, and proofs that a digest is a leaf.

A node without a sibling is hashed with itself. The prover adds no sibling for such a node, and the
verifier hashes as many levels as there are siblings, so a proof whose way up has such a node is
rejected, and one that starts at an inner node is accepted.
-/

namespace OceanFs.Durability

open OceanFs.Core Lib Lib.Merkle Durability.Healing List

/-! ### Trees -/

structure MerkleRoot where
  hash : HashOutput
  leafCount : ℕ
  totalSize : ℕ
  deriving DecidableEq

/-- A tree with all its levels, the leaves first. -/
structure MerkleTree (blake3 : Bytes → HashOutput) where
  root : MerkleRoot
  leafHashes : List HashOutput
  treeLevels : List (List HashOutput)
  leafCount_eq : root.leafCount = leafHashes.length
  levels_eq : treeLevels = levels (hashPair blake3) leafHashes.length leafHashes
  root_eq : Merkle.root (hashPair blake3) leafHashes.length leafHashes = some root.hash

structure MerkleProof where
  leafIndex : ℕ
  leafHash : HashOutput
  siblings : List HashOutput
  rootHash : HashOutput
  deriving DecidableEq

namespace MerkleTree

variable {blake3 : Bytes → HashOutput}

/-- `build_tree_from_leaves`: the levels and the root. There is no root of no leaves. -/
def buildTreeFromLeaves (totalSize : ℕ) (leaves : List HashOutput) : Option (MerkleTree blake3) :=
  match h : Merkle.root (hashPair blake3) leaves.length leaves with
  | none => none
  | some hash => some
    { root := ⟨hash, leaves.length, totalSize⟩
      leafHashes := leaves
      treeLevels := levels (hashPair blake3) leaves.length leaves
      leafCount_eq := rfl
      levels_eq := rfl
      root_eq := h }

def build (data : Bytes) (leafSize : ℕ) : Option (MerkleTree blake3) :=
  let leafSize := if leafSize = 0 then defaultLeafSize else leafSize
  if data = [] then none else buildTreeFromLeaves data.length ((chunks leafSize data).map blake3)

def buildFromHashes (leafHashes : List HashOutput) : Option (MerkleTree blake3) :=
  if leafHashes = [] then none else buildTreeFromLeaves 0 leafHashes

/-- The siblings on the way up; a level without one adds nothing. -/
def siblingsOn : List (List HashOutput) → ℕ → List HashOutput
  | [], _ => []
  | level :: rest, currentIdx =>
    level[sibling currentIdx]?.toList ++ siblingsOn rest (currentIdx / 2)

variable (t : MerkleTree blake3)

def generateProof (leafIndex : ℕ) : Option MerkleProof :=
  match t.leafHashes[leafIndex]? with
  | none => none
  | some leafHash => some
    { leafIndex := leafIndex
      leafHash := leafHash
      siblings := siblingsOn t.treeLevels.dropLast leafIndex
      rootHash := t.root.hash }

def verifyProof (proof : MerkleProof) : Bool :=
  if proof.rootHash ≠ t.root.hash then false
  else if t.leafHashes.length ≤ proof.leafIndex then false
  else walk (hashPair blake3) proof.siblings proof.leafIndex proof.leafHash = t.root.hash

/-! ### The height of a tree -/

/-- The number of levels above the leaves. -/
def height : ℕ := Nat.clog 2 t.leafHashes.length

lemma length_treeLevels : t.treeLevels.length = t.height + 1 := by
  rw [t.levels_eq, Merkle.levels_eq _ (Nat.le_succ _), length_map, length_range, height]

lemma getElem?_treeLevels {h : ℕ} (hh : h ≤ t.height) :
    t.treeLevels[h]? = some (level (hashPair blake3) h t.leafHashes) := by
  rw [t.levels_eq, Merkle.levels_eq _ (Nat.le_succ _), getElem?_map,
    getElem?_range (show h < Nat.clog 2 _ + 1 from Nat.lt_succ_of_le hh), Option.map_some]

lemma root_getElem? :
    (level (hashPair blake3) t.height t.leafHashes)[0]? = some t.root.hash := by
  rw [height, ← Merkle.root_eq _ (Nat.le_succ _), t.root_eq]

lemma leaves_pos : 0 < t.leafHashes.length := by
  rcases hl : t.leafHashes with _ | ⟨a, l⟩
  · have h := t.root_eq
    rw [hl] at h
    cases h
  · exact Nat.succ_pos _

lemma root_above {i : ℕ} (hi : i < t.leafHashes.length) :
    (level (hashPair blake3) t.height t.leafHashes)[i / 2 ^ t.height]? = some t.root.hash := by
  have hlt : i < 2 ^ t.height := hi.trans_le (Nat.le_pow_clog Nat.one_lt_two _)
  rw [Nat.div_eq_of_lt hlt, root_getElem?]

lemma siblingsOn_map_range (blake3 : Bytes → HashOutput) (l : List HashOutput) (i start count : ℕ) :
    siblingsOn ((List.range' start count).map fun h => level (hashPair blake3) h l)
        (i / 2 ^ start) =
      (List.range' start count).flatMap fun h =>
        (level (hashPair blake3) h l)[sibling (i / 2 ^ h)]?.toList := by
  induction count generalizing start with
  | zero => rfl
  | succ count ih =>
    rw [range'_succ, map_cons, siblingsOn, flatMap_cons, ← ih (start + 1),
      Nat.pow_succ, Nat.div_div_eq_div_mul]

lemma siblingsOn_treeLevels (i : ℕ) :
    siblingsOn t.treeLevels.dropLast i =
      siblingsBelow (hashPair blake3) t.leafHashes i t.height := by
  have hlevels : t.treeLevels.dropLast =
      (List.range' 0 t.height).map fun h => level (hashPair blake3) h t.leafHashes := by
    rw [t.levels_eq, Merkle.levels_eq _ (Nat.le_succ _), height, range_succ, map_append,
      map_singleton, dropLast_concat, range_eq_range']
  have h := siblingsOn_map_range blake3 t.leafHashes i 0 t.height
  rw [Nat.pow_zero, Nat.div_one] at h
  rw [hlevels, h, siblingsBelow, range_eq_range']

lemma generateProof_eq {i : ℕ} {a : HashOutput} (ha : t.leafHashes[i]? = some a) :
    t.generateProof i = some
      ⟨i, a, siblingsBelow (hashPair blake3) t.leafHashes i t.height, t.root.hash⟩ := by
  simp only [generateProof, ha, siblingsOn_treeLevels]

lemma verifyProof_iff (proof : MerkleProof) :
    t.verifyProof proof = true ↔ proof.rootHash = t.root.hash ∧
      proof.leafIndex < t.leafHashes.length ∧
      walk (hashPair blake3) proof.siblings proof.leafIndex proof.leafHash = t.root.hash := by
  unfold verifyProof
  split_ifs with hroot hindex
  · simp [hroot]
  · simp only [false_iff, not_and]
    omega
  · simp only [not_not] at hroot
    simp only [hroot, decide_eq_true_eq, true_and]
    exact ⟨fun h => ⟨by omega, h⟩, fun h => h.2⟩

lemma exists_buildFromHashes (blake3 : Bytes → HashOutput) {leaves : List HashOutput}
    (h : leaves ≠ []) :
    ∃ t : MerkleTree blake3, buildFromHashes leaves = some t ∧ t.leafHashes = leaves := by
  have hsome : (Merkle.root (hashPair blake3) leaves.length leaves).isSome = true :=
    isSome_root _ h
  rw [buildFromHashes, if_neg h, buildTreeFromLeaves]
  split
  · simp_all
  · exact ⟨_, rfl, rfl⟩

lemma leafHashes_of_buildFromHashes {leaves : List HashOutput} {t : MerkleTree blake3}
    (h : buildFromHashes leaves = some t) : t.leafHashes = leaves := by
  have hne : leaves ≠ [] := by
    rintro rfl
    cases h
  obtain ⟨t', ht', hleaves⟩ := exists_buildFromHashes blake3 hne
  rw [Option.some.inj (h.symm.trans ht'), hleaves]

end MerkleTree

end OceanFs.Durability
