import OceanFs.Durability.MerkleProofs

/-!
The incremental Merkle tree of anti-entropy.

A segment's tree is a flat array in heap order whose leaves are its last level. When a new leaf does
not fit, the array is made longer but its nodes stay where they are, so the old leaves are no longer
in the last level. The first of them is at the root's place and is lost with the second leaf.
-/

namespace OceanFs.Durability.IncrementalMerkle

open OceanFs.Core Lib Lib.Merkle Durability.Healing List
open Durability.MerkleTree

/-! ### The flat array -/

def nextPowerOfTwo (n : ℕ) : ℕ := 2 ^ Nat.clog 2 n

def treeSizeForLeaves (numLeaves : ℕ) : ℕ :=
  if numLeaves = 0 then 0 else 2 * nextPowerOfTwo numLeaves - 1

def leafPosition (leafIdx numLeaves : ℕ) : ℕ := (nextPowerOfTwo numLeaves - 1) + leafIdx

/-- `tree.resize(size, [0u8; 32])`, for a size that is not smaller. -/
def resize (tree : List HashOutput) (size : ℕ) : List HashOutput :=
  tree ++ List.replicate (size - tree.length) zeroHash

variable (blake3 : Bytes → HashOutput)

/-- The loop of `recompute_path_to_root`; a path is shorter than its first index. -/
def recomputePathToRoot : ℕ → List HashOutput → ℕ → List HashOutput
  | 0, tree, _ => tree
  | fuel + 1, tree, current =>
    if current > 0 then
      let parent := (current - 1) / 2
      let leftHash := tree.getD (2 * parent + 1) zeroHash
      let rightHash := tree.getD (2 * parent + 2) zeroHash
      recomputePathToRoot fuel (tree.set parent (hashPair blake3 leftHash rightHash)) parent
    else tree

/-- The tree after one more leaf. -/
def expand (tree : List HashOutput) (leafIdx : ℕ) (leafHash : HashOutput) : List HashOutput :=
  let newSize := treeSizeForLeaves (leafIdx + 1)
  let tree := if newSize > tree.length then resize tree newSize else tree
  let leafPos := leafPosition leafIdx (leafIdx + 1)
  recomputePathToRoot blake3 leafPos (tree.set leafPos leafHash) leafPos

/-! ### The trees of all segments -/

inductive Error where
  | storage (message : String)
  | segmentNotFound (id : SegmentId)
  deriving DecidableEq

structure State where
  trees : List (SegmentId × List HashOutput)
  leafCounts : List (SegmentId × ℕ)
  insertionOrder : List SegmentId
  continuousMaxSegments : ℕ
  deriving DecidableEq

/-- `DashMap::insert`. -/
def insertKey {α : Type} (id : SegmentId) (a : α) (m : List (SegmentId × α)) :
    List (SegmentId × α) :=
  (id, a) :: m.filter fun e => e.1 ≠ id

/-- `DashMap::remove`. -/
def removeKey {α : Type} (id : SegmentId) (m : List (SegmentId × α)) : List (SegmentId × α) :=
  m.filter fun e => e.1 ≠ id

namespace State

def new (continuousMaxSegments : ℕ) : State := ⟨[], [], [], continuousMaxSegments⟩

def root (s : State) (id : SegmentId) : Option HashOutput := (s.trees.lookup id).bind (·[0]?)

def evictOldest : ℕ → State → State
  | 0, s => s
  | count + 1, s =>
    match s.insertionOrder with
    | [] => s
    | id :: order => evictOldest count
      { s with
        insertionOrder := order
        trees := removeKey id s.trees
        leafCounts := removeKey id s.leafCounts }

def maybeEvict (s : State) : State :=
  if s.trees.length > s.continuousMaxSegments then
    s.evictOldest (s.trees.length - s.continuousMaxSegments)
  else s

def insertLeaf (s : State) (id : SegmentId) (leafHash : HashOutput) : State × Except Error Unit :=
  match s.trees.lookup id with
  | none =>
    (maybeEvict
      { s with
        trees := insertKey id [leafHash] s.trees
        leafCounts := insertKey id 1 s.leafCounts
        insertionOrder := s.insertionOrder ++ [id] }, .ok ())
  | some tree =>
    match s.leafCounts.lookup id with
    | none => (s, .error (.storage s!"leaf count missing for segment {id}"))
    | some leafIdx =>
      (maybeEvict
        { s with
          trees := insertKey id (expand blake3 tree leafIdx leafHash) s.trees
          leafCounts := insertKey id (leafIdx + 1) s.leafCounts }, .ok ())

/-- The leaves of one segment, inserted one after the other. -/
def insertLeaves (s : State) (id : SegmentId) (leaves : List HashOutput) : State :=
  leaves.foldl (fun s leaf => (s.insertLeaf blake3 id leaf).1) s

end State

/-! ### Exchange and comparison -/

structure TreeNode where
  nodeIndex : ℕ
  hash : HashOutput
  children : List ℕ
  deriving DecidableEq

/-- A child that is in the array and not a zero hash. -/
def hasChild (tree : List HashOutput) (i : ℕ) : Bool :=
  decide (i < tree.length ∧ tree.getD i zeroHash ≠ zeroHash)

namespace State

def serializeTree (s : State) (id : SegmentId) : Except Error (List TreeNode) :=
  match s.trees.lookup id with
  | none => .error (.segmentNotFound id)
  | some tree =>
    let totalLeaves := (s.leafCounts.lookup id).getD 0
    if totalLeaves = 0 then .ok []
    else .ok ((List.range (min (treeSizeForLeaves totalLeaves) tree.length)).map fun i =>
      ⟨i, tree.getD i zeroHash, [2 * i + 1, 2 * i + 2].filter (hasChild tree)⟩)

/-- `descend_diff`; a child's index is larger, and inside the array. -/
def descendDiff (tree : List HashOutput) (peerHashes : ℕ → Option HashOutput) :
    ℕ → ℕ → List ℕ
  | 0, _ => []
  | fuel + 1, nodeIdx =>
    let left := 2 * nodeIdx + 1
    let right := 2 * nodeIdx + 2
    let hasLeft := hasChild tree left
    let hasRight := hasChild tree right
    if !hasLeft && !hasRight then
      match peerHashes nodeIdx with
      | some peerHash => if tree.getD nodeIdx zeroHash ≠ peerHash then [nodeIdx] else []
      | none => []
    else
      (if hasLeft ∧ peerHashes left ≠ some (tree.getD left zeroHash) then
        descendDiff tree peerHashes fuel left else []) ++
      (if hasRight ∧ peerHashes right ≠ some (tree.getD right zeroHash) then
        descendDiff tree peerHashes fuel right else [])

def compareAndFindDivergence (s : State) (id : SegmentId) (peerTree : List TreeNode) :
    Except Error (List ℕ) :=
  match s.trees.lookup id with
  | none => .error (.segmentNotFound id)
  | some tree =>
    match peerTree with
    | [] => .ok []
    | first :: _ =>
      if tree[0]? = some first.hash then .ok []
      else
        let peerHashes := fun i => (peerTree.reverse.find? (·.nodeIndex = i)).map (·.hash)
        .ok (descendDiff tree peerHashes tree.length 0)

end State

/-! ### What the tree should commit to -/

variable (leaves : List HashOutput)

/-- The leaves, padded with zero hashes to a power of two. -/
def padded : List HashOutput :=
  leaves ++ List.replicate (nextPowerOfTwo leaves.length - leaves.length) zeroHash

/-- The root of a tree that is built from scratch. -/
def scratchRoot : Option HashOutput :=
  Merkle.root (hashPair blake3) (padded leaves).length (padded leaves)

/-- The pairs that are hashed on a path to the root. -/
def recomputedPairs : ℕ → List HashOutput → ℕ → List (HashOutput × HashOutput)
  | 0, _, _ => []
  | fuel + 1, tree, current =>
    if current > 0 then
      let parent := (current - 1) / 2
      let leftHash := tree.getD (2 * parent + 1) zeroHash
      let rightHash := tree.getD (2 * parent + 2) zeroHash
      (leftHash, rightHash) ::
        recomputedPairs fuel (tree.set parent (hashPair blake3 leftHash rightHash)) parent
    else []

/-- The pairs that are hashed for the leaves from `leafIdx` on. -/
def insertedPairs : List HashOutput → ℕ → List HashOutput → List (HashOutput × HashOutput)
  | _, _, [] => []
  | tree, leafIdx, leaf :: rest =>
    let newSize := treeSizeForLeaves (leafIdx + 1)
    let resized := if newSize > tree.length then resize tree newSize else tree
    let leafPos := leafPosition leafIdx (leafIdx + 1)
    recomputedPairs blake3 leafPos (resized.set leafPos leaf) leafPos ++
      insertedPairs (expand blake3 tree leafIdx leaf) (leafIdx + 1) rest

/-- All pairs that are hashed for a list of leaves, one by one and from scratch. -/
def considered : List (HashOutput × HashOutput) :=
  insertedPairs blake3 (leaves.take 1) 1 leaves.tail ++ treePairs blake3 (padded leaves)

/-- The tree commits to its leaves, and a comparison finds the leaves that differ. -/
structure Commits (maxSegments : ℕ) (id : SegmentId) (leaves leaves' : List HashOutput) :
    Prop where
  root : ((State.new maxSegments).insertLeaves blake3 id leaves).root id = scratchRoot blake3 leaves
  differ : leaves ≠ leaves' →
    ((State.new maxSegments).insertLeaves blake3 id leaves).root id ≠
      ((State.new maxSegments).insertLeaves blake3 id leaves').root id
  compare : ∃ peerTree divergences,
    ((State.new maxSegments).insertLeaves blake3 id leaves').serializeTree id = .ok peerTree ∧
      ((State.new maxSegments).insertLeaves blake3 id leaves).compareAndFindDivergence id peerTree =
        .ok divergences ∧
      ∀ p, p ∈ divergences ↔ leaves[p]? ≠ leaves'[p]?

variable {blake3} {maxSegments : ℕ} {id : SegmentId}

lemma maybeEvict_one (hmax : 0 < maxSegments) (tree : List HashOutput)
    (counts : List (SegmentId × ℕ)) (order : List SegmentId) :
    State.maybeEvict ⟨[(id, tree)], counts, order, maxSegments⟩ =
      ⟨[(id, tree)], counts, order, maxSegments⟩ := by
  rw [State.maybeEvict, if_neg]
  simp only [length_singleton]
  omega

lemma insertLeaf_first (hmax : 0 < maxSegments) (a : HashOutput) :
    ((State.new maxSegments).insertLeaf blake3 id a).1 =
      ⟨[(id, [a])], [(id, 1)], [id], maxSegments⟩ :=
  maybeEvict_one hmax ..

lemma insertLeaf_second (hmax : 0 < maxSegments) (a b : HashOutput) :
    (State.insertLeaf blake3 ⟨[(id, [a])], [(id, 1)], [id], maxSegments⟩ id b).1 =
      ⟨[(id, [hashPair blake3 zeroHash b, zeroHash, b])], [(id, 2)], [id], maxSegments⟩ := by
  have hexpand : expand blake3 [a] 1 b = [hashPair blake3 zeroHash b, zeroHash, b] := by
    have hclog : Nat.clog 2 2 = 1 := by decide
    simp [expand, treeSizeForLeaves, leafPosition, nextPowerOfTwo, hclog, resize,
      recomputePathToRoot]
  simp only [State.insertLeaf, lookup_cons_self, hexpand, insertKey, ne_eq, decide_not,
    filter_cons, decide_true, Bool.not_true, Bool.false_eq_true, if_false, filter_nil]
  exact maybeEvict_one hmax ..

lemma insertLeaves_forgets (hmax : 0 < maxSegments) (a a' b : HashOutput) (rest : List HashOutput) :
    (State.new maxSegments).insertLeaves blake3 id (a :: b :: rest) =
      (State.new maxSegments).insertLeaves blake3 id (a' :: b :: rest) := by
  simp only [State.insertLeaves, foldl_cons, insertLeaf_first hmax, insertLeaf_second hmax]

lemma insertLeaves_no_room :
    (State.new 0).insertLeaves blake3 id leaves = State.new 0 := by
  induction leaves with
  | nil => rfl
  | cons a leaves ih =>
    have hone : ((State.new 0).insertLeaf blake3 id a).1 = State.new 0 := by
      simp [State.insertLeaf, State.new, insertKey, removeKey, State.maybeEvict, State.evictOldest]
    rw [State.insertLeaves, foldl_cons, hone]
    exact ih

lemma commits_single (hmax : 0 < maxSegments) (a b : HashOutput) :
    Commits blake3 maxSegments id [a] [b] := by
  have hroot : ∀ x, ((State.new maxSegments).insertLeaves blake3 id [x]).root id = some x := by
    intro x
    rw [State.insertLeaves, foldl_cons, foldl_nil, insertLeaf_first hmax]
    simp [State.root]
  refine ⟨?_, ?_, ?_⟩
  · rw [hroot]
    rfl
  · intro hne
    rw [hroot, hroot]
    simpa using hne
  · refine ⟨[⟨0, b, []⟩], if a = b then [] else [0], ?_, ?_, ?_⟩
    · rw [State.insertLeaves, foldl_cons, foldl_nil, insertLeaf_first hmax]
      simp [State.serializeTree, treeSizeForLeaves, nextPowerOfTwo, hasChild]
    · rw [State.insertLeaves, foldl_cons, foldl_nil, insertLeaf_first hmax]
      by_cases hab : a = b
      · simp [State.compareAndFindDivergence, hab]
      · simp [State.compareAndFindDivergence, hab, State.descendDiff, hasChild]
    · intro p
      by_cases hab : a = b
      · simp [hab]
      · rcases p with _ | p
        · simp [hab]
        · simp [hab]

/-- **The tree commits to its leaves exactly if there is one**, and room for its segment. The hash
has no collisions on what is hashed; some two lists without collisions differ in the first leaf. -/
theorem commits_iff {n : ℕ} (hn : 0 < n)
    (hpair : ∃ leaves leaves' : List HashOutput, leaves.length = n ∧ leaves'.length = n ∧
      leaves ≠ leaves' ∧ leaves.tail = leaves'.tail ∧
      NoCollisions blake3
        ((considered blake3 leaves ++ considered blake3 leaves').map pairString)) :
    (∀ leaves leaves' : List HashOutput, leaves.length = n → leaves'.length = n →
      NoCollisions blake3 ((considered blake3 leaves ++ considered blake3 leaves').map pairString) →
        Commits blake3 maxSegments id leaves leaves') ↔ n = 1 ∧ 0 < maxSegments := by
  constructor
  · intro h
    obtain ⟨leaves, leaves', hlen, hlen', hne, htail, hcoll⟩ := hpair
    have hcommits := h leaves leaves' hlen hlen' hcoll
    rcases Nat.eq_zero_or_pos maxSegments with rfl | hmax
    · -- the segment is evicted with each of its leaves
      have hdiffer := hcommits.differ hne
      rw [insertLeaves_no_room, insertLeaves_no_room] at hdiffer
      exact absurd rfl hdiffer
    · refine ⟨?_, hmax⟩
      by_contra hone
      obtain ⟨a, b, rest, rfl⟩ : ∃ a b rest, leaves = a :: b :: rest := by
        rcases leaves with _ | ⟨a, _ | ⟨b, rest⟩⟩
        · simp only [length_nil] at hlen
          omega
        · exact absurd hlen.symm hone
        · exact ⟨a, b, rest, rfl⟩
      obtain ⟨a', rfl⟩ : ∃ a', leaves' = a' :: b :: rest := by
        rcases leaves' with _ | ⟨a', rest'⟩
        · simp only [length_nil] at hlen'
          omega
        · exact ⟨a', by rw [← show b :: rest = rest' from htail]⟩
      exact hcommits.differ hne (by rw [insertLeaves_forgets hmax a a'])
  · rintro ⟨rfl, hmax⟩ leaves leaves' hlen hlen' -
    obtain ⟨a, rfl⟩ := length_eq_one_iff.mp hlen
    obtain ⟨b, rfl⟩ := length_eq_one_iff.mp hlen'
    exact commits_single hmax a b

/-- Trees of one leaf. -/
theorem one_leaf_commits : Commits firstBytes 3 7 [digest 1] [digest 2] := by
  have hpair : ∃ leaves leaves' : List HashOutput, leaves.length = 1 ∧ leaves'.length = 1 ∧
      leaves ≠ leaves' ∧ leaves.tail = leaves'.tail ∧ NoCollisions firstBytes
        ((considered firstBytes leaves ++ considered firstBytes leaves').map pairString) :=
    ⟨[digest 1], [digest 2], by decide +kernel⟩
  exact (commits_iff (by decide) hpair).mpr (by decide) _ _ rfl rfl (by decide +kernel)

/-- Two lists of two leaves with one root, which is not that of either tree. -/
theorem first_leaf_lost :
    let leaves := [digest 1, digest 3]
    let leaves' := [digest 2, digest 3]
    NoCollisions firstBytes
        ((considered firstBytes leaves ++ considered firstBytes leaves').map pairString) ∧
      ((State.new 3).insertLeaves firstBytes 7 leaves).root 7 =
        ((State.new 3).insertLeaves firstBytes 7 leaves').root 7 ∧
      ((State.new 3).insertLeaves firstBytes 7 leaves).root 7 ≠ scratchRoot firstBytes leaves := by
  decide +kernel

end OceanFs.Durability.IncrementalMerkle
