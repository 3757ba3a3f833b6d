import OceanFs.Durability.MerkleDiff

/-!
One exchange of Merkle roots between two nodes.

The engine asks for all the segments that it shares with a peer, and the service answers with the
tree of the first one that it has bytes of. The engine compares this one answer with the root that
it has registered for each of the segments. Two nodes with the same segments therefore report every
segment whose root is not that of the first one, and the descent that follows compares the trees of
two different segments.
-/

namespace OceanFs.Durability.MerkleExchange

open OceanFs.Core Lib Lib.Merkle Durability.Healing Option List

/-! ### The service -/

/-- What a node has of the segments: the data sections that it can read, and the roots in its
registry. -/
structure Replica where
  data : SegmentId → Option Bytes
  root : SegmentId → Option HashOutput

structure MerkleResponse where
  segmentId : Option SegmentId
  rootHash : HashOutput
  leafHashes : List HashOutput

section

variable (blake3 : Bytes → HashOutput)

/-- There is no tree of a missing or an empty segment. -/
def treeOf (n : Replica) (id : SegmentId) : Option (MerkleTree blake3) :=
  (n.data id).bind fun data => MerkleTree.build data defaultLeafSize

/-- The first of the segments that has a tree. -/
def firstTree (n : Replica) : List SegmentId → Option (SegmentId × MerkleTree blake3)
  | [] => none
  | id :: rest =>
    match treeOf blake3 n id with
    | some tree => some (id, tree)
    | none => firstTree n rest

/-- `merkle_exchange`. A root of zeros is taken for none, and the registered root of the first
segment is answered instead. -/
def merkleExchange (n : Replica) (segmentIds : List SegmentId) : MerkleResponse :=
  let found := firstTree blake3 n segmentIds
  let rootHash := (found.map (·.2.root.hash)).getD zeroHash
  let leafHashes := (found.map (·.2.leafHashes)).getD []
  if rootHash = zeroHash then
    ⟨segmentIds.head?, (n.root (segmentIds.headD 0)).getD zeroHash, leafHashes⟩
  else ⟨found.map (·.1), rootHash, leafHashes⟩

/-! ### The engine -/

/-- The segments that count as mismatches, and the heals that are enqueued. -/
structure Report where
  mismatches : List SegmentId
  heals : List (SegmentId × List ℕ)
  leavesRepaired : ℕ
  deriving DecidableEq

def Report.empty : Report := ⟨[], [], 0⟩

def Report.add (r r' : Report) : Report :=
  ⟨r.mismatches ++ r'.mismatches, r.heals ++ r'.heals, r.leavesRepaired + r'.leavesRepaired⟩

/-- The answer against the root of one segment, or nothing if the descent panics. -/
def compareSegment (n : Replica) (resp : MerkleResponse) (id : SegmentId) : Option Report :=
  match n.root id with
  | none => some ⟨[id], [], 0⟩
  | some storedRoot =>
    if resp.rootHash = storedRoot then some .empty
    else if resp.leafHashes = [] then some ⟨[id], [(id, [])], 0⟩
    else
      match MerkleTree.buildFromHashes resp.leafHashes, treeOf blake3 n id with
      | some peerTree, some localTree =>
        (localTree.descendDiff peerTree).map fun diverged =>
          ⟨[id], diverged.map fun range => (id, [range.start]), diverged.length⟩
      | _, _ => some ⟨[id], [], 0⟩

def compareAll (n : Replica) (resp : MerkleResponse) : List SegmentId → Option Report
  | [] => some .empty
  | id :: rest =>
    (compareSegment blake3 n resp id).bind fun r => (compareAll n resp rest).map r.add

/-- `try_grpc_merkle_exchange` with a peer that answers. -/
def exchange (here peer : Replica) (segments : List SegmentId) : Option Report :=
  compareAll blake3 here (merkleExchange blake3 peer segments) segments

end

/-! ### When the descent panics -/

section

variable {blake3 : Bytes → HashOutput} {t other : MerkleTree blake3}

lemma descendDiffInner_isSome (hheight : t.height ≤ other.height) {h : ℕ} (hh : h ≤ t.height)
    (nodeIdx count : ℕ) :
    (MerkleTree.descendDiffInner t.treeLevels other.treeLevels h nodeIdx count).isSome = true := by
  have hcompared : ∀ j ≤ t.height, ∀ i,
      (MerkleTree.comparedAt t.treeLevels other.treeLevels j i).isSome = true := by
    intro j hj i
    simp only [MerkleTree.comparedAt, t.getElem?_treeLevels hj,
      other.getElem?_treeLevels (hj.trans hheight)]
    cases (level (hashPair blake3) j t.leafHashes)[i]? <;> rfl
  induction h generalizing nodeIdx count with
  | zero =>
    obtain ⟨c, hc⟩ := isSome_iff_exists.mp (hcompared 0 hh nodeIdx)
    rw [MerkleTree.descendDiffInner, hc]
    cases c <;> rfl
  | succ h ih =>
    have hchildren : (MerkleTree.descendChildren
        (MerkleTree.descendDiffInner t.treeLevels other.treeLevels h) (2 ^ h) nodeIdx
        count).isSome = true := by
      obtain ⟨left, hleft⟩ := isSome_iff_exists.mp
        (ih (Nat.le_of_succ_le hh) (nodeIdx * 2) (min (2 ^ h) count))
      simp only [MerkleTree.descendChildren, hleft]
      split_ifs
      · rw [isSome_map]
        exact ih (Nat.le_of_succ_le hh) _ _
      · rfl
    obtain ⟨c, hc⟩ := isSome_iff_exists.mp (hcompared (h + 1) hh nodeIdx)
    rw [MerkleTree.descendDiffInner, hc]
    rcases c with _ | ⟨a, b⟩
    · exact hchildren
    · dsimp only
      split_ifs
      · rfl
      · exact hchildren

lemma descendDiff_eq_none_iff :
    t.descendDiff other = none ↔ t.root.hash ≠ other.root.hash ∧ other.height < t.height := by
  have hmax : t.treeLevels.length - 1 = t.height := by
    rw [t.length_treeLevels]
    rfl
  by_cases hroot : t.root.hash = other.root.hash
  · simp [MerkleTree.descendDiff, hroot]
  simp only [MerkleTree.descendDiff, hmax, ne_eq, hroot, not_false_eq_true, true_and]
  rw [if_neg not_false]
  by_cases hheight : other.height < t.height
  · have hpos : t.height > 0 := by omega
    obtain ⟨h, hh⟩ : ∃ h, t.height = h + 1 := ⟨t.height - 1, by omega⟩
    have hother : other.treeLevels[h + 1]? = none := by
      rw [List.getElem?_eq_none_iff, other.length_treeLevels]
      omega
    have hnone : MerkleTree.comparedAt t.treeLevels other.treeLevels (h + 1) 0 = none := by
      have htop := t.root_getElem?
      rw [hh] at htop
      simp only [MerkleTree.comparedAt, t.getElem?_treeLevels hh.ge, htop, hother]
    rw [if_pos hpos, hh, MerkleTree.descendDiffInner, hnone]
    simp [hheight, ← hh]
  · have hsome := descendDiffInner_isSome (not_lt.mp hheight) le_rfl 0 t.leafHashes.length
    simp only [hheight, iff_false]
    split_ifs
    · rw [map_eq_none_iff]
      intro hnone
      rw [hnone] at hsome
      cases hsome
    · simp

end

/-! ### What is reported -/

section

variable (blake3 : Bytes → HashOutput) (here peer : Replica) (segments : List SegmentId)

/-- The nodes have the same bytes and roots of the segments. -/
def Identical : Prop :=
  ∀ id ∈ segments, here.data id = peer.data id ∧ here.root id = peer.root id

/-- The root of the first segment that the peer has bytes of. -/
def answeredRoot : HashOutput :=
  match firstTree blake3 peer segments with
  | some (_, tree) =>
    if tree.root.hash = zeroHash then (peer.root (segments.headD 0)).getD zeroHash
    else tree.root.hash
  | none => (peer.root (segments.headD 0)).getD zeroHash

/-- The segment has a higher tree than the one that the peer answers with. -/
def Overreaches (id : SegmentId) : Prop :=
  ∃ first ∈ firstTree blake3 peer segments, ∃ tree ∈ treeOf blake3 here id,
    tree.root.hash ≠ first.2.root.hash ∧ first.2.height < tree.height

end

section

variable {blake3 : Bytes → HashOutput} {here peer : Replica} {segments : List SegmentId}

lemma rootHash_merkleExchange :
    (merkleExchange blake3 peer segments).rootHash = answeredRoot blake3 peer segments := by
  unfold merkleExchange answeredRoot
  rcases firstTree blake3 peer segments with _ | ⟨id, tree⟩
  · simp
  · dsimp only [map_some, getD_some]
    split_ifs <;> rfl

lemma leafHashes_merkleExchange : (merkleExchange blake3 peer segments).leafHashes =
    ((firstTree blake3 peer segments).map (·.2.leafHashes)).getD [] := by
  unfold merkleExchange
  dsimp only
  split_ifs <;> rfl

lemma buildFromHashes_leafHashes (t : MerkleTree blake3) :
    ∃ t' : MerkleTree blake3, MerkleTree.buildFromHashes t.leafHashes = some t' ∧
      t'.root.hash = t.root.hash ∧ t'.height = t.height := by
  have hne : t.leafHashes ≠ [] := ne_nil_of_length_pos t.leaves_pos
  obtain ⟨t', ht', hleaves⟩ := MerkleTree.exists_buildFromHashes blake3 hne
  refine ⟨t', ht', ?_, by rw [MerkleTree.height, hleaves, MerkleTree.height]⟩
  have hroot := t'.root_eq
  rw [hleaves, t.root_eq] at hroot
  exact (some.inj hroot).symm

/-- **One segment**: nothing is reported exactly when its root is the answered one, and otherwise
the segment is, unless the descent panics. -/
lemma compareSegment_spec (id : SegmentId) :
    (here.root id = some (answeredRoot blake3 peer segments) ∧
        compareSegment blake3 here (merkleExchange blake3 peer segments) id = some .empty) ∨
      here.root id ≠ some (answeredRoot blake3 peer segments) ∧
        ((Overreaches blake3 here peer segments id ∧ here.root id ≠ none ∧
            compareSegment blake3 here (merkleExchange blake3 peer segments) id = none) ∨
          (¬Overreaches blake3 here peer segments id ∨ here.root id = none) ∧
            ∃ heals leaves, compareSegment blake3 here (merkleExchange blake3 peer segments) id =
              some ⟨[id], heals, leaves⟩) := by
  unfold compareSegment
  rw [rootHash_merkleExchange, leafHashes_merkleExchange]
  rcases hroot : here.root id with _ | storedRoot
  · exact .inr ⟨by simp, .inr ⟨.inr rfl, [], 0, rfl⟩⟩
  by_cases heq : answeredRoot blake3 peer segments = storedRoot
  · exact .inl ⟨by rw [heq], by simp [heq]⟩
  refine .inr ⟨by simpa using Ne.symm heq, ?_⟩
  simp only [heq, if_false]
  rcases hfirst : firstTree blake3 peer segments with _ | ⟨first, peerTree⟩
  · refine .inr ⟨.inl ?_, [(id, [])], 0, by simp⟩
    rintro ⟨_, hf, -⟩
    rw [hfirst] at hf
    cases hf
  obtain ⟨rebuilt, hbuild, hhash, hheight⟩ := buildFromHashes_leafHashes peerTree
  have hne : peerTree.leafHashes ≠ [] := ne_nil_of_length_pos peerTree.leaves_pos
  simp only [map_some, getD_some, if_neg hne, hbuild]
  rcases htree : treeOf blake3 here id with _ | localTree
  · refine .inr ⟨.inl ?_, [], 0, rfl⟩
    rintro ⟨_, -, _, ht, -⟩
    rw [htree] at ht
    cases ht
  have hover : Overreaches blake3 here peer segments id ↔ localTree.descendDiff rebuilt = none := by
    rw [descendDiff_eq_none_iff, hhash, hheight]
    constructor
    · rintro ⟨_, hf, _, ht, h⟩
      obtain rfl := some.inj (hfirst.symm.trans hf)
      obtain rfl := some.inj (htree.symm.trans ht)
      exact h
    · exact fun h => ⟨_, hfirst, _, htree, h⟩
  rcases hdiff : localTree.descendDiff rebuilt with _ | diverged
  · exact .inl ⟨hover.mpr hdiff, by simp, by simp [hdiff]⟩
  · refine .inr ⟨.inl fun h => ?_, diverged.map fun range => (id, [range.start]), diverged.length,
      by simp [hdiff]⟩
    rw [hover.mp h] at hdiff
    cases hdiff

lemma add_eq_empty {r r' : Report} : r.add r' = .empty ↔ r = .empty ∧ r' = .empty := by
  obtain ⟨m, h, n⟩ := r
  obtain ⟨m', h', n'⟩ := r'
  simp only [Report.add, Report.empty, Report.mk.injEq, append_eq_nil_iff, Nat.add_eq_zero_iff]
  tauto

variable {resp : MerkleResponse} {ids : List SegmentId}

lemma compareAll_eq_empty :
    compareAll blake3 here resp ids = some .empty ↔
      ∀ id ∈ ids, compareSegment blake3 here resp id = some .empty := by
  induction ids with
  | nil => simp [compareAll]
  | cons id rest ih =>
    rw [forall_mem_cons, ← ih, compareAll]
    constructor
    · intro h
      obtain ⟨r, hr, hrest⟩ := bind_eq_some_iff.mp h
      obtain ⟨r', hr', hadd⟩ := map_eq_some_iff.mp hrest
      obtain ⟨rfl, rfl⟩ := add_eq_empty.mp hadd
      exact ⟨hr, hr'⟩
    · rintro ⟨hr, hr'⟩
      rw [hr, hr']
      rfl

lemma compareAll_ne_none :
    compareAll blake3 here resp ids ≠ none ↔
      ∀ id ∈ ids, compareSegment blake3 here resp id ≠ none := by
  induction ids with
  | nil => simp [compareAll]
  | cons id rest ih =>
    rw [forall_mem_cons, ← ih, compareAll]
    cases compareSegment blake3 here resp id <;> simp

lemma mem_mismatches {r : Report} (h : compareAll blake3 here resp ids = some r) {x : SegmentId} :
    x ∈ r.mismatches ↔
      ∃ id ∈ ids, ∃ r' ∈ compareSegment blake3 here resp id, x ∈ r'.mismatches := by
  induction ids generalizing r with
  | nil =>
    obtain rfl := some.inj h
    simp [Report.empty]
  | cons id rest ih =>
    obtain ⟨r₁, h₁, hrest⟩ := bind_eq_some_iff.mp h
    obtain ⟨r₂, h₂, rfl⟩ := map_eq_some_iff.mp hrest
    rw [exists_mem_cons_iff, ← ih h₂]
    simp [Report.add, h₁]

lemma mem_exchange {r : Report} (h : exchange blake3 here peer segments = some r) {id : SegmentId}
    (hid : id ∈ segments) :
    id ∈ r.mismatches ↔ here.root id ≠ some (answeredRoot blake3 peer segments) := by
  rw [mem_mismatches h]
  constructor
  · rintro ⟨id', -, r', hr', hmem⟩
    rcases @compareSegment_spec blake3 here peer segments id' with
      ⟨-, hempty⟩ | ⟨hne, ⟨-, -, hnone⟩ | ⟨-, heals, leaves, hsome⟩⟩
    · obtain rfl := some.inj (hempty.symm.trans hr')
      cases hmem
    · rw [hnone] at hr'
      cases hr'
    · obtain rfl := some.inj (hsome.symm.trans hr')
      obtain rfl := mem_singleton.mp hmem
      exact hne
  · intro hne
    rcases @compareSegment_spec blake3 here peer segments id with
      ⟨heq, -⟩ | ⟨-, ⟨-, -, hnone⟩ | ⟨-, heals, leaves, hsome⟩⟩
    · exact absurd heq hne
    · refine absurd hnone (compareAll_ne_none.mp ?_ id hid)
      exact (ne_none_iff_exists'.mpr ⟨r, h⟩)
    · exact ⟨id, hid, _, hsome, mem_singleton_self id⟩

lemma exchange_ne_none : exchange blake3 here peer segments ≠ none ↔
    ∀ id ∈ segments, here.root id ≠ none →
      here.root id ≠ some (answeredRoot blake3 peer segments) →
        ¬Overreaches blake3 here peer segments id := by
  rw [exchange, compareAll_ne_none]
  refine forall₂_congr fun id hid => ?_
  rcases @compareSegment_spec blake3 here peer segments id with
    ⟨heq, hempty⟩ | ⟨hne, ⟨hover, hroot, hnone⟩ | ⟨hok, heals, leaves, hsome⟩⟩
  · simp [hempty, heq]
  · simp [hnone, hover, hroot, hne]
  · simp only [hsome, ne_eq, reduceCtorEq, not_false_eq_true, hne, true_iff, forall_true_left]
    exact fun hroot => hok.resolve_right hroot

lemma exchange_eq_empty : exchange blake3 here peer segments = some .empty ↔
    ∀ id ∈ segments, here.root id = some (answeredRoot blake3 peer segments) := by
  rw [exchange, compareAll_eq_empty]
  refine forall₂_congr fun id hid => ?_
  rcases @compareSegment_spec blake3 here peer segments id with
    ⟨heq, hempty⟩ | ⟨hne, ⟨-, -, hnone⟩ | ⟨-, heals, leaves, hsome⟩⟩
  · simp [hempty, heq]
  · simp [hnone, hne]
  · simp [hsome, hne, Report.empty]

end

/-! ### Two replicas -/

/-- Where the replicas are identical, every segment is registered with the root of the first one
that has bytes. A segment whose bytes differ is registered with another root than that, and no
segment to be reported has a tree that is higher than the first one's. -/
structure OneRoot (blake3 : Bytes → HashOutput) (here peer : Replica) (segments : List SegmentId) :
    Prop where
  same : Identical here peer segments →
    ∀ id ∈ segments, here.root id = some (answeredRoot blake3 peer segments)
  differ : ∀ id ∈ segments, here.data id ≠ peer.data id →
    here.root id ≠ some (answeredRoot blake3 peer segments) ∧
      ∀ id' ∈ segments, here.root id' ≠ none →
        here.root id' ≠ some (answeredRoot blake3 peer segments) →
          ¬Overreaches blake3 here peer segments id'

/-- **One exchange** reports nothing of identical replicas, and each segment whose bytes differ,
exactly when all is compared with one root. -/
theorem exchange_exact_iff (blake3 : Bytes → HashOutput) (here peer : Replica)
    (segments : List SegmentId) :
    ((Identical here peer segments → exchange blake3 here peer segments = some .empty) ∧
        ∀ id ∈ segments, here.data id ≠ peer.data id →
          ∃ r, exchange blake3 here peer segments = some r ∧ id ∈ r.mismatches) ↔
      OneRoot blake3 here peer segments := by
  constructor
  · rintro ⟨hsame, hdiffer⟩
    refine ⟨fun h => exchange_eq_empty.mp (hsame h), fun id hid hne => ?_⟩
    obtain ⟨r, hr, hmem⟩ := hdiffer id hid hne
    exact ⟨(mem_exchange hr hid).mp hmem,
      exchange_ne_none.mp (ne_none_iff_exists'.mpr ⟨r, hr⟩)⟩
  · rintro ⟨hsame, hdiffer⟩
    refine ⟨fun h => exchange_eq_empty.mpr (hsame h), fun id hid hne => ?_⟩
    obtain ⟨hroot, hover⟩ := hdiffer id hid hne
    obtain ⟨r, hr⟩ := ne_none_iff_exists'.mp (exchange_ne_none.mpr hover)
    exact ⟨r, hr, (mem_exchange hr hid).mpr hroot⟩

/-- Two segments of one byte, with their roots. -/
def twoSegments : Replica where
  data id := if id = 1 then some [1] else if id = 2 then some [2] else none
  root id := if id = 1 then merkleRoot prefixHash [1] else
    if id = 2 then merkleRoot prefixHash [2] else none

/-- **Two segments are enough** for identical replicas to report one. -/
theorem second_segment_reported : Identical twoSegments twoSegments [1, 2] ∧
    exchange prefixHash twoSegments twoSegments [1, 2] = some ⟨[2], [(2, [0])], 1⟩ :=
  ⟨fun _ _ => ⟨rfl, rfl⟩, by decide +kernel⟩

end OceanFs.Durability.MerkleExchange
