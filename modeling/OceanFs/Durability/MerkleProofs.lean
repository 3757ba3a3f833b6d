import OceanFs.Durability.MerkleTree

/-!
Which Merkle proofs are accepted.

A generated proof is accepted if each node on the way up has a sibling, and without collisions only
then. An accepted proof with one sibling for each level is about the leaf at its index; with any
other number of siblings it may be about another digest.
-/

namespace OceanFs.Durability.MerkleTree

open OceanFs.Core Lib Lib.Merkle Durability.Healing List

/-! ### Hashed strings -/

def pairString (p : HashOutput × HashOutput) : Bytes := p.1.val ++ p.2.val

section

variable (blake3 : Bytes → HashOutput)

/-- The pairs that are hashed for a tree. -/
def treePairs (leaves : List HashOutput) : List (HashOutput × HashOutput) :=
  hashedPairs (hashPair blake3) leaves.length leaves

/-- The pairs that are hashed to verify a proof. -/
def proofPairs (proof : MerkleProof) : List (HashOutput × HashOutput) :=
  walkPairs (hashPair blake3) proof.siblings proof.leafIndex proof.leafHash

end

lemma pairString_inj {p q : HashOutput × HashOutput} (h : pairString p = pairString q) : p = q := by
  obtain ⟨h1, h2⟩ := append_inj h (p.1.property.trans q.1.property.symm)
  exact Prod.ext (Subtype.ext h1) (Subtype.ext h2)

variable {blake3 : Bytes → HashOutput} {t : MerkleTree blake3}

lemma pair_eq_of_hashed {proof : MerkleProof} (hcoll : NoCollisions blake3
      ((treePairs blake3 t.leafHashes ++ proofPairs blake3 proof).map pairString)) :
    ∀ p ∈ proofPairs blake3 proof, ∀ j < t.height,
      ∀ q ∈ pairs (level (hashPair blake3) j t.leafHashes),
        hashed (hashPair blake3) p = hashed (hashPair blake3) q → p = q := by
  intro p hp j hj q hq h
  have hq' : q ∈ treePairs blake3 t.leafHashes := pairs_level_subset _ (Nat.le_succ _) hj hq
  refine pairString_inj (hcoll _ ?_ _ ?_ h)
  · exact mem_map_of_mem (mem_append_right _ hp)
  · exact mem_map_of_mem (mem_append_left _ hq')

/-! ### Generated proofs -/

/-- At each level below the root, the node above leaf `i` of `n` has a sibling. -/
def Paired (n i : ℕ) : Prop :=
  ∀ h < Nat.clog 2 n, sibling (i / 2 ^ h) < (n + 2 ^ h - 1) / 2 ^ h

instance (n i : ℕ) : Decidable (Paired n i) :=
  inferInstanceAs (Decidable (∀ h < Nat.clog 2 n, _))

/-- No digest of the tree is hashed, directly or over several levels, from itself. -/
def Acyclic (blake3 : Bytes → HashOutput) (leaves : List HashOutput) : Prop :=
  ∃ rank : HashOutput → ℕ, ∀ p ∈ treePairs blake3 leaves,
    rank p.1 < rank (hashPair blake3 p.1 p.2) ∧ rank p.2 < rank (hashPair blake3 p.1 p.2)

/-- The proof that is generated for leaf `i`. -/
def generated (t : MerkleTree blake3) (i : ℕ) (a : HashOutput) : MerkleProof :=
  ⟨i, a, siblingsBelow (hashPair blake3) t.leafHashes i t.height, t.root.hash⟩

lemma verifyProof_generated {i : ℕ} {a : HashOutput} (ha : t.leafHashes[i]? = some a)
    (hpaired : Paired t.leafHashes.length i) :
    t.verifyProof (t.generated i a) = true := by
  have hi : i < t.leafHashes.length := (List.getElem?_eq_some_iff.mp ha).1
  have hsib : ∀ j < t.height,
      sibling (i / 2 ^ j) < (level (hashPair blake3) j t.leafHashes).length := by
    intro j hj
    rw [length_level]
    exact hpaired j hj
  have hroot := (walk_siblingsBelow ha hsib).2
  rw [t.root_above hi] at hroot
  exact (t.verifyProof_iff _).mpr ⟨rfl, hi, (Option.some.inj hroot).symm⟩

lemma paired_of_verifyProof {i : ℕ} {a : HashOutput} (ha : t.leafHashes[i]? = some a)
    (hcoll : NoCollisions blake3
      ((treePairs blake3 t.leafHashes ++ proofPairs blake3 (t.generated i a)).map pairString))
    (hacyclic : Acyclic blake3 t.leafHashes) (h : t.verifyProof (t.generated i a) = true) :
    Paired t.leafHashes.length i := by
  obtain ⟨-, hi, hwalk⟩ := (t.verifyProof_iff _).mp h
  obtain ⟨rank, hrank⟩ := hacyclic
  have hlevels : ∀ j < t.height, ∀ p ∈ pairs (level (hashPair blake3) j t.leafHashes),
      rank p.1 < rank (hashed (hashPair blake3) p) ∧
        rank p.2 < rank (hashed (hashPair blake3) p) :=
    fun j hj p hp => hrank p (pairs_level_subset _ (Nat.le_succ _) hj hp)
  have hroot := t.root_above hi
  rw [← hwalk] at hroot
  have hsib := paired_of_walk hlevels hi ha (pair_eq_of_hashed hcoll) hroot
  intro j hj
  rw [← length_level (hashPair blake3)]
  exact hsib j hj

/-- **A generated proof is accepted if every node on the way up has a sibling**, and without
collisions only then. -/
theorem generated_proof_accepted_iff (blake3 : Bytes → HashOutput) {leaves : List HashOutput}
    {i : ℕ} (hi : i < leaves.length) :
    ∃ (t : MerkleTree blake3) (proof : MerkleProof),
      buildFromHashes leaves = some t ∧ t.generateProof i = some proof ∧
        (Paired leaves.length i → t.verifyProof proof = true) ∧
        (NoCollisions blake3
            ((treePairs blake3 leaves ++ proofPairs blake3 proof).map pairString) →
          Acyclic blake3 leaves → t.verifyProof proof = true → Paired leaves.length i) := by
  have hne : leaves ≠ [] := by
    rintro rfl
    simp at hi
  obtain ⟨t, ht, rfl⟩ := exists_buildFromHashes blake3 hne
  have ha : t.leafHashes[i]? = some t.leafHashes[i] := getElem?_eq_getElem hi
  exact ⟨t, t.generated i _, ht, t.generateProof_eq ha, verifyProof_generated ha,
    paired_of_verifyProof ha⟩

/-- A hash of the first bytes of two digests, without collisions on a few small ones. -/
def firstBytes (b : Bytes) : HashOutput :=
  ⟨(b.headD 0 + 5 * (b.drop 32).headD 0 + 1) :: List.replicate 31 0, by simp⟩

def digest (n : UInt8) : HashOutput := ⟨n :: List.replicate 31 0, by simp⟩

/-- Of three leaves the last has no sibling. -/
theorem last_of_three_rejected :
    ((buildFromHashes [digest 1, digest 2, digest 3]).bind fun t : MerkleTree firstBytes =>
      (t.generateProof 2).map t.verifyProof) = some false := by
  decide +kernel

/-- The first of three leaves has siblings on its way up, and the last has none at the bottom. -/
theorem first_of_three_accepted :
    (∃ (t : MerkleTree firstBytes) (proof : MerkleProof),
      buildFromHashes [digest 1, digest 2, digest 3] = some t ∧
        t.generateProof 0 = some proof ∧ t.verifyProof proof = true) ∧
    ∃ (t : MerkleTree firstBytes) (proof : MerkleProof),
      buildFromHashes [digest 1, digest 2, digest 3] = some t ∧
        t.generateProof 2 = some proof ∧ ¬ t.verifyProof proof = true := by
  constructor
  · obtain ⟨t, proof, ht, hproof, hacc, -⟩ := generated_proof_accepted_iff firstBytes
      (show 0 < [digest 1, digest 2, digest 3].length by decide)
    exact ⟨t, proof, ht, hproof, hacc (by decide +kernel)⟩
  · obtain ⟨t, proof, ht, hproof, -, hrej⟩ := generated_proof_accepted_iff firstBytes
      (show 2 < [digest 1, digest 2, digest 3].length by decide)
    have hgen : (buildFromHashes [digest 1, digest 2, digest 3]).bind
        (fun t : MerkleTree firstBytes => t.generateProof 2) =
          some ⟨2, digest 3, [digest 12], digest 108⟩ := by
      decide +kernel
    rw [ht, Option.bind_some, hproof, Option.some.injEq] at hgen
    subst hgen
    have hacyclic : Acyclic firstBytes [digest 1, digest 2, digest 3] :=
      ⟨fun d => (d.val.headD 0).toNat, by decide +kernel⟩
    have hpaired : ¬ Paired 3 2 := by decide +kernel
    exact ⟨t, _, ht, hproof, fun h => hpaired (hrej (by decide +kernel) hacyclic h)⟩

/-! ### Accepted proofs -/

/-- The digests that are made from `a` in up to `m` steps, by hashing with itself, differ. -/
def Fresh (blake3 : Bytes → HashOutput) (a : HashOutput) (m : ℕ) : Prop :=
  ∀ j ≤ m, ∀ k ≤ m, doubled (hashPair blake3) j a = doubled (hashPair blake3) k a → j = k

/-- A proof is about the leaf at its index. -/
def Sound (t : MerkleTree blake3) (proof : MerkleProof) : Prop :=
  proof.leafIndex < t.leafHashes.length ∧ t.leafHashes[proof.leafIndex]? = some proof.leafHash

lemma sound_of_verifyProof {proof : MerkleProof} (hlen : proof.siblings.length = t.height)
    (hcoll : NoCollisions blake3
      ((treePairs blake3 t.leafHashes ++ proofPairs blake3 proof).map pairString))
    (h : t.verifyProof proof = true) : t.Sound proof := by
  obtain ⟨-, hi, hwalk⟩ := (t.verifyProof_iff _).mp h
  have hroot := t.root_above hi
  rw [← hwalk, ← hlen] at hroot
  refine ⟨hi, leaf_of_walk hi (fun p hp j hj => pair_eq_of_hashed hcoll p hp j ?_) hroot⟩
  rwa [← hlen]

lemma noCollisions_of_fresh {x : HashOutput} {m : ℕ} (hx : Fresh blake3 x m)
    {ps : List (HashOutput × HashOutput)}
    (hps : ∀ p ∈ ps, ∃ j < m, p = (doubled (hashPair blake3) j x, doubled (hashPair blake3) j x)) :
    NoCollisions blake3 (ps.map pairString) := by
  intro a ha b hb hab
  obtain ⟨p, hp, rfl⟩ := mem_map.mp ha
  obtain ⟨q, hq, rfl⟩ := mem_map.mp hb
  obtain ⟨j, hj, rfl⟩ := hps p hp
  obtain ⟨k, hk, rfl⟩ := hps q hq
  have hsucc : doubled (hashPair blake3) (j + 1) x = doubled (hashPair blake3) (k + 1) x := by
    rw [doubled_succ, doubled_succ]
    exact hab
  have hjk : j + 1 = k + 1 := hx _ hj _ hk hsucc
  rw [Nat.succ.inj hjk]

/-- Any other number of siblings fits a path from an inner node, or one that goes on below a
leaf. -/
lemma exists_unsound {n k : ℕ} (hn : 0 < n) (hk : k ≠ Nat.clog 2 n) {x : HashOutput}
    (hx : Fresh blake3 x (max (Nat.clog 2 n) k)) :
    ∃ (t : MerkleTree blake3) (proof : MerkleProof), t.leafHashes.length = n ∧
      buildFromHashes t.leafHashes = some t ∧ proof.siblings.length = k ∧
      NoCollisions blake3
        ((treePairs blake3 t.leafHashes ++ proofPairs blake3 proof).map pairString) ∧
      t.verifyProof proof = true ∧ ¬ t.Sound proof := by
  set d := Nat.clog 2 n with hd
  set leaf := doubled (hashPair blake3) (k - d) x with hleaf
  set inner := doubled (hashPair blake3) (d - k) x with hinner
  have hne : List.replicate n leaf ≠ [] := ne_nil_of_length_pos (by simpa using hn)
  obtain ⟨t, ht, hleaves⟩ := exists_buildFromHashes blake3 hne
  have hlen : t.leafHashes.length = n := by rw [hleaves, length_replicate]
  obtain ⟨hwalk, hpairs⟩ := walk_doubledSiblings (hashPair blake3) k 0 inner
  have hroot : t.root.hash = doubled (hashPair blake3) (max d k) x := by
    have h := t.root_getElem?
    rw [height, hlen, hleaves, level_replicate] at h
    rw [eq_of_mem_replicate (mem_of_getElem? h), ← hd, hleaf, ← doubled_add]
    congr 1
    omega
  refine ⟨t, ⟨0, inner, doubledSiblings (hashPair blake3) k inner, t.root.hash⟩, hlen,
    hleaves ▸ ht, by simp [doubledSiblings], ?_, ?_, ?_⟩
  · refine noCollisions_of_fresh hx fun p hp => ?_
    rcases mem_append.mp hp with hp | hp
    · rw [treePairs, hleaves] at hp
      obtain ⟨j, hj, rfl⟩ := mem_hashedPairs_replicate (by simp) hp
      exact ⟨j + (k - d), by omega, by rw [doubled_add, hleaf]⟩
    · obtain ⟨j, hj, rfl⟩ := hpairs p hp
      exact ⟨j + (d - k), by omega, by rw [doubled_add, hinner]⟩
  · refine (t.verifyProof_iff _).mpr ⟨rfl, hlen ▸ hn, ?_⟩
    rw [hwalk, hroot, hinner, ← doubled_add]
    congr 1
    omega
  · rintro ⟨-, h⟩
    rw [hleaves] at h
    have heq : d - k = k - d :=
      hx _ (by omega) _ (by omega) (eq_of_mem_replicate (mem_of_getElem? h))
    omega

/-- **Accepted proofs are sound exactly with one sibling for each level**, if the hash has no
collisions on what is hashed and makes new digests for long enough. -/
theorem accepted_proofs_sound_iff {n k : ℕ} (hn : 0 < n) {x : HashOutput}
    (hx : Fresh blake3 x (max (Nat.clog 2 n) k)) :
    (∀ (leaves : List HashOutput) (t : MerkleTree blake3) (proof : MerkleProof),
      leaves.length = n → buildFromHashes leaves = some t → proof.siblings.length = k →
        NoCollisions blake3
          ((treePairs blake3 leaves ++ proofPairs blake3 proof).map pairString) →
        t.verifyProof proof = true →
        proof.leafIndex < n ∧ leaves[proof.leafIndex]? = some proof.leafHash) ↔
      k = Nat.clog 2 n := by
  constructor
  · intro hsound
    by_contra hk
    obtain ⟨t, proof, hlen, ht, hsibs, hcoll, hacc, hnot⟩ := exists_unsound hn hk hx
    have h := hsound _ t proof hlen ht hsibs hcoll hacc
    rw [← hlen] at h
    exact hnot h
  · rintro rfl leaves t proof rfl ht hsibs hcoll hacc
    have hleaves : t.leafHashes = leaves := leafHashes_of_buildFromHashes ht
    subst hleaves
    exact sound_of_verifyProof hsibs hcoll hacc

/-- Four leaves: a proof of two siblings has the right number. -/
theorem two_siblings_for_four :
    2 = Nat.clog 2 4 ∧
    ∀ (leaves : List HashOutput) (t : MerkleTree firstBytes) (proof : MerkleProof),
      leaves.length = 4 → buildFromHashes leaves = some t → proof.siblings.length = 2 →
        NoCollisions firstBytes
          ((treePairs firstBytes leaves ++ proofPairs firstBytes proof).map pairString) →
        t.verifyProof proof = true →
        proof.leafIndex < 4 ∧ leaves[proof.leafIndex]? = some proof.leafHash := by
  have hfresh : Fresh firstBytes (digest 1) (max (Nat.clog 2 4) 2) := by
    unfold Fresh
    decide +kernel
  have hlevels : 2 = Nat.clog 2 4 := by decide +kernel
  exact ⟨hlevels, (accepted_proofs_sound_iff (by decide) hfresh).mpr hlevels⟩

/-- The parent of two leaves passes as the leaf `0`. -/
theorem inner_node_accepted :
    let leaves := [digest 1, digest 2, digest 3, digest 4]
    let proof : MerkleProof := ⟨0, digest 12, [digest 24], digest 133⟩
    NoCollisions firstBytes
        ((treePairs firstBytes leaves ++ proofPairs firstBytes proof).map pairString) ∧
      (buildFromHashes leaves).map (fun t : MerkleTree firstBytes => t.verifyProof proof) =
        some true ∧ leaves[proof.leafIndex]? ≠ some proof.leafHash := by
  decide +kernel

end OceanFs.Durability.MerkleTree
