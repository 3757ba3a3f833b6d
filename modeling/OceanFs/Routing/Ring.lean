import OceanFs.Core.Types
import Mathlib.Data.List.Rotate

/-!
The consistent-hash ring and its lookup.

A lookup walks the virtual positions clockwise from the key's hash and collects nodes it has
not seen, until it has as many as the replication factor. The factor is a byte, so the length
of a replica set never wraps when it is compared with a quorum.
-/

namespace OceanFs.Routing

open OceanFs.Core

/-- A ring: the virtual positions in increasing order, each with its node. -/
structure Ring where
  positions : List (ℕ × NodeId)
  sorted : positions.Pairwise fun p q => p.1 < q.1
  replicationFactor : UInt8

/-- The walk of a lookup. The bound is tested only after a node was added. -/
def collect (rf : ℕ) : List NodeId → List NodeId → List NodeId
  | result, [] => result
  | result, n :: rest =>
    if n ∈ result then collect rf result rest
    else if rf ≤ (result ++ [n]).length then result ++ [n]
    else collect rf (result ++ [n]) rest

def Ring.lookup (ring : Ring) (keyHash : ℕ) : List NodeId :=
  let start := (ring.positions.takeWhile fun p => p.1 < keyHash).length
  collect ring.replicationFactor.toNat [] ((ring.positions.rotate start).map Prod.snd)

lemma collect_nodup (rf : ℕ) {result : List NodeId} (rest : List NodeId) (h : result.Nodup) :
    (collect rf result rest).Nodup := by
  induction rest generalizing result with
  | nil => exact h
  | cons n rest ih =>
    rw [collect]
    by_cases hn : n ∈ result
    · rw [if_pos hn]
      exact ih h
    · have hsnoc : (result ++ [n]).Nodup := by
        rw [List.nodup_append]
        exact ⟨h, List.nodup_singleton n, by rintro a ha b hb rfl; simp_all⟩
      rw [if_neg hn]
      split
      · exact hsnoc
      · exact ih hsnoc

lemma collect_length_le {rf : ℕ} {result : List NodeId} (rest : List NodeId)
    (h : result.length ≤ max 1 rf) (hlt : result.length < rf ∨ result = []) :
    (collect rf result rest).length ≤ max 1 rf := by
  induction rest generalizing result with
  | nil => exact h
  | cons n rest ih =>
    have hsnoc : (result ++ [n]).length ≤ max 1 rf := by
      rcases hlt with hlt | rfl
      · simp only [List.length_append, List.length_singleton]
        omega
      · simp
    rw [collect]
    split
    · exact ih h hlt
    · split
      · exact hsnoc
      · exact ih hsnoc (.inl (by omega))

theorem Ring.lookup_nodup (ring : Ring) (keyHash : ℕ) : (ring.lookup keyHash).Nodup :=
  collect_nodup _ _ List.nodup_nil

lemma Ring.lookup_length_lt (ring : Ring) (keyHash : ℕ) : (ring.lookup keyHash).length < 256 := by
  have hrf : ring.replicationFactor.toNat < 256 := ring.replicationFactor.toNat_lt
  have hlen := @collect_length_le ring.replicationFactor.toNat []
    ((ring.positions.rotate (ring.positions.takeWhile fun p => p.1 < keyHash).length).map Prod.snd)
    (by simp) (.inr rfl)
  simp only [Ring.lookup]
  omega

end OceanFs.Routing
