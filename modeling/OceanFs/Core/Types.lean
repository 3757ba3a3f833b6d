import Mathlib.Algebra.Ring.Nat
import Mathlib.Order.Lattice
import Mathlib.Data.Prod.Lex
import Mathlib.Order.Lex

/-!
The identifiers, timestamps and object records that every part of the system shares.

A hybrid logical clock timestamp orders by wall time and then by the logical counter. An
object record either embeds its payload or refers to chunks of segments.
-/

namespace OceanFs.Core

abbrev Bytes := List UInt8

abbrev NodeId := ℕ
abbrev SegmentId := ℕ
abbrev PoolId := ℕ
abbrev BucketId := String
abbrev ObjectKey := String

instance : LawfulBEq (BucketId × ObjectKey) := inferInstance

/-- A BLAKE3 digest: 32 bytes by construction. -/
abbrev HashOutput := { b : Bytes // b.length = 32 }

/-- `[0u8; 32]`, where there is no digest. -/
def zeroHash : HashOutput := ⟨List.replicate 32 0, rfl⟩

/-- No two of the strings have the same hash. -/
def NoCollisions (blake3 : Bytes → HashOutput) (strings : List Bytes) : Prop :=
  ∀ a ∈ strings, ∀ b ∈ strings, blake3 a = blake3 b → a = b

instance (blake3 : Bytes → HashOutput) (strings : List Bytes) :
    Decidable (NoCollisions blake3 strings) :=
  inferInstanceAs (Decidable (∀ a ∈ strings, ∀ b ∈ strings, blake3 a = blake3 b → a = b))

/-- The first 32 bytes: a hash without collisions on short strings. -/
def prefixHash (b : Bytes) : HashOutput :=
  ⟨(b ++ List.replicate 32 0).take 32, by simp⟩

/-! ### Timestamps -/

structure Hlc where
  wallTime : ℕ
  logical : ℕ
  deriving DecidableEq, Repr

namespace Hlc

def zero : Hlc := ⟨0, 0⟩

/-- The pair that `Ord for Hlc` compares. -/
def key (h : Hlc) : ℕ ×ₗ ℕ := toLex (h.wallTime, h.logical)

lemma key_injective : Function.Injective key := by
  rintro ⟨w, l⟩ ⟨w', l'⟩ h
  simpa [key] using h

instance : LinearOrder Hlc := LinearOrder.lift' key key_injective

lemma lt_iff {a b : Hlc} :
    a < b ↔ a.wallTime < b.wallTime ∨ a.wallTime = b.wallTime ∧ a.logical < b.logical := by
  show key a < key b ↔ _
  simp [key, Prod.Lex.toLex_lt_toLex]

lemma le_iff {a b : Hlc} :
    a ≤ b ↔ a.wallTime < b.wallTime ∨ a.wallTime = b.wallTime ∧ a.logical ≤ b.logical := by
  show key a ≤ key b ↔ _
  simp [key, Prod.Lex.toLex_le_toLex]

end Hlc

/-! ### Object records -/

structure ChunkRef where
  segmentId : SegmentId
  offset : ℕ
  length : ℕ
  compressed : Bool
  logicalLength : ℕ
  deriving DecidableEq, Repr

structure ObjectMetadata where
  objectKey : ObjectKey
  size : ℕ
  blake3Hash : Option HashOutput
  chunks : List ChunkRef
  inlineData : Option Bytes
  createdAt : ℤ
  hlc : Hlc
  deriving DecidableEq, Repr

namespace ObjectMetadata

def isInline (m : ObjectMetadata) : Bool := m.inlineData.isSome

def isSegmentStored (m : ObjectMetadata) : Bool := !m.chunks.isEmpty

end ObjectMetadata

/-- The marker of a delete, with the chunks the deleted row referred to. -/
structure Tombstone where
  deletionTime : ℤ
  hlc : Hlc
  chunks : List ChunkRef
  deriving DecidableEq, Repr

end OceanFs.Core
