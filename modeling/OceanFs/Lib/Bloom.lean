import Mathlib.Data.Finset.Basic
import Mathlib.Data.Finset.Union

/-!
Bloom filters over an arbitrary key type.

A filter is the set of its set bits, and `pos k` lists the positions that key `k` probes.
Nothing is assumed of `pos`: different keys may share some or all of their positions.
-/

namespace OceanFs.Lib.Bloom

variable {κ : Type*} (pos : κ → List ℕ)

abbrev Bits := Finset ℕ

variable (f : Bits)

def contains (k : κ) : Bool := (pos k).all fun p => decide (p ∈ f)

def insert (k : κ) : Bits := (pos k).foldl (fun g p => Insert.insert p g) f

def insertAll (ks : List κ) : Bits := ks.foldl (insert pos) f

variable {pos}

lemma contains_iff {f : Bits} {k : κ} : contains pos f k = true ↔ ∀ p ∈ pos k, p ∈ f := by
  simp [contains]

lemma mem_foldl_insert (ps : List ℕ) (f : Bits) (q : ℕ) :
    q ∈ ps.foldl (fun g p => Insert.insert p g) f ↔ q ∈ f ∨ q ∈ ps := by
  induction ps generalizing f with
  | nil => simp
  | cons p ps ih =>
    rw [List.foldl_cons, ih, Finset.mem_insert, List.mem_cons]
    tauto

lemma mem_insert {f : Bits} {k : κ} {q : ℕ} : q ∈ insert pos f k ↔ q ∈ f ∨ q ∈ pos k :=
  mem_foldl_insert _ _ _

lemma contains_mono {f g : Bits} (h : f ⊆ g) {k : κ} (hk : contains pos f k = true) :
    contains pos g k = true :=
  contains_iff.mpr fun p hp => h (contains_iff.mp hk p hp)

lemma subset_insert (k : κ) : f ⊆ insert pos f k := fun _ hq => mem_insert.mpr (.inl hq)

lemma contains_insert_self (k : κ) : contains pos (insert pos f k) k = true :=
  contains_iff.mpr fun _ hp => mem_insert.mpr (.inr hp)

lemma subset_insertAll (ks : List κ) : f ⊆ insertAll pos f ks := by
  induction ks generalizing f with
  | nil => exact Finset.Subset.refl f
  | cons k ks ih => exact (subset_insert f k).trans (ih (insert pos f k))

theorem contains_insertAll {ks : List κ} {k : κ} (hk : k ∈ ks) :
    contains pos (insertAll pos f ks) k = true := by
  induction ks generalizing f with
  | nil => simp at hk
  | cons a ks ih =>
    rcases List.mem_cons.mp hk with rfl | hk
    · exact contains_mono (subset_insertAll _ ks) (contains_insert_self f k)
    · exact ih (insert pos f a) hk

lemma contains_empty {k : κ} (h : pos k ≠ []) : contains pos ∅ k = false := by
  obtain ⟨p, hp⟩ := List.exists_mem_of_ne_nil _ h
  by_contra hc
  simpa using contains_iff.mp (Bool.eq_true_of_not_eq_false hc) p hp

end OceanFs.Lib.Bloom
