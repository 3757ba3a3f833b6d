import Mathlib.Data.List.Basic
import Mathlib.Data.List.DropRight

/-!
Texts as lists, split at a separator.
-/

namespace OceanFs.Lib.Text

variable {α : Type*} [DecidableEq α] {x : α} {l a b : List α}

/-- The text before and behind the first separator. -/
def splitOnce (x : α) (l : List α) : Option (List α × List α) :=
  if x ∈ l then some (l.takeWhile (· ≠ x), (l.dropWhile (· ≠ x)).tail) else none

lemma splitOnce_append (h : x ∉ a) : splitOnce x (a ++ x :: b) = some (a, b) := by
  have hall : ∀ y ∈ a, decide (y ≠ x) = true := by
    intro y hy
    simpa using ne_of_mem_of_not_mem hy h
  rw [splitOnce, if_pos (by simp), List.takeWhile_append_of_pos hall,
    List.dropWhile_append_of_pos hall]
  simp

lemma notMem_of_splitOnce (h : splitOnce x l = some (a, b)) : x ∉ a := by
  unfold splitOnce at h
  split_ifs at h
  obtain ⟨rfl, -⟩ := Prod.mk.inj (Option.some.inj h)
  intro hmem
  simpa using List.mem_takeWhile_imp hmem

end OceanFs.Lib.Text
