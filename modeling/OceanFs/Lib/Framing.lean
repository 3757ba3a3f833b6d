import Mathlib.Data.List.Basic

/-!
Items written one after another, and what is left of them in a prefix.

A prefix of the joined items is a number of whole items and, when it ends inside one, a part of
the item that follows.
-/

namespace OceanFs.Lib.Framing

open List

variable {α β : Type} (enc : α → List β)

/-- The items that the first `n` places of the joined list hold in full. -/
def whole (n : ℕ) : List α → List α
  | [] => []
  | a :: as => if (enc a).length ≤ n then a :: whole (n - (enc a).length) as else []

lemma take_flatMap (n : ℕ) (as : List α) :
    ∃ part, (as.flatMap enc).take n = (whole enc n as).flatMap enc ++ part ∧
      (part = [] ∨ ∃ a ∈ as, ∃ q, 0 < q ∧ q < (enc a).length ∧ part = (enc a).take q) := by
  induction as generalizing n with
  | nil => exact ⟨[], by simp [whole], .inl rfl⟩
  | cons a as ih =>
    rw [flatMap_cons, take_append]
    by_cases ha : (enc a).length ≤ n
    · obtain ⟨part, hpart, hcase⟩ := ih (n - (enc a).length)
      refine ⟨part, ?_, hcase.imp_right ?_⟩
      · rw [take_of_length_le ha, hpart, whole, if_pos ha, flatMap_cons, append_assoc]
      · rintro ⟨b, hb, hq⟩
        exact ⟨b, mem_cons_of_mem _ hb, hq⟩
    · have hrest : n - (enc a).length = 0 := by omega
      refine ⟨(enc a).take n, by simp [whole, ha, hrest], ?_⟩
      rcases Nat.eq_zero_or_pos n with rfl | hn
      · exact .inl rfl
      · exact .inr ⟨a, mem_cons_self, n, hn, by omega, rfl⟩

lemma whole_append (as bs : List α) (n : ℕ) :
    whole enc ((as.flatMap enc).length + n) (as ++ bs) = as ++ whole enc n bs := by
  induction as with
  | nil => simp
  | cons a as ih =>
    have hsub : (enc a).length + (as.flatMap enc).length + n - (enc a).length =
        (as.flatMap enc).length + n := by omega
    rw [flatMap_cons, length_append, cons_append, whole, if_pos (by omega), hsub, ih, cons_append]

lemma whole_subset (n : ℕ) (as : List α) : whole enc n as ⊆ as := by
  induction as generalizing n with
  | nil => simp [whole]
  | cons a as ih =>
    rw [whole]
    split_ifs
    · exact cons_subset_cons _ (ih _)
    · exact nil_subset _

end OceanFs.Lib.Framing
