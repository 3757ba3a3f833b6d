import Mathlib.Data.List.Basic
import Mathlib.Data.List.Nodup

/-!
The first occurrences of a list, in their order.

Taking the first occurrences commutes with leaving out elements. So when an element is left out, the
first few occurrences lose it and gain the next one.
-/

namespace OceanFs.Lib.FirstOccurrences

open List

variable {α : Type} [DecidableEq α]

lemma length_filter_lt (a : α) (l : List α) :
    (l.filter fun b => !b == a).length < (a :: l).length :=
  Nat.lt_succ_of_le (length_filter_le ..)

lemma nodup_eraseDups : ∀ l : List α, l.eraseDups.Nodup
  | [] => by simp
  | a :: l => by
    rw [eraseDups_cons, nodup_cons, mem_eraseDups]
    exact ⟨by simp, nodup_eraseDups _⟩
termination_by l => l.length
decreasing_by exact length_filter_lt a l

theorem eraseDups_filter (p : α → Bool) : ∀ l : List α,
    (l.filter p).eraseDups = l.eraseDups.filter p
  | [] => by simp
  | a :: l => by
    have hrest := eraseDups_filter p (l.filter fun b => !b == a)
    rw [filter_filter] at hrest
    rw [eraseDups_cons, filter_cons, filter_cons]
    split_ifs with hp
    · rw [eraseDups_cons, ← hrest, filter_filter]
      simp only [Bool.and_comm]
    · rw [← hrest]
      congr 1
      refine filter_congr fun b _ => ?_
      by_cases hb : b = a <;> simp_all
termination_by l => l.length
decreasing_by exact length_filter_lt a l

theorem take_filter_ne {l : List α} (h : l.Nodup) (a : α) (k : ℕ) :
    (l.filter (· ≠ a)).take k =
      if a ∈ l.take k then (l.take k).erase a ++ (l.take (k + 1)).drop k else l.take k := by
  induction l generalizing k with
  | nil => simp
  | cons b l ih =>
    obtain ⟨hb, hl⟩ := nodup_cons.mp h
    cases k with
    | zero => simp
    | succ k =>
      by_cases hab : b = a
      · subst hab
        have hall : l.filter (· ≠ b) = l :=
          filter_eq_self.mpr fun c hc => decide_eq_true (ne_of_mem_of_not_mem hc hb)
        have hsplit : l.take k ++ (l.take (k + 1)).drop k = l.take (k + 1) := by
          calc l.take k ++ (l.take (k + 1)).drop k
              = (l.take (k + 1)).take k ++ (l.take (k + 1)).drop k := by simp [take_take]
            _ = l.take (k + 1) := take_append_drop ..
        rw [filter_cons_of_neg (by simp), hall, if_pos (by simp), take_succ_cons,
          erase_cons_head, take_succ_cons, drop_succ_cons, hsplit]
      · rw [filter_cons_of_pos (by simpa using hab), take_succ_cons, ih hl k]
        simp only [take_succ_cons, mem_cons, Ne.symm hab, false_or, drop_succ_cons]
        split_ifs
        · rw [erase_cons_tail (by simpa using hab), cons_append]
        · rfl

end OceanFs.Lib.FirstOccurrences
