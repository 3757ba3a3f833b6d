import Mathlib.Data.List.Sort

/-!
Tables sorted by keys that are lists, in lexicographic order.

The keys with a given prefix stand together: a scan that seeks to the prefix and goes on as long as
the keys have it finds all of them.
-/

namespace OceanFs.Lib

open List

variable {α V : Type} [LT α] [LE α] [Std.IsLinearOrder α] [Std.LawfulOrderLT α]

section

omit [LE α] [Std.IsLinearOrder α] [Std.LawfulOrderLT α]

lemma isPrefix_of_le_of_le [Std.Trichotomous fun a b : α => a < b] {p x y : List α} (hp : p <+: x)
    (hpy : p ≤ y) (hyx : y ≤ x) : p <+: y := by
  induction p generalizing x y with
  | nil => exact nil_prefix
  | cons a p ih =>
    obtain ⟨rest, rfl⟩ := hp
    cases y with
    | nil => exact absurd (nil_lt_cons a p) hpy
    | cons b y =>
      obtain ⟨hba, hyp⟩ := not_or.mp (mt cons_lt_cons_iff.mpr hpy)
      obtain ⟨hab, hxy⟩ := not_or.mp (mt cons_lt_cons_iff.mpr hyx)
      obtain rfl : a = b := Std.Trichotomous.trichotomous a b hab hba
      refine cons_prefix_cons.mpr ⟨rfl, ih (prefix_append p rest) ?_ ?_⟩
      · exact fun h => hyp ⟨rfl, h⟩
      · exact fun h => hxy ⟨rfl, h⟩

end

/-- A table, its rows in the order of their keys. -/
structure SortedTable (α V : Type) [LT α] where
  rows : List (List α × V)
  sorted : rows.Pairwise fun x y => x.1 ≤ y.1

namespace SortedTable

def empty : SortedTable α V := ⟨[], .nil⟩

variable [DecidableEq α] [DecidableLT α]

instance : Std.Total fun x y : List α × V => x.1 ≤ y.1 := ⟨fun x y => List.le_total x.1 y.1⟩

instance : IsTrans (List α × V) fun x y => x.1 ≤ y.1 := ⟨fun _ _ _ => List.le_trans⟩

variable (t : SortedTable α V)

def delete (k : List α) : SortedTable α V where
  rows := t.rows.filter (·.1 ≠ k)
  sorted := t.sorted.filter _

def put (k : List α) (v : V) : SortedTable α V where
  rows := (t.delete k).rows.orderedInsert (fun x y => x.1 ≤ y.1) (k, v)
  sorted := (t.delete k).sorted.orderedInsert _ _

/-- The rows from the first key that is not below the prefix, as long as the keys have it. -/
def scan (p : List α) : List (List α × V) :=
  (t.rows.dropWhile (·.1 < p)).takeWhile (p <+: ·.1)

omit [LE α] [Std.IsLinearOrder α] [Std.LawfulOrderLT α] [DecidableLT α] in
lemma takeWhile_isPrefix_eq_filter [Std.Trichotomous fun a b : α => a < b] {p : List α}
    {rows : List (List α × V)} (hsorted : rows.Pairwise fun x y => x.1 ≤ y.1)
    (hle : ∀ x ∈ rows, p ≤ x.1) :
    rows.takeWhile (p <+: ·.1) = rows.filter (p <+: ·.1) := by
  induction rows with
  | nil => rfl
  | cons x rows ih =>
    obtain ⟨hx, hsorted⟩ := pairwise_cons.mp hsorted
    obtain ⟨hpx, hle⟩ := forall_mem_cons.mp hle
    by_cases hp : p <+: x.1
    · rw [takeWhile_cons_of_pos (by simpa using hp), ih hsorted hle,
        filter_cons_of_pos (by simpa using hp)]
    · -- no later key has the prefix, since this one would be between
      rw [takeWhile_cons_of_neg (by simpa using hp),
        filter_cons_of_neg (by simpa using hp), eq_comm, filter_eq_nil_iff]
      intro y hy hpy
      exact hp (isPrefix_of_le_of_le (by simpa using hpy) hpx (hx y hy))

theorem scan_eq_filter (p : List α) :
    t.scan p = t.rows.filter (p <+: ·.1) := by
  obtain ⟨rows, hsorted⟩ := t
  unfold scan
  simp only
  induction rows with
  | nil => rfl
  | cons x rows ih =>
    obtain ⟨hx, htail⟩ := pairwise_cons.mp hsorted
    by_cases hlt : x.1 < p
    · have hp : ¬p <+: x.1 := fun hp => hp.le hlt
      rw [dropWhile_cons_of_pos (by simpa using hlt), ih htail,
        filter_cons_of_neg (by simpa using hp)]
    · rw [dropWhile_cons_of_neg (by simpa using hlt)]
      refine takeWhile_isPrefix_eq_filter hsorted fun y hy => ?_
      rcases mem_cons.mp hy with rfl | hy
      · exact List.not_lt.mp hlt
      · exact List.le_trans (List.not_lt.mp hlt) (hx y hy)

lemma rows_put_perm (k : List α) (v : V) :
    (t.put k v).rows.Perm ((k, v) :: t.rows.filter (·.1 ≠ k)) :=
  perm_orderedInsert _ _ _

end SortedTable

end OceanFs.Lib
