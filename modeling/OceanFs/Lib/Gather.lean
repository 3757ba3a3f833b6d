import Mathlib.Data.List.Forall2
import Mathlib.Data.List.Perm.Basic
import Mathlib.Data.List.ReduceOption

/-!
Collecting the results of a list of fallible fetches.

`inOrder` makes them one after the other and stops at the first error. `asTheyCome` starts them
all and takes each result when it arrives, in any order; it may stop waiting once it has enough
of them, and a result it did not wait for is missing.
-/

namespace OceanFs.Lib.Gather

open List Option

variable {α β ε : Type}

/-! ### One after the other -/

def inOrder (f : α → Except ε β) : List α → Except ε (List β)
  | [] => .ok []
  | a :: l =>
    match f a with
    | .error e => .error e
    | .ok b =>
      match inOrder f l with
      | .error e => .error e
      | .ok bs => .ok (b :: bs)

variable {f : α → Except ε β}

theorem inOrder_eq_ok_iff {l : List α} {bs : List β} :
    inOrder f l = .ok bs ↔ List.Forall₂ (fun a b => f a = .ok b) l bs := by
  induction l generalizing bs with
  | nil => simp [inOrder, eq_comm]
  | cons a l ih =>
    cases bs with
    | nil => cases ha : f a <;> cases hl : inOrder f l <;> simp [inOrder, ha, hl]
    | cons b bs =>
      rw [forall₂_cons, ← ih]
      cases ha : f a <;> cases hl : inOrder f l <;> simp [inOrder, ha, hl]

lemma inOrder_error {l : List α} {e : ε} (h : inOrder f l = .error e) :
    ∃ a ∈ l, f a = .error e := by
  induction l with
  | nil => simp [inOrder] at h
  | cons a l ih =>
    cases ha : f a with
    | error e' =>
      simp only [inOrder, ha, Except.error.injEq] at h
      exact ⟨a, by simp, h ▸ ha⟩
    | ok b =>
      cases hl : inOrder f l with
      | error e' =>
        simp only [inOrder, ha, hl, Except.error.injEq] at h
        obtain ⟨a', ha', he⟩ := ih (h ▸ hl)
        exact ⟨a', by simp [ha'], he⟩
      | ok bs => simp [inOrder, ha, hl] at h

/-! ### The first that answers -/

/-- Takes the results in order of arrival into their slots. It stops once `enough` of them are
there, unless that is all. -/
def collect (enough : ℕ) (f : α → Except ε β) (l : List α) :
    List ℕ → List (Option β) → List ε → ℕ → List (Option β) × List ε
  | [], slots, errors, _ => (slots, errors)
  | i :: order, slots, errors, successes =>
    match l[i]?.map f with
    | none => collect enough f l order slots errors successes
    | some (.error e) => collect enough f l order slots (errors ++ [e]) successes
    | some (.ok b) =>
      if enough ≤ successes + 1 ∧ enough < l.length then (slots.set i (some b), errors)
      else collect enough f l order (slots.set i (some b)) errors (successes + 1)

/-- All results, or the first error that arrived, or `missing` when there was none. -/
def asTheyCome (enough : ℕ) (f : α → Except ε β) (missing : ε) (l : List α) (order : List ℕ) :
    Except ε (List β) :=
  let (slots, errors) := collect enough f l order (List.replicate l.length none) [] 0
  if slots.all Option.isSome then .ok slots.reduceOption else .error (errors.head?.getD missing)

lemma collect_length (enough : ℕ) (f : α → Except ε β) (l : List α) (order : List ℕ)
    (slots : List (Option β)) (errors : List ε) (successes : ℕ) :
    (collect enough f l order slots errors successes).1.length = slots.length := by
  induction order generalizing slots errors successes with
  | nil => rfl
  | cons i order ih =>
    unfold collect
    rcases l[i]?.map f with _ | e | b
    · exact ih ..
    · exact ih ..
    · dsimp only
      split
      · simp
      · simp [ih]

lemma countP_isSome_set_le (slots : List (Option β)) (i : ℕ) (b : β) :
    (slots.set i (some b)).countP Option.isSome ≤ slots.countP Option.isSome + 1 := by
  by_cases hi : i < slots.length
  · rw [countP_set hi]
    simp only [isSome_some, if_true]
    omega
  · rw [set_eq_of_length_le (by omega)]
    omega

lemma collect_errors {enough : ℕ} {f : α → Except ε β} {l : List α} {order : List ℕ}
    {slots : List (Option β)} {errors : List ε} {successes : ℕ} {e : ε}
    (h : e ∈ (collect enough f l order slots errors successes).2) :
    e ∈ errors ∨ ∃ a ∈ l, f a = .error e := by
  induction order generalizing slots errors successes with
  | nil => exact .inl h
  | cons i order ih =>
    unfold collect at h
    rcases hi : l[i]?.map f with _ | e' | b
    · exact ih (by simpa [hi] using h)
    · rw [hi] at h
      rcases ih h with hm | ha
      · rcases mem_append.mp hm with hm | hm
        · exact .inl hm
        · obtain ⟨a, ha, he⟩ := map_eq_some_iff.mp hi
          rw [mem_singleton.mp hm]
          exact .inr ⟨a, mem_of_getElem? ha, he⟩
      · exact .inr ha
    · simp only [hi] at h
      split at h
      · exact .inl h
      · exact ih h

lemma asTheyCome_error {enough : ℕ} {f : α → Except ε β} {missing e : ε} {l : List α}
    {order : List ℕ} (h : asTheyCome enough f missing l order = .error e) :
    e = missing ∨ ∃ a ∈ l, f a = .error e := by
  unfold asTheyCome at h
  rcases hc : collect enough f l order (List.replicate l.length none) [] 0 with ⟨slots, errors⟩
  simp only [hc] at h
  split at h
  · simp at h
  · cases herr : errors.head? with
    | none => exact .inl (by simpa [herr] using h.symm)
    | some e' =>
      have he : e' = e := by simpa [herr] using h
      subst he
      have hmem : e' ∈ (collect enough f l order (List.replicate l.length none) [] 0).2 := by
        rw [hc]
        exact mem_of_mem_head? herr
      exact .inr ((collect_errors hmem).resolve_left (by simp))

lemma collect_filled_le {enough : ℕ} {f : α → Except ε β} {l : List α} (hstop : enough < l.length)
    (order : List ℕ) {slots : List (Option β)} (errors : List ε) {successes : ℕ}
    (hn : successes < enough) (hs : slots.countP Option.isSome ≤ successes) :
    (collect enough f l order slots errors successes).1.countP Option.isSome ≤ enough := by
  induction order generalizing slots errors successes with
  | nil => simp only [collect]; omega
  | cons i order ih =>
    unfold collect
    rcases l[i]?.map f with _ | e | b
    · exact ih _ hn hs
    · exact ih _ hn hs
    · have hone := countP_isSome_set_le slots i b
      dsimp only
      split
      · dsimp only
        omega
      · exact ih _ (by omega) (by omega)

lemma collect_slots {enough : ℕ} {f : α → Except ε β} {l : List α} (hall : l.length ≤ enough)
    {order : List ℕ} {slots : List (Option β)} (errors : List ε) (successes : ℕ)
    (hlen : slots.length = l.length)
    (h : ∀ i, slots[i]? = (l.map fun a => (f a).toOption)[i]? ∨ i ∈ order ∧ slots[i]? = some none) :
    (collect enough f l order slots errors successes).1 = l.map fun a => (f a).toOption := by
  induction order generalizing slots errors successes with
  | nil => exact ext_getElem? fun i => (h i).resolve_right (by simp)
  | cons j order ih =>
    -- the slot of the result at the head is settled by it
    have hrest : ∀ i, i ≠ j → slots[i]? = (l.map fun a => (f a).toOption)[i]? ∨
        i ∈ order ∧ slots[i]? = some none := by
      intro i hi
      simpa [hi] using h i
    unfold collect
    rcases hj : l[j]?.map f with _ | e | b
    · refine ih _ _ hlen fun i => ?_
      by_cases hi : i = j
      · subst hi
        have hout : l.length ≤ i := by simpa using hj
        exact .inl (by simp [hlen, hout])
      · exact hrest i hi
    · refine ih _ _ hlen fun i => ?_
      by_cases hi : i = j
      · subst hi
        obtain ⟨a, ha, he⟩ := map_eq_some_iff.mp hj
        have hgoal : (l.map fun a => (f a).toOption)[i]? = some none := by
          simp [ha, he, Except.toOption]
        rcases h i with hs | ⟨-, hs⟩
        · exact .inl hs
        · exact .inl (hs.trans hgoal.symm)
      · exact hrest i hi
    · dsimp only
      rw [if_neg (by omega)]
      refine ih _ _ (by simpa using hlen) fun i => ?_
      by_cases hi : i = j
      · subst hi
        obtain ⟨a, ha, hb⟩ := map_eq_some_iff.mp hj
        have hlt : i < slots.length := by
          rw [hlen]
          exact (List.getElem?_eq_some_iff.mp ha).1
        exact .inl (by simp [ha, hb, hlt, Except.toOption])
      · rw [getElem?_set_ne (Ne.symm hi)]
        exact hrest i hi

lemma filled_iff {l : List α} {bs : List β} :
    (l.map fun a => (f a).toOption).all Option.isSome = true ∧
      (l.map fun a => (f a).toOption).reduceOption = bs ↔
    List.Forall₂ (fun a b => f a = .ok b) l bs := by
  induction l generalizing bs with
  | nil => simp [eq_comm]
  | cons a l ih =>
    cases ha : f a with
    | error e => simp [ha, Except.toOption, forall₂_cons_left_iff]
    | ok b =>
      cases bs with
      | nil => simp [ha, Except.toOption]
      | cons c cs =>
        rw [forall₂_cons, ← ih, ha]
        simp only [map_cons, ha, Except.toOption, all_cons, isSome_some,
          Bool.true_and, reduceOption_cons_of_some, cons.injEq, Except.ok.injEq]
        tauto

theorem asTheyCome_eq_ok_iff {enough : ℕ} {f : α → Except ε β} {missing : ε} {l : List α}
    {order : List ℕ} {bs : List β} (hpos : 0 < enough) (horder : order.Perm (List.range l.length)) :
    asTheyCome enough f missing l order = .ok bs ↔
      l.length ≤ enough ∧ List.Forall₂ (fun a b => f a = .ok b) l bs := by
  unfold asTheyCome
  rcases hc : collect enough f l order (List.replicate l.length none) [] 0 with ⟨slots, errors⟩
  by_cases hall : l.length ≤ enough
  · have hslots := @collect_slots α β ε enough f l hall order (List.replicate l.length none) [] 0
      (by simp) fun i => by
        rw [horder.mem_iff, mem_range]
        by_cases hi : i < l.length
        · exact .inr ⟨hi, by simp [hi]⟩
        · exact .inl (by simp [hi])
    rw [hc] at hslots
    rw [← filled_iff, ← hslots]
    by_cases hs : slots.all Option.isSome = true <;> simp [hs, hall]
  · -- some slot stays empty
    have hfill := @collect_filled_le α β ε enough f l (by omega) order
      (List.replicate l.length none) [] 0 hpos (by simp)
    have hlen := collect_length enough f l order (List.replicate l.length none) [] 0
    simp only [hc, length_replicate] at hfill hlen
    have hsome : slots.all Option.isSome ≠ true := by
      intro hs
      rw [countP_eq_length.mpr (by simpa using hs)] at hfill
      omega
    simp [hsome, hall]

end OceanFs.Lib.Gather
