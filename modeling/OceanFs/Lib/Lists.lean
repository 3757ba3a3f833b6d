import Mathlib.Algebra.Ring.Nat
import Mathlib.Data.List.Basic
import Mathlib.Data.List.Forall2

/-!
Folds over lists: choosing an element, and filling a table.
-/

namespace OceanFs.Lib.Lists

open List

variable {α : Type*}

lemma mem_of_foldl_select {f : Option α → α → Option α} {l : List α} {x : α}
    (hf : ∀ best a, f best a = best ∨ f best a = some a) (h : l.foldl f none = some x) :
    x ∈ l := by
  -- it holds what it started with or one of the elements it has seen
  suffices hfold : ∀ best, l.foldl f best = some x → best = some x ∨ x ∈ l by
    rcases hfold none h with hn | hmem
    · simp at hn
    · exact hmem
  clear h
  induction l with
  | nil => exact fun best hb => .inl hb
  | cons a l ih =>
    intro best hb
    rw [foldl_cons] at hb
    rcases ih _ hb with hbest | hmem
    · rcases hf best a with heq | heq <;> rw [heq] at hbest
      · exact .inl hbest
      · exact .inr (Option.some.inj hbest ▸ mem_cons_self)
    · exact .inr (mem_cons_of_mem _ hmem)

lemma foldl_reaches {σ : Type*} {f : σ → α → σ} {P Q : σ → Prop} {Good : α → Prop} {l : List α}
    (hbefore : ∀ s, ∀ a ∈ l, P s → P (f s a) ∨ Q (f s a))
    (hgood : ∀ s, ∀ a ∈ l, P s → Good a → Q (f s a)) (hafter : ∀ s, ∀ a ∈ l, Q s → Q (f s a))
    {s : σ} (hs : P s) (hex : ∃ a ∈ l, Good a) : Q (l.foldl f s) := by
  have hstays : ∀ l' ⊆ l, ∀ s, Q s → Q (l'.foldl f s) := by
    intro l'
    induction l' with
    | nil => exact fun _ s hs => hs
    | cons a l' ih =>
      intro hsub s hs
      exact ih (fun _ h => hsub (mem_cons_of_mem a h)) _
        (hafter s a (hsub mem_cons_self) hs)
  suffices hreach : ∀ l' ⊆ l, ∀ s, P s → (∃ a ∈ l', Good a) → Q (l'.foldl f s) from
    hreach l (Subset.refl l) s hs hex
  intro l'
  induction l' with
  | nil => simp
  | cons a l' ih =>
    rintro hsub s hs ⟨b, hb, hbgood⟩
    have ha := hsub mem_cons_self
    have htail : l' ⊆ l := fun _ h => hsub (mem_cons_of_mem a h)
    rw [foldl_cons]
    rcases mem_cons.mp hb with rfl | hb
    · exact hstays l' htail _ (hgood s b ha hs hbgood)
    · rcases hbefore s a ha hs with hP | hQ
      · exact ih htail _ hP ⟨b, hb, hbgood⟩
      · exact hstays l' htail _ hQ

lemma getD_foldl_set {f : ℕ → ℕ} {g : ℕ → α} {table : List α} {n i : ℕ} (d : α)
    (hinj : ∀ i < n, ∀ j < n, f i = f j → i = j) (hf : ∀ i < n, f i < table.length) (hi : i < n) :
    ((List.range n).foldl (fun t i => t.set (f i) (g i)) table).getD (f i) d = g i := by
  have hlen : ∀ (l : List ℕ) (t : List α), (l.foldl (fun t i => t.set (f i) (g i)) t).length =
      t.length := by
    intro l
    induction l with
    | nil => exact fun _ => rfl
    | cons a l ih => exact fun t => (ih _).trans length_set
  induction n with
  | zero => omega
  | succ n ih =>
    rw [range_succ, foldl_append, foldl_cons, foldl_nil]
    by_cases hin : i = n
    · subst hin
      rw [getD_eq_getElem?_getD, getElem?_set_self (by rw [hlen]; exact hf i hi)]
      rfl
    · have hne : f n ≠ f i := fun h => hin (hinj i hi n (by omega) h.symm)
      rw [getD_eq_getElem?_getD, getElem?_set_ne hne, ← getD_eq_getElem?_getD]
      exact ih (fun i hi j hj => hinj i (by omega) j (by omega)) (fun i hi => hf i (by omega))
        (by omega)

lemma length_filter_add (p : α → Prop) [DecidablePred p] (l : List α) :
    (l.filter (p ·)).length + (l.filter (¬ p ·)).length = l.length := by
  have hnot : l.filter (fun a => decide (¬ p a)) = l.filter fun a => !decide (p a) :=
    filter_congr fun a _ => decide_not
  rw [hnot]
  exact (length_eq_length_filter_add _).symm

lemma mapM_eq_pure {m : Type → Type} [Monad m] [LawfulMonad m] {α β : Type} {f : α → m β}
    {g : α → β} {l : List α} (h : ∀ a ∈ l, f a = pure (g a)) : l.mapM f = pure (l.map g) := by
  induction l with
  | nil => simp
  | cons a l ih =>
    obtain ⟨ha, hl⟩ := forall_mem_cons.mp h
    simp [ha, ih hl]

lemma isSome_mapM_iff {α β : Type} {f : α → Option β} {l : List α} :
    (l.mapM f).isSome ↔ ∀ a ∈ l, (f a).isSome := by
  induction l with
  | nil => simp
  | cons a l ih =>
    rw [mapM_cons, forall_mem_cons, ← ih]
    cases f a <;> cases l.mapM f <;> simp

lemma mapM_eq_none {α β : Type} {f : α → Option β} {l : List α} (h : ∃ a ∈ l, f a = none) :
    l.mapM f = none := by
  obtain ⟨a, ha, hnone⟩ := h
  rw [← Option.not_isSome_iff_eq_none, isSome_mapM_iff]
  intro hall
  have hsome := hall a ha
  simp [hnone] at hsome

lemma mapM_eq_error {ε α β : Type} {f : α → Except ε β} {e : ε} {l : List α} (hne : l ≠ [])
    (h : ∀ a ∈ l, f a = .error e) : l.mapM f = .error e := by
  obtain ⟨a, l, rfl⟩ := exists_cons_of_ne_nil hne
  rw [mapM_cons, h a mem_cons_self]
  rfl

/-! ### Changing one place -/

variable {l : List α} {i : ℕ} {a x : α}

lemma split_getElem (h : l[i]? = some a) (b : α) :
    ∃ l₁ l₂, l = l₁ ++ a :: l₂ ∧ l.set i b = l₁ ++ b :: l₂ ∧ l.eraseIdx i = l₁ ++ l₂ := by
  obtain ⟨hi, rfl⟩ := List.getElem?_eq_some_iff.mp h
  refine ⟨l.take i, l.drop (i + 1), ?_, ?_, eraseIdx_eq_take_drop_succ l i⟩
  · rw [getElem_cons_drop, take_append_drop]
  · rw [set_eq_take_append_cons_drop, if_pos hi]

lemma mem_set_of_ne {b : α} (ha : l[i]? = some a) (hb : b ∈ l) (hne : b ≠ a) :
    b ∈ l.set i x := by
  obtain ⟨l₁, l₂, rfl, hset, -⟩ := split_getElem ha x
  rw [hset]
  rw [mem_append, mem_cons] at hb ⊢
  exact hb.imp_right fun hb => .inr (hb.resolve_left hne)

lemma mem_eraseIdx_of_ne {b : α} (ha : l[i]? = some a) (hb : b ∈ l) (hne : b ≠ a) :
    b ∈ l.eraseIdx i := by
  obtain ⟨l₁, l₂, rfl, -, herase⟩ := split_getElem ha a
  rw [herase]
  rw [mem_append, mem_cons] at hb
  exact mem_append.mpr (hb.imp_right fun hb => hb.resolve_left hne)

lemma eq_or_mem_eraseIdx (ha : l[i]? = some a) (hx : x ∈ l) :
    x = a ∨ x ∈ l.eraseIdx i := by
  obtain ⟨l₁, l₂, rfl, -, herase⟩ := split_getElem ha a
  rw [herase]
  simp only [mem_append, mem_cons] at hx ⊢
  tauto

lemma eq_or_mem_eraseIdx_of_set (hx : x ∈ l.set i a) :
    x = a ∨ x ∈ l.eraseIdx i := by
  obtain ⟨j, hj⟩ := mem_iff_getElem?.mp hx
  by_cases hij : i = j
  · subst hij
    rw [getElem?_set_self'] at hj
    obtain ⟨-, -, rfl⟩ := Option.map_eq_some_iff.mp hj
    exact .inl rfl
  · rw [getElem?_set_ne hij] at hj
    exact .inr (mem_eraseIdx_iff_getElem?.mpr ⟨j, Ne.symm hij, hj⟩)

lemma mem_flatMap_eraseIdx {β : Type*} {f : α → List β} {b : β} (ha : l[i]? = some a)
    (hb : b ∈ l.flatMap f) : b ∈ f a ∨ b ∈ (l.eraseIdx i).flatMap f := by
  obtain ⟨l₁, l₂, rfl, -, herase⟩ := split_getElem ha a
  rw [herase]
  simp only [flatMap_append, flatMap_cons, mem_append] at hb ⊢
  tauto

lemma mem_flatMap_set {β : Type*} {f : α → List β} {b : β} (ha : l[i]? = some a)
    (hx : b ∈ f a → b ∈ f x) (hb : b ∈ l.flatMap f) :
    b ∈ (l.set i x).flatMap f := by
  obtain ⟨l₁, l₂, rfl, hset, -⟩ := split_getElem ha x
  rw [hset]
  simp only [flatMap_append, flatMap_cons, mem_append] at hb ⊢
  tauto

lemma rel_of_mem_eraseIdx {R : α → α → Prop} (hsymm : ∀ a b, R a b → R b a) (h : l.Pairwise R)
    (ha : l[i]? = some a) (hx : x ∈ l.eraseIdx i) : R a x := by
  obtain ⟨l₁, l₂, rfl, -, herase⟩ := split_getElem ha a
  rw [herase] at hx
  obtain ⟨-, h₂, h₁⟩ := pairwise_append.mp h
  rcases mem_append.mp hx with hx | hx
  · exact hsymm _ _ (h₁ x hx a mem_cons_self)
  · exact (pairwise_cons.mp h₂).1 x hx

lemma pairwise_set {R : α → α → Prop} (hsymm : ∀ a b, R a b → R b a) {b : α} (h : l.Pairwise R)
    (ha : l[i]? = some a) (hb : ∀ x ∈ l.eraseIdx i, R b x) :
    (l.set i b).Pairwise R := by
  obtain ⟨l₁, l₂, rfl, hset, herase⟩ := split_getElem ha b
  rw [herase] at hb
  rw [hset]
  obtain ⟨h₁, h₂, h₁₂⟩ := pairwise_append.mp h
  refine pairwise_append.mpr ⟨h₁, pairwise_cons.mpr ⟨fun x hx =>
    hb x (mem_append_right _ hx), (pairwise_cons.mp h₂).2⟩, fun x hx y hy => ?_⟩
  rcases mem_cons.mp hy with rfl | hy
  · exact hsymm _ _ (hb x (mem_append_left _ hx))
  · exact h₁₂ x hx y (mem_cons_of_mem _ hy)

lemma any_of_any_eraseIdx {p : α → Bool} {l : List α} {i : ℕ} (h : (l.eraseIdx i).any p) :
    l.any p := by
  obtain ⟨x, hx, hp⟩ := any_eq_true.mp h
  exact any_eq_true.mpr ⟨x, mem_of_mem_eraseIdx hx, hp⟩

lemma any_of_any_set {p : α → Bool} (ha : l[i]? = some a) (hx : p x → p a) (h : (l.set i x).any p) :
    l.any p := by
  obtain ⟨y, hy, hp⟩ := any_eq_true.mp h
  rcases mem_or_eq_of_mem_set hy with hy | rfl
  · exact any_eq_true.mpr ⟨y, hy, hp⟩
  · exact any_eq_true.mpr ⟨a, mem_of_getElem? ha, hx hp⟩

lemma sum_map_set (f : α → ℕ) (ha : l[i]? = some a) (b : α) :
    ((l.set i b).map f).sum + f a = (l.map f).sum + f b := by
  obtain ⟨l₁, l₂, rfl, hset, -⟩ := split_getElem ha b
  rw [hset]
  simp only [map_append, map_cons, sum_append, sum_cons]
  omega

lemma sum_map_eraseIdx (f : α → ℕ) (ha : l[i]? = some a) :
    ((l.eraseIdx i).map f).sum + f a = (l.map f).sum := by
  obtain ⟨l₁, l₂, rfl, -, herase⟩ := split_getElem ha a
  rw [herase]
  simp only [map_append, map_cons, sum_append, sum_cons]
  omega

lemma add_le_sum_map (f : α → ℕ) {j : ℕ} {b : α} (ha : l[i]? = some a) (hb : l[j]? = some b)
    (hij : i ≠ j) : f a + f b ≤ (l.map f).sum := by
  have herase := sum_map_eraseIdx f ha
  have hmem : b ∈ l.eraseIdx i := mem_eraseIdx_iff_getElem?.mpr ⟨j, hij.symm, hb⟩
  obtain ⟨k, hk⟩ := mem_iff_getElem?.mp hmem
  have herase' := sum_map_eraseIdx f hk
  omega

/-! ### Lists that are related place by place -/

section

variable {β : Type*} {R : α → β → Prop} {xs : List α} {ys : List β}

lemma forall₂_mem_right (h : List.Forall₂ R xs ys) {y : β} (hy : y ∈ ys) : ∃ x ∈ xs, R x y := by
  induction h with
  | nil => simp at hy
  | cons hxy _ ih =>
    rcases mem_cons.mp hy with rfl | hy
    · exact ⟨_, mem_cons_self, hxy⟩
    · obtain ⟨x, hx, hR⟩ := ih hy
      exact ⟨x, mem_cons_of_mem _ hx, hR⟩

lemma forall₂_mem_left (h : List.Forall₂ R xs ys) {x : α} (hx : x ∈ xs) : ∃ y ∈ ys, R x y :=
  forall₂_mem_right h.flip hx

end

end OceanFs.Lib.Lists
