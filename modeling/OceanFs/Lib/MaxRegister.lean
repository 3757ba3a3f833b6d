import Mathlib.Data.List.MinMax

/-!
Registers that keep the greatest of what is delivered to them.

A state has a rank, none at first. Within an invariant that every delivery keeps, a delivery
raises the rank to its own, so the rank after a list of deliveries is the greatest of theirs and
the start's, in any order.
-/

namespace OceanFs.Lib.MaxRegister

open List

variable {σ δ ρ : Type*} [LinearOrder ρ]

/-- Deliveries keep the invariant, and raise the rank of a state to their own. -/
structure Raises (apply : σ → δ → σ) (Inv : σ → Prop) (rank : σ → WithBot ρ) (key : δ → ρ) :
    Prop where
  inv : ∀ s d, Inv s → Inv (apply s d)
  rank_eq : ∀ s d, Inv s → rank (apply s d) = max (rank s) (key d)

variable {apply : σ → δ → σ} {Inv : σ → Prop} {rank : σ → WithBot ρ} {key : δ → ρ}

theorem Raises.rank_foldl (h : Raises apply Inv rank key) {s : σ} (hs : Inv s) (ds : List δ) :
    rank (ds.foldl apply s) = max (rank s) (ds.map key).maximum := by
  induction ds generalizing s with
  | nil => simp
  | cons d ds ih =>
    rw [foldl_cons, ih (h.inv s d hs), h.rank_eq s d hs, map_cons, maximum_cons,
      max_assoc]

lemma obs_foldl {ω : Type*} {obs : σ → ω} {val : δ → ω}
    (h : ∀ s d, obs (apply s d) = obs s ∨ obs (apply s d) = val d) (s : σ) (ds : List δ) :
    obs (ds.foldl apply s) = obs s ∨ ∃ d ∈ ds, obs (ds.foldl apply s) = val d := by
  induction ds generalizing s with
  | nil => exact .inl rfl
  | cons d ds ih =>
    rw [foldl_cons]
    rcases ih (apply s d) with hsame | ⟨d', hd', hval⟩
    · rcases h s d with hs | hd
      · exact .inl (hsame.trans hs)
      · exact .inr ⟨d, mem_cons_self, hsame.trans hd⟩
    · exact .inr ⟨d', mem_cons_of_mem _ hd', hval⟩

end OceanFs.Lib.MaxRegister
