import Mathlib.Data.Nat.Notation
import Mathlib.Order.Basic
import OceanFs.Lib.Runs

/-!
Calls that change one register by compare-and-swap.

A call loads the register, computes the next value from what it has loaded, and swaps it in if the
register still has the loaded value; otherwise, and sometimes without a reason, it starts again. A
call returns the value that it has swapped in. When every swap raises the register, what a call
returns is above all that was returned before the call began.
-/

namespace OceanFs.Lib.CasLoop

open List Option

variable {ρ σ : Type*}

/-- A call under way, with the values that had been returned when it began. -/
structure Call (ρ σ : Type*) where
  req : ρ
  before : List σ
  loaded : Option σ

structure Finished (ρ σ : Type*) where
  req : ρ
  before : List σ
  result : σ

structure St (ρ σ : Type*) where
  reg : σ
  calls : List (Call ρ σ)
  finished : List (Finished ρ σ)

def start (reg : σ) : St ρ σ := ⟨reg, [], []⟩

/-- A call counts as finished as soon as its swap has succeeded. -/
inductive Act (ρ : Type*)
  | call (req : ρ)
  | load (i : ℕ)
  | swap (i : ℕ)
  /-- The swap fails although the register has the loaded value. -/
  | spurious (i : ℕ)

section

variable [DecidableEq σ] (next : ρ → σ → σ)

def step (s : St ρ σ) : Act ρ → Option (St ρ σ)
  | .call req => some { s with calls := s.calls ++ [⟨req, s.finished.map (·.result), none⟩] }
  | .load i => s.calls[i]?.map fun c =>
      { s with calls := s.calls.set i { c with loaded := some s.reg } }
  | .swap i => s.calls[i]?.bind fun c => c.loaded.map fun cur =>
      if cur = s.reg then
        ⟨next c.req cur, s.calls.eraseIdx i, s.finished ++ [⟨c.req, c.before, next c.req cur⟩]⟩
      else { s with calls := s.calls.set i { c with loaded := none } }
  | .spurious i => s.calls[i]?.map fun c =>
      { s with calls := s.calls.set i { c with loaded := none } }

end

/-- A swap that succeeds does so at a request and a value that `Ok` allows. -/
def SwapsOk (Ok : ρ → σ → Prop) (s : St ρ σ) : Act ρ → Prop
  | .swap i => ∀ c ∈ s.calls[i]?, c.loaded = some s.reg → Ok c.req s.reg
  | _ => True

instance [DecidableEq σ] (Ok : ρ → σ → Prop) [∀ r v, Decidable (Ok r v)] (s : St ρ σ) :
    DecidablePred (SwapsOk Ok s) := fun act => by
  cases act <;> unfold SwapsOk <;> infer_instance

/-- What a call returned is above what was returned before it, and as its request wants it. -/
def Rising [LT σ] (Post : ρ → σ → Prop) (s : St ρ σ) : Prop :=
  ∀ f ∈ s.finished, (∀ t ∈ f.before, t < f.result) ∧ Post f.req f.result

instance [LT σ] [DecidableLT σ] (Post : ρ → σ → Prop) [∀ r v, Decidable (Post r v)] (s : St ρ σ) :
    Decidable (Rising Post s) :=
  inferInstanceAs (Decidable (∀ f ∈ s.finished, _))

section

variable [Preorder σ] {next : ρ → σ → σ} {Ok Post : ρ → σ → Prop} {s s' : St ρ σ}

/-- Nothing that was returned is above the register. -/
structure Inv (Post : ρ → σ → Prop) (s : St ρ σ) : Prop where
  finished : ∀ f ∈ s.finished, f.result ≤ s.reg
  before : ∀ c ∈ s.calls, ∀ t ∈ c.before, t ≤ s.reg
  rising : Rising Post s

lemma Inv.set (h : Inv Post s) {i : ℕ} {c : Call ρ σ} (hc : s.calls[i]? = some c)
    (loaded : Option σ) :
    Inv Post { s with calls := s.calls.set i { c with loaded } } where
  finished := h.finished
  before c' hc' := by
    rcases mem_or_eq_of_mem_set hc' with hc' | rfl
    · exact h.before c' hc'
    · exact h.before c (mem_of_getElem? hc)
  rising := h.rising

variable [DecidableEq σ]

lemma Inv.step (hnext : ∀ r v, Ok r v → v < next r v ∧ Post r (next r v)) (h : Inv Post s)
    {act : Act ρ} (hok : SwapsOk Ok s act) (hstep : step next s act = some s') : Inv Post s' := by
  cases act with
  | call req =>
    obtain rfl := some.inj hstep
    refine ⟨h.finished, fun c hc t ht => ?_, h.rising⟩
    rcases mem_append.mp hc with hc | hc
    · exact h.before c hc t ht
    · rw [mem_singleton.mp hc] at ht
      obtain ⟨f, hf, rfl⟩ := List.mem_map.mp ht
      exact h.finished f hf
  | load i =>
    obtain ⟨c, hc, rfl⟩ := map_eq_some_iff.mp hstep
    exact h.set hc _
  | swap i =>
    obtain ⟨c, hc, hstep⟩ := bind_eq_some_iff.mp hstep
    obtain ⟨cur, hcur, rfl⟩ := map_eq_some_iff.mp hstep
    split_ifs with heq
    · subst heq
      obtain ⟨hlt, hpost⟩ := hnext c.req s.reg (hok c hc hcur)
      have hbefore := h.before c (mem_of_getElem? hc)
      refine ⟨fun f hf => ?_, fun c' hc' t ht => ?_, fun f hf => ?_⟩
      · rcases mem_append.mp hf with hf | hf
        · exact (h.finished f hf).trans hlt.le
        · rw [mem_singleton.mp hf]
      · exact (h.before c' (mem_of_mem_eraseIdx hc') t ht).trans hlt.le
      · rcases mem_append.mp hf with hf | hf
        · exact h.rising f hf
        · rw [mem_singleton.mp hf]
          exact ⟨fun t ht => (hbefore t ht).trans_lt hlt, hpost⟩
    · exact h.set hc none
  | spurious i =>
    obtain ⟨c, hc, rfl⟩ := map_eq_some_iff.mp hstep
    exact h.set hc none

theorem rising_of_swapsOk (hnext : ∀ r v, Ok r v → v < next r v ∧ Post r (next r v)) (reg : σ)
    (acts : List (Act ρ))
    (hguard : Runs.Guarded (CasLoop.step next) (SwapsOk Ok) (start reg) acts) :
    Runs.Always (CasLoop.step next) (Rising Post) (start reg) acts := by
  have hstep : ∀ s a s', Inv Post s → SwapsOk Ok s a → CasLoop.step next s a = some s' →
      Inv Post s' := fun s a s' hs hok hstep => hs.step hnext hok hstep
  have hstart : Inv Post (start reg : St ρ σ) :=
    ⟨by simp [start], by simp [start], by simp [start, Rising]⟩
  exact Runs.always_of_guarded hstep (fun s hs => hs.rising) hstart hguard

end

end OceanFs.Lib.CasLoop
