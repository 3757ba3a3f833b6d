import Mathlib.Data.Finset.Card
import OceanFs.Lib.Runs

/-!
The gate in front of the write path.

A PUT handler acquires a permit of the write queue, or answers that it is overloaded when it has
waited too long. The permit is bound inside the arm of the match that receives it and goes back
when the arm ends, ahead of the write path: the path's awaits are passed without it.
-/

namespace OceanFs.Handlers.Admission

open Lib.Runs Option

/-- Where the handler of a client is, by the await it is at. -/
inductive Phase
  | idle
  /-- Waits for a permit. -/
  | queued
  /-- Has the permit, inside the arm. -/
  | admitted
  /-- In `WriteCoordinator::put`. -/
  | writing
  /-- In the metadata write of a result with chunks. -/
  | persisting
  /-- Invalidates the caches, here and on the replicas. -/
  | invalidating
  deriving DecidableEq

/-- Between admission and the response. -/
def Phase.inProgress (p : Phase) : Prop := p ≠ .idle ∧ p ≠ .queued

instance (p : Phase) : Decidable p.inProgress := inferInstanceAs (Decidable (_ ∧ _))

/-- The free permits, and the handler of each client. -/
structure State (ι : Type) where
  permits : ℕ
  phase : ι → Phase

inductive Act (ι : Type)
  | request (i : ι)
  | acquire (i : ι)
  /-- The wait is over: `503 SlowDown`. -/
  | reject (i : ι)
  /-- The end of the arm. -/
  | release (i : ι)
  /-- The write fails, or gives a result with or without chunks. -/
  | write (i : ι) (chunked : Option Bool)
  | persist (i : ι) (ok : Bool)
  | respond (i : ι)
  /-- The client is gone and the handler is dropped where it is. -/
  | cancel (i : ι)

variable {ι : Type} [DecidableEq ι]

def State.goto (s : State ι) (i : ι) (p : Phase) : State ι :=
  { s with phase := Function.update s.phase i p }

def step (s : State ι) : Act ι → Option (State ι)
  | .request i => if s.phase i = .idle then some (s.goto i .queued) else none
  | .acquire i =>
    if s.phase i = .queued ∧ 0 < s.permits then
      some { s.goto i .admitted with permits := s.permits - 1 }
    else none
  | .reject i => if s.phase i = .queued then some (s.goto i .idle) else none
  | .release i =>
    if s.phase i = .admitted then some { s.goto i .writing with permits := s.permits + 1 }
    else none
  | .write i chunked =>
    if s.phase i = .writing then
      match chunked with
      | none => some (s.goto i .idle)
      | some true => some (s.goto i .persisting)
      | some false => some (s.goto i .invalidating)
    else none
  | .persist i ok =>
    if s.phase i = .persisting then some (s.goto i (if ok then .invalidating else .idle)) else none
  | .respond i => if s.phase i = .invalidating then some (s.goto i .idle) else none
  | .cancel i =>
    if s.phase i = .admitted then some { s.goto i .idle with permits := s.permits + 1 }
    else some (s.goto i .idle)

/-- A server that starts with `n` permits. -/
def start (ι : Type) (n : ℕ) : State ι := ⟨n, fun _ => .idle⟩

/-- At most `n` handlers are between admission and their response. -/
def AtMost (n : ℕ) (s : State ι) : Prop :=
  ∀ handlers : Finset ι, (∀ i ∈ handlers, (s.phase i).inProgress) → handlers.card ≤ n

/-! ### What a step does -/

inductive Effect (s : State ι) : State ι → Prop
  | acquire {i : ι} (hi : s.phase i = .queued) (hp : 0 < s.permits) :
      Effect s { s.goto i .admitted with permits := s.permits - 1 }
  | release {i : ι} {p : Phase} (hi : s.phase i = .admitted) (hp : p ≠ .admitted) :
      Effect s { s.goto i p with permits := s.permits + 1 }
  | move {i : ι} {p : Phase} (hi : s.phase i ≠ .admitted) (hp : p ≠ .admitted)
      (hprogress : p.inProgress → (s.phase i).inProgress) : Effect s (s.goto i p)

lemma effect_of_step {s s' : State ι} {a : Act ι} (h : step s a = some s') : Effect s s' := by
  cases a with
  | request i =>
    simp only [step, ite_none_right_eq_some, some.injEq] at h
    obtain ⟨hi, rfl⟩ := h
    exact .move (by simp [hi]) (by simp) (by simp [Phase.inProgress])
  | acquire i =>
    simp only [step, ite_none_right_eq_some, some.injEq] at h
    obtain ⟨⟨hi, hp⟩, rfl⟩ := h
    exact .acquire hi hp
  | reject i =>
    simp only [step, ite_none_right_eq_some, some.injEq] at h
    obtain ⟨hi, rfl⟩ := h
    exact .move (by simp [hi]) (by simp) (by simp [Phase.inProgress])
  | release i =>
    simp only [step, ite_none_right_eq_some, some.injEq] at h
    obtain ⟨hi, rfl⟩ := h
    exact .release hi (by simp)
  | write i chunked =>
    simp only [step, ite_none_right_eq_some] at h
    obtain ⟨hi, h⟩ := h
    rcases chunked with _ | _ | _ <;> obtain rfl := some.inj h <;>
      exact .move (by simp [hi]) (by simp) (by simp [Phase.inProgress, hi])
  | persist i ok =>
    simp only [step, ite_none_right_eq_some, some.injEq] at h
    obtain ⟨hi, rfl⟩ := h
    cases ok <;> exact .move (by simp [hi]) (by simp) (by simp [Phase.inProgress, hi])
  | respond i =>
    simp only [step, ite_none_right_eq_some, some.injEq] at h
    obtain ⟨hi, rfl⟩ := h
    exact .move (by simp [hi]) (by simp) (by simp [Phase.inProgress])
  | cancel i =>
    simp only [step] at h
    split at h
    · rename_i hi
      obtain rfl := some.inj h
      exact .release hi (by simp)
    · rename_i hi
      obtain rfl := some.inj h
      exact .move hi (by simp) (by simp [Phase.inProgress])

/-! ### No permits -/

/-- Without permits nobody is admitted. -/
def Shut (s : State ι) : Prop := s.permits = 0 ∧ ∀ i, ¬(s.phase i).inProgress

lemma Shut.step {s s' : State ι} (h : Shut s) (he : Effect s s') : Shut s' := by
  obtain ⟨hpermits, hidle⟩ := h
  cases he with
  | acquire hi hp => omega
  | @release i p hi hp => exact absurd ⟨by simp [hi], by simp [hi]⟩ (hidle i)
  | @move i p hi hp hprogress =>
    refine ⟨hpermits, fun j => ?_⟩
    by_cases hj : j = i
    · have hp' : ¬p.inProgress := mt hprogress (hidle i)
      simpa [State.goto, hj] using hp'
    · simpa [State.goto, hj] using hidle j

/-! ### A crowd in the write path -/

/-- A client's handler comes into the write path by itself. -/
def enter (i : ι) : List (Act ι) := [.request i, .acquire i, .release i]

lemma run_enter {s : State ι} {i : ι} (hi : s.phase i = .idle) (hp : 0 < s.permits) :
    run step s (enter i) = some (s.goto i .writing) := by
  have hback : s.permits - 1 + 1 = s.permits := by omega
  simp [enter, run, step, State.goto, hi, hp, hback]

lemma run_crowd {n : ℕ} (hn : 0 < n) {l : List ι} (hl : l.Nodup) :
    ∃ s, run step (start ι n) (l.flatMap enter) = some s ∧ s.permits = n ∧
      ∀ i, s.phase i = if i ∈ l then .writing else .idle := by
  induction l using List.reverseRecOn with
  | nil => exact ⟨start ι n, rfl, rfl, by simp [start]⟩
  | append_singleton l i ih =>
    obtain ⟨hl, -, hdisjoint⟩ := List.nodup_append.mp hl
    have hnew : i ∉ l := fun hi => hdisjoint i hi i List.mem_cons_self rfl
    obtain ⟨s, hrun, hpermits, hphase⟩ := ih hl
    have hidle : s.phase i = .idle := by rw [hphase, if_neg hnew]
    have hnext := run_enter hidle (hpermits ▸ hn)
    refine ⟨s.goto i .writing, ?_, hpermits, fun j => ?_⟩
    · rw [List.flatMap_append, List.flatMap_singleton]
      exact run_append.mpr ⟨s, hrun, hnext⟩
    · by_cases hj : j = i
      · simp [State.goto, hj]
      · simp [State.goto, hj, hphase]

/-- **The write admission bound** holds over all interleavings exactly when there are no permits,
with which nobody is admitted, or no more clients than permits. -/
theorem admission_bound_iff (n : ℕ) :
    (∀ acts, Always step (AtMost n) (start ι n) acts) ↔
      n = 0 ∨ ∀ clients : Finset ι, clients.card ≤ n := by
  constructor
  · intro h
    by_contra hnot
    push Not at hnot
    obtain ⟨hn, clients, hmany⟩ := hnot
    obtain ⟨s, hrun, -, hphase⟩ := run_crowd (Nat.pos_of_ne_zero hn) clients.nodup_toList
    have hbound := (always_iff_run _ _).mp (h _) _ s List.prefix_rfl hrun clients fun i hi => by
      simp [hphase, hi, Phase.inProgress]
    omega
  · rintro (rfl | hfew) acts
    · refine always_of_inv (fun s a s' h hs => Shut.step h (effect_of_step hs)) (fun s h => ?_)
        ⟨rfl, by simp [start, Phase.inProgress]⟩
      intro handlers hin
      rw [Nat.le_zero, Finset.card_eq_zero]
      exact Finset.eq_empty_of_forall_notMem fun i hi => h.2 i (hin i hi)
    · exact (always_iff_run _ _).mpr fun _ _ _ _ handlers _ => hfew handlers

/-- With one permit, a second client comes into the write path while the first is there. -/
theorem two_writers_on_one_permit :
    ∃ s, run step (start Bool 1) (enter false ++ enter true) = some s ∧
      s.phase false = .writing ∧ s.phase true = .writing ∧ ¬AtMost 1 s := by
  refine ⟨_, rfl, by decide, by decide, fun h => ?_⟩
  exact absurd (h {false, true} (by decide)) (by decide)

end OceanFs.Handlers.Admission
