import Mathlib.Logic.Basic

/-!
Runs of a machine given by a partial step function.

An action that is not enabled has no successor. A property that a run keeps is proved from
what one step keeps; where a step needs more than the invariant, the run is guarded: every
step it takes meets a condition in the state it is taken from.
-/

namespace OceanFs.Lib.Runs

open List Option

variable {σ α : Type*} (step : σ → α → Option σ)

def run (s : σ) : List α → Option σ
  | [] => some s
  | a :: as => (step s a).bind fun s' => run s' as

/-- Every step that is taken meets `Ok` in the state it is taken from. -/
def Guarded (Ok : σ → α → Prop) : σ → List α → Prop
  | _, [] => True
  | s, a :: as => ∀ s', step s a = some s' → Ok s a ∧ Guarded Ok s' as

/-- `P` holds in the first state and in every state reached. -/
def Always (P : σ → Prop) : σ → List α → Prop
  | s, [] => P s
  | s, a :: as => P s ∧ ∀ s', step s a = some s' → Always P s' as

instance decidableGuarded (Ok : σ → α → Prop) [∀ s a, Decidable (Ok s a)] :
    ∀ s as, Decidable (Guarded step Ok s as)
  | _, [] => .isTrue trivial
  | s, a :: as =>
    match h : step s a with
    | none => .isTrue fun s' hs => by simp [h] at hs
    | some t =>
      have := decidableGuarded Ok t as
      decidable_of_iff (Ok s a ∧ Guarded step Ok t as)
        ⟨fun ht s' hs => some.inj (h.symm.trans hs) ▸ ht, fun hg => hg t h⟩

instance decidableAlways (P : σ → Prop) [DecidablePred P] :
    ∀ s as, Decidable (Always step P s as)
  | s, [] => inferInstanceAs (Decidable (P s))
  | s, a :: as =>
    match h : step s a with
    | none => decidable_of_iff (P s)
        ⟨fun hP => ⟨hP, fun s' hs => by simp [h] at hs⟩, fun hall => hall.1⟩
    | some t =>
      have := decidableAlways P t as
      decidable_of_iff (P s ∧ Always step P t as)
        ⟨fun ht => ⟨ht.1, fun s' hs => some.inj (h.symm.trans hs) ▸ ht.2⟩,
          fun hall => ⟨hall.1, hall.2 t h⟩⟩

variable {step}

@[simp] lemma run_nil (s : σ) : run step s [] = some s := rfl

lemma run_cons {s s' : σ} {a : α} {as : List α} :
    run step s (a :: as) = some s' ↔ ∃ t, step s a = some t ∧ run step t as = some s' := by
  simp [run, bind_eq_some_iff]

lemma run_append {s s' : σ} {as bs : List α} :
    run step s (as ++ bs) = some s' ↔ ∃ t, run step s as = some t ∧ run step t bs = some s' := by
  induction as generalizing s with
  | nil => simp
  | cons a as ih =>
    simp only [cons_append, run_cons, ih]
    constructor
    · rintro ⟨t, h1, u, h2, h3⟩
      exact ⟨u, ⟨t, h1, h2⟩, h3⟩
    · rintro ⟨u, ⟨t, h1, h2⟩, h3⟩
      exact ⟨t, h1, u, h2, h3⟩

lemma Guarded.and {Ok Ok' : σ → α → Prop} {s : σ} {as : List α} (h : Guarded step Ok s as)
    (h' : Guarded step Ok' s as) : Guarded step (fun s a => Ok s a ∧ Ok' s a) s as := by
  induction as generalizing s with
  | nil => trivial
  | cons a as ih =>
    intro s' hs
    obtain ⟨ha, hrest⟩ := h s' hs
    obtain ⟨ha', hrest'⟩ := h' s' hs
    exact ⟨⟨ha, ha'⟩, ih hrest hrest'⟩

variable {Ok : σ → α → Prop} {Inv P : σ → Prop}

theorem always_of_guarded (hstep : ∀ s a s', Inv s → Ok s a → step s a = some s' → Inv s')
    (himp : ∀ s, Inv s → P s)
    {s : σ} {as : List α} (h0 : Inv s) (hok : Guarded step Ok s as) : Always step P s as := by
  induction as generalizing s with
  | nil => exact himp s h0
  | cons a as ih =>
    refine ⟨himp s h0, fun t ht => ?_⟩
    obtain ⟨ha, hrest⟩ := hok t ht
    exact ih (hstep s a t h0 ha ht) hrest

theorem always_of_inv (hstep : ∀ s a s', Inv s → step s a = some s' → Inv s')
    (himp : ∀ s, Inv s → P s) {s : σ} {as : List α} (h0 : Inv s) : Always step P s as := by
  induction as generalizing s with
  | nil => exact himp s h0
  | cons a as ih => exact ⟨himp s h0, fun t ht => ih (hstep s a t h0 ht)⟩

theorem Guarded.imp_of_inv {Ok Ok' : σ → α → Prop} {Inv : σ → Prop}
    (hstep : ∀ s a s', Inv s → Ok s a → step s a = some s' → Inv s')
    (himp : ∀ s a s', Inv s → Ok s a → step s a = some s' → Ok' s a)
    {s : σ} {as : List α} (h0 : Inv s) (hok : Guarded step Ok s as) : Guarded step Ok' s as := by
  induction as generalizing s with
  | nil => trivial
  | cons a as ih =>
    intro t ht
    obtain ⟨ha, hrest⟩ := hok t ht
    exact ⟨himp s a t h0 ha ht, ih (hstep s a t h0 ha ht) hrest⟩

theorem guarded_iff_of_inv {Ok Ok' : σ → α → Prop} {Inv : σ → Prop} {as : List α}
    (hstep : ∀ a ∈ as, ∀ s s', Inv s → step s a = some s' →
      (Ok s a ↔ Ok' s a) ∧ (Ok s a → Inv s'))
    {s : σ} (h0 : Inv s) : Guarded step Ok s as ↔ Guarded step Ok' s as := by
  induction as generalizing s with
  | nil => exact Iff.rfl
  | cons a as ih =>
    have ih := @ih fun a ha => hstep a (mem_cons_of_mem _ ha)
    refine forall₂_congr fun s' hs => ?_
    obtain ⟨hiff, hinv⟩ := hstep a mem_cons_self s s' h0 hs
    rw [← hiff]
    exact and_congr_right fun ha => ih (hinv ha)

lemma Always.head {P : σ → Prop} {s : σ} {as : List α} (h : Always step P s as) : P s := by
  cases as with
  | nil => exact h
  | cons a as => exact h.1

/-- Where one step keeps `P` exactly when it meets `Ok`, a run stays in `P` exactly when it
starts there and is guarded. -/
theorem always_iff_guarded {P : σ → Prop}
    (hstep : ∀ s a s', P s → step s a = some s' → (P s' ↔ Ok s a)) (s : σ) (as : List α) :
    Always step P s as ↔ P s ∧ Guarded step Ok s as := by
  induction as generalizing s with
  | nil => simp [Always, Guarded]
  | cons a as ih =>
    simp only [Always, Guarded]
    refine and_congr_right fun hP => forall_congr' fun s' => ?_
    refine ⟨fun h hs => ?_, fun h hs => ?_⟩
    · obtain ⟨hP', hg⟩ := (ih s').mp (h hs)
      exact ⟨(hstep s a s' hP hs).mp hP', hg⟩
    · obtain ⟨hok, hg⟩ := h hs
      exact (ih s').mpr ⟨(hstep s a s' hP hs).mpr hok, hg⟩

theorem always_iff_guarded_of_inv (himp : ∀ s, Inv s → P s)
    (hstep : ∀ s a s', Inv s → step s a = some s' → (P s' → Ok s a) ∧ (Ok s a → Inv s'))
    {s : σ} {as : List α} (h0 : Inv s) : Always step P s as ↔ Guarded step Ok s as := by
  refine ⟨fun hall => ?_,
    always_of_guarded (fun s a s' h ha hs => (hstep s a s' h hs).2 ha) himp h0⟩
  induction as generalizing s with
  | nil => trivial
  | cons a as ih =>
    intro t ht
    have hrest := hall.2 t ht
    have hok := (hstep s a t h0 ht).1 hrest.head
    exact ⟨hok, ih ((hstep s a t h0 ht).2 hok) hrest⟩

/-- `Always` speaks of every state that some prefix of the run reaches. -/
theorem always_iff_run {P : σ → Prop} (s : σ) (as : List α) :
    Always step P s as ↔ ∀ bs s', bs <+: as → run step s bs = some s' → P s' := by
  induction as generalizing s with
  | nil =>
    constructor
    · rintro h bs s' hbs hr
      obtain rfl := prefix_nil.mp hbs
      simp only [run_nil, some.injEq] at hr
      exact hr ▸ h
    · exact fun h => h [] s prefix_rfl rfl
  | cons a as ih =>
    constructor
    · rintro ⟨hP, h⟩ bs s' hbs hr
      rcases bs with _ | ⟨b, bs⟩
      · simp only [run_nil, some.injEq] at hr
        exact hr ▸ hP
      · obtain ⟨rfl, htail⟩ := cons_prefix_cons.mp hbs
        obtain ⟨t, ht, hr⟩ := run_cons.mp hr
        exact (ih t).mp (h t ht) bs s' htail hr
    · refine fun h => ⟨h [] s nil_prefix rfl, fun t ht => (ih t).mpr fun bs s' hbs hr => ?_⟩
      exact h (a :: bs) s' (cons_prefix_cons.mpr ⟨rfl, hbs⟩) (run_cons.mpr ⟨t, ht, hr⟩)

end OceanFs.Lib.Runs
