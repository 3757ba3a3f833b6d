import Mathlib.Data.List.Induction

/-!
Registers that keep the last write.

A state is observed through `obs`; a delivery either replaces the observation by a value of
its own or leaves it as it is. Whatever else the state records, what is observed after a
list of deliveries is the value of the last delivery that has one.

A log can run ahead of the register: its writes are applied one by one, and not in its order. The
register has the value of the last write once all are applied, if each was applied when none before
it was waiting.
-/

namespace OceanFs.Lib.LastWrite

open List

variable {σ δ ω : Type*}

/-- Deliveries act on the observation by replacing it, or not at all. -/
def Overwrites (apply : σ → δ → σ) (obs : σ → ω) (val : δ → Option ω) : Prop :=
  ∀ s d, obs (apply s d) = (val d).getD (obs s)

/-- The value of the last delivery that has one. -/
def lastValue (val : δ → Option ω) (ds : List δ) : Option ω := (ds.filterMap val).getLast?

@[simp] lemma lastValue_nil (val : δ → Option ω) : lastValue val [] = none := rfl

lemma lastValue_snoc (val : δ → Option ω) (ds : List δ) (d : δ) :
    lastValue val (ds ++ [d]) = (val d).or (lastValue val ds) := by
  cases h : val d <;> simp [lastValue, filterMap_append, h]

theorem obs_foldl {apply : σ → δ → σ} {obs : σ → ω} {val : δ → Option ω}
    (h : Overwrites apply obs val) (ds : List δ) (s : σ) :
    obs (ds.foldl apply s) = (lastValue val ds).getD (obs s) := by
  induction ds using List.reverseRecOn with
  | nil => simp
  | append_singleton ds d ih =>
    rw [foldl_append, foldl_cons, foldl_nil, h, ih, lastValue_snoc]
    cases val d <;> rfl

lemma lastValue_eq_some {val : δ → Option ω} {ds : List δ} {v : ω} (h : lastValue val ds = some v) :
    ∃ d ∈ ds, val d = some v := by
  have hv : v ∈ ds.filterMap val := mem_of_getLast? h
  simpa [mem_filterMap] using hv

lemma lastValue_eq_none {val : δ → Option ω} {ds : List δ} :
    lastValue val ds = none ↔ ∀ d ∈ ds, val d = none := by
  simp [lastValue]

/-! ### Logs that are applied later -/

/-- Of a log of writes, each with whether it was applied, the register `cur` has those of the front;
all behind it wait. -/
def UpTo (log : List (Option ω × Bool)) (init cur : ω) : Prop :=
  ∃ n, cur = (lastValue id ((log.take n).map Prod.fst)).getD init ∧
    ∀ (j : ℕ) v applied, log[j]? = some (some v, applied) → (applied = true ↔ j < n)

namespace UpTo

variable {log : List (Option ω × Bool)} {init cur : ω}

lemma nil (init : ω) : UpTo [] init init := ⟨0, rfl, by simp⟩

lemma append (h : UpTo log init cur) (v : Option ω) : UpTo (log ++ [(v, false)]) init cur := by
  obtain ⟨n, hcur, happlied⟩ := h
  refine ⟨min n log.length, ?_, fun j w applied hj => ?_⟩
  · rw [hcur, take_append_of_le_length (Nat.min_le_right ..), ← take_eq_take_min]
  · rcases Nat.lt_trichotomy j log.length with hlt | rfl | hgt
    · rw [getElem?_append_left hlt] at hj
      rw [happlied j w applied hj]
      omega
    · rw [getElem?_concat_length] at hj
      obtain ⟨-, rfl⟩ := Prod.mk.inj (Option.some.inj hj)
      exact iff_of_false (by simp) (by omega)
    · rw [getElem?_eq_none (by rw [length_append, length_singleton]; omega)] at hj
      cases hj

lemma skip (h : UpTo log init cur) {p : ℕ} {b : Bool} (hp : log[p]? = some (none, b)) (b' : Bool) :
    UpTo (log.set p (none, b')) init cur := by
  obtain ⟨n, hcur, happlied⟩ := h
  refine ⟨n, ?_, fun j w applied hj => ?_⟩
  · have hmap : (log.set p (none, b')).map Prod.fst = log.map Prod.fst := by
      rw [map_set]
      refine ext_getElem? fun j => ?_
      rw [getElem?_set]
      split_ifs with heq hlt
      · subst heq
        rw [getElem?_map, hp]
        rfl
      · subst heq
        rw [getElem?_eq_none (by omega)]
      · rfl
    rw [hcur, map_take, map_take, hmap]
  · rw [getElem?_set] at hj
    split_ifs at hj with heq hlt
    · cases hj
    · exact happlied j w applied hj

lemma apply (h : UpTo log init cur) {p : ℕ} {v : ω} (hp : log[p]? = some (some v, false))
    (hfirst : ∀ j < p, ∀ w applied, log[j]? = some (some w, applied) → applied = true) :
    UpTo (log.set p (some v, true)) init v := by
  obtain ⟨n, -, happlied⟩ := h
  obtain ⟨hlt, -⟩ := List.getElem?_eq_some_iff.mp hp
  have hn : ¬ p < n := fun hpn => absurd ((happlied p v false hp).mpr hpn) (by simp)
  refine ⟨p + 1, ?_, fun j w applied hj => ?_⟩
  · have hset : (log.set p (some v, true))[p]? = some (some v, true) := by
      rw [getElem?_set_self hlt]
    rw [take_add_one, hset, map_append]
    simp [lastValue_snoc]
  · rw [getElem?_set] at hj
    split_ifs at hj with heq
    · obtain ⟨-, rfl⟩ := Prod.mk.inj (Option.some.inj hj)
      simp [heq]
    · rcases Nat.lt_or_ge j p with hjp | hjp
      · exact iff_of_true (hfirst j hjp w applied hj) (by omega)
      · rw [happlied j w applied hj]
        omega

lemma eq_last (h : UpTo log init cur) (hall : ∀ x ∈ log, x.2 = true) :
    cur = (lastValue id (log.map Prod.fst)).getD init := by
  obtain ⟨n, hcur, happlied⟩ := h
  have hnone : (log.drop n).map Prod.fst = List.replicate (log.drop n).length none := by
    rw [eq_replicate_iff]
    refine ⟨by simp, fun o ho => ?_⟩
    obtain ⟨⟨o, applied⟩, hx, rfl⟩ := mem_map.mp ho
    obtain ⟨j, hj⟩ := mem_iff_getElem?.mp hx
    rw [getElem?_drop] at hj
    cases o with
    | none => rfl
    | some w =>
      have hlt := (happlied (n + j) w applied hj).mp (hall _ (mem_of_getElem? hj))
      omega
  have hlast : lastValue id ((log.take n).map Prod.fst ++ (log.drop n).map Prod.fst) =
      lastValue id ((log.take n).map Prod.fst) := by
    rw [hnone, lastValue, lastValue, filterMap_append]
    simp
  rw [hcur, ← hlast, ← map_append, take_append_drop]

end UpTo

end OceanFs.Lib.LastWrite
