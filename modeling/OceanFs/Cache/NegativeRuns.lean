import Mathlib.Data.List.TakeWhile
import OceanFs.Cache.Negative
import OceanFs.Lib.Runs

/-!
Runs of the negative cache against a set of existing keys.

A key that exists must be answered no: the handler takes a yes for "definitely absent". The
calls are made as the handlers make them: `insert` only for keys that do not exist, and
`invalidate` for every key that is written.
-/

namespace OceanFs.Cache.NegativeRuns

open OceanFs.Core Lib Lib.Runs Option

variable (hashKey : HashKey) (cfg : NegativeCacheConfig)

structure St where
  cache : NegativeCache
  existing : BucketId → List ObjectKey

inductive Act
  | lookup (b : BucketId) (k : ObjectKey)
  | insert (b : BucketId) (k : ObjectKey)
  /-- A row is written and the key is invalidated. -/
  | write (b : BucketId) (k : ObjectKey)
  /-- A key is invalidated with no row behind it. -/
  | invalidate (b : BucketId) (k : ObjectKey)
  /-- A row is removed. -/
  | remove (b : BucketId) (k : ObjectKey)
  /-- The buckets with a filter in any order, and which buckets the metadata store can list. -/
  | rebuild (order : List BucketId) (readable : BucketId → Bool)

def init (existing : BucketId → List ObjectKey) : St := ⟨.new, existing⟩

def listKeys (s : St) (readable : BucketId → Bool) (b : BucketId) : Option (List ObjectKey) :=
  if readable b then some (s.existing b) else none

def step (s : St) : Act → Option St
  | .lookup b k => (s.cache.contains hashKey cfg b k).map fun r => { s with cache := r.1 }
  | .insert b k =>
    if k ∈ s.existing b then none
    else (s.cache.insert hashKey cfg b k).map fun c => { s with cache := c }
  | .write b k => some
    { cache := s.cache.invalidate cfg b k
      existing := Function.update s.existing b (k :: s.existing b) }
  | .invalidate b k => some { s with cache := s.cache.invalidate cfg b k }
  | .remove b k => some
    { s with existing := Function.update s.existing b ((s.existing b).filter (· ≠ k)) }
  | .rebuild order readable =>
    if order.Perm s.cache.buckets.keys then
      (s.cache.rebuild hashKey cfg order (listKeys s readable)).map fun c => { s with cache := c }
    else none

/-- No existing key is hidden: `contains` returns, and returns false. -/
def Safe (s : St) : Prop :=
  ∀ b, ∀ k ∈ s.existing b, s.cache.answer hashKey cfg b k = some false

/-- What a call must find in the state it is made in, for no existing key to be hidden by it:
an insert leaves some probed bit unset for every existing key outside the overlay, a rebuild
meets only buckets whose existing keys are all in the overlay before it stops, and a filter of no
bits is never left without its overlay. -/
def Harmless (s : St) : Act → Prop
  | .lookup _ _ => True
  | .insert b k => cfg.enabled = true → ∀ k' ∈ s.existing b, k' ∈ s.cache.recentWrites b ∨
      ∃ p ∈ positions hashKey cfg b k', p ∉ s.cache.filter b ∧ p ∉ positions hashKey cfg b k
  | .write b k => cfg.enabled = true → 0 < cfg.bitCount ∨ ¬s.cache.Overflows cfg b k
  | .invalidate b k => cfg.enabled = true →
      0 < cfg.bitCount ∨ ¬s.cache.Overflows cfg b k ∨ s.existing b = []
  | .remove _ _ => True
  | .rebuild order readable => cfg.enabled = true → ∀ b ∈ order.takeWhile readable,
      ∀ k ∈ s.existing b, k ∈ s.cache.recentWrites b

/-! ### One step -/

variable {hashKey cfg}

open NegativeCache

variable {b : BucketId}

lemma contains_insert_eq_false {f : Bloom.Bits} {k k' : ObjectKey} :
    Bloom.contains (positions hashKey cfg b) (Bloom.insert (positions hashKey cfg b) f k) k' = false
      ↔ ∃ p ∈ positions hashKey cfg b k', p ∉ f ∧ p ∉ positions hashKey cfg b k := by
  rw [← Bool.not_eq_true, Bloom.contains_iff]
  simp [Bloom.mem_insert]

lemma contains_empty_eq_false (b : BucketId) (k : ObjectKey) :
    Bloom.contains (positions hashKey cfg b) ∅ k = false :=
  Bloom.contains_empty (positions_ne_nil hashKey cfg b k)

lemma safe_of_disabled (h : cfg.enabled = false) (s : St) : Safe hashKey cfg s :=
  fun _ _ _ => (answer_eq_false_iff ..).mpr (.inl h)

lemma harmless_of_disabled (h : cfg.enabled = false) (s : St) (a : Act) :
    Harmless hashKey cfg s a := by
  cases a <;> simp [Harmless, h]

lemma safe_iff (h : cfg.enabled = true) (s : St) :
    Safe hashKey cfg s ↔ ∀ b, ∀ k ∈ s.existing b, k ∈ s.cache.recentWrites b ∨
      0 < cfg.bitCount ∧
        Bloom.contains (positions hashKey cfg b) (s.cache.filter b) k = false := by
  simp only [Safe, answer_eq_false_iff, h, Bool.true_eq_false, false_or]

lemma safe_congr (h : cfg.enabled = true) {s s' : St} (he : s'.existing = s.existing)
    (hf : ∀ b, s'.cache.filter b = s.cache.filter b)
    (hr : s'.cache.recentWrites = s.cache.recentWrites) :
    Safe hashKey cfg s' ↔ Safe hashKey cfg s := by
  simp only [safe_iff h, he, hf, hr]

variable {s s' : St} {k : ObjectKey}

lemma step_lookup (h : cfg.enabled = true) (hs : step hashKey cfg s (.lookup b k) = some s') :
    Safe hashKey cfg s' ↔ Safe hashKey cfg s := by
  simp only [step, map_eq_some_iff] at hs
  obtain ⟨⟨c, r⟩, hc, rfl⟩ := hs
  obtain ⟨hr, hf⟩ := contains_some hc
  exact safe_congr h rfl hf hr

lemma step_insert (h : cfg.enabled = true) (hsafe : Safe hashKey cfg s)
    (hs : step hashKey cfg s (.insert b k) = some s') :
    Safe hashKey cfg s' ↔ Harmless hashKey cfg s (.insert b k) := by
  simp only [step] at hs
  split_ifs at hs with hk
  obtain ⟨c, hc, rfl⟩ := map_eq_some_iff.mp hs
  obtain ⟨hpos, rfl⟩ := insert_some h hc
  rw [safe_iff h] at hsafe ⊢
  simp only [Harmless, h, forall_const]
  constructor
  · intro h' k' hk'
    rcases h' b k' hk' with hr | ⟨-, hc⟩
    · simp only [recentWrites_setRecent_self, Finset.mem_erase] at hr
      exact .inl hr.2
    · simp only [filter_setRecent, filter_setFilter_self] at hc
      exact .inr (contains_insert_eq_false.mp hc)
  · intro h' b' k' hk'
    by_cases hb : b' = b
    · subst hb
      -- the key inserted does not exist, so erasing it from the overlay uncovers nothing
      have hne : k' ≠ k := fun e => hk (e ▸ hk')
      rcases h' k' hk' with hr | hp
      · exact .inl (by simp [hne, hr])
      · exact .inr ⟨hpos, by simpa using contains_insert_eq_false.mpr hp⟩
    · simpa [recentWrites_setRecent_of_ne _ _ hb, filter_setFilter_of_ne _ _ hb]
        using hsafe b' k' hk'

lemma safe_invalidate_iff {s : St} {b : BucketId} {k : ObjectKey}
    {existing : BucketId → List ObjectKey} (h : cfg.enabled = true) (hsafe : Safe hashKey cfg s)
    (hb : ∀ k' ∈ existing b, k' = k ∨ k' ∈ s.existing b)
    (hother : ∀ b', b' ≠ b → existing b' = s.existing b') :
    Safe hashKey cfg ⟨s.cache.invalidate cfg b k, existing⟩ ↔
      0 < cfg.bitCount ∨ ¬s.cache.Overflows cfg b k ∨ existing b = [] := by
  rw [safe_iff h] at hsafe ⊢
  by_cases hov : s.cache.Overflows cfg b k
  · obtain ⟨hr, hf⟩ := invalidate_of_overflows h hov
    simp only [hr, hf, hov, not_true_eq_false, false_or]
    constructor
    · intro h'
      refine or_iff_not_imp_right.mpr fun hne => ?_
      obtain ⟨k', hk'⟩ := List.exists_mem_of_ne_nil _ hne
      simpa using (h' b k' hk').imp_right And.left
    · rintro hor b' k' hk'
      by_cases hb' : b' = b
      · subst hb'
        rcases hor with hpos | hnil
        · exact .inr ⟨hpos, by simpa using contains_empty_eq_false b' k'⟩
        · simp [hnil] at hk'
      · simpa [hb'] using hsafe b' k' (hother b' hb' ▸ hk')
  · rw [invalidate_of_not_overflows h hov]
    refine iff_of_true (fun b' k' hk' => ?_) (.inr (.inl hov))
    by_cases hb' : b' = b
    · subst hb'
      rcases hb k' hk' with rfl | hk'
      · exact .inl (by simp)
      · exact (hsafe b' k' hk').imp (fun hr => by simp [hr]) (fun hf => by simpa using hf)
    · simpa [recentWrites_setRecent_of_ne _ _ hb'] using hsafe b' k' (hother b' hb' ▸ hk')

lemma step_write (h : cfg.enabled = true) (hsafe : Safe hashKey cfg s)
    (hs : step hashKey cfg s (.write b k) = some s') :
    Safe hashKey cfg s' ↔ Harmless hashKey cfg s (.write b k) := by
  simp only [step, some.injEq] at hs
  subst hs
  rw [safe_invalidate_iff h hsafe (by simp) (fun b' hb' => by simp [hb'])]
  simp [Harmless, h]

lemma step_invalidate (h : cfg.enabled = true) (hsafe : Safe hashKey cfg s)
    (hs : step hashKey cfg s (.invalidate b k) = some s') :
    Safe hashKey cfg s' ↔ Harmless hashKey cfg s (.invalidate b k) := by
  simp only [step, some.injEq] at hs
  subst hs
  rw [safe_invalidate_iff h hsafe (fun k' hk' => .inr hk') (fun _ _ => rfl)]
  simp [Harmless, h]

lemma step_remove (hsafe : Safe hashKey cfg s) (hs : step hashKey cfg s (.remove b k) = some s') :
    Safe hashKey cfg s' := by
  simp only [step, some.injEq] at hs
  subst hs
  intro b' k' hk'
  refine hsafe b' k' ?_
  by_cases hb : b' = b
  · subst hb
    exact (by simpa using hk' : k' ∈ s.existing b' ∧ ¬k' = k).1
  · simpa [hb] using hk'

lemma step_rebuild {order : List BucketId} {readable : BucketId → Bool} (h : cfg.enabled = true)
    (hsafe : Safe hashKey cfg s) (hs : step hashKey cfg s (.rebuild order readable) = some s') :
    Safe hashKey cfg s' ↔ Harmless hashKey cfg s (.rebuild order readable) := by
  simp only [step, NegativeCache.rebuild] at hs
  split_ifs at hs with horder
  obtain ⟨c, hc, rfl⟩ := map_eq_some_iff.mp hs
  obtain ⟨hr, hf⟩ := rebuildFrom_some (horder.nodup_iff.mpr s.cache.buckets.keys_nodup) hc
  have hread : (fun b => (listKeys s readable b).isSome) = readable := by
    funext b
    cases hb : readable b <;> simp [listKeys, hb]
  rw [hread] at hf
  rw [safe_iff h] at hsafe ⊢
  simp only [Harmless, h, forall_const, hr, hf]
  constructor
  · intro h' b hb k hk
    refine (h' b k hk).resolve_right fun hc => ?_
    -- a rebuilt filter holds every existing key of the bucket
    have hrb : readable b = true := List.mem_takeWhile_imp hb
    rw [if_pos hb, listKeys, if_pos hrb, getD_some, Bloom.contains_insertAll ∅ hk] at hc
    exact absurd hc.2 (by simp)
  · intro h' b k hk
    by_cases hb : b ∈ order.takeWhile readable
    · exact .inl (h' b hb k hk)
    · simpa [hb] using hsafe b k hk

lemma step_safe_iff (s : St) (a : Act) (s' : St) (hsafe : Safe hashKey cfg s)
    (hs : step hashKey cfg s a = some s') : Safe hashKey cfg s' ↔ Harmless hashKey cfg s a := by
  cases h : cfg.enabled with
  | false => exact iff_of_true (safe_of_disabled h s') (harmless_of_disabled h s a)
  | true =>
    cases a with
    | lookup b k => exact (step_lookup h hs).trans (iff_of_true hsafe trivial)
    | insert b k => exact step_insert h hsafe hs
    | write b k => exact step_write h hsafe hs
    | invalidate b k => exact step_invalidate h hsafe hs
    | remove b k => exact iff_of_true (step_remove hsafe hs) trivial
    | rebuild order readable => exact step_rebuild h hsafe hs

/-! ### Whole runs -/

lemma safe_init_iff (existing : BucketId → List ObjectKey) :
    Safe hashKey cfg (init existing) ↔
      cfg.enabled = true → 0 < cfg.bitCount ∨ ∀ b, existing b = [] := by
  cases h : cfg.enabled with
  | false => simpa using safe_of_disabled h (init existing)
  | true =>
    rw [safe_iff h]
    simp only [init, NegativeCache.new, forall_const]
    constructor
    · intro h'
      by_contra hc
      obtain ⟨hz, b, hb⟩ : ¬0 < cfg.bitCount ∧ ∃ b, existing b ≠ [] := by simpa using hc
      obtain ⟨k, hk⟩ := List.exists_mem_of_ne_nil _ hb
      exact hz (by simpa using (h' b k hk).imp_right And.left)
    · rintro (hpos | hnone) b k hk
      · exact .inr ⟨hpos, contains_empty_eq_false b k⟩
      · simp [hnone b] at hk

/-- **The negative cache hides no existing object exactly as long as every call is harmless**
in the state it is made in. -/
theorem never_hides_iff (hashKey : HashKey) (cfg : NegativeCacheConfig)
    (existing : BucketId → List ObjectKey) (calls : List Act) :
    Always (step hashKey cfg) (Safe hashKey cfg) (init existing) calls ↔
      (cfg.enabled = true → 0 < cfg.bitCount ∨ ∀ b, existing b = []) ∧
        Guarded (step hashKey cfg) (Harmless hashKey cfg) (init existing) calls := by
  rw [always_iff_guarded step_safe_iff, safe_init_iff]

/-- A key that exists is looked up, which gives its bucket a filter, and the filters are
rebuilt: the rebuilt filter holds the key, and the cache now answers that it is absent. -/
theorem rebuild_hides_existing :
    let cfg : NegativeCacheConfig := ⟨true, 8, some 2, 4⟩
    let hashKey : HashKey := fun _ k => (UInt64.ofNat k.length, 1)
    let s := init fun b => if b = "photos" then ["cat"] else []
    (run (step hashKey cfg) s [.lookup "photos" "cat", .rebuild ["photos"] fun _ => true]).map
      (fun s' => (s'.existing "photos", s'.cache.answer hashKey cfg "photos" "cat")) =
        some (["cat"], some true) := by
  decide

end OceanFs.Cache.NegativeRuns
