import Mathlib.Data.Finset.Card
import Mathlib.Data.List.AList
import Mathlib.Logic.Function.Basic
import OceanFs.Core.Types
import OceanFs.Lib.Bloom

/-!
The L3 negative cache: per-bucket Bloom filters of absent keys, with an overlay of the keys
written since.

A filter that answers yes for a key makes the handler answer 404 without a lookup. The
overlay overrides the filter for keys written after they were inserted; when it grows past
its bound it is cleared together with the bucket's filter. Probing a filter of no bits
divides by zero, which is a panic and is modelled as `none`.
-/

namespace OceanFs.Cache

open OceanFs.Core Lib

structure NegativeCacheConfig where
  enabled : Bool
  sizeBytes : ℕ
  /-- `⌈-log₂ fp_rate⌉`, or `none` for a rate that is not positive. -/
  fpRateLog : Option ℕ
  maxRecentWrites : ℕ

namespace NegativeCacheConfig

variable (cfg : NegativeCacheConfig)

/-- `BloomFilter::new`: the bit count is a `usize` product. -/
def bitCount : ℕ := cfg.sizeBytes * 8 % 2 ^ 64

/-- `optimal_hash_count`, clamped to `1..=16`. -/
def hashCount : ℕ :=
  match cfg.fpRateLog with
  | none => 1
  | some k => max 1 (min k 16)

lemma hashCount_pos : 0 < cfg.hashCount := by
  unfold hashCount
  split <;> omega

end NegativeCacheConfig

/-- The two 64-bit base hashes of a bucket and key. -/
abbrev HashKey := BucketId → ObjectKey → UInt64 × UInt64

/-- `hash_index`, for a positive bit count. -/
def hashIndex (h1 h2 : UInt64) (i bitCount : ℕ) : ℕ := (h1 + UInt64.ofNat i * h2).toNat % bitCount

/-- The positions that a key of a bucket probes. -/
def positions (hashKey : HashKey) (cfg : NegativeCacheConfig) (b : BucketId) (k : ObjectKey) :
    List ℕ :=
  (List.range cfg.hashCount).map fun i =>
    hashIndex (hashKey b k).1 (hashKey b k).2 i cfg.bitCount

lemma positions_ne_nil (hashKey : HashKey) (cfg : NegativeCacheConfig) (b : BucketId)
    (k : ObjectKey) : positions hashKey cfg b k ≠ [] := by
  have := cfg.hashCount_pos
  simp [positions]
  omega

structure NegativeCache where
  buckets : AList fun _ : BucketId => Bloom.Bits
  recentWrites : BucketId → Finset ObjectKey

namespace NegativeCache

variable (hashKey : HashKey) (cfg : NegativeCacheConfig)

def new : NegativeCache := ⟨∅, fun _ => ∅⟩

variable (c : NegativeCache)

/-- The bucket's filter, empty while there is none. -/
def filter (b : BucketId) : Bloom.Bits := (c.buckets.lookup b).getD ∅

def setFilter (b : BucketId) (f : Bloom.Bits) : NegativeCache :=
  { c with buckets := c.buckets.insert b f }

def setRecent (b : BucketId) (ks : Finset ObjectKey) : NegativeCache :=
  { c with recentWrites := Function.update c.recentWrites b ks }

/-- `contains`, with the filter it may create. -/
def contains (b : BucketId) (k : ObjectKey) : Option (NegativeCache × Bool) :=
  if cfg.enabled = false then some (c, false)
  else if k ∈ c.recentWrites b then some (c, false)
  else if cfg.bitCount = 0 then none
  else some (c.setFilter b (c.filter b), Bloom.contains (positions hashKey cfg b) (c.filter b) k)

/-- What `contains` answers. -/
def answer (b : BucketId) (k : ObjectKey) : Option Bool :=
  (c.contains hashKey cfg b k).map (·.2)

def insert (b : BucketId) (k : ObjectKey) : Option NegativeCache :=
  if cfg.enabled = false then some c
  else if cfg.bitCount = 0 then none
  else some ((c.setFilter b (Bloom.insert (positions hashKey cfg b) (c.filter b) k)).setRecent b
    ((c.recentWrites b).erase k))

/-- The overlay passes its bound when `k` joins it. -/
def Overflows (b : BucketId) (k : ObjectKey) : Prop :=
  0 < cfg.maxRecentWrites ∧ cfg.maxRecentWrites < (Insert.insert k (c.recentWrites b)).card

instance (c : NegativeCache) (b : BucketId) (k : ObjectKey) : Decidable (c.Overflows cfg b k) :=
  inferInstanceAs (Decidable (_ ∧ _))

def invalidate (b : BucketId) (k : ObjectKey) : NegativeCache :=
  if cfg.enabled = false then c
  else if c.Overflows cfg b k then
    -- the overlay and the bucket's filter are reset together
    if b ∈ c.buckets then (c.setRecent b ∅).setFilter b ∅ else c.setRecent b ∅
  else c.setRecent b (Insert.insert k (c.recentWrites b))

/-- One bucket of a rebuild: a fresh filter that holds the listed keys. -/
def rebuildBucket (b : BucketId) (keys : List ObjectKey) :
    Option NegativeCache :=
  if cfg.bitCount = 0 ∧ keys ≠ [] then none
  else some (c.setFilter b (Bloom.insertAll (positions hashKey cfg b) ∅ keys))

/-- The loop of `rebuild` over the buckets left; it returns at the first bucket that the
metadata store cannot list, with the buckets before it rebuilt. -/
def rebuildFrom (listObjectKeys : BucketId → Option (List ObjectKey)) :
    List BucketId → NegativeCache → Option NegativeCache
  | [], c => some c
  | b :: bs, c =>
    match listObjectKeys b with
    | none => some c
    | some keys => (c.rebuildBucket hashKey cfg b keys).bind (rebuildFrom listObjectKeys bs)

/-- `rebuild`, which visits the buckets in the order that the map of filters gives them out. -/
def rebuild (order : List BucketId) (listObjectKeys : BucketId → Option (List ObjectKey)) :
    Option NegativeCache :=
  rebuildFrom hashKey cfg listObjectKeys order c

/-! ### What each call leaves behind -/

variable {hashKey cfg} (b : BucketId)

@[simp] lemma filter_new : new.filter b = ∅ := rfl

@[simp] lemma filter_setFilter_self (f : Bloom.Bits) :
    (c.setFilter b f).filter b = f := by
  simp [filter, setFilter, AList.lookup_insert]

lemma filter_setFilter_of_ne {b b' : BucketId} (f : Bloom.Bits) (h : b' ≠ b) :
    (c.setFilter b f).filter b' = c.filter b' := by
  simp [filter, setFilter, AList.lookup_insert_ne h]

@[simp] lemma filter_setRecent (b b' : BucketId) (ks : Finset ObjectKey) :
    (c.setRecent b ks).filter b' = c.filter b' := rfl

@[simp] lemma recentWrites_setFilter (f : Bloom.Bits) :
    (c.setFilter b f).recentWrites = c.recentWrites := rfl

@[simp] lemma recentWrites_setRecent_self (ks : Finset ObjectKey) :
    (c.setRecent b ks).recentWrites b = ks := by
  simp [setRecent]

lemma recentWrites_setRecent_of_ne {b b' : BucketId} (ks : Finset ObjectKey) (h : b' ≠ b) :
    (c.setRecent b ks).recentWrites b' = c.recentWrites b' := by
  simp [setRecent, h]

lemma filter_of_notMem {c : NegativeCache} {b : BucketId} (h : b ∉ c.buckets) : c.filter b = ∅ := by
  simp [filter, AList.lookup_eq_none.mpr h]

lemma contains_some {c c' : NegativeCache} {b : BucketId} {k : ObjectKey} {r : Bool}
    (h : c.contains hashKey cfg b k = some (c', r)) :
    c'.recentWrites = c.recentWrites ∧ ∀ b', c'.filter b' = c.filter b' := by
  unfold contains at h
  split_ifs at h
  · simp_all
  · simp_all
  · obtain ⟨rfl, -⟩ := by simpa using h
    refine ⟨rfl, fun b' => ?_⟩
    by_cases hb : b' = b
    · subst hb; simp
    · exact filter_setFilter_of_ne _ _ hb

lemma insert_some {c c' : NegativeCache} {b : BucketId} {k : ObjectKey} (hon : cfg.enabled = true)
    (h : c.insert hashKey cfg b k = some c') :
    0 < cfg.bitCount ∧
      c' = (c.setFilter b (Bloom.insert (positions hashKey cfg b) (c.filter b) k)).setRecent b
        ((c.recentWrites b).erase k) := by
  unfold insert at h
  split_ifs at h with h1 h2
  · simp [h1] at hon
  · exact ⟨Nat.pos_of_ne_zero h2, by simpa using h.symm⟩

lemma invalidate_of_not_overflows {c : NegativeCache} {b : BucketId} {k : ObjectKey}
    (hon : cfg.enabled = true) (h : ¬c.Overflows cfg b k) :
    c.invalidate cfg b k = c.setRecent b (Insert.insert k (c.recentWrites b)) := by
  simp [invalidate, hon, h]

lemma invalidate_of_overflows {c : NegativeCache} {b : BucketId} {k : ObjectKey}
    (hon : cfg.enabled = true) (h : c.Overflows cfg b k) :
    (c.invalidate cfg b k).recentWrites = Function.update c.recentWrites b ∅ ∧
      (c.invalidate cfg b k).filter = Function.update c.filter b ∅ := by
  simp only [invalidate, hon, Bool.true_eq_false, if_false, if_pos h]
  split_ifs with hb
  · refine ⟨rfl, funext fun b' => ?_⟩
    by_cases hb' : b' = b
    · subst hb'; simp
    · simp [hb', filter_setFilter_of_ne]
  · refine ⟨rfl, funext fun b' => ?_⟩
    by_cases hb' : b' = b
    · subst hb'; simpa using filter_of_notMem hb
    · simp [hb']

/-- What a rebuild leaves in every bucket: the filter of the listed keys where it got to, the
old filter elsewhere. -/
lemma rebuildFrom_some {list : BucketId → Option (List ObjectKey)} {bs : List BucketId}
    {c c' : NegativeCache} (hnd : bs.Nodup)
    (h : rebuildFrom hashKey cfg list bs c = some c') :
    c'.recentWrites = c.recentWrites ∧ ∀ b, c'.filter b =
      if b ∈ bs.takeWhile (fun b => (list b).isSome) then
        Bloom.insertAll (positions hashKey cfg b) ∅ ((list b).getD [])
      else c.filter b := by
  induction bs generalizing c with
  | nil => simp only [rebuildFrom, Option.some.injEq] at h; subst h; simp
  | cons a bs ih =>
    obtain ⟨ha, hnd⟩ := List.nodup_cons.mp hnd
    simp only [rebuildFrom] at h
    cases hl : list a with
    | none =>
      simp only [hl, Option.some.injEq] at h
      subst h
      simp [hl]
    | some keys =>
      simp only [hl, rebuildBucket] at h
      split_ifs at h with hz
      · simp at h
      · simp only [Option.bind_some] at h
        obtain ⟨hr, hf⟩ := ih hnd h
        refine ⟨by simpa using hr, fun b => ?_⟩
        rw [hf b]
        by_cases hb : b = a
        · subst hb
          have hnot : b ∉ bs.takeWhile fun b => (list b).isSome :=
            fun hmem => ha ((List.takeWhile_sublist _).subset hmem)
          simp [hnot, hl]
        · simp [hl, hb, filter_setFilter_of_ne]

lemma answer_of_contains {c c' : NegativeCache} {b : BucketId} {k : ObjectKey} {r : Bool}
    (h : c.contains hashKey cfg b k = some (c', r)) :
    c'.answer hashKey cfg b k = c.answer hashKey cfg b k := by
  obtain ⟨hr, hf⟩ := contains_some h
  unfold answer contains
  rw [hr, hf]
  split_ifs <;> simp

theorem answer_eq_false_iff (k : ObjectKey) :
    c.answer hashKey cfg b k = some false ↔
      cfg.enabled = false ∨ k ∈ c.recentWrites b ∨
        0 < cfg.bitCount ∧ Bloom.contains (positions hashKey cfg b) (c.filter b) k = false := by
  unfold answer contains
  split_ifs with h1 h2 h3 <;> simp_all [Nat.pos_iff_ne_zero]

/-- **A key just invalidated** is not reported absent, unless the filter has no bits and the
overlay has overflowed: then the lookup panics. -/
theorem answer_invalidate (k : ObjectKey) :
    (c.invalidate cfg b k).answer hashKey cfg b k =
      if cfg.enabled = true ∧ c.Overflows cfg b k ∧ cfg.bitCount = 0 then none else some false := by
  cases hon : cfg.enabled with
  | false => simp [answer_eq_false_iff, hon]
  | true =>
    by_cases hov : c.Overflows cfg b k
    · obtain ⟨hr, hf⟩ := invalidate_of_overflows hon hov
      by_cases hz : cfg.bitCount = 0
      · simp [answer, contains, hon, hr, hz, hov]
      · rw [if_neg (by simp [hz]), answer_eq_false_iff]
        refine .inr (.inr ⟨Nat.pos_of_ne_zero hz, ?_⟩)
        rw [hf]
        simpa using Bloom.contains_empty (positions_ne_nil hashKey cfg b k)
    · rw [if_neg (by simp [hov]), answer_eq_false_iff, invalidate_of_not_overflows hon hov]
      exact .inr (.inl (by simp))

end NegativeCache

end OceanFs.Cache
