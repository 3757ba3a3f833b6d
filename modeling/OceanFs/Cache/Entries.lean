import OceanFs.Core.Types

/-!
The object cache (L1) and the metadata cache (L2).

Both keep entries per bucket and key, with a lifetime counted from the first insertion: an
update in place replaces the value and not the time. They differ in the value and in the size
gate, which only the object cache has. Which other entries make room for a new one is up to
the eviction policy, and any choice is allowed here.
-/

namespace OceanFs.Cache

open OceanFs.Core

structure Entry (α : Type) where
  value : α
  insertedAt : ℕ

/-- The configuration of one bucket; `maxBlobSize` is `none` in the metadata cache. -/
structure EntryCacheConfig where
  enabled : Bool
  ttlMs : ℕ
  maxBlobSize : Option ℕ

abbrev EntryCache (α : Type) := BucketId → ObjectKey → Option (Entry α)

namespace EntryCache

variable {α : Type}

def empty : EntryCache α := fun _ _ => none

def set (c : EntryCache α) (b : BucketId) (k : ObjectKey) (e : Option (Entry α)) : EntryCache α :=
  fun b' k' => if b' = b ∧ k' = k then e else c b' k'

variable (cfg : EntryCacheConfig)

def expired (now : ℕ) (e : Entry α) : Bool :=
  0 < cfg.ttlMs && cfg.ttlMs < now - e.insertedAt

/-- A lookup; it drops an entry past its lifetime. -/
def get (now : ℕ) (b : BucketId) (k : ObjectKey) (c : EntryCache α) :
    EntryCache α × Option α :=
  if cfg.enabled then
    match c b k with
    | none => (c, none)
    | some e => if expired cfg now e then (c.set b k none, none) else (c, some e.value)
  else (c, none)

/-- An insertion; `evict` are the entries that make room. -/
def put (size : α → ℕ) (evict : BucketId → ObjectKey → Bool) (now : ℕ) (b : BucketId)
    (k : ObjectKey) (v : α) (c : EntryCache α) : EntryCache α :=
  if cfg.enabled ∧ ∀ limit ∈ cfg.maxBlobSize, size v ≤ limit then
    match c b k with
    | some e => c.set b k (some { e with value := v })
    | none => set (fun b' k' => if evict b' k' then none else c b' k') b k (some ⟨v, now⟩)
  else c

def invalidate (b : BucketId) (k : ObjectKey) (c : EntryCache α) : EntryCache α := c.set b k none

@[simp] lemma set_self (c : EntryCache α) (b : BucketId) (k : ObjectKey) (e : Option (Entry α)) :
    c.set b k e b k = e := by simp [set]

@[simp] lemma invalidate_self (c : EntryCache α) (b : BucketId) (k : ObjectKey) :
    invalidate b k c b k = none := set_self ..

lemma get_of_none (now : ℕ) {b : BucketId} {k : ObjectKey} {c : EntryCache α} (h : c b k = none) :
    get cfg now b k c = (c, none) := by
  unfold get
  simp [h]

lemma get_self (now : ℕ) (b : BucketId) (k : ObjectKey) (c : EntryCache α) :
    ((get cfg now b k c).1 b k = c b k ∨ (get cfg now b k c).1 b k = none) ∧
      ∀ v, (get cfg now b k c).2 = some v → ∃ e, c b k = some e ∧ e.value = v := by
  unfold get
  split
  · cases h : c b k with
    | none => simp [h]
    | some e =>
      dsimp only
      split
      · simp
      · simp [h]
  · simp

lemma put_self (size : α → ℕ) (evict : BucketId → ObjectKey → Bool) (now : ℕ) (b : BucketId)
    (k : ObjectKey) (v : α) (c : EntryCache α) :
    put cfg size evict now b k v c b k = c b k ∨
      ∃ e, put cfg size evict now b k v c b k = some e ∧ e.value = v := by
  unfold put
  split
  · cases h : c b k with
    | none => exact .inr ⟨⟨v, now⟩, by simp, rfl⟩
    | some e => exact .inr ⟨{ e with value := v }, by simp, rfl⟩
  · exact .inl rfl

end EntryCache

end OceanFs.Cache
