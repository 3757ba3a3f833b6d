import OceanFs.Write.World

/-!
How a node applies the hints that are delivered to it.

Hints are applied with last-writer-wins. A batch is gone through twice: bodies and deletes are
applied where they stand, while references are put off to a second pass that asks the origin
for its current version of the key, whatever version the hint was for. Everything here is about
one key of the receiving node.
-/

namespace OceanFs.Durability

open OceanFs.Core Metadata Write List Option

/-- The receiving node: the chunks its pipeline stores a body in (none for an inline one), and
what the origin's read path serves for a row. -/
structure Receiver where
  chunks : List ChunkRef
  read : ObjectMetadata → Bytes
  hash : Bytes → HashOutput
  nowMs : ℤ

/-- The row of `apply_hinted_object`. -/
def appliedRow (env : Receiver) (key : ObjectKey) (data : Bytes) (createdAt : ℤ) (hlc : Hlc) :
    ObjectMetadata where
  objectKey := key
  size := data.length
  blake3Hash := some (env.hash data)
  chunks := env.chunks
  inlineData := if env.chunks = [] then some data else none
  createdAt := createdAt
  hlc := hlc

/-- `apply_hint_object`: an older version is dropped. -/
def applyHintObject (env : Receiver) (key : ObjectKey) (data : Bytes) (createdAt : ℤ) (hlc : Hlc)
    (s : KeyState) : KeyState :=
  if s.row.any (hlc < ·.hlc) then s
  else if s.tombstone.any (hlc < ·.hlc) then s
  else s.put (appliedRow env key data createdAt hlc) env.nowMs

/-- `apply_hint_delete`: against a tombstone, an equally old delete is dropped too. -/
def applyHintDelete (env : Receiver) (hlc : Hlc) (s : KeyState) : KeyState :=
  if s.row.any (hlc < ·.hlc) then s
  else if s.tombstone.any (hlc ≤ ·.hlc) then s
  else s.delete hlc env.nowMs

/-- The first pass over a batch. -/
def applyHint (env : Receiver) (s : KeyState) (hint : HintRecord) : KeyState :=
  match hint.payload with
  | .inline data => applyHintObject env hint.key data env.nowMs hint.timestamp s
  | .delete => applyHintDelete env hint.timestamp s
  | .segmentRef _ _ _ => s

/-- The second pass; a row without data reads as absent, and resolves the hint. The creation time
is not sent. -/
def applyFetched (env : Receiver) (origin : Option ObjectMetadata) (s : KeyState)
    (hint : HintRecord) : KeyState :=
  match hint.payload, origin with
  | .segmentRef _ _ _, some m =>
    if m.inlineData.isSome ∨ m.chunks ≠ [] then
      applyHintObject env hint.key (env.read m) 0 m.hlc s
    else s
  | _, _ => s

def deliverBatch (env : Receiver) (origin : Option ObjectMetadata) (s : KeyState)
    (hints : List HintRecord) : KeyState :=
  hints.foldl (applyFetched env origin) (hints.foldl (applyHint env) s)

def deliver (env : Receiver) (origin : Option ObjectMetadata) (s : KeyState)
    (batches : List (List HintRecord)) : KeyState :=
  batches.foldl (deliverBatch env origin) s

/-! ### How a queue is split into batches -/

variable {env : Receiver} {origin : Option ObjectMetadata} {batches : List (List HintRecord)}

lemma deliver_of_flatten_nil (h : batches.flatten = []) (s : KeyState) :
    deliver env origin s batches = s := by
  induction batches with
  | nil => rfl
  | cons b bs ih =>
    obtain ⟨rfl, hbs⟩ := append_eq_nil_iff.mp h
    exact ih hbs

lemma deliver_of_flatten_singleton {a : HintRecord} (h : batches.flatten = [a]) (s : KeyState) :
    deliver env origin s batches = deliverBatch env origin s [a] := by
  induction batches with
  | nil => simp at h
  | cons b bs ih =>
    rcases b with _ | ⟨x, b⟩
    · exact ih h
    · obtain ⟨rfl, hrest⟩ := cons.inj h
      obtain ⟨rfl, hbs⟩ := append_eq_nil_iff.mp hrest
      exact deliver_of_flatten_nil hbs _

lemma deliver_of_flatten_pair {a c : HintRecord} (h : batches.flatten = [a, c]) (s : KeyState) :
    deliver env origin s batches = deliverBatch env origin s [a, c] ∨
      deliver env origin s batches =
        deliverBatch env origin (deliverBatch env origin s [a]) [c] := by
  induction batches with
  | nil => simp at h
  | cons b bs ih =>
    rcases b with _ | ⟨x, b⟩
    · exact ih h
    · obtain ⟨rfl, hrest⟩ := cons.inj h
      rcases b with _ | ⟨y, b⟩
      · exact .inr (deliver_of_flatten_singleton hrest _)
      · obtain ⟨rfl, hrest'⟩ := cons.inj hrest
        obtain ⟨rfl, hbs⟩ := append_eq_nil_iff.mp hrest'
        exact .inl (deliver_of_flatten_nil hbs _)

/-! ### The version that is served afterwards -/

/-- The timestamp of the version that the key serves. -/
def served (s : KeyState) : Option Hlc := s.row.map (·.hlc)

/-- The key holds nothing newer than the two bounds. -/
structure UpTo (row tombstone : Hlc) (s : KeyState) : Prop where
  row : ∀ m ∈ s.row, m.hlc ≤ row
  tombstone : ∀ ts ∈ s.tombstone, ts.hlc ≤ tombstone

lemma applyHintObject_of_le {key : ObjectKey} {data : Bytes} {t : ℤ} {h : Hlc} {s : KeyState}
    (hs : UpTo h h s) :
    applyHintObject env key data t h s = s.put (appliedRow env key data t h) env.nowMs := by
  have hrow : ¬s.row.any (h < ·.hlc) = true := by
    simpa [Option.any_eq_true] using hs.row
  have hts : ¬s.tombstone.any (h < ·.hlc) = true := by
    simpa [Option.any_eq_true] using hs.tombstone
  rw [applyHintObject, if_neg hrow, if_neg hts]

lemma applyHintObject_of_tombstone {key : ObjectKey} {data : Bytes} {t : ℤ} {h : Hlc} {s : KeyState}
    {ts : Tombstone} (hs : s.tombstone = some ts) (hlt : h < ts.hlc) :
    applyHintObject env key data t h s = s := by
  rw [applyHintObject]
  split
  · rfl
  · rw [if_pos (by simpa [hs] using hlt)]

lemma applyHintDelete_of_le {h : Hlc} {s : KeyState} (hrow : ∀ m ∈ s.row, m.hlc ≤ h)
    (hts : ∀ ts ∈ s.tombstone, ts.hlc < h) :
    applyHintDelete env h s = s.delete h env.nowMs := by
  have h₁ : ¬s.row.any (h < ·.hlc) = true := by
    simpa [Option.any_eq_true] using hrow
  have h₂ : ¬s.tombstone.any (h ≤ ·.hlc) = true := by
    simpa [Option.any_eq_true] using hts
  rw [applyHintDelete, if_neg h₁, if_neg h₂]

lemma applyFetched_eq (env : Receiver) (origin : Option ObjectMetadata) (s : KeyState)
    (hint : HintRecord) : applyFetched env origin s hint = s ∨ ∃ m ∈ origin,
      applyFetched env origin s hint =
        applyHintObject env hint.key (env.read m) 0 m.hlc s := by
  unfold applyFetched
  split
  · rename_i m _
    split
    · exact .inr ⟨m, rfl, rfl⟩
    · exact .inl rfl
  · exact .inl rfl

lemma served_applyHintObject (env : Receiver) (key : ObjectKey) (data : Bytes) (t : ℤ) (h : Hlc)
    (s : KeyState) : served (applyHintObject env key data t h s) = served s ∨
      served (applyHintObject env key data t h s) = some h := by
  unfold applyHintObject
  split
  · exact .inl rfl
  · split
    · exact .inl rfl
    · exact .inr rfl

end OceanFs.Durability
