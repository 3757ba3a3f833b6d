import OceanFs.Read.ReplicaFetch

/-!
The transfer of an object that a hint refers to.

The receiver of a hint asks the origin for the key's current version. The origin reads the object
as a GET would and streams it in blocks, the first of which carries the version, the size and the
hash; an absent object is one message that says so. The receiver joins what arrives and accepts
it only with the announced size and hash. An empty object has no block, hence no message.
-/

namespace OceanFs.Durability.HintObject

open OceanFs.Core Metadata Grpc Lib Write Read List Option

/-! ### The origin -/

section

variable (env : Env) (renv : ReadEnv) (b : BucketId) (k : ObjectKey) (w : World)

/-- `read_object`: the node's own version, read under the node's default strategy. A row with
neither data nor chunks reads as absent. -/
def readObject : Except ReadError (Option (ObjectMetadata × Bytes)) :=
  if !env.servesRequests then
    .error (.serviceUnavailable "node unavailable — metadata pool dead")
  else
    match (w.keyAt env.self b k).row with
    | none => .ok none
    | some m =>
      match m.inlineData with
      | some data => .ok (some (m, data))
      | none =>
        if m.chunks = [] then .ok none
        else
          match assembleChunks env { renv with fetchStrategy := none } m w with
          | .ok data => .ok (some (m, data))
          | .error e => .error e

structure FetchHintObjectChunk where
  chunkIndex : ℕ
  data : Bytes
  present : Bool
  hlc : Option Hlc
  size : ℕ
  blake3Hash : Bytes
  deriving DecidableEq

/-- The object in blocks of 64 KiB; its state rides on the first. -/
def hintChunks (m : ObjectMetadata) (data : Bytes) : List FetchHintObjectChunk :=
  ((Slices.blocks 65536 data).zipIdx.map fun (piece, i) => ⟨i, piece, true, none, 0, []⟩).modifyHead
    fun first =>
      { first with
        hlc := some m.hlc
        size := m.size
        blake3Hash := (m.blake3Hash.map (·.1)).getD [] }

/-- The one message for an absent object, with the timestamp of its tombstone. -/
def absentChunk (tombstone : Option Tombstone) : FetchHintObjectChunk :=
  ⟨0, [], false, some ((tombstone.map (·.hlc)).getD Hlc.zero), 0, []⟩

/-- `fetch_hint_object`: the messages of the stream, unless the read fails. -/
def fetchHintObject : Except ReadError (List FetchHintObjectChunk) :=
  match readObject env renv b k w with
  | .error e => .error e
  | .ok none => .ok [absentChunk (w.keyAt env.self b k).tombstone]
  | .ok (some (m, data)) => .ok (hintChunks m data)

end

/-! ### The receiver -/

inductive FetchError
  | pool
  | rpc
  | stream
  | empty
  | sizeMismatch (advertised got : ℕ)
  | hashMismatch
  deriving DecidableEq

/-- What the receiver gets of a call. -/
inductive Received
  | noChannel
  | refused
  /-- These messages, after which the stream breaks or ends. -/
  | stream (messages : List FetchHintObjectChunk) (broken : Bool)

def fetchObject (hash : Bytes → HashOutput) (key : ObjectKey) :
    Received → Except FetchError (Option (ObjectMetadata × Bytes))
  | .noChannel => .error .pool
  | .refused => .error .rpc
  | .stream [] broken => .error (if broken then .stream else .empty)
  | .stream (first :: rest) broken =>
    if !first.present then .ok none
    else if broken then .error .stream
    else
      let data := first.data ++ rest.flatMap (·.data)
      if data.length ≠ first.size then .error (.sizeMismatch first.size data.length)
      else if (toHashOutput first.blake3Hash).any (hash data ≠ ·) then .error .hashMismatch
      else
        .ok (some (⟨key, data.length, some (hash data), [], none, 0, first.hlc.getD Hlc.zero⟩,
          data))

/-- A call that nothing disturbs. -/
def undisturbed : Except ReadError (List FetchHintObjectChunk) → Received
  | .error _ => .refused
  | .ok chunks => .stream chunks false

/-- What can come of a call: the call fails, or the stream ends or breaks after any of its
messages. -/
inductive Delivers (sent : Except ReadError (List FetchHintObjectChunk)) : Received → Prop
  | noChannel : Delivers sent .noChannel
  | refused : Delivers sent .refused
  | stream {chunks messages : List FetchHintObjectChunk} (broken : Bool) (h : sent = .ok chunks)
      (hm : messages <+: chunks) : Delivers sent (.stream messages broken)

/-! ### A stream of blocks -/

section

variable {hash : Bytes → HashOutput} {key : ObjectKey} {m : ObjectMetadata} {data : Bytes}

/-- The messages behind the first. -/
def laterChunks (pieces : List Bytes) : List FetchHintObjectChunk :=
  (pieces.zipIdx 1).map fun (piece, i) => ⟨i, piece, true, none, 0, []⟩

lemma flatMap_data_laterChunks (pieces : List Bytes) :
    (laterChunks pieces).flatMap (·.data) = pieces.flatten := by
  rw [laterChunks, flatMap_map, flatMap_def]
  congr 1
  exact zipIdx_map_fst ..

lemma hintChunks_nil (m : ObjectMetadata) : hintChunks m [] = [] := rfl

lemma hintChunks_of_ne_nil (m : ObjectMetadata) (h : data ≠ []) :
    ∃ piece pieces, piece ++ pieces.flatten = data ∧
      hintChunks m data =
        ⟨0, piece, true, some m.hlc, m.size, (m.blake3Hash.map (·.1)).getD []⟩ ::
          laterChunks pieces := by
  have hjoin : (Slices.blocks 65536 data).flatten = data := Slices.flatten_blocks (by simp) data
  cases hb : Slices.blocks 65536 data with
  | nil =>
    rw [hb] at hjoin
    exact absurd hjoin.symm h
  | cons piece pieces =>
    rw [hb] at hjoin
    exact ⟨piece, pieces, hjoin, by simp [hintChunks, hb, laterChunks]⟩

lemma arrived_cases {messages : List FetchHintObjectChunk} (hm : messages <+: hintChunks m data) :
    messages = [] ∨ ∃ piece rest,
      messages = ⟨0, piece, true, some m.hlc, m.size, (m.blake3Hash.map (·.1)).getD []⟩ :: rest ∧
        piece ++ rest.flatMap (·.data) <+: data := by
  cases messages with
  | nil => exact .inl rfl
  | cons first rest =>
    refine .inr ?_
    have hne : data ≠ [] := by
      rintro rfl
      simp [hintChunks_nil] at hm
    obtain ⟨piece, pieces, rfl, hchunks⟩ := hintChunks_of_ne_nil m hne
    rw [hchunks] at hm
    obtain ⟨rfl, hrest⟩ := cons_prefix_cons.mp hm
    refine ⟨piece, rest, rfl, (prefix_append_right_inj piece).mpr ?_⟩
    rw [← flatMap_data_laterChunks pieces, flatMap_def, flatMap_def]
    exact (hrest.map _).flatten

lemma eq_of_accepted (hsize : m.size = data.length) {messages : List FetchHintObjectChunk}
    {broken : Bool} (hm : messages <+: hintChunks m data) {got : ObjectMetadata} {bytes : Bytes}
    (h : fetchObject hash key (.stream messages broken) = .ok (some (got, bytes))) :
    bytes = data ∧ got.hlc = m.hlc := by
  rcases arrived_cases hm with rfl | ⟨piece, rest, rfl, hfront⟩
  · simp [fetchObject] at h
  · simp only [fetchObject, Bool.not_true, Bool.false_eq_true, ↓reduceIte] at h
    split at h
    · simp at h
    · split at h
      · simp at h
      · rename_i hlen
        split at h
        · simp at h
        · simp only [Except.ok.injEq, some.injEq, Prod.mk.injEq] at h
          obtain ⟨rfl, rfl⟩ := h
          have hlen : (piece ++ rest.flatMap (·.data)).length = m.size := by simpa using hlen
          exact ⟨hfront.eq_of_length (hlen.trans hsize), rfl⟩

lemma ne_absent {messages : List FetchHintObjectChunk} {broken : Bool}
    (hm : messages <+: hintChunks m data) :
    fetchObject hash key (.stream messages broken) ≠ .ok none := by
  rcases arrived_cases hm with rfl | ⟨piece, rest, rfl, -⟩
  · simp [fetchObject]
  · simp only [fetchObject, Bool.not_true, Bool.false_eq_true, ↓reduceIte]
    split
    · simp
    · split
      · simp
      · split <;> simp

lemma ne_accepted_of_absent {tombstone : Option Tombstone} {messages : List FetchHintObjectChunk}
    {broken : Bool} (hm : messages <+: [absentChunk tombstone]) {object : ObjectMetadata × Bytes} :
    fetchObject hash key (.stream messages broken) ≠ .ok (some object) := by
  cases messages with
  | nil => simp [fetchObject]
  | cons first rest =>
    obtain ⟨rfl, -⟩ := cons_prefix_cons.mp hm
    simp [fetchObject, absentChunk]

lemma fetchObject_hintChunks (hsize : m.size = data.length)
    (hhash : ∀ h ∈ m.blake3Hash, h = hash data) (hne : data ≠ []) :
    fetchObject hash key (.stream (hintChunks m data) false) =
      .ok (some (⟨key, data.length, some (hash data), [], none, 0, m.hlc⟩, data)) := by
  obtain ⟨piece, pieces, hjoin, hchunks⟩ := hintChunks_of_ne_nil m hne
  have hagrees : (toHashOutput ((m.blake3Hash.map (·.1)).getD [])).any (hash data ≠ ·) = false := by
    rw [toHashOutput_getD]
    cases hm : m.blake3Hash with
    | none => rfl
    | some h => simp [hhash h hm]
  rw [hchunks]
  simp only [fetchObject, flatMap_data_laterChunks, hjoin, hagrees, hsize, Bool.not_true,
    Bool.false_eq_true, ne_eq, not_true, ↓reduceIte, getD_some]

end

/-! ### The round trip -/

section

variable {env : Env} {renv : ReadEnv} {b : BucketId} {k : ObjectKey} {w : World}

variable (env renv b k w) in
/-- The origin has this object: its row, and the bytes it stands for. -/
def Holds (m : ObjectMetadata) (body : Bytes) : Prop :=
  (w.keyAt env.self b k).row = some m ∧
    (m.inlineData = some body ∨ m.inlineData = none ∧
      if m.chunks = [] then body = []
      else assembleChunks env { renv with fetchStrategy := none } m w = .ok body)

lemma Holds.readObject {m : ObjectMetadata} {body : Bytes} (hserves : env.servesRequests = true)
    (h : Holds env renv b k w m body) :
    readObject env renv b k w = .ok (some (m, body)) ∨
      readObject env renv b k w = .ok none ∧ body = [] := by
  obtain ⟨hrow, hinline | ⟨hinline, hchunks⟩⟩ := h
  · exact .inl (by simp [HintObject.readObject, hserves, hrow, hinline])
  · split at hchunks
    · rename_i hnone
      exact .inr ⟨by simp [HintObject.readObject, hserves, hrow, hinline, hnone], hchunks⟩
    · rename_i hsome
      exact .inl (by simp [HintObject.readObject, hserves, hrow, hinline, hsome, hchunks])

lemma holds_of_readObject {m : ObjectMetadata} {body : Bytes}
    (h : readObject env renv b k w = .ok (some (m, body))) : Holds env renv b k w m body := by
  unfold readObject at h
  split at h
  · simp at h
  · split at h
    · simp at h
    · rename_i row hrow
      split at h
      · rename_i data hinline
        obtain ⟨rfl, rfl⟩ := Prod.mk.inj (some.inj (Except.ok.inj h))
        exact ⟨hrow, .inl hinline⟩
      · rename_i hinline
        split at h
        · simp at h
        · rename_i hchunks
          split at h
          · rename_i data hdata
            obtain ⟨rfl, rfl⟩ := Prod.mk.inj (some.inj (Except.ok.inj h))
            exact ⟨hrow, .inr ⟨hinline, by rw [if_neg hchunks]; exact hdata⟩⟩
          · simp at h

lemma row_of_readObject_none (h : readObject env renv b k w = .ok none) :
    (w.keyAt env.self b k).row = none ∨ ∃ m, Holds env renv b k w m [] := by
  unfold readObject at h
  split at h
  · simp at h
  · split at h
    · rename_i hrow
      exact .inl hrow
    · rename_i m hrow
      split at h
      · simp at h
      · rename_i hinline
        split at h
        · rename_i hchunks
          exact .inr ⟨m, hrow, .inr ⟨hinline, by rw [if_pos hchunks]⟩⟩
        · split at h <;> simp at h

lemma Delivers.row_of_none {received : Received}
    (hd : Delivers (fetchHintObject env renv b k w) received)
    (hnone : fetchObject env.hash k received = .ok none) :
    (w.keyAt env.self b k).row = none ∨ ∃ m, Holds env renv b k w m [] := by
  cases hd with
  | noChannel => simp [fetchObject] at hnone
  | refused => simp [fetchObject] at hnone
  | @stream chunks messages broken h hm =>
    rcases hread : readObject env renv b k w with e | _ | ⟨m, data⟩
    · simp [fetchHintObject, hread] at h
    · exact row_of_readObject_none hread
    · simp only [fetchHintObject, hread, Except.ok.injEq] at h
      exact absurd hnone (ne_absent (h ▸ hm))

lemma Delivers.holds {received : Received} (hd : Delivers (fetchHintObject env renv b k w) received)
    (hsound : ∀ m body, Holds env renv b k w m body →
      m.size = body.length ∧ ∀ h ∈ m.blake3Hash, h = env.hash body)
    {got : ObjectMetadata} {body : Bytes}
    (hgot : fetchObject env.hash k received = .ok (some (got, body))) :
    ∃ m, Holds env renv b k w m body ∧ got.hlc = m.hlc := by
  cases hd with
  | noChannel => simp [fetchObject] at hgot
  | refused => simp [fetchObject] at hgot
  | @stream chunks messages broken h hm =>
    rcases hread : readObject env renv b k w with e | _ | ⟨m, data⟩
    · simp [fetchHintObject, hread] at h
    · simp only [fetchHintObject, hread, Except.ok.injEq] at h
      exact absurd hgot (ne_accepted_of_absent (h ▸ hm))
    · simp only [fetchHintObject, hread, Except.ok.injEq] at h
      have hholds := holds_of_readObject hread
      obtain ⟨rfl, hhlc⟩ := eq_of_accepted (hsound m data hholds).1 (h ▸ hm) hgot
      exact ⟨m, hholds, hhlc⟩

/-- **Hint object transfer** is a round trip exactly when the origin's object is not empty: it
brings the version and the bytes, says that there is no object exactly when there is none, and
accepts nothing but the object from a stream that is cut short. -/
theorem hint_transfer_iff (hserves : env.servesRequests = true)
    (hsound : ∀ m body, Holds env renv b k w m body →
      m.size = body.length ∧ ∀ h ∈ m.blake3Hash, h = env.hash body) :
    let sent := fetchHintObject env renv b k w
    (∀ m body, Holds env renv b k w m body → ∃ got,
        fetchObject env.hash k (undisturbed sent) = .ok (some (got, body)) ∧ got.hlc = m.hlc) ∧
      ((w.keyAt env.self b k).row = none → fetchObject env.hash k (undisturbed sent) = .ok none) ∧
      (∀ received, Delivers sent received →
        fetchObject env.hash k received = .ok none → (w.keyAt env.self b k).row = none) ∧
      (∀ received, Delivers sent received → ∀ got body,
        fetchObject env.hash k received = .ok (some (got, body)) →
          ∃ m, Holds env renv b k w m body ∧ got.hlc = m.hlc) ↔
    ∀ m, ¬Holds env renv b k w m [] := by
  refine ⟨fun ⟨htrip, _, _, _⟩ m hempty => ?_, fun hne => ⟨fun m body h => ?_, fun hrow => ?_,
    fun received hd hnone => ?_, fun received hd got body hgot => hd.holds hsound hgot⟩⟩
  · -- an empty object is no message, or reads as absent
    obtain ⟨got, hgot, -⟩ := htrip m [] hempty
    rcases hempty.readObject hserves with hread | ⟨hread, -⟩
    · simp [fetchHintObject, hread, hintChunks_nil, undisturbed, fetchObject] at hgot
    · simp [fetchHintObject, hread, absentChunk, undisturbed, fetchObject] at hgot
  · have hbody : body ≠ [] := fun h0 => hne m (h0 ▸ h)
    obtain ⟨hsize, hhash⟩ := hsound m body h
    have hread := (h.readObject hserves).resolve_right fun h0 => hbody h0.2
    refine ⟨⟨k, body.length, some (env.hash body), [], none, 0, m.hlc⟩, ?_, rfl⟩
    simp only [fetchHintObject, hread, undisturbed]
    exact fetchObject_hintChunks hsize hhash hbody
  · have hread : readObject env renv b k w = .ok none := by simp [readObject, hserves, hrow]
    simp [fetchHintObject, hread, absentChunk, undisturbed, fetchObject]
  · exact (hd.row_of_none hnone).resolve_right fun ⟨m, hempty⟩ => hne m hempty

lemma holds_inline_iff {m m' : ObjectMetadata} {data body : Bytes}
    (hrow : (w.keyAt env.self b k).row = some m) (hinline : m.inlineData = some data) :
    Holds env renv b k w m' body ↔ m' = m ∧ body = data := by
  simp only [Holds, hrow, some.injEq]
  constructor
  · rintro ⟨rfl, h⟩
    simpa [hinline, eq_comm] using h
  · rintro ⟨rfl, rfl⟩
    exact ⟨rfl, .inl hinline⟩

end

/-- An origin with one inline object. -/
def origin : Env := .calm 1 ⟨[(0, 1)], by decide, 1⟩

def inlineRow (data : Bytes) : ObjectMetadata :=
  ⟨"cat", data.length, some (origin.hash data), [], some data, 0, ⟨5, 0⟩⟩

def originWorld (data : Bytes) : World := (World.blank.putRow 1 "photos" (inlineRow data) 0 .none).1

theorem inline_object_transferred :
    ∃ got, fetchObject origin.hash "cat"
        (undisturbed (fetchHintObject origin remoteReader "photos" "cat" (originWorld [7, 8]))) =
          .ok (some (got, [7, 8])) ∧ got.hlc = ⟨5, 0⟩ := by
  have hrow : ((originWorld [7, 8]).keyAt origin.self "photos" "cat").row =
      some (inlineRow [7, 8]) := by decide
  have hholds : ∀ m body, Holds origin remoteReader "photos" "cat" (originWorld [7, 8]) m body ↔
      m = inlineRow [7, 8] ∧ body = [7, 8] := fun m body => holds_inline_iff hrow rfl
  refine ((@hint_transfer_iff origin remoteReader "photos" "cat" (originWorld [7, 8]) rfl
    fun m body h => ?_).mpr fun m h => ?_).1 (inlineRow [7, 8]) [7, 8]
      ((hholds _ _).mpr ⟨rfl, rfl⟩)
  · obtain ⟨rfl, rfl⟩ := (hholds m body).mp h
    exact ⟨rfl, by decide⟩
  · exact absurd ((hholds m []).mp h).2 (by simp)

/-- An empty object is streamed as nothing at all, and the receiver reports an error. -/
theorem empty_object_not_transferred :
    Holds origin remoteReader "photos" "cat" (originWorld []) (inlineRow []) [] ∧
      fetchObject origin.hash "cat"
        (undisturbed (fetchHintObject origin remoteReader "photos" "cat" (originWorld []))) =
          .error .empty :=
  ⟨⟨by decide, .inl rfl⟩, by decide⟩

end OceanFs.Durability.HintObject
