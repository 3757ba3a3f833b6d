import OceanFs.Lib.Slices
import OceanFs.Read.Fetch
import OceanFs.Write.Steps

/-!
Reading back what the local write stored.

Segments only grow, so the bytes of a chunk stay where its reference says. A chunk of less than
four gigabytes is fetched as it was given; a longer one is never fetched whole, because its
length does not fit the reference.
-/

namespace OceanFs.Read

open OceanFs.Core Write Lib List

/-- Every segment of `w` is a prefix of the same segment of `w'`. -/
def Extends (w w' : World) : Prop := ∀ seg, w.segments seg <+: w'.segments seg

lemma Extends.refl (w : World) : Extends w w := fun _ => prefix_refl _

lemma Extends.trans {u v w : World} (h₁ : Extends u v) (h₂ : Extends v w) : Extends u w :=
  fun seg => (h₁ seg).trans (h₂ seg)

lemma extends_appendBytes (w : World) (seg : SegmentId) (bytes : Bytes) :
    Extends w (w.appendBytes seg bytes) := by
  intro s
  by_cases hs : s = seg
  · subst hs
    simp [World.appendBytes]
  · simp [World.appendBytes, hs]

variable {env : Env} {w w' : World}

lemma extends_storeChunk (tier : String) (i : ℕ) (piece : Bytes) (w : World) :
    Extends w (storeChunk env tier i piece w).1 := by
  unfold storeChunk
  split
  · exact .refl w
  · split
    · exact .refl w
    · exact .refl w
    · exact extends_appendBytes _ _ _
    · exact extends_appendBytes _ _ _

/-- The reference finds the bytes that the piece was stored as. -/
structure StoredAs (env : Env) (w : World) (piece : Bytes) (c : ChunkRef) (stored : Bytes) :
    Prop where
  appended : ∃ i, env.append i = .appended c.segmentId
  compressed : compressChunk env.compression piece = .ok (stored, c.logicalLength, c.compressed)
  length : c.length = min stored.length (2 ^ 32 - 1)
  inside : c.offset ≤ (w.segments c.segmentId).length
  place : stored <+: (w.segments c.segmentId).drop c.offset

lemma StoredAs.extends {piece stored : Bytes} {c : ChunkRef} (h : StoredAs env w piece c stored)
    (hx : Extends w w') : StoredAs env w' piece c stored where
  appended := h.appended
  compressed := h.compressed
  length := h.length
  inside := h.inside.trans (hx _).length_le
  place := by
    obtain ⟨rest, hrest⟩ := hx c.segmentId
    rw [← hrest, drop_append_of_le_length h.inside]
    exact h.place.trans (prefix_append ..)

lemma StoredAs.of_segments {piece stored : Bytes} {c : ChunkRef} (h : StoredAs env w piece c stored)
    (hs : w'.segments = w.segments) : StoredAs env w' piece c stored :=
  h.extends fun seg => by rw [hs]

lemma storeChunk_storedAs {tier : String} {i : ℕ} {piece : Bytes} {c : ChunkRef}
    (h : storeChunk env tier i piece w = (w', .ok c)) :
    ∃ stored, StoredAs env w' piece c stored := by
  unfold storeChunk at h
  rcases hc : compressChunk env.compression piece with e | ⟨stored, logicalLen, compressed⟩
  · simp [hc] at h
  simp only [hc] at h
  rcases ha : env.append i with seg | _ | seg
  · simp only [ha, Prod.mk.injEq, Except.ok.injEq] at h
    obtain ⟨rfl, rfl⟩ := h
    refine ⟨stored, ⟨i, ha⟩, hc, rfl, ?_, ?_⟩
    · simp [World.appendBytes]
    · simp [World.appendBytes]
  · rename_i bp
    cases bp <;> simp [ha] at h
  · simp [ha] at h

lemma storeChunks_storedAs {tier : String} {i : ℕ} {pieces : List Bytes} {cs : List ChunkRef}
    (h : storeChunks env tier i pieces w = (w', .ok cs)) :
    Extends w w' ∧
      List.Forall₂ (fun piece c => ∃ stored, StoredAs env w' piece c stored) pieces cs := by
  induction pieces generalizing i w cs with
  | nil =>
    simp only [storeChunks, Prod.mk.injEq, Except.ok.injEq] at h
    obtain ⟨rfl, rfl⟩ := h
    exact ⟨.refl w, .nil⟩
  | cons piece pieces ih =>
    unfold storeChunks at h
    have hx := @extends_storeChunk env tier i piece w
    rcases hone : storeChunk env tier i piece w with ⟨w₁, e | c⟩
    · simp [hone] at h
    simp only [hone] at h hx
    rcases hrest : storeChunks env tier (i + 1) pieces w₁ with ⟨w₂, e | rest⟩
    · simp [hrest] at h
    simp only [hrest, Prod.mk.injEq, Except.ok.injEq] at h
    obtain ⟨rfl, rfl⟩ := h
    obtain ⟨hx₂, hall⟩ := ih hrest
    obtain ⟨stored, hstored⟩ := storeChunk_storedAs hone
    exact ⟨hx.trans hx₂, .cons ⟨stored, hstored.extends hx₂⟩ hall⟩

/-- The pieces a body is stored in; an inline body has none. -/
def pieces (env : Env) (data : Bytes) : List Bytes :=
  match env.sizeConfig.classify data.length with
  | .inline => []
  | .small => [data]
  | .standard => [data]
  | .multi => split env.sizeConfig.defaultTargetSize data

lemma writeLocal_storedAs {req : WriteRequest} {hlc : Hlc} {chunks : List ChunkRef} {row : Bool}
    (h : writeLocal env req hlc w = (w', .ok (chunks, row))) :
    List.Forall₂ (fun piece c => ∃ stored, StoredAs env w' piece c stored)
        (pieces env req.data) chunks ∧
      (env.sizeConfig.classify req.data.length ≠ .inline →
        (pieces env req.data).flatten = req.data) := by
  have hchunked : ∀ {tier : String} {ps : List Bytes},
      writeLocal.chunked env w tier ps = (w', .ok (chunks, row)) →
      List.Forall₂ (fun piece c => ∃ stored, StoredAs env w' piece c stored) ps chunks := by
    intro tier ps hc
    unfold writeLocal.chunked at hc
    rcases hs : storeChunks env tier 0 ps w with ⟨w₁, e | cs⟩
    · simp [hs] at hc
    · simp only [hs, Prod.mk.injEq, Except.ok.injEq] at hc
      obtain ⟨rfl, rfl, -⟩ := hc
      exact (storeChunks_storedAs hs).2
  unfold writeLocal at h
  unfold pieces
  cases htier : env.sizeConfig.classify req.data.length with
  | inline =>
    simp only [htier] at h
    rcases hp : w.putRow env.self req.bucket
      (inlineRow req.key req.data (env.hash req.data) hlc env.nowMs) env.nowMs env.inlineFault
      with ⟨w₁, _ | _⟩
    · simp [hp] at h
    · simp only [hp, Prod.mk.injEq, Except.ok.injEq] at h
      rw [← h.2.1]
      exact ⟨.nil, fun hne => absurd rfl hne⟩
  | small =>
    rw [htier] at h
    exact ⟨hchunked h, fun _ => by simp⟩
  | standard =>
    rw [htier] at h
    exact ⟨hchunked h, fun _ => by simp⟩
  | multi =>
    rw [htier] at h
    simp only at h
    split at h
    · simp at h
    · rename_i hz
      exact ⟨hchunked h, fun _ => Slices.flatten_slices hz _⟩

/-! ### Fetching one chunk -/

/-- Compression makes the piece shorter, so that it is stored compressed. -/
def shrinks (env : Env) (piece : Bytes) : Bool :=
  match env.compression with
  | none => false
  | some c => c.minChunkBytes ≤ piece.length &&
      (c.compressInto piece).any fun out => out.length < piece.length

/-- The node's decompression undoes its compression. -/
def Inverts (env : Env) (renv : ReadEnv) : Prop :=
  ∀ c, env.compression = some c → ∃ d, renv.decompressor = some d ∧
    ∀ data out, c.compressInto data = some out → d.decompressExact out data.length = some data

lemma compressChunk_ok {piece stored : Bytes} {logicalLen : ℕ} {flag : Bool}
    (h : compressChunk env.compression piece = .ok (stored, logicalLen, flag)) :
    logicalLen = piece.length % 2 ^ 32 ∧ flag = shrinks env piece ∧
      (flag = false → stored = piece) ∧
      (flag = true → stored.length < piece.length ∧
        ∃ c, env.compression = some c ∧ c.compressInto piece = some stored) := by
  unfold compressChunk at h
  unfold shrinks
  cases hc : env.compression with
  | none =>
    simp only [hc, Except.ok.injEq, Prod.mk.injEq] at h
    obtain ⟨rfl, rfl, rfl⟩ := h
    simp
  | some c =>
    simp only [hc] at h
    by_cases hmin : piece.length < c.minChunkBytes
    · simp only [hmin, ↓reduceIte, Except.ok.injEq, Prod.mk.injEq] at h
      obtain ⟨rfl, rfl, rfl⟩ := h
      simp [hmin]
    · simp only [hmin, ↓reduceIte] at h
      cases hout : c.compressInto piece with
      | none => simp [hout] at h
      | some out =>
        simp only [hout] at h
        split at h
        · rename_i hlong
          simp only [Except.ok.injEq, Prod.mk.injEq] at h
          obtain ⟨rfl, rfl, rfl⟩ := h
          simp [hout, hlong]
        · rename_i hshort
          simp only [Except.ok.injEq, Prod.mk.injEq] at h
          obtain ⟨rfl, rfl, rfl⟩ := h
          simp only [not_le] at hshort
          simp [hshort, hout, not_lt.mp hmin]

variable {renv : ReadEnv} {piece stored : Bytes} {c c' : ChunkRef}

/-- Two references to the same place, which may differ in how they say to decode it. -/
def SamePlace (c c' : ChunkRef) : Prop :=
  c'.segmentId = c.segmentId ∧ c'.offset = c.offset ∧ c'.length = c.length

namespace StoredAs

variable (h : StoredAs env w piece c stored)

include h

lemma raw (hp : SamePlace c c') :
    fetchSingleChunkRaw renv w c' = .ok (stored.take c.length) := by
  obtain ⟨rest, hrest⟩ := h.place
  have hlen := congrArg List.length hrest
  have hin := h.inside
  have hl := h.length
  simp only [length_append, length_drop] at hlen
  have hread : readChunk w c'.segmentId c'.offset c'.length = some (stored.take c.length) := by
    rw [hp.1, hp.2.1, hp.2.2]
    unfold readChunk
    rw [if_pos (by omega), ← hrest, take_append_of_le_length (by omega)]
  simp [fetchSingleChunkRaw, hread]

lemma plain (hp : SamePlace c c') (hc : c'.compressed = false) :
    fetchSingleChunk renv w c' = .ok (stored.take c.length) := by
  simp [fetchSingleChunk, h.raw hp, maybeDecompress, hc]

lemma ne_unavailable (hp : SamePlace c c') (seg : SegmentId) :
    fetchSingleChunk renv w c' ≠ .error (.segmentUnavailable seg) := by
  unfold fetchSingleChunk maybeDecompress
  rw [h.raw hp]
  dsimp only
  split
  · simp
  · split
    · simp
    · split <;> simp

lemma fetch (hinv : Inverts env renv) (hsmall : piece.length < 2 ^ 32) :
    fetchSingleChunk renv w c = .ok piece := by
  obtain ⟨hlog, -, hplain, hcomp⟩ := compressChunk_ok h.compressed
  cases hflag : c.compressed with
  | false =>
    rw [h.plain ⟨rfl, rfl, rfl⟩ hflag, h.length, hplain hflag, take_of_length_le (by omega)]
  | true =>
    obtain ⟨hlt, ctx, hctx, hout⟩ := hcomp hflag
    obtain ⟨d, hd, hback⟩ := hinv ctx hctx
    have htake : stored.take c.length = stored := take_of_length_le (by rw [h.length]; omega)
    have hdec : d.decompressExact stored c.logicalLength = some piece := by
      rw [hlog, Nat.mod_eq_of_lt hsmall]
      exact hback piece stored hout
    simp [fetchSingleChunk, h.raw ⟨rfl, rfl, rfl⟩, maybeDecompress, hflag, hd, htake, hdec]

lemma fetch_large (hlarge : 2 ^ 32 ≤ piece.length) {d : Bytes}
    (hd : fetchSingleChunk renv w c = .ok d) : d.length < piece.length := by
  obtain ⟨hlog, -, hplain, -⟩ := compressChunk_ok h.compressed
  cases hflag : c.compressed with
  | false =>
    rw [h.plain ⟨rfl, rfl, rfl⟩ hflag, Except.ok.injEq] at hd
    rw [← hd, length_take, h.length]
    omega
  | true =>
    simp only [fetchSingleChunk, h.raw ⟨rfl, rfl, rfl⟩, maybeDecompress, hflag] at hd
    cases hdc : renv.decompressor with
    | none => simp [hdc] at hd
    | some dec =>
      cases hout : dec.decompressExact (stored.take c.length) c.logicalLength with
      | none => simp [hdc, hout] at hd
      | some out =>
        simp only [hdc, hout, Bool.not_true, Bool.false_eq_true, ↓reduceIte, Except.ok.injEq] at hd
        have hle := dec.bounded _ _ _ hout
        have := Nat.mod_lt piece.length (Nat.two_pow_pos 32)
        subst hd
        omega

lemma fetch_plain (hp : SamePlace c c') (hc : c'.compressed = false) :
    (piece.length < 2 ^ 32 ∧ shrinks env piece = false →
      fetchSingleChunk renv w c' = .ok piece) ∧
    (¬(piece.length < 2 ^ 32 ∧ shrinks env piece = false) →
      ∀ d, fetchSingleChunk renv w c' = .ok d → d.length < piece.length) := by
  obtain ⟨-, hflag, hplain, hcomp⟩ := compressChunk_ok h.compressed
  rw [h.plain hp hc, h.length]
  constructor
  · rintro ⟨hsmall, hno⟩
    rw [hplain (hflag.trans hno), take_of_length_le (by omega)]
  · intro hnot d hd
    rw [Except.ok.injEq] at hd
    rw [← hd, length_take]
    cases hs : shrinks env piece with
    | false =>
      rw [hplain (hflag.trans hs)]
      have : ¬piece.length < 2 ^ 32 := fun hsmall => hnot ⟨hsmall, hs⟩
      omega
    | true =>
      have := (hcomp (hflag.trans hs)).1
      omega

end StoredAs

/-! ### Fetching all chunks -/

lemma joined_iff {Whole : Bytes → Prop} {ps : List Bytes} {cs : List ChunkRef}
    (h : List.Forall₂ (fun p c => (Whole p → fetchSingleChunk renv w c = .ok p) ∧
      (¬Whole p → ∀ d, fetchSingleChunk renv w c = .ok d → d.length < p.length)) ps cs) :
    (∃ ds, List.Forall₂ (fun c d => fetchSingleChunk renv w c = .ok d) cs ds ∧
      ds.flatten = ps.flatten) ↔ ∀ p ∈ ps, Whole p := by
  constructor
  · rintro ⟨ds, hds, hflat⟩
    have hstep : List.Forall₂ (fun p d => Whole p ∧ d = p ∨ d.length < p.length) ps ds := by
      clear hflat
      induction h generalizing ds with
      | nil =>
        cases hds
        exact .nil
      | @cons p c _ _ hpc _ ih =>
        cases hds with
        | @cons _ d _ _ hd hrest =>
          refine .cons ?_ (ih _ hrest)
          by_cases hw : Whole p
          · exact .inl ⟨hw, Except.ok.inj (hd.symm.trans (hpc.1 hw))⟩
          · exact .inr (hpc.2 hw d hd)
    have heq := (Slices.flatten_eq_iff (hstep.imp fun _ _ h => h.imp_left And.right)).mp hflat
    subst heq
    rw [forall₂_same] at hstep
    exact fun p hp => ((hstep p hp).resolve_right (lt_irrefl _)).1
  · intro hall
    refine ⟨ps, ?_, rfl⟩
    induction h with
    | nil => exact .nil
    | cons hpc _ ih =>
      exact .cons (hpc.1 (hall _ (by simp))) (ih fun p hp => hall p (by simp [hp]))

end OceanFs.Read
