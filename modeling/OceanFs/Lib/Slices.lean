import Mathlib.Data.List.Forall2
import Mathlib.Data.List.Range

/-!
Cutting a list into slices and joining them again.
-/

namespace OceanFs.Lib.Slices

open List

variable {α : Type}

lemma flatten_map_take_drop (n count : ℕ) (l : List α) :
    ((List.range count).map fun i => (l.drop (i * n)).take n).flatten = l.take (count * n) := by
  induction count with
  | zero => simp
  | succ c ih =>
    rw [range_succ, map_append, flatten_append, ih, Nat.succ_mul, take_add]
    simp

lemma flatten_slices {n : ℕ} (hn : n ≠ 0) (l : List α) :
    ((List.range ((l.length + n - 1) / n)).map fun i => (l.drop (i * n)).take n).flatten = l := by
  rw [flatten_map_take_drop]
  refine take_of_length_le ?_
  have h := Nat.div_add_mod (l.length + n - 1) n
  have hmod := Nat.mod_lt (l.length + n - 1) (Nat.pos_of_ne_zero hn)
  rw [Nat.mul_comm]
  omega

/-- The slices of length `n`, the last of which may be shorter. -/
def blocks (n : ℕ) (l : List α) : List (List α) :=
  (List.range ((l.length + n - 1) / n)).map fun i => (l.drop (i * n)).take n

lemma flatten_blocks {n : ℕ} (hn : n ≠ 0) (l : List α) : (blocks n l).flatten = l :=
  flatten_slices hn l

lemma flatten_length_le {ps ds : List (List α)}
    (h : List.Forall₂ (fun p d => d = p ∨ d.length < p.length) ps ds) :
    ds.flatten.length ≤ ps.flatten.length := by
  induction h with
  | nil => simp
  | cons hpd _ ih =>
    simp only [flatten_cons, length_append]
    rcases hpd with rfl | hlt <;> omega

theorem flatten_eq_iff {ps ds : List (List α)}
    (h : List.Forall₂ (fun p d => d = p ∨ d.length < p.length) ps ds) :
    ds.flatten = ps.flatten ↔ ds = ps := by
  refine ⟨fun heq => ?_, fun heq => by rw [heq]⟩
  induction h with
  | nil => rfl
  | @cons p d ps ds hpd hrest ih =>
    simp only [flatten_cons] at heq
    have hlen := congrArg List.length heq
    have hle := flatten_length_le hrest
    simp only [length_append] at hlen
    rcases hpd with rfl | hlt
    · rw [ih (append_cancel_left heq)]
    · omega

/-! ### Buffers -/

/-- Overwrites the part of a buffer that starts at `offset`. -/
def writeAt (buf : List α) (offset : ℕ) (piece : List α) : List α :=
  buf.take offset ++ piece ++ buf.drop (offset + piece.length)

lemma length_writeAt {buf piece : List α} {offset : ℕ} (h : offset + piece.length ≤ buf.length) :
    (writeAt buf offset piece).length = buf.length := by
  simp only [writeAt, length_append, length_take, length_drop]
  omega

lemma getElem?_writeAt {buf piece : List α} {offset : ℕ} (h : offset + piece.length ≤ buf.length)
    (b : ℕ) :
    (writeAt buf offset piece)[b]? =
      if offset ≤ b ∧ b < offset + piece.length then piece[b - offset]? else buf[b]? := by
  have htake : (buf.take offset).length = offset := length_take_of_le (by omega)
  rw [writeAt, append_assoc, getElem?_append, getElem?_append, htake]
  split_ifs with hlt hin hmid hmid
  · omega
  · rw [getElem?_take_of_lt hlt]
  · rfl
  · omega
  · omega
  · rw [getElem?_drop]
    congr 1
    omega

lemma writeAt_append {a buf c piece : List α} {offset : ℕ} (h : offset + piece.length ≤ buf.length)
    :
    writeAt (a ++ (buf ++ c)) (a.length + offset) piece = a ++ (writeAt buf offset piece ++ c) := by
  have htake : (a ++ (buf ++ c)).take (a.length + offset) = a ++ buf.take offset := by
    rw [take_length_add_append, take_append_of_le_length (by omega)]
  have hdrop : (a ++ (buf ++ c)).drop (a.length + offset + piece.length) =
      buf.drop (offset + piece.length) ++ c := by
    rw [Nat.add_assoc, drop_length_add_append, drop_append_of_le_length h]
  rw [writeAt, htake, hdrop, writeAt]
  simp only [append_assoc]

lemma getElem?_foldl_writeAt {size : ℕ} (hsize : 0 < size) {ref buf : List α}
    (hlen : buf.length = ref.length) (l : List ℕ) (h : ∀ i ∈ l, (i + 1) * size ≤ ref.length)
    (b : ℕ) :
    (l.foldl (fun buf i => writeAt buf (i * size) ((ref.drop (i * size)).take size)) buf)[b]? =
      if b / size ∈ l then ref[b]? else buf[b]? := by
  induction l generalizing buf with
  | nil => simp
  | cons i l ih =>
    obtain ⟨hi, hl⟩ := forall_mem_cons.mp h
    rw [Nat.succ_mul] at hi
    have hpiece : ((ref.drop (i * size)).take size).length = size := by
      rw [length_take, length_drop]
      omega
    have hfits : i * size + ((ref.drop (i * size)).take size).length ≤ buf.length := by omega
    rw [foldl_cons, ih ((length_writeAt hfits).trans hlen) hl, getElem?_writeAt hfits, hpiece]
    have hdiv : b / size = i ↔ i * size ≤ b ∧ b < i * size + size := by
      rw [Nat.div_eq_iff hsize]
      omega
    by_cases hmem : b / size ∈ l
    · simp [hmem]
    · by_cases hb : b / size = i
      · have hin := hdiv.mp hb
        rw [if_neg hmem, if_pos hin, if_pos (by simp [hb]), getElem?_take_of_lt (by omega),
          getElem?_drop, Nat.add_sub_cancel' hin.1]
      · rw [if_neg hmem, if_neg (mt hdiv.mpr hb), if_neg (by simp [hmem, hb])]

lemma foldl_writeAt_append {a buf c : List α} {offset : ℕ → ℕ} {piece : ℕ → List α} (l : List ℕ)
    (h : ∀ i ∈ l, offset i + (piece i).length ≤ buf.length) :
    l.foldl (fun buf i => writeAt buf (a.length + offset i) (piece i)) (a ++ (buf ++ c)) =
      a ++ (l.foldl (fun buf i => writeAt buf (offset i) (piece i)) buf ++ c) := by
  induction l generalizing buf with
  | nil => rfl
  | cons i l ih =>
    obtain ⟨hi, hl⟩ := forall_mem_cons.mp h
    rw [foldl_cons, writeAt_append hi, foldl_cons]
    exact ih fun j hj => (length_writeAt hi).symm ▸ hl j hj

lemma length_foldl_writeAt {offset : ℕ → ℕ} {piece : ℕ → List α} (l : List ℕ) {buf : List α}
    (h : ∀ i ∈ l, offset i + (piece i).length ≤ buf.length) :
    (l.foldl (fun buf i => writeAt buf (offset i) (piece i)) buf).length = buf.length := by
  induction l generalizing buf with
  | nil => rfl
  | cons i l ih =>
    obtain ⟨hi, hl⟩ := forall_mem_cons.mp h
    have hlen := length_writeAt hi
    rw [foldl_cons, ih fun j hj => hlen.symm ▸ hl j hj, hlen]

lemma length_flatten_range {n size : ℕ} {piece : ℕ → List α} (h : ∀ i < n, (piece i).length = size)
    :
    ((List.range n).map piece).flatten.length = n * size := by
  induction n with
  | zero => simp
  | succ n ih =>
    rw [range_succ, map_append, flatten_append, length_append, ih fun i hi => h i (by omega)]
    simp [h n (by omega), Nat.succ_mul]

lemma foldl_writeAt (n size : ℕ) (piece : ℕ → List α) (d : α) (h : ∀ i < n, (piece i).length ≤ size)
    :
    (List.range n).foldl (fun buf i => writeAt buf (i * size) (piece i))
        (List.replicate (n * size) d) =
      ((List.range n).map fun i =>
        piece i ++ List.replicate (size - (piece i).length) d).flatten := by
  -- after `c` slices the rest of the buffer is as it was
  suffices hc : ∀ c ≤ n, (List.range c).foldl (fun buf i => writeAt buf (i * size) (piece i))
      (List.replicate (n * size) d) = ((List.range c).map fun i =>
        piece i ++ List.replicate (size - (piece i).length) d).flatten ++
          List.replicate ((n - c) * size) d by
    simpa using hc n le_rfl
  have hlen : ∀ c ≤ n, ((List.range c).map fun i =>
      piece i ++ List.replicate (size - (piece i).length) d).flatten.length = c * size := by
    refine fun c hc => length_flatten_range fun i hi => ?_
    have := h i (by omega)
    rw [length_append, length_replicate]
    omega
  intro c
  induction c with
  | zero => simp
  | succ c ih =>
    intro hc
    have hp := h c hc
    have hrest : (n - c) * size = (piece c).length + ((size - (piece c).length) +
        (n - (c + 1)) * size) := by
      rw [show n - c = (n - (c + 1)) + 1 by omega, Nat.succ_mul]
      omega
    rw [range_succ, foldl_append, ih (by omega), foldl_cons, foldl_nil, writeAt,
      take_left' (hlen c (by omega)), drop_append, hlen c (by omega),
      drop_of_length_le (by rw [hlen c (by omega)]; omega), Nat.add_sub_cancel_left, hrest,
      drop_replicate, Nat.add_sub_cancel_left, replicate_add]
    simp

lemma slice_flatten {n size : ℕ} {piece : ℕ → List α} (h : ∀ i < n, (piece i).length = size) {i : ℕ}
    (hi : i < n) :
    ((((List.range n).map piece).flatten).drop (i * size)).take size = piece i := by
  have hlen : ((List.range i).map piece).flatten.length = i * size :=
    length_flatten_range fun j hj => h j (by omega)
  obtain ⟨r, rfl⟩ : ∃ r, n = i + (1 + r) := ⟨n - i - 1, by omega⟩
  rw [range_add, map_append, flatten_append, drop_left' hlen, Nat.add_comm 1 r, range_succ_eq_map]
  simp only [map_cons, Nat.add_zero, flatten_cons]
  exact take_left' (h i hi)

/-! ### Grids of pieces -/

section

variable {n m size : ℕ} {f : ℕ → ℕ → List α}

lemma index_lt {s p : ℕ} (hs : s < n) (hp : p < m) : s * m + p < n * m := by
  have := Nat.mul_le_mul_right m (show s + 1 ≤ n from hs)
  rw [Nat.succ_mul] at this
  omega

lemma index_div {s p : ℕ} (hp : p < m) : (s * m + p) / m = s := by
  rw [Nat.add_comm, Nat.add_mul_div_right _ _ (by omega), Nat.div_eq_of_lt hp, Nat.zero_add]

lemma index_mod {s p : ℕ} (hp : p < m) : (s * m + p) % m = p := by
  rw [Nat.add_comm, Nat.add_mul_mod_self_right, Nat.mod_eq_of_lt hp]

lemma flatMap_flatMap_range (n m : ℕ) (f : ℕ → ℕ → List α) :
    ((List.range n).flatMap fun s => (List.range m).flatMap (f s)) =
      ((List.range (n * m)).map fun j => f (j / m) (j % m)).flatten := by
  induction n with
  | zero => simp
  | succ n ih =>
    have hrow : (List.range m).flatMap (f n) =
        ((List.range m).map fun p => f ((n * m + p) / m) ((n * m + p) % m)).flatten := by
      rw [flatMap_def]
      refine congrArg List.flatten (map_congr_left fun p hp => ?_)
      rw [index_div (mem_range.mp hp), index_mod (mem_range.mp hp)]
    rw [range_succ, flatMap_append, ih, flatMap_singleton, hrow, Nat.succ_mul,
      range_add, map_append, flatten_append, map_map]
    rfl

lemma length_grid (h : ∀ s < n, ∀ p < m, (f s p).length = size) :
    ((List.range n).flatMap fun s => (List.range m).flatMap (f s)).length = n * m * size := by
  rw [flatMap_flatMap_range]
  refine length_flatten_range fun j hj => h _ (Nat.div_lt_of_lt_mul ?_) _ (Nat.mod_lt _ ?_)
  · rwa [Nat.mul_comm]
  · exact Nat.pos_of_ne_zero fun h0 => by simp [h0] at hj

lemma slice_grid (h : ∀ s < n, ∀ p < m, (f s p).length = size) {s p : ℕ} (hs : s < n) (hp : p < m) :
    ((((List.range n).flatMap fun s => (List.range m).flatMap (f s)).drop
      ((s * m + p) * size)).take size) = f s p := by
  rw [flatMap_flatMap_range, slice_flatten (fun j hj => ?_) (index_lt hs hp), index_div hp,
    index_mod hp]
  refine h _ (Nat.div_lt_of_lt_mul ?_) _ (Nat.mod_lt _ (by omega))
  rwa [Nat.mul_comm]

end

lemma getElem?_eq_of_slice {size i b : ℕ} (hsize : 0 < size) {ref buf : List α} (hb : b / size = i)
    (h : (buf.drop (i * size)).take size = (ref.drop (i * size)).take size) :
    buf[b]? = ref[b]? := by
  have hbyte := congrArg (·[b - i * size]?) h
  have hin : i * size ≤ b ∧ b < i * size + size := by
    rw [Nat.div_eq_iff hsize] at hb
    omega
  simp only [getElem?_drop, getElem?_take_of_lt (show b - i * size < size by omega),
    Nat.add_sub_cancel' hin.1] at hbyte
  exact hbyte

/-- **Restoring a grid**: with the pieces of the reference written over those that differ, the
buffer is the reference. -/
lemma foldl_foldl_writeAt {n w size : ℕ} (hsize : 0 < size) {ref buf : List α}
    (hlen : buf.length = ref.length) (hn : n * w * size ≤ ref.length) {bad : ℕ → List ℕ}
    (hbad : ∀ s < n, ∀ i ∈ bad s, i < w)
    (hgood : ∀ s < n, ∀ i < w, i ∉ bad s →
      (buf.drop ((s * w + i) * size)).take size = (ref.drop ((s * w + i) * size)).take size)
    (htail : buf.drop (n * w * size) = ref.drop (n * w * size)) :
    (List.range n).foldl (fun buf s => (bad s).foldl (fun buf i => writeAt buf ((s * w + i) * size)
      ((ref.drop ((s * w + i) * size)).take size)) buf) buf = ref := by
  have hflat : (List.range n).foldl (fun buf s => (bad s).foldl (fun buf i =>
      writeAt buf ((s * w + i) * size) ((ref.drop ((s * w + i) * size)).take size)) buf) buf =
      ((List.range n).flatMap fun s => (bad s).map (s * w + ·)).foldl (fun buf i =>
        writeAt buf (i * size) ((ref.drop (i * size)).take size)) buf := by
    simp only [foldl_flatMap, foldl_map]
  rw [hflat]
  refine ext_getElem? fun b => ?_
  rw [getElem?_foldl_writeAt hsize hlen _ fun i hi => ?_]
  · split_ifs with hmem
    · rfl
    rcases Nat.lt_or_ge b (n * w * size) with hb | hb
    · -- the piece is one that was right
      have hdiv : b / size < n * w := Nat.div_lt_of_lt_mul (by rwa [Nat.mul_comm])
      have hw : 0 < w := Nat.pos_of_ne_zero fun h0 => by simp [h0] at hdiv
      have hs : b / size / w < n := Nat.div_lt_of_lt_mul (by rwa [Nat.mul_comm])
      have hi : b / size % w < w := Nat.mod_lt _ hw
      have hidx : b / size / w * w + b / size % w = b / size := by
        rw [Nat.mul_comm]
        exact Nat.div_add_mod _ _
      refine getElem?_eq_of_slice hsize rfl ?_
      have hpiece := hgood _ hs _ hi fun hin => hmem ?_
      · rwa [hidx] at hpiece
      · refine mem_flatMap.mpr ⟨_, mem_range.mpr hs, mem_map.mpr ⟨_, hin, hidx⟩⟩
    · have hbyte := congrArg (·[b - n * w * size]?) htail
      simpa only [getElem?_drop, Nat.add_sub_cancel' hb] using hbyte
  · obtain ⟨s, hs, hi⟩ := mem_flatMap.mp hi
    obtain ⟨j, hj, rfl⟩ := mem_map.mp hi
    have hs := mem_range.mp hs
    exact (Nat.mul_le_mul_right _ (index_lt hs (hbad s hs j hj))).trans hn

lemma slice_append_replicate {size offset extra : ℕ} (l : List α) (d : α)
    (h : offset + size ≤ l.length + extra) :
    ((l ++ List.replicate extra d).drop offset).take size =
      (l.drop offset).take size ++
        List.replicate (size - ((l.drop offset).take size).length) d := by
  rw [drop_append, take_append, drop_replicate, take_replicate, length_take, length_drop]
  congr 2
  omega

end OceanFs.Lib.Slices
