import OceanFs.Durability.Healing

/-!
Healing of a data section that is a code word.

The heal worker decodes all the listed shards at once, and then writes the segment back once for
each of them: every time the section as it was read, with one shard put in. What is left is the
last of these, in which the other shards are as damaged as before.
-/

namespace OceanFs.Durability.Healing

open OceanFs.Core Ec Lib Lib.Slices List Option

/-! ### Code words -/

/-- Data shards of one size. -/
structure CodeWord (k m : UInt8) where
  size : ℕ
  dataShards : List Bytes
  length_eq : dataShards.length = k.toNat
  size_eq : ∀ s ∈ dataShards, s.length = size

namespace CodeWord

variable {k m : UInt8} (w : CodeWord k m)

def shards : List Bytes := w.dataShards ++ parityShards k m w.dataShards w.size

/-- The data section: the data shards and their parity shards. -/
def bytes : Bytes := w.shards.flatten

lemma length_shards : w.shards.length = k.toNat + m.toNat := by
  rw [shards, length_append, w.length_eq, length_parityShards]

lemma shards_eq :
    w.shards = (List.range (k.toNat + m.toNat)).map (w.shards.getD · []) := by
  refine ext_getElem? fun i => ?_
  rcases Nat.lt_or_ge i (k.toNat + m.toNat) with hi | hi
  · simp [hi, getD_eq_getElem?_getD, w.length_shards]
  · rw [getElem?_eq_none (by rw [w.length_shards]; exact hi), getElem?_eq_none (by simpa using hi)]

lemma length_getD {i : ℕ} (hi : i < k.toNat + m.toNat) :
    (w.shards.getD i []).length = w.size :=
  length_codeword w.length_eq w.size_eq hi

lemma length_bytes : w.bytes.length = (k.toNat + m.toNat) * w.size := by
  rw [bytes, w.shards_eq]
  exact length_flatten_range fun i hi => w.length_getD hi

lemma piece_bytes {i : ℕ} (hi : i < k.toNat + m.toNat) :
    piece w.size w.bytes i = w.shards.getD i [] := by
  rw [piece, bytes, w.shards_eq]
  simpa [hi, getD_eq_getElem?_getD] using
    slice_flatten (fun i hi => w.length_getD hi) hi

lemma map_piece_bytes :
    (List.range k.toNat).map (piece w.size w.bytes) = w.dataShards := by
  refine ext_getElem? fun i => ?_
  rcases Nat.lt_or_ge i k.toNat with hi | hi
  · have hget : w.shards[i]? = w.dataShards[i]? :=
      getElem?_append_left (by rw [w.length_eq]; exact hi)
    rw [getElem?_map, getElem?_range hi, map_some, w.piece_bytes (by omega),
      getD_eq_getElem?_getD, hget, getElem?_eq_getElem (by rw [w.length_eq]; exact hi),
      getD_some]
  · rw [getElem?_eq_none (by simpa using hi), getElem?_eq_none (by rw [w.length_eq]; exact hi)]

end CodeWord

/-- Damage in at most `m` data shards, and the list of exactly the damaged ones. -/
structure ShardDamage {k m : UInt8} (w : CodeWord k m) (damaged : Bytes) (indices : List ℕ) :
    Prop where
  length_eq : damaged.length = w.bytes.length
  listed : ∀ i, i ∈ indices ↔
    i < k.toNat + m.toNat ∧ piece w.size damaged i ≠ piece w.size w.bytes i
  data : ∀ i ∈ indices, i < k.toNat
  few : ((List.range (k.toNat + m.toNat)).filter (· ∈ indices)).length ≤ m.toNat

namespace ShardDamage

variable {k m : UInt8} {w : CodeWord k m} {damaged : Bytes} {indices : List ℕ}

lemma pieceSize_eq (h : ShardDamage w damaged indices) (hpos : 0 < k.toNat + m.toNat) :
    pieceSize k m damaged = w.size := by
  rw [pieceSize, h.length_eq, w.length_bytes, Nat.mul_div_cancel_left _ hpos]

lemma getElem?_eq (h : ShardDamage w damaged indices) {b : ℕ} (hb : b / w.size ∉ indices) :
    damaged[b]? = w.bytes[b]? := by
  rcases Nat.lt_or_ge b ((k.toNat + m.toNat) * w.size) with hlt | hge
  · have hsize : 0 < w.size := Nat.pos_of_ne_zero fun h0 => by simp [h0] at hlt
    have hi : b / w.size < k.toNat + m.toNat := (Nat.div_lt_iff_lt_mul hsize).mpr hlt
    have hpiece : piece w.size damaged (b / w.size) = piece w.size w.bytes (b / w.size) := by
      by_contra hne
      exact hb ((h.listed _).mpr ⟨hi, hne⟩)
    have hmod : b % w.size < w.size := Nat.mod_lt _ hsize
    rw [← Nat.div_add_mod' b w.size, ← getElem?_piece hmod, hpiece, getElem?_piece hmod]
  · rw [getElem?_eq_none (by rw [h.length_eq, w.length_bytes]; exact hge),
      getElem?_eq_none (by rw [w.length_bytes]; exact hge)]

lemma eq_of_nil (h : ShardDamage w damaged []) : damaged = w.bytes :=
  ext_getElem? fun _ => h.getElem?_eq (by simp)

lemma size_pos (h : ShardDamage w damaged indices) {i : ℕ} (hi : i ∈ indices) : 0 < w.size := by
  refine Nat.pos_of_ne_zero fun h0 => ((h.listed i).mp hi).2 ?_
  simp [piece, h0]

lemma getD_shards (h : ShardDamage w damaged indices) {j : ℕ}
    (hj : j ∈ ((List.range (k.toNat + m.toNat)).filter (· ∉ indices)).take k.toNat) :
    w.shards.getD j [] = piece w.size damaged j := by
  obtain ⟨hrange, hnot⟩ := mem_filter.mp (mem_of_mem_take hj)
  have hlt := mem_range.mp hrange
  rw [← w.piece_bytes hlt]
  by_contra hne
  exact of_decide_eq_true hnot ((h.listed j).mpr ⟨hlt, Ne.symm hne⟩)

end ShardDamage

/-! ### Heals of a damaged code word -/

section

variable {env : Env} {w : CodeWord env.k env.m} {damaged : Bytes} {indices : List ℕ} {s : St}
  {io : HealIo}

lemma heal_ok (h : (heal env io indices s).2 = true) :
    io.readOk = true ∧ io.performed (executeHeal env.k env.m (s.data.getD []) io.remote
        indices).writes = (executeHeal env.k env.m (s.data.getD []) io.remote indices).writes ∧
      ∃ n, (executeHeal env.k env.m (s.data.getD []) io.remote indices).result = .ok n := by
  unfold heal at h
  by_cases hread : io.readOk = true
  · simp only [hread, Bool.not_true, Bool.false_eq_true, if_false] at h
    split at h
    · cases h
    · rename_i hall
      cases hresult : (executeHeal env.k env.m (s.data.getD []) io.remote indices).result with
      | error e =>
        rw [hresult] at h
        cases h
      | ok n => exact ⟨hread, performed_eq_of_length hall, n, rfl⟩
  · simp [hread] at h

section

variable (h : ShardDamage w damaged indices)

include h

lemma ShardDamage.writtenShards_eq {data : Bytes} (hsize : 0 < pieceSize env.k env.m data) :
    writtenShards env data indices = indices := by
  have hdata : ∀ i ∈ indices, i < env.k.toNat := h.data
  rw [writtenShards, if_neg hsize.ne', filter_eq_self.mpr, takeWhile_eq_self_iff.mpr]
  · simpa using hdata
  · intro i hi
    have := hdata i hi
    simp
    omega

lemma ShardDamage.not_stops (h255 : env.k.toNat + env.m.toNat ≤ 255) (hk : env.k ≠ 0) :
    ¬Stops env damaged indices := by
  have hpos := toNat_pos hk
  rintro (h0 | h256 | ⟨hsize, hne⟩ | hmany)
  · exact hk h0
  · omega
  · rw [h.pieceSize_eq (by omega)] at hsize
    refine hne (eq_nil_of_length_eq_zero ?_)
    rw [h.length_eq, w.length_bytes, hsize, Nat.mul_zero]
  · exact absurd h.few (Nat.not_le.mpr hmany)

lemma ShardDamage.leavesOriginal (hs : s.data = some damaged)
    (hone : ∀ i ∈ indices, ∀ j ∈ indices, i = j)
    (hall : io.performed (writtenShards env (fullData s io) indices) =
      writtenShards env (fullData s io) indices) :
    LeavesOriginal env w.bytes s io indices := by
  rw [LeavesOriginal, hall]
  rcases eq_nil_or_concat indices with rfl | ⟨rest, i, rfl⟩
  · have hnone : writtenShards env (fullData s io) [] = [] := by simp [writtenShards]
    rw [hnone, hs, h.eq_of_nil]
    rfl
  have hi : i ∈ rest.concat i := by simp
  have hsize := h.size_pos hi
  have hk : i < env.k.toNat := h.data i hi
  have hpiece : pieceSize env.k env.m damaged = w.size := h.pieceSize_eq (by omega)
  have hne : damaged ≠ [] := by
    rintro rfl
    have hlen := h.length_eq
    rw [w.length_bytes, length_nil] at hlen
    exact absurd hlen.symm (Nat.mul_pos (by omega) hsize).ne'
  have hfull : fullData s io = damaged := by simp [fullData, hs, hne]
  rw [hfull, h.writtenShards_eq (hpiece.symm ▸ hsize), concat_eq_append, getLast?_concat]
  refine ⟨h.length_eq, fun b _ hb => h.getElem?_eq fun hmem => hb ?_, fun j hj => ?_⟩
  · rw [hpiece]
    exact hone _ hmem i hi
  · rw [hpiece, w.map_piece_bytes]
    exact h.getD_shards (by simpa using hj)

lemma ShardDamage.heal_eq (hs : s.data = some damaged) (h255 : env.k.toNat + env.m.toNat ≤ 255)
    {i : ℕ} (hlast : indices.getLast? = some i) :
    (heal env ⟨true, none, none, true⟩ indices s).2 = true ∧
      (heal env ⟨true, none, none, true⟩ indices s).1.data =
        some (splice w.size damaged i (w.shards.getD i [])) := by
  have hi := mem_of_getLast? hlast
  have hk : i < env.k.toNat := h.data i hi
  have hk0 : env.k ≠ 0 := by
    rintro h0
    simp [h0] at hk
  have hpiece : pieceSize env.k env.m damaged = w.size := h.pieceSize_eq (by omega)
  have hdata : damaged = if damaged = [] then (none : Option Bytes).getD [] else damaged := by
    split_ifs with hnil
    · exact hnil
    · rfl
  obtain ⟨recovered, hwrites, hresult, hunique⟩ :=
    executeHeal_spec hdata (h.not_stops h255 hk0)
  rw [h.writtenShards_eq (hpiece.symm ▸ h.size_pos hi), hpiece] at hwrites
  have hrec : recovered = w.dataShards := by
    refine hunique w.dataShards ⟨w.length_eq, fun x hx => ?_, fun j hj => ?_⟩
    · rw [hpiece]
      exact w.size_eq x hx
    · rw [hpiece]
      exact h.getD_shards hj
  have hshard : recovered.getD i [] = w.shards.getD i [] := by
    rw [hrec, CodeWord.shards, getD_append _ _ _ _ (by rw [w.length_eq]; exact hk)]
  obtain ⟨n, hn⟩ := hresult.mpr fun j hj _ => h.data j hj
  unfold heal
  simp only [hs, getD_some, HealIo.performed, hn, hwrites, getLast?_map, hlast,
    map_some, hshard, Bool.not_true, Bool.false_eq_true, if_false, if_true, lt_irrefl,
    some_or, and_self]

end

/-- **A heal restores a code word** exactly when one shard at most is damaged. -/
theorem heal_restores_iff (env : Env) (h255 : env.k.toNat + env.m.toNat ≤ 255)
    (w : CodeWord env.k env.m) (damaged : Bytes) (indices : List ℕ)
    (h : ShardDamage w damaged indices) (s : St) (hs : s.data = some damaged) :
    (∀ io, (heal env io indices s).2 = true → (heal env io indices s).1.data = some w.bytes) ↔
      ∀ i ∈ indices, ∀ j ∈ indices, i = j := by
  constructor
  · intro hall
    rcases eq_nil_or_concat indices with rfl | ⟨rest, l, rfl⟩
    · simp
    obtain ⟨hok, hdata⟩ :=
      @ShardDamage.heal_eq env w damaged (rest.concat l) s h hs h255 l (by simp)
    have heq := some.inj (hdata.symm.trans (hall _ hok))
    -- every other shard is as it was read
    suffices hl : ∀ i ∈ rest.concat l, i = l from fun i hi j hj => (hl i hi).trans (hl j hj).symm
    intro i hi
    by_contra hne
    refine ((h.listed i).mp hi).2 ?_
    rw [← heq]
    refine (piece_congr fun b hb => ?_).symm
    have hlk : l < env.k.toNat := h.data l (by simp)
    have hend : (l + 1) * w.size ≤ damaged.length := by
      rw [h.length_eq, w.length_bytes]
      exact Nat.mul_le_mul_right _ (by omega)
    rw [getElem?_splice (w.length_getD (by omega)) hend, if_neg]
    intro hin
    have hdiv := (div_eq_iff_mem (h.size_pos hi)).mpr hin
    rw [(div_eq_iff_mem (h.size_pos hi)).mpr ⟨Nat.le_add_right _ b, by omega⟩] at hdiv
    exact hne hdiv
  · intro hone io hok
    obtain ⟨hread, hperformed, n, hn⟩ := heal_ok hok
    have hstops : ¬Stops env (fullData s io) indices := by
      intro hstops
      obtain ⟨e, he⟩ := executeHeal_of_stops hstops
      rw [he] at hn
      cases hn
    obtain ⟨recovered, hwrites, -⟩ :=
      @executeHeal_spec env (fullData s io) indices (s.data.getD []) io.remote rfl hstops
    refine heal_original hread hstops (h.leavesOriginal hs hone (performed_eq_of_length ?_))
    rw [hwrites, performed_map] at hperformed
    have hlength := congrArg List.length hperformed
    rw [length_map, length_map] at hlength
    omega

end

/-! ### Two data shards of one byte -/

def twoAndTwo : Env := ⟨prefixHash, 2, 2, 8, 3⟩

def oneByteShards : CodeWord twoAndTwo.k twoAndTwo.m where
  size := 1
  dataShards := [[1], [2]]
  length_eq := rfl
  size_eq := by simp

/-- The shards in which a data section differs from the code word. -/
def differing {k m : UInt8} (w : CodeWord k m) (damaged : Bytes) : List ℕ :=
  (List.range (k.toNat + m.toNat)).filter fun i => piece w.size damaged i ≠ piece w.size w.bytes i

lemma shardDamage_differing {k m : UInt8} {w : CodeWord k m} {damaged : Bytes}
    (hlen : damaged.length = w.bytes.length) (hdata : ∀ i ∈ differing w damaged, i < k.toNat)
    (hfew : (differing w damaged).length ≤ m.toNat) :
    ShardDamage w damaged (differing w damaged) where
  length_eq := hlen
  listed i := by simp [differing]
  data := hdata
  few := by
    have hsame : (List.range (k.toNat + m.toNat)).filter (· ∈ differing w damaged) =
        differing w damaged := by
      refine filter_congr fun i hi => ?_
      simp only [differing, mem_filter, hi, true_and, decide_eq_true_eq]
    rw [hsame]
    exact hfew

lemma bytes_oneByteShards : oneByteShards.bytes = [1, 2, 140, 83] := by decide +kernel

/-- The first of the shards is damaged, and healed. -/
theorem one_shard_healed :
    ShardDamage oneByteShards (9 :: oneByteShards.bytes.tail) [0] ∧
      (heal twoAndTwo ⟨true, none, none, true⟩ [0]
        ⟨some (9 :: oneByteShards.bytes.tail), none, []⟩).1.data = some oneByteShards.bytes := by
  have hlist : differing oneByteShards (9 :: oneByteShards.bytes.tail) = [0] := by
    rw [differing, bytes_oneByteShards]
    decide
  have hdamage : ShardDamage oneByteShards (9 :: oneByteShards.bytes.tail) [0] := by
    rw [← hlist]
    refine shardDamage_differing (by rw [bytes_oneByteShards]; rfl) ?_ ?_
    all_goals
      rw [hlist]
      decide
  refine ⟨hdamage, ?_⟩
  have hok : (heal twoAndTwo ⟨true, none, none, true⟩ [0]
      ⟨some (9 :: oneByteShards.bytes.tail), none, []⟩).2 = true := by
    rw [bytes_oneByteShards]
    decide +kernel
  exact (heal_restores_iff twoAndTwo (by decide) oneByteShards _ [0] hdamage _ rfl).mpr (by simp) _
    hok

/-- **Both data shards are damaged**: the heal succeeds and the first one is as damaged as
before. -/
theorem first_shard_left_damaged :
    ShardDamage oneByteShards (9 :: 9 :: oneByteShards.bytes.tail.tail) [0, 1] ∧
      (heal twoAndTwo ⟨true, none, none, true⟩ [0, 1]
        ⟨some (9 :: 9 :: oneByteShards.bytes.tail.tail), none, []⟩).2 = true ∧
      (heal twoAndTwo ⟨true, none, none, true⟩ [0, 1]
        ⟨some (9 :: 9 :: oneByteShards.bytes.tail.tail), none, []⟩).1.data =
          some (9 :: oneByteShards.bytes.tail) := by
  constructor
  · have hlist : differing oneByteShards (9 :: 9 :: oneByteShards.bytes.tail.tail) = [0, 1] := by
      rw [differing, bytes_oneByteShards]
      decide
    rw [← hlist]
    refine shardDamage_differing (by rw [bytes_oneByteShards]; rfl) ?_ ?_
    all_goals
      rw [hlist]
      decide
  · rw [bytes_oneByteShards]
    decide +kernel

end OceanFs.Durability.Healing
