import Mathlib.Data.Finset.Max
import OceanFs.Lib.Lists
import OceanFs.Metadata.Keys
import OceanFs.Metadata.SyncApply

/-!
Rebuilding the metadata of a key from the rows that peers stream.

A streamed row is dropped when the store has a tombstone or a row that is as new. A streamed
tombstone is compared with the row only: it replaces a newer tombstone, and loses to a row of its
own timestamp, which it would have kept out had it come first. What kind of record it is comes from
its key, so the tombstone of an object whose key looks like that of a supersede record leaves the
row alone.
-/

namespace OceanFs.Metadata

open OceanFs.Core Lib Metadata.Keys Option

/-- The key of the object is read as that of a supersede record. -/
def Keys.Name.misread (n : Name) : Bool :=
  match decodeDeletionsKey (encodeObjectKey n.bucket n.key) with
  | some (.supersede _ _) => true
  | _ => false

namespace KeyState

/-- `rebuild_apply_object_row`; a value that cannot be decoded is skipped. -/
def rebuildApplyObjectRow (s : KeyState) (value : Option ObjectMetadata) : KeyState × Bool :=
  match value with
  | none => (s, false)
  | some m =>
    if s.tombstone.any (fun t => m.hlc ≤ t.hlc) then (s, false)
    else if s.row.any (fun row => m.hlc ≤ row.hlc) then (s, false)
    else ({ s with row := some m, tombstone := none }, true)

/-- `rebuild_apply_deletion_row`, for the tombstone of the object or its record of a version. What
is read as a supersede record is stored as it is. -/
def rebuildApplyDeletionRow (n : Name) (s : KeyState) (version : Option Hlc)
    (value : Option Tombstone) : KeyState × Bool :=
  match value, version with
  | none, _ => (s, false)
  | some t, some version =>
    ({ s with supersedes := Function.update s.supersedes version (some t) }, true)
  | some t, none =>
    if n.misread then ({ s with tombstone := some t }, true)
    else if s.row.any (fun row => t.hlc ≤ row.hlc) then (s, false)
    else ({ s with row := none, tombstone := some t }, true)

/-- One streamed record. -/
def rebuildApply (n : Name) (s : KeyState) : Pulled → KeyState
  | .object m => (s.rebuildApplyObjectRow (some m)).1
  | .tombstone t => (s.rebuildApplyDeletionRow n none (some t)).1

def rebuild (n : Name) (records : List Pulled) : KeyState := records.foldl (rebuildApply n) empty

end KeyState

/-- Every order ends in the same logical state, and in none is a row live that is not newer than
every tombstone. -/
def RebuildConverges (n : Name) (records : Multiset Pulled) : Prop :=
  (∀ first second : List Pulled, ↑first = records → ↑second = records →
    (KeyState.rebuild n first).logical = (KeyState.rebuild n second).logical) ∧
  ∀ order : List Pulled, ↑order = records → ∀ m ∈ (KeyState.rebuild n order).row,
    ∀ t, .tombstone t ∈ records → t.hlc < m.hlc

/-- There is nothing, or one logical record is newer than all others; and if that is a tombstone,
there is no older one, and no row if the key is misread. -/
def OneNewest (n : Name) (records : Multiset Pulled) : Prop :=
  records = 0 ∨ ∃ top ∈ records,
    (∀ d ∈ records, d.logical.hlc < top.logical.hlc ∨ d.logical = top.logical) ∧
    ∀ t, top = .tombstone t → (∀ t', .tombstone t' ∈ records → t'.hlc = t.hlc) ∧
      (n.misread = true → ∀ m, .object m ∉ records)

namespace KeyState

variable {n : Name} {s : KeyState} {m row : ObjectMetadata} {t : Tombstone} {h : Hlc}

lemma row_rebuildApply_tombstone (s : KeyState) (t : Tombstone) (hn : n.misread = true) :
    (s.rebuildApply n (.tombstone t)).row = s.row := by
  rw [rebuildApply, rebuildApplyDeletionRow, if_pos hn]

lemma rebuildApply_of_row (hrow : s.row = some row) {d : Pulled} (hd : d.logical.hlc ≤ row.hlc) :
    (s.rebuildApply n d).row = some row := by
  cases d with
  | object m =>
    have hle : m.hlc ≤ row.hlc := hd
    simp [rebuildApply, rebuildApplyObjectRow, hrow, hle]
  | tombstone t =>
    have hle : t.hlc ≤ row.hlc := hd
    by_cases hn : n.misread = true
    · rw [row_rebuildApply_tombstone s t hn, hrow]
    · simp [rebuildApply, rebuildApplyDeletionRow, hrow, hle, hn]

lemma rebuild_of_row {records : List Pulled} (hrow : s.row = some row)
    (hle : ∀ d ∈ records, d.logical.hlc ≤ row.hlc) :
    (records.foldl (rebuildApply n) s).row = some row := by
  induction records generalizing s with
  | nil => exact hrow
  | cons d records ih =>
    obtain ⟨hd, hrest⟩ := List.forall_mem_cons.mp hle
    exact ih (rebuildApply_of_row hrow hd) hrest

/-- What the key has is older. -/
def Below (s : KeyState) (h : Hlc) : Prop :=
  (∀ row ∈ s.row, row.hlc < h) ∧ ∀ t ∈ s.tombstone, t.hlc < h

lemma Below.apply_older {d : Pulled} (hs : s.Below h) (hd : d.logical.hlc < h) :
    (s.rebuildApply n d).Below h := by
  cases d with
  | object m =>
    simp only [rebuildApply, rebuildApplyObjectRow]
    split_ifs
    · exact hs
    · exact hs
    · exact ⟨fun row hrow => some.inj hrow ▸ hd, nofun⟩
  | tombstone t =>
    simp only [rebuildApply, rebuildApplyDeletionRow]
    split_ifs
    · exact ⟨hs.1, fun t' ht' => some.inj ht' ▸ hd⟩
    · exact hs
    · exact ⟨nofun, fun t' ht' => some.inj ht' ▸ hd⟩

lemma not_any_le {α : Type*} {o : Option α} {hlc : α → Hlc} (ho : ∀ x ∈ o, hlc x < h) :
    ¬ o.any (fun x => h ≤ hlc x) = true := by
  rw [any_eq_true]
  rintro ⟨x, hx, hle⟩
  exact absurd (ho x hx) (not_lt.mpr (of_decide_eq_true hle))

lemma Below.apply_newer {d : Pulled} (hs : s.Below d.logical.hlc)
    (hrow : n.misread = true → ∀ t, d = .tombstone t → s.row = none) :
    (s.rebuildApply n d).logical = some d.logical := by
  cases d with
  | object m =>
    have hrow : ¬ s.row.any (fun row => m.hlc ≤ row.hlc) = true := not_any_le hs.1
    have htomb : ¬ s.tombstone.any (fun t => m.hlc ≤ t.hlc) = true := not_any_le hs.2
    rw [rebuildApply, rebuildApplyObjectRow, if_neg htomb, if_neg hrow]
    rfl
  | tombstone t =>
    have hany : ¬ s.row.any (fun row => t.hlc ≤ row.hlc) = true := not_any_le hs.1
    rw [rebuildApply, rebuildApplyDeletionRow, if_neg hany]
    split_ifs with hn
    · simp [logical, hrow hn t rfl, Pulled.logical]
    · rfl

/-- Once the key has the newest row, or a tombstone that no row is as new as and whose timestamp
all tombstones have, its logical state stays. -/
lemma logical_apply_of_top {top : Logical} {d : Pulled} (hs : s.logical = some top)
    (hd : d.logical.hlc < top.hlc ∨ d.logical = top)
    (htomb : ∀ h, top = .deleted h → ∀ t, d = .tombstone t → t.hlc = h) :
    (s.rebuildApply n d).logical = some top := by
  have hle : d.logical.hlc ≤ top.hlc := hd.elim le_of_lt fun heq => (congrArg _ heq).le
  rcases hrow : s.row with _ | row
  · rcases ht : s.tombstone with _ | tomb
    · simp [logical, hrow, ht] at hs
    · obtain rfl : logicalOfTombstone tomb = top := by simpa [logical, hrow, ht] using hs
      cases d with
      | object m =>
        have hany : s.tombstone.any (fun t => m.hlc ≤ t.hlc) = true := by
          rw [ht]
          exact decide_eq_true hle
        rw [rebuildApply, rebuildApplyObjectRow, if_pos hany]
        exact hs
      | tombstone t =>
        have hany : ¬ s.row.any (fun row => t.hlc ≤ row.hlc) = true := by simp [hrow]
        rw [rebuildApply, rebuildApplyDeletionRow, if_neg hany]
        have hdeleted := congrArg Logical.deleted (htomb _ rfl t rfl)
        split_ifs <;> simpa [logical, hrow, logicalOfTombstone] using hdeleted
  · obtain rfl : logicalOfRow row = top := by simpa [logical, hrow] using hs
    rw [logical, rebuildApply_of_row hrow hle]

lemma logical_rebuild {records : List Pulled} {top : Pulled} (htop : top ∈ records)
    (hnewest : ∀ d ∈ records, d.logical.hlc < top.logical.hlc ∨ d.logical = top.logical)
    (htomb : ∀ t, top = .tombstone t → (∀ t', .tombstone t' ∈ records → t'.hlc = t.hlc) ∧
      (n.misread = true → ∀ m, .object m ∉ records)) :
    (rebuild n records).logical = some top.logical := by
  have hsame : ∀ t, top = .tombstone t → n.misread = true → ∀ d ∈ records, ∀ s : KeyState,
      s.row = none → (s.rebuildApply n d).row = none := by
    intro t ht hn d hd s hs
    cases d with
    | object m => exact absurd hd ((htomb t ht).2 hn m)
    | tombstone t' => rw [row_rebuildApply_tombstone s t' hn, hs]
  have hkind : ∀ d : Pulled, d.logical = top.logical → ∀ t, d = .tombstone t →
      ∃ t', top = .tombstone t' := by
    rintro d hd t rfl
    cases top with
    | object m => simp [Pulled.logical, logicalOfRow, logicalOfTombstone] at hd
    | tombstone t' => exact ⟨t', rfl⟩
  refine @Lists.foldl_reaches _ _ _ (fun s : KeyState => s.Below top.logical.hlc ∧
      ∀ t, top = .tombstone t → n.misread = true → s.row = none)
    (fun s => s.logical = some top.logical) (fun d => d.logical = top.logical) _
    ?_ ?_ ?_ empty ⟨by simp [Below, empty], fun _ _ _ => rfl⟩ ⟨top, htop, rfl⟩
  · rintro s d hd ⟨hs, hnone⟩
    rcases hnewest d hd with hlt | heq
    · exact .inl ⟨hs.apply_older hlt, fun t ht hn => hsame t ht hn d hd s (hnone t ht hn)⟩
    · rw [← heq] at hs
      refine .inr (heq ▸ hs.apply_newer fun hn t ht => ?_)
      obtain ⟨t', ht'⟩ := hkind d heq t ht
      exact hnone t' ht' hn
  · rintro s d hd ⟨hs, hnone⟩ heq
    rw [← heq] at hs
    refine heq ▸ hs.apply_newer fun hn t ht => ?_
    obtain ⟨t', ht'⟩ := hkind d heq t ht
    exact hnone t' ht' hn
  · intro s d hd hs
    refine logical_apply_of_top hs (hnewest d hd) fun h hh t ht => ?_
    cases top with
    | object m => simp [Pulled.logical, logicalOfRow] at hh
    | tombstone t' =>
      obtain rfl : t'.hlc = h := by simpa [Pulled.logical, logicalOfTombstone] using hh
      exact (htomb t' rfl).1 t (ht ▸ hd)

end KeyState

section

variable {n : Name} {m : ObjectMetadata} {t t' : Tombstone} {records : List Pulled}

lemma row_rebuild_cons (hle : ∀ d ∈ records, d.logical.hlc ≤ m.hlc) :
    (KeyState.rebuild n (.object m :: records)).row = some m := by
  rw [KeyState.rebuild, List.foldl_cons]
  exact KeyState.rebuild_of_row rfl hle

lemma mem_of_row_rebuild (h : (KeyState.rebuild n records).row = some m) :
    .object m ∈ records := by
  let val : Pulled → Option ObjectMetadata
    | .object m => some m
    | .tombstone _ => none
  have hstep : ∀ (s : KeyState) (d : Pulled),
      (s.rebuildApply n d).row = s.row ∨ (s.rebuildApply n d).row = val d := by
    rintro s (m | t)
    · simp only [KeyState.rebuildApply, KeyState.rebuildApplyObjectRow]
      split_ifs <;> simp [val]
    · simp only [KeyState.rebuildApply, KeyState.rebuildApplyDeletionRow]
      split_ifs <;> simp [val]
  rcases MaxRegister.obs_foldl hstep KeyState.empty records with hnone | ⟨d, hd, hval⟩
  · exact absurd (hnone.symm.trans h) nofun
  · cases d with
    | object m' => exact some.inj (hval.symm.trans h) ▸ hd
    | tombstone t => exact absurd (hval.symm.trans h) nofun

/-- A misread tombstone never removes the row. -/
lemma row_rebuild_of_misread (hn : n.misread = true) (m : ObjectMetadata) (records : List Pulled) :
    ∃ m', (KeyState.rebuild n (.object m :: records)).row = some m' := by
  suffices h : ∀ s : KeyState, s.row ≠ none →
      (records.foldl (KeyState.rebuildApply n) s).row ≠ none from
    ne_none_iff_exists'.mp (h _ nofun)
  induction records with
  | nil => exact fun _ hs => hs
  | cons d records ih =>
    refine fun s hs => ih _ ?_
    cases d with
    | object m =>
      simp only [KeyState.rebuildApply, KeyState.rebuildApplyObjectRow]
      split_ifs <;> simp [hs]
    | tombstone t => rwa [KeyState.row_rebuildApply_tombstone s t hn]

lemma logical_rebuildApply_tombstone {s : KeyState} (hrow : s.row = none) (t : Tombstone) :
    (s.rebuildApply n (.tombstone t)).logical = some (.deleted t.hlc) ∧
      (s.rebuildApply n (.tombstone t)).row = none := by
  rw [KeyState.rebuildApply, KeyState.rebuildApplyDeletionRow]
  split_ifs with hn hany
  · simp [KeyState.logical, hrow, logicalOfTombstone]
  · simp [hrow] at hany
  · exact ⟨rfl, rfl⟩

lemma row_rebuild_snoc (hlt : ∀ m, .object m ∈ records → m.hlc < t.hlc)
    (hn : n.misread = true → ∀ m, .object m ∉ records) :
    (KeyState.rebuild n (records ++ [.tombstone t])).logical = some (.deleted t.hlc) ∧
      (KeyState.rebuild n (records ++ [.tombstone t])).row = none := by
  rw [KeyState.rebuild, List.foldl_append, List.foldl_cons, List.foldl_nil, ← KeyState.rebuild]
  by_cases hmis : n.misread = true
  · refine logical_rebuildApply_tombstone ?_ t
    rw [eq_none_iff_forall_ne_some]
    exact fun m hm => hn hmis m (mem_of_row_rebuild hm)
  · rw [KeyState.rebuildApply, KeyState.rebuildApplyDeletionRow, if_neg hmis, if_neg]
    · exact ⟨rfl, rfl⟩
    · exact KeyState.not_any_le fun m hm => hlt m (mem_of_row_rebuild hm)

lemma logical_rebuild_snoc_snoc (hlt : ∀ m, .object m ∈ records → m.hlc < t.hlc)
    (hn : n.misread = true → ∀ m, .object m ∉ records) :
    (KeyState.rebuild n (records ++ [.tombstone t] ++ [.tombstone t'])).logical =
      some (.deleted t'.hlc) := by
  rw [KeyState.rebuild, List.foldl_append, List.foldl_cons, List.foldl_nil, ← KeyState.rebuild]
  exact (logical_rebuildApply_tombstone (row_rebuild_snoc hlt hn).2 t').1

end

variable {n : Name}

lemma oneNewest_of_row {records : Multiset Pulled} {m : ObjectMetadata}
    (h : RebuildConverges n records) (hm : .object m ∈ records)
    (hmax : ∀ d ∈ records, d.logical.hlc ≤ m.hlc) : OneNewest n records := by
  have hfirst : ∀ m', .object m' ∈ records → m'.hlc = m.hlc →
      ∃ order : List Pulled, ↑order = records ∧ (KeyState.rebuild n order).row = some m' := by
    intro m' hm' heq
    obtain ⟨rest, hrest⟩ := Multiset.exists_cons_of_mem hm'
    refine ⟨.object m' :: rest.toList, by rw [hrest, ← Multiset.cons_coe, Multiset.coe_toList],
      row_rebuild_cons fun d hd => ?_⟩
    rw [heq]
    exact hmax d (hrest ▸ Multiset.mem_cons_of_mem (Multiset.mem_toList.mp hd))
  obtain ⟨order, horder, hrow⟩ := hfirst m hm rfl
  refine .inr ⟨.object m, hm, fun d hd => ?_, nofun⟩
  cases d with
  | object m' =>
    rcases (hmax _ hd).lt_or_eq with hlt | heq
    · exact .inl hlt
    · obtain ⟨order', horder', hrow'⟩ := hfirst m' hd heq
      have hsame := h.1 order' order horder' horder
      simp only [KeyState.logical, hrow, hrow', some.injEq] at hsame
      exact .inr hsame
  | tombstone t => exact .inl (h.2 order horder m hrow t hd)

lemma oneNewest_of_tombstone {records : Multiset Pulled} {t : Tombstone}
    (h : RebuildConverges n records) (ht : .tombstone t ∈ records)
    (hrows : ∀ m, .object m ∈ records → m.hlc < t.hlc) : OneNewest n records := by
  have hnone : n.misread = true → ∀ m, .object m ∉ records := by
    intro hn m hm
    obtain ⟨rest, rfl⟩ := Multiset.exists_cons_of_mem hm
    obtain ⟨m', hm'⟩ := row_rebuild_of_misread hn m rest.toList
    have horder : ((.object m :: rest.toList : List Pulled) : Multiset Pulled) =
        .object m ::ₘ rest := by
      rw [← Multiset.cons_coe, Multiset.coe_toList]
    have hin := mem_of_row_rebuild hm'
    refine (h.2 _ horder m' hm' t ht).not_gt (hrows m' ?_)
    rw [← horder]
    exact hin
  have hsame : ∀ t', .tombstone t' ∈ records → t'.hlc = t.hlc := by
    intro t' ht'
    rcases eq_or_ne t' t with rfl | hne
    · rfl
    obtain ⟨rest, rfl⟩ := Multiset.exists_cons_of_mem ht
    obtain ⟨rest, rfl⟩ := Multiset.exists_cons_of_mem
      ((Multiset.mem_cons.mp ht').resolve_left (by simpa using hne))
    have hlt : ∀ m, .object m ∈ rest.toList → m.hlc < t.hlc := fun m hm =>
      hrows m (by simpa using hm)
    have hrest : n.misread = true → ∀ m, .object m ∉ rest.toList := fun hn m hm =>
      hnone hn m (by simpa using hm)
    have hends := h.1 (rest.toList ++ [.tombstone t] ++ [.tombstone t'])
      (rest.toList ++ [.tombstone t'] ++ [.tombstone t]) (by
        rw [← Multiset.coe_add, ← Multiset.coe_add, Multiset.coe_toList, Multiset.coe_singleton,
          Multiset.coe_singleton, add_comm, Multiset.singleton_add, add_comm,
          Multiset.singleton_add, Multiset.cons_swap]) (by
        rw [← Multiset.coe_add, ← Multiset.coe_add, Multiset.coe_toList, Multiset.coe_singleton,
          Multiset.coe_singleton, add_comm, Multiset.singleton_add, add_comm,
          Multiset.singleton_add])
    rw [logical_rebuild_snoc_snoc hlt hrest,
      (row_rebuild_snoc (by simpa using hlt) (by simpa using hrest)).1] at hends
    simpa using hends
  refine .inr ⟨.tombstone t, ht, fun d hd => ?_, ?_⟩
  · cases d with
    | object m => exact .inl (hrows m hd)
    | tombstone t' => exact .inr (congrArg Logical.deleted (hsame t' hd))
  · rintro _ ⟨⟩
    exact ⟨hsame, hnone⟩

/-- **Metadata rebuild.** Every order of the streamed records ends in one logical state, without a
row that a tombstone should have removed, exactly when one record is newer than all others and,
if it is a tombstone, no other tombstone is older and there is no row under a misread key. -/
theorem rebuild_converges_iff (n : Name) (records : Multiset Pulled) :
    RebuildConverges n records ↔ OneNewest n records := by
  constructor
  · intro h
    rcases eq_or_ne records 0 with rfl | hne
    · exact .inl rfl
    obtain ⟨top, htop, hmax⟩ := Finset.exists_max_image records.toFinset
      (fun d => d.logical.hlc) (Multiset.toFinset_nonempty.mpr hne)
    simp only [Multiset.mem_toFinset] at htop hmax
    by_cases hrow : ∃ m, .object m ∈ records ∧ top.logical.hlc ≤ m.hlc
    · obtain ⟨m, hm, hle⟩ := hrow
      exact oneNewest_of_row h hm fun d hd => (hmax d hd).trans hle
    · push Not at hrow
      cases top with
      | object m => exact absurd le_rfl (hrow m htop).not_ge
      | tombstone t => exact oneNewest_of_tombstone h htop hrow
  · rintro (rfl | ⟨top, htop, hnewest, htomb⟩)
    · refine ⟨fun first second hfirst hsecond => ?_, fun order _ m hm t ht => ?_⟩
      · rw [Multiset.coe_eq_zero] at hfirst hsecond
        rw [hfirst, hsecond]
      · exact absurd ht (Multiset.notMem_zero _)
    · have hend : ∀ order : List Pulled, ↑order = records →
          (KeyState.rebuild n order).logical = some top.logical := by
        rintro order rfl
        exact KeyState.logical_rebuild htop hnewest htomb
      refine ⟨fun first second hfirst hsecond => ?_, fun order horder m hm t ht => ?_⟩
      · rw [hend first hfirst, hend second hsecond]
      · have hlogical := hend order horder
        rw [KeyState.logical, hm, some.injEq] at hlogical
        rcases hnewest _ ht with hlt | heq
        · rw [← hlogical] at hlt
          exact hlt
        · rw [← hlogical] at heq
          cases heq

/-- A tombstone, an older one of another peer and a row between the two: the older tombstone
replaces the newer, and then the row comes back. -/
theorem deleted_row_comes_back :
    ¬ RebuildConverges ⟨"photos", "cat"⟩ {.tombstone ⟨0, ⟨10, 0⟩, []⟩, .tombstone ⟨0, ⟨5, 0⟩, []⟩,
      .object ⟨"cat", 3, none, [⟨1, 0, 3, false, 3⟩], none, 0, ⟨7, 0⟩⟩} := by
  intro h
  have hlt := h.2 [.tombstone ⟨0, ⟨10, 0⟩, []⟩, .tombstone ⟨0, ⟨5, 0⟩, []⟩,
    .object ⟨"cat", 3, none, [⟨1, 0, 3, false, 3⟩], none, 0, ⟨7, 0⟩⟩] rfl
    ⟨"cat", 3, none, [⟨1, 0, 3, false, 3⟩], none, 0, ⟨7, 0⟩⟩ (by decide +kernel) ⟨0, ⟨10, 0⟩, []⟩
    (by decide)
  exact absurd hlt (by decide)

end OceanFs.Metadata
