import Mathlib.Data.Finset.Max
import OceanFs.Read.Coordinator

/-!
Which version survives a comparison.

A node starts from its own version and folds the versions of the others in as they arrive. The
resolver gets the node's own id as the holder of the version it keeps, also after another node's
version has taken its place.
-/

namespace OceanFs.Read

open OceanFs.Core Write Grpc List
open scoped List

/-- A version of a key: the node that holds it and its timestamp. -/
structure Version where
  node : NodeId
  hlc : Hlc
  deriving DecidableEq

namespace Version

/-- One answer of the comparison at `self`. -/
def foldIn (self : NodeId) (best v : Version) : Version :=
  if acceptRemote best.hlc v.hlc self v.node then v else best

/-- The version that survives where `own` is compared with the others, in the order of their
arrival. -/
def survivor (own : Version) (others : List Version) : Version :=
  others.foldl (foldIn own.node) own

/-! ### The comparison of the coordinator -/

/-- The versions that these nodes hold. -/
def versionsAt (w : World) (b : BucketId) (k : ObjectKey) (ts : List NodeId) : List Version :=
  ts.filterMap fun t => (w.keyAt t b k).row.map fun row => ⟨t, row.hlc⟩

/-- What the coordinator keeps for a version: nothing for its own. -/
def answer (w : World) (b : BucketId) (k : ObjectKey) (self : NodeId) (v : Version) :
    Option GetObjectMetadataResponse :=
  if v.node = self then none else some (getObjectMetadata (w.keyAt v.node b k))

variable {env : Env} {renv : ReadEnv} {b : BucketId} {k : ObjectKey}

lemma foldl_compareStep_eq {ts : List NodeId} {w : World} {best : Version} (hts : env.self ∉ ts) :
    (ts.foldl (compareStep env renv b k) (w, best.hlc, answer w b k env.self best)).2 =
      let v := (versionsAt w b k ts).foldl (foldIn env.self) best
      (v.hlc, answer w b k env.self v) := by
  induction ts generalizing w best with
  | nil => rfl
  | cons t ts ih =>
    obtain ⟨ht, hts⟩ := not_or.mp (mt mem_cons.mpr hts)
    have hsame : ∀ hlc v, answer (receive w env.self hlc renv.physical) b k env.self v =
        answer w b k env.self v := by simp [answer]
    have hversions : ∀ hlc, versionsAt (receive w env.self hlc renv.physical) b k ts =
        versionsAt w b k ts := by simp [versionsAt]
    rw [foldl_cons]
    cases hrow : (w.keyAt t b k).row with
    | none =>
      rw [compareStep_of_none hrow, ih hts]
      simp [versionsAt, hrow]
    | some row =>
      have hcons : versionsAt w b k (t :: ts) = ⟨t, row.hlc⟩ :: versionsAt w b k ts := by
        simp [versionsAt, hrow]
      rw [compareStep_of_some hrow, hcons, foldl_cons]
      have hstep := fun v => @ih (receive w env.self row.hlc renv.physical) v hts
      simp only [hsame, hversions] at hstep
      by_cases haccept : acceptRemote best.hlc row.hlc env.self t
      · have hanswer : answer w b k env.self ⟨t, row.hlc⟩ =
            some (getObjectMetadata (w.keyAt t b k)) := if_neg (Ne.symm ht)
        rw [if_pos haccept, ← hanswer, foldIn, if_pos haccept]
        exact hstep ⟨t, row.hlc⟩
      · rw [if_neg haccept, foldIn, if_neg haccept]
        exact hstep best

theorem compareWithQuorum_eq (localMeta : ObjectMetadata) (w : World) (hnet : renv.networked)
    (hlen : 1 < (env.replicaSet k).length) :
    (compareWithQuorum env renv b k localMeta w).2 =
      (answer w b k env.self (survivor ⟨env.self, localMeta.hlc⟩
        (versionsAt w b k (answering env k renv.arrivals)))).map
        fun resp => objectMetadataFromResponse resp k renv.nowMs := by
  have hself : env.self ∉ answering env k renv.arrivals := by simp [answering]
  have hfold := @foldl_compareStep_eq env renv b k _ w ⟨env.self, localMeta.hlc⟩ hself
  have hown : answer w b k env.self ⟨env.self, localMeta.hlc⟩ = none := if_pos rfl
  rw [hown] at hfold
  rw [compareWithQuorum, if_neg (by simp [hnet, hlen])]
  simp only [hfold]
  rfl

/-! ### The greatest version -/

/-- The timestamp, then the node. -/
def rank (v : Version) : Hlc ×ₗ NodeId := toLex (v.hlc, v.node)

lemma rank_le_iff {u v : Version} :
    u.rank ≤ v.rank ↔ u.hlc < v.hlc ∨ u.hlc = v.hlc ∧ u.node ≤ v.node :=
  Prod.Lex.le_iff

lemma hlc_le_of_rank_le {u v : Version} (h : u.rank ≤ v.rank) : u.hlc ≤ v.hlc :=
  (rank_le_iff.mp h).elim le_of_lt fun h => h.1.le

def Greatest (vs : List Version) (v : Version) : Prop := v ∈ vs ∧ ∀ u ∈ vs, u.rank ≤ v.rank

instance (vs : List Version) (v : Version) : Decidable (Greatest vs v) :=
  inferInstanceAs (Decidable (_ ∧ _))

/-- No version has a higher timestamp. -/
def Newest (vs : List Version) (v : Version) : Prop := v ∈ vs ∧ ∀ u ∈ vs, u.hlc ≤ v.hlc

instance (vs : List Version) (v : Version) : Decidable (Newest vs v) :=
  inferInstanceAs (Decidable (_ ∧ _))

/-- Where two nodes hold a newest version, no third one does, and the other nodes are between
the two. -/
def TiesApart (vs : List Version) : Prop :=
  ∀ x ∈ vs, ∀ y ∈ vs, Newest vs x → Newest vs y → x.node < y.node →
    ∀ z ∈ vs, z = x ∨ z = y ∨ (z.hlc < x.hlc ∧ x.node < z.node ∧ z.node < y.node)

instance (vs : List Version) : Decidable (TiesApart vs) :=
  inferInstanceAs (Decidable (∀ x ∈ vs, ∀ y ∈ vs, _))

variable {vs others : List Version} {own v g : Version}

lemma survivor_concat : survivor own (others ++ [v]) = foldIn own.node (survivor own others) v := by
  simp [survivor]

lemma survivor_mem : survivor own others ∈ own :: others := by
  induction others using List.reverseRecOn with
  | nil => exact mem_singleton_self _
  | append_singleton l v ih =>
    rw [survivor_concat, foldIn]
    split_ifs
    · simp
    · rw [← cons_append]
      exact mem_append_left _ ih

lemma newest_of_greatest (h : Greatest vs g) : Newest vs g :=
  ⟨h.1, fun u hu => hlc_le_of_rank_le (h.2 u hu)⟩

lemma Newest.hlc_eq {x y : Version} (hx : Newest vs x) (hy : Newest vs y) : x.hlc = y.hlc :=
  le_antisymm (hy.2 x hx.1) (hx.2 y hy.1)

lemma survivor_concat_of_lt (hperm : (own :: (others ++ [v])).Perm vs) (hv : Newest vs v)
    (hlt : own.node < v.node) : survivor own (others ++ [v]) = v := by
  have hmem : survivor own others ∈ vs := by
    refine hperm.subset ?_
    rw [← cons_append]
    exact mem_append_left _ survivor_mem
  rw [survivor_concat, foldIn, if_pos]
  rcases (hv.2 _ hmem).lt_or_eq with h | h
  · simp [acceptRemote, h]
  · simp [acceptRemote, h, hlt]

lemma survivor_concat_of_not_lt {x y : Version} (hold : ∀ u ∈ own :: others, u.hlc < x.hlc)
    (heq : y.hlc = x.hlc) (hnot : ¬own.node < y.node) : survivor own (others ++ [x, y]) = x := by
  have hx : survivor own (others ++ [x]) = x := by
    rw [survivor_concat, foldIn, if_pos]
    simp [acceptRemote, hold _ survivor_mem]
  rw [append_cons, survivor_concat, hx, foldIn, if_neg]
  simp [acceptRemote, heq, hnot]

/-- **The greatest version survives** where the ties are apart: it replaces what was kept before,
and nothing replaces it. -/
lemma survivor_eq_greatest (hties : TiesApart vs) (hnodup : (vs.map node).Nodup)
    (hg : Greatest vs g) (hown : own ∈ vs) (hothers : ∀ v ∈ others, v ∈ vs)
    (hmem : g ∈ own :: others) : survivor own others = g := by
  have hnode : ∀ u ∈ vs, u ≠ g → u.hlc = g.hlc → u.node < g.node := by
    intro u hu hne heq
    rcases rank_le_iff.mp (hg.2 u hu) with h | ⟨-, h⟩
    · exact absurd heq h.ne
    · exact lt_of_le_of_ne h fun h => hne (inj_on_of_nodup_map hnodup hu hg.1 h)
  induction others using List.reverseRecOn with
  | nil => exact (mem_singleton.mp hmem).symm
  | append_singleton l v ih =>
    have hl : ∀ v ∈ l, v ∈ vs := fun v hv => hothers v (mem_append_left _ hv)
    have hv : v ∈ vs := hothers v (by simp)
    have hbest : survivor own l ∈ vs :=
      (mem_cons.mp survivor_mem).elim (fun h => h ▸ hown) (hl _)
    rw [survivor_concat, foldIn]
    by_cases hvg : v = g
    · subst hvg
      split_ifs with haccept
      · rfl
      · -- what was kept is as new, and so is the comparing node's own or it lies below
        by_contra hne
        have heq : (survivor own l).hlc = v.hlc := by
          refine ((newest_of_greatest hg).2 _ hbest).eq_of_not_lt fun h => haccept ?_
          simp [acceptRemote, h]
        have hnewest : Newest vs (survivor own l) :=
          ⟨hbest, fun u hu => heq ▸ (newest_of_greatest hg).2 u hu⟩
        have hlt := hnode _ hbest hne heq
        have hownlt : own.node < v.node := by
          rcases hties _ hbest v hv hnewest (newest_of_greatest hg) hlt own hown with h | h | h
          · rwa [h]
          · exact absurd (ih hl (by simp [h])) hne
          · exact h.2.2
        exact haccept (by simp [acceptRemote, heq, hownlt])
    · have hkept : survivor own l = g := by
        refine ih hl ?_
        rw [← cons_append] at hmem
        exact (mem_append.mp hmem).resolve_right fun h => hvg (mem_singleton.mp h).symm
      rw [hkept, if_neg]
      intro haccept
      simp only [acceptRemote, Bool.or_eq_true, Bool.and_eq_true, decide_eq_true_eq] at haccept
      obtain ⟨heq, hlt⟩ :=
        haccept.resolve_left (not_lt.mpr ((newest_of_greatest hg).2 v hv))
      have hnewest : Newest vs v := ⟨hv, fun u hu => heq ▸ (newest_of_greatest hg).2 u hu⟩
      have hvlt := hnode v hv hvg heq
      rcases hties v hv g hg.1 hnewest (newest_of_greatest hg) hvlt own hown with h | h | h
      · exact absurd (h ▸ hlt) (lt_irrefl _)
      · exact absurd (h ▸ hlt) hvlt.asymm
      · exact absurd hlt h.2.1.asymm

lemma exists_greatest (hne : own ∈ vs) : ∃ g, Greatest vs g := by
  obtain ⟨g, hg, hmax⟩ := vs.toFinset.exists_max_image rank ⟨own, by simpa using hne⟩
  exact ⟨g, by simpa using hg, fun u hu => hmax u (by simpa using hu)⟩

/-- Every node finds the greatest version in every order of arrival. -/
def OneWinner (vs : List Version) : Prop :=
  ∀ own others, (own :: others).Perm vs → Greatest vs (survivor own others)

/-- Every newest version that has a node below it is the greatest, since that node may see it
last. -/
lemma OneWinner.greatest (h : OneWinner vs) (hown : own ∈ vs) (hv : Newest vs v)
    (hlt : own.node < v.node) : Greatest vs v := by
  have hne : v ≠ own := fun h => hlt.ne' (congrArg node h)
  have hperm : (own :: ((vs.erase own).erase v ++ [v])).Perm vs :=
    calc own :: ((vs.erase own).erase v ++ [v])
      _ ~ own :: v :: (vs.erase own).erase v := (perm_append_singleton _ _).cons _
      _ ~ own :: vs.erase own :=
        (perm_cons_erase ((mem_erase_of_ne hne).mpr hv.1)).symm.cons _
      _ ~ vs := (perm_cons_erase hown).symm
  rw [← survivor_concat_of_lt hperm hv hlt]
  exact h _ _ hperm

/-- The same pair of ties leaves no node above both, since it may see the greatest one last. -/
lemma OneWinner.not_above {x y z : Version} (h : OneWinner vs) (hnodup : vs.Nodup)
    (hx : Newest vs x) (hy : Newest vs y) (hz : z ∈ vs) (hlt : x.node < y.node)
    (hold : ∀ u ∈ vs, u ≠ x → u ≠ y → u.hlc < x.hlc) (hzx : z ≠ x) (hzy : z ≠ y) :
    z.node < y.node := by
  by_contra hnot
  have hyx : y ≠ x := fun h => hlt.ne' (congrArg node h)
  obtain ⟨rest, hrest⟩ : ∃ rest, (z :: (rest ++ [x, y])).Perm vs := by
    refine ⟨((vs.erase z).erase x).erase y, ?_⟩
    have hx' : x ∈ vs.erase z := (mem_erase_of_ne hzx.symm).mpr hx.1
    have hy' : y ∈ (vs.erase z).erase x :=
      (mem_erase_of_ne hyx).mpr ((mem_erase_of_ne hzy.symm).mpr hy.1)
    calc z :: (((vs.erase z).erase x).erase y ++ [x, y])
      _ ~ z :: x :: y :: ((vs.erase z).erase x).erase y := List.perm_append_comm.cons _
      _ ~ z :: x :: (vs.erase z).erase x := ((perm_cons_erase hy').symm.cons _).cons _
      _ ~ z :: vs.erase z := (perm_cons_erase hx').symm.cons _
      _ ~ vs := (perm_cons_erase hz).symm
  have hbefore : ∀ u ∈ z :: rest, u.hlc < x.hlc := by
    intro u hu
    have hdisjoint := hrest.nodup_iff.mpr hnodup
    rw [← cons_append, nodup_append] at hdisjoint
    refine hold u (hrest.subset ?_) (hdisjoint.2.2 u hu x (by simp))
      (hdisjoint.2.2 u hu y (by simp))
    rw [← cons_append]
    exact mem_append_left _ hu
  have hg := h _ _ hrest
  rw [survivor_concat_of_not_lt hbefore (hy.hlc_eq hx) hnot] at hg
  rcases rank_le_iff.mp (hg.2 y hy.1) with hgt | ⟨-, hle⟩
  · exact absurd (hx.hlc_eq hy) hgt.ne'
  · exact absurd hlt (not_lt.mpr hle)

/-- **One winner**: every node that compares finds the greatest version, in whatever order the
others arrive, just if the ties are apart. -/
theorem one_winner_iff (vs : List Version) (hnodup : (vs.map node).Nodup) :
    OneWinner vs ↔ TiesApart vs := by
  constructor
  · intro h x hx y hy hxn hyn hlt
    have hbelow : ∀ {u v}, Greatest vs v → Newest vs u → Newest vs v → u.node ≤ v.node := by
      intro u v hg hu hv
      rcases rank_le_iff.mp (hg.2 u hu.1) with hgt | ⟨-, hle⟩
      · exact absurd (hu.hlc_eq hv) hgt.ne
      · exact hle
    have hinj : ∀ {u v}, u ∈ vs → v ∈ vs → u ≠ v → u.node ≠ v.node :=
      fun hu hv hne heq => hne (inj_on_of_nodup_map hnodup hu hv heq)
    have hold : ∀ u ∈ vs, u ≠ x → u ≠ y → u.hlc < x.hlc ∧ x.node < u.node := by
      intro u hu hux huy
      have hxu : x.node < u.node := by
        refine (hinj hx hu hux.symm).lt_of_le (not_lt.mp fun hux => ?_)
        exact absurd hlt (not_lt.mpr (hbelow (h.greatest hu hxn hux) hyn hxn))
      refine ⟨(hxn.2 u hu).lt_of_ne fun heq => ?_, hxu⟩
      have hun : Newest vs u := ⟨hu, fun v hv => heq ▸ hxn.2 v hv⟩
      have hyu := hbelow (h.greatest hx hun hxu) hyn hun
      have huy' := hbelow (h.greatest hx hyn hlt) hun hyn
      exact hinj hu hy huy (le_antisymm huy' hyu)
    intro z hz
    by_cases hzx : z = x
    · exact .inl hzx
    by_cases hzy : z = y
    · exact .inr (.inl hzy)
    obtain ⟨hzlt, hxz⟩ := hold z hz hzx hzy
    exact .inr (.inr ⟨hzlt, hxz, h.not_above hnodup.of_map hxn hyn hz hlt
      (fun u hu hux huy => (hold u hu hux huy).1) hzx hzy⟩)
  · intro hties own others hperm
    have hown : own ∈ vs := hperm.subset (by simp)
    obtain ⟨g, hg⟩ := exists_greatest hown
    rw [survivor_eq_greatest hties hnodup hg hown
      (fun v hv => hperm.subset (mem_cons_of_mem _ hv)) (hperm.mem_iff.mpr hg.1)]
    exact hg

/-- A tie of the outer two of three nodes. -/
theorem outer_tie_settled :
    (([⟨1, ⟨5, 0⟩⟩, ⟨2, ⟨4, 0⟩⟩, ⟨3, ⟨5, 0⟩⟩] : List Version).map node).Nodup ∧
    OneWinner [⟨1, ⟨5, 0⟩⟩, ⟨2, ⟨4, 0⟩⟩, ⟨3, ⟨5, 0⟩⟩] :=
  ⟨by decide, (one_winner_iff _ (by decide)).mpr (by decide +kernel)⟩

/-- Three nodes with one timestamp: node 1 keeps what it sees last. -/
theorem three_way_tie_by_arrival :
    survivor ⟨1, ⟨5, 0⟩⟩ [⟨3, ⟨5, 0⟩⟩, ⟨2, ⟨5, 0⟩⟩] = ⟨2, ⟨5, 0⟩⟩ ∧
    survivor ⟨1, ⟨5, 0⟩⟩ [⟨2, ⟨5, 0⟩⟩, ⟨3, ⟨5, 0⟩⟩] = ⟨3, ⟨5, 0⟩⟩ ∧
    ¬OneWinner [⟨1, ⟨5, 0⟩⟩, ⟨3, ⟨5, 0⟩⟩, ⟨2, ⟨5, 0⟩⟩] := by
  refine ⟨by decide +kernel, by decide +kernel, fun h => ?_⟩
  have hwins := h ⟨1, ⟨5, 0⟩⟩ [⟨3, ⟨5, 0⟩⟩, ⟨2, ⟨5, 0⟩⟩] (.refl _)
  revert hwins
  decide +kernel

end Version

end OceanFs.Read
