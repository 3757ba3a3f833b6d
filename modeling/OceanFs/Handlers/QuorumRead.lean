import OceanFs.Handlers.ReadYourWrite
import OceanFs.Read.Tiebreak

/-!
What a read on another replica sees of a PUT that a quorum has acknowledged.
-/

namespace OceanFs.Handlers

open OceanFs.Core Write Read Read.Version List

variable {env env' : Env} {renv : ReadEnv} {b : BucketId} {k : ObjectKey} {w : World}
  {localMeta m : ObjectMetadata} {data : Bytes}

lemma newest_survivor (own : Version) (others : List Version) :
    Newest (own :: others) (survivor own others) := by
  refine ⟨survivor_mem, ?_⟩
  induction others using List.reverseRecOn with
  | nil => simp [survivor]
  | append_singleton l v ih =>
    rw [← cons_append, survivor_concat, foldIn]
    simp only [forall_mem_append, forall_mem_singleton]
    split_ifs with haccept <;> simp only [acceptRemote, Bool.or_eq_true, Bool.and_eq_true,
      decide_eq_true_eq, not_or, not_lt] at haccept
    · have hle : (survivor own l).hlc ≤ v.hlc := haccept.elim le_of_lt fun h => h.1.ge
      exact ⟨fun u hu => (ih u hu).trans hle, le_rfl⟩
    · exact ⟨ih, haccept.1⟩

lemma le_chosen {t : NodeId} (hnet : renv.networked = true) (hlen : 1 < (env.replicaSet k).length)
    (hrow : (w.keyAt env.self b k).row = some localMeta)
    (ht : t ∈ env.self :: answering env k renv.arrivals) (hm : (w.keyAt t b k).row = some m) :
    m.hlc ≤ (chosen env renv b k localMeta w).hlc := by
  have hnewest := newest_survivor ⟨env.self, localMeta.hlc⟩
    (versionsAt w b k (answering env k renv.arrivals))
  rw [chosen, compareWithQuorum_eq localMeta w hnet hlen, answer]
  set best := survivor ⟨env.self, localMeta.hlc⟩ (versionsAt w b k (answering env k renv.arrivals))
  have hle : m.hlc ≤ best.hlc := by
    rcases mem_cons.mp ht with rfl | ht
    · obtain rfl := Option.some.inj (hrow.symm.trans hm)
      exact hnewest.2 _ mem_cons_self
    · refine hnewest.2 ⟨t, m.hlc⟩ (mem_cons_of_mem _ (mem_filterMap.mpr ⟨t, ht, ?_⟩))
      simp [hm]
  refine hle.trans (le_of_eq ?_)
  rcases mem_cons.mp hnewest.1 with hown | hother
  · simp [hown]
  · obtain ⟨n, hn, hv⟩ := mem_filterMap.mp hother
    obtain ⟨row, hrow, heq⟩ := Option.map_eq_some_iff.mp hv
    have hne : n ≠ env.self := by simp_all [answering]
    simp [← heq, hne, objectMetadataFromResponse_eq hrow, wireRow]

lemma get_chosen (hrepair : renv.repairArrivals = [])
    (hget : (Read.get env renv b k w).2 = .ok (data, m)) : ∃ localMeta,
      (w.keyAt env.self b k).row = some localMeta ∧ m = chosen env renv b k localMeta w := by
  unfold Read.get at hget
  split_ifs at hget
  split at hget
  · cases hget
  · rename_i localMeta hrow
    refine ⟨localMeta, hrow, ?_⟩
    dsimp only at hget
    split at hget
    · exact (Prod.mk.inj (Except.ok.inj hget)).2.symm
    · split_ifs at hget
      unfold readChunks at hget
      split at hget
      · exact (Prod.mk.inj (Except.ok.inj hget)).2.symm
      · simp [repairDanglingMetadata, answering, hrepair] at hget
      · cases hget

/-- **An acknowledged write is not read past**: after a PUT with a quorum of `W`, whatever has
raised versions since, a node that hears from more than `N - W` of the `N` members, itself included,
returns no older version. -/
theorem quorum_read_not_older {req : WriteRequest} {w₁ w₂ : World} {hlc : Hlc}
    (hput : putObject env req w = (w₁, .ok hlc)) (hcovered : Covered env (.put req))
    (hrisen : ∀ t ∈ env.replicaSet req.key, ∀ row ∈ (w₁.keyAt t req.bucket req.key).row,
      ∃ row' ∈ (w₂.keyAt t req.bucket req.key).row, row.hlc ≤ row'.hlc)
    (hset : env'.replicaSet req.key = env.replicaSet req.key)
    (hself : env'.self ∈ env.replicaSet req.key) (hlen : 1 < (env.replicaSet req.key).length)
    (hnet : renv.networked = true) (hrepair : renv.repairArrivals = [])
    (hheard : (env.replicaSet req.key).length < req.writeQuorum.toNat +
      (env'.self :: answering env' req.key renv.arrivals).toFinset.card)
    (hget : (Read.get env' renv req.bucket req.key w₂).2 = .ok (data, m)) : hlc ≤ m.hlc := by
  have hquorum : req.writeQuorum.toNat ≤ (holders env (.put req) hlc w₁).length :=
    ((put_accounted hput).1 hcovered).1
  have hmembers : env'.self :: answering env' req.key renv.arrivals ⊆ env.replicaSet req.key :=
    cons_subset.mpr ⟨hself, fun t ht => by simp_all [answering]⟩
  -- a holder is heard from, since the members are too few for both
  obtain ⟨t, hholds, ht⟩ : ∃ t ∈ holders env (.put req) hlc w₁,
      t ∈ env'.self :: answering env' req.key renv.arrivals := by
    by_contra hnone
    push Not at hnone
    have hdisjoint := ((env.replicaSet_nodup _).filter _).append (nodup_dedup _)
      fun t h ht => hnone t h (mem_dedup.mp ht)
    have hle := (hdisjoint.subperm (append_subset.mpr ⟨fun t h => (mem_holders.mp h).1,
      fun t h => hmembers (mem_dedup.mp h)⟩)).length_le
    rw [length_append, ← card_toFinset] at hle
    exact absurd (hheard.trans_le (Nat.add_le_add_right hquorum _)) (not_lt.mpr hle)
  obtain ⟨hmem, hwrote⟩ := mem_holders.mp hholds
  obtain ⟨row, hrow, rfl⟩ := Option.map_eq_some_iff.mp hwrote
  obtain ⟨row', hrow', hle⟩ := hrisen t hmem row hrow
  obtain ⟨localMeta, hlocal, rfl⟩ := get_chosen hrepair hget
  exact hle.trans (le_chosen hnet (hset.symm ▸ hlen) hlocal ht hrow')

/-- Node 2 reads what node 1 has acknowledged. -/
theorem other_node_reads_write :
    let out := putObject (pairNode 1) ⟨"photos", "cat", [7], 1⟩ .blank
    out.2 = .ok ⟨1, 1⟩ ∧ ∃ data m, (Read.get (pairNode 2) pairReader "photos" "cat" out.1).2 =
      .ok (data, m) ∧ ⟨1, 1⟩ ≤ m.hlc :=
  ⟨by decide, _, _, rfl, @quorum_read_not_older (pairNode 1) (pairNode 2) pairReader .blank _
    _ ⟨"photos", "cat", [7], 1⟩ _ _ _ (Prod.ext rfl (by decide)) ⟨by decide, .inl (by decide)⟩
    (fun _ _ m hm => ⟨m, hm, le_rfl⟩) rfl (by decide) (by decide) rfl rfl (by decide) rfl⟩

end OceanFs.Handlers
