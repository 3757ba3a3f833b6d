import OceanFs.Ec.Stripe

/-!
The shards that a decoder takes when some data shards are missing, and the segments that cannot
be encoded at all.
-/

namespace OceanFs.Ec

open OceanFs.Core Lib Lib.CarryLess Lib.CauchyCode List

/-! ### The shards that are taken -/

section

variable {k m : UInt8} {missing : List ℕ}

lemma filter_kept :
    (List.range (k.toNat + m.toNat)).filter (kept k missing) =
      (List.range k.toNat).filter (fun i => !missing.contains i) ++
        (List.range m.toNat).map (k.toNat + ·) := by
  rw [range_add, filter_append]
  refine congrArg₂ _ (filter_congr fun i hi => ?_) (filter_eq_self.mpr fun i hi => ?_)
  · rw [kept, decide_eq_false (Nat.not_le.mpr (mem_range.mp hi)), Bool.false_or]
  · obtain ⟨p, -, rfl⟩ := mem_map.mp hi
    rw [kept, decide_eq_true (Nat.le_add_right _ p), Bool.true_or]

lemma length_present (hnodup : missing.Nodup) (hmissing : ∀ i ∈ missing, i < k.toNat) :
    ((List.range k.toNat).filter (fun i => !missing.contains i)).length + missing.length =
      k.toNat := by
  have hperm : ((List.range k.toNat).filter (fun i => missing.contains i)).Perm missing := by
    refine (perm_ext_iff_of_nodup (List.nodup_range.filter _) hnodup).mpr fun i => ?_
    simp only [mem_filter, mem_range, contains_iff_mem]
    exact ⟨fun h => h.2, fun h => ⟨hmissing i h, h⟩⟩
  have hsplit := length_eq_length_filter_add (l := List.range k.toNat)
    (fun i => missing.contains i)
  rw [length_range, hperm.length_eq] at hsplit
  omega

lemma le_length_kept (hnodup : missing.Nodup) (hmissing : ∀ i ∈ missing, i < k.toNat)
    (hle : missing.length ≤ m.toNat) :
    k.toNat ≤ ((List.range (k.toNat + m.toNat)).filter (kept k missing)).length := by
  have := length_present hnodup hmissing
  rw [filter_kept, length_append, length_map, length_range]
  omega

lemma mem_firstKept (hnodup : missing.Nodup) (hmissing : ∀ i ∈ missing, i < k.toNat)
    (hle : missing.length ≤ m.toNat) {idx : ℕ} :
    idx ∈ (firstKept (kept k missing) (le_length_kept hnodup hmissing hle)).indices ↔
      idx < k.toNat ∧ idx ∉ missing ∨ k.toNat ≤ idx ∧ idx < k.toNat + missing.length := by
  have hlen := length_present hnodup hmissing
  have htake : (firstKept (kept k missing) (le_length_kept hnodup hmissing hle)).indices =
      (List.range k.toNat).filter (fun i => !missing.contains i) ++
        (List.range missing.length).map (k.toNat + ·) := by
    change ((List.range (k.toNat + m.toNat)).filter (kept k missing)).take k.toNat = _
    rw [filter_kept, take_append, take_of_length_le (by omega), ← map_take, take_range]
    congr 3
    omega
  rw [htake, mem_append, mem_filter, mem_map, mem_range]
  refine or_congr (by simp) ⟨?_, fun h => ⟨idx - k.toNat, mem_range.mpr (by omega), by omega⟩⟩
  rintro ⟨p, hp, rfl⟩
  have := mem_range.mp hp
  omega

end

lemma sum_row_data {k m : UInt8} (i : Fin k.toNat) (v : Fin k.toNat → Gf8) :
    ∑ j, row (xs k) (ys k m) (finSumFinEquiv.symm (Fin.castAdd m.toNat i)) j * v j = v i := by
  rw [finSumFinEquiv_symm_apply_castAdd]
  simp [row, Pi.single_apply]

/-! ### Too many shards -/

section

variable {segment : Bytes} {k m : UInt8}

lemma encode_panic (kernel : Kernel) {dataShards : List Bytes} {size : ℕ} (hk : k ≠ 0)
    (h : 257 ≤ k.toNat + m.toNat) (hlen : dataShards.length = k.toNat)
    (hsize : ∀ s ∈ dataShards, s.length = size) :
    encode kernel k dataShards m = .error .panic := by
  rw [(encode_eq_encodeCauchy kernel hk hlen hsize).1, encodeCauchy, cauchyMatrix_eq_none h]

lemma Layout.parallelEncode_panic {plan : EncodingPlan} (hp : Layout segment plan) (kernel : Kernel)
    (hword : plan.dataShards.toNat * plan.shardSize < 2 ^ 64)
    (h : ¬ plan.stripeCount * plan.shardSize < 2 ^ 63 ∨
      257 ≤ plan.dataShards.toNat + plan.parityShards.toNat) :
    parallelEncode kernel segment plan = .error .panic := by
  by_cases hbuf : plan.stripeCount * plan.shardSize < 2 ^ 63
  · have hdata : (List.range plan.dataShards.toNat).map (dataShard segment plan
        (List.replicate (plan.stripeCount * plan.shardSize) 0)) =
        (batchOf kernel segment plan).data :=
      map_congr_left fun i hi => hp.dataShard_eq (mem_range.mp hi)
    have hresults : (List.range plan.stripeCount).mapM (fun s => encode kernel plan.dataShards
        ((batchOf kernel segment plan).data.map (strip plan s)) plan.parityShards) =
        .error .panic := by
      refine Lists.mapM_eq_error (by simpa using hp.stripeCount_ne_zero) fun s hs => ?_
      have hs := mem_range.mp hs
      rw [hp.map_strip_data hs]
      exact encode_panic kernel hp.dataShards_ne_zero (h.resolve_left (not_not.mpr hbuf))
        (Layout.length_stripeData s) (hp.length_of_mem_stripeData hs)
    simp only [parallelEncode, word_eq hword, word_eq (hbuf.trans (by decide)), zeroed_eq hbuf,
      ok_bind, hdata, hresults, error_bind]
  · -- the buffers are too long
    simp only [parallelEncode, word_eq hword, ok_bind]
    by_cases hlen : plan.stripeCount * plan.shardSize < 2 ^ 64
    · simp only [word_eq hlen, ok_bind, zeroed, if_neg hbuf, error_bind]
    · simp only [word, if_neg hlen, error_bind]

end

end OceanFs.Ec
