import OceanFs.Lib.Runs
import OceanFs.Membership.Manager

/-!
The gossip state and the membership table, side by side.

A merge tells the manager about an entry if its state, its membership address, its incarnation or
its manifest is new, and the manager checks the entry again. A change of nothing but the data-plane
address is not told. An entry that the merge takes for a node that is dead or has left, without a
higher incarnation, the manager refuses.
-/

namespace OceanFs.Membership

open OceanFs.Core Lib.Runs Option

/-- The manager has what the gossip state has about a node. -/
def Mirrors (m : Manager) (n : NodeId) : Option NodeEntry → Prop
  | none => m.nodes.lookup n = none
  | some e =>
    if e.state = .left then m.nodes.lookup n = none
    else ∃ s ∈ m.nodes.lookup n,
      s.state = e.state ∧ s.incarnation = e.incarnation ∧ s.address = e.grpcAddress

instance (m : Manager) (n : NodeId) : DecidablePred (Mirrors m n)
  | none => inferInstanceAs (Decidable (_ = none))
  | some e => inferInstanceAs (Decidable (if e.state = .left then _ else ∃ s ∈ _, _))

namespace Views

def new (self : NodeId) : Views := ⟨self, .new self, .new self, rfl, rfl⟩

/-- An entry is merged, and the event it causes is handled. -/
def merge (v : Views) (e : NodeEntry) : Views :=
  { v with
    gossip := (v.gossip.mergeEntry e).1
    manager := match (v.gossip.mergeEntry e).2 with
      | none => v.manager
      | some event => (v.manager.upsert (.ofEvent event)).1
    gossip_nodeId := GossipProtocol.nodeId_mergeEntry.trans v.gossip_nodeId
    manager_nodeId := by
      split
      · exact v.manager_nodeId
      · exact Manager.nodeId_upsert.trans v.manager_nodeId }

/-- Merged entry by entry, a delta leaves what `mergeDelta` and then its events in order leave. -/
lemma foldl_merge (v : Views) (delta : List NodeEntry) :
    (delta.foldl merge v).gossip = (v.gossip.mergeDelta delta).1 ∧
      (delta.foldl merge v).manager = (v.gossip.mergeDelta delta).2.foldl
        (fun m event => (m.upsert (.ofEvent event)).1) v.manager := by
  induction delta generalizing v with
  | nil => exact ⟨rfl, rfl⟩
  | cons e rest ih =>
    obtain ⟨hgossip, hmanager⟩ := ih (v.merge e)
    refine ⟨hgossip, hmanager.trans ?_⟩
    rw [GossipProtocol.mergeDelta_cons, List.foldl_append]
    simp only [merge]
    cases (v.gossip.mergeEntry e).2 <;> rfl

/-- The manager has handled the events of the entries before. -/
def mergeStep (v : Views) (e : NodeEntry) : Option Views := some (v.merge e)

def InStep (v : Views) : Prop :=
  ∀ n, n ≠ v.self → Mirrors v.manager n (v.gossip.nodes.lookup n)

/-- An entry that is taken without a higher incarnation leaves a node that has left as it is, and a
dead one with its address; otherwise the address is the same or the manager is told. -/
def EntryOk (v : Views) (e : NodeEntry) : Prop :=
  e.nodeId ≠ v.self → v.gossip.admits e = true → ∀ l ∈ v.gossip.nodes.lookup e.nodeId,
    l.incarnation = e.incarnation →
      if l.state = .left then e.state = .left
      else if l.state = .dead then e.state = .dead ∧ e.grpcAddress = l.grpcAddress
      else e.grpcAddress = l.grpcAddress ∨ v.gossip.announces e = true

end Views

/-! ### Facts that are behind -/

/-- The manager's fact may be behind that of the gossip state, where the merge has not told it. -/
def Fact.Behind (self target : NodeId) (s e : Fact) : Prop :=
  s.authority self target < e.authority self target ∨
    s.authority self target = e.authority self target ∧ s.origin = e.origin ∧ s.version ≤ e.version

namespace Fact

variable {self target : NodeId} {s l e : Fact}

lemma Behind.refl (s : Fact) : Behind self target s s := .inr ⟨rfl, rfl, le_rfl⟩

lemma Behind.overrides (h : Behind self target s l) (ho : e.overrides self target l = true) :
    e.overrides self target s = true := by
  rw [overrides_iff] at ho ⊢
  rcases h with hlt | ⟨heq, horigin, hversion⟩ <;> rcases ho with hlt' | ⟨heq', horigin', hversion'⟩
  · exact .inl (hlt.trans hlt')
  · exact .inl (heq' ▸ hlt)
  · exact .inl (heq ▸ hlt')
  · exact .inr ⟨heq'.trans heq.symm, horigin'.trans horigin.symm, hversion.trans_lt hversion'⟩

lemma Behind.of_overrides (ho : e.overrides self target s = true) : Behind self target s e := by
  rcases overrides_iff.mp ho with hlt | ⟨heq, horigin, hversion⟩
  · exact .inl hlt
  · exact .inr ⟨heq.symm, horigin.symm, hversion.le⟩

end Fact

/-! ### The invariant -/

/-- What the manager has about a node, where the gossip state has `o`. -/
def Synced (self n : NodeId) (m : Manager) : Option NodeEntry → Prop
  | none => m.nodes.lookup n = none ∧ m.incarnations n = none
  | some e => m.incarnations n = some e.incarnation ∧
    if e.state = .left then m.nodes.lookup n = none
    else ∃ s, m.nodes.lookup n = some s ∧ s.state = e.state ∧ s.incarnation = e.incarnation ∧
      s.address = e.grpcAddress ∧ s.fact.Behind self n e.fact

structure Views.Inv (v : Views) : Prop where
  synced : ∀ n, n ≠ v.self → Synced v.self n v.manager (v.gossip.nodes.lookup n)

lemma Synced.mirrors {self n : NodeId} {m : Manager} {o : Option NodeEntry}
    (h : Synced self n m o) : Mirrors m n o := by
  cases o with
  | none => exact h.1
  | some e =>
    obtain ⟨-, h⟩ := h
    simp only [Mirrors]
    split_ifs at h ⊢
    · exact h
    · obtain ⟨s, hs, hstate, hinc, haddr, -⟩ := h
      exact ⟨s, hs, hstate, hinc, haddr⟩

lemma Views.Inv.inStep {v : Views} (h : v.Inv) : v.InStep := fun n hn => (h.synced n hn).mirrors

/-! ### The manager's answers -/

section

variable {m : Manager} {u : Upsert} {a : SocketAddr}

lemma synced_of_accepted {e : NodeEntry} (hrej : m.rejects u = false) (hn : u.nodeId = e.nodeId)
    (hstate : u.state = e.state) (haddr : u.address = some e.grpcAddress)
    (horigin : u.origin = e.origin) (hversion : u.version = e.version)
    (hinc : m.effectiveIncarnation u = e.incarnation) (self : NodeId) :
    Synced self e.nodeId (m.upsert u).1 (some e) := by
  have haddress : m.effectiveAddress u = some e.grpcAddress := by
    simp [Manager.effectiveAddress, haddr]
  rcases m.upsert_cases u with ⟨-, h | ⟨-, h⟩⟩ | ⟨-, hleft, heq⟩ | ⟨hleft, address, -, h, heq⟩
  · rw [hrej] at h
    cases h
  · rw [haddress] at h
    cases h
  · rw [heq, Synced, ← hstate, if_pos hleft, ← hn]
    refine ⟨?_, Manager.lookup_remove_self⟩
    rw [← hinc]
    exact Function.update_self ..
  · obtain rfl := some.inj (haddress.symm.trans h)
    rw [heq, Synced, ← hstate, if_neg hleft, ← hn]
    refine ⟨?_, m.stored u e.grpcAddress, Manager.lookup_put_self hleft, rfl, hinc, rfl, ?_⟩
    · rw [← hinc]
      exact Function.update_self ..
    · have hfact : (m.stored u e.grpcAddress).fact = e.fact := by
        rw [StoredEntry.fact, NodeEntry.fact, ← hstate, ← horigin, ← hversion]
        rfl
      rw [hfact]
      exact Fact.Behind.refl _

lemma incarnations_upsert_of_ne {n : NodeId} (hne : n ≠ u.nodeId) :
    (m.upsert u).1.incarnations n = m.incarnations n := by
  rcases m.upsert_cases u with ⟨h, -⟩ | ⟨-, -, h⟩ | ⟨_, _, -, -, h⟩ <;> rw [h]
  · exact Function.update_of_ne hne ..
  · exact Function.update_of_ne hne ..

lemma rejects_eq_false (hgate : m.readmissionGated u.nodeId = true →
      ∀ r ∈ m.incarnations u.nodeId, r < u.incarnation)
    (hinc : ∀ r ∈ m.incarnations u.nodeId, r ≤ u.incarnation) (hself : u.nodeId ≠ m.nodeId)
    (hover : ∀ l ∈ m.nodes.lookup u.nodeId, u.incarnation = l.incarnation →
      u.fact.overrides m.nodeId u.nodeId l.fact = true) : m.rejects u = false := by
  simp only [Manager.rejects, Bool.or_eq_false_iff, Bool.and_eq_false_iff, any_eq_false,
    decide_eq_false_iff_not, not_le, not_lt]
  refine ⟨⟨⟨?_, fun r hr => hinc r hr⟩, .inl hself⟩, fun l hl => ?_⟩
  · cases hg : m.readmissionGated u.nodeId with
    | false => exact .inl rfl
    | true => exact .inr fun r hr => hgate hg r hr
  · by_cases heq : u.incarnation = l.incarnation
    · simp [hover l hl heq]
    · simp [heq]

lemma upsert_of_gated {r : ℕ} (hgate : m.readmissionGated u.nodeId = true)
    (hr : m.incarnations u.nodeId = some r) (hinc : u.incarnation ≤ r) :
    m.upsert u = (m, none) := by
  rw [Manager.upsert, if_pos (by simp [Manager.rejects, hgate, hr, hinc])]

end

/-! ### One entry -/

namespace Views

variable {v : Views} {e : NodeEntry}

lemma lookup_merge_of_ne {n : NodeId} (hne : n ≠ e.nodeId) :
    (v.merge e).gossip.nodes.lookup n = v.gossip.nodes.lookup n ∧
      (v.merge e).manager.nodes.lookup n = v.manager.nodes.lookup n ∧
      (v.merge e).manager.incarnations n = v.manager.incarnations n := by
  refine ⟨GossipProtocol.lookup_mergeEntry_of_ne hne, ?_⟩
  simp only [merge, GossipProtocol.mergeEntry]
  split_ifs
  · exact ⟨Manager.lookup_upsert_of_ne hne, incarnations_upsert_of_ne hne⟩
  · exact ⟨rfl, rfl⟩
  · exact ⟨rfl, rfl⟩

lemma merge_of_not_admits (h : v.gossip.admits e = false) :
    (v.merge e).gossip = v.gossip ∧ (v.merge e).manager = v.manager := by
  simp [merge, GossipProtocol.mergeEntry, h]

lemma manager_merge (h : v.gossip.admits e = true) :
    (v.merge e).manager = if v.gossip.announces e then
      (v.manager.upsert (.ofEvent (v.gossip.event e))).1 else v.manager := by
  simp only [merge, GossipProtocol.mergeEntry, if_pos h]
  split_ifs <;> rfl

lemma lookup_merge_self (h : v.gossip.admits e = true) :
    (v.merge e).gossip.nodes.lookup e.nodeId = some (v.gossip.accepted e) := by
  have hlookup := @GossipProtocol.lookup_mergeEntry_self v.gossip e
  rwa [if_pos h] at hlookup

lemma synced_of_told (hadmits : v.gossip.admits e = true) (htold : v.gossip.announces e = true)
    (hrej : v.manager.rejects (.ofEvent (v.gossip.event e)) = false)
    (hinc : ∀ r ∈ v.manager.incarnations e.nodeId, r ≤ e.incarnation) :
    Synced v.self e.nodeId (v.merge e).manager
      ((v.merge e).gossip.nodes.lookup e.nodeId) := by
  rw [manager_merge hadmits, if_pos htold, lookup_merge_self hadmits]
  have heff : v.manager.effectiveIncarnation (.ofEvent (v.gossip.event e)) = e.incarnation := by
    change (v.manager.incarnations e.nodeId).elim e.incarnation (max · e.incarnation) = _
    cases hr : v.manager.incarnations e.nodeId with
    | none => rfl
    | some r => exact max_eq_right (hinc r hr)
  exact synced_of_accepted (e := v.gossip.accepted e) hrej rfl rfl rfl rfl rfl heff v.self

lemma synced_of_fresh (h : v.Inv) (hn : e.nodeId ≠ v.self)
    (hfresh : ∀ l, v.gossip.nodes.lookup e.nodeId = some l → l.incarnation < e.incarnation) :
    Synced v.self e.nodeId (v.merge e).manager
      ((v.merge e).gossip.nodes.lookup e.nodeId) := by
  have hadmits : v.gossip.admits e = true :=
    GossipProtocol.admits_iff.mpr fun l hl => .inl (hfresh l hl)
  have htold : v.gossip.announces e = true := by
    unfold GossipProtocol.announces
    split
    · rfl
    · rename_i l hl
      simp [(hfresh l hl).ne]
  have hs := h.synced e.nodeId hn
  have hinc : ∀ r ∈ v.manager.incarnations e.nodeId, r < e.incarnation := by
    intro r hr
    cases hl : v.gossip.nodes.lookup e.nodeId with
    | none =>
      rw [hl] at hs
      rw [hs.2] at hr
      cases hr
    | some l =>
      rw [hl] at hs
      obtain rfl := some.inj (hs.1.symm.trans hr)
      exact hfresh l hl
  refine synced_of_told hadmits htold (rejects_eq_false (fun _ => hinc) (fun r hr => (hinc r hr).le)
    (fun hself => hn (hself.trans v.manager_nodeId)) ?_) fun r hr => (hinc r hr).le
  intro s hlookup heq
  have hlookup : v.manager.nodes.lookup e.nodeId = some s := hlookup
  have heq : e.incarnation = s.incarnation := heq
  cases hl : v.gossip.nodes.lookup e.nodeId with
  | none =>
    rw [hl] at hs
    rw [hs.1] at hlookup
    cases hlookup
  | some l =>
    rw [hl] at hs
    obtain ⟨-, hs⟩ := hs
    split_ifs at hs
    · rw [hs] at hlookup
      cases hlookup
    · obtain ⟨s', hs', -, hinc', -⟩ := hs
      obtain rfl := some.inj (hs'.symm.trans hlookup)
      have hlt := hfresh l hl
      omega

/-- What is asked of an entry of the same incarnation where the manager keeps what it has. -/
def KeptOk (l e : NodeEntry) : Prop :=
  if l.state = .left then e.state = .left
  else e.state = l.state ∧ e.grpcAddress = l.grpcAddress

variable {l : NodeEntry}

lemma kept_iff {m : Manager} {self n : NodeId} (hs : Synced self n m (some l))
    (hinc : l.incarnation = e.incarnation)
    (hover : e.fact.overrides self n l.fact = true) :
    (Mirrors m n (some e) → KeptOk l e) ∧ (KeptOk l e → Synced self n m (some e)) := by
  obtain ⟨hrec, hs⟩ := hs
  unfold KeptOk
  constructor
  · intro hin
    simp only [Mirrors] at hin
    split_ifs at hs hin ⊢ with hleft heleft
    · exact heleft
    · obtain ⟨s, hlookup, -⟩ := hin
      rw [hs] at hlookup
      cases hlookup
    · obtain ⟨s, hlookup, -⟩ := hs
      rw [hin] at hlookup
      cases hlookup
    · obtain ⟨s, hlookup, hstate, -, haddr, -⟩ := hs
      obtain ⟨s', hlookup', hstate', -, haddr'⟩ := hin
      obtain rfl := some.inj (hlookup.symm.trans hlookup')
      exact ⟨hstate'.symm.trans hstate, haddr'.symm.trans haddr⟩
  · intro hok
    refine ⟨hrec.trans (by rw [hinc]), ?_⟩
    split_ifs at hs hok with hleft
    · rw [if_pos hok]
      exact hs
    · rw [if_neg (hok.1 ▸ hleft)]
      obtain ⟨s, hlookup, hstate, hinc', haddr, hbehind⟩ := hs
      exact ⟨s, hlookup, hstate.trans hok.1.symm, hinc'.trans hinc, haddr.trans hok.2.symm,
        .of_overrides (hbehind.overrides hover)⟩

section

variable (h : v.Inv) (hn : e.nodeId ≠ v.self) (hl : v.gossip.nodes.lookup e.nodeId = some l)
  (hinc : l.incarnation = e.incarnation) (hadmits : v.gossip.admits e = true)

include h hn hl hinc hadmits

lemma manager_merge_of_gone (hgone : l.state = .left ∨ l.state = .dead) :
    (v.merge e).manager = v.manager := by
  have hs := h.synced e.nodeId hn
  rw [hl] at hs
  obtain ⟨hrec, hs⟩ := hs
  have hgate : v.manager.readmissionGated e.nodeId = true := by
    unfold Manager.readmissionGated
    split_ifs at hs with hleft
    · rw [hs]
    · obtain ⟨s, hlookup, hstate, -⟩ := hs
      simp [hlookup, hstate, hgone.resolve_left hleft]
  rw [manager_merge hadmits]
  split_ifs
  · have hupsert := upsert_of_gated (m := v.manager) (u := .ofEvent (v.gossip.event e)) hgate hrec
      hinc.ge
    rw [hupsert]
  · rfl

lemma synced_of_overriding (hleft : l.state ≠ .left) (hdead : l.state ≠ .dead)
    (htold : v.gossip.announces e = true) :
    Synced v.self e.nodeId (v.merge e).manager
      ((v.merge e).gossip.nodes.lookup e.nodeId) := by
  have hs := h.synced e.nodeId hn
  rw [hl] at hs
  obtain ⟨hrec, hs⟩ := hs
  rw [if_neg hleft] at hs
  obtain ⟨s, hlookup, hstate, -, -, hbehind⟩ := hs
  have hover : e.fact.overrides v.self e.nodeId l.fact = true := by
    rcases GossipProtocol.admits_iff.mp hadmits l hl with hlt | ⟨-, hover⟩
    · omega
    · rwa [v.gossip_nodeId] at hover
  have hle : ∀ r ∈ v.manager.incarnations e.nodeId, r ≤ e.incarnation := by
    intro r hr
    obtain rfl := some.inj (hrec.symm.trans hr)
    exact hinc.le
  refine synced_of_told hadmits htold (rejects_eq_false (fun hgate => ?_) hle
    (fun hself => hn (hself.trans v.manager_nodeId)) ?_) hle
  · have hgate : v.manager.readmissionGated e.nodeId = true := hgate
    simp [Manager.readmissionGated, hlookup, hstate, hleft, hdead] at hgate
  · intro s' hlookup' _
    obtain rfl := some.inj (hlookup.symm.trans hlookup')
    rw [v.manager_nodeId]
    exact hbehind.overrides hover

lemma mirrors_merge_of_same :
    (Mirrors (v.merge e).manager e.nodeId (some e) → v.EntryOk e) ∧
      (v.EntryOk e → Synced v.self e.nodeId (v.merge e).manager
        ((v.merge e).gossip.nodes.lookup e.nodeId)) := by
  have hs := h.synced e.nodeId hn
  rw [hl] at hs
  have hover : e.fact.overrides v.self e.nodeId l.fact = true := by
    rcases GossipProtocol.admits_iff.mp hadmits l hl with hlt | ⟨-, hover⟩
    · omega
    · rwa [v.gossip_nodeId] at hover
  have hok : v.EntryOk e ↔ if l.state = .left then e.state = .left
      else if l.state = .dead then e.state = .dead ∧ e.grpcAddress = l.grpcAddress
      else e.grpcAddress = l.grpcAddress ∨ v.gossip.announces e = true := by
    simp [EntryOk, hn, hadmits, hl, hinc]
  have hkept : (v.merge e).manager = v.manager → (v.EntryOk e ↔ KeptOk l e) →
      (Mirrors (v.merge e).manager e.nodeId (some e) → v.EntryOk e) ∧
        (v.EntryOk e → Synced v.self e.nodeId (v.merge e).manager
          ((v.merge e).gossip.nodes.lookup e.nodeId)) := by
    intro hmanager hiff
    rw [hmanager, hiff, lookup_merge_self hadmits]
    exact kept_iff hs hinc hover
  by_cases hgone : l.state = .left ∨ l.state = .dead
  · refine hkept (manager_merge_of_gone h hn hl hinc hadmits hgone) (hok.trans ?_)
    unfold KeptOk
    split_ifs with hleft hdead
    · rfl
    · rw [hdead]
    · exact absurd hgone (by tauto)
  · obtain ⟨hleft, hdead⟩ := not_or.mp hgone
    rw [if_neg hleft, if_neg hdead] at hok
    by_cases htold : v.gossip.announces e = true
    · exact ⟨fun _ => hok.mpr (.inr htold), fun _ =>
        synced_of_overriding h hn hl hinc hadmits hleft hdead htold⟩
    · -- the manager is not told, so the state is the same
      have hstate : l.state = e.state := by
        unfold GossipProtocol.announces at htold
        rw [hl] at htold
        by_contra hne
        simp [hne] at htold
      refine hkept (by rw [manager_merge hadmits, if_neg htold]) (hok.trans ?_)
      rw [KeptOk, if_neg hleft, or_iff_left htold, and_iff_right hstate.symm]

end

lemma inStep_merge (h : v.Inv) :
    ((v.merge e).InStep → v.EntryOk e) ∧ (v.EntryOk e → (v.merge e).Inv) := by
  -- everything about other nodes stays
  have hothers : ∀ n, n ≠ v.self → n ≠ e.nodeId → Synced v.self n (v.merge e).manager
      ((v.merge e).gossip.nodes.lookup n) := by
    intro n hn hne
    obtain ⟨hgossip, hlookup, hrec⟩ := lookup_merge_of_ne (v := v) hne
    have hs := h.synced n hn
    rw [hgossip]
    cases hl : v.gossip.nodes.lookup n with
    | none =>
      rw [hl] at hs
      exact ⟨hlookup.trans hs.1, hrec.trans hs.2⟩
    | some l =>
      rw [hl] at hs
      simpa only [Synced, hlookup, hrec] using hs
  have hinv : (e.nodeId ≠ v.self → Synced v.self e.nodeId (v.merge e).manager
      ((v.merge e).gossip.nodes.lookup e.nodeId)) → (v.merge e).Inv := by
    refine fun hself => ⟨fun n hn => ?_⟩
    by_cases hne : n = e.nodeId
    · subst hne
      exact hself hn
    · exact hothers n hn hne
  by_cases hn : e.nodeId = v.self
  · exact ⟨fun _ hn' => absurd hn hn', fun _ => hinv fun hn' => absurd hn hn'⟩
  by_cases hadmits : v.gossip.admits e = true
  · by_cases hfresh : ∀ l, v.gossip.nodes.lookup e.nodeId = some l → l.incarnation < e.incarnation
    · refine ⟨fun _ _ _ l hl hinc => ?_, fun _ => hinv fun _ => synced_of_fresh h hn hfresh⟩
      exact absurd hinc (hfresh l hl).ne
    · push Not at hfresh
      obtain ⟨l, hl, hle⟩ := hfresh
      have hinc : l.incarnation = e.incarnation := by
        rcases GossipProtocol.admits_iff.mp hadmits l hl with hlt | ⟨hinc, -⟩
        · omega
        · exact hinc
      obtain ⟨hmp, hmpr⟩ := mirrors_merge_of_same h hn hl hinc hadmits
      refine ⟨fun hin => hmp ?_, fun hok => hinv fun _ => hmpr hok⟩
      have hmirrors := hin e.nodeId hn
      rwa [lookup_merge_self hadmits] at hmirrors
  · obtain ⟨hgossip, hmanager⟩ := merge_of_not_admits (Bool.eq_false_iff.mpr hadmits)
    refine ⟨fun _ _ hadmits' => absurd hadmits' hadmits, fun _ => hinv fun _ => ?_⟩
    rw [hgossip, hmanager]
    exact h.synced e.nodeId hn

end Views

/-- **Gossip state and membership table stay in step** just if every entry is fine. -/
theorem in_step_iff (self : NodeId) (deltas : List (List NodeEntry)) :
    Always Views.mergeStep Views.InStep (.new self) deltas.flatten ↔
      Guarded Views.mergeStep Views.EntryOk (.new self) deltas.flatten := by
  have h0 : Views.Inv (.new self) := ⟨fun n _ => ⟨rfl, rfl⟩⟩
  refine always_iff_guarded_of_inv (fun v h => h.inStep) ?_ h0
  intro v e v' h hstep
  obtain rfl := some.inj hstep
  exact Views.inStep_merge h

/-- What node 2 says about node 3. -/
def report (state : NodeState) (port version : ℕ) : NodeEntry :=
  ⟨3, 1, state, .localhost 9001, .localhost port, version, 2, none⟩

/-- **The manager is not told of a new data-plane address**, and refuses a node that has come back
to life without a higher incarnation. -/
theorem manager_left_behind :
    ¬Always Views.mergeStep Views.InStep (.new 1)
        [[report .alive 9000 1], [report .alive 9100 2]].flatten ∧
      ¬Always Views.mergeStep Views.InStep (.new 1)
        [[report .dead 9000 1], [report .alive 9000 2]].flatten := by
  constructor <;>
  · rw [always_iff_run]
    intro h
    have hend := h _ _ List.prefix_rfl rfl 3 (by decide)
    revert hend
    decide +kernel

end OceanFs.Membership
