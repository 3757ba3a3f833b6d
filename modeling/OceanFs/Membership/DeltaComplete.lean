import OceanFs.Membership.Gossip

/-!
What a delta leaves out.

A peer is sent what its version vector does not cover, and the vector knows only the version of each
entry and its observer. The merge looks at the incarnation and the authority first, so an observer
that counts its versions anew after a restart is not heard.
-/

namespace OceanFs.Membership

open OceanFs.Core

namespace GossipProtocol

variable {a b g : GossipProtocol} {e : NodeEntry} {n : NodeId}

/-- An observer's entry about a node that is not newer by its version has no higher incarnation, and
no higher authority at the same incarnation. -/
def VersionsFollow (a b : GossipProtocol) : Prop :=
  ∀ e ∈ a.entries, ∀ l ∈ b.nodes.lookup e.nodeId, l.origin = e.origin → e.version ≤ l.version →
    e.incarnation ≤ l.incarnation ∧ (e.incarnation = l.incarnation →
      e.fact.authority b.nodeId e.nodeId ≤ l.fact.authority b.nodeId e.nodeId)

instance (a b : GossipProtocol) : Decidable (VersionsFollow a b) :=
  inferInstanceAs (Decidable (∀ e ∈ a.entries, ∀ l ∈ b.nodes.lookup e.nodeId, _ → _ → _))

/-! ### Merging twice -/

lemma mergeDelta_eq_self {delta : List NodeEntry} (h : ∀ e ∈ delta, g.admits e = false) :
    (g.mergeDelta delta).1 = g := by
  have hnone : delta.filter (· ∉ delta) = [] := List.filter_eq_nil_iff.mpr fun e he => by simp [he]
  rw [mergeDelta_filter h, hnone]
  rfl

lemma nodes_mergeEntry_ne_iff : (g.mergeEntry e).1.nodes ≠ g.nodes ↔ g.admits e = true := by
  constructor
  · intro hne
    by_contra hadmits
    rw [mergeEntry_fst, if_neg hadmits] at hne
    exact hne rfl
  · intro hadmits hsame
    have hlt := rankAt_lt_of_admits hadmits
    rw [rankAt, rankAt, hsame, nodeId_mergeEntry] at hlt
    exact lt_irrefl _ hlt

/-! ### The filter -/

lemma newFor_versionVector : newFor (some b.versionVector) e = false ↔
    ∃ l ∈ b.nodes.lookup e.nodeId, l.origin = e.origin ∧ e.version ≤ l.version := by
  simp only [newFor, Option.bind_some, versionVector]
  cases b.nodes.lookup e.nodeId with
  | none => simp
  | some l =>
    by_cases horigin : l.origin = e.origin
    · simp [horigin]
    · simp [horigin]

lemma filtered_iff {l : NodeEntry} (hl : b.nodes.lookup e.nodeId = some l)
    (hversion : e.version ≤ l.version) :
    b.admits e = false ↔ e.incarnation ≤ l.incarnation ∧ (e.incarnation = l.incarnation →
      e.fact.authority b.nodeId e.nodeId ≤ l.fact.authority b.nodeId e.nodeId) := by
  have hover : e.fact.overrides b.nodeId e.nodeId l.fact = true ↔
      l.fact.authority b.nodeId e.nodeId < e.fact.authority b.nodeId e.nodeId := by
    rw [Fact.overrides_iff]
    refine or_iff_left fun h => ?_
    have hlt : l.version < e.version := h.2.2
    omega
  rw [Bool.eq_false_iff, Ne, admits_iff]
  simp only [hl, Option.some.injEq, forall_eq', hover]
  omega

lemma mem_buildDeltaFor (hw : a.watermarks n = some b.versionVector) :
    e ∈ a.buildDeltaFor n ↔ e ∈ a.entries ∧ newFor (some b.versionVector) e = true := by
  rw [buildDeltaFor, hw, List.mem_filter]

lemma sent_iff (hw : a.watermarks b.nodeId = some b.versionVector) :
    (∀ e ∈ a.entries, (b.mergeEntry e).1.nodes ≠ b.nodes → e ∈ a.buildDeltaFor b.nodeId) ↔
      VersionsFollow a b := by
  refine forall₂_congr fun e he => ?_
  rw [nodes_mergeEntry_ne_iff, mem_buildDeltaFor hw, and_iff_right he]
  constructor
  · intro h l hl horigin hversion
    rw [← filtered_iff hl hversion, Bool.eq_false_iff]
    intro hadmits
    have hnot := newFor_versionVector.mpr ⟨l, hl, horigin, hversion⟩
    rw [h hadmits] at hnot
    cases hnot
  · intro h hadmits
    by_contra hnew
    obtain ⟨l, hl, horigin, hversion⟩ := newFor_versionVector.mp (Bool.eq_false_iff.mpr hnew)
    rw [(filtered_iff hl hversion).mpr (h l hl horigin hversion)] at hadmits
    cases hadmits

lemma nothing_left {delta full : List NodeEntry}
    (hsent : ∀ e ∈ a.entries, (b.mergeEntry e).1.nodes ≠ b.nodes → e ∈ a.buildDeltaFor b.nodeId)
    (hdelta : delta.Perm (a.buildDeltaFor b.nodeId)) (hfull : full.Perm a.buildDelta) :
    ((b.mergeDelta delta).1.mergeDelta full).1.nodes = (b.mergeDelta delta).1.nodes := by
  rw [mergeDelta_eq_self]
  intro e he
  -- an entry that is not in the delta was not taken before either
  refine admits_mergeDelta ((em (e ∈ delta)).imp_right fun hin => ?_)
  rw [Bool.eq_false_iff, Ne, ← nodes_mergeEntry_ne_iff]
  exact fun hne => hin (hdelta.mem_iff.mpr (hsent e (hfull.mem_iff.mp he) hne))

end GossipProtocol

open GossipProtocol

/-- **Deltas are complete**, exactly where the versions of each observer follow the incarnations and
the authority of its entries. -/
theorem delta_complete_iff (a b : GossipProtocol)
    (hw : a.watermarks b.nodeId = some b.versionVector) :
    ((∀ e ∈ a.entries, (b.mergeEntry e).1.nodes ≠ b.nodes → e ∈ a.buildDeltaFor b.nodeId) ∧
      ∀ delta full, List.Perm delta (a.buildDeltaFor b.nodeId) → List.Perm full a.buildDelta →
        ((b.mergeDelta delta).1.mergeDelta full).1.nodes = (b.mergeDelta delta).1.nodes) ↔
      VersionsFollow a b := by
  rw [← sent_iff hw]
  exact and_iff_left_of_imp fun hsent _ _ => nothing_left hsent

variable (incarnation version : ℕ)

/-- Node 3 says that it is alive. -/
def aliveEntry : NodeEntry :=
  ⟨3, incarnation, .alive, .localhost 9001, .localhost 9000, version, 3, none⟩

/-- Node 2, which knows node 3. -/
def receiver : GossipProtocol :=
  (GossipProtocol.new 2).addNode (aliveEntry incarnation version)

/-- Node 1, which knows node 3 and what node 2 knows of it. -/
def sender (peer : GossipProtocol) : GossipProtocol :=
  (((GossipProtocol.new 1).ack peer.nodeId [] peer.versionVector).1).addNode
    (aliveEntry incarnation version)

/-- A newer version is sent and taken. -/
theorem newer_version_sent :
    VersionsFollow (sender 2 6 (receiver 2 5)) (receiver 2 5) ∧
      aliveEntry 2 6 ∈ (sender 2 6 (receiver 2 5)).buildDeltaFor 2 := by
  have hfollow : VersionsFollow (sender 2 6 (receiver 2 5)) (receiver 2 5) := by decide +kernel
  refine ⟨hfollow, ?_⟩
  exact ((delta_complete_iff (sender 2 6 (receiver 2 5)) (receiver 2 5) rfl).mpr hfollow).1 _
    (by decide +kernel) (nodes_mergeEntry_ne_iff.mpr (by decide +kernel))

/-- **A node that has restarted and counts its versions anew is not heard of**: node 2 would take
the entry of the higher incarnation, but is not sent it. -/
theorem restarted_node_left_out :
    (sender 2 1 (receiver 1 5)).watermarks 2 = some (receiver 1 5).versionVector ∧
      aliveEntry 2 1 ∈ (sender 2 1 (receiver 1 5)).entries ∧
      ((receiver 1 5).mergeEntry (aliveEntry 2 1)).1.nodes ≠ (receiver 1 5).nodes ∧
      (sender 2 1 (receiver 1 5)).buildDeltaFor 2 = [] :=
  ⟨rfl, by decide +kernel, nodes_mergeEntry_ne_iff.mpr (by decide +kernel), by decide +kernel⟩

end OceanFs.Membership
