import OceanFs.Lib.Runs
import OceanFs.Membership.Manager

/-!
What others say about this node.

The table takes nothing about its own node from anybody else. The gossip protocol asks for the
authority only where the incarnations are equal, and not at all for an entry that is added, so a
higher incarnation, or an added entry, replaces what the node has said about itself.
-/

namespace OceanFs.Membership

open OceanFs.Core Lib.Runs

/-- What a node receives. -/
inductive Received
  | delta (entries : List NodeEntry)
  | ack (peer : NodeId) (entries : List NodeEntry) (vector : VersionVector)
  | addNode (entry : NodeEntry)
  | upsert (u : Upsert)

namespace Received

/-- Nobody but the node itself says something about it in its own name. -/
def Foreign (self : NodeId) : Received → Prop
  | delta entries | ack _ entries _ => ∀ e ∈ entries, e.nodeId = self → e.origin ≠ self
  | addNode e => e.nodeId = self → e.origin ≠ self
  | upsert u => u.nodeId = self → u.origin ≠ self

end Received

namespace Views

def receive (v : Views) : Received → Views
  | .delta entries => { v with
      gossip := (v.gossip.mergeDelta entries).1
      gossip_nodeId := (GossipProtocol.nodeId_mergeDelta entries).trans v.gossip_nodeId }
  | .ack peer entries vector => { v with
      gossip := (v.gossip.ack peer entries vector).1
      gossip_nodeId := (GossipProtocol.nodeId_mergeDelta entries).trans v.gossip_nodeId }
  | .addNode e => { v with
      gossip := v.gossip.addNode e
      gossip_nodeId := (GossipProtocol.nodeId_addNode e).trans v.gossip_nodeId }
  | .upsert u => { v with
      manager := (v.manager.upsert u).1
      manager_nodeId := Manager.nodeId_upsert.trans v.manager_nodeId }

def step (v : Views) (r : Received) : Option Views := some (v.receive r)

/-- What the two views say about their own node. -/
def own (v : Views) : Option NodeEntry × Option StoredEntry :=
  (v.gossip.nodes.lookup v.self, v.manager.nodes.lookup v.self)

end Views

/-- The entry that the node has about itself is not below what comes in: a delta does not have a
higher incarnation, nor a newer version of the same observer where that was not the node itself; an
entry that is added has a lower incarnation. -/
def Received.Harmless (self : NodeId) (own : Option NodeEntry) : Received → Prop
  | .delta entries | .ack _ entries _ => ∀ e ∈ entries, e.nodeId = self → ∃ l ∈ own,
      e.incarnation < l.incarnation ∨ e.incarnation = l.incarnation ∧
        (l.origin = self ∨ e.origin ≠ l.origin ∨ e.version ≤ l.version)
  | .addNode e => e.nodeId = self → ∃ l ∈ own, e.incarnation < l.incarnation ∨ e = l
  | .upsert _ => True

instance (self : NodeId) : DecidablePred (Received.Foreign self) := fun a => by
  cases a <;> unfold Received.Foreign <;> infer_instance

instance (self : NodeId) (own : Option NodeEntry) :
    DecidablePred (Received.Harmless self own) := fun a => by
  cases a <;> unfold Received.Harmless <;> infer_instance

/-! ### One command -/

lemma overrides_own {self : NodeId} {new old : Fact} (horigin : new.origin ≠ self) :
    new.overrides self self old = true ↔
      old.origin ≠ self ∧ new.origin = old.origin ∧ old.version < new.version := by
  rw [Fact.overrides_iff, Fact.authority, Fact.authority, authorityClass_self, authorityClass_self,
    if_neg horigin]
  split_ifs with hown
  · simp [hown]
  · simp [hown]

variable {v : Views}

lemma admits_own {e : NodeEntry} (hself : e.nodeId = v.self) (horigin : e.origin ≠ v.self) :
    v.gossip.admits e = false ↔ ∃ l ∈ v.own.1, e.incarnation < l.incarnation ∨
      e.incarnation = l.incarnation ∧
        (l.origin = v.self ∨ e.origin ≠ l.origin ∨ e.version ≤ l.version) := by
  rw [Bool.eq_false_iff, Ne, GossipProtocol.admits_iff, hself, v.gossip_nodeId]
  change ¬(∀ l, v.own.1 = some l → l.incarnation < e.incarnation ∨ l.incarnation = e.incarnation ∧
    e.fact.overrides v.self v.self l.fact = true) ↔ _
  cases v.own.1 with
  | none => simp
  | some l =>
    have hover := @overrides_own v.self e.fact l.fact horigin
    simp only [NodeEntry.fact] at hover
    simp only [Option.some.injEq, forall_eq', Option.mem_def, exists_eq_left', NodeEntry.fact,
      hover]
    grind

lemma lookup_mergeDelta_own {entries : List NodeEntry}
    (h : ∀ e ∈ entries, e.nodeId = v.self → e.origin ≠ v.self) :
    (v.gossip.mergeDelta entries).1.nodes.lookup v.self = v.gossip.nodes.lookup v.self ↔
      (Received.delta entries).Harmless v.self v.own.1 := by
  rw [GossipProtocol.lookup_mergeDelta_eq_iff]
  exact forall₂_congr fun e he => forall_congr' fun hn => admits_own hn (h e he hn)

lemma lookup_addNode_own {e : NodeEntry} :
    (v.gossip.addNode e).nodes.lookup v.self = v.gossip.nodes.lookup v.self ↔
      (Received.addNode e).Harmless v.self v.own.1 := by
  rw [GossipProtocol.addNode_eq]
  rcases eq_or_ne e.nodeId v.self with hn | hn
  · simp only [Received.Harmless, hn, true_implies, Views.own]
    rw [← hn]
    split_ifs with hlow
    · obtain ⟨l, hl, hlt⟩ := hlow
      exact iff_of_true rfl ⟨l, hl, .inl hlt⟩
    · rw [GossipProtocol.lookup_insert_self]
      constructor
      · intro hl
        exact ⟨e, hl.symm, .inr rfl⟩
      · rintro ⟨l, hl, hlt | rfl⟩
        · exact absurd ⟨l, hl, hlt⟩ hlow
        · exact hl.symm
  · refine iff_of_true ?_ fun hn' => absurd hn' hn
    split_ifs
    · rfl
    · exact GossipProtocol.lookup_insert_of_ne hn.symm

lemma lookup_upsert_own {u : Upsert} (h : u.nodeId = v.self → u.origin ≠ v.self) :
    (v.manager.upsert u).1.nodes.lookup v.self = v.manager.nodes.lookup v.self := by
  rcases eq_or_ne u.nodeId v.self with hn | hn
  · have horigin := h hn
    rw [← v.manager_nodeId] at hn horigin
    rw [Manager.upsert_self hn horigin]
  · exact Manager.lookup_upsert_of_ne hn.symm

lemma own_receive_iff {r : Received} (h : r.Foreign v.self) :
    (v.receive r).own = v.own ↔ r.Harmless v.self v.own.1 := by
  cases r with
  | delta entries => exact (Prod.mk_inj.trans (and_iff_left rfl)).trans (lookup_mergeDelta_own h)
  | ack peer entries vector =>
    exact (Prod.mk_inj.trans (and_iff_left rfl)).trans (lookup_mergeDelta_own h)
  | addNode e =>
    have hadd := @lookup_addNode_own v e
    exact (Prod.mk_inj.trans (and_iff_left rfl)).trans hadd
  | upsert u => exact iff_of_true (Prod.ext rfl (lookup_upsert_own h)) trivial

@[simp] lemma self_receive (r : Received) : (v.receive r).self = v.self := by
  cases r <;> rfl

/-! ### Whole histories -/

/-- **Only a node itself speaks about its own liveness**, exactly where what others say about it is
harmless to the entry that its gossip state has at the start. -/
theorem own_entry_kept_iff (v : Views) (rs : List Received) (hrs : ∀ r ∈ rs, r.Foreign v.self) :
    Always Views.step (fun v' => v'.own = v.own) v rs ↔
      ∀ r ∈ rs, r.Harmless v.self v.own.1 := by
  suffices hgen : ∀ v' : Views, v'.self = v.self → v'.own = v.own →
      (Always Views.step (fun v'' => v''.own = v.own) v' rs ↔
        ∀ r ∈ rs, r.Harmless v.self v.own.1) from hgen v rfl rfl
  induction rs with
  | nil => simp [Always]
  | cons r rs ih =>
    intro v' hself hown
    obtain ⟨hr, hrs⟩ := List.forall_mem_cons.mp hrs
    have hone : (v'.receive r).own = v.own ↔ r.Harmless v.self v.own.1 := by
      rw [← hself, ← hown]
      exact own_receive_iff (hself ▸ hr)
    rw [List.forall_mem_cons, ← hone]
    constructor
    · rintro ⟨-, hrest⟩
      have hrest := hrest _ rfl
      exact ⟨hrest.head, (ih hrs _ ((self_receive r).trans hself) hrest.head).mp hrest⟩
    · rintro ⟨hkept, hrest⟩
      refine ⟨hown, fun v'' hstep => ?_⟩
      obtain rfl := Option.some.inj hstep
      exact (ih hrs _ ((self_receive r).trans hself) hkept).mpr hrest

/-- Node 1 has announced itself with incarnation 3. -/
def announced : Views where
  self := 1
  gossip := (GossipProtocol.new 1).addNode
    ⟨1, 3, .alive, .localhost 9001, .localhost 9000, 1, 1, none⟩
  manager := ((Manager.new 1).upsert
    ⟨1, .alive, 3, some (.localhost 9000), 1, 1, some (.localhost 9001), none⟩).1
  gossip_nodeId := rfl
  manager_nodeId := rfl

/-- What node 2 says about node 1. -/
def rumour (state : NodeState) (incarnation : ℕ) : NodeEntry :=
  ⟨1, incarnation, state, .localhost 9001, .localhost 9000, 9, 2, none⟩

/-- Rumours about the present incarnation, and older ones, have no effect. -/
theorem rumours_without_effect :
    Always Views.step (fun v => v.own = announced.own) announced
      [.delta [rumour .dead 3, rumour .suspect 2], .addNode (rumour .left 2)] :=
  (own_entry_kept_iff announced _ (by decide +kernel)).mpr (by decide +kernel)

/-- **A rumour with a higher incarnation replaces the node's own entry**, and so does one about the
present incarnation that is added: the node then gossips its own death. -/
theorem rumour_replaces_own_entry :
    ¬Always Views.step (fun v => v.own = announced.own) announced [.delta [rumour .dead 4]] ∧
      ¬Always Views.step (fun v => v.own = announced.own) announced
        [.addNode (rumour .dead 3)] := by
  decide +kernel

end OceanFs.Membership
