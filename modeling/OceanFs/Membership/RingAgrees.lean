import OceanFs.Lib.Lists
import OceanFs.Lib.Runs
import OceanFs.Membership.Manager
import OceanFs.Routing.Membership

/-!
The published ring beside the membership table.

An upsert changes the table under its lock. After that it copies the ring, changes the copy and
publishes it, and two upserts may do so from one ring. What it does to the copy was settled under
the lock: a node that was not in the table is added, whatever its state.
-/

namespace OceanFs.Membership

open OceanFs.Core Lib Lib.Runs Routing List Option

/-- Where an upsert is that has changed a state in the table. -/
inductive RingStage
  | updated
  /-- The changed copy of the ring. -/
  | copied (ring : NodeRing)

structure RingTask where
  effects : Effects
  stage : RingStage

namespace RingTask

def node (t : RingTask) : NodeId := t.effects.event.nodeId

def state (t : RingTask) : NodeState := t.effects.event.newState

def isCopied (t : RingTask) : Bool :=
  match t.stage with
  | .updated => false
  | .copied _ => true

end RingTask

structure Topology where
  manager : Manager
  /-- The published ring. -/
  ring : NodeRing
  tasks : List RingTask

namespace Topology

inductive Act
  | update (u : Upsert)
  | snapshot (i : ℕ)
  | publish (i : ℕ)

section

variable (hashNode : NodeId → ℕ → ℕ)

/-- What an upsert does to its copy of the ring. -/
def changeRing (eff : Effects) (ring : NodeRing) : NodeRing :=
  if eff.isNew then (ring.addNode hashNode eff.event.nodeId).1
  else if eff.event.newState = .left then ring.apply hashNode (.remove eff.event.nodeId)
  else ring

def step (s : Topology) : Act → Option Topology
  | .update u => some { s with
      manager := (s.manager.upsert u).1
      tasks := s.tasks ++ (s.manager.upsert u).2.toList.map (⟨·, .updated⟩) }
  | .snapshot i =>
    match s.tasks[i]? with
    | some ⟨eff, .updated⟩ => some { s with
        tasks := s.tasks.set i ⟨eff, .copied (changeRing hashNode eff s.ring)⟩ }
    | _ => none
  | .publish i =>
    match s.tasks[i]? with
    | some ⟨_, .copied ring⟩ => some { s with ring := ring, tasks := s.tasks.eraseIdx i }
    | _ => none

end

/-- When no upsert runs, the ring has the nodes of the table. -/
def Agrees (s : Topology) : Prop :=
  s.tasks = [] → ∀ n, n ∈ s.ring.nodeIds ↔ (s.manager.nodes.lookup n).isSome

/-- An upsert that changes a state is the only one of its node, and does not bring a node that has
left. A copy is made while no other one is waiting to be published, and a node that leaves has a
position in the ring. -/
def ActOk (s : Topology) : Act → Prop
  | .update u => ∀ eff ∈ (s.manager.upsert u).2,
      (∀ t ∈ s.tasks, t.node ≠ u.nodeId) ∧ (eff.isNew = true → u.state ≠ .left)
  | .snapshot i => ∀ t ∈ s.tasks[i]?, (∀ t' ∈ s.tasks.eraseIdx i, t'.isCopied = false) ∧
      (t.state = .left → ∃ p ∈ s.ring.positions, p.2 = t.node)
  | .publish _ => True

instance (s : Topology) : DecidablePred (ActOk s) := fun act => by
  cases act <;> unfold ActOk <;> infer_instance

end Topology

/-! ### What an upsert settles under the lock -/

namespace Manager

variable {m : Manager} {u : Upsert}

lemma upsert_effects {eff : Effects} (h : (m.upsert u).2 = some eff) :
    eff.event.nodeId = u.nodeId ∧ eff.event.newState = u.state ∧
      (eff.isNew = true ↔ m.nodes.lookup u.nodeId = none) ∧
      (((m.upsert u).1.nodes.lookup u.nodeId).isSome ↔ u.state ≠ .left) := by
  have heffects : ∀ address, m.effects u address = some eff →
      eff.event.nodeId = u.nodeId ∧ eff.event.newState = u.state ∧
        (eff.isNew = true ↔ m.nodes.lookup u.nodeId = none) := by
    intro address heq
    simp only [effects] at heq
    split_ifs at heq
    obtain rfl := some.inj heq
    exact ⟨rfl, rfl, isNone_iff_eq_none⟩
  rcases m.upsert_cases u with ⟨heq, -⟩ | ⟨-, hleft, heq⟩ | ⟨hleft, address, -, -, heq⟩
  · rw [heq] at h
    cases h
  · rw [heq] at h ⊢
    obtain ⟨hn, hstate, hnew⟩ := heffects _ h
    refine ⟨hn, hstate, hnew, ?_⟩
    rw [lookup_remove_self]
    simp [hleft]
  · rw [heq] at h ⊢
    obtain ⟨hn, hstate, hnew⟩ := heffects _ h
    refine ⟨hn, hstate, hnew, ?_⟩
    have hlookup := lookup_put_self (m := m) (n := u.nodeId) (e := m.stored u address) hleft
    simp [hlookup, hleft]

lemma isSome_lookup_upsert (h : (m.upsert u).2 = none) (n : NodeId) :
    ((m.upsert u).1.nodes.lookup n).isSome = (m.nodes.lookup n).isSome := by
  by_cases hn : n = u.nodeId
  · subst hn
    have hold : ∀ address, m.effects u address = none →
        ∃ e, m.nodes.lookup u.nodeId = some e ∧ e.state = u.state := by
      intro address heq
      simp only [effects] at heq
      split_ifs at heq with hall
      cases hl : m.nodes.lookup u.nodeId with
      | none => simp [hl] at hall
      | some e => exact ⟨e, rfl, by simpa [hl] using hall⟩
    rcases m.upsert_cases u with ⟨heq, -⟩ | ⟨-, hleft, heq⟩ | ⟨hleft, address, -, -, heq⟩
    · rw [heq]
    · rw [heq] at h
      obtain ⟨e, he, hstate⟩ := hold _ h
      exact absurd (hstate.trans hleft) (m.noLeft _ e he)
    · rw [heq] at h ⊢
      obtain ⟨e, he, -⟩ := hold _ h
      have hlookup := lookup_put_self (m := m) (n := u.nodeId) (e := m.stored u address) hleft
      rw [hlookup, he]
      rfl
  · rw [lookup_upsert_of_ne hn]

end Manager

namespace Topology

variable {hashNode : NodeId → ℕ → ℕ} {s s' : Topology} {i : ℕ}

/-! ### The invariant -/

/-- What is known of a running upsert: what the ring and the table have of its node, and what its
copy has. -/
structure TaskOk (ring : NodeRing) (m : Manager) (t : RingTask) : Prop where
  inRing : t.node ∈ ring.nodeIds ↔ t.effects.isNew = false
  inTable : (m.nodes.lookup t.node).isSome ↔ t.state ≠ .left
  newStays : t.effects.isNew = true → t.state ≠ .left
  copy : ∀ copy, t.stage = .copied copy → ∀ n, n ∈ copy.nodeIds ↔
    if n = t.node then t.state ≠ .left else n ∈ ring.nodeIds

/-- Two running upserts are of different nodes, and one of them at most has a copy. -/
def Apart (t t' : RingTask) : Prop :=
  t.node ≠ t'.node ∧ (t.isCopied = true → t'.isCopied = false)

lemma Apart.symm (t t' : RingTask) (h : Apart t t') : Apart t' t := by
  refine ⟨h.1.symm, fun hcopied => ?_⟩
  by_contra hne
  rw [h.2 (Bool.not_eq_false _ ▸ hne)] at hcopied
  cases hcopied

structure Inv (s : Topology) : Prop where
  apart : s.tasks.Pairwise Apart
  free : ∀ n, (∀ t ∈ s.tasks, t.node ≠ n) →
    (n ∈ s.ring.nodeIds ↔ (s.manager.nodes.lookup n).isSome)
  tasks : ∀ t ∈ s.tasks, TaskOk s.ring s.manager t

lemma Inv.agrees (h : Inv s) : Agrees s := by
  intro hnil n
  exact h.free n (by simp [hnil])

lemma mem_changeRing {eff : Effects} {ring : NodeRing}
    (hin : eff.event.nodeId ∈ ring.nodeIds ↔ eff.isNew = false)
    (hnew : eff.isNew = true → eff.event.newState ≠ .left)
    (hpos : eff.event.newState = .left → ∃ p ∈ ring.positions, p.2 = eff.event.nodeId)
    (n : NodeId) :
    n ∈ (changeRing hashNode eff ring).nodeIds ↔
      if n = eff.event.nodeId then eff.event.newState ≠ .left else n ∈ ring.nodeIds := by
  unfold changeRing
  by_cases hisNew : eff.isNew = true
  · rw [if_pos hisNew, NodeRing.mem_nodeIds_addNode]
    split_ifs with hn
    · exact iff_of_true (.inl hn) (hnew hisNew)
    · exact or_iff_right hn
  · rw [if_neg hisNew]
    by_cases hleft : eff.event.newState = .left
    · obtain ⟨r', ranges, hok, -, hids, -⟩ := NodeRing.removeNode_eq (hpos hleft)
      rw [if_pos hleft, NodeRing.apply, hok, hids, mem_filter]
      split_ifs with hn
      · simp [hn, hleft]
      · simp [hn]
    · rw [if_neg hleft]
      split_ifs with hn
      · rw [hn]
        exact iff_of_true (hin.mpr (Bool.eq_false_iff.mpr hisNew)) hleft
      · rfl

/-! ### The steps -/

lemma Inv.congr_manager {m : Manager} (h : Inv s)
    (hsame : ∀ n, (m.nodes.lookup n).isSome = (s.manager.nodes.lookup n).isSome) :
    Inv { s with manager := m } := by
  refine ⟨h.apart, fun n hn => ?_, fun t ht => ?_⟩
  · rw [hsame]
    exact h.free n hn
  · have ht := h.tasks t ht
    exact { ht with inTable := by rw [hsame]; exact ht.inTable }

lemma Inv.update {u : Upsert} {eff : Effects} (h : Inv s) (heff : (s.manager.upsert u).2 = some eff)
    (halone : ∀ t ∈ s.tasks, t.node ≠ u.nodeId) (hnew : eff.isNew = true → u.state ≠ .left) :
    Inv { s with
      manager := (s.manager.upsert u).1
      tasks := s.tasks ++ [⟨eff, .updated⟩] } := by
  obtain ⟨hnode, hstate, hisNew, htable⟩ := Manager.upsert_effects heff
  have hnode' : RingTask.node ⟨eff, .updated⟩ = u.nodeId := hnode
  have hstate' : RingTask.state ⟨eff, .updated⟩ = u.state := hstate
  refine ⟨?_, fun n hn => ?_, fun t ht => ?_⟩
  · refine pairwise_append.mpr ⟨h.apart, pairwise_singleton _ _, fun t ht t' ht' => ?_⟩
    rw [mem_singleton.mp ht']
    exact ⟨hnode' ▸ halone t ht, fun _ => rfl⟩
  · obtain ⟨hn, hne⟩ := forall_mem_append.mp hn
    have hne := hne _ (mem_singleton_self _)
    rw [hnode'] at hne
    rw [Manager.lookup_upsert_of_ne hne.symm]
    exact h.free n hn
  · rcases mem_append.mp ht with ht | ht
    · have hok := h.tasks t ht
      have htable' : ((s.manager.upsert u).1.nodes.lookup t.node).isSome ↔ t.state ≠ .left := by
        rw [Manager.lookup_upsert_of_ne (halone t ht)]
        exact hok.inTable
      exact { hok with inTable := htable' }
    · rw [mem_singleton.mp ht]
      refine ⟨?_, ?_, ?_, fun _ hcopy => nomatch hcopy⟩
      · rw [hnode', h.free _ halone, ← Bool.not_eq_true, hisNew, isSome_iff_ne_none]
      · rw [hnode', hstate']
        exact htable
      · rw [hstate']
        exact hnew

lemma Inv.snapshot {eff : Effects} (h : Inv s) (hi : s.tasks[i]? = some ⟨eff, .updated⟩)
    (halone : ∀ t ∈ s.tasks.eraseIdx i, t.isCopied = false)
    (hpos : eff.event.newState = .left → ∃ p ∈ s.ring.positions, p.2 = eff.event.nodeId) :
    Inv { s with tasks := s.tasks.set i ⟨eff, .copied (changeRing hashNode eff s.ring)⟩ } := by
  have hok := h.tasks _ (mem_of_getElem? hi)
  refine ⟨?_, fun n hn => h.free n fun t ht => ?_, fun t ht => ?_⟩
  · refine Lists.pairwise_set Apart.symm h.apart hi fun t ht => ⟨?_, fun _ => halone t ht⟩
    exact (Lists.rel_of_mem_eraseIdx Apart.symm h.apart hi ht).1
  · by_cases heq : t = ⟨eff, .updated⟩
    · have hcopy := hn ⟨eff, .copied (changeRing hashNode eff s.ring)⟩
        (mem_set (List.getElem?_eq_some_iff.mp hi).1 _)
      rw [heq]
      exact hcopy
    · exact hn t (Lists.mem_set_of_ne hi ht heq)
  · rcases Lists.eq_or_mem_eraseIdx_of_set ht with rfl | ht
    · refine ⟨hok.inRing, hok.inTable, hok.newStays, ?_⟩
      intro copy hcopy n
      obtain rfl := RingStage.copied.inj hcopy
      exact mem_changeRing hok.inRing hok.newStays hpos n
    · exact h.tasks t (mem_of_mem_eraseIdx ht)

lemma Inv.publish {eff : Effects} {copy : NodeRing} (h : Inv s)
    (hi : s.tasks[i]? = some ⟨eff, .copied copy⟩) :
    Inv { s with ring := copy, tasks := s.tasks.eraseIdx i } := by
  have hok := h.tasks _ (mem_of_getElem? hi)
  have hmem : ∀ n, n ∈ copy.nodeIds ↔ _ := hok.copy copy rfl
  refine ⟨h.apart.sublist (eraseIdx_sublist _ _), fun n hn => ?_, fun t ht => ?_⟩
  · change n ∈ copy.nodeIds ↔ _
    rw [hmem]
    split_ifs with heq
    · rw [heq]
      exact hok.inTable.symm
    · refine h.free n fun t ht => ?_
      rcases Lists.eq_or_mem_eraseIdx hi ht with rfl | ht
      · exact Ne.symm heq
      · exact hn t ht
  · obtain ⟨hne, hcopied⟩ := Lists.rel_of_mem_eraseIdx Apart.symm h.apart hi ht
    have htask := h.tasks t (mem_of_mem_eraseIdx ht)
    refine { htask with inRing := ?_, copy := fun copy' hcopy' => ?_ }
    · rw [hmem, if_neg hne.symm]
      exact htask.inRing
    · -- no other upsert has a copy
      have hnot := hcopied rfl
      rw [RingTask.isCopied, hcopy'] at hnot
      cases hnot

theorem Inv.step {act : Act} (h : Inv s) (hok : ActOk s act) (hs : step hashNode s act = some s') :
    Inv s' := by
  cases act with
  | update u =>
    obtain rfl := some.inj hs
    cases heff : (s.manager.upsert u).2 with
    | none =>
      have hsame := h.congr_manager (Manager.isSome_lookup_upsert heff)
      simpa using hsame
    | some eff => exact h.update heff (hok eff heff).1 (hok eff heff).2
  | snapshot i =>
    simp only [Topology.step] at hs
    split at hs
    · rename_i eff hi
      obtain rfl := some.inj hs
      exact h.snapshot hi (hok _ hi).1 (hok _ hi).2
    · cases hs
  | publish i =>
    simp only [Topology.step] at hs
    split at hs
    · rename_i eff copy hi
      obtain rfl := some.inj hs
      exact h.publish hi
    · cases hs

end Topology

/-- **Ring and membership table agree**, from any table and ring that agree at the start. -/
theorem ring_agrees (hashNode : NodeId → ℕ → ℕ) (manager : Manager) (ring : NodeRing)
    (hinit : ∀ n, n ∈ ring.nodeIds ↔ (manager.nodes.lookup n).isSome) (acts : List Topology.Act)
    (hok : Guarded (Topology.step hashNode) Topology.ActOk ⟨manager, ring, []⟩ acts) :
    Always (Topology.step hashNode) Topology.Agrees ⟨manager, ring, []⟩ acts := by
  have h0 : Topology.Inv ⟨manager, ring, []⟩ := ⟨List.Pairwise.nil, fun n _ => hinit n, by simp⟩
  exact always_of_guarded (fun _ _ _ h ha hs => h.step ha hs) (fun _ h => h.agrees) h0 hok

/-- Node 1 hears of a node. -/
def heard (n : NodeId) (state : NodeState) (version : ℕ) : Topology.Act :=
  .update ⟨n, state, 1, some (.localhost 9000), version, n, some (.localhost 9001), none⟩

abbrev emptyTopology : Topology := ⟨.new 1, .new ⟨1, 3⟩, []⟩

/-- Two nodes come and one of them leaves, one after the other. -/
def orderly : List Topology.Act :=
  [heard 2 .alive 1, .snapshot 0, .publish 0, heard 3 .alive 1, .snapshot 0, .publish 0,
    heard 2 .left 2, .snapshot 0, .publish 0]

theorem orderly_ring_agrees :
    Guarded (Topology.step fun n _ => n) Topology.ActOk emptyTopology orderly ∧
      Always (Topology.step fun n _ => n) Topology.Agrees emptyTopology orderly ∧
      ∃ s ∈ run (Topology.step fun n _ => n) emptyTopology orderly, s.tasks.length = 0 ∧
        s.ring.nodeIds = [3] := by
  have hok : Guarded (Topology.step fun n _ => n) Topology.ActOk emptyTopology orderly := by
    decide +kernel
  have hinit : ∀ n, n ∈ (NodeRing.new ⟨1, 3⟩).nodeIds ↔
      ((Manager.new 1).nodes.lookup n).isSome := fun n => by simp [NodeRing.new, Manager.new]
  exact ⟨hok, ring_agrees _ _ _ hinit _ hok, by decide +kernel⟩

/-- **Two upserts that copy one ring**: the node that is published first is lost. And a node that is
heard of only when it has left is in the ring and not in the table. -/
theorem ring_loses_and_invents :
    ¬Always (Topology.step fun n _ => n) Topology.Agrees emptyTopology
        [heard 2 .alive 1, heard 3 .alive 1, .snapshot 0, .snapshot 1, .publish 0, .publish 0] ∧
      ¬Always (Topology.step fun n _ => n) Topology.Agrees emptyTopology
        [heard 2 .left 1, .snapshot 0, .publish 0] := by
  constructor <;>
  · rw [always_iff_run]
    intro h
    have hend := h _ _ prefix_rfl rfl rfl 2
    revert hend
    decide +kernel

end OceanFs.Membership
