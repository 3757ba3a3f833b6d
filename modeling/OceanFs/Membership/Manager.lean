import OceanFs.Membership.Gossip

/-!
The membership table.

An upsert is checked against the recorded incarnation, which outlives the entry of a node that has
left, then against the entry that is there. A node that dies keeps its entry, one that leaves does
not. Only a change of the state, or a new node, goes on to the ring and to the gossip protocol.
-/

namespace OceanFs.Membership

open OceanFs.Core

structure StoredEntry where
  state : NodeState
  incarnation : ℕ
  /-- The address of the data plane. -/
  address : SocketAddr
  membershipAddress : SocketAddr
  version : ℕ
  origin : NodeId
  manifest : Option NodeManifest
  deriving DecidableEq

def StoredEntry.fact (e : StoredEntry) : Fact := ⟨e.state, e.origin, e.version⟩

/-- The table of a node. A node that has left has no entry. -/
structure Manager where
  nodeId : NodeId
  nodes : AList fun _ : NodeId => StoredEntry
  incarnations : NodeId → Option ℕ
  noLeft : ∀ n e, nodes.lookup n = some e → e.state ≠ .left

/-- The arguments of `upsert_node_attributed_inner`. -/
structure Upsert where
  nodeId : NodeId
  state : NodeState
  incarnation : ℕ
  address : Option SocketAddr
  version : ℕ
  origin : NodeId
  membershipAddress : Option SocketAddr
  manifest : Option NodeManifest
  deriving DecidableEq

def Upsert.fact (u : Upsert) : Fact := ⟨u.state, u.origin, u.version⟩

/-- The event handler. -/
def Upsert.ofEvent (e : MembershipEvent) : Upsert where
  nodeId := e.nodeId
  state := e.newState
  incarnation := e.incarnation
  address := e.address
  version := e.version
  origin := e.origin
  membershipAddress := e.membershipAddress
  manifest := e.manifest

/-- What an upsert that changes a state does after it has released the table. -/
structure Effects where
  event : MembershipEvent
  /-- The ring gets the node; otherwise it loses it if it has left. -/
  isNew : Bool
  addNode : NodeEntry
  deriving DecidableEq

namespace Manager

variable {m : Manager} {u : Upsert} {n : NodeId}

def new (nodeId : NodeId) : Manager where
  nodeId := nodeId
  nodes := ∅
  incarnations _ := none
  noLeft := by simp

def put (m : Manager) (n : NodeId) (e : StoredEntry) (h : e.state ≠ .left) : Manager :=
  { m with
    nodes := m.nodes.insert n e
    incarnations := Function.update m.incarnations n (some e.incarnation)
    noLeft := by
      intro n' e' h'
      rcases eq_or_ne n' n with rfl | hne
      · rw [AList.lookup_insert] at h'
        rwa [← Option.some.inj h']
      · rw [AList.lookup_insert_ne hne] at h'
        exact m.noLeft n' e' h' }

def remove (m : Manager) (n : NodeId) (incarnation : ℕ) : Manager :=
  { m with
    nodes := m.nodes.erase n
    incarnations := Function.update m.incarnations n (some incarnation)
    noLeft := by
      intro n' e' h'
      rcases eq_or_ne n' n with rfl | hne
      · rw [AList.lookup_erase] at h'
        cases h'
      · rw [AList.lookup_erase_ne hne] at h'
        exact m.noLeft n' e' h' }

/-- The node may only come back with a higher incarnation. -/
def readmissionGated (m : Manager) (n : NodeId) : Bool :=
  match m.nodes.lookup n with
  | none => true
  | some e => e.state = .dead || e.state = .left

def rejects (m : Manager) (u : Upsert) : Bool :=
  (m.readmissionGated u.nodeId && (m.incarnations u.nodeId).any (u.incarnation ≤ ·)) ||
  (m.incarnations u.nodeId).any (u.incarnation < ·) ||
  (u.nodeId = m.nodeId && u.origin ≠ m.nodeId) ||
  (m.nodes.lookup u.nodeId).any fun l =>
    u.incarnation = l.incarnation && !u.fact.overrides m.nodeId u.nodeId l.fact

/-- A placeholder that refuses connections. -/
def nullAddress : SocketAddr := .localhost 1

def effectiveIncarnation (m : Manager) (u : Upsert) : ℕ :=
  (m.incarnations u.nodeId).elim u.incarnation (max · u.incarnation)

def effectiveManifest (m : Manager) (u : Upsert) : Option NodeManifest :=
  u.manifest.or ((m.nodes.lookup u.nodeId).bind (·.manifest))

/-- The address that is stored; a node that is not dead needs a known one. -/
def effectiveAddress (m : Manager) (u : Upsert) : Option SocketAddr :=
  let known := u.address.or ((m.nodes.lookup u.nodeId).map (·.address))
  if u.state = .dead then some (known.getD nullAddress) else known

/-- The entry that an upsert stores. -/
def stored (m : Manager) (u : Upsert) (address : SocketAddr) : StoredEntry where
  state := u.state
  incarnation := m.effectiveIncarnation u
  address := address
  membershipAddress := u.membershipAddress.getD
    (((m.nodes.lookup u.nodeId).map (·.membershipAddress)).getD address)
  version := u.version
  origin := u.origin
  manifest := m.effectiveManifest u

def effects (m : Manager) (u : Upsert) (address : Option SocketAddr) : Option Effects :=
  let old := m.nodes.lookup u.nodeId
  if old.all (·.state ≠ u.state) then some
    { event :=
        { nodeId := u.nodeId
          oldState := (old.map (·.state)).getD .alive
          newState := u.state
          incarnation := m.effectiveIncarnation u
          address := address
          version := u.version
          origin := u.origin
          membershipAddress := u.membershipAddress
          manifest := m.effectiveManifest u }
      isNew := old.isNone
      addNode :=
        { nodeId := u.nodeId
          incarnation := m.effectiveIncarnation u
          state := u.state
          address := u.membershipAddress.getD
            ((old.map (·.membershipAddress)).getD (.localhost 9001))
          grpcAddress := address.getD (.localhost 9001)
          version := u.version
          origin := u.origin
          manifest := m.effectiveManifest u } }
  else none

def upsert (m : Manager) (u : Upsert) : Manager × Option Effects :=
  if m.rejects u then (m, none)
  else if h : u.state = .left then
    (m.remove u.nodeId (m.effectiveIncarnation u), m.effects u (m.effectiveAddress u))
  else match m.effectiveAddress u with
    | none => (m, none)
    | some address => (m.put u.nodeId (m.stored u address) h, m.effects u (some address))

/-! ### What an upsert does to the table -/

@[simp] lemma lookup_put_self {e : StoredEntry} (h : e.state ≠ .left) :
    (m.put n e h).nodes.lookup n = some e :=
  AList.lookup_insert _

lemma lookup_put_of_ne {n' : NodeId} {e : StoredEntry} (h : e.state ≠ .left) (hne : n' ≠ n) :
    (m.put n e h).nodes.lookup n' = m.nodes.lookup n' :=
  AList.lookup_insert_ne hne

@[simp] lemma lookup_remove_self {incarnation : ℕ} :
    (m.remove n incarnation).nodes.lookup n = none :=
  AList.lookup_erase ..

lemma lookup_remove_of_ne {n' : NodeId} {incarnation : ℕ} (hne : n' ≠ n) :
    (m.remove n incarnation).nodes.lookup n' = m.nodes.lookup n' :=
  AList.lookup_erase_ne hne

/-- **What an upsert does**: nothing, or it removes the node's entry, or it stores one. -/
lemma upsert_cases (m : Manager) (u : Upsert) :
    m.upsert u = (m, none) ∧
        (m.rejects u = true ∨ u.state ≠ .left ∧ m.effectiveAddress u = none) ∨
      m.rejects u = false ∧ u.state = .left ∧ m.upsert u =
        (m.remove u.nodeId (m.effectiveIncarnation u), m.effects u (m.effectiveAddress u)) ∨
      ∃ (h : u.state ≠ .left) (address : SocketAddr), m.rejects u = false ∧
        m.effectiveAddress u = some address ∧
        m.upsert u = (m.put u.nodeId (m.stored u address) h, m.effects u (some address)) := by
  unfold upsert
  split_ifs with hrej hleft
  · exact .inl ⟨rfl, .inl hrej⟩
  · exact .inr (.inl ⟨by simpa using hrej, hleft, rfl⟩)
  · split
    · exact .inl ⟨rfl, .inr ⟨hleft, by assumption⟩⟩
    · exact .inr (.inr ⟨hleft, _, by simpa using hrej, by assumption, rfl⟩)

lemma nodeId_upsert : (m.upsert u).1.nodeId = m.nodeId := by
  rcases m.upsert_cases u with ⟨h, -⟩ | ⟨-, -, h⟩ | ⟨_, _, -, -, h⟩ <;> rw [h] <;> rfl

lemma lookup_upsert_of_ne (hne : n ≠ u.nodeId) :
    (m.upsert u).1.nodes.lookup n = m.nodes.lookup n := by
  rcases m.upsert_cases u with ⟨h, -⟩ | ⟨-, -, h⟩ | ⟨hleft, _, -, -, h⟩
  · rw [h]
  · rw [h]
    exact lookup_remove_of_ne hne
  · rw [h]
    exact lookup_put_of_ne hleft hne

lemma upsert_self (hself : u.nodeId = m.nodeId) (horigin : u.origin ≠ m.nodeId) :
    m.upsert u = (m, none) := by
  rw [upsert, if_pos (by simp [rejects, hself, horigin])]

end Manager

/-- The two views that a node has of the cluster. -/
structure Views where
  self : NodeId
  gossip : GossipProtocol
  manager : Manager
  gossip_nodeId : gossip.nodeId = self
  manager_nodeId : manager.nodeId = self

end OceanFs.Membership
