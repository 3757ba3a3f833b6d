import OceanFs.Core.Types
import Mathlib.Data.List.AList
import Mathlib.Order.WithBot

/-!
The gossip protocol's view of the cluster.

Entries about a node are ordered by its incarnation, then by the authority of who has observed
them, and then by the observer's version. Deltas are merged entry by entry; a peer is sent the
entries that its version vector does not cover. An entry that the node adds itself is not compared
with the one that is there, apart from its incarnation.
-/

namespace OceanFs.Membership

open OceanFs.Core List Option

/-! ### Entries -/

inductive NodeState
  | alive
  | suspect
  | dead
  | leaving
  | left
  deriving DecidableEq

structure SocketAddr where
  ip : ℕ
  port : ℕ
  deriving DecidableEq

/-- An address of this host. -/
def SocketAddr.localhost (port : ℕ) : SocketAddr := ⟨0x7f000001, port⟩

/-- The storage pools of a node, as they are sent; nothing here looks into them. -/
abbrev NodeManifest := Bytes

structure NodeEntry where
  nodeId : NodeId
  incarnation : ℕ
  state : NodeState
  /-- The address of the membership plane. -/
  address : SocketAddr
  grpcAddress : SocketAddr
  version : ℕ
  origin : NodeId
  manifest : Option NodeManifest
  deriving DecidableEq

structure MembershipEvent where
  nodeId : NodeId
  oldState : NodeState
  newState : NodeState
  incarnation : ℕ
  address : Option SocketAddr
  version : ℕ
  origin : NodeId
  membershipAddress : Option SocketAddr
  manifest : Option NodeManifest
  deriving DecidableEq

/-! ### Authority -/

def authorityClass (target origin : NodeId) (state : NodeState) (self : NodeId) : ℕ :=
  if target = self then if origin = self then 4 else 0
  else match state with
    | .leaving | .left => if origin = target then 4 else if origin = self then 3 else 2
    | .suspect | .dead => if origin = self then 3 else if origin = target then 1 else 2
    | .alive => if origin = self then 3 else if origin = target then 1 else 2

lemma authorityClass_self (self origin : NodeId) (state : NodeState) :
    authorityClass self origin state self = if origin = self then 4 else 0 :=
  if_pos rfl

/-- What an observer says about a node, without the node. -/
structure Fact where
  state : NodeState
  origin : NodeId
  version : ℕ

namespace Fact

variable (self target : NodeId)

def authority (f : Fact) : ℕ := authorityClass target f.origin f.state self

/-- The order of two facts about one incarnation of a node. -/
def overrides (new old : Fact) : Bool :=
  if new.authority self target < old.authority self target then false
  else if new.authority self target = old.authority self target then
    new.origin = old.origin && old.version < new.version
  else true

lemma overrides_iff {self target : NodeId} {new old : Fact} :
    new.overrides self target old = true ↔
      old.authority self target < new.authority self target ∨
      new.authority self target = old.authority self target ∧ new.origin = old.origin ∧
        old.version < new.version := by
  unfold overrides
  split_ifs with hlt heq
  · simp only [false_iff]
    omega
  · simp [heq]
  · simp only [true_iff]
    omega

end Fact

def NodeEntry.fact (e : NodeEntry) : Fact := ⟨e.state, e.origin, e.version⟩

/-! ### The protocol -/

abbrev VersionVector := NodeId → NodeId → Option ℕ

/-- Nothing is ever taken out of the entries, so an incarnation is recorded for a node just if there
is an entry. -/
structure GossipProtocol where
  nodeId : NodeId
  nodes : AList fun _ : NodeId => NodeEntry
  incarnations : NodeId → Option ℕ
  watermarks : NodeId → Option VersionVector
  keyed : ∀ n e, nodes.lookup n = some e → e.nodeId = n
  recorded : ∀ n, incarnations n = (nodes.lookup n).map (·.incarnation)

namespace GossipProtocol

variable {g : GossipProtocol} {e : NodeEntry} {n : NodeId}

def new (nodeId : NodeId) : GossipProtocol where
  nodeId := nodeId
  nodes := ∅
  incarnations _ := none
  watermarks _ := none
  keyed := by simp
  recorded := by simp

/-- The two inserts that end `merge_delta` and `add_node`. -/
def insert (g : GossipProtocol) (e : NodeEntry) : GossipProtocol :=
  { g with
    nodes := g.nodes.insert e.nodeId e
    incarnations := Function.update g.incarnations e.nodeId (some e.incarnation)
    keyed := by
      intro n e' h
      rcases eq_or_ne n e.nodeId with rfl | hne
      · rw [AList.lookup_insert] at h
        rw [← some.inj h]
      · rw [AList.lookup_insert_ne hne] at h
        exact g.keyed n e' h
    recorded := by
      intro n
      rcases eq_or_ne n e.nodeId with rfl | hne
      · simp
      · rw [AList.lookup_insert_ne hne, Function.update_of_ne hne]
        exact g.recorded n }

/-- An entry of a delta is taken. -/
def admits (g : GossipProtocol) (e : NodeEntry) : Bool :=
  let current := (g.incarnations e.nodeId).getD 0
  if e.incarnation < current then false
  else if e.incarnation = current then
    match g.nodes.lookup e.nodeId with
    | none => !decide (0 < current)
    | some l => e.fact.overrides g.nodeId e.nodeId l.fact
  else true

/-- A manifest that an entry does not carry is kept. -/
def accepted (g : GossipProtocol) (e : NodeEntry) : NodeEntry :=
  { e with manifest := e.manifest.or ((g.nodes.lookup e.nodeId).bind (·.manifest)) }

/-- The manager is told about the entry. -/
def announces (g : GossipProtocol) (e : NodeEntry) : Bool :=
  match g.nodes.lookup e.nodeId with
  | none => true
  | some l => l.state ≠ e.state || l.address ≠ e.address || l.incarnation ≠ e.incarnation ||
      l.manifest ≠ (g.accepted e).manifest

def event (g : GossipProtocol) (e : NodeEntry) : MembershipEvent where
  nodeId := e.nodeId
  oldState := ((g.nodes.lookup e.nodeId).map (·.state)).getD .alive
  newState := e.state
  incarnation := e.incarnation
  address := some e.grpcAddress
  version := e.version
  origin := e.origin
  membershipAddress := some e.address
  manifest := e.manifest

def mergeEntry (g : GossipProtocol) (e : NodeEntry) : GossipProtocol × Option MembershipEvent :=
  if g.admits e then
    (g.insert (g.accepted e), if g.announces e then some (g.event e) else none)
  else (g, none)

/-- The loop of `merge_delta`, with the events it sends. -/
def mergeDelta (g : GossipProtocol) : List NodeEntry → GossipProtocol × List MembershipEvent
  | [] => (g, [])
  | e :: rest =>
    let (g', event) := g.mergeEntry e
    let (g'', events) := mergeDelta g' rest
    (g'', event.toList ++ events)

def addNode (g : GossipProtocol) (e : NodeEntry) : GossipProtocol :=
  let recorded := (g.incarnations e.nodeId).getD 0
  if e.incarnation < recorded then g
  else if e.incarnation = recorded ∧ 0 < recorded ∧ (g.nodes.lookup e.nodeId).isNone then g
  else g.insert e

def entries (g : GossipProtocol) : List NodeEntry := g.nodes.entries.map (·.2)

def buildDelta (g : GossipProtocol) : List NodeEntry := g.entries

/-- The peer's vector does not cover the entry. -/
def newFor (watermark : Option VersionVector) (e : NodeEntry) : Bool :=
  match watermark.bind fun vector => vector e.nodeId e.origin with
  | none => true
  | some known => known < e.version

def buildDeltaFor (g : GossipProtocol) (peer : NodeId) : List NodeEntry :=
  g.entries.filter (newFor (g.watermarks peer))

/-- There is one origin for each node. -/
def versionVector (g : GossipProtocol) : VersionVector := fun n origin =>
  (g.nodes.lookup n).bind fun e => if e.origin = origin then some e.version else none

/-- `Ack`: the peer's pull is merged, its vector is kept. -/
def ack (g : GossipProtocol) (peer : NodeId) (delta : List NodeEntry) (vector : VersionVector) :
    GossipProtocol × List MembershipEvent :=
  let (g', events) := g.mergeDelta delta
  ({ g' with watermarks := Function.update g'.watermarks peer (some vector) }, events)

/-! ### What the operations do to one node's entry -/

@[simp] lemma lookup_insert_self : (g.insert e).nodes.lookup e.nodeId = some e :=
  AList.lookup_insert _

lemma lookup_insert_of_ne (h : n ≠ e.nodeId) :
    (g.insert e).nodes.lookup n = g.nodes.lookup n :=
  AList.lookup_insert_ne h

lemma admits_iff : g.admits e = true ↔
    ∀ l, g.nodes.lookup e.nodeId = some l → l.incarnation < e.incarnation ∨
      l.incarnation = e.incarnation ∧ e.fact.overrides g.nodeId e.nodeId l.fact = true := by
  unfold admits
  rw [g.recorded]
  cases hl : g.nodes.lookup e.nodeId with
  | none =>
    simp only [map_none, getD_none, Nat.not_lt_zero, if_false]
    split_ifs <;> simp
  | some l =>
    simp only [map_some, getD_some, some.injEq, forall_eq']
    split_ifs with hlt heq
    · simp only [false_iff]
      omega
    · simp [heq]
    · simp only [true_iff]
      omega

lemma mergeEntry_fst : (g.mergeEntry e).1 = if g.admits e then g.insert (g.accepted e) else g := by
  unfold mergeEntry
  split_ifs <;> rfl

lemma nodeId_mergeEntry : (g.mergeEntry e).1.nodeId = g.nodeId := by
  rw [mergeEntry_fst]
  split_ifs <;> rfl

lemma lookup_mergeEntry_of_ne (h : n ≠ e.nodeId) :
    (g.mergeEntry e).1.nodes.lookup n = g.nodes.lookup n := by
  rw [mergeEntry_fst]
  split_ifs
  · exact lookup_insert_of_ne h
  · rfl

lemma lookup_mergeEntry_self :
    (g.mergeEntry e).1.nodes.lookup e.nodeId =
      if g.admits e then some (g.accepted e) else g.nodes.lookup e.nodeId := by
  rw [mergeEntry_fst]
  split_ifs
  · exact lookup_insert_self
  · rfl

lemma mergeDelta_cons (rest : List NodeEntry) :
    g.mergeDelta (e :: rest) = (((g.mergeEntry e).1.mergeDelta rest).1,
      (g.mergeEntry e).2.toList ++ ((g.mergeEntry e).1.mergeDelta rest).2) := rfl

/-! ### Merging only raises entries -/

/-- The incarnation, the authority and the version of an entry. -/
def rank (self : NodeId) (e : NodeEntry) : ℕ ×ₗ ℕ ×ₗ ℕ :=
  toLex (e.incarnation, toLex (e.fact.authority self e.nodeId, e.version))

def rankAt (g : GossipProtocol) (n : NodeId) : WithBot (ℕ ×ₗ ℕ ×ₗ ℕ) :=
  (g.nodes.lookup n).map (rank g.nodeId)

lemma admits_congr {g' : GossipProtocol} (hid : g'.nodeId = g.nodeId)
    (hlookup : g'.nodes.lookup e.nodeId = g.nodes.lookup e.nodeId) :
    g'.admits e = g.admits e := by
  rw [Bool.eq_iff_iff, admits_iff, admits_iff, hid, hlookup]

lemma rankAt_lt_of_admits (h : g.admits e = true) :
    g.rankAt e.nodeId < (g.mergeEntry e).1.rankAt e.nodeId := by
  rw [rankAt, rankAt, lookup_mergeEntry_self, if_pos h, nodeId_mergeEntry]
  cases hl : g.nodes.lookup e.nodeId with
  | none => exact WithBot.bot_lt_coe _
  | some l =>
    refine WithBot.coe_lt_coe.mpr ?_
    have hkey := g.keyed _ l hl
    rcases admits_iff.mp h l hl with hinc | ⟨hinc, hover⟩
    · exact Prod.Lex.toLex_lt_toLex.mpr (.inl hinc)
    · refine Prod.Lex.toLex_lt_toLex.mpr (.inr ⟨hinc, Prod.Lex.toLex_lt_toLex.mpr ?_⟩)
      rw [hkey]
      rcases Fact.overrides_iff.mp hover with hlt | ⟨heq, -, hversion⟩
      · exact .inl hlt
      · exact .inr ⟨heq.symm, hversion⟩

lemma rankAt_mergeEntry_le (n : NodeId) : g.rankAt n ≤ (g.mergeEntry e).1.rankAt n := by
  rcases eq_or_ne n e.nodeId with rfl | hne
  · by_cases h : g.admits e = true
    · exact (rankAt_lt_of_admits h).le
    · rw [mergeEntry_fst, if_neg h]
  · have hsame : (g.mergeEntry e).1.rankAt n = g.rankAt n := by
      rw [rankAt, rankAt, lookup_mergeEntry_of_ne hne, nodeId_mergeEntry]
    exact hsame.ge

variable (delta : List NodeEntry)

lemma rankAt_mergeDelta_le (n : NodeId) :
    g.rankAt n ≤ (g.mergeDelta delta).1.rankAt n := by
  induction delta generalizing g with
  | nil => exact le_rfl
  | cons e rest ih => exact (rankAt_mergeEntry_le n).trans ih

lemma nodeId_mergeDelta : (g.mergeDelta delta).1.nodeId = g.nodeId := by
  induction delta generalizing g with
  | nil => rfl
  | cons e rest ih => exact ih.trans nodeId_mergeEntry

lemma lookup_mergeDelta_eq_iff (n : NodeId) :
    (g.mergeDelta delta).1.nodes.lookup n = g.nodes.lookup n ↔
      ∀ e ∈ delta, e.nodeId = n → g.admits e = false := by
  induction delta generalizing g with
  | nil => simp [mergeDelta]
  | cons e rest ih =>
    rw [mergeDelta_cons, forall_mem_cons]
    by_cases htaken : e.nodeId = n ∧ g.admits e = true
    · obtain ⟨rfl, htaken⟩ := htaken
      refine iff_of_false (fun hsame => ?_) fun h => by simp [htaken] at h
      have hlt := (rankAt_lt_of_admits htaken).trans_le
        (rankAt_mergeDelta_le (g := (g.mergeEntry e).1) rest e.nodeId)
      rw [rankAt, rankAt, hsame, nodeId_mergeDelta, nodeId_mergeEntry] at hlt
      exact lt_irrefl _ hlt
    · have hkept : (g.mergeEntry e).1.nodes.lookup n = g.nodes.lookup n := by
        rcases eq_or_ne n e.nodeId with rfl | hne
        · rw [lookup_mergeEntry_self, if_neg fun h => htaken ⟨rfl, h⟩]
        · exact lookup_mergeEntry_of_ne hne
      rw [← hkept, ih]
      have hcongr : ∀ e' : NodeEntry, e'.nodeId = n →
          (g.mergeEntry e).1.admits e' = g.admits e' := by
        rintro e' rfl
        exact admits_congr nodeId_mergeEntry hkept
      constructor
      · intro h
        refine ⟨fun hn => by simpa [hn] using htaken, fun e' he' hn => ?_⟩
        rw [← hcongr e' hn]
        exact h e' he' hn
      · rintro ⟨-, h⟩ e' he' hn
        rw [hcongr e' hn]
        exact h e' he' hn

lemma nodeId_addNode (e : NodeEntry) : (g.addNode e).nodeId = g.nodeId := by
  unfold addNode
  dsimp only
  split_ifs <;> rfl

lemma addNode_eq : g.addNode e =
    if ∃ l, g.nodes.lookup e.nodeId = some l ∧ e.incarnation < l.incarnation then g
    else g.insert e := by
  unfold addNode
  rw [g.recorded]
  cases hl : g.nodes.lookup e.nodeId with
  | none => simp
  | some l => simp

/-! ### Entries that come again -/

/-- An entry that has been merged or refused is not taken later: what overrides a fact overrides all
that the fact has overridden. -/
lemma admits_mergeEntry {e' : NodeEntry} (h : e = e' ∨ g.admits e = false) :
    (g.mergeEntry e').1.admits e = false := by
  by_cases hnew : e.nodeId = e'.nodeId ∧ g.admits e' = true
  · obtain ⟨hid, hadmits⟩ := hnew
    rw [Bool.eq_false_iff, Ne, admits_iff, hid, lookup_mergeEntry_self, if_pos hadmits,
      nodeId_mergeEntry]
    intro hlater
    have hover := hlater _ rfl
    simp only [accepted, NodeEntry.fact, Fact.overrides_iff] at hover
    rcases h with rfl | h
    · omega
    · rw [Bool.eq_false_iff, Ne, admits_iff, hid] at h
      refine h fun l hl => ?_
      have hfirst := admits_iff.mp hadmits l hl
      simp only [NodeEntry.fact, Fact.overrides_iff] at hfirst ⊢
      grind
  · have hold : g.admits e = false := by
      rcases h with rfl | h
      · simpa using hnew
      · exact h
    rw [admits_congr nodeId_mergeEntry, hold]
    rcases eq_or_ne e.nodeId e'.nodeId with hid | hne
    · rw [hid, lookup_mergeEntry_self, if_neg fun ha => hnew ⟨hid, ha⟩]
    · exact lookup_mergeEntry_of_ne hne

lemma admits_mergeDelta {delta : List NodeEntry} (h : e ∈ delta ∨ g.admits e = false) :
    (g.mergeDelta delta).1.admits e = false := by
  induction delta generalizing g with
  | nil => exact h.resolve_left not_mem_nil
  | cons e' rest ih =>
    rcases h with he | h
    · rcases mem_cons.mp he with he | he
      · exact ih (.inr (admits_mergeEntry (.inl he)))
      · exact ih (.inl he)
    · exact ih (.inr (admits_mergeEntry (.inr h)))

lemma mergeDelta_filter {seen : List NodeEntry} (h : ∀ e ∈ seen, g.admits e = false)
    (delta : List NodeEntry) : g.mergeDelta delta = g.mergeDelta (delta.filter (· ∉ seen)) := by
  induction delta generalizing g with
  | nil => rfl
  | cons e rest ih =>
    rw [mergeDelta_cons]
    by_cases he : e ∈ seen
    · have hsame : g.mergeEntry e = (g, none) := by simp [mergeEntry, h e he]
      rw [filter_cons_of_neg (by simpa using he), hsame, ih h]
      rfl
    · rw [filter_cons_of_pos (by simpa using he), mergeDelta_cons,
        ih fun e he => admits_mergeEntry (.inr (h e he))]

/-- **Gossip may come late, twice and in any order**: whatever entries have been merged, those of
them that a later delta has again make no difference to the view or to what the manager is told. -/
theorem mergeDelta_of_seen (g : GossipProtocol) (history delta : List NodeEntry) :
    (g.mergeDelta history).1.mergeDelta delta =
      (g.mergeDelta history).1.mergeDelta (delta.filter (· ∉ history)) :=
  mergeDelta_filter (fun _ he => admits_mergeDelta (.inl he)) delta

end GossipProtocol

end OceanFs.Membership
