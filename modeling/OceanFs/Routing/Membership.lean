import OceanFs.Routing.Ring
import OceanFs.Lib.FirstOccurrences
import Mathlib.Data.Finset.Card
import Mathlib.Data.List.Sort

/-!
Nodes that join and leave the ring.

The positions are those of the nodes in the ring, whatever the order in which they came. A lookup
takes the first nodes on the walk, and leaving out a node commutes with that: the result loses the
node and gains the next one.
-/

namespace OceanFs.Routing

open OceanFs.Core Lib.FirstOccurrences List

/-! ### Adding and removing nodes -/

structure RingConfig where
  vnodesPerNode : UInt32
  replicationFactor : UInt8

/-- A ring with what its changes read: the number of virtual nodes and the known nodes. -/
structure NodeRing extends Ring where
  vnodesPerNode : UInt32
  nodeIds : List NodeId

structure VnodeRange where
  start : ℕ
  stop : ℕ
  deriving DecidableEq

inductive Error where
  | nodeNotFound (node : NodeId)
  deriving DecidableEq

/-- `BTreeMap::insert`. -/
def insertPosition (pos : ℕ) (node : NodeId) : List (ℕ × NodeId) → List (ℕ × NodeId)
  | [] => [(pos, node)]
  | p :: rest =>
    if pos < p.1 then (pos, node) :: p :: rest
    else if pos = p.1 then (pos, node) :: rest
    else p :: insertPosition pos node rest

lemma mem_insertPosition {pos : ℕ} {node : NodeId} {l : List (ℕ × NodeId)}
    (h : l.Pairwise fun p q => p.1 < q.1) {q : ℕ × NodeId} :
    q ∈ insertPosition pos node l ↔ q = (pos, node) ∨ q ∈ l ∧ q.1 ≠ pos := by
  induction l with
  | nil => simp [insertPosition]
  | cons p rest ih =>
    obtain ⟨hp, hrest⟩ := pairwise_cons.mp h
    rw [insertPosition]
    split_ifs with hlt heq
    · have hne : ∀ q ∈ p :: rest, q.1 ≠ pos := by
        intro q hq
        rcases mem_cons.mp hq with rfl | hq
        · omega
        · have := hp q hq
          omega
      rw [mem_cons]
      exact or_congr_right ⟨fun hq => ⟨hq, hne q hq⟩, fun hq => hq.1⟩
    · have hne : ∀ q ∈ rest, q.1 ≠ pos := fun q hq => by
        have := hp q hq
        omega
      simp only [mem_cons]
      refine or_congr_right ⟨fun hq => ⟨.inr hq, hne q hq⟩, ?_⟩
      rintro ⟨rfl | hq, hqpos⟩
      · exact absurd heq.symm hqpos
      · exact hq
    · rw [mem_cons, ih hrest, mem_cons]
      constructor
      · rintro (rfl | rfl | ⟨hq, hqpos⟩)
        · exact .inr ⟨.inl rfl, fun h => heq h.symm⟩
        · exact .inl rfl
        · exact .inr ⟨.inr hq, hqpos⟩
      · rintro (rfl | ⟨rfl | hq, hqpos⟩)
        · exact .inr (.inl rfl)
        · exact .inl rfl
        · exact .inr (.inr ⟨hq, hqpos⟩)

lemma pairwise_insertPosition (pos : ℕ) (node : NodeId) {l : List (ℕ × NodeId)}
    (h : l.Pairwise fun p q => p.1 < q.1) :
    (insertPosition pos node l).Pairwise fun p q => p.1 < q.1 := by
  induction l with
  | nil => simp [insertPosition]
  | cons p rest ih =>
    obtain ⟨hp, hrest⟩ := pairwise_cons.mp h
    rw [insertPosition]
    split_ifs with hlt heq
    · refine pairwise_cons.mpr ⟨fun q hq => ?_, h⟩
      rcases mem_cons.mp hq with rfl | hq
      · exact hlt
      · exact hlt.trans (hp q hq)
    · exact pairwise_cons.mpr ⟨fun q hq => heq ▸ hp q hq, hrest⟩
    · refine pairwise_cons.mpr ⟨fun q hq => ?_, ih hrest⟩
      rcases (mem_insertPosition hrest).mp hq with rfl | ⟨hq, -⟩
      · simp only
        omega
      · exact hp q hq

section

variable (hashNode : NodeId → ℕ → ℕ)

/-- The first `count` virtual positions of a node are inserted. -/
def insertPositions (node : NodeId) (count : ℕ) (l : List (ℕ × NodeId)) : List (ℕ × NodeId) :=
  (List.range count).foldl (fun l i => insertPosition (hashNode node i) node l) l

lemma insertPositions_succ (node : NodeId) (count : ℕ) (l : List (ℕ × NodeId)) :
    insertPositions hashNode node (count + 1) l =
      insertPosition (hashNode node count) node (insertPositions hashNode node count l) := by
  simp [insertPositions, range_succ]

lemma pairwise_insertPositions (node : NodeId) (count : ℕ) {l : List (ℕ × NodeId)}
    (h : l.Pairwise fun p q => p.1 < q.1) :
    (insertPositions hashNode node count l).Pairwise fun p q => p.1 < q.1 := by
  induction count with
  | zero => exact h
  | succ count ih =>
    rw [insertPositions_succ]
    exact pairwise_insertPosition _ _ ih

namespace NodeRing

def new (config : RingConfig) : NodeRing where
  positions := []
  sorted := List.Pairwise.nil
  replicationFactor := config.replicationFactor
  vnodesPerNode := config.vnodesPerNode
  nodeIds := []

def addNode (r : NodeRing) (node : NodeId) : NodeRing × List VnodeRange :=
  ({ r with
    positions := insertPositions hashNode node r.vnodesPerNode.toNat r.positions
    sorted := pairwise_insertPositions hashNode node _ r.sorted
    nodeIds := if node ∈ r.nodeIds then r.nodeIds else r.nodeIds ++ [node] },
   (List.range r.vnodesPerNode.toNat).map fun i => ⟨hashNode node i, hashNode node i⟩)

def removeNode (r : NodeRing) (node : NodeId) : Except Error (NodeRing × List VnodeRange) :=
  let positionsToRemove := r.positions.filter (·.2 = node)
  if positionsToRemove = [] then .error (.nodeNotFound node)
  else .ok
    ({ r with
      positions := r.positions.filter (·.2 ≠ node)
      sorted := r.sorted.filter _
      nodeIds := r.nodeIds.filter (· ≠ node) },
     positionsToRemove.map fun p => ⟨p.1, p.1⟩)

end NodeRing

inductive Call where
  | add (node : NodeId)
  | remove (node : NodeId)
  deriving DecidableEq

def Call.node : Call → NodeId
  | .add node => node
  | .remove node => node

/-- A call; a removal that fails leaves the ring as it is. -/
def NodeRing.apply (r : NodeRing) : Call → NodeRing
  | .add node => (r.addNode hashNode node).1
  | .remove node =>
    match r.removeNode node with
    | .ok (r', _) => r'
    | .error _ => r

def run (config : RingConfig) (calls : List Call) : NodeRing :=
  calls.foldl (NodeRing.apply hashNode) (NodeRing.new config)

end

/-- The nodes that are in the ring after some calls. -/
def members (calls : List Call) : Finset NodeId :=
  calls.foldl (fun s call =>
    match call with
    | .add node => insert node s
    | .remove node => s.erase node) ∅

/-- A lookup with any replication factor. -/
def Ring.lookupWith (ring : Ring) (factor keyHash : ℕ) : List NodeId :=
  let start := (ring.positions.takeWhile fun p => p.1 < keyHash).length
  collect factor [] ((ring.positions.rotate start).map Prod.snd)

/-! ### The walk of a lookup -/

lemma collect_eq {factor : ℕ} {result : List NodeId} (rest : List NodeId)
    (h : result.length < factor) :
    collect factor result rest =
      result ++ ((rest.filter (· ∉ result)).eraseDups).take (factor - result.length) := by
  induction rest generalizing result with
  | nil => simp [collect]
  | cons n rest ih =>
    rw [collect]
    split_ifs with hn hfull
    · rw [filter_cons_of_neg (by simpa using hn), ih h]
    · -- the last node
      have hone : factor - result.length = 0 + 1 := by
        simp only [length_append, length_singleton] at hfull
        omega
      rw [filter_cons_of_pos (by simpa using hn), eraseDups_cons, hone, take_succ_cons, take_zero]
    · simp only [length_append, length_singleton] at hfull
      have hmore : factor - result.length = (factor - (result.length + 1)) + 1 := by omega
      have hfilter : rest.filter (· ∉ result ++ [n]) =
          (rest.filter (· ∉ result)).filter (fun b => !b == n) := by
        rw [filter_filter]
        refine filter_congr fun b _ => ?_
        by_cases hb : b = n <;> simp [hb]
      rw [filter_cons_of_pos (by simpa using hn), eraseDups_cons, hmore,
        take_succ_cons, ih (by simp; omega), hfilter, append_assoc, singleton_append,
        length_append, length_singleton]

lemma takeWhile_eq_filter {l : List (ℕ × NodeId)} (h : l.Pairwise fun p q => p.1 < q.1) (k : ℕ) :
    (l.takeWhile fun p => p.1 < k) = l.filter (fun p => p.1 < k) ∧
      (l.dropWhile fun p => p.1 < k) = l.filter (fun p => ¬ p.1 < k) := by
  induction l with
  | nil => simp
  | cons p rest ih =>
    obtain ⟨hp, hrest⟩ := pairwise_cons.mp h
    by_cases hk : p.1 < k
    · simp [hk, ih hrest]
    · have hall : ∀ q ∈ rest, ¬ q.1 < k := fun q hq => by
        have := hp q hq
        omega
      have hnone : rest.filter (fun q => decide (q.1 < k)) = [] :=
        filter_eq_nil_iff.mpr fun q hq => by simpa using hall q hq
      have hsome : rest.filter (fun q => decide (¬ q.1 < k)) = rest :=
        filter_eq_self.mpr fun q hq => decide_eq_true (hall q hq)
      simp only [takeWhile_cons, dropWhile_cons, filter_cons, hk, decide_false, not_false_eq_true,
        decide_true, if_true, Bool.false_eq_true, if_false, hnone, hsome, and_self]

/-- The nodes of the positions from a key's hash on, clockwise. -/
def Ring.clockwise (ring : Ring) (keyHash : ℕ) : List NodeId :=
  (ring.positions.filter (fun p => ¬ p.1 < keyHash) ++
    ring.positions.filter (fun p => p.1 < keyHash)).map Prod.snd

lemma Ring.lookupWith_eq (ring : Ring) {factor : ℕ} (h : 0 < factor) (keyHash : ℕ) :
    ring.lookupWith factor keyHash = (ring.clockwise keyHash).eraseDups.take factor := by
  obtain ⟨htake, hdrop⟩ := takeWhile_eq_filter ring.sorted keyHash
  have hrotate : ring.positions.rotate (ring.positions.takeWhile fun p => p.1 < keyHash).length =
      ring.positions.filter (fun p => ¬ p.1 < keyHash) ++
        ring.positions.filter (fun p => p.1 < keyHash) := by
    rw [← htake, ← hdrop, ← rotate_append_length_eq, takeWhile_append_dropWhile]
  rw [Ring.lookupWith, hrotate, collect_eq _ h]
  simp [Ring.clockwise]

lemma Ring.mem_clockwise {ring : Ring} {keyHash : ℕ} {n : NodeId} :
    n ∈ ring.clockwise keyHash ↔ ∃ p ∈ ring.positions, p.2 = n := by
  simp only [Ring.clockwise, mem_map, mem_append, mem_filter, decide_eq_true_eq]
  constructor
  · rintro ⟨p, ⟨hp, -⟩ | ⟨hp, -⟩, rfl⟩
    · exact ⟨p, hp, rfl⟩
    · exact ⟨p, hp, rfl⟩
  · rintro ⟨p, hp, rfl⟩
    by_cases hlt : p.1 < keyHash
    · exact ⟨p, .inr ⟨hp, hlt⟩, rfl⟩
    · exact ⟨p, .inl ⟨hp, hlt⟩, rfl⟩

lemma clockwise_filter {ring ring' : Ring} {n : NodeId}
    (h : ring'.positions = ring.positions.filter (·.2 ≠ n)) (keyHash : ℕ) :
    ring'.clockwise keyHash = (ring.clockwise keyHash).filter (· ≠ n) := by
  have hcomm : ∀ p : ℕ × NodeId → Bool, (ring.positions.filter (·.2 ≠ n)).filter p =
      (ring.positions.filter p).filter (·.2 ≠ n) := fun p => by
    rw [filter_filter, filter_filter]
    simp only [Bool.and_comm]
  rw [Ring.clockwise, Ring.clockwise, h, hcomm, hcomm, ← filter_append, filter_map]
  rfl

/-! ### The positions of the nodes in the ring -/

/-- No two virtual nodes have one position. -/
def Apart (hashNode : NodeId → ℕ → ℕ) (count : ℕ) (nodes : List NodeId) : Prop :=
  ∀ m ∈ nodes, ∀ n ∈ nodes, ∀ i < count, ∀ j < count, hashNode m i = hashNode n j → m = n ∧ i = j

instance (hashNode : NodeId → ℕ → ℕ) (count : ℕ) (nodes : List NodeId) :
    Decidable (Apart hashNode count nodes) :=
  inferInstanceAs (Decidable (∀ m ∈ nodes, ∀ n ∈ nodes, ∀ i < count, ∀ j < count, _ → _))

section

variable {hashNode : NodeId → ℕ → ℕ}

lemma Apart.mono {count : ℕ} {nodes nodes' : List NodeId} (h : Apart hashNode count nodes)
    (hsub : nodes' ⊆ nodes) : Apart hashNode count nodes' :=
  fun m hm n hn => h m (hsub hm) n (hsub hn)

lemma mem_insertPositions {node : NodeId} {count : ℕ} {l : List (ℕ × NodeId)}
    (h : l.Pairwise fun p q => p.1 < q.1) {q : ℕ × NodeId} :
    q ∈ insertPositions hashNode node count l ↔
      (q.2 = node ∧ ∃ i < count, q.1 = hashNode node i) ∨
        q ∈ l ∧ ∀ i < count, q.1 ≠ hashNode node i := by
  induction count with
  | zero => simp [insertPositions]
  | succ count ih =>
    rw [insertPositions_succ, mem_insertPosition (pairwise_insertPositions _ _ _ h), ih]
    constructor
    · rintro (rfl | ⟨⟨rfl, i, hi, hq⟩ | ⟨hq, hne⟩, hcount⟩)
      · exact .inl ⟨rfl, count, Nat.lt_succ_self _, rfl⟩
      · exact .inl ⟨rfl, i, by omega, hq⟩
      · refine .inr ⟨hq, fun i hi => ?_⟩
        rcases Nat.lt_succ_iff_lt_or_eq.mp hi with hi | rfl
        · exact hne i hi
        · exact hcount
    · rintro (⟨rfl, i, hi, hq⟩ | ⟨hq, hne⟩)
      · by_cases hcount : q.1 = hashNode q.2 count
        · exact .inl (Prod.ext hcount rfl)
        · have hlt : i < count := by
            rcases Nat.lt_succ_iff_lt_or_eq.mp hi with hi | rfl
            · exact hi
            · exact absurd hq hcount
          exact .inr ⟨.inl ⟨rfl, i, hlt, hq⟩, hcount⟩
      · exact .inr ⟨.inr ⟨hq, fun i hi => hne i (by omega)⟩, hne count (Nat.lt_succ_self _)⟩

/-- The positions are those of the known nodes. -/
structure NodeRing.Placed (hashNode : NodeId → ℕ → ℕ) (r : NodeRing) : Prop where
  nodup : r.nodeIds.Nodup
  mem : ∀ p, p ∈ r.positions ↔
    p.2 ∈ r.nodeIds ∧ ∃ i < r.vnodesPerNode.toNat, p.1 = hashNode p.2 i

namespace NodeRing

variable {r : NodeRing} {node : NodeId}

lemma mem_nodeIds_addNode {m : NodeId} :
    m ∈ (r.addNode hashNode node).1.nodeIds ↔ m = node ∨ m ∈ r.nodeIds := by
  simp only [addNode]
  split_ifs with h
  · exact ⟨.inr, fun hm => hm.elim (fun hm => hm ▸ h) id⟩
  · rw [mem_append, mem_singleton, or_comm]

lemma Placed.addNode (h : r.Placed hashNode)
    (hapart : Apart hashNode r.vnodesPerNode.toNat (node :: r.nodeIds)) :
    (r.addNode hashNode node).1.Placed hashNode := by
  constructor
  · simp only [NodeRing.addNode]
    split_ifs with hmem
    · exact h.nodup
    · exact Nodup.append h.nodup (nodup_singleton node) (by simpa using hmem)
  · intro p
    rw [mem_nodeIds_addNode]
    change p ∈ insertPositions hashNode node r.vnodesPerNode.toNat r.positions ↔
      _ ∧ ∃ i < r.vnodesPerNode.toNat, _
    rw [mem_insertPositions r.sorted, h.mem]
    constructor
    · rintro (⟨rfl, hi⟩ | ⟨⟨hids, hi⟩, -⟩)
      · exact ⟨.inl rfl, hi⟩
      · exact ⟨.inr hids, hi⟩
    · rintro ⟨hp, i, hi, hpos⟩
      by_cases hnode : p.2 = node
      · exact .inl ⟨hnode, i, hi, hnode ▸ hpos⟩
      · have hids : p.2 ∈ r.nodeIds := hp.resolve_left hnode
        refine .inr ⟨⟨hids, i, hi, hpos⟩, fun j hj heq => hnode ?_⟩
        exact (hapart _ (mem_cons_of_mem _ hids) _ mem_cons_self i hi j hj
          (hpos.symm.trans heq)).1

lemma removeNode_eq (h : ∃ p ∈ r.positions, p.2 = node) :
    ∃ r' ranges, r.removeNode node = .ok (r', ranges) ∧
      r'.positions = r.positions.filter (·.2 ≠ node) ∧
      r'.nodeIds = r.nodeIds.filter (· ≠ node) ∧
      r'.vnodesPerNode = r.vnodesPerNode ∧ r'.replicationFactor = r.replicationFactor := by
  obtain ⟨p, hp, hnode⟩ := h
  have hne : r.positions.filter (·.2 = node) ≠ [] :=
    ne_nil_of_mem (mem_filter.mpr ⟨hp, decide_eq_true hnode⟩)
  rw [removeNode, if_neg hne]
  exact ⟨_, _, rfl, rfl, rfl, rfl, rfl⟩

lemma removeNode_error (h : ¬ ∃ p ∈ r.positions, p.2 = node) :
    r.removeNode node = .error (.nodeNotFound node) := by
  have hnil : r.positions.filter (·.2 = node) = [] :=
    filter_eq_nil_iff.mpr fun p hp hnode => h ⟨p, hp, of_decide_eq_true hnode⟩
  rw [removeNode, if_pos hnil]

lemma Placed.removeNode (h : r.Placed hashNode) {r' : NodeRing}
    (hpos : r'.positions = r.positions.filter (·.2 ≠ node))
    (hids : r'.nodeIds = r.nodeIds.filter (· ≠ node))
    (hv : r'.vnodesPerNode = r.vnodesPerNode) : r'.Placed hashNode := by
  constructor
  · rw [hids]
    exact h.nodup.filter _
  · intro p
    rw [hpos, hids, hv, mem_filter, mem_filter, h.mem]
    tauto

lemma Placed.mem_nodeIds (h : r.Placed hashNode) (hv : 0 < r.vnodesPerNode.toNat) :
    node ∈ r.nodeIds ↔ ∃ p ∈ r.positions, p.2 = node := by
  constructor
  · exact fun hn => ⟨(hashNode node 0, node), (h.mem _).mpr ⟨hn, 0, hv, rfl⟩, rfl⟩
  · rintro ⟨p, hp, rfl⟩
    exact ((h.mem p).mp hp).1

lemma Placed.positions_eq {r r' : NodeRing} (h : r.Placed hashNode) (h' : r'.Placed hashNode)
    (hids : ∀ m, m ∈ r.nodeIds ↔ m ∈ r'.nodeIds) (hv : r.vnodesPerNode = r'.vnodesPerNode) :
    r.positions = r'.positions := by
  have hanti : ∀ p q : ℕ × NodeId, p ∈ r.positions → q ∈ r'.positions → p.1 < q.1 → q.1 < p.1 →
      p = q := fun p q _ _ hlt hgt => absurd hlt hgt.asymm
  have hmem : ∀ p, p ∈ r.positions ↔ p ∈ r'.positions := fun p => by
    rw [h.mem, h'.mem, hids, hv]
  have hnodup : ∀ r : NodeRing, r.positions.Nodup := fun r =>
    r.sorted.imp fun hlt heq => absurd (heq ▸ hlt) (lt_irrefl _)
  exact ((perm_ext_iff_of_nodup (hnodup r) (hnodup r')).mpr hmem).eq_of_pairwise hanti
    r.sorted r'.sorted

end NodeRing

/-! ### Runs -/

lemma run_concat (config : RingConfig) (calls : List Call) (call : Call) :
    run hashNode config (calls ++ [call]) = (run hashNode config calls).apply hashNode call := by
  simp [run]

lemma members_concat_add (calls : List Call) (node : NodeId) :
    members (calls ++ [.add node]) = insert node (members calls) := by
  simp [members]

lemma members_concat_remove (calls : List Call) (node : NodeId) :
    members (calls ++ [.remove node]) = (members calls).erase node := by
  simp [members]

/-- What a run keeps. -/
structure NodeRing.Ran (hashNode : NodeId → ℕ → ℕ) (config : RingConfig) (calls : List Call)
    (r : NodeRing) : Prop where
  placed : r.Placed hashNode
  known : ∀ m ∈ r.nodeIds, m ∈ calls.map Call.node
  vnodes : r.vnodesPerNode = config.vnodesPerNode
  factor : r.replicationFactor = config.replicationFactor
  ids : 0 < config.vnodesPerNode.toNat → ∀ m, m ∈ r.nodeIds ↔ m ∈ members calls

lemma NodeRing.Ran.apply {config : RingConfig} {calls : List Call} {r : NodeRing}
    (h : r.Ran hashNode config calls) {call : Call}
    (hapart : Apart hashNode config.vnodesPerNode.toNat ((calls ++ [call]).map Call.node)) :
    (r.apply hashNode call).Ran hashNode config (calls ++ [call]) := by
  have hknown : ∀ m ∈ r.nodeIds, m ∈ (calls ++ [call]).map Call.node := fun m hm => by
    rw [map_append]
    exact mem_append_left _ (h.known m hm)
  have hcall : call.node ∈ (calls ++ [call]).map Call.node := by simp
  cases call with
  | add node =>
    refine ⟨h.placed.addNode ?_, ?_, h.vnodes, h.factor, fun hv m => ?_⟩
    · rw [h.vnodes]
      exact hapart.mono (cons_subset.mpr ⟨hcall, hknown⟩)
    · intro m hm
      exact (NodeRing.mem_nodeIds_addNode.mp hm).elim (fun hm => hm ▸ hcall) (hknown m)
    · rw [members_concat_add, Finset.mem_insert, ← h.ids hv]
      exact NodeRing.mem_nodeIds_addNode
  | remove node =>
    by_cases hpos : ∃ p ∈ r.positions, p.2 = node
    · obtain ⟨r', ranges, heq, hpositions, hids, hv', hfactor⟩ := NodeRing.removeNode_eq hpos
      have happly : r.apply hashNode (.remove node) = r' := by simp only [NodeRing.apply, heq]
      rw [happly]
      refine ⟨h.placed.removeNode hpositions hids hv', ?_, hv'.trans h.vnodes,
        hfactor.trans h.factor, fun hv m => ?_⟩
      · intro m hm
        rw [hids] at hm
        exact hknown m (mem_filter.mp hm).1
      · rw [members_concat_remove, Finset.mem_erase, ← h.ids hv, hids, mem_filter,
          decide_eq_true_eq, and_comm]
    · have happly : r.apply hashNode (.remove node) = r := by
        simp only [NodeRing.apply, NodeRing.removeNode_error hpos]
      rw [happly]
      refine ⟨h.placed, hknown, h.vnodes, h.factor, fun hv m => ?_⟩
      have hnot : node ∉ r.nodeIds := by
        rwa [h.placed.mem_nodeIds (h.vnodes ▸ hv)]
      rw [members_concat_remove, Finset.mem_erase, ← h.ids hv]
      exact ⟨fun hm => ⟨fun heq => hnot (heq ▸ hm), hm⟩, fun hm => hm.2⟩

theorem ran_run {config : RingConfig} {calls : List Call}
    (hapart : Apart hashNode config.vnodesPerNode.toNat (calls.map Call.node)) :
    (run hashNode config calls).Ran hashNode config calls := by
  induction calls using List.reverseRecOn with
  | nil => exact ⟨⟨nodup_nil, by simp [run, NodeRing.new]⟩, by simp [run, NodeRing.new], rfl,
      rfl, by simp [run, NodeRing.new, members]⟩
  | append_singleton calls call ih =>
    rw [run_concat]
    exact (ih (hapart.mono (map_subset _ (subset_append_left ..)))).apply hapart

end

/-! ### Consistent hashing -/

section

variable (hashNode : NodeId → ℕ → ℕ) (config : RingConfig)

/-- What a ring of this configuration does, whatever the calls. -/
structure ConsistentHashing : Prop where
  /-- A lookup has as many different nodes of the ring as it should. -/
  count : ∀ calls keyHash, Apart hashNode config.vnodesPerNode.toNat (calls.map Call.node) →
    ((run hashNode config calls).lookup keyHash).Nodup ∧
      (∀ m ∈ (run hashNode config calls).lookup keyHash, m ∈ members calls) ∧
      ((run hashNode config calls).lookup keyHash).length =
        min config.replicationFactor.toNat (members calls).card
  /-- It depends on the set of nodes only. -/
  order : ∀ calls calls' keyHash,
    Apart hashNode config.vnodesPerNode.toNat ((calls ++ calls').map Call.node) →
    members calls = members calls' →
    (run hashNode config calls).lookup keyHash = (run hashNode config calls').lookup keyHash
  /-- Without a node it loses that node and gains the next one. -/
  removal : ∀ calls node keyHash,
    Apart hashNode config.vnodesPerNode.toNat (calls.map Call.node) → node ∈ members calls →
    let r := run hashNode config calls
    ∃ r' ranges, r.removeNode node = .ok (r', ranges) ∧
      r'.lookup keyHash =
        if node ∈ r.lookup keyHash then
          (r.lookup keyHash).erase node ++
            (r.lookupWith (config.replicationFactor.toNat + 1) keyHash).drop
              config.replicationFactor.toNat
        else r.lookup keyHash
  /-- A node that joins and leaves changes nothing. -/
  joinLeave : ∀ calls node,
    Apart hashNode config.vnodesPerNode.toNat ((calls ++ [.add node]).map Call.node) →
    node ∉ members calls →
    let r := run hashNode config calls
    ∃ ranges, (r.addNode hashNode node).1.removeNode node = .ok (r, ranges)

end

section

variable {hashNode : NodeId → ℕ → ℕ} {config : RingConfig}

lemma NodeRing.lookup_eq (r : NodeRing) (hrf : 0 < r.replicationFactor.toNat) (keyHash : ℕ) :
    r.lookup keyHash = (r.clockwise keyHash).eraseDups.take r.replicationFactor.toNat :=
  r.lookupWith_eq hrf keyHash

lemma NodeRing.Ran.card_walk {calls : List Call} {r : NodeRing} (h : r.Ran hashNode config calls)
    (hv : 0 < config.vnodesPerNode.toNat) (keyHash : ℕ) :
    (r.clockwise keyHash).eraseDups.length = (members calls).card := by
  have hset : (r.clockwise keyHash).eraseDups.toFinset = members calls := by
    ext m
    rw [mem_toFinset, mem_eraseDups, Ring.mem_clockwise,
      ← h.placed.mem_nodeIds (h.vnodes ▸ hv), h.ids hv]
  rw [← hset, toFinset_card_of_nodup (nodup_eraseDups _)]

lemma NodeRing.Ran.removal {calls : List Call} {r : NodeRing} (h : r.Ran hashNode config calls)
    (hv : 0 < config.vnodesPerNode.toNat) (hrf : 0 < config.replicationFactor.toNat)
    {node : NodeId} (hnode : node ∈ members calls) (keyHash : ℕ) :
    ∃ r' ranges, r.removeNode node = .ok (r', ranges) ∧
      r'.lookup keyHash =
        if node ∈ r.lookup keyHash then
          (r.lookup keyHash).erase node ++
            (r.lookupWith (config.replicationFactor.toNat + 1) keyHash).drop
              config.replicationFactor.toNat
        else r.lookup keyHash := by
  have hpos : ∃ p ∈ r.positions, p.2 = node := by
    rwa [← h.placed.mem_nodeIds (h.vnodes ▸ hv), h.ids hv]
  obtain ⟨r', ranges, heq, hpositions, -, -, hfactor⟩ := NodeRing.removeNode_eq hpos
  refine ⟨r', ranges, heq, ?_⟩
  have hrf' : 0 < r.replicationFactor.toNat := by rwa [h.factor]
  rw [NodeRing.lookup_eq r' (hfactor ▸ hrf'), NodeRing.lookup_eq r hrf',
    Ring.lookupWith_eq _ (Nat.succ_pos _), clockwise_filter hpositions, eraseDups_filter, hfactor,
    h.factor]
  exact take_filter_ne (nodup_eraseDups _) node _

lemma NodeRing.Ran.joinLeave {calls : List Call} {r : NodeRing} {node : NodeId}
    (h : r.Ran hashNode config calls) (hv : 0 < config.vnodesPerNode.toNat)
    (hapart : Apart hashNode config.vnodesPerNode.toNat ((calls ++ [Call.add node]).map Call.node))
    (hnode : node ∉ members calls) :
    ∃ ranges, (r.addNode hashNode node).1.removeNode node = .ok (r, ranges) := by
  have hadd : (r.addNode hashNode node).1.Ran hashNode config (calls ++ [.add node]) :=
    h.apply hapart
  have hpos : ∃ p ∈ (r.addNode hashNode node).1.positions, p.2 = node := by
    rw [← hadd.placed.mem_nodeIds (hadd.vnodes ▸ hv)]
    exact NodeRing.mem_nodeIds_addNode.mpr (.inl rfl)
  obtain ⟨r', ranges, heq, hpositions, hids, hvn, hfactor⟩ := NodeRing.removeNode_eq hpos
  have hnot : node ∉ r.nodeIds := by rwa [h.ids hv]
  have hsame : r'.nodeIds = r.nodeIds := by
    have hids' : (r.addNode hashNode node).1.nodeIds = r.nodeIds ++ [node] := by
      simp [NodeRing.addNode, hnot]
    have hfilter : r.nodeIds.filter (· ≠ node) = r.nodeIds :=
      filter_eq_self.mpr fun m hm => decide_eq_true (ne_of_mem_of_not_mem hm hnot)
    rw [hids, hids', filter_append, hfilter, filter_cons_of_neg (by simp), filter_nil, append_nil]
  have hplaced : r'.Placed hashNode := hadd.placed.removeNode hpositions hids hvn
  have hpositions' : r'.positions = r.positions :=
    hplaced.positions_eq h.placed (fun m => by rw [hsame]) hvn
  refine ⟨ranges, ?_⟩
  rw [heq]
  obtain ⟨⟨positions, sorted, factor⟩, vnodes, ids⟩ := r
  obtain ⟨⟨positions', sorted', factor'⟩, vnodes', ids'⟩ := r'
  simp only at hpositions' hsame
  subst hpositions' hsame
  have hvn' : vnodes' = vnodes := hvn
  have hfactor' : factor' = factor := hfactor
  rw [hvn', hfactor']

/-- **The ring hashes consistently**, with at least one virtual node for each node. -/
theorem consistent_hashing (hv : 0 < config.vnodesPerNode.toNat)
    (hrf : 0 < config.replicationFactor.toNat) : ConsistentHashing hashNode config where
  count calls keyHash hapart := by
    have h := ran_run hapart
    have hwalk := h.card_walk hv keyHash
    rw [NodeRing.lookup_eq _ (h.factor ▸ hrf)]
    refine ⟨(nodup_eraseDups _).take, fun m hm => ?_, ?_⟩
    · rw [← h.ids hv, h.placed.mem_nodeIds (h.vnodes ▸ hv), ← Ring.mem_clockwise, ← mem_eraseDups]
      exact mem_of_mem_take hm
    · rw [length_take, hwalk, h.factor]
  order calls calls' keyHash hapart hset := by
    have h := ran_run (hapart.mono (map_subset _ (subset_append_left calls calls')))
    have h' := ran_run (hapart.mono (map_subset _ (subset_append_right calls calls')))
    have hpositions := h.placed.positions_eq h'.placed
      (fun m => by rw [h.ids hv, h'.ids hv, hset]) (h.vnodes.trans h'.vnodes.symm)
    rw [Ring.lookup, Ring.lookup, hpositions, h.factor, h'.factor]
  removal calls node keyHash hapart hnode := (ran_run hapart).removal hv hrf hnode keyHash
  joinLeave calls node hapart hnode := by
    have h := ran_run (hapart.mono (map_subset _ (subset_append_left calls [.add node])))
    exact h.joinLeave hv hapart hnode

/-- Ten virtual nodes for each node, at positions of their own. -/
def spread (node i : ℕ) : ℕ := 1000 * i + node

theorem spread_consistent : ConsistentHashing spread ⟨10, 3⟩ :=
  consistent_hashing (by decide) (by decide)

/-- Without virtual nodes a ring of one node finds none. A node that is in the ring is removed by
joining and leaving. -/
theorem rejoining_node_leaves :
    ((run spread ⟨0, 3⟩ [.add 1]).lookup 5 = [] ∧ (members [.add 1]).card = 1) ∧
      (Apart spread 10 [1, 2] ∧
        (run spread ⟨10, 3⟩ [.add 1, .add 2, .add 2, .remove 2]).lookup 5 = [1] ∧
        (run spread ⟨10, 3⟩ [.add 1, .add 2]).lookup 5 = [1, 2]) := by
  decide +kernel

end

end OceanFs.Routing
