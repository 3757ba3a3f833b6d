import OceanFs.Lib.Runs
import OceanFs.Membership.Gossip

/-!
The failure detector.

A failed probe of a node that is in the list starts a timer, with the incarnation that the list
shows then, and a timer that runs out declares the node dead. A successful probe takes the timer
away, and so does a higher incarnation in the list when the timer runs out. Each verdict about a
node counts the version for it up.
-/

namespace OceanFs.Membership

open OceanFs.Core Lib.Runs Option List

structure ListedNode where
  nodeId : NodeId
  state : NodeState
  address : SocketAddr
  incarnation : ℕ
  deriving DecidableEq

/-- What has happened: a verdict that was sent, with the incarnation that the list showed for the
node then, or a successful probe. -/
inductive Occurrence
  | verdict (event : MembershipEvent) (shown : Option ℕ)
  | succeeded (target : NodeId)
  deriving DecidableEq

structure FailureDetector where
  nodeId : NodeId
  suspicionTimeout : ℕ
  /-- The incarnation and the start of each timer. -/
  suspicionTimers : AList fun _ : NodeId => ℕ × ℕ
  aliveNodes : List ListedNode
  /-- The start of each running probe. -/
  pendingProbes : NodeId → Option ℕ
  hasPool : Bool
  versions : NodeId → Option ℕ
  running : Bool
  /-- What has happened, the last first. -/
  log : List Occurrence

namespace FailureDetector

def new (nodeId : NodeId) (suspicionTimeout : ℕ) (hasPool : Bool) : FailureDetector where
  nodeId := nodeId
  suspicionTimeout := suspicionTimeout
  suspicionTimers := ∅
  aliveNodes := []
  pendingProbes _ := none
  hasPool := hasPool
  versions _ := none
  running := true
  log := []

/-! ### Verdicts -/

section

variable (d : FailureDetector)

def incarnationFor (n : NodeId) : Option ℕ :=
  (d.aliveNodes.find? (·.nodeId = n)).map (·.incarnation)

/-- The counter has 64 bits. -/
def nextVersion (target : NodeId) : ℕ :=
  ((d.versions target).getD 0 + 1) % 2 ^ 64

/-- An event about a node with the next version for it. -/
def emit (n : NodeId) (oldState newState : NodeState) (incarnation : ℕ)
    (shown : Option ℕ) : FailureDetector :=
  { d with
    versions := Function.update d.versions n (some (d.nextVersion n))
    log := .verdict
      { nodeId := n
        oldState := oldState
        newState := newState
        incarnation := incarnation
        address := none
        version := d.nextVersion n
        origin := d.nodeId
        membershipAddress := none
        manifest := none } shown :: d.log }

def dropTimer (n : NodeId) : FailureDetector :=
  { d with suspicionTimers := d.suspicionTimers.erase n }

/-- A timer that runs is not started again, and a node that is not in the list gets none. -/
def markSuspect (n : NodeId) (now : ℕ) : FailureDetector :=
  if (d.suspicionTimers.lookup n).isSome then d
  else match d.incarnationFor n with
    | none => d
    | some incarnation =>
      { d with suspicionTimers := d.suspicionTimers.insert n (incarnation, now) }.emit n
        .alive .suspect incarnation (d.incarnationFor n)

def isSuspect (n : NodeId) : Bool :=
  (d.suspicionTimers.lookup n).isSome ||
    d.aliveNodes.any fun x => x.nodeId = n && x.state = .suspect

def recoverSuspect (n : NodeId) : FailureDetector :=
  if d.isSuspect n then
    match ((d.suspicionTimers.lookup n).map Prod.fst).or (d.incarnationFor n) with
    | none => d.dropTimer n
    | some incarnation =>
      (d.dropTimer n).emit n .suspect .alive incarnation (d.incarnationFor n)
  else d

/-- The list shows a higher incarnation than the timer has. -/
def isStale (n : NodeId) : Bool :=
  match d.suspicionTimers.lookup n, d.incarnationFor n with
  | some (timerInc, _), some currentInc => timerInc < currentInc
  | _, _ => false

/-- A timer has run out. -/
def expire (n : NodeId) : FailureDetector :=
  if d.isStale n then d.recoverSuspect n
  else
    let incarnation := ((d.suspicionTimers.lookup n).map Prod.fst).getD 1
    { d.dropTimer n with
      aliveNodes := d.aliveNodes.filter (·.nodeId ≠ n)
      pendingProbes := Function.update d.pendingProbes n none }.emit n .suspect .dead incarnation
        (d.incarnationFor n)

/-- The nodes whose timers have run out. -/
def expired (now : ℕ) : List NodeId :=
  (d.suspicionTimers.entries.filter fun x => d.suspicionTimeout ≤ now - x.2.2).map Sigma.fst

/-! ### The loop -/

/-- The nodes that a probe may be started for. -/
def candidates : List NodeId :=
  (d.aliveNodes.filter fun x => (x.state = .alive || x.state = .suspect) && x.nodeId ≠ d.nodeId &&
    (d.pendingProbes x.nodeId).isNone).map (·.nodeId)

inductive Input
  | pingResponse (target : NodeId) (success : Bool) (now : ℕ)
  | updateAliveNodes (nodes : List ListedNode)
  | removeNode (n : NodeId)
  | setPool
  | shutdown
  /-- A tick: the node that is probed, if there is one, and the order in which the timers are
  checked. -/
  | tick (now : ℕ) (picked : Option NodeId) (order : List NodeId)

/-- `on_ping_tick` -/
def startProbe (now : ℕ) : Option NodeId → FailureDetector
  | some n => if d.hasPool then
      { d with pendingProbes := Function.update d.pendingProbes n (some now) } else d
  | none => d

/-- A probe is started just if there is a candidate. -/
def PickOk : Option NodeId → Prop
  | some n => n ∈ d.candidates
  | none => d.candidates = []

instance (d : FailureDetector) : DecidablePred d.PickOk
  | some n => inferInstanceAs (Decidable (n ∈ d.candidates))
  | none => inferInstanceAs (Decidable (d.candidates = []))

def step (input : Input) : Option FailureDetector :=
  if d.running = false then none
  else match input with
    | .pingResponse target success now =>
      let d := { d with pendingProbes := Function.update d.pendingProbes target none }
      some (if success then
        let d := d.recoverSuspect target
        { d with log := .succeeded target :: d.log }
      else d.markSuspect target now)
    | .updateAliveNodes nodes => some { d with aliveNodes := nodes }
    | .removeNode n => some
        { d.dropTimer n with
          aliveNodes := d.aliveNodes.filter (·.nodeId ≠ n)
          pendingProbes := Function.update d.pendingProbes n none }
    | .setPool => some { d with hasPool := true }
    | .shutdown => some { d with running := false }
    | .tick now picked order =>
      if d.PickOk picked ∧ order.Perm (d.expired now) then
        some (order.foldl expire (d.startProbe now picked))
      else none

/-! ### The suspicion protocol -/

/-- A suspicion of this incarnation has been sent, and no probe has succeeded since. -/
def Suspected (n : NodeId) (incarnation : ℕ) : List Occurrence → Prop
  | [] => False
  | .verdict event _ :: earlier =>
    (event.nodeId = n ∧ event.newState = .suspect ∧ event.incarnation = incarnation) ∨
      Suspected n incarnation earlier
  | .succeeded target :: earlier => target ≠ n ∧ Suspected n incarnation earlier

/-- A node is declared dead after a suspicion of the same incarnation, where the list shows no
higher one, and the version is above those sent before for the node. -/
def Follows (earlier : List Occurrence) : Occurrence → Prop
  | .verdict event shown =>
    (event.newState = .dead → Suspected event.nodeId event.incarnation earlier ∧
      ∀ inc ∈ shown, inc ≤ event.incarnation) ∧
    ∀ event' shown', .verdict event' shown' ∈ earlier → event'.nodeId = event.nodeId →
      event'.version < event.version
  | .succeeded _ => True

def FollowsProtocol : List Occurrence → Prop
  | [] => True
  | o :: earlier => Follows earlier o ∧ FollowsProtocol earlier

/-- No version counts more than has happened. -/
structure Counted (versions : NodeId → Option ℕ) (log : List Occurrence) : Prop where
  counter : ∀ n, (versions n).getD 0 ≤ log.length
  versions : ∀ event shown, .verdict event shown ∈ log →
    event.version ≤ (versions event.nodeId).getD 0
  follows : FollowsProtocol log

/-- The invariant: each timer has its suspicion, and the versions are counted. -/
structure Inv : Prop where
  timers : ∀ n inc since, d.suspicionTimers.lookup n = some (inc, since) → Suspected n inc d.log
  counted : d.log.length < 2 ^ 64 → Counted d.versions d.log

end

variable {d d' : FailureDetector} {n : NodeId} {now : ℕ}

lemma inv_new {timeout : ℕ} {hasPool : Bool} : Inv (new n timeout hasPool) where
  timers := by simp [new]
  counted _ := ⟨by simp [new], by simp [new], trivial⟩

lemma Counted.emit {old new : NodeState} {inc : ℕ} {shown : Option ℕ} (h : Counted d.versions d.log)
    (hlog : d.log.length + 1 < 2 ^ 64)
    (hdead : new = .dead → Suspected n inc d.log ∧ ∀ i ∈ shown, i ≤ inc) :
    Counted (d.emit n old new inc shown).versions (d.emit n old new inc shown).log := by
  have hnext : d.nextVersion n = (d.versions n).getD 0 + 1 :=
    Nat.mod_eq_of_lt ((Nat.succ_le_succ (h.counter n)).trans_lt hlog)
  refine ⟨fun m => ?_, fun event shown' hmem => ?_, ⟨hdead, fun event shown' hmem hn => ?_⟩,
    h.follows⟩
  · have hm := h.counter m
    simp only [FailureDetector.emit, length_cons]
    by_cases hn : m = n
    · subst hn
      rw [Function.update_self, getD_some, hnext]
      exact Nat.succ_le_succ hm
    · rw [Function.update_of_ne hn]
      exact hm.trans (Nat.le_succ _)
  · simp only [FailureDetector.emit]
    rcases mem_cons.mp hmem with heq | hmem
    · obtain ⟨rfl, -⟩ := Occurrence.verdict.inj heq
      simp
    · have hle := h.versions event shown' hmem
      by_cases hn : event.nodeId = n
      · rw [hn] at hle ⊢
        rw [Function.update_self, getD_some, hnext]
        exact hle.trans (Nat.le_succ _)
      · rwa [Function.update_of_ne hn]
  · have hle := h.versions event shown' hmem
    simp only at hn ⊢
    rw [hn] at hle
    rw [hnext]
    exact Nat.lt_succ_of_le hle

lemma Inv.emit {old new : NodeState} {inc : ℕ} {shown : Option ℕ} (h : Inv d)
    (hdead : new = .dead → Suspected n inc d.log ∧ ∀ i ∈ shown, i ≤ inc) :
    Inv (d.emit n old new inc shown) where
  timers m i since hm := .inr (h.timers m i since hm)
  counted hlog := (h.counted ((Nat.lt_succ_self _).trans hlog)).emit hlog hdead

lemma Inv.dropTimer (h : Inv d) : Inv (d.dropTimer n) := by
  refine { h with timers := ?_ }
  intro m inc since hm
  simp only [FailureDetector.dropTimer] at hm
  by_cases hn : m = n
  · rw [hn, AList.lookup_erase] at hm
    cases hm
  · rw [AList.lookup_erase_ne hn] at hm
    exact h.timers m inc since hm

lemma Inv.markSuspect (h : Inv d) : Inv (d.markSuspect n now) := by
  unfold FailureDetector.markSuspect
  split_ifs
  · exact h
  · split
    · exact h
    · rename_i inc _
      -- the suspicion of the new timer is sent at once
      have hemit : Inv (d.emit n .alive .suspect inc (d.incarnationFor n)) := h.emit (by simp)
      refine { hemit with timers := ?_ }
      intro m i since hm
      simp only [FailureDetector.emit] at hm
      by_cases hn : m = n
      · subst hn
        rw [AList.lookup_insert] at hm
        obtain ⟨rfl, -⟩ := Prod.mk.inj (some.inj hm)
        exact .inl ⟨rfl, rfl, rfl⟩
      · rw [AList.lookup_insert_ne hn] at hm
        exact .inr (h.timers m i since hm)

lemma Inv.recoverSuspect (h : Inv d) : Inv (d.recoverSuspect n) := by
  unfold FailureDetector.recoverSuspect
  split_ifs
  · split
    · exact h.dropTimer
    · exact h.dropTimer.emit (by simp)
  · exact h

lemma lookup_recoverSuspect : (d.recoverSuspect n).suspicionTimers.lookup n = none := by
  unfold FailureDetector.recoverSuspect
  split_ifs with hsuspect
  · split <;> exact AList.lookup_erase ..
  · simp only [isSuspect, Bool.or_eq_true, not_or, Bool.not_eq_true,
      isSome_eq_false_iff, isNone_iff_eq_none] at hsuspect
    exact hsuspect.1

lemma Inv.succeeded (h : Inv d) :
    Inv { d.recoverSuspect n with log := .succeeded n :: (d.recoverSuspect n).log } := by
  have hrec := h.recoverSuspect (n := n)
  refine ⟨fun m inc since hm => ⟨?_, hrec.timers m inc since hm⟩, fun hlog => ?_⟩
  · rintro rfl
    rw [lookup_recoverSuspect] at hm
    cases hm
  · have hc := hrec.counted ((Nat.lt_succ_self _).trans hlog)
    exact ⟨fun m => (hc.counter m).trans (Nat.le_succ _), fun event shown hmem =>
      hc.versions event shown ((mem_cons.mp hmem).resolve_left nofun), trivial, hc.follows⟩

lemma Inv.expire {inc since : ℕ} (h : Inv d)
    (htimer : d.suspicionTimers.lookup n = some (inc, since)) : Inv (d.expire n) := by
  unfold FailureDetector.expire
  split_ifs with hstale
  · exact h.recoverSuspect
  · have hdrop : Inv { d.dropTimer n with
        aliveNodes := d.aliveNodes.filter (·.nodeId ≠ n)
        pendingProbes := Function.update d.pendingProbes n none } := { h.dropTimer with }
    refine hdrop.emit fun _ => ?_
    rw [htimer]
    refine ⟨h.timers n inc since htimer, fun i hi => ?_⟩
    have hi : d.incarnationFor n = some i := hi
    simpa [isStale, htimer, hi] using hstale

lemma lookup_expire_of_ne {m : NodeId} (hne : m ≠ n) :
    (d.expire n).suspicionTimers.lookup m = d.suspicionTimers.lookup m := by
  have hdrop : (d.dropTimer n).suspicionTimers.lookup m = d.suspicionTimers.lookup m :=
    AList.lookup_erase_ne hne
  unfold FailureDetector.expire FailureDetector.recoverSuspect
  split_ifs
  · split <;> exact hdrop
  · rfl
  · exact hdrop

lemma Inv.foldl_expire {order : List NodeId} (h : Inv d) (hnodup : order.Nodup)
    (htimers : ∀ n ∈ order, (d.suspicionTimers.lookup n).isSome) :
    Inv (order.foldl FailureDetector.expire d) := by
  induction order generalizing d with
  | nil => exact h
  | cons n rest ih =>
    obtain ⟨hn, hnodup⟩ := nodup_cons.mp hnodup
    obtain ⟨⟨⟨inc, since⟩, htimer⟩, htimers⟩ :=
      (forall_mem_cons.mp htimers).imp_left isSome_iff_exists.mp
    refine ih (h.expire htimer) hnodup fun m hm => ?_
    rw [lookup_expire_of_ne (ne_of_mem_of_not_mem hm hn)]
    exact htimers m hm

lemma nodup_expired : (d.expired now).Nodup :=
  d.suspicionTimers.nodupKeys.sublist filter_sublist

lemma isSome_of_mem_expired (hn : n ∈ d.expired now) : (d.suspicionTimers.lookup n).isSome := by
  obtain ⟨x, hx, rfl⟩ := mem_map.mp hn
  have hlookup := AList.mem_lookup_iff.mpr (mem_of_mem_filter hx)
  exact isSome_iff_exists.mpr ⟨_, hlookup⟩

theorem Inv.step {input : Input} (h : Inv d) (hs : step d input = some d') : Inv d' := by
  unfold FailureDetector.step at hs
  split_ifs at hs
  cases input with
  | pingResponse target success now =>
    obtain rfl := some.inj hs
    have hpending : Inv { d with
        pendingProbes := Function.update d.pendingProbes target none } := { h with }
    cases success with
    | true => exact hpending.succeeded
    | false => exact hpending.markSuspect
  | updateAliveNodes nodes =>
    obtain rfl := some.inj hs
    exact { h with }
  | removeNode n =>
    obtain rfl := some.inj hs
    exact { h.dropTimer with }
  | setPool =>
    obtain rfl := some.inj hs
    exact { h with }
  | shutdown =>
    obtain rfl := some.inj hs
    exact { h with }
  | tick now picked order =>
    simp only at hs
    split_ifs at hs with hok
    obtain rfl := some.inj hs
    have htimers : (d.startProbe now picked).suspicionTimers = d.suspicionTimers := by
      unfold startProbe
      split
      · split_ifs <;> rfl
      · rfl
    have hprobe : Inv (d.startProbe now picked) := by
      unfold startProbe
      split
      · split_ifs
        · exact { h with }
        · exact h
      · exact h
    refine hprobe.foldl_expire (hok.2.nodup_iff.mpr nodup_expired) fun n hn => ?_
    rw [htimers]
    exact isSome_of_mem_expired (hok.2.mem_iff.mp hn)

end FailureDetector

/-- **The failure detector follows the suspicion protocol**, until more has happened than a version
can count. -/
theorem detector_follows_protocol (nodeId : NodeId) (suspicionTimeout : ℕ) (hasPool : Bool)
    (inputs : List FailureDetector.Input) :
    Always FailureDetector.step
      (fun d => d.log.length < 2 ^ 64 → FailureDetector.FollowsProtocol d.log)
      (.new nodeId suspicionTimeout hasPool) inputs :=
  always_of_inv (fun _ _ _ h hs => h.step hs) (fun _ h hlog => (h.counted hlog).follows)
    FailureDetector.inv_new

-- a death after a suspicion
example : ((run FailureDetector.step (.new 0 5 true)
    [.updateAliveNodes [⟨1, .alive, ⟨0, 1⟩, 2⟩], .pingResponse 1 false 0, .tick 5 (some 1) [1]]).map
      fun d => d.log.map fun o => match o with
        | .verdict event shown => (event.newState, event.incarnation, event.version, shown)
        | .succeeded _ => (.alive, 0, 0, none)) =
    some [(.dead, 2, 2, some 2), (.suspect, 2, 1, some 2)] := by decide +kernel

end OceanFs.Membership
