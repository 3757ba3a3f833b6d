import OceanFs.Handlers.Get
import OceanFs.Lib.Lists
import OceanFs.Lib.Runs

/-!
Concurrent handlers on one key of one node.

Every handler is a program of small steps on the key's row and the three caches: lookups, the
read and the write of the row, filling a cache, dropping an entry, marking the key absent. A run
interleaves the steps of any number of handlers. A PUT or DELETE may return an error after it
has written the row, and then drops nothing; a PUT may take its row back first.
-/

namespace OceanFs.Handlers.Interleaving

open OceanFs.Core Cache Lib Lib.Runs Option List

/-- A row and the body it stands for; an embedded payload is the body. -/
structure Version where
  metadata : ObjectMetadata
  body : Bytes
  inline_eq : ∀ d, metadata.inlineData = some d → d = body

structure Config where
  bucket : BucketId
  key : ObjectKey
  l1 : EntryCacheConfig
  l2 : EntryCacheConfig
  l3 : NegativeCacheConfig
  hashKey : HashKey
  hash : Bytes → HashOutput

/-- What the handlers of the key share. -/
structure Node where
  row : Option Version
  l1 : EntryCache Bytes
  l2 : EntryCache ObjectMetadata
  l3 : NegativeCache

inductive Response
  | ok (body : Bytes)
  | notFound
  | panicked
  deriving DecidableEq

/-- What a step meets: the time, and the entries that a cache evicts. -/
structure Tick where
  now : ℕ
  evict : BucketId → ObjectKey → Bool

/-! ### The handlers -/

inductive GetPc
  | lookupL1
  /-- The object cache had the body; its hash is compared with the metadata cache's. -/
  | verify (body : Bytes)
  | lookupL2
  /-- The metadata cache had an embedded payload. -/
  | populateInline (body : Bytes)
  | lookupL3
  | readStore
  | populateL1 (v : Version)
  | populateL2 (v : Version)

variable (cfg : Config)

section

variable (n : Node)

def Node.putL1 (t : Tick) (body : Bytes) : Node :=
  { n with l1 := n.l1.put cfg.l1 List.length t.evict t.now cfg.bucket cfg.key body }

def Node.putL2 (t : Tick) (m : ObjectMetadata) : Node :=
  { n with l2 := n.l2.put cfg.l2 (fun _ => 0) t.evict t.now cfg.bucket cfg.key m }

def Node.clearL1 : Node := { n with l1 := n.l1.invalidate cfg.bucket cfg.key }

def Node.clearL2 : Node := { n with l2 := n.l2.invalidate cfg.bucket cfg.key }

def getStep (t : Tick) (n : Node) : GetPc → Node × (GetPc ⊕ Response)
  | .lookupL1 =>
    match n.l1.get cfg.l1 t.now cfg.bucket cfg.key with
    | (c, some body) => ({ n with l1 := c }, .inl (.verify body))
    | (c, none) => ({ n with l1 := c }, .inl .lookupL2)
  | .verify body =>
    let (c, hit) := n.l2.get cfg.l2 t.now cfg.bucket cfg.key
    let n := { n with l2 := c }
    -- a mismatch drops the entry and serves the body all the same
    if (hit.bind (·.blake3Hash)).any (cfg.hash body ≠ ·) then (n.clearL1 cfg, .inr (.ok body))
    else (n, .inr (.ok body))
  | .lookupL2 =>
    let (c, hit) := n.l2.get cfg.l2 t.now cfg.bucket cfg.key
    match hit.bind (·.inlineData) with
    | some body => ({ n with l2 := c }, .inl (.populateInline body))
    | none => ({ n with l2 := c }, .inl .lookupL3)
  | .populateInline body => (n.putL1 cfg t body, .inr (.ok body))
  | .lookupL3 =>
    match n.l3.contains cfg.hashKey cfg.l3 cfg.bucket cfg.key with
    | none => (n, .inr .panicked)
    | some (c, true) => ({ n with l3 := c }, .inr .notFound)
    | some (c, false) => ({ n with l3 := c }, .inl .readStore)
  | .readStore =>
    match n.row with
    | none => (n, .inr .notFound)
    | some v => (n, .inl (.populateL1 v))
  | .populateL1 v => (n.putL1 cfg t v.body, .inl (.populateL2 v))
  | .populateL2 v => (n.putL2 cfg t v.metadata, .inr (.ok v.body))

/-- The last step of a DELETE marks the key absent where that of a PUT drops the mark. -/
inductive WriterPc
  | write
  | clearL1
  | clearL2
  | finishL3

/-- A running handler. A PUT of no bytes has no version to write. -/
inductive Handler
  | get (pc : GetPc)
  | put (v : Option Version) (pc : WriterPc)
  | delete (pc : WriterPc)

/-- One step of a handler; `none` when it has returned. -/
def Handler.step (t : Tick) (n : Node) : Handler → Node × Option Handler
  | .get pc =>
    match getStep cfg t n pc with
    | (n, .inl pc) => (n, some (.get pc))
    | (n, .inr _) => (n, none)
  | .put v .write => ({ n with row := v.or n.row }, some (.put v .clearL1))
  | .put v .clearL1 => (n.clearL1 cfg, some (.put v .clearL2))
  | .put v .clearL2 => (n.clearL2 cfg, some (.put v .finishL3))
  | .put _ .finishL3 => ({ n with l3 := n.l3.invalidate cfg.l3 cfg.bucket cfg.key }, none)
  | .delete .write => ({ n with row := none }, some (.delete .clearL1))
  | .delete .clearL1 => (n.clearL1 cfg, some (.delete .clearL2))
  | .delete .clearL2 => (n.clearL2 cfg, some (.delete .finishL3))
  | .delete .finishL3 =>
    match n.l3.insert cfg.hashKey cfg.l3 cfg.bucket cfg.key with
    | none => (n, none)
    | some c => ({ n with l3 := c }, none)

/-- Where a handler may return an error: a GET anywhere, a writer before it writes, and after
the write a DELETE or the PUT of an inline object, whose row the coordinator writes before it
replicates. -/
def Handler.canFail : Handler → Bool
  | .get _ => true
  | .put _ .write => true
  | .put (some v) .clearL1 => v.metadata.isInline
  | .delete .write => true
  | .delete .clearL1 => true
  | _ => false

/-- Where a PUT may take its row back and return an error. -/
def Handler.canRollback : Handler → Bool
  | .put (some v) .clearL1 => v.metadata.isInline
  | _ => false

/-! ### Runs -/

structure State where
  node : Node
  running : List Handler

inductive Act
  | startGet
  | startPut (v : Option Version)
  | startDelete
  | step (i : ℕ) (t : Tick)
  | fail (i : ℕ)
  | rollback (i : ℕ)

/-- The running handlers after the one at `i` has moved to `h`, or returned. -/
def moved (running : List Handler) (i : ℕ) : Option Handler → List Handler
  | some h => running.set i h
  | none => running.eraseIdx i

def step (s : State) : Act → Option State
  | .startGet => some { s with running := s.running ++ [.get .lookupL1] }
  | .startPut v => some { s with running := s.running ++ [.put v .write] }
  | .startDelete => some { s with running := s.running ++ [.delete .write] }
  | .step i t => s.running[i]?.map fun h =>
      ⟨(h.step cfg t s.node).1, moved s.running i (h.step cfg t s.node).2⟩
  | .fail i => (s.running[i]?.filter (·.canFail)).map fun _ =>
      { s with running := s.running.eraseIdx i }
  | .rollback i => (s.running[i]?.filter (·.canRollback)).map fun _ =>
      ⟨{ s.node with row := none }, s.running.eraseIdx i⟩

/-! ### The property -/

/-- A GET that runs alone. -/
def serve (ticks : ℕ → Tick) : ℕ → GetPc → Node → Option Response
  | 0, _, _ => none
  | fuel + 1, pc, n =>
    match getStep cfg (ticks fuel) n pc with
    | (n, .inl pc) => serve ticks fuel pc n
    | (_, .inr r) => some r

def expected : Option Version → Response
  | some v => .ok v.body
  | none => .notFound

/-- Where no handler runs, a GET answers from the current row. -/
def Serves (s : State) : Prop :=
  s.running = [] → ∀ ticks, serve cfg ticks 6 .lookupL1 s.node = some (expected s.node.row)

/-! ### Caches that agree with the row -/

/-- The row's body. -/
def Current (body : Bytes) : Prop := n.row.map (·.body) = some body

def L1Agrees : Prop := ∀ e, n.l1 cfg.bucket cfg.key = some e → Current n e.value

def L2Agrees : Prop :=
  ∀ e, n.l2 cfg.bucket cfg.key = some e → ∀ d, e.value.inlineData = some d → Current n d

def L3Agrees : Prop :=
  n.l3.answer cfg.hashKey cfg.l3 cfg.bucket cfg.key = some true → n.row = none

/-- The handler has written the row and has yet to drop the key from that cache. -/
def Handler.owesL1 : Handler → Bool
  | .put (some _) .clearL1 => true
  | .delete .clearL1 => true
  | _ => false

def Handler.owesL2 : Handler → Bool
  | .put (some _) .clearL1 => true
  | .put (some _) .clearL2 => true
  | .delete .clearL1 => true
  | .delete .clearL2 => true
  | _ => false

def Handler.owesL3 : Handler → Bool
  | .put (some _) .clearL1 => true
  | .put (some _) .clearL2 => true
  | .put (some _) .finishL3 => true
  | _ => false

/-- A cache agrees with the row, or a running handler will drop the key from it. -/
def Settled (Agrees : Node → Prop) (owes : Handler → Bool) (n : Node) (running : List Handler) :
    Prop :=
  Agrees n ∨ ∃ h ∈ running, owes h = true

def Coherent (s : State) : Prop :=
  Settled (L1Agrees cfg) Handler.owesL1 s.node s.running ∧
    Settled (L2Agrees cfg) Handler.owesL2 s.node s.running ∧
    Settled (L3Agrees cfg) Handler.owesL3 s.node s.running

/-- What the step of a GET puts in the object cache, and in the metadata cache. -/
def GetPc.fillsL1 : GetPc → Option Bytes
  | .populateInline body => some body
  | .populateL1 v => some v.body
  | _ => none

def GetPc.fillsL2 : GetPc → Option ObjectMetadata
  | .populateL2 v => some v.metadata
  | _ => none

/-! ### Steps that keep them so -/

def NotInL1 : Prop := n.l1 cfg.bucket cfg.key = none

def NotInL2 : Prop := ∀ e ∈ n.l2 cfg.bucket cfg.key, e.value.inlineData = none

def NotInL3 : Prop := n.l3.answer cfg.hashKey cfg.l3 cfg.bucket cfg.key ≠ some true

end

/-- What the step of a handler must find. A GET fills a cache with what is still the current
body, or while a writer has yet to clear that cache; a DELETE marks the key absent while there is
no row, or while a PUT has yet to drop the mark. -/
def Handler.Benign (s : State) : Handler → Prop
  | .get pc =>
    (∀ body ∈ pc.fillsL1, Settled (Current · body) Handler.owesL1 s.node s.running) ∧
      ∀ m ∈ pc.fillsL2, Settled (fun n => ∀ d ∈ m.inlineData, Current n d) Handler.owesL2
        s.node s.running
  | .delete .finishL3 => Settled (·.row = none) Handler.owesL3 s.node s.running
  | _ => True

/-- A writer that has written returns an error, with its row taken back or not, only where a
cache it leaves uncleared does not hold the key or another writer has yet to clear it. -/
def Benign (s : State) : Act → Prop
  | .step i _ => ∀ h ∈ s.running[i]?, h.Benign s
  | .fail i =>
    ∀ h ∈ s.running[i]?,
      (h.owesL1 = true → Settled (NotInL1 cfg) Handler.owesL1 s.node (s.running.eraseIdx i)) ∧
      (h.owesL2 = true → Settled (NotInL2 cfg) Handler.owesL2 s.node (s.running.eraseIdx i)) ∧
      (h.owesL3 = true → Settled (NotInL3 cfg) Handler.owesL3 s.node (s.running.eraseIdx i))
  | .rollback i =>
    Settled (NotInL1 cfg) Handler.owesL1 s.node (s.running.eraseIdx i) ∧
      Settled (NotInL2 cfg) Handler.owesL2 s.node (s.running.eraseIdx i)
  | _ => True

instance (n : Node) (body : Bytes) : Decidable (Current n body) :=
  inferInstanceAs (Decidable (_ = _))

instance (Agrees : Node → Prop) [DecidablePred Agrees] (owes : Handler → Bool) (n : Node)
    (running : List Handler) : Decidable (Settled Agrees owes n running) :=
  inferInstanceAs (Decidable (_ ∨ _))

instance : DecidablePred (NotInL1 cfg) := fun _ => inferInstanceAs (Decidable (_ = none))

instance : DecidablePred (NotInL2 cfg) := fun _ => inferInstanceAs (Decidable (∀ e ∈ _, _))

instance : DecidablePred (NotInL3 cfg) := fun _ => inferInstanceAs (Decidable (_ ≠ _))

instance (s : State) : (h : Handler) → Decidable (h.Benign s)
  | .get _ => inferInstanceAs (Decidable (_ ∧ _))
  | .put _ _ | .delete .write | .delete .clearL1 | .delete .clearL2 => .isTrue trivial
  | .delete .finishL3 =>
    inferInstanceAs (Decidable (Settled (fun n => n.row = none) Handler.owesL3 s.node s.running))

instance (s : State) : (a : Act) → Decidable (Benign cfg s a)
  | .startGet | .startPut _ | .startDelete => .isTrue trivial
  | .step _ _ | .fail _ => inferInstanceAs (Decidable (∀ h ∈ _, _))
  | .rollback _ => inferInstanceAs (Decidable (_ ∧ _))

/-! ### One step -/

variable {cfg : Config} {n n' : Node}

/-- What a step of a GET can do: it keeps the row and the answer of the negative cache, and
leaves, drops or fills the entry of the other two. -/
lemma getStep_frame (t : Tick) (n : Node) (pc : GetPc) :
    (getStep cfg t n pc).1.row = n.row ∧
    ((getStep cfg t n pc).1.l1 cfg.bucket cfg.key = n.l1 cfg.bucket cfg.key ∨
      (getStep cfg t n pc).1.l1 cfg.bucket cfg.key = none ∨
      ∃ e, (getStep cfg t n pc).1.l1 cfg.bucket cfg.key = some e ∧ pc.fillsL1 = some e.value) ∧
    ((getStep cfg t n pc).1.l2 cfg.bucket cfg.key = n.l2 cfg.bucket cfg.key ∨
      (getStep cfg t n pc).1.l2 cfg.bucket cfg.key = none ∨
      ∃ e, (getStep cfg t n pc).1.l2 cfg.bucket cfg.key = some e ∧ pc.fillsL2 = some e.value) ∧
    (getStep cfg t n pc).1.l3.answer cfg.hashKey cfg.l3 cfg.bucket cfg.key =
      n.l3.answer cfg.hashKey cfg.l3 cfg.bucket cfg.key := by
  have hl1 := (EntryCache.get_self cfg.l1 t.now cfg.bucket cfg.key n.l1).1
  have hl2 := (EntryCache.get_self cfg.l2 t.now cfg.bucket cfg.key n.l2).1
  cases pc with
  | lookupL1 =>
    simp only [getStep]
    split <;> rename_i hget <;> rw [hget] at hl1 <;>
      exact ⟨rfl, hl1.imp_right .inl, .inl rfl, rfl⟩
  | verify body =>
    simp only [getStep]
    split
    · exact ⟨rfl, .inr (.inl (by simp [Node.clearL1])), hl2.imp_right .inl, rfl⟩
    · exact ⟨rfl, .inl rfl, hl2.imp_right .inl, rfl⟩
  | lookupL2 =>
    simp only [getStep]
    split <;> exact ⟨rfl, .inl rfl, hl2.imp_right .inl, rfl⟩
  | populateInline body =>
    refine ⟨rfl, ?_, .inl rfl, rfl⟩
    rcases EntryCache.put_self cfg.l1 List.length t.evict t.now cfg.bucket cfg.key body n.l1
      with h | ⟨e, he, hv⟩
    · exact .inl h
    · exact .inr (.inr ⟨e, he, by rw [hv]; rfl⟩)
  | lookupL3 =>
    simp only [getStep]
    split
    · exact ⟨rfl, .inl rfl, .inl rfl, rfl⟩
    · rename_i hc
      exact ⟨rfl, .inl rfl, .inl rfl, NegativeCache.answer_of_contains hc⟩
    · rename_i hc
      exact ⟨rfl, .inl rfl, .inl rfl, NegativeCache.answer_of_contains hc⟩
  | readStore =>
    simp only [getStep]
    split <;> exact ⟨rfl, .inl rfl, .inl rfl, rfl⟩
  | populateL1 v =>
    refine ⟨rfl, ?_, .inl rfl, rfl⟩
    rcases EntryCache.put_self cfg.l1 List.length t.evict t.now cfg.bucket cfg.key v.body n.l1
      with h | ⟨e, he, hv⟩
    · exact .inl h
    · exact .inr (.inr ⟨e, he, by rw [hv]; rfl⟩)
  | populateL2 v =>
    refine ⟨rfl, .inl rfl, ?_, rfl⟩
    rcases EntryCache.put_self cfg.l2 (fun _ => 0) t.evict t.now cfg.bucket cfg.key v.metadata n.l2
      with h | ⟨e, he, hv⟩
    · exact .inl h
    · exact .inr (.inr ⟨e, he, by rw [hv]; rfl⟩)

lemma mem_moved_of_mem_eraseIdx {running : List Handler} {i : ℕ} {x : Handler}
    (h : x ∈ running.eraseIdx i) (next : Option Handler) : x ∈ moved running i next := by
  cases next with
  | none => exact h
  | some y =>
    rw [eraseIdx_eq_take_drop_succ] at h
    by_cases hi : i < running.length
    · rw [moved, set_eq_take_append_cons_drop, if_pos hi]
      simp only [mem_append, mem_cons] at h ⊢
      tauto
    · rw [moved, set_eq_of_length_le (by omega)]
      rw [drop_of_length_le (by omega), append_nil] at h
      exact mem_of_mem_take h

section

variable {Agrees : Node → Prop} {owes : Handler → Bool} {running : List Handler} {i : ℕ}
  {h : Handler} {next : Option Handler}

lemma settled_of_owed (hi : running[i]? = some h) (hno : owes h = false)
    (howed : ∃ x ∈ running, owes x = true) : Settled Agrees owes n' (moved running i next) := by
  obtain ⟨x, hx, ho⟩ := howed
  rcases Lists.eq_or_mem_eraseIdx hi hx with rfl | hx
  · rw [hno] at ho
    exact absurd ho (by simp)
  · exact .inr ⟨x, mem_moved_of_mem_eraseIdx hx _, ho⟩

lemma settled_moved (hi : running[i]? = some h) (hs : Settled Agrees owes n running)
    (hlocal : Agrees n ∨ owes h = true → Agrees n' ∨ ∃ x, next = some x ∧ owes x = true) :
    Settled Agrees owes n' (moved running i next) := by
  have hmove : Agrees n ∨ owes h = true → Settled Agrees owes n' (moved running i next) := by
    intro hl
    refine (hlocal hl).imp_right ?_
    rintro ⟨x, rfl, hx⟩
    refine ⟨x, ?_, hx⟩
    have hlt := (List.getElem?_eq_some_iff.mp hi).1
    exact mem_set hlt x
  rcases hs with ha | ⟨x, hx, ho⟩
  · exact hmove (.inl ha)
  · rcases Lists.eq_or_mem_eraseIdx hi hx with rfl | hx
    · exact hmove (.inr ho)
    · exact .inr ⟨x, mem_moved_of_mem_eraseIdx hx _, ho⟩

lemma settled_eraseIdx (hi : running[i]? = some h) (hs : Settled Agrees owes n running)
    (hleft : owes h = true → Settled Agrees owes n (running.eraseIdx i)) :
    Settled Agrees owes n (running.eraseIdx i) := by
  rcases hs with ha | ⟨x, hx, ho⟩
  · exact .inl ha
  · rcases Lists.eq_or_mem_eraseIdx hi hx with rfl | hx
    · exact hleft ho
    · exact .inr ⟨x, hx, ho⟩

end

lemma coherent_get {s : State} {i : ℕ} {pc : GetPc} (hi : s.running[i]? = some (.get pc))
    (hc : Coherent cfg s) (t : Tick) (hb : Benign cfg s (.step i t)) (next : Option Handler) :
    Coherent cfg ⟨(getStep cfg t s.node pc).1, moved s.running i next⟩ := by
  obtain ⟨hrow, h1, h2, h3⟩ := @getStep_frame cfg t s.node pc
  have hb : Handler.Benign s (.get pc) := hb _ hi
  obtain ⟨c1, c2, c3⟩ := hc
  refine ⟨?_, ?_, ?_⟩
  · have hkeep : (∀ body ∈ pc.fillsL1, Current s.node body) → L1Agrees cfg s.node →
        L1Agrees cfg (getStep cfg t s.node pc).1 := by
      intro hcur ha e he
      have hcurrent : Current s.node e.value := by
        rcases h1 with h | h | ⟨e', he', hf⟩
        · exact ha e (h ▸ he)
        · rw [h] at he
          exact absurd he (by simp)
        · obtain rfl : e' = e := some.inj (he'.symm.trans he)
          exact hcur _ hf
      simpa [Current, hrow] using hcurrent
    by_cases howed : ∃ x ∈ s.running, x.owesL1 = true
    · exact settled_of_owed hi rfl howed
    · refine settled_moved hi c1 fun hl => .inl (hkeep (fun body hf => ?_) (hl.resolve_right (by
        simp [Handler.owesL1])))
      exact (hb.1 body hf).resolve_right howed
  · have hkeep : (∀ m ∈ pc.fillsL2, ∀ d ∈ m.inlineData, Current s.node d) → L2Agrees cfg s.node →
        L2Agrees cfg (getStep cfg t s.node pc).1 := by
      intro hcur ha e he d hd
      have hcurrent : Current s.node d := by
        rcases h2 with h | h | ⟨e', he', hf⟩
        · exact ha e (h ▸ he) d hd
        · rw [h] at he
          exact absurd he (by simp)
        · obtain rfl : e' = e := some.inj (he'.symm.trans he)
          exact hcur _ hf d hd
      simpa [Current, hrow] using hcurrent
    by_cases howed : ∃ x ∈ s.running, x.owesL2 = true
    · exact settled_of_owed hi rfl howed
    · refine settled_moved hi c2 fun hl => .inl (hkeep (fun m hf => ?_) (hl.resolve_right (by
        simp [Handler.owesL2])))
      exact (hb.2 m hf).resolve_right howed
  · refine settled_moved hi c3 fun hl => .inl ?_
    have ha := hl.resolve_right (by simp [Handler.owesL3])
    intro habs
    rw [h3] at habs
    rw [hrow]
    exact ha habs

lemma NotInL1.agrees (h : NotInL1 cfg n) : L1Agrees cfg n := by
  intro e he
  rw [NotInL1] at h
  rw [h] at he
  exact absurd he (by simp)

lemma NotInL2.agrees (h : NotInL2 cfg n) : L2Agrees cfg n := by
  intro e he d hd
  rw [h e he] at hd
  exact absurd hd (by simp)

lemma NotInL3.agrees (h : NotInL3 cfg n) : L3Agrees cfg n := fun ha => absurd ha h

lemma notInL1_clearL1 (n : Node) : NotInL1 cfg (n.clearL1 cfg) := by
  simp [NotInL1, Node.clearL1]

lemma notInL2_clearL2 (n : Node) : NotInL2 cfg (n.clearL2 cfg) := by
  simp [NotInL2, Node.clearL2]

lemma notInL3_invalidate (n : Node) :
    NotInL3 cfg { n with l3 := n.l3.invalidate cfg.l3 cfg.bucket cfg.key } := by
  intro h
  rw [NegativeCache.answer_invalidate] at h
  split at h <;> simp at h

lemma coherent_moved {s : State} {i : ℕ} {h : Handler} {next : Option Handler}
    (hi : s.running[i]? = some h) (hc : Coherent cfg s)
    (h1 : L1Agrees cfg s.node ∨ h.owesL1 = true →
      L1Agrees cfg n' ∨ ∃ x, next = some x ∧ x.owesL1 = true)
    (h2 : L2Agrees cfg s.node ∨ h.owesL2 = true →
      L2Agrees cfg n' ∨ ∃ x, next = some x ∧ x.owesL2 = true)
    (h3 : L3Agrees cfg s.node ∨ h.owesL3 = true →
      L3Agrees cfg n' ∨ ∃ x, next = some x ∧ x.owesL3 = true) :
    Coherent cfg ⟨n', moved s.running i next⟩ :=
  ⟨settled_moved hi hc.1 h1, settled_moved hi hc.2.1 h2, settled_moved hi hc.2.2 h3⟩

lemma coherent_put {s : State} {i : ℕ} {v : Option Version} {pc : WriterPc}
    (hi : s.running[i]? = some (.put v pc)) (hc : Coherent cfg s) (t : Tick) :
    Coherent cfg ⟨(Handler.step cfg t s.node (.put v pc)).1,
      moved s.running i (Handler.step cfg t s.node (.put v pc)).2⟩ := by
  refine coherent_moved hi hc (fun hl => ?_) (fun hl => ?_) (fun hl => ?_)
  all_goals cases pc
  case refine_1.write | refine_2.write | refine_3.write =>
    cases v with
    -- a PUT of no bytes writes nothing
    | none => exact .inl (hl.resolve_right nofun)
    | some v => exact .inr ⟨_, rfl, rfl⟩
  case refine_1.clearL1 => exact .inl (notInL1_clearL1 s.node).agrees
  case refine_2.clearL2 => exact .inl (notInL2_clearL2 s.node).agrees
  case refine_3.finishL3 => exact .inl (notInL3_invalidate s.node).agrees
  case refine_1.clearL2 | refine_1.finishL3 | refine_2.finishL3 =>
    refine .inl (hl.resolve_right ?_)
    cases v <;> nofun
  case refine_2.clearL1 | refine_3.clearL1 | refine_3.clearL2 =>
    refine hl.imp id fun ho => ⟨_, rfl, ?_⟩
    cases v <;> exact ho

lemma coherent_delete {s : State} {i : ℕ} {pc : WriterPc} (hi : s.running[i]? = some (.delete pc))
    (hc : Coherent cfg s) (t : Tick) (hb : Benign cfg s (.step i t)) :
    Coherent cfg ⟨(Handler.step cfg t s.node (.delete pc)).1,
      moved s.running i (Handler.step cfg t s.node (.delete pc)).2⟩ := by
  cases pc with
  | write =>
    exact coherent_moved hi hc (fun _ => .inr ⟨_, rfl, rfl⟩) (fun _ => .inr ⟨_, rfl, rfl⟩)
      fun _ => .inl fun _ => rfl
  | clearL1 =>
    exact coherent_moved hi hc (fun _ => .inl (notInL1_clearL1 s.node).agrees)
      (fun hl => hl.imp id fun _ => ⟨_, rfl, rfl⟩) fun hl => .inl (hl.resolve_right nofun)
  | clearL2 =>
    exact coherent_moved hi hc (fun hl => .inl (hl.resolve_right nofun))
      (fun _ => .inl (notInL2_clearL2 s.node).agrees) fun hl => .inl (hl.resolve_right nofun)
  | finishL3 =>
    have hb' : Settled (·.row = none) Handler.owesL3 s.node s.running := hb _ hi
    have hrow : (Handler.step cfg t s.node (.delete .finishL3)).1.row = s.node.row ∧
        (Handler.step cfg t s.node (.delete .finishL3)).1.l1 = s.node.l1 ∧
        (Handler.step cfg t s.node (.delete .finishL3)).1.l2 = s.node.l2 := by
      simp only [Handler.step]
      split <;> exact ⟨rfl, rfl, rfl⟩
    refine ⟨settled_moved hi hc.1 fun hl => .inl ?_, settled_moved hi hc.2.1 fun hl => .inl ?_, ?_⟩
    · have ha := hl.resolve_right nofun
      simpa only [L1Agrees, Current, hrow] using ha
    · have ha := hl.resolve_right nofun
      simpa only [L2Agrees, Current, hrow] using ha
    · rcases hb' with hnone | howed
      · exact .inl fun _ => hrow.1.trans hnone
      · exact settled_of_owed hi rfl howed

theorem coherent_step {s s' : State} {a : Act} (hc : Coherent cfg s) (hb : Benign cfg s a)
    (hs : step cfg s a = some s') : Coherent cfg s' := by
  have hstart : ∀ h, Coherent cfg { s with running := s.running ++ [h] } := by
    intro h
    obtain ⟨c1, c2, c3⟩ := hc
    refine ⟨c1.imp_right ?_, c2.imp_right ?_, c3.imp_right ?_⟩ <;>
      exact fun ⟨x, hx, ho⟩ => ⟨x, mem_append_left _ hx, ho⟩
  cases a with
  | startGet =>
    obtain rfl := some.inj hs
    exact hstart _
  | startPut v =>
    obtain rfl := some.inj hs
    exact hstart _
  | startDelete =>
    obtain rfl := some.inj hs
    exact hstart _
  | step i t =>
    obtain ⟨h, hi, rfl⟩ := map_eq_some_iff.mp hs
    cases h with
    | get pc =>
      have hnode : (Handler.step cfg t s.node (.get pc)).1 = (getStep cfg t s.node pc).1 := by
        simp only [Handler.step]
        split <;> simp_all
      rw [hnode]
      exact coherent_get hi hc t hb _
    | put v pc => exact coherent_put hi hc t
    | delete pc => exact coherent_delete hi hc t hb
  | fail i =>
    obtain ⟨h, hi, rfl⟩ := map_eq_some_iff.mp hs
    have hi := (filter_eq_some_iff.mp hi).1
    obtain ⟨b1, b2, b3⟩ := hb h hi
    exact ⟨settled_eraseIdx hi hc.1 fun ho => (b1 ho).imp_left NotInL1.agrees,
      settled_eraseIdx hi hc.2.1 fun ho => (b2 ho).imp_left NotInL2.agrees,
      settled_eraseIdx hi hc.2.2 fun ho => (b3 ho).imp_left NotInL3.agrees⟩
  | rollback i =>
    obtain ⟨h, -, rfl⟩ := map_eq_some_iff.mp hs
    exact ⟨hb.1.imp_left fun h => NotInL1.agrees h, hb.2.imp_left fun h => NotInL2.agrees h,
      .inl fun _ => rfl⟩

/-! ### A GET that runs alone -/

section

variable {ticks : ℕ → Tick} {fuel : ℕ}

lemma expected_of_current {body : Bytes} (h : Current n body) : expected n.row = .ok body := by
  obtain ⟨v, hv, rfl⟩ := map_eq_some_iff.mp h
  rw [hv]
  rfl

lemma serve_readStore (n : Node) :
    serve cfg ticks (fuel + 3) .readStore n = some (expected n.row) := by
  rw [serve]
  cases hrow : n.row with
  | none => simp [getStep, hrow, expected]
  | some v => simp [getStep, hrow, expected, serve]

lemma serve_lookupL3 (hbits : cfg.l3.enabled = false ∨ 0 < cfg.l3.bitCount) (h3 : L3Agrees cfg n) :
    serve cfg ticks (fuel + 4) .lookupL3 n = some (expected n.row) := by
  rcases hc : n.l3.contains cfg.hashKey cfg.l3 cfg.bucket cfg.key with _ | ⟨c, _ | _⟩
  · -- a filter with bits is probed without a panic
    simp only [NegativeCache.contains] at hc
    split_ifs at hc with hoff hrecent hzero
    simp [hoff, hzero] at hbits
  · rw [serve]
    simp only [getStep, hc]
    exact serve_readStore _
  · have hrow : n.row = none := h3 (by simp [NegativeCache.answer, hc])
    simp [serve, getStep, hc, hrow, expected]

lemma serve_lookupL2 (hbits : cfg.l3.enabled = false ∨ 0 < cfg.l3.bitCount) (h2 : L2Agrees cfg n)
    (h3 : L3Agrees cfg n) :
    serve cfg ticks (fuel + 5) .lookupL2 n = some (expected n.row) := by
  have hget := (EntryCache.get_self cfg.l2 (ticks (fuel + 4)).now cfg.bucket cfg.key n.l2).2
  rcases hc : n.l2.get cfg.l2 (ticks (fuel + 4)).now cfg.bucket cfg.key with ⟨c, hit⟩
  cases hd : hit.bind (·.inlineData) with
  | some d =>
    obtain ⟨m, rfl, hm⟩ := bind_eq_some_iff.mp hd
    obtain ⟨e, he, rfl⟩ := hget m (by rw [hc])
    rw [expected_of_current (h2 e he d hm)]
    simp only [serve, getStep, hc, hd]
  | none =>
    rw [serve]
    simp only [getStep, hc, hd]
    exact serve_lookupL3 hbits h3

theorem serve_of_agrees (hbits : cfg.l3.enabled = false ∨ 0 < cfg.l3.bitCount) (h1 : L1Agrees cfg n)
    (h2 : L2Agrees cfg n) (h3 : L3Agrees cfg n) :
    serve cfg ticks (fuel + 6) .lookupL1 n = some (expected n.row) := by
  have hget := (EntryCache.get_self cfg.l1 (ticks (fuel + 5)).now cfg.bucket cfg.key n.l1).2
  rcases hc : n.l1.get cfg.l1 (ticks (fuel + 5)).now cfg.bucket cfg.key with ⟨c, _ | body⟩
  · rw [serve]
    simp only [getStep, hc]
    exact serve_lookupL2 hbits h2 h3
  · obtain ⟨e, he, rfl⟩ := hget body (by rw [hc])
    rw [expected_of_current (h1 e he), serve]
    simp only [getStep, hc]
    -- the body is served whether its hash matches or not
    rw [serve]
    simp only [getStep]
    split_ifs <;> rfl

end

/-! ### The handler in one go -/

section

open Write Read

/-- What the client sees of an answer of `get_object`; another error says nothing of the key. -/
def answered : GetResponse → Option Response
  | .ok body => some (.ok body)
  | .notFound _ _ => some .notFound
  | .error (.notFound _ _) => some .notFound
  | .error .panicked => some .panicked
  | _ => none

def configOf (env : Env) (renv : ReadEnv) (hashKey : HashKey) (b : BucketId) (k : ObjectKey) :
    Config where
  bucket := b
  key := k
  l1 := renv.l1
  l2 := renv.l2
  l3 := (env.service env.self).l3
  hashKey := hashKey
  hash := env.hash

/-- **The steps of a GET** make up the handler: where the coordinator's read gives what the row
stands for, whatever the caches hold, both answer alike. -/
theorem getObject_eq_serve {env : Env} {renv : ReadEnv} {hashKey : HashKey} {b : BucketId}
    {k : ObjectKey} {w : World} {c : NegativeCache} {row : Option Version} (hk : k ≠ "")
    (hneg : (w.replica env.self).negativeCache = some c)
    (hreads : ∀ u : World, (∀ t, u.keyAt t b k = w.keyAt t b k) → u.segments = w.segments →
      answered (serveRead env renv b k u).2 = some (expected row)) :
    answered (getObject env renv hashKey b k w).2 =
      serve (configOf env renv hashKey b k) (fun _ => ⟨renv.cacheNow, renv.evict⟩) 6 .lookupL1
        ⟨row, w.l1 env.self, w.l2 env.self, c⟩ := by
  unfold getObject
  rw [if_neg hk, serve]
  rcases h1 : (w.l1 env.self).get renv.l1 renv.cacheNow b k with ⟨c1, _ | body⟩
  · simp only [getL1, getStep, configOf, h1]
    rw [serve]
    rcases h2 : (w.l2 env.self).get renv.l2 renv.cacheNow b k with ⟨c2, hit⟩
    cases hd : hit.bind (·.inlineData) with
    | some d => simp [getL2, setL1, getStep, h2, hd, serve, answered]
    | none =>
      simp only [getL2, setL1, getStep, h2, hd]
      rw [serve]
      rcases h3 : c.contains hashKey (env.service env.self).l3 b k with _ | ⟨c3, _ | _⟩
      · simp [containsNegative, setL2, hneg, getStep, h3, answered]
      · simp only [containsNegative, setL2, hneg, getStep, h3, map_some]
        rw [serve_readStore]
        refine hreads _ (fun t => ?_) rfl
        exact World.setReplica_keyAt_of_store b k (by rfl) t
      · simp [containsNegative, setL2, hneg, getStep, h3, answered]
  · simp only [getL1, getStep, configOf, h1, serveCached]
    rw [serve]
    simp only [getStep]
    split_ifs <;> simp [answered]

end

/-! ### Whole runs -/

/-- A node that has just started: its caches are empty. -/
def boot (row : Option Version) : State := ⟨⟨row, .empty, .empty, .new⟩, []⟩

lemma coherent_boot (row : Option Version) : Coherent cfg (boot row) := by
  refine ⟨.inl (NotInL1.agrees rfl), .inl (NotInL2.agrees nofun), .inl (NotInL3.agrees ?_)⟩
  have hempty := Bloom.contains_empty (positions_ne_nil cfg.hashKey cfg.l3 cfg.bucket cfg.key)
  simp only [NotInL3, NegativeCache.answer, NegativeCache.contains, boot, NegativeCache.filter_new,
    hempty]
  split_ifs <;> simp

/-- **Caches and store.** In every run of handlers from the start of a node whose steps are all
benign, a GET that runs alone answers from the current row. -/
theorem benign_runs_serve_row (hbits : cfg.l3.enabled = false ∨ 0 < cfg.l3.bitCount)
    (row : Option Version) (as : List Act) (hb : Guarded (step cfg) (Benign cfg) (boot row) as) :
    Always (step cfg) (Serves cfg) (boot row) as := by
  refine always_of_guarded (fun _ _ _ hc hb hs => coherent_step hc hb hs) ?_ (coherent_boot row) hb
  rintro s ⟨h1, h2, h3⟩ hidle ticks
  -- with no handler running nobody owes anything
  have hagree : ∀ {Agrees : Node → Prop} {owes : Handler → Bool},
      Settled Agrees owes s.node s.running → Agrees s.node := by
    intro Agrees owes hs
    rw [hidle] at hs
    exact hs.resolve_right (by simp)
  exact serve_of_agrees hbits (hagree h1) (hagree h2) (hagree h3)

/-! ### Runs on one key -/

/-- The version of an inline object with the given body. -/
def inlineVersion (body : Bytes) : Version where
  metadata := Write.inlineRow "k" body zeroHash ⟨1, 0⟩ 0
  body := body
  inline_eq := by simp [Write.inlineRow]

def allLevels : Config where
  bucket := "b"
  key := "k"
  l1 := ⟨true, 0, some 64⟩
  l2 := ⟨true, 0, none⟩
  l3 := ⟨true, 8, some 1, 4⟩
  hashKey := fun _ _ => (1, 1)
  hash := fun _ => zeroHash

def tick : Tick := ⟨0, fun _ _ => false⟩

/-- The steps of a GET that misses every cache, up to its read of the row. -/
def readRow (i : ℕ) : List Act := List.replicate 4 (.step i tick)

/-- The steps of a whole PUT or DELETE. -/
def writeAll (i : ℕ) : List Act := List.replicate 4 (.step i tick)

def fillBoth (i : ℕ) : List Act := List.replicate 2 (.step i tick)

/-- What a GET then answers alone, and what it should answer. -/
def outcome (row : Version) (as : List Act) : Option (Bool × Option Response × Response) :=
  (run (step allLevels) (boot (some row)) as).map fun s =>
    (s.running.isEmpty, serve allLevels (fun _ => tick) 6 .lookupL1 s.node, expected s.node.row)

/-- A GET that fills the caches while a PUT has yet to clear them, then a DELETE. -/
theorem overlapped_fill_served :
    Always (step allLevels) (Serves allLevels) (boot (some (inlineVersion [1])))
      ([.startGet] ++ readRow 0 ++ [.startPut (some (inlineVersion [2])), .step 1 tick] ++
        fillBoth 0 ++ List.replicate 3 (.step 0 tick) ++ [.startDelete] ++ writeAll 0) :=
  benign_runs_serve_row (by decide) _ _ (by decide)

lemma not_always_of_outcome {row : Version} {as : List Act} {got : Option Response}
    {want : Response} (h : outcome row as = some (true, got, want)) (hne : got ≠ some want) :
    ¬Always (step allLevels) (Serves allLevels) (boot (some row)) as := by
  intro hall
  obtain ⟨s, hs, heq⟩ := map_eq_some_iff.mp h
  simp only [Prod.mk.injEq, List.isEmpty_iff] at heq
  obtain ⟨hidle, rfl, rfl⟩ := heq
  exact hne ((always_iff_run _ _).mp hall as s prefix_rfl hs hidle _)

/-- **Four runs after which a GET contradicts the store**: a GET that fills the caches after a
PUT has cleared them; a DELETE that marks the key absent after a PUT; a DELETE that fails after
it has written; a PUT that takes its row back. -/
theorem cache_contradicts_row :
    ¬Always (step allLevels) (Serves allLevels) (boot (some (inlineVersion [1])))
      ([.startGet] ++ readRow 0 ++ [.startPut (some (inlineVersion [2]))] ++ writeAll 1 ++
        fillBoth 0) ∧
    ¬Always (step allLevels) (Serves allLevels) (boot (some (inlineVersion [1])))
      ([.startDelete] ++ List.replicate 3 (.step 0 tick) ++
        [.startPut (some (inlineVersion [2]))] ++ writeAll 1 ++ [.step 0 tick]) ∧
    ¬Always (step allLevels) (Serves allLevels) (boot (some (inlineVersion [1])))
      ([.startGet] ++ readRow 0 ++ fillBoth 0 ++ [.startDelete, .step 0 tick, .fail 0]) ∧
    ¬Always (step allLevels) (Serves allLevels) (boot (some (inlineVersion [1])))
      ([.startGet] ++ readRow 0 ++ fillBoth 0 ++
        [.startPut (some (inlineVersion [2])), .step 0 tick, .rollback 0]) := by
  refine ⟨?_, ?_, ?_, ?_⟩
  · exact @not_always_of_outcome _ _ (some (.ok [1])) (.ok [2]) (by decide) (by decide)
  · exact @not_always_of_outcome _ _ (some .notFound) (.ok [2]) (by decide) (by decide)
  · exact @not_always_of_outcome _ _ (some (.ok [1])) .notFound (by decide) (by decide)
  · exact @not_always_of_outcome _ _ (some (.ok [1])) .notFound (by decide) (by decide)

end OceanFs.Handlers.Interleaving
