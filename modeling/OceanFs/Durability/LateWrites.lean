import OceanFs.Durability.Hints
import OceanFs.Lib.Lists
import OceanFs.Lib.Runs
import OceanFs.Read.Coordinator

/-!
Background writes of a key that arrive late: hints, read-repair pushes, repairs of dangling rows.

A hint and a push compare their timestamp with the row and the tombstone in two reads and then
write, without a lock over the three. The repair of a dangling row writes the first usable answer
of another replica and compares nothing. The store's own put and delete are unconditional. So
whether a write lowers the version of the key is decided by the last write that came after the
first read; and a hint takes a read that fails for one that finds nothing.
-/

namespace OceanFs.Durability.LateWrites

open OceanFs.Core Metadata Grpc Read Lib Option List

/-! ### Requests -/

/-- The request of `put_object_metadata`. -/
structure PushRequest where
  hlc : Option Hlc
  size : ℕ
  blake3Hash : Bytes
  chunkSegmentIds : List SegmentId
  chunkOffsets : List ℕ
  chunkLengths : List ℕ
  inlineData : Bytes
  deriving DecidableEq

inductive Rejection
  | invalidArgument (message : String)
  | failedPrecondition (message : String)
  deriving DecidableEq

/-- The timestamp of a push; there is no push without one. -/
def PushRequest.timestamp (req : PushRequest) : Except Rejection Hlc :=
  match req.hlc with
  | none => .error (.invalidArgument "put_object_metadata requires an HLC")
  | some hlc =>
    if hlc = Hlc.zero then
      .error (.invalidArgument "put_object_metadata rejects an all-zero HLC")
    else .ok hlc

/-- The row of a push. -/
def PushRequest.row (req : PushRequest) (key : ObjectKey) (hlc : Hlc) (nowMs : ℤ) :
    ObjectMetadata where
  objectKey := key
  size := req.size
  blake3Hash := toHashOutput req.blake3Hash
  chunks := (req.chunkSegmentIds.zip (req.chunkOffsets.zip req.chunkLengths)).map fun c =>
    { segmentId := c.1, offset := c.2.1, length := c.2.2, compressed := false,
      logicalLength := c.2.2 }
  inlineData := if req.inlineData = [] then none else some req.inlineData
  createdAt := nowMs
  hlc := hlc

/-- What a background task brings. -/
inductive Task
  | hintObject (data : Bytes) (createdAt : ℤ) (hlc : Hlc)
  | hintDelete (hlc : Hlc)
  | push (req : PushRequest) (hlc : Hlc)
  deriving DecidableEq

def Task.hlc : Task → Hlc
  | .hintObject _ _ hlc | .hintDelete hlc | .push _ hlc => hlc

/-- The first read, which may fail: hints look at the row, pushes at the tombstone. A hint goes on
after a failure as if there were none, a push ends with an error. -/
def Task.passesFirst (failed : Bool) (s : KeyState) : Task → Bool
  | .hintObject _ _ hlc | .hintDelete hlc => failed || !s.row.any (hlc < ·.hlc)
  | .push _ hlc => !failed && !s.tombstone.any (hlc ≤ ·.hlc)

/-- The second read. -/
def Task.passesSecond (failed : Bool) (s : KeyState) : Task → Bool
  | .hintObject _ _ hlc => failed || !s.tombstone.any (hlc < ·.hlc)
  | .hintDelete hlc => failed || !s.tombstone.any (hlc ≤ ·.hlc)
  | .push _ hlc => !failed && !s.row.any (hlc < ·.hlc)

/-- What a writer has to go by after a read of the key: its version, where the read failed. -/
def baseAfter (s : KeyState) (failed : Bool) (base : Option (WithBot Hlc)) :
    Option (WithBot Hlc) :=
  if failed then some s.version else base

/-- The store's put or delete that a task or a client makes. -/
inductive Write
  | put (m : ObjectMetadata)
  | delete (hlc : Hlc)
  deriving DecidableEq

def Write.hlc : Write → Hlc
  | .put m => m.hlc
  | .delete hlc => hlc

def Write.apply (op : Write) (s : KeyState) (nowMs : ℤ) : KeyState :=
  match op with
  | .put m => s.put m nowMs
  | .delete hlc => s.delete hlc nowMs

def Task.write (env : Receiver) (key : ObjectKey) : Task → Write
  | .hintObject data createdAt hlc => .put (appliedRow env key data createdAt hlc)
  | .hintDelete hlc => .delete hlc
  | .push req hlc => .put (req.row key hlc env.nowMs)

/-! ### Interleavings -/

inductive Phase
  | begun (task : Task)
  /-- the version of the key when the first read failed, if it did -/
  | checked (task : Task) (base : Option (WithBot Hlc))
  /-- the row to repair, and the version of the key when the repair began -/
  | fetching (row : ObjectMetadata) (base : WithBot Hlc)
  /-- the write is next; `base` as above for a repair, and for a read that failed -/
  | ready (op : Write) (base : Option (WithBot Hlc))

/-- A background write under way, with the timestamp of the last write of the key since its first
read. -/
structure Writer where
  phase : Phase
  since : Option Hlc

structure State where
  key : KeyState
  writers : List Writer

/-- Nothing of the key is read yet. -/
def Phase.isBegun : Phase → Bool
  | .begun _ => true
  | _ => false

/-- A write of the key, seen by everyone who has read it. -/
def State.commit (s : State) (op : Write) (nowMs : ℤ) : State where
  key := op.apply s.key nowMs
  writers := s.writers.map fun w => if w.phase.isBegun then w else { w with since := some op.hlc }

inductive Act
  | clientPut (m : ObjectMetadata) (nowMs : ℤ)
  | clientDelete (hlc : Hlc) (nowMs : ℤ)
  | receive (task : Task)
  | readFirst (i : ℕ) (failed : Bool)
  | readSecond (i : ℕ) (failed : Bool)
  /-- a read finds no node that holds a segment of the row it goes on with -/
  | dangling (row : ObjectMetadata)
  | fetched (i : ℕ) (resp : GetObjectMetadataResponse)
  | write (i : ℕ) (nowMs : ℤ)

def Act.isBackground : Act → Bool
  | .clientPut _ _ | .clientDelete _ _ => false
  | _ => true

section

variable (env : Receiver) (key : ObjectKey)

def step (s : State) : Act → Option State
  | .clientPut m nowMs => some (s.commit (.put m) nowMs)
  | .clientDelete hlc nowMs => some (s.commit (.delete hlc) nowMs)
  | .receive task => some { s with writers := s.writers ++ [⟨.begun task, none⟩] }
  | .readFirst i failed =>
    match s.writers[i]? with
    | some ⟨.begun task, since⟩ =>
      if task.passesFirst failed s.key then
        some { s with
          writers := s.writers.set i ⟨.checked task (baseAfter s.key failed none), since⟩ }
      else some { s with writers := s.writers.eraseIdx i }
    | _ => none
  | .readSecond i failed =>
    match s.writers[i]? with
    | some ⟨.checked task base, since⟩ =>
      if task.passesSecond failed s.key then
        let phase := .ready (task.write env key) (baseAfter s.key failed base)
        some { s with writers := s.writers.set i ⟨phase, since⟩ }
      else some { s with writers := s.writers.eraseIdx i }
    | _ => none
  | .dangling row =>
    some { s with writers := s.writers ++ [⟨.fetching row s.key.version, none⟩] }
  | .fetched i resp =>
    match s.writers[i]? with
    | some ⟨.fetching row base, since⟩ =>
      if repoints key row resp then
        let repaired := objectMetadataFromResponse resp key row.createdAt
        some { s with writers := s.writers.set i ⟨.ready (.put repaired) (some base), since⟩ }
      else some s
    | _ => none
  | .write i nowMs =>
    match s.writers[i]? with
    | some ⟨.ready op _, _⟩ => some ({ s with writers := s.writers.eraseIdx i }.commit op nowMs)
    | _ => none

/-- No background step lowers the version of the key. -/
def NeverLowers (s : State) (a : Act) : Prop :=
  a.isBackground → ∀ s' ∈ step env key s a, s.key.version ≤ s'.key.version

/-- The last write since the first read is not newer than the one that is made now. Without a
write since then, what a repair writes, or a hint one of whose reads failed, is not older than
what the key had. -/
def Writer.timely (w : Writer) : Bool :=
  match w.phase with
  | .ready op base =>
    match w.since with
    | some last => last ≤ op.hlc
    | none => base.all (· ≤ (op.hlc : WithBot Hlc))
  | _ => true

def Timely (s : State) : Act → Prop
  | .write i _ => ∀ w ∈ s.writers[i]?, w.timely
  | _ => True

end

/-! ### What a writer knows -/

/-- As long as nothing was written, what the reads have found; afterwards, the version. -/
def Writer.Knows (s : KeyState) (w : Writer) : Prop :=
  match w.phase, w.since with
  | .begun _, since => since = none
  | _, some last => s.version = last
  | .checked task none, none => task.passesFirst false s
  | .checked _ (some base), none => s.version = base
  | .fetching _ base, none => s.version = base
  | .ready op none, none => s.version ≤ op.hlc
  | .ready _ (some base), none => s.version = base

def Inv (s : State) : Prop :=
  ∀ w ∈ s.writers, w.Knows s.key

variable {env : Receiver} {key : ObjectKey} {s s' : State}

@[simp] lemma version_apply (op : Write) (k : KeyState) (nowMs : ℤ) :
    (op.apply k nowMs).version = op.hlc := by
  cases op <;> rfl

@[simp] lemma hlc_write (task : Task) : (task.write env key).hlc = task.hlc := by
  cases task <;> rfl

lemma version_le_of_passes {k : KeyState} {task : Task} (h₁ : task.passesFirst false k)
    (h₂ : task.passesSecond false k) : k.version ≤ task.hlc := by
  have hrow : ∀ m ∈ k.row, m.hlc ≤ task.hlc := by
    intro m hm
    cases task <;> simp_all [Task.passesFirst, Task.passesSecond, Task.hlc]
  have htombstone : ∀ t ∈ k.tombstone, t.hlc ≤ task.hlc := by
    intro t ht
    cases task <;> simp_all [Task.passesFirst, Task.passesSecond, Task.hlc, le_of_lt]
  rw [KeyState.version]
  rcases hm : k.row with _ | m
  · rcases ht : k.tombstone with _ | t
    · exact bot_le
    · exact WithBot.coe_le_coe.mpr (htombstone t ht)
  · exact WithBot.coe_le_coe.mpr (hrow m hm)

lemma Inv.commit (h : Inv s) (op : Write) (nowMs : ℤ) : Inv (s.commit op nowMs) := by
  intro w' hw'
  obtain ⟨w, hw, rfl⟩ := mem_map.mp hw'
  have hknows := h w hw
  obtain ⟨phase, since⟩ := w
  cases phase with
  | begun task => exact hknows
  | checked task base => cases base <;> exact version_apply op s.key nowMs
  | fetching row base => exact version_apply op s.key nowMs
  | ready op' base => cases base <;> exact version_apply op s.key nowMs

lemma Inv.set (h : Inv s) {w : Writer} (i : ℕ) (hw : w.Knows s.key) :
    Inv { s with writers := s.writers.set i w } := by
  intro w' hw'
  rcases mem_or_eq_of_mem_set hw' with hw' | rfl
  · exact h w' hw'
  · exact hw

lemma Inv.eraseIdx (h : Inv s) (i : ℕ) : Inv { s with writers := s.writers.eraseIdx i } :=
  fun w hw => h w (mem_of_mem_eraseIdx hw)

lemma Inv.append (h : Inv s) {w : Writer} (hw : w.Knows s.key) :
    Inv { s with writers := s.writers ++ [w] } := by
  intro w' hw'
  rcases mem_append.mp hw' with hw' | hw'
  · exact h w' hw'
  · rwa [mem_singleton.mp hw']

lemma Inv.knows (h : Inv s) {i : ℕ} {w : Writer} (hi : s.writers[i]? = some w) : w.Knows s.key :=
  h w (mem_of_getElem? hi)

lemma Writer.Knows.second {k : KeyState} {task : Task} {base : Option (WithBot Hlc)}
    {since : Option Hlc} {failed : Bool} (h : Writer.Knows k ⟨.checked task base, since⟩)
    (hpass : task.passesSecond failed k) :
    Writer.Knows k ⟨.ready (task.write env key) (baseAfter k failed base), since⟩ := by
  cases since with
  | some last =>
    -- what was written since then decides, whatever the reads found
    have hversion : k.version = last := by cases base <;> exact h
    cases failed with
    | false => cases base <;> exact hversion
    | true => exact hversion
  | none =>
    cases failed with
    | true => rfl
    | false =>
      cases base with
      | some base => exact h
      | none =>
        show k.version ≤ ((task.write env key).hlc : WithBot Hlc)
        rw [hlc_write]
        exact version_le_of_passes h hpass

lemma Inv.step (h : Inv s) {a : Act} (hs : step env key s a = some s') : Inv s' := by
  cases a with
  | clientPut m nowMs => exact some.inj hs ▸ h.commit _ nowMs
  | clientDelete hlc nowMs => exact some.inj hs ▸ h.commit _ nowMs
  | receive task => exact some.inj hs ▸ h.append (w := ⟨.begun task, none⟩) rfl
  | dangling row =>
    exact some.inj hs ▸ h.append (w := ⟨.fetching row s.key.version, none⟩) rfl
  | readFirst i failed =>
    simp only [LateWrites.step] at hs
    split at hs
    · rename_i task since hi
      split_ifs at hs with hpass
      · obtain rfl : since = none := h.knows hi
        refine some.inj hs ▸ h.set i ?_
        cases failed with
        | false => exact hpass
        | true => exact rfl
      · exact some.inj hs ▸ h.eraseIdx i
    · cases hs
  | readSecond i failed =>
    simp only [LateWrites.step] at hs
    split at hs
    · rename_i task base since hi
      have hknows := h.knows hi
      split_ifs at hs with hpass
      · refine some.inj hs ▸ h.set i ?_
        exact hknows.second hpass
      · exact some.inj hs ▸ h.eraseIdx i
    · cases hs
  | fetched i resp =>
    simp only [LateWrites.step] at hs
    split at hs
    · rename_i row base since hi
      have hknows := h.knows hi
      split_ifs at hs with husable
      · refine some.inj hs ▸ h.set i ?_
        cases since with
        | none => exact hknows
        | some last => exact hknows
      · exact some.inj hs ▸ h
    · cases hs
  | write i nowMs =>
    simp only [LateWrites.step] at hs
    split at hs
    · exact some.inj hs ▸ (h.eraseIdx i).commit _ nowMs
    · cases hs

/-- Without a write in between or a failure, the steps of a hint are the functions that apply it. -/
lemma applyHint_eq (task : Task) (k : KeyState) (hpush : ∀ req hlc, task ≠ .push req hlc) :
    (if task.passesFirst false k && task.passesSecond false k then
        (task.write env key).apply k env.nowMs else k) =
      match task with
      | .hintObject data createdAt hlc => applyHintObject env key data createdAt hlc k
      | .hintDelete hlc => applyHintDelete env hlc k
      | .push _ _ => k := by
  cases task with
  | hintObject data createdAt hlc =>
    simp only [Task.passesFirst, Task.passesSecond, applyHintObject]
    by_cases hrow : k.row.any (hlc < ·.hlc) <;> by_cases hts : k.tombstone.any (hlc < ·.hlc) <;>
      simp [hrow, hts, Task.write, Write.apply]
  | hintDelete hlc =>
    simp only [Task.passesFirst, Task.passesSecond, applyHintDelete]
    by_cases hrow : k.row.any (hlc < ·.hlc) <;> by_cases hts : k.tombstone.any (hlc ≤ ·.hlc) <;>
      simp [hrow, hts, Task.write, Write.apply]
  | push req hlc => exact absurd rfl (hpush req hlc)

/-! ### When the version goes down -/

lemma Writer.Knows.timely_iff {k : KeyState} {op : Write} {base : Option (WithBot Hlc)}
    {since : Option Hlc} (h : Writer.Knows k ⟨.ready op base, since⟩) :
    k.version ≤ op.hlc ↔ Writer.timely ⟨.ready op base, since⟩ := by
  cases since with
  | some last =>
    have hversion : k.version = last := by cases base <;> exact h
    rw [hversion]
    simp [Writer.timely]
  | none =>
    cases base with
    | none => exact ⟨fun _ => rfl, fun _ => h⟩
    | some base =>
      have hversion : k.version = base := h
      rw [hversion]
      simp [Writer.timely]

lemma Inv.neverLowers_iff (h : Inv s) (a : Act) : NeverLowers env key s a ↔ Timely s a := by
  cases a with
  | clientPut m nowMs => simp [NeverLowers, Act.isBackground, Timely]
  | clientDelete hlc nowMs => simp [NeverLowers, Act.isBackground, Timely]
  | receive task => simp [NeverLowers, LateWrites.step, Timely]
  | dangling row => simp [NeverLowers, LateWrites.step, Timely]
  | readFirst i failed =>
    simp only [NeverLowers, LateWrites.step, Timely, iff_true]
    intro _ s' hs'
    split at hs'
    · split_ifs at hs' <;> exact some.inj hs' ▸ le_rfl
    · cases hs'
  | readSecond i failed =>
    simp only [NeverLowers, LateWrites.step, Timely, iff_true]
    intro _ s' hs'
    split at hs'
    · split_ifs at hs' <;> exact some.inj hs' ▸ le_rfl
    · cases hs'
  | fetched i resp =>
    simp only [NeverLowers, LateWrites.step, Timely, iff_true]
    intro _ s' hs'
    split at hs'
    · split_ifs at hs' <;> exact some.inj hs' ▸ le_rfl
    · cases hs'
  | write i nowMs =>
    simp only [NeverLowers, LateWrites.step, Timely, Act.isBackground, forall_const]
    rcases hi : s.writers[i]? with _ | ⟨phase, since⟩
    · simp
    · cases phase with
      | ready op base =>
        have htimely := (h.knows hi).timely_iff
        simpa [State.commit] using htimely
      | begun task => simp [Writer.timely]
      | checked task base => simp [Writer.timely]
      | fetching row base => simp [Writer.timely]

/-- **Late writes**: in a run from any state of the key, no background write lowers the version
exactly when each is timely. -/
theorem never_lowers_iff_timely (env : Receiver) (key : ObjectKey) (k : KeyState)
    (acts : List Act) : Runs.Guarded (step env key) (NeverLowers env key) ⟨k, []⟩ acts ↔
      Runs.Guarded (step env key) Timely ⟨k, []⟩ acts := by
  have hinit : Inv ⟨k, []⟩ := by simp [Inv]
  have hstep : ∀ s a s', Inv s → LateWrites.step env key s a = some s' → Inv s' :=
    fun _ _ _ h hs => h.step hs
  constructor
  · exact Runs.Guarded.imp_of_inv (fun s a s' h _ => hstep s a s' h)
      (fun _ a _ h hok _ => (h.neverLowers_iff a).mp hok) hinit
  · exact Runs.Guarded.imp_of_inv (fun s a s' h _ => hstep s a s' h)
      (fun _ a _ h hok _ => (h.neverLowers_iff a).mpr hok) hinit

instance (s : State) (a : Act) : Decidable (NeverLowers env key s a) :=
  inferInstanceAs (Decidable (_ → ∀ s' ∈ step env key s a, s.key.version ≤ s'.key.version))

/-- A client writes between the reads of a hint and its put. -/
theorem hint_overtaken_by_put : ¬ ∀ (env : Receiver) (key : ObjectKey) (k : KeyState)
    (acts : List Act), Runs.Guarded (step env key) (NeverLowers env key) ⟨k, []⟩ acts := by
  intro h
  let env : Receiver := ⟨[], fun _ => [], fun _ => ⟨List.replicate 32 0, rfl⟩, 0⟩
  exact absurd (h env "k" KeyState.empty [.receive (.hintObject [1] 0 ⟨1, 0⟩),
    .readFirst 0 false, .readSecond 0 false, .clientPut (appliedRow env "k" [2] 0 ⟨2, 0⟩) 0,
    .write 0 0]) (by decide +kernel)

end OceanFs.Durability.LateWrites
