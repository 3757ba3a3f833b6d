import OceanFs.Lib.Lists
import OceanFs.Segment.RequestEffect

/-!
The live registry and the fold of the log.

A request is validated, logged and folded in steps of their own, so two requests for one segment
can be logged in one order and folded in the other, and a request can be logged after its segment
has changed. While requests for one segment are logged one at a time, each still valid then, and
each with an event that says all of it, a restart from the log alone is ahead of the live registry
by just the requests that wait for their folds.
-/

namespace OceanFs.Segment

open OceanFs.Core Lib.Runs Lib.Lists List Option

/-! ### A restart from the log alone -/

/-- The events of the log, each with the time at which a restart folds it. -/
def timed (times : ℕ → ℕ) (events : List SegmentEvent) : List (ℕ × SegmentEvent) :=
  events.mapIdx fun i evt => (times i, evt)

def ScanEnd.logEnd : ScanEnd → LogEnd
  | .clean => .clean
  | .torn => .torn
  | .corrupt => .corrupt
  | .unsupportedPrePool => .corrupt

/-- The registry that is rebuilt from the records of the given events. -/
def rebuildLog (C : Codecs) (limit grace : ℕ) (times : ℕ → ℕ) (log : List SegmentEvent) :
    Except FoldError Registry :=
  let read := readFiles C (EventWal.empty.appendAll C limit log).files
  rebuildFromEvents grace (timed times read.1) read.2.logEnd ∅

lemma timed_append (times : ℕ → ℕ) (events : List SegmentEvent) (evt : SegmentEvent) :
    timed times (events ++ [evt]) = timed times events ++ [(times events.length, evt)] := by
  simp [timed, mapIdx_append]

section

variable {C : Codecs} {grace now : ℕ} {r r' : Registry} {evt : SegmentEvent}

lemma rebuildFromEvents_append_list {events more : List (ℕ × SegmentEvent)} {r₀ : Registry}
    (h : rebuildFromEvents grace events .clean r₀ = .ok r) (ending : LogEnd) :
    rebuildFromEvents grace (events ++ more) ending r₀ = rebuildFromEvents grace more ending r := by
  induction events generalizing r₀ with
  | nil =>
    obtain rfl := Except.ok.inj h
    rfl
  | cons p events ih =>
    rw [rebuildFromEvents] at h
    rw [cons_append, rebuildFromEvents]
    split at h
    · exact ih h
    · simp at h

lemma rebuildFromEvents_append {events : List (ℕ × SegmentEvent)} {r₀ : Registry}
    (h : rebuildFromEvents grace events .clean r₀ = .ok r)
    (hfold : foldEvent grace now evt r = .ok r') :
    rebuildFromEvents grace (events ++ [(now, evt)]) .clean r₀ = .ok r' := by
  rw [rebuildFromEvents_append_list h, rebuildFromEvents, hfold]
  rfl

lemma rebuildLog_eq (limit : ℕ) (times : ℕ → ℕ) {log : List SegmentEvent} (h : Readable C log) :
    rebuildLog C limit grace times log =
      rebuildFromEvents grace (timed times (log.map (·.stored C))) .clean ∅ := by
  rw [rebuildLog, (EventWal.holds_appendAll_empty limit log).readFiles_eq h]
  rfl

end

namespace Coordinator

/-! ### Requests that wait for their folds -/

def waiting (tasks : List Task) : List Task :=
  tasks.filter (·.unfolded.isSome)

lemma waiting_append (tasks tasks' : List Task) :
    waiting (tasks ++ tasks') = waiting tasks ++ waiting tasks' :=
  filter_append _ _

lemma waiting_cons (t : Task) (tasks : List Task) :
    waiting (t :: tasks) = if t.unfolded.isSome then t :: waiting tasks else waiting tasks :=
  filter_cons

/-- A deleted entry has its delete in the log, and there is a grace. -/
def DeletesLogged (grace : ℕ) (log : List SegmentEvent) (r : Registry) : Prop :=
  ∀ id, ∀ e ∈ r.lookup id, e.isDeleted = true → grace ≠ 0 ∧ .delete id ∈ log

/-- A rebuilt registry is ahead of the live one by the requests that wait. -/
structure Ahead (tasks : List Task) (live rebuilt : Registry) : Prop where
  pending : ∀ t ∈ tasks, view id (rebuilt.lookup t.request.segmentId) =
    t.request.effect id (view id (live.lookup t.request.segmentId))
  settled : ∀ seg, (∀ t ∈ tasks, t.request.segmentId ≠ seg) →
    view id (rebuilt.lookup seg) = view id (live.lookup seg)

/-- The invariant, of the registry, the log and the requests under way. -/
structure Folding (C : Codecs) (grace : ℕ) (live : Registry) (log : List SegmentEvent)
    (tasks : List Task) : Prop where
  events : ∀ t ∈ tasks, ∃ r, t.request.event r = some t.event
  alone : ((waiting tasks).map (·.request.segmentId)).Nodup
  admitted : ∀ t ∈ waiting tasks, t.event ∈ log ∧
    t.request.Admits (live.lookup t.request.segmentId)
  deletes : DeletesLogged grace log live
  readable : Readable C log
  rebuilt : ∀ times, ∃ r,
    rebuildFromEvents grace (timed times (log.map (·.stored C))) .clean ∅ = .ok r ∧
      DeletesLogged grace log r ∧ Ahead (waiting tasks) live r

variable {C : Codecs} {grace now : ℕ} {live : Registry} {log : List SegmentEvent}
  {tasks tasks' tasks₁ tasks₂ : List Task} {req : Request} {evt : SegmentEvent}

lemma Folding.initial : Folding C grace ∅ [] [] where
  events := by simp
  alone := by simp [waiting]
  admitted := by simp [waiting]
  deletes := by simp [DeletesLogged]
  readable := by simp [Readable]
  rebuilt _ := ⟨∅, rfl, by simp [DeletesLogged], by simp [waiting], fun _ _ => rfl⟩

lemma Folding.of_tasks (h : Folding C grace live log tasks) (hw : waiting tasks' = waiting tasks)
    (hevents : ∀ t ∈ tasks', ∃ r, t.request.event r = some t.event) :
    Folding C grace live log tasks' where
  events := hevents
  alone := hw ▸ h.alone
  admitted := hw ▸ h.admitted
  deletes := h.deletes
  readable := h.readable
  rebuilt := hw ▸ h.rebuilt

lemma DeletesLogged.took {norm : Option (List ContainedObject) → Option (List ContainedObject)}
    {r r' : Registry} {log' : List SegmentEvent}
    (h : DeletesLogged grace log r) (hsub : log ⊆ log') (htook : Took norm grace req r r')
    (hlog : ∀ seg, req = .delete seg → .delete seg ∈ log') : DeletesLogged grace log' r' := by
  intro seg e he hd
  by_cases hseg : seg = req.segmentId
  · subst hseg
    obtain ⟨seg, rfl, hg | hold⟩ := htook.deleted e he hd
    · exact ⟨hg, hlog seg rfl⟩
    · exact (h seg e hold hd).imp_right (hsub ·)
  · rw [htook.others seg hseg] at he
    exact (h seg e he hd).imp_right (hsub ·)

/-- A request may be logged: the registry still accepts it, the record takes its event and says
all of it, and with a grace no segment is reserved again after its delete. -/
structure Loggable (C : Codecs) (grace now : ℕ) (live : Registry) (log : List SegmentEvent)
    (req : Request) (evt : SegmentEvent) : Prop where
  valid : req.validate now live = .ok ()
  range : evt.InRange
  fits : evt.Fits C
  full : req.LoggedInFull C id
  fresh : req.isReserve = true → grace = 0 ∨ .delete req.segmentId ∉ log

lemma DeletesLogged.not_deleted {r : Registry} (h : DeletesLogged grace log r)
    (hfresh : req.isReserve = true → grace = 0 ∨ .delete req.segmentId ∉ log)
    (hres : req.isReserve = true) : ∀ e ∈ r.lookup req.segmentId, e.isDeleted = false := by
  intro e he
  by_contra hd
  obtain ⟨hg, hlog⟩ := h _ e he (by simpa using hd)
  rcases hfresh hres with hzero | hno
  · exact hg hzero
  · exact hno hlog

lemma Folding.append {pos : ℕ}
    (h : Folding C grace live log (tasks₁ ++ ⟨req, evt, .validated⟩ :: tasks₂))
    (hok : Loggable C grace now live log req evt)
    (hfree : ∀ t ∈ waiting tasks₁ ++ waiting tasks₂, t.request.segmentId ≠ req.segmentId) :
    Folding C grace live (log ++ [evt]) (tasks₁ ++ ⟨req, evt, .appended pos⟩ :: tasks₂) := by
  have hw : waiting (tasks₁ ++ ⟨req, evt, .validated⟩ :: tasks₂) =
      waiting tasks₁ ++ waiting tasks₂ := by
    rw [waiting_append, waiting_cons]
    rfl
  have hw' : waiting (tasks₁ ++ ⟨req, evt, .appended pos⟩ :: tasks₂) =
      waiting tasks₁ ++ ⟨req, evt, .appended pos⟩ :: waiting tasks₂ := by
    rw [waiting_append, waiting_cons]
    rfl
  have hmem : ∀ t, t ∈ waiting (tasks₁ ++ ⟨req, evt, .appended pos⟩ :: tasks₂) ↔
      t = ⟨req, evt, .appended pos⟩ ∨ t ∈ waiting tasks₁ ++ waiting tasks₂ := by
    intro t
    rw [hw', mem_append, mem_cons, mem_append]
    tauto
  have hadm : req.Admits (live.lookup req.segmentId) :=
    Request.admits_of_validate hok.valid (h.deletes.not_deleted hok.fresh)
  obtain ⟨r₀, hevt⟩ : ∃ r₀, req.event r₀ = some evt := h.events ⟨req, evt, .validated⟩ (by simp)
  constructor
  case events =>
    intro t ht
    rcases mem_append.mp ht with hin | hin
    · exact h.events t (mem_append_left _ hin)
    · rcases mem_cons.mp hin with rfl | hin
      · exact ⟨r₀, hevt⟩
      · exact h.events t (mem_append_right _ (mem_cons_of_mem _ hin))
  case alone =>
    have halone := h.alone
    rw [hw, map_append] at halone
    rw [hw', map_append, map_cons, nodup_middle, nodup_cons, ← map_append]
    refine ⟨fun hin => ?_, by rwa [map_append]⟩
    obtain ⟨t, ht, hseg⟩ := mem_map.mp hin
    exact hfree t ht hseg
  case admitted =>
    intro t ht
    rcases (hmem t).mp ht with rfl | hold
    · exact ⟨by simp, hadm⟩
    · exact (h.admitted t (hw ▸ hold)).imp_left (mem_append_left _)
  case deletes =>
    exact fun seg e he hd => (h.deletes seg e he hd).imp_right (mem_append_left _)
  case readable =>
    refine forall_mem_append.mpr ⟨h.readable, fun x hx => ?_⟩
    rw [mem_singleton.mp hx]
    exact ⟨hok.range, hok.fits⟩
  case rebuilt =>
    intro times
    obtain ⟨r, hr, hdel, hahead⟩ := h.rebuilt times
    rw [hw] at hahead
    -- before, the rebuilt segment looked like the live one, so it admits the request too
    have hseen := hahead.settled req.segmentId hfree
    have hadm' := hadm.of_view hseen (hdel.not_deleted hok.fresh)
    obtain ⟨r', hfold, htook⟩ := @took_foldEvent C id req grace
      (times (log.map (·.stored C)).length) r evt r₀ hadm' hevt hok.full
    refine ⟨r', ?_, hdel.took (subset_append_left _ _) htook ?_, ?_, ?_⟩
    · rw [map_append, map_singleton, timed_append]
      exact rebuildFromEvents_append hr hfold
    · rintro seg rfl
      rw [← some.inj hevt]
      simp
    · intro t ht
      rcases (hmem t).mp ht with rfl | hold
      · exact htook.seen.trans (congrArg _ hseen)
      · rw [htook.others _ (hfree t hold)]
        exact hahead.pending t hold
    · intro seg hseg
      rw [htook.others seg fun heq => hseg _ ((hmem _).mpr (.inl rfl)) heq.symm]
      exact hahead.settled seg fun t ht => hseg t ((hmem t).mpr (.inr ht))

lemma Folding.fold {pos : ℕ}
    (h : Folding C grace live log (tasks₁ ++ ⟨req, evt, .appended pos⟩ :: tasks₂))
    (hw' : waiting tasks' = waiting tasks₁ ++ waiting tasks₂)
    (hevents : ∀ t ∈ tasks', ∃ r, t.request.event r = some t.event) :
    Folding C grace (foldRequest grace now req live) log tasks' := by
  have hw : waiting (tasks₁ ++ ⟨req, evt, .appended pos⟩ :: tasks₂) =
      waiting tasks₁ ++ ⟨req, evt, .appended pos⟩ :: waiting tasks₂ := by
    rw [waiting_append, waiting_cons]
    rfl
  have hmem : ∀ t, t ∈ waiting (tasks₁ ++ ⟨req, evt, .appended pos⟩ :: tasks₂) ↔
      t = ⟨req, evt, .appended pos⟩ ∨ t ∈ waiting tasks' := by
    intro t
    rw [hw, hw', mem_append, mem_cons, mem_append]
    tauto
  have halone := h.alone
  rw [hw, map_append, map_cons, nodup_middle, nodup_cons, ← map_append, ← hw'] at halone
  have hfree : ∀ t ∈ waiting tasks', t.request.segmentId ≠ req.segmentId := fun t ht heq =>
    halone.1 (mem_map.mpr ⟨t, ht, heq⟩)
  obtain ⟨hlog, hadm⟩ := h.admitted _ ((hmem _).mpr (.inl rfl))
  have htook : Took id grace req live (foldRequest grace now req live) := took_foldRequest hadm
  constructor
  case events => exact hevents
  case alone => exact halone.2
  case admitted =>
    intro t ht
    rw [htook.others _ (hfree t ht)]
    exact h.admitted t ((hmem t).mpr (.inr ht))
  case deletes =>
    refine h.deletes.took (Subset.refl _) htook ?_
    rintro seg rfl
    obtain ⟨r₀, hevt⟩ := h.events ⟨.delete seg, evt, .appended pos⟩ (by simp)
    rw [some.inj hevt]
    exact hlog
  case readable => exact h.readable
  case rebuilt =>
    intro times
    obtain ⟨r, hr, hdel, hahead⟩ := h.rebuilt times
    refine ⟨r, hr, hdel, fun t ht => ?_, fun seg hseg => ?_⟩
    · rw [htook.others _ (hfree t ht)]
      exact hahead.pending t ((hmem t).mpr (.inr ht))
    · by_cases heq : seg = req.segmentId
      · rw [heq, htook.seen]
        exact hahead.pending _ ((hmem _).mpr (.inl rfl))
      · rw [htook.others seg heq]
        refine hahead.settled seg fun t ht => ?_
        rcases (hmem t).mp ht with rfl | hold
        · exact fun h => heq h.symm
        · exact hseg t hold

/-! ### Recorded positions -/

lemma lookup_recordDataWalPos (r : Registry) (seg seg' : SegmentId) (pos : DataWalPos) :
    (r.recordDataWalPos seg pos).lookup seg' =
      if seg' = seg then Segment.recordPos pos (r.lookup seg') else r.lookup seg' := by
  rw [Registry.recordDataWalPos, Registry.lookup_set]
  split_ifs with heq
  · rw [heq]
  · rfl

lemma view_recordDataWalPos (norm : Option (List ContainedObject) → Option (List ContainedObject))
    (r : Registry) (seg seg' : SegmentId) (pos : DataWalPos) :
    view norm ((r.recordDataWalPos seg pos).lookup seg') = view norm (r.lookup seg') := by
  rw [lookup_recordDataWalPos]
  split_ifs
  · exact view_recordPos norm pos _
  · rfl

lemma DeletesLogged.recordPos {r : Registry} (h : DeletesLogged grace log r) (seg : SegmentId)
    (pos : DataWalPos) : DeletesLogged grace log (r.recordDataWalPos seg pos) := by
  intro seg' e he hd
  rw [lookup_recordDataWalPos] at he
  split_ifs at he
  · obtain ⟨e₀, he₀, p, rfl⟩ := mem_recordPos he
    exact h seg' e₀ he₀ hd
  · exact h seg' e he hd

lemma Folding.recordPos (h : Folding C grace live log tasks) (seg : SegmentId) (pos : DataWalPos) :
    Folding C grace (live.recordDataWalPos seg pos) log tasks := by
  refine { h with
    admitted := fun t ht => ?_
    deletes := h.deletes.recordPos seg pos
    rebuilt := fun times => ?_ }
  · obtain ⟨hlog, hadm⟩ := h.admitted t ht
    refine ⟨hlog, ?_⟩
    rw [lookup_recordDataWalPos]
    split_ifs
    · exact hadm.recordPos pos
    · exact hadm
  · obtain ⟨r, hr, hdel, hahead⟩ := h.rebuilt times
    refine ⟨r, hr, hdel, fun t ht => ?_, fun seg' hseg' => ?_⟩
    · rw [view_recordDataWalPos]
      exact hahead.pending t ht
    · rw [view_recordDataWalPos]
      exact hahead.settled seg' hseg'

/-! ### Runs -/

/-- A request is logged only when it may be and no other one for its segment waits, and one that
is logged is folded. -/
def LogsInTurn (C : Codecs) (grace : ℕ) (s : Coordinator) : Act → Prop
  | .append now i => ∀ t ∈ s.tasks[i]?,
      Loggable C grace now s.registry s.log t.request t.event ∧
        ∀ t' ∈ waiting s.tasks, t'.request.segmentId ≠ t.request.segmentId
  | .lose _ => False
  | _ => True

/-- While no request is under way, a restart from the log succeeds, whenever it folds the events,
and its registry looks like the live one. -/
def FoldOfLog (C : Codecs) (limit grace : ℕ) (s : Coordinator) : Prop :=
  s.tasks = [] → ∀ times, ∃ r, rebuildLog C limit grace times s.log = .ok r ∧
    ∀ seg, view id (r.lookup seg) = view id (s.registry.lookup seg)

variable {s s' : Coordinator} {a : Act}

lemma Folding.foldOfLog (h : Folding C grace s.registry s.log s.tasks) (limit : ℕ) :
    FoldOfLog C limit grace s := by
  intro hidle times
  obtain ⟨r, hr, -, hahead⟩ := h.rebuilt times
  refine ⟨r, (rebuildLog_eq limit times h.readable).trans hr, fun seg => ?_⟩
  exact hahead.settled seg (by simp [hidle, waiting])

lemma Folding.step (h : Folding C grace s.registry s.log s.tasks) (hok : LogsInTurn C grace s a)
    (hs : step grace s a = some s') : Folding C grace s'.registry s'.log s'.tasks := by
  -- a task that does not wait is dropped
  have hdrop : ∀ {i : ℕ} {t : Task}, s.tasks[i]? = some t → t.unfolded = none →
      Folding C grace s.registry s.log (s.tasks.eraseIdx i) := by
    intro i t ht hun
    obtain ⟨tasks₁, tasks₂, hsplit, -, herase⟩ := split_getElem ht t
    refine h.of_tasks ?_ fun t ht => h.events t (mem_of_mem_eraseIdx ht)
    rw [herase, hsplit, waiting_append, waiting_append, waiting_cons, hun]
    rfl
  cases a with
  | request now req =>
    obtain ⟨evt, -, hevt, rfl⟩ := step_request hs
    refine h.of_tasks ?_ (forall_mem_append.mpr ⟨h.events, fun t ht => ?_⟩)
    · rw [waiting_append, waiting_cons]
      exact append_nil _
    · obtain rfl := mem_singleton.mp ht
      exact ⟨s.registry, hevt⟩
  | append now i =>
    obtain ⟨req, evt, ht, rfl⟩ := step_append hs
    obtain ⟨hlog, hfree⟩ := hok _ ht
    obtain ⟨tasks₁, tasks₂, hsplit, hset, -⟩ :=
      split_getElem ht ⟨req, evt, .appended s.log.length⟩
    rw [hset]
    rw [hsplit] at h hfree
    refine h.append hlog fun t ht => hfree t ?_
    rw [waiting_append, waiting_cons]
    exact ht
  | abandon i =>
    obtain ⟨req, evt, ht, rfl⟩ := step_abandon hs
    exact hdrop ht rfl
  | lose i => exact hok.elim
  | fold now i =>
    obtain ⟨req, evt, pos, tasks, ht, htasks, rfl⟩ := step_fold hs
    obtain ⟨tasks₁, tasks₂, hsplit, hset, herase⟩ := split_getElem ht ⟨req, evt, .folded pos⟩
    have hevents : ∀ t ∈ tasks, ∃ r, t.request.event r = some t.event := by
      intro t htm
      rcases htasks with rfl | rfl
      · rcases mem_or_eq_of_mem_set htm with hold | rfl
        · exact h.events t hold
        · exact h.events ⟨req, evt, .appended pos⟩ (mem_of_getElem? ht)
      · exact h.events t (mem_of_mem_eraseIdx htm)
    rw [hsplit] at h
    refine h.fold ?_ hevents
    rcases htasks with rfl | rfl
    · rw [hset, waiting_append, waiting_cons]
      rfl
    · rw [herase, waiting_append]
  | store i =>
    obtain ⟨req, evt, pos, ht, rfl⟩ := step_store hs
    exact hdrop ht rfl
  | recordPos seg pos =>
    obtain rfl := some.inj hs
    exact h.recordPos seg pos
  | loadCovered =>
    obtain rfl := step_loadCovered hs
    exact h
  | snapshot =>
    obtain ⟨covered, -, rfl⟩ := step_snapshot hs
    exact h
  | truncate count =>
    obtain ⟨c, rest, -, -, rfl⟩ := step_truncate hs
    exact h

/-- **The live registry is the fold of the log**, in every run that logs requests in turn. -/
theorem foldOfLog_of_logsInTurn (C : Codecs) (limit grace : ℕ) {acts : List Act}
    (h : Guarded (Coordinator.step grace) (LogsInTurn C grace) initial acts) :
    Always (Coordinator.step grace) (FoldOfLog C limit grace) initial acts :=
  @always_of_guarded _ _ _ _ (fun s => Folding C grace s.registry s.log s.tasks) _
    (fun _ _ _ hinv hok hs => hinv.step hok hs) (fun _ hinv => hinv.foldOfLog limit) _ _
    Folding.initial h

instance (C : Codecs) (req : Request) : Decidable (req.LoggedInFull C id) := by
  cases req <;> unfold Request.LoggedInFull <;> infer_instance

instance (C : Codecs) (grace now : ℕ) (live : Registry) (log : List SegmentEvent) (req : Request)
    (evt : SegmentEvent) : Decidable (Loggable C grace now live log req evt) :=
  decidable_of_iff (req.validate now live = .ok () ∧ evt.InRange ∧ evt.Fits C ∧
      req.LoggedInFull C id ∧ (req.isReserve = true → grace = 0 ∨ .delete req.segmentId ∉ log))
    ⟨fun ⟨h₁, h₂, h₃, h₄, h₅⟩ => ⟨h₁, h₂, h₃, h₄, h₅⟩,
      fun h => ⟨h.valid, h.range, h.fits, h.full, h.fresh⟩⟩

instance (C : Codecs) (grace : ℕ) (s : Coordinator) : DecidablePred (LogsInTurn C grace s) :=
  fun a => by cases a <;> unfold LogsInTurn <;> infer_instance

/-- A request from its validation to the end, with no other one under way. -/
def submitted (now : ℕ) (req : Request) : List Act :=
  [.request now req, .append now 0, .fold now 0, .store 0]

def sampleSealRequest (seg : SegmentId) : Request :=
  .sealWith seg ⟨seg, 4, 2, .small, some zeroHash, [], some 3, 1, 100⟩ none none

/-- Segment 7 is sealed. -/
def sampleSealed : List Act :=
  submitted 0 (.reserve 7 .small 4 2) ++ submitted 1 (sampleSealRequest 7)

/-- A refresh of segment 7 to the given pool. -/
def samplePool (poolId : PoolId) : Request := .refresh 7 none (some [1, 2]) (some poolId)

/-- A refresh of segment 7 and a reserve of segment 8 are under way together. -/
def sampleTogether : List Act :=
  sampleSealed ++ [.request 2 (samplePool 3), .request 2 (.reserve 8 .small 4 2), .append 2 1,
    .append 2 0, .fold 3 0, .fold 3 1, .store 1, .store 0] ++ submitted 4 (.delete 7)

theorem refresh_and_reserve_together :
    Guarded (Coordinator.step 5) (LogsInTurn sampleCodecs 5) initial sampleTogether ∧
      Always (Coordinator.step 5) (FoldOfLog sampleCodecs 150 5) initial sampleTogether := by
  have hok : Guarded (Coordinator.step 5) (LogsInTurn sampleCodecs 5) initial sampleTogether := by
    decide +kernel
  exact ⟨hok, foldOfLog_of_logsInTurn sampleCodecs 150 5 hok⟩

/-- Two refreshes of one segment, logged in one order and folded in the other. -/
def sampleCrossed : List Act :=
  sampleSealed ++ [.request 2 (samplePool 3), .request 2 (samplePool 4), .append 2 0, .append 2 1,
    .fold 3 1, .fold 3 0, .store 1, .store 0]

/-- The live segment is in the pool of the refresh that was logged first, and a restart puts it
in the other one. -/
theorem crossed_refreshes_diverge :
    ¬Always (Coordinator.step 5) (FoldOfLog sampleCodecs 4096 5) initial sampleCrossed := by
  intro h
  obtain ⟨s, hs⟩ : ∃ s, run (Coordinator.step 5) initial sampleCrossed = some s :=
    isSome_iff_exists.mp (by decide +kernel)
  have hdiff : ∀ s ∈ run (Coordinator.step 5) initial sampleCrossed, s.tasks = [] ∧
      (rebuildLog sampleCodecs 4096 5 (fun _ => 0) s.log).map (fun r => view id (r.lookup 7)) ≠
        .ok (view id (s.registry.lookup 7)) := by decide +kernel
  obtain ⟨hidle, hne⟩ := hdiff s hs
  obtain ⟨r, hr, hview⟩ := (always_iff_run _ _).mp h _ s prefix_rfl hs hidle fun _ => 0
  refine hne ?_
  rw [hr]
  exact congrArg Except.ok (hview 7)

/-- A seal that was validated before its segment was deleted: no restart gets past it. -/
example : (run (Coordinator.step 5) initial (submitted 0 (.reserve 7 .small 4 2) ++
      [.request 1 (sampleSealRequest 7), .request 1 (.delete 7), .append 1 1, .fold 1 1, .store 1,
        .append 2 0, .fold 2 0])).map (fun s =>
      (rebuildLog sampleCodecs 4096 5 (fun _ => 9) s.log).map (·.lookup 7)) =
    some (.error (.eventFold .notReserved)) := by
  decide +kernel

end Coordinator

end OceanFs.Segment
