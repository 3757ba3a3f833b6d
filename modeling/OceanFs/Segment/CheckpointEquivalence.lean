import OceanFs.Segment.LogFold

/-!
Restarts from a checkpoint and from the whole log, for requests one after another.

A checkpoint covers the position of the last event whose fold landed, so a restart folds that
event again, on top of a snapshot that has it, and with it the deletes of expired segments that
were logged and rejected since. All of these are absorbed. What a restart from a checkpoint does
not bring back is the list of contained objects, which seeding drops.
-/

namespace OceanFs.Segment

open OceanFs.Core Lib.Runs List Option

/-- The list of contained objects as a seal record keeps it. -/
def kept (C : Codecs) (contained : Option (List ContainedObject)) :
    Option (List ContainedObject) :=
  contained.filter fun l => l ≠ [] ∧ (C.serialize l).length ≤ sealMaxContainedTailBytes

lemma kept_kept (C : Codecs) (contained : Option (List ContainedObject)) :
    kept C (kept C contained) = kept C contained := by
  rw [kept, kept, Option.filter_filter]
  simp

/-- A seal names its own segment and brings no holders. -/
def Request.PlainSeal : Request → Prop
  | .sealWith id m _ _ => m.segmentId = id ∧ m.storageLocations = []
  | _ => True

lemma Request.PlainSeal.loggedInFull {C : Codecs} {req : Request} (h : req.PlainSeal) :
    req.LoggedInFull C (kept C) := by
  cases req with
  | sealWith id m repackedFrom contained => exact ⟨h.1, h.2, kept_kept C contained⟩
  | reserve id tier ecK ecM => trivial
  | delete id => trivial
  | refresh id root locations poolId => trivial

section

variable {C : Codecs} {norm : Option (List ContainedObject) → Option (List ContainedObject)}
  {req : Request} {evt : SegmentEvent} {o o₀ : Option LifecycleEntry} {grace now : ℕ}
  {r₀ : Registry}

/-! ### An event that is folded again -/

/-- An entry that already has the effect of a request takes the event of the request without a
change that is seen: at most a position is recorded. -/
lemma stepEntry_again (hadm : req.Admits o₀) (hview : view norm o = req.effect norm (view norm o₀))
    (hlive : ∀ e ∈ o, e.isDeleted = false) (hevt : req.event r₀ = some evt) :
    ((stepEntry grace now (evt.stored C) o).1 = o ∨
      ∃ pos, (stepEntry grace now (evt.stored C) o).1 = recordPos pos o) ∧
      ∀ err ∈ (stepEntry grace now (evt.stored C) o).2, tolerated err = true := by
  cases req with
  | reserve id tier ecK ecM =>
    obtain rfl := some.inj hevt
    obtain ⟨v, hv, hs⟩ : ∃ v, view norm o = some v ∧ v.state = .reserved := by
      rcases o₀ with _ | e₀
      · exact ⟨_, hview, rfl⟩
      · have hs := hadm e₀ rfl
        rw [view_some_of_not_deleted norm (by simp [LifecycleEntry.isDeleted, hs])] at hview
        exact ⟨_, hview, hs⟩
    obtain ⟨⟨state, m, pos, rep, con⟩, rfl, -, rfl⟩ := mem_of_view hv
    obtain rfl : state = .reserved := hs
    exact ⟨.inl rfl, fun err herr => by cases herr⟩
  | sealWith id m repackedFrom contained =>
    obtain ⟨root, -, rfl⟩ := map_eq_some_iff.mp hevt
    obtain ⟨e₀, rfl, hs₀⟩ := hadm
    rw [view_some_of_not_deleted norm (by simp [LifecycleEntry.isDeleted, hs₀])] at hview
    obtain ⟨⟨state, m', pos, rep, con⟩, rfl, -, hshown⟩ := mem_of_view hview
    obtain rfl : state = .sealed := congrArg LifecycleEntry.state hshown
    exact ⟨.inr ⟨_, rfl⟩, fun err herr => some.inj herr ▸ rfl⟩
  | delete id =>
    obtain rfl := some.inj hevt
    obtain rfl : o = none := by
      refine eq_none_iff_forall_not_mem.mpr fun e he => ?_
      have hd := (view_eq_none norm).mp hview e he
      rw [hlive e he] at hd
      simp at hd
    exact ⟨.inl rfl, fun err herr => some.inj herr ▸ rfl⟩
  | refresh id root locations poolId =>
    obtain rfl := some.inj hevt
    obtain ⟨e₀, rfl, hs₀⟩ := hadm
    rw [view_some_of_not_deleted norm (by simp [LifecycleEntry.isDeleted, hs₀])] at hview
    obtain ⟨⟨state, m, pos, rep, con⟩, rfl, -, hshown⟩ := mem_of_view hview
    obtain rfl : state = .sealed := (congrArg LifecycleEntry.state hshown).trans hs₀
    have hm := congrArg LifecycleEntry.metadata hshown
    have hroot : m.merkleRoot = root := congrArg SegmentMetadata.merkleRoot hm
    have hholders : locations.getD m.storageLocations = m.storageLocations := by
      cases locations with
      | none => rfl
      | some l => exact (congrArg SegmentMetadata.storageLocations hm).symm
    have hpool : poolId.getD m.poolId = m.poolId := by
      cases poolId with
      | none => rfl
      | some p => exact (congrArg SegmentMetadata.poolId hm).symm
    refine ⟨.inl ?_, fun err herr => by cases herr⟩
    change some (LifecycleEntry.mk .sealed { m with
      merkleRoot := root
      storageLocations := locations.getD m.storageLocations
      poolId := poolId.getD m.poolId } pos rep con) = _
    rw [hholders, hpool, ← hroot]

/-! ### Lists of contained objects -/

/-- The list of an entry is one that a record keeps. -/
def LifecycleEntry.ListKept (C : Codecs) (e : LifecycleEntry) : Prop :=
  kept C e.containedObjects = e.containedObjects

lemma attempt_listKept {f : Transition} (h : ∀ e ∈ o, e.ListKept C)
    (hf : ∀ o', (∀ e ∈ unexpired now o, e.ListKept C) → f (unexpired now o) = .ok o' →
      ∀ e ∈ o', e.ListKept C) : ∀ e ∈ (attempt now o f).1, e.ListKept C := by
  have hun : ∀ e ∈ unexpired now o, e.ListKept C := fun e he =>
    h e (filter_eq_some_iff.mp he).1
  unfold attempt
  split
  · rename_i hok
    exact hf _ hun hok
  · exact h

lemma stepEntry_listKept (grace now : ℕ) (evt : SegmentEvent) (h : ∀ e ∈ o, e.ListKept C) :
    ∀ e ∈ (stepEntry grace now (evt.stored C) o).1, e.ListKept C := by
  rcases evt with evt | evt | id | evt
  · refine attempt_listKept h fun o' hun hok e he => ?_
    rcases reserveEntry_ok hok with ⟨-, rfl⟩ | ⟨e', he', -, rfl⟩
    · obtain rfl := some.inj he
      rfl
    · exact hun e (he'.trans he)
  · have hpos : ∀ e ∈ recordPos evt.dataWalPos o, e.ListKept C := by
      intro e he
      obtain ⟨e₀, he₀, p, rfl⟩ := mem_recordPos he
      exact h e₀ he₀
    refine attempt_listKept hpos fun o' hun hok e he => ?_
    unfold sealEntry at hok
    split at hok
    · simp at hok
    · split at hok <;> simp only [reduceCtorEq, Except.ok.injEq] at hok
      subst hok
      obtain rfl := some.inj he
      exact kept_kept C evt.containedObjects
  · refine attempt_listKept h fun o' hun hok e he => ?_
    unfold deleteEntry at hok
    split at hok
    · simp at hok
    · rename_i e₀ hu
      split at hok
      · simp at hok
      · obtain rfl := Except.ok.inj hok
        split_ifs at he
        · simp at he
        · obtain rfl := some.inj he
          exact hun e₀ hu
  · refine attempt_listKept h fun o' hun hok e he => ?_
    unfold refreshEntry at hok
    split at hok
    · simp at hok
    · rename_i e₀ hu
      split at hok <;> simp only [reduceCtorEq, Except.ok.injEq] at hok
      subst hok
      obtain rfl := some.inj he
      exact hun e₀ hu

end

namespace Coordinator

/-! ### Registries beside the live one -/

variable {C : Codecs} {grace now : ℕ} {live live' r r' : Registry} {log log' : List SegmentEvent}
  {req : Request} {evt : SegmentEvent} {r₀ : Registry}

/-- A rebuilt registry is seen like the live one. -/
structure Alike (C : Codecs) (grace : ℕ) (log : List SegmentEvent) (live r : Registry) : Prop where
  seen : ∀ seg, view (kept C) (r.lookup seg) = view (kept C) (live.lookup seg)
  lists : ∀ seg, ∀ e ∈ r.lookup seg, e.ListKept C
  deletes : DeletesLogged grace log r

/-- A registry without deleted entries is seen like the live one. -/
structure Seeded (C : Codecs) (live r : Registry) : Prop where
  seen : ∀ seg, view (kept C) (r.lookup seg) = view (kept C) (live.lookup seg)
  lists : ∀ seg, ∀ e ∈ r.lookup seg, e.ListKept C
  undeleted : ∀ seg, ∀ e ∈ r.lookup seg, e.isDeleted = false

lemma Seeded.alike (h : Seeded C live r) (grace : ℕ) (log : List SegmentEvent) :
    Alike C grace log live r where
  seen := h.seen
  lists := h.lists
  deletes seg e he hd := by
    rw [h.undeleted seg e he] at hd
    simp at hd

lemma foldEvent_lists (hfold : foldEvent grace now (evt.stored C) r = .ok r')
    (h : ∀ seg, ∀ e ∈ r.lookup seg, e.ListKept C) : ∀ seg, ∀ e ∈ r'.lookup seg, e.ListKept C := by
  have hset : r' = r.set (evt.stored C).segmentId
      (stepEntry grace now (evt.stored C) (r.lookup (evt.stored C).segmentId)).1 := by
    unfold foldEvent at hfold
    split at hfold
    · rename_i o ho
      rw [ho]
      exact (Except.ok.inj hfold).symm
    · rename_i o err ho
      rw [ho]
      split_ifs at hfold
      exact (Except.ok.inj hfold).symm
  intro seg e he
  rw [hset, Registry.lookup_set] at he
  split_ifs at he
  · exact stepEntry_listKept grace now evt (h _) e he
  · exact h seg e he

lemma Alike.fold (h : Alike C grace log live r) (hadm : req.Admits (live.lookup req.segmentId))
    (hfresh : req.isReserve = true → grace = 0 ∨ .delete req.segmentId ∉ log)
    (hfull : req.LoggedInFull C (kept C)) (hevt : req.event r₀ = some evt)
    (hlive : Took (kept C) grace req live live') (now : ℕ) :
    ∃ r', foldEvent grace now (evt.stored C) r = .ok r' ∧
      Alike C grace (log ++ [evt]) live' r' := by
  have hadm' := hadm.of_view (h.seen _) (h.deletes.not_deleted hfresh)
  obtain ⟨r', hfold, htook⟩ := @took_foldEvent C (kept C) req grace now r evt r₀ hadm' hevt hfull
  refine ⟨r', hfold, fun seg => ?_, foldEvent_lists hfold h.lists,
    h.deletes.took (subset_append_left _ _) htook ?_⟩
  · by_cases hseg : seg = req.segmentId
    · rw [hseg, htook.seen, hlive.seen, h.seen]
    · rw [htook.others seg hseg, hlive.others seg hseg, h.seen]
  · rintro seg rfl
    rw [← some.inj hevt]
    simp

lemma Seeded.again (h : Seeded C live' r) (hadm : req.Admits (live.lookup req.segmentId))
    (hevt : req.event r₀ = some evt) (hlive : Took (kept C) grace req live live') (now : ℕ) :
    ∃ r', foldEvent grace now (evt.stored C) r = .ok r' ∧ Seeded C live' r' := by
  have hid : (evt.stored C).segmentId = req.segmentId :=
    (segmentId_stored evt).trans (Request.segmentId_event hevt)
  obtain ⟨hstep, herr⟩ := @stepEntry_again C (kept C) req evt (r.lookup req.segmentId)
    (live.lookup req.segmentId) grace now r₀ hadm ((h.seen _).trans hlive.seen) (h.undeleted _) hevt
  have hfold := @foldEvent_of_tolerated grace now r (evt.stored C) (by rwa [hid])
  rw [hid] at hfold
  refine ⟨_, hfold, fun seg => ?_, foldEvent_lists hfold h.lists, fun seg e he => ?_⟩
  · rw [Registry.lookup_set]
    split_ifs with hseg
    · subst hseg
      rcases hstep with hsame | ⟨pos, hpos⟩
      · rw [hsame, h.seen]
      · rw [hpos, view_recordPos, h.seen]
    · exact h.seen seg
  · rw [Registry.lookup_set] at he
    split_ifs at he with hseg
    · rcases hstep with hsame | ⟨pos, hpos⟩
      · exact h.undeleted _ e (hsame ▸ he)
      · rw [hpos] at he
        obtain ⟨e₀, he₀, p, rfl⟩ := mem_recordPos he
        exact h.undeleted _ e₀ he₀
    · exact h.undeleted seg e he

/-- Folding the events brings the registry that it starts from to one that is seen like the live
one. -/
def Restores (C : Codecs) (grace : ℕ) (log : List SegmentEvent) (live start : Registry)
    (events : List SegmentEvent) : Prop :=
  ∀ times, ∃ r, rebuildFromEvents grace (timed times (events.map (·.stored C))) .clean start =
    .ok r ∧ Alike C grace log live r

/-- Folding the events changes nothing in a registry that is seen like the live one. -/
def Absorbed (C : Codecs) (grace : ℕ) (live : Registry) (events : List SegmentEvent) : Prop :=
  ∀ r, Seeded C live r → ∀ times, ∃ r',
    rebuildFromEvents grace (timed times (events.map (·.stored C))) .clean r = .ok r' ∧
      Seeded C live r'

lemma Restores.append {start : Registry} {events : List SegmentEvent}
    (h : Restores C grace log live start events) (hadm : req.Admits (live.lookup req.segmentId))
    (hfresh : req.isReserve = true → grace = 0 ∨ .delete req.segmentId ∉ log)
    (hfull : req.LoggedInFull C (kept C)) (hevt : req.event r₀ = some evt)
    (hlive : Took (kept C) grace req live live') :
    Restores C grace (log ++ [evt]) live' start (events ++ [evt]) := by
  intro times
  obtain ⟨r, hr, halike⟩ := h times
  obtain ⟨r', hfold, halike'⟩ := halike.fold hadm hfresh hfull hevt hlive
    (times (events.map (·.stored C)).length)
  refine ⟨r', ?_, halike'⟩
  rw [map_append, map_singleton, timed_append]
  exact rebuildFromEvents_append hr hfold

lemma Absorbed.append {events : List SegmentEvent} (h : Absorbed C grace live' events)
    (hadm : req.Admits (live.lookup req.segmentId)) (hevt : req.event r₀ = some evt)
    (hlive : Took (kept C) grace req live live') : Absorbed C grace live' (events ++ [evt]) := by
  intro r hr times
  obtain ⟨r₁, hr₁, hseeded⟩ := h r hr times
  obtain ⟨r', hfold, hseeded'⟩ := hseeded.again hadm hevt hlive
    (times (events.map (·.stored C)).length)
  refine ⟨r', ?_, hseeded'⟩
  rw [map_append, map_singleton, timed_append]
  exact rebuildFromEvents_append hr₁ hfold

lemma Restores.congr {start : Registry} {events : List SegmentEvent}
    (hseen : ∀ seg, view (kept C) (live'.lookup seg) = view (kept C) (live.lookup seg))
    (h : Restores C grace log live start events) : Restores C grace log live' start events := by
  intro times
  obtain ⟨r, hr, halike⟩ := h times
  exact ⟨r, hr, { halike with seen := fun seg => (halike.seen seg).trans (hseen seg).symm }⟩

lemma Absorbed.congr {events : List SegmentEvent}
    (hseen : ∀ seg, view (kept C) (live'.lookup seg) = view (kept C) (live.lookup seg))
    (h : Absorbed C grace live events) : Absorbed C grace live' events := by
  intro r hr times
  have hseeded : Seeded C live r :=
    { hr with seen := fun seg => (hr.seen seg).trans (hseen seg) }
  obtain ⟨r', hr', hseeded'⟩ := h r hseeded times
  exact ⟨r', hr', { hseeded' with seen := fun seg => (hseeded'.seen seg).trans (hseen seg).symm }⟩

lemma absorbed_nil (live : Registry) : Absorbed C grace live [] :=
  fun r hr _ => ⟨r, rfl, hr⟩

/-! ### What seeding leaves -/

lemma isDeleted_restored {e : LifecycleEntry} (h : e.isDeleted = false) :
    e.restored.isDeleted = false := by
  rcases e with ⟨state, m, pos, rep, con⟩
  rcases state with _ | _ | evictAt
  · rfl
  · rfl
  · simp [LifecycleEntry.isDeleted] at h

lemma shown_forget_restored {e : LifecycleEntry} (h : e.isDeleted = false)
    (hlist : kept C e.containedObjects = none)
    (hfresh : e.state = .reserved → e.repackedFrom = none) :
    e.restored.forget.shown (kept C) = e.shown (kept C) := by
  rcases e with ⟨state, m, pos, rep, con⟩
  have hcon : kept C con = none := hlist
  rcases state with _ | _ | evictAt
  · obtain rfl : rep = none := hfresh rfl
    rw [LifecycleEntry.shown, LifecycleEntry.shown, hcon]
    rfl
  · rw [LifecycleEntry.shown, LifecycleEntry.shown, hcon]
    rfl
  · simp [LifecycleEntry.isDeleted] at h

/-- The registry that a restart seeds from a snapshot of the given one. -/
def seeded (r : Registry) : Registry :=
  Registry.copy (·.forget) (Registry.copy (·.restored) r.live ∅).live ∅

lemma lookup_seeded (r : Registry) (seg : SegmentId) :
    (seeded r).lookup seg = ((r.lookup seg).filter (!·.isDeleted)).map (·.restored.forget) := by
  rw [seeded, Registry.lookup_copy_live, Registry.lookup_copy_live]
  cases hl : (r.lookup seg).filter (!·.isDeleted) with
  | none => rfl
  | some e =>
    have hd : e.isDeleted = false := by simpa using (filter_eq_some_iff.mp hl).2
    rw [map_some, filter_some, isDeleted_restored hd]
    rfl

lemma seeded_of_no_lists (hlists : ∀ p ∈ live.live, kept C p.2.containedObjects = none)
    (hfresh : ∀ seg, ∀ v ∈ view (kept C) (live.lookup seg), v.state = .reserved →
      v.repackedFrom = none) : Seeded C live (seeded live) := by
  have hmem : ∀ seg, ∀ e ∈ (seeded live).lookup seg, ∃ e₀, live.lookup seg = some e₀ ∧
      e₀.isDeleted = false ∧ e = e₀.restored.forget := by
    intro seg e he
    rw [lookup_seeded] at he
    obtain ⟨e₀, he₀, rfl⟩ := map_eq_some_iff.mp he
    obtain ⟨hl, hd⟩ := filter_eq_some_iff.mp he₀
    exact ⟨e₀, hl, by simpa using hd, rfl⟩
  refine ⟨fun seg => ?_, fun seg e he => ?_, fun seg e he => ?_⟩
  · rw [lookup_seeded]
    cases hl : live.lookup seg with
    | none => rfl
    | some e =>
      cases hd : e.isDeleted with
      | true => rw [view, view, filter_some, hd]; rfl
      | false =>
        have hlist := hlists (seg, e) (Registry.mem_live.mpr ⟨hl, hd⟩)
        have hrep := hfresh seg (e.shown (kept C)) (by rw [hl, view_some_of_not_deleted _ hd]; rfl)
        rw [filter_some, hd]
        refine (view_some_of_not_deleted _ ?_).trans ?_
        · exact isDeleted_restored hd
        · rw [view_some_of_not_deleted _ hd]
          exact congrArg some (shown_forget_restored hd hlist hrep)
  · obtain ⟨e₀, -, -, rfl⟩ := hmem seg e he
    rfl
  · obtain ⟨e₀, -, hd, rfl⟩ := hmem seg e he
    exact isDeleted_restored hd

lemma boot_of_snapshot {blobLen : List ContainedObject → ℕ} {records : List SnapshotRecord}
    (h : encodeSnapshot blobLen r = some records) (grace now : ℕ)
    (events : List (ℕ × SegmentEvent)) (ending : LogEnd) :
    boot grace now (some records) events ending =
      rebuildFromEvents grace events ending (seeded r) := by
  rw [boot, bind_some, decode_encode now h]
  simp only [seedFromCheckpoint_eq]
  rfl

/-! ### One request after another -/

/-- A request from its validation to the end; one whose fold is rejected stores no position. -/
def submit (grace now : ℕ) (req : Request) (s : Coordinator) : Option Coordinator :=
  (run (step grace) s [.request now req, .append now 0, .fold now 0]).bind fun s' =>
    if s'.tasks = [] then some s' else step grace s' (.store 0)

inductive SeqAct
  | submit (now : ℕ) (req : Request)
  | recordPos (id : SegmentId) (pos : DataWalPos)
  | checkpoint
  deriving DecidableEq

def seqStep (grace : ℕ) (s : Coordinator) : SeqAct → Option Coordinator
  | .submit now req => submit grace now req s
  | .recordPos id pos => step grace s (.recordPos id pos)
  | .checkpoint => run (step grace) s [.loadCovered, .snapshot]

/-- The fold of a request is not rejected. -/
def lands (grace now : ℕ) (req : Request) (r : Registry) : Bool :=
  (r.transition now req.segmentId (req.apply grace now)).isOk

variable {s s' : Coordinator}

/-- A submitted request is logged and folded; where the fold is rejected, the registry and the
stored position stay. -/
lemma submit_cases (hidle : s.tasks = []) (h : submit grace now req s = some s') :
    ∃ evt, req.validate now s.registry = .ok () ∧ req.event s.registry = some evt ∧
      s'.registry = foldRequest grace now req s.registry ∧ s'.log = s.log ++ [evt] ∧
      s'.tasks = [] ∧ s'.checkpoints = s.checkpoints ∧
      (lands grace now req s.registry = true ∧ s'.lastFolded = s.log.length ∨
        lands grace now req s.registry = false ∧ s'.lastFolded = s.lastFolded ∧
          foldRequest grace now req s.registry = s.registry) := by
  obtain ⟨t, hrun, hstore⟩ := bind_eq_some_iff.mp h
  obtain ⟨s₁, h₁, hrun⟩ := run_cons.mp hrun
  obtain ⟨s₂, h₂, hrun⟩ := run_cons.mp hrun
  obtain ⟨s₃, h₃, hrun⟩ := run_cons.mp hrun
  obtain rfl := some.inj hrun
  obtain ⟨evt, hvalid, hevt, rfl⟩ := step_request h₁
  simp only [step, hidle, nil_append, getElem?_cons_zero, some.injEq, set_cons_zero] at h₂
  subst h₂
  simp only [step, getElem?_cons_zero, some.injEq, set_cons_zero, eraseIdx_cons_zero] at h₃
  refine ⟨evt, hvalid, hevt, ?_⟩
  cases htr : s.registry.transition now req.segmentId (req.apply grace now) with
  | ok r =>
    rw [htr] at h₃
    subst h₃
    simp only [reduceCtorEq, if_false, step, getElem?_cons_zero, some.injEq,
      eraseIdx_cons_zero] at hstore
    subst hstore
    exact ⟨rfl, rfl, rfl, rfl, .inl ⟨by rw [lands, htr]; rfl, rfl⟩⟩
  | error e =>
    rw [htr] at h₃
    subst h₃
    simp only [if_true, some.injEq] at hstore
    subst hstore
    refine ⟨rfl, rfl, rfl, rfl, .inr ⟨by rw [lands, htr]; rfl, rfl, ?_⟩⟩
    rw [foldRequest, htr]
    rfl

/-- A request whose record takes its event and says all of it but the list of contained objects,
and that does not reserve a segment again within the grace of a restart; a checkpoint of a
registry without lists. -/
def Plain (C : Codecs) (grace : ℕ) (s : Coordinator) : SeqAct → Prop
  | .submit _ req => (∀ evt ∈ req.event s.registry, evt.InRange ∧ evt.Fits C) ∧ req.PlainSeal ∧
      (req.isReserve = true → grace = 0 ∨ .delete req.segmentId ∉ s.log)
  | .recordPos _ _ => True
  | .checkpoint => ∀ p ∈ s.registry.live, kept C p.2.containedObjects = none

structure Sequential (C : Codecs) (grace : ℕ) (s : Coordinator) : Prop where
  idle : s.tasks = []
  position : s.lastFolded ≤ s.log.length
  deletes : DeletesLogged grace s.log s.registry
  readable : Readable C s.log
  /-- A segment that is only reserved has not been repacked. -/
  fresh : ∀ seg, ∀ v ∈ view (kept C) (s.registry.lookup seg), v.state = .reserved →
    v.repackedFrom = none
  tail : Absorbed C grace s.registry (s.log.drop s.lastFolded)
  full : Restores C grace s.log s.registry ∅ s.log
  taken : ∀ c ∈ s.checkpoints, c.covered ≤ s.log.length ∧
    Restores C grace s.log s.registry (seeded c.registry) (s.log.drop c.covered)

lemma Sequential.initial : Sequential C grace initial where
  idle := rfl
  position := le_rfl
  deletes := by simp [DeletesLogged, Coordinator.initial]
  readable := by simp [Readable, Coordinator.initial]
  fresh := by simp [Coordinator.initial, view]
  tail := absorbed_nil _
  full _ := ⟨∅, rfl, fun _ => rfl, by simp, by simp [DeletesLogged]⟩
  taken := by simp [Coordinator.initial]

lemma effect_fresh {norm : Option (List ContainedObject) → Option (List ContainedObject)}
    {w : Option LifecycleEntry} (h : ∀ v ∈ w, v.state = .reserved → v.repackedFrom = none) :
    ∀ v ∈ req.effect norm w, v.state = .reserved → v.repackedFrom = none := by
  intro v hv hs
  cases req with
  | reserve id tier ecK ecM =>
    cases w with
    | none => rw [← some.inj hv]; rfl
    | some v₀ => exact h v hv hs
  | sealWith id m repackedFrom contained =>
    obtain ⟨v₀, -, rfl⟩ := map_eq_some_iff.mp hv
    simp at hs
  | delete id => simp [Request.effect] at hv
  | refresh id root locations poolId =>
    obtain ⟨v₀, hv₀, rfl⟩ := map_eq_some_iff.mp hv
    exact h v₀ hv₀ hs

section

variable (h : Sequential C grace s)

include h

lemma Sequential.restores_submit
    (hok : Plain C grace s (.submit now req)) (hs : submit grace now req s = some s')
    (hevt : req.event s.registry = some evt) {start : Registry} {events : List SegmentEvent}
    (hres : Restores C grace s.log s.registry start events) :
    Restores C grace s'.log s'.registry start (events ++ [evt]) := by
  obtain ⟨evt', hvalid, hevt', hreg, hlog, -⟩ := submit_cases h.idle hs
  obtain rfl : evt' = evt := some.inj (hevt'.symm.trans hevt)
  have hadm : req.Admits (s.registry.lookup req.segmentId) :=
    Request.admits_of_validate hvalid (h.deletes.not_deleted hok.2.2)
  have htook : Took (kept C) grace req s.registry s'.registry := hreg ▸ took_foldRequest hadm
  rw [hlog]
  exact hres.append hadm hok.2.2 hok.2.1.loggedInFull hevt htook

lemma Sequential.submit (hok : Plain C grace s (.submit now req))
    (hs : submit grace now req s = some s') : Sequential C grace s' := by
  obtain ⟨evt, hvalid, hevt, hreg, hlog, hidle, hchk, hpos⟩ := submit_cases h.idle hs
  obtain ⟨hread, hplain, hfresh⟩ := hok
  have hadm : req.Admits (s.registry.lookup req.segmentId) :=
    Request.admits_of_validate hvalid (h.deletes.not_deleted hfresh)
  have htook : Took (kept C) grace req s.registry s'.registry := hreg ▸ took_foldRequest hadm
  have hevents : ∀ start events, Restores C grace s.log s.registry start events →
      Restores C grace s'.log s'.registry start (events ++ [evt]) := fun _ _ hres =>
    h.restores_submit ⟨hread, hplain, hfresh⟩ hs hevt hres
  constructor
  case idle => exact hidle
  case position =>
    have := h.position
    rw [hlog, length_append]
    rcases hpos with ⟨-, hlast⟩ | ⟨-, hlast, -⟩ <;> omega
  case deletes =>
    rw [hlog]
    refine h.deletes.took (subset_append_left _ _) htook ?_
    rintro seg rfl
    rw [← some.inj hevt]
    simp
  case readable =>
    rw [hlog]
    refine forall_mem_append.mpr ⟨h.readable, fun x hx => ?_⟩
    rw [mem_singleton.mp hx]
    exact hread evt hevt
  case fresh =>
    intro seg
    by_cases hseg : seg = req.segmentId
    · rw [hseg, htook.seen]
      exact effect_fresh (h.fresh _)
    · rw [htook.others seg hseg]
      exact h.fresh seg
  case tail =>
    rcases hpos with ⟨-, hlast⟩ | ⟨-, hlast, hsame⟩
    · rw [hlast, hlog, drop_left]
      exact (absorbed_nil _).append hadm hevt htook
    · have htail := h.tail
      rw [← hreg.trans hsame] at htail
      rw [hlast, hlog, drop_append_of_le_length h.position]
      exact htail.append hadm hevt htook
  case full =>
    have hfull := hevents ∅ s.log h.full
    rwa [← hlog] at hfull
  case taken =>
    intro c hc
    rw [hchk] at hc
    obtain ⟨hle, hres⟩ := h.taken c hc
    refine ⟨?_, ?_⟩
    · rw [hlog, length_append]
      omega
    · have hres' := hevents _ _ hres
      rwa [← drop_append_of_le_length hle, ← hlog] at hres'

lemma Sequential.recordPos (seg : SegmentId) (pos : DataWalPos) :
    Sequential C grace { s with registry := s.registry.recordDataWalPos seg pos } := by
  have hseen := fun seg' => view_recordDataWalPos (kept C) s.registry seg seg' pos
  refine { h with
    deletes := h.deletes.recordPos seg pos
    fresh := fun seg' => ?_
    tail := h.tail.congr hseen
    full := h.full.congr hseen
    taken := fun c hc => (h.taken c hc).imp_right (·.congr hseen) }
  rw [hseen]
  exact h.fresh seg'

lemma Sequential.restores_checkpoint (hok : Plain C grace s .checkpoint)
    :
    Restores C grace s.log s.registry (seeded s.registry) (s.log.drop s.lastFolded) := by
  intro times
  obtain ⟨r, hr, hseeded⟩ := h.tail _ (seeded_of_no_lists hok h.fresh) times
  exact ⟨r, hr, hseeded.alike grace s.log⟩

lemma Sequential.checkpoint (hok : Plain C grace s .checkpoint)
    (hs : seqStep grace s .checkpoint = some s') : Sequential C grace s' := by
  obtain ⟨s₁, h₁, hs⟩ := run_cons.mp hs
  obtain ⟨s₂, h₂, hs⟩ := run_cons.mp hs
  obtain rfl := some.inj hs
  obtain rfl := step_loadCovered h₁
  obtain ⟨covered, hc, rfl⟩ := step_snapshot h₂
  obtain rfl := some.inj hc
  exact { h with
    taken := forall_mem_cons.mpr ⟨⟨h.position, h.restores_checkpoint hok⟩, h.taken⟩ }

lemma Sequential.step {a : SeqAct} (hok : Plain C grace s a)
    (hs : seqStep grace s a = some s') : Sequential C grace s' := by
  cases a with
  | submit now req => exact h.submit hok hs
  | recordPos seg pos =>
    obtain rfl := some.inj hs
    exact h.recordPos seg pos
  | checkpoint => exact h.checkpoint hok hs

end

lemma Alike.view_id (h : Alike C grace log live r) (h' : Alike C grace log live r')
    (seg : SegmentId) : view id (r.lookup seg) = view id (r'.lookup seg) := by
  have hshown : ∀ {r : Registry}, (∀ seg, ∀ e ∈ r.lookup seg, e.ListKept C) →
      view id (r.lookup seg) = view (kept C) (r.lookup seg) := by
    intro r hlists
    refine Option.map_congr fun e he => ?_
    rw [LifecycleEntry.shown, LifecycleEntry.shown, hlists seg e (filter_eq_some_iff.mp he).1]
    rfl
  rw [hshown h.lists, hshown h'.lists, h.seen, h'.seen]

instance : DecidablePred Request.PlainSeal
  | .sealWith .. => inferInstanceAs (Decidable (_ ∧ _))
  | .reserve .. | .delete _ | .refresh .. => instDecidableTrue

instance (C : Codecs) (grace : ℕ) (s : Coordinator) : DecidablePred (Plain C grace s) := fun a => by
  cases a <;> unfold Plain <;> infer_instance

end Coordinator

end OceanFs.Segment
