import OceanFs.Segment.CheckpointEquivalence

/-!
What a checkpoint covers.

The coordinator stores the position of the event whose fold has just landed, whatever is still
under way at lower positions. A checkpoint therefore covers only what it contains as long as a
position is stored when every event below it has been folded.
-/

namespace OceanFs.Segment.Coordinator

open OceanFs.Core Lib.Runs Lib.Lists List Option

/-- The registries that folds of the given log make, with the positions of the events that were
folded. -/
inductive Contains (C : Codecs) (grace : ℕ) (log : List SegmentEvent) :
    List ℕ → Registry → Prop
  | empty : Contains C grace log [] ∅
  /-- The fold of a request whose event is in the log. -/
  | request {folded r pos evt r₀} (now : ℕ) (req : Request) (h : Contains C grace log folded r)
      (hevt : req.event r₀ = some evt) (hlog : log[pos]? = some evt) :
      Contains C grace log (pos :: folded) (foldRequest grace now req r)
  /-- The fold of an event in a restart. -/
  | event {folded r r' pos evt} (now : ℕ) (h : Contains C grace log folded r)
      (hlog : log[pos]? = some evt) (hfold : foldEvent grace now (evt.stored C) r = .ok r') :
      Contains C grace log (pos :: folded) r'
  | recordPos {folded r} (id : SegmentId) (pos : DataWalPos) (h : Contains C grace log folded r) :
      Contains C grace log folded (r.recordDataWalPos id pos)
  /-- A registry that is written to a checkpoint and read back by a restart. -/
  | seeded {folded r} (h : Contains C grace log folded r) : Contains C grace log folded (seeded r)

/-- A position is stored only when no event below it waits for its fold, an event that is logged
has a record that can be read back, and its request is folded. -/
def StoresInOrder (C : Codecs) (s : Coordinator) : Act → Prop
  | .append _ i => ∀ t ∈ s.tasks[i]?, t.event.InRange ∧ t.event.Fits C
  | .lose _ => False
  | .store i => ∀ done ∈ s.tasks[i]?, ∀ pos ∈ done.landed,
      ∀ t ∈ s.tasks, ∀ p ∈ t.unfolded, pos ≤ p
  | _ => True

variable {C : Codecs} {limit grace now : ℕ} {log log' : List SegmentEvent} {folded : List ℕ}
  {r r' : Registry} {s s' : Coordinator}

/-! ### The events of a registry -/

lemma Contains.mono (h : Contains C grace log folded r) (hlog : log <+: log') :
    Contains C grace log' folded r := by
  have hget : ∀ {pos : ℕ} {evt}, log[pos]? = some evt → log'[pos]? = some evt := by
    obtain ⟨rest, rfl⟩ := hlog
    intro pos evt hpos
    rwa [getElem?_append_left (List.getElem?_eq_some_iff.mp hpos).1]
  induction h with
  | empty => exact .empty
  | request now req _ hevt hpos ih => exact .request now req ih hevt (hget hpos)
  | event now _ hpos hfold ih => exact .event now ih (hget hpos) hfold
  | recordPos id pos _ ih => exact .recordPos id pos ih
  | seeded _ ih => exact .seeded ih

lemma Contains.rebuild {events : List (ℕ × SegmentEvent)} {k : ℕ}
    (h : Contains C grace log folded r)
    (hevents : events.map Prod.snd = (log.drop k).map (·.stored C))
    (hr : rebuildFromEvents grace events .clean r = .ok r') :
    ∃ folded', Contains C grace log folded' r' ∧ folded ⊆ folded' ∧
      ∀ pos < log.length, k ≤ pos → pos ∈ folded' := by
  induction events generalizing k r folded with
  | nil =>
    obtain rfl := Except.ok.inj hr
    have hend : log.length ≤ k := by simpa using hevents.symm
    exact ⟨folded, h, Subset.refl _, fun pos hpos hk => by omega⟩
  | cons p events ih =>
    obtain ⟨now, evt⟩ := p
    have hk : k < log.length := by
      by_contra hk
      rw [drop_eq_nil_of_le (by omega)] at hevents
      simp at hevents
    rw [drop_eq_getElem_cons hk, map_cons, map_cons] at hevents
    obtain ⟨hevt, hrest⟩ := cons.inj hevents
    obtain rfl : evt = _ := hevt
    rw [rebuildFromEvents] at hr
    split at hr
    · rename_i r₁ hfold
      have hstep := h.event now (getElem?_eq_getElem hk) hfold
      obtain ⟨folded', hmade, hsub, hlater⟩ := ih hstep hrest hr
      refine ⟨folded', hmade, List.Subset.trans (subset_cons_self _ _) hsub, ?_⟩
      intro pos hpos hle
      rcases eq_or_lt_of_le hle with rfl | hlt
      · exact hsub mem_cons_self
      · exact hlater pos hpos hlt
    · simp at hr

structure Covering (C : Codecs) (grace : ℕ) (s : Coordinator) : Prop where
  readable : Readable C s.log
  made : Contains C grace s.log s.folded s.registry
  events : ∀ t ∈ s.tasks, ∃ r, t.request.event r = some t.event
  /-- An event of the log has been folded or belongs to a request under way. -/
  log : ∀ pos < s.log.length, pos ∈ s.folded ∨ ∃ t ∈ s.tasks, t.unfolded = some pos
  unfolded : ∀ t ∈ s.tasks, ∀ pos ∈ t.unfolded, s.log[pos]? = some t.event
  landed : ∀ t ∈ s.tasks, ∀ pos ∈ t.landed, pos < s.log.length
  stored : ∀ pos < s.lastFolded, pos ∈ s.folded
  loaded : ∀ covered ∈ s.upTo, ∀ pos < covered, pos ∈ s.folded
  taken : ∀ c ∈ s.checkpoints, Contains C grace s.log c.folded c.registry ∧
    (∀ pos < c.covered, pos ∈ c.folded) ∧ c.folded ⊆ s.folded
  gone : ∀ pos < s.truncated, pos ∈ s.folded
  last : ∀ c ∈ s.checkpoints.head?, ∀ pos < s.truncated, pos ∈ c.folded

lemma Covering.initial : Covering C grace initial := by
  constructor
  case made => exact .empty
  all_goals simp [Coordinator.initial, Readable]

section

variable (h : Covering C grace s)

include h

lemma Covering.of_tasks {tasks : List Task}
    (hkeep : ∀ t ∈ s.tasks, ∀ pos, t.unfolded = some pos → t ∈ tasks)
    (hnew : ∀ t ∈ tasks, t ∈ s.tasks ∨
      t.phase = .validated ∧ ∃ r, t.request.event r = some t.event) :
    Covering C grace { s with tasks := tasks } := by
  refine { h with
    events := fun t ht => ?_
    log := fun pos hpos =>
      (h.log pos hpos).imp_right fun ⟨t, ht, hp⟩ => ⟨t, hkeep t ht pos hp, hp⟩
    unfolded := fun t ht pos hp => ?_
    landed := fun t ht pos hp => ?_ }
  · rcases hnew t ht with hold | ⟨-, hevt⟩
    · exact h.events t hold
    · exact hevt
  · rcases hnew t ht with hold | ⟨hv, -⟩
    · exact h.unfolded t hold pos hp
    · simp [Task.unfolded, hv] at hp
  · rcases hnew t ht with hold | ⟨hv, -⟩
    · exact h.landed t hold pos hp
    · simp [Task.landed, hv] at hp

lemma Covering.append {i : ℕ} {req : Request} {evt : SegmentEvent}
    (ht : s.tasks[i]? = some ⟨req, evt, .validated⟩) (hread : evt.InRange ∧ evt.Fits C) :
    Covering C grace { s with
      log := s.log ++ [evt]
      tasks := s.tasks.set i ⟨req, evt, .appended s.log.length⟩ } := by
  have hi : i < s.tasks.length := (List.getElem?_eq_some_iff.mp ht).1
  have hlen : (s.log ++ [evt]).length = s.log.length + 1 := by simp
  have hpre : s.log <+: s.log ++ [evt] := prefix_append _ _
  constructor
  case readable =>
    refine forall_mem_append.mpr ⟨h.readable, fun x hx => ?_⟩
    rw [mem_singleton.mp hx]
    exact hread
  case made => exact h.made.mono hpre
  case events =>
    intro t htm
    rcases mem_or_eq_of_mem_set htm with hold | rfl
    · exact h.events t hold
    · exact h.events ⟨req, evt, .validated⟩ (mem_of_getElem? ht)
  case log =>
    intro pos hpos
    by_cases hnew : pos = s.log.length
    · exact .inr ⟨_, mem_set hi _, by rw [hnew]; rfl⟩
    · refine (h.log pos (by dsimp only at hpos; omega)).imp_right ?_
      rintro ⟨t, htm, hp⟩
      refine ⟨t, mem_set_of_ne ht htm ?_, hp⟩
      rintro rfl
      simp [Task.unfolded] at hp
  case unfolded =>
    intro t htm pos hp
    dsimp only
    rcases mem_or_eq_of_mem_set htm with hold | rfl
    · have hget := h.unfolded t hold pos hp
      rwa [getElem?_append_left (List.getElem?_eq_some_iff.mp hget).1]
    · obtain rfl := some.inj hp
      exact getElem?_concat_length
  case landed =>
    intro t htm pos hp
    dsimp only
    rcases mem_or_eq_of_mem_set htm with hold | rfl
    · have := h.landed t hold pos hp
      omega
    · simp [Task.landed] at hp
  case stored => exact h.stored
  case loaded => exact h.loaded
  case taken => exact fun c hc => (h.taken c hc).imp_left (·.mono hpre)
  case gone => exact h.gone
  case last => exact h.last

lemma Covering.fold {i pos : ℕ} {req : Request} {evt : SegmentEvent} {tasks : List Task}
    (ht : s.tasks[i]? = some ⟨req, evt, .appended pos⟩)
    (htasks : tasks = s.tasks.set i ⟨req, evt, .folded pos⟩ ∨ tasks = s.tasks.eraseIdx i) :
    Covering C grace { s with
      registry := foldRequest grace now req s.registry
      folded := pos :: s.folded
      tasks := tasks } := by
  have hmem : ⟨req, evt, .appended pos⟩ ∈ s.tasks := mem_of_getElem? ht
  have hpos : s.log[pos]? = some evt := h.unfolded _ hmem pos rfl
  have hkeep : ∀ t ∈ s.tasks, t ≠ ⟨req, evt, .appended pos⟩ → t ∈ tasks := by
    intro t htm hne
    rcases htasks with rfl | rfl
    · exact mem_set_of_ne ht htm hne
    · exact mem_eraseIdx_of_ne ht htm hne
  have hnew : ∀ t ∈ tasks, t ∈ s.tasks ∨ t = ⟨req, evt, .folded pos⟩ := by
    intro t htm
    rcases htasks with rfl | rfl
    · exact mem_or_eq_of_mem_set htm
    · exact .inl (mem_of_mem_eraseIdx htm)
  constructor
  case readable => exact h.readable
  case made =>
    obtain ⟨r₀, hevt⟩ := h.events _ hmem
    exact h.made.request now req hevt hpos
  case events =>
    intro t htm
    rcases hnew t htm with hold | rfl
    · exact h.events t hold
    · exact h.events ⟨req, evt, .appended pos⟩ hmem
  case log =>
    intro p hp
    rcases h.log p hp with hin | ⟨t, htm, hun⟩
    · exact .inl (mem_cons_of_mem _ hin)
    · by_cases hpos : p = pos
      · exact .inl (hpos ▸ mem_cons_self)
      · refine .inr ⟨t, hkeep t htm ?_, hun⟩
        rintro rfl
        exact hpos (some.inj hun).symm
  case unfolded =>
    intro t htm p hp
    rcases hnew t htm with hold | rfl
    · exact h.unfolded t hold p hp
    · simp [Task.unfolded] at hp
  case landed =>
    intro t htm p hp
    rcases hnew t htm with hold | rfl
    · exact h.landed t hold p hp
    · obtain rfl := some.inj hp
      exact (List.getElem?_eq_some_iff.mp hpos).1
  case stored => exact fun p hp => mem_cons_of_mem _ (h.stored p hp)
  case loaded => exact fun c hc p hp => mem_cons_of_mem _ (h.loaded c hc p hp)
  case taken =>
    intro c hc
    obtain ⟨hmade, hcovered, hsub⟩ := h.taken c hc
    exact ⟨hmade, hcovered, subset_cons_of_subset _ hsub⟩
  case gone => exact fun p hp => mem_cons_of_mem _ (h.gone p hp)
  case last => exact h.last

lemma Covering.store {i pos : ℕ} {req : Request} {evt : SegmentEvent}
    (ht : s.tasks[i]? = some ⟨req, evt, .folded pos⟩) (hok : StoresInOrder C s (.store i)) :
    Covering C grace { s with lastFolded := pos, tasks := s.tasks.eraseIdx i } := by
  have htasks : Covering C grace { s with tasks := s.tasks.eraseIdx i } := by
    refine h.of_tasks (fun t htm p hp => mem_eraseIdx_of_ne ht htm ?_)
      fun t htm => .inl (mem_of_mem_eraseIdx htm)
    rintro rfl
    simp [Task.unfolded] at hp
  refine { htasks with stored := fun p hp => ?_ }
  -- below the stored position nothing waits for its fold
  have hlt := h.landed _ (mem_of_getElem? ht) pos rfl
  rcases h.log p (by dsimp only at hp; omega) with hin | ⟨t, htm, hun⟩
  · exact hin
  · have := hok _ ht pos rfl t htm p hun
    dsimp only at hp
    omega

lemma Covering.truncate {count : ℕ} {c : CheckpointFile} (hc : s.checkpoints.head? = some c)
    (hle : count ≤ c.covered) :
    Covering C grace { s with truncated := max s.truncated count } := by
  obtain ⟨-, hcovered, hsub⟩ := h.taken c (mem_of_mem_head? hc)
  have hlast : ∀ pos < max s.truncated count, pos ∈ c.folded := by
    intro pos hpos
    rcases lt_max_iff.mp hpos with htr | hcount
    · exact h.last c hc pos htr
    · exact hcovered pos (by omega)
  refine { h with gone := fun pos hpos => hsub (hlast pos hpos), last := fun c' hc' => ?_ }
  obtain rfl := some.inj (hc.symm.trans hc')
  exact hlast

lemma Covering.step {a : Act} (hok : StoresInOrder C s a) (hs : step grace s a = some s') :
    Covering C grace s' := by
  cases a with
  | request now req =>
    obtain ⟨evt, -, hevt, rfl⟩ := step_request hs
    exact h.of_tasks (fun t ht _ _ => mem_append_left _ ht) fun t ht => by
      rcases mem_append.mp ht with hold | hnew
      · exact .inl hold
      · rw [mem_singleton.mp hnew]
        exact .inr ⟨rfl, s.registry, hevt⟩
  | append now i =>
    obtain ⟨req, evt, ht, rfl⟩ := step_append hs
    exact h.append ht (hok _ ht)
  | abandon i =>
    obtain ⟨req, evt, ht, rfl⟩ := step_abandon hs
    refine h.of_tasks (fun t htm pos hp => mem_eraseIdx_of_ne ht htm ?_)
      fun t htm => .inl (mem_of_mem_eraseIdx htm)
    rintro rfl
    simp [Task.unfolded] at hp
  | lose i => exact hok.elim
  | fold now i =>
    obtain ⟨req, evt, pos, tasks, ht, htasks, rfl⟩ := step_fold hs
    exact h.fold ht htasks
  | store i =>
    obtain ⟨req, evt, pos, ht, rfl⟩ := step_store hs
    exact h.store ht hok
  | recordPos id pos =>
    obtain rfl := some.inj hs
    exact { h with made := h.made.recordPos id pos }
  | loadCovered =>
    obtain rfl := step_loadCovered hs
    refine { h with loaded := fun c hc => ?_ }
    obtain rfl := some.inj hc
    exact h.stored
  | snapshot =>
    obtain ⟨covered, hu, rfl⟩ := step_snapshot hs
    refine { h with
      loaded := fun c hc => by simp at hc
      taken := forall_mem_cons.mpr
        ⟨⟨h.made, h.loaded covered hu, Subset.refl _⟩, h.taken⟩
      last := fun c hc => ?_ }
    obtain rfl := some.inj hc
    exact h.gone
  | truncate count =>
    obtain ⟨c, rest, hc, hle, rfl⟩ := step_truncate hs
    exact h.truncate (by simp [hc]) hle

end

instance (C : Codecs) (s : Coordinator) : DecidablePred (StoresInOrder C s)
  | .append .. => inferInstanceAs (Decidable (∀ t ∈ s.tasks[_]?, _))
  | .lose _ => instDecidableFalse
  | .store _ => inferInstanceAs (Decidable (∀ done ∈ s.tasks[_]?, _))
  | .request .. | .abandon _ | .fold .. | .recordPos .. | .loadCovered | .snapshot | .truncate _ =>
    instDecidableTrue

lemma attempt_reserve (now : ℕ) {o : Option LifecycleEntry} (h : ∀ e ∈ o, e.state = .reserved)
    (m : SegmentMetadata) :
    attempt now o (reserveEntry m) = (some (o.getD (.new .reserved m)), none) := by
  rcases o with _ | ⟨state, _, _, _, _⟩
  · rfl
  · obtain rfl : state = .reserved := h _ rfl
    rfl

lemma reserved_of_attempt {id : SegmentId} {m : SegmentMetadata}
    (h : ∀ seg, ∀ e ∈ r.lookup seg, e.state = .reserved)
    (hlookup : ∀ seg, r'.lookup seg = if seg = id then
      (attempt now (r.lookup seg) (reserveEntry m)).1 else r.lookup seg) :
    (∀ seg, ∀ e ∈ r'.lookup seg, e.state = .reserved) ∧ r'.lookup id ≠ none ∧
      ∀ seg, r.lookup seg ≠ none → r'.lookup seg ≠ none := by
  simp only [fun seg => attempt_reserve now (h seg) m] at hlookup
  refine ⟨fun seg e he => ?_, by simp [hlookup], fun seg hseg => ?_⟩
  · rw [hlookup] at he
    split_ifs at he
    · obtain rfl := some.inj he
      cases hl : r.lookup seg with
      | none => rfl
      | some e => exact h seg e hl
    · exact h seg e he
  · rw [hlookup]
    split_ifs
    · simp
    · exact hseg

/-- Folds of reserves leave every segment reserved that they come across. -/
lemma Contains.reserved (hlog : ∀ evt ∈ log, ∃ e, evt = .reserve e)
    (h : Contains C grace log folded r) :
    (∀ seg, ∀ e ∈ r.lookup seg, e.state = .reserved) ∧
      ∀ pos ∈ folded, ∀ evt ∈ log[pos]?, r.lookup evt.segmentId ≠ none := by
  -- one more reserve is folded, by a request or by a restart
  have hcons : ∀ {folded : List ℕ} {r r' : Registry} {pos : ℕ} {e : ReserveEvent},
      log[pos]? = some (.reserve e) →
      (∀ p ∈ folded, ∀ evt ∈ log[p]?, r.lookup evt.segmentId ≠ none) →
      r'.lookup e.segmentId ≠ none → (∀ seg, r.lookup seg ≠ none → r'.lookup seg ≠ none) →
      ∀ p ∈ pos :: folded, ∀ evt ∈ log[p]?, r'.lookup evt.segmentId ≠ none := by
    intro folded r r' pos e hpos hold hnew hkeep p hp evt hevt
    rcases mem_cons.mp hp with rfl | hp
    · obtain rfl := some.inj (hpos.symm.trans hevt)
      exact hnew
    · exact hkeep _ (hold p hp evt hevt)
  induction h with
  | empty => exact ⟨by simp, by simp⟩
  | @request folded r pos evt r₀ now req _ hevt hpos ih =>
    obtain ⟨e, rfl⟩ := hlog evt (mem_of_getElem? hpos)
    cases req with
    | reserve id tier ecK ecM =>
      obtain rfl := SegmentEvent.reserve.inj (some.inj hevt)
      obtain ⟨hstate, hnew, hkeep⟩ := reserved_of_attempt ih.1
        (@lookup_foldRequest grace now r (.reserve id tier ecK ecM))
      exact ⟨hstate, hcons hpos ih.2 hnew hkeep⟩
    | sealWith id m repackedFrom contained =>
      obtain ⟨root, -, hroot⟩ := map_eq_some_iff.mp hevt
      cases hroot
    | delete id => cases hevt
    | refresh id root locations poolId => cases hevt
  | @event folded r r' pos evt now _ hpos hfold ih =>
    obtain ⟨e, rfl⟩ := hlog evt (mem_of_getElem? hpos)
    have hset : r' = r.set e.segmentId (attempt now (r.lookup e.segmentId)
        (reserveEntry (reservedMetadata e.segmentId e.tier e.ecK e.ecM))).1 := by
      have hnone : (stepEntry grace now (.reserve e) (r.lookup e.segmentId)).2 = none :=
        congrArg Prod.snd (attempt_reserve now (ih.1 e.segmentId) _)
      exact Except.ok.inj (hfold.symm.trans (@foldEvent_of_tolerated grace now r (.reserve e)
        fun err herr => absurd (hnone.symm.trans herr) (by simp)))
    obtain ⟨hstate, hnew, hkeep⟩ := @reserved_of_attempt now r r' e.segmentId
      (reservedMetadata e.segmentId e.tier e.ecK e.ecM) ih.1 fun seg => by
        rw [hset, Registry.lookup_set]
        split_ifs with hseg
        · rw [hseg]
        · rfl
    exact ⟨hstate, hcons hpos ih.2 hnew hkeep⟩
  | @recordPos folded r id pos _ ih =>
    refine ⟨fun seg e he => ?_, fun p hp evt hevt => ?_⟩
    · rw [lookup_recordDataWalPos] at he
      split_ifs at he
      · obtain ⟨e₀, he₀, q, rfl⟩ := mem_recordPos he
        exact ih.1 seg e₀ he₀
      · exact ih.1 seg e he
    · rw [lookup_recordDataWalPos]
      split_ifs
      · simpa [Segment.recordPos] using ih.2 p hp evt hevt
      · exact ih.2 p hp evt hevt
  | @seeded folded r _ ih =>
    have hlookup : ∀ seg, (Coordinator.seeded r).lookup seg =
        (r.lookup seg).map (·.restored.forget) := by
      intro seg
      rw [lookup_seeded]
      cases hl : r.lookup seg with
      | none => rfl
      | some e =>
        rw [filter_some, LifecycleEntry.isDeleted, ih.1 seg e hl]
        rfl
    refine ⟨fun seg e he => ?_, fun p hp evt hevt => ?_⟩
    · rw [hlookup] at he
      obtain ⟨⟨state, m, q, rep, con⟩, he₀, rfl⟩ := map_eq_some_iff.mp he
      obtain rfl : state = .reserved := ih.1 seg _ he₀
      rfl
    · rw [hlookup]
      simpa using ih.2 p hp evt hevt

end OceanFs.Segment.Coordinator
