import OceanFs.Segment.Relocate

/-!
What relocations, deletions and crashes leave of a segment.

As long as no deletion is durable, the pool of the last durable refresh has a file with the sealed
data, and so has the pool in the registry, which lags behind the log for the length of a fold. A
relocation unlinks its source only after its own commit, when both are its target, and the target is
another pool than the source whatever has happened since the source was read. What is lost in a
crash is the entry of a copy whose refresh reached the disk before the directory did.
-/

namespace OceanFs.Segment.Relocate

open OceanFs.Core Lib List Option

variable {cfg : Config}

/-! ### What the log makes of the entry -/

/-- The two kinds of events that are written here. -/
def IsEvent (cfg : Config) (evt : SegmentEvent) : Prop :=
  evt = .delete cfg.id ∨ ∃ r, evt = State.refreshEvent cfg r

/-- The pool of the last refresh. -/
def lastPool (log : List SegmentEvent) (p : PoolId) : PoolId :=
  log.foldl (fun p evt =>
    match evt with
    | .metadataRefresh evt => evt.poolId.getD p
    | _ => p) p

@[simp] lemma lastPool_append_refresh (log : List SegmentEvent) (p : PoolId) (r : Relocation) :
    lastPool (log ++ [State.refreshEvent cfg r]) p = r.target := by
  simp [lastPool, State.refreshEvent]

/-- The entry is sealed with the pool `p`. -/
def SealedAt (p : PoolId) (o : Option LifecycleEntry) : Prop :=
  ∃ e, o = some e ∧ e.state = .sealed ∧ e.metadata.poolId = p

/-- There is no entry, or one of a deleted segment. -/
def Gone (o : Option LifecycleEntry) : Prop := ∀ e ∈ o, e.isDeleted = true

lemma not_deleted_of_sealed {e : LifecycleEntry} (h : e.state = .sealed) :
    e.isDeleted = false := by
  simp [LifecycleEntry.isDeleted, h]

variable {grace now : ℕ} {p : PoolId} {o : Option LifecycleEntry}

lemma stepEntry_refresh_sealed (h : SealedAt p o) (r : Relocation) :
    SealedAt r.target (stepEntry grace now (State.refreshEvent cfg r) o).1 ∧
      (stepEntry grace now (State.refreshEvent cfg r) o).2 = none := by
  obtain ⟨e, rfl, hs, -⟩ := h
  have hun : unexpired now (some e) = some e :=
    unexpired_of_not_deleted (not_deleted_of_sealed hs)
  simp only [State.refreshEvent, stepEntry, attempt, hun, refreshEntry, hs]
  exact ⟨⟨_, rfl, rfl, rfl⟩, trivial⟩

lemma gone_unexpired {now : ℕ} {o : Option LifecycleEntry} (h : Gone o) : Gone (unexpired now o) :=
  fun e he => h e (filter_eq_some_iff.mp he).1

lemma stepEntry_gone (h : Gone o) {evt : SegmentEvent} (hevt : IsEvent cfg evt) :
    Gone (stepEntry grace now evt o).1 ∧
      ∀ err ∈ (stepEntry grace now evt o).2, tolerated err = true := by
  have hun : Gone (unexpired now o) := gone_unexpired h
  rcases hevt with rfl | ⟨r, rfl⟩
  · refine ⟨?_, (attempt_delete grace now o).2⟩
    simp only [stepEntry, attempt]
    split
    · rename_i o' hok
      obtain ⟨e, he, hdel⟩ := deleteEntry_ok hok
      exact fun e' he' => (hdel e' he').1
    · exact h
  · simp only [State.refreshEvent, stepEntry, attempt]
    cases ho : unexpired now o with
    | none => exact ⟨h, by rintro _ ⟨rfl⟩; rfl⟩
    | some e =>
      have hdel : e.isDeleted = true := hun e ho
      unfold LifecycleEntry.isDeleted at hdel
      simp only [refreshEntry]
      cases hs : e.state with
      | deleted t => exact ⟨h, by rintro _ ⟨rfl⟩; rfl⟩
      | reserved | «sealed» => simp [hs] at hdel

lemma stepEntry_delete {p : PoolId} (h : SealedAt p o ∨ Gone o) :
    Gone (stepEntry grace now (.delete cfg.id) o).1 := by
  rcases h with ⟨e, rfl, hs, -⟩ | h
  · have hun : unexpired now (some e) = some e :=
      unexpired_of_not_deleted (not_deleted_of_sealed hs)
    simp only [stepEntry, attempt, hun, deleteEntry, hs]
    split_ifs
    · intro e he
      cases he
    · rintro _ ⟨rfl⟩
      rfl
  · exact (stepEntry_gone h (show IsEvent cfg _ from .inl rfl)).1

lemma IsEvent.segmentId {evt : SegmentEvent} (h : IsEvent cfg evt) : evt.segmentId = cfg.id := by
  rcases h with rfl | ⟨r, rfl⟩ <;> rfl

variable {log : List SegmentEvent}

lemma entryAfter_sealed (hlog : ∀ evt ∈ log, IsEvent cfg evt) (hdel : .delete cfg.id ∉ log)
    {o : Option LifecycleEntry} (ho : SealedAt p o) :
    SealedAt (lastPool log p) (entryAfter grace now cfg.id log o) := by
  induction log generalizing p o with
  | nil => exact ho
  | cons evt log ih =>
    obtain ⟨hevt, hrest⟩ := forall_mem_cons.mp hlog
    have hne : .delete cfg.id ≠ evt := fun h => hdel (h ▸ mem_cons_self)
    have hid := hevt.segmentId
    rcases hevt with rfl | ⟨r, rfl⟩
    · exact absurd rfl hne
    · rw [entryAfter_cons, if_pos hid]
      exact ih hrest (fun h => hdel (mem_cons_of_mem _ h)) (stepEntry_refresh_sealed ho r).1

lemma entryAfter_gone (hlog : ∀ evt ∈ log, IsEvent cfg evt) {o : Option LifecycleEntry}
    (ho : Gone o ∨ SealedAt p o ∧ .delete cfg.id ∈ log) :
    Gone (entryAfter grace now cfg.id log o) := by
  induction log generalizing p o with
  | nil => exact ho.elim id fun h => absurd h.2 not_mem_nil
  | cons evt log ih =>
    obtain ⟨hevt, hrest⟩ := forall_mem_cons.mp hlog
    rw [entryAfter_cons, if_pos hevt.segmentId]
    rcases ho with ho | ⟨ho, hmem⟩
    · exact ih (p := p) hrest (.inl (stepEntry_gone ho hevt).1)
    · rcases hevt with rfl | ⟨r, rfl⟩
      · exact ih (p := p) hrest (.inl (stepEntry_delete (.inl ho)))
      · have hlater : .delete cfg.id ∈ log :=
          (mem_cons.mp hmem).resolve_left (by simp [State.refreshEvent])
        exact ih hrest (.inr ⟨(stepEntry_refresh_sealed ho r).1, hlater⟩)

lemma rebuild_isOk (hlog : ∀ evt ∈ log, IsEvent cfg evt) {r : Registry}
    (hr : SealedAt p (r.lookup cfg.id) ∨ Gone (r.lookup cfg.id)) :
    ∃ r', rebuildFromEvents grace (log.map (now, ·)) .clean r = .ok r' := by
  induction log generalizing p r with
  | nil => exact ⟨r, rfl⟩
  | cons evt log ih =>
    obtain ⟨hevt, hrest⟩ := forall_mem_cons.mp hlog
    have htol : ∀ err ∈ (stepEntry grace now evt (r.lookup evt.segmentId)).2,
        tolerated err = true := by
      rw [hevt.segmentId]
      rcases hevt with rfl | ⟨q, rfl⟩
      · exact (attempt_delete grace now _).2
      · rcases hr with hr | hr
        · rw [(stepEntry_refresh_sealed hr q).2]
          nofun
        · exact (stepEntry_gone hr (.inr ⟨q, rfl⟩)).2
    have hfold : ∃ r₁, foldEvent grace now evt r = .ok r₁ := by
      unfold foldEvent
      split
      · exact ⟨_, rfl⟩
      · rename_i err hstep
        rw [hstep] at htol
        rw [if_pos (htol err rfl)]
        exact ⟨_, rfl⟩
    obtain ⟨r₁, hr₁⟩ := hfold
    have hlookup := lookup_foldEvent hr₁ cfg.id
    rw [if_pos hevt.segmentId] at hlookup
    rw [map_cons, rebuildFromEvents, hr₁]
    -- the entry is again sealed or gone
    rcases hevt with rfl | ⟨q, rfl⟩
    · exact ih (p := p) hrest (.inr (hlookup ▸ stepEntry_delete hr))
    · rcases hr with hr | hr
      · exact ih hrest (.inl (hlookup ▸ (stepEntry_refresh_sealed hr q).1))
      · exact ih (p := p) hrest (.inr (hlookup ▸ (stepEntry_gone hr (.inr ⟨q, rfl⟩)).1))

/-! ### The invariant -/

variable (data : Bytes)

/-- The pool has a file with the sealed data. -/
def Holds (s : State cfg) (p : PoolId) : Prop :=
  ∃ f, s.files p = some f ∧ f.data = data

variable (home : PoolId)

/-- The pool that the log records; `home` is the one before all events. -/
def durablePool (s : State cfg) : PoolId := lastPool s.log home

/-- What a relocation checked before it waited for the lock. -/
def Relocation.Ok (cfg : Config) (r : Relocation) : Prop :=
  r.source ≠ r.target ∧ r.target ∈ cfg.pools

/-- What a relocation with the lock has done so far. -/
def StageOk (s : State cfg) (r : Relocation) : Stage → Prop
  | .copy => True
  | .check | .append => (s.files r.target).isSome
  | .fold => durablePool home s = r.target
  | .purge | .unlink => durablePool home s = r.target ∧ SealedAt r.target (s.entries.lookup cfg.id)

/-- Every file, also one that a power loss may bring back, is on a data pool and has the sealed
data. -/
def State.Whole (s : State cfg) : Prop :=
  ∀ p, ∀ o ∈ s.mayHave p, ∀ f ∈ o, p ∈ cfg.pools ∧ f.data = data

/-- No deletion is durable. -/
structure Alive (s : State cfg) : Prop where
  entry : ∃ p, SealedAt p (s.entries.lookup cfg.id) ∧ (s.files p).isSome
  durable : (s.files (durablePool home s)).isSome
  stage : ∀ h ∈ s.holder, StageOk home s h.1 h.2
  deletions : ∀ d ∈ s.deletions, d.stage = .check ∨ d.stage = .append
  swept : ∀ rest ∈ s.sweeping, SealedAt (durablePool home s) (s.entries.lookup cfg.id) ∧
    ∀ p ∈ cfg.pools, p ∉ rest → p ≠ durablePool home s → s.files p = none

structure Inv (s : State cfg) : Prop where
  whole : s.Whole data
  events : ∀ evt ∈ s.log, IsEvent cfg evt
  waiting : ∀ r ∈ s.waiting, r.Ok cfg
  holder : ∀ h ∈ s.holder, h.1.Ok cfg
  alive : .delete cfg.id ∉ s.log → Alive home s
  dead : .delete cfg.id ∈ s.log → s.sweeping.isSome → Gone (s.entries.lookup cfg.id)
  booting : s.sweeping.isSome → s.holder = none

section Files

variable {data : Bytes} {s : State cfg} {p q : PoolId} {o : Option (DatFile cfg.blake3)}

lemma State.Whole.holds (h : s.Whole data) (hp : (s.files p).isSome) : Holds data s p := by
  obtain ⟨f, hf⟩ := isSome_iff_exists.mp hp
  exact ⟨f, hf, (h p _ mem_cons_self f hf).2⟩

lemma mayHave_setFile (s : State cfg) (p q : PoolId) (o : Option (DatFile cfg.blake3)) :
    (s.setFile q o).mayHave p = if p = q then o :: s.mayHave p else s.mayHave p := by
  split_ifs with hpq
  · subst hpq
    simp [State.mayHave, State.setFile]
  · simp [State.mayHave, State.setFile, hpq]

lemma State.Whole.setFile (h : s.Whole data) (ho : ∀ f ∈ o, q ∈ cfg.pools ∧ f.data = data) :
    (s.setFile q o).Whole data := by
  intro p x hx f hf
  rw [mayHave_setFile] at hx
  split_ifs at hx with hpq
  · rcases mem_cons.mp hx with rfl | hx
    · exact hpq ▸ ho f hf
    · exact h p x hx f hf
  · exact h p x hx f hf

lemma State.Whole.unlink (h : s.Whole data) : (s.setFile q none).Whole data :=
  h.setFile fun _ hf => by cases hf

lemma files_setFile (s : State cfg) (p q : PoolId) (o : Option (DatFile cfg.blake3)) :
    (s.setFile q o).files p = if p = q then o else s.files p :=
  Function.update_apply ..

lemma isSome_setFile (h : (s.files p).isSome) (ho : p = q → o.isSome) :
    ((s.setFile q o).files p).isSome := by
  rw [files_setFile]
  split_ifs with hpq
  · exact ho hpq
  · exact h

lemma left_mem (s : State cfg) (n : ℕ) (p : PoolId) : s.left n p ∈ s.mayHave p := by
  have hlt : min n (s.undone p).length < (s.mayHave p).length :=
    Nat.lt_succ_of_le (Nat.min_le_right ..)
  rw [State.left, getD_eq_getElem?_getD, getElem?_eq_getElem hlt]
  exact getElem_mem _

/-- A crash takes back no change in the directory of the recorded pool, unless a file was there all
the time since that directory was last on disk. -/
def Spares (home : PoolId) (s : State cfg) : Act → Prop
  | .crash _ lost => .delete cfg.id ∉ s.log →
      lost (durablePool home s) = 0 ∨ none ∉ s.undone (durablePool home s)
  | _ => True

lemma isSome_left (h : (s.files p).isSome) {n : ℕ} (hn : n = 0 ∨ none ∉ s.undone p) :
    (s.left n p).isSome := by
  rcases hn with rfl | hall
  · simpa [State.left, State.mayHave] using h
  · refine isSome_iff_ne_none.mpr fun hnone => ?_
    rcases mem_cons.mp (hnone ▸ left_mem s n p) with hfile | hold
    · rw [← hfile] at h
      cases h
    · exact hall hold

end Files

lemma ok_of_validate {s : State cfg} {now : ℕ} {target : PoolId} {r : Relocation}
    (hr : s.validate now target = some r) : r.target = target ∧ r.Ok cfg := by
  unfold State.validate at hr
  split_ifs at hr with htarget
  split at hr
  · cases hr
  · split_ifs at hr with hok
    obtain rfl := some.inj hr
    push Not at hok
    exact ⟨rfl, hok.2, htarget⟩

section Steps

variable {data : Bytes} {home : PoolId} {s : State cfg} (hi : Inv data home s)
include hi

lemma Inv.released : Inv data home (s.holding none) :=
  { hi with
    holder := by simp [State.holding]
    alive := fun h => { hi.alive h with stage := by simp [State.holding] }
    booting := fun _ => rfl }

lemma Inv.advanced (hserve : s.sweeping = none) {r : Relocation} {st : Stage} (hr : r.Ok cfg)
    (hst : Alive home s → StageOk home s r st) :
    Inv data home (s.holding (some (r, st))) :=
  { hi with
    holder := by
      rintro _ ⟨rfl⟩
      exact hr
    alive := fun h => { hi.alive h with
      stage := by
        rintro _ ⟨rfl⟩
        cases st <;> exact hst (hi.alive h) }
    booting := fun h => by simp [State.holding, hserve] at h }

lemma Inv.setDeletions {l : List Deletion}
    (hl : Alive home s → ∀ d ∈ l, d.stage = .check ∨ d.stage = .append) :
    Inv data home { s with deletions := l } :=
  { hi with alive := fun h => { hi.alive h with deletions := hl (hi.alive h) } }

lemma Inv.durable_of_stage {i : ℕ} {d : Deletion} (hd : s.deletions[i]? = some d)
    (hcheck : d.stage ≠ .check) (happend : d.stage ≠ .append) : .delete cfg.id ∈ s.log := by
  by_contra hnot
  rcases (hi.alive hnot).deletions d (mem_of_getElem? hd) with h | h
  · exact hcheck h
  · exact happend h

lemma Inv.validated {now : ℕ} {target : PoolId} {r : Relocation}
    (hr : s.validate now target = some r) :
    Inv data home { s with waiting := s.waiting ++ [r] } :=
  { hi with
    waiting := fun x hx => by
      rcases mem_append.mp hx with hx | hx
      · exact hi.waiting x hx
      · exact mem_singleton.mp hx ▸ (ok_of_validate hr).2
    alive := fun h => { hi.alive h with } }

lemma Inv.locked (hserve : s.sweeping = none) {i : ℕ} {r : Relocation} (hr : s.waiting[i]? = some r)
    :
    Inv data home { s with holder := some (r, .copy), waiting := s.waiting.eraseIdx i } :=
  { hi with
    waiting := fun x hx => hi.waiting x (mem_of_mem_eraseIdx hx)
    holder := by
      rintro _ ⟨rfl⟩
      exact hi.waiting r (mem_of_getElem? hr)
    alive := fun h => { hi.alive h with
      stage := by
        rintro _ ⟨rfl⟩
        trivial }
    booting := fun h => by simp [hserve] at h }

end Steps

lemma State.Whole.sourceFile {data : Bytes} {s : State cfg} (h : s.Whole data) {now : ℕ}
    {f : DatFile cfg.blake3} (hf : s.sourceFile now = some f) : f.data = data := by
  obtain ⟨e, -, he⟩ := bind_eq_some_iff.mp hf
  split_ifs at he
  exact (h _ _ mem_cons_self f he).2

section Serving

variable {data : Bytes} {home : PoolId} {s : State cfg} (hserve : s.sweeping = none)
  (hi : Inv data home s)
include hserve hi

lemma Inv.copied {r : Relocation} (hr : r.Ok cfg) {now : ℕ} {f : DatFile cfg.blake3}
    (hf : s.sourceFile now = some f) (hlen : f.data.length < 2 ^ 32) :
    Inv data home ((s.setFile r.target (some (v1File cfg.blake3 cfg.direct f.data hlen))).holding
      (some (r, .check))) :=
  { hi with
    whole := hi.whole.setFile fun g hg => by
      obtain rfl := some.inj hg
      exact ⟨hr.2, (data_v1File ..).trans (hi.whole.sourceFile hf)⟩
    holder := by
      rintro _ ⟨rfl⟩
      exact hr
    alive := fun h => by
      have ha := hi.alive h
      obtain ⟨p, hsealed, hholds⟩ := ha.entry
      refine ⟨⟨p, hsealed, isSome_setFile hholds fun _ => rfl⟩,
        isSome_setFile ha.durable fun _ => rfl, ?_, ha.deletions,
        by simp [State.holding, State.setFile, hserve]⟩
      rintro _ ⟨rfl⟩
      exact congrArg Option.isSome (Function.update_self r.target _ s.files)
    booting := fun hsweep => by simp [State.holding, State.setFile, hserve] at hsweep }

lemma Inv.logged {r : Relocation} (hholds : Alive home s → (s.files r.target).isSome)
    {h : Option (Relocation × Stage)} (hh : ∀ x ∈ h, x = (r, .fold) ∧ r.Ok cfg) :
    Inv data home { s with log := s.log ++ [State.refreshEvent cfg r], holder := h } where
  whole := hi.whole
  events evt hevt := by
    rcases mem_append.mp hevt with hevt | hevt
    · exact hi.events evt hevt
    · exact .inr ⟨r, mem_singleton.mp hevt⟩
  waiting := hi.waiting
  holder x hx := by
    obtain ⟨rfl, hr⟩ := hh x hx
    exact hr
  alive hdel := by
    have ha := hi.alive fun h => hdel (mem_append_left _ h)
    have hpool : durablePool home
        { s with log := s.log ++ [State.refreshEvent cfg r], holder := h } = r.target :=
      lastPool_append_refresh s.log home r
    refine ⟨ha.entry, ?_, fun x hx => ?_, ha.deletions, by simp [hserve]⟩
    · rw [hpool]
      exact hholds ha
    · obtain ⟨rfl, -⟩ := hh x hx
      exact hpool
  dead _ hsweep := by simp [hserve] at hsweep
  booting hsweep := by simp [hserve] at hsweep

lemma Inv.folded {r : Relocation} (hr : r.Ok cfg) (hh : s.holder = some (r, .fold)) {now : ℕ}
    {entries : Registry}
    (ht : s.entries.transition now cfg.id (refreshEntry r.merkleRoot none (some r.target)) =
      .ok entries) :
    Inv data home { s with entries := entries, holder := some (r, .purge) } where
  whole := hi.whole
  events := hi.events
  waiting := hi.waiting
  holder := by
    rintro _ ⟨rfl⟩
    exact hr
  alive h := by
    have ha := hi.alive h
    have hpool : durablePool home s = r.target := ha.stage _ hh
    obtain ⟨o, ho, rfl⟩ := Registry.transition_ok ht
    obtain ⟨e, e', -, -, rfl, hs, hmeta⟩ := refreshEntry_ok ho
    have hsealed : SealedAt r.target ((s.entries.set cfg.id (some e')).lookup cfg.id) :=
      ⟨e', by simp, hs, by rw [hmeta]; rfl⟩
    have hholds : (s.files r.target).isSome := hpool ▸ ha.durable
    refine ⟨⟨r.target, hsealed, hholds⟩, ha.durable, ?_, ha.deletions, by simp [hserve]⟩
    rintro _ ⟨rfl⟩
    exact ⟨hpool, hsealed⟩
  dead _ hsweep := by simp [hserve] at hsweep
  booting hsweep := by simp [hserve] at hsweep

lemma Inv.unlinked {r : Relocation} (hr : r.Ok cfg) (hh : s.holder = some (r, .unlink)) :
    Inv data home ((s.setFile r.source none).holding none) where
  whole := hi.whole.unlink
  events := hi.events
  waiting := hi.waiting
  holder := by simp [State.holding]
  alive h := by
    have ha := hi.alive h
    obtain ⟨hpool, hsealed⟩ : durablePool home s = r.target ∧
        SealedAt r.target (s.entries.lookup cfg.id) := ha.stage _ hh
    have hholds : ((s.setFile r.source none).files r.target).isSome :=
      isSome_setFile (hpool ▸ ha.durable) fun heq => absurd heq.symm hr.1
    exact ⟨⟨r.target, hsealed, hholds⟩, hpool.symm ▸ hholds, by simp [State.holding],
      ha.deletions, by simp [State.holding, State.setFile, hserve]⟩
  dead _ hsweep := by simp [State.holding, State.setFile, hserve] at hsweep
  booting _ := rfl

lemma Inv.relocateStep {r : Relocation} {st : Stage} (hh : s.holder = some (r, st)) (now : ℕ) :
    Inv data home (s.relocateStep now r st) := by
  have hr : r.Ok cfg := hi.holder _ hh
  have hst (ha : Alive home s) : StageOk home s r st := ha.stage _ hh
  unfold State.relocateStep
  cases st with
  | copy =>
    dsimp only
    split
    · exact hi.released
    · rename_i f hf
      split_ifs with hlen
      · exact Inv.copied hserve hi hr hf hlen
      · exact hi.released
  | check =>
    dsimp only
    split
    · exact hi.advanced hserve hr hst
    · exact hi.released
  | append =>
    refine Inv.logged hserve hi hst fun x hx => ?_
    obtain rfl := some.inj hx
    exact ⟨rfl, hr⟩
  | fold =>
    dsimp only
    split
    · rename_i entries ht
      exact Inv.folded hserve hi hr hh ht
    · exact hi.released
  | purge => exact hi.advanced hserve hr hst
  | unlink =>
    dsimp only
    split_ifs
    · exact Inv.unlinked hserve hi hr hh
    · exact hi.released

lemma Inv.relocateEnd {r : Relocation} {st : Stage} (hh : s.holder = some (r, st)) (logged : Bool) :
    Inv data home { s with
      log := if logged ∧ st = .append then s.log ++ [State.refreshEvent cfg r] else s.log
      holder := none } := by
  split_ifs with hlog
  · refine Inv.logged hserve hi (fun ha => ?_) (by simp)
    obtain ⟨-, rfl⟩ := hlog
    exact ha.stage _ hh
  · exact hi.released

/-! ### Deletions -/

lemma Inv.doomed {t : State cfg} (hwhole : t.Whole data) (hevents : ∀ evt ∈ t.log, IsEvent cfg evt)
    (hwait : t.waiting = s.waiting)
    (hholder : t.holder = s.holder) (hsweep : t.sweeping = s.sweeping)
    (hdel : .delete cfg.id ∈ t.log) : Inv data home t where
  whole := hwhole
  events := hevents
  waiting := hwait ▸ hi.waiting
  holder := hholder ▸ hi.holder
  alive h := absurd hdel h
  dead _ h := by
    rw [hsweep, hserve] at h
    cases h
  booting h := by
    rw [hsweep, hserve] at h
    cases h

lemma Inv.logDelete (l : List Deletion) :
    Inv data home { s with log := s.log ++ [.delete cfg.id], deletions := l } := by
  refine Inv.doomed hserve hi hi.whole (fun evt hevt => ?_) rfl rfl rfl (by simp)
  rcases mem_append.mp hevt with hevt | hevt
  · exact hi.events evt hevt
  · exact .inl (mem_singleton.mp hevt)

lemma Inv.deleteStep {now i : ℕ} {d : Deletion} (hd : s.deletions[i]? = some d) :
    Inv data home (s.deleteStep now i d) := by
  have hset (ha : Alive home s) {x : Deletion}
      (hx : x.stage = .check ∨ x.stage = .append) :
      ∀ d' ∈ s.deletions.set i x, d'.stage = .check ∨ d'.stage = .append := by
    intro d' hd'
    rcases mem_or_eq_of_mem_set hd' with hd' | rfl
    · exact ha.deletions d' hd'
    · exact hx
  unfold State.deleteStep
  cases hstage : d.stage with
  | check =>
    dsimp only
    split
    · exact hi.setDeletions fun ha => hset ha (.inr rfl)
    · rename_i err herr
      refine hi.setDeletions fun ha => ?_
      -- the check of a sealed segment passes
      obtain ⟨p, ⟨e, hl, hs, -⟩, -⟩ := ha.entry
      simp [hl, validateDelete, hs] at herr
  | append => exact Inv.logDelete hserve hi _
  | fold =>
    have hdel := hi.durable_of_stage hd (by simp [hstage]) (by simp [hstage])
    exact Inv.doomed hserve hi hi.whole hi.events rfl rfl rfl hdel
  | unlink =>
    have hdel := hi.durable_of_stage hd (by simp [hstage]) (by simp [hstage])
    dsimp only
    split_ifs
    · exact Inv.doomed hserve hi hi.whole.unlink hi.events rfl rfl rfl hdel
    · exact Inv.doomed hserve hi hi.whole hi.events rfl rfl rfl hdel

lemma Inv.deleteEnd {i : ℕ} {d : Deletion} (logged : Bool) :
    Inv data home { s with
      log := if logged ∧ d.stage = .append then s.log ++ [.delete cfg.id] else s.log
      deletions := s.deletions.eraseIdx i } := by
  split_ifs
  · exact Inv.logDelete hserve hi _
  · exact hi.setDeletions fun ha d' hd' =>
      ha.deletions d' (mem_of_mem_eraseIdx hd')

lemma Inv.serving {a : Act} {t : State cfg} (hs : serving s a = some t) : Inv data home t := by
  cases a with
  | relocate now target =>
    obtain ⟨r, hr, rfl⟩ := map_eq_some_iff.mp hs
    exact hi.validated hr
  | lock i =>
    simp only [Relocate.serving] at hs
    split_ifs at hs
    obtain ⟨r, hr, rfl⟩ := map_eq_some_iff.mp hs
    exact hi.locked hserve hr
  | relocateStep now =>
    obtain ⟨⟨r, st⟩, hh, rfl⟩ := map_eq_some_iff.mp hs
    exact Inv.relocateStep hserve hi hh now
  | relocateEnd logged =>
    obtain ⟨⟨r, st⟩, hh, rfl⟩ := map_eq_some_iff.mp hs
    exact Inv.relocateEnd hserve hi hh logged
  | delete pool =>
    obtain rfl := some.inj hs
    refine hi.setDeletions fun ha d hd => ?_
    rcases mem_append.mp hd with hd | hd
    · exact ha.deletions d hd
    · obtain rfl := mem_singleton.mp hd
      exact .inl rfl
  | deleteStep now i =>
    obtain ⟨d, hd, rfl⟩ := map_eq_some_iff.mp hs
    exact Inv.deleteStep hserve hi hd
  | deleteEnd i logged =>
    obtain ⟨d, hd, rfl⟩ := map_eq_some_iff.mp hs
    exact Inv.deleteEnd hserve hi logged
  | writeback | crash | sweep | serve => cases hs

end Serving

/-! ### Boot -/

section Boot

variable {data : Bytes} {home : PoolId} {s : State cfg} (hi : Inv data home s)
  (hbase : SealedAt home (cfg.base.lookup cfg.id))
include hi hbase

lemma Inv.restart {now : ℕ} {lost : PoolId → ℕ} {t : State cfg}
    (hspare : Spares home s (.crash now lost)) (hs : s.restart now lost = some t) :
    Inv data home t := by
  unfold State.restart at hs
  split at hs
  · rename_i entries hrebuild
    obtain rfl := some.inj hs
    have hlookup := lookup_rebuild hrebuild cfg.id
    refine ⟨fun p o ho => ?_, hi.events, by simp, by simp, fun h => ?_, fun h _ => ?_, fun _ => rfl⟩
    · obtain rfl := mem_singleton.mp ho
      exact hi.whole p _ (left_mem s _ p)
    · have hsealed : SealedAt (durablePool home s) (entries.lookup cfg.id) := by
        rw [hlookup]
        exact entryAfter_sealed hi.events h hbase
      have hleft := isSome_left (hi.alive h).durable (hspare h)
      refine ⟨⟨_, hsealed, hleft⟩, hleft, by simp, by simp, ?_⟩
      rintro _ ⟨rfl⟩
      exact ⟨hsealed, fun p hp hnot => absurd hp hnot⟩
    · show Gone (entries.lookup cfg.id)
      rw [hlookup]
      exact entryAfter_gone hi.events (.inr ⟨hbase, h⟩)
  · cases hs

lemma Inv.restarts (now : ℕ) (lost : PoolId → ℕ) : (s.restart now lost).isSome := by
  obtain ⟨entries, h⟩ : ∃ r', rebuildFromEvents cfg.grace (s.log.map (now, ·)) .clean _ = .ok r' :=
    rebuild_isOk hi.events (.inl hbase)
  rw [State.restart, h]
  rfl

omit hbase in
/-- The sweep removes what is not on the recorded pool. -/
lemma Inv.sweepPool_cases {now : ℕ} {p : PoolId} {rest : List PoolId}
    (hsw : s.sweeping = some (p :: rest)) :
    s.sweepPool now p = s.setFile p none ∧ (.delete cfg.id ∉ s.log → durablePool home s ≠ p) ∨
      s.sweepPool now p = s ∧ (.delete cfg.id ∉ s.log → durablePool home s = p) := by
  by_cases hdel : .delete cfg.id ∈ s.log
  · unfold State.sweepPool
    dsimp only
    split_ifs
    · exact .inl ⟨rfl, fun h => absurd hdel h⟩
    · exact .inr ⟨rfl, fun h => absurd hdel h⟩
  · obtain ⟨e, hl, hs, hpool⟩ := ((hi.alive hdel).swept _ hsw).1
    have hget := Registry.get_of_live now hl (not_deleted_of_sealed hs)
    by_cases hp : durablePool home s = p
    · exact .inr ⟨by simp [State.sweepPool, hget, hs, hpool, State.isStartupResidue, hp],
        fun _ => hp⟩
    · exact .inl ⟨by simp [State.sweepPool, hget, hs, hpool, State.isStartupResidue, hp],
        fun _ => hp⟩

omit hbase in
lemma Inv.swept {now : ℕ} {p : PoolId} {rest : List PoolId} (hsw : s.sweeping = some (p :: rest)) :
    Inv data home { s.sweepPool now p with sweeping := some rest } := by
  have hidle : s.holder = none := hi.booting (by simp [hsw])
  have hdead (h : .delete cfg.id ∈ s.log) : Gone (s.entries.lookup cfg.id) :=
    hi.dead h (by simp [hsw])
  rcases hi.sweepPool_cases hsw with ⟨heq, hne⟩ | ⟨heq, hkept⟩
  · rw [heq]
    refine ⟨hi.whole.unlink, hi.events, hi.waiting, hi.holder, fun h => ?_, fun h _ => hdead h,
      fun _ => hidle⟩
    have ha := hi.alive h
    obtain ⟨hsealed, hclear⟩ := ha.swept _ hsw
    have hdurable : ((s.setFile p none).files (durablePool home s)).isSome :=
      isSome_setFile ha.durable fun heq => absurd heq (hne h)
    refine ⟨⟨_, hsealed, hdurable⟩, hdurable, by simp [State.setFile, hidle], ha.deletions, ?_⟩
    rintro _ ⟨rfl⟩
    refine ⟨hsealed, fun q hq hnot hqd => (files_setFile s q p none).trans ?_⟩
    split_ifs with hqp
    · rfl
    · exact hclear q hq (by simp [hqp, hnot]) hqd
  · rw [heq]
    refine ⟨hi.whole, hi.events, hi.waiting, hi.holder, fun h => ?_, fun h _ => hdead h,
      fun _ => hidle⟩
    have ha := hi.alive h
    obtain ⟨hsealed, hclear⟩ := ha.swept _ hsw
    refine ⟨ha.entry, ha.durable, by simp [hidle], ha.deletions, ?_⟩
    rintro _ ⟨rfl⟩
    have hout (q : PoolId) (hnot : q ∉ rest) (hqd : q ≠ durablePool home s) : q ∉ p :: rest :=
      fun hq => (mem_cons.mp hq).elim (fun h' => hqd (h'.trans (hkept h).symm)) hnot
    exact ⟨hsealed, fun q hq hnot hqd => hclear q hq (hout q hnot hqd) hqd⟩

end Boot

lemma mayHave_writeback (s : State cfg) (p q : PoolId) :
    { s with undone := Function.update s.undone p [] }.mayHave q ⊆ s.mayHave q := by
  refine cons_subset_cons _ ?_
  by_cases hq : q = p <;> simp [hq]

lemma Inv.writtenBack {data : Bytes} {home : PoolId} {s : State cfg} (hi : Inv data home s)
    (p : PoolId) : Inv data home { s with undone := Function.update s.undone p [] } :=
  { hi with
    whole := fun q o ho => hi.whole q o (mayHave_writeback s p q ho)
    alive := fun h => { hi.alive h with } }

lemma Inv.served {data : Bytes} {home : PoolId} {s : State cfg} (hi : Inv data home s) :
    Inv data home { s with sweeping := none } :=
  { hi with
    alive := fun h => { hi.alive h with swept := by simp }
    dead := fun _ h => by cases h
    booting := fun h => by cases h }

theorem Inv.step {data : Bytes} {home : PoolId} {s t : State cfg} {a : Act}
    (hbase : SealedAt home (cfg.base.lookup cfg.id)) (hi : Inv data home s)
    (hspare : Spares home s a) (hs : step s a = some t) : Inv data home t := by
  have hother (h : (if s.sweeping.isNone then Relocate.serving s a else none) = some t) :
      Inv data home t := by
    split_ifs at h with hserve
    exact Inv.serving (isNone_iff_eq_none.mp hserve) hi h
  cases a with
  | writeback p =>
    obtain rfl := some.inj hs
    exact hi.writtenBack p
  | crash now lost => exact hi.restart hbase hspare hs
  | sweep now =>
    simp only [Relocate.step] at hs
    split at hs
    · rename_i p rest hsw
      obtain rfl := some.inj hs
      exact hi.swept hsw
    · cases hs
  | serve =>
    simp only [Relocate.step] at hs
    split_ifs at hs
    obtain rfl := some.inj hs
    exact hi.served
  | relocate | lock | relocateStep | relocateEnd | delete | deleteStep | deleteEnd =>
    exact hother hs

/-! ### Runs -/

/-- The node can start again, and if the segment is sealed after a start with its sweep, the
recorded pool has the sealed data and no other pool has a file. -/
structure CrashSafe (s : State cfg) : Prop where
  restarts : ∀ now lost, (s.restart now lost).isSome
  recovered : s.sweeping = some [] → ∀ now e, s.entries.get now cfg.id = some e →
    e.state = .sealed → Holds data s e.metadata.poolId ∧
      ∀ p, p ≠ e.metadata.poolId → s.files p = none

/-- A sealed segment with its file on the recorded pool, and all directories on disk. Files of
earlier moves may lie on other pools. -/
structure AtRest (s : State cfg) : Prop where
  base : SealedAt home (cfg.base.lookup cfg.id)
  entry : SealedAt home (s.entries.lookup cfg.id)
  file : (s.files home).isSome
  whole : s.Whole data
  undone : ∀ p, s.undone p = []
  log : s.log = []
  waiting : s.waiting = []
  holder : s.holder = none
  deletions : s.deletions = []
  sweeping : s.sweeping = none

lemma AtRest.durablePool {data : Bytes} {home : PoolId} {s : State cfg} (h : AtRest data home s) :
    durablePool home s = home := by
  rw [Relocate.durablePool, h.log]
  rfl

lemma AtRest.inv {data : Bytes} {home : PoolId} {s : State cfg} (h : AtRest data home s) :
    Inv data home s := by
  refine ⟨h.whole, by simp [h.log], by simp [h.waiting], by simp [h.holder], fun _ => ?_,
    by simp [h.log], by simp [h.holder]⟩
  exact ⟨⟨home, h.entry, h.file⟩, h.durablePool.symm ▸ h.file, by simp [h.holder],
    by simp [h.deletions], by simp [h.sweeping]⟩

/-- When a refresh reaches the log, the directory with its copy is on disk. -/
def CopyOnDisk (s : State cfg) : Act → Prop
  | .relocateStep _ => ∀ h ∈ s.holder, h.2 = .append → s.undone h.1.target = []
  | .relocateEnd logged =>
    logged = true → ∀ h ∈ s.holder, h.2 = .append → s.undone h.1.target = []
  | _ => True

/-- No power loss leaves the recorded pool without a file. -/
def Lasting (home : PoolId) (s : State cfg) : Prop :=
  .delete cfg.id ∉ s.log → none ∉ s.mayHave (durablePool home s)

section Lasting

variable {data : Bytes} {home : PoolId} {s t : State cfg} (hl : Lasting home s)

include hl

lemma Lasting.of_subset (hlog : t.log = s.log) (hmay : ∀ p, t.mayHave p ⊆ s.mayHave p) :
    Lasting home t := by
  intro h hnone
  rw [hlog] at h
  rw [durablePool, hlog] at hnone
  exact hl h (hmay _ hnone)

lemma Lasting.setFile {q : PoolId} {o : Option (DatFile cfg.blake3)}
    (ho : .delete cfg.id ∉ s.log → durablePool home s = q → o.isSome) :
    Lasting home (s.setFile q o) := by
  intro h hnone
  change none ∈ (s.setFile q o).mayHave (durablePool home s) at hnone
  rw [mayHave_setFile] at hnone
  split_ifs at hnone with hq
  · rcases mem_cons.mp hnone with rfl | hold
    · cases ho h hq
    · exact hl h hold
  · exact hl h hnone

omit hl in
lemma lasting_logged {r : Relocation} {h : Option (Relocation × Stage)}
    (hfile : .delete cfg.id ∉ s.log → (s.files r.target).isSome) (hdisk : s.undone r.target = []) :
    Lasting home { s with log := s.log ++ [State.refreshEvent cfg r], holder := h } := by
  intro hdel hnone
  have hpool : durablePool home
      { s with log := s.log ++ [State.refreshEvent cfg r], holder := h } = r.target :=
    lastPool_append_refresh s.log home r
  rw [hpool, State.mayHave, hdisk] at hnone
  have hsome := hfile fun hmem => hdel (mem_append_left _ hmem)
  rw [← mem_singleton.mp hnone] at hsome
  cases hsome

lemma Lasting.relocateStep (hi : Inv data home s) {r : Relocation} {st : Stage}
    (hh : s.holder = some (r, st)) (hdisk : st = .append → s.undone r.target = []) (now : ℕ) :
    Lasting home (s.relocateStep now r st) := by
  have hstage (h : .delete cfg.id ∉ s.log) : StageOk home s r st := (hi.alive h).stage _ hh
  unfold State.relocateStep
  cases st with
  | copy =>
    dsimp only
    split
    · exact hl
    · split_ifs
      · exact hl.setFile fun _ _ => rfl
      · exact hl
  | check => dsimp only; split <;> exact hl
  | append => exact lasting_logged hstage (hdisk rfl)
  | fold => dsimp only; split <;> exact hl
  | purge => exact hl
  | unlink =>
    dsimp only
    split_ifs
    · -- the source is not the recorded pool, which is the target
      exact hl.setFile fun h heq => absurd (heq.symm.trans (hstage h).1) (hi.holder _ hh).1
    · exact hl

lemma Lasting.step {a : Act} (hi : Inv data home s) (hdisk : CopyOnDisk s a)
    (hs : Relocate.step s a = some t) : Lasting home t := by
  have hserving (h : (if s.sweeping.isNone then Relocate.serving s a else none) = some t) :
      Relocate.serving s a = some t := by
    split_ifs at h
    exact h
  cases a with
  | relocate now target =>
    obtain ⟨r, -, rfl⟩ := map_eq_some_iff.mp (hserving hs)
    exact hl
  | lock i =>
    have hs := hserving hs
    simp only [Relocate.serving] at hs
    split_ifs at hs
    obtain ⟨r, -, rfl⟩ := map_eq_some_iff.mp hs
    exact hl
  | relocateStep now =>
    obtain ⟨⟨r, st⟩, hh, rfl⟩ := map_eq_some_iff.mp (hserving hs)
    exact hl.relocateStep hi hh (hdisk _ hh) now
  | relocateEnd logged =>
    obtain ⟨⟨r, st⟩, hh, rfl⟩ := map_eq_some_iff.mp (hserving hs)
    dsimp only
    split_ifs with hlog
    · obtain ⟨rfl, rfl⟩ := hlog
      exact lasting_logged (fun h => (hi.alive h).stage _ hh) (hdisk rfl _ hh rfl)
    · exact hl
  | delete pool =>
    obtain rfl := some.inj (hserving hs)
    exact hl
  | deleteStep now i =>
    obtain ⟨d, hd, rfl⟩ := map_eq_some_iff.mp (hserving hs)
    unfold State.deleteStep
    cases hstage : d.stage with
    | check => dsimp only; split <;> exact hl
    | append => exact fun h => absurd (mem_append_right _ mem_cons_self) h
    | fold => exact hl
    | unlink =>
      have hdel := hi.durable_of_stage hd (by simp [hstage]) (by simp [hstage])
      dsimp only
      split_ifs <;> exact fun h => absurd hdel h
  | deleteEnd i logged =>
    obtain ⟨d, -, rfl⟩ := map_eq_some_iff.mp (hserving hs)
    split_ifs
    · exact fun h => absurd (mem_append_right _ mem_cons_self) h
    · exact hl
  | writeback p =>
    obtain rfl := some.inj hs
    exact hl.of_subset rfl fun q => mayHave_writeback s p q
  | crash now lost =>
    simp only [Relocate.step, State.restart] at hs
    split at hs
    · obtain rfl := some.inj hs
      exact hl.of_subset rfl fun p => cons_subset.mpr ⟨left_mem s _ p, nil_subset _⟩
    · cases hs
  | sweep now =>
    simp only [Relocate.step] at hs
    split at hs
    · rename_i p rest hsw
      obtain rfl := some.inj hs
      rcases hi.sweepPool_cases hsw with ⟨heq, hne⟩ | ⟨heq, -⟩
      · rw [heq]
        exact hl.setFile fun h heq => absurd heq (hne h)
      · rw [heq]
        exact hl
    · cases hs
  | serve =>
    simp only [Relocate.step] at hs
    split_ifs at hs
    obtain rfl := some.inj hs
    exact hl

end Lasting

/-- Segment 7, sealed on pool 1. -/
def sampleEntry : LifecycleEntry :=
  .new .sealed { reservedMetadata 7 .standard 0 0 with poolId := 1 }

/-- A node with three data pools. -/
def node : Config where
  blake3 := prefixHash
  direct := false
  id := 7
  grace := 10
  pools := [1, 2, 3]
  base := AList.singleton 7 sampleEntry

lemma three_bytes_fit : ([1, 2, 3] : Bytes).length < 2 ^ 32 := by decide

def sealedOnOne : State node where
  files := Function.update (fun _ => none) 1
    (some (v1File prefixHash false [1, 2, 3] three_bytes_fit))
  undone := fun _ => []
  entries := AList.singleton 7 sampleEntry
  log := []
  waiting := []
  holder := none
  deletions := []
  sweeping := none

/-- Two relocations read pool 1 as their source. The first moves the segment to pool 2; the second
then copies it from there to pool 3 and is cut off after its commit. -/
def sampleMoves (lost : PoolId → ℕ) : List Act :=
  [.relocate 0 2, .relocate 0 3, .lock 0] ++ List.replicate 6 (.relocateStep 0) ++ [.lock 0] ++
    List.replicate 4 (.relocateStep 0) ++ [.crash 0 lost] ++ List.replicate 3 (.sweep 0)

/-- What the boot after the moves finds and leaves. -/
def moved (lost : PoolId → ℕ) :
    Option (Option (List PoolId) × Option PoolId × List (Option Bytes)) :=
  (Runs.run step sealedOnOne (sampleMoves lost)).map fun s =>
    (s.sweeping, (s.entries.get 0 7).map (·.metadata.poolId),
      [1, 2, 3].map fun p => (s.files p).map (·.data))

instance (home : PoolId) (s : State cfg) : DecidablePred (Spares home s) := fun a => by
  cases a <;> unfold Spares <;> infer_instance

instance (s : State cfg) : DecidablePred (CopyOnDisk s) := fun a => by
  cases a <;> unfold CopyOnDisk <;> infer_instance

end OceanFs.Segment.Relocate
