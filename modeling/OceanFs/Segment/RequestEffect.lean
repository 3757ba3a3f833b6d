import OceanFs.Segment.Coordinator

/-!
What an accepted request does to a segment, and that both the live fold and the fold of its
event do it.

A segment is seen without its deleted entries, without the time of its seal and the positions in
the data WAL, which the log does not carry, and with its list of contained objects as `norm`
makes it. Seen so, an accepted request has one effect. The fold of the request has it on the
live entry; the fold of its event has it on the rebuilt entry where the event says all that the
request does.
-/

namespace OceanFs.Segment

open OceanFs.Core Option

section

variable (norm : Option (List ContainedObject) → Option (List ContainedObject))

def LifecycleEntry.shown (e : LifecycleEntry) : LifecycleEntry :=
  { e with
    metadata := { e.metadata with sealedAt := none }
    dataWalPos := none
    containedObjects := norm e.containedObjects }

/-- What is seen of a segment. -/
def view (o : Option LifecycleEntry) : Option LifecycleEntry :=
  (o.filter (!·.isDeleted)).map (·.shown norm)

lemma view_some_of_not_deleted {e : LifecycleEntry} (h : e.isDeleted = false) :
    view norm (some e) = some (e.shown norm) := by
  simp [view, h]

lemma view_eq_none {o : Option LifecycleEntry} :
    view norm o = none ↔ ∀ e ∈ o, e.isDeleted = true := by
  cases o <;> simp [view]

lemma mem_recordPos {pos : DataWalPos} {o : Option LifecycleEntry} {e : LifecycleEntry}
    (h : e ∈ recordPos pos o) : ∃ e₀ ∈ o, ∃ p, e = { e₀ with dataWalPos := p } := by
  obtain ⟨e₀, he₀, rfl⟩ := map_eq_some_iff.mp h
  refine ⟨e₀, he₀, ?_⟩
  split_ifs
  · exact ⟨e₀.dataWalPos, rfl⟩
  · exact ⟨_, rfl⟩

lemma view_recordPos (pos : DataWalPos) (o : Option LifecycleEntry) :
    view norm (recordPos pos o) = view norm o := by
  cases o with
  | none => rfl
  | some e =>
    cases hd : e.isDeleted with
    | true => simp [recordPos, hd]
    | false =>
      simp only [recordPos, map_some, hd, Bool.false_eq_true, if_false]
      rw [view_some_of_not_deleted norm hd, view_some_of_not_deleted norm (by exact hd)]
      rfl

end

namespace Request

/-- The entries that a request is meant for. -/
def Admits : Request → Option LifecycleEntry → Prop
  | .reserve _ _ _ _, o => ∀ e ∈ o, e.state = .reserved
  | .sealWith _ _ _ _, o => ∃ e ∈ o, e.state = .reserved
  | .delete _, _ => True
  | .refresh _ _ _ _, o => ∃ e ∈ o, e.state = .sealed

def isReserve : Request → Bool
  | .reserve _ _ _ _ => true
  | _ => false

/-- What a request does to what is seen of its segment. -/
def effect (norm : Option (List ContainedObject) → Option (List ContainedObject)) :
    Request → Option LifecycleEntry → Option LifecycleEntry
  | .reserve id tier ecK ecM, v =>
      v <|> some ((LifecycleEntry.new .reserved (reservedMetadata id tier ecK ecM)).shown norm)
  | .sealWith _ m repackedFrom contained, v => v.map fun e =>
      { e with
        state := .sealed
        metadata := { m with sealedAt := none }
        repackedFrom := repackedFrom
        containedObjects := norm contained }
  | .delete _, _ => none
  | .refresh _ merkleRoot locations poolId, v => v.map fun e =>
      { e with metadata := { e.metadata with
        merkleRoot := merkleRoot
        storageLocations := locations.getD e.metadata.storageLocations
        poolId := poolId.getD e.metadata.poolId } }

/-- The event of a request says all that the request does: a seal names its own segment, brings
no holders, and its list of contained objects is seen as the record keeps it. -/
def LoggedInFull (C : Codecs)
    (norm : Option (List ContainedObject) → Option (List ContainedObject)) : Request → Prop
  | .sealWith id m _ contained => m.segmentId = id ∧ m.storageLocations = [] ∧
      norm (contained.filter fun l =>
        l ≠ [] ∧ (C.serialize l).length ≤ sealMaxContainedTailBytes) = norm contained
  | _ => True

end Request

variable {C : Codecs} {norm : Option (List ContainedObject) → Option (List ContainedObject)}
  {req : Request} {o o' : Option LifecycleEntry} {grace now : ℕ}

lemma attempt_delete (grace now : ℕ) (o : Option LifecycleEntry) :
    (∀ e ∈ (attempt now o (deleteEntry grace now)).1, e.isDeleted = true) ∧
      ∀ err ∈ (attempt now o (deleteEntry grace now)).2, tolerated err = true := by
  have hlive : ∀ e : LifecycleEntry, attempt now (some e) (deleteEntry grace now) =
      (if grace = 0 then none else some { e with state := .deleted (now + grace) }, none) →
      (∀ e' ∈ (attempt now (some e) (deleteEntry grace now)).1, e'.isDeleted = true) ∧
        ∀ err ∈ (attempt now (some e) (deleteEntry grace now)).2, tolerated err = true := by
    intro e h
    rw [h]
    refine ⟨fun e' he' => ?_, nofun⟩
    split_ifs at he' with hg
    · simp at he'
    · obtain rfl := some.inj he'
      rfl
  rcases o with _ | ⟨state, m, pos, rep, con⟩
  · exact ⟨nofun, fun err herr => some.inj herr ▸ rfl⟩
  · rcases state with _ | _ | evictAt
    · exact hlive _ rfl
    · exact hlive _ rfl
    · -- rejected, whether its grace is over or not
      have hun : unexpired now (some ⟨.deleted evictAt, m, pos, rep, con⟩) =
          if evictAt ≤ now then none else some ⟨.deleted evictAt, m, pos, rep, con⟩ := by
        by_cases he : evictAt ≤ now <;> simp [unexpired, LifecycleEntry.deletedExpired, he]
      rw [attempt, hun]
      split_ifs <;> simp [deleteEntry, LifecycleEntry.isDeleted, tolerated]

lemma view_attempt (h : req.Admits o) :
    view norm (attempt now o (req.apply grace now)).1 = req.effect norm (view norm o) ∧
      ∀ err ∈ (attempt now o (req.apply grace now)).2, tolerated err = true := by
  cases req with
  | reserve id tier ecK ecM =>
    rcases o with _ | ⟨state, m, pos, rep, con⟩
    · exact ⟨rfl, nofun⟩
    · obtain rfl : state = .reserved := h _ rfl
      exact ⟨rfl, nofun⟩
  | sealWith id m repackedFrom contained =>
    obtain ⟨⟨state, m', pos, rep, con⟩, rfl, rfl⟩ := h
    exact ⟨rfl, nofun⟩
  | delete id =>
    obtain ⟨hgone, herr⟩ := attempt_delete grace now o
    exact ⟨(view_eq_none norm).mpr hgone, herr⟩
  | refresh id root locations poolId =>
    obtain ⟨⟨state, m, pos, rep, con⟩, rfl, rfl⟩ := h
    exact ⟨rfl, nofun⟩

lemma view_stepEntry {r : Registry} {evt : SegmentEvent} (h : req.Admits o)
    (hevt : req.event r = some evt) (hfull : req.LoggedInFull C norm) :
    view norm (stepEntry grace now (evt.stored C) o).1 = req.effect norm (view norm o) ∧
      ∀ err ∈ (stepEntry grace now (evt.stored C) o).2, tolerated err = true := by
  cases req with
  | reserve id tier ecK ecM =>
    obtain rfl := some.inj hevt
    exact @view_attempt norm _ o grace now h
  | sealWith id m repackedFrom contained =>
    obtain ⟨root, hroot, rfl⟩ := map_eq_some_iff.mp hevt
    obtain ⟨⟨state, m', pos, rep, con⟩, rfl, rfl⟩ := h
    obtain ⟨hid, hholders, hcontained⟩ := hfull
    obtain ⟨id', ecK, ecM, tier, root', holders, sealedAt, poolId, total⟩ := m
    obtain rfl : id' = id := hid
    obtain rfl : holders = [] := hholders
    obtain rfl : root' = some root := hroot
    refine ⟨?_, nofun⟩
    rw [Request.effect, ← hcontained]
    rfl
  | delete id =>
    obtain rfl := some.inj hevt
    exact view_attempt h
  | refresh id root locations poolId =>
    obtain rfl := some.inj hevt
    exact @view_attempt norm _ o grace now h

lemma mem_of_view {v : LifecycleEntry} (h : view norm o = some v) :
    ∃ e ∈ o, e.isDeleted = false ∧ e.shown norm = v := by
  obtain ⟨e, he, hv⟩ := map_eq_some_iff.mp h
  obtain ⟨hmem, hd⟩ := filter_eq_some_iff.mp he
  exact ⟨e, hmem, by simpa using hd, hv⟩

lemma exists_of_view_eq {e : LifecycleEntry} (h : view norm o' = view norm (some e))
    (hd : e.isDeleted = false) : ∃ e' ∈ o', e'.state = e.state := by
  rw [view_some_of_not_deleted norm hd] at h
  obtain ⟨e', he', -, hs⟩ := mem_of_view h
  have hstate : (e'.shown norm).state = (e.shown norm).state := by rw [hs]
  exact ⟨e', he', hstate⟩

lemma Request.Admits.of_view (h : req.Admits o) (hview : view norm o' = view norm o)
    (hdel : req.isReserve = true → ∀ e ∈ o', e.isDeleted = false) : req.Admits o' := by
  cases req with
  | reserve id tier ecK ecM =>
    rintro e' rfl
    obtain ⟨e, he, hs⟩ := exists_of_view_eq hview.symm (hdel rfl e' rfl)
    rw [← hs]
    exact h e he
  | sealWith id m repackedFrom contained =>
    obtain ⟨e, rfl, hs⟩ := h
    obtain ⟨e', he', hs'⟩ := exists_of_view_eq hview (by simp [LifecycleEntry.isDeleted, hs])
    exact ⟨e', he', hs'.trans hs⟩
  | delete id => trivial
  | refresh id root locations poolId =>
    obtain ⟨e, rfl, hs⟩ := h
    obtain ⟨e', he', hs'⟩ := exists_of_view_eq hview (by simp [LifecycleEntry.isDeleted, hs])
    exact ⟨e', he', hs'.trans hs⟩

/-! ### Where deleted entries come from -/

lemma Request.Admits.eq_delete (h : req.Admits o) (heff : req.effect norm (view norm o) = none) :
    ∃ id, req = .delete id := by
  cases req with
  | reserve id tier ecK ecM => cases hv : view norm o <;> simp [Request.effect, hv] at heff
  | sealWith id m repackedFrom contained =>
    obtain ⟨e, rfl, hs⟩ := h
    have hv := view_some_of_not_deleted norm (e := e) (by simp [LifecycleEntry.isDeleted, hs])
    simp [Request.effect, hv] at heff
  | delete id => exact ⟨id, rfl⟩
  | refresh id root locations poolId =>
    obtain ⟨e, rfl, hs⟩ := h
    have hv := view_some_of_not_deleted norm (e := e) (by simp [LifecycleEntry.isDeleted, hs])
    simp [Request.effect, hv] at heff

lemma mem_attempt_delete {e : LifecycleEntry} (he : e ∈ (attempt now o (deleteEntry 0 now)).1) :
    e ∈ o := by
  unfold attempt at he
  split at he
  · rename_i o' hok
    cases hu : unexpired now o with
    | none => simp [deleteEntry, hu] at hok
    | some e' =>
      rw [hu] at hok
      simp only [deleteEntry] at hok
      split at hok <;> simp only [reduceCtorEq, Except.ok.injEq, if_true] at hok
      simp [← hok] at he
  · exact he

/-! ### Registries -/

variable {r r' : Registry} {evt : SegmentEvent}

lemma foldEvent_of_tolerated
    (h : ∀ err ∈ (stepEntry grace now evt (r.lookup evt.segmentId)).2, tolerated err = true) :
    foldEvent grace now evt r =
      .ok (r.set evt.segmentId (stepEntry grace now evt (r.lookup evt.segmentId)).1) := by
  unfold foldEvent
  split
  · rename_i o ho
    rw [ho]
  · rename_i o err ho
    rw [ho] at h
    rw [if_pos (h err rfl), ho]

lemma segmentId_stored (evt : SegmentEvent) : (evt.stored C).segmentId = evt.segmentId := by
  rcases evt with evt | evt | id | evt <;> rfl

lemma Request.segmentId_event (h : req.event r = some evt) :
    evt.segmentId = req.segmentId := by
  cases req with
  | sealWith id m repackedFrom contained =>
    obtain ⟨root, -, rfl⟩ := map_eq_some_iff.mp h
    rfl
  | reserve id tier ecK ecM => rw [← some.inj h]; rfl
  | delete id => rw [← some.inj h]; rfl
  | refresh id root locations poolId => rw [← some.inj h]; rfl

lemma lookup_foldRequest (req : Request) (id : SegmentId) :
    (Coordinator.foldRequest grace now req r).lookup id =
      if id = req.segmentId then (attempt now (r.lookup id) (req.apply grace now)).1
      else r.lookup id := by
  have hget : r.get now req.segmentId = unexpired now (r.lookup req.segmentId) := rfl
  rw [Coordinator.foldRequest, Registry.transition, attempt, hget]
  by_cases hid : id = req.segmentId
  · subst hid
    rw [if_pos rfl]
    cases req.apply grace now (unexpired now (r.lookup req.segmentId)) with
    | error e => rfl
    | ok o => exact (Registry.lookup_set r _ _ o).trans (if_pos rfl)
  · rw [if_neg hid]
    cases req.apply grace now (unexpired now (r.lookup req.segmentId)) with
    | error e => rfl
    | ok o => exact (Registry.lookup_set r _ _ o).trans (if_neg hid)

lemma Request.admits_of_validate (h : req.validate now r = .ok ())
    (hdel : req.isReserve = true → ∀ e ∈ r.lookup req.segmentId, e.isDeleted = false) :
    req.Admits (r.lookup req.segmentId) := by
  cases req with
  | reserve id tier ecK ecM =>
    intro e he
    have hl : r.lookup id = some e := he
    have hd := hdel rfl e he
    rw [Request.validate, hl] at h
    rcases e with ⟨state, m, pos, rep, con⟩
    rcases state with _ | _ | evictAt
    · rfl
    · simp [validateReserve, Except.mapError] at h
    · simp [LifecycleEntry.isDeleted] at hd
  | sealWith id m repackedFrom contained =>
    rw [Request.validate] at h
    cases hl : r.lookup id with
    | none => simp [hl, validateSeal, Except.mapError, bind, Except.bind] at h
    | some e =>
      rw [hl] at h
      rcases e with ⟨state, m, pos, rep, con⟩
      rcases state with _ | _ | evictAt
      · exact ⟨_, hl, rfl⟩
      · simp [validateSeal, Except.mapError, bind, Except.bind] at h
      · simp [validateSeal, Except.mapError, bind, Except.bind] at h
  | delete id => trivial
  | refresh id root locations poolId =>
    rw [Request.validate] at h
    cases hg : r.get now id with
    | none => simp [hg, validateRefresh, Except.mapError] at h
    | some e =>
      rw [hg] at h
      refine ⟨e, Registry.lookup_of_get hg, ?_⟩
      rcases e with ⟨state, m, pos, rep, con⟩
      rcases state with _ | _ | evictAt
      · simp [validateRefresh, Except.mapError] at h
      · rfl
      · simp [validateRefresh, Except.mapError] at h

lemma Request.Admits.recordPos (h : req.Admits o) (pos : DataWalPos) :
    req.Admits (recordPos pos o) := by
  have hkept : ∀ e ∈ o, ∃ e' ∈ Segment.recordPos pos o, e'.state = e.state := by
    rintro e rfl
    obtain ⟨e₀, he₀, p, heq⟩ := @mem_recordPos pos (some e) _ rfl
    exact ⟨_, rfl, by rw [heq, some.inj he₀]⟩
  cases req with
  | reserve id tier ecK ecM =>
    intro e' he'
    obtain ⟨e, he, p, rfl⟩ := mem_recordPos he'
    exact h e he
  | sealWith id m repackedFrom contained =>
    obtain ⟨e, he, hs⟩ := h
    obtain ⟨e', he', hs'⟩ := hkept e he
    exact ⟨e', he', hs'.trans hs⟩
  | delete id => trivial
  | refresh id root locations poolId =>
    obtain ⟨e, he, hs⟩ := h
    obtain ⟨e', he', hs'⟩ := hkept e he
    exact ⟨e', he', hs'.trans hs⟩

/-- A registry has taken a request: its segment is seen with the effect of the request, no other
one has changed, and a deleted entry was there or was made by a delete with a grace. -/
structure Took (norm : Option (List ContainedObject) → Option (List ContainedObject)) (grace : ℕ)
    (req : Request) (r r' : Registry) : Prop where
  seen : view norm (r'.lookup req.segmentId) = req.effect norm (view norm (r.lookup req.segmentId))
  others : ∀ id ≠ req.segmentId, r'.lookup id = r.lookup id
  deleted : ∀ e ∈ r'.lookup req.segmentId, e.isDeleted = true →
    ∃ id, req = .delete id ∧ (grace ≠ 0 ∨ e ∈ r.lookup id)

lemma took_of_seen (h : req.Admits (r.lookup req.segmentId))
    (hseen : view norm (r'.lookup req.segmentId) =
      req.effect norm (view norm (r.lookup req.segmentId)))
    (hothers : ∀ id ≠ req.segmentId, r'.lookup id = r.lookup id)
    (hdelete : ∀ id, req = .delete id →
      r'.lookup id = (attempt now (r.lookup id) (deleteEntry grace now)).1) :
    Took norm grace req r r' where
  seen := hseen
  others := hothers
  deleted e he hd := by
    have hgone : view norm (r'.lookup req.segmentId) = none := by
      rw [view_eq_none]
      rintro e' he'
      rwa [mem_unique he' he]
    obtain ⟨id, rfl⟩ := h.eq_delete (hseen.symm.trans hgone)
    refine ⟨id, rfl, or_iff_not_imp_left.mpr fun hg => ?_⟩
    rw [Request.segmentId, hdelete id rfl, not_not.mp hg] at he
    exact mem_attempt_delete he

lemma took_foldRequest (h : req.Admits (r.lookup req.segmentId)) :
    Took norm grace req r (Coordinator.foldRequest grace now req r) := by
  refine @took_of_seen norm req grace now r _ h ?_ ?_ ?_
  · rw [lookup_foldRequest, if_pos rfl]
    exact (view_attempt h).1
  · intro id hid
    rw [lookup_foldRequest, if_neg hid]
  · rintro id rfl
    exact (lookup_foldRequest _ id).trans (if_pos rfl)

lemma took_foldEvent {r₀ : Registry} (h : req.Admits (r.lookup req.segmentId))
    (hevt : req.event r₀ = some evt) (hfull : req.LoggedInFull C norm) :
    ∃ r', foldEvent grace now (evt.stored C) r = .ok r' ∧ Took norm grace req r r' := by
  have hid : (evt.stored C).segmentId = req.segmentId :=
    (segmentId_stored evt).trans (Request.segmentId_event hevt)
  obtain ⟨hseen, herr⟩ := @view_stepEntry C norm req _ grace now r₀ evt h hevt hfull
  refine ⟨_, foldEvent_of_tolerated (by rwa [hid]), @took_of_seen norm req grace now r _ h ?_ ?_ ?_⟩
  · rw [hid, Registry.lookup_set, if_pos rfl]
    exact hseen
  · intro id hne
    rw [hid, Registry.lookup_set, if_neg hne]
  · rintro id rfl
    obtain rfl := some.inj hevt
    exact (Registry.lookup_set r _ _ _).trans (if_pos rfl)

end OceanFs.Segment
