import OceanFs.Segment.CheckpointEquivalence

/-!
The fold of the event log, segment by segment.

An event changes the entry of its own segment, so what a list of events makes of a registry is said
by what it makes of each entry. Only the seal of a deleted segment and a refused refresh stop the
fold.
-/

namespace OceanFs.Segment

open OceanFs.Core Coordinator

/-- What events do to the entry of a segment. -/
def entryAfter (grace now : ℕ) (id : SegmentId) (evs : List SegmentEvent)
    (o : Option LifecycleEntry) : Option LifecycleEntry :=
  evs.foldl (fun o evt => if evt.segmentId = id then (stepEntry grace now evt o).1 else o) o

section

variable {grace now : ℕ} {r r' : Registry} {evs : List SegmentEvent}

@[simp] lemma entryAfter_cons (id : SegmentId) (evt : SegmentEvent) (o : Option LifecycleEntry) :
    entryAfter grace now id (evt :: evs) o = entryAfter grace now id evs
      (if evt.segmentId = id then (stepEntry grace now evt o).1 else o) := rfl

lemma lookup_foldEvent {evt : SegmentEvent} (h : foldEvent grace now evt r = .ok r')
    (id : SegmentId) : r'.lookup id =
      if evt.segmentId = id then (stepEntry grace now evt (r.lookup id)).1 else r.lookup id := by
  have hset : r' = r.set evt.segmentId (stepEntry grace now evt (r.lookup evt.segmentId)).1 := by
    unfold foldEvent at h
    split at h
    · rename_i hstep
      rw [hstep]
      exact (Except.ok.inj h).symm
    · rename_i hstep
      split_ifs at h
      rw [hstep]
      exact (Except.ok.inj h).symm
  rw [hset, Registry.lookup_set]
  by_cases hid : evt.segmentId = id
  · subst hid
    simp
  · simp [hid, Ne.symm hid]

lemma lookup_rebuild (h : rebuildFromEvents grace (evs.map (now, ·)) .clean r = .ok r')
    (id : SegmentId) : r'.lookup id = entryAfter grace now id evs (r.lookup id) := by
  induction evs generalizing r with
  | nil =>
    obtain rfl := Except.ok.inj h
    rfl
  | cons evt evs ih =>
    rw [List.map_cons, rebuildFromEvents] at h
    split at h
    · rename_i r₁ hfold
      rw [ih h, lookup_foldEvent hfold, entryAfter_cons]
    · simp at h

end

end OceanFs.Segment
