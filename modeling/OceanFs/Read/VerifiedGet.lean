import OceanFs.Read.Coordinator

/-!
What a read that reports a verified hash has checked.

Only the assembler of chunks compares a hash. `get` reports a verified hash whenever the row it
returns has one, so inline data and the empty body of a metadata request are reported as verified
without a check. The answers and what the chunks are found to be are arbitrary here; `Read.get` is
the case in which they come from the nodes.
-/

namespace OceanFs.Read.VerifiedGet

open OceanFs.Core Grpc Write List Option

/-! ### What a read meets -/

structure Request where
  metadataOnly : Bool
  localOnly : Bool

/-- What the metadata store says of the key. -/
inductive Lookup
  | noStore
  | failed
  | row (r : Option ObjectMetadata)

/-- The node, its row and what the other replicas would answer; an answer may be anything. -/
structure Setting where
  blake3 : Bytes → HashOutput
  servesRequests : Bool
  self : NodeId
  replicaSet : List NodeId
  /-- The connection pool and the membership view are there. -/
  networked : Bool
  lookup : Lookup
  answer : NodeId → Option GetObjectMetadataResponse

/-- How a read goes: which answers arrive and in which order, what the chunks of a row are found to
be at the first attempt and after a repair, and whether the repaired row is stored. -/
structure Course where
  arrivals : List NodeId
  fetch : ObjectMetadata → Except ReadError (List Bytes)
  repairAnswer : NodeId → Option GetObjectMetadataResponse
  repairArrivals : List NodeId
  repairStored : Bool
  refetch : ObjectMetadata → Except ReadError (List Bytes)
  nowMs : ℤ

structure GetResult where
  data : Bytes
  metadata : ObjectMetadata
  hash : HashOutput

structure ReadResult where
  data : Bytes
  metadata : ObjectMetadata
  hashVerified : Bool

section

variable (s : Setting) (c : Course)

/-- The other replicas whose answer arrives. -/
def arriving (arrivals : List NodeId) : List NodeId :=
  arrivals.filter fun t => t ∈ s.replicaSet && t ≠ s.self

/-! ### The read -/

def compareStep (best : Hlc × Option GetObjectMetadataResponse) (t : NodeId) :
    Hlc × Option GetObjectMetadataResponse :=
  (s.answer t).elim best (compareAnswer s.self best t)

def compareWithQuorum (k : ObjectKey) (localMeta : ObjectMetadata) : Option ObjectMetadata :=
  if !s.networked || s.replicaSet.length ≤ 1 then none
  else ((arriving s c.arrivals).foldl (compareStep s) (localMeta.hlc, none)).2.map fun resp =>
    objectMetadataFromResponse resp k c.nowMs

def repairDanglingMetadata (k : ObjectKey) (m : ObjectMetadata) : Option ObjectMetadata :=
  match s.networked, s.lookup with
  | true, .row _ =>
    match ((arriving s c.repairArrivals).filterMap c.repairAnswer).find? (repoints k m) with
    | none => none
    | some resp =>
      if c.repairStored then some (objectMetadataFromResponse resp k m.createdAt) else none
  | _, _ => none

/-- The local row; without a metadata store it is an empty one. -/
def localRow (k : ObjectKey) : Option ObjectMetadata :=
  match s.lookup with
  | .failed => none
  | .row r => r
  | .noStore => some ⟨k, 0, none, [], none, 0, Hlc.zero⟩

def lookupMetadata (b : BucketId) (k : ObjectKey) : Except ReadError ObjectMetadata :=
  match s.lookup, localRow s k with
  | .failed, _ => .error (.internal "metadata lookup")
  | _, none => .error (.notFound b k)
  | _, some m => .ok m

/-- The result for some data, with its hash. -/
def resultOf (data : Bytes) (m : ObjectMetadata) : GetResult := ⟨data, m, s.blake3 data⟩

/-- The segment-stored case: one retry after a repair, unless only local state may be read. -/
def readChunks (skipRemote : Bool) (k : ObjectKey) (m : ObjectMetadata) :
    Except ReadError GetResult :=
  match assemble s.blake3 m (c.fetch m) with
  | .ok data => .ok (resultOf s data m)
  | .error e =>
    match e, skipRemote with
    | .segmentUnavailable seg, false =>
      match repairDanglingMetadata s c k m with
      | none => .error (.segmentUnavailable seg)
      | some repaired =>
        match assemble s.blake3 repaired (c.refetch repaired) with
        | .ok data => .ok (resultOf s data repaired)
        | .error _ => .error (.segmentUnavailable seg)
    | e, _ => .error e

/-- The data of the row that a read goes on with. -/
def readRow (skipRemote : Bool) (b : BucketId) (k : ObjectKey) (m : ObjectMetadata) :
    Except ReadError GetResult :=
  match m.inlineData with
  | some inline => .ok (resultOf s inline m)
  | none =>
    if m.chunks ≠ [] then readChunks s c skipRemote k m
    else
      match s.lookup with
      | .noStore => .ok (resultOf s [] m)
      | _ => .error (.notFound b k)

/-- The local row, or the one that wins the comparison. -/
def chosenRow (req : Request) (k : ObjectKey) (localMeta : ObjectMetadata) : ObjectMetadata :=
  if req.localOnly then localMeta else (compareWithQuorum s c k localMeta).getD localMeta

def getObject (req : Request) (b : BucketId) (k : ObjectKey) : Except ReadError GetResult :=
  if !s.servesRequests then
    .error (.serviceUnavailable "node unavailable — metadata pool dead")
  else
    match lookupMetadata s b k with
    | .error e => .error e
    | .ok localMeta =>
      if req.metadataOnly then .ok ⟨[], localMeta, zeroHash⟩
      else readRow s c req.localOnly b k (chosenRow s c req k localMeta)

def get (req : Request) (b : BucketId) (k : ObjectKey) : Except ReadError ReadResult :=
  (getObject s c req b k).map fun r => ⟨r.data, r.metadata, r.metadata.blake3Hash.isSome⟩

end

/-! ### What is checked -/

/-- A result that is reported as verified has the stored hash, and so has any data of a row with a
hash. -/
structure Verified (blake3 : Bytes → HashOutput) (r : ReadResult) : Prop where
  reported : r.hashVerified = true → r.metadata.blake3Hash = some (blake3 r.data)
  stored : ∀ h, r.metadata.blake3Hash = some h → blake3 r.data = h

/-- What is returned of the row without a check has the row's hash: inline data, and the empty body
that a node without a metadata store gives for a row without any data. -/
structure RowSound (s : Setting) (m : ObjectMetadata) : Prop where
  inline : ∀ data, m.inlineData = some data → ∀ h, m.blake3Hash = some h → s.blake3 data = h
  empty : s.lookup = .noStore → m.inlineData = none → m.chunks = [] →
    ∀ h, m.blake3Hash = some h → s.blake3 [] = h

/-- The row of an answer that would win against the local one. -/
def CanWin (s : Setting) (localMeta : ObjectMetadata) (t : NodeId)
    (resp : GetObjectMetadataResponse) : Prop :=
  s.networked = true ∧ 1 < s.replicaSet.length ∧ t ∈ s.replicaSet ∧ t ≠ s.self ∧
    s.answer t = some resp ∧ ∃ hlc, remoteHlc resp = some hlc ∧
      acceptRemote localMeta.hlc hlc s.self t = true

/-- What must hold of the rows before the read: a metadata request is for a row without a hash, or
one with the hash of no data; other requests find sound rows, the local one and that of each answer
that can win. -/
def Checkable (s : Setting) (req : Request) (k : ObjectKey) : Prop :=
  s.servesRequests = true → ∀ localMeta, localRow s k = some localMeta →
    if req.metadataOnly then ∀ h, localMeta.blake3Hash = some h → s.blake3 [] = h
    else RowSound s localMeta ∧ (req.localOnly = false →
      ∀ t resp, CanWin s localMeta t resp →
        ∀ nowMs, RowSound s (objectMetadataFromResponse resp k nowMs))

variable {s : Setting} {c : Course} {k : ObjectKey} {m : ObjectMetadata}

lemma verified_of_stored {blake3 : Bytes → HashOutput} {data : Bytes} {m : ObjectMetadata}
    (h : ∀ stored, m.blake3Hash = some stored → blake3 data = stored) :
    Verified blake3 ⟨data, m, m.blake3Hash.isSome⟩ := by
  refine ⟨fun hsome => ?_, h⟩
  obtain ⟨stored, hstored⟩ := isSome_iff_exists.mp hsome
  rw [hstored, h stored hstored]

lemma assemble_verified {fetched : Except ReadError (List Bytes)} {data : Bytes}
    (hc : m.chunks ≠ []) (h : assemble s.blake3 m fetched = .ok data) :
    ∀ stored, m.blake3Hash = some stored → s.blake3 data = stored := by
  intro stored hstored
  cases fetched with
  | error e => cases (assemble_error _ hc e).symm.trans h
  | ok chunks =>
    rw [assemble_ok _ hc, Assembler.finalize] at h
    simp only [hstored] at h
    split_ifs at h with hcount hhash
    obtain rfl := Except.ok.inj h
    exact not_not.mp hhash

lemma repaired_chunks {repaired : ObjectMetadata}
    (h : repairDanglingMetadata s c k m = some repaired) : repaired.chunks ≠ [] := by
  unfold VerifiedGet.repairDanglingMetadata at h
  split at h
  · split at h
    · cases h
    · rename_i resp hfind
      split_ifs at h
      obtain rfl := some.inj h
      exact chunks_ne_nil_of_repoints (find?_some hfind)
  · cases h

lemma readChunks_verified {skipRemote : Bool} {r : GetResult} (hc : m.chunks ≠ [])
    (h : readChunks s c skipRemote k m = .ok r) :
    ∀ stored, r.metadata.blake3Hash = some stored → s.blake3 r.data = stored := by
  unfold VerifiedGet.readChunks at h
  split at h
  · rename_i data hdata
    obtain rfl := Except.ok.inj h
    exact assemble_verified hc hdata
  · split at h
    · split at h
      · cases h
      · rename_i repaired hrepaired
        split at h
        · rename_i data hdata
          obtain rfl := Except.ok.inj h
          exact assemble_verified (repaired_chunks hrepaired) hdata
        · cases h
    · cases h

/-! ### Winners -/

lemma acceptRemote_mono {a b remote : Hlc} {n t : NodeId} (hab : a ≤ b)
    (h : acceptRemote b remote n t = true) : acceptRemote a remote n t = true := by
  simp only [acceptRemote, Bool.or_eq_true, Bool.and_eq_true, decide_eq_true_eq] at h ⊢
  rcases h with hlt | ⟨rfl, hnode⟩
  · exact .inl (hab.trans_lt hlt)
  · rcases hab.lt_or_eq with hlt | rfl
    · exact .inl hlt
    · exact .inr ⟨rfl, hnode⟩

variable {localMeta : ObjectMetadata}

lemma foldl_compareStep {ts : List NodeId} {best : Hlc × Option GetObjectMetadataResponse}
    (hle : localMeta.hlc ≤ best.1)
    (hbest : ∀ resp ∈ best.2, ∃ t ∈ ts, ∃ hlc, s.answer t = some resp ∧
      remoteHlc resp = some hlc ∧ acceptRemote localMeta.hlc hlc s.self t = true)
    (rest : List NodeId) (hrest : rest ⊆ ts) :
    ∀ resp ∈ (rest.foldl (compareStep s) best).2, ∃ t ∈ ts, ∃ hlc, s.answer t = some resp ∧
      remoteHlc resp = some hlc ∧ acceptRemote localMeta.hlc hlc s.self t = true := by
  induction rest generalizing best with
  | nil => exact hbest
  | cons t rest ih =>
    obtain ⟨ht, hrest⟩ := cons_subset.mp hrest
    rw [foldl_cons]
    have hstep : localMeta.hlc ≤ (compareStep s best t).1 ∧
        ∀ resp ∈ (compareStep s best t).2, ∃ t ∈ ts, ∃ hlc, s.answer t = some resp ∧
          remoteHlc resp = some hlc ∧ acceptRemote localMeta.hlc hlc s.self t = true := by
      unfold VerifiedGet.compareStep
      rcases hresp : s.answer t with _ | resp
      · exact ⟨hle, hbest⟩
      · simp only [elim_some, compareAnswer]
        split
        · exact ⟨hle, hbest⟩
        · rename_i hlc hhlc
          split_ifs with haccept
          · have hlocal := acceptRemote_mono hle haccept
            refine ⟨?_, ?_⟩
            · simp only [acceptRemote, Bool.or_eq_true, Bool.and_eq_true, decide_eq_true_eq]
                at hlocal
              rcases hlocal with hlt | ⟨rfl, -⟩
              · exact hlt.le
              · exact le_rfl
            · rintro _ ⟨rfl⟩
              exact ⟨t, ht, hlc, hresp, hhlc, hlocal⟩
          · exact ⟨hle, hbest⟩
    exact ih hstep.1 hstep.2 hrest

lemma canWin_of_winner {localMeta winner : ObjectMetadata}
    (h : compareWithQuorum s c k localMeta = some winner) :
    ∃ t resp, CanWin s localMeta t resp ∧ winner = objectMetadataFromResponse resp k c.nowMs := by
  unfold VerifiedGet.compareWithQuorum at h
  split_ifs at h with hnet
  obtain ⟨resp, hresp, rfl⟩ := map_eq_some_iff.mp h
  have hstart : localMeta.hlc ≤ (localMeta.hlc, (none : Option GetObjectMetadataResponse)).1 :=
    le_rfl
  obtain ⟨t, ht, hlc, hanswer, hhlc, haccept⟩ :=
    foldl_compareStep hstart (by simp) _ (Subset.refl (arriving s c.arrivals)) resp hresp
  simp only [arriving, mem_filter, Bool.and_eq_true, decide_eq_true_eq] at ht
  simp only [Bool.or_eq_true, Bool.not_eq_true', decide_eq_true_eq, not_or, Bool.not_eq_false,
    not_le] at hnet
  exact ⟨t, resp, ⟨hnet.1, hnet.2, ht.2.1, ht.2.2, hanswer, hlc, hhlc, haccept⟩, rfl⟩

lemma winner_of_canWin {t : NodeId} {resp : GetObjectMetadataResponse}
    (h : CanWin s localMeta t resp) (hc : c.arrivals = [t]) :
    compareWithQuorum s c k localMeta = some (objectMetadataFromResponse resp k c.nowMs) := by
  obtain ⟨hnet, hlen, hmem, hself, hanswer, hlc, hhlc, haccept⟩ := h
  have hnot : ¬ (!s.networked || decide (s.replicaSet.length ≤ 1)) = true := by
    simp [hnet, hlen]
  have harriving : arriving s c.arrivals = [t] := by
    simp [arriving, hc, hmem, hself]
  rw [VerifiedGet.compareWithQuorum, if_neg hnot, harriving]
  simp [VerifiedGet.compareStep, compareAnswer, hanswer, hhlc, haccept]

/-! ### Reads -/

lemma lookupMetadata_eq_ok {b : BucketId} {localMeta : ObjectMetadata} :
    lookupMetadata s b k = .ok localMeta ↔ localRow s k = some localMeta := by
  unfold lookupMetadata
  cases hlookup : s.lookup with
  | failed => simp [localRow, hlookup]
  | noStore => cases hrow : localRow s k <;> simp
  | row o => cases hrow : localRow s k <;> simp

lemma readRow_verified {skipRemote : Bool} {b : BucketId} {r : GetResult} (hm : RowSound s m)
    (h : readRow s c skipRemote b k m = .ok r) :
    ∀ stored, r.metadata.blake3Hash = some stored → s.blake3 r.data = stored := by
  unfold readRow at h
  split at h
  · rename_i data hdata
    obtain rfl := Except.ok.inj h
    exact hm.inline data hdata
  · rename_i hinline
    split_ifs at h with hchunks
    · exact readChunks_verified hchunks h
    · split at h
      · rename_i hlookup
        obtain rfl := Except.ok.inj h
        exact hm.empty hlookup hinline (not_not.mp hchunks)
      · cases h

lemma rowSound_of_readRow {skipRemote : Bool} {b : BucketId}
    (h : ∀ r, readRow s c skipRemote b k m = .ok r →
      ∀ stored, r.metadata.blake3Hash = some stored → s.blake3 r.data = stored) : RowSound s m where
  inline data hdata := h (resultOf s data m) (by simp only [readRow, hdata])
  empty hlookup hinline hchunks :=
    h (resultOf s [] m) (by simp [readRow, hinline, hchunks, hlookup])

/-- A course in which these answers arrive and nothing else is found. -/
def courseOf (arrivals : List NodeId) (nowMs : ℤ) : Course where
  arrivals := arrivals
  fetch _ := .error .panicked
  repairAnswer _ := none
  repairArrivals := []
  repairStored := false
  refetch _ := .error .panicked
  nowMs := nowMs

variable {req : Request}

lemma getObject_eq_readRow {b : BucketId} {localMeta : ObjectMetadata}
    (hserves : s.servesRequests = true) (hrow : localRow s k = some localMeta)
    (hdata : req.metadataOnly = false) :
    getObject s c req b k = readRow s c req.localOnly b k (chosenRow s c req k localMeta) := by
  simp [getObject, hserves, lookupMetadata_eq_ok.mpr hrow, hdata]

lemma chosenRow_courseOf_nil {nowMs : ℤ} :
    chosenRow s (courseOf [] nowMs) req k localMeta = localMeta := by
  simp [chosenRow, VerifiedGet.compareWithQuorum, courseOf, arriving]

lemma chosenRow_courseOf {t : NodeId} {resp : GetObjectMetadataResponse} {nowMs : ℤ}
    (hreq : req.localOnly = false) (hwin : CanWin s localMeta t resp) :
    chosenRow s (courseOf [t] nowMs) req k localMeta = objectMetadataFromResponse resp k nowMs := by
  have hwinner : compareWithQuorum s (courseOf [t] nowMs) k localMeta =
      some (objectMetadataFromResponse resp k nowMs) := winner_of_canWin hwin rfl
  simp [chosenRow, hreq, hwinner]

lemma rowSound_chosenRow (hlocal : RowSound s localMeta)
    (hremote : req.localOnly = false → ∀ t resp, CanWin s localMeta t resp →
      ∀ nowMs, RowSound s (objectMetadataFromResponse resp k nowMs)) :
    RowSound s (chosenRow s c req k localMeta) := by
  unfold chosenRow
  split_ifs with hreq
  · exact hlocal
  · cases hwinner : compareWithQuorum s c k localMeta with
    | none => exact hlocal
    | some winner =>
      obtain ⟨t, resp, hwin, rfl⟩ := canWin_of_winner hwinner
      exact hremote (by simpa using hreq) t resp hwin c.nowMs

lemma reads_verified_iff_stored {b : BucketId} :
    (∀ r, get s c req b k = .ok r → Verified s.blake3 r) ↔
      ∀ r, getObject s c req b k = .ok r →
        ∀ stored, r.metadata.blake3Hash = some stored → s.blake3 r.data = stored := by
  unfold VerifiedGet.get
  cases getObject s c req b k with
  | error e => simp [Except.map]
  | ok found =>
    constructor
    · rintro h _ ⟨rfl⟩
      exact (h _ rfl).stored
    · rintro h _ ⟨rfl⟩
      exact verified_of_stored (h found rfl)

/-- **Every read is verified exactly if the rows are checkable before it.** -/
theorem reads_verified_iff (s : Setting) (req : Request) (b : BucketId) (k : ObjectKey) :
    (∀ c r, get s c req b k = .ok r → Verified s.blake3 r) ↔ Checkable s req k := by
  simp only [reads_verified_iff_stored]
  constructor
  · intro h hserves localMeta hrow
    split_ifs with hmeta
    · intro stored hstored
      refine h (courseOf [] 0) ⟨[], localMeta, zeroHash⟩ ?_ stored hstored
      simp [getObject, hserves, lookupMetadata_eq_ok.mpr hrow, hmeta]
    · have hread : ∀ c, RowSound s (chosenRow s c req k localMeta) := by
        intro c
        apply rowSound_of_readRow
        rw [← getObject_eq_readRow hserves hrow (by simpa using hmeta)]
        exact h c
      refine ⟨?_, fun hreq t resp hwin nowMs => ?_⟩
      · have hlocal := hread (courseOf [] 0)
        rwa [chosenRow_courseOf_nil] at hlocal
      · have hwinner := hread (courseOf [t] nowMs)
        rwa [chosenRow_courseOf hreq hwin] at hwinner
  · intro h c r hr
    by_cases hserves : s.servesRequests = true
    · cases hrow : localRow s k with
      | none =>
        cases hlookup : lookupMetadata s b k with
        | error e => simp [getObject, hserves, hlookup] at hr
        | ok localMeta => simp [lookupMetadata_eq_ok.mp hlookup] at hrow
      | some localMeta =>
        have hcheck := h hserves localMeta hrow
        by_cases hmeta : req.metadataOnly = true
        · rw [if_pos hmeta] at hcheck
          simp only [getObject, hserves, lookupMetadata_eq_ok.mpr hrow, hmeta, Bool.not_true,
            Bool.false_eq_true, if_false, if_true] at hr
          obtain rfl := Except.ok.inj hr
          exact hcheck
        · rw [if_neg hmeta] at hcheck
          rw [getObject_eq_readRow hserves hrow (by simpa using hmeta)] at hr
          exact readRow_verified (rowSound_chosenRow hcheck.1 hcheck.2) hr
    · simp [getObject, hserves] at hr

/-- A node whose row has the inline data `[1]` with the hash of `[2]`. -/
def damaged : Setting where
  blake3 := prefixHash
  servesRequests := true
  self := 0
  replicaSet := [0]
  networked := false
  lookup := .row (some ⟨"k", 1, some (prefixHash [2]), [], some [1], 0, ⟨1, 0⟩⟩)
  answer _ := none

/-- **Damaged inline data is returned and reported as verified.** -/
theorem damaged_inline_reported_verified :
    ∃ r, get damaged (courseOf [] 0) ⟨false, false⟩ "b" "k" = .ok r ∧ r.data = [1] ∧
      r.hashVerified = true ∧ r.metadata.blake3Hash = some (damaged.blake3 [2]) ∧
      damaged.blake3 r.data ≠ damaged.blake3 [2] := by
  refine ⟨⟨[1], ⟨"k", 1, some (prefixHash [2]), [], some [1], 0, ⟨1, 0⟩⟩, true⟩, ?_, rfl, rfl, rfl,
    by decide⟩
  rfl

/-! ### The coordinator's read -/

section

variable (env : Env) (renv : ReadEnv) (b : BucketId) (k : ObjectKey) (w : World)

def settingOf : Setting where
  blake3 := env.hash
  servesRequests := env.servesRequests
  self := env.self
  replicaSet := env.replicaSet k
  networked := renv.networked
  lookup := .row (w.keyAt env.self b k).row
  answer t := some (getObjectMetadata (w.keyAt t b k))

def courseIn : Course where
  arrivals := renv.arrivals
  fetch m := fetchChunks renv m w
  repairAnswer t := some (getObjectMetadata (w.keyAt t b k))
  repairArrivals := renv.repairArrivals
  repairStored := renv.repairFault = .none
  refetch m := fetchChunks renv m w
  nowMs := renv.nowMs

end

variable {env : Env} {renv : ReadEnv} {b : BucketId} {k : ObjectKey} {w w' : World}
  {m : ObjectMetadata}

lemma keyAt_compareStep (t t' : NodeId) (p : World × Hlc × Option GetObjectMetadataResponse) :
    (Read.compareStep env renv b k p t).1.keyAt t' b k = p.1.keyAt t' b k := by
  simp only [Read.compareStep]
  cases remoteHlc (getObjectMetadata (p.1.keyAt t b k)) <;> simp

lemma foldl_compareStep_eq (ts : List NodeId) {p : World × Hlc × Option GetObjectMetadataResponse}
    (hkeys : ∀ t, p.1.keyAt t b k = w.keyAt t b k) :
    (ts.foldl (Read.compareStep env renv b k) p).2 =
      ts.foldl (compareStep (settingOf env renv b k w)) p.2 := by
  induction ts generalizing p with
  | nil => rfl
  | cons t ts ih =>
    have hstep : (Read.compareStep env renv b k p t).2 =
        compareStep (settingOf env renv b k w) p.2 t := by
      simp only [Read.compareStep, hkeys]
      rfl
    rw [foldl_cons, foldl_cons, ← hstep]
    exact ih fun t' => (keyAt_compareStep t t' p).trans (hkeys t')

lemma compareWithQuorum_eq (localMeta : ObjectMetadata) :
    (Read.compareWithQuorum env renv b k localMeta w).2 =
      compareWithQuorum (settingOf env renv b k w) (courseIn renv b k w) k localMeta := by
  have hfold := @foldl_compareStep_eq env renv b k w (answering env k renv.arrivals)
    (w, localMeta.hlc, none) fun _ => rfl
  by_cases hnet : (!renv.networked || decide ((env.replicaSet k).length ≤ 1)) = true
  · rw [Read.compareWithQuorum, if_pos hnet]
    exact (if_pos hnet).symm
  · rw [Read.compareWithQuorum, if_neg hnet]
    have hwinner := congrArg
      (fun p => p.2.map fun resp => objectMetadataFromResponse resp k renv.nowMs) hfold
    exact Eq.trans hwinner (if_neg hnet).symm

lemma fetchChunks_congr (h : w'.segments = w.segments) :
    fetchChunks renv m w' = fetchChunks renv m w := by
  have hsingle : fetchSingleChunk renv w' = fetchSingleChunk renv w := by
    funext c
    simp only [fetchSingleChunk, fetchSingleChunkRaw, readChunk, h]
  simp only [fetchChunks, fetchChunksInner, fetchAllChunksParallel, fetchAllChunksSerial, hsingle]

lemma repairDanglingMetadata_eq (hkeys : ∀ t, w'.keyAt t b k = w.keyAt t b k) :
    (Read.repairDanglingMetadata env renv b k m w').2 =
        repairDanglingMetadata (settingOf env renv b k w) (courseIn renv b k w) k m ∧
      (Read.repairDanglingMetadata env renv b k m w').1.segments = w'.segments := by
  have hfind : ((answering env k renv.repairArrivals).map fun t =>
      getObjectMetadata (w'.keyAt t b k)).find? (repoints k m) =
      ((arriving (settingOf env renv b k w) renv.repairArrivals).filterMap
        (courseIn renv b k w).repairAnswer).find? (repoints k m) := by
    simp only [hkeys, courseIn, filterMap_eq_map']
    rfl
  unfold Read.repairDanglingMetadata repairDanglingMetadata
  cases hnet : renv.networked with
  | false => simp [settingOf, hnet]
  | true =>
    have hset : (settingOf env renv b k w).networked = true := hnet
    have hrow : (settingOf env renv b k w).lookup = .row (w.keyAt env.self b k).row := rfl
    have harrivals : (courseIn renv b k w).repairArrivals = renv.repairArrivals := rfl
    simp only [Bool.not_true, Bool.false_eq_true, if_false, hset, hrow, harrivals, hfind]
    generalize ((arriving (settingOf env renv b k w) renv.repairArrivals).filterMap
      (courseIn renv b k w).repairAnswer).find? (repoints k m) = found
    cases found with
    | none => exact ⟨rfl, rfl⟩
    | some resp =>
      -- the put succeeds just if nothing fails
      have hok := @World.putRow_ok_iff w' env.self b
        (objectMetadataFromResponse resp k m.createdAt) renv.nowMs renv.repairFault
      dsimp only
      split
      · rename_i e hput
        have hfault : renv.repairFault ≠ .none := fun h => by simpa [hput] using hok.mpr h
        exact ⟨by simp [courseIn, hfault], congrArg (fun p => p.1.segments) hput.symm⟩
      · rename_i hput
        have hfault : renv.repairFault = .none := hok.mp (by rw [hput])
        exact ⟨by simp [courseIn, hfault], congrArg (fun p => p.1.segments) hput.symm⟩

/-- The bytes and the row of a result. -/
def GetResult.read (r : GetResult) : Bytes × ObjectMetadata := (r.data, r.metadata)

lemma readChunks_settingOf (hkeys : ∀ t, w'.keyAt t b k = w.keyAt t b k)
    (hsegments : w'.segments = w.segments) :
    (Read.readChunks env renv b k m w').2 =
      (readChunks (settingOf env renv b k w) (courseIn renv b k w) false k m).map
        GetResult.read := by
  have hblake3 : (settingOf env renv b k w).blake3 = env.hash := rfl
  have hfetch : (courseIn renv b k w).fetch m = fetchChunks renv m w := rfl
  rw [Read.readChunks, readChunks, assembleChunks, fetchChunks_congr hsegments, hfetch, hblake3]
  cases assemble env.hash m (fetchChunks renv m w) with
  | ok data => rfl
  | error e =>
    cases e with
    | segmentUnavailable seg =>
      obtain ⟨hrepair, hkept⟩ := @repairDanglingMetadata_eq env renv b k w w' m hkeys
      rcases hafter : Read.repairDanglingMetadata env renv b k m w' with ⟨w'', o⟩
      rw [hafter] at hrepair hkept
      simp only [← hrepair]
      cases o with
      | none => rfl
      | some repaired =>
        have hrefetch : (courseIn renv b k w).refetch repaired = fetchChunks renv repaired w := rfl
        simp only [assembleChunks, fetchChunks_congr (hkept.trans hsegments), hrefetch]
        cases assemble env.hash repaired (fetchChunks renv repaired w) <;> rfl
    | _ => rfl

/-- **The coordinator's read** is this one, in its own setting. -/
theorem get_settingOf (env : Env) (renv : ReadEnv) (b : BucketId) (k : ObjectKey) (w : World) :
    (Read.get env renv b k w).2 =
      (getObject (settingOf env renv b k w) (courseIn renv b k w) ⟨false, false⟩ b k).map
        GetResult.read := by
  cases hserves : env.servesRequests with
  | false => simp [Read.get, getObject, settingOf, hserves, Except.map]
  | true =>
    cases hrow : (w.keyAt env.self b k).row with
    | none =>
      simp [Read.get, getObject, settingOf, hserves, hrow, lookupMetadata, localRow, Except.map]
    | some localMeta =>
      have hlocal : localRow (settingOf env renv b k w) k = some localMeta := hrow
      obtain ⟨hkeys, hsegments, -⟩ := @compareWithQuorum_frame env renv b k localMeta w
      rw [getObject_eq_readRow hserves hlocal rfl]
      have hchosen : chosenRow (settingOf env renv b k w) (courseIn renv b k w) ⟨false, false⟩ k
          localMeta = chosen env renv b k localMeta w := by
        rw [chosenRow, if_neg Bool.false_ne_true, ← compareWithQuorum_eq, chosen]
      rw [hchosen, readRow]
      cases hinline : (chosen env renv b k localMeta w).inlineData with
      | some data => exact get_of_inline hserves hrow hinline
      | none =>
        by_cases hchunks : (chosen env renv b k localMeta w).chunks = []
        · rw [get_of_neither hserves hrow hinline hchunks]
          simp [hchunks, settingOf, Except.map]
        · rw [get_of_chunks hserves hrow hinline hchunks,
            readChunks_settingOf (fun t => hkeys t b k) hsegments]
          simp [hchunks]

end OceanFs.Read.VerifiedGet
