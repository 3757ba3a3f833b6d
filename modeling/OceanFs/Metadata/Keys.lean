import OceanFs.Lib.Bytes
import OceanFs.Lib.SortedTable
import OceanFs.Lib.Text
import OceanFs.Metadata.Store

/-!
The keys of the metadata tables.

An object row and a plain tombstone have the key `bucket \0 key`; a supersede record has a tail of
sixteen bytes behind it. The bucket of a key that is read ends at the first NUL, and a key whose
last sixteen bytes look like a tail is read as a supersede record.
-/

namespace OceanFs.Metadata.Keys

open OceanFs.Core Lib Lib.Bytes Lib.Text List

/-! ### Strings -/

/-- The UTF-8 bytes of a string. -/
def utf8 (s : String) : Bytes := s.toByteArray.data.toList

def fromUtf8 (bytes : Bytes) : Option String := String.fromUTF8? ⟨bytes.toArray⟩

lemma fromUtf8_utf8 (s : String) : fromUtf8 (utf8 s) = some s := by
  have hbytes : (⟨(utf8 s).toArray⟩ : ByteArray) = s.toByteArray := by simp [utf8]
  rw [fromUtf8, hbytes, String.fromUTF8?, dif_pos s.isValidUTF8]
  rfl

lemma utf8_of_fromUtf8 {bytes : Bytes} {s : String} (h : fromUtf8 bytes = some s) :
    utf8 s = bytes := by
  unfold fromUtf8 String.fromUTF8? at h
  split_ifs at h
  obtain rfl := Option.some.inj h
  rfl

lemma utf8_inj {s t : String} (h : utf8 s = utf8 t) : s = t :=
  Option.some.inj ((fromUtf8_utf8 s).symm.trans (h ▸ fromUtf8_utf8 t))

/-! ### Keys -/

structure Name where
  bucket : BucketId
  key : ObjectKey
  deriving DecidableEq

inductive DeletionsKey
  | plain (name : Name)
  | supersede (name : Name) (version : Hlc)
  deriving DecidableEq

def supersedeKind : UInt8 := 2

def supersedeTailSize : ℕ := 1 + 1 + 2 + 8 + 4

def encodeObjectKey (bucket : BucketId) (key : ObjectKey) : Bytes := utf8 bucket ++ 0 :: utf8 key

def decodeObjectKey (data : Bytes) : Option Name := do
  let (bucket, key) ← splitOnce 0 data
  let bucket ← fromUtf8 bucket
  let key ← fromUtf8 key
  return ⟨bucket, key⟩

/-- The separator, the kind, the length of the key in two bytes with the high one first, and the
version. -/
def supersedeTail (keyLen : ℕ) (version : Hlc) : Bytes :=
  0 :: supersedeKind :: ((leBytes 2 keyLen).reverse ++
    (leBytes 8 version.wallTime ++ leBytes 4 version.logical))

def encodeSupersedeKey (bucket : BucketId) (key : ObjectKey) (version : Hlc) : Bytes :=
  utf8 bucket ++ 0 :: utf8 key ++ supersedeTail (utf8 key).length version

/-- The last sixteen bytes begin as a tail does. -/
def HasTail (data : Bytes) : Prop :=
  supersedeTailSize ≤ data.length ∧
    (data.drop (data.length - supersedeTailSize)).take 2 = [0, supersedeKind]

instance (data : Bytes) : Decidable (HasTail data) := inferInstanceAs (Decidable (_ ∧ _))

/-- The part of `decode_deletions_key` for keys with a tail. -/
def decodeSupersede (head tail : Bytes) : Option DeletionsKey := do
  let (bucket, key) ← splitOnce 0 head
  guard (key.length = leNat ((tail.drop 2).take 2).reverse)
  let bucket ← fromUtf8 bucket
  let key ← fromUtf8 key
  return .supersede ⟨bucket, key⟩ ⟨leNat ((tail.drop 4).take 8), leNat ((tail.drop 12).take 4)⟩

def decodeDeletionsKey (data : Bytes) : Option DeletionsKey :=
  if HasTail data then
    let headLen := data.length - supersedeTailSize
    decodeSupersede (data.take headLen) (data.drop headLen)
  else (decodeObjectKey data).map .plain

/-! ### Listing -/

/-- The objects table; a value that cannot be decoded is `none`. -/
abbrev ObjectsTable := SortedTable UInt8 (Option ObjectMetadata)

/-- A write of a row, or its deletion. -/
abbrev RowWrite := Name × Option ObjectMetadata

def ObjectsTable.write (t : ObjectsTable) (x : RowWrite) : ObjectsTable :=
  match x.2 with
  | some m => t.put (encodeObjectKey x.1.bucket x.1.key) (some m)
  | none => t.delete (encodeObjectKey x.1.bucket x.1.key)

variable (writes : List RowWrite)

def objectsTable : ObjectsTable :=
  writes.foldl ObjectsTable.write .empty

def listObjects (t : ObjectsTable) (bucket : BucketId) (start : String) : List ObjectMetadata :=
  (t.scan (encodeObjectKey bucket start)).filterMap (·.2)

/-- The rows that are there, by their names. -/
def liveRows : List (Name × ObjectMetadata) :=
  writes.foldl (fun rows x =>
    (x.2.map fun m => (x.1, m)).toList ++ rows.filter (·.1 ≠ x.1)) []

/-- The rows of the bucket whose keys start with a text. -/
def rowsOf (bucket : BucketId) (start : String) : List ObjectMetadata :=
  ((liveRows writes).filter fun row =>
    row.1.bucket = bucket ∧ utf8 start <+: utf8 row.1.key).map Prod.snd

/-! ### What the names have to be -/

/-- The bucket has no NUL, the key is shorter than 64 KiB, and a NUL followed by the key does not
have a tail. -/
def Name.Clear (n : Name) : Prop :=
  0 ∉ utf8 n.bucket ∧ (utf8 n.key).length < 256 ^ 2 ∧ ¬HasTail (0 :: utf8 n.key)

instance (n : Name) : Decidable n.Clear := inferInstanceAs (Decidable (_ ∧ _ ∧ _))

/-- A timestamp of a `u64` and a `u32`. -/
def FitsHlc (h : Hlc) : Prop := h.wallTime < 256 ^ 8 ∧ h.logical < 256 ^ 4

instance (h : Hlc) : Decidable (FitsHlc h) := inferInstanceAs (Decidable (_ ∧ _))

/-- Names never collide, each deletion key is read as what it is, and a listing is exact. -/
structure KeysApart (names : Set Name) : Prop where
  objects : ∀ p ∈ names, ∀ q ∈ names,
    encodeObjectKey p.bucket p.key = encodeObjectKey q.bucket q.key → p = q
  kinds : ∀ p ∈ names, ∀ q ∈ names, ∀ version, FitsHlc version →
    encodeObjectKey p.bucket p.key ≠ encodeSupersedeKey q.bucket q.key version
  supersedes : ∀ p ∈ names, ∀ q ∈ names, ∀ version version', FitsHlc version → FitsHlc version' →
    encodeSupersedeKey p.bucket p.key version = encodeSupersedeKey q.bucket q.key version' →
    p = q ∧ version = version'
  decodePlain : ∀ p ∈ names,
    decodeDeletionsKey (encodeObjectKey p.bucket p.key) = some (.plain p)
  decodeVersioned : ∀ p ∈ names, ∀ version, FitsHlc version →
    decodeDeletionsKey (encodeSupersedeKey p.bucket p.key version) = some (.supersede p version)
  listing : ∀ writes : List RowWrite, (∀ x ∈ writes, x.1 ∈ names) → ∀ q ∈ names, ∀ start,
    (listObjects (objectsTable writes) q.bucket start).Perm (rowsOf writes q.bucket start)

/-! ### Reading a key -/

lemma decodeSupersede_ne_plain {head tail : Bytes} {n : Name} :
    decodeSupersede head tail ≠ some (.plain n) := by
  intro h
  simp only [decodeSupersede, Option.bind_eq_bind, Option.bind_eq_some_iff] at h
  obtain ⟨_, -, _, -, _, -, _, -, h⟩ := h
  cases h

lemma hasTail_append {a b : Bytes} (h : 0 ∉ a) : HasTail (a ++ 0 :: b) ↔ HasTail (0 :: b) := by
  unfold HasTail
  by_cases hlen : supersedeTailSize ≤ (0 :: b).length
  · have hdrop : (a ++ 0 :: b).length - supersedeTailSize =
        a.length + ((0 :: b).length - supersedeTailSize) := by
      rw [length_append]
      omega
    have htotal : supersedeTailSize ≤ (a ++ 0 :: b).length := by
      rw [length_append]
      omega
    rw [hdrop, drop_length_add_append]
    simp only [hlen, htotal]
  · -- the tail would begin inside the text
    simp only [hlen, false_and, iff_false]
    rintro ⟨htotal, htail⟩
    rw [length_append] at htotal htail
    have hlt : a.length + (0 :: b).length - supersedeTailSize < a.length := by omega
    rw [drop_append_of_le_length hlt.le, drop_eq_getElem_cons hlt] at htail
    have hhead := (cons.inj htail).1
    exact h (hhead ▸ getElem_mem hlt)

lemma length_supersedeTail (n : ℕ) (version : Hlc) :
    (supersedeTail n version).length = supersedeTailSize := by
  simp [supersedeTail, supersedeTailSize]

lemma decodeObjectKey_encode {n : Name} (h : 0 ∉ utf8 n.bucket) :
    decodeObjectKey (encodeObjectKey n.bucket n.key) = some n := by
  simp [decodeObjectKey, encodeObjectKey, splitOnce_append h, fromUtf8_utf8]

lemma notMem_of_decodeObjectKey {data : Bytes} {n : Name} (h : decodeObjectKey data = some n) :
    0 ∉ utf8 n.bucket := by
  simp only [decodeObjectKey, Option.bind_eq_bind, Option.bind_eq_some_iff] at h
  obtain ⟨⟨bucket, key⟩, hsplit, bucket', hbucket, key', -, hn⟩ := h
  obtain rfl := Option.some.inj hn
  rw [utf8_of_fromUtf8 hbucket]
  exact notMem_of_splitOnce hsplit

lemma decode_plain_iff {n : Name} :
    decodeDeletionsKey (encodeObjectKey n.bucket n.key) = some (.plain n) ↔
      0 ∉ utf8 n.bucket ∧ ¬HasTail (0 :: utf8 n.key) := by
  unfold decodeDeletionsKey
  constructor
  · intro h
    split_ifs at h with htail
    · exact absurd h decodeSupersede_ne_plain
    · obtain ⟨n', hdecode, hn⟩ := Option.map_eq_some_iff.mp h
      obtain rfl := DeletionsKey.plain.inj hn
      have hbucket := notMem_of_decodeObjectKey hdecode
      exact ⟨hbucket, fun h => htail ((hasTail_append hbucket).mpr h)⟩
  · rintro ⟨hbucket, htail⟩
    have hplain : ¬HasTail (encodeObjectKey n.bucket n.key) :=
      fun h => htail ((hasTail_append hbucket).mp h)
    rw [if_neg hplain, decodeObjectKey_encode hbucket]
    rfl

lemma decodeDeletionsKey_supersede {n : Name} {version : Hlc} :
    decodeDeletionsKey (encodeSupersedeKey n.bucket n.key version) =
      decodeSupersede (utf8 n.bucket ++ 0 :: utf8 n.key)
        (supersedeTail (utf8 n.key).length version) := by
  have hlen : (encodeSupersedeKey n.bucket n.key version).length - supersedeTailSize =
      (utf8 n.bucket ++ 0 :: utf8 n.key).length := by
    rw [encodeSupersedeKey, length_append, length_supersedeTail]
    omega
  have htail : HasTail (encodeSupersedeKey n.bucket n.key version) := by
    refine ⟨?_, ?_⟩
    · rw [encodeSupersedeKey, length_append, length_supersedeTail]
      omega
    · rw [hlen, encodeSupersedeKey, drop_left]
      rfl
  unfold decodeDeletionsKey
  rw [if_pos htail]
  simp only [hlen]
  rw [encodeSupersedeKey, take_left, drop_left]

lemma decode_supersede_iff {n : Name} {version : Hlc} (hbucket : 0 ∉ utf8 n.bucket)
    (hfits : FitsHlc version) :
    decodeDeletionsKey (encodeSupersedeKey n.bucket n.key version) = some (.supersede n version) ↔
      (utf8 n.key).length < 256 ^ 2 := by
  have hkeyLen : leNat (((supersedeTail (utf8 n.key).length version).drop 2).take 2).reverse =
      (utf8 n.key).length % 256 ^ 2 := by
    have htake : ((supersedeTail (utf8 n.key).length version).drop 2).take 2 =
        (leBytes 2 (utf8 n.key).length).reverse :=
      take_left' (by simp)
    rw [htake, reverse_reverse, leNat_leBytes_mod]
  have hwall : ((supersedeTail (utf8 n.key).length version).drop 4).take 8 =
      leBytes 8 version.wallTime := rfl
  have hlogical : ((supersedeTail (utf8 n.key).length version).drop 12).take 4 =
      leBytes 4 version.logical := rfl
  rw [decodeDeletionsKey_supersede, decodeSupersede, splitOnce_append hbucket]
  simp only [hkeyLen, hwall, hlogical, fromUtf8_utf8, leNat_leBytes hfits.1, leNat_leBytes hfits.2,
    Option.bind_eq_bind, Option.bind_some, Option.pure_def]
  constructor
  · intro h
    by_contra hlong
    have hne : (utf8 n.key).length ≠ (utf8 n.key).length % 256 ^ 2 :=
      fun heq => hlong (heq ▸ Nat.mod_lt _ (by decide))
    rw [guard, if_neg hne] at h
    simp at h
  · intro hlen
    rw [Nat.mod_eq_of_lt hlen]
    simp

/-! ### Listing the rows of a bucket -/

lemma encodeObjectKey_inj {p q : Name} (hp : 0 ∉ utf8 p.bucket) (hq : 0 ∉ utf8 q.bucket)
    (h : encodeObjectKey p.bucket p.key = encodeObjectKey q.bucket q.key) : p = q :=
  Option.some.inj ((decodeObjectKey_encode hp).symm.trans (h ▸ decodeObjectKey_encode hq))

lemma isPrefix_encodeObjectKey {bucket : BucketId} {start : String} {n : Name}
    (hbucket : 0 ∉ utf8 bucket) (hn : 0 ∉ utf8 n.bucket) :
    encodeObjectKey bucket start <+: encodeObjectKey n.bucket n.key ↔
      n.bucket = bucket ∧ utf8 start <+: utf8 n.key := by
  constructor
  · rintro ⟨rest, hrest⟩
    rw [encodeObjectKey, encodeObjectKey, append_assoc, cons_append] at hrest
    have hsplit := splitOnce_append (b := utf8 start ++ rest) hbucket
    rw [hrest, splitOnce_append hn] at hsplit
    obtain ⟨hb, hk⟩ := Prod.mk.inj (Option.some.inj hsplit)
    exact ⟨utf8_inj hb, hk ▸ prefix_append ..⟩
  · rintro ⟨rfl, hprefix⟩
    exact (prefix_append_right_inj _).mpr (cons_prefix_cons.mpr ⟨rfl, hprefix⟩)

/-- The row of the table for a row of a name. -/
def tableRow (row : Name × ObjectMetadata) : Bytes × Option ObjectMetadata :=
  (encodeObjectKey row.1.bucket row.1.key, some row.2)

lemma filter_map_tableRow {rows : List (Name × ObjectMetadata)} {n : Name}
    (hrows : ∀ row ∈ rows, 0 ∉ utf8 row.1.bucket) (hn : 0 ∉ utf8 n.bucket) :
    (rows.map tableRow).filter (·.1 ≠ encodeObjectKey n.bucket n.key) =
      (rows.filter (·.1 ≠ n)).map tableRow := by
  rw [filter_map]
  congr 1
  refine filter_congr fun row hrow => ?_
  have hiff : encodeObjectKey row.1.bucket row.1.key = encodeObjectKey n.bucket n.key ↔ row.1 = n :=
    ⟨encodeObjectKey_inj (hrows row hrow) hn, fun h => by rw [h]⟩
  simp [tableRow, hiff]

lemma rows_objectsTable {writes : List RowWrite} (h : ∀ x ∈ writes, 0 ∉ utf8 x.1.bucket) :
    (objectsTable writes).rows.Perm ((liveRows writes).map tableRow) ∧
      ∀ row ∈ liveRows writes, 0 ∉ utf8 row.1.bucket := by
  induction writes using List.reverseRecOn with
  | nil => exact ⟨.refl _, nofun⟩
  | append_singleton writes x ih =>
    obtain ⟨hperm, hlive⟩ := ih fun y hy => h y (mem_append_left _ hy)
    have hx := h x (by simp)
    have hkept := (hperm.filter (·.1 ≠ encodeObjectKey x.1.bucket x.1.key)).trans
      (.of_eq (filter_map_tableRow hlive hx))
    have hlive' : ∀ row ∈ (liveRows writes).filter (·.1 ≠ x.1), 0 ∉ utf8 row.1.bucket :=
      fun row hrow => hlive row (mem_of_mem_filter hrow)
    obtain ⟨n, value⟩ := x
    simp only [objectsTable, liveRows, foldl_append, foldl_cons, foldl_nil]
    cases value with
    | none => exact ⟨hkept, hlive'⟩
    | some m =>
      refine ⟨(SortedTable.rows_put_perm _ _ _).trans (hkept.cons _), fun row hrow => ?_⟩
      rcases mem_cons.mp hrow with rfl | hrow
      · exact hx
      · exact hlive' row hrow

lemma listObjects_perm {writes : List RowWrite} {bucket : BucketId} (start : String)
    (h : ∀ x ∈ writes, 0 ∉ utf8 x.1.bucket) (hbucket : 0 ∉ utf8 bucket) :
    (listObjects (objectsTable writes) bucket start).Perm (rowsOf writes bucket start) := by
  obtain ⟨hperm, hlive⟩ := rows_objectsTable h
  have hrows : ((liveRows writes).map tableRow).filter (encodeObjectKey bucket start <+: ·.1) =
      ((liveRows writes).filter fun row =>
        row.1.bucket = bucket ∧ utf8 start <+: utf8 row.1.key).map tableRow := by
    rw [filter_map]
    congr 1
    refine filter_congr fun row hrow => ?_
    simp only [Function.comp_apply, tableRow,
      isPrefix_encodeObjectKey (n := row.1) hbucket (hlive row hrow)]
  have hvalues : ∀ rows : List (Name × ObjectMetadata),
      (rows.map tableRow).filterMap (·.2) = rows.map Prod.snd := by
    intro rows
    rw [filterMap_map]
    exact congrFun filterMap_eq_map rows
  rw [listObjects, SortedTable.scan_eq_filter, rowsOf, ← hvalues, ← hrows]
  exact (hperm.filter _).filterMap _

/-- **Keys never collide, and a listing is exact**, just if every name is clear. -/
theorem keys_apart_iff (names : Set Name) : KeysApart names ↔ ∀ n ∈ names, n.Clear := by
  constructor
  · intro h n hn
    obtain ⟨hbucket, htail⟩ := decode_plain_iff.mp (h.decodePlain n hn)
    have hfits : FitsHlc .zero := by decide
    exact ⟨hbucket, (decode_supersede_iff hbucket hfits).mp (h.decodeVersioned n hn _ hfits), htail⟩
  · intro h
    have hplain : ∀ n ∈ names,
        decodeDeletionsKey (encodeObjectKey n.bucket n.key) = some (.plain n) :=
      fun n hn => decode_plain_iff.mpr ⟨(h n hn).1, (h n hn).2.2⟩
    have hversioned : ∀ n ∈ names, ∀ version, FitsHlc version →
        decodeDeletionsKey (encodeSupersedeKey n.bucket n.key version) =
          some (.supersede n version) :=
      fun n hn version hfits => (decode_supersede_iff (h n hn).1 hfits).mpr (h n hn).2.1
    -- a key that is read back as what it is collides with no other
    exact {
      objects := fun p hp q hq => encodeObjectKey_inj (h p hp).1 (h q hq).1
      kinds := by
        intro p hp q hq version hfits heq
        have hdecode := hplain p hp
        rw [heq, hversioned q hq version hfits] at hdecode
        cases hdecode
      supersedes := by
        intro p hp q hq version version' hfits hfits' heq
        have hdecode := hversioned p hp version hfits
        rw [heq, hversioned q hq version' hfits'] at hdecode
        obtain ⟨rfl, rfl⟩ := DeletionsKey.supersede.inj (Option.some.inj hdecode)
        exact ⟨rfl, rfl⟩
      decodePlain := hplain
      decodeVersioned := hversioned
      listing := fun writes hwrites q hq start =>
        listObjects_perm start (fun x hx => (h x.1 (hwrites x hx)).1) (h q hq).1 }

example : (⟨"photos", "cat.jpg"⟩ : Name).Clear := by decide +kernel

/-- Two names with one row key, a tombstone with the key of a supersede record, and a tombstone of a
key without NUL that is skipped. -/
theorem keys_collide :
    encodeObjectKey "a\x00b" "c" = encodeObjectKey "a" "b\x00c" ∧
    encodeObjectKey "b" "k\x00\x02\x00\x01\x00\x00\x00\x00\x00\x00\x00\x00\x00\x00\x00\x00" =
      encodeSupersedeKey "b" "k" ⟨0, 0⟩ ∧
    decodeDeletionsKey (encodeObjectKey "b" "\x02fourteen-bytes") = none ∧
    ¬KeysApart Set.univ := by
  refine ⟨by decide +kernel, by decide +kernel, by decide +kernel, fun h => ?_⟩
  have hsame := h.objects ⟨"a\x00b", "c"⟩ trivial ⟨"a", "b\x00c"⟩ trivial (by decide +kernel)
  revert hsame
  decide +kernel

end OceanFs.Metadata.Keys
