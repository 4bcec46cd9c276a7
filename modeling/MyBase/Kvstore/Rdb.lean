import MyBase.Lib.Bytes
import MyBase.Lib.Run

/-!
# MyBase — records in rocksdb

A record is stored under three bytes of bucket number, two bytes of namespace (called
area here) and the key, and consists of the dates it was written and expires at and the
value. The area is cleared by remembering when; a record that is older, or expired, is
skipped by `get` and dropped by the compaction filter, each with a test of its own.

rocksdb is a map from bytes to bytes. Time is in seconds and passes from one action to
the next.

* `RdbKey.set_inj` — what two requests that are stored under the same key have in common;
* `RdbKey.area_set`, `RdbKey.getBucketNumber_set` — what the filter reads back.
-/

namespace MyBase

open Lib List

/-- A `size_t` as a positive `int32_t`; a negative one counts as zero. -/
def int32Size (n : Nat) : Nat := if n % 2 ^ 32 < 2 ^ 31 then n % 2 ^ 32 else 0

-- Keys

namespace RdbKey

def encodeBucketNumber (bucketNumber : UInt32) : Bytes := be 3 bucketNumber.toNat

def encodeArea (area : UInt32) : Bytes :=
  [UInt8.ofNat area.toNat, UInt8.ofNat (area.toNat / 256)]

/-- `RdbKey::set`: no key is stored as the empty key. `none`: `data_size_` overflows and
the array is not allocated. -/
def set (key : Bytes) (bucketNumber area : UInt32) : Option Bytes :=
  let keySize := int32Size key.length
  if keySize = 0 then some []
  else if 2 ^ 31 ≤ 3 + 2 + keySize then none
  else some (encodeBucketNumber bucketNumber ++ encodeArea area ++ key.take keySize)

/-- `data_[i]`; behind the data lies something else. -/
def byteAt (data : Bytes) (behind : Nat → UInt8) (i : Nat) : UInt8 := data.getD i (behind i)

/-- `RdbKey::area`. -/
def area (data : Bytes) (behind : Nat → UInt8) : Nat :=
  (byteAt data behind 4).toNat * 256 + (byteAt data behind 3).toNat

/-- `RdbKey::getBucketNumber`. -/
def getBucketNumber (data : Bytes) (behind : Nat → UInt8) : Nat :=
  ofBe [byteAt data behind 0, byteAt data behind 1, byteAt data behind 2]

end RdbKey

-- Records

structure ValueMeta where
  flag : UInt8 := 0
  version : UInt16 := 0
  mdate : UInt32 := 0
  edate : UInt32 := 0
deriving DecidableEq, Repr

namespace ValueMeta

def size : Nat := 11

/-- `encodeToBuf`; `(uint8_t)version >> 8` is zero. -/
def encodeToBuf (m : ValueMeta) : Bytes :=
  be 4 m.edate.toNat ++ be 4 m.mdate.toNat ++ [0, UInt8.ofNat m.version.toNat] ++ [m.flag]

def decodeFromBuf (buf : Bytes) : ValueMeta where
  edate := UInt32.ofNat (ofBe (buf.take 4))
  mdate := UInt32.ofNat (ofBe ((buf.drop 4).take 4))
  version := UInt16.ofNat (ofBe ((buf.drop 8).take 2))
  flag := buf.getD 10 0

end ValueMeta

namespace RdbItem

/-- `RdbItem::set`: no value is stored without dates. -/
def set (m : ValueMeta) (value : Bytes) : Option Bytes :=
  let valueSize := int32Size value.length
  if valueSize = 0 then some []
  else if 2 ^ 31 ≤ valueSize + ValueMeta.size then none
  else some (m.encodeToBuf ++ value.take valueSize)

/-- The dates after `RdbItem::assign`. -/
def assign (data : Bytes) : ValueMeta :=
  if ValueMeta.size ≤ data.length then ValueMeta.decodeFromBuf data else {}

/-- `value` and `valueSize`. -/
def value (data : Bytes) : Bytes := data.drop ValueMeta.size

end RdbItem

structure CValidBucketMgn where
  fromMaster : Bool
  /-- The array, and what lies behind it. -/
  bucketArray : Nat → UInt8

def CValidBucketMgn.valid (m : CValidBucketMgn) (bucket : Nat) : Bool :=
  !m.fromMaster || m.bucketArray bucket == 1

/-- What is stored under a key of the database, with the request that stored it. -/
structure Record where
  ns : UInt32
  key : Bytes
  item : Bytes
deriving DecidableEq, Repr

-- The instance

structure RdbInstance where
  currentSec : Nat
  dataDb : Bytes → Option Record
  areaExpiredSec : UInt32 → Option Nat
  validBucketMgn : CValidBucketMgn

inductive GetResult
  /-- `RdbKey` cannot be built. -/
  | thrown
  /-- `do_get` does not find the key. -/
  | notExist
  /-- `KV_RETURN_DATA_EXPIRED`. -/
  | dataExpired
  /-- `OP_RETURN_SUCCESS` with the value, which is that of a record. -/
  | success (value : Bytes) (r : Record)
deriving DecidableEq, Repr

/-- What the compaction filter is created with. -/
structure ExpiredFilter where
  fillterCheckTime : Nat
  areaExpiredSec : UInt32 → Option Nat
  validBucketMgn : CValidBucketMgn

inductive RdbAction
  /-- Time passes. -/
  | clock (sec : Nat)
  | put (ns bucketNo : UInt32) (key value : Bytes) (expireTime : UInt32)
  | clearArea (area : UInt32)
  | setValidBucketMgn (m : CValidBucketMgn)

namespace RdbInstance

def init : RdbInstance := ⟨0, fun _ => none, fun _ => none, ⟨false, fun _ => 0⟩⟩

/-- The dates of a record that is put now. -/
def putMeta (s : RdbInstance) (expireTime : UInt32) : ValueMeta where
  mdate := UInt32.ofNat s.currentSec
  edate := if expireTime ≠ 0 then UInt32.ofNat s.currentSec + expireTime else 0

def put (s : RdbInstance) (ns bucketNo : UInt32) (key value : Bytes) (expireTime : UInt32) :
    Option RdbInstance :=
  match RdbKey.set key bucketNo ns, RdbItem.set (s.putMeta expireTime) value with
  | some rdbKey, some rdbItem =>
    some { s with dataDb := Function.update s.dataDb rdbKey (some ⟨ns, key, rdbItem⟩) }
  | _, _ => none

def getAreaExpiredTime (s : RdbInstance) (area : UInt32) : Nat := (s.areaExpiredSec area).getD 0

/-- The test in `get`. -/
def dataExpired (s : RdbInstance) (ns : UInt32) (m : ValueMeta) : Bool :=
  (m.edate != 0 && decide (m.edate.toNat < s.currentSec)) ||
    decide (m.mdate.toNat < s.getAreaExpiredTime ns)

def get (s : RdbInstance) (ns bucketNo : UInt32) (key : Bytes) : GetResult :=
  match RdbKey.set key bucketNo ns with
  | none => .thrown
  | some rdbKey =>
    match s.dataDb rdbKey with
    | none => .notExist
    | some r =>
      if s.dataExpired ns (RdbItem.assign r.item) then .dataExpired
      else .success (RdbItem.value r.item) r

def clearArea (s : RdbInstance) (area : UInt32) : RdbInstance :=
  { s with areaExpiredSec := Function.update s.areaExpiredSec area (some s.currentSec) }

/-- `CreateCompactionFilter`: the factory is told of every change. -/
def createCompactionFilter (s : RdbInstance) : ExpiredFilter :=
  ⟨s.currentSec, s.areaExpiredSec, s.validBucketMgn⟩

def step (s : RdbInstance) : RdbAction → Option RdbInstance
  | .clock sec => if s.currentSec ≤ sec then some { s with currentSec := sec } else none
  | .put ns bucketNo key value expireTime => s.put ns bucketNo key value expireTime
  | .clearArea area => some (s.clearArea area)
  | .setValidBucketMgn m => some { s with validBucketMgn := m }

end RdbInstance

-- The compaction filter

def sMaxNamespaceCount : Nat := 1024

/-- `ExpiredFilter::Filter`, with what lies behind the key in memory. -/
def ExpiredFilter.filter (f : ExpiredFilter) (behind : Nat → UInt8) (key value : Bytes) : Bool :=
  let m := RdbItem.assign value
  let area := RdbKey.area key behind
  let actualBucket := RdbKey.getBucketNumber key behind
  if sMaxNamespaceCount ≤ area then true
  else
    let areaExpiredSec := (f.areaExpiredSec (UInt32.ofNat area)).getD 0
    (m.edate != 0 && decide (m.edate.toNat < f.fillterCheckTime)) ||
      decide (m.mdate.toNat < areaExpiredSec) || !f.validBucketMgn.valid actualBucket

-- What a stored key says

namespace RdbKey

/-- The bytes of a key that are stored. -/
def kept (key : Bytes) : Bytes := key.take (int32Size key.length)

/-- The array for this key is not allocated. -/
def TooLong (key : Bytes) : Prop := 2 ^ 31 ≤ 3 + 2 + int32Size key.length

theorem int32Size_le (n : Nat) : int32Size n ≤ n := by
  unfold int32Size
  have hMod : n % 2 ^ 32 ≤ n := Nat.mod_le _ _
  split <;> omega

theorem kept_length (key : Bytes) : (kept key).length = int32Size key.length := by
  simp [kept, int32Size_le]

variable {key k : Bytes} {ns b ns' : UInt32}

theorem kept_eq_nil_iff : kept key = [] ↔ int32Size key.length = 0 := by
  rw [← length_eq_zero_iff, kept_length]

theorem set_of_kept_nil (h : kept key = []) (b ns : UInt32) : set key b ns = some [] := by
  rw [set, if_pos (kept_eq_nil_iff.mp h)]

theorem set_of_kept (h : kept key ≠ []) (hLen : ¬ TooLong key) (b ns : UInt32) :
    set key b ns = some (encodeBucketNumber b ++ encodeArea ns ++ kept key) := by
  unfold TooLong at hLen
  rw [set, if_neg (mt kept_eq_nil_iff.mpr h), if_neg hLen]
  rfl

theorem set_of_tooLong (h : TooLong key) (b ns : UInt32) : set key b ns = none := by
  unfold TooLong at h
  rw [set, if_neg (by omega), if_pos h]

/-- A key is stored empty, or behind its bucket number and area, or not at all. -/
theorem set_eq_some (h : set key b ns = some k) :
    (kept key = [] ∧ k = []) ∨
      (kept key ≠ [] ∧ k = encodeBucketNumber b ++ encodeArea ns ++ kept key) := by
  by_cases hKept : kept key = []
  · rw [set_of_kept_nil hKept] at h
    exact .inl ⟨hKept, (Option.some.inj h).symm⟩
  · by_cases hLen : TooLong key
    · rw [set_of_tooLong hLen] at h
      cases h
    · rw [set_of_kept hKept hLen] at h
      exact .inr ⟨hKept, (Option.some.inj h).symm⟩

theorem encodeArea_inj :
    encodeArea ns = encodeArea ns' ↔ ns.toNat % 2 ^ 16 = ns'.toNat % 2 ^ 16 := by
  simp only [encodeArea, List.cons.injEq, and_true, ← UInt8.toNat_inj, UInt8.toNat_ofNat']
  omega

/-- Requests stored under the same key have the same stored bytes and, unless there are
none, namespaces that agree in sixteen bits. -/
theorem set_inj {key' : Bytes} {b' : UInt32} (h : set key b ns = some k)
    (h' : set key' b' ns' = some k) :
    kept key = kept key' ∧ (kept key = [] ∨ ns.toNat % 2 ^ 16 = ns'.toNat % 2 ^ 16) := by
  have hHead : ∀ (b ns : UInt32), (encodeBucketNumber b ++ encodeArea ns).length = 5 := by
    simp [encodeBucketNumber, encodeArea]
  rcases set_eq_some h with ⟨hKept, rfl⟩ | ⟨hKept, rfl⟩ <;>
    rcases set_eq_some h' with ⟨hKept', hEq⟩ | ⟨hKept', hEq⟩
  · exact ⟨by rw [hKept, hKept'], .inl hKept⟩
  · simp [encodeArea] at hEq
  · simp [encodeArea] at hEq
  · obtain ⟨hHeads, hKeys⟩ := append_inj hEq (by rw [hHead, hHead])
    have hAreas := (append_inj hHeads (by simp [encodeBucketNumber])).2
    exact ⟨hKeys, .inr (encodeArea_inj.mp hAreas)⟩

section ReadBack

variable {key k : Bytes} {b ns : UInt32}

theorem byteAt_append_left {data rest : Bytes} {behind : Nat → UInt8} {i : Nat}
    (h : i < data.length) : byteAt (data ++ rest) behind i = data.getD i 0 := by
  simp [byteAt, getD_eq_getElem?_getD, getElem?_append_left h, getElem?_eq_getElem h]

/-- The filter reads back sixteen bits of the namespace. -/
theorem area_set (h : set key b ns = some k) (hKept : kept key ≠ []) (behind : Nat → UInt8) :
    area k behind = ns.toNat % 2 ^ 16 := by
  rcases set_eq_some h with ⟨hNil, -⟩ | ⟨-, rfl⟩
  · exact absurd hNil hKept
  · have hLen : (encodeBucketNumber b ++ encodeArea ns).length = 5 := by
      simp [encodeBucketNumber, encodeArea]
    have hLow : (encodeBucketNumber b ++ encodeArea ns).getD 3 0 = UInt8.ofNat ns.toNat := by
      simp [encodeBucketNumber, encodeArea, getD_eq_getElem?_getD]
    have hHigh : (encodeBucketNumber b ++ encodeArea ns).getD 4 0 =
        UInt8.ofNat (ns.toNat / 256) := by
      simp [encodeBucketNumber, encodeArea, getD_eq_getElem?_getD]
    rw [area, byteAt_append_left (by omega), byteAt_append_left (by omega), hLow, hHigh,
      UInt8.toNat_ofNat', UInt8.toNat_ofNat']
    omega

/-- The filter reads back 24 bits of the bucket number. -/
theorem getBucketNumber_set (h : set key b ns = some k) (hKept : kept key ≠ [])
    (behind : Nat → UInt8) : getBucketNumber k behind = b.toNat % 2 ^ 24 := by
  rcases set_eq_some h with ⟨hNil, -⟩ | ⟨-, rfl⟩
  · exact absurd hNil hKept
  · have hLen : (encodeBucketNumber b).length = 3 := by simp [encodeBucketNumber]
    obtain ⟨x, y, z, hxyz⟩ := List.length_eq_three.mp hLen
    have hBytes : [x, y, z] = be 3 b.toNat := hxyz.symm
    rw [getBucketNumber, append_assoc, byteAt_append_left (by omega),
      byteAt_append_left (by omega), byteAt_append_left (by omega), hxyz]
    show ofBe [x, y, z] = _
    rw [hBytes, ofBe_be, show 256 ^ 3 = 2 ^ 24 by decide]

end ReadBack

end RdbKey

-- What put and get do

namespace RdbInstance

variable {s s' : RdbInstance}

theorem put_eq_some {ns b : UInt32} {key value : Bytes} {expireTime : UInt32}
    (h : s.put ns b key value expireTime = some s') :
    ∃ k item, RdbKey.set key b ns = some k ∧
      s' = { s with dataDb := Function.update s.dataDb k (some ⟨ns, key, item⟩) } := by
  unfold put at h
  split at h
  next k item hKey _ =>
    cases h
    exact ⟨k, item, hKey, rfl⟩
  next => cases h

/-- A get that succeeds found a record under its key that has not expired. -/
theorem get_eq_success {ns b : UInt32} {key value : Bytes} {r : Record}
    (h : s.get ns b key = .success value r) :
    ∃ k, RdbKey.set key b ns = some k ∧ s.dataDb k = some r ∧
      s.dataExpired ns (RdbItem.assign r.item) = false := by
  unfold get at h
  split at h
  next => cases h
  next k hKey =>
  split at h
  next => cases h
  next r' hFind =>
  split at h
  next => cases h
  next hFresh =>
    cases h
    exact ⟨k, hKey, hFind, by simpa using hFresh⟩

end RdbInstance

end MyBase
