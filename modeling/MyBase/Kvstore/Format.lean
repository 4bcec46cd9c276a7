import MyBase.Kvstore.Rdb
import MyBase.Lib.ByteOrder

/-!
# MyBase — how keys and items are written

Records of one bucket are scanned as a range of keys, which rests on the bucket number
being the first bytes, highest first. An item is the eleven bytes of its dates, version
and flag, and the value.

Main results:

* `RdbKey.inRange_buildScanKey_iff` — the range of a bucket has the keys of that bucket;
* `RdbItem.roundTrips_iff` — an item is read back as it was set exactly if its version
  has one byte and its value is not empty.
-/

namespace MyBase

open Lib List

theorem int32Size_of_lt {n : Nat} (h : n < 2 ^ 31) : int32Size n = n := by
  rw [int32Size, Nat.mod_eq_of_lt (by omega), if_pos h]

theorem int32Size_lt (n : Nat) : int32Size n < 2 ^ 31 := by
  unfold int32Size
  split <;> omega

-- Ranges of keys

namespace RdbKey

/-- `RdbKey::buildScanKey`: the start key and the end key. -/
def buildScanKey (bucketNumber : UInt32) : Bytes × Bytes :=
  (encodeBucketNumber bucketNumber, encodeBucketNumber (bucketNumber + 1))

/-- For bucket numbers that fit into three bytes, the next one of the range's bucket
too: an encoded key, of any area and any key that is stored behind it, lies in the range
of a bucket exactly if it is of that bucket. -/
theorem inRange_buildScanKey_iff {b b' area : UInt32} {key k : Bytes} (hb : b.toNat + 1 < 2 ^ 24)
    (hb' : b'.toNat < 2 ^ 24) (hKept : kept key ≠ []) (hSet : set key b' area = some k) :
    InRange (buildScanKey b).1 (buildScanKey b).2 k ↔ b' = b := by
  have hNext : (b + 1).toNat = b.toNat + 1 := by
    rw [UInt32.toNat_add, UInt32.toNat_one]
    omega
  rcases set_eq_some hSet with ⟨hNil, -⟩ | ⟨-, rfl⟩
  · exact absurd hNil hKept
  · rw [buildScanKey, encodeBucketNumber, encodeBucketNumber, encodeBucketNumber, hNext,
      append_assoc, inRange_be_iff (by omega) (by omega) (by omega), ← UInt32.toNat_inj]
    omega

/-- Bucket 258, and the bucket before it. -/
theorem inRange_buildScanKey_iff_258 :
    (InRange (buildScanKey 258).1 (buildScanKey 258).2 [0, 1, 2, 5, 0, 7] ↔
      (258 : UInt32) = 258) ∧
    (InRange (buildScanKey 258).1 (buildScanKey 258).2 [0, 1, 1, 255, 255, 7] ↔
      (257 : UInt32) = 258) :=
  ⟨inRange_buildScanKey_iff (by decide) (by decide) (by decide : kept [7] ≠ [])
      (rfl : set [7] 258 5 = _),
    inRange_buildScanKey_iff (by decide) (by decide) (by decide : kept [7] ≠ [])
      (rfl : set [7] 257 65535 = _)⟩

end RdbKey

-- Items

@[simp] theorem ValueMeta.encodeToBuf_length (m : ValueMeta) :
    m.encodeToBuf.length = ValueMeta.size := by
  simp [encodeToBuf, ValueMeta.size]

/-- The high byte of the version is lost. -/
theorem ValueMeta.decodeFromBuf_encodeToBuf (m : ValueMeta) (value : Bytes) :
    decodeFromBuf (m.encodeToBuf ++ value) =
      { m with version := UInt16.ofNat (m.version.toNat % 256) } := by
  obtain ⟨flag, version, mdate, edate⟩ := m
  have hEdate : edate.toNat < 256 ^ 4 := UInt32.toNat_lt edate
  have hMdate : mdate.toNat < 256 ^ 4 := UInt32.toNat_lt mdate
  -- The header as its four fields, the length of each known.
  have hBuf : encodeToBuf ⟨flag, version, mdate, edate⟩ ++ value =
      be 4 edate.toNat ++ (be 4 mdate.toNat ++ ([0, UInt8.ofNat version.toNat] ++
        (flag :: value))) := by
    simp [encodeToBuf]
  have hDrop4 : (be 4 edate.toNat ++ (be 4 mdate.toNat ++ ([0, UInt8.ofNat version.toNat] ++
      (flag :: value)))).drop 4 =
        be 4 mdate.toNat ++ ([0, UInt8.ofNat version.toNat] ++ (flag :: value)) :=
    drop_left' (by simp)
  have hDrop8 : (be 4 edate.toNat ++ (be 4 mdate.toNat ++ ([0, UInt8.ofNat version.toNat] ++
      (flag :: value)))).drop 8 = [0, UInt8.ofNat version.toNat] ++ (flag :: value) := by
    rw [show 8 = 4 + 4 from rfl, ← drop_drop, hDrop4]
    exact drop_left' (by simp)
  rw [hBuf, decodeFromBuf]
  simp only [ValueMeta.mk.injEq]
  refine ⟨?_, ?_, ?_, ?_⟩
  · rw [getD_eq_getElem?_getD, show 10 = 8 + 2 from rfl, ← getElem?_drop, hDrop8]
    rfl
  · rw [hDrop8]
    simp [ofBe]
  · rw [hDrop4, take_left' (by simp), ofBe_be_of_lt hMdate, UInt32.ofNat_toNat]
  · rw [take_left' (by simp), ofBe_be_of_lt hEdate, UInt32.ofNat_toNat]

namespace RdbItem

/-- `assign` of what `set` has written gives the dates, version, flag and value. -/
def RoundTrips (m : ValueMeta) (v : Bytes) : Prop :=
  ∃ data, set m v = some data ∧ assign data = m ∧ value data = v

/-- What `set` writes, for a size that is positive as an `int32_t`. -/
theorem set_of_pos {m : ValueMeta} {v : Bytes} (hPos : 0 < int32Size v.length)
    (hSize : int32Size v.length + ValueMeta.size < 2 ^ 31) :
    set m v = some (m.encodeToBuf ++ v.take (int32Size v.length)) := by
  rw [set, if_neg (by omega), if_neg (by omega)]

/-- Nothing is written, or dates and value, or the array is not allocated. -/
theorem set_eq_some {m : ValueMeta} {v data : Bytes} (h : set m v = some data) :
    (int32Size v.length = 0 ∧ data = []) ∨
      (0 < int32Size v.length ∧ int32Size v.length + ValueMeta.size < 2 ^ 31 ∧
        data = m.encodeToBuf ++ v.take (int32Size v.length)) := by
  by_cases hZero : int32Size v.length = 0
  · rw [set, if_pos hZero] at h
    exact .inl ⟨hZero, (Option.some.inj h).symm⟩
  · by_cases hSize : int32Size v.length + ValueMeta.size < 2 ^ 31
    · rw [set_of_pos (by omega) hSize] at h
      exact .inr ⟨by omega, hSize, (Option.some.inj h).symm⟩
    · rw [set, if_neg hZero, if_pos (by omega)] at h
      cases h

theorem assign_set (m : ValueMeta) (v : Bytes) :
    assign (m.encodeToBuf ++ v) = { m with version := UInt16.ofNat (m.version.toNat % 256) } := by
  rw [assign, if_pos (by simp), ValueMeta.decodeFromBuf_encodeToBuf]

theorem value_set (m : ValueMeta) (v : Bytes) : value (m.encodeToBuf ++ v) = v :=
  drop_left' m.encodeToBuf_length

/-- A value that is written in full is no longer than its size can say. -/
theorem length_lt_of_take_eq {v : Bytes} (h : v.take (int32Size v.length) = v) :
    v.length < 2 ^ 31 := by
  have hLen := congrArg List.length h
  rw [length_take] at hLen
  have hSize := int32Size_lt v.length
  omega

theorem version_eq_iff (version : UInt16) :
    UInt16.ofNat (version.toNat % 256) = version ↔ version.toNat < 256 := by
  rw [← UInt16.toNat_inj, UInt16.toNat_ofNat']
  omega

/-- For all dates, versions, flags and values: an item is read back as it was set exactly
if the value is not empty, the item not larger than an `int32_t` says and the version
below 256; or nothing was set but defaults. -/
theorem roundTrips_iff (m : ValueMeta) (v : Bytes) :
    RoundTrips m v ↔
      (v = [] ∧ m = {}) ∨
        (v ≠ [] ∧ v.length + ValueMeta.size < 2 ^ 31 ∧ m.version.toNat < 256) := by
  constructor
  · rintro ⟨data, hSet, hAssign, hValue⟩
    rcases set_eq_some hSet with ⟨-, rfl⟩ | ⟨hPos, hSize, rfl⟩
    · -- The early return: nothing is written.
      exact .inl ⟨hValue.symm, hAssign.symm⟩
    · rw [value_set] at hValue
      have hLen := length_lt_of_take_eq hValue
      rw [int32Size_of_lt hLen] at hPos hSize
      rw [assign_set] at hAssign
      exact .inr ⟨List.length_pos_iff.mp hPos, hSize,
        (version_eq_iff _).mp (congrArg ValueMeta.version hAssign)⟩
  · rintro (⟨rfl, rfl⟩ | ⟨hNe, hSize, hVersion⟩)
    · exact ⟨[], rfl, rfl, rfl⟩
    · have hLen : int32Size v.length = v.length := int32Size_of_lt (by omega)
      have hPos : 0 < v.length := List.length_pos_iff.mpr hNe
      refine ⟨_, set_of_pos (by omega) (by omega), ?_, ?_⟩
      · rw [assign_set, (version_eq_iff _).mpr hVersion]
      · rw [value_set, hLen, take_length]

/-- Version 256 is read back as 0, and with an empty value the dates are. -/
theorem set_loses_version_and_dates :
    ¬ RoundTrips { version := 256 } [42] ∧ ¬ RoundTrips { edate := 9, mdate := 7 } [] := by
  constructor
  · rintro ⟨data, hSet, hAssign, -⟩
    cases hSet
    revert hAssign
    decide
  · rintro ⟨data, hSet, hAssign, -⟩
    cases hSet
    revert hAssign
    decide

end RdbItem

end MyBase
