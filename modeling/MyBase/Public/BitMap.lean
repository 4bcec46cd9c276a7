import MyBase.Lib.Run
import MyBase.Lib.Tally

/-!
# MyBase — the count of a `CBitMap`

A bit map keeps its bits in an array of bytes and, beside it, the number of those that
are set, which `set` and `clear` adjust. `reset` clears the array and not the count.

With `isSafe`, each call holds a mutex; that makes no difference to what it does. The
array is never null behind the constructor. `none` is an access outside the array.

* `size_counts_iff` — `size()` is the number of set bits all along a sequence of calls
  just if every `reset` finds no bit set.
-/

namespace MyBase

open Lib List

structure CBitMap where
  bitSize : UInt32
  bitValue : List (BitVec 8)
deriving DecidableEq, Repr

namespace CBitMap

/-- The constructor. -/
def create (num : UInt32) : CBitMap := ⟨0, List.replicate (num.toNat / 8 + 1) 0⟩

def resize (num : UInt32) (flag : Bool) : CBitMap :=
  if !flag then ⟨0, List.replicate (num.toNat / 8 + 1) 0⟩
  else ⟨num, List.replicate (num.toNat / 8 + 1) 0xff⟩

def reset (m : CBitMap) : CBitMap :=
  { m with bitValue := List.replicate m.bitValue.length 0 }

def set (m : CBitMap) (num : Nat) : Option CBitMap := do
  let byte ← m.bitValue[num / 8]?
  return {
    bitSize := if (byte >>> (num % 8)) &&& 1 ≠ 1 then m.bitSize + 1 else m.bitSize
    bitValue := m.bitValue.set (num / 8) (byte ||| (1#8 <<< (num % 8))) }

def size (m : CBitMap) : UInt32 := m.bitSize

def clear (m : CBitMap) (num : Nat) : Option CBitMap := do
  let byte ← m.bitValue[num / 8]?
  return {
    bitSize := if (byte >>> (num % 8)) &&& 1 ≠ 0 then m.bitSize - 1 else m.bitSize
    bitValue := m.bitValue.set (num / 8) (byte &&& ~~~(1#8 <<< (num % 8))) }

def test (m : CBitMap) (num : Nat) : Option Bool := do
  let byte ← m.bitValue[num / 8]?
  return decide (byte &&& (1#8 <<< (num % 8)) ≠ 0)

end CBitMap

-- Bits of a byte

section Bits

variable (byte : BitVec 8) {i j : Nat}

theorem byte_test (hi : i < 8) : decide (byte &&& (1#8 <<< i) ≠ 0) = byte.getLsbD i := by
  rw [← BitVec.twoPow_eq, BitVec.and_twoPow]
  cases byte.getLsbD i with
  | false => simp
  | true =>
    have hBit : (BitVec.twoPow 8 i).getLsbD i = true := by
      rw [BitVec.getLsbD_twoPow]
      simp [hi]
    have hNe : BitVec.twoPow 8 i ≠ 0 := by
      intro hZero
      rw [hZero] at hBit
      simp at hBit
    simpa using hNe

theorem byte_shift (i : Nat) : (byte >>> i) &&& 1#8 = if byte.getLsbD i then 1 else 0 := by
  rw [BitVec.and_one_eq_setWidth_ofBool_getLsbD, BitVec.getLsbD_ushiftRight, Nat.add_zero]
  cases byte.getLsbD i <;> rfl

theorem byte_set (hi : i < 8) (j : Nat) :
    (byte ||| (1#8 <<< i)).getLsbD j = if j = i then true else byte.getLsbD j := by
  rw [BitVec.getLsbD_or, ← BitVec.twoPow_eq, BitVec.getLsbD_twoPow]
  by_cases hj : j = i
  · simp [hj, hi]
  · simp [hj, Ne.symm hj]

theorem byte_clear (hi : i < 8) (j : Nat) :
    (byte &&& ~~~(1#8 <<< i)).getLsbD j = if j = i then false else byte.getLsbD j := by
  rw [BitVec.getLsbD_and, BitVec.getLsbD_not, ← BitVec.twoPow_eq, BitVec.getLsbD_twoPow]
  by_cases hj : j = i
  · simp [hj, hi]
  · rw [if_neg hj]
    by_cases hLt : j < 8
    · simp [hLt, Ne.symm hj]
    · rw [BitVec.getLsbD_of_ge _ _ (by omega), Bool.false_and]

end Bits

namespace CBitMap

variable {m m' : CBitMap} {num i : Nat}

-- The bits

theorem test_eq (m : CBitMap) (i : Nat) :
    m.test i = (m.bitValue[i / 8]?).map fun byte => byte.getLsbD (i % 8) := by
  unfold test
  cases m.bitValue[i / 8]? with
  | none => rfl
  | some byte =>
    simp only [Option.bind_eq_bind, Option.bind_some, Option.map_some,
      byte_test byte (Nat.mod_lt i (by omega))]
    rfl

/-- One byte is replaced by one that differs from it in one bit. -/
theorem test_set {byte byte' : BitVec 8} {bitSize : UInt32} {bit : Bool}
    (hByte : m.bitValue[num / 8]? = some byte)
    (hBit : ∀ j, byte'.getLsbD j = if j = num % 8 then bit else byte.getLsbD j) :
    test ⟨bitSize, m.bitValue.set (num / 8) byte'⟩ = Function.update m.test num (some bit) := by
  obtain ⟨hLt, -⟩ := List.getElem?_eq_some_iff.mp hByte
  funext i
  rw [test_eq, Function.update_apply, test_eq]
  by_cases hIndex : i / 8 = num / 8
  · rw [hIndex, getElem?_set_self hLt, hByte, Option.map_some, Option.map_some, hBit]
    by_cases hEq : i = num
    · rw [if_pos hEq, if_pos (by rw [hEq])]
    · rw [if_neg hEq, if_neg (by omega)]
  · rw [getElem?_set_ne (Ne.symm hIndex), if_neg (by rintro rfl; exact hIndex rfl)]

/-- What `set` does to the bits. -/
theorem set_test (h : m.set num = some m') :
    m'.test = Function.update m.test num (some true) ∧
      m'.bitSize = (if m.test num = some true then m.bitSize else m.bitSize + 1) ∧
      m'.bitValue.length = m.bitValue.length := by
  obtain ⟨byte, hByte, hSome⟩ := Option.bind_eq_some_iff.mp h
  cases hSome
  refine ⟨test_set hByte (byte_set byte (Nat.mod_lt num (by omega))), ?_, length_set⟩
  rw [test_eq, hByte, Option.map_some]
  have hShift := byte_shift byte (num % 8)
  cases hBit : byte.getLsbD (num % 8) <;> simp [hShift, hBit]

/-- What `clear` does to the bits. -/
theorem clear_test (h : m.clear num = some m') :
    m'.test = Function.update m.test num (some false) ∧
      m'.bitSize = (if m.test num = some true then m.bitSize - 1 else m.bitSize) ∧
      m'.bitValue.length = m.bitValue.length := by
  obtain ⟨byte, hByte, hSome⟩ := Option.bind_eq_some_iff.mp h
  cases hSome
  refine ⟨test_set hByte (byte_clear byte (Nat.mod_lt num (by omega))), ?_, length_set⟩
  rw [test_eq, hByte, Option.map_some]
  have hShift := byte_shift byte (num % 8)
  cases hBit : byte.getLsbD (num % 8) <;> simp [hShift, hBit]

/-- All bytes are the same. -/
theorem test_replicate {byte : BitVec 8} {bitSize : UInt32} (bit : Bool) {count : Nat}
    (hBit : ∀ j < 8, byte.getLsbD j = bit) (h : i / 8 < count) :
    test ⟨bitSize, List.replicate count byte⟩ i = some bit := by
  rw [test_eq, getElem?_replicate, if_pos h, Option.map_some,
    hBit _ (Nat.mod_lt i (by omega))]

end CBitMap

-- Sequences of calls

inductive BitMapCall
  | set (num : UInt32)
  | clear (num : UInt32)
  | reset
  | resize (num : UInt32) (flag : Bool)
deriving DecidableEq, Repr

/-- A bit map, and the size it was given last. -/
structure BitMapRun where
  map : CBitMap
  num : UInt32
deriving DecidableEq, Repr

namespace BitMapRun

def start (num : UInt32) : BitMapRun := ⟨.create num, num⟩

def step (s : BitMapRun) : BitMapCall → Option BitMapRun
  | .set num => (s.map.set num.toNat).map fun map => { s with map }
  | .clear num => (s.map.clear num.toNat).map fun map => { s with map }
  | .reset => some { s with map := s.map.reset }
  | .resize num flag => some ⟨.resize num flag, num⟩

/-- Bit numbers are below the size. -/
def Below (s : BitMapRun) : BitMapCall → Prop
  | .set num => num < s.num
  | .clear num => num < s.num
  | .reset => True
  | .resize _ _ => True

/-- `reset` is called while the count is zero. -/
def ResetsEmpty (s : BitMapRun) : BitMapCall → Prop
  | .reset => s.map.size = 0
  | .set _ => True
  | .clear _ => True
  | .resize _ _ => True

/-- `size()` is the number of bit numbers for which `test` returns true. -/
def Counts (s : BitMapRun) : Prop :=
  s.map.size.toNat = tally (Finset.range s.num.toNat) s.map.test (some true)

instance (s : BitMapRun) (c : BitMapCall) : Decidable (s.Below c) :=
  match c with
  | .set num => inferInstanceAs (Decidable (num < s.num))
  | .clear num => inferInstanceAs (Decidable (num < s.num))
  | .reset => isTrue trivial
  | .resize _ _ => isTrue trivial

instance (s : BitMapRun) (c : BitMapCall) : Decidable (s.ResetsEmpty c) :=
  match c with
  | .reset => inferInstanceAs (Decidable (s.map.size = 0))
  | .set _ => isTrue trivial
  | .clear _ => isTrue trivial
  | .resize _ _ => isTrue trivial

instance (s : BitMapRun) : Decidable s.Counts :=
  inferInstanceAs (Decidable (_ = _))

/-- There is a byte for every bit number. -/
def Sized (s : BitMapRun) : Prop := s.map.bitValue.length = s.num.toNat / 8 + 1

variable {s s' : BitMapRun}

variable {num : UInt32} {c : BitMapCall} {map : CBitMap}

theorem Sized.getElem? (h : s.Sized) (hNum : num < s.num) :
    ∃ byte, s.map.bitValue[num.toNat / 8]? = some byte := by
  refine ⟨_, getElem?_eq_getElem (Nat.lt_of_lt_of_eq ?_ h.symm)⟩
  have hLt := UInt32.lt_iff_toNat_lt.mp hNum
  omega

/-- A call on a bit number below the size stays within the array. -/
theorem Sized.step (h : s.Sized) (hc : s.Below c) : ∃ s', s.step c = some s' ∧ s'.Sized := by
  cases c with
  | set num =>
    obtain ⟨byte, hByte⟩ := h.getElem? hc
    refine ⟨_, by rw [BitMapRun.step, CBitMap.set, hByte]; rfl, ?_⟩
    exact (length_set ..).trans h
  | clear num =>
    obtain ⟨byte, hByte⟩ := h.getElem? hc
    refine ⟨_, by rw [BitMapRun.step, CBitMap.clear, hByte]; rfl, ?_⟩
    exact (length_set ..).trans h
  | reset => exact ⟨_, rfl, (length_replicate ..).trans h⟩
  | resize num flag =>
    refine ⟨_, rfl, ?_⟩
    cases flag <;> exact length_replicate ..

theorem tally_le (s : BitMapRun) :
    tally (Finset.range s.num.toNat) s.map.test (some true) ≤ s.num.toNat := by
  have hCard := Finset.card_filter_le (Finset.range s.num.toNat) fun i => s.map.test i = some true
  rwa [Finset.card_range] at hCard

/-- Setting a bit counts it once. -/
theorem Counts.set (h : s.Counts) (hNum : num < s.num) (hMap : s.map.set num.toNat = some map) :
    Counts { s with map } := by
  obtain ⟨hTest, hSize, -⟩ := CBitMap.set_test hMap
  have hMem : num.toNat ∈ Finset.range s.num.toNat :=
    Finset.mem_range.mpr (UInt32.lt_iff_toNat_lt.mp hNum)
  have hTally := tally_update (f := s.map.test) hMem (some true) (some true)
  have hLe := tally_le { s with map }
  have hOld : s.map.bitSize.toNat = tally (Finset.range s.num.toNat) s.map.test (some true) := h
  show map.bitSize.toNat = tally (Finset.range s.num.toNat) map.test (some true)
  dsimp only at hLe
  rw [hTest] at hLe
  rw [hTest, hSize]
  by_cases hBit : s.map.test num.toNat = some true
  · rw [if_pos hBit]
    rw [if_pos hBit, if_pos rfl] at hTally
    omega
  · rw [if_neg hBit, UInt32.toNat_add, UInt32.toNat_one]
    rw [if_neg hBit, if_pos rfl] at hTally
    have hBound := s.num.toNat_lt
    rw [Nat.mod_eq_of_lt (by omega)]
    omega

theorem Counts.clear (h : s.Counts) (hNum : num < s.num) (hMap : s.map.clear num.toNat = some map) :
    Counts { s with map } := by
  obtain ⟨hTest, hSize, -⟩ := CBitMap.clear_test hMap
  have hMem : num.toNat ∈ Finset.range s.num.toNat :=
    Finset.mem_range.mpr (UInt32.lt_iff_toNat_lt.mp hNum)
  have hTally := tally_update (f := s.map.test) hMem (some false) (some true)
  have hOld : s.map.bitSize.toNat = tally (Finset.range s.num.toNat) s.map.test (some true) := h
  show map.bitSize.toNat = tally (Finset.range s.num.toNat) map.test (some true)
  rw [if_neg (by simp : ¬ some false = some true)] at hTally
  rw [hTest, hSize]
  by_cases hBit : s.map.test num.toNat = some true
  · rw [if_pos hBit] at hTally ⊢
    rw [UInt32.toNat_sub_of_le _ _ (by rw [UInt32.le_iff_toNat_le, UInt32.toNat_one]; omega),
      UInt32.toNat_one]
    omega
  · rw [if_neg hBit] at hTally ⊢
    omega

theorem Sized.reset_tally (h : s.Sized) :
    tally (Finset.range s.num.toNat) s.map.reset.test (some true) = 0 := by
  refine tally_eq_zero fun i hi => ?_
  have hLt := Finset.mem_range.mp hi
  rw [CBitMap.reset, CBitMap.test_replicate false (by simp) (by rw [h]; omega)]
  simp

theorem counts_resize (num : UInt32) (flag : Bool) : Counts ⟨.resize num flag, num⟩ := by
  have hIndex : ∀ i ∈ Finset.range num.toNat, i / 8 < num.toNat / 8 + 1 := by
    intro i hi
    have hLt := Finset.mem_range.mp hi
    omega
  cases flag with
  | false =>
    refine (tally_eq_zero fun i hi => ?_).symm
    rw [CBitMap.resize, if_pos (by rfl), CBitMap.test_replicate false (by simp) (hIndex i hi)]
    simp
  | true =>
    have hAll : ∀ i ∈ Finset.range num.toNat,
        (CBitMap.resize num true).test i = some true := fun i hi => by
      rw [CBitMap.resize, if_neg (by simp),
        CBitMap.test_replicate true (by decide) (hIndex i hi)]
    show num.toNat = tally _ _ _
    rw [tally, Finset.filter_true_of_mem hAll, Finset.card_range]

/-- **Step lemma.** -/
theorem Counts.step (h : s.Counts) (hSized : s.Sized) (hc : s.Below c)
    (hStep : s.step c = some s') : s'.Counts ↔ s.ResetsEmpty c := by
  cases c with
  | set num =>
    obtain ⟨map, hMap, rfl⟩ := Option.map_eq_some_iff.mp hStep
    exact iff_of_true (h.set hc hMap) trivial
  | clear num =>
    obtain ⟨map, hMap, rfl⟩ := Option.map_eq_some_iff.mp hStep
    exact iff_of_true (h.clear hc hMap) trivial
  | reset =>
    cases hStep
    show s.map.bitSize.toNat = _ ↔ s.map.bitSize = 0
    rw [hSized.reset_tally, ← UInt32.toNat_inj]
    rfl
  | resize num flag =>
    cases hStep
    exact iff_of_true (counts_resize num flag) trivial

/-- For every size and every sequence of calls on bit numbers below the size of the
moment, no access leaves the array, and `size()` is the number of bit numbers for which
`test` returns true in all states on the way if and only if `size()` is 0 whenever `reset`
is called. -/
theorem size_counts_iff (num : UInt32) {calls : List BitMapCall}
    (hBelow : Along step Below (start num) calls) :
    (∃ s, run step (start num) calls = some s) ∧
      ((∀ before s, before <+: calls → run step (start num) before = some s → s.Counts) ↔
        Along step ResetsEmpty (start num) calls) := by
  have hSized : (start num).Sized := length_replicate ..
  have hCounts : (start num).Counts := counts_resize num false
  refine ⟨?_, run_keeps_iff Sized ?_ hSized hCounts hBelow⟩
  · obtain ⟨s, hRun, -⟩ := run_total (fun _ _ hc hInv => Sized.step hInv hc) hSized hBelow
    exact ⟨s, hRun⟩
  · intro s c hc hInv
    obtain ⟨s', hStep, hInv'⟩ := hInv.step hc
    exact ⟨s', hStep, hInv', fun hOld => hOld.step hInv hc hStep⟩

theorem size_counts_iff_ten :
    Along step Below (start 10) [.set 9, .set 9, .clear 9, .reset, .resize 3 true, .clear 0] ∧
      ∀ before s, before <+: [.set 9, .set 9, .clear 9, .reset, .resize 3 true, .clear 0] →
        run step (start 10) before = some s → s.Counts := by
  have hBelow : Along step Below (start 10)
      [.set 9, .set 9, .clear 9, .reset, .resize 3 true, .clear 0] := by decide
  exact ⟨hBelow, (size_counts_iff 10 hBelow).2.mpr (by decide)⟩

/-- A bit is set, and the map is reset. -/
theorem size_after_reset :
    Along step Below (start 31) [.set 5, .reset] ∧
      ∃ s, run step (start 31) [.set 5, .reset] = some s ∧ s.map.size = 1 ∧
        (∀ i < 31, s.map.test i = some false) ∧ ¬ s.Counts :=
  ⟨by decide, _, rfl, rfl, by decide, by decide⟩

end BitMapRun

end MyBase
