import MyBase.Lib.Bytes
import MyBase.Lib.Loop

/-!
# MyBase — reading and filling a `Buffer`

The part of `Buffer` that works on bytes that are already there: a wrapped buffer, or
one that has been filled. `bytes` reaches from `_pstart` to `_pfree`, and `pdata` is
the position of `_pdata`. An access outside of it is `none`: `readInt32` asserts, and
`fillInt32` writes past the end.

`alloc` is how much memory a new buffer gets, which may be less than was asked for. The loop
that looks for it, `doubling`, is the one that `expand` makes room with.

* `left_doubling_iff` — the loop is left with the first size that it takes for enough;
* `left_new_iff` — for a new buffer that is a size up to `2 ^ 30`, or the loop goes on for ever.
-/

namespace MyBase

open Lib

structure Buffer where
  bytes : Bytes
  pdata : Nat
deriving DecidableEq, Repr

namespace Buffer

/-- One pass of `while (size - dlen < need) size <<= 1` in `expand`, for an `int32_t`; for a new
buffer `dlen` is zero. -/
def doubling (dlen need : BitVec 32) : BitVec 32 → Option (BitVec 32) :=
  whilePass (fun size => (size - dlen).slt need) fun size => size <<< 1

/-- `Buffer::alloc`: the memory of a new buffer, for a `uint32_t` that is taken as an
`int32_t`; what is negative is less than the least memory, as zero is. `none`: the size has
become negative, and then zero, for ever. -/
def alloc (size : Nat) : Option Nat :=
  (loop (doubling 0 (BitVec.ofNat 32 (if size < 2 ^ 31 then size else 0))) 23 256).map BitVec.toNat

/-- `Buffer(wrapbuf, len)`. -/
def wrap (bs : Bytes) : Buffer := ⟨bs, 0⟩

/-- `curData` and `curDataLen`. -/
def curData (b : Buffer) : Bytes := b.bytes.drop b.pdata

/-- `pos` refuses a position at or behind the end; nobody looks at what it returns. -/
def pos (b : Buffer) (p : Nat) : Buffer :=
  if b.bytes.length ≤ p then b else { b with pdata := p }

/-- `readInt32`, with its assertion. -/
def readInt32 (b : Buffer) : Option (Nat × Buffer) :=
  if b.pdata + 4 ≤ b.bytes.length then
    some (ofBe (b.curData.take 4), { b with pdata := b.pdata + 4 })
  else none

/-- `fillInt16` and `fillInt32` at the current position, `w` bytes wide. -/
def fill (w : Nat) (b : Buffer) (n : Nat) : Option Buffer :=
  if b.pdata + w ≤ b.bytes.length then
    some { b with bytes := b.bytes.take b.pdata ++ be w n ++ b.bytes.drop (b.pdata + w) }
  else none

-- ---------------------------------------------------------------------------
-- Doubling
-- ---------------------------------------------------------------------------

section Doubling

variable {dlen need n : Nat} {size size' : BitVec 32}

theorem toNat_iterate_shiftLeft (size : BitVec 32) (n : Nat) :
    ((fun size : BitVec 32 => size <<< 1)^[n] size).toNat = 2 ^ n * size.toNat % 2 ^ 32 := by
  induction n with
  | zero =>
    have hLt := size.isLt
    simp only [Function.iterate_zero, id_eq, pow_zero, one_mul]
    omega
  | succ n ih =>
    rw [Function.iterate_succ_apply', BitVec.toNat_shiftLeft, ih, Nat.shiftLeft_eq, pow_one,
      Nat.mod_mul_mod, Nat.pow_succ]
    congr 1
    ring

/-- What the loop takes for enough: a size up to where the difference wraps around. -/
def Enough (dlen need size : Nat) : Prop := dlen + need ≤ size ∧ size < 2 ^ 31 + dlen

/-- The condition of the loop, read as numbers. -/
theorem slt_sub_eq_false (size : BitVec 32) (hData : dlen < 2 ^ 31) (hNeed : need < 2 ^ 31) :
    (size - BitVec.ofNat 32 dlen).slt (BitVec.ofNat 32 need) = false ↔
      Enough dlen need size.toNat := by
  have hLt := size.isLt
  rw [BitVec.slt, decide_eq_false_iff_not, BitVec.toInt_eq_toNat_cond, BitVec.toInt_eq_toNat_cond,
    BitVec.toNat_sub, BitVec.toNat_ofNat, BitVec.toNat_ofNat, Enough]
  omega

/-- The loop is left after `n` passes, with the first size that it takes for enough. -/
theorem left_doubling_iff (hData : dlen < 2 ^ 31) (hNeed : need < 2 ^ 31) :
    (after (doubling (BitVec.ofNat 32 dlen) (BitVec.ofNat 32 need)) size n = some size' ∧
        doubling (BitVec.ofNat 32 dlen) (BitVec.ofNat 32 need) size' = none) ↔
      size'.toNat = 2 ^ n * size.toNat % 2 ^ 32 ∧ Enough dlen need size'.toNat ∧
        ∀ m < n, ¬ Enough dlen need (2 ^ m * size.toNat % 2 ^ 32) := by
  have hBefore : (∀ m < n, ((fun size : BitVec 32 => size <<< 1)^[m] size -
        BitVec.ofNat 32 dlen).slt (BitVec.ofNat 32 need) = true) ↔
      ∀ m < n, ¬ Enough dlen need (2 ^ m * size.toNat % 2 ^ 32) := by
    refine forall₂_congr fun m _ => ?_
    rw [← Bool.not_eq_false, slt_sub_eq_false _ hData hNeed, toNat_iterate_shiftLeft]
  rw [doubling, after_whilePass, whilePass_eq_none, slt_sub_eq_false _ hData hNeed, hBefore,
    ← BitVec.toNat_inj, toNat_iterate_shiftLeft]
  tauto

/-- **A new buffer**: 256 is doubled at most 22 times. After that the size is negative, and then
zero, and neither is enough. -/
theorem left_new_iff (hNeed : need < 2 ^ 31) :
    (after (doubling 0 (BitVec.ofNat 32 need)) 256 n = some size' ∧
        doubling 0 (BitVec.ofNat 32 need) size' = none) ↔
      n < 23 ∧ size'.toNat = 2 ^ n * 256 ∧ need ≤ 2 ^ n * 256 ∧ ∀ m < n, 2 ^ m * 256 < need := by
  have hLeft : (after (doubling 0 (BitVec.ofNat 32 need)) 256 n = some size' ∧
        doubling 0 (BitVec.ofNat 32 need) size' = none) ↔
      size'.toNat = 2 ^ n * 256 % 2 ^ 32 ∧ Enough 0 need size'.toNat ∧
        ∀ m < n, ¬ Enough 0 need (2 ^ m * 256 % 2 ^ 32) :=
    left_doubling_iff (by omega : 0 < 2 ^ 31) hNeed
  have hPow : ∀ n < 23, 2 ^ n ≤ 2 ^ 22 := fun n hn => Nat.pow_le_pow_right (by omega) (by omega)
  rw [hLeft]
  unfold Enough
  constructor
  · rintro ⟨hSize, ⟨hLow, hHigh⟩, hBefore⟩
    rw [hSize] at hLow hHigh
    have hn : n < 23 := by
      by_contra hMany
      rcases Nat.lt_or_ge 23 n with hMore | hLast
      · -- the size is zero: then 256 had been enough
        have hZero : 2 ^ n * 256 % 2 ^ 32 = 0 := by
          rw [show (256 : Nat) = 2 ^ 8 from rfl, ← pow_add]
          exact Nat.mod_eq_zero_of_dvd (Nat.pow_dvd_pow 2 (by omega))
        have hNot := hBefore 0 (by omega)
        rw [pow_zero, one_mul] at hNot
        omega
      · obtain rfl : n = 23 := by omega
        omega
    have hLe := hPow n hn
    refine ⟨hn, by omega, by omega, ?_⟩
    intro m hm
    have hNot := hBefore m hm
    have hLe := hPow m (by omega)
    omega
  · rintro ⟨hn, hSize, hLow, hBefore⟩
    have hLe := hPow n hn
    refine ⟨by omega, by omega, ?_⟩
    intro m hm
    have hLess := hBefore m hm
    omega

/-- Up to `2 ^ 30` bytes there is a size that is enough. -/
theorem exists_left_new (hNeed : need ≤ 2 ^ 30) : ∃ n < 23, ∃ size' : BitVec 32,
    after (doubling 0 (BitVec.ofNat 32 need)) 256 n = some size' ∧
      doubling 0 (BitVec.ofNat 32 need) size' = none ∧ need ≤ size'.toNat := by
  classical
  have hLast : need ≤ 2 ^ 22 * 256 := by omega
  have hSome : ∃ n, need ≤ 2 ^ n * 256 := ⟨22, hLast⟩
  have hFirst : ∀ m < Nat.find hSome, 2 ^ m * 256 < need := fun m hm =>
    Nat.lt_of_not_le (Nat.find_min hSome hm)
  have hEnough := Nat.find_spec hSome
  have hn : Nat.find hSome ≤ 22 := Nat.find_min' hSome hLast
  generalize Nat.find hSome = n at hFirst hEnough hn
  have hPow : 2 ^ n ≤ 2 ^ 22 := Nat.pow_le_pow_right (by omega) hn
  have hNat : (BitVec.ofNat 32 (2 ^ n * 256)).toNat = 2 ^ n * 256 := by
    rw [BitVec.toNat_ofNat, Nat.mod_eq_of_lt (by omega)]
  obtain ⟨hAfter, hLeft⟩ := (left_new_iff (by omega)).mpr ⟨by omega, hNat, hEnough, hFirst⟩
  exact ⟨n, by omega, _, hAfter, hLeft, by omega⟩

end Doubling

section alloc

variable {size : Nat}

/-- A new buffer of up to `2 ^ 30` bytes is large enough. -/
theorem alloc_of_le (h : size ≤ 2 ^ 30) : ∃ len, alloc size = some len ∧ size ≤ len := by
  obtain ⟨n, hn, len, hAfter, hLeft, hLe⟩ := exists_left_new h
  refine ⟨len.toNat, ?_, hLe⟩
  rw [alloc, if_pos (by omega), loop_eq_some_iff.mpr ⟨n, hn, hAfter, hLeft⟩, Option.map_some]

/-- Between `2 ^ 30` and `2 ^ 31` the loop does not end. -/
theorem alloc_eq_none (hLow : 2 ^ 30 < size) (hHigh : size < 2 ^ 31) : alloc size = none := by
  rw [alloc, if_pos hHigh, Option.map_eq_none_iff, Option.eq_none_iff_forall_ne_some]
  intro len hLoop
  obtain ⟨n, -, hLeft⟩ := loop_eq_some_iff.mp hLoop
  obtain ⟨hn, -, hLe, -⟩ := (left_new_iff hHigh).mp hLeft
  have hPow : 2 ^ n ≤ 2 ^ 22 := Nat.pow_le_pow_right (by omega) (by omega)
  omega

/-- From `2 ^ 31` on a new buffer keeps its 256 bytes. -/
theorem alloc_of_ge (h : 2 ^ 31 ≤ size) : alloc size = some 256 := by
  rw [alloc, if_neg (by omega)]
  rfl

end alloc

@[simp] theorem pos_bytes (b : Buffer) (p : Nat) : (b.pos p).bytes = b.bytes := by
  unfold pos
  split <;> rfl

theorem pos_of_lt {b : Buffer} {p : Nat} (h : p < b.bytes.length) :
    b.pos p = { b with pdata := p } := by
  unfold pos
  rw [if_neg (by omega)]

theorem pos_of_le {b : Buffer} {p : Nat} (h : b.bytes.length ≤ p) : b.pos p = b := by
  unfold pos
  rw [if_pos h]

end Buffer

end MyBase
