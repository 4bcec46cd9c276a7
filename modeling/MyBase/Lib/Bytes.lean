import Mathlib

/-!
# Byte strings: big-endian integers and positioned reads

The byte-level vocabulary of on-disk formats, independent of any particular
format:

* `be w n` / `ofBe bs` — the `w`-byte big-endian encoding of `n` (low-order
  bits kept) and its decoding;
* `readInt w bs` — consume one `w`-byte integer from the front of a cursor,
  failing when fewer than `w` bytes are left;
* `pread file pos len` — the bytes a positioned read returns: at most `len`
  of them, fewer at the end of the file.

Main results: `ofBe_be` (round trip modulo `256 ^ w`), `readInt_be_append`
(a cursor reads back what was written in front of it) and the `pread` lemmas
locating a block inside a concatenation.
-/

namespace MyBase.Lib

open List

abbrev Bytes := List UInt8

-- Big-endian integers

/-- The `w`-byte big-endian encoding of `n`; higher-order bits are dropped. -/
def be : Nat → Nat → Bytes
  | 0, _ => []
  | w + 1, n => be w (n / 256) ++ [UInt8.ofNat n]

/-- The number a big-endian byte string denotes. -/
def ofBe (bs : Bytes) : Nat :=
  bs.foldl (fun n b => n * 256 + b.toNat) 0

@[simp] theorem be_length (w n : Nat) : (be w n).length = w := by
  induction w generalizing n with
  | zero => rfl
  | succ w ih => simp [be, ih]

@[simp] theorem ofBe_nil : ofBe [] = 0 := rfl

theorem ofBe_append_singleton (bs : Bytes) (b : UInt8) :
    ofBe (bs ++ [b]) = ofBe bs * 256 + b.toNat := by
  simp [ofBe, foldl_append]

/-- Decoding an encoding returns the number modulo the width. -/
theorem ofBe_be (w n : Nat) : ofBe (be w n) = n % 256 ^ w := by
  induction w generalizing n with
  | zero => simp [be, Nat.mod_one]
  | succ w ih =>
    rw [be, ofBe_append_singleton, ih]
    have hByte : (UInt8.ofNat n).toNat = n % 256 := by simp
    rw [hByte, Nat.pow_succ, Nat.mul_comm (256 ^ w) 256, Nat.mod_mul]
    omega

variable {w n pos len : Nat} {file : Bytes}

theorem ofBe_be_of_lt (h : n < 256 ^ w) : ofBe (be w n) = n := by
  rw [ofBe_be, Nat.mod_eq_of_lt h]

theorem ofBe_lt (bs : Bytes) : ofBe bs < 256 ^ bs.length := by
  induction bs using List.reverseRecOn with
  | nil => simp
  | append_singleton bs b ih =>
    rw [ofBe_append_singleton, length_append, length_singleton, Nat.pow_succ]
    have hb : b.toNat < 256 := UInt8.toNat_lt b
    omega

/-- Encoding what a byte string denotes, at its own width, returns the string. -/
theorem be_ofBe (bs : Bytes) : be bs.length (ofBe bs) = bs := by
  induction bs using List.reverseRecOn with
  | nil => rfl
  | append_singleton bs b ih =>
    have hb : b.toNat < 256 := UInt8.toNat_lt b
    have hDiv : (ofBe bs * 256 + b.toNat) / 256 = ofBe bs := by omega
    have hLow : UInt8.ofNat (ofBe bs * 256 + b.toNat) = b := by
      apply UInt8.toNat_inj.mp
      rw [UInt8.toNat_ofNat']
      omega
    rw [length_append, length_singleton, be, ofBe_append_singleton, hDiv, ih, hLow]

/-- Consume one `w`-byte integer from the front of a cursor. -/
def readInt (w : Nat) (bs : Bytes) : Option (Nat × Bytes) :=
  if w ≤ bs.length then some (ofBe (bs.take w), bs.drop w) else none

theorem readInt_be_append (h : n < 256 ^ w) (rest : Bytes) :
    readInt w (be w n ++ rest) = some (n, rest) := by
  unfold readInt
  rw [if_pos (by simp)]
  have hTake : (be w n ++ rest).take w = be w n := by
    rw [take_append_of_le_length (by simp), take_of_length_le (by simp)]
  have hDrop : (be w n ++ rest).drop w = rest := by
    rw [drop_append_of_le_length (by simp), drop_of_length_le (by simp),
      nil_append]
  rw [hTake, hDrop, ofBe_be_of_lt h]

/-- What can be read is what was written. -/
theorem readInt_eq_some_iff {bs rest : Bytes} :
    readInt w bs = some (n, rest) ↔ n < 256 ^ w ∧ bs = be w n ++ rest := by
  constructor
  · intro h
    unfold readInt at h
    split_ifs at h with hLen
    have hTake : (bs.take w).length = w := by
      rw [length_take]
      omega
    obtain ⟨rfl, rfl⟩ := Prod.mk.inj (Option.some.inj h)
    constructor
    · have := ofBe_lt (bs.take w)
      rwa [hTake] at this
    · have hFront := be_ofBe (bs.take w)
      rw [hTake] at hFront
      rw [hFront, take_append_drop]
  · rintro ⟨hn, rfl⟩
    exact readInt_be_append hn rest

-- Positioned reads

/-- What a read of `len` bytes at offset `pos` returns. -/
def pread (file : Bytes) (pos len : Nat) : Bytes :=
  (file.drop pos).take len

theorem pread_length (file : Bytes) (pos len : Nat) :
    (pread file pos len).length = min len (file.length - pos) := by
  simp [pread]

/-- A read that returns the requested number of bytes stayed inside the file. -/
theorem pread_length_eq_iff : (pread file pos len).length = len ↔ len ≤ file.length - pos := by
  rw [pread_length]
  omega

/-- Reading a block back from the place it was written to. -/
theorem pread_append_mid (pre mid post : Bytes) :
    pread (pre ++ mid ++ post) pre.length mid.length = mid := by
  unfold pread
  rw [append_assoc, drop_left, take_left]

/-- Bytes appended to a file do not change reads inside it. -/
theorem pread_append_of_le {extra : Bytes} (h : pos + len ≤ file.length) :
    pread (file ++ extra) pos len = pread file pos len := by
  unfold pread
  rw [drop_append_of_le_length (by omega),
    take_append_of_le_length (by rw [length_drop]; omega)]

end MyBase.Lib
