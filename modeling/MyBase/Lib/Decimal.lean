import MyBase.Lib.Bytes

/-!
# Numbers as decimal text

Decimal text as `std::to_string` and `%d` write it, and as `strtol` and the functions
built on it read it: white space, a sign, and digits up to the first byte that is none.

* `stoi_decimalInt`, `stoul_decimal`, `atoi_decimal` — the same with the ranges of the
  types.
-/

namespace MyBase.Lib

open List

-- Writing

/-- The text of a number. -/
def decimal (n : Nat) : Bytes := (Nat.toDigits 10 n).map Char.toUInt8

/-- The text of a signed number. -/
def decimalInt (z : Int) : Bytes := if z < 0 then 45 :: decimal z.natAbs else decimal z.natAbs

def digit (d : Nat) : UInt8 := UInt8.ofNat (48 + d)

def isDigit (b : UInt8) : Bool := 48 ≤ b && b ≤ 57

variable {n d : Nat} {b : UInt8}

theorem isDigit_iff : isDigit b = true ↔ 48 ≤ b.toNat ∧ b.toNat ≤ 57 := by
  simp [isDigit, UInt8.le_iff_toNat_le]

theorem digit_toNat (h : d < 10) : (digit d).toNat = 48 + d := by
  rw [digit, UInt8.toNat_ofNat']
  omega

theorem digitChar_toUInt8 (h : d < 10) : (Nat.digitChar d).toUInt8 = digit d := by
  revert d
  decide

theorem decimal_of_lt (h : n < 10) : decimal n = [digit n] := by
  rw [decimal, Nat.toDigits_of_lt_base h, map_singleton, digitChar_toUInt8 h]

theorem decimal_of_le (h : 10 ≤ n) : decimal n = decimal (n / 10) ++ [digit (n % 10)] := by
  have hLast : n % 10 < 10 := Nat.mod_lt _ (by decide)
  rw [decimal, Nat.toDigits_of_base_le (by decide) h, map_append, map_singleton,
    digitChar_toUInt8 hLast, decimal]

theorem decimal_ne_nil (n : Nat) : decimal n ≠ [] := by
  rcases Nat.lt_or_ge n 10 with h | h
  · simp [decimal_of_lt h]
  · simp [decimal_of_le h]

theorem decimal_length_le {w : Nat} (h : n < 10 ^ (w + 1)) : (decimal n).length ≤ w + 1 := by
  induction w generalizing n with
  | zero => simp [decimal_of_lt (by simpa using h)]
  | succ w ih =>
    rcases Nat.lt_or_ge n 10 with hn | hn
    · simp [decimal_of_lt hn]
    · rw [Nat.pow_succ] at h
      rw [decimal_of_le hn, length_append, length_singleton]
      exact Nat.succ_le_succ (ih (by omega))

theorem isDigit_of_mem_decimal (h : b ∈ decimal n) : isDigit b = true := by
  induction n using Nat.strong_induction_on with
  | _ n ih =>
    have hDigit : ∀ d, d < 10 → isDigit (digit d) = true := by
      intro d hd
      rw [isDigit_iff, digit_toNat hd]
      omega
    rcases Nat.lt_or_ge n 10 with hn | hn
    · rw [decimal_of_lt hn, mem_singleton] at h
      rw [h]
      exact hDigit n hn
    · rw [decimal_of_le hn, mem_append, mem_singleton] at h
      rcases h with h | rfl
      · exact ih (n / 10) (by omega) h
      · exact hDigit _ (Nat.mod_lt _ (by decide))

-- Reading

/-- The number that digits denote. -/
def number (ds : Bytes) : Nat := ds.foldl (fun n b => n * 10 + (b.toNat - 48)) 0

theorem number_append_singleton (ds : Bytes) (b : UInt8) :
    number (ds ++ [b]) = number ds * 10 + (b.toNat - 48) := by
  simp [number, foldl_append]

/-- The digits of a number denote it. -/
theorem number_decimal (n : Nat) : number (decimal n) = n := by
  induction n using Nat.strong_induction_on with
  | _ n ih =>
    rcases Nat.lt_or_ge n 10 with hn | hn
    · simp [decimal_of_lt hn, number, digit_toNat hn]
    · rw [decimal_of_le hn, number_append_singleton, ih (n / 10) (by omega),
        digit_toNat (Nat.mod_lt _ (by decide))]
      omega

def isSpace (b : UInt8) : Bool := b == 32 || (9 ≤ b && b ≤ 13)

/-- The digits in front, if there are any. -/
def scanDigits (negative : Bool) (bs : Bytes) : Option (Bool × Nat) :=
  let ds := bs.takeWhile isDigit
  if ds = [] then none else some (negative, number ds)

/-- `strtol` before the number is put into its type: whether it is negative, and its
digits. `none`: there are none. -/
def scanNumber (bs : Bytes) : Option (Bool × Nat) :=
  let text := bs.dropWhile isSpace
  if text.head? = some 45 then scanDigits true text.tail
  else if text.head? = some 43 then scanDigits false text.tail
  else scanDigits false text

/-- `std::stoi`; `none`: it throws. -/
def stoi (bs : Bytes) : Option Int :=
  (scanNumber bs).bind fun (negative, n) =>
    let z : Int := if negative then -n else n
    if -2 ^ 31 ≤ z ∧ z < 2 ^ 31 then some z else none

/-- `std::stoul`; `none`: it throws. A negative number is taken modulo the type. -/
def stoul (bs : Bytes) : Option Nat :=
  (scanNumber bs).bind fun (negative, n) =>
    if n < 2 ^ 64 then some (if negative then (2 ^ 64 - n) % 2 ^ 64 else n) else none

/-- `atoi`: a `long`, at its bounds if the number is outside of them, cut to an `int`. -/
def atoi (bs : Bytes) : Int :=
  match scanNumber bs with
  | none => 0
  | some (negative, n) =>
    Int.bmod (if negative then -min n (2 ^ 63) else min n (2 ^ 63 - 1)) (2 ^ 32)

-- Reading what was written

theorem scanDigits_decimal (negative : Bool) (n : Nat) :
    scanDigits negative (decimal n) = some (negative, n) := by
  have hAll : (decimal n).takeWhile isDigit = decimal n :=
    List.takeWhile_eq_self_iff.mpr fun _ => isDigit_of_mem_decimal
  simp [scanDigits, hAll, decimal_ne_nil, number_decimal]

/-- The text of a number begins with a digit, so neither with white space nor a sign. -/
theorem exists_decimal_eq_cons (n : Nat) :
    ∃ b rest, decimal n = b :: rest ∧ isDigit b = true := by
  obtain ⟨b, rest, hCons⟩ := exists_cons_of_ne_nil (decimal_ne_nil n)
  exact ⟨b, rest, hCons, isDigit_of_mem_decimal (n := n) (by simp [hCons])⟩

theorem scanNumber_decimal (n : Nat) : scanNumber (decimal n) = some (false, n) := by
  have hScan := scanDigits_decimal false n
  obtain ⟨b, ds, hCons, hDigit⟩ := exists_decimal_eq_cons n
  rw [hCons] at hScan ⊢
  rw [isDigit_iff] at hDigit
  have hSpace : isSpace b = false := by
    simp only [isSpace, Bool.or_eq_false_iff, beq_eq_false_iff_ne, ne_eq, Bool.and_eq_false_iff,
      decide_eq_false_iff_not, UInt8.le_iff_toNat_le, ← UInt8.toNat_inj]
    simp
    omega
  have hMinus : b ≠ 45 := by
    rintro rfl
    simp at hDigit
  have hPlus : b ≠ 43 := by
    rintro rfl
    simp at hDigit
  simp [scanNumber, hSpace, hMinus, hPlus, hScan]

/-- What is read from the text of a number. -/
theorem scanNumber_decimalInt (z : Int) :
    scanNumber (decimalInt z) = some (decide (z < 0), z.natAbs) := by
  unfold decimalInt
  by_cases hz : z < 0
  · have hSpace : isSpace 45 = false := by decide
    simp [hz, scanNumber, hSpace, scanDigits_decimal]
  · simp [hz, scanNumber_decimal]

theorem stoi_decimalInt {z : Int} (hLow : -2 ^ 31 ≤ z) (hHigh : z < 2 ^ 31) :
    stoi (decimalInt z) = some z := by
  have hSigned : (if decide (z < 0) = true then -(z.natAbs : Int) else z.natAbs) = z := by
    by_cases hz : z < 0
    · rw [if_pos (by simpa using hz)]
      omega
    · rw [if_neg (by simpa using hz)]
      omega
  simp only [stoi, scanNumber_decimalInt, Option.bind_some, hSigned]
  exact if_pos ⟨hLow, hHigh⟩

theorem stoul_decimal (h : n < 2 ^ 64) : stoul (decimal n) = some n := by
  simp only [stoul, scanNumber_decimal, Option.bind_some, if_pos h, Bool.false_eq_true, if_false]

theorem atoi_decimal (h : n < 2 ^ 31) : atoi (decimal n) = n := by
  have hMin : min (n : Int) (2 ^ 63 - 1) = n := by omega
  simp only [atoi, scanNumber_decimal, Bool.false_eq_true, if_false, hMin]
  exact Int.bmod_eq_of_le (by omega) (by omega)

end MyBase.Lib
