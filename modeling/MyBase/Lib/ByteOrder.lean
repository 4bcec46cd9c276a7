import MyBase.Lib.Bytes

/-!
# The order of byte strings

Byte strings in the order of `memcmp`, a shorter one before what it is a prefix of, as
ordered stores have them, and ranges that include where they start and not where they
end.

* `append_lt_iff` — strings of one length are ordered as the numbers they denote, and
  what follows them does not matter;
* `inRange_be_iff` — a range between big-endian numbers has the strings that begin with
  a number between them;
* `inRange_append` — a range between two strings that differ in the last byte only has
  what begins with the first.
-/

namespace MyBase.Lib

namespace ByteOrder

/-- The byte order as a linear order, for the maps that need one. -/
scoped instance : LinearOrder Bytes where
  le_refl := List.le_refl
  le_trans _ _ _ := List.le_trans
  lt_iff_le_not_ge _ _ := Std.lt_iff_le_and_not_ge
  le_antisymm _ _ := List.le_antisymm
  le_total := List.le_total
  toDecidableLE := inferInstance
  toDecidableEq := inferInstance
  toDecidableLT := inferInstance
  compare a b := compareOfLessAndEq a b
  compare_eq_compareOfLessAndEq _ _ := rfl

end ByteOrder

/-- From `start` on and before `stop`. -/
def InRange (start stop k : Bytes) : Prop := start ≤ k ∧ k < stop

instance (start stop k : Bytes) : Decidable (InRange start stop k) :=
  inferInstanceAs (Decidable (_ ∧ _))

theorem ofBe_cons (b : UInt8) (bs : Bytes) :
    ofBe (b :: bs) = b.toNat * 256 ^ bs.length + ofBe bs := by
  induction bs using List.reverseRecOn with
  | nil => simp [ofBe]
  | append_singleton bs c ih =>
    rw [← List.cons_append, ofBe_append_singleton, ih, ofBe_append_singleton, List.length_append,
      List.length_singleton, Nat.pow_succ]
    ring

/-- Strings of one length are ordered as the numbers they denote, whatever follows. -/
theorem append_lt_iff {p q : Bytes} (h : p.length = q.length) (x : Bytes) :
    p ++ x < q ↔ ofBe p < ofBe q := by
  induction p generalizing q with
  | nil =>
    obtain rfl : q = [] := List.length_eq_zero_iff.mp h.symm
    simp
  | cons a p ih =>
    obtain ⟨b, q, rfl⟩ := List.exists_cons_of_length_eq_add_one h.symm
    have hLen : p.length = q.length := by simpa using h
    have hp : ofBe p < 256 ^ q.length := hLen ▸ ofBe_lt p
    have hq := ofBe_lt q
    rw [List.cons_append, List.cons_lt_cons_iff, ih hLen, ofBe_cons, ofBe_cons, hLen,
      UInt8.lt_iff_toNat_lt, ← UInt8.toNat_inj]
    -- The first bytes decide, since what they are multiplied with exceeds the rest.
    constructor
    · rintro (hLt | ⟨hEq, hLt⟩)
      · have hStep : (a.toNat + 1) * 256 ^ q.length ≤ b.toNat * 256 ^ q.length :=
          Nat.mul_le_mul_right _ hLt
        rw [Nat.add_mul, Nat.one_mul] at hStep
        omega
      · rw [hEq]
        omega
    · intro hLt
      rcases Nat.lt_trichotomy a.toNat b.toNat with hab | hab | hab
      · exact .inl hab
      · rw [hab] at hLt
        exact .inr ⟨hab, by omega⟩
      · have hStep : (b.toNat + 1) * 256 ^ q.length ≤ a.toNat * 256 ^ q.length :=
          Nat.mul_le_mul_right _ hab
        rw [Nat.add_mul, Nat.one_mul] at hStep
        omega

/-- Between the numbers `m` and `n`, in `w` bytes each, lies what begins with one of
them, or of those between, and not with the last. -/
theorem inRange_be_iff {w m n i : Nat} (hm : m < 256 ^ w) (hn : n < 256 ^ w) (hi : i < 256 ^ w)
    (x : Bytes) : InRange (be w m) (be w n) (be w i ++ x) ↔ m ≤ i ∧ i < n := by
  rw [InRange, ← List.not_lt, append_lt_iff (by simp), append_lt_iff (by simp),
    ofBe_be_of_lt hm, ofBe_be_of_lt hn, ofBe_be_of_lt hi, Nat.not_lt]

/-- What begins as a range starts lies in it, if the range ends with a larger byte. -/
theorem inRange_append (p x : Bytes) {a b : UInt8} (h : a < b) :
    InRange (p ++ [a]) (p ++ [b]) (p ++ [a] ++ x) := by
  constructor
  · exact List.IsPrefix.le (List.prefix_append _ _)
  · rw [append_lt_iff (by simp), ofBe_append_singleton, ofBe_append_singleton]
    have hToNat := UInt8.lt_iff_toNat_lt.mp h
    omega

end MyBase.Lib
