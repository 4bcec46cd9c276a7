import Mathlib

/-!
# Copying into and out of a ring of cells

`memcpy` and `readAt` work on a list as on an array and refuse to go outside of it. A
ring is a list that is used from some position on, around its end. `Holds data p xs`
says that it contains `xs` from `p` on, and `Ring data b e xs` that this is what lies
between the positions `b` and `e`; a ring is never used up, so that `b` and `e` are
equal exactly if there is nothing in it.

A position around the end is given by what it is without the end: `p + k` is `q`, or
`q` and the length of the ring.

* `Holds.memcpy` — copying something behind what is there, `Holds.memcpy_around` around
  the end;
* `Holds.readAt` — reading part of what is there.
-/

namespace MyBase.Lib

open List

variable {α : Type}

/-- Copy `k` cells from `src + o` to `dst + d`; `none` outside of either. -/
def memcpy (dst : List α) (d : Nat) (src : List α) (o k : Nat) : Option (List α) :=
  if d + k ≤ dst.length ∧ o + k ≤ src.length then
    some (dst.take d ++ (src.drop o).take k ++ dst.drop (d + k))
  else none

/-- Read `k` cells at `o`; `none` outside. -/
def readAt (src : List α) (o k : Nat) : Option (List α) :=
  if o + k ≤ src.length then some ((src.drop o).take k) else none

/-- From `p` on, around the end, `data` holds `xs`. -/
def Holds (data : List α) (p : Nat) (xs : List α) : Prop :=
  ∀ i, i < xs.length → data[(p + i) % data.length]? = xs[i]?

/-- Between `b` and `e`, around the end, `data` holds `xs`. -/
structure Ring (data : List α) (b e : Nat) (xs : List α) : Prop where
  begin_lt : b < data.length
  end_lt : e < data.length
  length_lt : xs.length < data.length
  end_eq : b + xs.length = e ∨ b + xs.length = e + data.length
  holds : Holds data b xs

-- Arrays

section Memcpy

variable {dst dst' src : List α} {d o k : Nat}

theorem memcpy_eq_some (hd : d + k ≤ dst.length) (ho : o + k ≤ src.length) :
    memcpy dst d src o k =
      some (dst.take d ++ (src.drop o).take k ++ dst.drop (d + k)) := if_pos ⟨hd, ho⟩

section Copied

variable (h : memcpy dst d src o k = some dst')
include h

/-- What a copy leaves: the cells before, those copied, and those behind. -/
theorem eq_of_memcpy :
    dst' = dst.take d ++ (src.drop o).take k ++ dst.drop (d + k) ∧ (dst.take d).length = d ∧
      ((src.drop o).take k).length = k ∧ d + k ≤ dst.length := by
  unfold memcpy at h
  split at h
  next hIn =>
    cases h
    exact ⟨rfl, by simp; omega, by simp; omega, hIn.1⟩
  next => cases h

theorem memcpy_length : dst'.length = dst.length := by
  obtain ⟨rfl, hTake, hCopied, hIn⟩ := eq_of_memcpy h
  rw [length_append, length_append, hTake, hCopied, length_drop]
  omega

omit h in
theorem memcpy_zero (hd : d ≤ dst.length) (ho : o ≤ src.length) :
    memcpy dst d src o 0 = some dst := by
  rw [memcpy_eq_some hd ho]
  simp

theorem getElem?_memcpy_in {i : Nat} (hi : i < k) : dst'[d + i]? = ((src.drop o).take k)[i]? := by
  obtain ⟨rfl, hTake, hCopied, -⟩ := eq_of_memcpy h
  rw [append_assoc, getElem?_append_right (by omega),
    getElem?_append_left (by omega)]
  congr 1
  omega

theorem getElem?_memcpy_out {j : Nat} (hj : j < d ∨ d + k ≤ j) : dst'[j]? = dst[j]? := by
  obtain ⟨rfl, hTake, hCopied, -⟩ := eq_of_memcpy h
  rcases hj with hj | hj
  · rw [append_assoc, getElem?_append_left (by omega), getElem?_take_of_lt hj]
  · rw [getElem?_append_right (by rw [length_append]; omega), getElem?_drop]
    congr 1
    rw [length_append]
    omega

end Copied

theorem readAt_eq_some (h : o + k ≤ src.length) :
    readAt src o k = some ((src.drop o).take k) := if_pos h

end Memcpy

-- Rings

section Holds

variable {data data' src xs ys : List α} {p q d o k : Nat}

theorem holds_nil : Holds data p ([] : List α) := fun _ h => absurd h (Nat.not_lt_zero _)

theorem mod_of_around {n m q i : Nat} (hq : m = q ∨ m = q + n) (hi : q + i < n) :
    (m + i) % n = q + i := by
  rcases hq with rfl | rfl
  · exact Nat.mod_eq_of_lt hi
  · rw [show q + n + i = q + i + n by omega, Nat.add_mod_right, Nat.mod_eq_of_lt hi]

theorem Holds.left (h : Holds data p (xs ++ ys)) : Holds data p xs := by
  intro i hi
  rw [h i (by rw [length_append]; omega), getElem?_append_left hi]

theorem Holds.right (h : Holds data p (xs ++ ys))
    (hq : p + xs.length = q ∨ p + xs.length = q + data.length) : Holds data q ys := by
  intro i hi
  have hCell := h (xs.length + i) (by rw [length_append]; omega)
  rw [getElem?_append_right (by omega), Nat.add_sub_cancel_left, ← Nat.add_assoc] at hCell
  rw [← hCell]
  rcases hq with hq | hq
  · rw [hq]
  · rw [hq, show q + data.length + i = q + i + data.length by omega, Nat.add_mod_right]

theorem Holds.slice_eq (h : Holds data p xs) (hq : p + o = q ∨ p + o = q + data.length)
    (hEnd : q + k ≤ data.length) (hk : o + k ≤ xs.length) :
    (data.drop q).take k = (xs.drop o).take k := by
  refine ext_getElem? fun i => ?_
  by_cases hi : i < k
  · rw [getElem?_take_of_lt hi, getElem?_take_of_lt hi, getElem?_drop,
      getElem?_drop, ← h (o + i) (by omega), ← Nat.add_assoc,
      mod_of_around hq (by omega)]
  · rw [getElem?_take_eq_none (by omega), getElem?_take_eq_none (by omega)]

theorem Holds.readAt (h : Holds data p xs) (hq : p + o = q ∨ p + o = q + data.length)
    (hEnd : q + k ≤ data.length) (hk : o + k ≤ xs.length) :
    readAt data q k = some ((xs.drop o).take k) := by
  rw [readAt_eq_some hEnd, h.slice_eq hq hEnd hk]

/-- Behind what is there, as far as the end, something is copied. -/
theorem Holds.memcpy {m : Nat} (h : Holds data p xs) (d : Nat) (src : List α) (o k : Nat)
    (hm : xs.length = m) (hd : p + m = d ∨ p + m = d + data.length) (hEnd : d + k ≤ data.length)
    (ho : o + k ≤ src.length) (hRoom : m + k ≤ data.length) :
    ∃ data', memcpy data d src o k = some data' ∧ data'.length = data.length ∧
      Holds data' p (xs ++ (src.drop o).take k) ∧ (xs ++ (src.drop o).take k).length = m + k := by
  subst hm
  obtain ⟨data', hCopy⟩ : ∃ data', Lib.memcpy data d src o k = some data' :=
    ⟨_, memcpy_eq_some hEnd ho⟩
  have hLength := memcpy_length hCopy
  have hCopied : ((src.drop o).take k).length = k := by simp; omega
  refine ⟨data', hCopy, hLength, ?_, by rw [length_append, hCopied]⟩
  intro i hi
  rw [hLength]
  rw [length_append, hCopied] at hi
  by_cases hOld : i < xs.length
  · -- The cells that are copied to are not those of `xs`.
    rw [getElem?_append_left hOld, ← h i hOld]
    refine getElem?_memcpy_out hCopy ?_
    by_contra hIn
    obtain ⟨t, ht⟩ : ∃ t, (p + i) % data.length = d + t := ⟨(p + i) % data.length - d, by omega⟩
    have hSame : (p + xs.length + t) % data.length = (p + i) % data.length := by
      rw [mod_of_around hd (by omega), ht]
    have hDvd : data.length ∣ p + xs.length + t - (p + i) :=
      (Nat.modEq_iff_dvd' (by omega)).mp hSame.symm
    have hLe := Nat.le_of_dvd (by omega) hDvd
    omega
  · obtain ⟨t, rfl⟩ : ∃ t, i = xs.length + t := ⟨i - xs.length, by omega⟩
    rw [getElem?_append_right (by omega), Nat.add_sub_cancel_left, ← Nat.add_assoc,
      mod_of_around hd (by omega)]
    exact getElem?_memcpy_in hCopy (by omega)

theorem take_append_piece (l : List α) {k k' : Nat} (h : k + k' = l.length) :
    l.take k ++ (l.drop k).take k' = l := by
  have hRest : (l.drop k).take k' = l.drop k :=
    take_of_length_le (by rw [length_drop]; omega)
  rw [hRest, take_append_drop]

/-- Behind what is there, all of something is copied. -/
theorem Holds.memcpy_all {m : Nat} (h : Holds data p xs) (d : Nat) (src : List α) (k : Nat)
    (hk : src.length = k) (hm : xs.length = m) (hd : p + m = d ∨ p + m = d + data.length)
    (hEnd : d + k ≤ data.length) (hRoom : m + k ≤ data.length) :
    ∃ data', Lib.memcpy data d src 0 k = some data' ∧ data'.length = data.length ∧
      Holds data' p (xs ++ src) ∧ (xs ++ src).length = m + k := by
  have hAll : (src.drop 0).take k = src := by
    rw [drop_zero]
    exact take_of_length_le hk.le
  have hCopy := h.memcpy d src 0 k hm hd hEnd (by omega) hRoom
  rw [hAll] at hCopy
  exact hCopy

/-- All of something is copied, in two pieces, around the end. -/
theorem Holds.memcpy_around {m : Nat} (h : Holds data p xs) (d : Nat) (src : List α) (k k' : Nat)
    (hk : d + k = data.length) (hk' : k + k' = src.length) (hm : xs.length = m) (hd : p + m = d)
    (hRoom : m + (k + k') ≤ data.length) :
    ∃ data₁ data₂, Lib.memcpy data d src 0 k = some data₁ ∧
      Lib.memcpy data₁ 0 src k k' = some data₂ ∧ data₂.length = data.length ∧
      Holds data₂ p (xs ++ src) ∧ (xs ++ src).length = m + (k + k') := by
  obtain ⟨data₁, hCopy₁, hLength₁, hHolds₁, hm₁⟩ :=
    h.memcpy d src 0 k hm (.inl hd) hk.le (by omega) (by omega)
  obtain ⟨data₂, hCopy₂, hLength₂, hHolds₂, hm₂⟩ :=
    hHolds₁.memcpy 0 src k k' hm₁ (.inr (by omega)) (by omega) hk'.le (by omega)
  have hBoth : xs ++ (src.drop 0).take k ++ (src.drop k).take k' = xs ++ src := by
    rw [append_assoc, drop_zero, take_append_piece src hk']
  rw [hBoth] at hHolds₂ hm₂
  exact ⟨data₁, data₂, hCopy₁, hCopy₂, by omega, hHolds₂, by omega⟩

end Holds

namespace Ring

variable {data xs ys : List α} {b e b' : Nat}

theorem eq_iff (h : Ring data b e xs) : b = e ↔ xs = [] := by
  have hBegin := h.begin_lt
  have hEnd := h.end_eq
  have hLt := h.length_lt
  rw [← length_eq_zero_iff]
  omega

theorem end_eq_of_lt (h : Ring data b e xs) (hLt : b < e) : b + xs.length = e := by
  have hEnd := h.end_eq
  have := h.length_lt
  omega

theorem end_eq_of_gt (h : Ring data b e xs) (hGt : e < b) :
    b + xs.length = e + data.length := by
  have hEnd := h.end_eq
  omega

theorem nil (hb : b < data.length) : Ring data b b [] :=
  ⟨hb, hb, by simp; omega, .inl rfl, holds_nil⟩

theorem drop (h : Ring data b e (xs ++ ys)) (hb : b' < data.length)
    (hFront : b + xs.length = b' ∨ b + xs.length = b' + data.length) : Ring data b' e ys := by
  have hEnd := h.end_eq
  have hLt := h.length_lt
  have hb' := h.begin_lt
  have he := h.end_lt
  rw [length_append] at hEnd hLt
  exact ⟨hb, he, by omega, by omega, h.holds.right hFront⟩

end Ring

end MyBase.Lib
