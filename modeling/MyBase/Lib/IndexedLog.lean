import Mathlib

/-!
# Indexed logs

Entries numbered from `start` on, without gaps. The log grows at its end (`append`), is cut
and continued at an index (`writeAt`), and loses its beginning (`compact`). Each operation is
described by what stands at an index afterwards.
-/

namespace MyBase.Lib

open List

structure IndexedLog (α : Type) where
  start : Nat
  entries : List α

namespace IndexedLog

variable {α : Type}

/-- The index of the next entry. -/
def next (l : IndexedLog α) : Nat := l.start + l.entries.length

def entryAt (l : IndexedLog α) (i : Nat) : Option α :=
  if l.start ≤ i then l.entries[i - l.start]? else none

/-- The entries from index `a` on and before `b`. -/
def between (l : IndexedLog α) (a b : Nat) : List α :=
  (List.range' a (b - a)).filterMap l.entryAt

def append (l : IndexedLog α) (x : α) : IndexedLog α := { l with entries := l.entries ++ [x] }

/-- Discard the entries at or after an index, and put one there. -/
def writeAt (l : IndexedLog α) (i : Nat) (x : α) : IndexedLog α :=
  { l with entries := l.entries.take (i - l.start) ++ [x] }

/-- Discard the entries up to an index. The log begins behind it, or where it began before. -/
def compact (l : IndexedLog α) (last : Nat) : IndexedLog α where
  start := max l.start (last + 1)
  entries := l.entries.drop (last + 1 - l.start)

variable (l : IndexedLog α) (x : α)

theorem entryAt_isSome_iff {i : Nat} : (l.entryAt i).isSome ↔ l.start ≤ i ∧ i < l.next := by
  rw [entryAt, next]
  split
  · rw [isSome_getElem?]
    omega
  · simp only [Option.isSome_none, Bool.false_eq_true, false_iff]
    omega

theorem entryAt_eq_none {i : Nat} (h : l.next ≤ i) : l.entryAt i = none := by
  rw [← Option.not_isSome_iff_eq_none, entryAt_isSome_iff]
  omega

theorem next_append : (l.append x).next = l.next + 1 := by
  simp only [next, append, length_append, length_singleton]
  omega

theorem next_writeAt {i : Nat} (hStart : l.start ≤ i) (hNext : i ≤ l.next) :
    (l.writeAt i x).next = i + 1 := by
  rw [next] at hNext
  simp only [next, writeAt, length_append, length_take, length_singleton]
  omega

theorem next_compact (last : Nat) : (l.compact last).next = max l.next (last + 1) := by
  simp only [next, compact, length_drop]
  omega

theorem entryAt_append (i : Nat) :
    (l.append x).entryAt i = if i = l.next then some x else l.entryAt i := by
  show (if l.start ≤ i then (l.entries ++ [x])[i - l.start]? else none) = _
  rw [entryAt, next]
  by_cases hStart : l.start ≤ i
  · rw [if_pos hStart, if_pos hStart]
    rcases Nat.lt_trichotomy i (l.start + l.entries.length) with hLt | rfl | hGt
    · rw [if_neg (by omega), getElem?_append_left (by omega)]
    · simp
    · rw [if_neg (by omega), getElem?_eq_none (by simp; omega),
        getElem?_eq_none (by omega)]
  · rw [if_neg hStart, if_neg hStart, if_neg (by omega)]

theorem entryAt_writeAt {i : Nat} (hStart : l.start ≤ i) (hNext : i ≤ l.next) (j : Nat) :
    (l.writeAt i x).entryAt j =
      if j < i then l.entryAt j else if j = i then some x else none := by
  rw [next] at hNext
  have hLen : (l.entries.take (i - l.start)).length = i - l.start := by
    rw [length_take]
    omega
  show (if l.start ≤ j then (l.entries.take (i - l.start) ++ [x])[j - l.start]? else none) = _
  rw [entryAt]
  by_cases hj : l.start ≤ j
  · rw [if_pos hj, if_pos hj, getElem?_append, hLen]
    rcases Nat.lt_trichotomy j i with hLt | rfl | hGt
    · rw [if_pos (by omega), if_pos hLt, getElem?_take_of_lt (by omega)]
    · simp
    · rw [if_neg (by omega), if_neg (by omega), if_neg (by omega),
        getElem?_eq_none (by simp; omega)]
  · rw [if_neg hj, if_pos (by omega), if_neg hj]

theorem entryAt_compact (last j : Nat) :
    (l.compact last).entryAt j = if j ≤ last then none else l.entryAt j := by
  show (if max l.start (last + 1) ≤ j then
    (l.entries.drop (last + 1 - l.start))[j - max l.start (last + 1)]? else none) = _
  rw [entryAt]
  by_cases hj : j ≤ last
  · rw [if_pos hj, if_neg (by omega)]
  · rw [if_neg hj]
    by_cases hStart : l.start ≤ j
    · rw [if_pos (by omega), if_pos hStart, getElem?_drop]
      congr 1
      omega
    · rw [if_neg (by omega), if_neg hStart]

end IndexedLog

end MyBase.Lib
