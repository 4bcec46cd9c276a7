import Mathlib

/-!
# Segmented logs

A log of records numbered from 1 and stored as a sequence of segments: the
closed ones, which are full and never empty, and the current one, which takes
the appends. When the current segment becomes full it is closed and an empty
one takes its place. What "full" means is a parameter.

A bulk read returns records of one segment only (`logEntries`), which is what
makes segment boundaries visible to a reader.

* `exists_segment` — every index below the current segment lies in a closed
  one, with the position arithmetic that goes with it;
* `logEntries_isPrefix` — a bulk read from `s` is a prefix of the log from `s`.
-/

namespace MyBase.Lib

open List

structure SegLog (α : Type) where
  closed : List (List α)
  cur : List α
  closed_ne : ∀ seg ∈ closed, seg ≠ []

namespace SegLog

variable {α β : Type}

/-- The log without records. -/
def empty : SegLog α := ⟨[], [], by simp⟩

/-- All records, in index order; index `i` is position `i - 1`. -/
def entries (l : SegLog α) : List α := l.closed.flatten ++ l.cur

def lastIdx (l : SegLog α) : Nat := l.entries.length

def nextIdx (l : SegLog α) : Nat := l.lastIdx + 1

/-- The index of the first record of the current segment. -/
def curStart (l : SegLog α) : Nat := l.closed.flatten.length + 1

/-- Append a record; a segment that is full afterwards is closed. -/
def append (full : List α → Bool) (l : SegLog α) (a : α) : SegLog α :=
  if full (l.cur ++ [a]) then
    { closed := l.closed ++ [l.cur ++ [a]]
      cur := []
      closed_ne := by
        intro seg hSeg
        rcases mem_append.mp hSeg with h | h
        · exact l.closed_ne seg h
        · rw [mem_singleton] at h
          simp [h] }
  else
    { closed := l.closed, cur := l.cur ++ [a], closed_ne := l.closed_ne }

/-- The last index of the segment that holds `i`, searching the segments that
start after index `base`; past the closed ones it is the last index of the log. -/
def segEndFrom (last : Nat) (i : Nat) : Nat → List (List α) → Nat
  | _, [] => last
  | base, seg :: rest =>
    if i ≤ base + seg.length then base + seg.length
    else segEndFrom last i (base + seg.length) rest

/-- The last index of the segment that holds index `i`. -/
def segEnd (l : SegLog α) (i : Nat) : Nat := segEndFrom l.lastIdx i 0 l.closed

/-- The segment that holds index `i`, searching the segments that start after
index `base`: the last index before it, and its records. -/
def segAtFrom (cur : List α) (i : Nat) : Nat → List (List α) → Nat × List α
  | base, [] => (base, cur)
  | base, seg :: rest =>
    if i ≤ base + seg.length then (base, seg) else segAtFrom cur i (base + seg.length) rest

/-- The segment that holds index `i`. -/
def segAt (l : SegLog α) (i : Nat) : Nat × List α := segAtFrom l.cur i 0 l.closed

/-- Closed segments became full with their last record, and the current one is
not full. -/
structure Tight (full : List α → Bool) (l : SegLog α) : Prop where
  cur : full l.cur = false
  closed : ∀ seg ∈ l.closed, ∃ init a, seg = init ++ [a] ∧ full init = false

/-- The record at an index. -/
def entryAt (l : SegLog α) (i : Nat) : Option α :=
  if i < 1 ∨ l.lastIdx < i then none else l.entries[i - 1]?

/-- The records from `s` on, up to `e` and up to the end of the segment of `s`. -/
def logEntries (l : SegLog α) (s e : Nat) : List α :=
  if e < s ∨ s < 1 ∨ l.lastIdx < s ∨ e < 1 ∨ l.lastIdx < e then []
  else (l.entries.drop (s - 1)).take (min e (l.segEnd s) + 1 - s)

/-- The same log with every record transformed. -/
def map (f : α → β) (l : SegLog α) : SegLog β where
  closed := l.closed.map (List.map f)
  cur := l.cur.map f
  closed_ne := by
    intro seg hSeg
    obtain ⟨seg', hSeg', rfl⟩ := mem_map.mp hSeg
    simpa using l.closed_ne seg' hSeg'

-- Appending

@[simp] theorem entries_empty : (empty : SegLog α).entries = [] := rfl

/-- Appending adds exactly one record, wherever the segment boundary falls. -/
@[simp] theorem append_entries (full : List α → Bool) (l : SegLog α) (a : α) :
    (l.append full a).entries = l.entries ++ [a] := by
  unfold append entries
  split <;> simp

@[simp] theorem append_lastIdx (full : List α → Bool) (l : SegLog α) (a : α) :
    (l.append full a).lastIdx = l.lastIdx + 1 := by
  simp [lastIdx]

variable {l : SegLog α} {i base last s e : Nat} {full : List α → Bool} {a : α}
  {closed pre post : List (List α)} {seg cur : List α}

theorem append_of_full (h : full (l.cur ++ [a]) = true) :
    (l.append full a).closed = l.closed ++ [l.cur ++ [a]] ∧ (l.append full a).cur = [] := by
  rw [append, if_pos h]
  exact ⟨rfl, rfl⟩

theorem append_of_not_full (h : full (l.cur ++ [a]) = false) :
    (l.append full a).closed = l.closed ∧ (l.append full a).cur = l.cur ++ [a] := by
  rw [append, if_neg (by simp [h])]
  exact ⟨rfl, rfl⟩

theorem foldl_append_entries (full : List α → Bool) (l : SegLog α) (as : List α) :
    (as.foldl (append full) l).entries = l.entries ++ as := by
  induction as generalizing l with
  | nil => simp
  | cons a as ih => rw [foldl_cons, ih, append_entries]; simp

theorem Tight.append (hNil : full [] = false) (h : l.Tight full) (a : α) :
    (l.append full a).Tight full := by
  cases hFull : full (l.cur ++ [a]) with
  | true =>
    obtain ⟨hClosed, hCur⟩ := append_of_full hFull
    refine ⟨by rw [hCur, hNil], ?_⟩
    intro seg hSeg
    rw [hClosed] at hSeg
    rcases mem_append.mp hSeg with hSeg | hSeg
    · exact h.closed seg hSeg
    · rw [mem_singleton] at hSeg
      exact ⟨l.cur, a, hSeg, h.cur⟩
  | false =>
    obtain ⟨hClosed, hCur⟩ := append_of_not_full hFull
    refine ⟨by rw [hCur, hFull], ?_⟩
    rw [hClosed]
    exact h.closed

theorem Tight.foldl_append (hNil : full [] = false) (h : l.Tight full) (as : List α) :
    (as.foldl (SegLog.append full) l).Tight full := by
  induction as generalizing l with
  | nil => exact h
  | cons a as ih => exact ih (h.append hNil a)

theorem lastIdx_eq (l : SegLog α) : l.lastIdx = l.closed.flatten.length + l.cur.length := by
  simp [lastIdx, entries]

@[simp] theorem map_entries (f : α → β) (l : SegLog α) :
    (l.map f).entries = l.entries.map f := by
  simp [map, entries, map_flatten]

-- Where an index lives

/-- An index at or below the closed records lies in one closed segment. -/
theorem exists_segment (hpos : 1 ≤ i) (hle : i ≤ closed.flatten.length) :
    ∃ pre seg post, closed = pre ++ seg :: post ∧ pre.flatten.length < i ∧
      i ≤ pre.flatten.length + seg.length := by
  induction closed generalizing i with
  | nil => simp at hle; omega
  | cons seg rest ih =>
    by_cases h : i ≤ seg.length
    · exact ⟨[], seg, rest, rfl, by simp; omega, by simpa using h⟩
    · have hle' : i - seg.length ≤ rest.flatten.length := by
        simp only [flatten_cons, length_append] at hle
        omega
      obtain ⟨pre, seg', post, rfl, hlo, hhi⟩ := ih (by omega) hle'
      refine ⟨seg :: pre, seg', post, rfl, ?_, ?_⟩ <;>
        simp only [flatten_cons, length_append] <;> omega

/-- A record of a closed segment, at its position in the segment. -/
theorem getElem?_of_segment (hSplit : closed = pre ++ seg :: post) (hlo : pre.flatten.length < i)
    (hhi : i ≤ pre.flatten.length + seg.length) :
    closed.flatten[i - 1]? = seg[i - pre.flatten.length - 1]? := by
  have hIdx : i - 1 - pre.flatten.length = i - pre.flatten.length - 1 := by omega
  rw [hSplit, flatten_append, getElem?_append_right (by omega), flatten_cons,
    getElem?_append_left (by omega), hIdx]

theorem segEndFrom_of_segment (hlo : base + pre.flatten.length < i)
    (hhi : i ≤ base + pre.flatten.length + seg.length) :
    segEndFrom last i base (pre ++ seg :: post) =
      base + pre.flatten.length + seg.length := by
  induction pre generalizing base with
  | nil =>
    simp only [flatten_nil, length_nil, Nat.add_zero] at hhi ⊢
    rw [nil_append, segEndFrom, if_pos hhi]
  | cons x pre ih =>
    simp only [flatten_cons, length_append] at hlo hhi ⊢
    rw [cons_append, segEndFrom, if_neg (by omega),
      ih (by omega) (by omega)]
    omega

theorem segEndFrom_of_gt (h : base + closed.flatten.length < i) :
    segEndFrom last i base closed = last := by
  induction closed generalizing base with
  | nil => rfl
  | cons x rest ih =>
    simp only [flatten_cons, length_append] at h
    rw [segEndFrom, if_neg (by omega), ih (by omega)]

theorem segAtFrom_of_segment (hlo : base + pre.flatten.length < i)
    (hhi : i ≤ base + pre.flatten.length + seg.length) :
    segAtFrom cur i base (pre ++ seg :: post) = (base + pre.flatten.length, seg) := by
  induction pre generalizing base with
  | nil =>
    simp only [flatten_nil, length_nil, Nat.add_zero] at hhi ⊢
    rw [nil_append, segAtFrom, if_pos hhi]
  | cons x pre ih =>
    simp only [flatten_cons, length_append] at hlo hhi ⊢
    rw [cons_append, segAtFrom, if_neg (by omega), ih (by omega) (by omega), Nat.add_assoc]

theorem segAtFrom_of_gt (h : base + closed.flatten.length < i) :
    segAtFrom cur i base closed = (base + closed.flatten.length, cur) := by
  induction closed generalizing base with
  | nil => rfl
  | cons x rest ih =>
    simp only [flatten_cons, length_append] at h ⊢
    rw [segAtFrom, if_neg (by omega), ih (by omega), Nat.add_assoc]

/-- The segment end is never before the index it is asked for. -/
theorem segEnd_of_segment (hSplit : l.closed = pre ++ seg :: post) (hlo : pre.flatten.length < i)
    (hhi : i ≤ pre.flatten.length + seg.length) : l.segEnd i = pre.flatten.length + seg.length := by
  rw [segEnd, hSplit, segEndFrom_of_segment (by omega) (by omega), Nat.zero_add]

theorem le_segEnd (hpos : 1 ≤ i) (hle : i ≤ l.lastIdx) : i ≤ l.segEnd i := by
  by_cases h : i ≤ l.closed.flatten.length
  · obtain ⟨pre, seg, post, hEq, hlo, hhi⟩ := exists_segment hpos h
    rw [segEnd_of_segment hEq hlo hhi]
    exact hhi
  · rw [segEnd, segEndFrom_of_gt (by omega)]
    exact hle

-- Reads

theorem entryAt_eq_some : l.entryAt i = some a ↔ 1 ≤ i ∧ l.entries[i - 1]? = some a := by
  unfold entryAt
  split_ifs with h
  · simp only [false_iff, not_and]
    intro hi hGet
    have := (List.getElem?_eq_some_iff.mp hGet).1
    unfold lastIdx at h
    omega
  · constructor
    · exact fun hGet => ⟨by omega, hGet⟩
    · exact fun hGet => hGet.2

theorem entryAt_isSome_iff : (l.entryAt i).isSome ↔ 1 ≤ i ∧ i ≤ l.lastIdx := by
  unfold entryAt
  split_ifs with h
  · simp only [Option.isSome_none, Bool.false_eq_true, false_iff]
    omega
  · rw [getElem?_eq_getElem (by unfold lastIdx at h; omega)]
    simp only [Option.isSome_some, true_iff]
    omega

/-- A bulk read returns a prefix of what the log holds from its start index. -/
theorem logEntries_isPrefix (l : SegLog α) (s e : Nat) :
    l.logEntries s e <+: l.entries.drop (s - 1) := by
  unfold logEntries
  split_ifs
  · exact nil_prefix
  · exact take_prefix _ _

/-- A copy of the front of a log, extended by what was read behind it, is a copy
of the front again. -/
theorem append_slice_isPrefix {copy slice log : List α} (hCopy : copy <+: log)
    (hSlice : slice <+: log.drop copy.length) : copy ++ slice <+: log := by
  obtain ⟨rest, rfl⟩ := hCopy
  rw [drop_left] at hSlice
  exact (prefix_append_right_inj copy).mpr hSlice

/-- Inside the log a bulk read returns at least the record it starts at. -/
theorem logEntries_length (hs : 1 ≤ s) (hse : s ≤ e) (he : e ≤ l.lastIdx) :
    (l.logEntries s e).length = min e (l.segEnd s) + 1 - s := by
  unfold logEntries
  rw [if_neg (by omega), length_take, length_drop]
  have hEnd : s ≤ l.segEnd s := le_segEnd hs (by omega)
  unfold lastIdx at he
  omega

/-- A bulk read returns what the single reads up to its end return. -/
theorem logEntries_eq_entryAt (hs : 1 ≤ s) (hse : s ≤ e) (he : e ≤ l.lastIdx) :
    (l.logEntries s e).map some =
      (List.range' s (min e (l.segEnd s) + 1 - s)).map l.entryAt := by
  have hLength := logEntries_length hs hse he
  refine ext_getElem (by simp [hLength]) fun j hj _ => ?_
  rw [length_map] at hj
  have hPrefix := prefix_iff_getElem?.mp (logEntries_isPrefix l s e) j hj
  rw [getElem?_drop] at hPrefix
  rw [getElem_map, getElem_map, getElem_range', Nat.one_mul, ← hPrefix, entryAt,
    if_neg (by omega)]
  congr 1
  omega

-- Transforming the records

@[simp] theorem map_lastIdx (f : α → β) (l : SegLog α) : (l.map f).lastIdx = l.lastIdx := by
  simp [lastIdx]

theorem segEndFrom_map (f : α → β) (last i base : Nat) (closed : List (List α)) :
    segEndFrom last i base (closed.map (List.map f)) = segEndFrom last i base closed := by
  induction closed generalizing base with
  | nil => rfl
  | cons seg rest ih =>
    rw [map_cons, segEndFrom, segEndFrom, length_map, ih]

theorem map_segEnd (f : α → β) (l : SegLog α) (i : Nat) : (l.map f).segEnd i = l.segEnd i := by
  unfold segEnd
  rw [map_lastIdx]
  exact segEndFrom_map f _ _ _ _

theorem map_entryAt (f : α → β) (l : SegLog α) (i : Nat) :
    (l.map f).entryAt i = (l.entryAt i).map f := by
  unfold entryAt
  rw [map_lastIdx, map_entries]
  split
  · rfl
  · rw [getElem?_map]

theorem map_logEntries (f : α → β) (l : SegLog α) (s e : Nat) :
    (l.map f).logEntries s e = (l.logEntries s e).map f := by
  unfold logEntries
  rw [map_lastIdx, map_entries, map_segEnd]
  split
  · rfl
  · rw [map_take, map_drop]

end SegLog

end MyBase.Lib
