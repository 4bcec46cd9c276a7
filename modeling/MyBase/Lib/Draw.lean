import Mathlib

/-!
# Drawing candidates at random

A search that tries candidates in random order, group after group, until one of
them will do. The random numbers are a stream, and every function returns how
many of them have been used, so that a search can be continued by the next one.

* `drawGroups_first` — what a search returns, some candidate of the first group gave that
  has one that will do;
* `drawGroups_none` — a search that returns nothing has tried every candidate.
-/

namespace MyBase.Lib

open List

variable {α β κ : Type}

/-- The maximal runs of neighbours with equal keys. -/
def equalRanges [DecidableEq κ] (key : α → κ) : List α → List (List α)
  | [] => []
  | a :: rest =>
    match equalRanges key rest with
    | (b :: bs) :: ranges =>
      if key a = key b then (a :: b :: bs) :: ranges else [a] :: (b :: bs) :: ranges
    | ranges => [a] :: ranges

/-- The ranges of equal keys are the list cut into pieces. -/
@[simp] theorem flatten_equalRanges [DecidableEq κ] (key : α → κ) (l : List α) :
    (equalRanges key l).flatten = l := by
  induction l with
  | nil => rfl
  | cons x rest ih =>
    rw [equalRanges]
    split
    · rename_i b bs ranges hRest
      rw [hRest] at ih
      split
      · rw [flatten_cons, cons_append, ← flatten_cons, ih]
      · rw [flatten_cons, ih, singleton_append]
    · rw [flatten_cons, ih, singleton_append]

variable {rand : Nat → Nat} {fallback a x : α} {attempt : α → Option β} {drawn drawn' n : Nat}
  {items l range : List α} {key : α → κ} {b : β} {groups : List (List α)}

theorem mem_equalRanges [DecidableEq κ] (hRange : range ∈ equalRanges key l) (ha : a ∈ range) :
    a ∈ l := by
  rw [← flatten_equalRanges key l]
  exact mem_flatten.mpr ⟨range, hRange, ha⟩

/-- The items of a range have one key. -/
theorem key_eq_of_mem_range [DecidableEq κ] {b : α} (hRange : range ∈ equalRanges key l)
    (ha : a ∈ range) (hb : b ∈ range) : key a = key b := by
  induction l generalizing range a b with
  | nil => simp [equalRanges] at hRange
  | cons x rest ih =>
    rw [equalRanges] at hRange
    split at hRange
    · rename_i y ys ranges hRest
      have hFirst : ∀ z ∈ y :: ys, key z = key y := by
        intro z hz
        exact ih (by rw [hRest]; exact mem_cons_self) hz mem_cons_self
      split at hRange
      · rename_i hKey
        rcases mem_cons.mp hRange with rfl | hRange
        · have hAll : ∀ z ∈ x :: y :: ys, key z = key y := by
            intro z hz
            rcases mem_cons.mp hz with rfl | hz
            · exact hKey
            · exact hFirst z hz
          rw [hAll a ha, hAll b hb]
        · exact ih (by rw [hRest]; exact mem_cons_of_mem _ hRange) ha hb
      · rcases mem_cons.mp hRange with rfl | hRange
        · rw [mem_singleton.mp ha, mem_singleton.mp hb]
        · exact ih (by rw [hRest]; exact hRange) ha hb
    · rcases mem_cons.mp hRange with rfl | hRange
      · rw [mem_singleton.mp ha, mem_singleton.mp hb]
      · exact ih hRange ha hb

/-- In a sorted list, what is not in the ranges before a range has no smaller key. -/
theorem equalRanges_least [LinearOrder κ] {before after : List (List α)}
    (hSorted : l.Pairwise fun a b => key a ≤ key b)
    (hSplit : equalRanges key l = before ++ range :: after) (ha : a ∈ range) (hx : x ∈ l)
    (hBefore : ∀ r ∈ before, x ∉ r) : key a ≤ key x := by
  have hList : before.flatten ++ (range ++ after.flatten) = l := by
    rw [← flatten_equalRanges key l, hSplit, flatten_append, flatten_cons]
  have hRange : range ∈ equalRanges key l := by
    rw [hSplit]
    exact mem_append_right _ mem_cons_self
  rw [← hList] at hx hSorted
  rcases mem_append.mp hx with hx | hx
  · obtain ⟨r, hr, hxr⟩ := mem_flatten.mp hx
    exact absurd hxr (hBefore r hr)
  · rcases mem_append.mp hx with hx | hx
    · exact le_of_eq (key_eq_of_mem_range hRange ha hx)
    · have hTail := (pairwise_append.mp hSorted).2.1
      exact (pairwise_append.mp hTail).2.2 a ha x hx

/-- Draw one of `n` items: the only one, or the one a random number selects, which
is then removed. `fallback` stands for an item that is not there. -/
def draw (rand : Nat → Nat) (fallback : α) (n : Nat) (items : List α) (drawn : Nat) :
    α × List α × Nat :=
  if n = 1 then (items.head?.getD fallback, items, drawn)
  else ((items[rand drawn % n]?).getD fallback, items.eraseIdx (rand drawn % n), drawn + 1)

/-- Draw up to `n` items until an attempt with one succeeds. -/
def drawUntil (rand : Nat → Nat) (fallback : α) (attempt : α → Option β) :
    Nat → List α → Nat → Option β × Nat
  | 0, _, drawn => (none, drawn)
  | n + 1, items, drawn =>
    let r := draw rand fallback (n + 1) items drawn
    match attempt r.1 with
    | some b => (some b, r.2.2)
    | none => drawUntil rand fallback attempt n r.2.1 r.2.2

/-- Search group after group. -/
def drawGroups (rand : Nat → Nat) (fallback : α) (attempt : α → Option β) :
    List (List α) → Nat → Option β × Nat
  | [], drawn => (none, drawn)
  | group :: groups, drawn =>
    match drawUntil rand fallback attempt group.length group drawn with
    | (some b, drawn') => (some b, drawn')
    | (none, drawn') => drawGroups rand fallback attempt groups drawn'

/-- A draw takes one of the items and leaves the others. -/
theorem draw_mem (rand : Nat → Nat) (fallback : α) (hLen : items.length = n + 1) (drawn : Nat) :
    (draw rand fallback (n + 1) items drawn).1 ∈ items ∧
      (n ≠ 0 → (draw rand fallback (n + 1) items drawn).2.1.length = n) ∧
      ∀ x ∈ (draw rand fallback (n + 1) items drawn).2.1, x ∈ items := by
  unfold draw
  split
  · rename_i hOne
    obtain ⟨x, rest, rfl⟩ : ∃ x rest, items = x :: rest := exists_cons_of_length_eq_add_one hLen
    exact ⟨mem_cons_self, fun hn => absurd (by omega : n = 0) hn, fun _ hx => hx⟩
  · have hLt : rand drawn % (n + 1) < items.length := by
      rw [hLen]
      exact Nat.mod_lt _ (Nat.succ_pos n)
    refine ⟨?_, ?_, fun x hx => mem_of_mem_eraseIdx hx⟩
    · rw [getElem?_eq_getElem hLt]
      exact getElem_mem hLt
    · intro _
      show (items.eraseIdx _).length = n
      rw [length_eraseIdx_of_lt hLt, hLen, Nat.add_sub_cancel]

theorem draw_covers (rand : Nat → Nat) (fallback : α) (hLen : items.length = n + 1) (drawn : Nat)
    (hx : x ∈ items) :
    x = (draw rand fallback (n + 1) items drawn).1 ∨
      (n ≠ 0 ∧ x ∈ (draw rand fallback (n + 1) items drawn).2.1) := by
  unfold draw
  split
  · rename_i hOne
    obtain ⟨y, rfl⟩ := length_eq_one_iff.mp (hLen.trans hOne)
    exact Or.inl (mem_singleton.mp hx)
  · rename_i hMore
    obtain ⟨k, hk, rfl⟩ := mem_iff_getElem.mp hx
    by_cases hDrawn : k = rand drawn % (n + 1)
    · subst hDrawn
      exact Or.inl (by rw [getElem?_eq_getElem hk]; rfl)
    · refine Or.inr ⟨by omega, ?_⟩
      exact mem_eraseIdx_iff_getElem.mpr ⟨k, hk, hDrawn, rfl⟩

theorem drawUntil_some (hLen : items.length = n)
    (h : drawUntil rand fallback attempt n items drawn = (some b, drawn')) :
    ∃ a ∈ items, attempt a = some b := by
  induction n generalizing items drawn with
  | zero => simp [drawUntil] at h
  | succ n ih =>
    obtain ⟨hMem, hRest, hSub⟩ := draw_mem rand fallback hLen drawn
    rw [drawUntil] at h
    split at h
    · rename_i b' hAttempt
      cases h
      exact ⟨_, hMem, hAttempt⟩
    · by_cases hn : n = 0
      · subst hn
        simp [drawUntil] at h
      · obtain ⟨a, ha, hAttempt⟩ := ih (hRest hn) h
        exact ⟨a, hSub a ha, hAttempt⟩

theorem drawUntil_none (hLen : items.length = n)
    (h : drawUntil rand fallback attempt n items drawn = (none, drawn')) :
    ∀ x ∈ items, attempt x = none := by
  induction n generalizing items drawn with
  | zero =>
    intro x hx
    rw [length_eq_zero_iff.mp hLen] at hx
    exact absurd hx not_mem_nil
  | succ n ih =>
    rw [drawUntil] at h
    split at h
    · cases h
    · rename_i hAttempt
      intro x hx
      rcases draw_covers rand fallback hLen drawn hx with rfl | ⟨hn, hLeft⟩
      · exact hAttempt
      · exact ih ((draw_mem rand fallback hLen drawn).2.1 hn) h x hLeft

/-- The candidate is of the first group that has one that will do. -/
theorem drawGroups_first (h : drawGroups rand fallback attempt groups drawn = (some b, drawn')) :
    ∃ before group after, groups = before ++ group :: after ∧
      (∃ a ∈ group, attempt a = some b) ∧ ∀ g ∈ before, ∀ x ∈ g, attempt x = none := by
  induction groups generalizing drawn with
  | nil => simp [drawGroups] at h
  | cons group groups ih =>
    rw [drawGroups] at h
    split at h
    · rename_i b' d hDraw
      cases h
      exact ⟨[], group, groups, rfl, drawUntil_some rfl hDraw, by simp⟩
    · rename_i d hDraw
      obtain ⟨before, g, after, rfl, hFound, hBefore⟩ := ih h
      refine ⟨group :: before, g, after, rfl, hFound, ?_⟩
      exact forall_mem_cons.mpr ⟨drawUntil_none rfl hDraw, hBefore⟩

theorem drawGroups_some (h : drawGroups rand fallback attempt groups drawn = (some b, drawn')) :
    ∃ group ∈ groups, ∃ a ∈ group, attempt a = some b := by
  obtain ⟨before, group, after, rfl, hFound, -⟩ := drawGroups_first h
  exact ⟨group, mem_append_right _ mem_cons_self, hFound⟩

/-- A search that returns nothing has tried everything. -/
theorem drawGroups_none (h : drawGroups rand fallback attempt groups drawn = (none, drawn')) :
    ∀ group ∈ groups, ∀ x ∈ group, attempt x = none := by
  induction groups generalizing drawn with
  | nil => simp
  | cons group groups ih =>
    rw [drawGroups] at h
    split at h
    · cases h
    · rename_i d hDraw
      exact forall_mem_cons.mpr ⟨drawUntil_none rfl hDraw, ih h⟩

end MyBase.Lib
