import Mathlib

/-!
# Counting the cells that hold a value

A finite set of cells, each of which holds a value. `tally` counts the cells that hold a
given one.

* `sum_tally` — the counts add up to the number of cells;
* `equitableOn_incr` — counts that differ by one at most still do when a least count
  grows by one.
-/

namespace MyBase.Lib

open List

variable {ι α : Type} [DecidableEq α]

/-- The number of cells that hold `x`. -/
def tally (cells : Finset ι) (f : ι → α) (x : α) : Nat := (cells.filter fun i => f i = x).card

variable {cells : Finset ι} {f : ι → α}

theorem tally_congr {g : ι → α} (h : ∀ i ∈ cells, f i = g i) (x : α) :
    tally cells f x = tally cells g x := by
  unfold tally
  rw [Finset.filter_congr fun i hi => by rw [h i hi]]

theorem tally_eq_sum (cells : Finset ι) (f : ι → α) (x : α) :
    tally cells f x = ∑ i ∈ cells, if f i = x then 1 else 0 :=
  Finset.card_filter _ _

theorem tally_eq_zero {x : α} (h : ∀ i ∈ cells, f i ≠ x) : tally cells f x = 0 := by
  rw [tally, Finset.card_eq_zero, Finset.filter_eq_empty_iff]
  exact h

/-- When every cell holds a value of `values`, the counts add up to the cells. -/
theorem sum_tally {values : Finset α} (h : ∀ i ∈ cells, f i ∈ values) :
    ∑ x ∈ values, tally cells f x = cells.card :=
  (Finset.card_eq_sum_card_fiberwise h).symm

/-- A cell holds `y` after `g` when it held one of the values that `g` takes there. -/
theorem tally_comp {β : Type} [Fintype α] [DecidableEq β] (g : α → β) (y : β) :
    tally cells (fun i => g (f i)) y = ∑ x with g x = y, tally cells f x := by
  have hInto : ∀ i ∈ cells.filter fun i => g (f i) = y,
      f i ∈ Finset.univ.filter fun x => g x = y := by
    intro i hi
    exact Finset.mem_filter.mpr ⟨Finset.mem_univ _, (Finset.mem_filter.mp hi).2⟩
  rw [tally, Finset.card_eq_sum_card_fiberwise hInto]
  refine Finset.sum_congr rfl fun x hx => ?_
  rw [tally, Finset.filter_filter]
  congr 1
  refine Finset.filter_congr fun i _ => ?_
  refine and_iff_right_of_imp ?_
  rintro rfl
  exact (Finset.mem_filter.mp hx).2

theorem tally_range (g : Nat → α) (n : Nat) (x : α) :
    tally (Finset.range n) g x = ((List.range n).map g).count x := by
  induction n with
  | zero => rfl
  | succ n ih =>
    rw [tally_eq_sum] at ih ⊢
    rw [Finset.sum_range_succ, ih, range_succ, map_append, count_append,
      map_singleton, count_singleton]
    simp only [beq_iff_eq]

theorem tally_product_range (g : Nat → Nat → α) (m n : Nat) (x : α) :
    tally (Finset.range m ×ˢ Finset.range n) (fun c => g c.1 c.2) x =
      ((List.range m).flatMap fun i => (List.range n).map (g i)).count x := by
  rw [tally_eq_sum, Finset.sum_product]
  induction m with
  | zero => rfl
  | succ m ih =>
    rw [Finset.sum_range_succ, ih, range_succ, flatMap_append, count_append,
      flatMap_singleton, ← tally_range, tally_eq_sum]

section Update

variable [DecidableEq ι]

/-- Writing a cell moves one from the old value's count to the new one's. -/
theorem tally_update {i : ι} (hi : i ∈ cells) (a x : α) :
    tally cells (Function.update f i a) x + (if f i = x then 1 else 0) =
      tally cells f x + if a = x then 1 else 0 := by
  have hRest : ∑ j ∈ cells.erase i, (if Function.update f i a j = x then 1 else 0) =
      ∑ j ∈ cells.erase i, if f j = x then 1 else 0 := by
    refine Finset.sum_congr rfl ?_
    intro j hj
    rw [Function.update_of_ne (Finset.ne_of_mem_erase hj)]
  rw [tally_eq_sum, tally_eq_sum, ← Finset.add_sum_erase cells _ hi,
    ← Finset.add_sum_erase cells (fun j => if f j = x then 1 else 0) hi, hRest,
    Function.update_self]
  omega

theorem tally_update_of_notMem {i : ι} (hi : i ∉ cells) (a x : α) :
    tally cells (Function.update f i a) x = tally cells f x := by
  refine tally_congr ?_ x
  intro j hj
  refine Function.update_of_ne ?_ _ _
  rintro rfl
  exact hi hj

end Update

/-- Counts that differ by one at most, when a least one grows by one. -/
theorem equitableOn_incr {s : Set α} {h h' : α → Nat} (hEven : s.EquitableOn h) {a : α}
    (hLeast : ∀ x ∈ s, h a ≤ h x) (hIncr : ∀ x ∈ s, h' x = h x + if x = a then 1 else 0) :
    s.EquitableOn h' := by
  intro x y hx hy
  have hxy := hEven hx hy
  have hay := hLeast y hy
  rw [hIncr x hx, hIncr y hy]
  by_cases hxa : x = a
  · subst hxa
    rw [if_pos rfl]
    omega
  · rw [if_neg hxa]
    omega

end MyBase.Lib
