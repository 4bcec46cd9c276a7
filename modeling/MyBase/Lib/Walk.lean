import Mathlib

/-!
# Walks along a partial function

`next` says where a walk goes from a place, if it goes on. A walk among finitely many
places ends exactly if it never comes back to a place.

* `steps_of_repeat` — a walk that has come back goes on for ever;
* `steps_eq_none_iff` — over fewer places than steps, the walk has ended exactly if no
  place was reached twice.
-/

namespace MyBase.Lib

variable {α : Type} {next : α → Option α}

/-- The place after `n` steps; `none` if the walk has ended before. -/
def steps (next : α → Option α) : Nat → α → Option α
  | 0, a => some a
  | n + 1, a => (next a).bind (steps next n)

/-- No place is reached twice. -/
def NeverBack (next : α → Option α) (a : α) : Prop :=
  ∀ i j b, i < j → steps next i a = some b → steps next j a ≠ some b

theorem steps_add (i j : Nat) (a : α) :
    steps next (i + j) a = (steps next i a).bind (steps next j) := by
  induction i generalizing a with
  | zero => simp [steps]
  | succ i ih =>
    rw [Nat.succ_add, steps, steps, Option.bind_assoc]
    exact congrArg _ (funext ih)

theorem steps_isSome_of_le {i j : Nat} {a : α} (h : i ≤ j) (hj : (steps next j a).isSome) :
    (steps next i a).isSome := by
  obtain ⟨k, rfl⟩ := Nat.exists_eq_add_of_le h
  rw [steps_add] at hj
  exact Option.isSome_of_isSome_bind hj

/-- A walk that has come back to a place goes round for ever. -/
theorem steps_of_repeat {i p : Nat} {a b : α} (hp : 0 < p) (hi : steps next i a = some b)
    (hBack : steps next (i + p) a = some b) (n : Nat) : (steps next n a).isSome := by
  have hRound : steps next p b = some b := by
    rw [steps_add, hi] at hBack
    exact hBack
  have hRounds : ∀ k, steps next (k * p) b = some b := by
    intro k
    induction k with
    | zero => rw [Nat.zero_mul]; rfl
    | succ k ih =>
      rw [Nat.succ_mul, steps_add, ih]
      exact hRound
  have hFar : steps next (i + n * p) a = some b := by
    rw [steps_add, hi]
    exact hRounds n
  have hLe : n ≤ i + n * p := by
    have := Nat.le_mul_of_pos_right n hp
    omega
  exact steps_isSome_of_le hLe (by rw [hFar]; rfl)

/-- A walk that goes on only from places of a finite set has ended after one more step
than these, or comes back to one of them. -/
theorem steps_eq_none_iff {a : α} (places : Finset α)
    (hPlaces : ∀ b, (next b).isSome → b ∈ places) :
    steps next (places.card + 1) a = none ↔ NeverBack next a := by
  constructor
  · intro hEnd i j b hij hi hj
    obtain ⟨p, rfl⟩ := Nat.exists_eq_add_of_lt hij
    have hOn := steps_of_repeat (Nat.succ_pos p) hi hj (places.card + 1)
    rw [hEnd] at hOn
    cases hOn
  · intro hNever
    by_contra hOn
    -- The walk goes on from each of the first places, so they are all in the set.
    have hAt : ∀ i : Fin (places.card + 1), ∃ b ∈ places, steps next i a = some b := by
      intro i
      have hNext : (steps next (i + 1) a).isSome :=
        steps_isSome_of_le (by omega) (Option.isSome_iff_ne_none.mpr hOn)
      rw [steps_add] at hNext
      obtain ⟨b, hb⟩ := Option.isSome_iff_exists.mp (Option.isSome_of_isSome_bind hNext)
      rw [hb, Option.bind_some] at hNext
      exact ⟨b, hPlaces b (Option.isSome_of_isSome_bind hNext), hb⟩
    choose b hMem hb using hAt
    obtain ⟨i, -, j, -, hne, hSame⟩ := Finset.exists_ne_map_eq_of_card_lt_of_maps_to
      (by simp : places.card < (Finset.univ : Finset (Fin (places.card + 1))).card)
      fun i _ => hMem i
    rcases Nat.lt_or_gt_of_ne (Fin.val_ne_of_ne hne) with hlt | hgt
    · exact hNever i j (b i) hlt (hb i) (hSame ▸ hb j)
    · exact hNever j i (b j) hgt (hb j) (hSame ▸ hb i)

end MyBase.Lib
