import Mathlib

/-!
# Loops

A loop is a function that performs one pass, or leaves the loop (`none`). `after` is the state
after a number of passes, `loop` the state in which the loop is left, when so many passes are
enough, and `Ends` says that it is left at all.

* `after_invariant` — what a pass keeps;
* `after_keeps_iff` — what a pass keeps just under a condition holds throughout just if the
  condition does;
* `ends_iff_loop` — a loop ends just if some number of passes is enough, and any larger one.
-/

namespace MyBase.Lib

variable {σ : Type} {pass : σ → Option σ} {s s' : σ}

/-- The state after `n` passes; `none` if the loop has been left before. -/
def after (pass : σ → Option σ) (s : σ) : Nat → Option σ
  | 0 => some s
  | n + 1 => (after pass s n).bind pass

/-- The state in which the loop is left; `none` if `fuel` passes are not enough. -/
def loop (pass : σ → Option σ) : Nat → σ → Option σ
  | 0, _ => none
  | fuel + 1, s => (pass s).elim (some s) (loop pass fuel)

/-- The loop is left in `s'`. -/
def Ends (pass : σ → Option σ) (s s' : σ) : Prop := ∃ n, after pass s n = some s' ∧ pass s' = none

theorem after_succ_eq_some {n : Nat} :
    after pass s (n + 1) = some s' ↔ ∃ s₁, after pass s n = some s₁ ∧ pass s₁ = some s' :=
  Option.bind_eq_some_iff

theorem after_succ_eq_bind (n : Nat) :
    after pass s (n + 1) = (pass s).bind fun s₁ => after pass s₁ n := by
  induction n with
  | zero =>
    cases hPass : pass s <;> simp [after, hPass]
  | succ n ih =>
    rw [after, ih, Option.bind_assoc]
    rfl

theorem after_eq_none_of_le {n m : Nat} (h : after pass s n = none) (hLe : n ≤ m) :
    after pass s m = none := by
  induction m, hLe using Nat.le_induction with
  | base => exact h
  | succ m _ ih => rw [after, ih, Option.bind_none]

/-- What holds throughout a loop that is left can be checked pass by pass. -/
theorem forall_after_of_left {Q : σ → Prop} {n : Nat} (hLeft : after pass s n = none)
    (h : ∀ m < n, ∀ s' ∈ after pass s m, Q s') (m : Nat) (s' : σ)
    (hAfter : after pass s m = some s') : Q s' := by
  by_cases hm : m < n
  · exact h m hm s' hAfter
  · rw [after_eq_none_of_le hLeft (not_lt.mp hm)] at hAfter
    cases hAfter

/-- **Invariant rule.** -/
theorem after_invariant {Inv : σ → Prop} (hPass : ∀ s s', Inv s → pass s = some s' → Inv s')
    (hInit : Inv s) {n : Nat} (hAfter : after pass s n = some s') : Inv s' := by
  induction n generalizing s' with
  | zero =>
    obtain rfl : s = s' := by simpa [after] using hAfter
    exact hInit
  | succ n ih =>
    obtain ⟨s₁, hBefore, hLast⟩ := after_succ_eq_some.mp hAfter
    exact hPass s₁ s' (ih hBefore) hLast

/-- **Exact invariant rule.** If a pass keeps `Inv` just under the condition `Q`, then `Inv`
holds throughout just if `Q` does. `Base` is what every pass keeps. -/
theorem after_keeps_iff {Base Inv Q : σ → Prop}
    (hBase : ∀ s s', Base s → pass s = some s' → Base s')
    (hPass : ∀ s s', Base s → Inv s → pass s = some s' → (Inv s' ↔ Q s))
    (hLeft : ∀ s, pass s = none → Q s) (hInit : Base s) (hInv : Inv s) :
    (∀ n s', after pass s n = some s' → Inv s') ↔ ∀ n s', after pass s n = some s' → Q s' := by
  constructor
  · intro hAll n s₁ hAfter
    cases hNext : pass s₁ with
    | none => exact hLeft s₁ hNext
    | some s₂ =>
      refine (hPass s₁ s₂ (after_invariant hBase hInit hAfter) (hAll n s₁ hAfter) hNext).mp ?_
      exact hAll (n + 1) s₂ (after_succ_eq_some.mpr ⟨s₁, hAfter, hNext⟩)
  · intro hAll n
    induction n with
    | zero =>
      intro s' hAfter
      obtain rfl : s = s' := by simpa [after] using hAfter
      exact hInv
    | succ n ih =>
      intro s' hAfter
      obtain ⟨s₁, hBefore, hLast⟩ := after_succ_eq_some.mp hAfter
      exact (hPass s₁ s' (after_invariant hBase hInit hBefore) (ih s₁ hBefore) hLast).mpr
        (hAll n s₁ hBefore)

/-- A number of passes is enough just if the loop is left after fewer. -/
theorem loop_eq_some_iff {fuel : Nat} :
    loop pass fuel s = some s' ↔ ∃ n < fuel, after pass s n = some s' ∧ pass s' = none := by
  induction fuel generalizing s with
  | zero => simp [loop]
  | succ fuel ih =>
    rw [loop]
    cases hPass : pass s with
    | none =>
      rw [Option.elim_none]
      constructor
      · rintro ⟨rfl⟩
        exact ⟨0, Nat.succ_pos fuel, rfl, hPass⟩
      · rintro ⟨n, -, hAfter, -⟩
        cases n with
        | zero => exact hAfter
        | succ n =>
          rw [after_succ_eq_bind, hPass] at hAfter
          cases hAfter
    | some s₁ =>
      rw [Option.elim_some, ih]
      constructor
      · rintro ⟨n, hn, hAfter, hEnd⟩
        refine ⟨n + 1, Nat.succ_lt_succ hn, ?_, hEnd⟩
        rw [after_succ_eq_bind, hPass]
        exact hAfter
      · rintro ⟨n, hn, hAfter, hEnd⟩
        cases n with
        | zero =>
          obtain rfl : s = s' := by simpa [after] using hAfter
          rw [hPass] at hEnd
          cases hEnd
        | succ n =>
          rw [after_succ_eq_bind, hPass] at hAfter
          exact ⟨n, Nat.lt_of_succ_lt_succ hn, hAfter, hEnd⟩

/-- **A loop ends just if some number of passes is enough, and any larger one.** -/
theorem ends_iff_loop : Ends pass s s' ↔ ∃ n, ∀ fuel, n ≤ fuel → loop pass fuel s = some s' := by
  constructor
  · rintro ⟨n, hAfter, hEnd⟩
    refine ⟨n + 1, fun fuel hFuel => loop_eq_some_iff.mpr ⟨n, by omega, hAfter, hEnd⟩⟩
  · rintro ⟨n, hLoop⟩
    obtain ⟨m, -, hEnds⟩ := loop_eq_some_iff.mp (hLoop n (le_refl n))
    exact ⟨m, hEnds⟩

/-- The same for what is made of the state in which the loop is left. -/
theorem ends_iff_loop_map {τ : Type} {f : σ → τ} {t : τ} :
    (∃ n, ∀ fuel, n ≤ fuel → (loop pass fuel s).map f = some t) ↔
      ∃ s', Ends pass s s' ∧ f s' = t := by
  constructor
  · rintro ⟨n, hLoop⟩
    obtain ⟨s', hLeft, rfl⟩ := Option.map_eq_some_iff.mp (hLoop n (le_refl n))
    obtain ⟨m, -, hEnds⟩ := loop_eq_some_iff.mp hLeft
    exact ⟨s', ⟨m, hEnds⟩, rfl⟩
  · rintro ⟨s', hEnds, rfl⟩
    obtain ⟨n, hLoop⟩ := ends_iff_loop.mp hEnds
    refine ⟨n, fun fuel hFuel => ?_⟩
    rw [hLoop fuel hFuel, Option.map_some]

-- While

section While

variable {cond : σ → Bool} {body : σ → σ}

/-- One pass of `while (cond) body`. -/
def whilePass (cond : σ → Bool) (body : σ → σ) (s : σ) : Option σ :=
  if cond s then some (body s) else none

theorem whilePass_eq_none : whilePass cond body s = none ↔ cond s = false := by
  simp [whilePass]

/-- The passes of a `while` loop are the iterates of its body. -/
theorem after_whilePass {n : Nat} :
    after (whilePass cond body) s n = some s' ↔
      s' = body^[n] s ∧ ∀ m < n, cond (body^[m] s) = true := by
  induction n generalizing s' with
  | zero =>
    rw [after, Option.some_inj, eq_comm]
    simp
  | succ n ih =>
    rw [after_succ_eq_some]
    constructor
    · rintro ⟨s₁, hBefore, hLast⟩
      obtain ⟨rfl, hCond⟩ := ih.mp hBefore
      obtain ⟨hNow, rfl⟩ : cond (body^[n] s) = true ∧ body (body^[n] s) = s' := by
        simpa [whilePass] using hLast
      refine ⟨(Function.iterate_succ_apply' body n s).symm, ?_⟩
      intro m hm
      rcases Nat.lt_succ_iff_lt_or_eq.mp hm with hLt | rfl
      · exact hCond m hLt
      · exact hNow
    · rintro ⟨rfl, hCond⟩
      refine ⟨body^[n] s, ih.mpr ⟨rfl, fun m hm => hCond m (by omega)⟩, ?_⟩
      rw [whilePass, if_pos (hCond n (Nat.lt_succ_self n)), Function.iterate_succ_apply']

end While

end MyBase.Lib
