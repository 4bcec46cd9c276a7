import Mathlib

/-!
# Runs of a labelled transition function

A system is a function `step : σ → α → Option σ` that takes an action in a
state, or refuses it. `run step s as` performs the actions of a list in order;
`Along step P s as` says that every action of the list satisfies `P` in the
state it is taken in.

* `run_invariant` — an invariant kept by every step that satisfies `P` holds
  after every run along which `P` holds;
* `run_total` — the same, where no step of the run can be refused;
* `run_total_iff` — when each step can be performed just under a condition, a run can be
  performed just if the condition holds along it;
* `run_keeps_iff` — when each step keeps the invariant just under a condition, the
  invariant holds all along a run just if the condition does;
* `follows_iff` — calls with answers, compared with what they should be: a run follows a
  specification just if each of its calls does.
-/

namespace MyBase.Lib

open List

variable {σ α : Type}

/-- Perform the actions in order; `none` when one of them is refused. -/
def run (step : σ → α → Option σ) : σ → List α → Option σ
  | s, [] => some s
  | s, a :: as => (step s a).bind fun s' => run step s' as

/-- `P` holds of every action of the list, in the state the action is taken in. -/
def Along (step : σ → α → Option σ) (P : σ → α → Prop) : σ → List α → Prop
  | _, [] => True
  | s, a :: as => P s a ∧ ∀ s', step s a = some s' → Along step P s' as

variable {step : σ → α → Option σ} {P : σ → α → Prop}

theorem along_cons_of_step {s s₁ : σ} {a : α} {as : List α} (h : step s a = some s₁) :
    Along step P s (a :: as) ↔ P s a ∧ Along step P s₁ as := by
  simp [Along, h]

theorem along_cons_of_refused {s : σ} {a : α} {as : List α} (h : step s a = none) :
    Along step P s (a :: as) ↔ P s a := by
  simp [Along, h]

/-- A condition on steps can be checked along a given run. -/
instance decidableAlong [∀ s a, Decidable (P s a)] :
    ∀ s as, Decidable (Along step P s as)
  | _, [] => isTrue trivial
  | s, a :: as =>
    match h : step s a with
    | none => decidable_of_iff _ (along_cons_of_refused h).symm
    | some s₁ =>
      have := decidableAlong s₁ as
      decidable_of_iff _ (along_cons_of_step h).symm

theorem run_cons_eq_some {s s' : σ} {a : α} {as : List α} :
    run step s (a :: as) = some s' ↔
      ∃ s₁, step s a = some s₁ ∧ run step s₁ as = some s' := by
  simp [run, Option.bind_eq_some_iff]

/-- A run splits at any point. -/
theorem run_append {s s' : σ} {as bs : List α} :
    run step s (as ++ bs) = some s' ↔
      ∃ s₁, run step s as = some s₁ ∧ run step s₁ bs = some s' := by
  induction as generalizing s with
  | nil => simp [run]
  | cons a as ih =>
    rw [cons_append, run_cons_eq_some]
    constructor
    · rintro ⟨s₁, hStep, hRun⟩
      obtain ⟨s₂, hAs, hBs⟩ := ih.mp hRun
      exact ⟨s₂, run_cons_eq_some.mpr ⟨s₁, hStep, hAs⟩, hBs⟩
    · rintro ⟨s₂, hAs, hBs⟩
      obtain ⟨s₁, hStep, hRun⟩ := run_cons_eq_some.mp hAs
      exact ⟨s₁, hStep, ih.mpr ⟨s₂, hRun, hBs⟩⟩

/-- A condition that the actions satisfy in every state holds along every run. -/
theorem along_of_forall {s : σ} {as : List α} (h : ∀ a ∈ as, ∀ s, P s a) : Along step P s as := by
  induction as generalizing s with
  | nil => exact trivial
  | cons a as ih =>
    refine ⟨h a mem_cons_self s, ?_⟩
    intro s' _
    exact ih fun b hb => h b (mem_cons_of_mem _ hb)

theorem along_mono {Q : σ → α → Prop} (h : ∀ s a, P s a → Q s a) {s : σ} {as : List α}
    (hAlong : Along step P s as) : Along step Q s as := by
  induction as generalizing s with
  | nil => exact trivial
  | cons a as ih => exact ⟨h s a hAlong.1, fun s' hStep => ih (hAlong.2 s' hStep)⟩

theorem along_and {Q : σ → α → Prop} {s : σ} {as : List α} (hP : Along step P s as)
    (hQ : Along step Q s as) : Along step (fun s a => P s a ∧ Q s a) s as := by
  induction as generalizing s with
  | nil => exact trivial
  | cons a as ih =>
    exact ⟨⟨hP.1, hQ.1⟩, fun s' hStep => ih (hP.2 s' hStep) (hQ.2 s' hStep)⟩

/-- So does a condition along a run: a statement about all runs is one about every moment. -/
theorem along_append {s s₁ : σ} {as bs : List α} (h : Along step P s (as ++ bs))
    (hRun : run step s as = some s₁) : Along step P s as ∧ Along step P s₁ bs := by
  induction as generalizing s with
  | nil =>
    obtain rfl : s = s₁ := by simpa [run] using hRun
    exact ⟨trivial, h⟩
  | cons a as ih =>
    obtain ⟨s₂, hStep, hRest⟩ := run_cons_eq_some.mp hRun
    obtain ⟨hP, hAll⟩ := h
    have hTail := ih (hAll s₂ hStep) hRest
    refine ⟨⟨hP, ?_⟩, hTail.2⟩
    intro s' hs'
    rw [hStep] at hs'
    cases hs'
    exact hTail.1

/-- A condition that holds of the action at every point of a run holds along it. -/
theorem along_of_splits {s : σ} {as : List α}
    (h : ∀ before a after s₁, as = before ++ a :: after → run step s before = some s₁ → P s₁ a) :
    Along step P s as := by
  induction as generalizing s with
  | nil => exact trivial
  | cons a as ih =>
    refine ⟨h [] a as s rfl rfl, ?_⟩
    intro s' hStep
    refine ih ?_
    intro before b after s₁ hSplit hRun
    refine h (a :: before) b after s₁ (by rw [hSplit]; rfl) ?_
    exact run_cons_eq_some.mpr ⟨s', hStep, hRun⟩

/-- **Invariant rule.** What every permitted step keeps, every permitted run keeps. -/
theorem run_invariant {Inv : σ → Prop}
    (hStep : ∀ s a s', P s a → Inv s → step s a = some s' → Inv s')
    {s s' : σ} {as : List α} (hInit : Inv s) (hAlong : Along step P s as)
    (hRun : run step s as = some s') : Inv s' := by
  induction as generalizing s with
  | nil =>
    obtain rfl : s = s' := by simpa [run] using hRun
    exact hInit
  | cons a as ih =>
    obtain ⟨s₁, hs₁, hRest⟩ := run_cons_eq_some.mp hRun
    obtain ⟨hP, hAll⟩ := hAlong
    exact ih (hStep s a s₁ hP hInit hs₁) (hAll s₁ hs₁) hRest

/-- **Invariant rule** for what every step keeps. -/
theorem run_keeps {Inv : σ → Prop} (hStep : ∀ s a s', Inv s → step s a = some s' → Inv s')
    {s s' : σ} {as : List α} (hInit : Inv s) (hRun : run step s as = some s') : Inv s' := by
  have hAlways : Along step (fun _ _ => True) s as := along_of_forall fun _ _ _ => trivial
  exact run_invariant (fun s a s' _ => hStep s a s') hInit hAlways hRun

/-- **Progress rule.** When every permitted step can be performed and keeps the
invariant, so can every permitted run. -/
theorem run_total {Inv : σ → Prop}
    (hStep : ∀ s a, P s a → Inv s → ∃ s', step s a = some s' ∧ Inv s')
    {s : σ} {as : List α} (hInit : Inv s) (hAlong : Along step P s as) :
    ∃ s', run step s as = some s' ∧ Inv s' := by
  induction as generalizing s with
  | nil => exact ⟨s, rfl, hInit⟩
  | cons a as ih =>
    obtain ⟨hP, hAll⟩ := hAlong
    obtain ⟨s₁, hs₁, hInv⟩ := hStep s a hP hInit
    obtain ⟨s', hRun, hInv'⟩ := ih hInv (hAll s₁ hs₁)
    exact ⟨s', run_cons_eq_some.mpr ⟨s₁, hs₁, hRun⟩, hInv'⟩

/-- **Exact invariant rule.** When every permitted step can be performed, and keeps the
invariant just if it satisfies `Q`, the invariant holds all along a permitted run just if
every step of it satisfies `Q`. -/
theorem run_keeps_iff {Q : σ → α → Prop} (Base : σ → Prop) {Inv : σ → Prop}
    (hStep : ∀ s a, P s a → Base s →
      ∃ s', step s a = some s' ∧ Base s' ∧ (Inv s → (Inv s' ↔ Q s a)))
    {s : σ} {as : List α} (hBase : Base s) (hInit : Inv s) (hAlong : Along step P s as) :
    (∀ before s', before <+: as → run step s before = some s' → Inv s') ↔ Along step Q s as := by
  induction as generalizing s with
  | nil =>
    refine iff_of_true ?_ trivial
    intro before s' hBefore hRun
    rw [List.prefix_nil.mp hBefore] at hRun
    cases hRun
    exact hInit
  | cons a as ih =>
    obtain ⟨hP, hAll⟩ := hAlong
    obtain ⟨s₁, hs₁, hBase₁, hIff⟩ := hStep s a hP hBase
    rw [along_cons_of_step hs₁]
    constructor
    · intro hInv
      have hInv₁ : Inv s₁ :=
        hInv [a] s₁ (prefix_append [a] as) (run_cons_eq_some.mpr ⟨s₁, hs₁, rfl⟩)
      refine ⟨(hIff hInit).mp hInv₁, (ih hBase₁ hInv₁ (hAll s₁ hs₁)).mp ?_⟩
      intro before s' hBefore hRun
      exact hInv (a :: before) s' (prefix_cons_inj a |>.mpr hBefore)
        (run_cons_eq_some.mpr ⟨s₁, hs₁, hRun⟩)
    · rintro ⟨hQ, hRest⟩ before s' hBefore hRun
      cases before with
      | nil =>
        cases hRun
        exact hInit
      | cons b before =>
        obtain ⟨rfl, hTail⟩ := List.cons_prefix_cons.mp hBefore
        obtain ⟨s₂, hs₂, hRun⟩ := run_cons_eq_some.mp hRun
        cases hs₁.symm.trans hs₂
        exact (ih hBase₁ ((hIff hInit).mpr hQ) (hAll s₁ hs₁)).mpr hRest before s' hTail hRun

/-- **Exact progress rule.** When a permitted step can be performed just if it satisfies
`Q`, so can a permitted run. -/
theorem run_total_iff {Q : σ → α → Prop} {Inv : σ → Prop}
    (hStep : ∀ s a, P s a → Inv s →
      (Q s a → ∃ s', step s a = some s' ∧ Inv s') ∧ (¬ Q s a → step s a = none))
    {s : σ} {as : List α} (hInit : Inv s) (hAlong : Along step P s as) :
    (∃ s', run step s as = some s') ↔ Along step Q s as := by
  constructor
  · induction as generalizing s with
    | nil => exact fun _ => trivial
    | cons a as ih =>
      rintro ⟨s', hRun⟩
      obtain ⟨hP, hAll⟩ := hAlong
      obtain ⟨s₁, hs₁, hRest⟩ := run_cons_eq_some.mp hRun
      have hQ : Q s a := by
        by_contra hNot
        cases hs₁.symm.trans ((hStep s a hP hInit).2 hNot)
      obtain ⟨s₂, hs₂, hInv⟩ := (hStep s a hP hInit).1 hQ
      cases hs₁.symm.trans hs₂
      exact (along_cons_of_step hs₁).mpr ⟨hQ, ih hInv (hAll s₁ hs₁) ⟨s', hRest⟩⟩
  · intro hQ
    have hBoth : Along step (fun s a => P s a ∧ Q s a) s as := along_and hAlong hQ
    obtain ⟨s', hRun, -⟩ :=
      run_total (fun s a hPQ hInv => (hStep s a hPQ.1 hInv).1 hPQ.2) hInit hBoth
    exact ⟨s', hRun⟩

/-- A given run can be performed, and what it reaches examined. -/
theorem run_reaches {Q : σ → Prop} [DecidablePred Q] {s : σ} {as : List α}
    (h : ((run step s as).any fun s' => decide (Q s')) = true) :
    ∃ s', run step s as = some s' ∧ Q s' := by
  obtain ⟨s', hRun, hQ⟩ := (Option.any_eq_true _ _).mp h
  exact ⟨s', hRun, of_decide_eq_true hQ⟩

/-- The same for what follows from the outcome. -/
theorem run_reaches_then {Q R : σ → Prop} [DecidablePred Q] {s : σ} {as : List α}
    (h : ((run step s as).any fun s' => decide (Q s')) = true)
    (hThen : ∀ s', run step s as = some s' → Q s' → R s') :
    ∃ s', run step s as = some s' ∧ R s' := by
  obtain ⟨s', hRun, hQ⟩ := run_reaches h
  exact ⟨s', hRun, hThen s' hRun hQ⟩

/-- The same for the outcome, and for what comes of one more call. -/
theorem run_reaches_next {τ : Type} {f : σ → Option τ} {Q : σ → Prop} {R : τ → Prop}
    [DecidablePred Q] [DecidablePred R] {s : σ} {as : List α}
    (h : ((run step s as).any fun s' =>
      decide (Q s') && (f s').any fun t => decide (R t)) = true) :
    ∃ s' t, run step s as = some s' ∧ f s' = some t ∧ Q s' ∧ R t := by
  obtain ⟨s', hRun, hBoth⟩ := (Option.any_eq_true _ _).mp h
  obtain ⟨hQ, hNext⟩ := Bool.and_eq_true_iff.mp hBoth
  obtain ⟨t, ht, hR⟩ := (Option.any_eq_true _ _).mp hNext
  exact ⟨s', t, hRun, ht, of_decide_eq_true hQ, of_decide_eq_true hR⟩

/-- **Counted loop rule.** What a pass at index `i` turns from `Inv i` into
`Inv (i + 1)` holds behind the last index after the loop. -/
theorem run_range' {step : σ → Nat → Option σ} (Inv : Nat → σ → Prop) {a n : Nat}
    (hStep : ∀ i s s', a ≤ i → i < a + n → Inv i s → step s i = some s' → Inv (i + 1) s')
    {s s' : σ} (hInit : Inv a s) (hRun : run step s (List.range' a n) = some s') :
    Inv (a + n) s' := by
  induction n generalizing a s with
  | zero =>
    obtain rfl : s = s' := by simpa [run] using hRun
    exact hInit
  | succ n ih =>
    rw [range'_succ] at hRun
    obtain ⟨s₁, hs₁, hRest⟩ := run_cons_eq_some.mp hRun
    rw [show a + (n + 1) = a + 1 + n by omega]
    refine ih ?_ (hStep a s s₁ (le_refl a) (by omega) hInit hs₁) hRest
    intro i t t' hLo hHi
    exact hStep i t t' (by omega) (by omega)

/-- **Row loop rule.** When pass `i` changes row `i` as `R` says and no other row, the
loop has changed every row it went over as `R` says, and no other. -/
theorem foldl_range_rows {ρ : Type} (row : σ → Nat → ρ) {step : σ → Nat → σ}
    (R : ρ → ρ → Prop) (hRow : ∀ s i, R (row s i) (row (step s i) i))
    (hOther : ∀ s i b, b ≠ i → row (step s i) b = row s b) (s : σ) (n b : Nat) :
    (b < n → R (row s b) (row ((List.range n).foldl step s) b)) ∧
      (n ≤ b → row ((List.range n).foldl step s) b = row s b) := by
  induction n with
  | zero => exact ⟨fun h => absurd h (Nat.not_lt_zero b), fun _ => rfl⟩
  | succ n ih =>
    rw [range_succ, foldl_append, foldl_cons, foldl_nil]
    by_cases hb : b = n
    · subst hb
      refine ⟨fun _ => ?_, fun h => absurd h (by omega)⟩
      rw [← ih.2 (le_refl b)]
      exact hRow _ b
    · rw [hOther _ n b hb]
      exact ⟨fun h => ih.1 (by omega), fun h => ih.2 (by omega)⟩

-- Calls with answers

section Follows

variable {σ τ α ω : Type}

/-- Perform a call and forget the answer. -/
def stepOf (exec : σ → α → Option (σ × ω)) (s : σ) (a : α) : Option σ := (exec s a).map Prod.fst

/-- Every call is answered as `spec` answers it, and `Seen` holds of the states it leaves. -/
def Follows (exec : σ → α → Option (σ × ω)) (spec : τ → α → τ × ω) (Seen : σ → τ → Prop) :
    σ → τ → List α → Prop
  | _, _, [] => True
  | s, t, a :: as => ∃ s', exec s a = some (s', (spec t a).2) ∧ Seen s' (spec t a).1 ∧
      Follows exec spec Seen s' (spec t a).1 as

/-- **Simulation rule.** If a single call is performed as `spec` says just if `Q`, and then
keeps `Inv`, a run follows `spec` just if `Q` holds of all its calls. -/
theorem follows_iff {exec : σ → α → Option (σ × ω)} {spec : τ → α → τ × ω} {Seen Inv : σ → τ → Prop}
    {P Q : σ → α → Prop}
    (hStep : ∀ s t a, Inv s t → P s a → Q s a → ∃ s', exec s a = some (s', (spec t a).2) ∧
      Seen s' (spec t a).1 ∧ Inv s' (spec t a).1)
    (hOnly : ∀ s t a s', Inv s t → P s a → exec s a = some (s', (spec t a).2) →
      Seen s' (spec t a).1 → Q s a)
    {s : σ} {t : τ} {as : List α} (hInit : Inv s t) (hAlong : Along (stepOf exec) P s as) :
    Follows exec spec Seen s t as ↔ Along (stepOf exec) Q s as := by
  induction as generalizing s t with
  | nil => exact Iff.rfl
  | cons a as ih =>
    have hRest : ∀ s' o, exec s a = some (s', o) →
        (Along (stepOf exec) Q s (a :: as) ↔ Q s a ∧ Along (stepOf exec) Q s' as) := by
      intro s' o hExec
      exact along_cons_of_step (by rw [stepOf, hExec]; rfl)
    have hAllowed : ∀ s' o, exec s a = some (s', o) → Along (stepOf exec) P s' as := by
      intro s' o hExec
      exact hAlong.2 s' (by rw [stepOf, hExec]; rfl)
    constructor
    · rintro ⟨s', hExec, hSeen, hFollows⟩
      have hQ := hOnly s t a s' hInit hAlong.1 hExec hSeen
      obtain ⟨s₁, hExec₁, -, hInv⟩ := hStep s t a hInit hAlong.1 hQ
      rw [hExec] at hExec₁
      cases hExec₁
      exact (hRest s' _ hExec).mpr ⟨hQ, (ih hInv (hAllowed s' _ hExec)).mp hFollows⟩
    · intro hAll
      obtain ⟨s', hExec, hSeen, hInv⟩ := hStep s t a hInit hAlong.1 hAll.1
      have hTail := ((hRest s' _ hExec).mp hAll).2
      exact ⟨s', hExec, hSeen, (ih hInv (hAllowed s' _ hExec)).mpr hTail⟩

end Follows

end MyBase.Lib
