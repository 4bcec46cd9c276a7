import MyBase.Meta.Counters
import MyBase.Meta.QuickTable

/-!
# MyBase — which slave is promoted

For a bucket whose master is dead, `changeMasterNode` promotes the available slave with
the smallest count in `mtokens_count_in_node`. `buildQuickTable` begins with an empty map,
so a count is the number of promotions so far and not the number of buckets the server is
master of: the difference is what the server was master of in the table that was given
(`held_beforeBucket`).

* `promotes_least_of_even` — the slave that is promoted is master of no more buckets than
  the others when the available slaves began with equally many;
* `promotes_busier_slave` — otherwise it need not be.
-/

namespace MyBase

open Lib List

namespace TableBuilder

/-- One pass of the first loop. -/
def promoteMaster (tb : TableBuilder) (q : QuickBuild) (idx : Nat) : QuickBuild :=
  if tb.isNodeAvailble (q.table 0 idx) then q else tb.changeMasterNode q idx

/-- The members before the first loop comes to bucket `idx`. -/
def beforeBucket (tb : TableBuilder) (t : HashTable) (idx : Nat) : QuickBuild :=
  (List.range idx).foldl tb.promoteMaster ⟨t, fun _ => 0⟩

/-- If a slave of the bucket is promoted now, no other available slave of it is master of
fewer buckets. -/
def PromotesLeast (tb : TableBuilder) (q : QuickBuild) (idx : Nat) : Prop :=
  ∀ l, tb.chosenLine q idx = some l → ∀ p, 1 ≤ p → p < tb.copyCount →
    tb.isNodeAvailble (q.table p idx) = true →
    tb.held true q.table (q.table l idx) ≤ tb.held true q.table (q.table p idx)

/-- The available slaves of the bucket are masters of equally many buckets. -/
def SlavesEven (tb : TableBuilder) (t : HashTable) (idx : Nat) : Prop :=
  ∀ p, 1 ≤ p → p < tb.copyCount → tb.isNodeAvailble (t p idx) = true →
    ∀ p', 1 ≤ p' → p' < tb.copyCount → tb.isNodeAvailble (t p' idx) = true →
      tb.held true t (t p idx) = tb.held true t (t p' idx)

variable {tb : TableBuilder}

-- The search

variable {idx l : Nat} {q : QuickBuild}

/-- What is kept has no greater count than what was kept before and than every available
slave that has been looked at. -/
theorem foldl_considerLine_least {lines : List Nat} {chosen : Option Nat}
    (h : lines.foldl (tb.considerLine q idx) chosen = some l) :
    (∀ l₀, chosen = some l₀ →
        q.mtokensCountInNode (q.table l idx) ≤ q.mtokensCountInNode (q.table l₀ idx)) ∧
      ∀ p ∈ lines, tb.isNodeAvailble (q.table p idx) = true →
        q.mtokensCountInNode (q.table l idx) ≤ q.mtokensCountInNode (q.table p idx) := by
  -- on the lines, with the line chosen so far
  induction lines generalizing chosen with
  | nil =>
    refine ⟨?_, by simp⟩
    rintro l₀ rfl
    cases h
    exact le_refl _
  | cons p lines ih =>
    rw [foldl_cons] at h
    obtain ⟨hKept, hRest⟩ := ih h
    cases hAv : tb.isNodeAvailble (q.table p idx) with
    | false =>
      rw [considerLine_of_dead chosen hAv] at hKept
      refine ⟨hKept, List.forall_mem_cons.mpr ⟨?_, hRest⟩⟩
      intro hAv'
      rw [hAv] at hAv'
      cases hAv'
    | true =>
      cases chosen with
      | none =>
        have hTake := hKept p (by rw [considerLine, if_neg (by simp [hAv])])
        exact ⟨by simp, List.forall_mem_cons.mpr ⟨fun _ => hTake, hRest⟩⟩
      | some l₀ =>
        rw [considerLine, if_neg (by simp [hAv])] at hKept
        split at hKept
        · rename_i hLess
          have hTake := hKept p rfl
          refine ⟨?_, List.forall_mem_cons.mpr ⟨fun _ => hTake, hRest⟩⟩
          rintro l₁ ⟨⟩
          omega
        · rename_i hNotLess
          have hKeep := hKept l₀ rfl
          refine ⟨?_, List.forall_mem_cons.mpr ⟨fun _ => by omega, hRest⟩⟩
          rintro l₁ ⟨⟩
          exact hKeep

theorem chosenLine_least {p : Nat} (h : tb.chosenLine q idx = some l) (hp : 1 ≤ p)
    (hpC : p < tb.copyCount) (hAv : tb.isNodeAvailble (q.table p idx) = true) :
    q.mtokensCountInNode (q.table l idx) ≤ q.mtokensCountInNode (q.table p idx) :=
  (foldl_considerLine_least h).2 p (mem_range'_1.mpr (by omega)) hAv

-- The counts

/-- The counts tell how many masters were won since the table `t`, and the buckets from
`idx` on are as they were. -/
structure Counting (tb : TableBuilder) (t : HashTable) (idx : Nat) (q : QuickBuild) : Prop where
  won : ∀ x, tb.isNodeAvailble x = true →
    (tb.held true q.table x : Int) = tb.held true t x + q.mtokensCountInNode x
  later : ∀ b, idx ≤ b → ∀ p, q.table p b = t p b

/-- **Step lemma.** -/
theorem Counting.step {t : HashTable} (h : tb.Counting t idx q) (hIdx : idx < tb.bucketCount) :
    tb.Counting t (idx + 1) (tb.promoteMaster q idx) := by
  unfold promoteMaster
  split
  · exact ⟨h.won, fun b hb => h.later b (by omega)⟩
  rename_i hDead
  unfold changeMasterNode
  split
  · exact ⟨h.won, fun b hb => h.later b (by omega)⟩
  · rename_i l hChosen
    obtain ⟨hLo, -, -⟩ := chosenLine_some hChosen
    dsimp only
    rw [if_neg hDead]
    refine ⟨?_, ?_⟩
    · intro x hx
      -- the dead master is not `x`, and the old slot is not a master's
      have hMaster : q.table 0 idx ≠ x := by
        rintro rfl
        exact hDead hx
      have hSlot : (l, idx) ∉ tb.cells true := by
        rw [mem_cells_true]
        omega
      have hSet := held_set (t := q.table) (mem_cells_true.mpr ⟨rfl, hIdx⟩) (q.table l idx) x
      rw [if_neg hMaster, add_zero] at hSet
      have hBefore := h.won x hx
      dsimp only
      rw [held_set_of_notMem hSlot, hSet]
      by_cases hEq : q.table l idx = x
      · subst hEq
        rw [if_pos rfl, Function.update_self]
        push_cast
        omega
      · rw [if_neg hEq, Function.update_of_ne (Ne.symm hEq), add_zero]
        exact hBefore
    · intro b hb p
      dsimp only
      rw [set_of_bucket_ne _ (by omega), set_of_bucket_ne _ (by omega)]
      exact h.later b (by omega) p

/-- **The counts throughout the loop.** -/
theorem held_beforeBucket (tb : TableBuilder) (t : HashTable) (hIdx : idx ≤ tb.bucketCount) :
    tb.Counting t idx (tb.beforeBucket t idx) := by
  induction idx with
  | zero => exact ⟨fun x _ => by simp [beforeBucket], fun _ _ _ => rfl⟩
  | succ idx ih =>
    have hStep := (ih (by omega)).step (by omega)
    rwa [beforeBucket, range_succ, foldl_append]

/-- For every bucket whose available slaves are masters of equally many buckets of the
given table: when the loop comes to it, the slave that is promoted is master of no more
buckets than the other available slaves. -/
theorem promotes_least_of_even (tb : TableBuilder) (t : HashTable) (hIdx : idx < tb.bucketCount)
    (hEven : tb.SlavesEven t idx) : tb.PromotesLeast (tb.beforeBucket t idx) idx := by
  have hCounting := held_beforeBucket tb t (le_of_lt hIdx)
  have hRow : ∀ p, (tb.beforeBucket t idx).table p idx = t p idx :=
    hCounting.later idx (le_refl idx)
  intro l hChosen p hp hpC hAv
  obtain ⟨hLo, hHi, hChosenAv⟩ := chosenLine_some hChosen
  have hLeast := chosenLine_least hChosen hp hpC hAv
  have hWonL := hCounting.won _ hChosenAv
  have hWonP := hCounting.won _ hAv
  rw [hRow] at hChosenAv hAv
  have hSame := hEven l hLo hHi hChosenAv p hp hpC hAv
  rw [hRow l, hRow p] at *
  omega

theorem promotes_least_of_even_two :
    PromotesLeast ⟨2, 3, setAvailableServer [1, 2]⟩
      (beforeBucket ⟨2, 3, setAvailableServer [1, 2]⟩ (fun p _ => if p = 0 then 9 else p) 1) 1 :=
  promotes_least_of_even ⟨2, 3, setAvailableServer [1, 2]⟩ (fun p _ => if p = 0 then 9 else p)
    (by decide) (by unfold SlavesEven; decide)

/-- Bucket 0 has the dead master 9 and the slaves 1 and 2; bucket 1 has the master 1.
Server 1 is promoted although server 2 is master of no bucket. -/
theorem promotes_busier_slave :
    ¬ PromotesLeast ⟨2, 3, setAvailableServer [1, 2]⟩
      (beforeBucket ⟨2, 3, setAvailableServer [1, 2]⟩
        (fun p b => if b = 0 then (if p = 0 then 9 else p) else if p = 0 then 1 else 0) 0) 0 := by
  intro h
  have hLeast := h 1 (by decide) 2 (by decide) (by decide) (by decide)
  exact absurd hLeast (by decide)

end TableBuilder

end MyBase
