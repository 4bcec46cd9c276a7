import MyBase.Lib.Run
import MyBase.Wal.Wal

/-!
# MyBase — the commit queue of a bucket

`BucketMgr::commit(idx)` compares `idx` with `quickCommitIdx` on the caller's
thread and queues a closure; the commiter thread later runs the closure, which
passes every index from `quickCommitIdx + 1` to `idx` to the commit callback and
then stores `idx` into `quickCommitIdx`. Loop bounds and store are evaluated when
the closure runs, not when `commit` was called.

`Commiter` is the state both threads share, for one bucket: closures of the
other buckets run on the same thread and leave it alone. `wake` is one step of
the commiter thread, so that calls interleave with the loop at every iteration.

Main results:

* `commits_in_order` — calls whose closures are queued in ascending order, with
  the callback registered, apply `1, 2, …, quickCommitIdx`, each once;
* `commit_out_of_order` — two calls in the other order take `quickCommitIdx`
  back and apply indices twice.
-/

namespace MyBase

open Lib List

/-- What `commit` and the commiter thread share. A closure is its captured index. -/
structure Commiter (α : Type) where
  quickCommitIdx : Nat
  /-- A callback is registered. -/
  commitCB : Bool
  /-- Closures dispatched and not yet taken over by the thread. -/
  callbacks : List Nat
  /-- Closures taken over by `wake` and not yet started. -/
  cbs : List Nat
  /-- The closure being run: its loop variable and its index. -/
  running : Option (Nat × Nat)
  /-- Executions of the loop body, with what `entryAt` returned. -/
  iterated : List (Nat × Option α)
  /-- Those of them that went to the callback. -/
  applied : List (Nat × Option α)
deriving DecidableEq, Repr

namespace Commiter

variable {α : Type}

/-- The members of a new `BucketMgr`. -/
def init : Commiter α where
  quickCommitIdx := 0
  commitCB := false
  callbacks := []
  cbs := []
  running := none
  iterated := []
  applied := []

/-- `CThread::dispatch` from another thread: queue the closure. -/
def dispatch (c : Commiter α) (idx : Nat) : Commiter α :=
  { c with callbacks := c.callbacks ++ [idx] }

/-- `BucketMgr::commit`, called and dispatched in one go. -/
def commit (c : Commiter α) (idx : Nat) : Commiter α :=
  if idx ≤ c.quickCommitIdx then c else c.dispatch idx

@[simp] theorem commit_quickCommitIdx (c : Commiter α) (idx : Nat) :
    (c.commit idx).quickCommitIdx = c.quickCommitIdx := by
  unfold commit
  split <;> rfl

@[simp] theorem commit_applied (c : Commiter α) (idx : Nat) :
    (c.commit idx).applied = c.applied := by
  unfold commit
  split <;> rfl

def registCommitCB (c : Commiter α) : Commiter α := { c with commitCB := true }

/-- One pass through the loop body at index `i`. -/
def iterate (c : Commiter α) (i idx : Nat) (data : Option α) : Commiter α :=
  { c with
    running := some (succ64 i, idx)
    iterated := c.iterated ++ [(i, data)]
    applied := if c.commitCB then c.applied ++ [(i, data)] else c.applied }

/-- One step of the commiter thread in `CThread::wake`; `none` when it sleeps. -/
def wake (entryAt : Nat → Option α) (c : Commiter α) : Option (Commiter α) :=
  match c.running with
  | some (i, idx) =>
    if i ≤ idx then some (c.iterate i idx (entryAt i))
    else some { c with quickCommitIdx := idx, running := none }
  | none =>
    match c.cbs with
    | idx :: rest => some { c with running := some (succ64 c.quickCommitIdx, idx), cbs := rest }
    | [] =>
      if c.callbacks = [] then none
      else some { c with cbs := c.callbacks, callbacks := [] }

/-- The indices of all closures that have not finished, in the order they run. -/
def pending (c : Commiter α) : List Nat :=
  (c.running.map Prod.snd).toList ++ c.cbs ++ c.callbacks

/-- The queue is empty and no closure is being run. -/
def Idle (c : Commiter α) : Prop := c.callbacks = [] ∧ c.cbs = [] ∧ c.running = none

instance (c : Commiter α) : Decidable c.Idle := by unfold Idle; infer_instance

/-- What a step of the commiter thread does. -/
inductive Wakes (entryAt : Nat → Option α) (c : Commiter α) : Commiter α → Prop
  | iterate {i idx : Nat} (hRunning : c.running = some (i, idx)) (hLe : i ≤ idx) :
      Wakes entryAt c (c.iterate i idx (entryAt i))
  | finish {i idx : Nat} (hRunning : c.running = some (i, idx)) (hGt : idx < i) :
      Wakes entryAt c { c with quickCommitIdx := idx, running := none }
  | start {idx : Nat} {rest : List Nat} (hRunning : c.running = none) (hCbs : c.cbs = idx :: rest) :
      Wakes entryAt c { c with running := some (succ64 c.quickCommitIdx, idx), cbs := rest }
  | swap (hRunning : c.running = none) (hCbs : c.cbs = []) :
      Wakes entryAt c { c with cbs := c.callbacks, callbacks := [] }

variable {c c' : Commiter α} {entryAt : Nat → Option α}

/-- The ways a step of the thread can go. -/
theorem wake_wakes (h : c.wake entryAt = some c') : Wakes entryAt c c' := by
  unfold wake at h
  split at h
  · rename_i i idx hRunning
    split at h
    · rename_i hLe
      cases h
      exact .iterate hRunning hLe
    · rename_i hGt
      cases h
      exact .finish hRunning (by omega)
  · rename_i hRunning
    split at h
    · rename_i idx rest hCbs
      cases h
      exact .start hRunning hCbs
    · rename_i hCbs
      split at h
      · cases h
      · cases h
        exact .swap hRunning hCbs

/-- The commit state of a bucket while closures are queued in ascending order:
the indices still to come ascend from `quickCommitIdx`, and everything below the
loop variable has been applied. -/
structure Inv (c : Commiter α) : Prop where
  ascending : (c.quickCommitIdx :: c.pending).Pairwise (· ≤ ·)
  pending_lt : ∀ j ∈ c.pending, j < 2 ^ 64
  quick_lt : c.quickCommitIdx < 2 ^ 64 - 1
  idle : c.running = none → c.applied.map Prod.fst = List.range' 1 c.quickCommitIdx
  loop_lt : ∀ i idx, c.running = some (i, idx) → i < 2 ^ 64
  -- a closure for the largest `uint64_t` never leaves its loop
  loop : ∀ i idx, c.running = some (i, idx) → idx < 2 ^ 64 - 1 →
    0 < i ∧ i ≤ idx + 1 ∧ c.applied.map Prod.fst = List.range' 1 (i - 1)

theorem init_inv : (init : Commiter α).Inv where
  ascending := by simp [init, pending]
  pending_lt := by simp [init, pending]
  quick_lt := by simp [init]
  idle := by simp [init]
  loop_lt := by simp [init]
  loop := by simp [init]

theorem dispatch_inv (h : c.Inv) {idx : Nat} (hLt : idx < 2 ^ 64) (hQuick : c.quickCommitIdx ≤ idx)
    (hPending : ∀ j ∈ c.pending, j ≤ idx) : (c.dispatch idx).Inv := by
  have hEq : (c.dispatch idx).pending = c.pending ++ [idx] := by simp [dispatch, pending]
  refine ⟨?_, ?_, h.quick_lt, h.idle, h.loop_lt, h.loop⟩
  · rw [hEq, ← cons_append, pairwise_append]
    refine ⟨h.ascending, pairwise_singleton _ _, ?_⟩
    intro j hj k hk
    rw [mem_singleton] at hk
    subst hk
    rcases mem_cons.mp hj with rfl | hj
    · exact hQuick
    · exact hPending j hj
  · intro j hj
    rw [hEq, mem_append, mem_singleton] at hj
    rcases hj with hj | rfl
    · exact h.pending_lt j hj
    · exact hLt

/-- **Step lemma.** A step of the thread keeps the invariant, and does not lower
`quickCommitIdx`, when a loop iteration finds the callback registered. -/
theorem wake_inv (h : c.Inv) (hCB : ∀ r ∈ c.running, r.1 ≤ r.2 → c.commitCB = true)
    (hWake : c.wake entryAt = some c') : c'.Inv ∧ c.quickCommitIdx ≤ c'.quickCommitIdx := by
  have hAsc := h.ascending
  have hPendingLt := h.pending_lt
  cases wake_wakes hWake with
  | @iterate i idx hRunning hLe =>
    -- one index more is applied
    refine ⟨⟨?_, ?_, h.quick_lt, ?_, ?_, ?_⟩, le_refl _⟩
    · simpa [pending, hRunning, Commiter.iterate] using hAsc
    · simpa [pending, hRunning, Commiter.iterate] using hPendingLt
    · simp [Commiter.iterate]
    · intro i' idx' hEq
      cases hEq
      exact Nat.mod_lt _ (by decide)
    · intro i' idx' hEq hIdx
      cases hEq
      obtain ⟨hPos, -, hApplied⟩ := h.loop i idx hRunning hIdx
      have hSucc : succ64 i = i + 1 := succ64_of_lt (by omega)
      refine ⟨by omega, by omega, ?_⟩
      rw [hSucc, Commiter.iterate, hCB (i, idx) hRunning hLe, if_pos rfl, map_append, hApplied]
      show List.range' 1 (i - 1) ++ [i] = List.range' 1 i
      obtain ⟨k, rfl⟩ : ∃ k, i = k + 1 := ⟨i - 1, by omega⟩
      rw [Nat.add_sub_cancel, List.range'_concat]
      simp [Nat.add_comm]
  | @finish i idx hRunning hGt =>
    -- the loop has come to the end of its closure
    have hEq : c.pending = idx :: (c.cbs ++ c.callbacks) := by simp [pending, hRunning]
    rw [hEq] at hAsc hPendingLt
    have hLoopLt := h.loop_lt i idx hRunning
    have hIdx : idx < 2 ^ 64 - 1 := by omega
    obtain ⟨-, hLe, hApplied⟩ := h.loop i idx hRunning hIdx
    refine ⟨⟨?_, ?_, hIdx, ?_, ?_, ?_⟩, ?_⟩
    · simpa [pending] using hAsc.tail
    · intro j hj
      refine hPendingLt j (mem_cons_of_mem _ ?_)
      simpa [pending] using hj
    · intro _
      show c.applied.map Prod.fst = List.range' 1 idx
      rw [hApplied, show i - 1 = idx by omega]
    · simp
    · simp
    · exact (pairwise_cons.mp hAsc).1 idx mem_cons_self
  | @start idx rest hRunning hCbs =>
    -- the next closure; it goes on where the last one ended
    have hQuick := h.quick_lt
    have hEq : c.pending = idx :: (rest ++ c.callbacks) := by simp [pending, hRunning, hCbs]
    rw [hEq] at hAsc hPendingLt
    have hLe : c.quickCommitIdx ≤ idx := (pairwise_cons.mp hAsc).1 idx mem_cons_self
    have hSucc : succ64 c.quickCommitIdx = c.quickCommitIdx + 1 := succ64_of_lt (by omega)
    refine ⟨⟨?_, ?_, hQuick, ?_, ?_, ?_⟩, le_refl _⟩
    · simpa [pending] using hAsc
    · simpa [pending] using hPendingLt
    · simp
    · intro i idx' hSome
      cases hSome
      exact Nat.mod_lt _ (by decide)
    · intro i idx' hSome _
      cases hSome
      rw [hSucc]
      exact ⟨by omega, by omega, h.idle hRunning⟩
  | swap hRunning hCbs =>
    refine ⟨⟨?_, ?_, h.quick_lt, h.idle, ?_, ?_⟩, le_refl _⟩
    · simpa [pending, hRunning, hCbs] using hAsc
    · simpa [pending, hRunning, hCbs] using hPendingLt
    · simp [hRunning]
    · simp [hRunning]

end Commiter

-- Calls from several threads

/-- The commit state together with the calls of `commit` that are past the guard
and have not dispatched their closure yet. -/
structure CommitCalls (α : Type) where
  commiter : Commiter α
  passed : List Nat
deriving DecidableEq, Repr

inductive CommitAction (α : Type)
  /-- A thread calls `commit(idx)` and evaluates the guard. -/
  | call (idx : Nat)
  /-- The `k`-th of the calls past the guard dispatches its closure. -/
  | queue (k : Nat)
  | registCommitCB
  /-- A step of the commiter thread, with the log as it is then. -/
  | thread (entryAt : Nat → Option α)

namespace CommitCalls

variable {α : Type}

/-- A new bucket manager, on which nobody has called `commit`. -/
def init : CommitCalls α := ⟨Commiter.init, []⟩

def step (s : CommitCalls α) : CommitAction α → Option (CommitCalls α)
  | .call idx =>
    -- the parameter is a `uint64_t`
    if 2 ^ 64 ≤ idx then none
    else if idx ≤ s.commiter.quickCommitIdx then some s
    else some { s with passed := s.passed ++ [idx] }
  | .queue k =>
    match s.passed[k]? with
    | none => none
    | some idx => some { commiter := s.commiter.dispatch idx, passed := s.passed.eraseIdx k }
  | .registCommitCB => some { s with commiter := s.commiter.registCommitCB }
  | .thread entryAt => (s.commiter.wake entryAt).map fun c => { s with commiter := c }

/-- The condition under which the queue keeps its promise. A closure is queued
with an index no smaller than `quickCommitIdx` and every index still pending, and
the callback is registered when a loop iteration begins. -/
def Ordered (s : CommitCalls α) : CommitAction α → Prop
  | .queue k => ∀ idx ∈ s.passed[k]?,
      s.commiter.quickCommitIdx ≤ idx ∧ ∀ j ∈ s.commiter.pending, j ≤ idx
  | .thread _ => ∀ r ∈ s.commiter.running, r.1 ≤ r.2 → s.commiter.commitCB = true
  | _ => True

instance (s : CommitCalls α) (a : CommitAction α) : Decidable (s.Ordered a) := by
  cases a <;> unfold Ordered <;> infer_instance

structure Inv (s : CommitCalls α) : Prop where
  commiter : s.commiter.Inv
  passed_lt : ∀ idx ∈ s.passed, idx < 2 ^ 64

/-- **Step lemma.** -/
theorem step_inv {s s' : CommitCalls α} {a : CommitAction α} (hOrdered : s.Ordered a)
    (h : s.Inv) (hStep : s.step a = some s') :
    s'.Inv ∧ s.commiter.quickCommitIdx ≤ s'.commiter.quickCommitIdx := by
  cases a with
  | call idx =>
    simp only [step] at hStep
    split at hStep
    · cases hStep
    · rename_i hLt
      split at hStep
      · cases hStep
        exact ⟨h, le_refl _⟩
      · cases hStep
        refine ⟨⟨h.commiter, ?_⟩, le_refl _⟩
        intro j hj
        rcases mem_append.mp hj with hj | hj
        · exact h.passed_lt j hj
        · rw [mem_singleton.mp hj]
          omega
  | queue k =>
    simp only [step] at hStep
    split at hStep
    · cases hStep
    · rename_i idx hIdx
      cases hStep
      obtain ⟨hQuick, hPending⟩ := hOrdered idx hIdx
      have hLt := h.passed_lt idx (mem_of_getElem? hIdx)
      refine ⟨⟨Commiter.dispatch_inv h.commiter hLt hQuick hPending, ?_⟩, le_refl _⟩
      intro j hj
      exact h.passed_lt j (mem_of_mem_eraseIdx hj)
  | registCommitCB =>
    cases hStep
    have hInv := h.commiter
    exact ⟨⟨⟨hInv.ascending, hInv.pending_lt, hInv.quick_lt, hInv.idle, hInv.loop_lt, hInv.loop⟩,
      h.passed_lt⟩, le_refl _⟩
  | thread entryAt =>
    obtain ⟨c, hWake, rfl⟩ := Option.map_eq_some_iff.mp hStep
    obtain ⟨hInv, hLe⟩ := Commiter.wake_inv h.commiter hOrdered hWake
    exact ⟨⟨hInv, h.passed_lt⟩, hLe⟩

/-- **Run lemma.** Along an ordered run the invariant holds and `quickCommitIdx`
does not go below where it started. -/
theorem run_inv {s s' : CommitCalls α} {as : List (CommitAction α)} (h : s.Inv)
    (hOrdered : Along step Ordered s as) (hRun : run step s as = some s') :
    s'.Inv ∧ s.commiter.quickCommitIdx ≤ s'.commiter.quickCommitIdx := by
  have hKept : ∀ (t : CommitCalls α) (a : CommitAction α) (t' : CommitCalls α), t.Ordered a →
      (t.Inv ∧ s.commiter.quickCommitIdx ≤ t.commiter.quickCommitIdx) → t.step a = some t' →
      t'.Inv ∧ s.commiter.quickCommitIdx ≤ t'.commiter.quickCommitIdx := by
    rintro t a t' ht ⟨hInv, hLe⟩ hStep
    obtain ⟨hInv', hLe'⟩ := step_inv ht hInv hStep
    exact ⟨hInv', hLe.trans hLe'⟩
  exact run_invariant hKept ⟨h, le_refl _⟩ hOrdered hRun

theorem init_inv : (init : CommitCalls α).Inv := ⟨Commiter.init_inv, by simp [init]⟩

/-- Between any two moments of an ordered run `quickCommitIdx` does not decrease,
and whenever the queue is empty the callback has received exactly the indices
`1, …, quickCommitIdx`, in this order. -/
theorem commits_in_order (as bs : List (CommitAction α)) {s s' : CommitCalls α}
    (hBefore : run step init as = some s) (hAfter : run step s bs = some s')
    (hOrdered : Along step Ordered init (as ++ bs)) :
    s.commiter.quickCommitIdx ≤ s'.commiter.quickCommitIdx ∧
      (s'.commiter.Idle →
        s'.commiter.applied.map Prod.fst = List.range' 1 s'.commiter.quickCommitIdx) := by
  obtain ⟨hAs, hBs⟩ := along_append hOrdered hBefore
  obtain ⟨hInv, -⟩ := run_inv init_inv hAs hBefore
  obtain ⟨hInv', hLe⟩ := run_inv hInv hBs hAfter
  refine ⟨hLe, ?_⟩
  rintro ⟨-, -, hNone⟩
  exact hInv'.commiter.idle hNone

theorem commits_in_order_two :
    ∃ s s' : CommitCalls Nat,
      run step init [.registCommitCB, .call 1, .queue 0] = some s ∧
      run step s [.call 2, .queue 0, .thread some, .thread some, .thread some, .thread some,
        .thread some, .thread some, .thread some] = some s' ∧
      s'.commiter.Idle ∧ s'.commiter.applied.map Prod.fst = [1, 2] := by
  refine ⟨_, _, rfl, rfl, by decide, ?_⟩
  exact (commits_in_order [.registCommitCB, .call 1, .queue 0]
    [.call 2, .queue 0, .thread some, .thread some, .thread some, .thread some,
      .thread some, .thread some, .thread some] rfl rfl (by decide)).2 (by decide)

/-- `commit(2)` and `commit(1)` are both called while `quickCommitIdx` is 0. The
second closure takes `quickCommitIdx` from 2 back to 1, and a further `commit(2)`
passes index 2 to the callback again. -/
theorem commit_out_of_order :
    ∃ s₁ s₂ s₃ : CommitCalls Nat,
      run step init [.registCommitCB, .call 2, .queue 0, .call 1, .queue 0, .thread some,
        .thread some, .thread some, .thread some, .thread some] = some s₁ ∧
      run step s₁ [.thread some, .thread some] = some s₂ ∧
      run step s₂ [.call 2, .queue 0, .thread some, .thread some, .thread some,
        .thread some] = some s₃ ∧
      s₁.commiter.quickCommitIdx = 2 ∧ s₂.commiter.quickCommitIdx = 1 ∧
      s₃.commiter.Idle ∧ s₃.commiter.applied.map Prod.fst = [1, 2, 2] :=
  ⟨_, _, _, rfl, rfl, rfl, rfl, rfl, by decide, rfl⟩

end CommitCalls

end MyBase
