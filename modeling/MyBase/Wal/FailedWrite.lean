import MyBase.Wal.Progress

/-!
# MyBase — a write that fails

When `write` fails or writes a part only, the leader returns 0 at once. Its `Writer`, on a
stack frame that is gone, stays first in the queue; `nextIdx`, the index of the file and
`curWalPos` have been advanced for its batch already. Nobody else takes the first writer
out of the queue, and a thread leads only if it finds itself there.

Writers are known by their positions among the callers, so a later call is one whose
`Writer` is at another address than the one that was left, as on the stack of another
thread. The lock is unlocked once more when the leader returns, without being held; the
model gives that no effect, which is the best that can happen.

Main result:

* `not_staysUsable_of_failWrite` — after no failed write does the log stay usable.

Where no write has failed, every call returns (`calls_return`).
-/

namespace MyBase

open Lib List

namespace Appends

-- The model

/-- The leader's `write` writes `n` bytes only, fewer than its batch has; 0 if it fails. -/
def failWrite (s : Appends) (n : Nat) : Option Appends :=
  match s.leader with
  | some ⟨writer, _, batch, .built⟩ =>
    if n < batch.length then
      some { s.setThread writer (.returned 0) with
        session := s.session.write (batch.take n)
        leader := none }
    else none
  | _ => none

/-- `appendLog` is called, whatever its index. -/
def call (pf : Platform) (s : Appends) (data : Bytes) : Option Appends :=
  (s.push data).check pf s.callers.length

/-- The log can be used from `s` on. -/
structure StaysUsable (pf : Platform) (s : Appends) : Prop where
  /-- Every later call returns, when the threads go on and a buffer has room for the
  records of the later calls. -/
  returns : ∀ before s₁ data s₂, run (step pf) s before = some s₁ → s₁.call pf data = some s₂ →
    HasRoom (s₂.payloads.drop s.callers.length) →
    ∃ s₃, s₂.Proceeds pf s₃ ∧ s₃.Returned s₁.callers.length
  /-- What could be read can be read, and so can what is new. -/
  readable : ∀ acts s' i, run (step pf) s acts = some s' → s.session.wal.startIdx ≤ i →
    i ≤ s'.session.wal.lastIdx →
    (i ≤ s.session.wal.lastIdx → (s.session.entryAt pf i).isSome) →
    (s'.session.entryAt pf i).isSome
  /-- A later record that has been written is at its index. -/
  own : ∀ acts s' k w, run (step pf) s acts = some s' → s.callers.length ≤ k →
    s'.callers[k]? = some w → k ∉ s'.writers → s'.session.entryAt pf w.seq = some (frame w.data)

section

variable {pf : Platform} {s s' : Appends} {a : AppendAction} {k front m : Nat}

theorem setThread_getElem? (thread : Thread) {j : Nat} (h : j ≠ k) :
    (s.setThread k thread).callers[j]? = s.callers[j]? := by
  rw [setThread, getElem?_modify_eq, if_neg h]

theorem push_getElem? (data : Bytes) (h : k < s.callers.length) :
    (s.push data).callers[k]? = s.callers[k]? := getElem?_append_left h

/-- The new caller, if somebody else is first in the queue, waits. -/
theorem call_eq (data : Bytes) (hFront : s.writers.head? = some front)
    (hLt : front < s.callers.length) :
    s.call pf data = some ((s.push data).setThread s.callers.length (.waiting false)) := by
  have hHead : (s.push data).writers.head? = some front := by
    simp [push, head?_append, hFront]
  have hOther : (s.push data).writers.head? ≠ some s.callers.length := by
    rw [hHead, ne_eq, Option.some.injEq]
    omega
  rw [call, check, push_getElem?_new]
  simp only [Bool.false_eq_true, if_false, if_neg hOther]

-- The leader is first in the queue

/-- A leader is first in the queue, and not in `cv.wait`. -/
def Fronts (s : Appends) : Prop :=
  ∀ l, s.leader = some l → s.writers.head? = some l.writer ∧
    ∃ w, s.callers[l.writer]? = some w ∧ w.thread = .leading

theorem Fronts.lead (hHead : s.writers.head? = some k) (hk : k < s.callers.length)
    (h : s.lead pf k = some s') : s'.Fronts := by
  unfold Appends.lead at h
  split at h
  next =>
    cases h
    intro l hl
    cases hl
    refine ⟨hHead, { s.callers.get ⟨k, hk⟩ with thread := .leading }, ?_, rfl⟩
    show (s.callers.modify k _)[k]? = _
    rw [getElem?_modify_eq, if_pos rfl, getElem?_eq_getElem hk]
    rfl
  next => cases h

/-- Another thread than the leader's goes on, or the one that will be. -/
theorem Fronts.check (h : s.Fronts) (hk : ∀ l, s.leader = some l → l.writer ≠ k)
    (hCheck : s.check pf k = some s') : s'.Fronts := by
  have hSet : ∀ thread, (s.setThread k thread).Fronts := by
    intro thread l hl
    obtain ⟨hHead, w, hw, hThread⟩ := h l hl
    exact ⟨hHead, w, (setThread_getElem? thread (hk l hl)).trans hw, hThread⟩
  unfold Appends.check at hCheck
  split at hCheck
  next => cases hCheck
  next w hw =>
  split at hCheck
  next =>
    cases hCheck
    exact hSet _
  next =>
  split at hCheck
  next hHead => exact Fronts.lead hHead (List.getElem?_eq_some_iff.mp hw).1 hCheck
  next =>
    cases hCheck
    exact hSet _

theorem Fronts.push (h : s.Fronts) (data : Bytes) : (s.push data).Fronts := by
  intro l hl
  obtain ⟨hHead, w, hw, hThread⟩ := h l hl
  refine ⟨by simp [Appends.push, head?_append, hHead], w, ?_, hThread⟩
  rw [push_getElem? data (List.getElem?_eq_some_iff.mp hw).1, hw]

/-- Every step keeps the leader first in the queue. -/
theorem Fronts.step (h : s.Fronts) (hStep : s.step pf a = some s') : s'.Fronts := by
  cases a with
  | enqueue data =>
    refine (h.push data).check ?_ (step_enqueue.mp hStep).2
    intro l hl
    obtain ⟨-, w, hw, -⟩ := h l hl
    exact (List.getElem?_eq_some_iff.mp hw).1.ne
  | resume k =>
    obtain ⟨⟨w, notified, hw, hWaiting⟩, hCheck⟩ := step_resume.mp hStep
    refine h.check ?_ hCheck
    rintro l hl rfl
    obtain ⟨-, w', hw', hThread⟩ := h l hl
    cases hw.symm.trans hw'
    cases hWaiting.symm.trans hThread
  | write =>
    obtain ⟨writer, last, batch, hl, rfl⟩ := step_write.mp hStep
    have hSame := h _ hl
    rintro _ ⟨⟩
    exact hSame
  | rotate =>
    obtain ⟨writer, last, batch, hl, -, rfl⟩ := step_rotate.mp hStep
    have hSame := h _ hl
    rintro _ ⟨⟩
    exact hSame
  | finish =>
    obtain ⟨writer, last, batch, -, rfl⟩ := step_finish.mp hStep
    intro l hl
    cases hl

variable {acts : List AppendAction} {session : Session} {n : Nat}

theorem fronts_run (hRun : run (Appends.step pf) (idle session) acts = some s) : s.Fronts :=
  run_keeps (fun _ _ _ h hStep => Fronts.step h hStep) (fun _ hl => by cases hl) hRun

-- Nobody gets past a writer that was left

/-- Nobody leads, the first in the queue has returned, and the callers from `m` on wait. -/
structure Stuck (front m : Nat) (s : Appends) : Prop where
  leader : s.leader = none
  first : s.writers.head? = some front
  lt : front < m
  le : m ≤ s.callers.length
  gone : ∀ w, s.callers[front]? = some w → ∃ value, w.thread = .returned value
  waits : ∀ k w, m ≤ k → s.callers[k]? = some w →
    w.done = false ∧ ∃ notified, w.thread = .waiting notified

section Stuck

variable (h : s.Stuck front m)
include h

theorem Stuck.not_returned (hk : m ≤ k) : ¬ s.Returned k := by
  rintro ⟨w, value, hw, hThread⟩
  obtain ⟨-, notified, hWaiting⟩ := h.waits k w hk hw
  rw [hWaiting] at hThread
  cases hThread

/-- A thread that is not the one that was left goes back to its wait, or returns if it had
been released before. -/
theorem Stuck.setThread (hk : k ≠ front) {thread : Thread}
    (hWaits : m ≤ k → ∃ notified, thread = .waiting notified) :
    (s.setThread k thread).Stuck front m where
  leader := h.leader
  first := h.first
  lt := h.lt
  le := by rw [Appends.setThread, length_modify]; exact h.le
  gone := by
    intro w hw
    rw [setThread_getElem? thread hk.symm] at hw
    exact h.gone w hw
  waits := by
    intro j w hj hw
    rcases getElem?_setThread hw with ⟨-, hOld⟩ | ⟨rfl, w', hw', rfl⟩
    · exact h.waits j w hj hOld
    · exact ⟨(h.waits j w' hj hw').1, hWaits hj⟩

/-- A new caller goes behind the one that was left. -/
theorem Stuck.push (data : Bytes) : (s.push data).Stuck front m := by
  have hLt := h.lt
  have hLe := h.le
  have hOld : (s.push data).callers[front]? = s.callers[front]? :=
    push_getElem? data (by omega)
  refine ⟨h.leader, by simp [Appends.push, head?_append, h.first], hLt, ?_, ?_, ?_⟩
  · rw [Appends.push, length_append]
    omega
  · rw [hOld]
    exact h.gone
  · intro j w hj hw
    by_cases hNew : j < s.callers.length
    · rw [push_getElem? data hNew] at hw
      exact h.waits j w hj hw
    · rw [Appends.push, getElem?_append_right (by omega), getElem?_singleton] at hw
      split at hw
      next =>
        cases hw
        exact ⟨rfl, false, rfl⟩
      next => cases hw

theorem Stuck.call {data : Bytes} (hCall : s.call pf data = some s') : s'.Stuck front m := by
  have hLt := h.lt
  have hLe := h.le
  rw [call_eq data h.first (by omega)] at hCall
  cases hCall
  exact (h.push data).setThread (by omega) fun _ => ⟨false, rfl⟩

/-- **Step lemma.** -/
theorem Stuck.step (hStep : s.step pf a = some s') : s'.Stuck front m := by
  cases a with
  | enqueue data => exact h.call (step_enqueue.mp hStep).2
  | resume k =>
    obtain ⟨⟨w, notified, hw, hWaiting⟩, hCheck⟩ := step_resume.mp hStep
    have hk : k ≠ front := by
      rintro rfl
      obtain ⟨value, hThread⟩ := h.gone _ hw
      cases hWaiting.symm.trans hThread
    have hHead : s.writers.head? ≠ some k := by
      rw [h.first, ne_eq, Option.some.injEq]
      exact hk.symm
    rw [check, hw] at hCheck
    simp only [if_neg hHead] at hCheck
    split at hCheck
    next hDone =>
      cases hCheck
      refine h.setThread hk fun hm => ?_
      cases hDone.symm.trans (h.waits k _ hm hw).1
    next =>
      cases hCheck
      exact h.setThread hk fun _ => ⟨false, rfl⟩
  | write =>
    obtain ⟨_, _, _, hLeader, -⟩ := step_write.mp hStep
    cases h.leader.symm.trans hLeader
  | rotate =>
    obtain ⟨_, _, _, hLeader, -⟩ := step_rotate.mp hStep
    cases h.leader.symm.trans hLeader
  | finish =>
    obtain ⟨_, _, _, hLeader, -⟩ := step_finish.mp hStep
    cases h.leader.symm.trans hLeader

/-- **Run lemma.** -/
theorem stuck_run (hRun : run (Appends.step pf) s acts = some s') : s'.Stuck front m :=
  run_keeps (fun _ _ _ h hStep => Stuck.step h hStep) h hRun

end Stuck

/-- The leader leaves its writer first in the queue. -/
theorem Fronts.failWrite (h : s.Fronts) (hFail : s.failWrite n = some s') :
    ∃ front, s'.Stuck front s.callers.length ∧ s'.callers.length = s.callers.length := by
  unfold Appends.failWrite at hFail
  split at hFail
  next writer _ batch hl =>
    split at hFail
    next =>
      cases hFail
      obtain ⟨hHead, w, hw, -⟩ := h _ hl
      have hLt := (List.getElem?_eq_some_iff.mp hw).1
      refine ⟨writer, ⟨rfl, hHead, hLt, ?_, ?_, ?_⟩, length_modify ..⟩
      · exact (length_modify ..).ge
      · intro w' hw'
        replace hw' : (s.callers.modify writer _)[writer]? = some w' := hw'
        rw [getElem?_modify_eq, if_pos rfl] at hw'
        obtain ⟨-, -, rfl⟩ := Option.map_eq_some_iff.mp hw'
        exact ⟨0, rfl⟩
      · intro k w' hk hw'
        replace hw' : (s.callers.modify writer _)[k]? = some w' := hw'
        have hOut := (List.getElem?_eq_some_iff.mp hw').1
        rw [length_modify] at hOut
        omega
    next => cases hFail
  next => cases hFail

/-- **After no failed write does the log stay usable**: the next call does not return. -/
theorem not_staysUsable_of_failWrite (hRun : run (Appends.step pf) (idle session) acts = some s)
    (hFail : s.failWrite n = some s') : ¬ s'.StaysUsable pf := by
  intro hUsable
  obtain ⟨front, hStuck, hLen⟩ := (fronts_run hRun).failWrite hFail
  have hCall : s'.call pf [] = some ((s'.push []).setThread s'.callers.length (.waiting false)) :=
    call_eq [] hStuck.first (by have := hStuck.lt; omega)
  have hRoom : HasRoom (((s'.push []).setThread s'.callers.length (.waiting false)).payloads.drop
      s'.callers.length) := by
    rw [payloads_setThread, payloads_push, payloads, drop_left' (length_map ..)]
    decide
  obtain ⟨s₃, ⟨after, -, hAfter⟩, hReturned⟩ := hUsable.returns [] s' [] _ rfl hCall hRoom
  exact (stuck_run (hStuck.call hCall) hAfter).not_returned hLen.ge hReturned

end

theorem not_staysUsable_of_failWrite_first :
    ∃ session s s', Session.initial .constant ∅ = some session ∧
      run (step .constant) (idle session) [.enqueue [97]] = some s ∧ s.failWrite 2 = some s' ∧
      ¬ s'.StaysUsable .constant := by
  obtain ⟨session, hInit, -⟩ := Represents.initial_empty .constant
  obtain ⟨s, hRun, hFails⟩ : ∃ s, run (step .constant) (idle session) [.enqueue [97]] = some s ∧
      (s.failWrite 2).isSome = true := by
    cases hInit
    exact run_reaches (by decide +kernel)
  obtain ⟨s', hFail⟩ := Option.isSome_iff_exists.mp hFails
  exact ⟨session, s, s', hInit, hRun, hFail, not_staysUsable_of_failWrite hRun hFail⟩

/-- The first write of a log fails. The next call waits, whatever the threads do and
whoever calls after it. -/
theorem call_waits_after_failed_write :
    ∃ session s s₁ s₂, Session.initial .constant ∅ = some session ∧
      run (step .constant) (idle session) [.enqueue [97]] = some s ∧ s.failWrite 0 = some s₁ ∧
      s₁.call .constant [98] = some s₂ ∧ s₂.callers.length = 2 ∧
      ∀ acts s₃, run (step .constant) s₂ acts = some s₃ → ¬ s₃.Returned 1 := by
  obtain ⟨session, hInit, -⟩ := Represents.initial_empty .constant
  obtain ⟨s, hRun, hOne, hFails⟩ : ∃ s,
      run (step .constant) (idle session) [.enqueue [97]] = some s ∧
      s.callers.length = 1 ∧ (s.failWrite 0).isSome = true := by
    cases hInit
    exact run_reaches (by decide +kernel)
  obtain ⟨s₁, hFail⟩ := Option.isSome_iff_exists.mp hFails
  obtain ⟨front, hStuck, hLen⟩ := (fronts_run hRun).failWrite hFail
  have hLt := hStuck.lt
  have hCall : s₁.call .constant [98] =
      some ((s₁.push [98]).setThread s₁.callers.length (.waiting false)) :=
    call_eq [98] hStuck.first (by omega)
  rw [hOne] at hStuck hLen
  refine ⟨session, s, s₁, _, hInit, hRun, hFail, hCall, ?_, ?_⟩
  · simp [setThread, push, hLen]
  · intro acts s₃ hAfter
    exact (stuck_run (hStuck.call hCall) hAfter).not_returned le_rfl

end Appends

end MyBase
