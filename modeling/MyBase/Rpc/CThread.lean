import MyBase.Lib.Run

/-!
# MyBase — dispatching callbacks to a thread

`CThread::dispatch` pushes a callback under a spin lock, and then reads `status` outside of
it: only when the loop thread is `IDLE` does it send a byte to wake it up. `CThread::wake`
takes the bytes, says `WAKE`, and runs callbacks until it finds the list empty; under the
lock it then says `IDLE` again.

Any number of dispatchers and the loop thread take their steps in any order. A locked
section is one step, apart from the one in which the list is found empty: its status change
can be overtaken by a dispatcher that reads the status, so it is two steps with the lock
held in between. While the thread is not stopped only the loop thread changes the status, so
its "read and change" is one step. The bytes of dispatchers all say `IDLE`, so their number
is enough, and each of them is sent.

A dispatcher may be the loop thread itself, inside of a callback: that is one of the
interleavings. With `Schedule::STACK` it calls the callback directly and takes no step here.

## Results

* `Inv` — what holds in every state: the status says where the loop thread is, a pending
  callback has somebody to look after it, and the callbacks of a dispatcher are, in order,
  those that have run, those taken from the list and those in it.
* `dispatched_in_order_and_woken` — the statement over all interleavings.
* `Inv.calls_pending` — the same as progress: without a dispatcher inside of its call, the
  loop thread by itself calls everything that was dispatched.
-/

namespace MyBase

open Lib List

structure Callback where
  dispatcher : Nat
  number : Nat
deriving DecidableEq, Repr

/-- Where a dispatcher is. -/
inductive DispatchAt where
  | outside
  /-- Behind its push, before it reads the status. -/
  | pushed
  /-- It has read `IDLE`, and is going to send its byte. -/
  | sending
deriving DecidableEq, Repr

/-- Where the loop thread is. -/
inductive LoopAt where
  /-- In the event loop. -/
  | waiting
  /-- Behind `recv`. -/
  | received
  /-- Before the lock at the head of the loop. -/
  | atHead
  /-- The list was empty; the lock is held. -/
  | emptied
  /-- With callbacks taken from the list that have not been called. -/
  | running (cbs : List Callback)
  /-- Behind the loop. -/
  | left
deriving DecidableEq, Repr

/-- The callbacks that have been taken from the list and have not been called. -/
def LoopAt.taken : LoopAt → List Callback
  | .running cbs => cbs
  | _ => []

/-- In `wake`, and the list will be checked again. -/
def LoopAt.ChecksAgain : LoopAt → Prop
  | .received => True
  | .atHead => True
  | .running _ => True
  | _ => False

/-- Between the two changes of the status. -/
def LoopAt.awake : LoopAt → Bool
  | .atHead => true
  | .emptied => true
  | .running _ => true
  | _ => false

namespace CThread

inductive Status where
  | IDLE
  | WAKE
  | EXIT
deriving DecidableEq, Repr

end CThread

/-- The thread, its dispatchers, and what has happened: how many callbacks each dispatcher
has pushed, and those that were called. -/
structure CThread where
  status : CThread.Status
  unread : Nat
  callbacks : List Callback
  loop : LoopAt
  dispatchers : Nat → DispatchAt
  dispatched : Nat → Nat
  ran : List Callback

namespace CThread

/-- After `init`. -/
def start : CThread := ⟨.IDLE, 0, [], .waiting, fun _ => .outside, fun _ => 0, []⟩

/-- A dispatcher pushes a callback, when the spin lock is free. -/
def push (t : CThread) (d : Nat) : Option CThread :=
  if t.dispatchers d = .outside ∧ t.loop ≠ .emptied then
    some { t with
      callbacks := t.callbacks ++ [⟨d, t.dispatched d⟩]
      dispatchers := Function.update t.dispatchers d .pushed
      dispatched := Function.update t.dispatched d (t.dispatched d + 1) }
  else none

/-- What a dispatcher does for the status it reads. -/
def afterStatus : Status → DispatchAt
  | .EXIT => .outside
  | .IDLE => .sending
  | .WAKE => .outside

def readStatus (t : CThread) (d : Nat) : Option CThread :=
  if t.dispatchers d = .pushed then
    some { t with dispatchers := Function.update t.dispatchers d (afterStatus t.status) }
  else none

def sendByte (t : CThread) (d : Nat) : Option CThread :=
  if t.dispatchers d = .sending then
    some { t with
      unread := t.unread + 1
      dispatchers := Function.update t.dispatchers d .outside }
  else none

/-- `if (status == WAKE) status = IDLE` -/
def idleIfWake (status : Status) : Status := if status = .WAKE then .IDLE else status

/-- The next step of the loop thread. -/
def wake (t : CThread) : CThread :=
  match t.loop with
  | .waiting =>
    if t.unread = 0 then t
    else { t with unread := t.unread - min t.unread 4096, loop := .received }
  | .received =>
    { t with status := if t.status = .IDLE then .WAKE else t.status, loop := .atHead }
  | .atHead =>
    if t.callbacks = [] then { t with loop := .emptied }
    else { t with loop := .running t.callbacks, callbacks := [] }
  | .emptied => { t with status := idleIfWake t.status, loop := .left }
  | .running [] => { t with loop := .atHead }
  | .running (cb :: cbs) => { t with ran := t.ran ++ [cb], loop := .running cbs }
  | .left => { t with status := idleIfWake t.status, loop := .waiting }

inductive Action where
  | push (d : Nat)
  | readStatus (d : Nat)
  | sendByte (d : Nat)
  | wake
deriving DecidableEq, Repr

def step (t : CThread) : Action → Option CThread
  | .push d => t.push d
  | .readStatus d => t.readStatus d
  | .sendByte d => t.sendByte d
  | .wake => some t.wake

/-- The callbacks that a dispatcher has pushed. -/
def callbacksOf (t : CThread) (d : Nat) : List Callback :=
  (List.range (t.dispatched d)).map (Callback.mk d)

/-- No callback has been called twice, and those of a dispatcher were called in the order in
which they were pushed. -/
structure InOrder (t : CThread) : Prop where
  once : t.ran.Nodup
  ordered : ∀ d, t.ran.filter (·.dispatcher = d) <+: t.callbacksOf d

/-- When a callback is pending and no dispatcher is inside of its call, the loop thread is
woken up or checks the list again. -/
def Woken (t : CThread) : Prop :=
  t.callbacks ≠ [] → (∀ d, t.dispatchers d = .outside) → 0 < t.unread ∨ t.loop.ChecksAgain

-- The invariant

structure Inv (t : CThread) : Prop where
  status_eq : t.status = if t.loop.awake then .WAKE else .IDLE
  emptied : t.loop = .emptied → t.callbacks = []
  cared : t.callbacks ≠ [] → 0 < t.unread ∨ t.loop.ChecksAgain ∨ ∃ d, t.dispatchers d ≠ .outside
  ordered : ∀ d, (t.ran ++ t.loop.taken ++ t.callbacks).filter (·.dispatcher = d) = t.callbacksOf d

theorem start_inv : start.Inv := ⟨rfl, fun _ => rfl, fun h => absurd rfl h, fun _ => rfl⟩

variable {t t' : CThread}

/-- A dispatcher adds its callback to the list. -/
theorem Inv.push (h : t.Inv) {d : Nat} (hStep : t.push d = some t') : t'.Inv := by
  unfold CThread.push at hStep
  split at hStep
  · rename_i hFree
    cases hStep
    refine ⟨h.status_eq, fun hEmptied => absurd hEmptied hFree.2, ?_, ?_⟩
    · intro _
      refine Or.inr (Or.inr ⟨d, ?_⟩)
      simp
    · intro d'
      have hOld := h.ordered d'
      rw [← append_assoc, filter_append, hOld, callbacksOf, callbacksOf]
      by_cases hd : d' = d
      · subst hd
        simp [range_succ]
      · have hd' : ¬ d = d' := fun heq => hd heq.symm
        simp [hd, hd']
  · cases hStep

/-- The status tells a dispatcher whether the loop thread checks the list again. -/
theorem Inv.readStatus (h : t.Inv) {d : Nat} (hStep : t.readStatus d = some t') : t'.Inv := by
  unfold CThread.readStatus at hStep
  split at hStep
  · cases hStep
    refine ⟨h.status_eq, h.emptied, ?_, h.ordered⟩
    intro hPending
    by_cases hAwake : t.loop.awake = true
    · -- `WAKE`: the thread has not found the list empty, as there is something in it
      refine Or.inr (Or.inl ?_)
      cases hLoop : t.loop with
      | emptied => exact absurd (h.emptied hLoop) hPending
      | atHead => exact trivial
      | running cbs => exact trivial
      | waiting => simp [hLoop, LoopAt.awake] at hAwake
      | received => simp [hLoop, LoopAt.awake] at hAwake
      | left => simp [hLoop, LoopAt.awake] at hAwake
    · -- `IDLE`: the dispatcher itself is going to send a byte
      refine Or.inr (Or.inr ⟨d, ?_⟩)
      have hStatus := h.status_eq
      rw [if_neg hAwake] at hStatus
      simp [hStatus, afterStatus]
  · cases hStep

theorem Inv.sendByte (h : t.Inv) {d : Nat} (hStep : t.sendByte d = some t') : t'.Inv := by
  unfold CThread.sendByte at hStep
  split at hStep
  · cases hStep
    exact ⟨h.status_eq, h.emptied, fun _ => Or.inl (Nat.succ_pos t.unread), h.ordered⟩
  · cases hStep

/-- The loop thread takes its next step. -/
theorem Inv.wake (h : t.Inv) : t.wake.Inv := by
  obtain ⟨hStatus, hEmptied, hCared, hOrdered⟩ := h
  unfold CThread.wake
  split
  · -- waiting for a byte
    rename_i hLoop
    split
    · exact ⟨hStatus, hEmptied, hCared, hOrdered⟩
    · rw [hLoop] at hStatus hOrdered
      exact ⟨hStatus, nofun, fun _ => Or.inr (Or.inl trivial), hOrdered⟩
  · -- `IDLE` becomes `WAKE`
    rename_i hLoop
    rw [hLoop] at hStatus hOrdered
    refine ⟨?_, nofun, fun _ => Or.inr (Or.inl trivial), hOrdered⟩
    simp [hStatus, LoopAt.awake]
  · -- the list is swapped, or found empty under the lock
    rename_i hLoop
    rw [hLoop] at hStatus hOrdered
    split
    · rename_i hNil
      exact ⟨hStatus, fun _ => hNil, fun hNe => absurd hNil hNe, hOrdered⟩
    · refine ⟨hStatus, nofun, fun hNe => absurd rfl hNe, ?_⟩
      intro d
      have hOld := hOrdered d
      simpa [LoopAt.taken, callbacksOf] using hOld
  · -- `WAKE` becomes `IDLE`, still under the lock
    rename_i hLoop
    have hNil := hEmptied hLoop
    rw [hLoop] at hStatus hOrdered
    refine ⟨?_, nofun, fun hNe => absurd hNil hNe, hOrdered⟩
    simp [hStatus, idleIfWake, LoopAt.awake]
  · rename_i hLoop
    rw [hLoop] at hStatus hOrdered
    exact ⟨hStatus, nofun, fun _ => Or.inr (Or.inl trivial), hOrdered⟩
  · -- one callback is called
    rename_i cb cbs hLoop
    rw [hLoop] at hStatus hOrdered
    refine ⟨hStatus, nofun, fun _ => Or.inr (Or.inl trivial), ?_⟩
    intro d
    have hOld := hOrdered d
    rw [LoopAt.taken, append_cons] at hOld
    exact hOld
  · rename_i hLoop
    rw [hLoop] at hStatus hOrdered hCared
    refine ⟨?_, nofun, ?_, hOrdered⟩
    · simp [hStatus, idleIfWake, LoopAt.awake]
    · exact hCared

/-- **Step lemma.** -/
theorem Inv.step (h : t.Inv) {a : Action} (hStep : t.step a = some t') : t'.Inv := by
  cases a with
  | push d => exact h.push hStep
  | readStatus d => exact h.readStatus hStep
  | sendByte d => exact h.sendByte hStep
  | wake =>
    cases hStep
    exact h.wake

-- What the invariant gives

theorem Inv.inOrder (h : t.Inv) : t.InOrder := by
  have hPrefix : ∀ d, t.ran.filter (·.dispatcher = d) <+: t.callbacksOf d := by
    intro d
    rw [← h.ordered d, append_assoc, filter_append]
    exact prefix_append _ _
  refine ⟨?_, hPrefix⟩
  rw [nodup_iff_count_le_one]
  intro cb
  have hMine : ((t.callbacksOf cb.dispatcher)).Nodup :=
    List.nodup_range.map fun i j hij => (Callback.mk.inj hij).2
  have hFilter : (t.ran.filter (·.dispatcher = cb.dispatcher)).count cb = t.ran.count cb :=
    count_filter (by simp)
  rw [← hFilter]
  exact List.nodup_iff_count_le_one.mp (hMine.sublist (hPrefix cb.dispatcher).sublist) cb

theorem Inv.woken (h : t.Inv) : t.Woken := by
  intro hPending hOutside
  rcases h.cared hPending with hUnread | hChecks | ⟨d, hInside⟩
  · exact Or.inl hUnread
  · exact Or.inr hChecks
  · exact absurd (hOutside d) hInside

/-- For any number of dispatchers and every interleaving of their steps with those of the
loop thread: no callback is called twice, those of a dispatcher are called in order, and
whenever a callback is pending and no dispatcher is between its push and the end of its
call, a byte is unread or the loop thread checks the list again. -/
theorem dispatched_in_order_and_woken {actions : List Action}
    (hRun : run step start actions = some t) : t.InOrder ∧ t.Woken := by
  have hInv : t.Inv := run_keeps (fun _ _ _ h hStep => h.step hStep) start_inv hRun
  exact ⟨hInv.inOrder, hInv.woken⟩

/-- Two dispatchers; the second finds the loop thread awake. -/
theorem dispatched_in_order_and_woken_two :
    ∃ t, run step start [.push 0, .readStatus 0, .sendByte 0, .wake, .wake, .push 1,
      .readStatus 1, .wake, .wake, .push 0] = some t ∧
        t.ran = [⟨0, 0⟩] ∧ t.InOrder ∧ t.Woken :=
  ⟨_, rfl, rfl, dispatched_in_order_and_woken (show run step start [.push 0, .readStatus 0,
    .sendByte 0, .wake, .wake, .push 1, .readStatus 1, .wake, .wake, .push 0] = some _ from rfl)⟩

/-- A dispatcher that has read the status and not yet sent its byte: its callback is pending,
no byte is unread, and the loop thread is in the event loop. -/
theorem pending_before_byte :
    ∃ t, run step start [.push 0, .readStatus 0] = some t ∧ t.callbacks ≠ [] ∧
      (∀ d, t.dispatchers d ≠ .pushed) ∧ ¬ (0 < t.unread ∨ t.loop.ChecksAgain) := by
  refine ⟨_, rfl, by decide, ?_, ?_⟩
  · intro d
    by_cases hd : d = 0 <;> simp [hd, start, afterStatus]
  · rintro (hUnread | hChecks)
    · exact Nat.lt_irrefl 0 hUnread
    · exact hChecks

-- Progress

/-- The callbacks that were taken are called, one after the other. -/
theorem wake_running {cbs : List Callback} (hLoop : t.loop = .running cbs) :
    CThread.wake^[cbs.length + 1] t = { t with ran := t.ran ++ cbs, loop := .atHead } := by
  induction cbs generalizing t with
  | nil =>
    show t.wake = _
    simp [CThread.wake, hLoop]
  | cons cb cbs ih =>
    have hWake : t.wake = { t with ran := t.ran ++ [cb], loop := .running cbs } := by
      simp [CThread.wake, hLoop]
    rw [length_cons, Function.iterate_succ_apply, hWake, ih rfl]
    simp

theorem wake_atHead (hLoop : t.loop = .atHead) :
    ∃ n, (CThread.wake^[n] t).ran = t.ran ++ t.callbacks := by
  by_cases hNil : t.callbacks = []
  · exact ⟨0, by simp [hNil]⟩
  · have hWake : t.wake = { t with loop := .running t.callbacks, callbacks := [] } := by
      simp [CThread.wake, hLoop, hNil]
    refine ⟨t.callbacks.length + 1 + 1, ?_⟩
    rw [Function.iterate_succ_apply, hWake, wake_running rfl]

theorem wake_received (hLoop : t.loop = .received) :
    ∃ n, (CThread.wake^[n] t).ran = t.ran ++ t.callbacks := by
  have hWake : t.wake =
      { t with status := if t.status = .IDLE then .WAKE else t.status, loop := .atHead } := by
    simp [CThread.wake, hLoop]
  obtain ⟨n, hn⟩ := wake_atHead (t := t.wake) (by rw [hWake])
  refine ⟨n + 1, ?_⟩
  rw [Function.iterate_succ_apply, hn, hWake]

theorem wake_waiting (hLoop : t.loop = .waiting) (hUnread : 0 < t.unread) :
    ∃ n, (CThread.wake^[n] t).ran = t.ran ++ t.callbacks := by
  have hWake : t.wake = { t with unread := t.unread - min t.unread 4096, loop := .received } := by
    simp [CThread.wake, hLoop, hUnread.ne']
  obtain ⟨n, hn⟩ := wake_received (t := t.wake) (by rw [hWake])
  refine ⟨n + 1, ?_⟩
  rw [Function.iterate_succ_apply, hn, hWake]

theorem wake_left (hLoop : t.loop = .left) (hUnread : 0 < t.unread) :
    ∃ n, (CThread.wake^[n] t).ran = t.ran ++ t.callbacks := by
  have hWake : t.wake = { t with status := idleIfWake t.status, loop := .waiting } := by
    simp [CThread.wake, hLoop]
  obtain ⟨n, hn⟩ := wake_waiting (t := t.wake) (by rw [hWake]) (by rw [hWake]; exact hUnread)
  refine ⟨n + 1, ?_⟩
  rw [Function.iterate_succ_apply, hn, hWake]

/-- Without a dispatcher inside of its call, the loop thread calls all that was dispatched. -/
theorem Inv.calls_pending (h : t.Inv) (hOutside : ∀ d, t.dispatchers d = .outside) :
    ∃ n, ∀ d, (CThread.wake^[n] t).ran.filter (·.dispatcher = d) = t.callbacksOf d := by
  suffices hAll : ∃ n, (CThread.wake^[n] t).ran = t.ran ++ t.loop.taken ++ t.callbacks by
    obtain ⟨n, hn⟩ := hAll
    refine ⟨n, fun d => ?_⟩
    rw [hn, h.ordered d]
  -- what is not waited for is in the list, and the list is empty or looked after
  have hWoken : t.callbacks = [] ∨ 0 < t.unread ∨ t.loop.ChecksAgain :=
    (Classical.em _).imp_right fun hPending => h.woken hPending hOutside
  cases hLoop : t.loop with
  | waiting =>
    rw [hLoop] at hWoken
    rcases hWoken with hNil | hUnread | hChecks
    · exact ⟨0, by simp [LoopAt.taken, hNil]⟩
    · simpa [LoopAt.taken] using wake_waiting hLoop hUnread
    · exact hChecks.elim
  | received => simpa [LoopAt.taken] using wake_received hLoop
  | atHead => simpa [LoopAt.taken] using wake_atHead hLoop
  | emptied => exact ⟨0, by simp [LoopAt.taken, h.emptied hLoop]⟩
  | running cbs =>
    obtain ⟨n, hn⟩ := wake_atHead (t := { t with ran := t.ran ++ cbs, loop := .atHead }) rfl
    refine ⟨n + (cbs.length + 1), ?_⟩
    rw [Function.iterate_add_apply, wake_running hLoop, hn, LoopAt.taken]
  | left =>
    rw [hLoop] at hWoken
    rcases hWoken with hNil | hUnread | hChecks
    · exact ⟨0, by simp [LoopAt.taken, hNil]⟩
    · simpa [LoopAt.taken] using wake_left hLoop hUnread
    · exact hChecks.elim

/-- **Everything dispatched is called.** After every interleaving that ends with no dispatcher
inside of its call, the loop thread by itself gets to call, in order, all that each dispatcher
has pushed. -/
theorem all_dispatched_called {actions : List Action} (hRun : run step start actions = some t)
    (hOutside : ∀ d, t.dispatchers d = .outside) :
    ∃ n, ∀ d, (CThread.wake^[n] t).ran.filter (·.dispatcher = d) = t.callbacksOf d := by
  have hInv : t.Inv := run_keeps (fun _ _ _ h hStep => h.step hStep) start_inv hRun
  exact hInv.calls_pending hOutside

/-- The loop thread has taken the byte of the first dispatcher and not said `WAKE` yet, so the
second one reads `IDLE` and sends a byte, too. -/
theorem all_dispatched_called_two :
    ∃ t n, run step start [.push 0, .readStatus 0, .sendByte 0, .wake, .push 1, .readStatus 1,
        .sendByte 1] = some t ∧
      (CThread.wake^[n] t).ran.filter (·.dispatcher = 1) = [⟨1, 0⟩] := by
  have hRun : run step start [.push 0, .readStatus 0, .sendByte 0, .wake, .push 1, .readStatus 1,
      .sendByte 1] = some _ := rfl
  obtain ⟨n, hn⟩ := all_dispatched_called hRun fun d => by rcases d with _ | _ | d <;> rfl
  exact ⟨_, n, hRun, hn 1⟩

end CThread

end MyBase
