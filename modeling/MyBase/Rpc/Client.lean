import MyBase.Lib.OrdMap
import MyBase.Lib.Run

/-!
# MyBase — the life of a request on an `rpc::Client`

A client owns one connection and the map `ctxs` from sequence numbers to the
requests that wait for an answer. Everything but the call of `request` happens on
the client's own thread: the lambda that enters a request into the map and writes
its frame, the frames and connection events that arrive, and the timers. A callback
that is dispatched from this thread is invoked at once.

A request leaves the map when its answer arrives, when its timer expires, and when
the connection closes; each of them invokes its callback. `evtimer_del` and the
destructor of `Async` stop the timer, so the requests with a running timer are
exactly those in the map.

Main results:

* `callback_once` — while no connection failure is reported inside `connect`, the
  callback of every request has been invoked exactly once as soon as its timer is gone;
* `callback_twice` — a failure that is reported before `connect` returns invokes the
  callback of the request that connects with `CLOSED` and again with `FAILED`.
-/

namespace MyBase

open Lib List

/-- `ContextX::Status`. -/
inductive ContextStatus
  | ok
  | timeout
  | failed
  | closed
deriving DecidableEq, Repr

/-- `Client::Status`; the connection's `bev` is null exactly while `closed`. -/
inductive ClientStatus
  | closed
  | connected
  | connecting
deriving DecidableEq, Repr

/-- A `ClientCtx` with its callback; `call` tells the calls of `request` apart. -/
structure ClientCtx (κ : Type) where
  call : κ
  sequence : Nat
deriving DecidableEq, Repr

structure RpcClient (κ : Type) where
  status : ClientStatus
  ctxs : OrdMap Nat (ClientCtx κ)
  /-- Calls of `request` whose lambda has not run yet. -/
  dispatched : List (ClientCtx κ)
  /-- All calls of `request`. -/
  requested : List (ClientCtx κ)
  /-- Requests whose frame was written to a connection. -/
  sent : List (ClientCtx κ)
  /-- Invocations of callbacks. -/
  invoked : List (ClientCtx κ × ContextStatus)

inductive ClientAction (κ : Type)
  /-- Some thread calls `request`. -/
  | request (r : ClientCtx κ)
  /-- The lambda of `r` runs. If it has to connect, `reported` says that the failure
  of the connection is reported before `connect` returns. -/
  | start (r : ClientCtx κ) (reported : Bool)
  /-- `attachNio` connects. -/
  | connect (reported : Bool)
  /-- `BEV_EVENT_CONNECTED`. -/
  | connected
  /-- Any other event of the connection. -/
  | failure
  /-- A frame with this sequence number arrives. -/
  | recv (seq : Nat)
  /-- The timer of the request with this sequence number expires. -/
  | expire (seq : Nat)
  /-- The lambda of `close(sync)` runs. -/
  | close
deriving DecidableEq, Repr

namespace RpcClient

variable {κ : Type}

/-- A client as constructed. -/
def init : RpcClient κ := ⟨.closed, ∅, [], [], [], []⟩

/-- `Client::close`: every request in the map is invoked, and the map cleared. -/
def close (c : RpcClient κ) : RpcClient κ :=
  if c.status = .closed then c
  else
    { c with
      status := .closed
      ctxs := ∅
      invoked := c.invoked ++ c.ctxs.entries.map fun e => (e.2, .closed) }

/-- `Client::connect`. -/
def connect (c : RpcClient κ) (reported : Bool) : RpcClient κ :=
  if c.status = .closed then
    let c := { c with status := .connecting }
    if reported then c.close else c
  else c

/-- `erase(seq)` followed by `invoke`, for an answer or a timer. -/
def complete (c : RpcClient κ) (seq : Nat) (status : ContextStatus) : RpcClient κ :=
  match c.ctxs.find? seq with
  | none => c
  | some r => { c with ctxs := c.ctxs.erase seq, invoked := c.invoked ++ [(r, status)] }

/-- `ctxs.emplace` in the lambda of `request`, which is not queued any more. -/
def enter [DecidableEq κ] (c : RpcClient κ) (r : ClientCtx κ) : RpcClient κ :=
  { c with dispatched := c.dispatched.erase r, ctxs := c.ctxs.emplace r.sequence r }

/-- The lambda of `request`. Without a `bev` nothing can be sent. -/
def start [DecidableEq κ] (c : RpcClient κ) (r : ClientCtx κ) (reported : Bool) : RpcClient κ :=
  let c := (c.enter r).connect reported
  if c.status = .closed then
    { c with ctxs := c.ctxs.erase r.sequence, invoked := c.invoked ++ [(r, .failed)] }
  else { c with sent := c.sent ++ [r] }

def step [DecidableEq κ] (c : RpcClient κ) : ClientAction κ → Option (RpcClient κ)
  | .request r =>
    if r ∈ c.requested then none
    else some { c with dispatched := c.dispatched ++ [r], requested := c.requested ++ [r] }
  | .start r reported => if r ∈ c.dispatched then some (c.start r reported) else none
  | .connect reported => some (c.connect reported)
  | .connected => if c.status = .closed then none else some { c with status := .connected }
  | .failure => some c.close
  | .recv seq => some (c.complete seq .ok)
  | .expire seq =>
    if (c.ctxs.find? seq).isSome then some (c.complete seq .timeout) else none
  | .close => some c.close

/-- What a step does. -/
inductive Steps [DecidableEq κ] (c : RpcClient κ) : ClientAction κ → RpcClient κ → Prop
  | request {r : ClientCtx κ} (hNew : r ∉ c.requested) :
      Steps c (.request r)
        { c with dispatched := c.dispatched ++ [r], requested := c.requested ++ [r] }
  | start {r : ClientCtx κ} {reported : Bool} (hr : r ∈ c.dispatched) :
      Steps c (.start r reported) (c.start r reported)
  | connect {reported : Bool} : Steps c (.connect reported) (c.connect reported)
  | connected : Steps c .connected { c with status := .connected }
  | failure : Steps c .failure c.close
  | recv {seq : Nat} : Steps c (.recv seq) (c.complete seq .ok)
  | expire {seq : Nat} : Steps c (.expire seq) (c.complete seq .timeout)
  | close : Steps c .close c.close

variable {c c' : RpcClient κ} {r : ClientCtx κ} {a : ClientAction κ}

/-- Every step of the client is one of `Steps`. -/
theorem steps_of_step [DecidableEq κ] (hStep : c.step a = some c') : c.Steps a c' := by
  cases a with
  | request r =>
    simp only [step] at hStep
    split at hStep
    · cases hStep
    · rename_i hNew
      cases hStep
      exact .request hNew
  | start r reported =>
    simp only [step] at hStep
    split at hStep
    · rename_i hr
      cases hStep
      exact .start hr
    · cases hStep
  | connect reported =>
    cases hStep
    exact .connect
  | connected =>
    simp only [step] at hStep
    split at hStep
    · cases hStep
    · cases hStep
      exact .connected
  | failure =>
    cases hStep
    exact .failure
  | recv seq =>
    cases hStep
    exact .recv
  | expire seq =>
    simp only [step] at hStep
    split at hStep
    · cases hStep
      exact .expire
    · cases hStep
  | close =>
    cases hStep
    exact .close

@[simp] theorem close_requested (c : RpcClient κ) : c.close.requested = c.requested := by
  unfold close
  split <;> rfl

@[simp] theorem connect_requested (c : RpcClient κ) (reported : Bool) :
    (c.connect reported).requested = c.requested := by
  unfold connect
  split
  · cases reported
    · rfl
    · exact close_requested { c with status := .connecting }
  · rfl

@[simp] theorem complete_requested (c : RpcClient κ) (seq : Nat) (status : ContextStatus) :
    (c.complete seq status).requested = c.requested := by
  unfold complete
  split <;> rfl

@[simp] theorem start_requested [DecidableEq κ] (c : RpcClient κ) (r : ClientCtx κ)
    (reported : Bool) : (c.start r reported).requested = c.requested := by
  have hConnect : ((c.enter r).connect reported).requested = c.requested :=
    connect_requested _ reported
  unfold start
  dsimp only
  split <;> exact hConnect

/-- Only `request` adds requests. -/
theorem step_requested [DecidableEq κ] (hNot : ∀ r, a ≠ .request r) (hStep : c.step a = some c') :
    c'.requested = c.requested := by
  cases steps_of_step hStep with
  | request hNew => exact absurd rfl (hNot _)
  | start hr => exact start_requested c _ _
  | connect => exact connect_requested c _
  | connected => rfl
  | failure => exact close_requested c
  | recv => exact complete_requested c _ .ok
  | expire => exact complete_requested c _ .timeout
  | close => exact close_requested c

/-- How often the callback of `r` has been invoked. -/
def invocations [DecidableEq κ] (c : RpcClient κ) (r : ClientCtx κ) : Nat :=
  (c.invoked.map Prod.fst).count r

/-- The callback of `r` has not been invoked yet. -/
def Outstanding (c : RpcClient κ) (r : ClientCtx κ) : Prop :=
  r ∈ c.requested ∧ r ∉ c.invoked.map Prod.fst

instance [DecidableEq κ] (c : RpcClient κ) (r : ClientCtx κ) : Decidable (c.Outstanding r) := by
  unfold Outstanding
  infer_instance

/-- `r` is in the map, which is to say that its timer is running. -/
def Armed (c : RpcClient κ) (r : ClientCtx κ) : Prop := c.ctxs.find? r.sequence = some r

instance [DecidableEq κ] (c : RpcClient κ) (r : ClientCtx κ) : Decidable (c.Armed r) := by
  unfold Armed
  infer_instance

/-- A new request has a sequence number that no outstanding one has. -/
def Distinct (c : RpcClient κ) : ClientAction κ → Prop
  | .request r => ∀ r' ∈ c.requested, c.Outstanding r' → r'.sequence ≠ r.sequence
  | _ => True

instance [DecidableEq κ] (c : RpcClient κ) (a : ClientAction κ) : Decidable (c.Distinct a) := by
  cases a <;> unfold Distinct <;> infer_instance

/-- A request that has to connect is not told of a failure before `connect` returns. -/
def ReportsLate (c : RpcClient κ) : ClientAction κ → Prop
  | .start _ reported => reported = true → c.status ≠ .closed
  | _ => True

instance (c : RpcClient κ) (a : ClientAction κ) : Decidable (c.ReportsLate a) := by
  cases a <;> unfold ReportsLate <;> infer_instance

-- What waits in the client

/-- `r` is on its way into the map, or in it. -/
def Waiting (c : RpcClient κ) (r : ClientCtx κ) : Prop := r ∈ c.dispatched ∨ c.Armed r

structure Inv (c : RpcClient κ) : Prop where
  keyed : ∀ k r, c.ctxs.find? k = some r →
    r.sequence = k ∧ r ∈ c.requested ∧ r ∉ c.dispatched
  queued : ∀ r ∈ c.dispatched, r ∈ c.requested
  queued_nodup : c.dispatched.Nodup
  sent : ∀ r ∈ c.sent, r ∈ c.requested ∧ r ∉ c.dispatched
  distinct : ∀ r r', c.Waiting r → c.Waiting r' → r.sequence = r'.sequence → r = r'
  invoked : ∀ r ∈ c.invoked.map Prod.fst, r ∈ c.requested
  called : ∀ r ∈ c.requested, (r ∈ c.invoked.map Prod.fst ↔ ¬ c.Waiting r)

theorem init_inv : (init : RpcClient κ).Inv where
  keyed := by simp [init]
  queued := by simp [init]
  queued_nodup := nodup_nil
  sent := by simp [init]
  distinct := by simp [init, Waiting, Armed]
  invoked := by simp [init]
  called := by simp [init]

theorem Inv.waiting_requested (h : c.Inv) (hr : c.Waiting r) : r ∈ c.requested := by
  rcases hr with hr | hr
  · exact h.queued r hr
  · exact (h.keyed _ r hr).2.1

theorem Inv.outstanding_iff (h : c.Inv) : c.Outstanding r ↔ c.Waiting r := by
  constructor
  · rintro ⟨hReq, hNot⟩
    by_contra hWait
    exact hNot ((h.called r hReq).mpr hWait)
  · intro hWait
    have hReq := h.waiting_requested hWait
    exact ⟨hReq, fun hIn => (h.called r hReq).mp hIn hWait⟩

/-- `c'` is `c` after some requests have left the map and been invoked. -/
structure Settles (c c' : RpcClient κ) : Prop where
  dispatched : c'.dispatched = c.dispatched
  requested : c'.requested = c.requested
  sent : c'.sent = c.sent
  ctxs : ∀ k r, c'.ctxs.find? k = some r → c.ctxs.find? k = some r
  invoked : ∃ done, c'.invoked = c.invoked ++ done ∧
    (done.map Prod.fst).Nodup ∧
    ∀ r, r ∈ done.map Prod.fst ↔ c.Armed r ∧ ¬ c'.Armed r

theorem Settles.refl (c : RpcClient κ) : c.Settles c where
  dispatched := rfl
  requested := rfl
  sent := rfl
  ctxs := fun _ _ h => h
  invoked := ⟨[], by simp, by simp, by simp⟩

/-- The status of the connection plays no part in it. -/
theorem Settles.of_status {status : ClientStatus} (h : { c with status := status }.Settles c') :
    c.Settles c' :=
  ⟨h.dispatched, h.requested, h.sent, h.ctxs, h.invoked⟩

/-- An answer settles one request. -/
theorem Inv.settles_complete (h : c.Inv) (seq : Nat) (status : ContextStatus) :
    c.Settles (c.complete seq status) := by
  unfold complete
  split
  · exact .refl c
  · rename_i r hFind
    have hSeq : r.sequence = seq := (h.keyed seq r hFind).1
    refine ⟨rfl, rfl, rfl, ?_, [(r, status)], rfl, by simp, ?_⟩
    · intro k r' hr'
      rw [OrdMap.find?_erase] at hr'
      split at hr'
      · cases hr'
      · exact hr'
    · intro r'
      simp only [map_cons, map_nil, mem_singleton, Armed, OrdMap.find?_erase]
      constructor
      · rintro rfl
        rw [hSeq]
        exact ⟨hFind, by simp⟩
      · rintro ⟨hArmed, hGone⟩
        split at hGone
        · rename_i hEq
          rw [hEq, hFind] at hArmed
          exact (Option.some.inj hArmed).symm
        · exact absurd hArmed hGone

/-- A failure settles all that are outstanding. -/
theorem Inv.settles_close (h : c.Inv) : c.Settles c.close := by
  unfold close
  split
  · exact .refl c
  · have hMap : (c.ctxs.entries.map fun e => (e.2, ContextStatus.closed)).map Prod.fst =
        c.ctxs.entries.map Prod.snd := by simp [Function.comp_def]
    have hKeys : c.ctxs.entries.map (fun e => e.2.sequence) = c.ctxs.keys := by
      refine map_congr_left ?_
      intro e he
      exact (h.keyed e.1 e.2 (OrdMap.find?_of_mem he)).1
    refine ⟨rfl, rfl, rfl, by simp, _, rfl, ?_, ?_⟩
    · rw [hMap]
      refine List.Nodup.of_map ClientCtx.sequence ?_
      rw [map_map]
      exact hKeys ▸ c.ctxs.keys_nodup
    · intro r
      simp only [hMap, Armed, OrdMap.find?_empty, reduceCtorEq, not_false_eq_true, and_true]
      constructor
      · intro hr
        obtain ⟨⟨k, r'⟩, he, rfl⟩ := mem_map.mp hr
        have hFind := OrdMap.find?_of_mem he
        rw [(h.keyed k r' hFind).1]
        exact hFind
      · intro hr
        exact mem_map.mpr ⟨_, OrdMap.mem_of_find? hr, rfl⟩

/-- Requests that leave the map with an invocation leave the invariant as it is. -/
theorem Inv.settles (h : c.Inv) (hSettles : c.Settles c') : c'.Inv := by
  obtain ⟨hQueue, hReq, hSent, hCtxs, done, hInvoked, -, hDone⟩ := hSettles
  have hWaits : ∀ r, c'.Waiting r → c.Waiting r := by
    intro r hr
    rcases hr with hr | hr
    · exact .inl (hQueue ▸ hr)
    · exact .inr (hCtxs _ _ hr)
  refine ⟨?_, ?_, ?_, ?_, ?_, ?_, ?_⟩
  · intro k r hr
    rw [hReq, hQueue]
    exact h.keyed k r (hCtxs k r hr)
  · rw [hReq, hQueue]
    exact h.queued
  · rw [hQueue]
    exact h.queued_nodup
  · rw [hSent, hReq, hQueue]
    exact h.sent
  · intro r r' hr hr'
    exact h.distinct r r' (hWaits r hr) (hWaits r' hr')
  · intro r hr
    rw [hInvoked, map_append, mem_append, hDone] at hr
    rw [hReq]
    rcases hr with hr | ⟨hArmed, -⟩
    · exact h.invoked r hr
    · exact (h.keyed _ r hArmed).2.1
  · intro r hr
    rw [hReq] at hr
    have hBefore := h.called r hr
    rw [hInvoked, map_append, mem_append, hBefore, hDone]
    have hSame : r ∈ c'.dispatched ↔ r ∈ c.dispatched := by rw [hQueue]
    constructor
    · rintro (hNot | ⟨hArmed, hGone⟩) hWait
      · exact hNot (hWaits r hWait)
      · rcases hWait with hWait | hWait
        · exact (h.keyed _ r hArmed).2.2 (hSame.mp hWait)
        · exact hGone hWait
    · intro hNot
      by_cases hArmed : c.Armed r
      · exact .inr ⟨hArmed, fun h' => hNot (.inr h')⟩
      · refine .inl ?_
        rintro (hWait | hWait)
        · exact hNot (.inl (hSame.mpr hWait))
        · exact hArmed hWait

theorem Inv.of_status (h : c.Inv) (status : ClientStatus) : { c with status := status }.Inv :=
  ⟨h.keyed, h.queued, h.queued_nodup, h.sent, h.distinct, h.invoked, h.called⟩

/-- Connecting invokes nobody unless a failure is reported meanwhile, and then those in
the map. -/
theorem Inv.settles_connect (h : c.Inv) (reported : Bool) : c.Settles (c.connect reported) := by
  unfold connect
  split
  · cases reported
    · exact (Settles.refl { c with status := .connecting }).of_status
    · exact (h.of_status .connecting).settles_close.of_status
  · exact .refl c

/-- No callback has been invoked twice. -/
def Once (c : RpcClient κ) : Prop := (c.invoked.map Prod.fst).Nodup

theorem Once.settles (hOnce : c.Once) (h : c.Inv) (hSettles : c.Settles c') : c'.Once := by
  obtain ⟨done, hInvoked, hNodup, hDone⟩ := hSettles.invoked
  unfold Once
  rw [hInvoked, map_append]
  refine nodup_append.mpr ⟨hOnce, hNodup, ?_⟩
  intro r hr r' hr' hEq
  subst hEq
  have hArmed := ((hDone r).mp hr').1
  exact (h.called r (h.invoked r hr)).mp hr (.inr hArmed)

-- Entering the map

theorem Inv.not_armed_of_dispatched (h : c.Inv) (hr : r ∈ c.dispatched) :
    c.ctxs.find? r.sequence = none := by
  cases hFind : c.ctxs.find? r.sequence with
  | none => rfl
  | some r' =>
    obtain ⟨hSeq, -, hOut⟩ := h.keyed _ r' hFind
    have hArmed : c.Armed r' := by rw [Armed, hSeq, hFind]
    have hEq : r' = r := h.distinct r' r (.inr hArmed) (.inl hr) hSeq
    exact absurd (hEq ▸ hr) hOut

/-- A request is dispatched under a number that is not in use. -/
theorem Inv.request (h : c.Inv) (hNew : r ∉ c.requested) (hDistinct : c.Distinct (.request r)) :
    { c with dispatched := c.dispatched ++ [r], requested := c.requested ++ [r] }.Inv := by
  have hSeq : ∀ r', c.Waiting r' → r'.sequence ≠ r.sequence := by
    intro r' hr'
    exact hDistinct r' (h.waiting_requested hr') (h.outstanding_iff.mpr hr')
  obtain ⟨c', hc'⟩ : ∃ c' : RpcClient κ, c' =
      { c with dispatched := c.dispatched ++ [r], requested := c.requested ++ [r] } := ⟨_, rfl⟩
  have hWaits : ∀ r', c'.Waiting r' ↔ r' = r ∨ c.Waiting r' := by
    intro r'
    rw [hc']
    simp only [Waiting, Armed, mem_append, mem_singleton]
    tauto
  rw [← hc']
  have hMem : ∀ r', r' ∈ c'.requested ↔ r' ∈ c.requested ∨ r' = r := by
    intro r'
    rw [hc']
    simp
  have hQueue : ∀ r', r' ∈ c'.dispatched ↔ r' ∈ c.dispatched ∨ r' = r := by
    intro r'
    rw [hc']
    simp
  -- a request known before is not the new one
  have hOld : ∀ r', r' ∈ c.requested → r' ∉ c.dispatched → r' ∉ c'.dispatched := by
    intro r' hReq hOut hIn
    rcases (hQueue r').mp hIn with hIn | rfl
    · exact hOut hIn
    · exact hNew hReq
  refine ⟨?_, ?_, ?_, ?_, ?_, ?_, ?_⟩
  · intro k r' hFind
    rw [hc'] at hFind
    obtain ⟨hKey, hReq, hOut⟩ := h.keyed k r' hFind
    exact ⟨hKey, (hMem r').mpr (.inl hReq), hOld r' hReq hOut⟩
  · intro r' hr'
    rcases (hQueue r').mp hr' with hr' | rfl
    · exact (hMem r').mpr (.inl (h.queued r' hr'))
    · exact (hMem r').mpr (.inr rfl)
  · rw [hc']
    refine nodup_append.mpr ⟨h.queued_nodup, nodup_singleton r, ?_⟩
    intro a ha b hb
    rw [mem_singleton.mp hb]
    rintro rfl
    exact hNew (h.queued a ha)
  · intro r' hr'
    rw [hc'] at hr'
    obtain ⟨hReq, hOut⟩ := h.sent r' hr'
    exact ⟨(hMem r').mpr (.inl hReq), hOld r' hReq hOut⟩
  · intro r₁ r₂ h₁ h₂ hEq
    rcases (hWaits r₁).mp h₁ with rfl | h₁
    · rcases (hWaits r₂).mp h₂ with rfl | h₂
      · rfl
      · exact absurd hEq.symm (hSeq r₂ h₂)
    · rcases (hWaits r₂).mp h₂ with rfl | h₂
      · exact absurd hEq (hSeq r₁ h₁)
      · exact h.distinct r₁ r₂ h₁ h₂ hEq
  · intro r' hr'
    rw [hc'] at hr'
    exact (hMem r').mpr (.inl (h.invoked r' hr'))
  · intro r' hr'
    have hSame : c'.invoked = c.invoked := by rw [hc']
    rw [hWaits, not_or, hSame]
    rcases (hMem r').mp hr' with hReq | rfl
    · rw [h.called r' hReq]
      exact ⟨fun hNot => ⟨fun hEq => hNew (hEq ▸ hReq), hNot⟩, fun hNot => hNot.2⟩
    · exact ⟨fun hIn => absurd (h.invoked r' hIn) hNew, fun hNot => absurd rfl hNot.1⟩

variable [DecidableEq κ]

/-- The map has room for a request that comes from the queue. -/
theorem Inv.enter_armed (h : c.Inv) (hr : r ∈ c.dispatched) (r' : ClientCtx κ) :
    (c.enter r).Armed r' ↔ r' = r ∨ c.Armed r' := by
  have hFree := h.not_armed_of_dispatched hr
  unfold Armed enter
  rw [OrdMap.find?_emplace, hFree]
  split
  · rename_i hSeq
    rw [hSeq, hFree]
    simp [eq_comm]
  · rename_i hSeq
    constructor
    · exact .inr
    · rintro (rfl | hr')
      · exact absurd rfl hSeq
      · exact hr'

theorem Inv.enter_waiting (h : c.Inv) (hr : r ∈ c.dispatched) (r' : ClientCtx κ) :
    (c.enter r).Waiting r' ↔ c.Waiting r' := by
  unfold Waiting
  rw [h.enter_armed hr]
  show r' ∈ c.dispatched.erase r ∨ _ ↔ _
  rw [h.queued_nodup.mem_erase_iff]
  by_cases hEq : r' = r
  · subst hEq
    simp [hr]
  · simp [hEq]

/-- A request is entered under its number. -/
theorem Inv.enter (h : c.Inv) (hr : r ∈ c.dispatched) : (c.enter r).Inv := by
  have hFree := h.not_armed_of_dispatched hr
  have hErased : ∀ r', r' ∈ c.dispatched.erase r ↔ r' ≠ r ∧ r' ∈ c.dispatched :=
    fun r' => h.queued_nodup.mem_erase_iff
  refine ⟨?_, ?_, h.queued_nodup.erase r, ?_, ?_, h.invoked, ?_⟩
  · intro k r' hFind
    show r'.sequence = k ∧ r' ∈ c.requested ∧ r' ∉ c.dispatched.erase r
    rw [hErased]
    rw [RpcClient.enter, OrdMap.find?_emplace] at hFind
    split at hFind
    · rename_i hk
      rw [hFree] at hFind
      obtain rfl : r = r' := Option.some.inj hFind
      exact ⟨hk.symm, h.queued r hr, by simp⟩
    · obtain ⟨hSeq, hReq, hOut⟩ := h.keyed k r' hFind
      exact ⟨hSeq, hReq, fun hIn => hOut hIn.2⟩
  · intro r' hr'
    exact h.queued r' (mem_of_mem_erase hr')
  · intro r' hr'
    obtain ⟨hReq, hOut⟩ := h.sent r' hr'
    exact ⟨hReq, fun hIn => hOut (mem_of_mem_erase hIn)⟩
  · intro r₁ r₂ h₁ h₂
    exact h.distinct r₁ r₂ ((h.enter_waiting hr r₁).mp h₁) ((h.enter_waiting hr r₂).mp h₂)
  · intro r' hr'
    rw [h.enter_waiting hr]
    exact h.called r' hr'

/-- A lambda that finds a connection, or can open one, writes its frame. -/
theorem start_eq_sent (c : RpcClient κ) (r : ClientCtx κ) {reported : Bool}
    (hLate : reported = true → c.status ≠ .closed) :
    ∃ status, c.start r reported =
      { c.enter r with status := status, sent := c.sent ++ [r] } := by
  unfold start connect
  by_cases hClosed : c.status = .closed
  · have hFalse : reported = false := by
      cases reported
      · rfl
      · exact absurd hClosed (hLate rfl)
    have hEnter : (c.enter r).status = .closed := hClosed
    subst hFalse
    exact ⟨.connecting, by simp only [hEnter, if_true]; rfl⟩
  · have hEnter : ¬ (c.enter r).status = .closed := hClosed
    exact ⟨c.status, by simp only [hEnter, if_false]; rfl⟩

/-- A lambda whose connection fails while it connects clears the map, itself included,
and then reports its own failure. -/
theorem start_eq_failed (c : RpcClient κ) (r : ClientCtx κ) (hClosed : c.status = .closed) :
    ∃ c', { c.enter r with status := .connecting }.close = c' ∧ c'.ctxs = ∅ ∧
      c.start r true = { c' with invoked := c'.invoked ++ [(r, .failed)] } := by
  have hEnter : (c.enter r).status = .closed := hClosed
  refine ⟨_, rfl, rfl, ?_⟩
  unfold start connect
  simp only [hEnter, if_true]
  rfl

/-- A request is sent, or fails without a connection. -/
theorem Inv.start (h : c.Inv) (hr : r ∈ c.dispatched) (reported : Bool) :
    (c.start r reported).Inv := by
  have hEnter := h.enter hr
  have hReq : r ∈ c.requested := h.queued r hr
  by_cases hLate : reported = true → c.status ≠ .closed
  · obtain ⟨status, hEq⟩ := c.start_eq_sent r hLate
    rw [hEq]
    refine ⟨hEnter.keyed, hEnter.queued, hEnter.queued_nodup, ?_, hEnter.distinct, hEnter.invoked,
      hEnter.called⟩
    intro r' hr'
    rcases mem_append.mp hr' with hr' | hr'
    · exact hEnter.sent r' hr'
    · rw [mem_singleton.mp hr']
      exact ⟨hReq, fun hIn => ((h.queued_nodup.mem_erase_iff).mp hIn).1 rfl⟩
  · obtain ⟨hReported, hClosed⟩ : reported = true ∧ c.status = .closed := by
      simpa only [Classical.not_imp, not_not] using hLate
    subst hReported
    obtain ⟨c', hClose, hEmpty, hEq⟩ := c.start_eq_failed r hClosed
    have hConnecting := hEnter.of_status .connecting
    have hInv' : c'.Inv := hClose ▸ hConnecting.settles hConnecting.settles_close
    have hQueue : c'.dispatched = c.dispatched.erase r :=
      hClose ▸ hConnecting.settles_close.dispatched
    -- `r` itself is among those the close has invoked
    have hGone : ¬ c'.Waiting r := by
      rintro (hIn | hIn)
      · rw [hQueue] at hIn
        exact ((h.queued_nodup.mem_erase_iff).mp hIn).1 rfl
      · simp [Armed, hEmpty] at hIn
    rw [hEq]
    refine ⟨hInv'.keyed, hInv'.queued, hInv'.queued_nodup, hInv'.sent, hInv'.distinct, ?_, ?_⟩
    · intro r' hr'
      have hReq' : r ∈ c'.requested := by
        rw [← hClose, hConnecting.settles_close.requested]
        exact hReq
      rw [map_append, mem_append] at hr'
      rcases hr' with hr' | hr'
      · exact hInv'.invoked r' hr'
      · rw [mem_singleton.mp hr']
        exact hReq'
    intro r' hr'
    show r' ∈ (c'.invoked ++ [(r, ContextStatus.failed)]).map Prod.fst ↔ ¬ c'.Waiting r'
    rw [map_append, mem_append, hInv'.called r' hr']
    constructor
    · rintro (hNot | hIn)
      · exact hNot
      · rw [mem_singleton.mp hIn]
        exact hGone
    · exact .inl

/-- **Step lemma.** -/
theorem Inv.step (h : c.Inv) (hDistinct : c.Distinct a) (hStep : c.step a = some c') : c'.Inv := by
  cases steps_of_step hStep with
  | request hNew => exact h.request hNew hDistinct
  | start hr => exact h.start hr _
  | connect => exact h.settles (h.settles_connect _)
  | connected => exact h.of_status .connected
  | failure => exact h.settles h.settles_close
  | recv => exact h.settles (h.settles_complete _ .ok)
  | expire => exact h.settles (h.settles_complete _ .timeout)
  | close => exact h.settles h.settles_close

/-- **Step lemma.** -/
theorem Once.step (hOnce : c.Once) (h : c.Inv) (hLate : c.ReportsLate a)
    (hStep : c.step a = some c') : c'.Once := by
  cases steps_of_step hStep with
  | request hNew => exact hOnce
  | start hr =>
    obtain ⟨status, hEq⟩ := c.start_eq_sent _ hLate
    rw [hEq]
    exact hOnce
  | connect => exact hOnce.settles h (h.settles_connect _)
  | connected => exact hOnce
  | failure => exact hOnce.settles h h.settles_close
  | recv => exact hOnce.settles h (h.settles_complete _ .ok)
  | expire => exact hOnce.settles h (h.settles_complete _ .timeout)
  | close => exact hOnce.settles h h.settles_close

theorem run_once {as : List (ClientAction κ)}
    (hAlong : Along step (fun c a => c.Distinct a ∧ c.ReportsLate a) init as)
    (hRun : run step init as = some c) : c.Inv ∧ c.Once := by
  have hKept : ∀ (c : RpcClient κ) (a : ClientAction κ) (c' : RpcClient κ),
      (c.Distinct a ∧ c.ReportsLate a) → (c.Inv ∧ c.Once) → c.step a = some c' →
      c'.Inv ∧ c'.Once := by
    rintro c a c' ⟨hDistinct, hLate⟩ ⟨hInv, hOnce⟩ hStep
    exact ⟨hInv.step hDistinct hStep, hOnce.step hInv hLate hStep⟩
  have hStart : (init : RpcClient κ).Once := nodup_nil
  exact run_invariant hKept ⟨init_inv, hStart⟩ hAlong hRun

/-- As long as its lambda has not run or its timer is running, the callback of a request
has not been invoked; from then on it has been invoked exactly once. -/
theorem callback_once (as : List (ClientAction κ))
    (hAlong : Along step (fun c a => c.Distinct a ∧ c.ReportsLate a) init as)
    (hRun : run step init as = some c) (r : ClientCtx κ) (hr : r ∈ c.requested) :
    c.invocations r = if r ∈ c.dispatched ∨ c.Armed r then 0 else 1 := by
  obtain ⟨hInv, hOnce⟩ := run_once hAlong hRun
  unfold invocations
  split
  · rename_i hWait
    exact count_eq_zero.mpr fun hIn => (hInv.called r hr).mp hIn hWait
  · rename_i hGone
    exact count_eq_one_of_mem hOnce ((hInv.called r hr).mpr hGone)

/-- A request is answered, one times out, and the answer that comes too late finds
nobody. -/
theorem callback_once_two_requests :
    ∃ c : RpcClient Nat,
      run step init [.connect false, .connected, .request ⟨0, 7⟩, .request ⟨1, 8⟩,
        .start ⟨0, 7⟩ false, .start ⟨1, 8⟩ false, .recv 8, .expire 7, .recv 7] = some c ∧
      c.invocations ⟨0, 7⟩ = 1 ∧ c.invocations ⟨1, 8⟩ = 1 := by
  refine ⟨_, rfl, ?_, ?_⟩
  · exact callback_once [.connect false, .connected, .request ⟨0, 7⟩, .request ⟨1, 8⟩,
      .start ⟨0, 7⟩ false, .start ⟨1, 8⟩ false, .recv 8, .expire 7, .recv 7] (by decide) rfl
      ⟨0, 7⟩ (by decide)
  · exact callback_once [.connect false, .connected, .request ⟨0, 7⟩, .request ⟨1, 8⟩,
      .start ⟨0, 7⟩ false, .start ⟨1, 8⟩ false, .recv 8, .expire 7, .recv 7] (by decide) rfl
      ⟨1, 8⟩ (by decide)

/-- The server has closed the connection. A request connects again, the failure is
reported while it does so, and its callback is invoked by `close` and by `request`. -/
theorem callback_twice :
    ∃ c : RpcClient Nat,
      run step init [.connect false, .connected, .failure, .request ⟨0, 7⟩,
        .start ⟨0, 7⟩ true] = some c ∧
      c.invoked = [(⟨0, 7⟩, .closed), (⟨0, 7⟩, .failed)] ∧ c.invocations ⟨0, 7⟩ = 2 :=
  ⟨_, rfl, rfl, rfl⟩

end RpcClient

end MyBase
