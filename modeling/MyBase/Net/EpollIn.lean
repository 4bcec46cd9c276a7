import MyBase.Common.CLockBufferQueue
import MyBase.Lib.Frames
import MyBase.Public.Buffer
import MyBase.Public.NBuffer

/-!
# MyBase — `dealEpollIn`, from the socket to the handle queue

`dealEpollIn` receives what it can into the connection's buffer, cuts the content into
frames, and puts them into the handle queue, each behind a copy of the connection's head.
The frames stay in the buffer meanwhile: the units that are given to the queue, at most
`unitBatchCount` at a time, point into it. What is left is moved to the front.

The worker threads take messages out of the queue at any time. How many they take before
each attempt to put something in is part of the event.

An access outside of a buffer, and a failing assertion, is `none`.

Main results:

* `parseLoop_spec` — the loop takes every frame that is complete;
* `step_inv`, `frames_queued` — whatever is received at a time, a stream of frames is
  never a reason to drop the connection, and what is put in the queue is its frames, unless
  one is given up.
-/

namespace MyBase

open Lib List

-- The connection

structure Timeval where
  tvSec : Nat
  tvUsec : Nat
deriving DecidableEq, Repr

structure CloudConnHead where
  sockIndex : Int
  sockCreate : Timeval
  request : Timeval
  response : Timeval
  srcIp : Nat
  srcPort : Nat
deriving DecidableEq, Repr

/-- An integer of `w` bytes in memory. -/
def inMemory (w n : Nat) : Bytes := (be w n).reverse

def Timeval.image (t : Timeval) : Bytes := inMemory 8 t.tvSec ++ inMemory 8 t.tvUsec

/-- The 64 bytes of the structure. -/
def CloudConnHead.image (h : CloudConnHead) : Bytes :=
  inMemory 4 (h.sockIndex % 2 ^ 32).toNat ++ List.replicate 4 0 ++ h.sockCreate.image ++
    h.request.image ++ h.response.image ++ inMemory 4 h.srcIp ++ inMemory 2 h.srcPort ++
    List.replicate 2 0

structure CCloudNetConnection where
  connHead : CloudConnHead
  readBuf : NBuffer
deriving DecidableEq, Repr

/-- What `recv` finds. -/
inductive RecvOutcome
  /-- Bytes; of these it returns as many as it was asked for. None at all is the end of
  the stream. -/
  | data (chunk : Bytes)
  /-- `EINTR` or `EAGAIN`. -/
  | again
  | error
deriving DecidableEq, Repr

namespace CCloudNetConnection

/-- What `recv` returns when asked for the free length. -/
def got (c : CCloudNetConnection) : RecvOutcome → Bytes
  | .data chunk => chunk.take c.readBuf.getFreeLen
  | _ => []

/-- `CCloudNetConnection::read`. -/
def read (c : CCloudNetConnection) (r : RecvOutcome) : Option (CCloudNetConnection × Bool) :=
  if c.connHead.sockIndex < 0 then some (c, false)
  else
    match r with
    | .again => some (c, true)
    | .error => some (c, false)
    | .data _ =>
      let ret := (c.got r).length
      if ret = 0 then some (c, false)
      else do
        let buf ← memcpy c.readBuf.buf c.readBuf.index (c.got r) 0 ret
        let readBuf ← ({ c.readBuf with buf } : NBuffer).addIndex ret
        return ({ c with readBuf }, true)

end CCloudNetConnection

-- The handle queue

/-- `buffer1` points to the head, and `buffer2` into the connection's buffer. -/
structure CEnqueUnit where
  buffer1 : CloudConnHead
  buffer2 : Nat
  len2 : Nat
deriving DecidableEq, Repr

/-- The message of a unit. -/
def CEnqueUnit.message (buf : Bytes) (u : CEnqueUnit) : CloudConnHead × Bytes :=
  (u.buffer1, (buf.drop u.buffer2).take u.len2)

/-- The loop of `CLockBufferQueue::enqueue(unitArray, num)`, which catches what the queue
throws; the number is how many it took. -/
def CBufferQueue.enqueueUnits (buf : Bytes) :
    CBufferQueue → List CEnqueUnit → Option (CBufferQueue × Nat)
  | q, [] => some (q, 0)
  | q, u :: units => do
    let buffer2 ← readAt buf u.buffer2 u.len2
    match ← q.enqueue2 u.buffer1.image buffer2 with
    | (q, false) => return (q, 0)
    | (q, true) =>
      let (q, count) ← enqueueUnits buf q units
      return (q, count + 1)

/-- `handleQueue`, and the worker threads. -/
structure HandleQueue where
  queue : CLockBufferQueue
  /-- What the workers have dequeued. -/
  taken : List (Bytes × Bytes)
  /-- How many times a worker dequeues before each of the next attempts to enqueue. -/
  takes : List Nat
  /-- What was enqueued. -/
  queued : List (CloudConnHead × Bytes)
  /-- What was given up, each time with the queue as it was then. -/
  refused : List (CBufferQueue × List (CloudConnHead × Bytes))
deriving DecidableEq, Repr

namespace HandleQueue

def maxReqBufLen : Nat := 1024 * 1024 + 4

/-- One pass of `workerThread`. -/
def work (h : HandleQueue) : Option HandleQueue :=
  (h.queue.dequeue 64 (UInt32.ofNat maxReqBufLen)).map fun (queue, m) =>
    { h with queue, taken := h.taken ++ m.toList }

def works : Nat → HandleQueue → Option HandleQueue
  | 0, h => some h
  | n + 1, h => do works n (← h.work)

/-- One attempt of `sendRecvToQueue`, and how many of the units the queue takes. -/
def attempt (buf : Bytes) (h : HandleQueue) (units : List CEnqueUnit) :
    Option (HandleQueue × Nat) := do
  let h ← works (h.takes.headD 0) { h with takes := h.takes.tail }
  let (queue, count) ← h.queue.queue.enqueueUnits buf units
  return ({ h with
    queue := ⟨queue, h.queue.side⟩
    queued := h.queued ++ (units.take count).map (·.message buf) }, count)

/-- The loop of `sendRecvToQueue`, with so many attempts to go. -/
def sendLoop (buf : Bytes) : Nat → HandleQueue → List CEnqueUnit → Option HandleQueue
  | 0, h, units =>
    some { h with refused := h.refused ++ [(h.queue.queue, units.map (·.message buf))] }
  | n + 1, h, units => do
    let (h, count) ← h.attempt buf units
    if units.length ≤ count then return h else sendLoop buf n h (units.drop count)

/-- `sendRecvToQueue` gives up when `retry_count` is 10. -/
def sendRecvToQueue (buf : Bytes) (h : HandleQueue) (units : List CEnqueUnit) :
    Option HandleQueue :=
  if units = [] then some h else sendLoop buf 10 h units

end HandleQueue

-- The server

/-- The variables of `dealEpollIn`; the first `unitNum` elements of `unitArray`. -/
structure InLoop where
  readNum : Nat
  units : List CEnqueUnit
  handle : HandleQueue
deriving DecidableEq, Repr

/-- The units with one for the packet at `readNum`. -/
def InLoop.push (l : InLoop) (head : CloudConnHead) (packetRealLen : Nat) : List CEnqueUnit :=
  l.units ++ [⟨head, l.readNum, packetRealLen⟩]

/-- `3 * sizeof(int32_t)`. -/
def minLen : Nat := 12

/-- A server and one of its connections. -/
structure IwServer where
  conn : CCloudNetConnection
  handle : HandleQueue
  /-- What has been received over the connection. -/
  received : Bytes
  /-- The connection was released. -/
  dropped : Bool
deriving DecidableEq, Repr

inductive NetEvent
  /-- `dealEpollIn` at some time. -/
  | epollIn (curtimeval : Timeval) (r : RecvOutcome) (takes : List Nat)
  /-- A pass of a worker thread. -/
  | work
deriving DecidableEq, Repr

namespace IwServer

section Defs

variable (unitBatchCount : Nat)

/-- The loop of `dealEpollIn`; the flag is false if the connection is to be dropped. There
are `unitBatchCount` elements in `unitArray`. -/
def parseLoop (b : NBuffer) (head : CloudConnHead) : Nat → InLoop → Option (InLoop × Bool)
  | 0, _ => none
  | fuel + 1, l =>
    if b.index < l.readNum + minLen then some (l, true)
    else do
      let (packetRealLen, _) ← (Buffer.wrap (← readAt b.buf l.readNum minLen)).readInt32
      -- an `int32_t`: from 2^31 on it is negative
      if packetRealLen < minLen ∨ 2 ^ 31 ≤ packetRealLen then return (l, false)
      else if 1024000 - 64 ≤ packetRealLen then return (l, false)
      else if b.index < l.readNum + packetRealLen then return (l, true)
      else
        guard (l.units.length < unitBatchCount)
        let units := l.push head packetRealLen
        if unitBatchCount ≤ units.length then
          let handle ← l.handle.sendRecvToQueue b.buf units
          parseLoop b head fuel ⟨l.readNum + packetRealLen, [], handle⟩
        else parseLoop b head fuel ⟨l.readNum + packetRealLen, units, l.handle⟩

/-- The end of `dealEpollIn`: what is left is moved to the front. -/
def compact (b : NBuffer) (readNum : Nat) : Option NBuffer := do
  let b ← b.addIndex (-readNum)
  if 0 < readNum ∧ 0 < b.index then
    return { b with buf := ← memcpy b.buf 0 b.buf readNum b.index }
  else return b

/-- `dealEpollIn`. -/
def dealEpollIn (c : CCloudNetConnection) (h : HandleQueue) (curtimeval : Timeval)
    (r : RecvOutcome) : Option (CCloudNetConnection × HandleQueue × Bool) := do
  let (c, ok) ← c.read r
  if ok = false then return (c, h, false)
  else
    let head := { c.connHead with request := curtimeval }
    let (l, ok) ← parseLoop unitBatchCount c.readBuf head (c.readBuf.index + 1) ⟨0, [], h⟩
    if ok = false then return (c, l.handle, false)
    else
      let h ← l.handle.sendRecvToQueue c.readBuf.buf l.units
      return ({ c with readBuf := ← compact c.readBuf l.readNum }, h, true)

def step (s : IwServer) : NetEvent → Option IwServer
  | .epollIn curtimeval r takes =>
    if s.dropped then some s
    else
      (dealEpollIn unitBatchCount s.conn { s.handle with takes } curtimeval r).map
        fun (conn, handle, ok) =>
          ⟨conn, handle, s.received ++ s.conn.got r, !ok⟩
  | .work => s.handle.work.map fun handle => { s with handle }

end Defs

/-- A connection before anything was received, and an empty queue. -/
def start (conn : CCloudNetConnection) (queue : CLockBufferQueue) : IwServer :=
  ⟨conn, ⟨queue, [], [], [], []⟩, [], false⟩

end IwServer

-- What is in the queue

@[simp] theorem CloudConnHead.image_length (h : CloudConnHead) : h.image.length = 64 := by
  simp [image, Timeval.image, inMemory]

/-- The two parts of a message. -/
def parts (m : CloudConnHead × Bytes) : Bytes × Bytes := (m.1.image, m.2)

/-- A message as the queue has it. -/
def joined (m : CloudConnHead × Bytes) : Bytes := m.1.image ++ m.2

theorem joined_length (m : CloudConnHead × Bytes) : (joined m).length = 64 + m.2.length := by
  simp [joined]

/-- The unit lies in the buffer, and a worker can take its message. -/
structure CEnqueUnit.Ok (buf : Bytes) (u : CEnqueUnit) : Prop where
  inside : u.buffer2 + u.len2 ≤ buf.length
  fits : u.len2 ≤ HandleQueue.maxReqBufLen

theorem CEnqueUnit.Ok.message_length {buf : Bytes} {u : CEnqueUnit} (h : u.Ok buf) :
    (u.message buf).2.length = u.len2 := by
  have hInside := h.inside
  simp only [message, length_take, length_drop]
  omega

/-- The queue takes some of the units, and is full for the next. -/
theorem CBufferQueue.enqueueUnits_spec {buf : Bytes} {units : List CEnqueUnit}
    (hUnits : ∀ u ∈ units, u.Ok buf) {q : CBufferQueue}
    {pending : List (CloudConnHead × Bytes)} (h : q.Represents (pending.map joined)) :
    ∃ q' count, q.enqueueUnits buf units = some (q', count) ∧
      q'.Represents ((pending ++ (units.take count).map (·.message buf)).map joined) ∧
      (∀ u ∈ (units.drop count).head?, q'.isFull (64 + u.len2) = some true) := by
  induction units generalizing q pending with
  | nil => exact ⟨q, 0, rfl, by simpa using h, by simp⟩
  | cons u units ih =>
    have hOk := hUnits u mem_cons_self
    have hFits := hOk.fits
    have hRead := readAt_eq_some hOk.inside
    have hLength : (joined (u.message buf)).length = 64 + u.len2 := by
      rw [joined_length, hOk.message_length]
    have hSum : u.buffer1.image.length + ((buf.drop u.buffer2).take u.len2).length =
        64 + u.len2 := by
      rw [← hLength, joined, length_append]
      rfl
    have hLt : 64 + u.len2 < 2 ^ 32 := by
      unfold HandleQueue.maxReqBufLen at hFits
      omega
    have hEnqueue : q.enqueue2 u.buffer1.image ((buf.drop u.buffer2).take u.len2) =
        q.enqueueParts (64 + u.len2) u.buffer1.image ((buf.drop u.buffer2).take u.len2) := by
      rw [enqueue2, hSum, Nat.mod_eq_of_lt hLt]
    rcases enqueueParts_spec h u.buffer1.image ((buf.drop u.buffer2).take u.len2) hSum.symm
      (by omega) hLt with ⟨hFull, hSame⟩ | ⟨-, q₁, hStored, hRep, -, -⟩
    · refine ⟨q, 0, ?_, by simpa using h, by simpa using hFull⟩
      simp [enqueueUnits, hRead, hEnqueue, hSame]
    · have hRep₁ : q₁.Represents ((pending ++ [u.message buf]).map joined) := by
        rw [map_append]
        exact hRep
      obtain ⟨q', count, hRest, hRep', hFull⟩ :=
        ih (fun u' hu' => hUnits u' (mem_cons_of_mem _ hu')) hRep₁
      refine ⟨q', count + 1, ?_, ?_, by simpa using hFull⟩
      · simp [enqueueUnits, hRead, hEnqueue, hStored, hRest]
      · rw [append_assoc] at hRep'
        exact hRep'

namespace HandleQueue

/-- What was enqueued has been taken by the workers, or is in the queue. -/
structure Inv (h : HandleQueue) (pending : List (CloudConnHead × Bytes)) : Prop where
  side : h.queue.side = none
  queue : h.queue.queue.Represents (pending.map joined)
  fifo : h.taken ++ pending.map parts = h.queued.map parts
  fits : ∀ m ∈ pending, m.2.length ≤ maxReqBufLen

variable {h : HandleQueue} {pending : List (CloudConnHead × Bytes)} {buf : Bytes}

/-- A worker gets a whole message, cut behind its head. -/
theorem work_spec (hInv : h.Inv pending) :
    ∃ h' pending', h.work = some h' ∧ h'.Inv pending' ∧ h'.queued = h.queued ∧
      h'.refused = h.refused := by
  cases pending with
  | nil =>
    have hNone := CLockBufferQueue.dequeue_of_plain_nil hInv.side hInv.queue 64
      (UInt32.ofNat maxReqBufLen)
    refine ⟨h, [], ?_, hInv, rfl, rfl⟩
    simp [work, hNone]
  | cons m pending =>
    obtain ⟨q, hDequeue, hRep⟩ := CLockBufferQueue.dequeue_of_plain hInv.side hInv.queue 64
      (UInt32.ofNat maxReqBufLen)
    have hFits := hInv.fits m mem_cons_self
    have hSizes : (64 + UInt32.ofNat maxReqBufLen).toNat = 64 + maxReqBufLen := by decide
    rw [if_neg (by rw [hSizes, joined_length]; omega)] at hDequeue
    have hTake : (joined m).take (64 : UInt32).toNat = m.1.image :=
      take_left' m.1.image_length
    have hDrop : (joined m).drop (64 : UInt32).toNat = m.2 := drop_left' m.1.image_length
    rw [hTake, hDrop] at hDequeue
    refine ⟨{ h with queue := ⟨q, none⟩, taken := h.taken ++ [parts m] }, pending, ?_,
      ⟨rfl, hRep, ?_, fun m' hm' => hInv.fits m' (mem_cons_of_mem _ hm')⟩, rfl, rfl⟩
    · simp [work, hDequeue, parts]
    · rw [← hInv.fifo, append_assoc]
      rfl

theorem works_spec (n : Nat) (hInv : h.Inv pending) :
    ∃ h' pending', works n h = some h' ∧ h'.Inv pending' ∧ h'.queued = h.queued ∧
      h'.refused = h.refused := by
  induction n generalizing h pending with
  | zero => exact ⟨h, pending, rfl, hInv, rfl, rfl⟩
  | succ n ih =>
    obtain ⟨h₁, pending₁, hWork, hInv₁, hQueued₁, hRefused₁⟩ := work_spec hInv
    obtain ⟨h', pending', hWorks, hInv', hQueued, hRefused⟩ := ih hInv₁
    refine ⟨h', pending', ?_, hInv', hQueued.trans hQueued₁, hRefused.trans hRefused₁⟩
    simp [works, hWork, hWorks]

/-- The queue is full for the first of the messages that are given up. -/
def Full (r : CBufferQueue × List (CloudConnHead × Bytes)) : Prop :=
  ∃ m ∈ r.2.head?, r.1.isFull (64 + m.2.length) = some true

/-- Of the units the first are sent, and the others given up, if any: for these the queue is
full. -/
def Sends (buf : Bytes) (h h' : HandleQueue) (units : List CEnqueUnit) : Prop :=
  ∃ sent lost, sent ++ lost = units.map (·.message buf) ∧ h'.queued = h.queued ++ sent ∧
    (lost = [] ∧ h'.refused = h.refused ∨
      h'.refused = h.refused ++ [(h'.queue.queue, lost)] ∧ Full (h'.queue.queue, lost))

variable {units : List CEnqueUnit}

/-- One attempt puts the first units into the queue. -/
theorem attempt_spec (hUnits : ∀ u ∈ units, u.Ok buf) (hInv : h.Inv pending) :
    ∃ h' pending' count, h.attempt buf units = some (h', count) ∧ h'.Inv pending' ∧
      h'.queued = h.queued ++ (units.take count).map (·.message buf) ∧
      h'.refused = h.refused ∧
      ∀ u ∈ (units.drop count).head?, h'.queue.queue.isFull (64 + u.len2) = some true := by
  have hInv₀ : Inv { h with takes := h.takes.tail } pending :=
    ⟨hInv.side, hInv.queue, hInv.fifo, hInv.fits⟩
  obtain ⟨h₁, pending₁, hWorks, hInv₁, hQueued, hRefused⟩ := works_spec (h.takes.headD 0) hInv₀
  obtain ⟨q, count, hEnqueue, hRep, hFull⟩ := CBufferQueue.enqueueUnits_spec hUnits hInv₁.queue
  refine ⟨{ h₁ with
      queue := ⟨q, h₁.queue.side⟩
      queued := h₁.queued ++ (units.take count).map (·.message buf) },
    pending₁ ++ (units.take count).map (·.message buf), count, ?_,
    ⟨hInv₁.side, hRep, ?_, ?_⟩, ?_, hRefused, hFull⟩
  · rw [attempt, hWorks, Option.bind_eq_bind, Option.bind_some, hEnqueue, Option.bind_eq_bind,
      Option.bind_some]
    rfl
  · dsimp only
    rw [map_append, map_append, ← append_assoc, hInv₁.fifo]
  · intro m hm
    rcases mem_append.mp hm with hOld | hNew
    · exact hInv₁.fits m hOld
    · obtain ⟨u, hu, rfl⟩ := mem_map.mp hNew
      have hOk := hUnits u (mem_of_mem_take hu)
      rw [hOk.message_length]
      exact hOk.fits
  · dsimp only
    rw [hQueued]

/-- The attempts end with all units in the queue or the queue full. -/
theorem sendLoop_spec (hUnits : ∀ u ∈ units, u.Ok buf) (n : Nat) (hInv : h.Inv pending)
    (hLast : n = 0 → ∃ u ∈ units.head?, h.queue.queue.isFull (64 + u.len2) = some true) :
    ∃ h' pending', sendLoop buf n h units = some h' ∧ h'.Inv pending' ∧ Sends buf h h' units := by
  induction n generalizing h pending units with
  | zero =>
    obtain ⟨u, hu, hFull⟩ := hLast rfl
    refine ⟨_, pending, rfl, ⟨hInv.side, hInv.queue, hInv.fifo, hInv.fits⟩, [], _, rfl, by simp,
      Or.inr ⟨rfl, u.message buf, ?_, ?_⟩⟩
    · rw [head?_map, hu]
      rfl
    · rwa [(hUnits u (mem_of_mem_head? hu)).message_length]
  | succ n ih =>
    obtain ⟨h₁, pending₁, count, hAttempt, hInv₁, hQueued₁, hRefused₁, hFull⟩ :=
      attempt_spec hUnits hInv
    have hLoop : sendLoop buf (n + 1) h units =
        if units.length ≤ count then some h₁ else sendLoop buf n h₁ (units.drop count) := by
      rw [sendLoop, hAttempt]
      rfl
    rw [hLoop]
    by_cases hAll : units.length ≤ count
    · rw [take_of_length_le hAll] at hQueued₁
      exact ⟨h₁, _, if_pos hAll, hInv₁, _, [], append_nil _, hQueued₁, Or.inl ⟨rfl, hRefused₁⟩⟩
    · rw [if_neg hAll]
      -- the next unit has just been turned away
      have hNext : ∃ u ∈ (units.drop count).head?,
          h₁.queue.queue.isFull (64 + u.len2) = some true := by
        obtain ⟨u, hu⟩ := Option.ne_none_iff_exists'.mp
          (mt List.head?_eq_none_iff.mp (mt drop_eq_nil_iff.mp hAll))
        exact ⟨u, hu, hFull u hu⟩
      obtain ⟨h', pending', hRest, hInv', sent, lost, hSplit, hQueued, hLost⟩ :=
        ih (fun u hu => hUnits u (mem_of_mem_drop hu)) hInv₁ (fun _ => hNext)
      rw [hRefused₁] at hLost
      refine ⟨h', pending', hRest, hInv', (units.take count).map (·.message buf) ++ sent, lost,
        ?_, ?_, hLost⟩
      · rw [append_assoc, hSplit, ← map_append, take_append_drop]
      · rw [hQueued, hQueued₁, append_assoc]

/-- The queue takes the first of the units, and the rest is given up after ten attempts. -/
theorem sendRecvToQueue_spec (hUnits : ∀ u ∈ units, u.Ok buf) (hInv : h.Inv pending) :
    ∃ h' pending', h.sendRecvToQueue buf units = some h' ∧ h'.Inv pending' ∧
      Sends buf h h' units := by
  unfold sendRecvToQueue
  by_cases hNil : units = []
  · subst hNil
    exact ⟨h, pending, if_pos rfl, hInv, [], [], rfl, by simp, Or.inl ⟨rfl, rfl⟩⟩
  · rw [if_neg hNil]
    exact sendLoop_spec hUnits 10 hInv (fun hZero => absurd hZero (by decide))

/-- `fs` have been sent or given up, for want of room. -/
structure Logged (h : HandleQueue) (fs : List Bytes) : Prop where
  queued : h.refused = [] → h.queued.map Prod.snd = fs
  sublist : (h.queued.map Prod.snd).Sublist fs
  full : ∀ r ∈ h.refused, Full r

/-- The units are sent, or given up for want of room. -/
theorem Logged.sends {h' : HandleQueue} {fs : List Bytes} (hLogged : h.Logged fs)
    (hSends : Sends buf h h' units) : h'.Logged (fs ++ units.map fun u => (u.message buf).2) := by
  obtain ⟨sent, lost, hSplit, hQueued, hLost⟩ := hSends
  have hFrames : units.map (fun u => (u.message buf).2) =
      sent.map Prod.snd ++ lost.map Prod.snd := by
    rw [← map_append, hSplit, map_map]
    rfl
  rw [hFrames]
  refine ⟨fun hNone => ?_, ?_, ?_⟩
  · rcases hLost with ⟨rfl, hSame⟩ | ⟨hMore, -⟩
    · rw [hQueued, map_append, hLogged.queued (hSame.symm.trans hNone), map_nil,
        append_nil]
    · simp [hMore] at hNone
  · rw [hQueued, map_append]
    exact hLogged.sublist.append (sublist_append_left _ _)
  · rcases hLost with ⟨-, hSame⟩ | ⟨hMore, hFull⟩
    · rw [hSame]
      exact hLogged.full
    · intro r hr
      rw [hMore, mem_append, mem_singleton] at hr
      rcases hr with hOld | rfl
      · exact hLogged.full r hOld
      · exact hFull

end HandleQueue

-- The buffer

/-- What is received goes behind the content. -/
theorem CCloudNetConnection.read_data {c : CCloudNetConnection} {chunk : Bytes}
    (hSock : 0 ≤ c.connHead.sockIndex) (hOk : c.readBuf.Ok)
    (hFree : 0 < c.readBuf.getFreeLen) (hChunk : chunk ≠ []) :
    ∃ b, c.read (.data chunk) = some (⟨c.connHead, b⟩, true) ∧ b.Ok ∧ b.Roomy ∧
      b.content = c.readBuf.content ++ c.got (.data chunk) := by
  obtain ⟨bs, hbs⟩ : ∃ bs, c.got (.data chunk) = bs := ⟨_, rfl⟩
  have hLe : bs.length ≤ c.readBuf.getFreeLen := by
    rw [← hbs, got, length_take]
    omega
  have hPos : bs.length ≠ 0 := by
    have hChunkPos := length_pos_iff.mpr hChunk
    rw [← hbs, got, length_take]
    omega
  have hIndex := hOk.index_le
  have hBuf := hOk.buf_length
  have hFit : c.readBuf.index + bs.length ≤ c.readBuf.buf.length := by
    unfold NBuffer.getFreeLen at hLe
    omega
  have hCopy := memcpy_eq_some hFit (show 0 + bs.length ≤ bs.length by omega)
  obtain ⟨buf, hb⟩ : ∃ buf, c.readBuf.buf.take c.readBuf.index ++ (bs.drop 0).take bs.length ++
    c.readBuf.buf.drop (c.readBuf.index + bs.length) = buf := ⟨_, rfl⟩
  rw [hb] at hCopy
  have hWritten : NBuffer.Ok { c.readBuf with buf } :=
    ⟨(memcpy_length hCopy).trans hBuf, hIndex, hOk.len_pos, hOk.len_le, hOk.max_eq⟩
  obtain ⟨b, hAdd, hOk', hRoomy, -, hContent⟩ := NBuffer.addIndex_pos hWritten hLe
  refine ⟨b, ?_, hOk', hRoomy, ?_⟩
  · rw [read, if_neg (by omega)]
    simp only [hbs, if_neg hPos, hCopy, Option.bind_eq_bind, Option.bind_some, hAdd]
    rfl
  · have hFront : (c.readBuf.content ++ bs).length = c.readBuf.index + bs.length := by
      rw [length_append, hOk.content_length]
    rw [hContent, hbs]
    dsimp only
    rw [← hb, drop_zero, take_length]
    exact take_left' hFront

namespace IwServer

/-- Everything from `readNum` on is the content then. -/
theorem compact_spec {b : NBuffer} (hOk : b.Ok) (hRoomy : b.Roomy ∨ b.index = 0) {readNum : Nat}
    (hLe : readNum ≤ b.index) :
    ∃ b', compact b readNum = some b' ∧ b'.Ok ∧ (b'.Roomy ∨ b'.index = 0) ∧
      b'.content = b.content.drop readNum := by
  rcases Nat.eq_zero_or_pos readNum with hZero | hPos
  · obtain ⟨b', hAdd, hOk', hRoomy', -, hContent⟩ := NBuffer.addIndex_zero hOk
    subst hZero
    refine ⟨b', ?_, hOk', .inl hRoomy', by rw [hContent, drop_zero]⟩
    simp [compact, hAdd]
  · -- the buffer has been read from, so `addIndex` leaves its memory as it is
    have hRoomy : b.Roomy := hRoomy.resolve_right (by omega)
    have hAdd := NBuffer.addIndex_neg hOk hRoomy hLe
    have hIndex := hOk.index_le
    have hBuf := hOk.buf_length
    have hDrop : b.content.drop readNum = (b.buf.drop readNum).take (b.index - readNum) := by
      rw [NBuffer.content, drop_take]
    have hRoomy' : ∀ buf, NBuffer.Roomy { b with buf, index := b.index - readNum } := by
      intro buf
      refine hRoomy.imp_left fun hFree => ?_
      unfold NBuffer.getFreeLen at hFree ⊢
      dsimp only
      omega
    have hOk' : ∀ buf : Bytes, buf.length = b.len + 8 →
        NBuffer.Ok { b with buf, index := b.index - readNum } := fun buf hLength =>
      ⟨hLength, Nat.le_trans (Nat.sub_le _ _) hIndex, hOk.len_pos, hOk.len_le, hOk.max_eq⟩
    by_cases hLeft : 0 < b.index - readNum
    · have hMove := memcpy_eq_some (show 0 + (b.index - readNum) ≤ b.buf.length by omega)
        (show readNum + (b.index - readNum) ≤ b.buf.length by omega)
      refine ⟨{ b with buf := _, index := b.index - readNum }, ?_,
        hOk' _ ((memcpy_length hMove).trans hBuf), .inl (hRoomy' _), ?_⟩
      · simp only [compact, hAdd, Option.bind_eq_bind, Option.bind_some, hPos, hLeft, and_self,
          if_true, hMove]
        rfl
      · have hTake : ((b.buf.drop readNum).take (b.index - readNum)).length =
            b.index - readNum := by
          rw [length_take, length_drop]
          omega
        rw [hDrop, NBuffer.content]
        dsimp only
        rw [take_zero, nil_append, take_left' hTake]
    · refine ⟨{ b with index := b.index - readNum }, ?_, hOk' _ hBuf, .inl (hRoomy' _), ?_⟩
      · simp only [compact, hAdd, Option.bind_eq_bind, Option.bind_some, hLeft, and_false,
          if_false]
        rfl
      · rw [hDrop, NBuffer.content]
        dsimp only
        rw [show b.index - readNum = 0 by omega, take_zero, take_zero]

-- The loop

/-- A frame of a length that `dealEpollIn` accepts. -/
structure GoodFrame (f : Bytes) : Prop where
  isFrame : IsFrame f
  min_le : 12 ≤ f.length
  lt_max : f.length < 1023936

/-- While the loop runs: the frames in `front` have been seen, and those that are not in
a unit have been sent or given up; the rest of the content belongs to those in `rest`. -/
structure Parsing (unitBatchCount : Nat) (frames : List Bytes) (stream : Bytes) (b : NBuffer)
    (l : InLoop) (front rest : List Bytes) : Prop where
  split : frames = front ++ rest
  readNum_le : l.readNum ≤ b.index
  stream_eq : stream = front.flatten ++ b.content.drop l.readNum
  tail : b.content.drop l.readNum <+: rest.flatten
  units_lt : l.units.length < unitBatchCount
  units : ∀ u ∈ l.units, u.Ok b.buf
  handle : ∃ pending, l.handle.Inv pending
  logged : ∃ sent, l.handle.Logged sent ∧
    sent ++ l.units.map (fun u => (u.message b.buf).2) = front

section Loop

variable {unitBatchCount : Nat} {frames front rest : List Bytes} {stream f : Bytes}
  {b : NBuffer} {l : InLoop}

section Parsing

variable (h : Parsing unitBatchCount frames stream b l front (f :: rest))
include h

/-- The length that the loop reads is that of the next frame. -/
theorem Parsing.readInt32 (hOk : b.Ok) (hf : GoodFrame f) (hMin : l.readNum + 12 ≤ b.index) :
    ∃ w, readAt b.buf l.readNum minLen = some w ∧
      (Buffer.wrap w).readInt32 = some (f.length, ⟨w, 4⟩) := by
  have hIndex := hOk.index_le
  have hBuf := hOk.buf_length
  have hRead := readAt_eq_some (show l.readNum + 12 ≤ b.buf.length by omega)
  have hTail : b.content.drop l.readNum = (b.buf.drop l.readNum).take (b.index - l.readNum) := by
    rw [NBuffer.content, drop_take]
  have hTailLen : (b.content.drop l.readNum).length = b.index - l.readNum := by
    rw [length_drop, hOk.content_length]
  have hLen : ((b.buf.drop l.readNum).take 12).length = 12 := by
    rw [length_take, length_drop]
    omega
  have hFrameLen := hf.isFrame.frameLen_of_prefix h.tail (by omega)
  rw [hTail, frameLen, take_take, Nat.min_eq_left (by omega)] at hFrameLen
  refine ⟨_, hRead, ?_⟩
  rw [Buffer.readInt32, if_pos (by simp only [Buffer.wrap]; omega)]
  simp only [Buffer.curData, Buffer.wrap, drop_zero, take_take]
  rw [Nat.min_eq_left (by decide), hFrameLen]

omit h in
/-- The loop ends when the next frame is not complete. -/
theorem Parsing.stops (h : Parsing unitBatchCount frames stream b l front rest) (hOk : b.Ok)
    (hGood : ∀ f ∈ frames, GoodFrame f) (hShort : ∀ f ∈ rest.head?, b.index - l.readNum < f.length)
    (head : CloudConnHead) (fuel : Nat) :
    parseLoop unitBatchCount b head (fuel + 1) l = some (l, true) := by
  have hLe := h.readNum_le
  rw [parseLoop]
  by_cases hMin : b.index < l.readNum + minLen
  · rw [if_pos hMin]
  · rw [if_neg hMin]
    unfold minLen at hMin
    cases rest with
    | nil =>
      have hNil := h.tail.length_le
      rw [length_drop, hOk.content_length] at hNil
      simp only [flatten_nil, length_nil] at hNil
      omega
    | cons f rest =>
      have hf : GoodFrame f := hGood f (by rw [h.split]; simp)
      have hMinLe := hf.min_le
      have hLtMax := hf.lt_max
      have hLong : b.index - l.readNum < f.length := hShort f rfl
      obtain ⟨w, hRead, hInt⟩ := h.readInt32 hOk hf (by omega)
      simp only [hRead, hInt, Option.bind_eq_bind, Option.bind_some]
      rw [if_neg (by unfold minLen; omega), if_neg (by omega), if_pos (by omega)]
      rfl

/-- A complete frame becomes one more unit. -/
theorem Parsing.push_spec (hOk : b.Ok) (hf : GoodFrame f) (hWhole : f.length ≤ b.index - l.readNum)
    (head : CloudConnHead) :
    (∀ u ∈ l.push head f.length, u.Ok b.buf) ∧
      (l.push head f.length).map (fun u => (u.message b.buf).2) =
        l.units.map (fun u => (u.message b.buf).2) ++ [f] := by
  have hMinLe := hf.min_le
  have hLtMax := hf.lt_max
  have hIndex := hOk.index_le
  have hBuf := hOk.buf_length
  obtain ⟨tail, hTail, -⟩ := prefix_append_split h.tail
    (by rw [length_drop, hOk.content_length]; exact hWhole)
  have hFrame : (b.buf.drop l.readNum).take f.length = f := by
    have hTake : (b.content.drop l.readNum).take f.length =
        (b.buf.drop l.readNum).take f.length := by
      rw [NBuffer.content, drop_take, take_take, Nat.min_eq_left hWhole]
    rw [← hTake, hTail, take_left]
  constructor
  · intro u hu
    rcases mem_append.mp hu with hOld | hNew
    · exact h.units u hOld
    · rw [mem_singleton.mp hNew]
      refine ⟨?_, ?_⟩
      · dsimp only
        omega
      · unfold HandleQueue.maxReqBufLen
        dsimp only
        omega
  · rw [InLoop.push, map_append, map_singleton, CEnqueUnit.message, hFrame]

theorem Parsing.parseLoop_eq (hOk : b.Ok) (hf : GoodFrame f)
    (hWhole : f.length ≤ b.index - l.readNum) (head : CloudConnHead) (fuel : Nat) :
    parseLoop unitBatchCount b head (fuel + 1) l =
      if unitBatchCount ≤ (l.push head f.length).length then do
        let handle ← l.handle.sendRecvToQueue b.buf (l.push head f.length)
        parseLoop unitBatchCount b head fuel ⟨l.readNum + f.length, [], handle⟩
      else parseLoop unitBatchCount b head fuel
        ⟨l.readNum + f.length, l.push head f.length, l.handle⟩ := by
  have hMinLe := hf.min_le
  have hLtMax := hf.lt_max
  obtain ⟨w, hRead, hInt⟩ := h.readInt32 hOk hf (by omega)
  rw [parseLoop, if_neg (by unfold minLen; omega)]
  simp only [hRead, hInt, Option.bind_eq_bind, Option.bind_some]
  rw [if_neg (by unfold minLen; omega), if_neg (by omega), if_neg (by omega)]
  simp only [guard, h.units_lt, if_true]
  rfl

/-- One pass of the loop takes one frame. -/
theorem Parsing.pass (hOk : b.Ok) (hf : GoodFrame f) (hWhole : f.length ≤ b.index - l.readNum)
    (head : CloudConnHead) (fuel : Nat) :
    ∃ l', parseLoop unitBatchCount b head (fuel + 1) l = parseLoop unitBatchCount b head fuel l' ∧
      l'.readNum = l.readNum + f.length ∧
      Parsing unitBatchCount frames stream b l' (front ++ [f]) rest := by
  obtain ⟨tail, hTail, hTailPrefix⟩ := prefix_append_split h.tail
    (by rw [length_drop, hOk.content_length]; exact hWhole)
  obtain ⟨hUnits, hFrames⟩ := h.push_spec hOk hf hWhole head
  obtain ⟨pending, hInv⟩ := h.handle
  obtain ⟨sent, hLogged, hSent⟩ := h.logged
  have hLe : l.readNum + f.length ≤ b.index := by
    have hReadNum := h.readNum_le
    omega
  have hNext : b.content.drop (l.readNum + f.length) = tail := by
    rw [← drop_drop, hTail, drop_left]
  have hSplit : frames = front ++ [f] ++ rest := by
    rw [h.split, append_assoc, singleton_append]
  have hStream : stream = (front ++ [f]).flatten ++ b.content.drop (l.readNum + f.length) := by
    rw [h.stream_eq, hTail, hNext, flatten_append, append_assoc, flatten_singleton]
  have hRest : b.content.drop (l.readNum + f.length) <+: rest.flatten := by
    rw [hNext]
    exact hTailPrefix
  have hFront : sent ++ (l.push head f.length).map (fun u => (u.message b.buf).2) =
      front ++ [f] := by
    rw [hFrames, ← append_assoc, hSent]
  rw [h.parseLoop_eq hOk hf hWhole head fuel]
  by_cases hBatch : unitBatchCount ≤ (l.push head f.length).length
  · obtain ⟨h', pending', hSend, hInv', hSends⟩ := HandleQueue.sendRecvToQueue_spec hUnits hInv
    have hLogged' := hLogged.sends hSends
    rw [hFront] at hLogged'
    rw [if_pos hBatch, hSend]
    exact ⟨⟨l.readNum + f.length, [], h'⟩, rfl, rfl, hSplit, hLe, hStream, hRest,
      Nat.lt_of_le_of_lt (Nat.zero_le _) h.units_lt, by simp, ⟨pending', hInv'⟩, front ++ [f],
      hLogged', append_nil _⟩
  · rw [if_neg hBatch]
    exact ⟨_, rfl, rfl, hSplit, hLe, hStream, hRest, Nat.lt_of_not_le hBatch, hUnits,
      ⟨pending, hInv⟩, sent, hLogged, hFront⟩

end Parsing

/-- The loop takes every frame that is complete. -/
theorem parseLoop_spec (hOk : b.Ok) (hGood : ∀ f ∈ frames, GoodFrame f) (head : CloudConnHead)
    {fuel : Nat} (hFuel : b.index - l.readNum < fuel)
    (h : Parsing unitBatchCount frames stream b l front rest) :
    ∃ l' front' rest', parseLoop unitBatchCount b head fuel l = some (l', true) ∧
      Parsing unitBatchCount frames stream b l' front' rest' ∧
      ∀ f ∈ rest'.head?, b.index - l'.readNum < f.length := by
  induction fuel generalizing l front rest with
  | zero => omega
  | succ fuel ih =>
    by_cases hShort : ∀ f ∈ rest.head?, b.index - l.readNum < f.length
    · exact ⟨l, front, rest, h.stops hOk hGood hShort head fuel, h, hShort⟩
    · cases rest with
      | nil => exact absurd (by simp) hShort
      | cons f rest =>
        have hf : GoodFrame f := hGood f (by rw [h.split]; simp)
        have hMinLe := hf.min_le
        have hWhole : f.length ≤ b.index - l.readNum := by simpa using hShort
        obtain ⟨l', hPass, hReadNum, hNext⟩ := h.pass hOk hf hWhole head fuel
        rw [hPass]
        exact ih (by omega) hNext

end Loop

-- The server

/-- The bytes that arrive are the next of a stream of these frames. -/
def Arrives (frames : List Bytes) (s : IwServer) : NetEvent → Prop
  | .epollIn _ (.data chunk) _ =>
    chunk ≠ [] ∧ s.received ++ s.conn.got (.data chunk) <+: frames.flatten
  | .epollIn _ .again _ => True
  | .epollIn _ .error _ => False
  | .work => True

instance (frames : List Bytes) (s : IwServer) (e : NetEvent) : Decidable (s.Arrives frames e) := by
  cases e with
  | epollIn _ r _ => cases r <;> unfold Arrives <;> infer_instance
  | work => exact .isTrue trivial

/-- Between two calls the frames in `front` are settled, and the content of the buffer is
the beginning of the next. -/
structure Inv (frames : List Bytes) (s : IwServer) (front rest : List Bytes) : Prop where
  kept : s.dropped = false
  sock : 0 ≤ s.conn.connHead.sockIndex
  ok : s.conn.readBuf.Ok
  roomy : s.conn.readBuf.Roomy ∨ s.conn.readBuf.index = 0
  split : frames = front ++ rest
  stream : s.received = front.flatten ++ s.conn.readBuf.content
  tail : s.conn.readBuf.content <+: rest.flatten
  whole : ∀ f ∈ rest.head?, s.conn.readBuf.index < f.length
  handle : ∃ pending, s.handle.Inv pending
  logged : s.handle.Logged front

section Server

variable {unitBatchCount : Nat} {frames front rest : List Bytes} {s : IwServer}

/-- The buffer is never full when `recv` is called. -/
theorem Inv.free_pos (h : s.Inv frames front rest) (hGood : ∀ f ∈ frames, GoodFrame f) :
    0 < s.conn.readBuf.getFreeLen := by
  have hPos := h.ok.len_pos
  have hMax := h.ok.max_eq
  have hIndex : s.conn.readBuf.index = 0 ∨ s.conn.readBuf.index < 1023936 := by
    cases hRest : rest with
    | nil =>
      left
      have hNil := h.tail
      rw [hRest, flatten_nil, prefix_nil] at hNil
      rw [← h.ok.content_length, hNil, length_nil]
    | cons f rest =>
      right
      have hf : GoodFrame f := hGood f (by rw [h.split, hRest]; simp)
      have hLt := h.whole f (by rw [hRest]; rfl)
      exact hLt.trans hf.lt_max
  unfold NBuffer.getFreeLen
  rcases h.roomy with (hFree | hFull) | hZero
  · unfold NBuffer.getFreeLen at hFree
    omega
  · unfold defaultMaxNBufferSize at hMax
    omega
  · omega

variable {curtimeval : Timeval} {r : RecvOutcome} {takes : List Nat}

/-- A read keeps the connection and the buffer. -/
theorem Inv.read (h : s.Inv frames front rest) (hGood : ∀ f ∈ frames, GoodFrame f)
    (hArrives : s.Arrives frames (.epollIn curtimeval r takes)) :
    ∃ b, s.conn.read r = some (⟨s.conn.connHead, b⟩, true) ∧ b.Ok ∧ (b.Roomy ∨ b.index = 0) ∧
      b.content = s.conn.readBuf.content ++ s.conn.got r ∧
      s.received ++ s.conn.got r <+: frames.flatten := by
  cases r with
  | data chunk =>
    obtain ⟨hChunk, hPrefix⟩ := hArrives
    obtain ⟨b, hRead, hOk, hRoomy, hContent⟩ :=
      CCloudNetConnection.read_data h.sock h.ok (h.free_pos hGood) hChunk
    exact ⟨b, hRead, hOk, .inl hRoomy, hContent, hPrefix⟩
  | again =>
    have hSock := h.sock
    have hPrefix : s.received <+: frames.flatten := by
      rw [h.stream, h.split, flatten_append]
      exact (prefix_append_right_inj _).mpr h.tail
    refine ⟨s.conn.readBuf, ?_, h.ok, h.roomy, ?_, ?_⟩
    · rw [CCloudNetConnection.read, if_neg (by omega)]
    · exact (append_nil _).symm
    · rw [show s.conn.got .again = [] from rfl, append_nil]
      exact hPrefix
  | error => exact hArrives.elim

/-- `dealEpollIn` on part of a stream of frames. -/
theorem Inv.dealEpollIn (h : s.Inv frames front rest) (hBatch : 0 < unitBatchCount)
    (hGood : ∀ f ∈ frames, GoodFrame f)
    (hArrives : s.Arrives frames (.epollIn curtimeval r takes)) :
    ∃ c handle front' rest',
      dealEpollIn unitBatchCount s.conn { s.handle with takes } curtimeval r =
        some (c, handle, true) ∧
      Inv frames ⟨c, handle, s.received ++ s.conn.got r, false⟩ front' rest' := by
  obtain ⟨b, hRead, hOk, hRoomy, hContent, hPrefix⟩ := h.read hGood hArrives
  obtain ⟨pending, hInv⟩ := h.handle
  have hStream : s.received ++ s.conn.got r = front.flatten ++ b.content := by
    rw [h.stream, hContent, append_assoc]
  have hTail : b.content <+: rest.flatten := by
    rw [hStream, h.split, flatten_append] at hPrefix
    exact (prefix_append_right_inj _).mp hPrefix
  -- the loop starts with the bytes left from before in front
  have hParsing : Parsing unitBatchCount frames (s.received ++ s.conn.got r) b
      ⟨0, [], { s.handle with takes }⟩ front rest :=
    ⟨h.split, Nat.zero_le _, hStream, hTail, hBatch, by simp,
      ⟨pending, hInv.side, hInv.queue, hInv.fifo, hInv.fits⟩, front,
      ⟨h.logged.queued, h.logged.sublist, h.logged.full⟩, append_nil _⟩
  obtain ⟨l, front', rest', hLoop, hParsed, hShort⟩ :=
    parseLoop_spec hOk hGood { s.conn.connHead with request := curtimeval }
      (show b.index - 0 < b.index + 1 by omega) hParsing
  obtain ⟨pending', hInv'⟩ := hParsed.handle
  obtain ⟨sent, hLogged, hSent⟩ := hParsed.logged
  obtain ⟨handle, pending'', hSend, hInv'', hSends⟩ :=
    HandleQueue.sendRecvToQueue_spec hParsed.units hInv'
  have hLogged' := hLogged.sends hSends
  rw [hSent] at hLogged'
  obtain ⟨b', hCompact, hOk', hRoomy', hContent'⟩ := compact_spec hOk hRoomy hParsed.readNum_le
  have hIndex' : b'.index = b.index - l.readNum := by
    rw [← hOk'.content_length, hContent', length_drop, hOk.content_length]
  refine ⟨⟨s.conn.connHead, b'⟩, handle, front', rest', ?_, rfl, h.sock, hOk', hRoomy',
    hParsed.split, ?_, ?_, ?_, ⟨pending'', hInv''⟩, hLogged'⟩
  · simp [IwServer.dealEpollIn, hRead, hLoop, hSend, hCompact]
  · dsimp only
    rw [hContent', hParsed.stream_eq]
  · dsimp only
    rw [hContent']
    exact hParsed.tail
  · dsimp only
    rw [hIndex']
    exact hShort

/-- Every event is handled and keeps the invariant. -/
theorem step_inv (hBatch : 0 < unitBatchCount) (hGood : ∀ f ∈ frames, GoodFrame f) {e : NetEvent}
    (hArrives : s.Arrives frames e) (h : s.Inv frames front rest) :
    ∃ s', step unitBatchCount s e = some s' ∧ ∃ front' rest', s'.Inv frames front' rest' := by
  cases e with
  | epollIn curtimeval r takes =>
    obtain ⟨c, handle, front', rest', hDeal, hInv⟩ := h.dealEpollIn hBatch hGood hArrives
    refine ⟨_, ?_, front', rest', hInv⟩
    simp [step, h.kept, hDeal]
  | work =>
    obtain ⟨pending, hInv⟩ := h.handle
    obtain ⟨handle, pending', hWork, hInv', hQueued, hRefused⟩ := HandleQueue.work_spec hInv
    refine ⟨{ s with handle }, by simp [step, hWork], front, rest, h.kept, h.sock, h.ok, h.roomy,
      h.split, h.stream, h.tail, h.whole, ⟨pending', hInv'⟩, ?_, ?_, ?_⟩
    · rw [hQueued, hRefused]
      exact h.logged.queued
    · rw [hQueued]
      exact h.logged.sublist
    · rw [hRefused]
      exact h.logged.full

/-- The frames in `front` are those that have arrived. -/
theorem Inv.arrived_eq (h : s.Inv frames front rest) :
    arrived frames s.received.length = front := by
  have hLength : s.received.length = front.flatten.length + s.conn.readBuf.index := by
    rw [h.stream, length_append, h.ok.content_length]
  rw [hLength, h.split, arrived_append, arrived_of_lt h.whole, append_nil]

/-- A stream of frames of 12 to 1023935 bytes is received over a new connection, in parts of
any size. Whatever the workers take and when, no access is outside of a buffer, `recv` is
never asked for zero bytes, and the connection is not dropped. What has been put in the
queue is what the workers have taken and what is still there, in order; it is a part of
the frames that have arrived, and all of them unless some were given up; and whenever that
happened, the queue was full for the first of these. -/
theorem frames_queued (hBatch : 0 < unitBatchCount) (hGood : ∀ f ∈ frames, GoodFrame f)
    {conn : CCloudNetConnection} (hSock : 0 ≤ conn.connHead.sockIndex)
    -- `getNewConn` releases the buffer, whether it is new or was used before
    {old : NBuffer} (hOld : old.Ok) (hRelease : old.release = some conn.readBuf)
    {pBuf : Nat} {ptr : Bytes} {queue : CLockBufferQueue}
    (hInit : CLockBufferQueue.init pBuf ptr [] false = some queue) {events : List NetEvent}
    (hEvents : Along (step unitBatchCount) (Arrives frames) (start conn queue) events) :
    ∃ s, run (step unitBatchCount) (start conn queue) events = some s ∧ s.dropped = false ∧
      0 < s.conn.readBuf.getFreeLen ∧
      (∃ pending, s.handle.Inv pending) ∧
      (s.handle.queued.map Prod.snd).Sublist (arrived frames s.received.length) ∧
      (s.handle.refused = [] →
        s.handle.queued.map Prod.snd = arrived frames s.received.length) ∧
      ∀ r ∈ s.handle.refused, ∃ m ∈ r.2.head?, r.1.isFull (64 + m.2.length) = some true := by
  obtain ⟨q, hCreate, rfl⟩ := Option.map_eq_some_iff.mp hInit
  have hRep := (CBufferQueue.create_represents hCreate).1
  obtain ⟨b, hReleased, hOk, hIndex⟩ := NBuffer.release_ok hOld
  obtain rfl : conn.readBuf = b := Option.some.inj (hRelease.symm.trans hReleased)
  have hContent : conn.readBuf.content = [] := by
    rw [NBuffer.content, hIndex, take_zero]
  have hStart : (start conn ⟨q, none⟩).Inv frames [] frames := by
    refine ⟨rfl, hSock, hOk, .inr hIndex, rfl, ?_, ?_, ?_, ⟨[], rfl, hRep, rfl, by simp⟩,
      fun _ => rfl, List.Sublist.refl _, by intro r hr; cases hr⟩
    · exact hContent.symm
    · exact hContent ▸ nil_prefix
    · intro f hf
      have hMinLe := (hGood f (mem_of_mem_head? hf)).min_le
      show conn.readBuf.index < f.length
      omega
  have hStep : ∀ (s : IwServer) e, s.Arrives frames e → (∃ front rest, s.Inv frames front rest) →
      ∃ s', step unitBatchCount s e = some s' ∧ ∃ front rest, s'.Inv frames front rest := by
    rintro s e hArrives ⟨front, rest, h⟩
    exact step_inv hBatch hGood hArrives h
  obtain ⟨s, hRun, front, rest, h⟩ := run_total hStep ⟨[], frames, hStart⟩ hEvents
  refine ⟨s, hRun, h.kept, h.free_pos hGood, h.handle, ?_, ?_, h.logged.full⟩
  · rw [h.arrived_eq]
    exact h.logged.sublist
  · rw [h.arrived_eq]
    exact h.logged.queued

end Server

/-- Two frames of a client. -/
def sampleFrames : List Bytes :=
  [[0, 0, 0, 12, 1, 2, 3, 4, 5, 6, 7, 8], [0, 0, 0, 13, 1, 2, 3, 4, 5, 6, 7, 8, 9]]

def sampleConn : CCloudNetConnection :=
  ⟨⟨7, ⟨1, 0⟩, ⟨0, 0⟩, ⟨0, 0⟩, 0, 0⟩, ⟨List.replicate 520 0, 512, 0, defaultMaxNBufferSize⟩⟩

def sampleQueue : CLockBufferQueue := ⟨⟨0, 0, 0, List.replicate 260 0⟩, none⟩

/-- They come in two parts, cut in the first frame, and two workers take them. -/
def sampleEvents : List NetEvent :=
  [.epollIn ⟨2, 0⟩ (.data [0, 0, 0, 12, 1, 2, 3]) [],
    .epollIn ⟨3, 0⟩ (.data [4, 5, 6, 7, 8, 0, 0, 0, 13, 1, 2, 3, 4, 5, 6, 7, 8, 9]) [1],
    .work, .work]

/-- Two frames that arrive in two pieces. -/
theorem frames_queued_sample :
    ∃ s, run (step 10) (start sampleConn sampleQueue) sampleEvents = some s ∧
      s.dropped = false ∧ s.handle.queued.map Prod.snd = sampleFrames := by
  have hGood : ∀ f ∈ sampleFrames, GoodFrame f := by
    intro f hf
    rcases mem_pair.mp hf with rfl | rfl
    · exact ⟨by decide, by decide, by decide⟩
    · exact ⟨by decide, by decide, by decide⟩
  have hOk : sampleConn.readBuf.Ok :=
    ⟨length_replicate, by decide, by decide, by decide, rfl⟩
  have hInit : CLockBufferQueue.init 0 (List.replicate 300 0) [] false = some sampleQueue := by
    decide +kernel
  have hEvents : Along (step 10) (Arrives sampleFrames) (start sampleConn sampleQueue)
      sampleEvents := by decide +kernel
  obtain ⟨s, hRun, hKept, -, -, -, hQueued, -⟩ :=
    frames_queued (by decide) hGood (by decide) hOk rfl hInit hEvents
  have hReaches : ∃ s, run (step 10) (start sampleConn sampleQueue) sampleEvents = some s ∧
      s.handle.refused = [] ∧ s.received.length = 25 := run_reaches (by decide +kernel)
  obtain ⟨s', hRun', hRefused, hReceived⟩ := hReaches
  obtain rfl : s = s' := Option.some.inj (hRun.symm.trans hRun')
  refine ⟨s, hRun, hKept, ?_⟩
  rw [hQueued hRefused, hReceived]
  decide

end IwServer

end MyBase
