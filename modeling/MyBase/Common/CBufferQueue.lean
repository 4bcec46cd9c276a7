import MyBase.Common.Circle
import MyBase.Lib.Run

/-!
# MyBase — `CBufferQueue` is a FIFO queue

A queue in a buffer that the caller provides: a header of 40 bytes, and the messages
behind it. `enqueue` throws when the queue is full; a dequeue whose buffers are too small
throws as well, and the message is gone. Positions are kept without a bound: they
address memory.

Main results:

* `fifo_run` — in every sequence of calls each accepted message is returned once, whole
  and in order, a call is refused exactly if `isFull` says so, and `count` is right, as
  long as no 32-bit sum overflows;
* `sum_of_buffersizes_overflows` — two buffers of 2^31 bytes are too small for a message
  of one byte.
-/

namespace MyBase

open Lib List

-- The queue

/-- The header's fields, and the data behind it; `iBufSize` is the data's length. -/
structure CBufferQueue where
  iBegin : Nat
  iEnd : Nat
  iCount : UInt32
  data : Bytes
deriving DecidableEq, Repr

inductive DequeueResult (β : Type)
  /-- `return false`. -/
  | empty
  /-- `buffer_full` is thrown. -/
  | tooLong
  | message (m : β)
deriving DecidableEq, Repr

namespace CBufferQueue

def reserveLen : Nat := 8

/-- `create` on a buffer at the address `pBuf`; `none` if it throws. -/
def create (pBuf : Nat) (buf : Bytes) : Option CBufferQueue :=
  if pBuf % 8 ≠ 0 then none
  else if buf.length ≤ 40 + 8 + reserveLen then none
  else some ⟨0, 0, 0, buf.drop 40⟩

def isEmpty (q : CBufferQueue) : Bool := q.iBegin == q.iEnd

def count (q : CBufferQueue) : UInt32 := q.iCount

/-- `isFull`, with its assertions. -/
def isFull (q : CBufferQueue) (len : Nat) : Option Bool :=
  let n := q.data.length
  if len = 0 then some false
  else if q.iEnd = q.iBegin then some (decide (n < len + 8 + reserveLen))
  else if q.iBegin < q.iEnd then do
    guard (q.iBegin + 8 < q.iEnd)
    return decide (n - q.iEnd + q.iBegin < 8 + len + reserveLen)
  else do
    guard (q.iEnd + reserveLen ≤ q.iBegin)
    return decide (q.iBegin - q.iEnd < 8 + len + reserveLen)

/-- Both forms of `enqueue`, with the length they compute; `false` if `buffer_full` is
thrown. -/
def enqueueParts (q : CBufferQueue) (len : Nat) (buffer1 buffer2 : Bytes) :
    Option (CBufferQueue × Bool) :=
  if len = 0 then some (q, true)
  else do
    if ← q.isFull len then return (q, false)
    else
      let (data, iEnd) ←
        Circle.store reserveLen q.iBegin q.iEnd (setLen len) len buffer1 buffer2 q.data
      return ({ q with iEnd, data, iCount := q.iCount + 1 }, true)

def enqueue (q : CBufferQueue) (buffer : Bytes) : Option (CBufferQueue × Bool) :=
  q.enqueueParts buffer.length buffer []

/-- The lengths are added as `unsigned`. -/
def enqueue2 (q : CBufferQueue) (buffer1 buffer2 : Bytes) : Option (CBufferQueue × Bool) :=
  q.enqueueParts ((buffer1.length + buffer2.length) % 2 ^ 32) buffer1 buffer2

/-- `if(_header->iCount) _header->iCount--`. -/
def decCount (iCount : UInt32) : UInt32 := if iCount ≠ 0 then iCount - 1 else iCount

/-- Both forms of `dequeue`: `copy` is how a message is copied out. -/
def dequeueWith {β : Type} (q : CBufferQueue) (buffersize : Nat)
    (copy : Circle.Located → Option β) : Option (CBufferQueue × DequeueResult β) :=
  if q.isEmpty then some (q, .empty)
  else do
    let iCount := decCount q.iCount
    match ← Circle.locate reserveLen true q.iBegin q.iEnd q.data some with
    | none => none
    | some l =>
      let q' := { q with iBegin := l.newBegin, iCount }
      if buffersize < l.len then return (q', .tooLong)
      else return (q', .message (← copy l))

def dequeue (q : CBufferQueue) (buffersize : UInt32) :
    Option (CBufferQueue × DequeueResult Bytes) :=
  q.dequeueWith buffersize.toNat (Circle.copyOne q.data)

/-- The sizes are added as `unsigned`. -/
def dequeue2 (q : CBufferQueue) (buffersize1 buffersize2 : UInt32) :
    Option (CBufferQueue × DequeueResult (Bytes × Bytes)) :=
  q.dequeueWith (buffersize1 + buffersize2).toNat fun l =>
    if l.len < buffersize1.toNat then (Circle.copyOne q.data l).map fun m => (m, [])
    else Circle.copyTwo q.data l buffersize1.toNat

-- The messages it stands for

/-- Messages behind their length fields. -/
def encode (msgs : List Bytes) : Bytes := msgs.flatMap fun m => setLen m.length ++ m

@[simp] theorem encode_nil : encode [] = [] := rfl

theorem encode_cons (m : Bytes) (msgs : List Bytes) :
    encode (m :: msgs) = setLen m.length ++ (m ++ encode msgs) := by
  simp [encode]

theorem encode_append_singleton (msgs : List Bytes) (m : Bytes) :
    encode (msgs ++ [m]) = encode msgs ++ (setLen m.length ++ m) := by
  simp [encode]

/-- The queue holds these messages, and the reserve behind them is free. -/
structure Represents (q : CBufferQueue) (msgs : List Bytes) : Prop where
  ring : Ring q.data q.iBegin q.iEnd (encode msgs)
  reserve : (encode msgs).length + reserveLen ≤ q.data.length
  nonempty : ∀ m ∈ msgs, m ≠ []
  short : ∀ m ∈ msgs, m.length < 2 ^ 32

variable {q : CBufferQueue} {msgs : List Bytes} {m : Bytes}

variable {pBuf len : Nat} {buf : Bytes} {β : Type}

theorem create_represents (h : create pBuf buf = some q) : q.Represents [] ∧ q.iCount = 0 := by
  unfold create at h
  split at h
  · cases h
  · split at h
    · cases h
    next hSize =>
      unfold reserveLen at hSize
      cases h
      have hLen : (buf.drop 40).length = buf.length - 40 := length_drop
      exact ⟨⟨.nil (by simp only; omega), by simp [reserveLen]; omega, by simp, by simp⟩, rfl⟩

theorem create_length_le (h : create pBuf buf = some q) : q.data.length ≤ buf.length := by
  unfold create at h
  split at h
  · cases h
  · split at h
    · cases h
    · cases h
      simp

theorem Represents.isEmpty_iff (h : q.Represents msgs) : q.isEmpty = true ↔ msgs = [] := by
  rw [isEmpty, beq_iff_eq, h.ring.eq_iff]
  cases msgs with
  | nil => simp
  | cons m msgs => simp [encode_cons, ne_nil_of_length_pos]

section Represents

variable (h : q.Represents (m :: msgs))
include h

theorem Represents.isEmpty_cons : q.isEmpty = false := by
  have hIff := h.isEmpty_iff
  simpa using hIff

theorem Represents.encode_length : 8 < (encode (m :: msgs)).length := by
  have hPos : 0 < m.length := length_pos_iff.mpr (h.nonempty m mem_cons_self)
  simp only [encode_cons, length_append, setLen_length]
  omega

omit h in
/-- Full is: no room for the message, its length field and the reserve. -/
theorem isFull_spec (h : q.Represents msgs) (hLen : 0 < len) :
    q.isFull len =
      some (decide (q.data.length < (encode msgs).length + 8 + len + reserveLen)) := by
  have hBegin := h.ring.begin_lt
  have hEndLt := h.ring.end_lt
  have hReserve := h.reserve
  have hEmpty := h.ring.eq_iff
  unfold reserveLen at hReserve
  unfold isFull
  rw [if_neg (by omega)]
  cases msgs with
  | nil =>
    have hEq : q.iEnd = q.iBegin := (hEmpty.mpr rfl).symm
    rw [if_pos hEq, encode_nil, length_nil,
      show 0 + 8 + len + reserveLen = len + 8 + reserveLen by omega]
  | cons m msgs =>
    have hMore := h.encode_length
    have hNe : ¬ q.iEnd = q.iBegin := by
      intro hEq
      rw [hEmpty.mp hEq.symm] at hMore
      simp at hMore
    rw [if_neg hNe]
    by_cases hLinear : q.iBegin < q.iEnd
    · have hEnd := h.ring.end_eq_of_lt hLinear
      have hIff : q.data.length - q.iEnd + q.iBegin < 8 + len + reserveLen ↔
          q.data.length < (encode (m :: msgs)).length + 8 + len + reserveLen := by omega
      simp [hLinear, guard, show q.iBegin + 8 < q.iEnd by omega, hIff]
    · have hEnd := h.ring.end_eq_of_gt (by omega)
      have hIff : q.iBegin - q.iEnd < 8 + len + reserveLen ↔
          q.data.length < (encode (m :: msgs)).length + 8 + len + reserveLen := by omega
      have hGuard : q.iEnd + reserveLen ≤ q.iBegin := by
        unfold reserveLen
        omega
      simp only [hLinear, guard, hGuard, hIff, if_false, if_true]
      rfl

omit h in
/-- A message of this length is stored or refused, as `isFull` says. -/
theorem enqueueParts_spec (h : q.Represents msgs) (buffer1 buffer2 : Bytes)
    (hLen : len = buffer1.length + buffer2.length) (hPos : 0 < len) (hShort : len < 2 ^ 32) :
    (q.isFull len = some true ∧ q.enqueueParts len buffer1 buffer2 = some (q, false)) ∨
      (q.isFull len = some false ∧ ∃ q', q.enqueueParts len buffer1 buffer2 = some (q', true) ∧
        q'.Represents (msgs ++ [buffer1 ++ buffer2]) ∧ q'.iCount = q.iCount + 1 ∧
        q'.data.length = q.data.length) := by
  have hFull := isFull_spec h hPos
  unfold enqueueParts
  -- `isFull` decides
  by_cases hRoom : q.data.length < (encode msgs).length + 8 + len + reserveLen
  · left
    simp only [hRoom, decide_true] at hFull
    refine ⟨hFull, ?_⟩
    simp [hFull, show len ≠ 0 by omega]
  · right
    simp only [hRoom, decide_false] at hFull
    refine ⟨hFull, ?_⟩
    have hFits : Circle.Fits reserveLen q.iBegin q.iEnd (setLen len) len buffer1 buffer2 q.data
        (encode msgs) := by
      unfold reserveLen at hRoom ⊢
      exact ⟨h.ring, setLen_length len, hLen, by omega, by omega⟩
    obtain ⟨data', e', hStore, hLength, hRing⟩ := hFits.stores
    have hEncode : encode msgs ++ (setLen len ++ (buffer1 ++ buffer2)) =
        encode (msgs ++ [buffer1 ++ buffer2]) := by
      rw [encode_append_singleton, length_append, hLen]
    rw [hEncode] at hRing
    refine ⟨{ q with iEnd := e', data := data', iCount := q.iCount + 1 }, ?_, ?_, rfl, hLength⟩
    · simp [hFull, hStore, show len ≠ 0 by omega]
    · refine ⟨hRing, ?_, ?_, ?_⟩
      · rw [← hEncode]
        simp only [length_append, setLen_length, hLength]
        omega
      · intro m hm
        rcases mem_append.mp hm with hOld | hNew
        · exact h.nonempty m hOld
        · rw [mem_singleton.mp hNew, ← length_pos_iff, length_append]
          omega
      · intro m hm
        rcases mem_append.mp hm with hOld | hNew
        · exact h.short m hOld
        · rw [mem_singleton.mp hNew, length_append]
          omega

/-- The first message is found, and behind it the others. -/
theorem Represents.locate :
    ∃ l, Circle.locate reserveLen true q.iBegin q.iEnd q.data some = some (some l) ∧
      l.Of q.data m ∧ Ring q.data l.newBegin q.iEnd (encode msgs) := by
  have hShort := h.short m mem_cons_self
  have hRing := h.ring
  have hReserve := h.reserve
  rw [encode_cons] at hRing hReserve
  obtain ⟨l, hLocate, -, hOf, hRest⟩ := Circle.locate_spec true some hRing
    (setLen_length _) (h.nonempty m mem_cons_self)
    (by rw [getLen_setLen (by omega)]) hReserve
  exact ⟨l, hLocate, hOf, hRest⟩

/-- The first message is taken out; it is copied if the buffers are large enough. -/
theorem dequeueWith_spec {buffersize : Nat} {copy : Circle.Located → Option β} {out : β}
    (hCopy : ∀ l : Circle.Located, l.Of q.data m → copy l = some out) :
    ∃ q', q.dequeueWith buffersize copy =
        some (q', if buffersize < m.length then .tooLong else .message out) ∧
      q'.Represents msgs ∧ q'.iCount = decCount q.iCount ∧
      q'.data.length = q.data.length := by
  obtain ⟨l, hLocate, hOf, hRest⟩ := h.locate
  have hReserve := h.reserve
  rw [encode_cons] at hReserve
  have hNotEmpty := h.isEmpty_cons
  refine ⟨{ q with iBegin := l.newBegin, iCount := decCount q.iCount }, ?_, ?_, rfl, rfl⟩
  · by_cases hLong : buffersize < m.length <;>
      simp [dequeueWith, hNotEmpty, hLocate, hOf.len_eq, hCopy l hOf, hLong]
  · refine ⟨hRest, ?_, ?_, ?_⟩
    · simp only [length_append] at hReserve
      show (encode msgs).length + reserveLen ≤ q.data.length
      omega
    · exact fun x hx => h.nonempty x (mem_cons_of_mem _ hx)
    · exact fun x hx => h.short x (mem_cons_of_mem _ hx)

theorem dequeue_spec (buffersize : UInt32) :
    ∃ q', q.dequeue buffersize =
        some (q', if buffersize.toNat < m.length then .tooLong else .message m) ∧
      q'.Represents msgs ∧ q'.iCount = decCount q.iCount ∧
      q'.data.length = q.data.length :=
  dequeueWith_spec h fun _ hOf => Circle.copyOne_spec hOf

/-- The message is cut where the first buffer ends. -/
theorem dequeue2_spec (buffersize1 buffersize2 : UInt32) :
    ∃ q', q.dequeue2 buffersize1 buffersize2 =
        some (q', if (buffersize1 + buffersize2).toNat < m.length then .tooLong
          else .message (m.take buffersize1.toNat, m.drop buffersize1.toNat)) ∧
      q'.Represents msgs ∧ q'.iCount = decCount q.iCount ∧
      q'.data.length = q.data.length := by
  refine dequeueWith_spec h ?_
  intro l hOf
  by_cases hFirst : l.len < buffersize1.toNat
  · have hLen := hOf.len_eq
    rw [if_pos hFirst, Circle.copyOne_spec hOf, take_of_length_le (by omega),
      drop_of_length_le (by omega)]
    rfl
  · rw [if_neg hFirst, Circle.copyTwo_spec hOf (by omega)]

end Represents

theorem dequeueWith_nil (h : q.Represents []) (buffersize : Nat)
    (copy : Circle.Located → Option β) : q.dequeueWith buffersize copy = some (q, .empty) := by
  rw [dequeueWith, if_pos (h.isEmpty_iff.mpr rfl)]

end CBufferQueue

-- Sequences of calls

inductive QueueCall
  | enqueue (buffer : Bytes)
  | enqueue2 (buffer1 buffer2 : Bytes)
  | dequeue (buffersize : UInt32)
  | dequeue2 (buffersize1 buffersize2 : UInt32)
deriving DecidableEq, Repr

/-- A queue, the messages it has accepted and those it has returned, in order. -/
structure QueueRun where
  queue : CBufferQueue
  accepted : List Bytes
  delivered : List Bytes
deriving DecidableEq, Repr

namespace QueueRun

def accept (s : QueueRun) (m : Bytes) : CBufferQueue × Bool → QueueRun
  | (q, true) => { s with queue := q, accepted := s.accepted ++ [m] }
  | (q, false) => { s with queue := q }

def deliver {β : Type} (s : QueueRun) (whole : β → Bytes) :
    CBufferQueue × DequeueResult β → QueueRun
  | (q, .message m) => { s with queue := q, delivered := s.delivered ++ [whole m] }
  | (q, _) => { s with queue := q }

/-- `none` is an assertion that fails or an access outside the buffer. -/
def step (s : QueueRun) : QueueCall → Option QueueRun
  | .enqueue buffer => (s.queue.enqueue buffer).map (s.accept buffer)
  | .enqueue2 buffer1 buffer2 =>
    (s.queue.enqueue2 buffer1 buffer2).map (s.accept (buffer1 ++ buffer2))
  | .dequeue buffersize => (s.queue.dequeue buffersize).map (s.deliver id)
  | .dequeue2 buffersize1 buffersize2 =>
    (s.queue.dequeue2 buffersize1 buffersize2).map (s.deliver fun m => m.1 ++ m.2)

/-- The message that is to be returned next. -/
def next (s : QueueRun) : Option Bytes := s.accepted[s.delivered.length]?

/-- Messages are not empty and fit an `unsigned` length, and buffers are large enough for
the next message. -/
def Allowed (s : QueueRun) : QueueCall → Prop
  | .enqueue buffer => 0 < buffer.length ∧ buffer.length < 2 ^ 32
  | .enqueue2 buffer1 buffer2 =>
    0 < buffer1.length + buffer2.length ∧ buffer1.length + buffer2.length < 2 ^ 32
  | .dequeue buffersize => ∀ m ∈ s.next, m.length ≤ buffersize.toNat
  | .dequeue2 buffersize1 buffersize2 =>
    ∀ m ∈ s.next, m.length ≤ buffersize1.toNat + buffersize2.toNat

/-- The number of messages and the sum of the buffers' sizes fit 32 bits. -/
def Bounded (s : QueueRun) : QueueCall → Prop
  | .enqueue _ => s.queue.iCount.toNat + 1 < 2 ^ 32
  | .enqueue2 _ _ => s.queue.iCount.toNat + 1 < 2 ^ 32
  | .dequeue _ => True
  | .dequeue2 buffersize1 buffersize2 => buffersize1.toNat + buffersize2.toNat < 2 ^ 32

instance (s : QueueRun) (c : QueueCall) : Decidable (s.Allowed c) := by
  cases c <;> unfold Allowed <;> infer_instance

instance (s : QueueRun) (c : QueueCall) : Decidable (s.Bounded c) := by
  cases c <;> unfold Bounded <;> infer_instance

/-- The queue behaves as the list `pending` of messages. -/
structure Fifo (s : QueueRun) (pending : List Bytes) : Prop where
  /-- What is not yet returned, in order. -/
  accepted_eq : s.accepted = s.delivered ++ pending
  count_eq : s.queue.count.toNat = pending.length
  isEmpty_iff : s.queue.isEmpty = true ↔ pending = []
  /-- An enqueue is refused exactly when `isFull` says so. -/
  enqueue_refused : ∀ buffer, s.Allowed (.enqueue buffer) → ∃ full q,
    s.queue.isFull buffer.length = some full ∧ s.queue.enqueue buffer = some (q, !full)
  enqueue2_refused : ∀ buffer1 buffer2, s.Allowed (.enqueue2 buffer1 buffer2) → ∃ full q,
    s.queue.isFull (buffer1.length + buffer2.length) = some full ∧
      s.queue.enqueue2 buffer1 buffer2 = some (q, !full)
  /-- A dequeue returns the first message, or nothing if there is none. -/
  dequeue_first : ∀ buffersize, s.Allowed (.dequeue buffersize) →
    ∃ q, s.queue.dequeue buffersize =
      some (q, match pending with | [] => .empty | m :: _ => .message m)
  dequeue2_first : ∀ buffersize1 buffersize2, s.Allowed (.dequeue2 buffersize1 buffersize2) →
    s.Bounded (.dequeue2 buffersize1 buffersize2) →
    ∃ q, s.queue.dequeue2 buffersize1 buffersize2 =
      some (q, match pending with
        | [] => .empty
        | m :: _ => .message (m.take buffersize1.toNat, m.drop buffersize1.toNat))

/-- The queue holds what has been accepted and not returned. -/
structure Inv (s : QueueRun) (pending : List Bytes) : Prop where
  represents : s.queue.Represents pending
  accepted_eq : s.accepted = s.delivered ++ pending
  count_eq : s.queue.iCount.toNat = pending.length

variable {s : QueueRun} {pending : List Bytes}

theorem Inv.next_eq (h : s.Inv pending) : s.next = pending.head? := by
  rw [next, h.accepted_eq, getElem?_append_right (Nat.le_refl _), Nat.sub_self,
    head?_eq_getElem?]

/-- A message is accepted and comes last, or is refused. -/
theorem Inv.accept (h : s.Inv pending) (buffer1 buffer2 : Bytes) {len : Nat}
    (hLen : len = buffer1.length + buffer2.length) (hPos : 0 < len) (hShort : len < 2 ^ 32)
    (hCount : s.queue.iCount.toNat + 1 < 2 ^ 32) :
    ∃ s', (s.queue.enqueueParts len buffer1 buffer2).map (s.accept (buffer1 ++ buffer2)) =
        some s' ∧ ∃ pending', s'.Inv pending' := by
  rcases CBufferQueue.enqueueParts_spec h.represents buffer1 buffer2 hLen hPos hShort with
    ⟨-, hRefused⟩ | ⟨-, q', hStored, hRep, hCount', -⟩
  · rw [hRefused]
    exact ⟨_, rfl, pending, h.represents, h.accepted_eq, h.count_eq⟩
  · rw [hStored]
    refine ⟨_, rfl, pending ++ [buffer1 ++ buffer2], hRep, ?_, ?_⟩
    · simp [QueueRun.accept, h.accepted_eq]
    · have hAdd : (s.queue.iCount + 1).toNat = s.queue.iCount.toNat + 1 := by
        rw [UInt32.toNat_add]
        exact Nat.mod_eq_of_lt hCount
      simp only [QueueRun.accept, hCount', hAdd, h.count_eq, length_append, length_cons,
        length_nil]

/-- Both forms of `dequeue`, when there is a message. -/
theorem Inv.deliver {m : Bytes} (h : s.Inv (m :: pending)) {q' : CBufferQueue}
    (hRep : q'.Represents pending) (hCount : q'.iCount = CBufferQueue.decCount s.queue.iCount) :
    Inv { s with queue := q', delivered := s.delivered ++ [m] } pending := by
  have hLen := h.count_eq
  rw [length_cons] at hLen
  refine ⟨hRep, by simp [h.accepted_eq], ?_⟩
  have hNe : s.queue.iCount ≠ 0 := by
    intro hZero
    rw [hZero] at hLen
    simp at hLen
  have hSub : (s.queue.iCount - 1).toNat = s.queue.iCount.toNat - 1 :=
    UInt32.toNat_sub_of_le _ _ (by rw [UInt32.le_iff_toNat_le, UInt32.toNat_one]; omega)
  simp only [hCount, CBufferQueue.decCount, if_pos hNe, hSub, hLen]
  omega

theorem Inv.dequeue_eq {m : Bytes} (h : s.Inv (m :: pending)) {buffersize : UInt32}
    (hAllowed : s.Allowed (.dequeue buffersize)) :
    ∃ q, s.queue.dequeue buffersize = some (q, .message m) ∧ q.Represents pending ∧
      q.iCount = CBufferQueue.decCount s.queue.iCount := by
  have hFits : ¬ buffersize.toNat < m.length := Nat.not_lt.mpr (hAllowed m h.next_eq)
  obtain ⟨q', hDequeue, hRep, hCount, -⟩ := CBufferQueue.dequeue_spec h.represents buffersize
  rw [if_neg hFits] at hDequeue
  exact ⟨q', hDequeue, hRep, hCount⟩

/-- The second form of `dequeue` returns the first message in two parts. -/
theorem Inv.dequeue2_eq {m : Bytes} (h : s.Inv (m :: pending)) {buffersize1 buffersize2 : UInt32}
    (hAllowed : s.Allowed (.dequeue2 buffersize1 buffersize2))
    (hBounded : s.Bounded (.dequeue2 buffersize1 buffersize2)) :
    ∃ q, s.queue.dequeue2 buffersize1 buffersize2 =
        some (q, .message (m.take buffersize1.toNat, m.drop buffersize1.toNat)) ∧
      q.Represents pending ∧ q.iCount = CBufferQueue.decCount s.queue.iCount := by
  have hFits : ¬ (buffersize1 + buffersize2).toNat < m.length := by
    rw [UInt32.toNat_add, Nat.mod_eq_of_lt hBounded]
    exact Nat.not_lt.mpr (hAllowed m h.next_eq)
  obtain ⟨q', hDequeue, hRep, hCount, -⟩ :=
    CBufferQueue.dequeue2_spec h.represents buffersize1 buffersize2
  rw [if_neg hFits] at hDequeue
  exact ⟨q', hDequeue, hRep, hCount⟩

/-- Every call succeeds and keeps the invariant. -/
theorem step_inv {c : QueueCall} (hAllowed : s.Allowed c) (hBounded : s.Bounded c)
    (h : ∃ pending, s.Inv pending) : ∃ s', s.step c = some s' ∧ ∃ pending, s'.Inv pending := by
  obtain ⟨pending, h⟩ := h
  cases c with
  | enqueue buffer =>
    have hStep := h.accept buffer [] (by simp) hAllowed.1 hAllowed.2
      hBounded
    rw [append_nil] at hStep
    exact hStep
  | enqueue2 buffer1 buffer2 =>
    have hStep := h.accept buffer1 buffer2 rfl hAllowed.1 hAllowed.2
      hBounded
    rw [← Nat.mod_eq_of_lt hAllowed.2] at hStep
    exact hStep
  | dequeue buffersize =>
    cases pending with
    | nil =>
      refine ⟨s, ?_, [], h⟩
      rw [step, CBufferQueue.dequeue, CBufferQueue.dequeueWith_nil h.represents]
      rfl
    | cons m pending =>
      obtain ⟨q', hDequeue, hRep, hCount⟩ := h.dequeue_eq hAllowed
      refine ⟨_, ?_, pending, h.deliver hRep hCount⟩
      rw [step, hDequeue]
      rfl
  | dequeue2 buffersize1 buffersize2 =>
    cases pending with
    | nil =>
      refine ⟨s, ?_, [], h⟩
      rw [step, CBufferQueue.dequeue2, CBufferQueue.dequeueWith_nil h.represents]
      rfl
    | cons m pending =>
      obtain ⟨q', hDequeue, hRep, hCount⟩ := h.dequeue2_eq hAllowed hBounded
      refine ⟨_, ?_, pending, h.deliver hRep hCount⟩
      rw [step, hDequeue]
      simp [QueueRun.deliver]

/-- What the invariant says about the answers. -/
theorem Inv.fifo (h : s.Inv pending) : s.Fifo pending where
  accepted_eq := h.accepted_eq
  count_eq := h.count_eq
  isEmpty_iff := h.represents.isEmpty_iff
  enqueue_refused := by
    intro buffer hAllowed
    rcases CBufferQueue.enqueueParts_spec h.represents buffer []
      (by simp) hAllowed.1 hAllowed.2 with ⟨hFull, hRefused⟩ | ⟨hFull, q', hStored, -⟩
    · exact ⟨true, _, hFull, hRefused⟩
    · exact ⟨false, q', hFull, hStored⟩
  enqueue2_refused := by
    intro buffer1 buffer2 hAllowed
    rw [CBufferQueue.enqueue2, Nat.mod_eq_of_lt hAllowed.2]
    rcases CBufferQueue.enqueueParts_spec h.represents buffer1 buffer2
      rfl hAllowed.1 hAllowed.2 with ⟨hFull, hRefused⟩ | ⟨hFull, q', hStored, -⟩
    · exact ⟨true, _, hFull, hRefused⟩
    · exact ⟨false, q', hFull, hStored⟩
  dequeue_first := by
    intro buffersize hAllowed
    cases pending with
    | nil => exact ⟨s.queue, CBufferQueue.dequeueWith_nil h.represents _ _⟩
    | cons m pending =>
      obtain ⟨q', hDequeue, -⟩ := h.dequeue_eq hAllowed
      exact ⟨q', hDequeue⟩
  dequeue2_first := by
    intro buffersize1 buffersize2 hAllowed hBounded
    cases pending with
    | nil => exact ⟨s.queue, CBufferQueue.dequeueWith_nil h.represents _ _⟩
    | cons m pending =>
      obtain ⟨q', hDequeue, -⟩ := h.dequeue2_eq hAllowed hBounded
      exact ⟨q', hDequeue⟩

/-- In every sequence of calls on a queue that `create` has made, as long as the number
of messages and the sums of the buffers' sizes fit 32 bits, no assertion fails and no
access leaves the buffer, and the queue behaves as the list of the messages that have
been accepted and not yet returned. -/
theorem fifo_run {pBuf : Nat} {buf : Bytes} {q : CBufferQueue}
    (hCreate : CBufferQueue.create pBuf buf = some q) {calls : List QueueCall}
    (hCalls : Along step (fun s c => s.Allowed c ∧ s.Bounded c) ⟨q, [], []⟩ calls) :
    ∃ s, run step ⟨q, [], []⟩ calls = some s ∧ ∃ pending, s.Fifo pending := by
  obtain ⟨hRep, hCount⟩ := CBufferQueue.create_represents hCreate
  have hInit : ∃ pending, Inv ⟨q, [], []⟩ pending := ⟨[], hRep, rfl, by simp [hCount]⟩
  obtain ⟨s, hRun, pending, hInv⟩ :=
    run_total (fun _ _ hP hInv => step_inv hP.1 hP.2 hInv) hInit hCalls
  exact ⟨s, hRun, pending, hInv.fifo⟩

/-- In a queue of 24 bytes, the second message goes around the end, and is returned in
two parts. -/
theorem fifo_run_around :
    ∃ q, CBufferQueue.create 0 (List.replicate 64 0) = some q ∧
      ∃ s, run step ⟨q, [], []⟩
          [.enqueue [1, 2, 3], .dequeue 8, .enqueue2 [4] [5, 6, 7, 8, 9, 10], .dequeue2 1 8] =
        some s ∧ ∃ pending, s.Fifo pending :=
  ⟨_, rfl,
    fifo_run (show CBufferQueue.create 0 (List.replicate 64 0) = some _ from rfl) (by decide)⟩

/-- A message of one byte is dequeued into two buffers of 2^31 bytes: it is refused as too
long, and gone. -/
theorem sum_of_buffersizes_overflows :
    ∃ q, CBufferQueue.create 0 (List.replicate 64 0) = some q ∧
      Along step Allowed ⟨q, [], []⟩ [.enqueue [1], .dequeue2 (2 ^ 31) (2 ^ 31)] ∧
      ∃ s, run step ⟨q, [], []⟩ [.enqueue [1], .dequeue2 (2 ^ 31) (2 ^ 31)] = some s ∧
        s.accepted = [[1]] ∧ s.delivered = [] ∧ s.queue.isEmpty = true :=
  ⟨_, rfl, by decide, _, rfl, rfl, rfl, rfl⟩

end QueueRun

end MyBase
