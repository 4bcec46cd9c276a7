import MyBase.Common.CBufferQueue

/-!
# MyBase — `CLockBufferQueue`, read by one thread or by many

With `singleread` a dequeue takes everything out of the queue at once, into a side
buffer, and later dequeues are served from there. The side buffer is parsed by code of
its own: a message that is shorter than the first buffer, or does not fit the two, makes
it forget everything it holds, where the queue would return the message or drop it
alone.

Main results:

* `dequeueFromBuffer_spec` — a message that fills the first buffer and fits the second is
  returned as the queue would return it;
* `short_message_lost` — a message shorter than the first buffer.
-/

namespace MyBase

open Lib List

-- The queue

/-- `getAllData` into the memory at `buf`; `none` if it returns false. -/
def CBufferQueue.getAllData (q : CBufferQueue) (buf : Bytes) :
    Option (CBufferQueue × Option (Bytes × Nat)) :=
  let n := q.data.length
  let emptied : CBufferQueue := { q with iBegin := 0, iEnd := 0, iCount := 0 }
  if q.isEmpty then some (q, none)
  else if q.iBegin < q.iEnd then do
    let len := (q.iEnd - q.iBegin) % 2 ^ 32
    return (emptied, some (← memcpy buf 0 q.data q.iBegin len, len))
  else do
    let len1 := n - q.iBegin
    let len2 := q.iEnd
    let buf ← memcpy buf 0 q.data q.iBegin len1
    let buf ← (if 0 < len2 then memcpy buf len1 q.data 0 len2 else some buf)
    return (emptied, some (buf, (len1 + len2) % 2 ^ 32))

/-- `m_tmpPtr`, and the offsets of `m_tmpIndex` and `m_tmpEnd`. -/
structure SideBuffer where
  tmpPtr : Bytes
  tmpIndex : Nat
  tmpEnd : Nat
deriving DecidableEq, Repr

/-- `side` is there if `m_singleRead`. -/
structure CLockBufferQueue where
  queue : CBufferQueue
  side : Option SideBuffer
deriving DecidableEq, Repr

namespace SideBuffer

/-- `m_tmpIndex = m_tmpEnd = m_tmpPtr`. -/
def reset (t : SideBuffer) : SideBuffer := { t with tmpIndex := 0, tmpEnd := 0 }

/-- `dequeueFromBuffer`; the result is `none` if it returns false. -/
def dequeueFromBuffer (t : SideBuffer) (buffersize1 buffersize2 : UInt32) :
    Option (SideBuffer × Option (Bytes × Bytes)) :=
  let leftlen := t.tmpEnd - t.tmpIndex
  if leftlen = 0 then some (t, none)
  else if leftlen < 8 then some (t.reset, none)
  else do
    let packetlen := getLen (← readAt t.tmpPtr t.tmpIndex 8)
    let tmpIndex := t.tmpIndex + 8
    if t.tmpEnd < tmpIndex + packetlen then return (t.reset, none)
    else if packetlen < buffersize1.toNat then return (t.reset, none)
    else
      let buffer1 ← readAt t.tmpPtr tmpIndex buffersize1.toNat
      let tmpIndex := tmpIndex + buffersize1.toNat
      if buffersize2.toNat < packetlen - buffersize1.toNat then return (t.reset, none)
      else
        let buffer2 ← readAt t.tmpPtr tmpIndex (packetlen - buffersize1.toNat)
        return ({ t with tmpIndex := tmpIndex + (packetlen - buffersize1.toNat) },
          some (buffer1, buffer2))

/-- The length of the next message in the side buffer. -/
def nextLen (t : SideBuffer) : Option Nat :=
  if t.tmpEnd - t.tmpIndex = 0 then none else (readAt t.tmpPtr t.tmpIndex 8).map getLen

end SideBuffer

inductive LockCall
  | enqueue (buffer : Bytes)
  | enqueue2 (buffer1 buffer2 : Bytes)
  /-- With `msec` zero. -/
  | dequeue (buffersize1 buffersize2 : UInt32)
deriving DecidableEq, Repr

inductive LockResult
  /-- `false` if `buffer_full` is thrown. -/
  | enqueued (ok : Bool)
  /-- The two buffers, filled to the sizes that are returned, or false. -/
  | dequeued (buffers : Option (Bytes × Bytes))
deriving DecidableEq, Repr

namespace CLockBufferQueue

/-- `init`, with the memory it gets. -/
def init (pBuf : Nat) (ptr tmpPtr : Bytes) (singleread : Bool) : Option CLockBufferQueue :=
  (CBufferQueue.create pBuf ptr).map fun queue =>
    ⟨queue, if singleread then some ⟨tmpPtr, 0, 0⟩ else none⟩

/-- `dequeueNoBuffer` catches what `dequeue` throws. -/
def dequeueNoBuffer (q : CBufferQueue) (buffersize1 buffersize2 : UInt32) :
    Option (CBufferQueue × Option (Bytes × Bytes)) :=
  if q.isEmpty then some (q, none)
  else
    (q.dequeue2 buffersize1 buffersize2).map fun
      | (q', .message m) => (q', some m)
      | (q', _) => (q', none)

/-- `getQueueDataToBuffer`. -/
def getQueueDataToBuffer (l : CLockBufferQueue) : Option CLockBufferQueue :=
  match l.side with
  | none => some l
  | some t =>
    (l.queue.getAllData t.tmpPtr).map fun
      | (_, none) => l
      | (queue, some (tmpPtr, buflen)) => ⟨queue, some ⟨tmpPtr, 0, buflen⟩⟩

/-- `dequeue` behind `dequeueFromBuffer`. -/
def dequeueRest (l : CLockBufferQueue) (buffersize1 buffersize2 : UInt32) :
    Option (CLockBufferQueue × Option (Bytes × Bytes)) := do
  match ← dequeueNoBuffer l.queue buffersize1 buffersize2 with
  | (queue, none) => return ({ l with queue }, none)
  | (queue, some m) =>
    let l ← ({ l with queue } : CLockBufferQueue).getQueueDataToBuffer
    return (l, some m)

def dequeue (l : CLockBufferQueue) (buffersize1 buffersize2 : UInt32) :
    Option (CLockBufferQueue × Option (Bytes × Bytes)) :=
  match l.side with
  | none => l.dequeueRest buffersize1 buffersize2
  | some t => do
    match ← t.dequeueFromBuffer buffersize1 buffersize2 with
    | (side, some m) => return ({ l with side := some side }, some m)
    | (side, none) =>
      ({ l with side := some side } : CLockBufferQueue).dequeueRest buffersize1 buffersize2

def call (l : CLockBufferQueue) : LockCall → Option (CLockBufferQueue × LockResult)
  | .enqueue buffer =>
    (l.queue.enqueue buffer).map fun (queue, ok) => ({ l with queue }, .enqueued ok)
  | .enqueue2 buffer1 buffer2 =>
    (l.queue.enqueue2 buffer1 buffer2).map fun (queue, ok) => ({ l with queue }, .enqueued ok)
  | .dequeue buffersize1 buffersize2 =>
    (l.dequeue buffersize1 buffersize2).map fun (l, m) => (l, .dequeued m)

end CLockBufferQueue

-- The side buffer

open CBufferQueue (encode encode_cons)

/-- Everything is moved, whether it goes around the end or not. -/
theorem CBufferQueue.getAllData_spec {q : CBufferQueue} {m : Bytes} {msgs : List Bytes}
    (h : q.Represents (m :: msgs)) {buf : Bytes} (hBuf : q.data.length ≤ buf.length)
    (hSize : q.data.length ≤ 2 ^ 32) :
    ∃ q' buf', q.getAllData buf = some (q', some (buf', (encode (m :: msgs)).length)) ∧
      q'.Represents [] ∧ q'.data.length = q.data.length ∧ buf'.length = buf.length ∧
      Holds buf' 0 (encode (m :: msgs)) := by
  obtain ⟨cs, hcs⟩ : ∃ cs, encode (m :: msgs) = cs := ⟨_, rfl⟩
  have hRing := h.ring
  have hReserve := h.reserve
  rw [hcs] at hRing hReserve ⊢
  have hBegin := hRing.begin_lt
  have hEndLt := hRing.end_lt
  have hLt := hRing.length_lt
  have hNotEmpty := h.isEmpty_cons
  have hNe : q.iBegin ≠ q.iEnd := by simpa [isEmpty] using hNotEmpty
  have hEmptied : Represents { q with iBegin := 0, iEnd := 0, iCount := 0 } [] :=
    ⟨.nil (Nat.lt_of_le_of_lt (Nat.zero_le _) hBegin), by simp; omega, by simp, by simp⟩
  have hNil : Holds buf 0 ([] : Bytes) := holds_nil
  unfold getAllData
  rw [if_neg (by rw [hNotEmpty]; exact Bool.false_ne_true)]
  -- one copy, or two when the messages go around the end
  by_cases hLinear : q.iBegin < q.iEnd
  · have hEnd := hRing.end_eq_of_lt hLinear
    have hLen : (q.iEnd - q.iBegin) % 2 ^ 32 = cs.length := by omega
    obtain ⟨buf', hCopy, hLength, hHolds, -⟩ := hNil.memcpy 0 q.data q.iBegin cs.length rfl
      (.inl rfl) (by omega) (by omega) (by simp; omega)
    rw [hRing.holds.slice_eq (o := 0) (q := q.iBegin) (.inl rfl) (by omega) (by omega),
      drop_zero, take_length, nil_append] at hHolds
    refine ⟨_, buf', ?_, hEmptied, rfl, hLength, hHolds⟩
    rw [if_pos hLinear]
    simp only [hLen, hCopy]
    rfl
  · have hEnd := hRing.end_eq_of_gt (by omega)
    have hLen : (q.data.length - q.iBegin + q.iEnd) % 2 ^ 32 = cs.length := by omega
    obtain ⟨buf₁, hCopy₁, hLength₁, hHolds₁, hm₁⟩ := hNil.memcpy 0 q.data q.iBegin
      (q.data.length - q.iBegin) rfl (.inl rfl) (by omega) (by omega) (by simp; omega)
    obtain ⟨buf₂, hCopy₂, hLength₂, hHolds₂, -⟩ := hHolds₁.memcpy (q.data.length - q.iBegin) q.data
      0 q.iEnd hm₁ (.inl (by simp)) (by omega) (by omega) (by simp; omega)
    have hSecond : (if 0 < q.iEnd then
        memcpy buf₁ (q.data.length - q.iBegin) q.data 0 q.iEnd else some buf₁) = some buf₂ := by
      split
      · exact hCopy₂
      · rw [← hCopy₂, show q.iEnd = 0 by omega, memcpy_zero (by omega) (by omega)]
    rw [hRing.holds.slice_eq (o := 0) (q := q.iBegin) (.inl rfl) (by omega) (by omega),
      hRing.holds.slice_eq (o := q.data.length - q.iBegin) (q := 0) (.inr (by omega)) (by omega)
        (by omega),
      drop_zero, nil_append, take_append_piece cs (by omega)] at hHolds₂
    refine ⟨_, buf₂, ?_, hEmptied, rfl, by omega, hHolds₂⟩
    rw [if_neg hLinear]
    simp only [hLen, hCopy₁, Option.bind_eq_bind, Option.bind_some, hSecond]
    rfl

namespace SideBuffer

variable {t : SideBuffer} {m : Bytes} {msgs : List Bytes}

/-- These messages are in the side buffer. -/
structure Serves (t : SideBuffer) (msgs : List Bytes) : Prop where
  holds : Holds t.tmpPtr t.tmpIndex (encode msgs)
  end_eq : t.tmpIndex + (encode msgs).length = t.tmpEnd
  end_le : t.tmpEnd ≤ t.tmpPtr.length

theorem Serves.readAt_len (h : t.Serves (m :: msgs)) :
    readAt t.tmpPtr t.tmpIndex 8 = some (setLen m.length) := by
  obtain ⟨hHolds, hEnd, hLe⟩ := h
  rw [encode_cons] at hHolds hEnd
  simp only [length_append, setLen_length] at hEnd
  rw [hHolds.readAt (o := 0) (q := t.tmpIndex) (.inl rfl) (by omega) (by simp), drop_zero,
    take_left' (setLen_length _)]

theorem Serves.nextLen_eq (h : t.Serves (m :: msgs)) (hShort : m.length < 2 ^ 32) :
    t.nextLen = some m.length := by
  have hRead := h.readAt_len
  have hEnd := h.end_eq
  simp only [encode_cons, length_append, setLen_length] at hEnd
  rw [nextLen, if_neg (by omega), hRead, Option.map_some, getLen_setLen (by omega)]

theorem dequeueFromBuffer_nil (h : t.Serves []) (buffersize1 buffersize2 : UInt32) :
    t.dequeueFromBuffer buffersize1 buffersize2 = some (t, none) := by
  have hEnd := h.end_eq
  simp only [CBufferQueue.encode_nil, length_nil] at hEnd
  rw [dequeueFromBuffer, if_pos (by omega)]

/-- A message that fills the first buffer and fits the second is cut where the first
buffer ends. -/
theorem dequeueFromBuffer_spec (h : t.Serves (m :: msgs)) (hShort : m.length < 2 ^ 32)
    {buffersize1 buffersize2 : UInt32} (hFirst : buffersize1.toNat ≤ m.length)
    (hSecond : m.length ≤ buffersize1.toNat + buffersize2.toNat) :
    ∃ t', t.dequeueFromBuffer buffersize1 buffersize2 =
        some (t', some (m.take buffersize1.toNat, m.drop buffersize1.toNat)) ∧
      t'.Serves msgs ∧ t'.tmpPtr = t.tmpPtr := by
  have hRead := h.readAt_len
  have hLen := getLen_setLen (show m.length < 2 ^ 64 by omega)
  obtain ⟨hHolds, hEnd, hLe⟩ := h
  rw [encode_cons] at hHolds hEnd
  simp only [length_append, setLen_length] at hEnd
  have hRest : Holds t.tmpPtr (t.tmpIndex + 8) (m ++ encode msgs) :=
    hHolds.right (.inl (by rw [setLen_length]))
  have hOne := hRest.left.readAt (o := 0) (q := t.tmpIndex + 8) (k := buffersize1.toNat) (.inl rfl)
    (by omega) (by omega)
  have hTwo := hRest.left.readAt (o := buffersize1.toNat)
    (q := t.tmpIndex + 8 + buffersize1.toNat) (k := m.length - buffersize1.toNat) (.inl rfl)
    (by omega) (by omega)
  rw [drop_zero] at hOne
  rw [take_of_length_le (by rw [length_drop])] at hTwo
  refine ⟨{ t with tmpIndex := t.tmpIndex + 8 + buffersize1.toNat +
    (m.length - buffersize1.toNat) }, ?_, ⟨?_, ?_, hLe⟩, rfl⟩
  · unfold dequeueFromBuffer
    rw [if_neg (by omega), if_neg (by omega)]
    simp [hRead, hLen, hOne, hTwo, show ¬ t.tmpEnd < t.tmpIndex + 8 + m.length by omega,
      show ¬ m.length < buffersize1.toNat by omega,
      show ¬ buffersize2.toNat < m.length - buffersize1.toNat by omega]
  · exact hRest.right (.inl (by simp only; omega))
  · simp only
    omega

end SideBuffer

-- The two kinds of queue

namespace CLockBufferQueue

variable {q : CBufferQueue} {msgs : List Bytes} {m : Bytes} {l : CLockBufferQueue}

/-- What the queue returns of its first message, if anything. -/
theorem dequeueNoBuffer_spec (h : q.Represents (m :: msgs)) (buffersize1 buffersize2 : UInt32) :
    ∃ q', dequeueNoBuffer q buffersize1 buffersize2 =
        some (q', if (buffersize1 + buffersize2).toNat < m.length then none
          else some (m.take buffersize1.toNat, m.drop buffersize1.toNat)) ∧
      q'.Represents msgs ∧ q'.data.length = q.data.length := by
  obtain ⟨q', hDequeue, hRep, -, hLength⟩ :=
    CBufferQueue.dequeue2_spec h buffersize1 buffersize2
  have hNotEmpty := h.isEmpty_cons
  refine ⟨q', ?_, hRep, hLength⟩
  rw [dequeueNoBuffer, if_neg (by rw [hNotEmpty]; exact Bool.false_ne_true), hDequeue]
  split <;> rfl

theorem dequeueNoBuffer_nil (h : q.Represents []) (buffersize1 buffersize2 : UInt32) :
    dequeueNoBuffer q buffersize1 buffersize2 = some (q, none) := by
  rw [dequeueNoBuffer, if_pos (h.isEmpty_iff.mpr rfl)]

/-- Without a side buffer that is all. -/
theorem dequeue_of_plain (hSide : l.side = none) (h : l.queue.Represents (m :: msgs))
    (buffersize1 buffersize2 : UInt32) :
    ∃ q', l.dequeue buffersize1 buffersize2 =
        some (⟨q', none⟩, if (buffersize1 + buffersize2).toNat < m.length then none
          else some (m.take buffersize1.toNat, m.drop buffersize1.toNat)) ∧
      q'.Represents msgs := by
  obtain ⟨q', hTook, hRep, -⟩ := dequeueNoBuffer_spec h buffersize1 buffersize2
  refine ⟨q', ?_, hRep⟩
  by_cases hLong : (buffersize1 + buffersize2).toNat < m.length
  · rw [if_pos hLong] at hTook ⊢
    simp [dequeue, hSide, dequeueRest, hTook]
  · rw [if_neg hLong] at hTook ⊢
    simp [dequeue, hSide, dequeueRest, hTook, getQueueDataToBuffer]

theorem dequeue_of_plain_nil (hSide : l.side = none) (h : l.queue.Represents [])
    (buffersize1 buffersize2 : UInt32) : l.dequeue buffersize1 buffersize2 = some (l, none) := by
  obtain ⟨q, side⟩ := l
  obtain rfl : side = none := hSide
  simp [dequeue, dequeueRest, dequeueNoBuffer_nil h]

/-- Everything in the queue is in the side buffer then. -/
theorem getQueueDataToBuffer_spec {t : SideBuffer} (hServes : t.Serves []) (h : q.Represents msgs)
    (hRoom : q.data.length ≤ t.tmpPtr.length) (hSize : q.data.length ≤ 2 ^ 32) :
    ∃ q' t', getQueueDataToBuffer ⟨q, some t⟩ = some ⟨q', some t'⟩ ∧ q'.Represents [] ∧
      t'.Serves msgs ∧ q'.data.length = q.data.length ∧ t'.tmpPtr.length = t.tmpPtr.length := by
  cases msgs with
  | nil =>
    refine ⟨q, t, ?_, h, hServes, rfl, rfl⟩
    simp [getQueueDataToBuffer, CBufferQueue.getAllData, h.isEmpty_iff.mpr rfl]
  | cons m msgs =>
    obtain ⟨q', tmpPtr, hGet, hRep, hLength, hPtr, hHolds⟩ :=
      CBufferQueue.getAllData_spec h hRoom hSize
    have hLt := h.ring.length_lt
    have hMoved : getQueueDataToBuffer ⟨q, some t⟩ =
        some ⟨q', some ⟨tmpPtr, 0, (encode (m :: msgs)).length⟩⟩ := by
      simp only [getQueueDataToBuffer, hGet, Option.map_some]
    have hServes' : SideBuffer.Serves ⟨tmpPtr, 0, (encode (m :: msgs)).length⟩ (m :: msgs) := by
      refine ⟨hHolds, ?_, ?_⟩
      · simp only [Nat.zero_add]
      · simp only
        omega
    exact ⟨q', _, hMoved, hRep, hServes', hLength, hPtr⟩

end CLockBufferQueue

/-- A queue without and a queue with `singleread`, and what they have returned. -/
structure LockPair where
  plain : CLockBufferQueue
  single : CLockBufferQueue
  plainResults : List LockResult
  singleResults : List LockResult
deriving DecidableEq, Repr

namespace LockPair

/-- The queues after a call, and what they return. -/
def record (p : LockPair) (plain single : CLockBufferQueue) (r r' : LockResult) : LockPair :=
  ⟨plain, single, p.plainResults ++ [r], p.singleResults ++ [r']⟩

/-- The same call to both. -/
def step (p : LockPair) (c : LockCall) : Option LockPair := do
  let (plain, r) ← p.plain.call c
  let (single, r') ← p.single.call c
  return p.record plain single r r'

/-- Neither queue is full. -/
def NotRefused (p : LockPair) : LockCall → Prop
  | .enqueue buffer =>
    p.plain.queue.isFull buffer.length = some false ∧
      p.single.queue.isFull buffer.length = some false
  | .enqueue2 buffer1 buffer2 =>
    p.plain.queue.isFull ((buffer1.length + buffer2.length) % 2 ^ 32) = some false ∧
      p.single.queue.isFull ((buffer1.length + buffer2.length) % 2 ^ 32) = some false
  | .dequeue _ _ => True

/-- The parts of a message have a 32-bit length, and the next message in the side buffer
fills the first buffer and fits the two. -/
def Fitting (p : LockPair) : LockCall → Prop
  | .enqueue buffer => buffer.length < 2 ^ 32
  | .enqueue2 buffer1 buffer2 => buffer1.length + buffer2.length < 2 ^ 32
  | .dequeue buffersize1 buffersize2 =>
    ∀ t ∈ p.single.side, ∀ len ∈ t.nextLen, buffersize1.toNat ≤ len ∧
      len ≤ buffersize1.toNat + buffersize2.toNat ∧
      buffersize1.toNat + buffersize2.toNat < 2 ^ 32

instance (p : LockPair) (c : LockCall) : Decidable (p.NotRefused c) := by
  cases c <;> unfold NotRefused <;> infer_instance

instance (p : LockPair) (c : LockCall) : Decidable (p.Fitting c) := by
  cases c <;> unfold Fitting <;> infer_instance

/-- What one queue holds is in the side buffer of the other, and behind that in its
queue. -/
structure Alike (p : LockPair) (t : SideBuffer) (side msgs : List Bytes) : Prop where
  plain_side : p.plain.side = none
  single_side : p.single.side = some t
  serves : t.Serves side
  plain : p.plain.queue.Represents (side ++ msgs)
  single : p.single.queue.Represents msgs
  room : p.single.queue.data.length ≤ t.tmpPtr.length
  size : p.single.queue.data.length ≤ 2 ^ 32
  results : p.plainResults = p.singleResults

/-- A dequeue returns the same from both, and they stay alike. -/
def DequeuesAlike (p : LockPair) (buffersize1 buffersize2 : UInt32) : Prop :=
  ∃ (plain single : CLockBufferQueue) (r : Option (Bytes × Bytes)) (t : SideBuffer)
    (side msgs : List Bytes),
    p.plain.dequeue buffersize1 buffersize2 = some (plain, r) ∧
    p.single.dequeue buffersize1 buffersize2 = some (single, r) ∧
    (p.record plain single (.dequeued r) (.dequeued r)).Alike t side msgs

variable {p : LockPair} {t : SideBuffer} {side msgs : List Bytes}

theorem Alike.record_results (h : p.Alike t side msgs) (plain single : CLockBufferQueue)
    (r : LockResult) :
    (p.record plain single r r).plainResults = (p.record plain single r r).singleResults :=
  congrArg (· ++ [r]) h.results

/-- A message goes into both queues. -/
theorem Alike.enqueue (h : p.Alike t side msgs) (buffer1 buffer2 : Bytes) {len : Nat}
    (hLen : len = buffer1.length + buffer2.length) (hShort : len < 2 ^ 32)
    (hPlain : p.plain.queue.isFull len = some false)
    (hSingle : p.single.queue.isFull len = some false) :
    ∃ (q q' : CBufferQueue) (msgs' : List Bytes),
      p.plain.queue.enqueueParts len buffer1 buffer2 = some (q, true) ∧
      p.single.queue.enqueueParts len buffer1 buffer2 = some (q', true) ∧
      (p.record ⟨q, none⟩ ⟨q', some t⟩ (.enqueued true) (.enqueued true)).Alike t side msgs' := by
  by_cases hZero : len = 0
  · refine ⟨p.plain.queue, p.single.queue, msgs, if_pos hZero, if_pos hZero, ?_⟩
    exact ⟨rfl, rfl, h.serves, h.plain, h.single, h.room, h.size, h.record_results _ _ _⟩
  · have hPos : 0 < len := Nat.pos_of_ne_zero hZero
    rcases CBufferQueue.enqueueParts_spec h.plain buffer1 buffer2 hLen hPos hShort with
      ⟨hFull, -⟩ | ⟨-, q, hStored, hRep, -, -⟩
    · rw [hPlain] at hFull
      cases hFull
    rcases CBufferQueue.enqueueParts_spec h.single buffer1 buffer2 hLen hPos hShort with
      ⟨hFull, -⟩ | ⟨-, q', hStored', hRep', -, hLength⟩
    · rw [hSingle] at hFull
      cases hFull
    refine ⟨q, q', msgs ++ [buffer1 ++ buffer2], hStored, hStored', ?_⟩
    rw [append_assoc] at hRep
    exact ⟨rfl, rfl, h.serves, hRep, hRep', hLength.trans_le h.room, hLength.trans_le h.size,
      h.record_results _ _ _⟩

/-- A message from the side buffer of one is the first in the queue of the other. -/
theorem Alike.dequeue_side {m : Bytes} (h : p.Alike t (m :: side) msgs)
    {buffersize1 buffersize2 : UInt32} (hFirst : buffersize1.toNat ≤ m.length)
    (hSecond : m.length ≤ buffersize1.toNat + buffersize2.toNat)
    (hSum : buffersize1.toNat + buffersize2.toNat < 2 ^ 32) :
    p.DequeuesAlike buffersize1 buffersize2 := by
  have hShort := h.plain.short m (by simp)
  obtain ⟨t', hFrom, hServes, hPtr⟩ :=
    SideBuffer.dequeueFromBuffer_spec h.serves hShort hFirst hSecond
  obtain ⟨q, hPlain, hRep⟩ :=
    CLockBufferQueue.dequeue_of_plain h.plain_side h.plain buffersize1 buffersize2
  rw [if_neg (by rw [UInt32.toNat_add, Nat.mod_eq_of_lt hSum]; omega)] at hPlain
  have hSingle : p.single.dequeue buffersize1 buffersize2 =
      some (⟨p.single.queue, some t'⟩,
        some (m.take buffersize1.toNat, m.drop buffersize1.toNat)) := by
    simp [CLockBufferQueue.dequeue, h.single_side, hFrom]
  have hRoom : p.single.queue.data.length ≤ t'.tmpPtr.length := by
    rw [hPtr]
    exact h.room
  exact ⟨⟨q, none⟩, _, _, t', side, msgs, hPlain, hSingle,
    ⟨rfl, rfl, hServes, hRep, h.single, hRoom, h.size, h.record_results _ _ _⟩⟩

/-- With nothing in the side buffer both take the first message of their queue, and one
moves the rest. -/
theorem Alike.dequeue_queue (h : p.Alike t [] msgs) (buffersize1 buffersize2 : UInt32) :
    p.DequeuesAlike buffersize1 buffersize2 := by
  have hRepPlain := h.plain
  rw [nil_append] at hRepPlain
  have hRest : p.single.dequeue buffersize1 buffersize2 =
      CLockBufferQueue.dequeueRest ⟨p.single.queue, some t⟩ buffersize1 buffersize2 := by
    simp [CLockBufferQueue.dequeue, h.single_side, SideBuffer.dequeueFromBuffer_nil h.serves]
  cases msgs with
  | nil =>
    have hPlain := CLockBufferQueue.dequeue_of_plain_nil h.plain_side hRepPlain
      buffersize1 buffersize2
    have hSingle : p.single.dequeue buffersize1 buffersize2 =
        some (⟨p.single.queue, some t⟩, none) := by
      simp [hRest, CLockBufferQueue.dequeueRest, CLockBufferQueue.dequeueNoBuffer_nil h.single]
    exact ⟨p.plain, _, none, t, [], [], hPlain, hSingle,
      ⟨h.plain_side, rfl, h.serves, hRepPlain, h.single, h.room, h.size, h.record_results _ _ _⟩⟩
  | cons m msgs =>
    obtain ⟨q, hPlain, hRep⟩ :=
      CLockBufferQueue.dequeue_of_plain h.plain_side hRepPlain buffersize1 buffersize2
    obtain ⟨q', hTook, hRep', hLength⟩ :=
      CLockBufferQueue.dequeueNoBuffer_spec h.single buffersize1 buffersize2
    have hRoom : q'.data.length ≤ t.tmpPtr.length := hLength.trans_le h.room
    have hSize : q'.data.length ≤ 2 ^ 32 := hLength.trans_le h.size
    -- a message that is too long is lost in both queues
    by_cases hLong : (buffersize1 + buffersize2).toNat < m.length
    · rw [if_pos hLong] at hPlain hTook
      have hSingle : p.single.dequeue buffersize1 buffersize2 = some (⟨q', some t⟩, none) := by
        simp [hRest, CLockBufferQueue.dequeueRest, hTook]
      exact ⟨⟨q, none⟩, _, none, t, [], msgs, hPlain, hSingle,
        ⟨rfl, rfl, h.serves, hRep, hRep', hRoom, hSize, h.record_results _ _ _⟩⟩
    · rw [if_neg hLong] at hPlain hTook
      obtain ⟨q₂, t', hMoved, hEmpty, hServes, hLength₂, hPtr⟩ :=
        CLockBufferQueue.getQueueDataToBuffer_spec h.serves hRep' hRoom hSize
      have hSingle : p.single.dequeue buffersize1 buffersize2 =
          some (⟨q₂, some t'⟩,
            some (m.take buffersize1.toNat, m.drop buffersize1.toNat)) := by
        simp [hRest, CLockBufferQueue.dequeueRest, hTook, hMoved]
      have hRoom' : q₂.data.length ≤ t'.tmpPtr.length := by omega
      rw [← append_nil msgs] at hRep
      exact ⟨⟨q, none⟩, _, _, t', msgs, [], hPlain, hSingle,
        ⟨rfl, rfl, hServes, hRep, hEmpty, hRoom', hLength₂.trans_le hSize,
          h.record_results _ _ _⟩⟩

/-- The two kinds of queue return the same results, as long as every message in the side buffer
fills the first buffer and fits the second. -/
theorem step_alike {c : LockCall} (hRefused : p.NotRefused c) (hFit : p.Fitting c)
    (h : p.Alike t side msgs) :
    ∃ p', p.step c = some p' ∧ ∃ t' side' msgs', p'.Alike t' side' msgs' := by
  cases c with
  | enqueue buffer =>
    obtain ⟨q, q', msgs', hPlain, hSingle, hAlike⟩ :=
      h.enqueue buffer [] (show buffer.length = _ from rfl) hFit hRefused.1 hRefused.2
    refine ⟨_, ?_, t, side, msgs', hAlike⟩
    simp [step, CLockBufferQueue.call, CBufferQueue.enqueue, hPlain, hSingle, h.plain_side,
      h.single_side]
  | enqueue2 buffer1 buffer2 =>
    obtain ⟨hFull, hFull'⟩ := hRefused
    have hMod := Nat.mod_eq_of_lt hFit
    rw [hMod] at hFull hFull'
    obtain ⟨q, q', msgs', hPlain, hSingle, hAlike⟩ :=
      h.enqueue buffer1 buffer2 rfl hFit hFull hFull'
    refine ⟨_, ?_, t, side, msgs', hAlike⟩
    simp only [step, CLockBufferQueue.call, CBufferQueue.enqueue2, hMod, hPlain, hSingle,
      h.plain_side, h.single_side, Option.map_some, Option.bind_eq_bind, Option.bind_some]
    rfl
  | dequeue buffersize1 buffersize2 =>
    have hDequeue : p.DequeuesAlike buffersize1 buffersize2 := by
      cases side with
      | nil => exact h.dequeue_queue buffersize1 buffersize2
      | cons m side =>
        have hNext := h.serves.nextLen_eq (h.plain.short m (by simp))
        obtain ⟨hFirst, hSecond, hSum⟩ := hFit t h.single_side m.length hNext
        exact h.dequeue_side hFirst hSecond hSum
    obtain ⟨plain, single, r, t', side', msgs', hPlain, hSingle, hAlike⟩ := hDequeue
    refine ⟨_, ?_, t', side', msgs', hAlike⟩
    simp [step, CLockBufferQueue.call, hPlain, hSingle]

variable {pBuf pBuf' : Nat} {ptr ptr' tmpPtr : Bytes} {plain single : CLockBufferQueue}

theorem init_alike (hPlain : CLockBufferQueue.init pBuf ptr [] false = some plain)
    (hSingle : CLockBufferQueue.init pBuf' ptr' tmpPtr true = some single)
    (hPtr : ptr'.length = tmpPtr.length) (hSize : ptr'.length ≤ 2 ^ 32) :
    Alike ⟨plain, single, [], []⟩ ⟨tmpPtr, 0, 0⟩ [] [] := by
  obtain ⟨q, hCreate, rfl⟩ := Option.map_eq_some_iff.mp hPlain
  obtain ⟨q', hCreate', rfl⟩ := Option.map_eq_some_iff.mp hSingle
  have hRep := (CBufferQueue.create_represents hCreate).1
  have hRep' := (CBufferQueue.create_represents hCreate').1
  have hLength : q'.data.length ≤ ptr'.length := CBufferQueue.create_length_le hCreate'
  exact ⟨rfl, rfl, ⟨holds_nil, rfl, Nat.zero_le _⟩, hRep, hRep', by simp only; omega,
    by simp only; omega, rfl⟩

/-- As long as no queue is full, the parts of a message have a 32-bit length, and every
message in the side buffer fills the first buffer and fits the two, a queue of at most
2^32 bytes with `singleread` returns what one without it returns. -/
theorem singleread_alike (hPlain : CLockBufferQueue.init pBuf ptr [] false = some plain)
    (hSingle : CLockBufferQueue.init pBuf' ptr' tmpPtr true = some single)
    (hPtr : ptr'.length = tmpPtr.length) (hSize : ptr'.length ≤ 2 ^ 32) {calls : List LockCall}
    (hCalls : Along step (fun p c => p.NotRefused c ∧ p.Fitting c) ⟨plain, single, [], []⟩
      calls) :
    ∃ p, run step ⟨plain, single, [], []⟩ calls = some p ∧
      p.plainResults = p.singleResults := by
  have hStep : ∀ (p : LockPair) c, p.NotRefused c ∧ p.Fitting c →
      (∃ t side msgs, p.Alike t side msgs) →
      ∃ p', p.step c = some p' ∧ ∃ t side msgs, p'.Alike t side msgs := by
    rintro p c ⟨hRefused, hFit⟩ ⟨t, side, msgs, h⟩
    exact step_alike hRefused hFit h
  obtain ⟨p, hRun, t, side, msgs, h⟩ :=
    run_total hStep ⟨_, _, _, init_alike hPlain hSingle hPtr hSize⟩ hCalls
  exact ⟨p, hRun, h.results⟩

/-- Two messages, of which one goes through the side buffer. -/
theorem singleread_alike_two :
    ∃ plain single,
      CLockBufferQueue.init 0 (List.replicate 80 0) [] false = some plain ∧
      CLockBufferQueue.init 0 (List.replicate 80 0) (List.replicate 80 0) true = some single ∧
      ∃ p, run step ⟨plain, single, [], []⟩
          [.enqueue [1], .enqueue2 [2] [3], .dequeue 1 8, .dequeue 1 1, .dequeue 1 1] = some p ∧
        p.plainResults = p.singleResults :=
  ⟨_, _, rfl, rfl,
    singleread_alike
      (show CLockBufferQueue.init 0 (List.replicate 80 0) [] false = some _ from rfl)
      (show CLockBufferQueue.init 0 (List.replicate 80 0) (List.replicate 80 0) true =
        some _ from rfl)
      rfl (by decide) (by decide)⟩

/-- The second message has one byte, and the first buffer four: the queue returns it, the
side buffer forgets it. -/
theorem short_message_lost :
    ∃ plain single,
      CLockBufferQueue.init 0 (List.replicate 80 0) [] false = some plain ∧
      CLockBufferQueue.init 0 (List.replicate 80 0) (List.replicate 80 0) true = some single ∧
      Along step NotRefused ⟨plain, single, [], []⟩
        [.enqueue [1], .enqueue [2], .dequeue 1 8, .dequeue 4 8] ∧
      ∃ p, run step ⟨plain, single, [], []⟩
          [.enqueue [1], .enqueue [2], .dequeue 1 8, .dequeue 4 8] = some p ∧
        p.plainResults = [.enqueued true, .enqueued true, .dequeued (some ([1], [])),
          .dequeued (some ([2], []))] ∧
        p.singleResults = [.enqueued true, .enqueued true, .dequeued (some ([1], [])),
          .dequeued none] :=
  ⟨_, _, rfl, rfl, by decide, run_reaches (by decide)⟩

end LockPair

end MyBase
