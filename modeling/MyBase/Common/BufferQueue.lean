import MyBase.Common.Circle
import MyBase.Lib.Run

/-!
# MyBase — `BufferQueue` as a FIFO queue

A queue of messages of one part and of two parts, told apart by two bits of the length
field. There is no reserve between the end and the beginning: a queue whose end has come
around to its beginning is empty. `tryEnqueueFull` lets a message in that fills the rest
of the buffer, and, if the queue is empty, one for which there is no room for the
length field.

Main results:

* `fifo_of_leavesRoom` — every sequence of calls, as long as no message fills the
  buffer;
* `filled_queue_forgets` — a message of 8 bytes is lost in a buffer of 16, and one of 5
  is written behind a buffer of 5.
-/

namespace MyBase

open Lib List

-- The queue

inductive QueueMessage
  | one (data : Bytes)
  | two (hdr data : Bytes)
deriving DecidableEq, Repr

/-- `totalBufSize` is the length of `circleBuf`. -/
structure BufferQueue where
  startPos : Nat
  endPos : Nat
  eleNumber : UInt64
  circleBuf : Bytes
deriving DecidableEq, Repr

namespace BufferQueue

/-- After `initialize`: memory as it comes, and `eleNumber` as the constructor leaves it. -/
def init (eleNumber : UInt64) (circleBuf : Bytes) : BufferQueue :=
  ⟨0, 0, eleNumber, circleBuf⟩

def isEmpty (q : BufferQueue) : Bool := q.startPos == q.endPos

def size (q : BufferQueue) : Nat :=
  if q.startPos ≤ q.endPos then q.endPos - q.startPos
  else q.circleBuf.length - (q.startPos - q.endPos)

def tryEnqueueFull (q : BufferQueue) (len : Nat) : Bool :=
  if len = 0 then false
  else if q.endPos = q.startPos then decide (q.circleBuf.length < len)
  else if q.startPos < q.endPos then
    decide (q.circleBuf.length - q.endPos + q.startPos < 8 + len)
  else decide (q.startPos - q.endPos < 8 + len)

/-- The length field of two parts: `2 | 30 | 32` bits. -/
def encodedLen (len1 len2 : Nat) : Nat := 2 ^ 62 ||| len1 * 2 ^ 32 % 2 ^ 64 ||| len2

/-- The upper two bits. -/
def messageType (u : Nat) : Nat := u / 2 ^ 62 % 4

/-- The length of a message of one part. -/
def sizeOne (u : Nat) : Option Nat := if messageType u ≠ 0 then none else some (u % 2 ^ 62)

def firstLen (u : Nat) : Nat := u / 2 ^ 32 % 2 ^ 30

def secondLen (u : Nat) : Nat := u % 2 ^ 32

/-- The length of a message of two parts. -/
def sizeTwo (u : Nat) : Option Nat :=
  if messageType u ≠ 1 then none else some (firstLen u + secondLen u)

/-- Both forms of `enqueue`, with what they write to the length field. -/
def enqueueParts (q : BufferQueue) (field len : Nat) (buf1 buf2 : Bytes) :
    Option (BufferQueue × Bool) :=
  if len = 0 then some (q, false)
  else if q.tryEnqueueFull len then some (q, false)
  else do
    let (circleBuf, endPos) ←
      Circle.store 0 q.startPos q.endPos (setLen field) len buf1 buf2 q.circleBuf
    return ({ q with endPos, circleBuf, eleNumber := q.eleNumber + 1 }, true)

def enqueue (q : BufferQueue) (buf : Bytes) : Option (BufferQueue × Bool) :=
  q.enqueueParts buf.length buf.length buf []

def enqueue2 (q : BufferQueue) (buf1 buf2 : Bytes) : Option (BufferQueue × Bool) :=
  q.enqueueParts (encodedLen buf1.length buf2.length) (buf1.length + buf2.length) buf1 buf2

/-- `if(eleNumber != 0) eleNumber--`. -/
def decNumber (eleNumber : UInt64) : UInt64 :=
  if eleNumber ≠ 0 then eleNumber - 1 else eleNumber

/-- All forms of `dequeue`; `none` if they return false. -/
def dequeueWith {β : Type} (q : BufferQueue) (checked : Bool) (size : Nat → Option Nat)
    (copy : Circle.Located → Option β) : Option (BufferQueue × Option β) :=
  if q.isEmpty then some (q, none)
  else do
    match ← Circle.locate 0 checked q.startPos q.endPos q.circleBuf size with
    | none => return (q, none)
    | some l =>
      return ({ q with startPos := l.newBegin, eleNumber := decNumber q.eleNumber },
        some (← copy l))

def dequeue (q : BufferQueue) : Option (BufferQueue × Option Bytes) :=
  q.dequeueWith false sizeOne (Circle.copyOne q.circleBuf)

def dequeue2 (q : BufferQueue) : Option (BufferQueue × Option (Bytes × Bytes)) :=
  q.dequeueWith true sizeTwo fun l => Circle.copyTwo q.circleBuf l (firstLen l.encodedLen)

end BufferQueue

-- Length fields

namespace QueueMessage

open BufferQueue

def field : QueueMessage → Nat
  | one data => data.length
  | two hdr data => encodedLen hdr.length data.length

def body : QueueMessage → Bytes
  | one data => data
  | two hdr data => hdr ++ data

/-- Not empty, and in parts below 2^30. -/
def Good : QueueMessage → Prop
  | one data => data ≠ [] ∧ data.length < 2 ^ 30
  | two hdr data => hdr ++ data ≠ [] ∧ hdr.length < 2 ^ 30 ∧ data.length < 2 ^ 30

end QueueMessage

namespace BufferQueue

/-- The length field of two parts, as long as they are below 2^30. -/
theorem encodedLen_eq {len1 len2 : Nat} (h₁ : len1 < 2 ^ 30) (h₂ : len2 < 2 ^ 30) :
    encodedLen len1 len2 = 2 ^ 62 + len1 * 2 ^ 32 + len2 := by
  have hMod : len1 * 2 ^ 32 % 2 ^ 64 = len1 * 2 ^ 32 := Nat.mod_eq_of_lt (by omega)
  have hHigh : 2 ^ 62 ||| len1 * 2 ^ 32 = 2 ^ 62 + len1 * 2 ^ 32 := by
    have hOr := Nat.two_pow_add_eq_or_of_lt (i := 62) (b := len1 * 2 ^ 32) (by omega) 1
    rw [Nat.mul_one] at hOr
    exact hOr.symm
  have hLow : (2 ^ 62 + len1 * 2 ^ 32) ||| len2 = 2 ^ 62 + len1 * 2 ^ 32 + len2 := by
    have hOr := Nat.two_pow_add_eq_or_of_lt (i := 32) (b := len2) (by omega) (2 ^ 30 + len1)
    rw [show 2 ^ 32 * (2 ^ 30 + len1) = 2 ^ 62 + len1 * 2 ^ 32 by omega] at hOr
    exact hOr.symm
  rw [encodedLen, hMod, hHigh, hLow]

variable {m : QueueMessage}

theorem field_lt (h : m.Good) : m.field < 2 ^ 64 := by
  cases m with
  | one data =>
    have hLen := h.2
    simp only [QueueMessage.field]
    omega
  | two hdr data =>
    have hFirst := h.2.1
    have hSecond := h.2.2
    simp only [QueueMessage.field, encodedLen_eq hFirst hSecond]
    omega

theorem body_ne_nil (h : m.Good) : m.body ≠ [] := by
  cases m with
  | one data => exact h.1
  | two hdr data => exact h.1

variable {data hdr : Bytes} {m : QueueMessage} {β : Type} {checked : Bool} {size : Nat → Option Nat}

/-- The field of a message of one part, as both forms of `dequeue` read it. -/
theorem size_one (h : QueueMessage.Good (.one data)) :
    sizeOne data.length = some data.length ∧ sizeTwo data.length = none := by
  have hLen := h.2
  have hType : messageType data.length = 0 := by
    unfold messageType
    omega
  simp only [sizeOne, sizeTwo, hType]
  simp
  omega

/-- The length field of two parts is told apart and gives both lengths back. -/
theorem size_two (h : QueueMessage.Good (.two hdr data)) :
    sizeOne (encodedLen hdr.length data.length) = none ∧
      sizeTwo (encodedLen hdr.length data.length) = some (hdr.length + data.length) ∧
      firstLen (encodedLen hdr.length data.length) = hdr.length := by
  obtain ⟨-, hFirst, hSecond⟩ := h
  have hField := encodedLen_eq hFirst hSecond
  generalize encodedLen hdr.length data.length = u at hField ⊢
  have hType : messageType u = 1 := by
    unfold messageType
    omega
  have hFirstLen : firstLen u = hdr.length := by
    unfold firstLen
    omega
  have hSecondLen : secondLen u = data.length := by
    unfold secondLen
    omega
  simp [sizeOne, sizeTwo, hType, hFirstLen, hSecondLen]

-- The messages it stands for

/-- Messages behind their length fields. -/
def encode (msgs : List QueueMessage) : Bytes := msgs.flatMap fun m => setLen m.field ++ m.body

@[simp] theorem encode_nil : encode [] = [] := rfl

theorem encode_cons (m : QueueMessage) (msgs : List QueueMessage) :
    encode (m :: msgs) = setLen m.field ++ (m.body ++ encode msgs) := by
  simp [encode]

theorem encode_append_singleton (msgs : List QueueMessage) (m : QueueMessage) :
    encode (msgs ++ [m]) = encode msgs ++ (setLen m.field ++ m.body) := by
  simp [encode]

/-- The queue holds these messages. -/
structure Represents (q : BufferQueue) (msgs : List QueueMessage) : Prop where
  good : ∀ m ∈ msgs, m.Good
  ring : q.circleBuf ≠ [] → Ring q.circleBuf q.startPos q.endPos (encode msgs)
  /-- Without a buffer. -/
  unallocated : q.circleBuf = [] → msgs = [] ∧ q.startPos = q.endPos

variable {q : BufferQueue} {msgs : List QueueMessage}

theorem init_represents (eleNumber : UInt64) (circleBuf : Bytes) :
    (init eleNumber circleBuf).Represents [] :=
  ⟨by simp, fun h => .nil (length_pos_iff.mpr h), fun _ => ⟨rfl, rfl⟩⟩

theorem Represents.isEmpty_iff (h : q.Represents msgs) : q.isEmpty = true ↔ msgs = [] := by
  rw [isEmpty, beq_iff_eq]
  by_cases hBuf : q.circleBuf = []
  · obtain ⟨hMsgs, hEq⟩ := h.unallocated hBuf
    exact iff_of_true hEq hMsgs
  · rw [(h.ring hBuf).eq_iff]
    cases msgs with
    | nil => simp
    | cons m msgs => simp [encode_cons, ne_nil_of_length_pos]

theorem Represents.isEmpty_cons (h : q.Represents (m :: msgs)) : q.isEmpty = false := by
  have hIff := h.isEmpty_iff
  simpa using hIff

theorem Represents.size_eq (h : q.Represents msgs) : q.size = (encode msgs).length := by
  unfold size
  by_cases hBuf : q.circleBuf = []
  · obtain ⟨rfl, hEq⟩ := h.unallocated hBuf
    simp [hEq]
  · have hRing := h.ring hBuf
    have hEnd := hRing.end_eq
    have hBegin := hRing.begin_lt
    have hLt := hRing.length_lt
    have hEndLt := hRing.end_lt
    split <;> omega

/-- A message that fits exactly, or one that an empty queue has no room for together
with its length field. -/
def Fills (q : BufferQueue) (len : Nat) : Prop :=
  if q.size = 0 then len ≤ q.circleBuf.length ∧ q.circleBuf.length ≤ 8 + len
  else q.size + 8 + len = q.circleBuf.length

instance (q : BufferQueue) (len : Nat) : Decidable (q.Fills len) := by
  unfold Fills
  infer_instance

/-- What is let in has room, unless it fills the buffer. -/
theorem Represents.room (h : q.Represents msgs) {len : Nat} (hLen : 0 < len)
    (hFills : ¬ q.Fills len) (hFull : q.tryEnqueueFull len = false) :
    q.circleBuf ≠ [] ∧ (encode msgs).length + 8 + len < q.circleBuf.length := by
  have hBuf : q.circleBuf ≠ [] := by
    intro hBuf
    obtain ⟨-, hEq⟩ := h.unallocated hBuf
    simp [tryEnqueueFull, hEq, hBuf, show len ≠ 0 by omega] at hFull
  refine ⟨hBuf, ?_⟩
  have hRing := h.ring hBuf
  have hEnd := hRing.end_eq
  have hBegin := hRing.begin_lt
  have hEndLt := hRing.end_lt
  have hLt := hRing.length_lt
  rw [Fills, h.size_eq] at hFills
  unfold tryEnqueueFull at hFull
  rw [if_neg (by omega)] at hFull
  split at hFull
  next hEq =>
    rw [if_pos (by omega)] at hFills
    simp only [decide_eq_false_iff_not] at hFull
    omega
  next hNe =>
    rw [if_neg (by omega)] at hFills
    split at hFull <;> simp only [decide_eq_false_iff_not] at hFull <;> omega

/-- A message is stored or refused, unless it fills the buffer. -/
theorem enqueueParts_spec (h : q.Represents msgs) (hm : m.Good) (buf1 buf2 : Bytes)
    (hBody : m.body = buf1 ++ buf2) (hFills : ¬ q.Fills (buf1.length + buf2.length)) :
    q.enqueueParts m.field (buf1.length + buf2.length) buf1 buf2 = some (q, false) ∨
      ∃ q', q.enqueueParts m.field (buf1.length + buf2.length) buf1 buf2 = some (q', true) ∧
        q'.Represents (msgs ++ [m]) := by
  have hPos : 0 < buf1.length + buf2.length := by
    have hBody' := length_pos_iff.mpr (body_ne_nil hm)
    rwa [hBody, length_append] at hBody'
  unfold enqueueParts
  rw [if_neg (by omega)]
  cases hFull : q.tryEnqueueFull (buf1.length + buf2.length) with
  | true => exact .inl rfl
  | false =>
    right
    obtain ⟨hBuf, hRoom⟩ := h.room hPos hFills hFull
    have hFits : Circle.Fits 0 q.startPos q.endPos (setLen m.field) (buf1.length + buf2.length)
        buf1 buf2 q.circleBuf (encode msgs) :=
      ⟨h.ring hBuf, setLen_length _, rfl, by omega, by omega⟩
    obtain ⟨circleBuf, endPos, hStore, hLength, hRing⟩ := hFits.stores
    rw [← hBody, ← encode_append_singleton] at hRing
    have hBuf' : circleBuf ≠ [] := by
      rw [← length_pos_iff, hLength]
      exact length_pos_iff.mpr hBuf
    refine ⟨{ q with endPos, circleBuf, eleNumber := q.eleNumber + 1 }, by simp [hStore], ?_,
      fun _ => hRing, fun hNil => absurd hNil hBuf'⟩
    intro x hx
    rcases mem_append.mp hx with hOld | hNew
    · exact h.good x hOld
    · rw [mem_singleton.mp hNew]
      exact hm

/-- The message at the front, if it is of this type, is taken out. -/
theorem dequeueWith_spec (h : q.Represents (m :: msgs)) {copy : Circle.Located → Option β} {out : β}
    (hSize : size m.field = some m.body.length)
    (hCopy : ∀ l : Circle.Located, l.encodedLen = m.field → l.Of q.circleBuf m.body →
      copy l = some out) :
    ∃ q', q.dequeueWith checked size copy = some (q', some out) ∧ q'.Represents msgs := by
  have hGood := h.good m mem_cons_self
  have hBuf : q.circleBuf ≠ [] := fun hNil => by cases (h.unallocated hNil).1
  have hRing := h.ring hBuf
  have hLt := hRing.length_lt
  rw [encode_cons] at hRing hLt
  have hField := getLen_setLen (field_lt hGood)
  obtain ⟨l, hLocate, hEncoded, hOf, hRest⟩ := Circle.locate_spec checked size hRing
    (setLen_length _) (body_ne_nil hGood) (by rw [hField, hSize])
    (show _ + 0 ≤ _ from Nat.le_of_lt hLt)
  have hNotEmpty := h.isEmpty_cons
  rw [hField] at hEncoded
  refine ⟨{ q with startPos := l.newBegin, eleNumber := decNumber q.eleNumber },
    by simp [dequeueWith, hNotEmpty, hLocate, hCopy l hEncoded hOf], ?_, fun _ => hRest,
    fun hNil => absurd hNil hBuf⟩
  exact fun x hx => h.good x (mem_cons_of_mem _ hx)

theorem dequeueWith_other (h : q.Represents (m :: msgs)) {copy : Circle.Located → Option β}
    (hSize : size m.field = none) : q.dequeueWith checked size copy = some (q, none) := by
  have hGood := h.good m mem_cons_self
  have hBuf : q.circleBuf ≠ [] := fun hNil => by cases (h.unallocated hNil).1
  have hRing := h.ring hBuf
  have hLt := hRing.length_lt
  rw [encode_cons] at hRing hLt
  have hLocate := Circle.locate_other checked size hRing (setLen_length _)
    (body_ne_nil hGood) (by rw [getLen_setLen (field_lt hGood), hSize])
    (show _ + 0 ≤ _ from Nat.le_of_lt hLt)
  have hNotEmpty := h.isEmpty_cons
  simp [dequeueWith, hNotEmpty, hLocate]

theorem dequeueWith_nil (h : q.Represents []) (checked : Bool) (size : Nat → Option Nat)
    (copy : Circle.Located → Option β) : q.dequeueWith checked size copy = some (q, none) := by
  rw [dequeueWith, if_pos (h.isEmpty_iff.mpr rfl)]

theorem dequeue_spec (h : q.Represents (.one data :: msgs)) :
    ∃ q', q.dequeue = some (q', some data) ∧ q'.Represents msgs :=
  dequeueWith_spec h (size_one (h.good _ mem_cons_self)).1
    fun _ _ hOf => Circle.copyOne_spec hOf

theorem dequeue2_spec (h : q.Represents (.two hdr data :: msgs)) :
    ∃ q', q.dequeue2 = some (q', some (hdr, data)) ∧ q'.Represents msgs := by
  obtain ⟨-, hSize, hFirst⟩ := size_two (h.good _ mem_cons_self)
  refine dequeueWith_spec h (by rw [QueueMessage.field, hSize, QueueMessage.body,
    length_append]) ?_
  intro l hEncoded hOf
  have hLen := hOf.len_eq
  rw [QueueMessage.body, length_append] at hLen
  rw [hEncoded, QueueMessage.field, hFirst, Circle.copyTwo_spec hOf (by omega),
    QueueMessage.body, take_left' rfl, drop_left' rfl]

end BufferQueue

-- Sequences of calls

inductive BufferCall
  | enqueue (buf : Bytes)
  | enqueue2 (buf1 buf2 : Bytes)
  | dequeue
  | dequeue2
deriving DecidableEq, Repr

/-- A queue, the messages for which `enqueue` has returned true, and those returned. -/
structure BufferRun where
  queue : BufferQueue
  accepted : List QueueMessage
  delivered : List QueueMessage
deriving DecidableEq, Repr

namespace BufferRun

def accept (s : BufferRun) (m : QueueMessage) : BufferQueue × Bool → BufferRun
  | (q, true) => { s with queue := q, accepted := s.accepted ++ [m] }
  | (q, false) => { s with queue := q }

def deliver {β : Type} (s : BufferRun) (message : β → QueueMessage) :
    BufferQueue × Option β → BufferRun
  | (q, some m) => { s with queue := q, delivered := s.delivered ++ [message m] }
  | (q, none) => { s with queue := q }

/-- `none` is an assertion that fails or an access outside the buffer. -/
def step (s : BufferRun) : BufferCall → Option BufferRun
  | .enqueue buf => (s.queue.enqueue buf).map (s.accept (.one buf))
  | .enqueue2 buf1 buf2 => (s.queue.enqueue2 buf1 buf2).map (s.accept (.two buf1 buf2))
  | .dequeue => s.queue.dequeue.map (s.deliver .one)
  | .dequeue2 => s.queue.dequeue2.map (s.deliver fun m => .two m.1 m.2)

/-- Parts are below 2^30. -/
def Allowed : BufferCall → Prop
  | .enqueue buf => buf.length < 2 ^ 30
  | .enqueue2 buf1 buf2 => buf1.length < 2 ^ 30 ∧ buf2.length < 2 ^ 30
  | _ => True

/-- No message fills the buffer. -/
def LeavesRoom (s : BufferRun) : BufferCall → Prop
  | .enqueue buf => 0 < buf.length → ¬ s.queue.Fills buf.length
  | .enqueue2 buf1 buf2 =>
    0 < buf1.length + buf2.length → ¬ s.queue.Fills (buf1.length + buf2.length)
  | _ => True

instance (c : BufferCall) : Decidable (Allowed c) := by
  cases c <;> unfold Allowed <;> infer_instance

instance (s : BufferRun) (c : BufferCall) : Decidable (s.LeavesRoom c) := by
  cases c <;> unfold LeavesRoom <;> infer_instance

/-- The queue behaves as the list `pending` of messages. -/
structure Fifo (s : BufferRun) (pending : List QueueMessage) : Prop where
  /-- What is not yet returned, in order. -/
  accepted_eq : s.accepted = s.delivered ++ pending
  isEmpty_iff : s.queue.isEmpty = true ↔ pending = []
  /-- The first message is returned by the dequeue of its kind, and by no other. -/
  dequeue_first : ∃ q, s.queue.dequeue =
    some (q, match pending with | .one data :: _ => some data | _ => none)
  dequeue2_first : ∃ q, s.queue.dequeue2 =
    some (q, match pending with | .two hdr data :: _ => some (hdr, data) | _ => none)

/-- The queue holds what has been accepted and not returned. -/
structure Inv (s : BufferRun) (pending : List QueueMessage) : Prop where
  represents : s.queue.Represents pending
  accepted_eq : s.accepted = s.delivered ++ pending

variable {s : BufferRun} {pending : List QueueMessage}

/-- A message that leaves room is accepted and comes last. -/
theorem Inv.accept (h : s.Inv pending) (m : QueueMessage) (buf1 buf2 : Bytes)
    (hGood : 0 < buf1.length + buf2.length → m.Good) (hBody : m.body = buf1 ++ buf2)
    (hRoom : 0 < buf1.length + buf2.length → ¬ s.queue.Fills (buf1.length + buf2.length)) :
    ∃ s', (s.queue.enqueueParts m.field (buf1.length + buf2.length) buf1 buf2).map (s.accept m) =
        some s' ∧ ∃ pending', s'.Inv pending' := by
  by_cases hPos : 0 < buf1.length + buf2.length
  · rcases BufferQueue.enqueueParts_spec h.represents (hGood hPos) buf1 buf2 hBody (hRoom hPos)
      with hRefused | ⟨q', hStored, hRep⟩
    · rw [hRefused]
      exact ⟨_, rfl, pending, h.represents, h.accepted_eq⟩
    · rw [hStored]
      refine ⟨_, rfl, pending ++ [m], hRep, ?_⟩
      simp [BufferRun.accept, h.accepted_eq]
  · rw [BufferQueue.enqueueParts, if_pos (by omega)]
    exact ⟨_, rfl, pending, h.represents, h.accepted_eq⟩

/-- What the invariant says about the answers. -/
theorem Inv.fifo (h : s.Inv pending) : s.Fifo pending where
  accepted_eq := h.accepted_eq
  isEmpty_iff := h.represents.isEmpty_iff
  dequeue_first := by
    match pending, h with
    | [], h => exact ⟨s.queue, BufferQueue.dequeueWith_nil h.represents _ _ _⟩
    | .one data :: pending, h =>
      obtain ⟨q', hDequeue, -⟩ := BufferQueue.dequeue_spec h.represents
      exact ⟨q', hDequeue⟩
    | .two hdr data :: pending, h =>
      have hSize := (BufferQueue.size_two (h.represents.good _ mem_cons_self)).1
      exact ⟨s.queue, BufferQueue.dequeueWith_other h.represents hSize⟩
  dequeue2_first := by
    match pending, h with
    | [], h => exact ⟨s.queue, BufferQueue.dequeueWith_nil h.represents _ _ _⟩
    | .one data :: pending, h =>
      have hSize := (BufferQueue.size_one (h.represents.good _ mem_cons_self)).2
      exact ⟨s.queue, BufferQueue.dequeueWith_other h.represents hSize⟩
    | .two hdr data :: pending, h =>
      obtain ⟨q', hDequeue, -⟩ := BufferQueue.dequeue2_spec h.represents
      exact ⟨q', hDequeue⟩

theorem Inv.delivered {m : QueueMessage} (h : s.Inv (m :: pending)) {q' : BufferQueue}
    (hRep : q'.Represents pending) :
    Inv { s with queue := q', delivered := s.delivered ++ [m] } pending :=
  ⟨hRep, by simp [h.accepted_eq]⟩

/-- Every call succeeds and keeps the invariant. -/
theorem step_inv {c : BufferCall} (hAllowed : Allowed c) (hRoom : s.LeavesRoom c)
    (h : ∃ pending, s.Inv pending) : ∃ s', s.step c = some s' ∧ ∃ pending, s'.Inv pending := by
  obtain ⟨pending, h⟩ := h
  cases c with
  | enqueue buf =>
    unfold LeavesRoom at hRoom
    refine h.accept (.one buf) buf [] (fun hPos => ⟨?_, hAllowed⟩) (by simp [QueueMessage.body])
      (by simpa using hRoom)
    exact length_pos_iff.mp (by simpa using hPos)
  | enqueue2 buf1 buf2 =>
    refine h.accept (.two buf1 buf2) buf1 buf2 (fun hPos => ⟨?_, hAllowed⟩) rfl hRoom
    rw [← length_append] at hPos
    exact length_pos_iff.mp hPos
  | dequeue =>
    match pending, h with
    | [], h =>
      refine ⟨s, ?_, [], h⟩
      rw [step, BufferQueue.dequeue, BufferQueue.dequeueWith_nil h.represents]
      rfl
    | .one data :: pending, h =>
      obtain ⟨q', hDequeue, hRep⟩ := BufferQueue.dequeue_spec h.represents
      refine ⟨_, ?_, pending, h.delivered hRep⟩
      rw [step, hDequeue]
      rfl
    | .two hdr data :: pending, h =>
      -- a message of the other kind stays where it is
      have hSize := (BufferQueue.size_two (h.represents.good _ mem_cons_self)).1
      refine ⟨s, ?_, _, h⟩
      rw [step, BufferQueue.dequeue, BufferQueue.dequeueWith_other h.represents hSize]
      rfl
  | dequeue2 =>
    match pending, h with
    | [], h =>
      refine ⟨s, ?_, [], h⟩
      rw [step, BufferQueue.dequeue2, BufferQueue.dequeueWith_nil h.represents]
      rfl
    | .one data :: pending, h =>
      have hSize := (BufferQueue.size_one (h.represents.good _ mem_cons_self)).2
      refine ⟨s, ?_, _, h⟩
      rw [step, BufferQueue.dequeue2, BufferQueue.dequeueWith_other h.represents hSize]
      rfl
    | .two hdr data :: pending, h =>
      obtain ⟨q', hDequeue, hRep⟩ := BufferQueue.dequeue2_spec h.represents
      refine ⟨_, ?_, pending, h.delivered hRep⟩
      rw [step, hDequeue]
      rfl

/-- In every sequence of calls on a queue of any size, as long as no message fills the
buffer, no assertion fails and no access leaves the buffer, and the queue behaves as the
list of the messages that have been accepted and not yet returned. -/
theorem fifo_of_leavesRoom (eleNumber : UInt64) (circleBuf : Bytes) {calls : List BufferCall}
    (hCalls : Along step (fun s c => Allowed c ∧ s.LeavesRoom c)
      ⟨.init eleNumber circleBuf, [], []⟩ calls) :
    ∃ s, run step ⟨.init eleNumber circleBuf, [], []⟩ calls = some s ∧
      ∃ pending, s.Fifo pending := by
  have hInit : ∃ pending, Inv ⟨.init eleNumber circleBuf, [], []⟩ pending :=
    ⟨[], BufferQueue.init_represents eleNumber circleBuf, rfl⟩
  obtain ⟨s, hRun, pending, hInv⟩ :=
    run_total (fun _ _ hP hInv => step_inv hP.1 hP.2 hInv) hInit hCalls
  exact ⟨s, hRun, pending, hInv.fifo⟩

/-- In a buffer of 24 bytes, the second message goes around the end. -/
theorem fifo_of_leavesRoom_around :
    ∃ s, run step ⟨.init 0 (List.replicate 24 0), [], []⟩
        [.enqueue [1, 2, 3], .dequeue2, .dequeue, .enqueue2 [4] [5, 6, 7, 8, 9, 10], .dequeue2] =
          some s ∧
      ∃ pending, s.Fifo pending :=
  fifo_of_leavesRoom 0 (List.replicate 24 0) (by decide)

/-- A message of 8 bytes is accepted by a queue of 16 bytes, which is empty then; and a
message of 5 bytes is written behind a queue of 5 bytes. -/
theorem filled_queue_forgets :
    (∃ s, run step ⟨.init 0 (List.replicate 16 0), [], []⟩
        [.enqueue [1, 2, 3, 4, 5, 6, 7, 8], .dequeue] = some s ∧
      s.accepted = [.one [1, 2, 3, 4, 5, 6, 7, 8]] ∧ s.delivered = [] ∧
      s.queue.isEmpty = true) ∧
    run step ⟨.init 0 (List.replicate 5 0), [], []⟩ [.enqueue [1, 2, 3, 4, 5]] = none :=
  ⟨⟨_, rfl, rfl, rfl, rfl⟩, rfl⟩

end BufferRun

end MyBase
