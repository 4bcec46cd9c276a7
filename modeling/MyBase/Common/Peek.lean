import MyBase.Common.CBufferQueue

/-!
# MyBase — `peek` of a `CBufferQueue`

`peek` is `dequeue` without the lines that move `iBegin` and count the message. In the
form with two buffers one of these lines is still there: a message that is too long for
the buffers, and does not go around the end, is skipped as `dequeue` skips it, while
`iCount` stays.

* `peek_agrees`, `peek2_agrees_iff` — when a `peek` leaves the queue as it is and
  returns what the `dequeue` of its form returns;
* `Represents.peek_spec`, `Represents.peek2_spec` — what that is: the first message.
-/

namespace MyBase

open Lib

namespace CBufferQueue

/-- Both forms of `peek`: `copy` is how a message is copied out, and `thrown` the queue
when it is too long. -/
def peekWith {β : Type} (q : CBufferQueue) (buffersize : Nat)
    (thrown : Circle.Located → CBufferQueue) (copy : Circle.Located → Option β) :
    Option (CBufferQueue × DequeueResult β) :=
  if q.isEmpty then some (q, .empty)
  else do
    match ← Circle.locate reserveLen true q.iBegin q.iEnd q.data some with
    | none => none
    | some l =>
      if buffersize < l.len then return (thrown l, .tooLong)
      else return (q, .message (← copy l))

def peek (q : CBufferQueue) (buffersize : UInt32) : Option (CBufferQueue × DequeueResult Bytes) :=
  q.peekWith buffersize.toNat (fun _ => q) (Circle.copyOne q.data)

/-- The sizes are added as `unsigned`. -/
def peek2 (q : CBufferQueue) (buffersize1 buffersize2 : UInt32) :
    Option (CBufferQueue × DequeueResult (Bytes × Bytes)) :=
  q.peekWith (buffersize1 + buffersize2).toNat
    -- `_header->iBegin += len+sizeof(uint64_t)` in front of the first `throw` only
    (fun l => if l.linear then { q with iBegin := l.newBegin } else q)
    fun l =>
      if l.len < buffersize1.toNat then (Circle.copyOne q.data l).map fun m => (m, [])
      else Circle.copyTwo q.data l buffersize1.toNat

/-- The message that is to be returned next. -/
def front (q : CBufferQueue) : Option Circle.Located :=
  if q.isEmpty then none
  else (Circle.locate reserveLen true q.iBegin q.iEnd q.data some).join

/-- The call returns what `dequeued` returns, or throws as it throws, and leaves the queue
as it is. -/
def Agrees {β : Type} (q : CBufferQueue)
    (peeked dequeued : Option (CBufferQueue × DequeueResult β)) : Prop :=
  peeked = dequeued.map fun out => (q, out.2)

variable {β : Type} {q : CBufferQueue} {buffersize : Nat} {copy : Circle.Located → Option β}
  {thrown : Circle.Located → CBufferQueue} {l : Circle.Located}

-- Both calls look at the same message

theorem front_eq_some (h : q.front = some l) : q.isEmpty = false ∧
    Circle.locate reserveLen true q.iBegin q.iEnd q.data some = some (some l) := by
  unfold front at h
  split at h
  next => cases h
  next hEmpty => exact ⟨by simpa using hEmpty, Option.join_eq_some_iff.mp h⟩

theorem peekWith_of_front (h : q.front = some l) :
    q.peekWith buffersize thrown copy =
      if buffersize < l.len then some (thrown l, .tooLong)
      else (copy l).map fun m => (q, .message m) := by
  obtain ⟨hEmpty, hLocate⟩ := front_eq_some h
  unfold peekWith
  simp only [hEmpty, hLocate, Bool.false_eq_true, if_false, Option.bind_eq_bind, Option.bind_some]
  split
  next => rfl
  next => cases copy l <;> rfl

theorem dequeueWith_of_front (h : q.front = some l) :
    q.dequeueWith buffersize copy =
      (if buffersize < l.len then some .tooLong else (copy l).map DequeueResult.message).map
        ({ q with iBegin := l.newBegin, iCount := decCount q.iCount }, ·) := by
  obtain ⟨hEmpty, hLocate⟩ := front_eq_some h
  unfold dequeueWith
  simp only [hEmpty, hLocate, Bool.false_eq_true, if_false, Option.bind_eq_bind, Option.bind_some]
  split
  next => rfl
  next => cases copy l <;> rfl

/-- The queue is empty, or an assertion fails. -/
theorem agrees_of_front_eq_none (h : q.front = none) :
    q.Agrees (q.peekWith buffersize thrown copy) (q.dequeueWith buffersize copy) := by
  unfold Agrees peekWith dequeueWith
  unfold front at h
  split at h
  next hEmpty => simp only [if_pos hEmpty, Option.map_some]
  next hEmpty =>
    simp only [if_neg hEmpty, Option.bind_eq_bind]
    cases hLocate : Circle.locate reserveLen true q.iBegin q.iEnd q.data some with
    | none => rfl
    | some located =>
      rw [hLocate] at h
      cases h
      rfl

/-- The calls agree unless the queue that `peek` leaves behind when it throws is another. -/
theorem peekWith_agrees_iff :
    q.Agrees (q.peekWith buffersize thrown copy) (q.dequeueWith buffersize copy) ↔
      ∀ l ∈ q.front, buffersize < l.len → thrown l = q := by
  cases hFront : q.front with
  | none => exact iff_of_true (agrees_of_front_eq_none hFront) (by simp)
  | some l =>
    rw [Agrees, peekWith_of_front hFront, dequeueWith_of_front hFront]
    simp only [Option.mem_def, Option.some.injEq, forall_eq']
    by_cases hLong : buffersize < l.len
    · simp [hLong]
    · simp only [hLong, if_false, false_implies, iff_true]
      cases copy l <;> rfl

/-- Where the messages do not go around the end, the next one is behind `iBegin`. -/
theorem front_linear (h : q.front = some l) :
    l.linear = decide (q.iBegin < q.iEnd) ∧
      (l.linear = true → l.newBegin = q.iBegin + 8 + l.len) := by
  obtain ⟨-, hLocate⟩ := front_eq_some h
  simp only [Circle.locate, Option.bind_eq_bind] at hLocate
  split at hLocate
  next hLinear =>
    simp only [Option.bind_eq_some_iff] at hLocate
    obtain ⟨-, -, field, -, -, -, hSome⟩ := hLocate
    cases hSome
    exact ⟨by simp [hLinear], fun _ => rfl⟩
  next hAround =>
    -- none of the other ways to find it is linear
    have hOther : l.linear = false := by
      simp only [Option.bind_eq_some_iff] at hLocate
      obtain ⟨-, -, -, -, hLocate⟩ := hLocate
      split at hLocate
      next =>
        simp only [Option.bind_eq_some_iff] at hLocate
        obtain ⟨head, -, tail, -, -, -, hSome⟩ := hLocate
        cases hSome
        rfl
      next =>
        simp only [Option.bind_eq_some_iff] at hLocate
        obtain ⟨field, -, hLocate⟩ := hLocate
        split at hLocate
        next =>
          cases hLocate
          rfl
        next =>
          simp only [Option.bind_eq_some_iff] at hLocate
          obtain ⟨-, -, hSome⟩ := hLocate
          cases hSome
          rfl
    simp [hOther, hAround]

-- `peek`

/-- A `peek` leaves the queue as it is and returns what `dequeue` returns. -/
theorem peek_agrees (q : CBufferQueue) (n : UInt32) : q.Agrees (q.peek n) (q.dequeue n) :=
  peekWith_agrees_iff.mpr fun _ _ _ => rfl

/-- The first of the two ways to throw moves `iBegin`. -/
theorem peek2_agrees_iff (q : CBufferQueue) (n₁ n₂ : UInt32) :
    q.Agrees (q.peek2 n₁ n₂) (q.dequeue2 n₁ n₂) ↔
      (q.iBegin < q.iEnd → ∀ l ∈ q.front, l.len ≤ (n₁ + n₂).toNat) := by
  refine peekWith_agrees_iff.trans ⟨?_, ?_⟩
  · intro hKept hLinear l hl
    obtain ⟨hIs, hBegin⟩ := front_linear hl
    have hTrue : l.linear = true := by rw [hIs, decide_eq_true hLinear]
    by_contra hLong
    have hMoved := congrArg iBegin (hKept l hl (by omega))
    simp only [hTrue, if_true, hBegin hTrue] at hMoved
    omega
  · intro hFits l hl hLong
    obtain ⟨hIs, -⟩ := front_linear hl
    refine if_neg fun hTrue => ?_
    have hLinear := of_decide_eq_true (hIs.symm.trans hTrue)
    have hLen := hFits hLinear l hl
    omega

/-- On every queue, and for all sizes of the buffers, both forms of `peek` leave the queue
as it is and return what `dequeue` returns, or throw as it throws, if and only if: the
messages go around the end of the buffer, or the two sizes, added as `unsigned`, are
enough for the first message. -/
theorem peeks_agree_iff (q : CBufferQueue) (n n₁ n₂ : UInt32) :
    (q.Agrees (q.peek n) (q.dequeue n) ∧ q.Agrees (q.peek2 n₁ n₂) (q.dequeue2 n₁ n₂)) ↔
      (q.iBegin < q.iEnd → ∀ l ∈ q.front, l.len ≤ (n₁ + n₂).toNat) := by
  rw [← peek2_agrees_iff]
  exact and_iff_right (peek_agrees q n)

/-- A message of three bytes is too long for two buffers of one byte: `peek` throws, and
the message is gone, while it still counts. -/
theorem peek2_skips_message :
    ∃ q s, create 0 (List.replicate 64 0) = some q ∧
      run QueueRun.step ⟨q, [], []⟩ [.enqueue [1, 2, 3]] = some s ∧
      ∃ q', s.queue.peek2 1 1 = some (q', .tooLong) ∧ q'.iBegin ≠ s.queue.iBegin ∧
        q'.isEmpty = true ∧ q'.count = 1 ∧ q'.dequeue 8 = some (q', .empty) ∧
        ¬ s.queue.Agrees (s.queue.peek2 1 1) (s.queue.dequeue2 1 1) := by
  refine ⟨_, _, rfl, rfl, _, rfl, by decide, rfl, rfl, rfl, ?_⟩
  unfold Agrees
  decide

-- What is returned

section Represents

variable {msgs : List Bytes} {m : Bytes}

/-- The next message of a queue is the first of those that it stands for. -/
theorem Represents.front_len (h : q.Represents (m :: msgs)) :
    ∃ l, q.front = some l ∧ l.len = m.length := by
  obtain ⟨l, hLocate, hOf, -⟩ := h.locate
  refine ⟨l, ?_, hOf.len_eq⟩
  rw [front, h.isEmpty_cons, hLocate]
  rfl

/-- A `peek` returns the first message. -/
theorem Represents.peek_spec (h : q.Represents (m :: msgs)) (n : UInt32) :
    q.peek n = some (q, if n.toNat < m.length then .tooLong else .message m) := by
  obtain ⟨q', hDequeue, -⟩ := dequeue_spec h n
  rw [peek_agrees q n, hDequeue]
  rfl

/-- The message is cut where the first buffer ends. -/
theorem Represents.peek2_spec (h : q.Represents (m :: msgs)) {n₁ n₂ : UInt32}
    (hFits : q.iBegin < q.iEnd → m.length ≤ (n₁ + n₂).toNat) :
    q.peek2 n₁ n₂ = some (q, if (n₁ + n₂).toNat < m.length then .tooLong
      else .message (m.take n₁.toNat, m.drop n₁.toNat)) := by
  obtain ⟨l, hFront, hLen⟩ := h.front_len
  have hAgrees : q.Agrees (q.peek2 n₁ n₂) (q.dequeue2 n₁ n₂) := by
    refine (peek2_agrees_iff q n₁ n₂).mpr fun hLinear l' hl' => ?_
    cases hFront.symm.trans hl'
    exact hLen.trans_le (hFits hLinear)
  obtain ⟨q', hDequeue, -⟩ := dequeue2_spec h n₁ n₂
  rw [hAgrees, hDequeue]
  rfl

end Represents

end CBufferQueue

end MyBase
