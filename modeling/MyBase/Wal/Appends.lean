import MyBase.Lib.Run
import MyBase.Wal.Batch

/-!
# MyBase — concurrent appends

Any number of threads call `appendLog`. Each draws an index and queues a `Writer` on its
stack, both under `cvLock`, and waits until its record has been written or it is first
in the queue. The first becomes the leader: still under the lock it collects the records
of all queued writers, then it writes them and rotates the file without the lock, and
takes the lock again to take its batch out of the queue, to release the others in it and
to wake the next leader.

A step of the model is what one thread does between taking the lock and giving it back,
or one of the leader's writes in between. Threads in `cv.wait` can wake up at any time,
whether notified or not.

* `Queue` — the queue holds the writers that came last, in order; the ones before have
  been released; a leader is first in the queue;
* `Handover` — without a leader, the first of the queue has been notified;
* `Files` — the files hold the records of the finished batches, and of the leader's batch
  once it is written, in order;
* `InOrder` — what the callers can rely on, after every run;
* `callers_given_indices_iff` — that, and a caller is given its index back just if another one has
  led the batch with its record: a leader returns 0 (`leaders_return_zero`), as a failed write
  does.

The steps are refused where the code does not get on: a batch or an index that does not
fit a `Buffer`, whose capacity is at most 2^30 bytes, and indices beyond `maxIndex`, which
do not fit the file names.
-/

namespace MyBase

open Lib List

-- The model

/-- Where a caller of `appendLog` is. -/
inductive Thread
  /-- In `cv.wait`, woken by `notify_one` or not. -/
  | waiting (notified : Bool)
  | leading
  | returned (value : Nat)
  deriving DecidableEq, Repr

/-- `Writer`, and the thread it is on the stack of. -/
structure Writer where
  seq : Nat
  data : Bytes
  done : Bool
  thread : Thread
  deriving DecidableEq, Repr

namespace Writer

/-- `cv.notify_one()`. -/
def notifyOne (w : Writer) : Writer :=
  match w.thread with
  | .waiting _ => { w with thread := .waiting true }
  | _ => w

/-- The leader releases a writer of its batch. -/
def release (w : Writer) : Writer := notifyOne { w with done := true }

end Writer

/-- How far a leader is. -/
inductive Stage
  /-- The batch has been built and is not written. -/
  | built
  | written
  /-- The file has been rotated, if need be, and `lastIdx` stored. -/
  | stored
  deriving DecidableEq, Repr

/-- The variables of a leader; writers are given by their positions. -/
structure Leader where
  writer : Nat
  lastWriter : Nat
  batch : Bytes
  stage : Stage
  deriving DecidableEq, Repr

/-- A log and the threads that append to it. -/
structure Appends where
  session : Session
  /-- All callers up to now, in the order in which they were queued. -/
  callers : List Writer
  /-- The queue. -/
  writers : List Nat
  leader : Option Leader

/-- The capacity of a `Buffer`. -/
def maxBuffer : Nat := 2 ^ 30

inductive AppendAction
  /-- `appendLog` is called, up to `cv.wait` or the end of `buildBatchGroup`. -/
  | enqueue (data : Bytes)
  /-- A thread comes back from `cv.wait`. -/
  | resume (k : Nat)
  | write
  | rotate
  /-- The leader takes its batch out of the queue and returns. -/
  | finish
  deriving DecidableEq, Repr

namespace Appends

def setThread (s : Appends) (k : Nat) (thread : Thread) : Appends :=
  { s with callers := s.callers.modify k fun w => { w with thread := thread } }

/-- The indices and data of the queued writers. -/
def queued (s : Appends) : List (Nat × Bytes) :=
  s.writers.filterMap fun k => (s.callers[k]?).map fun w => (w.seq, w.data)

/-- A thread becomes the leader and builds its batch. -/
def lead (pf : Platform) (s : Appends) (k : Nat) : Option Appends :=
  if (frames (s.queued.map Prod.snd)).length ≤ maxBuffer then
    let out := Session.buildBatchGroup pf s.session s.queued
    some { s.setThread k .leading with
      session := out.2
      leader := some ⟨k, s.writers.getLastD k, out.1, .built⟩ }
  else none

/-- The condition of the loop around `cv.wait`, and what comes behind the loop. -/
def check (pf : Platform) (s : Appends) (k : Nat) : Option Appends :=
  match s.callers[k]? with
  | none => none
  | some w =>
    if w.done then some (s.setThread k (.returned w.seq))
    else if s.writers.head? = some k then s.lead pf k
    else some (s.setThread k (.waiting false))

/-- The number of entries of the index of the current file. -/
def indexSize (s : Appends) : Nat :=
  match s.session.wal.curWalFile.bind (s.session.wal.infos[·]?) with
  | some info => info.ivts.length
  | none => 0

/-- `last_writer->seq`. -/
def lastSeq (s : Appends) (last : Nat) : Nat := ((s.callers[last]?).map Writer.seq).getD 0

/-- The leader rotates the file if it is past the limit, and stores `lastIdx`. -/
def store (pf : Platform) (s : Appends) (last : Nat) : Session :=
  let session :=
    if rotateSize < s.session.wal.curWalPos then s.session.rotate pf (s.lastSeq last)
    else s.session
  { session with wal := { session.wal with lastIdx := s.lastSeq last } }

/-- The loop that takes the batch out of the queue. -/
def popBatch (writer last : Nat) : List Nat → List Writer → List Nat × List Writer
  | [], callers => ([], callers)
  | ready :: writers, callers =>
    let callers := if ready ≠ writer then callers.modify ready Writer.release else callers
    if ready = last then (writers, callers) else popBatch writer last writers callers

/-- The end of `appendLog` for a leader. -/
def finish (s : Appends) (writer last : Nat) : Appends :=
  let out := popBatch writer last s.writers s.callers
  let callers :=
    match out.1.head? with
    | some k => out.2.modify k Writer.notifyOne
    | none => out.2
  { s with
    callers := callers.modify writer fun w => { w with thread := .returned 0 }
    writers := out.1
    leader := none }

/-- A new caller, before the loop around `cv.wait`. -/
def push (s : Appends) (data : Bytes) : Appends :=
  { s with
    session := { s.session with
      wal := { s.session.wal with nextIdx := succ64 s.session.wal.nextIdx } }
    callers := s.callers ++ [⟨s.session.wal.nextIdx, data, false, .waiting false⟩]
    writers := s.writers ++ [s.callers.length] }

def step (pf : Platform) (s : Appends) : AppendAction → Option Appends
  | .enqueue data =>
    if s.session.wal.nextIdx ≤ maxIndex then (s.push data).check pf s.callers.length else none
  | .resume k =>
    match s.callers[k]? with
    | some ⟨_, _, _, .waiting _⟩ => s.check pf k
    | _ => none
  | .write =>
    match s.leader with
    | some ⟨writer, last, batch, .built⟩ =>
      some { s with
        session := s.session.write batch
        leader := some ⟨writer, last, batch, .written⟩ }
    | _ => none
  | .rotate =>
    match s.leader with
    | some ⟨writer, last, batch, .written⟩ =>
      if rotateSize < s.session.wal.curWalPos ∧ 77 + 16 * s.indexSize > maxBuffer then none
      else some { s with
        session := s.store pf last
        leader := some ⟨writer, last, batch, .stored⟩ }
    | _ => none
  | .finish =>
    match s.leader with
    | some ⟨writer, last, _, .stored⟩ => some (s.finish writer last)
    | _ => none

/-- A log that nobody is appending to. -/
def idle (session : Session) : Appends := ⟨session, [], [], none⟩

def payloads (s : Appends) : List Bytes := s.callers.map Writer.data

/-- How many callers have left the queue. -/
def finished (s : Appends) : Nat := s.callers.length - s.writers.length

/-- How many records have been written. -/
def included (s : Appends) : Nat :=
  match s.leader with
  | some ⟨_, _, _, .built⟩ => s.finished
  | some ⟨_, last, _, _⟩ => last + 1
  | none => s.finished

end Appends

section Step

variable {pf : Platform} {s s' : Appends} {k : Nat} {data : Bytes}

theorem Appends.step_enqueue : s.step pf (.enqueue data) = some s' ↔
    s.session.wal.nextIdx ≤ maxIndex ∧ (s.push data).check pf s.callers.length = some s' := by
  rw [step, Option.ite_none_right_eq_some]

theorem Appends.step_resume : s.step pf (.resume k) = some s' ↔
    (∃ w notified, s.callers[k]? = some w ∧ w.thread = .waiting notified) ∧
      s.check pf k = some s' := by
  rw [step]
  constructor
  · intro h
    split at h
    next hw => exact ⟨⟨_, _, hw, rfl⟩, h⟩
    next => cases h
  · rintro ⟨⟨⟨seq, data, done, thread⟩, notified, hw, rfl⟩, hCheck⟩
    rw [hw]
    exact hCheck

theorem Appends.step_write : s.step pf .write = some s' ↔
    ∃ writer last batch, s.leader = some ⟨writer, last, batch, .built⟩ ∧
      s' = { s with
        session := s.session.write batch
        leader := some ⟨writer, last, batch, .written⟩ } := by
  rw [step]
  constructor
  · intro h
    split at h
    next hLeader => exact ⟨_, _, _, hLeader, (Option.some.inj h).symm⟩
    next => cases h
  · rintro ⟨writer, last, batch, hLeader, rfl⟩
    rw [hLeader]

theorem Appends.step_rotate : s.step pf .rotate = some s' ↔
    ∃ writer last batch, s.leader = some ⟨writer, last, batch, .written⟩ ∧
      ¬ (rotateSize < s.session.wal.curWalPos ∧ 77 + 16 * s.indexSize > maxBuffer) ∧
      s' = { s with
        session := s.store pf last
        leader := some ⟨writer, last, batch, .stored⟩ } := by
  rw [step]
  constructor
  · intro h
    split at h
    next hLeader =>
      rw [Option.ite_none_left_eq_some] at h
      exact ⟨_, _, _, hLeader, h.1, (Option.some.inj h.2).symm⟩
    next => cases h
  · rintro ⟨writer, last, batch, hLeader, hFits, rfl⟩
    rw [hLeader]
    exact if_neg hFits

theorem Appends.step_finish : s.step pf .finish = some s' ↔
    ∃ writer last batch, s.leader = some ⟨writer, last, batch, .stored⟩ ∧
      s' = s.finish writer last := by
  rw [step]
  constructor
  · intro h
    split at h
    next hLeader => exact ⟨_, _, _, hLeader, (Option.some.inj h).symm⟩
    next => cases h
  · rintro ⟨writer, last, batch, hLeader, rfl⟩
    rw [hLeader]

end Step

/-- The caller has returned, a leader 0 and the others their index, or has been notified
that it can. -/
def Writer.Released (w : Writer) : Prop :=
  w.thread = .returned (if w.done then w.seq else 0) ∨ (w.done = true ∧ w.thread = .waiting true)

namespace Appends

-- The queue

/-- The first `n` callers have left the queue and the others are in it. -/
structure Queue (first n : Nat) (s : Appends) : Prop where
  le : n ≤ s.callers.length
  writers : s.writers = List.range' n (s.callers.length - n)
  seqs : s.callers.map Writer.seq = List.range' first s.callers.length
  next : s.session.wal.nextIdx = first + s.callers.length
  bound : first + s.callers.length ≤ maxIndex + 1
  released : ∀ k w, k < n → s.callers[k]? = some w → w.Released
  pending : ∀ k w, n ≤ k → s.callers[k]? = some w → w.done = false
  waiting : ∀ k w, n ≤ k → s.callers[k]? = some w → (k = n → s.leader = none) →
    ∃ notified, w.thread = .waiting notified
  leader : ∀ l, s.leader = some l → l.writer = n ∧ n ≤ l.lastWriter ∧
    l.lastWriter < s.callers.length ∧ ∀ w, s.callers[n]? = some w → w.thread = .leading

/-- Without a leader, the first of the queue has been notified. -/
def Handover (n : Nat) (s : Appends) : Prop :=
  s.leader = none → ∀ w, s.callers[n]? = some w → w.thread = .waiting true

section Queue

variable {pf : Platform} {s s' : Appends} {first n k : Nat}

theorem Queue.head (h : s.Queue first n) :
    s.writers.head? = some k ↔ k = n ∧ n < s.callers.length := by
  rw [h.writers]
  cases hCount : s.callers.length - n with
  | zero => simp; omega
  | succ m =>
    rw [range'_succ, head?_cons, Option.some.injEq]
    omega

theorem Queue.finished_eq (h : s.Queue first n) : s.finished = n := by
  have hLe := h.le
  rw [finished, h.writers, length_range']
  omega

variable {α β : Type} {last : Nat} {thread : Thread}

/-- The queued writers are the callers behind the first `n`. -/
theorem filterMap_range' (l : List α) (f : α → β) {n : Nat} (h : n ≤ l.length) :
    (List.range' n (l.length - n)).filterMap (fun k => (l[k]?).map f) = (l.drop n).map f := by
  induction hCount : l.length - n generalizing n with
  | zero =>
    rw [drop_eq_nil_of_le (by omega)]
    rfl
  | succ m ih =>
    have hLt : n < l.length := by omega
    rw [range'_succ, filterMap_cons, getElem?_eq_getElem hLt,
      drop_eq_getElem_cons hLt, map_cons]
    simp only [Option.map_some]
    have hRest : l.length - (n + 1) = m := by omega
    rw [← ih (n := n + 1) (by omega) hRest]

theorem Queue.queued_eq (h : s.Queue first n) :
    s.queued = (s.callers.drop n).map fun w => (w.seq, w.data) := by
  rw [queued, h.writers]
  exact filterMap_range' s.callers _ h.le

/-- What a thread that comes out of `cv.wait`, or is new, can do. -/
theorem Queue.check_cases (h : s.Queue first n)
    (hThread : ∀ w, s.callers[k]? = some w → ∃ notified, w.thread = .waiting notified)
    (hCheck : s.check pf k = some s') :
    (∃ w, s.callers[k]? = some w ∧ k < n ∧ w.done = true ∧ s' = s.setThread k (.returned w.seq)) ∨
    (k = n ∧ n < s.callers.length ∧ s.leader = none ∧ s.lead pf k = some s') ∨
    (n < k ∧ s' = s.setThread k (.waiting false)) := by
  unfold check at hCheck
  split at hCheck
  · cases hCheck
  · rename_i w hw
    obtain ⟨hLt, -⟩ := List.getElem?_eq_some_iff.mp hw
    split at hCheck
    · rename_i hDone
      cases hCheck
      refine Or.inl ⟨w, hw, ?_, hDone, rfl⟩
      by_contra hGe
      rw [h.pending k w (by omega) hw] at hDone
      cases hDone
    · rename_i hDone
      split at hCheck
      · rename_i hHead
        obtain ⟨rfl, hLt⟩ := h.head.mp hHead
        refine Or.inr (Or.inl ⟨rfl, hLt, ?_, hCheck⟩)
        -- a leader is behind its wait
        by_contra hLeader
        obtain ⟨l, hl⟩ := Option.ne_none_iff_exists'.mp hLeader
        obtain ⟨notified, hWaiting⟩ := hThread w hw
        rw [(h.leader l hl).2.2.2 w hw] at hWaiting
        cases hWaiting
      · rename_i hHead
        cases hCheck
        refine Or.inr (Or.inr ⟨?_, rfl⟩)
        have hNe : k ≠ n := by
          rintro rfl
          exact hHead (h.head.mpr ⟨rfl, hLt⟩)
        by_contra hGe
        -- a thread that has left the queue and is not done has returned
        rcases h.released k w (by omega) hw with hReturned | ⟨hYes, -⟩
        · obtain ⟨notified, hWaiting⟩ := hThread w hw
          rw [hReturned] at hWaiting
          cases hWaiting
        · exact hDone hYes

theorem getElem?_modify_eq (l : List α) (f : α → α) (j k : Nat) :
    (l.modify j f)[k]? = if k = j then (l[k]?).map f else l[k]? := by
  rw [getElem?_modify]
  split
  · rename_i hEq
    rw [if_pos hEq.symm]
    rfl
  · rename_i hNe
    rw [if_neg (Ne.symm hNe)]
    cases l[k]? <;> rfl

theorem map_modify_eq (g : α → β) (f : α → α) (hf : ∀ a, g (f a) = g a) (l : List α) (j : Nat) :
    (l.modify j f).map g = l.map g := by
  apply ext_getElem?
  intro k
  rw [getElem?_map, getElem?_map, getElem?_modify_eq]
  split
  · rw [Option.map_map]
    exact congrArg (Option.map · l[k]?) (funext hf)
  · rfl

theorem getElem?_setThread {j : Nat} {w : Writer}
    (hw : (s.setThread k thread).callers[j]? = some w) :
    (j ≠ k ∧ s.callers[j]? = some w) ∨
      (j = k ∧ ∃ w₀, s.callers[k]? = some w₀ ∧ w = { w₀ with thread := thread }) := by
  rw [Appends.setThread, getElem?_modify_eq] at hw
  split at hw
  · rename_i hEq
    obtain ⟨w₀, hw₀, rfl⟩ := Option.map_eq_some_iff.mp hw
    exact Or.inr ⟨hEq, w₀, hEq ▸ hw₀, rfl⟩
  · rename_i hNe
    exact Or.inl ⟨hNe, hw⟩

/-- One caller goes on; the others stay as they are. -/
theorem Queue.setThread (h : s.Queue first n) (leader : Option Leader)
    (hReleased : k < n → ∀ w, s.callers[k]? = some w → Writer.Released { w with thread := thread })
    (hWaiting : n < k → ∃ notified, thread = .waiting notified) (hFront : k ≠ n → leader = s.leader)
    (hLeader : k = n → ∃ l, leader = some l ∧ thread = .leading ∧ l.writer = n ∧
      n ≤ l.lastWriter ∧ l.lastWriter < s.callers.length)
    {session : Session} (hNext : session.wal.nextIdx = s.session.wal.nextIdx) :
    Queue first n { s.setThread k thread with session := session, leader := leader } := by
  have hLength : (s.callers.modify k fun w => { w with thread := thread }).length =
      s.callers.length := length_modify ..
  constructor
  · exact h.le.trans_eq hLength.symm
  · show s.writers = List.range' n ((s.callers.modify k _).length - n)
    rw [hLength]
    exact h.writers
  · show (s.callers.modify k _).map Writer.seq = List.range' first (s.callers.modify k _).length
    rw [hLength]
    exact (map_modify_eq Writer.seq (fun w => { w with thread := thread }) (fun _ => rfl) _ _).trans
      h.seqs
  · show session.wal.nextIdx = first + (s.callers.modify k _).length
    rw [hLength, hNext, h.next]
  · show first + (s.callers.modify k _).length ≤ maxIndex + 1
    rw [hLength]
    exact h.bound
  · intro j w hj hw
    rcases getElem?_setThread hw with ⟨-, hOld⟩ | ⟨rfl, w₀, hOld, rfl⟩
    · exact h.released j w hj hOld
    · exact hReleased hj w₀ hOld
  · intro j w hj hw
    rcases getElem?_setThread hw with ⟨-, hOld⟩ | ⟨rfl, w₀, hOld, rfl⟩
    · exact h.pending j w hj hOld
    · exact h.pending j w₀ hj hOld
  · intro j w hj hw hNone
    change j = n → leader = none at hNone
    rcases getElem?_setThread hw with ⟨hNe, hOld⟩ | ⟨rfl, w₀, -, rfl⟩
    · refine h.waiting j w hj hOld fun hEq => ?_
      rw [← hFront (fun hk => hNe (hEq.trans hk.symm))]
      exact hNone hEq
    · by_cases hEq : j = n
      · obtain ⟨l, hSome, -⟩ := hLeader hEq
        rw [hNone hEq] at hSome
        cases hSome
      · exact hWaiting (by omega)
  · intro l hl
    change leader = some l at hl
    by_cases hEq : k = n
    · obtain ⟨l', hSome, rfl, hWriter, hLo, hHi⟩ := hLeader hEq
      rw [hl] at hSome
      cases hSome
      refine ⟨hWriter, hLo, hHi.trans_eq hLength.symm, ?_⟩
      intro w hw
      rcases getElem?_setThread hw with ⟨hNe, -⟩ | ⟨-, w₀, -, rfl⟩
      · exact absurd hEq.symm hNe
      · rfl
    · rw [hFront hEq] at hl
      obtain ⟨hWriter, hLo, hHi, hThread⟩ := h.leader l hl
      refine ⟨hWriter, hLo, hHi.trans_eq hLength.symm, ?_⟩
      intro w hw
      rcases getElem?_setThread hw with ⟨-, hOld⟩ | ⟨hEq', -⟩
      · exact hThread w hOld
      · exact absurd hEq'.symm hEq

/-- The hand-over is about the first of the queue only. -/
theorem Handover.setThread (h : s.Handover n) (hk : k ≠ n) (thread : Thread) :
    (s.setThread k thread).Handover n := by
  intro hNone w hw
  rcases getElem?_setThread hw with ⟨-, hOld⟩ | ⟨hEq, -⟩
  · exact h hNone w hOld
  · exact absurd hEq.symm hk

theorem Queue.getLast (h : s.Queue first n) (hLt : n < s.callers.length) (d : Nat) :
    s.writers.getLastD d = s.callers.length - 1 := by
  obtain ⟨m, hm⟩ : ∃ m, s.callers.length - n = m + 1 := ⟨s.callers.length - n - 1, by omega⟩
  rw [h.writers, hm, range'_concat, getLastD_concat]
  omega

/-- **A thread looks at the queue.** -/
theorem Queue.check (h : s.Queue first n) (hHandover : k ≠ n → s.Handover n)
    (hThread : ∀ w, s.callers[k]? = some w → ∃ notified, w.thread = .waiting notified)
    (hCheck : s.check pf k = some s') : s'.Queue first n ∧ s'.Handover n := by
  rcases h.check_cases hThread hCheck with ⟨w, hw, hk, hDone, rfl⟩ | ⟨rfl, hLt, hNone, hLead⟩ |
    ⟨hk, rfl⟩
  · refine ⟨h.setThread s.leader ?_ (by omega) (fun _ => rfl) (by omega) rfl,
      (hHandover (by omega)).setThread (by omega) _⟩
    intro _ w' hw'
    obtain rfl : w = w' := Option.some.inj (hw.symm.trans hw')
    exact Or.inl (by simp [hDone])
  · unfold lead at hLead
    split at hLead
    · cases hLead
      refine ⟨h.setThread _ (by omega) (by omega) (fun hk => absurd rfl hk) ?_
        (Session.buildBatchGroup_nextIdx ..), fun hNone => by cases hNone⟩
      intro _
      refine ⟨_, rfl, rfl, rfl, ?_, ?_⟩ <;> simp only [h.getLast hLt] <;> omega
    · cases hLead
  · refine ⟨h.setThread s.leader (by omega) (fun _ => ⟨false, rfl⟩) (fun _ => rfl) (by omega) rfl,
      (hHandover (by omega)).setThread (by omega) _⟩

/-- A caller enters behind the others. -/
theorem Queue.push (h : s.Queue first n) (data : Bytes) (hRoom : s.session.wal.nextIdx ≤ maxIndex) :
    (s.push data).Queue first n := by
  have hLe := h.le
  have hNext := h.next
  have hLength : (s.push data).callers.length = s.callers.length + 1 := by
    simp [Appends.push]
  -- a caller is an old one, or the new one at the end
  have hGet : ∀ k w, (s.push data).callers[k]? = some w → s.callers[k]? = some w ∨
      (k = s.callers.length ∧ w = ⟨s.session.wal.nextIdx, data, false, .waiting false⟩) := by
    intro k w hw
    change (s.callers ++ [_])[k]? = some w at hw
    rcases lt_or_ge k s.callers.length with hLt | hGe
    · rw [getElem?_append_left hLt] at hw
      exact Or.inl hw
    · rw [getElem?_append_right hGe, getElem?_singleton] at hw
      split at hw
      · exact Or.inr ⟨by omega, (Option.some.inj hw).symm⟩
      · cases hw
  constructor
  · omega
  · rw [hLength, Nat.succ_sub hLe, range'_concat, ← h.writers]
    show s.writers ++ [s.callers.length] = s.writers ++ [_]
    congr 2
    omega
  · rw [hLength, range'_concat, ← h.seqs, Nat.one_mul, ← hNext]
    simp [Appends.push]
  · rw [hLength]
    show succ64 s.session.wal.nextIdx = first + (s.callers.length + 1)
    simp only [maxIndex] at hRoom
    rw [succ64_of_lt (by omega), hNext]
    omega
  · rw [hLength]
    omega
  · intro k w hk hw
    rcases hGet k w hw with hOld | ⟨rfl, -⟩
    · exact h.released k w hk hOld
    · omega
  · intro k w hk hw
    rcases hGet k w hw with hOld | ⟨-, rfl⟩
    · exact h.pending k w hk hOld
    · rfl
  · intro k w hk hw hNone
    rcases hGet k w hw with hOld | ⟨-, rfl⟩
    · exact h.waiting k w hk hOld hNone
    · exact ⟨false, rfl⟩
  · intro l hl
    obtain ⟨hWriter, hLo, hHi, hThread⟩ := h.leader l hl
    refine ⟨hWriter, hLo, by omega, ?_⟩
    intro w hw
    rcases hGet n w hw with hOld | ⟨hEq, -⟩
    · exact hThread w hOld
    · omega

theorem push_getElem?_new (data : Bytes) : (s.push data).callers[s.callers.length]? =
    some ⟨s.session.wal.nextIdx, data, false, .waiting false⟩ := by
  simp [Appends.push]

/-- The new caller has not been through the loop around `cv.wait` yet. -/
theorem push_waiting (data : Bytes) :
    ∀ w, (s.push data).callers[s.callers.length]? = some w →
      ∃ notified, w.thread = .waiting notified := by
  intro w hw
  rw [push_getElem?_new] at hw
  cases hw
  exact ⟨false, rfl⟩

/-- **The batch leaves the queue.** The loop starts at the writer `i`. -/
theorem popBatch_spec (writer count : Nat) {i : Nat} (callers : List Writer) (hLo : i ≤ last)
    (hHi : last < i + count) :
    (popBatch writer last (List.range' i count) callers).1 =
        List.range' (last + 1) (i + count - (last + 1)) ∧
      ∀ k, (popBatch writer last (List.range' i count) callers).2[k]? =
        if i ≤ k ∧ k ≤ last ∧ k ≠ writer then (callers[k]?).map Writer.release
        else callers[k]? := by
  induction count generalizing i callers with
  | zero => omega
  | succ count ih =>
    have hReady : ∀ k, (if i ≠ writer then callers.modify i Writer.release else callers)[k]? =
        if k = i ∧ k ≠ writer then (callers[k]?).map Writer.release else callers[k]? := by
      intro k
      by_cases hWriter : i = writer
      · rw [if_neg (by simpa using hWriter), if_neg (by rintro ⟨rfl, hNe⟩; exact hNe hWriter)]
      · rw [if_pos hWriter, getElem?_modify_eq]
        refine if_congr ⟨fun hk => ⟨hk, hk ▸ hWriter⟩, And.left⟩ rfl rfl
    rw [range'_succ, popBatch]
    split
    · rename_i hLast
      subst hLast
      refine ⟨by rw [Nat.add_sub_add_left, Nat.add_sub_cancel], fun k => ?_⟩
      rw [hReady k]
      refine if_congr ⟨?_, ?_⟩ rfl rfl
      · rintro ⟨rfl, hNe⟩
        exact ⟨le_rfl, le_rfl, hNe⟩
      · rintro ⟨hGe, hLe, hNe⟩
        exact ⟨le_antisymm hLe hGe, hNe⟩
    · rename_i hLast
      obtain ⟨hRest, hCallers⟩ := ih
        (if i ≠ writer then callers.modify i Writer.release else callers) (i := i + 1)
        (by omega) (by omega)
      refine ⟨by rw [hRest]; congr 1; omega, fun k => ?_⟩
      rw [hCallers k, hReady k]
      by_cases hk : k = i
      · rw [if_neg (show ¬ (i + 1 ≤ k ∧ k ≤ last ∧ k ≠ writer) by omega)]
        exact if_congr (by omega) rfl rfl
      · rw [if_neg (show ¬ (k = i ∧ k ≠ writer) from fun hHere => hk hHere.1)]
        exact if_congr (by omega) rfl rfl

/-- What the end of a batch does to a caller. -/
def afterBatch (n last k : Nat) (w : Writer) : Writer :=
  if k = n then { w with thread := .returned 0 }
  else if n < k ∧ k ≤ last then w.release
  else if k = last + 1 then w.notifyOne
  else w

theorem afterBatch_seq (n last k : Nat) (w : Writer) : (afterBatch n last k w).seq = w.seq := by
  unfold afterBatch Writer.release Writer.notifyOne
  split_ifs <;> first | rfl | (split <;> rfl)

theorem afterBatch_data (n last k : Nat) (w : Writer) : (afterBatch n last k w).data = w.data := by
  unfold afterBatch Writer.release Writer.notifyOne
  split_ifs <;> first | rfl | (split <;> rfl)

/-- The leader takes its batch out of the queue and releases it. -/
theorem Queue.finish_spec (h : s.Queue first n) (hLo : n ≤ last) (hHi : last < s.callers.length) :
    (s.finish n last).writers = List.range' (last + 1) (s.callers.length - (last + 1)) ∧
      ∀ k, (s.finish n last).callers[k]? = (s.callers[k]?).map (afterBatch n last k) := by
  obtain ⟨hRest, hCallers⟩ := popBatch_spec n (s.callers.length - n) s.callers hLo (by omega)
  rw [← h.writers] at hRest hCallers
  have hEnd : n + (s.callers.length - n) = s.callers.length := by omega
  rw [hEnd] at hRest
  refine ⟨hRest, fun k => ?_⟩
  -- the writer behind the batch, if there is one, is notified
  have hWoken : ∀ k, (match (popBatch n last s.writers s.callers).1.head? with
      | some j => (popBatch n last s.writers s.callers).2.modify j Writer.notifyOne
      | none => (popBatch n last s.writers s.callers).2)[k]? =
        if k = last + 1 then (s.callers[k]?).map Writer.notifyOne
        else (popBatch n last s.writers s.callers).2[k]? := by
    intro k
    have hBehind : k = last + 1 →
        (popBatch n last s.writers s.callers).2[k]? = s.callers[k]? := fun hk => by
      rw [hCallers k, if_neg (by omega)]
    rw [hRest]
    cases hCount : s.callers.length - (last + 1) with
    | zero =>
      rw [range'_zero, head?_nil]
      show (popBatch n last s.writers s.callers).2[k]? = _
      by_cases hk : k = last + 1
      · have hNone : s.callers[k]? = none := getElem?_eq_none (by omega)
        rw [if_pos hk, hBehind hk, hNone]
        rfl
      · rw [if_neg hk]
    | succ m =>
      rw [range'_succ, head?_cons]
      refine (getElem?_modify_eq _ _ _ _).trans ?_
      split
      · rename_i hk
        rw [hBehind hk]
      · rfl
  refine (getElem?_modify_eq _ _ _ _).trans ?_
  rw [hWoken k, hCallers k]
  unfold afterBatch
  by_cases hn : k = n
  · rw [if_pos hn, if_neg (by omega), if_neg (by omega)]
    simp only [if_pos hn]
  · rw [if_neg hn]
    by_cases hBatch : n < k ∧ k ≤ last
    · rw [if_neg (by omega), if_pos (by omega)]
      simp only [if_neg hn, if_pos hBatch]
    · by_cases hFront : k = last + 1
      · rw [if_pos hFront]
        simp only [if_neg hn, if_neg hBatch, if_pos hFront]
      · rw [if_neg hFront, if_neg (by omega)]
        simp only [if_neg hn, if_neg hBatch, if_neg hFront, Option.map_id']

/-- Two lists that agree in a component of their elements. -/
theorem map_eq_of_getElem? {l l' : List α} (g : α → β) {f : Nat → α → α}
    (h : ∀ k, l'[k]? = (l[k]?).map (f k)) (hg : ∀ k a, g (f k a) = g a) : l'.map g = l.map g := by
  apply ext_getElem?
  intro k
  rw [getElem?_map, getElem?_map, h k, Option.map_map]
  exact congrArg (Option.map · l[k]?) (funext (hg k))

/-- **The leader is done**: its batch is released and the next writer notified. -/
theorem Queue.finish (h : s.Queue first n) (hLo : n ≤ last) (hHi : last < s.callers.length) :
    (s.finish n last).Queue first (last + 1) ∧ (s.finish n last).Handover (last + 1) := by
  obtain ⟨hWriters, hCallers⟩ := h.finish_spec hLo hHi
  have hSeqs := map_eq_of_getElem? Writer.seq hCallers (afterBatch_seq n last)
  have hLength : (s.finish n last).callers.length = s.callers.length := by
    simpa using congrArg List.length hSeqs
  have hGet : ∀ k w, (s.finish n last).callers[k]? = some w →
      ∃ w₀, s.callers[k]? = some w₀ ∧ w = afterBatch n last k w₀ := by
    intro k w hw
    rw [hCallers k] at hw
    obtain ⟨w₀, hw₀, rfl⟩ := Option.map_eq_some_iff.mp hw
    exact ⟨w₀, hw₀, rfl⟩
  have hWaits : ∀ k w, n < k → s.callers[k]? = some w → ∃ notified, w.thread = .waiting notified :=
    fun k w hk hw => h.waiting k w (by omega) hw (by omega)
  refine ⟨⟨by omega, ?_, ?_, ?_, ?_, ?_, ?_, ?_, ?_⟩, ?_⟩
  · rw [hWriters, hLength]
  · rw [hSeqs, h.seqs, hLength]
  · rw [hLength]
    exact h.next
  · rw [hLength]
    exact h.bound
  · intro k w hk hw
    obtain ⟨w₀, hw₀, rfl⟩ := hGet k w hw
    -- released before, the leader itself, or one of its batch
    rcases lt_trichotomy k n with hLt | rfl | hGt
    · rw [afterBatch, if_neg (by omega), if_neg (by omega), if_neg (by omega)]
      exact h.released k w₀ hLt hw₀
    · rw [afterBatch, if_pos rfl]
      left
      simp [h.pending k w₀ le_rfl hw₀]
    · obtain ⟨notified, hWaiting⟩ := hWaits k w₀ hGt hw₀
      rw [afterBatch, if_neg (by omega), if_pos (by omega)]
      right
      simp [Writer.release, Writer.notifyOne, hWaiting]
  · intro k w hk hw
    obtain ⟨w₀, hw₀, rfl⟩ := hGet k w hw
    have hPending := h.pending k w₀ (by omega) hw₀
    rw [afterBatch, if_neg (by omega), if_neg (by omega)]
    split
    · unfold Writer.notifyOne
      split <;> exact hPending
    · exact hPending
  · intro k w hk hw _
    obtain ⟨w₀, hw₀, rfl⟩ := hGet k w hw
    obtain ⟨notified, hWaiting⟩ := hWaits k w₀ (by omega) hw₀
    rw [afterBatch, if_neg (by omega), if_neg (by omega)]
    split
    · exact ⟨true, by simp [Writer.notifyOne, hWaiting]⟩
    · exact ⟨notified, hWaiting⟩
  · intro l hl
    cases hl
  · intro _ w hw
    obtain ⟨w₀, hw₀, rfl⟩ := hGet (last + 1) w hw
    obtain ⟨notified, hWaiting⟩ := hWaits (last + 1) w₀ (by omega) hw₀
    rw [afterBatch, if_neg (by omega), if_neg (by omega), if_pos rfl]
    simp [Writer.notifyOne, hWaiting]

end Queue

-- The files

/-- The files hold the records `old` and behind them the payloads of the first `n`
callers; while there is a leader, those of its batch come next. -/
inductive Files (pf : Platform) (b : Base) (old : List Bytes) (n : Nat) (s : Appends) : Prop
  | quiet {closed : List (List Bytes)} {cur : List Bytes} (hLeader : s.leader = none)
      (stores : Stores pf b s.session closed cur [])
      (records : closed.flatten ++ cur = old ++ s.payloads.take n)
      (small : (frames cur).length ≤ rotateSize)
  | built {closed : List (List Bytes)} {cur : List Bytes} {writer last : Nat} {batch : List Bytes}
      (hLeader : s.leader = some ⟨writer, last, frames batch, .built⟩)
      (stores : Stores pf b s.session closed cur batch)
      (records : closed.flatten ++ cur = old ++ s.payloads.take n)
      (batch_eq : batch = (s.payloads.take (last + 1)).drop n)
  | written {closed : List (List Bytes)} {cur : List Bytes} {writer last : Nat} {batch : Bytes}
      (hLeader : s.leader = some ⟨writer, last, batch, .written⟩)
      (stores : Stores pf b s.session closed cur [])
      (records : closed.flatten ++ cur = old ++ s.payloads.take (last + 1)) (cur_ne : cur ≠ [])
  | stored {closed : List (List Bytes)} {cur : List Bytes} {writer last : Nat} {batch : Bytes}
      (hLeader : s.leader = some ⟨writer, last, batch, .stored⟩)
      (stores : Stores pf b s.session closed cur [])
      (records : closed.flatten ++ cur = old ++ s.payloads.take (last + 1))
      (small : (frames cur).length ≤ rotateSize)

section Files

variable {pf : Platform} {b : Base} {old : List Bytes} {s s' : Appends} {first n k : Nat}

@[simp] theorem payloads_setThread (thread : Thread) :
    (s.setThread k thread).payloads = s.payloads :=
  map_modify_eq Writer.data (fun w => { w with thread := thread }) (fun _ => rfl) _ _

theorem payloads_push (data : Bytes) : (s.push data).payloads = s.payloads ++ [data] := by
  simp [payloads, push]

theorem Queue.length_payloads (h : s.Queue first n) :
    n ≤ s.payloads.length ∧ ∀ l, s.leader = some l → l.lastWriter + 1 ≤ s.payloads.length := by
  rw [payloads, length_map]
  exact ⟨h.le, fun l hl => (h.leader l hl).2.2.1⟩

/-- More callers, and other threads, do not matter to the files. -/
theorem Files.extend (h : s.Files pf b old n) (hQueue : s.Queue first n) (extra : List Bytes)
    (hLeader : s'.leader = s.leader) (hPayloads : s'.payloads = s.payloads ++ extra)
    (hStores : ∀ {closed cur batch}, Stores pf b s.session closed cur batch →
      Stores pf b s'.session closed cur batch) : s'.Files pf b old n := by
  obtain ⟨hn, hLast⟩ := hQueue.length_payloads
  have hTake : ∀ m ≤ s.payloads.length, s'.payloads.take m = s.payloads.take m := fun m hm => by
    rw [hPayloads, take_append_of_le_length hm]
  cases h with
  | quiet hNone stores records small =>
    exact .quiet (hLeader.trans hNone) (hStores stores) (by rw [records, hTake n hn]) small
  | built hSome stores records batch_eq =>
    exact .built (hLeader.trans hSome) (hStores stores) (by rw [records, hTake n hn])
      (by rw [batch_eq, hTake _ (hLast _ hSome)])
  | written hSome stores records cur_ne =>
    exact .written (hLeader.trans hSome) (hStores stores)
      (by rw [records, hTake _ (hLast _ hSome)]) cur_ne
  | stored hSome stores records small =>
    exact .stored (hLeader.trans hSome) (hStores stores)
      (by rw [records, hTake _ (hLast _ hSome)]) small

theorem Files.push (h : s.Files pf b old n) (hQueue : s.Queue first n) (data : Bytes) :
    (s.push data).Files pf b old n :=
  h.extend hQueue [data] rfl (payloads_push data) fun hStores => hStores.congr_indices _ _

section Stages

variable {writer last : Nat} {batch : Bytes}

theorem Files.of_none (h : s.Files pf b old n) (hNone : s.leader = none) :
    ∃ closed cur, Stores pf b s.session closed cur [] ∧
      closed.flatten ++ cur = old ++ s.payloads.take n ∧ (frames cur).length ≤ rotateSize := by
  cases h with
  | quiet _ stores records small => exact ⟨_, _, stores, records, small⟩
  | built hSome _ _ _ => cases hNone.symm.trans hSome
  | written hSome _ _ _ => cases hNone.symm.trans hSome
  | stored hSome _ _ _ => cases hNone.symm.trans hSome

theorem Files.of_built (h : s.Files pf b old n)
    (hLeader : s.leader = some ⟨writer, last, batch, .built⟩) :
    ∃ closed cur recs, batch = frames recs ∧ Stores pf b s.session closed cur recs ∧
      closed.flatten ++ cur = old ++ s.payloads.take n ∧
      recs = (s.payloads.take (last + 1)).drop n := by
  cases h with
  | quiet hNone _ _ _ => cases hNone.symm.trans hLeader
  | built hSome stores records batch_eq =>
    cases hLeader.symm.trans hSome
    exact ⟨_, _, _, rfl, stores, records, batch_eq⟩
  | written hSome _ _ _ => cases hLeader.symm.trans hSome
  | stored hSome _ _ _ => cases hLeader.symm.trans hSome

theorem Files.of_written (h : s.Files pf b old n)
    (hLeader : s.leader = some ⟨writer, last, batch, .written⟩) :
    ∃ closed cur, Stores pf b s.session closed cur [] ∧
      closed.flatten ++ cur = old ++ s.payloads.take (last + 1) ∧ cur ≠ [] := by
  cases h with
  | quiet hNone _ _ _ => cases hNone.symm.trans hLeader
  | built hSome _ _ _ => cases hLeader.symm.trans hSome
  | written hSome stores records cur_ne =>
    cases hLeader.symm.trans hSome
    exact ⟨_, _, stores, records, cur_ne⟩
  | stored hSome _ _ _ => cases hLeader.symm.trans hSome

theorem Files.of_stored (h : s.Files pf b old n)
    (hLeader : s.leader = some ⟨writer, last, batch, .stored⟩) :
    ∃ closed cur, Stores pf b s.session closed cur [] ∧
      closed.flatten ++ cur = old ++ s.payloads.take (last + 1) ∧
      (frames cur).length ≤ rotateSize := by
  cases h with
  | quiet hNone _ _ _ => cases hNone.symm.trans hLeader
  | built hSome _ _ _ => cases hLeader.symm.trans hSome
  | written hSome _ _ _ => cases hLeader.symm.trans hSome
  | stored hSome stores records small =>
    cases hLeader.symm.trans hSome
    exact ⟨_, _, stores, records, small⟩

end Stages

variable {closed : List (List Bytes)} {cur : List Bytes}

theorem records_length {m : Nat} (h : closed.flatten ++ cur = old ++ s.payloads.take m)
    (hm : m ≤ s.payloads.length) : closed.flatten.length + cur.length = old.length + m := by
  have hLength := congrArg List.length h
  rwa [length_append, length_append, length_take_of_le hm] at hLength

theorem Queue.seq_eq (h : s.Queue first n) {w : Writer} (hw : s.callers[k]? = some w) :
    w.seq = first + k := by
  obtain ⟨hLt, -⟩ := List.getElem?_eq_some_iff.mp hw
  have hSeq : (s.callers.map Writer.seq)[k]? = some w.seq := by
    rw [getElem?_map, hw]
    rfl
  rw [h.seqs, getElem?_range' hLt, Nat.one_mul] at hSeq
  exact (Option.some.inj hSeq).symm

/-- The queued writers have the next indices, one after the other. -/
theorem Queue.consecutive (h : s.Queue first n) : Consecutive (first + n) s.queued := by
  rw [h.queued_eq]
  intro i e he
  rw [getElem?_map, getElem?_drop] at he
  obtain ⟨w, hw, rfl⟩ := Option.map_eq_some_iff.mp he
  show w.seq = first + n + i
  rw [h.seq_eq hw, Nat.add_assoc]

theorem Queue.queued_data (h : s.Queue first n) : s.queued.map Prod.snd = s.payloads.drop n := by
  rw [h.queued_eq, map_map, payloads, map_drop]
  rfl

/-- All that is queued goes into the batch and into the index. -/
theorem Queue.buildBatchGroup (h : s.Queue (b.start + old.length) n)
    (stores : Stores pf b s.session closed cur [])
    (records : closed.flatten ++ cur = old ++ s.payloads.take n)
    (small : (frames cur).length ≤ rotateSize)
    (hFits : (frames (s.queued.map Prod.snd)).length ≤ maxBuffer) :
    (Session.buildBatchGroup pf s.session s.queued).1 = frames (s.queued.map Prod.snd) ∧
      Stores pf b (Session.buildBatchGroup pf s.session s.queued).2 closed cur
        (s.queued.map Prod.snd) := by
  have hLength := records_length records h.length_payloads.1
  have hSeq := h.consecutive
  rw [show b.start + old.length + n = b.start + closed.flatten.length + (cur ++ []).length by
    rw [append_nil, Nat.add_assoc, ← hLength, Nat.add_assoc]] at hSeq
  simp only [rotateSize] at small
  simp only [maxBuffer] at hFits
  have hBuilt := stores.buildBatchGroup hSeq (by rw [append_nil]; omega)
  rw [nil_append] at hBuilt
  exact hBuilt

/-- The batch is built, from all that is queued. -/
theorem Files.lead (h : s.Files pf b old n) (hQueue : s.Queue (b.start + old.length) n)
    (hLt : n < s.callers.length) (hNone : s.leader = none) (hLead : s.lead pf n = some s') :
    s'.Files pf b old n := by
  obtain ⟨closed, cur, stores, records, small⟩ := h.of_none hNone
  unfold Appends.lead at hLead
  split at hLead
  · rename_i hFits
    cases hLead
    obtain ⟨hRep, hStores⟩ := hQueue.buildBatchGroup stores records small hFits
    have hLeader : some (Leader.mk n (s.writers.getLastD n)
        (Session.buildBatchGroup pf s.session s.queued).1 .built) =
          some ⟨n, s.callers.length - 1, frames (s.queued.map Prod.snd), .built⟩ := by
      rw [hRep, hQueue.getLast hLt]
    refine .built hLeader hStores ?_ ?_
    · exact records.trans (by rw [← payloads_setThread (s := s) (k := n) .leading]; rfl)
    · rw [hQueue.queued_data]
      show _ = ((s.setThread n .leading).payloads.take (s.callers.length - 1 + 1)).drop n
      rw [payloads_setThread, take_of_length_le]
      rw [payloads, length_map]
      omega
  · cases hLead

/-- The session after the leader has rotated the file and stored `lastIdx`. -/
theorem stores_store (last : Nat) (h : Stores pf b s.session closed cur []) (hCur : cur ≠ [])
    (hSeq : s.lastSeq last + 1 = b.start + closed.flatten.length + cur.length)
    (hLt : s.lastSeq last + 1 < 2 ^ 64) :
    ∃ closed' cur', Stores pf b (s.store pf last) closed' cur' [] ∧
      closed'.flatten ++ cur' = closed.flatten ++ cur ∧ (frames cur').length ≤ rotateSize := by
  have hPos := h.curWalPos_eq
  rw [append_nil] at hPos
  unfold store
  dsimp only
  split
  · refine ⟨closed ++ [cur], [], (h.rotate hCur hSeq hLt).congr_indices _ _, ?_, by simp⟩
    simp
  · rename_i hSmall
    exact ⟨closed, cur, h.congr_indices _ _, rfl, by omega⟩

theorem store_nextIdx (pf : Platform) (s : Appends) (last : Nat) :
    (s.store pf last).wal.nextIdx = s.session.wal.nextIdx := by
  unfold store
  dsimp only
  split
  · exact Session.rotate_nextIdx ..
  · rfl

end Files

-- Runs

/-- What holds between any two steps. -/
structure Sound (pf : Platform) (b : Base) (old : List Bytes) (n : Nat) (s : Appends) : Prop where
  queue : s.Queue (b.start + old.length) n
  handover : s.Handover n
  files : s.Files pf b old n

section Steps

variable {pf : Platform} {b : Base} {old : List Bytes} {s s' : Appends} {n k : Nat}

variable {last first writer : Nat} {batch : Bytes} {session : Session} {a : AppendAction}

/-- The leader goes on: the callers stay as they are. -/
theorem Queue.leads (h : s.Queue first n) {l : Leader} (hLeader : s.leader = some l) (l' : Leader)
    (hWriter : l'.writer = l.writer) (hLast : l'.lastWriter = l.lastWriter)
    (hNext : session.wal.nextIdx = s.session.wal.nextIdx) :
    Queue first n { s with session := session, leader := some l' } where
  le := h.le
  writers := h.writers
  seqs := h.seqs
  next := hNext.trans h.next
  bound := h.bound
  released := h.released
  pending := h.pending
  waiting := by
    intro j w hj hw hNone
    refine h.waiting j w hj hw fun hEq => ?_
    cases hNone hEq
  leader := by
    intro l'' hl''
    obtain rfl := Option.some.inj hl''
    rw [hWriter, hLast]
    exact h.leader l hLeader

section Sound

variable (h : s.Sound pf b old n)
include h

theorem Sound.check
    (hThread : ∀ w, s.callers[k]? = some w → ∃ notified, w.thread = .waiting notified)
    (hCheck : s.check pf k = some s') : s'.Sound pf b old n := by
  obtain ⟨hQueue, hHandover⟩ := h.queue.check (fun _ => h.handover) hThread hCheck
  refine ⟨hQueue, hHandover, ?_⟩
  rcases h.queue.check_cases hThread hCheck with ⟨w, -, -, -, rfl⟩ | ⟨rfl, hLt, hNone, hLead⟩ |
    ⟨-, rfl⟩
  · exact h.files.extend h.queue [] rfl (by simp) fun hStores => hStores
  · exact h.files.lead h.queue hLt hNone hLead
  · exact h.files.extend h.queue [] rfl (by simp) fun hStores => hStores

/-- A caller enters, and leads if it is first. -/
theorem Sound.enqueue {data : Bytes} (hRoom : s.session.wal.nextIdx ≤ maxIndex)
    (hCheck : (s.push data).check pf s.callers.length = some s') : s'.Sound pf b old n := by
  have hQueue := h.queue.push data hRoom
  have hFiles := h.files.push h.queue data
  have hThread := push_waiting (s := s) data
  have hHandover : s.callers.length ≠ n → (s.push data).Handover n := by
    intro hNe hNone w hw
    have hLe := h.queue.le
    change (s.callers ++ [_])[n]? = some w at hw
    rw [getElem?_append_left (by omega)] at hw
    exact h.handover hNone w hw
  obtain ⟨hQueue', hHandover'⟩ := hQueue.check hHandover hThread hCheck
  refine ⟨hQueue', hHandover', ?_⟩
  rcases hQueue.check_cases hThread hCheck with ⟨w, -, -, -, rfl⟩ | ⟨hEq, hLt, hNone, hLead⟩ |
    ⟨-, rfl⟩
  · exact hFiles.extend hQueue [] rfl (by simp) fun hStores => hStores
  · rw [hEq] at hLead
    exact hFiles.lead hQueue hLt hNone hLead
  · exact hFiles.extend hQueue [] rfl (by simp) fun hStores => hStores

/-- The leader writes its batch. -/
theorem Sound.write (hLeader : s.leader = some ⟨writer, last, batch, .built⟩) :
    Sound pf b old n { s with
      session := s.session.write batch
      leader := some ⟨writer, last, batch, .written⟩ } := by
  refine ⟨h.queue.leads hLeader ⟨writer, last, batch, .written⟩ rfl rfl
    (congrArg Wal.nextIdx (Session.write_wal s.session batch)), fun hNone => (nomatch hNone), ?_⟩
  obtain ⟨-, hLo, hHi, -⟩ := h.queue.leader _ hLeader
  dsimp only at hLo hHi
  obtain ⟨closed, cur, recs, rfl, stores, records, hRecs⟩ := h.files.of_built hLeader
  refine .written rfl stores.write ?_ ?_
  · have hSplit := take_append_drop n (s.payloads.take (last + 1))
    rw [take_take, Nat.min_eq_left (by omega)] at hSplit
    rw [← append_assoc, records, hRecs, append_assoc, hSplit]
    rfl
  · intro hNil
    have hEmpty := congrArg List.length (append_eq_nil_iff.mp hNil).2
    rw [hRecs, length_drop, length_take, payloads, length_map,
      length_nil] at hEmpty
    omega

/-- The leader starts a new file if the old one is full. -/
theorem Sound.rotate (hLeader : s.leader = some ⟨writer, last, batch, .written⟩) :
    Sound pf b old n { s with
      session := s.store pf last
      leader := some ⟨writer, last, batch, .stored⟩ } := by
  refine ⟨h.queue.leads hLeader ⟨writer, last, batch, .stored⟩ rfl rfl (store_nextIdx pf s last),
    fun hNone => (nomatch hNone), ?_⟩
  obtain ⟨-, hLo, hHi, -⟩ := h.queue.leader _ hLeader
  dsimp only at hLo hHi
  obtain ⟨closed, cur, stores, records, hNe⟩ := h.files.of_written hLeader
  have hLength := records_length records (h.queue.length_payloads.2 _ hLeader)
  obtain ⟨w, hw⟩ : ∃ w, s.callers[last]? = some w := ⟨_, getElem?_eq_getElem hHi⟩
  have hSeq : s.lastSeq last = b.start + old.length + last := by
    rw [lastSeq, hw, Option.map_some, Option.getD_some, h.queue.seq_eq hw]
  have hBound := h.queue.bound
  simp only [maxIndex] at hBound
  obtain ⟨closed', cur', hStores, hSame, hSmall⟩ :=
    stores_store last stores hNe (by omega) (by omega)
  exact .stored rfl hStores (hSame.trans records) hSmall

omit h in
theorem Queue.payloads_finish (h : s.Queue first n) (hLo : n ≤ last)
    (hHi : last < s.callers.length) : (s.finish n last).payloads = s.payloads :=
  map_eq_of_getElem? Writer.data (h.finish_spec hLo hHi).2 (afterBatch_data n last)

theorem Sound.finish (hLeader : s.leader = some ⟨writer, last, batch, .stored⟩) :
    (s.finish writer last).Sound pf b old (last + 1) := by
  obtain ⟨rfl, hLo, hHi, -⟩ := h.queue.leader _ hLeader
  obtain ⟨hQueue, hHandover⟩ := h.queue.finish hLo hHi
  refine ⟨hQueue, hHandover, ?_⟩
  obtain ⟨closed, cur, stores, records, small⟩ := h.files.of_stored hLeader
  exact .quiet rfl stores (by rw [records, h.queue.payloads_finish hLo hHi]) small

/-- **Step lemma.** Only the end of a batch takes callers out of the queue. -/
theorem Sound.step (hStep : s.step pf a = some s') :
    ∃ n', s'.Sound pf b old n' ∧ (n' = 0 ↔ n = 0 ∧ a ≠ .finish) := by
  cases a with
  | enqueue data =>
    obtain ⟨hRoom, hCheck⟩ := step_enqueue.mp hStep
    exact ⟨n, h.enqueue hRoom hCheck, by simp⟩
  | resume k =>
    obtain ⟨⟨w, notified, hw, hThread⟩, hCheck⟩ := step_resume.mp hStep
    refine ⟨n, h.check (fun w' hw' => ?_) hCheck, by simp⟩
    cases hw.symm.trans hw'
    exact ⟨notified, hThread⟩
  | write =>
    obtain ⟨writer, last, batch, hLeader, rfl⟩ := step_write.mp hStep
    exact ⟨n, h.write hLeader, by simp⟩
  | rotate =>
    obtain ⟨writer, last, batch, hLeader, -, rfl⟩ := step_rotate.mp hStep
    exact ⟨n, h.rotate hLeader, by simp⟩
  | finish =>
    obtain ⟨writer, last, batch, hLeader, rfl⟩ := step_finish.mp hStep
    exact ⟨last + 1, h.finish hLeader, by simp⟩

end Sound

/-- The first caller of all leads a batch, and nobody else releases it. -/
def FirstLeads (s : Appends) : Prop := ∀ w, s.callers[0]? = some w → w.done = false

theorem FirstLeads.congr (h : s.FirstLeads)
    (hSame : s'.callers.map Writer.done = s.callers.map Writer.done) : s'.FirstLeads := by
  intro w hw
  have hDone := congrArg (·[0]?) hSame
  simp only [getElem?_map, hw, Option.map_some] at hDone
  obtain ⟨w₀, hw₀, hEq⟩ := Option.map_eq_some_iff.mp hDone.symm
  rw [← hEq, h w₀ hw₀]

theorem setThread_done (thread : Thread) :
    (s.setThread k thread).callers.map Writer.done = s.callers.map Writer.done :=
  map_modify_eq Writer.done (fun w => { w with thread := thread }) (fun _ => rfl) s.callers k

theorem check_done (hCheck : s.check pf k = some s') :
    s'.callers.map Writer.done = s.callers.map Writer.done := by
  unfold Appends.check at hCheck
  split at hCheck
  · cases hCheck
  · split_ifs at hCheck
    · cases hCheck
      exact setThread_done _
    · unfold Appends.lead at hCheck
      split_ifs at hCheck
      cases hCheck
      exact setThread_done _
    · cases hCheck
      exact setThread_done _

/-- The end of a batch releases callers behind its leader. -/
theorem FirstLeads.finish (h : s.FirstLeads) (hQueue : s.Queue first n) (hLo : n ≤ last)
    (hHi : last < s.callers.length) : (s.finish n last).FirstLeads := by
  intro w hw
  rw [(hQueue.finish_spec hLo hHi).2 0] at hw
  obtain ⟨w₀, hw₀, rfl⟩ := Option.map_eq_some_iff.mp hw
  unfold afterBatch
  rw [if_neg (show ¬ (n < 0 ∧ 0 ≤ last) by omega), if_neg (show ¬ 0 = last + 1 by omega)]
  split <;> exact h w₀ hw₀

/-- The first caller is not released by another one. -/
theorem FirstLeads.step (h : s.FirstLeads) (hSound : s.Sound pf b old n)
    (hStep : s.step pf a = some s') : s'.FirstLeads := by
  cases a with
  | enqueue data =>
    obtain ⟨-, hCheck⟩ := step_enqueue.mp hStep
    refine FirstLeads.congr ?_ (check_done hCheck)
    intro w hw
    change (s.callers ++ [_])[0]? = some w at hw
    cases hCallers : s.callers with
    | nil =>
      rw [hCallers] at hw
      cases hw
      rfl
    | cons w₀ rest =>
      rw [hCallers] at hw
      exact h w (by rw [hCallers]; exact hw)
  | resume k => exact h.congr (check_done (step_resume.mp hStep).2)
  | write =>
    obtain ⟨writer, last, batch, -, rfl⟩ := step_write.mp hStep
    exact h
  | rotate =>
    obtain ⟨writer, last, batch, -, -, rfl⟩ := step_rotate.mp hStep
    exact h
  | finish =>
    obtain ⟨writer, last, batch, hLeader, rfl⟩ := step_finish.mp hStep
    obtain ⟨rfl, hLo, hHi, -⟩ := hSound.queue.leader _ hLeader
    exact h.finish hSound.queue hLo hHi

/-- **Run lemma.** -/
theorem Sound.run (h : s.Sound pf b old n) (hFirst : s.FirstLeads) {acts : List AppendAction}
    (hRun : run (Appends.step pf) s acts = some s') :
    ∃ n', s'.Sound pf b old n' ∧ s'.FirstLeads ∧ (n' = 0 ↔ n = 0 ∧ .finish ∉ acts) := by
  induction acts generalizing s n with
  | nil =>
    cases hRun
    exact ⟨n, h, hFirst, by simp⟩
  | cons a acts ih =>
    obtain ⟨s₁, hStep, hRest⟩ := run_cons_eq_some.mp hRun
    obtain ⟨n₁, hSound, hZero⟩ := h.step hStep
    obtain ⟨n', hSound', hFirst', hZero'⟩ := ih hSound (hFirst.step h hStep) hRest
    refine ⟨n', hSound', hFirst', ?_⟩
    rw [hZero', hZero, mem_cons, not_or, and_assoc, ne_comm]

/-- What is in the files. -/
theorem Sound.files_eq (h : s.Sound pf b old n) :
    n ≤ s.included ∧ ∃ closed cur,
      s.session.dir.entries = b.files ++ closedFiles pf b.start closed ++
        [(b.start + closed.flatten.length, frames cur)] ∧
      closed.flatten ++ cur = old ++ s.payloads.take s.included := by
  have hFinished := h.queue.finished_eq
  cases h.files with
  | quiet hLeader stores records _ =>
    rw [included, hLeader, hFinished]
    exact ⟨le_rfl, _, _, stores.dir_eq, records⟩
  | built hLeader stores records _ =>
    rw [included, hLeader, hFinished]
    exact ⟨le_rfl, _, _, stores.dir_eq, records⟩
  | written hLeader stores records _ =>
    have hLo := (h.queue.leader _ hLeader).2.1
    rw [included, hLeader]
    exact ⟨Nat.le_succ_of_le hLo, _, _, stores.dir_eq, records⟩
  | stored hLeader stores records _ =>
    have hLo := (h.queue.leader _ hLeader).2.1
    rw [included, hLeader]
    exact ⟨Nat.le_succ_of_le hLo, _, _, stores.dir_eq, records⟩

theorem idle_sound {l : SegLog Bytes} (h : Represents pf b session l) :
    (idle session).Sound pf b l.entries 0 where
  queue :=
    { le := le_rfl
      writers := rfl
      seqs := rfl
      next := h.nextIdx_eq
      bound := h.index_le
      released := fun _ _ hk => absurd hk (Nat.not_lt_zero _)
      pending := fun _ _ _ hw => nomatch hw
      waiting := fun _ _ _ hw => nomatch hw
      leader := fun _ hl => nomatch hl }
  handover := fun _ _ hw => nomatch hw
  files := .quiet rfl h.holds.stores (by simp [idle, payloads, SegLog.entries]) h.cur_le

end Steps

/-- What holds of any number of callers of `appendLog` on a log:
the callers have been given the next indices, in the order in which they were queued;
the files hold the records of the log and behind them, in that order and each once, the
payloads of the callers whose records have been written; every caller that has left the
queue is one of these and has been released; and while a caller is queued, there is a
leader or the first of the queue has been notified to become it. -/
structure InOrder (pf : Platform) (b : Base) (session : Session) (l : SegLog Bytes) (s : Appends) :
    Prop where
  indices : ∀ k w, s.callers[k]? = some w → w.seq = session.wal.nextIdx + k
  files : ∃ closed cur, s.session.dir.entries = b.files ++ closedFiles pf b.start closed ++
      [(b.start + closed.flatten.length, frames cur)] ∧
    closed.flatten ++ cur = l.entries ++ s.payloads.take s.included
  released : ∀ k w, s.callers[k]? = some w → k ∉ s.writers → k < s.included ∧ w.Released
  handover : s.writers ≠ [] → s.leader ≠ none ∨ ∃ k w, s.writers.head? = some k ∧
    s.callers[k]? = some w ∧ w.thread = .waiting true

section InOrder

variable {pf : Platform} {b : Base} {session : Session} {l : SegLog Bytes} {s : Appends} {n : Nat}

/-- What the callers can rely on. -/
theorem Sound.inOrder (h : s.Sound pf b l.entries n) (hLog : Represents pf b session l) :
    InOrder pf b session l s := by
  have hQueue := h.queue
  obtain ⟨hIncluded, hFiles⟩ := h.files_eq
  refine ⟨?_, hFiles, ?_, ?_⟩
  · intro k w hw
    rw [hQueue.seq_eq hw, hLog.nextIdx_eq]
    rfl
  · intro k w hw hOut
    obtain ⟨hLt, -⟩ := List.getElem?_eq_some_iff.mp hw
    have hk : k < n := by
      by_contra hGe
      refine hOut ?_
      rw [hQueue.writers, mem_range'_1]
      omega
    exact ⟨by omega, hQueue.released k w hk hw⟩
  · intro hNe
    by_cases hLeader : s.leader = none
    · right
      have hLt : n < s.callers.length := by
        by_contra hGe
        refine hNe ?_
        rw [hQueue.writers, show s.callers.length - n = 0 by omega]
        rfl
      have hw := getElem?_eq_getElem hLt
      exact ⟨n, _, hQueue.head.mpr ⟨rfl, hLt⟩, hw, h.handover hLeader _ hw⟩
    · exact Or.inl hLeader

/-- **Callers that have returned** have left the queue. -/
theorem Queue.returned {first : Nat} (h : s.Queue first n) {k : Nat} {w : Writer}
    (hw : s.callers[k]? = some w) {value : Nat} (hReturned : w.thread = .returned value) :
    k < n ∧ value = if w.done then w.seq else 0 := by
  have hk : k < n := by
    by_contra hGe
    by_cases hLeads : k = n ∧ s.leader ≠ none
    · obtain ⟨rfl, hSome⟩ := hLeads
      obtain ⟨l, hl⟩ := Option.ne_none_iff_exists'.mp hSome
      rw [(h.leader l hl).2.2.2 w hw] at hReturned
      cases hReturned
    · obtain ⟨notified, hWaiting⟩ := h.waiting k w (by omega) hw (by tauto)
      rw [hWaiting] at hReturned
      cases hReturned
  refine ⟨hk, ?_⟩
  rcases h.released k w hk hw with hThread | ⟨-, hThread⟩
  · exact Thread.returned.inj (hReturned.symm.trans hThread)
  · rw [hThread] at hReturned
    cases hReturned

/-- Whatever else callers of `appendLog` can rely on holds after every run on a log. A caller that
has returned was given its index back just if another caller has led its batch and released it;
and all callers that have returned were, just if no batch has come to its end. -/
theorem callers_given_indices_iff (pf : Platform) {b : Base} {session : Session} {l : SegLog Bytes}
    (hLog : Represents pf b session l) {acts : List AppendAction} {s : Appends}
    (hRun : run (step pf) (idle session) acts = some s) :
    InOrder pf b session l s ∧
    (∀ k w value, s.callers[k]? = some w → w.thread = .returned value →
      (value = session.wal.nextIdx + k ↔ w.done = true)) ∧
    ((∀ k w value, s.callers[k]? = some w → w.thread = .returned value →
      value = session.wal.nextIdx + k) ↔ .finish ∉ acts) := by
  obtain ⟨n, hSound, hFirst, hZero⟩ := (idle_sound hLog).run (fun _ hw => nomatch hw) hRun
  have hOrder := hSound.inOrder hLog
  have hPos : 0 < session.wal.nextIdx := by
    rw [hLog.nextIdx_eq]
    exact Nat.add_pos_left b.start_pos _
  have hEach : ∀ k w value, s.callers[k]? = some w → w.thread = .returned value →
      (value = session.wal.nextIdx + k ↔ w.done = true) := by
    intro k w value hw hReturned
    rw [(hSound.queue.returned hw hReturned).2]
    cases hDone : w.done with
    | false => simp; omega
    | true => simpa using hOrder.indices k w hw
  refine ⟨hOrder, hEach, ?_⟩
  have hNoBatch : n = 0 ↔ .finish ∉ acts := by rw [hZero, eq_self_iff_true, true_and]
  rw [← hNoBatch]
  constructor
  · intro hAll
    by_contra hSome
    -- the first caller has led the first batch
    have hLe := hSound.queue.le
    obtain ⟨w, hw⟩ : ∃ w, s.callers[0]? = some w := ⟨_, getElem?_eq_getElem (by omega)⟩
    have hDone := hFirst w hw
    rcases hSound.queue.released 0 w (by omega) hw with hThread | ⟨hYes, -⟩
    · have hTrue := (hEach 0 w _ hw hThread).mp (hAll 0 w _ hw hThread)
      rw [hDone] at hTrue
      cases hTrue
    · rw [hDone] at hYes
      cases hYes
  · rintro rfl k w value hw hReturned
    have hNone := (hSound.queue.returned hw hReturned).1
    omega

end InOrder

/-- Two calls, one after the other: both return 0, with the indices 1 and 2. -/
theorem leaders_return_zero :
    ∃ session s, Session.initial Platform.constant ∅ = some session ∧
      run (step Platform.constant) (idle session)
        [.enqueue [97], .write, .rotate, .finish, .enqueue [98], .write, .rotate, .finish] =
          some s ∧
      s.callers = [⟨1, [97], false, .returned 0⟩, ⟨2, [98], false, .returned 0⟩] := by
  have hReached : ∃ s, run (step Platform.constant)
        (idle ((Session.initial Platform.constant ∅).getD ⟨∅, {}⟩))
        [.enqueue [97], .write, .rotate, .finish, .enqueue [98], .write, .rotate, .finish] =
          some s ∧
      s.callers = [⟨1, [97], false, .returned 0⟩, ⟨2, [98], false, .returned 0⟩] :=
    run_reaches (by decide +kernel)
  obtain ⟨s, hRun, hCallers⟩ := hReached
  exact ⟨_, s, rfl, hRun, hCallers⟩

/-- Two callers come while the first one writes; they form the next batch. The last one is given
its index back by the leader of that batch. -/
theorem callers_given_indices_three :
    ∃ session s, Session.initial Platform.constant ∅ = some session ∧
      run (step Platform.constant) (idle session)
        [.enqueue [97], .enqueue [98], .write, .enqueue [99], .rotate, .finish, .resume 1, .write,
          .rotate, .finish, .resume 2] = some s ∧
      s.callers.map Writer.thread = [.returned 0, .returned 0, .returned 3] ∧
      InOrder Platform.constant .empty session .empty s ∧
      s.payloads.take s.included = [[97], [98], [99]] := by
  obtain ⟨session, hInitial, hLog⟩ := Represents.initial_empty Platform.constant
  have hReached : ∃ s, run (step Platform.constant)
        (idle ((Session.initial Platform.constant ∅).getD ⟨∅, {}⟩))
        [.enqueue [97], .enqueue [98], .write, .enqueue [99], .rotate, .finish, .resume 1, .write,
          .rotate, .finish, .resume 2] = some s ∧
      s.callers.map Writer.thread = [.returned 0, .returned 0, .returned 3] ∧
      s.payloads.take s.included = [[97], [98], [99]] := run_reaches (by decide +kernel)
  obtain ⟨s, hRun, hThreads, hPayloads⟩ := hReached
  rw [hInitial, Option.getD_some] at hRun
  exact ⟨session, s, hInitial, hRun, hThreads,
    (callers_given_indices_iff Platform.constant hLog hRun).1, hPayloads⟩

end Appends

end MyBase
