import MyBase.Lib.Run
import MyBase.Lib.Tally

/-!
# MyBase — the read-write lock

`ReadWriteLock` is a counter under a mutex: -1 for a writer, else the number of readers.
Readers and writers wait on one condition variable. A reader also waits while a writer
does, which is what `writeWaitCount` is for.

A method runs atomically between two waits. A waiting thread goes on when it has been woken
up: `notify_all` of `writeUnlock` wakes up all of them, `notify_one` of `readUnlock` one, no
matter which. When that one is a reader, and a writer waits as well, the reader finds
`writeWaitCount > 0` and waits again; the writer has not been told.

## Results

* `Counts` — the two counters are the numbers of threads they stand for, in every run;
* `Cared` — a waiting thread has a woken writer, or a lock that is held, to wait for: kept as
  long as `notify_one` reaches a writer whenever there is one;
* `exclusive_and_not_stuck` — what follows of every run.
-/

namespace MyBase

open Lib

/-- Where a thread is. -/
inductive ThreadAt where
  | outside
  | reading
  | writing
  | waitsRead
  | waitsWrite
  /-- Woken up, before it looks at the counters again. -/
  | wokenRead
  | wokenWrite
deriving DecidableEq, Repr

namespace ThreadAt

instance : Fintype ThreadAt where
  elems := {.outside, .reading, .writing, .waitsRead, .waitsWrite, .wokenRead, .wokenWrite}
  complete t := by cases t <;> decide

/-- A notification reaches the thread. -/
def wake : ThreadAt → ThreadAt
  | .waitsRead => .wokenRead
  | .waitsWrite => .wokenWrite
  | t => t

/-- In the wait set of the condition variable. -/
def Waits (t : ThreadAt) : Prop := t = .waitsRead ∨ t = .waitsWrite

instance (t : ThreadAt) : Decidable t.Waits := inferInstanceAs (Decidable (_ ∨ _))

end ThreadAt

/-- The lock, and the threads that use it. -/
structure ReadWriteLock (n : Nat) where
  count : Int
  writeWaitCount : Int
  threads : Fin n → ThreadAt

namespace ReadWriteLock

variable {n : Nat}

/-- An `int32_t`. -/
def toInt32 (x : Int) : Int := x.bmod (2 ^ 32)

def start : ReadWriteLock n := ⟨0, 0, fun _ => .outside⟩

def goTo (l : ReadWriteLock n) (t : Fin n) (at' : ThreadAt) : ReadWriteLock n :=
  { l with threads := Function.update l.threads t at' }

/-- The loop of `readLock`, up to a wait or the end. -/
def tryRead (l : ReadWriteLock n) (t : Fin n) : ReadWriteLock n :=
  if l.count < 0 ∨ 0 < l.writeWaitCount then l.goTo t .waitsRead
  else { l with count := toInt32 (l.count + 1) }.goTo t .reading

/-- The loop of `writeLock`, up to a wait or the end. -/
def tryWrite (l : ReadWriteLock n) (t : Fin n) : ReadWriteLock n :=
  if l.count ≠ 0 then l.goTo t .waitsWrite
  else { l with writeWaitCount := toInt32 (l.writeWaitCount - 1), count := -1 }.goTo t .writing

/-- `notify_one` may reach any waiting thread, and none when there is none. -/
def Notifiable (l : ReadWriteLock n) : Option (Fin n) → Prop
  | some w => (l.threads w).Waits
  | none => ∀ i, ¬ (l.threads i).Waits

instance (l : ReadWriteLock n) : ∀ w, Decidable (l.Notifiable w)
  | some w => inferInstanceAs (Decidable (l.threads w).Waits)
  | none => inferInstanceAs (Decidable (∀ _, _))

/-- A notification for one thread, if there is one. -/
def notify (l : ReadWriteLock n) : Option (Fin n) → ReadWriteLock n
  | some w => l.goTo w (l.threads w).wake
  | none => l

inductive Action (n : Nat) where
  | readLock (t : Fin n)
  | writeLock (t : Fin n)
  /-- A woken thread gets the mutex, and looks at the counters again. -/
  | resume (t : Fin n)
  /-- With the thread that the notification reaches. -/
  | readUnlock (t : Fin n) (notified : Option (Fin n))
  | writeUnlock (t : Fin n)
deriving DecidableEq

def readUnlock (l : ReadWriteLock n) (t : Fin n) (notified : Option (Fin n)) :
    Option (ReadWriteLock n) :=
  let l' := { l with count := toInt32 (l.count - 1) }.goTo t .outside
  if l'.count = 0 then
    if l'.Notifiable notified then some (l'.notify notified) else none
  else if notified = none then some l' else none

def writeUnlock (l : ReadWriteLock n) (t : Fin n) : ReadWriteLock n :=
  let l' := { l with count := 0 }.goTo t .outside
  { l' with threads := fun i => (l'.threads i).wake }

def step (l : ReadWriteLock n) : Action n → Option (ReadWriteLock n)
  | .readLock t => if l.threads t = .outside then some (l.tryRead t) else none
  | .writeLock t =>
    if l.threads t = .outside then
      some ({ l with writeWaitCount := toInt32 (l.writeWaitCount + 1) }.tryWrite t)
    else none
  | .resume t =>
    if l.threads t = .wokenRead then some (l.tryRead t)
    else if l.threads t = .wokenWrite then some (l.tryWrite t)
    else none
  | .readUnlock t notified => if l.threads t = .reading then l.readUnlock t notified else none
  | .writeUnlock t => if l.threads t = .writing then some (l.writeUnlock t) else none

/-- A writer does not hold the lock together with anybody else. -/
def Exclusive (l : ReadWriteLock n) : Prop :=
  ∀ i j, l.threads i = .writing → i ≠ j → l.threads j ≠ .reading ∧ l.threads j ≠ .writing

/-- The lock is free, there are threads that wait for it, and no thread that could still go
on: the others are done. -/
def Stuck (l : ReadWriteLock n) : Prop :=
  l.count = 0 ∧ (∃ i, (l.threads i).Waits) ∧ ∀ i, l.threads i = .outside ∨ (l.threads i).Waits

/-- When a writer waits, a notification for one thread reaches a writer. -/
def WakesWriter (l : ReadWriteLock n) : Action n → Prop
  | .readUnlock _ (some w) => (∃ i, l.threads i = .waitsWrite) → l.threads w = .waitsWrite
  | _ => True

-- Numbers of threads

/-- The number of threads that are at one place. -/
def number (l : ReadWriteLock n) (x : ThreadAt) : Nat := tally Finset.univ l.threads x

variable {l l' : ReadWriteLock n} {t : Fin n}

theorem sum_number (l : ReadWriteLock n) :
    l.number .outside + l.number .reading + l.number .writing + l.number .waitsRead +
      l.number .waitsWrite + l.number .wokenRead + l.number .wokenWrite = n := by
  have hAll : ∀ i ∈ (Finset.univ : Finset (Fin n)), l.threads i ∈ (Finset.univ : Finset ThreadAt) :=
    fun i _ => Finset.mem_univ _
  have hSum : ∑ x : ThreadAt, l.number x = n := (sum_tally hAll).trans (Finset.card_fin n)
  refine Eq.trans ?_ hSum
  show _ = ∑ x ∈ {ThreadAt.outside, .reading, .writing, .waitsRead, .waitsWrite, .wokenRead,
    .wokenWrite}, l.number x
  simp [add_assoc]

theorem number_pos_iff {x : ThreadAt} : 0 < l.number x ↔ ∃ i, l.threads i = x := by
  rw [number, tally, Finset.card_pos]
  constructor
  · rintro ⟨i, hi⟩
    exact ⟨i, (Finset.mem_filter.mp hi).2⟩
  · rintro ⟨i, hi⟩
    exact ⟨i, Finset.mem_filter.mpr ⟨Finset.mem_univ i, hi⟩⟩

/-- A thread goes from one place to another. -/
structure Moves (l l' : ReadWriteLock n) (a b : ThreadAt) : Prop where
  number : ∀ x, l'.number x + (if a = x then 1 else 0) = l.number x + if b = x then 1 else 0

theorem moves {a b : ThreadAt} (hAt : l.threads t = a)
    (hThreads : l'.threads = Function.update l.threads t b) : Moves l l' a b := by
  refine ⟨fun x => ?_⟩
  rw [number, hThreads, ← hAt]
  exact tally_update (Finset.mem_univ t) b x

section Moves

variable {a b x : ThreadAt}

theorem Moves.same (h : Moves l l' a b) (ha : a ≠ x) (hb : b ≠ x) :
    l'.number x = l.number x := by
  have hNumber := h.number x
  rwa [if_neg ha, if_neg hb] at hNumber

theorem Moves.entered (h : Moves l l' a b) (hNe : a ≠ b) : l'.number b = l.number b + 1 := by
  have hNumber := h.number b
  rwa [if_neg hNe, if_pos rfl] at hNumber

theorem Moves.left (h : Moves l l' a b) (hNe : b ≠ a) : l'.number a + 1 = l.number a := by
  have hNumber := h.number a
  rwa [if_pos rfl, if_neg hNe] at hNumber

end Moves

/-- `notify_all` wakes all waiting threads. -/
theorem numbers_wakeAll (hThreads : l'.threads = fun i => (l.threads i).wake) :
    l'.number .reading = l.number .reading ∧ l'.number .writing = l.number .writing ∧
      l'.number .waitsRead = 0 ∧ l'.number .waitsWrite = 0 ∧
      l'.number .wokenWrite = l.number .waitsWrite + l.number .wokenWrite := by
  have hNumber : ∀ x, l'.number x = ∑ y with y.wake = x, l.number y := by
    intro x
    rw [number, hThreads]
    exact tally_comp ThreadAt.wake x
  refine ⟨?_, ?_, ?_, ?_, ?_⟩
  · rw [hNumber, show ({y | y.wake = .reading} : Finset ThreadAt) = {.reading} by decide,
      Finset.sum_singleton]
  · rw [hNumber, show ({y | y.wake = .writing} : Finset ThreadAt) = {.writing} by decide,
      Finset.sum_singleton]
  · rw [hNumber, show ({y | y.wake = .waitsRead} : Finset ThreadAt) = ∅ by decide,
      Finset.sum_empty]
  · rw [hNumber, show ({y | y.wake = .waitsWrite} : Finset ThreadAt) = ∅ by decide,
      Finset.sum_empty]
  · rw [hNumber, show ({y | y.wake = .wokenWrite} : Finset ThreadAt) =
      {.waitsWrite, .wokenWrite} by decide, Finset.sum_pair (by decide)]

theorem two_le_number {x : ThreadAt} {i j : Fin n} (hi : l.threads i = x) (hj : l.threads j = x)
    (hij : i ≠ j) : 2 ≤ l.number x := by
  rw [number, tally]
  exact Finset.one_lt_card.mpr ⟨i, by simp [hi], j, by simp [hj], hij⟩

theorem toInt32_eq {x : Int} (hLow : -2 ^ 31 ≤ x) (hHigh : x < 2 ^ 31) : toInt32 x = x :=
  Int.bmod_eq_of_le (by omega) (by omega)

-- The counters

/-- What the counters count. -/
structure Counts (l : ReadWriteLock n) : Prop where
  count_eq : l.count = l.number .reading - l.number .writing
  exclusive : l.number .writing = 0 ∨ l.number .writing = 1 ∧ l.number .reading = 0
  waiting_eq : l.writeWaitCount = l.number .waitsWrite + l.number .wokenWrite

/-- Who looks after the threads that wait: readers wait only for writers, and when the lock
is free a writer has been woken up for them. -/
structure Cared (l : ReadWriteLock n) : Prop where
  readers : 0 < l.number .waitsRead → 0 ≤ l.count → 0 < l.writeWaitCount
  writers : l.count = 0 → 0 < l.writeWaitCount → 0 < l.number .wokenWrite

theorem number_start {x : ThreadAt} (hx : x ≠ .outside) :
    (start : ReadWriteLock n).number x = 0 :=
  tally_eq_zero fun _ _ h => hx h.symm

theorem start_counts : (start : ReadWriteLock n).Counts := by
  refine ⟨?_, Or.inl (number_start (by decide)), ?_⟩
  · rw [number_start (by decide), number_start (by decide)]
    rfl
  · rw [number_start (by decide), number_start (by decide)]
    rfl

theorem start_cared : (start : ReadWriteLock n).Cared :=
  ⟨fun h => absurd h (by rw [number_start (by decide)]; decide), fun _ h => absurd h (lt_irrefl 0)⟩

section Steps

variable (hn : n < 2 ^ 31)

include hn

variable {w : Option (Fin n)} {a : ThreadAt}

variable (h : l.Counts)
include h

/-- A thread that is not in the lock looks at the counters, for reading. -/
theorem Counts.tryRead (hAt : l.threads t = a) (ha : a = .outside ∨ a = .wokenRead) :
    (l.tryRead t).Counts ∧ (l.Cared → (l.tryRead t).Cared) := by
  obtain ⟨hCount, hExclusive, hWaiting⟩ := h
  -- no counter counts the thread where it comes from
  have hFrom : ∀ x, x = .reading ∨ x = .writing ∨ x = .waitsRead ∨ x = .waitsWrite ∨
      x = .wokenWrite → a ≠ x := by
    rcases ha with rfl | rfl
    · decide
    · decide
  unfold ReadWriteLock.tryRead
  split
  · rename_i hWait
    have hMoves : Moves l (l.goTo t .waitsRead) a .waitsRead := moves hAt rfl
    have hReading := hMoves.same (hFrom .reading (by decide)) (by decide)
    have hWriting := hMoves.same (hFrom .writing (by decide)) (by decide)
    have hWaits := hMoves.same (hFrom .waitsWrite (by decide)) (by decide)
    have hWoken := hMoves.same (hFrom .wokenWrite (by decide)) (by decide)
    refine ⟨⟨?_, ?_, ?_⟩, fun hCared => ⟨?_, ?_⟩⟩
    · rw [hReading, hWriting]
      exact hCount
    · rw [hReading, hWriting]
      exact hExclusive
    · rw [hWaits, hWoken]
      exact hWaiting
    · -- it waits for a writer, which holds the lock or waits as well
      intro _ hNonneg
      exact hWait.resolve_left (not_lt.mpr hNonneg)
    · rw [hWoken]
      exact hCared.writers
  · rename_i hFree
    obtain ⟨hNonneg, hNobody⟩ := not_or.mp hFree
    set l' := ({ l with count := toInt32 (l.count + 1) } : ReadWriteLock n).goTo t .reading with hl'
    have hMoves : Moves l l' a .reading := moves hAt rfl
    have hReading := hMoves.entered (hFrom .reading (by decide))
    have hWriting := hMoves.same (hFrom .writing (by decide)) (by decide)
    have hWaits := hMoves.same (hFrom .waitsWrite (by decide)) (by decide)
    have hWoken := hMoves.same (hFrom .wokenWrite (by decide)) (by decide)
    have hReaders := hMoves.same (hFrom .waitsRead (by decide)) (by decide)
    have hSum := l'.sum_number
    -- a writer would have made the count negative
    have hNoWriter : l.number .writing = 0 := by omega
    have hCount' : l'.count = l.count + 1 := toInt32_eq (by omega) (by omega)
    refine ⟨⟨?_, Or.inl (hWriting.trans hNoWriter), ?_⟩, fun hCared => ⟨?_, ?_⟩⟩
    · rw [hCount', hCount, hReading, hWriting]
      omega
    · rw [hWaits, hWoken]
      exact hWaiting
    · rw [hReaders]
      intro hPos _
      exact hCared.readers hPos (not_lt.mp hNonneg)
    · intro hZero
      omega

omit h in
/-- A thread that is counted as a waiting writer looks at the counters. -/
theorem Counts.tryWrite (hCount : l.count = l.number .reading - l.number .writing)
    (hExclusive : l.number .writing = 0 ∨ l.number .writing = 1 ∧ l.number .reading = 0)
    (hAt : l.threads t = a) (ha : a = .outside ∨ a = .wokenWrite)
    (hWaiting : l.writeWaitCount =
      l.number .waitsWrite + l.number .wokenWrite + if a = .outside then 1 else 0) :
    (l.tryWrite t).Counts ∧ (l.tryWrite t).Cared := by
  have hFrom : ∀ x, x = .reading ∨ x = .writing ∨ x = .waitsWrite → a ≠ x := by
    rcases ha with rfl | rfl
    · decide
    · decide
  -- the writers that wait, without the thread itself
  have hOthers : ∀ {l' : ReadWriteLock n} {b : ThreadAt}, Moves l l' a b → b ≠ .wokenWrite →
      l.writeWaitCount = l.number .waitsWrite + l'.number .wokenWrite + 1 := by
    intro l' b hMoves hb
    rcases ha with rfl | rfl
    · rw [hMoves.same (by decide) hb, hWaiting, if_pos rfl]
    · have hLeft := hMoves.left hb
      rw [if_neg (by decide)] at hWaiting
      omega
  unfold ReadWriteLock.tryWrite
  split
  · rename_i hHeld
    have hMoves : Moves l (l.goTo t .waitsWrite) a .waitsWrite := moves hAt rfl
    have hReading := hMoves.same (hFrom .reading (by decide)) (by decide)
    have hWriting := hMoves.same (hFrom .writing (by decide)) (by decide)
    have hWaits := hMoves.entered (hFrom .waitsWrite (by decide))
    have hOne := hOthers hMoves (by decide)
    have hWaiting' : (l.goTo t .waitsWrite).writeWaitCount = l.writeWaitCount := rfl
    refine ⟨⟨?_, ?_, ?_⟩, ⟨?_, ?_⟩⟩
    · rw [hReading, hWriting]
      exact hCount
    · rw [hReading, hWriting]
      exact hExclusive
    · rw [hWaiting', hWaits]
      omega
    · intro _ _
      omega
    · intro hFree
      exact absurd hFree hHeld
  · rename_i hFree
    set l' := ({ l with
      writeWaitCount := toInt32 (l.writeWaitCount - 1)
      count := -1 } : ReadWriteLock n).goTo t .writing with hl'
    have hMoves : Moves l l' a .writing := moves hAt rfl
    have hReading := hMoves.same (hFrom .reading (by decide)) (by decide)
    have hWriting := hMoves.entered (hFrom .writing (by decide))
    have hWaits := hMoves.same (hFrom .waitsWrite (by decide)) (by decide)
    have hOne := hOthers hMoves (by decide)
    have hSum := l'.sum_number
    have hCount' : l'.count = -1 := rfl
    -- nobody is in the lock
    have hNobody : l.number .reading = 0 ∧ l.number .writing = 0 := by omega
    have hWaiting' : l'.writeWaitCount = l.writeWaitCount - 1 := toInt32_eq (by omega) (by omega)
    refine ⟨⟨?_, Or.inr ⟨?_, ?_⟩, ?_⟩, ⟨?_, ?_⟩⟩
    · rw [hCount', hReading, hWriting, hNobody.1, hNobody.2]
      rfl
    · rw [hWriting, hNobody.2]
    · rw [hReading, hNobody.1]
    · rw [hWaiting', hWaits]
      omega
    · intro _ hNonneg
      omega
    · intro hZero
      omega

omit hn in
/-- A notification moves no counter. -/
theorem Counts.notify (hw : l.Notifiable w) : (l.notify w).Counts := by
  obtain ⟨hCount, hExclusive, hWaiting⟩ := h
  cases w with
  | none => exact ⟨hCount, hExclusive, hWaiting⟩
  | some w =>
    have hCount' : (l.notify (some w)).count = l.count := rfl
    have hWaiting' : (l.notify (some w)).writeWaitCount = l.writeWaitCount := rfl
    rcases hw with hReader | hWriter
    · have hMoves : Moves l (l.notify (some w)) .waitsRead .wokenRead :=
        moves hReader (by rw [ReadWriteLock.notify, hReader]; rfl)
      refine ⟨?_, ?_, ?_⟩
      · rw [hCount', hMoves.same (by decide) (by decide), hMoves.same (by decide) (by decide)]
        exact hCount
      · rw [hMoves.same (by decide) (by decide), hMoves.same (by decide) (by decide)]
        exact hExclusive
      · rw [hWaiting', hMoves.same (by decide) (by decide), hMoves.same (by decide) (by decide)]
        exact hWaiting
    · have hMoves : Moves l (l.notify (some w)) .waitsWrite .wokenWrite :=
        moves hWriter (by rw [ReadWriteLock.notify, hWriter]; rfl)
      refine ⟨?_, ?_, ?_⟩
      · rw [hCount', hMoves.same (by decide) (by decide), hMoves.same (by decide) (by decide)]
        exact hCount
      · rw [hMoves.same (by decide) (by decide), hMoves.same (by decide) (by decide)]
        exact hExclusive
      · -- a writer that is woken up is counted still
        have hLeft := hMoves.left (by decide)
        rw [hWaiting', hMoves.entered (by decide)]
        omega

omit hn in
/-- A notification is enough for those who wait, if it reaches a writer when there is one. -/
theorem Counts.notify_cared (hw : l.Notifiable w)
    (hReaders : 0 < l.number .waitsRead → 0 < l.writeWaitCount)
    (hWriter : (∃ i, l.threads i = .waitsWrite) → ∃ i, w = some i ∧ l.threads i = .waitsWrite) :
    (l.notify w).Cared := by
  have hWaiting := h.waiting_eq
  by_cases hWaits : ∃ i, l.threads i = .waitsWrite
  · obtain ⟨i, rfl, hAt⟩ := hWriter hWaits
    have hMoves : Moves l (l.notify (some i)) .waitsWrite .wokenWrite :=
      moves hAt (by rw [ReadWriteLock.notify, hAt]; rfl)
    refine ⟨?_, fun _ _ => ?_⟩
    · rw [hMoves.same (by decide) (by decide)]
      exact fun hPos _ => hReaders hPos
    · rw [hMoves.entered (by decide)]
      omega
  · -- every writer that is counted has been woken up already
    have hNone : l.number .waitsWrite = 0 := by
      rw [← number_pos_iff] at hWaits
      omega
    have hWoken : 0 < l.writeWaitCount → 0 < l.number .wokenWrite := by omega
    cases w with
    | none => exact ⟨fun hPos _ => hReaders hPos, fun _ => hWoken⟩
    | some i =>
      have hReader : l.threads i = .waitsRead := hw.resolve_right fun hAt => hWaits ⟨i, hAt⟩
      have hMoves : Moves l (l.notify (some i)) .waitsRead .wokenRead :=
        moves hReader (by rw [ReadWriteLock.notify, hReader]; rfl)
      refine ⟨fun _ _ => hReaders (number_pos_iff.mpr ⟨i, hReader⟩), fun _ => ?_⟩
      rw [hMoves.same (by decide) (by decide)]
      exact hWoken

/-- A reader has left, and has not notified anybody yet. -/
theorem Counts.leave (hAt : l.threads t = .reading)
    (hl' : l' = { l with count := toInt32 (l.count - 1) }.goTo t .outside) :
    l'.Counts ∧ l'.count = l.count - 1 ∧ l'.writeWaitCount = l.writeWaitCount ∧
      ∀ x, x ≠ .outside → x ≠ .reading →
        l'.number x = l.number x ∧ ∀ i, l'.threads i = x ↔ l.threads i = x := by
  obtain ⟨hCount, hExclusive, hWaiting⟩ := h
  have hSum := l.sum_number
  have hReading : 0 < l.number .reading := number_pos_iff.mpr ⟨t, hAt⟩
  have hThreads : l'.threads = Function.update l.threads t .outside := by
    rw [hl']
    rfl
  have hMoves : Moves l l' .reading .outside := moves hAt hThreads
  have hSame : ∀ x, x ≠ .outside → x ≠ .reading → l'.number x = l.number x :=
    fun x hOutside hReading => hMoves.same hReading.symm hOutside.symm
  have hCount' : l'.count = l.count - 1 := by
    rw [hl']
    exact toInt32_eq (by omega) (by omega)
  have hWaiting' : l'.writeWaitCount = l.writeWaitCount := by
    rw [hl']
    rfl
  have hNoWriter : l'.number .writing = 0 := by
    rw [hSame _ (by decide) (by decide)]
    omega
  have hLeft := hMoves.left (by decide)
  refine ⟨⟨?_, Or.inl hNoWriter, ?_⟩, hCount', hWaiting', ?_⟩
  · rw [hCount', hNoWriter]
    omega
  · rw [hWaiting', hSame _ (by decide) (by decide), hSame _ (by decide) (by decide)]
    exact hWaiting
  · intro x hOutside hReading'
    refine ⟨hSame x hOutside hReading', fun i => ?_⟩
    rw [hThreads, Function.update_apply]
    split
    · rename_i hi
      rw [hi, hAt]
      exact iff_of_false hOutside.symm hReading'.symm
    · rfl

/-- A reader leaves. Whom it wakes up matters only for those who wait. -/
theorem Counts.readUnlock (hAt : l.threads t = .reading) (hStep : l.readUnlock t w = some l') :
    l'.Counts ∧ (l.Cared → l.WakesWriter (.readUnlock t w) → l'.Cared) := by
  unfold ReadWriteLock.readUnlock at hStep
  generalize hl₁ : ({ l with count := toInt32 (l.count - 1) } : ReadWriteLock n).goTo t .outside =
    l₁ at hStep
  obtain ⟨hCounts, hCount, hWaiting, hSame⟩ := h.leave hn hAt hl₁.symm
  have hReadersSame := (hSame .waitsRead (by decide) (by decide)).1
  obtain ⟨-, hWritersAt⟩ := hSame .waitsWrite (by decide) (by decide)
  dsimp only at hStep
  split at hStep
  · -- the last reader
    rename_i hZero
    obtain ⟨hw, hEq⟩ := Option.ite_none_right_eq_some.mp hStep
    cases hEq
    refine ⟨hCounts.notify hw, fun hCared hWakes => hCounts.notify_cared hw ?_ ?_⟩
    · intro hWaits
      rw [hWaiting]
      exact hCared.readers (hReadersSame ▸ hWaits) (by omega)
    · rintro ⟨i, hi⟩
      cases w with
      | none => exact absurd (Or.inr hi) (hw i)
      | some w => exact ⟨w, rfl, (hWritersAt w).mpr (hWakes ⟨i, (hWritersAt i).mp hi⟩)⟩
  · obtain ⟨-, hEq⟩ := Option.ite_none_right_eq_some.mp hStep
    cases hEq
    refine ⟨hCounts, fun hCared _ => ⟨?_, ?_⟩⟩
    · intro hWaits hNonneg
      rw [hWaiting]
      exact hCared.readers (hReadersSame ▸ hWaits) (by omega)
    · intro hZero
      contradiction

omit hn in
/-- A writer leaves, and wakes up all who wait. -/
theorem Counts.writeUnlock (hAt : l.threads t = .writing) :
    (l.writeUnlock t).Counts ∧ (l.writeUnlock t).Cared := by
  obtain ⟨hCount, hExclusive, hWaiting⟩ := h
  have hMoves : Moves l (l.goTo t .outside) .writing .outside := moves hAt rfl
  have hLeft := hMoves.left (by decide)
  have hThreads : (l.writeUnlock t).threads = fun i => ((l.goTo t .outside).threads i).wake := rfl
  obtain ⟨hReading, hWriting, hReaders, hWaits, hWoken⟩ := numbers_wakeAll hThreads
  rw [hMoves.same (by decide) (by decide)] at hReading
  rw [hMoves.same (by decide) (by decide), hMoves.same (by decide) (by decide)] at hWoken
  have hCount' : (l.writeUnlock t).count = 0 := rfl
  have hWaiting' : (l.writeUnlock t).writeWaitCount = l.writeWaitCount := rfl
  -- it was the only writer, and there was no reader
  have hNoWriter : (l.writeUnlock t).number .writing = 0 := by omega
  refine ⟨⟨?_, Or.inl hNoWriter, ?_⟩, ⟨?_, fun _ hPos => ?_⟩⟩
  · rw [hCount', hReading, hNoWriter]
    omega
  · rw [hWaiting', hWaits, hWoken, hWaiting]
    omega
  · rw [hReaders]
    exact fun hPos => absurd hPos (lt_irrefl 0)
  · rw [hWoken]
    omega

/-- **Step lemma.** -/
theorem Counts.step {a : Action n} (hStep : l.step a = some l') :
    l'.Counts ∧ (l.Cared → l.WakesWriter a → l'.Cared) := by
  cases a with
  | readLock t =>
    obtain ⟨hAt, hEq⟩ := Option.ite_none_right_eq_some.mp hStep
    cases hEq
    obtain ⟨hCounts, hCared⟩ := h.tryRead hn hAt (Or.inl rfl)
    exact ⟨hCounts, fun hc _ => hCared hc⟩
  | writeLock t =>
    obtain ⟨hAt, hEq⟩ := Option.ite_none_right_eq_some.mp hStep
    cases hEq
    -- the thread itself is one more than those that are counted
    have hSum := l.sum_number
    have hOutside : 0 < l.number .outside := number_pos_iff.mpr ⟨t, hAt⟩
    have hWaiting := h.waiting_eq
    obtain ⟨hCounts, hCared⟩ := Counts.tryWrite hn
      (l := { l with writeWaitCount := toInt32 (l.writeWaitCount + 1) }) h.count_eq h.exclusive
      hAt (Or.inl rfl) (by
        rw [toInt32_eq (by omega) (by omega), hWaiting]
        rfl)
    exact ⟨hCounts, fun _ _ => hCared⟩
  | resume t =>
    rw [ReadWriteLock.step] at hStep
    split at hStep
    · rename_i hAt
      cases hStep
      obtain ⟨hCounts, hCared⟩ := h.tryRead hn hAt (Or.inr rfl)
      exact ⟨hCounts, fun hc _ => hCared hc⟩
    · obtain ⟨hAt, hEq⟩ := Option.ite_none_right_eq_some.mp hStep
      cases hEq
      obtain ⟨hCounts, hCared⟩ := Counts.tryWrite hn h.count_eq h.exclusive hAt (Or.inr rfl)
        (by simp [h.waiting_eq])
      exact ⟨hCounts, fun _ _ => hCared⟩
  | readUnlock t w =>
    obtain ⟨hAt, hUnlock⟩ := Option.ite_none_right_eq_some.mp hStep
    exact h.readUnlock hn hAt hUnlock
  | writeUnlock t =>
    obtain ⟨hAt, hEq⟩ := Option.ite_none_right_eq_some.mp hStep
    cases hEq
    obtain ⟨hCounts, hCared⟩ := h.writeUnlock hAt
    exact ⟨hCounts, fun _ _ => hCared⟩

end Steps

-- What the invariant gives

theorem Counts.isExclusive (h : l.Counts) : l.Exclusive := by
  intro i j hi hij
  have hOne := h.exclusive
  have hWriting : 0 < l.number .writing := number_pos_iff.mpr ⟨i, hi⟩
  constructor
  · intro hj
    have hReading : 0 < l.number .reading := number_pos_iff.mpr ⟨j, hj⟩
    omega
  · intro hj
    have hTwo := two_le_number hi hj hij
    omega

theorem Cared.not_stuck (h : l.Cared) (hCounts : l.Counts) : ¬ l.Stuck := by
  rintro ⟨hFree, ⟨i, hi⟩, hAll⟩
  have hWaiting : 0 < l.writeWaitCount := by
    rcases hi with hReader | hWriter
    · exact h.readers (number_pos_iff.mpr ⟨i, hReader⟩) hFree.ge
    · have hPos : 0 < l.number .waitsWrite := number_pos_iff.mpr ⟨i, hWriter⟩
      have hEq := hCounts.waiting_eq
      omega
  obtain ⟨j, hj⟩ := number_pos_iff.mp (h.writers hFree hWaiting)
  rcases hAll j with hOutside | hReader | hWriter
  · cases hj.symm.trans hOutside
  · cases hj.symm.trans hReader
  · cases hj.symm.trans hWriter

/-- For fewer than `2 ^ 31` threads and in every run, a writer never holds the lock together
with another thread; and there is no state in which the lock is free and all threads that
are still to act wait, as long as every `readUnlock` that leaves the lock free while a writer
waits wakes up a writer. -/
theorem exclusive_and_not_stuck (hn : n < 2 ^ 31) {actions : List (Action n)}
    (hRun : run step start actions = some l) :
    l.Exclusive ∧ (Along step WakesWriter start actions → ¬ l.Stuck) := by
  have hCounts : l.Counts :=
    run_keeps (fun _ _ _ h hStep => (h.step hn hStep).1) start_counts hRun
  refine ⟨hCounts.isExclusive, ?_⟩
  intro hWakes
  have hKept : ∀ (l : ReadWriteLock n) (a : Action n) (l' : ReadWriteLock n), l.WakesWriter a →
      l.Counts ∧ l.Cared → l.step a = some l' → l'.Counts ∧ l'.Cared := by
    intro l a l' hWriter h hStep
    obtain ⟨hCounts', hCared'⟩ := h.1.step hn hStep
    exact ⟨hCounts', hCared' h.2 hWriter⟩
  have hBoth : l.Counts ∧ l.Cared :=
    run_invariant hKept ⟨start_counts, start_cared⟩ hWakes hRun
  exact hBoth.2.not_stuck hCounts

instance (l : ReadWriteLock n) : ∀ a, Decidable (l.WakesWriter a)
  | .readUnlock _ (some _) => inferInstanceAs (Decidable (_ → _))
  | .readUnlock _ none => isTrue trivial
  | .readLock _ => isTrue trivial
  | .writeLock _ => isTrue trivial
  | .resume _ => isTrue trivial
  | .writeUnlock _ => isTrue trivial

/-- The last reader wakes up the writer, and both that wait are served. -/
theorem exclusive_and_not_stuck_three :
    ∃ l : ReadWriteLock 3, run step start [.readLock 0, .writeLock 1, .readLock 2,
      .readUnlock 0 (some 1), .resume 1, .writeUnlock 1, .resume 2] = some l ∧
        l.Exclusive ∧ ¬ l.Stuck :=
  ⟨_, rfl, (exclusive_and_not_stuck (by decide) (show run step start [.readLock 0, .writeLock 1,
      .readLock 2, .readUnlock 0 (some 1), .resume 1, .writeUnlock 1, .resume 2] = some _ from
      rfl)).imp_right fun h => h (by decide)⟩

/-- The last reader wakes up the reader that waits behind the writer: it waits again, and so
does the writer, with the lock free. -/
theorem reader_woken_for_writer :
    ∃ l : ReadWriteLock 3, run step start [.readLock 0, .writeLock 1, .readLock 2,
      .readUnlock 0 (some 2), .resume 2] = some l ∧ l.Stuck :=
  ⟨_, rfl, by decide, by decide, by decide⟩

end ReadWriteLock

end MyBase
