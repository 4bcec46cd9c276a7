import MyBase.Lib.OrdMap
import MyBase.Lib.Run

/-!
# MyBase — sessions and their timeouts

`CSessionMgn` keeps the sessions that wait for an answer in a table, by sequence number.
Their timeouts are in a wheel of slots: a session's sequence number is put into the slot
that is as many steps away from the cursor as there are until its timeout, and
`checkTimeout` passes one slot for each step of the clock, takes the sessions out of the
table whose numbers it finds there, and hands them to the timeout handler.

A number stays in its slot when its session is taken out by `eraseAndGetSession`. If the
number is used again before the slot is passed, the new session is found there, too early.

The sessions that time out together are handed over in the order of a hash map, which
nothing depends on: here they come in the order in which they are found. `none` is a
division by zero.
-/

namespace MyBase

open Lib List

structure BaseSession where
  sequence : UInt32
  timeoutMSec : UInt64
deriving DecidableEq, Repr

structure CSessionMgn where
  slotNumber : Nat
  timeoutPrecision : Nat
  slots : List (List Nat)
  lastCheckMSec : Nat
  lastCheckSlot : Nat
  sessions : OrdMap Nat BaseSession

namespace CSessionMgn

/-- The clock, rounded down to a step. -/
def roundDown (precision msec : Nat) : Nat := msec / precision * precision

/-- The constructor, at the time `now`. -/
def create (slotNumber timeoutPrecisionMs : UInt32) (now : UInt64) : Option CSessionMgn :=
  if timeoutPrecisionMs = 0 then none
  else some {
    slotNumber := slotNumber.toNat
    timeoutPrecision := timeoutPrecisionMs.toNat
    slots := List.replicate slotNumber.toNat []
    lastCheckMSec := roundDown timeoutPrecisionMs.toNat now.toNat
    lastCheckSlot := 0
    sessions := ∅ }

/-- A session number is found in a slot. -/
def expire (out : OrdMap Nat BaseSession × List BaseSession) (sessionid : Nat) :
    OrdMap Nat BaseSession × List BaseSession :=
  match out.1.find? sessionid with
  | some session => (out.1.erase sessionid, out.2 ++ [session])
  | none => out

/-- The slot that is `i` steps away from the cursor, as a `uint32_t` is computed. -/
def slotAt (m : CSessionMgn) (i : Nat) : Nat := (m.lastCheckSlot + i) % 2 ^ 32 % m.slotNumber

/-- One pass of the loop of `checkTimeout`. -/
def passSlot (index : Nat) (out : CSessionMgn × List BaseSession) :
    CSessionMgn × List BaseSession :=
  let found := (out.1.slots.getD index []).foldl expire (out.1.sessions, out.2)
  ({ out.1 with sessions := found.1, slots := out.1.slots.set index [] }, found.2)

/-- The loop of `checkTimeout`: the first `n` slots from the cursor on are passed. -/
def passSlots (m : CSessionMgn) : Nat → CSessionMgn × List BaseSession
  | 0 => (m, [])
  | i + 1 => passSlot (m.slotAt i) (m.passSlots i)

/-- `timeout_queue_num`, in 32 bits. -/
def timeoutQueueNum (m : CSessionMgn) (curmsec : Nat) : Nat :=
  min ((curmsec - m.lastCheckMSec) / m.timeoutPrecision % 2 ^ 32) m.slotNumber

/-- `checkTimeout` at the time `now`: the sessions that are handed to the handler. -/
def checkTimeout (m : CSessionMgn) (now : UInt64) : Option (CSessionMgn × List BaseSession) :=
  if m.timeoutPrecision = 0 then none
  else
    let curmsec := roundDown m.timeoutPrecision now.toNat
    if curmsec < m.lastCheckMSec then some ({ m with lastCheckMSec := curmsec }, [])
    else if m.slotNumber = 0 then none
    else
      let n := m.timeoutQueueNum curmsec
      some ({ (m.passSlots n).1 with
        lastCheckSlot := m.slotAt n
        lastCheckMSec := curmsec }, (m.passSlots n).2)

/-- How many slots away from the cursor a session goes. -/
def sleepIndex (m : CSessionMgn) (req : BaseSession) : Nat :=
  let sleepindex :=
    if req.timeoutMSec.toNat ≤ m.lastCheckMSec then 1
    else (req.timeoutMSec.toNat - m.lastCheckMSec) / m.timeoutPrecision % 2 ^ 32
  if m.slotNumber ≤ sleepindex then m.slotNumber - 1 else sleepindex

def saveSession (m : CSessionMgn) (req : BaseSession) : Option CSessionMgn :=
  if (m.sessions.find? req.sequence.toNat).isSome then some m
  else if m.slotNumber = 0 ∨ m.timeoutPrecision = 0 then none
  else
    let index := m.slotAt (m.sleepIndex req)
    some { m with
      sessions := m.sessions.emplace req.sequence.toNat req
      slots := m.slots.modify index (· ++ [req.sequence.toNat]) }

def eraseAndGetSession (m : CSessionMgn) (seq : UInt32) : CSessionMgn × Option BaseSession :=
  match m.sessions.find? seq.toNat with
  | some session => ({ m with sessions := m.sessions.erase seq.toNat }, some session)
  | none => (m, none)

/-- The sessions in the table. -/
def table (m : CSessionMgn) : List BaseSession := m.sessions.entries.map Prod.snd

/-- The numbers in the slot that is `i` steps away from the cursor. -/
def slotOf (m : CSessionMgn) (i : Nat) : List Nat := m.slots.getD (m.slotAt i) []

end CSessionMgn

inductive SessionCall where
  | saveSession (req : BaseSession)
  | eraseAndGetSession (seq : UInt32)
  /-- The check that the timer thread makes, with the time it reads. -/
  | checkTimeout (now : UInt64)
deriving DecidableEq

/-- The manager and what has happened: how many slots have been passed, each saved session
with the number of slots passed before, and each timed out session with the time. -/
structure SessionRun where
  mgn : CSessionMgn
  clock : Nat
  passed : Nat
  saved : List (Nat × BaseSession)
  returned : List BaseSession
  timedOut : List (Nat × BaseSession)

namespace SessionRun

open CSessionMgn

def start (m : CSessionMgn) (now : UInt64) : SessionRun := ⟨m, now.toNat, 0, [], [], []⟩

def step (s : SessionRun) : SessionCall → Option SessionRun
  | .saveSession req =>
    (s.mgn.saveSession req).map fun m => { s with mgn := m, saved := s.saved ++ [(s.passed, req)] }
  | .eraseAndGetSession seq =>
    some { s with
      mgn := (s.mgn.eraseAndGetSession seq).1
      returned := s.returned ++ (s.mgn.eraseAndGetSession seq).2.toList }
  | .checkTimeout now =>
    (s.mgn.checkTimeout now).map fun out => { s with
      mgn := out.1
      clock := now.toNat
      passed := s.passed +
        s.mgn.timeoutQueueNum (roundDown s.mgn.timeoutPrecision now.toNat)
      timedOut := s.timedOut ++ out.2.map fun session => (now.toNat, session) }

/-- A session is saved under a number that is not in the table, with a timeout less than
`slotNumber - 1` steps after the last check; the clock does not go back. -/
def Allowed (s : SessionRun) : SessionCall → Prop
  | .saveSession req =>
    s.mgn.sessions.find? req.sequence.toNat = none ∧
      req.timeoutMSec.toNat + s.mgn.timeoutPrecision <
        s.mgn.lastCheckMSec + s.mgn.slotNumber * s.mgn.timeoutPrecision
  | .eraseAndGetSession _ => True
  | .checkTimeout now => s.clock ≤ now.toNat

/-- No slot that is passed before the timeout of a saved session still has its number. -/
def NumberFree (s : SessionRun) : SessionCall → Prop
  | .saveSession req => ∀ i < s.mgn.slotNumber, req.sequence.toNat ∈ s.mgn.slotOf i →
      req.timeoutMSec.toNat ≤ s.mgn.lastCheckMSec + (i + 1) * s.mgn.timeoutPrecision
  | .eraseAndGetSession _ => True
  | .checkTimeout _ => True

instance (s : SessionRun) : ∀ c, Decidable (s.Allowed c)
  | .saveSession _ => inferInstanceAs (Decidable (_ ∧ _))
  | .eraseAndGetSession _ => isTrue trivial
  | .checkTimeout _ => inferInstanceAs (Decidable (_ ≤ _))

instance (s : SessionRun) : ∀ c, Decidable (s.NumberFree c)
  | .saveSession _ => inferInstanceAs (Decidable (∀ i < _, _ → _))
  | .eraseAndGetSession _ => isTrue trivial
  | .checkTimeout _ => isTrue trivial

end SessionRun

-- The wheel

namespace CSessionMgn

/-- The shape of the wheel. Beyond `2 ^ 31` slots the sums of two slot numbers overflow. -/
structure Wheel (m : CSessionMgn) : Prop where
  slotNumber_pos : 0 < m.slotNumber
  slotNumber_le : m.slotNumber ≤ 2 ^ 31
  precision_pos : 0 < m.timeoutPrecision
  cursor_lt : m.lastCheckSlot < m.slotNumber
  length_eq : m.slots.length = m.slotNumber

variable {m : CSessionMgn}

theorem Wheel.slotAt_eq (hw : m.Wheel) {i : Nat} (hi : i ≤ m.slotNumber) :
    m.slotAt i = (m.lastCheckSlot + i) % m.slotNumber := by
  have := hw.slotNumber_le
  have := hw.cursor_lt
  rw [slotAt, Nat.mod_eq_of_lt (show m.lastCheckSlot + i < 2 ^ 32 by omega)]

theorem Wheel.slotAt_lt (hw : m.Wheel) (i : Nat) : m.slotAt i < m.slots.length := by
  rw [hw.length_eq]
  exact Nat.mod_lt _ hw.slotNumber_pos

theorem Wheel.slotAt_inj (hw : m.Wheel) {i j : Nat} (hi : i < m.slotNumber)
    (hj : j < m.slotNumber) (h : m.slotAt i = m.slotAt j) : i = j := by
  rw [hw.slotAt_eq hi.le, hw.slotAt_eq hj.le] at h
  have hMod : i ≡ j [MOD m.slotNumber] := Nat.ModEq.add_left_cancel' m.lastCheckSlot h
  exact Nat.ModEq.eq_of_lt_of_lt hMod hi hj

-- Passing slots

/-- What the numbers of a list do to the table and to the sessions that time out. -/
structure Expires (numbers : List Nat) (before after : OrdMap Nat BaseSession × List BaseSession) :
    Prop where
  find? : ∀ k session, after.1.find? k = some session ↔
    before.1.find? k = some session ∧ k ∉ numbers
  moved : (before.1.entries.map Prod.snd ++ before.2).Perm
    (after.1.entries.map Prod.snd ++ after.2)
  found : ∀ session ∈ after.2,
    session ∈ before.2 ∨ ∃ k ∈ numbers, before.1.find? k = some session

/-- One session of a slot expires, or is gone already. -/
theorem expires_expire (out : OrdMap Nat BaseSession × List BaseSession) (k : Nat) :
    Expires [k] out (expire out k) := by
  unfold expire
  split
  · rename_i session hFound
    refine ⟨?_, ?_, ?_⟩
    · intro k' session'
      rw [OrdMap.find?_erase, mem_singleton]
      by_cases hk : k' = k <;> simp [hk]
    · have hPerm := (OrdMap.perm_erase hFound).map Prod.snd
      refine (hPerm.append_right out.2).trans ?_
      rw [← append_assoc]
      exact (perm_append_singleton session _).symm
    · intro session' hMem
      rcases mem_append.mp hMem with hOld | hNew
      · exact Or.inl hOld
      · obtain rfl := mem_singleton.mp hNew
        exact Or.inr ⟨k, mem_singleton_self k, hFound⟩
  · rename_i hNone
    refine ⟨?_, List.Perm.refl _, fun session hMem => Or.inl hMem⟩
    intro k' session'
    rw [mem_singleton, iff_self_and]
    rintro hSome rfl
    rw [hNone] at hSome
    cases hSome

theorem Expires.trans {l l' : List Nat} {a b c : OrdMap Nat BaseSession × List BaseSession}
    (h : Expires l a b) (h' : Expires l' b c) : Expires (l ++ l') a c := by
  refine ⟨?_, h.moved.trans h'.moved, ?_⟩
  · intro k session
    rw [h'.find?, h.find?, mem_append, not_or, and_assoc]
  · intro session hMem
    rcases h'.found session hMem with hOld | ⟨k, hk, hFound⟩
    · rcases h.found session hOld with hOld | ⟨k, hk, hFound⟩
      · exact Or.inl hOld
      · exact Or.inr ⟨k, mem_append_left l' hk, hFound⟩
    · exact Or.inr ⟨k, mem_append_right l hk, ((h.find? k session).mp hFound).1⟩

theorem expires_foldl (l : List Nat) (out : OrdMap Nat BaseSession × List BaseSession) :
    Expires l out (l.foldl expire out) := by
  induction l generalizing out with
  | nil =>
    exact ⟨fun _ _ => by simp, List.Perm.refl _, fun session hMem => Or.inl hMem⟩
  | cons k l ih => exact (expires_expire out k).trans (ih (expire out k))

/-- The numbers in the first `n` slots from the cursor on. -/
def numbersUpTo (m : CSessionMgn) : Nat → List Nat
  | 0 => []
  | i + 1 => m.numbersUpTo i ++ m.slotOf i

theorem mem_numbersUpTo {k n : Nat} : k ∈ m.numbersUpTo n ↔ ∃ i < n, k ∈ m.slotOf i := by
  induction n with
  | zero => simp [numbersUpTo]
  | succ n ih => rw [numbersUpTo, mem_append, ih, Nat.exists_lt_succ_right]

/-- What the loop has done after `n` passes. -/
structure Passes (m : CSessionMgn) (n : Nat) (out : CSessionMgn × List BaseSession) : Prop where
  slotNumber_eq : out.1.slotNumber = m.slotNumber
  precision_eq : out.1.timeoutPrecision = m.timeoutPrecision
  length_eq : out.1.slots.length = m.slots.length
  cleared : ∀ i < n, out.1.slots.getD (m.slotAt i) [] = []
  rest : ∀ i, n ≤ i → i < m.slotNumber → out.1.slots.getD (m.slotAt i) [] = m.slotOf i
  expires : Expires (m.numbersUpTo n) (m.sessions, []) (out.1.sessions, out.2)

/-- **Loop lemma.** -/
theorem Wheel.passSlots_spec (hw : m.Wheel) {n : Nat} (hn : n ≤ m.slotNumber) :
    m.Passes n (m.passSlots n) := by
  induction n with
  | zero =>
    exact ⟨rfl, rfl, rfl, fun i hi => absurd hi (Nat.not_lt_zero i), fun _ _ _ => rfl,
      expires_foldl [] _⟩
  | succ n ih =>
    have hBefore := ih (Nat.le_of_succ_le hn)
    have hSlot : (m.passSlots n).1.slots.getD (m.slotAt n) [] = m.slotOf n :=
      hBefore.rest n le_rfl hn
    have hLt : m.slotAt n < (m.passSlots n).1.slots.length := by
      rw [hBefore.length_eq]
      exact hw.slotAt_lt n
    refine ⟨hBefore.slotNumber_eq, hBefore.precision_eq, ?_, ?_, ?_, ?_⟩
    · rw [passSlots, passSlot, length_set, hBefore.length_eq]
    · intro i hi
      rw [passSlots, passSlot, getD_eq_getElem?_getD, getElem?_set]
      by_cases hSame : m.slotAt n = m.slotAt i
      · rw [if_pos hSame, if_pos hLt]
        rfl
      · have hi' : i < n := by
          have hne : i ≠ n := fun h => hSame (by rw [h])
          omega
        rw [if_neg hSame, ← getD_eq_getElem?_getD, hBefore.cleared i hi']
    · intro i hi hiN
      have hSame : m.slotAt n ≠ m.slotAt i := by
        intro h
        have := hw.slotAt_inj (by omega) hiN h
        omega
      rw [passSlots, passSlot, getD_eq_getElem?_getD, getElem?_set, if_neg hSame,
        ← getD_eq_getElem?_getD, hBefore.rest i (by omega) hiN]
    · have hPass := expires_foldl (m.slotOf n) ((m.passSlots n).1.sessions, (m.passSlots n).2)
      rw [passSlots, passSlot, hSlot]
      exact hBefore.expires.trans hPass

/-- The manager after a check that passes `n` slots. -/
def advance (m : CSessionMgn) (n curmsec : Nat) : CSessionMgn :=
  { (m.passSlots n).1 with lastCheckSlot := m.slotAt n, lastCheckMSec := curmsec }

section Advance

variable {n : Nat} (curmsec : Nat)

theorem Wheel.advance (hw : m.Wheel) (hn : n ≤ m.slotNumber) : (m.advance n curmsec).Wheel := by
  have hPass := hw.passSlots_spec hn
  have hCount : (m.advance n curmsec).slotNumber = m.slotNumber := hPass.slotNumber_eq
  have hStep : (m.advance n curmsec).timeoutPrecision = m.timeoutPrecision := hPass.precision_eq
  refine ⟨?_, ?_, ?_, ?_, ?_⟩
  · exact hCount ▸ hw.slotNumber_pos
  · exact hCount ▸ hw.slotNumber_le
  · exact hStep ▸ hw.precision_pos
  · rw [hCount]
    exact Nat.mod_lt _ hw.slotNumber_pos
  · rw [hCount, ← hw.length_eq]
    exact hPass.length_eq

/-- The slots from the new cursor on are those from the old one on, `n` further. -/
theorem Wheel.slotAt_advance (hw : m.Wheel) (hn : n ≤ m.slotNumber) {i : Nat}
    (hi : i < m.slotNumber) :
    (m.advance n curmsec).slotAt i = (m.lastCheckSlot + (n + i)) % m.slotNumber := by
  have hCount : (m.advance n curmsec).slotNumber = m.slotNumber :=
    (hw.passSlots_spec hn).slotNumber_eq
  rw [(hw.advance curmsec hn).slotAt_eq (hCount ▸ hi.le), hCount]
  show (m.slotAt n + i) % m.slotNumber = _
  rw [hw.slotAt_eq hn, Nat.mod_add_mod, Nat.add_assoc]

theorem Wheel.slotOf_advance (hw : m.Wheel) (hn : n ≤ m.slotNumber) {i : Nat}
    (hi : n + i < m.slotNumber) : (m.advance n curmsec).slotOf i = m.slotOf (n + i) := by
  have hSlot : (m.advance n curmsec).slotAt i = m.slotAt (n + i) := by
    rw [hw.slotAt_advance curmsec hn (by omega), hw.slotAt_eq hi.le]
  rw [slotOf, hSlot]
  exact (hw.passSlots_spec hn).rest (n + i) (Nat.le_add_right n i) hi

/-- The slots that have been passed are at the end now, and empty. -/
theorem Wheel.slotOf_advance_passed (hw : m.Wheel) (hn : n ≤ m.slotNumber) {i : Nat}
    (hi : i < m.slotNumber) (hPassed : m.slotNumber ≤ n + i) :
    (m.advance n curmsec).slotOf i = [] := by
  have hSlot : (m.advance n curmsec).slotAt i = m.slotAt (n + i - m.slotNumber) := by
    rw [hw.slotAt_advance curmsec hn hi, hw.slotAt_eq (by omega),
      show m.lastCheckSlot + (n + i) =
        m.lastCheckSlot + (n + i - m.slotNumber) + m.slotNumber by omega, Nat.add_mod_right]
  rw [slotOf, hSlot]
  exact (hw.passSlots_spec hn).cleared (n + i - m.slotNumber) (by omega)

theorem Wheel.mem_slotOf_advance (hw : m.Wheel) (hn : n ≤ m.slotNumber) {i k : Nat}
    (hi : i < m.slotNumber) (hk : k ∈ (m.advance n curmsec).slotOf i) :
    n + i < m.slotNumber ∧ k ∈ m.slotOf (n + i) := by
  by_cases hPassed : m.slotNumber ≤ n + i
  · rw [hw.slotOf_advance_passed curmsec hn hi hPassed] at hk
    cases hk
  · rw [hw.slotOf_advance curmsec hn (by omega)] at hk
    exact ⟨by omega, hk⟩

/-- A session that is still in the table has its number in no slot that was passed. -/
theorem Wheel.find?_advance (hw : m.Wheel) (hn : n ≤ m.slotNumber) {k : Nat} {session : BaseSession}
    (hFound : (m.advance n curmsec).sessions.find? k = some session) :
    m.sessions.find? k = some session ∧ ∀ i < n, k ∉ m.slotOf i := by
  obtain ⟨hOld, hNot⟩ := ((hw.passSlots_spec hn).expires.find? k session).mp hFound
  exact ⟨hOld, fun i hi hMem => hNot (mem_numbersUpTo.mpr ⟨i, hi, hMem⟩)⟩

end Advance

theorem Wheel.checkTimeout_eq (hw : m.Wheel) {now : UInt64} {curmsec : Nat}
    (hCur : curmsec = roundDown m.timeoutPrecision now.toNat) (hLast : m.lastCheckMSec ≤ curmsec) :
    m.checkTimeout now = some (m.advance (m.timeoutQueueNum curmsec) curmsec,
      (m.passSlots (m.timeoutQueueNum curmsec)).2) := by
  subst hCur
  rw [checkTimeout, if_neg hw.precision_pos.ne']
  dsimp only
  rw [if_neg (not_lt.mpr hLast), if_neg hw.slotNumber_pos.ne']
  rfl

-- Saving a session

theorem Wheel.sleepIndex_lt (hw : m.Wheel) (req : BaseSession) :
    m.sleepIndex req < m.slotNumber := by
  have := hw.slotNumber_pos
  dsimp only [sleepIndex]
  split_ifs <;> omega

/-- A session's slot is passed after its timeout. -/
theorem Wheel.timeout_le_sleepIndex (hw : m.Wheel) {req : BaseSession}
    (hSoon : req.timeoutMSec.toNat + m.timeoutPrecision <
      m.lastCheckMSec + m.slotNumber * m.timeoutPrecision) :
    req.timeoutMSec.toNat ≤ m.lastCheckMSec + (m.sleepIndex req + 1) * m.timeoutPrecision := by
  by_cases hDue : req.timeoutMSec.toNat ≤ m.lastCheckMSec
  · exact hDue.trans (Nat.le_add_right _ _)
  · have hSteps :
        (req.timeoutMSec.toNat - m.lastCheckMSec) / m.timeoutPrecision < m.slotNumber := by
      rw [Nat.div_lt_iff_lt_mul hw.precision_pos]
      omega
    have hIndex : m.sleepIndex req =
        (req.timeoutMSec.toNat - m.lastCheckMSec) / m.timeoutPrecision := by
      have hMax := hw.slotNumber_le
      rw [sleepIndex, if_neg hDue, Nat.mod_eq_of_lt (by omega), if_neg (by omega)]
    have hLt := Nat.lt_div_mul_add (a := req.timeoutMSec.toNat - m.lastCheckMSec) hw.precision_pos
    rw [hIndex, Nat.add_mul, Nat.one_mul]
    omega

/-- The manager after a session has been saved. -/
def save (m : CSessionMgn) (req : BaseSession) : CSessionMgn :=
  { m with
    sessions := m.sessions.emplace req.sequence.toNat req
    slots := m.slots.modify (m.slotAt (m.sleepIndex req)) (· ++ [req.sequence.toNat]) }

theorem Wheel.save (hw : m.Wheel) (req : BaseSession) : (m.save req).Wheel :=
  ⟨hw.slotNumber_pos, hw.slotNumber_le, hw.precision_pos, hw.cursor_lt,
    (length_modify _ _ _).trans hw.length_eq⟩

theorem find?_save {req : BaseSession} (hNew : m.sessions.find? req.sequence.toNat = none)
    (k : Nat) :
    (m.save req).sessions.find? k =
      if k = req.sequence.toNat then some req else m.sessions.find? k := by
  refine (OrdMap.find?_emplace m.sessions _ req k).trans ?_
  rw [hNew]
  rfl

theorem Wheel.saveSession_eq (hw : m.Wheel) {req : BaseSession}
    (hNew : m.sessions.find? req.sequence.toNat = none) :
    m.saveSession req = some (m.save req) := by
  have hPos := hw.slotNumber_pos
  have hStep := hw.precision_pos
  rw [saveSession, hNew, if_neg (by simp), if_neg (by omega)]
  rfl

theorem Wheel.mem_slotOf_save (hw : m.Wheel) (req : BaseSession) {i k : Nat}
    (hi : i < m.slotNumber) : k ∈ (m.save req).slotOf i ↔
      k ∈ m.slotOf i ∨ i = m.sleepIndex req ∧ k = req.sequence.toNat := by
  show k ∈ (m.slots.modify _ _).getD (m.slotAt i) [] ↔ _
  have hLt := hw.slotAt_lt i
  rw [getD_eq_getElem?_getD, getElem?_modify, slotOf, getD_eq_getElem?_getD,
    getElem?_eq_getElem hLt]
  by_cases hSame : m.slotAt (m.sleepIndex req) = m.slotAt i
  · have hEq : i = m.sleepIndex req := hw.slotAt_inj hi (hw.sleepIndex_lt req) hSame.symm
    simp [hEq]
  · have hNe : i ≠ m.sleepIndex req := fun h => hSame (by rw [h])
    simp [hSame, hNe]

end CSessionMgn

-- Runs

namespace SessionRun

open CSessionMgn

variable {s : SessionRun}

/-- Every session of the table is in a slot that is passed before the wheel has turned once
since it was saved, and no slot that has its number is passed before its timeout. -/
structure Tracks (s : SessionRun) : Prop where
  wheel : s.mgn.Wheel
  rounded : s.mgn.timeoutPrecision ∣ s.mgn.lastCheckMSec
  last_le : s.mgn.lastCheckMSec ≤ s.clock
  scheduled : ∀ k session, s.mgn.sessions.find? k = some session →
    ∃ before, (before, session) ∈ s.saved ∧
      ∃ i < s.mgn.slotNumber, k ∈ s.mgn.slotOf i ∧ s.passed + i < before + s.mgn.slotNumber
  notBefore : ∀ k session, s.mgn.sessions.find? k = some session →
    ∀ i < s.mgn.slotNumber, k ∈ s.mgn.slotOf i →
      session.timeoutMSec.toNat ≤ s.mgn.lastCheckMSec + (i + 1) * s.mgn.timeoutPrecision
  once : (s.saved.map Prod.snd).Perm (s.mgn.table ++ s.returned ++ s.timedOut.map Prod.snd)
  notEarly : ∀ e ∈ s.timedOut, e.2.timeoutMSec.toNat ≤ e.1

/-- A new session is in the table and in its slot. -/
theorem Tracks.saveSession (h : s.Tracks) {req : BaseSession}
    (hAllowed : s.Allowed (.saveSession req)) (hFree : s.NumberFree (.saveSession req)) :
    ∃ s', s.step (.saveSession req) = some s' ∧ s'.Tracks := by
  obtain ⟨hNew, hSoon⟩ := hAllowed
  have hw := h.wheel
  refine ⟨{ s with mgn := s.mgn.save req, saved := s.saved ++ [(s.passed, req)] }, ?_, ?_⟩
  · rw [step, hw.saveSession_eq hNew]
    rfl
  refine ⟨hw.save req, h.rounded, h.last_le, ?_, ?_, ?_, h.notEarly⟩
  · intro k session hFound
    rw [find?_save hNew] at hFound
    split at hFound
    · -- the new session, in the slot chosen for it
      rename_i hk
      cases hFound
      have hLt := hw.sleepIndex_lt req
      refine ⟨s.passed, mem_append_right _ (mem_singleton_self _), s.mgn.sleepIndex req,
        hLt, (hw.mem_slotOf_save req hLt).mpr (Or.inr ⟨rfl, hk⟩), ?_⟩
      exact Nat.add_lt_add_left hLt s.passed
    · obtain ⟨before, hSaved, i, hi, hSlot, hPassed⟩ := h.scheduled k session hFound
      exact ⟨before, mem_append_left _ hSaved, i, hi,
        (hw.mem_slotOf_save req hi).mpr (Or.inl hSlot), hPassed⟩
  · intro k session hFound i hi hSlot
    rw [find?_save hNew] at hFound
    split at hFound
    · rename_i hk
      subst hk
      cases hFound
      -- a slot with the number is either an older one or the one chosen now
      rcases (hw.mem_slotOf_save req hi).mp hSlot with hOld | ⟨rfl, -⟩
      · exact hFree i hi hOld
      · exact hw.timeout_le_sleepIndex hSoon
    · rename_i hk
      rcases (hw.mem_slotOf_save req hi).mp hSlot with hOld | ⟨-, hEq⟩
      · exact h.notBefore k session hFound i hi hOld
      · exact absurd hEq hk
  · have hTable : (s.mgn.save req).table.Perm (req :: s.mgn.table) :=
      (OrdMap.perm_emplace hNew req).map Prod.snd
    rw [map_append]
    refine (perm_append_singleton req _).trans ((h.once.cons req).trans ?_)
    rw [append_assoc, append_assoc, ← cons_append]
    exact (hTable.symm.append_right _)

/-- A session that is taken leaves the table and stays in its slot. -/
theorem Tracks.eraseAndGetSession (h : s.Tracks) (seq : UInt32) :
    ∃ s', s.step (.eraseAndGetSession seq) = some s' ∧ s'.Tracks := by
  refine ⟨_, rfl, ?_⟩
  unfold CSessionMgn.eraseAndGetSession
  split
  · rename_i session hFound
    have hOld : ∀ k session', (s.mgn.sessions.erase seq.toNat).find? k = some session' →
        s.mgn.sessions.find? k = some session' := by
      intro k session' hSome
      rw [OrdMap.find?_erase] at hSome
      split at hSome
      · cases hSome
      · exact hSome
    refine ⟨⟨h.wheel.slotNumber_pos, h.wheel.slotNumber_le, h.wheel.precision_pos,
      h.wheel.cursor_lt, h.wheel.length_eq⟩, h.rounded, h.last_le,
      fun k session' hSome => h.scheduled k session' (hOld k session' hSome),
      fun k session' hSome => h.notBefore k session' (hOld k session' hSome), ?_, h.notEarly⟩
    have hTable :
        s.mgn.table.Perm (session :: (s.mgn.sessions.erase seq.toNat).entries.map Prod.snd) :=
      (OrdMap.perm_erase hFound).map Prod.snd
    refine h.once.trans (List.Perm.append_right _ ?_)
    show (s.mgn.table ++ s.returned).Perm (_ ++ (s.returned ++ [session]))
    rw [← append_assoc]
    exact (hTable.append_right s.returned).trans (perm_append_singleton session _).symm
  · show ({ s with returned := s.returned ++ [] } : SessionRun).Tracks
    rw [append_nil]
    exact h

theorem Tracks.last_le_roundDown (h : s.Tracks) {now : Nat} (hClock : s.clock ≤ now) :
    s.mgn.lastCheckMSec ≤ roundDown s.mgn.timeoutPrecision now := by
  obtain ⟨steps, hSteps⟩ := h.rounded
  have hLe : s.mgn.timeoutPrecision * steps ≤ now := hSteps ▸ h.last_le.trans hClock
  rw [hSteps, roundDown, Nat.mul_comm]
  exact Nat.mul_le_mul_right _ ((Nat.le_div_iff_mul_le h.wheel.precision_pos).mpr
    (Nat.mul_comm _ steps ▸ hLe))

/-- The clock has gone on by at least as many steps as slots are passed. -/
theorem Tracks.steps_le (h : s.Tracks) {curmsec : Nat} (hLast : s.mgn.lastCheckMSec ≤ curmsec) :
    s.mgn.lastCheckMSec + s.mgn.timeoutQueueNum curmsec * s.mgn.timeoutPrecision ≤ curmsec := by
  have hNum : s.mgn.timeoutQueueNum curmsec ≤
      (curmsec - s.mgn.lastCheckMSec) / s.mgn.timeoutPrecision :=
    (min_le_left _ _).trans (Nat.mod_le _ _)
  have hMul := (Nat.le_div_iff_mul_le h.wheel.precision_pos).mp hNum
  omega

section Advance

variable {n curmsec : Nat} (hn : n ≤ s.mgn.slotNumber)

include hn

variable {session : BaseSession} {k : Nat}

/-- A session stays scheduled: its slot has come nearer by those that were passed. -/
theorem Tracks.scheduled_advance (h : s.Tracks)
    (hFound : (s.mgn.advance n curmsec).sessions.find? k = some session) :
    ∃ before, (before, session) ∈ s.saved ∧ ∃ i < (s.mgn.advance n curmsec).slotNumber,
      k ∈ (s.mgn.advance n curmsec).slotOf i ∧
        s.passed + n + i < before + (s.mgn.advance n curmsec).slotNumber := by
  have hw := h.wheel
  have hCount : (s.mgn.advance n curmsec).slotNumber = s.mgn.slotNumber :=
    (hw.passSlots_spec hn).slotNumber_eq
  obtain ⟨hOld, hNot⟩ := hw.find?_advance curmsec hn hFound
  obtain ⟨before, hSaved, i, hi, hSlot, hPassed⟩ := h.scheduled k session hOld
  have hLater : n ≤ i := not_lt.mp fun hlt => hNot i hlt hSlot
  refine ⟨before, hSaved, i - n, by omega, ?_, by omega⟩
  rw [hw.slotOf_advance curmsec hn (by omega), Nat.add_sub_cancel' hLater]
  exact hSlot

theorem Tracks.notBefore_advance (h : s.Tracks)
    (hSteps : s.mgn.lastCheckMSec + n * s.mgn.timeoutPrecision ≤ curmsec)
    (hFound : (s.mgn.advance n curmsec).sessions.find? k = some session) {i : Nat}
    (hi : i < s.mgn.slotNumber) (hSlot : k ∈ (s.mgn.advance n curmsec).slotOf i) :
    session.timeoutMSec.toNat ≤ curmsec + (i + 1) * s.mgn.timeoutPrecision := by
  obtain ⟨hOld, -⟩ := h.wheel.find?_advance curmsec hn hFound
  obtain ⟨hi', hSlot'⟩ := h.wheel.mem_slotOf_advance curmsec hn hi hSlot
  have hBound := h.notBefore k session hOld (n + i) hi' hSlot'
  rw [Nat.add_assoc n, Nat.add_mul] at hBound
  omega

/-- What times out has been due. -/
theorem Tracks.due_of_passed (h : s.Tracks)
    (hSteps : s.mgn.lastCheckMSec + n * s.mgn.timeoutPrecision ≤ curmsec)
    (hMem : session ∈ (s.mgn.passSlots n).2) : session.timeoutMSec.toNat ≤ curmsec := by
  rcases (h.wheel.passSlots_spec hn).expires.found session hMem with hNil | ⟨k, hk, hFound⟩
  · cases hNil
  · obtain ⟨i, hi, hSlot⟩ := mem_numbersUpTo.mp hk
    have hBound := h.notBefore k session hFound i (by omega) hSlot
    have hMul : (i + 1) * s.mgn.timeoutPrecision ≤ n * s.mgn.timeoutPrecision :=
      Nat.mul_le_mul_right _ hi
    omega

/-- What leaves the table has timed out. -/
theorem Tracks.once_advance (h : s.Tracks) (now : Nat) :
    (s.saved.map Prod.snd).Perm ((s.mgn.advance n curmsec).table ++ s.returned ++
      (s.timedOut ++ (s.mgn.passSlots n).2.map fun session => (now, session)).map Prod.snd) := by
  have hMoved := (h.wheel.passSlots_spec hn).expires.moved
  have hSnd : (Prod.snd ∘ fun session => (now, session)) = (id : BaseSession → _) := rfl
  rw [append_nil] at hMoved
  rw [map_append, map_map, hSnd, map_id]
  refine h.once.trans (((hMoved.append_right s.returned).append_right _).trans ?_)
  simp only [append_assoc]
  refine List.Perm.append_left _ ?_
  rw [← append_assoc s.returned]
  exact perm_append_comm

end Advance

variable {now : UInt64} {slotNumber timeoutPrecisionMs : UInt32} {m : CSessionMgn}

/-- The slots that are passed give their sessions to the timeout handler. -/
theorem Tracks.checkTimeout (h : s.Tracks) (hAllowed : s.Allowed (.checkTimeout now)) :
    ∃ s', s.step (.checkTimeout now) = some s' ∧ s'.Tracks := by
  have hLast := h.last_le_roundDown hAllowed
  generalize hCur : roundDown s.mgn.timeoutPrecision now.toNat = curmsec at hLast
  have hNow : curmsec ≤ now.toNat := hCur ▸ Nat.div_mul_le_self _ _
  have hCheck := h.wheel.checkTimeout_eq hCur.symm hLast
  have hSteps := h.steps_le hLast
  have hn : s.mgn.timeoutQueueNum curmsec ≤ s.mgn.slotNumber := min_le_right _ _
  generalize hNum : s.mgn.timeoutQueueNum curmsec = n at hCheck hSteps hn
  have hPass := h.wheel.passSlots_spec hn
  have hCount : (s.mgn.advance n curmsec).slotNumber = s.mgn.slotNumber := hPass.slotNumber_eq
  have hPrecision : (s.mgn.advance n curmsec).timeoutPrecision = s.mgn.timeoutPrecision :=
    hPass.precision_eq
  refine ⟨{ s with
    mgn := s.mgn.advance n curmsec
    clock := now.toNat
    passed := s.passed + n
    timedOut := s.timedOut ++ (s.mgn.passSlots n).2.map fun session => (now.toNat, session) },
    ?_, ?_⟩
  · rw [step, hCheck, hCur, hNum]
    rfl
  refine ⟨h.wheel.advance curmsec hn, ?_, hNow, fun k session => h.scheduled_advance hn, ?_,
    h.once_advance hn now.toNat, ?_⟩
  · rw [hPrecision]
    exact Dvd.intro_left _ hCur
  · intro k session hFound i hi hSlot
    rw [hPrecision]
    exact h.notBefore_advance hn hSteps hFound (hCount ▸ hi) hSlot
  · intro e he
    rcases mem_append.mp he with hOld | hNew
    · exact h.notEarly e hOld
    · obtain ⟨session, hMem, rfl⟩ := mem_map.mp hNew
      exact (h.due_of_passed hn hSteps hMem).trans hNow

/-- **Step lemma.** -/
theorem Tracks.step (h : s.Tracks) {c : SessionCall} (hAllowed : s.Allowed c)
    (hFree : s.NumberFree c) : ∃ s', s.step c = some s' ∧ s'.Tracks := by
  cases c with
  | saveSession req => exact h.saveSession hAllowed hFree
  | eraseAndGetSession seq => exact h.eraseAndGetSession seq
  | checkTimeout now => exact h.checkTimeout hAllowed

end SessionRun

end MyBase
