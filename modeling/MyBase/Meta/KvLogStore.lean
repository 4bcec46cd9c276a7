import MyBase.Lib.ByteOrder
import MyBase.Lib.IndexedLog
import MyBase.Lib.OrdMap
import MyBase.Lib.Run

/-!
# MyBase — the log of the meta servers

`KvLogStore` keeps the entries of the raft log in a database, under their indices as 8 bytes,
and two counters in a mapped file. `none` is a call that does not return: the lock is taken
already, an assertion fails, or a loop goes round for ever.

What it is for is an `IndexedLog`. `Holds` relates the two, and each call keeps it under a
condition of its own (`Meets`). Two of the conditions are defects: `write_at` says that it
discards what comes after the index, and does not, so that only the last entry can be
overwritten; and `log_entries` makes the result long enough first, and then appends to it.
-/

namespace MyBase

open Lib List
open scoped ByteOrder

/-- `nuraft::log_entry`. -/
structure LogEntry where
  term : UInt64
  valType : UInt8
  buf : Bytes
deriving DecidableEq, Repr

/-- `serialize` and `deserialize` of a log entry, taken as exact. -/
structure EntryCodec where
  serialize : LogEntry → Bytes
  deserialize : Bytes → LogEntry
  exact : ∀ e, deserialize (serialize e) = e

structure KvLogStore where
  db : OrdMap Bytes Bytes
  /-- `*startIdxPtr`, a `uint64_t`. -/
  startIdx : Nat
  /-- `*nextIdxPtr`. -/
  nextIdx : Nat
  /-- `logs_lock_`. -/
  locked : Bool

namespace KvLogStore

/-- `open_sys_file`, with what the file has for the counters. -/
def openSysFile (db : OrdMap Bytes Bytes) (startIdx nextIdx : Nat) : KvLogStore where
  db := db
  startIdx := if startIdx = 0 then 1 else startIdx
  nextIdx := if nextIdx = 0 then 1 else nextIdx
  locked := false

/-- A database and a file that did not exist. -/
def init : KvLogStore := openSysFile ∅ 0 0

/-- `put64b`. -/
def key (index : Nat) : Bytes := be 8 index

/-- What is done under a `lock_guard`. -/
def guarded {α : Type} (s : KvLogStore) (f : KvLogStore → Option (KvLogStore × α)) :
    Option (KvLogStore × α) :=
  if s.locked then none
  else (f { s with locked := true }).map fun out => ({ out.1 with locked := false }, out.2)

def makeClone (entry : LogEntry) : LogEntry where
  term := entry.term
  buf := entry.buf
  valType := entry.valType

section Calls

variable (codec : EntryCodec)

def nextSlot (s : KvLogStore) : Option (KvLogStore × Nat) :=
  s.guarded fun s => some (s, s.nextIdx)

def startIndex (s : KvLogStore) : Nat := s.startIdx

/-- `db->Get`, and the entry it is. -/
def get (s : KvLogStore) (index : Nat) : Option LogEntry :=
  (s.db.find? (key index)).map codec.deserialize

def lastEntry (s : KvLogStore) : Option (KvLogStore × Option LogEntry) :=
  s.guarded fun s => some (s,
    if s.startIdx = s.nextIdx then none
    else s.get codec ((s.nextIdx + 2 ^ 64 - 1) % 2 ^ 64))

def append (s : KvLogStore) (entry : LogEntry) : Option (KvLogStore × Nat) :=
  s.guarded fun s => some
    ({ s with
        db := s.db.insert (key s.nextIdx) (codec.serialize (makeClone entry))
        nextIdx := (s.nextIdx + 1) % 2 ^ 64 },
      s.nextIdx)

/-- "Discard all logs equal to or greater than index" is all a comment says of them. -/
def writeAt (s : KvLogStore) (index : Nat) (entry : LogEntry) : Option (KvLogStore × Unit) :=
  s.guarded fun s => some
    ({ s with db := s.db.insert (key index) (codec.serialize (makeClone entry)) }, ())

/-- What the iterator passes, from `startKey` on and before `endKey`. -/
def scan (s : KvLogStore) (start stop : Nat) : List LogEntry :=
  (s.db.entries.filter fun e => decide (InRange (key start) (key stop) e.1)).map fun e =>
    codec.deserialize e.2

/-- `ret->resize(end - start)` makes null pointers, and `push_back` comes after them. -/
def logEntries (s : KvLogStore) (start stop : Nat) : List (Option LogEntry) :=
  List.replicate ((stop + 2 ^ 64 - start) % 2 ^ 64) none ++ (s.scan codec start stop).map some

/-- The loop of `log_entries_ext`: it ends with the entry with which the hint is reached. -/
def takeBatch (hint : Nat) : Nat → List LogEntry → List LogEntry
  | _, [] => []
  | accum, e :: rest =>
    if hint ≠ 0 ∧ hint ≤ accum + e.buf.length then [e]
    else e :: takeBatch hint (accum + e.buf.length) rest

def logEntriesExt (s : KvLogStore) (start stop hint : Nat) : List LogEntry :=
  takeBatch hint 0 (s.scan codec start stop)

def entryAt (s : KvLogStore) (index : Nat) : Option (KvLogStore × Option LogEntry) :=
  s.guarded fun s => some (s, s.get codec index)

/-- The loop of `compact`, for a number of rounds. -/
def deleteUpTo (last : Nat) : Nat → Nat → OrdMap Bytes Bytes → Option (OrdMap Bytes Bytes)
  | 0, _, _ => none
  | rounds + 1, ii, db =>
    if ii ≤ last then deleteUpTo last rounds ((ii + 1) % 2 ^ 64) (db.erase (key ii)) else some db

/-- There are `2 ^ 64` indices: a loop that has gone on longer does not end. -/
def compact (s : KvLogStore) (last : Nat) : Option (KvLogStore × Bool) :=
  s.guarded fun s => (deleteUpTo last (2 ^ 64 + 1) s.startIdx s.db).map fun db =>
    ({ s with
        db := db
        startIdx := (last + 1) % 2 ^ 64
        nextIdx :=
          if (s.nextIdx + 2 ^ 64 - 1) % 2 ^ 64 ≤ last then (last + 1) % 2 ^ 64 else s.nextIdx },
      true)

end Calls

-- Keys, the lock, and the loop that deletes

variable {i last j a b ii : Nat} {α : Type} {s : KvLogStore} {c : LogCall}

theorem key_inj (hi : i < 2 ^ 64) (hj : j < 2 ^ 64) : key i = key j ↔ i = j := by
  constructor
  · intro h
    have hOfBe := congrArg ofBe h
    rwa [key, key, ofBe_be_of_lt (by simpa using hi), ofBe_be_of_lt (by simpa using hj)] at hOfBe
  · exact congrArg key

theorem inRange_key_iff (ha : a < 2 ^ 64) (hb : b < 2 ^ 64) (hi : i < 2 ^ 64) :
    InRange (key a) (key b) (key i) ↔ a ≤ i ∧ i < b := by
  have hRange := inRange_be_iff (w := 8) (by simpa using ha) (by simpa using hb)
    (by simpa using hi) []
  rwa [append_nil] at hRange

theorem key_lt (hij : i < j) (hj : j < 2 ^ 64) : key i < key j :=
  ((inRange_key_iff (hij.trans hj) hj (hij.trans hj)).mpr ⟨le_rfl, hij⟩).2

theorem find?_insert_key (db : OrdMap Bytes Bytes) (hi : i < 2 ^ 64) (hj : j < 2 ^ 64) (v : Bytes) :
    (db.insert (key i) v).find? (key j) = if j = i then some v else db.find? (key j) := by
  rw [OrdMap.find?_insert]
  exact if_congr (key_inj hj hi) rfl rfl

theorem guarded_of_free (h : s.locked = false) (f : KvLogStore → Option (KvLogStore × α)) :
    s.guarded f =
      (f { s with locked := true }).map fun out => ({ out.1 with locked := false }, out.2) := by
  rw [guarded, h]
  rfl

theorem guarded_read (h : s.locked = false) (f : KvLogStore → α) :
    (s.guarded fun s => some (s, f s)) = some (s, f { s with locked := true }) := by
  obtain ⟨db, startIdx, nextIdx, locked⟩ := s
  obtain rfl : locked = false := h
  rfl

/-- The loop ends, and has deleted the keys from where it began. -/
theorem deleteUpTo_eq (hLast : last + 1 < 2 ^ 64) {rounds : Nat} (hRounds : last + 1 - ii < rounds)
    (db : OrdMap Bytes Bytes) :
    deleteUpTo last rounds ii db =
      some ((List.range' ii (last + 1 - ii)).foldl (fun db j => db.erase (key j)) db) := by
  induction rounds generalizing ii db with
  | zero => omega
  | succ rounds ih =>
    rw [deleteUpTo]
    by_cases hii : ii ≤ last
    · have hMore : last + 1 - ii = last + 1 - (ii + 1) + 1 := by omega
      rw [if_pos hii, Nat.mod_eq_of_lt (by omega), ih (by omega), hMore, List.range'_succ,
        foldl_cons]
    · have hNone : last + 1 - ii = 0 := by omega
      rw [if_neg hii, hNone]
      rfl

/-- No index exceeds the greatest. -/
theorem deleteUpTo_max (rounds : Nat) (hii : ii < 2 ^ 64) (db : OrdMap Bytes Bytes) :
    deleteUpTo (2 ^ 64 - 1) rounds ii db = none := by
  induction rounds generalizing ii db with
  | zero => rfl
  | succ rounds ih =>
    rw [deleteUpTo, if_pos (by omega)]
    exact ih (Nat.mod_lt _ (by omega)) _

/-- What is found once the keys up to `last` have been deleted. -/
theorem find?_deleted (db : OrdMap Bytes Bytes) {start : Nat} (hLast : last < 2 ^ 64)
    (hi : i < 2 ^ 64) :
    ((List.range' start (last + 1 - start)).foldl (fun db j => db.erase (key j)) db).find? (key i) =
      if start ≤ i ∧ i ≤ last then none else db.find? (key i) := by
  have hDeleted :
      key i ∈ (List.range' start (last + 1 - start)).map key ↔ start ≤ i ∧ i ≤ last := by
    rw [mem_map]
    constructor
    · rintro ⟨j, hj, hKey⟩
      rw [mem_range'_1] at hj
      rw [key_inj (by omega) hi] at hKey
      omega
    · rintro ⟨hStart, hStop⟩
      exact ⟨i, mem_range'_1.mpr ⟨hStart, by omega⟩, rfl⟩
  rw [OrdMap.find?_foldl_erase]
  by_cases hIn : start ≤ i ∧ i ≤ last
  · rw [if_pos hIn, if_pos (hDeleted.mpr hIn)]
  · rw [if_neg hIn, if_neg fun h => hIn (hDeleted.mp h)]

-- The log a store holds

/-- The counters are those of the log, and the database has its entries and nothing else. -/
structure Holds (codec : EntryCodec) (s : KvLogStore) (l : IndexedLog LogEntry) : Prop where
  free : s.locked = false
  start : s.startIdx = l.start
  next : s.nextIdx = l.next
  pos : 0 < l.start
  bound : l.next < 2 ^ 64
  find : ∀ i < 2 ^ 64, s.db.find? (key i) = (l.entryAt i).map codec.serialize
  keys : ∀ k ∈ s.db.keys, ∃ i < 2 ^ 64, key i = k

theorem init_holds (codec : EntryCodec) : Holds codec init ⟨1, []⟩ where
  free := rfl
  start := rfl
  next := rfl
  pos := Nat.one_pos
  bound := by decide
  find i _ := by simp [init, openSysFile, IndexedLog.entryAt]
  keys k hk := by simp [init, openSysFile, OrdMap.keys] at hk

variable {codec : EntryCodec} {s : KvLogStore} {l : IndexedLog LogEntry}

theorem Holds.get (h : Holds codec s l) (hi : i < 2 ^ 64) : s.get codec i = l.entryAt i := by
  rw [KvLogStore.get, h.find i hi, Option.map_map]
  cases l.entryAt i with
  | none => rfl
  | some e => exact congrArg some (codec.exact e)

/-- The iterator passes the entries of the range in their order. -/
theorem Holds.scan (h : Holds codec s l) (ha : a < 2 ^ 64) (hb : b < 2 ^ 64) :
    s.scan codec a b = l.between a b := by
  have hRange : ∀ k ∈ s.db.keys,
      decide (InRange (key a) (key b) k) = true ↔ ∃ i, a ≤ i ∧ i < b ∧ key i = k := by
    intro k hk
    obtain ⟨i, hi, rfl⟩ := h.keys k hk
    rw [decide_eq_true_iff, inRange_key_iff ha hb hi]
    constructor
    · rintro ⟨hai, hib⟩
      exact ⟨i, hai, hib, rfl⟩
    · rintro ⟨j, haj, hjb, hKey⟩
      rw [key_inj (hjb.trans hb) hi] at hKey
      exact hKey ▸ ⟨haj, hjb⟩
  rw [KvLogStore.scan, OrdMap.filter_range (fun i j hij hj => key_lt hij (hj.trans hb)) hRange,
    map_filterMap, IndexedLog.between]
  refine filterMap_congr fun i hi => ?_
  have hi' : i < 2 ^ 64 := by
    rw [mem_range'_1] at hi
    omega
  rw [Option.map_map, ← h.get hi']
  rfl

theorem append_eq (codec : EntryCodec) (hFree : s.locked = false) (e : LogEntry) :
    s.append codec e = some
      ({ s with
          db := s.db.insert (key s.nextIdx) (codec.serialize e)
          nextIdx := (s.nextIdx + 1) % 2 ^ 64
          locked := false },
        s.nextIdx) := by
  rw [append, guarded_of_free hFree]
  rfl

theorem Holds.append (h : Holds codec s l) (e : LogEntry) (hRoom : s.nextIdx + 1 < 2 ^ 64) :
    ∃ s', s.append codec e = some (s', l.next) ∧ Holds codec s' (l.append e) := by
  have hBound := h.bound
  rw [append_eq codec h.free, ← h.next]
  refine ⟨_, rfl, rfl, h.start, ?_, h.pos, ?_, ?_, ?_⟩
  · show (s.nextIdx + 1) % 2 ^ 64 = _
    rw [Nat.mod_eq_of_lt hRoom, IndexedLog.next_append, h.next]
  · rw [IndexedLog.next_append, ← h.next]
    exact hRoom
  · intro i hi
    show (s.db.insert (key s.nextIdx) _).find? _ = _
    rw [h.next, find?_insert_key _ hBound hi, IndexedLog.entryAt_append, h.find i hi]
    split <;> rfl
  · intro k hk
    rcases OrdMap.mem_keys_insert.mp hk with rfl | hk'
    · exact ⟨s.nextIdx, by omega, rfl⟩
    · exact h.keys k hk'

theorem writeAt_eq (codec : EntryCodec) (hFree : s.locked = false) (index : Nat) (e : LogEntry) :
    s.writeAt codec index e = some
      ({ s with db := s.db.insert (key index) (codec.serialize e), locked := false }, ()) := by
  rw [writeAt, guarded_of_free hFree]
  rfl

/-- Writing over the last entry. -/
theorem Holds.writeAt (h : Holds codec s l) {index : Nat} (e : LogEntry)
    (hStart : s.startIdx ≤ index) (hLast : index + 1 = s.nextIdx) :
    ∃ s', s.writeAt codec index e = some (s', ()) ∧ Holds codec s' (l.writeAt index e) := by
  have hBound := h.bound
  rw [h.start] at hStart
  rw [h.next] at hLast
  have hNext := IndexedLog.next_writeAt l e hStart (by omega)
  rw [writeAt_eq codec h.free]
  refine ⟨_, rfl, rfl, h.start, ?_, h.pos, by omega, ?_, ?_⟩
  · show s.nextIdx = _
    rw [hNext, hLast, h.next]
  · intro i hi
    show (s.db.insert (key index) _).find? _ = _
    rw [find?_insert_key _ (by omega) hi, IndexedLog.entryAt_writeAt l e hStart (by omega),
      h.find i hi]
    rcases Nat.lt_trichotomy i index with hLt | rfl | hGt
    · rw [if_neg (by omega), if_pos hLt]
    · rw [if_pos rfl, if_neg (by omega), if_pos rfl]
      rfl
    · -- behind the last entry there was none
      rw [if_neg (by omega), if_neg (by omega), if_neg (by omega),
        IndexedLog.entryAt_eq_none l (by omega)]
  · intro k hk
    rcases OrdMap.mem_keys_insert.mp hk with rfl | hk'
    · exact ⟨index, by omega, rfl⟩
    · exact h.keys k hk'

theorem compact_eq (hFree : s.locked = false) (hLast : last + 1 < 2 ^ 64) :
    s.compact last = some
      ({ db := (List.range' s.startIdx (last + 1 - s.startIdx)).foldl
            (fun db j => db.erase (key j)) s.db
         startIdx := last + 1
         nextIdx := if (s.nextIdx + 2 ^ 64 - 1) % 2 ^ 64 ≤ last then last + 1 else s.nextIdx
         locked := false }, true) := by
  rw [compact, guarded_of_free hFree, deleteUpTo_eq hLast (by omega), Nat.mod_eq_of_lt hLast,
    Option.map_some, Option.map_some]

theorem compact_max (hFree : s.locked = false) (hStart : s.startIdx < 2 ^ 64) :
    s.compact (2 ^ 64 - 1) = none := by
  rw [compact, guarded_of_free hFree, deleteUpTo_max _ hStart, Option.map_none, Option.map_none]

/-- Compaction drops the entries up to `last`. -/
theorem Holds.compact (h : Holds codec s l) (hLast : last + 1 < 2 ^ 64)
    (hStart : s.startIdx ≤ last + 1) :
    ∃ s', s.compact last = some (s', true) ∧ Holds codec s' (l.compact last) := by
  have hBound := h.bound
  have hPos := h.pos
  have hInside : l.start ≤ l.next := Nat.le_add_right _ _
  rw [h.start] at hStart
  refine ⟨_, compact_eq h.free hLast, rfl, ?_, ?_, ?_, ?_, ?_, ?_⟩
  · show last + 1 = max l.start (last + 1)
    omega
  · rw [IndexedLog.next_compact]
    simp only [h.next]
    split <;> omega
  · show 0 < max l.start (last + 1)
    omega
  · rw [IndexedLog.next_compact]
    omega
  · intro i hi
    rw [find?_deleted s.db (by omega) hi, h.start, IndexedLog.entryAt_compact, h.find i hi]
    by_cases hKept : i ≤ last
    · rw [if_pos hKept]
      by_cases hBefore : l.start ≤ i
      · rw [if_pos ⟨hBefore, hKept⟩]
        rfl
      · rw [if_neg fun hBoth => hBefore hBoth.1, IndexedLog.entryAt, if_neg hBefore]
    · rw [if_neg hKept, if_neg fun hBoth => hKept hBoth.2]
  · intro k hk
    rw [← OrdMap.find?_isSome_iff, OrdMap.find?_foldl_erase] at hk
    split at hk
    · cases hk
    · exact h.keys k (OrdMap.find?_isSome_iff.mp hk)

/-- The other read of a range, which does not resize, returns the entries. -/
theorem Holds.logEntriesExt (h : Holds codec s l) (ha : a < 2 ^ 64) (hb : b < 2 ^ 64) :
    s.logEntriesExt codec a b 0 = l.between a b := by
  have hAll : ∀ accum entries, takeBatch 0 accum entries = entries := by
    intro accum entries
    induction entries generalizing accum with
    | nil => rfl
    | cons e rest ih => rw [takeBatch, if_neg (by simp), ih]
  rw [KvLogStore.logEntriesExt, hAll, h.scan ha hb]

theorem Holds.nextSlot (h : Holds codec s l) : s.nextSlot = some (s, l.next) := by
  rw [KvLogStore.nextSlot, guarded_read h.free, h.next]

theorem Holds.lastEntry (h : Holds codec s l) :
    s.lastEntry codec = some (s, l.entryAt (l.next - 1)) := by
  have hBound := h.bound
  have hPos := h.pos
  have hInside : l.start ≤ l.next := Nat.le_add_right _ _
  have hWrap : (l.next + 2 ^ 64 - 1) % 2 ^ 64 = l.next - 1 := by omega
  rw [KvLogStore.lastEntry, guarded_read h.free]
  simp only [h.start, h.next, hWrap]
  split
  · rw [IndexedLog.entryAt, if_neg (by omega)]
  · exact congrArg (fun e => some (s, e)) (h.get (by omega))

-- Calls

inductive LogCall
  | append (entry : LogEntry)
  | writeAt (index : UInt64) (entry : LogEntry)
  | compact (lastLogIndex : UInt64)
  | entryAt (index : UInt64)
  | logEntries (start stop : UInt64)
deriving DecidableEq, Repr

inductive LogAnswer
  | index (n : Nat)
  | done
  | flag (ok : Bool)
  | entry (e : Option LogEntry)
  | entries (es : List (Option LogEntry))
deriving DecidableEq, Repr

def exec (codec : EntryCodec) (s : KvLogStore) : LogCall → Option (KvLogStore × LogAnswer)
  | .append e => (s.append codec e).map fun out => (out.1, .index out.2)
  | .writeAt index e => (s.writeAt codec index.toNat e).map fun out => (out.1, .done)
  | .compact last => (s.compact last.toNat).map fun out => (out.1, .flag out.2)
  | .entryAt index => (s.entryAt codec index.toNat).map fun out => (out.1, .entry out.2)
  | .logEntries start stop => some (s, .entries (s.logEntries codec start.toNat stop.toNat))

/-- What the calls are for. -/
def specExec (l : IndexedLog LogEntry) : LogCall → IndexedLog LogEntry × LogAnswer
  | .append e => (l.append e, .index l.next)
  | .writeAt index e => (l.writeAt index.toNat e, .done)
  | .compact last => (l.compact last.toNat, .flag true)
  | .entryAt index => (l, .entry (l.entryAt index.toNat))
  | .logEntries start stop => (l, .entries ((l.between start.toNat stop.toNat).map some))

/-- The counters are those of the log. -/
def SameCounters (s : KvLogStore) (l : IndexedLog LogEntry) : Prop :=
  s.startIdx = l.start ∧ s.nextIdx = l.next

/-- A call that may be made: an entry is written at an index of the log, or behind it. -/
def Allowed (s : KvLogStore) : LogCall → Prop
  | .writeAt index _ => s.startIdx ≤ index.toNat ∧ index.toNat ≤ s.nextIdx
  | _ => True

/-- A call that does what it is for. -/
def Meets (s : KvLogStore) : LogCall → Prop
  | .append _ => s.nextIdx + 1 < 2 ^ 64
  | .writeAt index _ => index.toNat + 1 = s.nextIdx
  | .compact last => s.startIdx ≤ last.toNat + 1 ∧ last.toNat + 1 < 2 ^ 64
  | .entryAt _ => True
  | .logEntries start stop => start = stop

/-- A call that does not lower `start_index`. -/
def KeepsStart (codec : EntryCodec) (s : KvLogStore) (c : LogCall) : Prop :=
  ∀ s', stepOf (exec codec) s c = some s' → s.startIndex ≤ s'.startIndex

theorem logEntries_self (codec : EntryCodec) (s : KvLogStore) (i : Nat) :
    s.logEntries codec i i = [] := by
  have hNone : ∀ e ∈ s.db.entries, ¬ decide (InRange (key i) (key i) e.1) = true := by
    intro e _ hIn
    exact absurd (of_decide_eq_true hIn).2 (not_lt_of_ge (of_decide_eq_true hIn).1)
  rw [logEntries, scan, filter_eq_nil_iff.mpr hNone, Nat.add_sub_cancel_left, Nat.mod_self]
  rfl

theorem null_mem_logEntries (codec : EntryCodec) (s : KvLogStore) {a b : UInt64} (h : a ≠ b) :
    none ∈ s.logEntries codec a.toNat b.toNat := by
  have hNe : a.toNat ≠ b.toNat := fun hEq => h (UInt64.toNat_inj.mp hEq)
  have ha := a.toNat_lt
  have hb := b.toNat_lt
  rw [logEntries]
  refine mem_append_left _ (mem_replicate.mpr ⟨?_, rfl⟩)
  omega

/-- Every call does to the store what it does to the list. -/
theorem Holds.exec (h : Holds codec s l) (hAllowed : s.Allowed c) (hMeets : s.Meets c) :
    ∃ s', s.exec codec c = some (s', (specExec l c).2) ∧ Holds codec s' (specExec l c).1 := by
  cases c with
  | append e =>
    obtain ⟨s', hAppend, hs'⟩ := h.append e hMeets
    refine ⟨s', ?_, hs'⟩
    rw [KvLogStore.exec, hAppend]
    rfl
  | writeAt index e =>
    obtain ⟨s', hWrite, hs'⟩ := h.writeAt e hAllowed.1 hMeets
    refine ⟨s', ?_, hs'⟩
    rw [KvLogStore.exec, hWrite]
    rfl
  | compact last =>
    obtain ⟨s', hCompact, hs'⟩ := h.compact hMeets.2 hMeets.1
    refine ⟨s', ?_, hs'⟩
    rw [KvLogStore.exec, hCompact]
    rfl
  | entryAt index =>
    refine ⟨s, ?_, h⟩
    rw [KvLogStore.exec, entryAt, guarded_read h.free]
    exact congrArg (fun e => some (s, LogAnswer.entry e)) (h.get index.toNat_lt)
  | logEntries start stop =>
    obtain rfl : start = stop := hMeets
    refine ⟨s, ?_, h⟩
    rw [KvLogStore.exec, specExec, logEntries_self, IndexedLog.between, Nat.sub_self]
    rfl

/-- A call that does what it is for meets its condition. -/
theorem Holds.meets_of_exec (h : Holds codec s l) {s' : KvLogStore} (hAllowed : s.Allowed c)
    (hExec : s.exec codec c = some (s', (specExec l c).2))
    (hSame : s'.SameCounters (specExec l c).1) : s.Meets c := by
  have hBound := h.bound
  have hInside : l.start ≤ l.next := Nat.le_add_right _ _
  cases c with
  | append e =>
    rw [KvLogStore.exec, append_eq codec h.free] at hExec
    have hNext : (s.nextIdx + 1) % 2 ^ 64 = s'.nextIdx :=
      congrArg (fun out => out.1.nextIdx) (Option.some.inj hExec)
    have hGrown : s'.nextIdx = l.next + 1 := hSame.2.trans (IndexedLog.next_append l e)
    show s.nextIdx + 1 < 2 ^ 64
    rw [h.next] at hNext ⊢
    omega
  | writeAt index e =>
    -- the store keeps the next index, the log cuts behind the entry
    rw [KvLogStore.exec, writeAt_eq codec h.free] at hExec
    have hNext : s.nextIdx = s'.nextIdx :=
      congrArg (fun out => out.1.nextIdx) (Option.some.inj hExec)
    obtain ⟨hStart, hStop⟩ := hAllowed
    rw [h.start] at hStart
    rw [h.next] at hStop
    have hCut : s'.nextIdx = index.toNat + 1 :=
      hSame.2.trans (IndexedLog.next_writeAt l e hStart hStop)
    exact (hNext.trans hCut).symm
  | compact last =>
    have hRange := last.toNat_lt
    by_cases hLast : last.toNat + 1 < 2 ^ 64
    · rw [KvLogStore.exec, compact_eq h.free hLast] at hExec
      have hStart : last.toNat + 1 = s'.startIdx :=
        congrArg (fun out => out.1.startIdx) (Option.some.inj hExec)
      have hRaised : s'.startIdx = max l.start (last.toNat + 1) := hSame.1
      refine ⟨?_, hLast⟩
      rw [h.start]
      omega
    · -- the loop over the indices would not end
      have hMax : last.toNat = 2 ^ 64 - 1 := by omega
      have hStart : s.startIdx < 2 ^ 64 := by
        rw [h.start]
        omega
      rw [KvLogStore.exec, hMax, compact_max h.free hStart] at hExec
      cases hExec
  | entryAt index => exact trivial
  | logEntries start stop =>
    by_contra hNe
    have hEntries : LogAnswer.entries (s.logEntries codec start.toNat stop.toNat) =
        LogAnswer.entries ((l.between start.toNat stop.toNat).map some) :=
      congrArg Prod.snd (Option.some.inj hExec)
    -- the answer of the store has a null entry
    have hNull := null_mem_logEntries codec s hNe
    rw [LogAnswer.entries.inj hEntries, mem_map] at hNull
    obtain ⟨e, -, hNone⟩ := hNull
    cases hNone

/-- A call that does what it is for does not lower `start_index`. -/
theorem keepsStart_of_meets (codec : EntryCodec) (s : KvLogStore) (c : LogCall)
    (h : s.Meets c) : s.KeepsStart codec c := by
  intro s' hStep
  cases hLocked : s.locked with
  | true =>
    cases c with
    | logEntries start stop =>
      cases hStep
      exact le_rfl
    | _ => simp [stepOf, exec, append, writeAt, compact, entryAt, guarded, hLocked] at hStep
  | false =>
    cases c with
    | append e =>
      rw [stepOf, exec, append_eq codec hLocked] at hStep
      cases hStep
      exact le_rfl
    | writeAt index e =>
      rw [stepOf, exec, writeAt_eq codec hLocked] at hStep
      cases hStep
      exact le_rfl
    | compact last =>
      rw [stepOf, exec, compact_eq hLocked h.2] at hStep
      cases hStep
      exact h.1
    | entryAt index =>
      rw [stepOf, exec, entryAt, guarded_read hLocked] at hStep
      cases hStep
      exact le_rfl
    | logEntries start stop =>
      cases hStep
      exact le_rfl

/-- **The log of the meta servers.** A run of allowed calls is answered as an indexed log
answers it, with the counters of that log after every call, and never lowers `start_index`:
just if every call meets its condition. -/
theorem follows_indexed_log_iff (codec : EntryCodec) {calls : List LogCall}
    (hAllowed : Along (stepOf (exec codec)) Allowed init calls) :
    (Follows (exec codec) specExec SameCounters init ⟨1, []⟩ calls ∧
      Along (stepOf (exec codec)) (KeepsStart codec) init calls) ↔
    Along (stepOf (exec codec)) Meets init calls := by
  have hFollows : Follows (exec codec) specExec SameCounters init ⟨1, []⟩ calls ↔
      Along (stepOf (exec codec)) Meets init calls := by
    have hStep : ∀ s l c, Holds codec s l → s.Allowed c → s.Meets c →
        ∃ s', exec codec s c = some (s', (specExec l c).2) ∧ s'.SameCounters (specExec l c).1 ∧
          Holds codec s' (specExec l c).1 := by
      intro s l c h hc hMeets
      obtain ⟨s', hExec, hs'⟩ := h.exec hc hMeets
      exact ⟨s', hExec, ⟨hs'.start, hs'.next⟩, hs'⟩
    exact follows_iff hStep (fun s l c s' h hc => h.meets_of_exec hc) (init_holds codec) hAllowed
  rw [hFollows]
  exact and_iff_left_of_imp (along_mono (keepsStart_of_meets codec))

instance (s : KvLogStore) (c : LogCall) : Decidable (s.Allowed c) :=
  match c with
  | .writeAt _ _ => inferInstanceAs (Decidable (_ ∧ _))
  | .append _ | .compact _ | .entryAt _ | .logEntries _ _ => isTrue trivial

instance (s : KvLogStore) (c : LogCall) : Decidable (s.Meets c) :=
  match c with
  | .append _ => inferInstanceAs (Decidable (_ < _))
  | .writeAt _ _ => inferInstanceAs (Decidable (_ = _))
  | .compact _ => inferInstanceAs (Decidable (_ ∧ _))
  | .entryAt _ => isTrue trivial
  | .logEntries start stop => inferInstanceAs (Decidable (start = stop))

/-- Entries as bytes: the term, the type, and the data. -/
def plainCodec : EntryCodec where
  serialize e := be 8 e.term.toNat ++ e.valType :: e.buf
  deserialize bs := ⟨UInt64.ofNat (ofBe (bs.take 8)), bs.getD 8 0, bs.drop 9⟩
  exact e := by
    have hTerm : e.term.toNat < 256 ^ 8 := e.term.toNat_lt
    have hTake : (be 8 e.term.toNat ++ e.valType :: e.buf).take 8 = be 8 e.term.toNat :=
      take_left' (be_length _ _)
    have hDrop : (be 8 e.term.toNat ++ e.valType :: e.buf).drop 9 = e.buf := by
      rw [drop_append, be_length, drop_eq_nil_of_le (by simp)]
      rfl
    have hType : (be 8 e.term.toNat ++ e.valType :: e.buf).getD 8 0 = e.valType := by
      rw [getD_append_right _ _ _ _ (by simp), be_length]
      rfl
    rw [hTake, hDrop, hType, ofBe_be_of_lt hTerm, UInt64.ofNat_toNat]

/-- Two entries, the second of them written again. -/
theorem follows_indexed_log_iff_two :
    Along (stepOf (exec plainCodec)) Allowed init
        [.append ⟨1, 1, [1]⟩, .append ⟨1, 1, [2]⟩, .writeAt 2 ⟨2, 1, [3]⟩, .entryAt 2] ∧
      Follows (exec plainCodec) specExec SameCounters init ⟨1, []⟩
        [.append ⟨1, 1, [1]⟩, .append ⟨1, 1, [2]⟩, .writeAt 2 ⟨2, 1, [3]⟩, .entryAt 2] :=
  ⟨by decide, ((follows_indexed_log_iff plainCodec (by decide)).mpr (by decide)).1⟩

/-- Writing over the first of two entries does not discard the second: the next index stays. -/
theorem writeAt_first_keeps_second :
    Along (stepOf (exec plainCodec)) Allowed init
        [.append ⟨1, 1, [1]⟩, .append ⟨1, 1, [2]⟩, .writeAt 1 ⟨2, 1, [3]⟩] ∧
      ¬ Follows (exec plainCodec) specExec SameCounters init ⟨1, []⟩
        [.append ⟨1, 1, [1]⟩, .append ⟨1, 1, [2]⟩, .writeAt 1 ⟨2, 1, [3]⟩] := by
  refine ⟨by decide, ?_⟩
  rintro ⟨s₁, h₁, -, s₂, h₂, -, s₃, h₃, ⟨-, hNext⟩, -⟩
  cases h₁
  cases h₂
  cases h₃
  exact absurd hNext (by decide)

end KvLogStore

end MyBase
