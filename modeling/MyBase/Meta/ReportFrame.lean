import MyBase.Meta.SysMgr

/-!
# MyBase — what a finish report may touch

A report of a finished migration comes with any bucket id. `setMigratingHashtable` turns
away ids above the bucket count, reports outside a migration and reports from a server
that is not the bucket's master, and copies the bucket's row from `dHashTable` to
`mHashTable` otherwise. The id that is the bucket count itself gets past the guard: there
`mHashTable[B]` is read, which is the next copy of bucket 0, and when it is the sender the
loop goes one bucket too far.

* `ReportFrame` — the report stays inside the tables and changes at most its bucket's row;
* `setMigratingHashtable_frame_iff` — it does so but for that id;
* `report_past_last_bucket` — what happens there.
-/

namespace MyBase

open Lib List

namespace SysMgr

/-- The words that the handling of a report reads, and some of which it writes, counted
from the start of `hashTable`. -/
def reportWords (s : SysMgr) (bucketId : Nat) (serverId : ServerId) : List Nat :=
  let m := s.tableMgr
  if bucketId > m.serverBucketCount ∨ s.isMigrating = false then []
  else if m.cell .mig bucketId ≠ serverId then [m.skip .mig + bucketId]
  else
    (m.skip .mig + bucketId) :: (List.range m.serverCopyCount).flatMap fun i =>
      [m.skip .mig + (i * m.serverBucketCount + bucketId),
        m.skip .dest + (i * m.serverBucketCount + bucketId)]

/-- The tables after a report, before the counters are brought up to date. -/
def reportTables (s : SysMgr) (bucketId : Nat) (serverId : ServerId) : TableMgr :=
  if s.Accepts bucketId serverId then (s.tableMgr.setMigratingRow bucketId).1 else s.tableMgr

/-- The tables of the new state, when there is one, are these. -/
theorem setMigratingHashtable_words {s s' : SysMgr} {bucketId : Nat} {serverId : ServerId}
    (h : s.setMigratingHashtable bucketId serverId = some s') :
    s'.tableMgr.words = (s.reportTables bucketId serverId).words := by
  unfold reportTables
  cases setMigratingHashtable_does h with
  | turnedAway hNot => rw [if_neg hNot]
  | repeated hAccepts hSame => rw [if_pos hAccepts, TableMgr.setMigratingRow_unchanged hSame]
  | reported hAccepts hChanged hFind =>
    rw [if_pos hAccepts]
    rfl

/-- A report from the master of one of the buckets, while there is a migration. -/
def FromMaster (s : SysMgr) (bucketId : Nat) (serverId : ServerId) : Prop :=
  bucketId < s.tableMgr.serverBucketCount ∧ s.isMigrating = true ∧
    s.tableMgr.mHashTable 0 bucketId = serverId

/-- The report reads and writes inside the three tables. From the bucket's master it makes
the row of `mHashTable` that of `dHashTable` and changes nothing else; otherwise it
changes nothing. -/
structure ReportFrame (s : SysMgr) (bucketId : Nat) (serverId : ServerId) : Prop where
  inside : ∀ k ∈ s.reportWords bucketId serverId, k < 3 * s.tableMgr.getHashTableSize
  ignored : ¬ s.FromMaster bucketId serverId →
    (s.reportTables bucketId serverId).words = s.tableMgr.words
  copied : s.FromMaster bucketId serverId → ∀ kind, ∀ p < s.tableMgr.serverCopyCount,
    ∀ b < s.tableMgr.serverBucketCount,
      (s.reportTables bucketId serverId).table kind p b =
        if kind = .mig ∧ b = bucketId then s.tableMgr.dHashTable p b else s.tableMgr.table kind p b

variable {s : SysMgr} {bucketId : Nat} {serverId : ServerId}

theorem accepts_iff : s.Accepts bucketId serverId ↔
    bucketId ≤ s.tableMgr.serverBucketCount ∧ s.isMigrating = true ∧
      s.tableMgr.cell .mig bucketId = serverId := by
  simp [Accepts, isMigrating]

theorem mHashTable_zero (m : TableMgr) (b : Nat) : m.mHashTable 0 b = m.cell .mig b := by
  simp [TableMgr.mHashTable, TableMgr.table]

theorem accepts_of_fromMaster (h : s.FromMaster bucketId serverId) :
    s.Accepts bucketId serverId :=
  accepts_iff.mpr ⟨le_of_lt h.1, h.2.1, (mHashTable_zero _ _).symm.trans h.2.2⟩

/-- What gets past the checks comes from a master, or has the id behind the last bucket. -/
theorem fromMaster_of_accepts (h : s.Accepts bucketId serverId)
    (hLast : bucketId ≠ s.tableMgr.serverBucketCount) : s.FromMaster bucketId serverId := by
  obtain ⟨hLe, hMigrating, hServer⟩ := accepts_iff.mp h
  exact ⟨by omega, hMigrating, (mHashTable_zero _ _).trans hServer⟩

/-- The words of a report that is turned away, or is about one of the buckets. -/
theorem reportWords_inside
    (h : s.Accepts bucketId serverId → bucketId < s.tableMgr.serverBucketCount) :
    ∀ k ∈ s.reportWords bucketId serverId, k < 3 * s.tableMgr.getHashTableSize := by
  have hRow : s.tableMgr.serverBucketCount ≤ s.tableMgr.getHashTableSize :=
    Nat.le_mul_of_pos_left _ s.tableMgr.copies_pos
  have hPos := s.tableMgr.buckets_pos
  unfold reportWords
  dsimp only
  split
  · simp
  rename_i hGuard
  rw [not_or, not_lt, Bool.not_eq_false] at hGuard
  -- the first read is at most one bucket behind the first row
  have hFirst : s.tableMgr.skip .mig + bucketId < 3 * s.tableMgr.getHashTableSize := by
    simp only [TableMgr.skip]
    omega
  split
  · simpa using hFirst
  rename_i hServer
  have hBucket := h (accepts_iff.mpr ⟨hGuard.1, hGuard.2, not_not.mp hServer⟩)
  refine List.forall_mem_cons.mpr ⟨hFirst, ?_⟩
  intro k hk
  obtain ⟨i, hi, hk⟩ := List.mem_flatMap.mp hk
  have hIdx : i * s.tableMgr.serverBucketCount + bucketId < s.tableMgr.getHashTableSize :=
    index_lt (List.mem_range.mp hi) hBucket
  simp only [mem_cons, not_mem_nil, or_false] at hk
  rcases hk with rfl | rfl
  · exact TableMgr.skip_add_lt hIdx
  · exact TableMgr.skip_add_lt hIdx

/-- The last pass of the loop for the id behind the last bucket reads behind `dHashTable`. -/
theorem reportWords_past_end (h : s.Accepts s.tableMgr.serverBucketCount serverId) :
    3 * s.tableMgr.getHashTableSize ∈ s.reportWords s.tableMgr.serverBucketCount serverId := by
  obtain ⟨-, hMigrating, hServer⟩ := accepts_iff.mp h
  unfold reportWords
  dsimp only
  rw [if_neg (by simp [hMigrating]), if_neg (by simp [hServer])]
  refine mem_cons_of_mem _ (List.mem_flatMap.mpr ⟨s.tableMgr.serverCopyCount - 1, ?_, ?_⟩)
  · have hCopies := s.tableMgr.copies_pos
    exact List.mem_range.mpr (by omega)
  · have hSize : (s.tableMgr.serverCopyCount - 1) * s.tableMgr.serverBucketCount +
        s.tableMgr.serverBucketCount = s.tableMgr.getHashTableSize := by
      rw [← Nat.succ_mul, Nat.succ_eq_add_one, Nat.sub_add_cancel s.tableMgr.copies_pos]
      rfl
    rw [hSize]
    simp only [TableMgr.skip, mem_cons, not_mem_nil, or_false]
    right
    omega

/-- For every state of the tables and every report: the tables become those of `reportTables`; and
the report stays inside the tables and within its row unless its id is the bucket count, there is a
migration and `mHashTable` has the sender there. -/
theorem setMigratingHashtable_frame_iff (s : SysMgr) (bucketId : Nat) (serverId : ServerId) :
    (∀ s', s.setMigratingHashtable bucketId serverId = some s' →
      s'.tableMgr.words = (s.reportTables bucketId serverId).words) ∧
    (s.ReportFrame bucketId serverId ↔
      ¬ (bucketId = s.tableMgr.serverBucketCount ∧ s.isMigrating = true ∧
        s.tableMgr.cell .mig bucketId = serverId)) := by
  refine ⟨fun _ => setMigratingHashtable_words, ?_⟩
  constructor
  · rintro h ⟨rfl, hMigrating, hServer⟩
    have hAccepts := accepts_iff.mpr ⟨le_refl _, hMigrating, hServer⟩
    exact lt_irrefl _ (h.inside _ (reportWords_past_end hAccepts))
  · intro h
    have hMaster : s.Accepts bucketId serverId → s.FromMaster bucketId serverId := by
      intro hAccepts
      refine fromMaster_of_accepts hAccepts ?_
      intro hLast
      obtain ⟨-, hRest⟩ := accepts_iff.mp hAccepts
      exact h ⟨hLast, hRest⟩
    refine ⟨reportWords_inside fun hAccepts => (hMaster hAccepts).1, ?_, ?_⟩
    · intro hNot
      rw [reportTables, if_neg fun hAccepts => hNot (hMaster hAccepts)]
    · intro hFrom kind p hp b hb
      rw [reportTables, if_pos (accepts_of_fromMaster hFrom),
        (TableMgr.setMigratingRow_spec s.tableMgr hFrom.1).tables kind p hp b hb]
      simp only [hp, and_true]

end SysMgr

/-- One bucket of two copies on the servers 1 and 2, to be moved to 1 and 3. -/
def oneBucketMoving : SysMgr where
  tableMgr :=
    { serverBucketCount := 1
      serverCopyCount := 2
      clientVersion := 1
      serverVersion := 1
      namespaceCapacityVersion := 1
      migrateBlockCount := 1
      words := [1, 2, 1, 2, 1, 3]
      hashTableDeflateDataForClient := []
      hashTableDeflateDataForDataServer := []
      buckets_pos := by decide
      copies_pos := by decide
      fits := by decide
      mapped := rfl }
  migrateMachine := incrAt 1 ∅
  minConfigVersion := 10

/-- Server 2 reports bucket 1, of which there is none. It is taken for the slave of bucket
0: that cell changes in `mHashTable`, the master of bucket 0 in `dHashTable` becomes 0, and
a word behind the tables is read. -/
theorem report_past_last_bucket :
    ¬ oneBucketMoving.FromMaster 1 2 ∧
      (oneBucketMoving.reportTables 1 2).words = [1, 2, 1, 3, 0, 3] ∧
      6 ∈ oneBucketMoving.reportWords 1 2 ∧ ¬ oneBucketMoving.ReportFrame 1 2 := by
  have hNot : ¬ oneBucketMoving.FromMaster 1 2 := fun h => absurd h.1 (by decide)
  have hWords : (oneBucketMoving.reportTables 1 2).words = [1, 2, 1, 3, 0, 3] := by decide
  refine ⟨hNot, hWords, by decide, ?_⟩
  intro h
  have hSame := (h.ignored hNot).symm.trans hWords
  exact absurd hSame (by decide)

end MyBase
