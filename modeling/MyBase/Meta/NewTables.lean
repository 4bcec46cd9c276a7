import MyBase.Meta.Migration
import MyBase.Meta.NewMasters
import MyBase.Meta.Published
import MyBase.Storage.Migrates

/-!
# MyBase — the tables after a rebuild

`SysMgr::rebuild` plans a migration, and two sides work out from the new tables what
has to move. The meta server counts buckets (`fillMigrateMachine`): it compares masters,
and the slaves as sets. A storage node computes its own list from the heartbeat reply
(`calculateMigrates`): it compares each planned server with the whole published row.

* `countedFor_eq_migrates` — for every server that is alive, the two find the same
  buckets. The comparisons differ when an old slave becomes master; that is what
  `rebuildTableNew_master_ne_slave` rules out.
* `single_copy_alive_iff` — with one copy there is no slave to promote: a bucket whose
  server is dead keeps it through the rebuild and the repair that follows it, so all
  servers are alive afterwards exactly when they were before.
-/

namespace MyBase

open Lib List

-- Servers that are alive

theorem mem_keys_setAvailableServer {ids : List ServerId} {node : ServerId} :
    node ∈ (setAvailableServer ids).keys ↔ node ∈ ids := by
  unfold setAvailableServer
  rw [OrdMap.mem_keys_foldl fun id k => k = id]
  · simp [OrdMap.keys]
  · intro m id k
    rw [← OrdMap.find?_isSome_iff, ← OrdMap.find?_isSome_iff, OrdMap.find?_emplace]
    split
    · rename_i hk
      simp [hk]
    · rename_i hk
      simp [hk]

namespace SysMgr

variable {s s' : SysMgr} {upnodeList : List ServerId} {rand : Nat → Nat} {fuel : Nat}

theorem available_iff {node : ServerId} :
    (s.tableBuilder upnodeList).Available node ↔ node ∈ upnodeList :=
  mem_keys_setAvailableServer

theorem rebuild_writes (hWrites : s.Refreshes (.rebuild upnodeList rand fuel))
    (hRebuild : s.rebuild upnodeList rand fuel = some s') :
    ∃ dest, (s.tableBuilder upnodeList).rebuildTableNew rand fuel (s.quickTable upnodeList) =
        some (.ok dest) ∧ s' = s.writeTables upnodeList dest := by
  obtain ⟨dest, hOk⟩ := hWrites
  simp only [rebuild, hOk] at hRebuild
  exact ⟨dest, hOk, (Option.some.inj hRebuild).symm⟩

-- Meta server and storage node

theorem getD_cells (m : TableMgr) (kind : TableKind) {i : Nat} (hi : i < m.getHashTableSize) :
    (m.cells kind).getD i 0 = m.cell kind i := by
  simp [TableMgr.cells, hi]

section Words

variable (m : TableMgr) {p b : Nat}

/-- The cells of the published table, as a storage node indexes them. -/
theorem tableWord_hash (hp : p < m.serverCopyCount) (hb : b < m.serverBucketCount) :
    tableWord (m.cells .hash ++ m.cells .dest) (b + m.serverBucketCount * p) =
      m.hashTable p b := by
  have hIdx : p * m.serverBucketCount + b < m.getHashTableSize := index_lt hp hb
  rw [Nat.add_comm, Nat.mul_comm, tableWord, getD_append _ _ _ _ (by simpa [TableMgr.cells]),
    getD_cells m .hash hIdx]
  rfl

/-- The cells of the planned table, behind the published one. -/
theorem tableWord_dest (hp : p < m.serverCopyCount) (hb : b < m.serverBucketCount) :
    tableWord (m.cells .hash ++ m.cells .dest)
        (m.serverBucketCount * m.serverCopyCount + (b + m.serverBucketCount * p)) =
      m.dHashTable p b := by
  have hIdx : p * m.serverBucketCount + b < m.getHashTableSize := index_lt hp hb
  have hSize : (m.cells .hash).length = m.serverBucketCount * m.serverCopyCount := by
    rw [TableMgr.cells, length_map, length_range, TableMgr.getHashTableSize, Nat.mul_comm]
  rw [← hSize, tableWord, getD_append_right _ _ _ _ (Nat.le_add_right ..),
    Nat.add_sub_cancel_left, Nat.add_comm b, Nat.mul_comm, getD_cells m .dest hIdx]
  rfl

end Words

/-- The two comparisons of a published row `q` with a planned row `d` agree: `d` names
each server once, and its master is no slave of `q`. -/
theorem row_changes_iff {copies : Nat} {q d : Nat → ServerId} (hCopies : 0 < copies)
    (hDistinct : ∀ i < copies, ∀ j < copies, i ≠ j → d i ≠ d j)
    (hMaster : ∀ k, 1 ≤ k → k < copies → d 0 ≠ q k) :
    (q 0 ≠ d 0 ∨ ∃ j, (1 ≤ j ∧ j < copies) ∧ ∀ k, 1 ≤ k → k < copies → d j ≠ q k) ↔
      ∃ i < copies, ∀ j < copies, d i ≠ q j := by
  constructor
  · intro hChanges
    by_cases hSame : q 0 = d 0
    · obtain ⟨i, hi, hNew⟩ := hChanges.resolve_left (not_not.mpr hSame)
      refine ⟨i, hi.2, fun j hj => ?_⟩
      rcases Nat.eq_zero_or_pos j with rfl | hPos
      · rw [hSame]
        exact hDistinct i hi.2 0 hCopies (by omega)
      · exact hNew j hPos hj
    · refine ⟨0, hCopies, fun j hj => ?_⟩
      rcases Nat.eq_zero_or_pos j with rfl | hPos
      · exact Ne.symm hSame
      · exact hMaster j hPos hj
  · rintro ⟨i, hi, hNew⟩
    rcases Nat.eq_zero_or_pos i with rfl | hPos
    · exact Or.inl (hNew 0 hCopies).symm
    · exact Or.inr ⟨i, ⟨hPos, hi⟩, fun k _ hk => hNew k hk⟩

/-- The table that a later rebuild publishes, and starts from. -/
theorem quickTable_sourceOk (hFirst : s.firstRun = false)
    (hCopies : 2 ≤ s.tableMgr.serverCopyCount) (hNonzero : invalidFlag ∉ upnodeList)
    (hDistinct : ∀ b < s.tableMgr.serverBucketCount,
      (s.tableBuilder upnodeList).Distinct s.tableMgr.mHashTable b) :
    (s.tableBuilder upnodeList).SourceOk (s.quickTable upnodeList) := by
  rw [quickTable, if_pos ⟨hCopies, hFirst⟩]
  exact TableBuilder.buildQuickTable_sourceOk _ hDistinct fun h => hNonzero (available_iff.mp h)

/-- What the planned rows have to be like for the two sides to agree on a server. -/
theorem countedFor_eq_keys (m : TableMgr) {server : ServerId} (hServer : server ≠ 0)
    (hSame : ∀ p < m.serverCopyCount, ∀ b < m.serverBucketCount,
      m.hashTable p b = m.mHashTable p b)
    (hDistinct : ∀ b < m.serverBucketCount, m.mHashTable 0 b = server →
      ∀ i < m.serverCopyCount, ∀ j < m.serverCopyCount, i ≠ j →
        m.dHashTable i b ≠ m.dHashTable j b)
    (hMaster : ∀ b < m.serverBucketCount, m.mHashTable 0 b = server →
      ∀ k, 1 ≤ k → k < m.serverCopyCount → m.dHashTable 0 b ≠ m.mHashTable k b) :
    m.countedFor server = (updateServerTable server m.serverBucketCount m.serverCopyCount
      (m.cells .hash ++ m.cells .dest) ∅).keys.toFinset := by
  ext b
  rw [TableMgr.mem_countedFor, TableMgr.mem_countedBuckets, mem_toFinset,
    mem_keys_updateServerTable server m.copies_pos, or_iff_right (by simp [OrdMap.keys]), and_assoc]
  refine and_congr_right fun hb => ?_
  have hLength : (m.cells .hash ++ m.cells .dest).length >
      m.serverCopyCount * m.serverBucketCount := by
    have hPos := Nat.mul_pos m.copies_pos m.buckets_pos
    simp only [TableMgr.cells, TableMgr.getHashTableSize, length_append, length_map,
      length_range]
    omega
  have hWord : tableWord (m.cells .hash ++ m.cells .dest) b = m.mHashTable 0 b := by
    rw [← hSame 0 m.copies_pos b hb, ← tableWord_hash m m.copies_pos hb, Nat.mul_zero, Nat.add_zero]
  rw [and_iff_right hLength, hWord, and_comm, eq_comm]
  refine and_congr_right fun hMine => ?_
  rw [TableMgr.counted_iff, and_iff_right (hMine ▸ hServer),
    row_changes_iff m.copies_pos (q := fun p => m.mHashTable p b) (d := fun p => m.dHashTable p b)
      (hDistinct b hb hMine.symm) (hMaster b hb hMine.symm)]
  refine exists_congr fun i => and_congr_right fun hi => forall₂_congr fun j hj => ?_
  rw [tableWord_hash m hj hb, tableWord_dest m hi hb, hSame j hj b hb]

/-- After a rebuild that writes new tables and is not the first, the buckets that the
meta server counts for a server that is alive are those that the server, as a storage
node with nothing left to migrate, enters from its next heartbeat reply. -/
theorem countedFor_eq_migrates (s s' : SysMgr) (upnodeList : List ServerId) (rand : Nat → Nat)
    (fuel : Nat) (hFirst : s.firstRun = false) (hCopies : 2 ≤ s.tableMgr.serverCopyCount)
    (hDistinct : ∀ b < s.tableMgr.serverBucketCount,
      (s.tableBuilder upnodeList).Distinct s.tableMgr.mHashTable b)
    (hNonzero : invalidFlag ∉ upnodeList)
    (hWrites : s.Refreshes (.rebuild upnodeList rand fuel))
    (hRebuild : s.rebuild upnodeList rand fuel = some s') {server : ServerId}
    (hServer : server ∈ upnodeList) :
    s'.tableMgr.countedFor server =
      (updateServerTable server s'.heartbeatResponse.bucketcount s'.heartbeatResponse.copycount
        s'.heartbeatResponse.tablebytes ∅).keys.toFinset := by
  obtain ⟨dest, hOk, rfl⟩ := rebuild_writes hWrites hRebuild
  have hDead : ¬ (s.tableBuilder upnodeList).Available invalidFlag :=
    fun h => hNonzero (available_iff.mp h)
  have hSource := quickTable_sourceOk hFirst hCopies hNonzero hDistinct
  have hTable : ∀ kind, ∀ p < s.tableMgr.serverCopyCount, ∀ b < s.tableMgr.serverBucketCount,
      (s.writeTables upnodeList dest).tableMgr.table kind p b =
        if kind = .dest then dest p b else s.quickTable upnodeList p b := fun kind p hp b hb =>
    table_rebuiltTables hFirst hCopies dest kind hp hb
  have hBuckets : 1 ≤ (s.tableBuilder upnodeList).bucketCount := s.tableMgr.buckets_pos
  have hZero : 1 ≤ (s.tableBuilder upnodeList).copyCount := s.tableMgr.copies_pos
  show _ = (updateServerTable server (s.writeTables upnodeList dest).tableMgr.serverBucketCount
    (s.writeTables upnodeList dest).tableMgr.serverCopyCount
    ((s.writeTables upnodeList dest).tableMgr.cells .hash ++
      (s.writeTables upnodeList dest).tableMgr.cells .dest) ∅).keys.toFinset
  -- `hashTable` and `mHashTable` are the quick table, `dHashTable` the new one
  apply countedFor_eq_keys
  · rintro rfl
    exact hNonzero hServer
  · rw [writeTables_copyCount, writeTables_bucketCount]
    intro p hp b hb
    exact (hTable .hash p hp b hb).trans (hTable .mig p hp b hb).symm
  · rw [writeTables_copyCount, writeTables_bucketCount]
    intro b hb hMine
    rw [TableMgr.mHashTable, hTable .mig 0 hZero b hb, if_neg (by simp)] at hMine
    have hRow := (TableBuilder.rebuildTableNew_rows _ rand fuel _ hBuckets hZero hDead hSource hOk
      hb).1 (Or.inl (available_iff.mpr (hMine ▸ hServer)))
    intro i hi j hj hNe
    rw [TableMgr.dHashTable, hTable .dest i hi b hb, hTable .dest j hj b hb]
    exact hRow.2 i hi j hj hNe
  · rw [writeTables_copyCount, writeTables_bucketCount]
    intro b hb hMine k hLo hHi
    rw [TableMgr.mHashTable, hTable .mig 0 hZero b hb, if_neg (by simp)] at hMine
    rw [TableMgr.mHashTable, TableMgr.dHashTable, hTable .dest 0 hZero b hb,
      hTable .mig k hHi b hb]
    exact TableBuilder.rebuildTableNew_master_ne_slave hZero hDead hSource hOk
      ⟨hb, available_iff.mpr (hMine ▸ hServer)⟩ hLo hHi

/-- One bucket on servers 1 and 2. A rebuild for 1 and 3 counts the bucket for server 1,
and server 1 enters it. -/
theorem countedFor_eq_migrates_one_bucket :
    ∃ s s', run step (created 1 2 (by decide) (by decide) (by decide) 10)
        [.rebuild [1, 2] (fun _ => 0) 3] = some s ∧
      s.rebuild [1, 3] (fun _ => 0) 3 = some s' ∧ s'.tableMgr.countedFor 1 = {0} ∧
      (updateServerTable 1 s'.heartbeatResponse.bucketcount s'.heartbeatResponse.copycount
        s'.heartbeatResponse.tablebytes ∅).keys.toFinset = {0} := by
  have hReached : ∃ s, run step (created 1 2 (by decide) (by decide) (by decide) 10)
          [.rebuild [1, 2] (fun _ => 0) 3] = some s ∧
        s.firstRun = false ∧ 2 ≤ s.tableMgr.serverCopyCount ∧
        (∀ b < s.tableMgr.serverBucketCount,
          (s.tableBuilder [1, 3]).Distinct s.tableMgr.mHashTable b) ∧
        s.Refreshes (.rebuild [1, 3] (fun _ => 0) 3) ∧
        ((s.rebuild [1, 3] (fun _ => 0) 3).any fun s' => s'.tableMgr.countedFor 1 = {0}) = true :=
    run_reaches (by decide +kernel)
  obtain ⟨s, hRun, hFirst, hCopies, hDistinct, hWrites, hCounted⟩ := hReached
  obtain ⟨s', hRebuild, hSet⟩ := (Option.any_eq_true _ _).mp hCounted
  have hSet := of_decide_eq_true hSet
  have hSame := countedFor_eq_migrates s s' [1, 3] (fun _ => 0) 3 hFirst hCopies hDistinct
    (by decide) hWrites hRebuild (show 1 ∈ [1, 3] by decide)
  exact ⟨s, s', hRun, hRebuild, hSet, hSame ▸ hSet⟩

-- One copy

/-- With one copy a rebuild that writes new tables leaves every entry as it is: a server
that is available stays, and the planned table keeps one that is not. -/
theorem table_writeTables_single (hFirst : s.firstRun = false)
    (hCopies : s.tableMgr.serverCopyCount = 1)
    (hEntries : ∀ b < s.tableMgr.serverBucketCount, s.tableMgr.mHashTable 0 b ≠ 0)
    (hNonzero : invalidFlag ∉ upnodeList) {dest : HashTable}
    (hOk : (s.tableBuilder upnodeList).rebuildTableNew rand fuel (s.quickTable upnodeList) =
      some (.ok dest)) {kind : TableKind} (hKind : kind ≠ .dest) {b : Nat}
    (hb : b < s.tableMgr.serverBucketCount) :
    (s.writeTables upnodeList dest).tableMgr.table kind 0 b = s.tableMgr.mHashTable 0 b := by
  rw [table_writeTables, table_rebuiltTables_single hFirst hCopies dest hKind hb]
  split
  · rfl
  · rename_i hDead
    have hQuick : s.quickTable upnodeList = s.tableMgr.mHashTable := by
      rw [quickTable, if_neg (by omega)]
    rw [hQuick] at hOk
    have hBuckets : 1 ≤ (s.tableBuilder upnodeList).bucketCount := s.tableMgr.buckets_pos
    have hCopyCount : (s.tableBuilder upnodeList).copyCount = 1 := hCopies
    have hSource : (s.tableBuilder upnodeList).SourceOk s.tableMgr.mHashTable := by
      refine ⟨fun b _ p hp q hq hNe => absurd hNe ?_, fun b _ hAvailable p hp => Or.inr ?_⟩
      · omega
      · obtain rfl : p = 0 := by omega
        exact hAvailable
    refine (TableBuilder.rebuildTableNew_rows _ rand fuel _ hBuckets hCopyCount.ge
      (fun h => hNonzero (available_iff.mp h)) hSource hOk hb).2 ?_ 0 hCopyCount.ge
    rintro (hAvailable | hEmpty)
    · exact hDead (TableBuilder.isAvailable_iff.mpr hAvailable)
    · exact hEntries b hb (hEmpty b hb)

/-- With one copy, after a rebuild that writes new tables and is not the first, every
entry of `hashTable` and of `mHashTable` is an alive server exactly when every entry of
`mHashTable` was one before. -/
theorem single_copy_alive_iff (s s' : SysMgr) (upnodeList : List ServerId) (rand : Nat → Nat)
    (fuel : Nat) (hFirst : s.firstRun = false) (hCopies : s.tableMgr.serverCopyCount = 1)
    (hEntries : ∀ b < s.tableMgr.serverBucketCount, s.tableMgr.mHashTable 0 b ≠ 0)
    (hNonzero : invalidFlag ∉ upnodeList)
    (hWrites : s.Refreshes (.rebuild upnodeList rand fuel))
    (hRebuild : s.rebuild upnodeList rand fuel = some s') :
    (∀ b < s'.tableMgr.serverBucketCount,
        s'.tableMgr.hashTable 0 b ∈ upnodeList ∧ s'.tableMgr.mHashTable 0 b ∈ upnodeList) ↔
      ∀ b < s.tableMgr.serverBucketCount, s.tableMgr.mHashTable 0 b ∈ upnodeList := by
  obtain ⟨dest, hOk, rfl⟩ := rebuild_writes hWrites hRebuild
  rw [writeTables_bucketCount]
  refine forall₂_congr fun b hb => ?_
  have hKept : ∀ kind, kind ≠ .dest →
      (s.writeTables upnodeList dest).tableMgr.table kind 0 b = s.tableMgr.mHashTable 0 b :=
    fun kind hKind => table_writeTables_single hFirst hCopies hEntries hNonzero hOk hKind hb
  show (s.writeTables upnodeList dest).tableMgr.table .hash 0 b ∈ upnodeList ∧
    (s.writeTables upnodeList dest).tableMgr.table .mig 0 b ∈ upnodeList ↔ _
  rw [hKept .hash (by simp), hKept .mig (by simp), and_self]

/-- Two buckets of one copy, on servers 5 and 9. Server 9 fails and server 6 joins: the
rebuild writes new tables, in which bucket 1 is on server 9 still. -/
theorem dead_server_kept_single_copy :
    ∃ s, run step (created 2 1 (by decide) (by decide) (by decide) 10)
        [.rebuild [5, 9] (fun _ => 0) 9, .rebuild [5, 6] (fun _ => 0) 9] = some s ∧
      s.tableMgr.cells .hash = [5, 9] ∧ s.tableMgr.cells .mig = [5, 9] :=
  run_reaches (by decide +kernel)

/-- Server 6 joins server 5, which has both buckets: all servers are alive afterwards. -/
theorem single_copy_alive_two_buckets :
    ∃ s s', run step (created 2 1 (by decide) (by decide) (by decide) 10)
        [.rebuild [5] (fun _ => 0) 9] = some s ∧
      s.rebuild [5, 6] (fun _ => 0) 9 = some s' ∧
      ∀ b < s'.tableMgr.serverBucketCount,
        s'.tableMgr.hashTable 0 b ∈ [5, 6] ∧ s'.tableMgr.mHashTable 0 b ∈ [5, 6] := by
  have hReached : ∃ s, run step (created 2 1 (by decide) (by decide) (by decide) 10)
          [.rebuild [5] (fun _ => 0) 9] = some s ∧
        s.firstRun = false ∧ s.tableMgr.serverCopyCount = 1 ∧
        (∀ b < s.tableMgr.serverBucketCount, s.tableMgr.mHashTable 0 b ≠ 0) ∧
        s.Refreshes (.rebuild [5, 6] (fun _ => 0) 9) ∧
        (s.rebuild [5, 6] (fun _ => 0) 9).isSome = true ∧
        ∀ b < s.tableMgr.serverBucketCount, s.tableMgr.mHashTable 0 b ∈ [5, 6] :=
    run_reaches (by decide +kernel)
  obtain ⟨s, hRun, hFirst, hCopies, hEntries, hWrites, hSome, hAlive⟩ := hReached
  obtain ⟨s', hRebuild⟩ := Option.isSome_iff_exists.mp hSome
  exact ⟨s, s', hRun, hRebuild, (single_copy_alive_iff s s' [5, 6] (fun _ => 0) 9 hFirst hCopies
    hEntries (by decide) hWrites hRebuild).mpr hAlive⟩

end SysMgr

end MyBase
