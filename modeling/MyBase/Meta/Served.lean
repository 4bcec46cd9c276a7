import MyBase.Meta.NewTables

/-!
# MyBase — rows whose master has failed

When a server fails, `rebuildQuickTable` promotes a slave in the rows it was the master
of. It can do so only if the row has an available slave, and it drops the other dead
servers of a row only then. What keeps dead slaves out of the tables is that servers fail
one after the other, with a quick rebuild for each:

* `RowServed` — the servers of a row are all alive, or the row has none but its master;
* `RowServed.quick` — so it stays when one server fails and the quick table is built;
* `Served` — the rows of `mHashTable` and `dHashTable` are like that, and a bucket whose
  published master is not alive has no other server in them.
-/

namespace MyBase

open Lib

-- Rows

/-- The servers of a row are alive, or there is none but its master. -/
structure RowServed (alive : ServerId → Prop) (copies : Nat) (row : Nat → ServerId) : Prop where
  distinct : ∀ p < copies, ∀ q < copies, p ≠ q → row p ≠ invalidFlag → row p ≠ row q
  master : row 0 = invalidFlag → ∀ p < copies, row p = invalidFlag
  servers : (∀ p < copies, row p = invalidFlag ∨ alive (row p)) ∨
    ∀ p < copies, row p = invalidFlag ∨ row p = row 0

namespace RowServed

variable {alive alive' : ServerId → Prop} {copies : Nat} {row row' : Nat → ServerId}

theorem mono (h : RowServed alive copies row) (hAlive : ∀ node, alive node → alive' node) :
    RowServed alive' copies row where
  distinct := h.distinct
  master := h.master
  servers := h.servers.imp_left fun hAll p hp => (hAll p hp).imp_right (hAlive _)

/-- Only the cells of the row matter. -/
theorem congr (h : RowServed alive copies row) (hCopies : 0 < copies)
    (hRow : ∀ p < copies, row' p = row p) : RowServed alive copies row' where
  distinct := by
    intro p hp q hq hpq
    rw [hRow p hp, hRow q hq]
    exact h.distinct p hp q hq hpq
  master := by
    rw [hRow 0 hCopies]
    intro hMaster p hp
    rw [hRow p hp]
    exact h.master hMaster p hp
  servers := by
    rw [hRow 0 hCopies]
    refine h.servers.imp ?_ ?_
    · intro hAll p hp
      rw [hRow p hp]
      exact hAll p hp
    · intro hLone p hp
      rw [hRow p hp]
      exact hLone p hp

theorem of_empty (hEmpty : ∀ p < copies, row p = invalidFlag) : RowServed alive copies row where
  distinct := fun p hp _ _ _ hNe => absurd (hEmpty p hp) hNe
  master := fun _ => hEmpty
  servers := Or.inl fun p hp => Or.inl (hEmpty p hp)

theorem of_filled (hCopies : 0 < copies) (hNonzero : ¬ alive invalidFlag)
    (hAlive : ∀ p < copies, alive (row p))
    (hDistinct : ∀ p < copies, ∀ q < copies, p ≠ q → row p ≠ row q) :
    RowServed alive copies row where
  distinct := fun p hp q hq hpq _ => hDistinct p hp q hq hpq
  master := fun hMaster => absurd (hMaster ▸ hAlive 0 hCopies) hNonzero
  servers := Or.inl fun p hp => Or.inr (hAlive p hp)

/-- A row whose master is not alive has no other server. -/
theorem alive_or_lone (h : RowServed alive copies row) (hCopies : 0 < copies) :
    alive (row 0) ∨ ∀ p < copies, row p = invalidFlag ∨ row p = row 0 := by
  rcases h.servers with hAll | hLone
  · rcases hAll 0 hCopies with hEmpty | hAlive
    · exact Or.inr fun p hp => Or.inl (h.master hEmpty p hp)
    · exact Or.inl hAlive
  · exact Or.inr hLone

/-- **One server fails.** When all servers but `lost` that were alive are available, the
quick table has rows of the same kind. -/
theorem quick {tb : TableBuilder} {lost : ServerId} (h : RowServed alive tb.copyCount row)
    (hCopies : 0 < tb.copyCount) (hAlive : ∀ node, alive node → node = lost ∨ tb.Available node)
    (hQuick : tb.QuickRow row row') : RowServed tb.Available tb.copyCount row' := by
  have hDistinct := hQuick.distinct h.distinct
  by_cases hAny : ∃ p < tb.copyCount, tb.isNodeAvailble (row p) = true
  · obtain ⟨hMaster, hAll⟩ := hQuick.served hAny
    refine ⟨hDistinct, ?_, Or.inl ?_⟩
    · intro hEmpty
      exact absurd hEmpty (TableBuilder.isNodeAvailble_iff.mp hMaster).1
    · intro p hp
      exact (hAll p hp).imp_right fun hAv => (TableBuilder.isNodeAvailble_iff.mp hAv).2
  · have hNone : ∀ p < tb.copyCount, tb.isNodeAvailble (row p) = false := by
      simpa using hAny
    have hMaster : row' 0 = row 0 := hQuick.master (Or.inr hNone)
    -- all that is left of a row whose servers were alive is the one that has failed
    have hLone : ∀ q < tb.copyCount, row q = invalidFlag ∨ row q = row 0 := by
      rcases h.servers with hAll | hLone
      · have hLost : ∀ q < tb.copyCount, row q = invalidFlag ∨ row q = lost := by
          intro q hq
          by_cases hEmpty : row q = invalidFlag
          · exact Or.inl hEmpty
          · refine Or.inr ((hAlive _ ((hAll q hq).resolve_left hEmpty)).resolve_right ?_)
            intro hAvailable
            have hAv := TableBuilder.isNodeAvailble_iff.mpr ⟨hEmpty, hAvailable⟩
            rw [hNone q hq] at hAv
            cases hAv
        intro q hq
        rcases hLost 0 hCopies with hEmpty | hHere
        · exact Or.inl (h.master hEmpty q hq)
        · rw [hHere]
          exact hLost q hq
      · exact hLone
    refine ⟨hDistinct, ?_, Or.inr ?_⟩
    · intro hEmpty p hp
      rw [hMaster] at hEmpty
      rcases hQuick.within p hp with hNo | ⟨q, hq, hSame⟩
      · exact hNo
      · rw [hSame, h.master hEmpty q hq]
    · intro p hp
      rw [hMaster]
      rcases hQuick.within p hp with hNo | ⟨q, hq, hSame⟩
      · exact Or.inl hNo
      · rw [hSame]
        exact hLone q hq

end RowServed

theorem TableBuilder.QuickRow.master_ne {tb : TableBuilder} {row row' : Nat → ServerId}
    (h : tb.QuickRow row row') (hMaster : row 0 ≠ invalidFlag) : row' 0 ≠ invalidFlag := by
  by_cases hAny : ∃ p < tb.copyCount, tb.isNodeAvailble (row p) = true
  · exact (isNodeAvailble_iff.mp (h.served hAny).1).1
  · have hNone : ∀ p < tb.copyCount, tb.isNodeAvailble (row p) = false := by
      simpa using hAny
    rwa [h.master (Or.inr hNone)]

-- Tables

namespace SysMgr

/-- The tables that plan and track a migration have rows that are served, and they name
no other server for a bucket whose published master is not alive. -/
structure Served (alive : ServerId → Prop) (s : SysMgr) : Prop where
  rows : ∀ kind, kind ≠ .hash → ∀ b < s.tableMgr.serverBucketCount,
    RowServed alive s.tableMgr.serverCopyCount ((s.tableMgr.table kind).row b)
  masters : ∀ b < s.tableMgr.serverBucketCount, alive (s.tableMgr.hashTable 0 b) ∨
    ∀ kind, kind ≠ .hash → ∀ p < s.tableMgr.serverCopyCount,
      s.tableMgr.table kind p b = invalidFlag ∨
        s.tableMgr.table kind p b = s.tableMgr.hashTable 0 b

variable {alive alive' : ServerId → Prop} {s : SysMgr} {upnodeList : List ServerId}
  {rand : Nat → Nat} {fuel : Nat} {lost : ServerId}

theorem firstRun_iff : s.firstRun = true ↔ ∀ p < s.tableMgr.serverCopyCount,
    ∀ b < s.tableMgr.serverBucketCount, s.tableMgr.mHashTable p b = 0 := by
  simp only [firstRun, List.all_eq_true, List.mem_range, decide_eq_true_eq]
  constructor
  · intro h p hp b hb
    exact h _ (index_lt hp hb)
  · intro h i hi
    obtain ⟨hp, hb⟩ := TableMgr.div_lt_and_mod_lt hi
    rw [TableMgr.cell_eq_table]
    exact h _ hp _ hb

theorem Served.mono (h : s.Served alive) (hAlive : ∀ node, alive node → alive' node) :
    s.Served alive' where
  rows := fun kind hKind b hb => (h.rows kind hKind b hb).mono hAlive
  masters := fun b hb => (h.masters b hb).imp_left (hAlive _)

/-- Tables that are all the same are served when their rows are. -/
theorem served_of_rows {s' : SysMgr} {t : HashTable}
    (hCopies : s'.tableMgr.serverCopyCount = s.tableMgr.serverCopyCount)
    (hBuckets : s'.tableMgr.serverBucketCount = s.tableMgr.serverBucketCount)
    (hTable : ∀ kind, ∀ p < s.tableMgr.serverCopyCount, ∀ b < s.tableMgr.serverBucketCount,
      s'.tableMgr.table kind p b = t p b)
    (hRows : ∀ b < s.tableMgr.serverBucketCount,
      RowServed alive s.tableMgr.serverCopyCount (t.row b)) : s'.Served alive where
  rows := by
    rw [hBuckets, hCopies]
    intro kind _ b hb
    exact (hRows b hb).congr s.tableMgr.copies_pos fun p hp => hTable kind p hp b hb
  masters := by
    rw [hBuckets, hCopies]
    intro b hb
    have hMaster : s'.tableMgr.hashTable 0 b = t 0 b := hTable .hash 0 s.tableMgr.copies_pos b hb
    rw [hMaster]
    refine ((hRows b hb).alive_or_lone s.tableMgr.copies_pos).imp_right fun hLone kind _ p hp => ?_
    rw [hTable kind p hp b hb]
    exact hLone p hp

section Operations

variable (hCopies : 2 ≤ s.tableMgr.serverCopyCount)
  (hAlive : ∀ node, alive node → node = lost ∨ node ∈ upnodeList)

include hCopies

variable (h : s.Served alive)
include h

/-- Some bucket of a table that is not new keeps a master. -/
theorem Served.not_mastersEmpty (hFirst : s.firstRun = false) :
    ¬ (s.tableBuilder upnodeList).MastersEmpty (s.quickTable upnodeList) := by
  intro hEmpty
  rw [SysMgr.quickTable, if_pos ⟨hCopies, hFirst⟩] at hEmpty
  refine absurd (firstRun_iff.mpr fun p hp b hb => ?_) (Bool.eq_false_iff.mp hFirst)
  refine (h.rows .mig (by simp) b hb).master ?_ p hp
  by_contra hMaster
  have hRow := TableBuilder.buildQuickTable_row (s.tableBuilder upnodeList)
    s.tableMgr.mHashTable (b := b) hb
  exact hRow.master_ne hMaster (hEmpty b hb)

include hAlive

theorem Served.quickTable {b : Nat} (hb : b < s.tableMgr.serverBucketCount) :
    RowServed (· ∈ upnodeList) s.tableMgr.serverCopyCount ((s.quickTable upnodeList).row b) := by
  by_cases hFirst : s.firstRun = true
  · rw [SysMgr.quickTable, if_neg (by simp [hFirst])]
    exact RowServed.of_empty fun p hp => firstRun_iff.mp hFirst p hp b hb
  · rw [SysMgr.quickTable, if_pos ⟨hCopies, by simpa using hFirst⟩]
    have hRow := TableBuilder.buildQuickTable_row (s.tableBuilder upnodeList)
      s.tableMgr.mHashTable (b := b) hb
    have hServed : RowServed alive (s.tableBuilder upnodeList).copyCount
      (s.tableMgr.mHashTable.row b) := h.rows .mig (by simp) b hb
    have hAvailable : ∀ node, alive node →
        node = lost ∨ (s.tableBuilder upnodeList).Available node :=
      fun node hNode => (hAlive node hNode).imp_right available_iff.mpr
    exact (hServed.quick s.tableMgr.copies_pos hAvailable hRow).mono
      fun node hNode => available_iff.mp hNode

/-- A server fails, and the quick table is published. -/
theorem Served.quick : (s.rebuildQuickTable upnodeList).Served (· ∈ upnodeList) :=
  served_of_rows rebuildQuickTable_copyCount rebuildQuickTable_bucketCount
    (fun kind _ hp _ hb => table_rebuildQuickTable kind hp hb)
    fun _ hb => h.quickTable hCopies hAlive hb

theorem Served.sourceOk : (s.tableBuilder upnodeList).SourceOk (s.quickTable upnodeList) := by
  refine ⟨fun b hb => (h.quickTable hCopies hAlive hb).distinct, fun b hb hMaster p hp => ?_⟩
  rcases (h.quickTable hCopies hAlive hb).servers with hAll | hLone
  · exact (hAll p hp).imp_right available_iff.mpr
  · refine (hLone p hp).imp_right fun hSame => ?_
    exact (congrArg (s.tableBuilder upnodeList).Available hSame).mpr hMaster

/-- A rebuild publishes the quick table and plans a new one. -/
theorem Served.rebuilt (hNonzero : invalidFlag ∉ upnodeList) {dest : HashTable}
    (hOk : (s.tableBuilder upnodeList).rebuildTableNew rand fuel (s.quickTable upnodeList) =
      some (.ok dest)) : (s.writeTables upnodeList dest).Served (· ∈ upnodeList) := by
  have hZero := s.tableMgr.copies_pos
  have hBuckets : 1 ≤ (s.tableBuilder upnodeList).bucketCount := s.tableMgr.buckets_pos
  have hCopyCount : 1 ≤ (s.tableBuilder upnodeList).copyCount := hZero
  have hDead : ¬ (s.tableBuilder upnodeList).Available invalidFlag :=
    fun hAv => hNonzero (available_iff.mp hAv)
  have hRows := fun b hb => TableBuilder.rebuildTableNew_rows _ rand fuel _ hBuckets hCopyCount
    hDead (h.sourceOk hCopies hAlive) hOk (b := b) hb
  have hFilled : ∀ b < s.tableMgr.serverBucketCount,
      (s.tableBuilder upnodeList).Available (s.quickTable upnodeList 0 b) ∨
        (s.tableBuilder upnodeList).MastersEmpty (s.quickTable upnodeList) →
      RowServed (· ∈ upnodeList) s.tableMgr.serverCopyCount (dest.row b) := by
    intro b hb hActive
    obtain ⟨hAv, hDistinct⟩ := (hRows b hb).1 hActive
    exact RowServed.of_filled hZero hNonzero (fun p hp => available_iff.mp (hAv p hp)) hDistinct
  by_cases hFirst : s.firstRun = true
  · have hMasters : (s.tableBuilder upnodeList).MastersEmpty (s.quickTable upnodeList) := by
      rw [SysMgr.quickTable, if_neg (by simp [hFirst])]
      exact fun b hb => firstRun_iff.mp hFirst 0 hZero b hb
    exact served_of_rows writeTables_copyCount writeTables_bucketCount
      (fun kind _ hp _ hb => table_rebuiltTables_first hFirst dest kind hp hb)
      fun b hb => hFilled b hb (Or.inr hMasters)
  · rw [Bool.not_eq_true] at hFirst
    have hQuick := fun b hb => h.quickTable hCopies hAlive (b := b) hb
    have hTable : ∀ kind, ∀ p < s.tableMgr.serverCopyCount, ∀ b < s.tableMgr.serverBucketCount,
        (s.writeTables upnodeList dest).tableMgr.table kind p b =
          if kind = .dest then dest p b else s.quickTable upnodeList p b := fun kind p hp b hb =>
      table_rebuiltTables hFirst hCopies dest kind hp hb
    -- a bucket without an available master is planned as it is
    have hKept : ∀ b < s.tableMgr.serverBucketCount, s.quickTable upnodeList 0 b ∉ upnodeList →
        ∀ p < s.tableMgr.serverCopyCount, dest p b = s.quickTable upnodeList p b := by
      intro b hb hMaster
      refine (hRows b hb).2 (not_or.mpr ⟨fun hAv => hMaster (available_iff.mp hAv), ?_⟩)
      exact h.not_mastersEmpty hCopies hFirst
    refine ⟨?_, ?_⟩
    · rw [writeTables_bucketCount, writeTables_copyCount]
      intro kind _ b hb
      by_cases hKind : kind = .dest
      · by_cases hMaster : s.quickTable upnodeList 0 b ∈ upnodeList
        · exact (hFilled b hb (Or.inl (available_iff.mpr hMaster))).congr hZero fun p hp =>
            (hTable kind p hp b hb).trans (if_pos hKind)
        · exact (hQuick b hb).congr hZero fun p hp =>
            ((hTable kind p hp b hb).trans (if_pos hKind)).trans (hKept b hb hMaster p hp)
      · exact (hQuick b hb).congr hZero fun p hp => (hTable kind p hp b hb).trans (if_neg hKind)
    · rw [writeTables_bucketCount, writeTables_copyCount]
      intro b hb
      rw [TableMgr.hashTable, hTable .hash 0 hZero b hb, if_neg (by simp)]
      by_cases hMaster : s.quickTable upnodeList 0 b ∈ upnodeList
      · exact Or.inl hMaster
      · refine Or.inr fun kind _ p hp => ?_
        have hCell : (s.writeTables upnodeList dest).tableMgr.table kind p b =
            s.quickTable upnodeList p b := by
          rw [hTable kind p hp b hb, hKept b hb hMaster p hp, ite_self]
        rw [hCell]
        exact ((hQuick b hb).alive_or_lone hZero).resolve_left hMaster p hp

end Operations

/-- Tables whose rows are rows of one of the two tables that are served. -/
theorem Served.of_rows {s' : SysMgr} (h : s.Served alive)
    (hCopies : s'.tableMgr.serverCopyCount = s.tableMgr.serverCopyCount)
    (hBuckets : s'.tableMgr.serverBucketCount = s.tableMgr.serverBucketCount)
    (hHash : ∀ b < s.tableMgr.serverBucketCount,
      s'.tableMgr.hashTable 0 b = s.tableMgr.hashTable 0 b)
    (hRows : ∀ kind, kind ≠ .hash → ∀ b < s.tableMgr.serverBucketCount, ∃ kind', kind' ≠ .hash ∧
      ∀ p < s.tableMgr.serverCopyCount, s'.tableMgr.table kind p b = s.tableMgr.table kind' p b) :
    s'.Served alive where
  rows := by
    rw [hBuckets, hCopies]
    intro kind hKind b hb
    obtain ⟨kind', hKind', hRow⟩ := hRows kind hKind b hb
    exact (h.rows kind' hKind' b hb).congr s.tableMgr.copies_pos hRow
  masters := by
    rw [hBuckets, hCopies]
    intro b hb
    rw [hHash b hb]
    refine (h.masters b hb).imp_right fun hLone kind hKind p hp => ?_
    obtain ⟨kind', hKind', hRow⟩ := hRows kind hKind b hb
    rw [hRow p hp]
    exact hLone kind' hKind' p hp

/-- A report makes a row of `mHashTable` that of `dHashTable`. -/
theorem Served.report {b : Nat} {server : ServerId} {count : Int} (h : s.Served alive)
    (hb : b < s.tableMgr.serverBucketCount) :
    (s.countDown (s.tableMgr.setMigratingRow b).1 server count).Served alive := by
  have hSpec := TableMgr.setMigratingRow_spec s.tableMgr hb
  refine h.of_rows hSpec.header.copyCount hSpec.header.bucketCount ?_ ?_
  · intro b' hb'
    exact (hSpec.tables .hash 0 s.tableMgr.copies_pos b' hb').trans (if_neg (by simp))
  · intro kind hKind b' hb'
    by_cases hMoved : kind = .mig ∧ b' = b
    · exact ⟨.dest, by simp, fun p hp =>
        (hSpec.tables kind p hp b' hb').trans (if_pos ⟨hMoved.1, hMoved.2, hp⟩)⟩
    · exact ⟨kind, hKind, fun p hp =>
        (hSpec.tables kind p hp b' hb').trans (if_neg fun hHere => hMoved ⟨hHere.1, hHere.2.1⟩)⟩

/-- A migration is over when `mHashTable` is `dHashTable`; that is published. -/
theorem Served.complete (h : s.Served alive) (hSame : s.tableMgr.sameTables = true) :
    s.complete.Served alive := by
  have hMig : ∀ p < s.tableMgr.serverCopyCount, ∀ b < s.tableMgr.serverBucketCount,
      s.tableMgr.mHashTable p b = s.tableMgr.dHashTable p b := by
    intro p hp b hb
    by_contra hNe
    exact TableMgr.sameTables_iff.mp hSame b hb ⟨p, hp, hNe⟩
  have hTable : ∀ kind, ∀ p < s.tableMgr.serverCopyCount, ∀ b < s.tableMgr.serverBucketCount,
      s.complete.tableMgr.table kind p b = s.tableMgr.dHashTable p b := by
    intro kind p hp b hb
    rw [table_complete kind hp hb]
    cases kind with
    | hash => exact if_pos rfl
    | mig => exact (if_neg (by simp)).trans (hMig p hp b hb)
    | dest => exact if_neg (by simp)
  exact served_of_rows rfl rfl hTable (h.rows .dest (by simp))

end SysMgr

end MyBase
