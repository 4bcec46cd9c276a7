import MyBase.Meta.SysMgr

/-!
# MyBase — how the meta server counts a migration

While data moves, the meta server knows how far it is by two counters: the number of
buckets whose data has to move still (`migrateBlockCount`, in the file) and, for each
server, how many of them it is the master of (`migrateMachine`, in memory).
`fillMigrateMachine` computes both from the tables; reports count them down; the
migration is over when no server is left in the map.

`countedFor` and `countedBuckets` are the sets that are counted. The counters are right
as long as only what was counted changes the tables:

* `run_bookkept` — in a run in which `rebuildQuickTable` does not come into a migration
  (and reports name buckets that are counted), the counters are what would be computed
  anew;
* `run_migrate_complete` — without that restriction the counters are never too small, which is
  enough for `checkMigrateComplete`.

A node that fails during a migration breaks the first: `rebuildQuickTable` makes all
three tables the same and keeps the counters (`bookkeeping_lost_on_failure`). A report
for the bucket behind the last one breaks the second (`migrate_complete_asserts`).
-/

namespace MyBase

open Lib List

-- What is counted

namespace TableMgr

/-- The buckets that `fillMigrateMachine` counts. -/
def countedBuckets (m : TableMgr) : Finset Nat :=
  (Finset.range m.serverBucketCount).filter fun b => m.counted b = true

/-- The buckets that `fillMigrateMachine` counts for a server. -/
def countedFor (m : TableMgr) (server : ServerId) : Finset Nat :=
  m.countedBuckets.filter fun b => m.mHashTable 0 b = server

/-- The two tables differ in the row of a bucket. -/
def RowDiffers (m : TableMgr) (b : Nat) : Prop :=
  ∃ p < m.serverCopyCount, m.mHashTable p b ≠ m.dHashTable p b

instance (m : TableMgr) (b : Nat) : Decidable (m.RowDiffers b) := by
  unfold RowDiffers
  infer_instance

section Counted

variable {m m' : TableMgr} {b : Nat}

theorem mem_countedBuckets :
    b ∈ m.countedBuckets ↔ b < m.serverBucketCount ∧ m.counted b = true := by
  simp [countedBuckets]

theorem mem_countedFor {server : ServerId} :
    b ∈ m.countedFor server ↔ b ∈ m.countedBuckets ∧ m.mHashTable 0 b = server := by
  simp [countedFor]

/-- A bucket is counted when its master changes or some slave of the new row is not a
slave of the old one. -/
theorem counted_iff :
    m.counted b = true ↔ m.mHashTable 0 b ≠ 0 ∧ (m.mHashTable 0 b ≠ m.dHashTable 0 b ∨
      ∃ j, (1 ≤ j ∧ j < m.serverCopyCount) ∧
        ∀ k, 1 ≤ k → k < m.serverCopyCount → m.dHashTable j b ≠ m.mHashTable k b) := by
  have hRange : ∀ j, j ∈ List.range' 1 (m.serverCopyCount - 1) ↔ 1 ≤ j ∧ j < m.serverCopyCount := by
    intro j
    rw [mem_range'_1]
    omega
  simp only [counted, migrateThisBucket, Bool.and_eq_true, Bool.or_eq_true, decide_eq_true_eq,
    any_eq_true, all_eq_true, hRange, and_imp]

theorem not_counted_of_same (h : ¬ m.RowDiffers b) : m.counted b = false := by
  have hSame : ∀ p < m.serverCopyCount, m.mHashTable p b = m.dHashTable p b := by
    intro p hp
    by_contra hNe
    exact h ⟨p, hp, hNe⟩
  rw [Bool.eq_false_iff]
  intro hCounted
  rcases (counted_iff.mp hCounted).2 with hMaster | ⟨j, hj, hAll⟩
  · exact hMaster (hSame 0 m.copies_pos)
  · exact hAll j hj.1 hj.2 (hSame j hj.2).symm

theorem counted_congr (hCopies : m'.serverCopyCount = m.serverCopyCount)
    (hMig : ∀ p < m.serverCopyCount, m'.mHashTable p b = m.mHashTable p b)
    (hDest : ∀ p < m.serverCopyCount, m'.dHashTable p b = m.dHashTable p b) :
    m'.counted b = m.counted b := by
  rw [Bool.eq_iff_iff, counted_iff, counted_iff, hMig 0 m.copies_pos, hDest 0 m.copies_pos, hCopies]
  refine and_congr_right fun _ => or_congr_right ?_
  refine exists_congr fun j => and_congr_right fun hj => ?_
  refine forall_congr' fun k => forall₂_congr fun _ hk => ?_
  rw [hDest j hj.2, hMig k hk]

/-- A report for a bucket of the table takes the bucket out of what is counted. -/
theorem mem_countedBuckets_setMigratingRow (hb : b < m.serverBucketCount) {b' : Nat} :
    b' ∈ (m.setMigratingRow b).1.countedBuckets ↔ b' ≠ b ∧ b' ∈ m.countedBuckets := by
  have hSpec := setMigratingRow_spec m hb
  have hCopies := hSpec.header.copyCount
  rw [mem_countedBuckets, mem_countedBuckets, hSpec.header.bucketCount]
  by_cases hEq : b' = b
  · subst hEq
    have hSame : ¬ (m.setMigratingRow b').1.RowDiffers b' := by
      rintro ⟨p, hp, hNe⟩
      rw [hCopies] at hp
      refine hNe ((hSpec.tables .mig p hp b' hb).trans ?_)
      rw [if_pos ⟨rfl, rfl, hp⟩]
      exact ((hSpec.tables .dest p hp b' hb).trans (if_neg (by simp))).symm
    simp [not_counted_of_same hSame]
  · refine Iff.trans (and_congr_right fun hb' => ?_) (and_iff_right hEq).symm
    rw [counted_congr hCopies]
    · exact fun p hp => (hSpec.tables .mig p hp b' hb').trans (if_neg (by simp [hEq]))
    · exact fun p hp => (hSpec.tables .dest p hp b' hb').trans (if_neg (by simp))

theorem countedBuckets_setMigratingRow (hb : b < m.serverBucketCount) :
    (m.setMigratingRow b).1.countedBuckets = m.countedBuckets.erase b := by
  ext b'
  rw [mem_countedBuckets_setMigratingRow hb, Finset.mem_erase]

/-- A report takes its bucket out of what is counted for a server. -/
theorem countedFor_setMigratingRow (hb : b < m.serverBucketCount) (server : ServerId) :
    (m.setMigratingRow b).1.countedFor server = (m.countedFor server).erase b := by
  ext b'
  rw [mem_countedFor, mem_countedBuckets_setMigratingRow hb, Finset.mem_erase, mem_countedFor,
    and_assoc]
  refine and_congr_right fun hNe => and_congr_right fun hCounted => ?_
  have hb' := (mem_countedBuckets.mp hCounted).1
  have hMaster : (m.setMigratingRow b).1.mHashTable 0 b' = m.mHashTable 0 b' :=
    ((setMigratingRow_spec m hb).tables .mig 0 m.copies_pos b' hb').trans (if_neg (by simp [hNe]))
  rw [hMaster]

theorem countedBuckets_eq_empty (h : ∀ b < m.serverBucketCount, ¬ m.RowDiffers b) :
    m.countedBuckets = ∅ := by
  rw [Finset.eq_empty_iff_forall_notMem]
  intro b hb
  obtain ⟨hLt, hCounted⟩ := mem_countedBuckets.mp hb
  rw [not_counted_of_same (h b hLt)] at hCounted
  cases hCounted

/-- The comparison of the words is a comparison of the rows. -/
theorem sameTables_iff : m.sameTables = true ↔ ∀ b < m.serverBucketCount, ¬ m.RowDiffers b := by
  simp only [sameTables, all_eq_true, mem_range, decide_eq_true_eq]
  constructor
  · rintro h b hb ⟨p, hp, hNe⟩
    exact hNe (h _ (index_lt hp hb))
  · intro h i hi
    obtain ⟨hp, hb⟩ := div_lt_and_mod_lt hi
    by_contra hNe
    rw [cell_eq_table, cell_eq_table] at hNe
    exact h _ hb ⟨_, hp, hNe⟩

/-- A server that is not counted for has no counted buckets. -/
theorem countedFor_eq_empty (h : m.countedBuckets = ∅) (server : ServerId) :
    m.countedFor server = ∅ := by
  rw [countedFor, h, Finset.filter_empty]

end Counted

end TableMgr

-- What `fillMigrateMachine` computes

/-- The entry of a counter map for a number: 0 is not entered. -/
def counterEntry (n : Nat) : Option Int := if n = 0 then none else some n

theorem find?_incrAt (k k' : ServerId) (m : OrdMap ServerId Int) :
    (incrAt k m).find? k' = if k' = k then some ((m.find? k).getD 0 + 1) else m.find? k' := by
  unfold incrAt
  rw [OrdMap.find?_modify, OrdMap.find?_emplace, OrdMap.find?_emplace]
  split
  · rw [if_pos rfl]
    rfl
  · rfl

theorem total_incrAt (k : ServerId) (m : OrdMap ServerId Int) :
    (incrAt k m).total = m.total + 1 := by
  have hMem : (k, (m.find? k).getD 0) ∈ (m.emplace k 0).entries := by
    rw [← OrdMap.find?_eq_some_iff, OrdMap.find?_emplace, if_pos rfl]
  unfold incrAt
  rw [OrdMap.total_modify _ hMem, OrdMap.total_emplace_zero]
  omega

theorem counterEntry_succ (n : Nat) :
    some ((counterEntry n).getD 0 + 1) = counterEntry (n + 1) := by
  unfold counterEntry
  rw [if_neg (Nat.succ_ne_zero n)]
  split
  · rename_i hn
    simp [hn]
  · simp

namespace TableMgr

/-- The loop of `fillMigrateMachine` over the first `n` buckets. -/
theorem fill_loop (m : TableMgr) (n : Nat) :
    let acc := (List.range n).foldl
      (fun acc i => if m.counted i then (incrAt (m.mHashTable 0 i) acc.1, acc.2 + 1) else acc)
      ((∅ : OrdMap ServerId Int), (0 : Int))
    let seen := (Finset.range n).filter fun b => m.counted b = true
    (∀ server, acc.1.find? server =
        counterEntry (seen.filter fun b => m.mHashTable 0 b = server).card) ∧
      acc.2 = seen.card ∧ acc.1.total = acc.2 := by
  induction n with
  | zero => exact ⟨fun _ => rfl, rfl, rfl⟩
  | succ n ih =>
    obtain ⟨hFind, hCount, hTotal⟩ := ih
    dsimp only
    rw [range_succ, foldl_append, foldl_cons, foldl_nil,
      Finset.range_add_one, Finset.filter_insert]
    have hNew : n ∉ (Finset.range n).filter fun b => m.counted b = true := by simp
    split
    · refine ⟨?_, ?_, ?_⟩
      · intro server
        rw [find?_incrAt, hFind, hFind, Finset.filter_insert]
        by_cases hServer : server = m.mHashTable 0 n
        · subst hServer
          rw [if_pos rfl, if_pos rfl, Finset.card_insert_of_notMem (by simp), counterEntry_succ]
        · rw [if_neg hServer, if_neg (Ne.symm hServer)]
      · rw [hCount, Finset.card_insert_of_notMem hNew]
        push_cast
        rfl
      · rw [total_incrAt, hTotal]
    · exact ⟨hFind, hCount, hTotal⟩

/-- The counter computed anew for a server is the number of buckets counted for it. -/
theorem fillMigrateMachine_find? (m : TableMgr) (server : ServerId) :
    m.fillMigrateMachine.1.find? server = counterEntry (m.countedFor server).card :=
  (fill_loop m m.serverBucketCount).1 server

theorem fillMigrateMachine_count (m : TableMgr) :
    m.fillMigrateMachine.2 = m.countedBuckets.card :=
  (fill_loop m m.serverBucketCount).2.1

theorem fillMigrateMachine_total (m : TableMgr) :
    m.fillMigrateMachine.1.total = m.countedBuckets.card :=
  (fill_loop m m.serverBucketCount).2.2.trans m.fillMigrateMachine_count

theorem fillMigrateMachine_eq_empty {m : TableMgr} (h : m.countedBuckets = ∅) :
    m.fillMigrateMachine.1 = ∅ := by
  refine OrdMap.ext_find? fun server => ?_
  rw [fillMigrateMachine_find?, countedFor_eq_empty h]
  rfl

end TableMgr

-- Reports

namespace SysMgr

/-- An accepted report names a bucket of the table, and when it changes the bucket's row
the bucket is one that `fillMigrateMachine` counts. -/
def ReportCounted (s : SysMgr) (b : Nat) (server : ServerId) : Prop :=
  s.Accepts b server →
    b < s.tableMgr.serverBucketCount ∧ (s.tableMgr.RowDiffers b → s.tableMgr.counted b = true)

instance (s : SysMgr) (b : Nat) (server : ServerId) : Decidable (s.ReportCounted b server) := by
  unfold ReportCounted
  infer_instance

section Reports

variable {s : SysMgr} {b : Nat} {server : ServerId} {count : Int}

/-- A report that changes `mHashTable` is for a bucket counted for its sender. -/
theorem ReportCounted.mem (h : s.ReportCounted b server) (hAccepts : s.Accepts b server)
    (hChanged : (s.tableMgr.setMigratingRow b).2 = true) :
    b < s.tableMgr.serverBucketCount ∧ b ∈ s.tableMgr.countedBuckets ∧
      s.tableMgr.mHashTable 0 b = server := by
  obtain ⟨hb, hCounted⟩ := h hAccepts
  have hDiffers : s.tableMgr.RowDiffers b := (TableMgr.setMigratingRow_spec _ hb).ret.mp hChanged
  refine ⟨hb, TableMgr.mem_countedBuckets.mpr ⟨hb, hCounted hDiffers⟩, ?_⟩
  show s.tableMgr.cell .mig (0 * s.tableMgr.serverBucketCount + b) = server
  rw [Nat.zero_mul, Nat.zero_add]
  exact hAccepts.2.2

theorem countDown_find? (m : TableMgr) (hFind : s.migrateMachine.find? server = some count)
    (k : ServerId) :
    (s.countDown m server count).migrateMachine.find? k =
      if k = server then (if count - 1 = 0 then none else some (count - 1))
      else s.migrateMachine.find? k := by
  unfold countDown
  dsimp only
  split
  · rw [OrdMap.find?_erase]
  · rw [OrdMap.find?_modify, hFind]
    rfl

/-- A report changes the number of buckets counted for its sender, and no other. -/
theorem card_countedFor_report (hb : b < s.tableMgr.serverBucketCount)
    (hMem : b ∈ s.tableMgr.countedBuckets) (hMaster : s.tableMgr.mHashTable 0 b = server)
    (k : ServerId) :
    ((s.tableMgr.setMigratingRow b).1.countedFor k).card =
      if k = server then (s.tableMgr.countedFor server).card - 1
      else (s.tableMgr.countedFor k).card := by
  rw [TableMgr.countedFor_setMigratingRow hb]
  split
  · rename_i hk
    subst hk
    exact Finset.card_erase_of_mem (TableMgr.mem_countedFor.mpr ⟨hMem, hMaster⟩)
  · rename_i hk
    rw [Finset.erase_eq_of_notMem]
    intro hIn
    exact hk ((TableMgr.mem_countedFor.mp hIn).2.symm.trans hMaster)

theorem card_countedFor_pos (hMem : b ∈ s.tableMgr.countedBuckets)
    (hMaster : s.tableMgr.mHashTable 0 b = server) :
    0 < (s.tableMgr.countedFor server).card :=
  Finset.card_pos.mpr ⟨b, TableMgr.mem_countedFor.mpr ⟨hMem, hMaster⟩⟩

theorem card_countedBuckets_report (hb : b < s.tableMgr.serverBucketCount)
    (hMem : b ∈ s.tableMgr.countedBuckets) :
    ((s.tableMgr.setMigratingRow b).1.countedBuckets).card =
      s.tableMgr.countedBuckets.card - 1 := by
  rw [TableMgr.countedBuckets_setMigratingRow hb, Finset.card_erase_of_mem hMem]

/-- After a quick rebuild `mHashTable` and `dHashTable` are the same. -/
theorem rebuildQuickTable_same {upnodeList : List ServerId} {b : Nat}
    (hb : b < (s.rebuildQuickTable upnodeList).tableMgr.serverBucketCount) :
    ¬ (s.rebuildQuickTable upnodeList).tableMgr.RowDiffers b := by
  rintro ⟨p, hp, hNe⟩
  rw [rebuildQuickTable_bucketCount] at hb
  rw [rebuildQuickTable_copyCount] at hp
  refine hNe ?_
  unfold TableMgr.mHashTable TableMgr.dHashTable
  rw [table_rebuildQuickTable .mig hp hb, table_rebuildQuickTable .dest hp hb]

/-- So they are after the first rebuild, -/
theorem writeTables_first_same (hFirst : s.firstRun = true) {upnodeList : List ServerId}
    (dest : HashTable) {b : Nat}
    (hb : b < (s.writeTables upnodeList dest).tableMgr.serverBucketCount) :
    ¬ (s.writeTables upnodeList dest).tableMgr.RowDiffers b := by
  rintro ⟨p, hp, hNe⟩
  rw [writeTables_bucketCount] at hb
  rw [writeTables_copyCount] at hp
  refine hNe ?_
  unfold TableMgr.mHashTable TableMgr.dHashTable
  rw [table_writeTables, table_writeTables, table_rebuiltTables_first hFirst dest .mig hp hb,
    table_rebuiltTables_first hFirst dest .dest hp hb]

/-- and when a migration is over. -/
theorem complete_same (hSame : s.tableMgr.sameTables = true) {b : Nat}
    (hb : b < s.complete.tableMgr.serverBucketCount) : ¬ s.complete.tableMgr.RowDiffers b := by
  rintro ⟨p, hp, hNe⟩
  have hb : b < s.tableMgr.serverBucketCount := hb
  have hp : p < s.tableMgr.serverCopyCount := hp
  refine TableMgr.sameTables_iff.mp hSame b hb ⟨p, hp, fun hEq => hNe ?_⟩
  have hMig : s.complete.tableMgr.table .mig p b = s.tableMgr.mHashTable p b :=
    (table_complete .mig hp hb).trans (if_neg (by simp))
  have hDest : s.complete.tableMgr.table .dest p b = s.tableMgr.dHashTable p b :=
    (table_complete .dest hp hb).trans (if_neg (by simp))
  exact hMig.trans (hEq.trans hDest.symm)

theorem countedBuckets_rebuildQuickTable (upnodeList : List ServerId) :
    (s.rebuildQuickTable upnodeList).tableMgr.countedBuckets = ∅ :=
  TableMgr.countedBuckets_eq_empty fun _ hb => rebuildQuickTable_same hb

/-- The counters after a rebuild that writes tables, unless it is the first. -/
theorem writeTables_counters (upnodeList : List ServerId) (dest : HashTable)
    (hMigrating : (s.writeTables upnodeList dest).tableMgr.migrateBlockCount ≠ -1) :
    let s' := s.writeTables upnodeList dest
    s'.migrateMachine = s'.tableMgr.fillMigrateMachine.1 ∧
      s'.tableMgr.migrateBlockCount = s'.tableMgr.countedBuckets.card := by
  intro s'
  cases hFirst : s.firstRun with
  | true =>
    -- the first rebuild counts nothing
    refine absurd ?_ hMigrating
    show (if (if s.firstRun then (s.migrateMachine, (0 : Int)) else _).2 > 0 then _ else _) = _
    rw [hFirst]
    rfl
  | false =>
    have hCount : s'.tableMgr.migrateBlockCount =
        if s'.tableMgr.fillMigrateMachine.2 > 0 then s'.tableMgr.fillMigrateMachine.2 else -1 := by
      show (if (if s.firstRun then (s.migrateMachine, (0 : Int)) else _).2 > 0 then _ else _) = _
      rw [hFirst]
      rfl
    refine ⟨?_, ?_⟩
    · show (if s.firstRun then (s.migrateMachine, (0 : Int)) else _).1 = _
      rw [hFirst]
      rfl
    · rw [← TableMgr.fillMigrateMachine_count, hCount]
      refine if_pos ?_
      by_contra hNot
      exact hMigrating (hCount.trans (if_neg hNot))

end Reports

-- The counters are right

/-- During a migration the counters are what `fillMigrateMachine` would compute. -/
def Bookkept (s : SysMgr) : Prop :=
  s.tableMgr.migrateBlockCount ≠ -1 →
    s.migrateMachine = s.tableMgr.fillMigrateMachine.1 ∧
      s.tableMgr.migrateBlockCount = s.migrateMachine.total

/-- No node fails while a migration waits for servers, and reports are for buckets that
are counted. -/
def Orderly (s : SysMgr) : SysAction → Prop
  | .rebuildQuickTable _ =>
    s.tableMgr.migrateBlockCount = -1 ∨ s.migrateMachine.entries = []
  | .setMigratingHashtable b server => s.ReportCounted b server
  | _ => True

instance (s : SysMgr) (a : SysAction) : Decidable (s.Orderly a) := by
  cases a <;> unfold Orderly <;> infer_instance

section Bookkept

variable {s s' : SysMgr} {a : SysAction}

theorem Bookkept.count (h : s.Bookkept) (hMigrating : s.tableMgr.migrateBlockCount ≠ -1) :
    s.tableMgr.migrateBlockCount = s.tableMgr.countedBuckets.card := by
  obtain ⟨hMachine, hTotal⟩ := h hMigrating
  rw [hTotal, hMachine, TableMgr.fillMigrateMachine_total]

/-- The counters are right when the map is computed anew and the number is. -/
theorem bookkept_of_count (hMachine : s.migrateMachine = s.tableMgr.fillMigrateMachine.1)
    (hCount : s.tableMgr.migrateBlockCount = s.tableMgr.countedBuckets.card) : s.Bookkept := by
  intro _
  rw [hCount, hMachine, TableMgr.fillMigrateMachine_total]
  exact ⟨rfl, rfl⟩

/-- A report counts down what would be counted. -/
theorem Bookkept.report {b : Nat} {server : ServerId} {count : Int} (h : s.Bookkept)
    (hAccepts : s.Accepts b server) (hCounted : s.ReportCounted b server)
    (hChanged : (s.tableMgr.setMigratingRow b).2 = true)
    (hFind : s.migrateMachine.find? server = some count) :
    (s.countDown (s.tableMgr.setMigratingRow b).1 server count).Bookkept := by
  obtain ⟨hb, hMem, hMaster⟩ := hCounted.mem hAccepts hChanged
  have hPos := card_countedFor_pos hMem hMaster
  have hMachine := (h hAccepts.2.1).1
  have hCount : counterEntry (s.tableMgr.countedFor server).card = some count := by
    rw [← hFind, hMachine, TableMgr.fillMigrateMachine_find?]
  have hCard : count = (s.tableMgr.countedFor server).card := by
    rw [counterEntry, if_neg (by omega)] at hCount
    exact (Option.some.inj hCount).symm
  refine bookkept_of_count (OrdMap.ext_find? fun k => ?_) ?_
  · rw [countDown_find? _ hFind]
    show _ = (s.tableMgr.setMigratingRow b).1.fillMigrateMachine.1.find? k
    rw [TableMgr.fillMigrateMachine_find?, card_countedFor_report hb hMem hMaster k]
    split
    · unfold counterEntry
      by_cases hOne : (s.tableMgr.countedFor server).card = 1
      · rw [if_pos (by omega), if_pos (by omega)]
      · rw [if_neg (by omega), if_neg (by omega)]
        congr 1
        omega
    · rw [hMachine, TableMgr.fillMigrateMachine_find?]
  · show (s.tableMgr.setMigratingRow b).1.migrateBlockCount - 1 =
      ((s.tableMgr.setMigratingRow b).1.countedBuckets.card : Int)
    have hHeader : (s.tableMgr.setMigratingRow b).1.migrateBlockCount =
        s.tableMgr.migrateBlockCount := (TableMgr.setMigratingRow_spec _ hb).header.blockCount
    have hSome := Finset.card_pos.mpr ⟨b, hMem⟩
    rw [card_countedBuckets_report hb hMem, hHeader, h.count hAccepts.2.1]
    omega

/-- **Step lemma.** Every operation keeps the counters right, unless it is disorderly. -/
theorem Bookkept.does (h : s.Bookkept) (hOrderly : s.Orderly a) (hDoes : s.Does a s') :
    s'.Bookkept := by
  cases hDoes with
  | unchanged | turnedAway _ | repeated _ _ | waiting _ => exact h
  | @rebuilt upnodeList _ _ dest hOk =>
    intro hMigrating
    obtain ⟨hMachine, hCount⟩ := writeTables_counters upnodeList dest hMigrating
    exact bookkept_of_count hMachine hCount hMigrating
  | @quick upnodeList =>
    intro hMigrating
    have hNone := countedBuckets_rebuildQuickTable (s := s) upnodeList
    have hEmpty : s.migrateMachine = ∅ := OrdMap.ext (hOrderly.resolve_left hMigrating)
    have hCount := (h hMigrating).2
    refine bookkept_of_count ?_ ?_ hMigrating
    · rw [TableMgr.fillMigrateMachine_eq_empty hNone]
      exact hEmpty
    · rw [hNone]
      rw [hEmpty] at hCount
      exact hCount
  | reported hAccepts hChanged hFind => exact h.report hAccepts hOrderly hChanged hFind
  | completed _ _ _ => exact fun hMigrating => absurd rfl hMigrating
  | restarted =>
    intro hMigrating
    have hCount := h.count hMigrating
    refine bookkept_of_count ?_ hCount hMigrating
    show (if s.tableMgr.migrateBlockCount > 0 then s.tableMgr.fillMigrateMachine.1 else ∅) =
      s.tableMgr.fillMigrateMachine.1
    split
    · rfl
    · have hNone : s.tableMgr.countedBuckets = ∅ := Finset.card_eq_zero.mp (by omega)
      exact (TableMgr.fillMigrateMachine_eq_empty hNone).symm

theorem created_bookkept (bucketCount copyCount : Nat) (hBuckets : 0 < bucketCount)
    (hCopies : 0 < copyCount) (hFits : 24 * (copyCount * bucketCount) + 36 < 2 ^ 31)
    (minConfigVersion : Nat) :
    (created bucketCount copyCount hBuckets hCopies hFits minConfigVersion).Bookkept :=
  fun hMigrating => absurd rfl hMigrating

/-- In every state of every orderly run from a new file, the counters are what
`fillMigrateMachine` would compute, and a further orderly report that changes
`mHashTable` finds its server with a positive count. -/
theorem run_bookkept (bucketCount copyCount : Nat) (hBuckets : 0 < bucketCount)
    (hCopies : 0 < copyCount) (hFits : 24 * (copyCount * bucketCount) + 36 < 2 ^ 31)
    (minConfigVersion : Nat) {acts : List SysAction} {s : SysMgr}
    (hAlong : Along step Orderly
      (created bucketCount copyCount hBuckets hCopies hFits minConfigVersion) acts)
    (hRun : run step (created bucketCount copyCount hBuckets hCopies hFits minConfigVersion) acts =
      some s) :
    (s.tableMgr.migrateBlockCount ≠ -1 →
      s.migrateMachine = s.tableMgr.fillMigrateMachine.1 ∧
        s.tableMgr.migrateBlockCount = s.migrateMachine.total) ∧
    ∀ b server, s.Orderly (.setMigratingHashtable b server) → s.Accepts b server →
      (s.tableMgr.setMigratingRow b).2 = true →
        ∃ count, s.migrateMachine.find? server = some count ∧ 0 < count := by
  have hBookkept : s.Bookkept := run_invariant (fun _ _ _ hOrderly hInv hStep =>
      hInv.does hOrderly (does_of_step hStep))
    (created_bookkept bucketCount copyCount hBuckets hCopies hFits minConfigVersion) hAlong hRun
  refine ⟨hBookkept, ?_⟩
  intro b server hOrderly hAccepts hChanged
  obtain ⟨-, hMem, hMaster⟩ := ReportCounted.mem hOrderly hAccepts hChanged
  have hPos := card_countedFor_pos hMem hMaster
  refine ⟨(s.tableMgr.countedFor server).card, ?_, by omega⟩
  rw [(hBookkept hAccepts.2.1).1, TableMgr.fillMigrateMachine_find?, counterEntry,
    if_neg (by omega)]

/-- Two servers hold a bucket, one is replaced, and the new one fails while it has to
get the data: the counters go on waiting for a migration that the tables no longer
contain. -/
theorem bookkeeping_lost_on_failure :
    ∃ s, run step (created 1 2 (by decide) (by decide) (by decide) 10)
        [.rebuild [1, 2] (fun _ => 0) 3, .rebuild [1, 3] (fun _ => 0) 3,
          .rebuildQuickTable [1]] = some s ∧
      s.tableMgr.migrateBlockCount = 1 ∧ s.migrateMachine.entries = [(1, 1)] ∧
      s.tableMgr.fillMigrateMachine.1.entries = [] :=
  run_reaches (by decide +kernel)

/-- The same migration before the failure. -/
theorem run_bookkept_one_bucket :
    ∃ s, run step (created 1 2 (by decide) (by decide) (by decide) 10)
        [.rebuild [1, 2] (fun _ => 0) 3, .rebuild [1, 3] (fun _ => 0) 3] = some s ∧
      s.tableMgr.migrateBlockCount = 1 ∧
      s.tableMgr.migrateBlockCount = s.migrateMachine.total ∧
      ∃ count, s.migrateMachine.find? 1 = some count ∧ 0 < count := by
  refine run_reaches_then (Q := fun s => s.tableMgr.migrateBlockCount = 1 ∧ s.ReportCounted 0 1 ∧
    s.Accepts 0 1 ∧ (s.tableMgr.setMigratingRow 0).2 = true) (by decide +kernel) ?_
  rintro s hRun ⟨hCount, hReport, hAccepts, hChanged⟩
  obtain ⟨hCounters, hFinds⟩ := run_bookkept 1 2 (by decide) (by decide) (by decide) 10
    (along_of_forall fun a ha _ => by
      rcases List.mem_pair.mp ha with rfl | rfl <;> exact trivial) hRun
  exact ⟨hCount, (hCounters (by rw [hCount]; decide)).2, hFinds 0 1 hReport hAccepts hChanged⟩

end Bookkept

-- The counters are not too small

/-- During a migration the counters cover what is counted. -/
def Covered (s : SysMgr) : Prop :=
  s.tableMgr.migrateBlockCount ≠ -1 →
    (s.tableMgr.countedBuckets.card : Int) ≤ s.tableMgr.migrateBlockCount ∧
      ∀ server, ((s.tableMgr.countedFor server).card : Int) ≤ valueAt s.migrateMachine server

/-- Reports are for buckets that are counted, and when `checkMigrateComplete` runs every
row that differs is one that is counted: it has a master, and its slaves have not only
changed places. -/
def Checkable (s : SysMgr) : SysAction → Prop
  | .setMigratingHashtable b server => s.ReportCounted b server
  | .checkMigrateComplete =>
    ∀ b < s.tableMgr.serverBucketCount, s.tableMgr.RowDiffers b → s.tableMgr.counted b = true
  | _ => True

instance (s : SysMgr) (a : SysAction) : Decidable (s.Checkable a) := by
  cases a <;> unfold Checkable <;> infer_instance

section Covered

variable {s s' : SysMgr} {a : SysAction}

theorem valueAt_counterEntry {m : OrdMap ServerId Int} {server : ServerId} {n : Nat}
    (h : m.find? server = counterEntry n) : valueAt m server = n := by
  rw [valueAt, h, counterEntry]
  split
  · rename_i hn
    rw [hn]
    rfl
  · rfl

/-- Counters computed anew cover what is counted. -/
theorem covered_of_fill (hMachine : s.migrateMachine = s.tableMgr.fillMigrateMachine.1)
    (hCount : (s.tableMgr.countedBuckets.card : Int) ≤ s.tableMgr.migrateBlockCount) :
    s.Covered := by
  intro _
  refine ⟨hCount, fun server => ?_⟩
  rw [valueAt_counterEntry (n := (s.tableMgr.countedFor server).card)]
  rw [hMachine, TableMgr.fillMigrateMachine_find?]

/-- When nothing is counted, counters that are not negative cover it. -/
theorem covered_of_empty (hNone : s.tableMgr.countedBuckets = ∅)
    (hCount : 0 ≤ s.tableMgr.migrateBlockCount)
    (hValues : ∀ server, 0 ≤ valueAt s.migrateMachine server) : s.Covered := by
  intro _
  rw [hNone]
  refine ⟨hCount, fun server => ?_⟩
  rw [TableMgr.countedFor_eq_empty hNone]
  exact hValues server

/-- A report counts down at most what it takes out. -/
theorem Covered.report {b : Nat} {server : ServerId} {count : Int} (h : s.Covered)
    (hAccepts : s.Accepts b server) (hCounted : s.ReportCounted b server)
    (hChanged : (s.tableMgr.setMigratingRow b).2 = true)
    (hFind : s.migrateMachine.find? server = some count) :
    (s.countDown (s.tableMgr.setMigratingRow b).1 server count).Covered := by
  obtain ⟨hb, hMem, hMaster⟩ := hCounted.mem hAccepts hChanged
  obtain ⟨hTotal, hServers⟩ := h hAccepts.2.1
  have hPos := card_countedFor_pos hMem hMaster
  have hHeader : (s.tableMgr.setMigratingRow b).1.migrateBlockCount =
      s.tableMgr.migrateBlockCount := (TableMgr.setMigratingRow_spec _ hb).header.blockCount
  intro _
  refine ⟨?_, fun k => ?_⟩
  · show ((s.tableMgr.setMigratingRow b).1.countedBuckets.card : Int) ≤
      (s.tableMgr.setMigratingRow b).1.migrateBlockCount - 1
    have hSome := Finset.card_pos.mpr ⟨b, hMem⟩
    rw [card_countedBuckets_report hb hMem, hHeader]
    omega
  · show (((s.tableMgr.setMigratingRow b).1.countedFor k).card : Int) ≤ _
    have hKey := hServers k
    rw [card_countedFor_report hb hMem hMaster, valueAt, countDown_find? _ hFind]
    split
    · rename_i hk
      subst hk
      rw [valueAt, hFind, Option.getD_some] at hKey
      split
      · rw [Option.getD_none]
        omega
      · rw [Option.getD_some]
        omega
    · exact hKey

/-- **Step lemma.** -/
theorem Covered.does (h : s.Covered) (hCheckable : s.Checkable a) (hDoes : s.Does a s') :
    s'.Covered := by
  cases hDoes with
  | unchanged | turnedAway _ | repeated _ _ | waiting _ => exact h
  | @rebuilt upnodeList _ _ dest hOk =>
    intro hMigrating
    obtain ⟨hMachine, hCount⟩ := writeTables_counters upnodeList dest hMigrating
    exact covered_of_fill hMachine hCount.ge hMigrating
  | @quick upnodeList =>
    intro hMigrating
    obtain ⟨hTotal, hServers⟩ := h hMigrating
    refine covered_of_empty (countedBuckets_rebuildQuickTable upnodeList) ?_ ?_ hMigrating
    · exact le_trans (Int.natCast_nonneg _) hTotal
    · exact fun server => le_trans (Int.natCast_nonneg _) (hServers server)
  | reported hAccepts hChanged hFind => exact h.report hAccepts hCheckable hChanged hFind
  | completed _ _ _ => exact fun hMigrating => absurd rfl hMigrating
  | @restarted minConfigVersion =>
    intro hMigrating
    obtain ⟨hTotal, -⟩ := h hMigrating
    by_cases hSome : s.tableMgr.migrateBlockCount > 0
    · exact covered_of_fill (if_pos hSome) hTotal hMigrating
    · -- nothing is counted any more, and the map is not filled
      have hNone : s.tableMgr.countedBuckets = ∅ := Finset.card_eq_zero.mp (by omega)
      refine covered_of_empty hNone (le_trans (Int.natCast_nonneg _) hTotal) ?_ hMigrating
      intro server
      show 0 ≤ valueAt (if s.tableMgr.migrateBlockCount > 0 then _ else ∅) server
      rw [if_neg hSome]
      exact le_refl _

/-- When no server is left in the map, nothing is counted. -/
theorem Covered.nothing_counted (h : s.Covered)
    (hMigrating : s.tableMgr.migrateBlockCount ≠ -1) (hEmpty : s.migrateMachine.entries = [])
    {b : Nat} (hb : b < s.tableMgr.serverBucketCount) : s.tableMgr.counted b = false := by
  rw [Bool.eq_false_iff]
  intro hCounted
  have hPos := card_countedFor_pos (TableMgr.mem_countedBuckets.mpr ⟨hb, hCounted⟩) rfl
  have hValue := (h hMigrating).2 (s.tableMgr.mHashTable 0 b)
  rw [show s.migrateMachine = ∅ from OrdMap.ext hEmpty, valueAt, OrdMap.find?_empty,
    Option.getD_none] at hValue
  omega

/-- In every run from a new file in which reports are for counted buckets, whenever
`checkMigrateComplete` runs in a migration without waiting servers, and the rows that
differ are counted ones, there are none: the tables are equal and the assertion holds. -/
theorem run_migrate_complete (bucketCount copyCount : Nat) (hBuckets : 0 < bucketCount)
    (hCopies : 0 < copyCount) (hFits : 24 * (copyCount * bucketCount) + 36 < 2 ^ 31)
    (minConfigVersion : Nat) {acts : List SysAction} {s : SysMgr}
    (hAlong : Along step Checkable
      (created bucketCount copyCount hBuckets hCopies hFits minConfigVersion)
      (acts ++ [.checkMigrateComplete]))
    (hRun : run step (created bucketCount copyCount hBuckets hCopies hFits minConfigVersion) acts =
      some s) :
    (s.tableMgr.migrateBlockCount ≠ -1 → s.migrateMachine.entries = [] →
      ∀ p < s.tableMgr.serverCopyCount, ∀ b < s.tableMgr.serverBucketCount,
        s.tableMgr.mHashTable p b = s.tableMgr.dHashTable p b) ∧
    s.checkMigrateComplete ≠ none := by
  obtain ⟨hBefore, hCheck, -⟩ := along_append hAlong hRun
  have hCovered : s.Covered := run_invariant (fun _ _ _ hCheckable hInv hStep =>
      hInv.does hCheckable (does_of_step hStep))
    (fun hMigrating => absurd rfl hMigrating) hBefore hRun
  have hRows : s.tableMgr.migrateBlockCount ≠ -1 → s.migrateMachine.entries = [] →
      ∀ b < s.tableMgr.serverBucketCount, ¬ s.tableMgr.RowDiffers b := by
    intro hMigrating hEmpty b hb hDiffers
    have hCounted := hCheck b hb hDiffers
    rw [hCovered.nothing_counted hMigrating hEmpty hb] at hCounted
    cases hCounted
  refine ⟨?_, ?_⟩
  · intro hMigrating hEmpty p hp b hb
    by_contra hNe
    exact hRows hMigrating hEmpty b hb ⟨p, hp, hNe⟩
  · unfold checkMigrateComplete
    split
    · exact Option.some_ne_none _
    · rename_i hMigrating
      split
      · exact Option.some_ne_none _
      · rename_i hEmpty
        rw [TableMgr.sameTables_iff.mpr (hRows hMigrating (not_not.mp hEmpty)), if_neg (by decide)]
        exact Option.some_ne_none _

/-- Two buckets get new slaves. Server 2 reports bucket 2, of which there is none: cell 2
of `mHashTable` is the slave of bucket 0, which is server 2, so the report is accepted.
It sets that slave, and behind the table the master of bucket 0 in `dHashTable`, to 0.
After the report for bucket 0 no server is waited for, but bucket 1 has not moved. -/
theorem migrate_complete_asserts :
    ∃ s, run step (created 2 2 (by decide) (by decide) (by decide) 10)
        [.rebuild [1, 2] (fun _ => 0) 9, .rebuild [1, 2, 3, 4] (fun _ => 0) 9,
          .setMigratingHashtable 2 2, .setMigratingHashtable 0 1] = some s ∧
      s.tableMgr.migrateBlockCount = 0 ∧ s.migrateMachine.entries = [] ∧
      s.tableMgr.mHashTable 1 1 = 1 ∧ s.tableMgr.dHashTable 1 1 = 4 ∧
      s.step .checkMigrateComplete = none := run_reaches (by decide +kernel)

/-- One bucket gets a new slave and its master reports it. -/
theorem run_migrate_complete_one_bucket :
    ∃ s, run step (created 1 2 (by decide) (by decide) (by decide) 10)
        [.rebuild [1, 2] (fun _ => 0) 3, .rebuild [1, 3] (fun _ => 0) 3,
          .setMigratingHashtable 0 1] = some s ∧
      s.tableMgr.migrateBlockCount = 0 ∧ s.tableMgr.mHashTable 1 0 = s.tableMgr.dHashTable 1 0 := by
  refine run_reaches_then (Q := fun s => s.tableMgr.migrateBlockCount = 0 ∧
    s.migrateMachine.entries = [] ∧ 1 < s.tableMgr.serverCopyCount ∧
    0 < s.tableMgr.serverBucketCount) (by decide +kernel) ?_
  rintro s hRun ⟨hCount, hEmpty, hCopies, hBuckets⟩
  have hSame := (run_migrate_complete 1 2 (by decide) (by decide) (by decide) 10
    (by decide +kernel) hRun).1 (by rw [hCount]; decide) hEmpty
  exact ⟨hCount, hSame 1 hCopies 0 hBuckets⟩

end Covered

end SysMgr

end MyBase
