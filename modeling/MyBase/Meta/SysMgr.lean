import MyBase.Meta.QuickTable

/-!
# MyBase — the tables of the meta server

`TableMgr` keeps three tables in one mapped file, one behind the other: `hashTable`,
which is published, `mHashTable`, where the data is now, and `dHashTable`, where it is
to go. `SysMgr` changes them: `rebuild` plans a migration, `setMigratingHashtable` takes
a storage node's report that a bucket has moved, `checkMigrateComplete` ends the
migration, and `rebuildQuickTable` reacts to a node that has failed.

The tables are pointers into one array of words, without bounds. A report for bucket
`B`, which the guard lets through, therefore reads and writes the cells of other
buckets and the first cell of the next table. `TableMgr.words` is that array; the rest
of the file's last page, which a read can reach, is 0.

Functions whose effects end the process are partial: the assertion of
`checkMigrateComplete`, and the use of `migrateMachine.find(..)` without a check in
`setMigratingHashtable`.

Main results:

* `does_of_step` — the ways an operation can go (`Does`);
* `setMigratingRow_spec` — a report for a bucket of the table copies one row.
-/

namespace MyBase

open Lib List

-- The mapped file

/-- The three tables of the file. -/
inductive TableKind
  | hash
  | mig
  | dest
  deriving DecidableEq, Repr

/-- The mapped file and the copies of its tables that are sent out. The sizes are such
that the file can be mapped, with an `int32_t` for its length. -/
structure TableMgr where
  serverBucketCount : Nat
  serverCopyCount : Nat
  clientVersion : Nat
  serverVersion : Nat
  namespaceCapacityVersion : Nat
  migrateBlockCount : Int
  words : List ServerId
  hashTableDeflateDataForClient : List ServerId
  hashTableDeflateDataForDataServer : List ServerId
  buckets_pos : 0 < serverBucketCount
  copies_pos : 0 < serverCopyCount
  fits : 24 * (serverCopyCount * serverBucketCount) + 36 < 2 ^ 31
  mapped : words.length = 3 * (serverCopyCount * serverBucketCount)

namespace TableMgr

def getHashTableSize (m : TableMgr) : Nat := m.serverCopyCount * m.serverBucketCount

/-- 0, `getMigDataSkip` and `getDestDataSkip`. -/
def skip (m : TableMgr) : TableKind → Nat
  | .hash => 0
  | .mig => m.getHashTableSize
  | .dest => m.getHashTableSize * 2

/-- A word of the mapped pages. -/
def word (m : TableMgr) (k : Nat) : ServerId := m.words.getD k 0

/-- `table[idx]`, for any index. -/
def cell (m : TableMgr) (kind : TableKind) (idx : Nat) : ServerId := m.word (m.skip kind + idx)

/-- `table[copy * bucketCount + bucket]`. -/
def table (m : TableMgr) (kind : TableKind) : HashTable := fun copy bucket =>
  m.cell kind (copy * m.serverBucketCount + bucket)

def hashTable (m : TableMgr) : HashTable := m.table .hash

def mHashTable (m : TableMgr) : HashTable := m.table .mig

def dHashTable (m : TableMgr) : HashTable := m.table .dest

/-- The file with other words. -/
def withWords (m : TableMgr) (words : List ServerId)
    (mapped : words.length = 3 * (m.serverCopyCount * m.serverBucketCount)) : TableMgr :=
  { m with words := words, mapped := mapped }

/-- `table[idx] = v`. -/
def setCell (m : TableMgr) (kind : TableKind) (idx : Nat) (v : ServerId) : TableMgr :=
  m.withWords (m.words.set (m.skip kind + idx) v) (by rw [length_set, m.mapped])

/-- Every word of the file is computed from the old file. -/
def mapWords (m : TableMgr) (f : Nat → ServerId → ServerId) : TableMgr :=
  m.withWords (m.words.mapIdx f) (by rw [length_mapIdx, m.mapped])

/-- `writeHashTable`. -/
def writeHashTable (m : TableMgr) (kind : TableKind) (t : HashTable) : TableMgr :=
  m.mapWords fun k w =>
    if m.skip kind ≤ k ∧ k < m.skip kind + m.getHashTableSize then
      t ((k - m.skip kind) / m.serverBucketCount) ((k - m.skip kind) % m.serverBucketCount)
    else w

/-- The words of a table, in order. -/
def cells (m : TableMgr) (kind : TableKind) : List ServerId :=
  (List.range m.getHashTableSize).map (m.cell kind)

def deflateHashTable (m : TableMgr) : TableMgr :=
  { m with
    hashTableDeflateDataForClient := m.cells .hash
    hashTableDeflateDataForDataServer := m.cells .hash ++ m.cells .dest }

/-- `create` for a file that is not there: the file is zeros, and nothing is published. -/
def create (bucketCount copyCount : Nat) (hBuckets : 0 < bucketCount) (hCopies : 0 < copyCount)
    (hFits : 24 * (copyCount * bucketCount) + 36 < 2 ^ 31) : TableMgr where
  serverBucketCount := bucketCount
  serverCopyCount := copyCount
  clientVersion := 1
  serverVersion := 1
  namespaceCapacityVersion := 1
  migrateBlockCount := -1
  words := List.replicate (3 * (copyCount * bucketCount)) 0
  hashTableDeflateDataForClient := []
  hashTableDeflateDataForDataServer := []
  buckets_pos := hBuckets
  copies_pos := hCopies
  fits := hFits
  mapped := length_replicate

end TableMgr

-- The operations

structure SysMgr where
  tableMgr : TableMgr
  migrateMachine : OrdMap ServerId Int
  minConfigVersion : Nat

/-- `m[k]++`. -/
def incrAt (k : ServerId) (m : OrdMap ServerId Int) : OrdMap ServerId Int :=
  (m.emplace k 0).modify k (· + 1)

/-- `sMinConfigVersion`. -/
def sMinConfigVersion : Nat := 10

namespace TableMgr

/-- The body of the loop of `fillMigrateMachine`: whether the data of a bucket has to
move. The slaves are compared as sets, one way. -/
def migrateThisBucket (m : TableMgr) (i : Nat) : Bool :=
  m.mHashTable 0 i ≠ m.dHashTable 0 i ||
    (List.range' 1 (m.serverCopyCount - 1)).any fun j =>
      (List.range' 1 (m.serverCopyCount - 1)).all fun k => m.dHashTable j i ≠ m.mHashTable k i

/-- What `fillMigrateMachine` counts: a bucket without a master is passed over. -/
def counted (m : TableMgr) (i : Nat) : Bool := m.mHashTable 0 i ≠ 0 && m.migrateThisBucket i

/-- `fillMigrateMachine`: the map and the number that is returned. -/
def fillMigrateMachine (m : TableMgr) : OrdMap ServerId Int × Int :=
  (List.range m.serverBucketCount).foldl
    (fun acc i => if m.counted i then (incrAt (m.mHashTable 0 i) acc.1, acc.2 + 1) else acc)
    (∅, 0)

/-- One pass of the loop of `setMigratingHashtable` over the copies, with the flag
`ret`. -/
def copyCell (bucketId : Nat) (acc : TableMgr × Bool) (i : Nat) : TableMgr × Bool :=
  let idx := i * acc.1.serverBucketCount + bucketId
  if acc.1.cell .mig idx ≠ acc.1.cell .dest idx then
    (acc.1.setCell .mig idx (acc.1.cell .dest idx), true)
  else acc

def setMigratingRow (m : TableMgr) (bucketId : Nat) : TableMgr × Bool :=
  (List.range m.serverCopyCount).foldl (copyCell bucketId) (m, false)

/-- The loop of `rebuild` for one copy: what is not on an available server becomes what
`dHashTable` says, in the other two tables. -/
def replaceDead (m : TableMgr) (tb : TableBuilder) : TableMgr :=
  m.mapWords fun k w =>
    if k < m.getHashTableSize then
      if tb.isAvailable (m.cell .mig k) then w else m.cell .dest k
    else if k < m.getHashTableSize * 2 then
      if tb.isAvailable w then w else m.cell .dest (k - m.getHashTableSize)
    else w

/-- The two tables hold the same words. -/
def sameTables (m : TableMgr) : Bool :=
  (List.range m.getHashTableSize).all fun i => m.cell .mig i = m.cell .dest i

end TableMgr

namespace SysMgr

/-- `incrVersion`, for a `uint32_t`. -/
def incrVersion (s : SysMgr) (value : Nat) : Nat :=
  let value := (value + 1) % 2 ^ 32
  if s.minConfigVersion > value then s.minConfigVersion else value

def isMigrating (s : SysMgr) : Bool := s.tableMgr.migrateBlockCount ≠ -1

/-- The builder with the servers `getUpNode` finds. -/
def tableBuilder (s : SysMgr) (upnodeList : List ServerId) : TableBuilder :=
  ⟨s.tableMgr.serverBucketCount, s.tableMgr.serverCopyCount, setAvailableServer upnodeList⟩

/-- `first_run`: `mHashTable` is empty. -/
def firstRun (s : SysMgr) : Bool :=
  (List.range s.tableMgr.getHashTableSize).all fun i => s.tableMgr.cell .mig i = 0

/-- `quick_table_tmp`. -/
def quickTable (s : SysMgr) (upnodeList : List ServerId) : HashTable :=
  if s.tableMgr.serverCopyCount > 1 ∧ s.firstRun = false then
    (s.tableBuilder upnodeList).buildQuickTable s.tableMgr.mHashTable
  else s.tableMgr.mHashTable

/-- All three versions are raised and the tables published. -/
def publish (s : SysMgr) (m : TableMgr) : TableMgr :=
  { m with
    clientVersion := s.incrVersion m.clientVersion
    serverVersion := s.incrVersion m.serverVersion
    namespaceCapacityVersion := s.incrVersion m.namespaceCapacityVersion }.deflateHashTable

def rebuildQuickTable (s : SysMgr) (upnodeList : List ServerId) : SysMgr :=
  let quick := s.quickTable upnodeList
  let m := s.tableMgr.writeHashTable .mig quick
  let m := m.writeHashTable .hash quick
  let m := m.writeHashTable .dest quick
  { s with tableMgr := s.publish m }

/-- The tables that `rebuild` writes when `rebuildTableNew` has returned `BUILD_OK`. -/
def rebuiltTables (s : SysMgr) (upnodeList : List ServerId) (dest : HashTable) : TableMgr :=
  let quick := s.quickTable upnodeList
  let m := s.tableMgr.writeHashTable .dest dest
  if s.firstRun then (m.writeHashTable .mig dest).writeHashTable .hash dest
  else
    let m := (m.writeHashTable .mig quick).writeHashTable .hash quick
    if s.tableMgr.serverCopyCount ≤ 1 then m.replaceDead (s.tableBuilder upnodeList) else m

/-- The rest of `rebuild` when `rebuildTableNew` has returned `BUILD_OK`. -/
def writeTables (s : SysMgr) (upnodeList : List ServerId) (dest : HashTable) : SysMgr :=
  let m := s.rebuiltTables upnodeList dest
  let filled := if s.firstRun then (s.migrateMachine, 0) else m.fillMigrateMachine
  { s with
    tableMgr := s.publish { m with migrateBlockCount := if filled.2 > 0 then filled.2 else -1 }
    migrateMachine := filled.1 }

/-- `rebuild`; `none` when a loop of `rebuildTableNew` takes more than `fuel` rounds. -/
def rebuild (s : SysMgr) (upnodeList : List ServerId) (rand : Nat → Nat) (fuel : Nat) :
    Option SysMgr :=
  match (s.tableBuilder upnodeList).rebuildTableNew rand fuel (s.quickTable upnodeList) with
  | none => none
  | some .error => some s
  | some .noChange => some s
  | some (.ok dest) => some (s.writeTables upnodeList dest)

/-- The counters after a report that has changed `mHashTable` to that of `m`. -/
def countDown (s : SysMgr) (m : TableMgr) (serverId : ServerId) (count : Int) : SysMgr :=
  { s with
    tableMgr := { m with migrateBlockCount := m.migrateBlockCount - 1 }
    migrateMachine :=
      if count - 1 = 0 then s.migrateMachine.erase serverId
      else s.migrateMachine.modify serverId (· - 1) }

/-- `setMigratingHashtable`; `none` when the server is not in `migrateMachine`, where
the code uses `end()`. -/
def setMigratingHashtable (s : SysMgr) (bucketId : Nat) (serverId : ServerId) : Option SysMgr :=
  if bucketId > s.tableMgr.serverBucketCount ∨ s.isMigrating = false then some s
  else if s.tableMgr.cell .mig bucketId ≠ serverId then some s
  else
    match s.tableMgr.setMigratingRow bucketId with
    | (m, false) => some { s with tableMgr := m }
    | (m, true) => (s.migrateMachine.find? serverId).map (s.countDown m serverId)

/-- What `checkMigrateComplete` does when the migration is over. -/
def complete (s : SysMgr) : SysMgr :=
  let m := { s.tableMgr with
    clientVersion := s.incrVersion s.tableMgr.clientVersion
    serverVersion := s.incrVersion s.tableMgr.serverVersion }
  let m := (m.writeHashTable .hash s.tableMgr.dHashTable).deflateHashTable
  { s with tableMgr := { m with migrateBlockCount := -1 } }

/-- `checkMigrateComplete`; `none` when the assertion fails. -/
def checkMigrateComplete (s : SysMgr) : Option SysMgr :=
  if s.tableMgr.migrateBlockCount = -1 then some s
  else if s.migrateMachine.entries ≠ [] then some s
  else if s.tableMgr.sameTables = false then none
  else some s.complete

/-- The constructor on an existing file, and `loadConfig`. -/
def opened (m : TableMgr) (minConfigVersion : Nat) : SysMgr where
  tableMgr := m.deflateHashTable
  migrateMachine := if m.migrateBlockCount > 0 then m.fillMigrateMachine.1 else ∅
  minConfigVersion := max minConfigVersion sMinConfigVersion

/-- The constructor without a file, and `loadConfig`, which creates it. -/
def created (bucketCount copyCount : Nat) (hBuckets : 0 < bucketCount) (hCopies : 0 < copyCount)
    (hFits : 24 * (copyCount * bucketCount) + 36 < 2 ^ 31) (minConfigVersion : Nat) : SysMgr where
  tableMgr := TableMgr.create bucketCount copyCount hBuckets hCopies hFits
  migrateMachine := ∅
  minConfigVersion := max minConfigVersion sMinConfigVersion

end SysMgr

/-- What happens to the tables of a meta server. The servers that are alive, the results
of `rand()` and the configured version are given anew each time. -/
inductive SysAction
  | rebuild (upnodeList : List ServerId) (rand : Nat → Nat) (fuel : Nat)
  | rebuildQuickTable (upnodeList : List ServerId)
  | setMigratingHashtable (bucketId : Nat) (serverId : ServerId)
  | checkMigrateComplete
  | restart (minConfigVersion : Nat)

/-- One operation; `none` when the process ends in it. -/
def SysMgr.step (s : SysMgr) : SysAction → Option SysMgr
  | .rebuild upnodeList rand fuel => s.rebuild upnodeList rand fuel
  | .rebuildQuickTable upnodeList => some (s.rebuildQuickTable upnodeList)
  | .setMigratingHashtable bucketId serverId => s.setMigratingHashtable bucketId serverId
  | .checkMigrateComplete => s.checkMigrateComplete
  | .restart minConfigVersion => some (SysMgr.opened s.tableMgr minConfigVersion)

-- What an operation can do

/-- A report that finds no difference leaves the file as it is. -/
theorem TableMgr.setMigratingRow_unchanged {m : TableMgr} {b : Nat}
    (h : (m.setMigratingRow b).2 = false) : (m.setMigratingRow b).1 = m := by
  have hLoop : ∀ (l : List Nat) (acc : TableMgr × Bool), (acc.2 = false → acc.1 = m) →
      (l.foldl (copyCell b) acc).2 = false → (l.foldl (copyCell b) acc).1 = m := by
    intro l
    induction l with
    | nil => exact fun acc hAcc => hAcc
    | cons i l ih =>
      intro acc hAcc
      refine ih _ ?_
      unfold copyCell
      dsimp only
      split
      · intro hRet
        cases hRet
      · exact hAcc
  exact hLoop _ _ (fun _ => rfl) h

namespace SysMgr

/-- A report that `setMigratingHashtable` does not turn away. -/
def Accepts (s : SysMgr) (bucketId : Nat) (serverId : ServerId) : Prop :=
  bucketId ≤ s.tableMgr.serverBucketCount ∧ s.tableMgr.migrateBlockCount ≠ -1 ∧
    s.tableMgr.cell .mig bucketId = serverId

instance (s : SysMgr) (bucketId : Nat) (serverId : ServerId) :
    Decidable (s.Accepts bucketId serverId) := by
  unfold Accepts
  infer_instance

/-- The operations, one constructor for each way they can go. -/
inductive Does (s : SysMgr) : SysAction → SysMgr → Prop
  | unchanged {upnodeList rand fuel} : s.Does (.rebuild upnodeList rand fuel) s
  | rebuilt {upnodeList rand fuel dest}
      (hOk : (s.tableBuilder upnodeList).rebuildTableNew rand fuel (s.quickTable upnodeList) =
        some (.ok dest)) :
      s.Does (.rebuild upnodeList rand fuel) (s.writeTables upnodeList dest)
  | quick {upnodeList} : s.Does (.rebuildQuickTable upnodeList) (s.rebuildQuickTable upnodeList)
  | turnedAway {b server} (h : ¬ s.Accepts b server) : s.Does (.setMigratingHashtable b server) s
  | repeated {b server} (h : s.Accepts b server)
      (hSame : (s.tableMgr.setMigratingRow b).2 = false) :
      s.Does (.setMigratingHashtable b server) s
  | reported {b server count} (h : s.Accepts b server)
      (hChanged : (s.tableMgr.setMigratingRow b).2 = true)
      (hFind : s.migrateMachine.find? server = some count) :
      s.Does (.setMigratingHashtable b server)
        (s.countDown (s.tableMgr.setMigratingRow b).1 server count)
  | waiting (h : s.tableMgr.migrateBlockCount = -1 ∨ s.migrateMachine.entries ≠ []) :
      s.Does .checkMigrateComplete s
  | completed (hMigrating : s.tableMgr.migrateBlockCount ≠ -1)
      (hEmpty : s.migrateMachine.entries = []) (hSame : s.tableMgr.sameTables = true) :
      s.Does .checkMigrateComplete s.complete
  | restarted {minConfigVersion} :
      s.Does (.restart minConfigVersion) (SysMgr.opened s.tableMgr minConfigVersion)

/-- The ways a report can go. -/
theorem setMigratingHashtable_does {s s' : SysMgr} {b : Nat} {server : ServerId}
    (h : s.setMigratingHashtable b server = some s') :
    s.Does (.setMigratingHashtable b server) s' := by
  unfold setMigratingHashtable at h
  split at h
  · rename_i hGuard
    cases h
    refine Does.turnedAway ?_
    rintro ⟨hLe, hMigrating, -⟩
    rcases hGuard with hGt | hOff
    · omega
    · simp [isMigrating] at hOff
      exact hMigrating hOff
  · rename_i hGuard
    rw [not_or, not_lt, Bool.not_eq_false] at hGuard
    split at h
    · rename_i hServer
      cases h
      exact Does.turnedAway fun hAccepts => hServer hAccepts.2.2
    · rename_i hServer
      rw [not_not] at hServer
      have hAccepts : s.Accepts b server :=
        ⟨hGuard.1, by simpa [isMigrating] using hGuard.2, hServer⟩
      split at h
      · rename_i m hRow
        cases h
        have hRet := congrArg Prod.snd hRow
        obtain rfl : m = s.tableMgr := by
          rw [← TableMgr.setMigratingRow_unchanged hRet, hRow]
        exact Does.repeated hAccepts hRet
      · rename_i m hRow
        obtain ⟨count, hFind, rfl⟩ := Option.map_eq_some_iff.mp h
        have hDoes := Does.reported hAccepts (congrArg Prod.snd hRow) hFind
        rwa [hRow] at hDoes

/-- **Inversion of a step.** -/
theorem does_of_step {s s' : SysMgr} {a : SysAction} (h : s.step a = some s') : s.Does a s' := by
  cases a with
  | rebuild upnodeList rand fuel =>
    simp only [step, rebuild] at h
    split at h
    · cases h
    · cases h
      exact Does.unchanged
    · cases h
      exact Does.unchanged
    · rename_i dest hOk
      cases h
      exact Does.rebuilt hOk
  | rebuildQuickTable upnodeList =>
    cases h
    exact Does.quick
  | setMigratingHashtable b server => exact setMigratingHashtable_does h
  | checkMigrateComplete =>
    simp only [step, checkMigrateComplete] at h
    split at h
    · rename_i hDone
      cases h
      exact Does.waiting (Or.inl hDone)
    · rename_i hMigrating
      split at h
      · rename_i hSome
        cases h
        exact Does.waiting (Or.inr hSome)
      · rename_i hEmpty
        split at h
        · cases h
        · rename_i hSame
          cases h
          exact Does.completed hMigrating (not_not.mp hEmpty) (Bool.not_eq_false _ ▸ hSame)
  | restart minConfigVersion =>
    cases h
    exact Does.restarted

end SysMgr

-- Cells

theorem index_lt {copies buckets p b : Nat} (hp : p < copies) (hb : b < buckets) :
    p * buckets + b < copies * buckets :=
  calc p * buckets + b < p * buckets + buckets := Nat.add_lt_add_left hb _
    _ = (p + 1) * buckets := (Nat.succ_mul p buckets).symm
    _ ≤ copies * buckets := Nat.mul_le_mul_right _ hp

theorem index_div {buckets p b : Nat} (hb : b < buckets) : (p * buckets + b) / buckets = p := by
  rw [Nat.add_comm, Nat.add_mul_div_right _ _ (Nat.zero_lt_of_lt hb), Nat.div_eq_of_lt hb,
    Nat.zero_add]

theorem index_mod {buckets p b : Nat} (hb : b < buckets) : (p * buckets + b) % buckets = b := by
  rw [Nat.add_comm, Nat.add_mul_mod_self_right, Nat.mod_eq_of_lt hb]

namespace TableMgr

section Cells

variable {m : TableMgr} {kind kind' : TableKind} {p b : Nat}

theorem word_mapWords (f : Nat → ServerId → ServerId) {k : Nat}
    (hk : k < 3 * m.getHashTableSize) : (m.mapWords f).word k = f k (m.word k) := by
  have hLen : k < m.words.length := by
    rw [m.mapped]
    exact hk
  simp [word, mapWords, withWords, hLen]

theorem skip_add_lt {idx : Nat} (h : idx < m.getHashTableSize) :
    m.skip kind + idx < 3 * m.getHashTableSize := by
  cases kind <;> simp only [skip] <;> omega

@[simp] theorem writeHashTable_copyCount (t : HashTable) :
    (m.writeHashTable kind t).serverCopyCount = m.serverCopyCount := by
  simp only [writeHashTable, mapWords, withWords]

@[simp] theorem writeHashTable_bucketCount (t : HashTable) :
    (m.writeHashTable kind t).serverBucketCount = m.serverBucketCount := by
  simp only [writeHashTable, mapWords, withWords]

/-- A table that is written reads as written, and the other tables as before. -/
theorem table_writeHashTable (t : HashTable) (hp : p < m.serverCopyCount)
    (hb : b < m.serverBucketCount) :
    (m.writeHashTable kind t).table kind' p b =
      if kind' = kind then t p b else m.table kind' p b := by
  have hIdx : p * m.serverBucketCount + b < m.getHashTableSize := index_lt hp hb
  show (m.mapWords _).word (m.skip kind' + (p * m.serverBucketCount + b)) = _
  rw [word_mapWords _ (skip_add_lt hIdx)]
  by_cases hKind : kind' = kind
  · subst hKind
    rw [if_pos rfl, if_pos (by omega), Nat.add_sub_cancel_left, index_div hb, index_mod hb]
  · rw [if_neg hKind, if_neg]
    · rfl
    · cases kind <;> cases kind' <;> simp only [skip] <;> first | exact absurd rfl hKind | omega

/-- `replaceDead` fills in the new server where the old one is dead. -/
theorem table_replaceDead (tb : TableBuilder) (hp : p < m.serverCopyCount)
    (hb : b < m.serverBucketCount) :
    (m.replaceDead tb).table kind p b =
      if kind = .dest ∨ tb.isAvailable (m.mHashTable p b) = true then m.table kind p b
      else m.dHashTable p b := by
  have hIdx : p * m.serverBucketCount + b < m.getHashTableSize := index_lt hp hb
  show (m.mapWords _).word (m.skip kind + (p * m.serverBucketCount + b)) = _
  rw [word_mapWords _ (skip_add_lt hIdx)]
  cases kind with
  | hash =>
    rw [skip, Nat.zero_add, if_pos hIdx]
    refine if_congr (or_iff_right (by simp)).symm ?_ rfl
    simp only [table, cell, skip, Nat.zero_add]
  | mig =>
    rw [skip, if_neg (by omega), if_pos (by omega), Nat.add_sub_cancel_left]
    exact if_congr (or_iff_right (by simp)).symm rfl rfl
  | dest =>
    rw [skip, if_neg (by omega), if_neg (by omega), if_pos (Or.inl rfl)]
    rfl

/-- The tables lie one behind the other, so a cell is one of all three. -/
theorem cell_setCell (idx idx' : Nat) (v : ServerId) :
    (m.setCell kind idx v).cell kind' idx' =
      if m.skip kind + idx = m.skip kind' + idx' ∧ m.skip kind + idx < 3 * m.getHashTableSize then v
      else m.cell kind' idx' := by
  show (m.words.set (m.skip kind + idx) v).getD (m.skip kind' + idx') 0 = _
  have hLen : m.words.length = 3 * m.getHashTableSize := m.mapped
  rw [getD_eq_getElem?_getD, getElem?_set, hLen]
  split
  · rename_i hEq
    split
    · rw [if_pos ⟨hEq, ‹_›⟩]
      rfl
    · rename_i hOut
      rw [if_neg fun h => hOut h.2]
      have hNone : m.words[m.skip kind' + idx']? = none := by
        rw [getElem?_eq_none_iff, hLen]
        omega
      simp [cell, word, hNone]
  · rename_i hNe
    rw [if_neg fun h => hNe h.1]
    simp [cell, word]

theorem cell_eq_table (m : TableMgr) (kind : TableKind) (i : Nat) :
    m.cell kind i = m.table kind (i / m.serverBucketCount) (i % m.serverBucketCount) := by
  unfold table
  rw [Nat.mul_comm, Nat.div_add_mod]

theorem div_lt_and_mod_lt {i : Nat} (hi : i < m.getHashTableSize) :
    i / m.serverBucketCount < m.serverCopyCount ∧ i % m.serverBucketCount < m.serverBucketCount :=
  ⟨(Nat.div_lt_iff_lt_mul m.buckets_pos).mpr hi, Nat.mod_lt _ m.buckets_pos⟩

variable {m' : TableMgr} {r : TableMgr × Bool} {n p' b' : Nat}

/-- A write into a cell of the table, read back as a table. -/
theorem table_setCell (v : ServerId) (hp : p < m.serverCopyCount) (hb : b < m.serverBucketCount)
    (hp' : p' < m.serverCopyCount) (hb' : b' < m.serverBucketCount) :
    (m.setCell kind (p * m.serverBucketCount + b) v).table kind' p' b' =
      if kind' = kind ∧ p' = p ∧ b' = b then v else m.table kind' p' b' := by
  have hIdx : p * m.serverBucketCount + b < m.getHashTableSize := index_lt hp hb
  have hIdx' : p' * m.serverBucketCount + b' < m.getHashTableSize := index_lt hp' hb'
  have hIn : m.skip kind + (p * m.serverBucketCount + b) < 3 * m.getHashTableSize :=
    skip_add_lt hIdx
  have hEq : (m.skip kind + (p * m.serverBucketCount + b) =
        m.skip kind' + (p' * m.serverBucketCount + b') ∧
      m.skip kind + (p * m.serverBucketCount + b) < 3 * m.getHashTableSize) ↔
      (kind' = kind ∧ p' = p ∧ b' = b) := by
    constructor
    · rintro ⟨hWord, -⟩
      have hKind : kind' = kind := by
        cases kind <;> cases kind' <;> simp only [skip] at hWord <;> first | rfl | omega
      subst hKind
      have hIndex : p * m.serverBucketCount + b = p' * m.serverBucketCount + b' := by omega
      refine ⟨rfl, ?_, ?_⟩
      · exact (index_div hb').symm.trans ((congrArg (· / _) hIndex.symm).trans (index_div hb))
      · exact (index_mod hb').symm.trans ((congrArg (· % _) hIndex.symm).trans (index_mod hb))
    · rintro ⟨rfl, rfl, rfl⟩
      exact ⟨rfl, hIn⟩
  show (m.setCell _ _ _).cell kind' (p' * m.serverBucketCount + b') = _
  rw [cell_setCell]
  exact if_congr hEq rfl rfl

/-- Two files differ in their words only. -/
def SameHeader (m m' : TableMgr) : Prop := ∃ words h, m' = m.withWords words h

theorem SameHeader.refl (m : TableMgr) : m.SameHeader m := ⟨m.words, m.mapped, rfl⟩

theorem SameHeader.trans {m₁ m₂ : TableMgr} (h : m.SameHeader m₁) (h' : m₁.SameHeader m₂) :
    m.SameHeader m₂ := by
  obtain ⟨words, hWords, rfl⟩ := h
  obtain ⟨words', hWords', rfl⟩ := h'
  exact ⟨words', hWords', rfl⟩

theorem SameHeader.copyCount (h : m.SameHeader m') : m'.serverCopyCount = m.serverCopyCount := by
  obtain ⟨words, hWords, rfl⟩ := h
  rfl

theorem SameHeader.bucketCount (h : m.SameHeader m') :
    m'.serverBucketCount = m.serverBucketCount := by
  obtain ⟨words, hWords, rfl⟩ := h
  rfl

theorem SameHeader.blockCount (h : m.SameHeader m') :
    m'.migrateBlockCount = m.migrateBlockCount := by
  obtain ⟨words, hWords, rfl⟩ := h
  rfl

theorem SameHeader.serverVersion (h : m.SameHeader m') : m'.serverVersion = m.serverVersion := by
  obtain ⟨words, hWords, rfl⟩ := h
  rfl

theorem copyCell_header (b n : Nat) (r : TableMgr × Bool) :
    r.1.SameHeader (copyCell b r n).1 := by
  unfold copyCell
  dsimp only
  split
  · exact ⟨r.1.words.set _ _, _, rfl⟩
  · exact SameHeader.refl _

/-- A report, for whatever bucket, changes words of the file only. -/
theorem setMigratingRow_header (m : TableMgr) (b : Nat) :
    m.SameHeader (m.setMigratingRow b).1 := by
  have hLoop : ∀ (l : List Nat) (acc : TableMgr × Bool), m.SameHeader acc.1 →
      m.SameHeader (l.foldl (copyCell b) acc).1 := by
    intro l
    induction l with
    | nil => exact fun acc hAcc => hAcc
    | cons i l ih => exact fun acc hAcc => ih _ (hAcc.trans (copyCell_header b i acc))
  exact hLoop _ _ (SameHeader.refl m)

/-- A pass makes one cell of `mHashTable` that of `dHashTable`. -/
theorem table_copyCell (hn : n < r.1.serverCopyCount) (hb : b < r.1.serverBucketCount)
    (hp' : p' < r.1.serverCopyCount) (hb' : b' < r.1.serverBucketCount) :
    (copyCell b r n).1.table kind p' b' =
      if kind = .mig ∧ p' = n ∧ b' = b then r.1.dHashTable p' b' else r.1.table kind p' b' := by
  unfold copyCell
  dsimp only
  split
  · rw [table_setCell _ hn hb hp' hb']
    split
    · rename_i hHere
      obtain ⟨-, rfl, rfl⟩ := hHere
      rfl
    · rfl
  · rename_i hEq
    rw [not_not] at hEq
    split
    · rename_i hHere
      obtain ⟨rfl, rfl, rfl⟩ := hHere
      exact hEq
    · rfl

theorem copyCell_ret :
    (copyCell b r n).2 = true ↔ r.2 = true ∨ r.1.mHashTable n b ≠ r.1.dHashTable n b := by
  have hCells : r.1.cell .mig (n * r.1.serverBucketCount + b) = r.1.mHashTable n b ∧
      r.1.cell .dest (n * r.1.serverBucketCount + b) = r.1.dHashTable n b := ⟨rfl, rfl⟩
  unfold copyCell
  dsimp only
  rw [hCells.1, hCells.2]
  split
  · rename_i hNe
    exact ⟨fun _ => Or.inr hNe, fun _ => rfl⟩
  · rename_i hEq
    exact ⟨Or.inl, fun h => h.resolve_right hEq⟩

/-- The row of bucket `b` has been copied from `dHashTable` to `mHashTable` up to copy
`n`, and nothing else has changed. -/
structure RowCopied (m : TableMgr) (b n : Nat) (r : TableMgr × Bool) : Prop where
  header : m.SameHeader r.1
  tables : ∀ kind, ∀ p < m.serverCopyCount, ∀ b' < m.serverBucketCount,
    r.1.table kind p b' =
      if kind = .mig ∧ b' = b ∧ p < n then m.dHashTable p b' else m.table kind p b'
  ret : r.2 = true ↔ ∃ p < n, m.mHashTable p b ≠ m.dHashTable p b

/-- **Step lemma.** One pass copies one more cell. -/
theorem RowCopied.copyCell (h : RowCopied m b n r) (hb : b < m.serverBucketCount)
    (hn : n < m.serverCopyCount) : RowCopied m b (n + 1) (TableMgr.copyCell b r n) := by
  have hCopies := h.header.copyCount
  have hBuckets := h.header.bucketCount
  have hDest : ∀ p < m.serverCopyCount, ∀ b' < m.serverBucketCount,
      r.1.dHashTable p b' = m.dHashTable p b' := by
    intro p hp b' hb'
    exact (h.tables .dest p hp b' hb').trans (if_neg (by simp))
  refine ⟨h.header.trans (copyCell_header b n r), ?_, ?_⟩
  · intro kind p hp b' hb'
    rw [table_copyCell (hCopies ▸ hn) (hBuckets ▸ hb) (hCopies ▸ hp) (hBuckets ▸ hb'),
      hDest p hp b' hb', h.tables kind p hp b' hb']
    by_cases hRow : kind = .mig ∧ b' = b
    · obtain ⟨rfl, rfl⟩ := hRow
      by_cases hpn : p = n
      · simp [hpn]
      · have hLt : p < n + 1 ↔ p < n := by omega
        simp [hpn, hLt]
    · rw [if_neg fun hHere => hRow ⟨hHere.1, hHere.2.2⟩,
        if_neg fun hHere => hRow ⟨hHere.1, hHere.2.1⟩,
        if_neg fun hHere => hRow ⟨hHere.1, hHere.2.1⟩]
  · have hMig : r.1.mHashTable n b = m.mHashTable n b :=
      (h.tables .mig n hn b hb).trans (if_neg (by omega))
    rw [copyCell_ret, h.ret, hMig, hDest n hn b hb]
    constructor
    · rintro (⟨p, hp, hNe⟩ | hNe)
      · exact ⟨p, by omega, hNe⟩
      · exact ⟨n, by omega, hNe⟩
    · rintro ⟨p, hp, hNe⟩
      by_cases hpn : p = n
      · exact Or.inr (hpn ▸ hNe)
      · exact Or.inl ⟨p, by omega, hNe⟩

/-- **A report for a bucket of the table** copies the bucket's row and nothing else. -/
theorem setMigratingRow_spec (m : TableMgr) {b : Nat} (hb : b < m.serverBucketCount) :
    RowCopied m b m.serverCopyCount (m.setMigratingRow b) := by
  unfold setMigratingRow
  have hLoop : ∀ n ≤ m.serverCopyCount,
      RowCopied m b n ((List.range n).foldl (TableMgr.copyCell b) (m, false)) := by
    intro n
    induction n with
    | zero =>
      intro _
      refine ⟨SameHeader.refl m, ?_, by simp⟩
      intro kind p hp b' hb'
      rw [if_neg (by omega)]
      rfl
    | succ n ih =>
      intro hn
      rw [range_succ, foldl_append]
      exact (ih (by omega)).copyCell hb (by omega)
  exact hLoop _ (le_refl _)

end Cells

end TableMgr

-- The tables after an operation

namespace SysMgr

variable {s : SysMgr} {upnodeList : List ServerId} {p b : Nat}

theorem rebuildQuickTable_copyCount :
    (s.rebuildQuickTable upnodeList).tableMgr.serverCopyCount = s.tableMgr.serverCopyCount := rfl

theorem rebuildQuickTable_bucketCount :
    (s.rebuildQuickTable upnodeList).tableMgr.serverBucketCount = s.tableMgr.serverBucketCount :=
  rfl

/-- After a quick rebuild the three tables are the quick table. -/
theorem table_rebuildQuickTable (kind : TableKind) (hp : p < s.tableMgr.serverCopyCount)
    (hb : b < s.tableMgr.serverBucketCount) :
    (s.rebuildQuickTable upnodeList).tableMgr.table kind p b = s.quickTable upnodeList p b := by
  show (((s.tableMgr.writeHashTable .mig _).writeHashTable .hash _).writeHashTable .dest _).table
    kind p b = _
  cases kind <;> simp [TableMgr.table_writeHashTable, hp, hb]

theorem table_writeTables (dest : HashTable) (kind : TableKind) :
    (s.writeTables upnodeList dest).tableMgr.table kind =
      (s.rebuiltTables upnodeList dest).table kind := rfl

theorem writeTables_copyCount {dest : HashTable} :
    (s.writeTables upnodeList dest).tableMgr.serverCopyCount = s.tableMgr.serverCopyCount := by
  show (s.rebuiltTables upnodeList dest).serverCopyCount = _
  unfold rebuiltTables
  split
  · rfl
  · dsimp only
    split <;> rfl

theorem writeTables_bucketCount {dest : HashTable} :
    (s.writeTables upnodeList dest).tableMgr.serverBucketCount = s.tableMgr.serverBucketCount := by
  show (s.rebuiltTables upnodeList dest).serverBucketCount = _
  unfold rebuiltTables
  split
  · rfl
  · dsimp only
    split <;> rfl

theorem table_rebuiltTables_first (hFirst : s.firstRun = true) (dest : HashTable)
    (kind : TableKind) (hp : p < s.tableMgr.serverCopyCount)
    (hb : b < s.tableMgr.serverBucketCount) :
    (s.rebuiltTables upnodeList dest).table kind p b = dest p b := by
  unfold rebuiltTables
  rw [if_pos hFirst]
  cases kind <;> simp [TableMgr.table_writeHashTable, hp, hb]

/-- A later rebuild publishes the quick table and plans the new one. -/
theorem table_rebuiltTables (hFirst : s.firstRun = false)
    (hCopies : 1 < s.tableMgr.serverCopyCount) (dest : HashTable) (kind : TableKind)
    (hp : p < s.tableMgr.serverCopyCount) (hb : b < s.tableMgr.serverBucketCount) :
    (s.rebuiltTables upnodeList dest).table kind p b =
      if kind = .dest then dest p b else s.quickTable upnodeList p b := by
  unfold rebuiltTables
  rw [if_neg (by simp [hFirst]), if_neg (not_le.mpr hCopies)]
  cases kind <;> simp [TableMgr.table_writeHashTable, hp, hb]

/-- With one copy nothing is promoted: the table stays, but for the servers that are not
available. -/
theorem table_rebuiltTables_single (hFirst : s.firstRun = false)
    (hCopies : s.tableMgr.serverCopyCount = 1) (dest : HashTable) {kind : TableKind}
    (hKind : kind ≠ .dest) (hb : b < s.tableMgr.serverBucketCount) :
    (s.rebuiltTables upnodeList dest).table kind 0 b =
      if (s.tableBuilder upnodeList).isAvailable (s.tableMgr.mHashTable 0 b) then
        s.tableMgr.mHashTable 0 b
      else dest 0 b := by
  have hp : 0 < s.tableMgr.serverCopyCount := s.tableMgr.copies_pos
  have hQuick : s.quickTable upnodeList = s.tableMgr.mHashTable := by
    rw [quickTable, if_neg (by omega)]
  have hWritten : ∀ kind, (((s.tableMgr.writeHashTable .dest dest).writeHashTable .mig
      s.tableMgr.mHashTable).writeHashTable .hash s.tableMgr.mHashTable).table kind 0 b =
        if kind = .dest then dest 0 b else s.tableMgr.mHashTable 0 b := by
    intro kind
    cases kind <;> simp [TableMgr.table_writeHashTable, hp, hb]
  unfold rebuiltTables
  rw [if_neg (by simp [hFirst]), if_pos hCopies.le, hQuick,
    TableMgr.table_replaceDead _ (by exact hp) (by exact hb)]
  refine if_congr ?_ ((hWritten kind).trans (if_neg hKind)) ((hWritten .dest).trans (if_pos rfl))
  rw [or_iff_right hKind, TableMgr.mHashTable, hWritten .mig, if_neg (by simp)]

theorem table_complete (kind : TableKind) (hp : p < s.tableMgr.serverCopyCount)
    (hb : b < s.tableMgr.serverBucketCount) :
    s.complete.tableMgr.table kind p b =
      if kind = .hash then s.tableMgr.dHashTable p b else s.tableMgr.table kind p b :=
  TableMgr.table_writeHashTable _ hp hb

theorem Does.bucketCount {a : SysAction} {s' : SysMgr} (h : s.Does a s') :
    s'.tableMgr.serverBucketCount = s.tableMgr.serverBucketCount := by
  cases h with
  | rebuilt _ => exact writeTables_bucketCount
  | reported _ _ _ => exact (TableMgr.setMigratingRow_header _ _).bucketCount
  | _ => rfl

end SysMgr

end MyBase
