import MyBase.Meta.Published
import MyBase.Storage.Migrates
import MyBase.Storage.Replicas

/-!
# MyBase — a storage node and the tables it is sent

A heartbeat reply with a new table version makes a storage node add the slaves of the
buckets it is master of to their peers, and enter in `migrates` what the planned table asks
of it. Both only grow: nothing of an earlier table is taken away. `BucketMgr::rmvPeer` is
never called, and `migrates` is emptied only by the thread that takes its work.

What a sequence of replies leaves is said from the replies alone:

* `find?_migrates_run` — `migrates` lists what each of the tables asked for, one after the
  other.

From that follow the exact conditions under which they fit the latest table:

* `migrates_exact_iff`, and `migrates_of_earlier_table` for a sequence that does not meet it;
* `peers_exact_iff`, and `peers_of_earlier_table`.
-/

namespace MyBase

open Lib List

-- Replies

/-- A reply with both tables, as the meta server sends it. -/
structure TableReply where
  msg : HeartbeatResponse
  copies_pos : 0 < msg.copycount
  whole : msg.tablebytes.length = 2 * (msg.copycount * msg.bucketcount)

namespace TableReply

def buckets (r : TableReply) : Nat := r.msg.bucketcount

def copies (r : TableReply) : Nat := r.msg.copycount

/-- `table[i + j*bucketCount]`. -/
def current (r : TableReply) (j i : Nat) : ServerId :=
  tableWord r.msg.tablebytes (i + r.buckets * j)

/-- `pdest_table[index + bucketCount * i]`. -/
def planned (r : TableReply) (i index : Nat) : ServerId :=
  tableWord r.msg.tablebytes (r.buckets * r.copies + (index + r.buckets * i))

/-- The slaves of a bucket. -/
def slaves (r : TableReply) (b : Nat) : List ServerId :=
  (List.range' 1 (r.copies - 1)).map fun j => r.current j b

/-- The row of a bucket, master first. -/
def row (r : TableReply) (b : Nat) : List ServerId := r.current 0 b :: r.slaves b

/-- The server is the master of the bucket. -/
def Masters (r : TableReply) (server : ServerId) (b : Nat) : Prop :=
  b < r.buckets ∧ server = r.current 0 b

instance (r : TableReply) (server : ServerId) (b : Nat) : Decidable (r.Masters server b) := by
  unfold Masters
  infer_instance

/-- The cells of the planned row that are not in the current one. -/
def newServers (r : TableReply) (b : Nat) : List ServerId :=
  ((List.range r.copies).filter
    (needMigrate r.buckets r.copies r.msg.tablebytes b)).map fun i => r.planned i b

/-- What a reply makes a server enter for a bucket. -/
def enters (r : TableReply) (server : ServerId) (b : Nat) : List ServerId :=
  if r.Masters server b then r.newServers b else []

end TableReply

-- The node

/-- `StorageServer`, as far as heartbeat replies change it. -/
structure StorageNode where
  /-- `NetHelper::sLocalServerAddr`. -/
  localAddr : ServerId
  /-- The log that the directory of each bucket holds. -/
  disk : Nat → SegLog LogData
  /-- Allocated by the first reply. -/
  bucketMgr : Option (List BucketMgr)
  metaVersion : Nat
  migrates : Migrates

namespace StorageNode

/-- A node that has just been started. -/
def start (localAddr : ServerId) (disk : Nat → SegLog LogData) : StorageNode where
  localAddr := localAddr
  disk := disk
  bucketMgr := none
  metaVersion := 0
  migrates := ∅

/-- `bucketMgr`, allocated for this reply if it was not yet. -/
def allocated (node : StorageNode) (bucketCount : Nat) : List BucketMgr :=
  node.bucketMgr.getD ((List.range bucketCount).map fun i => BucketMgr.opened (node.disk i))

/-- The body of the loop over the buckets; `none` for an element of `bucketMgr` that is not
there. -/
def visitBucket (localAddr : ServerId) (r : TableReply) (mgrs : List BucketMgr) (i : Nat) :
    Option (List BucketMgr) :=
  if localAddr ∈ r.row i then
    if i < mgrs.length then some (mgrs.modify i fun mgr => mgr.hbCallback localAddr (r.row i))
    else none
  else some mgrs

/-- `hbCallback` for a reply that has arrived. -/
def hbCallback (node : StorageNode) (r : TableReply) : Option StorageNode :=
  let mgrs := node.allocated r.buckets
  if r.msg.serverversion ≤ node.metaVersion then some { node with bucketMgr := some mgrs }
  else
    (run (visitBucket node.localAddr r) mgrs (List.range' 0 r.buckets)).map fun mgrs =>
      { node with
        bucketMgr := some mgrs
        metaVersion := r.msg.serverversion
        migrates := updateServerTable node.localAddr r.buckets r.copies r.msg.tablebytes
          node.migrates }

/-- The keys of `peers` of a bucket's manager. -/
def peersOf (node : StorageNode) (b : Nat) : List Nat :=
  ((node.bucketMgr.bind fun mgrs => mgrs[b]?).map fun mgr => mgr.peers.keys).getD []

/-- The replies bring newer and newer tables. -/
def Increasing (node : StorageNode) (replies : List TableReply) : Prop :=
  (node.metaVersion :: replies.map fun r => r.msg.serverversion).Pairwise (· < ·)

end StorageNode

-- Migrations

/-- What is listed for a bucket when `added` has been pushed. -/
def entered (added : List ServerId) (old : Option (List ServerId)) : Option (List ServerId) :=
  if added = [] then old else some (old.getD [] ++ added)

/-- The entry of a bucket for which `l` has been pushed. -/
def listed (l : List ServerId) : Option (List ServerId) := if l = [] then none else some l

theorem entered_listed (added l : List ServerId) :
    entered added (listed l) = listed (l ++ added) := by
  unfold entered listed
  by_cases hAdded : added = []
  · simp [hAdded]
  · by_cases hl : l = [] <;> simp [hAdded, hl]

theorem entered_append (added added' : List ServerId) (old : Option (List ServerId)) :
    entered added' (entered added old) = entered (added ++ added') old := by
  unfold entered
  by_cases hAdded : added = [] <;> by_cases hAdded' : added' = [] <;> simp [hAdded, hAdded']

theorem find?_pushMigrate (index : Nat) (server : ServerId) (migrates : Migrates) (b : Nat) :
    (pushMigrate index server migrates).find? b =
      if b = index then entered [server] (migrates.find? b) else migrates.find? b := by
  rw [pushMigrate, OrdMap.find?_modify, OrdMap.find?_emplace, OrdMap.find?_emplace]
  by_cases hb : b = index
  · subst hb
    cases hFind : migrates.find? b <;> simp [entered]
  · simp [hb]

/-- What one bucket enters in `migrates`. -/
theorem find?_calculateMigrates (r : TableReply) (index : Nat) (migrates : Migrates) (b : Nat) :
    (calculateMigrates r.buckets r.copies r.msg.tablebytes index migrates).find? b =
      if b = index then entered (r.newServers b) (migrates.find? b) else migrates.find? b := by
  have hLoop : ∀ (l : List Nat) (migrates : Migrates),
      (l.foldl (fun migrates i =>
        if needMigrate r.buckets r.copies r.msg.tablebytes index i then
          pushMigrate index
            (tableWord r.msg.tablebytes (r.buckets * r.copies + (index + r.buckets * i))) migrates
        else migrates) migrates).find? b =
      if b = index then
        entered ((l.filter (needMigrate r.buckets r.copies r.msg.tablebytes b)).map
          fun i => r.planned i b) (migrates.find? b)
      else migrates.find? b := by
    intro l
    induction l with
    | nil =>
      intro migrates
      simp [entered]
    | cons i l ih =>
      intro migrates
      rw [foldl_cons, ih]
      by_cases hb : b = index
      · subst hb
        rw [if_pos rfl, if_pos rfl]
        by_cases hNeed : needMigrate r.buckets r.copies r.msg.tablebytes b i = true
        · rw [if_pos hNeed, find?_pushMigrate, if_pos rfl, entered_append,
            filter_cons_of_pos hNeed, map_cons]
          rfl
        · rw [if_neg hNeed, filter_cons_of_neg hNeed]
      · rw [if_neg hb, if_neg hb]
        split
        · rw [find?_pushMigrate, if_neg hb]
        · rfl
  exact hLoop _ migrates

/-- A cell enters its bucket if this server is its master. -/
theorem find?_visitCell (r : TableReply) (server : ServerId) (migrates : Migrates) (i b : Nat) :
    OrdMap.find? (if server = tableWord r.msg.tablebytes i ∧ i < r.buckets ∧
        r.msg.tablebytes.length > r.copies * r.buckets then
      calculateMigrates r.buckets r.copies r.msg.tablebytes i migrates
    else migrates) b =
      if b = i then entered (r.enters server b) (migrates.find? b) else migrates.find? b := by
  have hCell : r.current 0 i = tableWord r.msg.tablebytes i := by simp [TableReply.current]
  by_cases hMaster : r.Masters server i
  · have hLength : r.msg.tablebytes.length > r.copies * r.buckets := by
      have hFull : r.msg.tablebytes.length = 2 * (r.copies * r.buckets) := r.whole
      have hCells : 0 < r.copies * r.buckets :=
        Nat.mul_pos r.copies_pos (Nat.zero_lt_of_lt hMaster.1)
      omega
    rw [if_pos ⟨hMaster.2.trans hCell, hMaster.1, hLength⟩, find?_calculateMigrates]
    by_cases hb : b = i
    · rw [if_pos hb, if_pos hb, TableReply.enters, hb, if_pos hMaster]
    · rw [if_neg hb, if_neg hb]
  · rw [if_neg fun h => hMaster ⟨h.2.1, h.1.trans hCell.symm⟩]
    by_cases hb : b = i
    · rw [if_pos hb, TableReply.enters, hb, if_neg hMaster, entered, if_pos rfl]
    · rw [if_neg hb]

/-- **What one reply enters.** -/
theorem find?_updateServerTable (r : TableReply) (server : ServerId) (migrates : Migrates)
    (b : Nat) :
    (updateServerTable server r.buckets r.copies r.msg.tablebytes migrates).find? b =
      entered (r.enters server b) (migrates.find? b) := by
  have hLoop := foldl_range_rows (fun (m : Migrates) b => (b, m.find? b))
    (fun old new => new = (old.1, entered (r.enters server old.1) old.2))
    (fun m i => Prod.ext rfl ((find?_visitCell r server m i i).trans (if_pos rfl)))
    (fun m i b hb => Prod.ext rfl ((find?_visitCell r server m i b).trans (if_neg hb)))
    migrates (r.copies * r.buckets) b
  by_cases hb : b < r.copies * r.buckets
  · exact congrArg Prod.snd (hLoop.1 hb)
  · have hNot : ¬ r.Masters server b := by
      intro hMaster
      have hRow : r.buckets ≤ r.copies * r.buckets := Nat.le_mul_of_pos_left _ r.copies_pos
      have hLt := hMaster.1
      omega
    rw [TableReply.enters, if_neg hNot, entered, if_pos rfl]
    exact congrArg Prod.snd (hLoop.2 (by omega))

-- One reply

namespace StorageNode

variable {node node' : StorageNode} {r : TableReply}

/-- **Inversion of `hbCallback`** for a newer table. -/
theorem hbCallback_newer (hNewer : node.metaVersion < r.msg.serverversion)
    (h : node.hbCallback r = some node') :
    ∃ mgrs, run (visitBucket node.localAddr r) (node.allocated r.buckets)
        (List.range' 0 r.buckets) = some mgrs ∧
      node'.bucketMgr = some mgrs ∧ node'.localAddr = node.localAddr ∧
      node'.metaVersion = r.msg.serverversion ∧
      node'.migrates =
        updateServerTable node.localAddr r.buckets r.copies r.msg.tablebytes node.migrates := by
  unfold hbCallback at h
  dsimp only at h
  rw [if_neg (by omega)] at h
  obtain ⟨mgrs, hRun, rfl⟩ := Option.map_eq_some_iff.mp h
  exact ⟨mgrs, hRun, rfl, rfl, rfl, rfl⟩

variable {replies : List TableReply}

/-- The first reply is newer, and the others are newer than that. -/
theorem Increasing.cons (h : node.Increasing (r :: replies)) :
    node.metaVersion < r.msg.serverversion ∧
      ∀ node' : StorageNode, node'.metaVersion = r.msg.serverversion →
        node'.Increasing replies := by
  obtain ⟨hFirst, hRest⟩ := pairwise_cons.mp h
  refine ⟨hFirst _ mem_cons_self, ?_⟩
  intro node' hVersion
  rw [Increasing, hVersion]
  exact hRest

/-- **What a sequence of replies enters.** -/
theorem find?_migrates_run (hIncreasing : node.Increasing replies)
    (hRun : run hbCallback node replies = some node') (b : Nat) :
    node'.migrates.find? b =
      entered (replies.flatMap fun r => r.enters node.localAddr b) (node.migrates.find? b) := by
  induction replies generalizing node with
  | nil =>
    cases hRun
    simp [entered]
  | cons r replies ih =>
    obtain ⟨node₁, hStep, hRest⟩ := run_cons_eq_some.mp hRun
    obtain ⟨hNewer, hLater⟩ := hIncreasing.cons
    obtain ⟨mgrs, -, -, hAddr, hVersion, hMigrates⟩ := hbCallback_newer hNewer hStep
    rw [ih (hLater node₁ hVersion) hRest, hAddr, hMigrates, find?_updateServerTable,
      entered_append, flatMap_cons]

/-- The node's own address does not change. -/
theorem localAddr_run (hRun : run hbCallback node replies = some node') :
    node'.localAddr = node.localAddr := by
  have hKept : ∀ (n : StorageNode) (r : TableReply) (n' : StorageNode),
      n.localAddr = node.localAddr → n.hbCallback r = some n' →
      n'.localAddr = node.localAddr := by
    intro n r n' hAddr hStep
    unfold hbCallback at hStep
    dsimp only at hStep
    split at hStep
    · cases hStep
      exact hAddr
    · obtain ⟨mgrs, -, rfl⟩ := Option.map_eq_some_iff.mp hStep
      exact hAddr
  exact run_keeps hKept rfl hRun

end StorageNode

-- The migrations of the latest table

namespace TableReply

/-- The bucket is to be moved to the server: it is in the planned row of a bucket that
`localAddr` is the master of, and not in the current row. -/
def Due (r : TableReply) (localAddr : ServerId) (b : Nat) (server : ServerId) : Prop :=
  r.Masters localAddr b ∧ server ≠ invalidFlag ∧ (∃ i < r.copies, r.planned i b = server) ∧
    ∀ j < r.copies, r.current j b ≠ server

/-- The planned rows of the buckets of `localAddr` name no server that is not in the current
row. -/
def Quiet (r : TableReply) (localAddr : ServerId) : Prop :=
  ∀ b, r.Masters localAddr b → ∀ i < r.copies, ∃ j < r.copies, r.planned i b = r.current j b

/-- What is new in the planned rows of the buckets of `localAddr` are servers, none of them
twice. -/
def Clean (r : TableReply) (localAddr : ServerId) : Prop :=
  ∀ b, r.Masters localAddr b → (r.newServers b).Nodup ∧ invalidFlag ∉ r.newServers b

variable {r : TableReply} {b : Nat} {server localAddr : ServerId}

theorem mem_newServers :
    server ∈ r.newServers b ↔
      (∃ i < r.copies, r.planned i b = server) ∧ ∀ j < r.copies, r.current j b ≠ server := by
  have hNeed : ∀ i, needMigrate r.buckets r.copies r.msg.tablebytes b i = true ↔
      ∀ j < r.copies, r.current j b ≠ r.planned i b := by
    intro i
    simp only [needMigrate, all_eq_true, mem_range, decide_eq_true_eq]
    exact forall₂_congr fun _ _ => ne_comm
  simp only [newServers, mem_map, mem_filter, mem_range, hNeed]
  constructor
  · rintro ⟨i, ⟨hi, hNew⟩, rfl⟩
    exact ⟨⟨i, hi, rfl⟩, hNew⟩
  · rintro ⟨⟨i, hi, rfl⟩, hNew⟩
    exact ⟨i, ⟨hi, hNew⟩, rfl⟩

theorem mem_enters :
    server ∈ r.enters localAddr b ↔ r.Masters localAddr b ∧ server ∈ r.newServers b := by
  unfold enters
  by_cases hMaster : r.Masters localAddr b <;> simp [hMaster]

theorem quiet_iff : r.Quiet localAddr ↔ ∀ b, r.enters localAddr b = [] := by
  constructor
  · intro h b
    rw [eq_nil_iff_forall_not_mem]
    intro server hMem
    obtain ⟨hMaster, hNew⟩ := mem_enters.mp hMem
    obtain ⟨⟨i, hi, rfl⟩, hNot⟩ := mem_newServers.mp hNew
    obtain ⟨j, hj, hEq⟩ := h b hMaster i hi
    exact hNot j hj hEq.symm
  · intro h b hMaster i hi
    by_contra hNone
    push Not at hNone
    have hMem : r.planned i b ∈ r.enters localAddr b :=
      mem_enters.mpr ⟨hMaster, mem_newServers.mpr ⟨⟨i, hi, rfl⟩, fun j hj => (hNone j hj).symm⟩⟩
    rw [h b] at hMem
    cases hMem

theorem due_iff :
    r.Due localAddr b server ↔ server ∈ r.enters localAddr b ∧ server ≠ invalidFlag := by
  rw [mem_enters, mem_newServers, Due]
  tauto

end TableReply

/-- `migrates` has the buckets that are to be moved by the latest table, each with the
servers it is to be moved to, once. -/
structure MigratesExact (migrates : Migrates) (localAddr : ServerId) (latest : TableReply) :
    Prop where
  buckets : ∀ b, b ∈ migrates.keys ↔ ∃ server, latest.Due localAddr b server
  servers : ∀ b l, migrates.find? b = some l →
    l.Nodup ∧ ∀ server, server ∈ l ↔ latest.Due localAddr b server

/-- What it takes for the lists to be exact. -/
theorem migratesExact_iff {migrates : Migrates} {localAddr : ServerId} {latest : TableReply}
    {l : Nat → List ServerId} (h : ∀ b, migrates.find? b = listed (l b)) :
    MigratesExact migrates localAddr latest ↔
      ∀ b, (l b).Nodup ∧ ∀ server, server ∈ l b ↔ latest.Due localAddr b server := by
  have hKeys : ∀ b, b ∈ migrates.keys ↔ l b ≠ [] := by
    intro b
    rw [← OrdMap.find?_isSome_iff, h b, listed]
    by_cases hEmpty : l b = [] <;> simp [hEmpty]
  constructor
  · intro hExact b
    by_cases hEmpty : l b = []
    · refine ⟨by rw [hEmpty]; exact nodup_nil, ?_⟩
      intro server
      have hNone : ¬ ∃ server, latest.Due localAddr b server := by
        rw [← hExact.buckets b, hKeys b]
        exact not_not.mpr hEmpty
      rw [hEmpty]
      exact ⟨fun hMem => absurd hMem not_mem_nil, fun hDue => absurd ⟨server, hDue⟩ hNone⟩
    · exact hExact.servers b (l b) (by rw [h b, listed, if_neg hEmpty])
  · intro hLists
    refine ⟨?_, ?_⟩
    · intro b
      rw [hKeys b, ne_nil_iff_exists_cons]
      constructor
      · rintro ⟨server, rest, hEq⟩
        exact ⟨server, ((hLists b).2 server).mp (by rw [hEq]; exact mem_cons_self)⟩
      · rintro ⟨server, hDue⟩
        exact exists_cons_of_ne_nil (ne_nil_of_mem (((hLists b).2 server).mpr hDue))
    · intro b l' hFind
      rw [h b, listed] at hFind
      split at hFind
      · cases hFind
      · cases hFind
        exact hLists b

/-- A list that ends with `new` has just the servers of `new`, once, when nothing comes
before them and they are servers. -/
theorem exact_list_iff {old new : List ServerId} :
    ((old ++ new).Nodup ∧ ∀ server, server ∈ old ++ new ↔ server ∈ new ∧ server ≠ invalidFlag) ↔
      old = [] ∧ new.Nodup ∧ invalidFlag ∉ new := by
  constructor
  · rintro ⟨hNodup, hMem⟩
    obtain ⟨-, hNew, hDisjoint⟩ := nodup_append.mp hNodup
    refine ⟨?_, hNew, ?_⟩
    · rw [eq_nil_iff_forall_not_mem]
      intro server hOld
      have hBoth := (hMem server).mp (mem_append_left _ hOld)
      exact hDisjoint server hOld server hBoth.1 rfl
    · intro hZero
      exact ((hMem invalidFlag).mp (mem_append_right _ hZero)).2 rfl
  · rintro ⟨rfl, hNew, hZero⟩
    refine ⟨hNew, ?_⟩
    intro server
    rw [nil_append]
    refine ⟨fun hMem => ⟨hMem, ?_⟩, And.left⟩
    rintro rfl
    exact hZero hMem

/-- For every sequence of replies with newer and newer tables that a node handles with no
work left from before: `migrates` fits the latest table just when no earlier table asked
for a migration, and the latest table's own rows are clean. -/
theorem migrates_exact_iff (node node' : StorageNode) (replies : List TableReply)
    (latest : TableReply) (hEmpty : node.migrates = ∅)
    (hIncreasing : node.Increasing (replies ++ [latest]))
    (hRun : run StorageNode.hbCallback node (replies ++ [latest]) = some node') :
    MigratesExact node'.migrates node.localAddr latest ↔
      (∀ r ∈ replies, r.Quiet node.localAddr) ∧ latest.Clean node.localAddr := by
  have hFind : ∀ b, node'.migrates.find? b =
      listed ((replies.flatMap fun r => r.enters node.localAddr b) ++
        latest.enters node.localAddr b) := by
    intro b
    have hEntered := StorageNode.find?_migrates_run hIncreasing hRun b
    rw [hEmpty, OrdMap.find?_empty, flatMap_append, flatMap_singleton] at hEntered
    rw [hEntered]
    exact entered_listed _ []
  rw [migratesExact_iff hFind]
  simp only [TableReply.due_iff, exact_list_iff]
  have hQuiet : (∀ b, (replies.flatMap fun r => r.enters node.localAddr b) = []) ↔
      ∀ r ∈ replies, r.Quiet node.localAddr := by
    simp only [flatMap_eq_nil_iff, TableReply.quiet_iff]
    exact ⟨fun h r hr b => h b r hr, fun h b r hr => h r hr b⟩
  have hClean : (∀ b, (latest.enters node.localAddr b).Nodup ∧
      invalidFlag ∉ latest.enters node.localAddr b) ↔ latest.Clean node.localAddr := by
    refine forall_congr' fun b => ?_
    unfold TableReply.enters
    by_cases hMaster : latest.Masters node.localAddr b <;> simp [hMaster]
  rw [forall_and, hQuiet, hClean]

/-- A reply with one bucket, whose current row and planned row are given. -/
def oneBucketReply (version : Nat) (row planned : List ServerId) (hPos : 0 < row.length)
    (hLength : planned.length = row.length) : TableReply where
  msg :=
    { clientversion := version
      serverversion := version
      bucketcount := 1
      copycount := row.length
      nscapacityversion := 1
      tablebytes := row ++ planned }
  copies_pos := hPos
  whole := by
    show (row ++ planned).length = 2 * (row.length * 1)
    rw [length_append, hLength]
    omega

/-- A table that leaves the bucket where it is, and one that plans a new server. -/
theorem migrates_exact_second :
    ∃ node', run StorageNode.hbCallback (StorageNode.start 1 fun _ => SegLog.empty)
        [oneBucketReply 2 [1] [1] (by decide) rfl, oneBucketReply 3 [1] [2] (by decide) rfl] =
          some node' ∧
      node'.migrates.find? 0 = some [2] ∧
      MigratesExact node'.migrates 1 (oneBucketReply 3 [1] [2] (by decide) rfl) := by
  refine ⟨_, rfl, rfl, (migrates_exact_iff (StorageNode.start 1 fun _ => SegLog.empty) _
    [oneBucketReply 2 [1] [1] (by decide) rfl] (oneBucketReply 3 [1] [2] (by decide) rfl) rfl
    (by simp [StorageNode.Increasing, StorageNode.start, oneBucketReply]) rfl).mpr ⟨?_, ?_⟩⟩
  · intro r hr
    obtain rfl := mem_singleton.mp hr
    rintro b ⟨hb, -⟩
    obtain rfl : b = 0 := Nat.lt_one_iff.mp hb
    decide
  · rintro b ⟨hb, -⟩
    obtain rfl : b = 0 := Nat.lt_one_iff.mp hb
    decide

/-- Bucket 0 of node 1 is to be moved to server 2 by one table, and to server 3 by the
next. Both are listed. -/
theorem migrates_of_earlier_table :
    ∃ node', run StorageNode.hbCallback (StorageNode.start 1 fun _ => SegLog.empty)
        [oneBucketReply 2 [1] [2] (by decide) rfl, oneBucketReply 3 [1] [3] (by decide) rfl] =
          some node' ∧
      node'.migrates.find? 0 = some [2, 3] ∧
      ¬ MigratesExact node'.migrates 1 (oneBucketReply 3 [1] [3] (by decide) rfl) := by
  refine ⟨_, rfl, rfl, ?_⟩
  intro hExact
  obtain ⟨-, -, ⟨i, hi, hPlanned⟩, -⟩ := ((hExact.servers 0 [2, 3] rfl).2 2).mp (by decide)
  obtain rfl : i = 0 := Nat.lt_one_iff.mp hi
  exact absurd hPlanned (by decide)

-- Peers

theorem BucketMgr.mem_peers_addPeer (mgr : BucketMgr) (srvId p : Nat) :
    p ∈ (mgr.addPeer srvId).peers.keys ↔ p ∈ mgr.peers.keys ∨ p = srvId := by
  show p ∈ (mgr.peers.emplace srvId 0).keys ↔ _
  rw [← OrdMap.find?_isSome_iff, OrdMap.find?_emplace, ← OrdMap.find?_isSome_iff]
  by_cases hp : p = srvId <;> simp [hp]

/-- Slaves become peers at their master. -/
theorem BucketMgr.mem_peers_hbCallback (mgr : BucketMgr) (localAddr : ServerId)
    (master : ServerId) (slaves : List ServerId) (p : Nat) :
    p ∈ (mgr.hbCallback localAddr (master :: slaves)).peers.keys ↔
      p ∈ mgr.peers.keys ∨ (localAddr = master ∧ p ∈ slaves) := by
  -- registering the callback leaves the peers
  have hRegist : ∀ (server : ServerId) (mgr : BucketMgr),
      (if localAddr = server then mgr.registCommitCB else mgr).peers = mgr.peers := by
    intro server mgr
    split <;> rfl
  have hLoop : ∀ (l : List ServerId) (mgr : BucketMgr),
      p ∈ (l.foldl (fun b srvId =>
        let b := if localAddr = master then b.addPeer srvId else b
        if localAddr = srvId then b.registCommitCB else b) mgr).peers.keys ↔
      p ∈ mgr.peers.keys ∨ (localAddr = master ∧ p ∈ l) := by
    intro l
    induction l with
    | nil => simp
    | cons srvId l ih =>
      intro mgr
      rw [foldl_cons, ih]
      dsimp only
      rw [hRegist]
      by_cases hMaster : localAddr = master
      · rw [if_pos hMaster, BucketMgr.mem_peers_addPeer]
        simp [hMaster, or_assoc]
      · simp [hMaster]
  unfold BucketMgr.hbCallback
  dsimp only
  rw [hLoop, hRegist]

namespace StorageNode

/-- The keys of `peers` of one of the managers. -/
def peersIn (mgrs : List BucketMgr) (b : Nat) : List Nat :=
  (mgrs[b]?.map fun mgr => mgr.peers.keys).getD []

variable {localAddr : ServerId} {r : TableReply} {mgrs mgrs' : List BucketMgr}

/-- What one bucket of a reply adds. -/
theorem mem_peersIn_visitBucket {i : Nat} (h : visitBucket localAddr r mgrs i = some mgrs')
    (b p : Nat) :
    p ∈ peersIn mgrs' b ↔
      p ∈ peersIn mgrs b ∨ (b = i ∧ localAddr = r.current 0 b ∧ p ∈ r.slaves b) := by
  unfold visitBucket at h
  by_cases hHere : localAddr ∈ r.row i
  · rw [if_pos hHere, Option.ite_none_right_eq_some] at h
    obtain ⟨hBound, ⟨⟩⟩ := h
    unfold peersIn
    rw [getElem?_modify]
    by_cases hb : b = i
    · subst hb
      simp [getElem?_eq_getElem hBound, TableReply.row, BucketMgr.mem_peers_hbCallback]
    · simp [hb, Ne.symm hb]
  · rw [if_neg hHere] at h
    cases h
    have hNot : ¬ (b = i ∧ localAddr = r.current 0 b ∧ p ∈ r.slaves b) := by
      rintro ⟨rfl, hMaster, -⟩
      exact hHere (hMaster ▸ mem_cons_self)
    simp [hNot]

/-- The loop adds the slaves of the buckets that the node is master of. -/
theorem mem_peersIn_run
    (h : run (visitBucket localAddr r) mgrs (List.range' 0 r.buckets) = some mgrs') (b p : Nat) :
    p ∈ peersIn mgrs' b ↔ p ∈ peersIn mgrs b ∨ (r.Masters localAddr b ∧ p ∈ r.slaves b) := by
  have hEnd := run_range'
    (fun n ms => p ∈ peersIn ms b ↔
      p ∈ peersIn mgrs b ∨ (b < n ∧ localAddr = r.current 0 b ∧ p ∈ r.slaves b))
    (by
      intro i ms ms' _ _ hInv hStep
      rw [mem_peersIn_visitBucket hStep, hInv, or_assoc, ← or_and_right, Nat.lt_succ_iff_lt_or_eq])
    (by simp) h
  rw [hEnd, Nat.zero_add, TableReply.Masters, and_assoc]

theorem peersIn_allocated (node : StorageNode) (bucketCount b : Nat) :
    peersIn (node.allocated bucketCount) b = node.peersOf b := by
  unfold allocated peersOf
  cases node.bucketMgr with
  | some mgrs => rfl
  | none =>
    unfold peersIn
    by_cases hb : b < bucketCount
    · simp [hb]
      rfl
    · simp [hb]

/-- The peers of a bucket are the slaves that any of the tables gave it while the node was its
master. -/
theorem mem_peers_run {node node' : StorageNode} {replies : List TableReply}
    (hIncreasing : node.Increasing replies) (hRun : run hbCallback node replies = some node')
    (b p : Nat) :
    p ∈ node'.peersOf b ↔
      p ∈ node.peersOf b ∨ ∃ r ∈ replies, r.Masters node.localAddr b ∧ p ∈ r.slaves b := by
  induction replies generalizing node with
  | nil =>
    cases hRun
    simp
  | cons r replies ih =>
    obtain ⟨node₁, hStep, hRest⟩ := run_cons_eq_some.mp hRun
    obtain ⟨hNewer, hLater⟩ := hIncreasing.cons
    obtain ⟨mgrs, hLoop, hMgrs, hAddr, hVersion, -⟩ := hbCallback_newer hNewer hStep
    have hFirst : p ∈ node₁.peersOf b ↔
        p ∈ node.peersOf b ∨ (r.Masters node.localAddr b ∧ p ∈ r.slaves b) := by
      have hPeers : node₁.peersOf b = peersIn mgrs b := by
        rw [peersOf, hMgrs]
        rfl
      rw [hPeers, mem_peersIn_run hLoop, peersIn_allocated]
    rw [ih (hLater node₁ hVersion) hRest, hFirst, hAddr, or_assoc]
    simp

/-- The peers of the buckets that the node is master of are their slaves. -/
def PeersExact (node : StorageNode) (r : TableReply) : Prop :=
  ∀ b, r.Masters node.localAddr b →
    ∀ p, p ∈ node.peersOf b ↔ p ≠ invalidFlag ∧ p ∈ r.slaves b

theorem Increasing.left {node : StorageNode} {replies later : List TableReply}
    (h : node.Increasing (replies ++ later)) : node.Increasing replies := by
  unfold Increasing at h ⊢
  rw [map_append, ← cons_append] at h
  exact (pairwise_append.mp h).1

end StorageNode

/-- The bucket's slaves in an earlier table are servers that are its slaves in a later one,
as long as the node is its master in both. -/
def TableReply.KeepsSlaves (localAddr : ServerId) (earlier later : TableReply) : Prop :=
  ∀ b, earlier.Masters localAddr b → later.Masters localAddr b →
    ∀ p ∈ earlier.slaves b, p ≠ invalidFlag ∧ p ∈ later.slaves b

/-- For every sequence of replies with newer and newer tables, handled by a node since it
was started: its peers fit the table after each of them just when no table has a slave, of a
bucket the node is master of, that is 0 or that a later table of the sequence drops. -/
theorem peers_exact_iff (localAddr : ServerId) (disk : Nat → SegLog LogData)
    (replies : List TableReply) (node' : StorageNode)
    (hIncreasing : (StorageNode.start localAddr disk).Increasing replies)
    (hRun : run StorageNode.hbCallback (StorageNode.start localAddr disk) replies = some node') :
    (∀ before r after, replies = before ++ r :: after →
      ∀ node, run StorageNode.hbCallback (StorageNode.start localAddr disk) (before ++ [r]) =
        some node → node.PeersExact r) ↔
      ∀ before r after, replies = before ++ r :: after →
        ∀ earlier ∈ before ++ [r], TableReply.KeepsSlaves localAddr earlier r := by
  refine forall_congr' fun before => forall_congr' fun r => forall_congr' fun after =>
    forall_congr' fun hReplies => ?_
  have hSplit : replies = (before ++ [r]) ++ after := by simp [hReplies]
  obtain ⟨node, hPrefix, -⟩ := run_append.mp (hSplit ▸ hRun)
  have hAddr : node.localAddr = localAddr := StorageNode.localAddr_run hPrefix
  have hPeers : ∀ b p, p ∈ node.peersOf b ↔
      ∃ earlier ∈ before ++ [r], earlier.Masters localAddr b ∧ p ∈ earlier.slaves b := by
    intro b p
    rw [StorageNode.mem_peers_run (hSplit ▸ hIncreasing).left hPrefix]
    exact or_iff_right not_mem_nil
  rw [hPrefix]
  constructor
  · intro hExact earlier hEarlier b hThen hNow p hp
    exact (hExact node rfl b (hAddr ▸ hNow) p).mp ((hPeers b p).mpr ⟨earlier, hEarlier, hThen, hp⟩)
  · rintro hKeeps _ ⟨⟩ b hNow p
    rw [hAddr] at hNow
    rw [hPeers]
    constructor
    · rintro ⟨earlier, hEarlier, hThen, hp⟩
      exact hKeeps earlier hEarlier b hThen hNow p hp
    · rintro ⟨-, hp⟩
      exact ⟨r, by simp, hNow, hp⟩

/-- The slaves of a bucket change places. -/
theorem peers_exact_permuted :
    ∃ node', run StorageNode.hbCallback (StorageNode.start 1 fun _ => SegLog.empty)
        [oneBucketReply 2 [1, 2, 3] [1, 2, 3] (by decide) rfl,
          oneBucketReply 3 [1, 3, 2] [1, 3, 2] (by decide) rfl] = some node' ∧
      ∀ before r after, [oneBucketReply 2 [1, 2, 3] [1, 2, 3] (by decide) rfl,
          oneBucketReply 3 [1, 3, 2] [1, 3, 2] (by decide) rfl] = before ++ r :: after →
        ∀ node, run StorageNode.hbCallback (StorageNode.start 1 fun _ => SegLog.empty)
          (before ++ [r]) = some node → node.PeersExact r := by
  refine ⟨_, rfl, (peers_exact_iff 1 (fun _ => SegLog.empty) _ _ ?_ rfl).mpr ?_⟩
  · simp [StorageNode.Increasing, StorageNode.start, oneBucketReply]
  · intro before r after hReplies earlier hEarlier b hThen hNow p hp
    have hIn : ∀ reply ∈ before ++ [r],
        (reply.slaves 0 = [2, 3] ∨ reply.slaves 0 = [3, 2]) ∧ reply.buckets = 1 := by
      intro reply hReply
      have hMem : reply ∈ before ++ r :: after := by
        rcases mem_append.mp hReply with hBefore | hLast
        · exact mem_append_left _ hBefore
        · rw [mem_singleton] at hLast
          simp [hLast]
      rw [← hReplies, mem_pair] at hMem
      rcases hMem with rfl | rfl
      · exact ⟨.inl rfl, rfl⟩
      · exact ⟨.inr rfl, rfl⟩
    have hr := hIn r (by simp)
    obtain rfl : b = 0 := by
      have hLt : b < r.buckets := hNow.1
      rw [hr.2] at hLt
      omega
    rcases (hIn earlier hEarlier).1 with h | h <;> rcases hr.1 with h' | h' <;>
      · rw [h] at hp
        rw [h']
        fin_cases hp <;> decide

/-- Server 2 is the slave of node 1 by one table, and server 3 by the next. Node 1 keeps
both as peers. -/
theorem peers_of_earlier_table :
    ∃ node', run StorageNode.hbCallback (StorageNode.start 1 fun _ => SegLog.empty)
        [oneBucketReply 2 [1, 2] [1, 2] (by decide) rfl,
          oneBucketReply 3 [1, 3] [1, 3] (by decide) rfl] = some node' ∧
      node'.peersOf 0 = [2, 3] ∧
      ¬ node'.PeersExact (oneBucketReply 3 [1, 3] [1, 3] (by decide) rfl) := by
  refine ⟨_, rfl, rfl, ?_⟩
  intro hExact
  obtain ⟨-, hSlave⟩ := (hExact 0 ⟨by decide, rfl⟩ 2).mp (by decide)
  exact absurd hSlave (by decide)

end MyBase
