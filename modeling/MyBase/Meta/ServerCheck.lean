import MyBase.Meta.Served

/-!
# MyBase — how the meta server notices that a server is gone

The meta server keeps a list of the storage servers with a status and the time of the
last heartbeat. A heartbeat makes a server `Alive`; `serverCheck`, once a second, makes
a server `Down` that has been silent for four seconds and publishes a quick table. The
list is written to the database when a server or a namespace is added, and read back
when the process starts.

* `Watched.checkNodes` — a pass keeps the tables served (`Served`), one failure after the
  other, and leaves no server `Alive` that has expired;
* `Watched` — what every step keeps: the tables are served with respect to the servers
  that are `Alive`, and an `Alive` server has been heard of since the start or was given
  its time by it;
* `no_silent_master` — in every run in which no `Alive` server is forgotten by a
  restart, after a pass no silent server is the master of a bucket that has a server
  that is `Alive`.

The status is not written to the database when it changes. A server that was added, came
up and got buckets is `Initial` again after a restart; if it is silent from then on it
never becomes `Down` (`silent_master_after_restart`).
-/

namespace MyBase

open Lib

-- The model

/-- `ServerInfo::Status`. -/
inductive ServerStatus
  | alive
  | down
  | forceDown
  | initial
  deriving DecidableEq, Repr

/-- `ServerInfo`; the server's id is the key it is stored under. -/
structure ServerInfo where
  lasttime : Nat
  status : ServerStatus
  deriving DecidableEq, Repr

/-- `nodelist` of `SysData`. -/
abbrev NodeList := OrdMap ServerId ServerInfo

def NodeList.Alive (nodes : NodeList) (id : ServerId) : Prop :=
  (nodes.find? id).map ServerInfo.status = some .alive

instance (nodes : NodeList) (id : ServerId) : Decidable (nodes.Alive id) := by
  unfold NodeList.Alive
  infer_instance

/-- `getUpNode`. The order of the list does not matter: it is entered in a map. -/
def getUpNode (nodes : NodeList) : List ServerId :=
  (nodes.entries.filter fun e => e.2.status = .alive).map Prod.fst

/-- The meta server, its database and the clock. -/
structure MetaServer where
  sysMgr : SysMgr
  nodelist : NodeList
  /-- `sysData` as it is in the database. -/
  sysDb : NodeList
  /-- `TimeHelper::currentSec()`. -/
  now : Nat
  /-- When the process was started. -/
  started : Nat
  /-- When each server sent its last heartbeat; no code reads this. -/
  heard : ServerId → Option Nat

namespace MetaServer

def addStorageServer (ms : MetaServer) (id : ServerId) : MetaServer :=
  if (ms.nodelist.find? id).isSome then ms
  else
    let nodelist := ms.nodelist.emplace id ⟨ms.now, .initial⟩
    { ms with nodelist := nodelist, sysDb := nodelist }

/-- `doHeartbeat`: a server that is not in the list is ignored. -/
def doHeartbeat (ms : MetaServer) (id : ServerId) : MetaServer :=
  { ms with
    nodelist := ms.nodelist.modify id fun _ => ⟨ms.now, .alive⟩
    heard := Function.update ms.heard id (some ms.now) }

/-- `createNameSpace`, as far as it is about servers. -/
def createNameSpace (ms : MetaServer) : MetaServer :=
  { ms with
    sysMgr := { ms.sysMgr with
      tableMgr := { ms.sysMgr.tableMgr with
        namespaceCapacityVersion :=
          ms.sysMgr.incrVersion ms.sysMgr.tableMgr.namespaceCapacityVersion } }
    sysDb := ms.nodelist }

/-- `serverCheck` finds that a server is gone. -/
def Expired (now : Nat) (info : ServerInfo) : Prop :=
  info.status = .alive ∧ now > info.lasttime ∧ now - info.lasttime ≥ 4

instance (now : Nat) (info : ServerInfo) : Decidable (Expired now info) := by
  unfold Expired
  infer_instance

/-- The body of the loop of `serverCheck`. -/
def checkNode (ms : MetaServer) (id : ServerId) : MetaServer :=
  match ms.nodelist.find? id with
  | none => ms
  | some info =>
    if Expired ms.now info then
      let nodelist := ms.nodelist.modify id fun info => { info with status := .down }
      { ms with
        nodelist := nodelist
        sysMgr := ms.sysMgr.rebuildQuickTable (getUpNode nodelist) }
    else ms

/-- A pass of `serverCheck` that finds the servers in the given order; `none` when the
assertion of `checkMigrateComplete` fails. -/
def serverCheck (ms : MetaServer) (order : List ServerId) : Option MetaServer :=
  let ms := order.foldl checkNode ms
  ms.sysMgr.checkMigrateComplete.map fun sys => { ms with sysMgr := sys }

/-- `loadSysData`. -/
def loadSysData (now : Nat) (nodes : NodeList) : NodeList :=
  nodes.mapValues fun info => if info.status = .alive then { info with lasttime := now } else info

/-- The process ends and is started on the table file and the database. -/
def restart (ms : MetaServer) (minConfigVersion : Nat) : MetaServer :=
  { ms with
    sysMgr := SysMgr.opened ms.sysMgr.tableMgr minConfigVersion
    nodelist := loadSysData ms.now ms.sysDb
    started := ms.now }

/-- The first start, without files. -/
def created (bucketCount copyCount : Nat) (hBuckets : 0 < bucketCount) (hCopies : 0 < copyCount)
    (hFits : 24 * (copyCount * bucketCount) + 36 < 2 ^ 31) (minConfigVersion now : Nat) :
    MetaServer where
  sysMgr := SysMgr.created bucketCount copyCount hBuckets hCopies hFits minConfigVersion
  nodelist := ∅
  sysDb := ∅
  now := now
  started := now
  heard := fun _ => none

end MetaServer

inductive MetaAction
  | tick
  | addStorageServer (id : ServerId)
  | doHeartbeat (id : ServerId)
  | createNameSpace
  | serverCheck (order : List ServerId)
  | rebuild (rand : Nat → Nat) (fuel : Nat)
  | finishMigrate (bucketId : Nat) (serverId : ServerId)
  | restart (minConfigVersion : Nat)

namespace MetaServer

/-- One step. The map of servers is iterated in any order. -/
def step (ms : MetaServer) : MetaAction → Option MetaServer
  | .tick => some { ms with now := ms.now + 1 }
  | .addStorageServer id => some (ms.addStorageServer id)
  | .doHeartbeat id => some (ms.doHeartbeat id)
  | .createNameSpace => some ms.createNameSpace
  | .serverCheck order => if order.Perm ms.nodelist.keys then ms.serverCheck order else none
  | .rebuild rand fuel =>
    (ms.sysMgr.rebuild (getUpNode ms.nodelist) rand fuel).map fun sys => { ms with sysMgr := sys }
  | .finishMigrate bucketId serverId =>
    (ms.sysMgr.setMigratingHashtable bucketId serverId).map fun sys => { ms with sysMgr := sys }
  | .restart minConfigVersion => some (ms.restart minConfigVersion)

/-- No heartbeat of the server for four seconds or more. -/
def Silent (ms : MetaServer) (id : ServerId) : Prop := ∀ t ∈ ms.heard id, t + 4 ≤ ms.now

instance (ms : MetaServer) (id : ServerId) : Decidable (ms.Silent id) :=
  decidable_of_iff (((ms.heard id).all fun t => decide (t + 4 ≤ ms.now)) = true) <| by
    unfold Silent
    cases ms.heard id <;> simp

/-- What the results below ask of a step: a restart finds every server `Alive` that is,
a report is for a bucket of the table, and 0 is not the id of a server. -/
def Remembers (ms : MetaServer) : MetaAction → Prop
  | .addStorageServer id => id ≠ invalidFlag
  | .finishMigrate b server => ms.sysMgr.Accepts b server → b < ms.sysMgr.tableMgr.serverBucketCount
  | .restart _ => ∀ id ∈ getUpNode ms.nodelist, ms.sysDb.Alive id
  | _ => True

instance (ms : MetaServer) (a : MetaAction) : Decidable (ms.Remembers a) := by
  cases a <;> unfold Remembers <;> infer_instance

-- Servers that are alive

variable {nodes : NodeList} {id node : ServerId}

theorem alive_iff : nodes.Alive id ↔ ∃ info, nodes.find? id = some info ∧ info.status = .alive := by
  rw [NodeList.Alive, Option.map_eq_some_iff]

theorem mem_getUpNode : id ∈ getUpNode nodes ↔ nodes.Alive id := by
  rw [alive_iff, getUpNode, List.mem_map]
  constructor
  · rintro ⟨⟨id', info⟩, hMem, rfl⟩
    obtain ⟨hEntry, hAlive⟩ := List.mem_filter.mp hMem
    exact ⟨info, OrdMap.find?_of_mem hEntry, of_decide_eq_true hAlive⟩
  · rintro ⟨info, hFind, hAlive⟩
    exact ⟨(id, info), List.mem_filter.mpr ⟨OrdMap.mem_of_find? hFind, decide_eq_true hAlive⟩, rfl⟩

theorem alive_modify_alive (now : Nat) (h : nodes.Alive node) :
    NodeList.Alive (nodes.modify id fun _ => ⟨now, .alive⟩) node := by
  obtain ⟨info, hFind, hAlive⟩ := alive_iff.mp h
  rw [alive_iff, OrdMap.find?_modify]
  split
  · rename_i hNode
    exact ⟨⟨now, .alive⟩, by rw [← hNode, hFind]; rfl, rfl⟩
  · exact ⟨info, hFind, hAlive⟩

theorem alive_modify_down (h : nodes.Alive node) :
    node = id ∨
      NodeList.Alive (nodes.modify id fun info => { info with status := .down }) node := by
  by_cases hNode : node = id
  · exact Or.inl hNode
  · refine Or.inr ?_
    rwa [NodeList.Alive, OrdMap.find?_modify, if_neg hNode]

theorem alive_emplace (info : ServerInfo) (h : nodes.Alive node) :
    NodeList.Alive (nodes.emplace id info) node := by
  obtain ⟨info', hFind, hAlive⟩ := alive_iff.mp h
  rw [alive_iff, OrdMap.find?_emplace]
  split
  · rename_i hNode
    exact ⟨info', by rw [← hNode, hFind]; rfl, hAlive⟩
  · exact ⟨info', hFind, hAlive⟩

theorem alive_loadSysData (now : Nat) (h : nodes.Alive id) :
    NodeList.Alive (loadSysData now nodes) id := by
  obtain ⟨info, hFind, hAlive⟩ := alive_iff.mp h
  rw [alive_iff, loadSysData, OrdMap.find?_mapValues, hFind]
  exact ⟨{ info with lasttime := now }, by simp [hAlive], hAlive⟩

-- The invariant

/-- The tables are served, as seen by the list of servers, and what the list says about
an `Alive` server is a heartbeat or the start of the process. -/
structure Watched (ms : MetaServer) : Prop where
  copies : 2 ≤ ms.sysMgr.tableMgr.serverCopyCount
  served : ms.sysMgr.Served ms.nodelist.Alive
  nonzero : ms.nodelist.find? invalidFlag = none
  savedNonzero : ms.sysDb.find? invalidFlag = none
  fresh : ∀ id info, ms.nodelist.find? id = some info → info.status = .alive →
    info.lasttime ≤ ms.started ∨ ms.heard id = some info.lasttime

section Steps

variable {ms ms' : MetaServer} {a : MetaAction}

variable (h : ms.Watched)
include h

theorem Watched.zero_dead : ¬ ms.nodelist.Alive invalidFlag := by
  rw [NodeList.Alive, h.nonzero]
  simp

theorem Watched.zero_not_up : invalidFlag ∉ getUpNode ms.nodelist :=
  fun hUp => h.zero_dead (mem_getUpNode.mp hUp)

/-- What a pass leaves alone. -/
structure Passed (ms ms' : MetaServer) : Prop where
  now : ms'.now = ms.now
  started : ms'.started = ms.started
  heard : ms'.heard = ms.heard
  keys : ms'.nodelist.keys = ms.nodelist.keys
  expired : ∀ id info, ms'.nodelist.find? id = some info → Expired ms'.now info →
    ms.nodelist.find? id = some info

omit h in
theorem Passed.refl (ms : MetaServer) : Passed ms ms := ⟨rfl, rfl, rfl, rfl, fun _ _ h _ => h⟩

omit h in
theorem Passed.trans {ms'' : MetaServer} (h : Passed ms ms') (h' : Passed ms' ms'') :
    Passed ms ms'' where
  now := h'.now.trans h.now
  started := h'.started.trans h.started
  heard := h'.heard.trans h.heard
  keys := h'.keys.trans h.keys
  expired := fun id info hFind hExpired =>
    h.expired id info (h'.expired id info hFind hExpired) (h'.now ▸ hExpired)

/-- **Step lemma.** One server is looked at. -/
theorem Watched.checkNode (id : ServerId) :
    (ms.checkNode id).Watched ∧ Passed ms (ms.checkNode id) ∧
      ∀ info, (ms.checkNode id).nodelist.find? id = some info → ¬ Expired ms.now info := by
  unfold MetaServer.checkNode
  split
  · rename_i hNone
    refine ⟨h, Passed.refl ms, fun info hFind => ?_⟩
    rw [hNone] at hFind
    cases hFind
  · rename_i info hFind
    split
    · have hModify : ∀ node info', (ms.nodelist.modify id fun info =>
          { info with status := .down }).find? node = some info' → info'.status = .alive →
          ms.nodelist.find? node = some info' ∧ node ≠ id := by
        intro node info' hFind' hAlive'
        rw [OrdMap.find?_modify] at hFind'
        split at hFind'
        · obtain ⟨info₀, -, rfl⟩ := Option.map_eq_some_iff.mp hFind'
          cases hAlive'
        · rename_i hNe
          exact ⟨hFind', hNe⟩
      refine ⟨⟨h.copies, ?_, ?_, h.savedNonzero, ?_⟩,
        ⟨rfl, rfl, rfl, OrdMap.keys_modify .., ?_⟩, ?_⟩
      · have hLost : ∀ node, ms.nodelist.Alive node → node = id ∨
            node ∈ getUpNode (ms.nodelist.modify id fun info => { info with status := .down }) :=
          fun node hNode => (alive_modify_down hNode).imp_right mem_getUpNode.mpr
        exact (h.served.quick h.copies hLost).mono fun node hNode => mem_getUpNode.mp hNode
      · exact OrdMap.find?_modify_of_none h.nonzero id _
      · intro node info' hFind' hAlive'
        exact h.fresh node info' (hModify node info' hFind' hAlive').1 hAlive'
      · intro node info' hFind' hExpired
        exact (hModify node info' hFind' hExpired.1).1
      · intro info' hFind' hExpired
        exact (hModify id info' hFind' hExpired.1).2 rfl
    · rename_i hAlive
      refine ⟨h, Passed.refl ms, fun info' hFind' => ?_⟩
      rw [hFind] at hFind'
      cases hFind'
      exact hAlive

/-- **Run lemma.** The loop of a pass. -/
theorem Watched.checkNodes (order : List ServerId) :
    (order.foldl MetaServer.checkNode ms).Watched ∧
      Passed ms (order.foldl MetaServer.checkNode ms) ∧
      ∀ id ∈ order, ∀ info, (order.foldl MetaServer.checkNode ms).nodelist.find? id = some info →
        ¬ Expired ms.now info := by
  induction order generalizing ms with
  | nil => exact ⟨h, Passed.refl ms, fun id hId => absurd hId List.not_mem_nil⟩
  | cons id order ih =>
    obtain ⟨hWatched, hPassed, hHere⟩ := h.checkNode id
    obtain ⟨hWatched', hPassed', hRest⟩ := ih hWatched
    refine ⟨hWatched', hPassed.trans hPassed', ?_⟩
    intro id' hId' info hFind hExpired
    rw [List.foldl_cons] at hFind
    rcases List.mem_cons.mp hId' with rfl | hMem
    · have hNow : Expired (order.foldl MetaServer.checkNode (ms.checkNode id')).now info := by
        rwa [hPassed'.now, hPassed.now]
      exact hHere info (hPassed'.expired id' info hFind hNow) hExpired
    · exact hRest id' hMem info hFind (hPassed.now ▸ hExpired)

/-- The tables are changed by one of the operations on them. -/
theorem Watched.does {sys : SysMgr} {sysAction : SysAction} (hDoes : ms.sysMgr.Does sysAction sys)
    (hUp : ∀ upnodeList rand fuel, sysAction = .rebuild upnodeList rand fuel →
      upnodeList = getUpNode ms.nodelist)
    (hReport : ∀ b server, sysAction = .setMigratingHashtable b server →
      ms.sysMgr.Accepts b server → b < ms.sysMgr.tableMgr.serverBucketCount)
    (hNotQuick : ∀ upnodeList, sysAction ≠ .rebuildQuickTable upnodeList) :
    2 ≤ sys.tableMgr.serverCopyCount ∧ sys.Served ms.nodelist.Alive := by
  have hAlive : ∀ node, ms.nodelist.Alive node →
      node = invalidFlag ∨ node ∈ getUpNode ms.nodelist :=
    fun node hNode => Or.inr (mem_getUpNode.mpr hNode)
  cases hDoes with
  | unchanged => exact ⟨h.copies, h.served⟩
  | rebuilt hOk =>
    obtain rfl := hUp _ _ _ rfl
    refine ⟨?_, ?_⟩
    · rw [SysMgr.writeTables_copyCount]
      exact h.copies
    · exact (h.served.rebuilt h.copies hAlive h.zero_not_up hOk).mono
        fun node hNode => mem_getUpNode.mp hNode
  | quick => exact absurd rfl (hNotQuick _)
  | turnedAway _ => exact ⟨h.copies, h.served⟩
  | repeated _ _ => exact ⟨h.copies, h.served⟩
  | @reported b server count hAccepts hChanged hFind =>
    have hb := hReport b server rfl hAccepts
    refine ⟨?_, h.served.report hb⟩
    exact h.copies.trans_eq (TableMgr.setMigratingRow_spec _ hb).header.copyCount.symm
  | waiting _ => exact ⟨h.copies, h.served⟩
  | completed _ _ hSame => exact ⟨h.copies, h.served.complete hSame⟩
  | restarted => exact ⟨h.copies, h.served.rows, h.served.masters⟩

/-- The list of servers stays, and the tables go on being served. -/
theorem Watched.withSysMgr {sys : SysMgr}
    (hSys : 2 ≤ sys.tableMgr.serverCopyCount ∧ sys.Served ms.nodelist.Alive) :
    Watched { ms with sysMgr := sys } :=
  ⟨hSys.1, hSys.2, h.nonzero, h.savedNonzero, h.fresh⟩

theorem Watched.addStorageServer {id : ServerId} (hId : id ≠ invalidFlag) :
    (ms.addStorageServer id).Watched := by
  unfold MetaServer.addStorageServer
  split
  · exact h
  · rename_i hNew
    have hNone : ms.nodelist.find? id = none := by simpa using hNew
    have hZero : (ms.nodelist.emplace id ⟨ms.now, .initial⟩).find? invalidFlag = none := by
      rw [OrdMap.find?_emplace, if_neg (Ne.symm hId), h.nonzero]
    refine ⟨h.copies, h.served.mono fun node hNode => alive_emplace _ hNode, hZero, hZero, ?_⟩
    intro node info hFind hAlive
    rw [OrdMap.find?_emplace] at hFind
    split at hFind
    · rw [hNone] at hFind
      cases hFind
      cases hAlive
    · exact h.fresh node info hFind hAlive

theorem Watched.doHeartbeat (id : ServerId) : (ms.doHeartbeat id).Watched := by
  refine ⟨h.copies, h.served.mono fun node hNode => alive_modify_alive _ hNode, ?_,
    h.savedNonzero, ?_⟩
  · exact OrdMap.find?_modify_of_none h.nonzero id _
  · intro node info hFind hAlive
    show _ ∨ Function.update ms.heard id (some ms.now) node = some info.lasttime
    change OrdMap.find? (ms.nodelist.modify id _) node = some info at hFind
    rw [OrdMap.find?_modify] at hFind
    split at hFind
    · rename_i hNode
      obtain ⟨info₀, -, rfl⟩ := Option.map_eq_some_iff.mp hFind
      right
      rw [hNode, Function.update_self]
    · rename_i hNode
      rw [Function.update_of_ne hNode]
      exact h.fresh node info hFind hAlive

/-- A restart that forgets no server: all that are `Alive` have just been heard of. -/
theorem Watched.restart (cfg : Nat) (hSaved : ∀ id ∈ getUpNode ms.nodelist, ms.sysDb.Alive id) :
    (ms.restart cfg).Watched := by
  have hServed : (SysMgr.opened ms.sysMgr.tableMgr cfg).Served ms.nodelist.Alive :=
    ⟨h.served.rows, h.served.masters⟩
  refine ⟨h.copies, hServed.mono fun node hNode =>
    alive_loadSysData _ (hSaved node (mem_getUpNode.mpr hNode)), ?_, h.savedNonzero, ?_⟩
  · show OrdMap.find? (loadSysData ms.now ms.sysDb) invalidFlag = none
    rw [loadSysData, OrdMap.find?_mapValues, h.savedNonzero]
    rfl
  · intro node info hFind hAlive
    left
    change OrdMap.find? (loadSysData ms.now ms.sysDb) node = some info at hFind
    rw [loadSysData, OrdMap.find?_mapValues] at hFind
    obtain ⟨info₀, -, rfl⟩ := Option.map_eq_some_iff.mp hFind
    show (if info₀.status = .alive then { info₀ with lasttime := ms.now } else info₀).lasttime ≤
      ms.now
    split
    · exact le_rfl
    · rename_i hNot
      rw [if_neg hNot] at hAlive
      exact absurd hAlive hNot

theorem Watched.serverCheck {order : List ServerId} (hOrder : order.Perm ms.nodelist.keys)
    (hCheck : ms.serverCheck order = some ms') :
    ms'.Watched ∧ ∀ id info, ms'.nodelist.find? id = some info → ¬ Expired ms'.now info := by
  obtain ⟨hWatched, hPassed, hNone⟩ := h.checkNodes order
  obtain ⟨sys, hSys, rfl⟩ := Option.map_eq_some_iff.mp hCheck
  have hDoes := SysMgr.does_of_step (a := .checkMigrateComplete) hSys
  refine ⟨hWatched.withSysMgr (hWatched.does hDoes (by simp) (by simp) (by simp)), ?_⟩
  intro id info hFind hExpired
  have hKey : id ∈ order := by
    rw [hOrder.mem_iff, ← hPassed.keys, ← OrdMap.find?_isSome_iff]
    exact Option.isSome_iff_exists.mpr ⟨info, hFind⟩
  exact hNone id hKey info hFind (hPassed.now ▸ hExpired)

/-- **Step lemma.** -/
theorem Watched.step (hRemembers : ms.Remembers a) (hStep : ms.step a = some ms') :
    ms'.Watched := by
  cases a with
  | tick =>
    cases hStep
    exact ⟨h.copies, h.served, h.nonzero, h.savedNonzero, h.fresh⟩
  | addStorageServer id =>
    cases hStep
    exact h.addStorageServer hRemembers
  | doHeartbeat id =>
    cases hStep
    exact h.doHeartbeat id
  | createNameSpace =>
    cases hStep
    exact ⟨h.copies, ⟨h.served.rows, h.served.masters⟩, h.nonzero, h.nonzero, h.fresh⟩
  | serverCheck order =>
    simp only [MetaServer.step] at hStep
    split at hStep
    · rename_i hOrder
      exact (h.serverCheck hOrder hStep).1
    · cases hStep
  | rebuild rand fuel =>
    obtain ⟨sys, hSys, rfl⟩ := Option.map_eq_some_iff.mp hStep
    have hDoes := SysMgr.does_of_step (a := .rebuild (getUpNode ms.nodelist) rand fuel) hSys
    refine h.withSysMgr (h.does hDoes ?_ (by simp) (by simp))
    rintro _ _ _ ⟨⟩
    rfl
  | finishMigrate b server =>
    obtain ⟨sys, hSys, rfl⟩ := Option.map_eq_some_iff.mp hStep
    have hDoes := SysMgr.does_of_step (a := .setMigratingHashtable b server) hSys
    refine h.withSysMgr (h.does hDoes (by simp) ?_ (by simp))
    rintro _ _ ⟨⟩
    exact hRemembers
  | restart cfg =>
    cases hStep
    exact h.restart cfg hRemembers

end Steps

theorem created_watched (bucketCount copyCount : Nat) (hBuckets : 0 < bucketCount)
    (hCopies : 2 ≤ copyCount) (hFits : 24 * (copyCount * bucketCount) + 36 < 2 ^ 31)
    (minConfigVersion now : Nat) :
    (created bucketCount copyCount hBuckets (by omega) hFits minConfigVersion now).Watched := by
  have hZero : ∀ kind p b, (TableMgr.create bucketCount copyCount hBuckets (by omega) hFits).table
      kind p b = invalidFlag := by
    intro kind p b
    simp [TableMgr.table, TableMgr.cell, TableMgr.word, TableMgr.create, invalidFlag]
  refine ⟨hCopies, ⟨?_, ?_⟩, rfl, rfl, ?_⟩
  · intro kind _ b _
    exact RowServed.of_empty fun p _ => hZero kind p b
  · intro b _
    exact Or.inr fun kind _ p _ => Or.inl (hZero kind p b)
  · intro id info hFind
    cases hFind

/-- In every run from a new file in which restarts forget no server that is `Alive`,
after every pass of `serverCheck` four seconds or more after the start: a bucket whose
`mHashTable` row names another server that is `Alive` has as master in `hashTable` a
server that sent a heartbeat in the last four seconds. -/
theorem no_silent_master (bucketCount copyCount : Nat) (hBuckets : 0 < bucketCount)
    (hCopies : 2 ≤ copyCount) (hFits : 24 * (copyCount * bucketCount) + 36 < 2 ^ 31)
    (minConfigVersion now : Nat) {acts : List MetaAction} {order : List ServerId} {ms : MetaServer}
    (hAlong : Along step Remembers
      (created bucketCount copyCount hBuckets (by omega) hFits minConfigVersion now) acts)
    (hRun : run step (created bucketCount copyCount hBuckets (by omega) hFits minConfigVersion now)
      (acts ++ [.serverCheck order]) = some ms)
    (hStarted : ms.started + 4 ≤ ms.now) {b : Nat}
    (hb : b < ms.sysMgr.tableMgr.serverBucketCount) {p : Nat}
    (hp : p < ms.sysMgr.tableMgr.serverCopyCount)
    (hAlive : ms.nodelist.Alive (ms.sysMgr.tableMgr.mHashTable p b))
    (hOther : ms.sysMgr.tableMgr.mHashTable p b ≠ ms.sysMgr.tableMgr.hashTable 0 b) :
    ¬ ms.Silent (ms.sysMgr.tableMgr.hashTable 0 b) := by
  obtain ⟨ms₁, hBefore, hLast⟩ := run_append.mp hRun
  obtain ⟨ms₂, hStep, hNil⟩ := run_cons_eq_some.mp hLast
  cases hNil
  have hWatched : ms₁.Watched := run_invariant
    (fun _ _ _ hRemembers hInv hStep => hInv.step hRemembers hStep)
    (created_watched bucketCount copyCount hBuckets hCopies hFits minConfigVersion now) hAlong
    hBefore
  simp only [step] at hStep
  split at hStep
  · rename_i hOrder
    obtain ⟨hAfter, hChecked⟩ := hWatched.serverCheck hOrder hStep
    have hMaster : ms.nodelist.Alive (ms.sysMgr.tableMgr.hashTable 0 b) := by
      refine (hAfter.served.masters b hb).resolve_right fun hLone => ?_
      rcases hLone .mig (by simp) p hp with hEmpty | hSame
      · exact hAfter.zero_dead (hEmpty ▸ hAlive)
      · exact hOther hSame
    obtain ⟨info, hFind, hStatus⟩ := alive_iff.mp hMaster
    have hNotExpired := hChecked _ info hFind
    rcases hAfter.fresh _ info hFind hStatus with hOld | hHeard
    · exact absurd ⟨hStatus, by omega, by omega⟩ hNotExpired
    · intro hSilent
      have hLate := hSilent info.lasttime hHeard
      exact hNotExpired ⟨hStatus, by omega, by omega⟩
  · cases hStep

/-- Servers 1 and 2 are added, come up and share a bucket. The meta server is restarted;
in its database both are `Initial`. Server 2 goes on sending heartbeats, server 1 is gone:
five seconds after the start it is the published master still. -/
theorem silent_master_after_restart :
    ∃ ms, run step (created 1 2 (by decide) (by decide) (by decide) 10 0)
        [.addStorageServer 1, .addStorageServer 2, .doHeartbeat 1, .doHeartbeat 2,
          .rebuild (fun _ => 0) 3, .restart 10, .tick, .tick, .tick, .tick, .tick,
          .doHeartbeat 2, .serverCheck [1, 2]] = some ms ∧
      ms.started + 4 ≤ ms.now ∧ ms.sysMgr.tableMgr.hashTable 0 0 = 1 ∧ ms.Silent 1 ∧
      ms.sysMgr.tableMgr.mHashTable 1 0 = 2 ∧ ms.nodelist.Alive 2 :=
  run_reaches (by decide +kernel)

/-- Without a restart server 2 is promoted when server 1 is silent, and server 3 takes
the free place. -/
theorem no_silent_master_one_bucket :
    ∃ ms, run step (created 1 2 (by decide) (by decide) (by decide) 10 0)
        ([.addStorageServer 1, .addStorageServer 2, .addStorageServer 3, .doHeartbeat 1,
          .doHeartbeat 2, .rebuild (fun _ => 0) 3, .tick, .tick, .tick, .tick, .tick,
          .doHeartbeat 2, .doHeartbeat 3, .serverCheck [1, 2, 3], .rebuild (fun _ => 0) 3,
          .finishMigrate 0 2] ++ [.serverCheck [3, 1, 2]]) = some ms ∧
      ms.sysMgr.tableMgr.hashTable 0 0 = 2 ∧ ¬ ms.Silent 2 := by
  refine run_reaches_then (Q := fun ms => ms.started + 4 ≤ ms.now ∧
    0 < ms.sysMgr.tableMgr.serverBucketCount ∧ 1 < ms.sysMgr.tableMgr.serverCopyCount ∧
    ms.sysMgr.tableMgr.hashTable 0 0 = 2 ∧ ms.nodelist.Alive (ms.sysMgr.tableMgr.mHashTable 1 0) ∧
    ms.sysMgr.tableMgr.mHashTable 1 0 = 3) (by decide +kernel) ?_
  rintro ms hRun ⟨hStarted, hb, hp, hMaster, hAlive, hSlave⟩
  refine ⟨hMaster, ?_⟩
  rw [← hMaster]
  exact no_silent_master 1 2 (by decide) (by decide) (by decide) 10 0 (by decide +kernel) hRun
    hStarted hb hp hAlive (by rw [hSlave, hMaster]; decide)

end MetaServer

end MyBase
