import MyBase.Meta.ServerCheck

/-!
# MyBase — calls that fail to be stored

`addStorageServer` and `createNameSpace` change the system data in memory, serialise it and
put it into the database. When one of the last two fails they return false, and what has
been changed in memory stays. A server that was not stored is then in the list, and adding
it again is refused; a namespace that was not stored has its capacity, and the version that
heartbeats carry has been raised.

* `call_stored_agrees` — with a database that works, the calls are those of `MetaServer`;
* `failed_call_unseen_iff` — a call that returns false leaves no trace just when the server
  was there already (or, for a namespace, nothing was to be changed and the version is at
  its upper end);
* `failed_calls_seen` — a call of each kind that does leave one.
-/

namespace MyBase

open Lib

-- The model

/-- `SysData`. -/
structure SysData where
  nodelist : NodeList
  /-- The capacity of each namespace. -/
  namespaces : OrdMap Nat Nat

/-- The meta server as far as it is about the system data. Versions are `uint32_t`. -/
structure MetaData where
  sysMgr : SysMgr
  sysData : SysData
  /-- `sysData` as it is in the database. -/
  sysDb : SysData
  /-- `TimeHelper::currentSec()`. -/
  now : Nat
  version_lt : sysMgr.tableMgr.namespaceCapacityVersion < 2 ^ 32
  min_lt : sysMgr.minConfigVersion < 2 ^ 32

/-- How `SerializeToString` and `sysDb->Put` end. -/
inductive StoreOutcome
  | serializeFailed
  | putFailed
  | stored
  deriving DecidableEq, Repr

inductive SysCall
  | addStorageServer (srvId : ServerId)
  | createNameSpace (ns capacity : Nat)
  deriving DecidableEq, Repr

theorem SysMgr.incrVersion_lt {s : SysMgr} (h : s.minConfigVersion < 2 ^ 32) (value : Nat) :
    s.incrVersion value < 2 ^ 32 := by
  unfold SysMgr.incrVersion
  dsimp only
  split
  · exact h
  · exact Nat.mod_lt _ (by norm_num)

/-- `(*nmap)[ns] = capacity`. -/
def assign (namespaces : OrdMap Nat Nat) (ns capacity : Nat) : OrdMap Nat Nat :=
  (namespaces.emplace ns capacity).modify ns fun _ => capacity

namespace MetaData

/-- Serialise the system data and put it into the database. -/
def store (st : MetaData) (outcome : StoreOutcome) : Bool × MetaData :=
  match outcome with
  | .serializeFailed => (false, st)
  | .putFailed => (false, st)
  | .stored => (true, { st with sysDb := st.sysData })

def addStorageServer (st : MetaData) (srvId : ServerId) (outcome : StoreOutcome) :
    Bool × MetaData :=
  if (st.sysData.nodelist.find? srvId).isSome then (false, st)
  else
    store { st with
      sysData := { st.sysData with
        nodelist := st.sysData.nodelist.emplace srvId ⟨st.now, .initial⟩ } } outcome

/-- `incrVersion(tableMgr.namespaceCapacityVersion)`. -/
def incrNamespaceVersion (st : MetaData) : MetaData :=
  { st with
    sysMgr := { st.sysMgr with
      tableMgr := { st.sysMgr.tableMgr with
        namespaceCapacityVersion :=
          st.sysMgr.incrVersion st.sysMgr.tableMgr.namespaceCapacityVersion } }
    version_lt := SysMgr.incrVersion_lt st.min_lt _ }

def createNameSpace (st : MetaData) (ns capacity : Nat) (outcome : StoreOutcome) :
    Bool × MetaData :=
  store { st.incrNamespaceVersion with
    sysData := { st.sysData with namespaces := assign st.sysData.namespaces ns capacity } } outcome

def call (st : MetaData) : SysCall → StoreOutcome → Bool × MetaData
  | .addStorageServer srvId, outcome => st.addStorageServer srvId outcome
  | .createNameSpace ns capacity, outcome => st.createNameSpace ns capacity outcome

/-- The version that heartbeats carry. -/
def version (st : MetaData) : Nat := st.sysMgr.tableMgr.namespaceCapacityVersion

/-- The meta server without its namespaces. -/
structure Agrees (st : MetaData) (ms : MetaServer) : Prop where
  sysMgr : ms.sysMgr = st.sysMgr
  nodelist : ms.nodelist = st.sysData.nodelist
  sysDb : ms.sysDb = st.sysDb.nodelist
  now : ms.now = st.now

/-- When the database works the calls are those of `MetaServer`. -/
theorem call_stored_agrees {st : MetaData} {ms : MetaServer} (h : st.Agrees ms) (c : SysCall) :
    (st.call c .stored).2.Agrees (match c with
      | .addStorageServer srvId => ms.addStorageServer srvId
      | .createNameSpace _ _ => ms.createNameSpace) := by
  cases c with
  | addStorageServer srvId =>
    simp only [call, addStorageServer, MetaServer.addStorageServer, h.nodelist]
    split
    · exact h
    · refine ⟨h.sysMgr, ?_, ?_, h.now⟩
      · simp only [store, h.now]
      · simp only [store, h.now]
  | createNameSpace ns capacity =>
    refine ⟨?_, h.nodelist, h.nodelist, h.now⟩
    simp only [call, createNameSpace, store, incrNamespaceVersion, MetaServer.createNameSpace,
      h.sysMgr]

-- Calls that return false

/-- What heartbeats are served is as before, and a call that a working database would have
let succeed still succeeds with one. -/
structure Unseen (st st' : MetaData) (c : SysCall) : Prop where
  nodelist : st'.sysData.nodelist = st.sysData.nodelist
  namespaces : st'.sysData.namespaces = st.sysData.namespaces
  version : st'.version = st.version
  retry : (st.call c .stored).1 = true → (st'.call c .stored).1 = true

/-- The call has nothing to change: the server is in the list; or the namespace has the
capacity, and the version stays where it is, at its upper end. -/
def NothingToChange (st : MetaData) : SysCall → Prop
  | .addStorageServer srvId => (st.sysData.nodelist.find? srvId).isSome = true
  | .createNameSpace ns capacity => st.sysData.namespaces.find? ns = some capacity ∧
    st.version = 2 ^ 32 - 1 ∧ st.sysMgr.minConfigVersion = 2 ^ 32 - 1

variable {st : MetaData}

theorem find?_assign (namespaces : OrdMap Nat Nat) (ns capacity : Nat) :
    (assign namespaces ns capacity).find? ns = some capacity := by
  rw [assign, OrdMap.find?_modify, if_pos rfl, OrdMap.find?_emplace, if_pos rfl]
  rfl

theorem assign_of_find? {namespaces : OrdMap Nat Nat} {ns capacity : Nat}
    (h : namespaces.find? ns = some capacity) : assign namespaces ns capacity = namespaces := by
  refine OrdMap.ext_find? fun k => ?_
  rw [assign, OrdMap.find?_modify, OrdMap.find?_emplace, OrdMap.find?_emplace]
  by_cases hk : k = ns
  · subst hk
    simp [h]
  · simp [hk]

/-- The version stays only at the upper end, with a configured minimum that is the same. -/
theorem incrVersion_eq_iff {s : SysMgr} {value : Nat} (hValue : value < 2 ^ 32)
    (hMin : s.minConfigVersion < 2 ^ 32) :
    s.incrVersion value = value ↔ value = 2 ^ 32 - 1 ∧ s.minConfigVersion = 2 ^ 32 - 1 := by
  unfold SysMgr.incrVersion
  dsimp only
  by_cases hWrap : value + 1 = 2 ^ 32
  · rw [hWrap, Nat.mod_self]
    split <;> omega
  · rw [Nat.mod_eq_of_lt (by omega)]
    split <;> omega

/-- A server that was not there is in the list after the call, whatever became of it. -/
theorem addStorageServer_listed (st : MetaData) (srvId : ServerId) (outcome : StoreOutcome) :
    ((st.addStorageServer srvId outcome).2.sysData.nodelist.find? srvId).isSome = true := by
  unfold addStorageServer
  split
  · assumption
  · have hNew : ((st.sysData.nodelist.emplace srvId ⟨st.now, .initial⟩).find? srvId).isSome =
        true := by
      rw [OrdMap.find?_emplace, if_pos rfl]
      rfl
    cases outcome <;> exact hNew

theorem createNameSpace_sysData (st : MetaData) (ns capacity : Nat) (outcome : StoreOutcome) :
    (st.createNameSpace ns capacity outcome).2.sysData =
      { st.sysData with namespaces := assign st.sysData.namespaces ns capacity } := by
  cases outcome <;> rfl

theorem createNameSpace_version (ns capacity : Nat) (outcome : StoreOutcome) :
    (st.createNameSpace ns capacity outcome).2.version = st.sysMgr.incrVersion st.version := by
  cases outcome <;> rfl

/-- For every state and every call that returns false: what is served is as before and a
retry can succeed just when the call had nothing to change. -/
theorem failed_call_unseen_iff (st : MetaData) (c : SysCall) (outcome : StoreOutcome)
    (hFailed : (st.call c outcome).1 = false) :
    st.Unseen (st.call c outcome).2 c ↔ st.NothingToChange c := by
  cases c with
  | addStorageServer srvId =>
    constructor
    · intro h
      have hListed := addStorageServer_listed st srvId outcome
      rw [show (st.addStorageServer srvId outcome).2.sysData.nodelist = _ from h.nodelist]
        at hListed
      exact hListed
    · intro h
      have hSame : st.addStorageServer srvId outcome = (false, st) := if_pos h
      have hCall : st.call (.addStorageServer srvId) outcome = (false, st) := hSame
      rw [hCall]
      exact ⟨rfl, rfl, rfl, id⟩
  | createNameSpace ns capacity =>
    have hVersion := incrVersion_eq_iff st.version_lt st.min_lt
    constructor
    · intro h
      refine ⟨?_, hVersion.mp ?_⟩
      · have hNew := find?_assign st.sysData.namespaces ns capacity
        have hData := createNameSpace_sysData st ns capacity outcome
        rw [← h.namespaces]
        show (st.createNameSpace ns capacity outcome).2.sysData.namespaces.find? ns = _
        rw [hData]
        exact hNew
      · rw [show st.sysMgr.tableMgr.namespaceCapacityVersion = st.version from rfl,
          ← createNameSpace_version ns capacity outcome]
        exact h.version
    · rintro ⟨hCapacity, hUpper⟩
      refine ⟨?_, ?_, ?_, fun _ => rfl⟩
      · show (st.createNameSpace ns capacity outcome).2.sysData.nodelist = _
        rw [createNameSpace_sysData]
      · show (st.createNameSpace ns capacity outcome).2.sysData.namespaces = _
        rw [createNameSpace_sysData]
        exact assign_of_find? hCapacity
      · show (st.createNameSpace ns capacity outcome).2.version = _
        rw [createNameSpace_version]
        exact hVersion.mpr hUpper

/-- A new meta server for one bucket of one copy. -/
def newMetaData : MetaData where
  sysMgr := SysMgr.created 1 1 Nat.one_pos Nat.one_pos (by norm_num) 10
  sysData := ⟨∅, ∅⟩
  sysDb := ⟨∅, ∅⟩
  now := 100
  version_lt := by
    show 1 < 2 ^ 32
    norm_num
  min_lt := by
    show max 10 sMinConfigVersion < 2 ^ 32
    norm_num [sMinConfigVersion]

/-- The server has been added, and is added again. -/
theorem existing_server_unseen :
    (newMetaData.addStorageServer 5 .stored).2.Unseen
      ((newMetaData.addStorageServer 5 .stored).2.call (.addStorageServer 5) .putFailed).2
      (.addStorageServer 5) :=
  (failed_call_unseen_iff (newMetaData.addStorageServer 5 .stored).2 (.addStorageServer 5)
    .putFailed rfl).mpr rfl

/-- The database does not take server 5: it is in the list all the same, and a retry is
refused. It does not take namespace 1: its capacity is served, under a new version. -/
theorem failed_calls_seen :
    (newMetaData.call (.addStorageServer 5) .putFailed).1 = false ∧
      ((newMetaData.call (.addStorageServer 5) .putFailed).2.sysData.nodelist.find? 5).isSome ∧
      ((newMetaData.call (.addStorageServer 5) .putFailed).2.call (.addStorageServer 5)
        .stored).1 = false ∧
      (newMetaData.call (.createNameSpace 1 7) .putFailed).1 = false ∧
      (newMetaData.call (.createNameSpace 1 7) .putFailed).2.sysData.namespaces.find? 1 = some 7 ∧
      newMetaData.version = 1 ∧
      (newMetaData.call (.createNameSpace 1 7) .putFailed).2.version = 10 :=
  ⟨rfl, rfl, rfl, rfl, rfl, rfl, rfl⟩

end MetaData

end MyBase
