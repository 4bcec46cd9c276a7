import MyBase.Lib.Draw
import MyBase.Lib.OrdMap
import MyBase.Lib.Run

/-!
# MyBase — rebuilding the routing table

`TableBuilder::rebuildTableNew` assigns servers to the copies of every bucket. It
works on a copy of the old table in four phases: it fills the empty slots of each
bucket whose master is alive (sometimes making the master a slave first), or fills
a whole table whose masters are all empty; then it moves master buckets and then
slave buckets away from servers that have too many. Each move is a search over the
servers in order of load, at random among servers with equal load.

A server id stands for the pair `server_id_type`: its second component is the id
under `posMask`, so two pairs with equal ids are equal and the order of the pairs
is the order of the ids.

The counters are integers. They decide which server is chosen and when the loops end; with
fewer than `2 ^ 31` copies they stay in the range of an `int32_t`.
`getNode` is `Lib.draw`, with the results of `rand()` given as a stream.
-/

namespace MyBase

open Lib

abbrev ServerId := Nat

def invalidFlag : ServerId := 0

/-- The server of a copy of a bucket; copy 0 is the master. -/
abbrev HashTable := Nat → Nat → ServerId

/-- `table[position][bucket] = node`. -/
def HashTable.set (t : HashTable) (position bucket : Nat) (node : ServerId) : HashTable :=
  Function.update t position (Function.update (t position) bucket node)

/-- Results of `rebuildTableNew`, which never returns `BUILD_QUICK`. Its caller
drops the table unless it is told `BUILD_OK`. -/
inductive BuildResult
  | error
  | ok (table : HashTable)
  | noChange

structure TableBuilder where
  bucketCount : Nat
  copyCount : Nat
  /-- A `std::set`. -/
  availableServer : OrdMap ServerId Unit

/-- The set that `setAvailableServer` builds. -/
def setAvailableServer (ids : List ServerId) : OrdMap ServerId Unit :=
  ids.foldl (fun servers id => servers.emplace id ()) ∅

/-- The members of a `TableBuilder` that one call of `rebuildTableNew` works on.
Those that exist for masters and for all copies are indexed by `master_flag`. -/
structure Rebuild where
  table : HashTable
  /-- `m_node_flag` and `s_node_flag`. -/
  nodeFlag : Bool → OrdMap ServerId Int
  /-- `m_migrate_node_info` and `s_migrate_node_info`. -/
  migrateNodeInfo : Bool → OrdMap ServerId Int
  /-- `m_buckets_set` and `s_buckets_set`: bucket and position, by server. -/
  bucketsSet : Bool → OrdMap ServerId (OrdMap Nat Nat)
  /-- `maxMasterCount` and `maxBucketCount`. -/
  maxCount : Bool → Int
  /-- Results of `rand()` used so far. -/
  drawn : Nat

-- Counters and bucket sets

/-- The value a `std::map` with default 0 has for a key. -/
def valueAt (m : OrdMap ServerId Int) (node : ServerId) : Int := (m.find? node).getD 0

def incrNodeCount (node : ServerId) (m : OrdMap ServerId Int) : OrdMap ServerId Int :=
  if node = invalidFlag then m else m.modify node (· + 1)

def decrNodeCount (node : ServerId) (m : OrdMap ServerId Int) : OrdMap ServerId Int :=
  if node = invalidFlag then m else m.modify node (· - 1)

/-- `sortMapByValue`: a multimap from value to key keeps equal values in the order
they are inserted, which is the order of the keys. -/
def sortMapByValue (m : OrdMap ServerId Int) : List (Int × ServerId) :=
  (m.entries.map Prod.swap).insertionSort fun a b => a.1 ≤ b.1

def insertBucketMap (node : ServerId) (bucket position : Nat)
    (sets : OrdMap ServerId (OrdMap Nat Nat)) : OrdMap ServerId (OrdMap Nat Nat) :=
  (sets.emplace node ∅).modify node fun buckets => buckets.emplace bucket position

def eraseBucketMap (node : ServerId) (bucket : Nat)
    (sets : OrdMap ServerId (OrdMap Nat Nat)) : OrdMap ServerId (OrdMap Nat Nat) :=
  sets.modify node fun buckets => buckets.erase bucket

/-- The servers of a sorted multimap, in sets of equal value. -/
def serversByValue (sorted : List (Int × ServerId)) : List (List ServerId) :=
  (equalRanges Prod.fst sorted).map (List.map Prod.snd)

/-- The low 32 bits of an unsigned number as an `int32_t`. -/
def toInt32 (n : Nat) : Int := (BitVec.ofNat 32 n).toInt

namespace Rebuild

def mapMigrate (st : Rebuild) (masterFlag : Bool)
    (f : OrdMap ServerId Int → OrdMap ServerId Int) : Rebuild :=
  { st with
    migrateNodeInfo := Function.update st.migrateNodeInfo masterFlag
      (f (st.migrateNodeInfo masterFlag)) }

def mapNodeFlag (st : Rebuild) (masterFlag : Bool)
    (f : OrdMap ServerId Int → OrdMap ServerId Int) : Rebuild :=
  { st with nodeFlag := Function.update st.nodeFlag masterFlag (f (st.nodeFlag masterFlag)) }

def mapBuckets (st : Rebuild) (masterFlag : Bool)
    (f : OrdMap ServerId (OrdMap Nat Nat) → OrdMap ServerId (OrdMap Nat Nat)) : Rebuild :=
  { st with
    bucketsSet := Function.update st.bucketsSet masterFlag (f (st.bucketsSet masterFlag)) }

/-- `count_info--`. -/
def decrMaxCount (st : Rebuild) (masterFlag : Bool) : Rebuild :=
  { st with maxCount := Function.update st.maxCount masterFlag (st.maxCount masterFlag - 1) }

/-- Servers below their share, the neediest first. -/
def needyServers (st : Rebuild) (masterFlag : Bool) : List (List ServerId) :=
  serversByValue ((sortMapByValue (st.migrateNodeInfo masterFlag)).takeWhile fun e => e.1 < 0)

/-- All servers, by how far they are above their share. -/
def flaggedServers (st : Rebuild) (masterFlag : Bool) : List (List ServerId) :=
  let migrate := st.migrateNodeInfo masterFlag
  serversByValue (((st.nodeFlag masterFlag).entries.map fun e =>
    (e.2 + valueAt migrate e.1, e.1)).insertionSort fun a b => a.1 ≤ b.1)

end Rebuild

-- Choosing servers

namespace TableBuilder

open Rebuild

variable (tb : TableBuilder) (rand : Nat → Nat)

/-- `availableServer.find(node) != availableServer.end()`. -/
def isAvailable (node : ServerId) : Bool := (tb.availableServer.find? node).isSome

/-- No other copy of the bucket is on the server. -/
def checkNodeOk (node : ServerId) (bucket position : Nat) (t : HashTable) : Bool :=
  (List.range tb.copyCount).all fun i => i = position || t i bucket ≠ node

/-- What `chooseNodeInvalid` does with the server it has found. -/
def placeInvalid (st : Rebuild) (bucket position : Nat) (masterFlag : Bool) (node : ServerId) :
    Rebuild :=
  let st := st.mapMigrate false (incrNodeCount node)
  let st := if masterFlag then st.mapMigrate true (incrNodeCount node) else st
  let st := st.mapBuckets masterFlag (insertBucketMap node bucket position)
  { st with table := st.table.set position bucket node }

/-- `chooseNodeInvalid`; `none` when no server will do. -/
def chooseNodeInvalid (st : Rebuild) (bucket position : Nat) (masterFlag : Bool) :
    Option Rebuild :=
  let attempt := fun node =>
    if tb.checkNodeOk node bucket position st.table then some node else none
  match drawGroups rand invalidFlag attempt (st.needyServers masterFlag) st.drawn with
  | (some node, drawn) =>
    some (placeInvalid { st with drawn := drawn } bucket position masterFlag node)
  | (none, drawn) =>
    match drawGroups rand invalidFlag attempt (st.flaggedServers masterFlag) drawn with
    | (some node, drawn) =>
      some (placeInvalid { st with drawn := drawn } bucket position masterFlag node)
    | (none, _) => none

/-- `chooseSlaveForInvalid`; `none` when a slot stays empty. -/
def chooseSlaveForInvalid (st : Rebuild) (bucket : Nat) : Option Rebuild :=
  run (fun st n =>
      if st.table n bucket = invalidFlag then tb.chooseNodeInvalid rand st bucket n false
      else some st)
    st (List.range' 1 (tb.copyCount - 1))

/-- A bucket of `nodeInfo` that has no other copy on `node`, with the position of
the copy to move. -/
def movable (st : Rebuild) (nodeInfo : ServerId) (masterFlag : Bool) (node : ServerId) :
    Option (ServerId × Nat × Nat) :=
  ((((st.bucketsSet masterFlag).find? nodeInfo).getD ∅).entries.find? fun e =>
    tb.checkNodeOk node e.1 e.2 st.table).map fun e => (node, e.1, e.2)

/-- Move a copy from `nodeInfo` to `node`, in the table and the bucket sets. -/
def moveCopy (st : Rebuild) (nodeInfo : ServerId) (masterFlag : Bool)
    (move : ServerId × Nat × Nat) : Rebuild :=
  let st := { st with table := st.table.set move.2.2 move.2.1 move.1 }
  let st := st.mapBuckets masterFlag (insertBucketMap move.1 move.2.1 move.2.2)
  st.mapBuckets masterFlag (eraseBucketMap nodeInfo move.2.1)

/-- A copy goes to a server below its share. -/
def giveCopy (st : Rebuild) (nodeInfo : ServerId) (masterFlag : Bool)
    (move : ServerId × Nat × Nat) : Rebuild :=
  let st := st.mapMigrate false fun m => incrNodeCount move.1 (decrNodeCount nodeInfo m)
  let st := if masterFlag then
      st.mapMigrate true fun m => incrNodeCount move.1 (decrNodeCount nodeInfo m)
    else st
  moveCopy st nodeInfo masterFlag move

/-- The server keeps a copy: some servers have one more than their share. -/
def keepCopy (st : Rebuild) (nodeInfo : ServerId) (masterFlag : Bool) : Rebuild :=
  ((st.mapNodeFlag masterFlag (incrNodeCount nodeInfo)).mapMigrate masterFlag
    (decrNodeCount nodeInfo)).decrMaxCount masterFlag

/-- A copy goes to a server that is let have one more. -/
def pushCopy (st : Rebuild) (nodeInfo : ServerId) (masterFlag : Bool)
    (move : ServerId × Nat × Nat) : Rebuild :=
  let st := st.mapNodeFlag masterFlag (incrNodeCount move.1)
  let st := st.mapMigrate masterFlag (decrNodeCount nodeInfo)
  let st := if masterFlag then
      st.mapMigrate false fun m => incrNodeCount move.1 (decrNodeCount nodeInfo m)
    else st
  moveCopy (st.decrMaxCount masterFlag) nodeInfo masterFlag move

/-- `chooseNode`, which always returns true: move a copy from `nodeInfo` to a
server below its share, else let the server keep one more, else move a copy to
the least loaded server, else leave everything as it is. -/
def chooseNode (st : Rebuild) (nodeInfo : ServerId) (masterFlag : Bool) : Rebuild :=
  match drawGroups rand invalidFlag (tb.movable st nodeInfo masterFlag)
      (st.needyServers masterFlag) st.drawn with
  | (some move, drawn) => giveCopy { st with drawn := drawn } nodeInfo masterFlag move
  | (none, drawn) =>
    let st := { st with drawn := drawn }
    if valueAt (st.nodeFlag masterFlag) nodeInfo = 0 ∧ st.maxCount masterFlag > 0 then
      keepCopy st nodeInfo masterFlag
    else
      match drawGroups rand invalidFlag (tb.movable st nodeInfo masterFlag)
          (st.flaggedServers masterFlag) st.drawn with
      | (some move, drawn) => pushCopy { st with drawn := drawn } nodeInfo masterFlag move
      | (none, drawn) => { st with drawn := drawn }

-- Preparation

/-- `checkRebuildNeed`, over the buckets that are left and the servers seen. -/
def checkRebuildNeedFrom (t : HashTable) : List Nat → OrdMap ServerId Unit → Bool
  | [], seen => tb.availableServer.keys ≠ seen.keys
  | i :: buckets, seen =>
    if ¬ tb.isAvailable (t 0 i) then checkRebuildNeedFrom t buckets seen
    else
      -- the slaves up to the first that is empty or not available
      let slaves := (List.range' 1 (tb.copyCount - 1)).map fun j => t j i
      match slaves.find? fun node => node = invalidFlag || ¬ tb.isAvailable node with
      | some node => node = invalidFlag
      | none =>
        checkRebuildNeedFrom t buckets
          ((t 0 i :: slaves).foldl (fun seen node => seen.emplace node ()) seen)

def checkRebuildNeed (t : HashTable) : Bool :=
  tb.checkRebuildNeedFrom t (List.range tb.bucketCount) ∅

def initTokenCount : OrdMap ServerId Int :=
  tb.availableServer.entries.foldl (fun m e => m.emplace e.1 0) ∅

/-- `updateNodeCount` for a list of table cells. -/
def updateNodeCounts (nodes : List ServerId) (collector : OrdMap ServerId Int) :
    OrdMap ServerId Int :=
  nodes.foldl (fun m node => m.modify node (· + 1)) collector

/-- The cells of a copy, in bucket order. -/
def line (t : HashTable) (copy : Nat) : List ServerId :=
  (List.range tb.bucketCount).map (t copy)

/-- `tokens_count_in_node` and `mtokens_count_in_node`. -/
def tokensCountInNode (t : HashTable) (masterFlag : Bool) : OrdMap ServerId Int :=
  updateNodeCounts
    (if masterFlag then (if tb.copyCount = 0 then [] else tb.line t 0)
      else (List.range tb.copyCount).flatMap (tb.line t))
    tb.initTokenCount

/-- `initCandidateNew`. -/
def initCandidateNew (nodeMinCount : Int) (counts : OrdMap ServerId Int) : OrdMap ServerId Int :=
  counts.entries.foldl (fun m e => m.emplace e.1 (e.2 - nodeMinCount)) ∅

/-- The body of the loop of `initBucketSet`. -/
def enterRow (t : HashTable) (masterFlag : Bool) (sets : OrdMap ServerId (OrdMap Nat Nat))
    (i : Nat) : OrdMap ServerId (OrdMap Nat Nat) :=
  if tb.isAvailable (t 0 i) then
    if masterFlag then insertBucketMap (t 0 i) i 0 sets
    else (List.range' 1 (tb.copyCount - 1)).foldl
      (fun sets j => insertBucketMap (t j i) i j sets) sets
  else sets

/-- `initBucketSet`. -/
def initBucketSet (t : HashTable) (masterFlag : Bool) : OrdMap ServerId (OrdMap Nat Nat) :=
  (List.range tb.bucketCount).foldl (tb.enterRow t masterFlag)
    (tb.availableServer.entries.foldl (fun m e => m.emplace e.1 ∅) ∅)

/-- `S`, as the divisions use it. -/
def serverCount : Nat := tb.availableServer.entries.length % 2 ^ 32

/-- How many copies there are to share out, as a `uint32_t`. -/
def copiesOf (masterFlag : Bool) : Nat :=
  if masterFlag then tb.bucketCount % 2 ^ 32 else tb.bucketCount * tb.copyCount % 2 ^ 32

/-- `m_tokens_per_node_min` and `tokens_per_node_min`. -/
def tokensPerNodeMin (masterFlag : Bool) : Int := toInt32 (tb.copiesOf masterFlag / tb.serverCount)

/-- The members when the search begins. -/
def initRebuild (source : HashTable) : Rebuild where
  table := source
  nodeFlag := fun _ => tb.initTokenCount
  migrateNodeInfo := fun masterFlag =>
    initCandidateNew (tb.tokensPerNodeMin masterFlag) (tb.tokensCountInNode source masterFlag)
  bucketsSet := tb.initBucketSet source
  maxCount := fun masterFlag => toInt32 (tb.copiesOf masterFlag % tb.serverCount)
  drawn := 0

-- The four phases

/-- Make the master of the bucket its first empty slave and leave the master's
slot empty. -/
def demoteMaster (st : Rebuild) (bucket : Nat) : Rebuild :=
  let master := st.table 0 bucket
  let st := st.mapMigrate true (decrNodeCount master)
  match (List.range' 1 (tb.copyCount - 1)).find? fun n => st.table n bucket = invalidFlag with
  | none => st
  | some n =>
    let st := st.mapBuckets true (eraseBucketMap master bucket)
    let st := st.mapBuckets false (insertBucketMap master bucket n)
    { st with table := (st.table.set n bucket master).set 0 bucket invalidFlag }

/-- Step 2 for one bucket; `none` is `BUILD_ERROR`. -/
def fillBucket (st : Rebuild) (i : Nat) : Option Rebuild :=
  let master := st.table 0 i
  if master = invalidFlag ∨ tb.isAvailable master = false then some st
  else if (List.range' 1 (tb.copyCount - 1)).all fun j => st.table j i ≠ invalidFlag then some st
  else if valueAt (st.migrateNodeInfo true) master ≤ 0 then tb.chooseSlaveForInvalid rand st i
  else if st.maxCount true > 0 ∧ valueAt (st.nodeFlag true) master = 0 then
    -- the master can stay
    tb.chooseSlaveForInvalid rand (keepCopy st master true) i
  else if valueAt (st.migrateNodeInfo false) master ≤ 0 ∨
      (st.maxCount false > 0 ∧ valueAt (st.nodeFlag false) master = 0) then
    (tb.chooseNodeInvalid rand (tb.demoteMaster st i) i 0 true).bind fun st =>
      tb.chooseSlaveForInvalid rand st i
  else tb.chooseSlaveForInvalid rand st i

/-- `buildFirstTime`; `none` when it returns false. -/
def buildFirstTime (st : Rebuild) : Option Rebuild :=
  (run (fun st i => tb.chooseNodeInvalid rand st i 0 true) st (List.range' 0 tb.bucketCount)).bind
    fun st =>
      run (fun st i =>
          run (fun st j => tb.chooseNodeInvalid rand st i j false) st
            (List.range' 1 (tb.copyCount - 1)))
        st (List.range' 0 tb.bucketCount)

/-- The `while` loops of step 3: as long as the most loaded server has more than
its share, `chooseNode` for it. `none` when `fuel` rounds are not enough. -/
def balance (masterFlag : Bool) : Nat → Rebuild → Option Rebuild
  | 0, _ => none
  | fuel + 1, st =>
    match (sortMapByValue (st.migrateNodeInfo masterFlag)).getLast? with
    -- the iterator before `begin()`
    | none => none
    | some e =>
      if e.1 > 0 then balance masterFlag fuel (tb.chooseNode rand st e.2 masterFlag) else some st

/-- How many servers more than can have more than their share do. -/
def overloaded (t : HashTable) (masterFlag : Bool) : Int :=
  (((tb.tokensCountInNode t masterFlag).entries.countP fun e =>
    e.2 > tb.tokensPerNodeMin masterFlag) : Int) -
    toInt32 (tb.copiesOf masterFlag % tb.serverCount)

/-- `rebuildTableNew`; `none` when a `while` loop takes more than `fuel` rounds. -/
def rebuildTableNew (fuel : Nat) (source : HashTable) : Option BuildResult :=
  if ¬ tb.checkRebuildNeed source then some .noChange
  else if tb.availableServer.entries.length < tb.copyCount then some .error
  else
    match run (tb.fillBucket rand) (tb.initRebuild source) (List.range' 0 tb.bucketCount) with
    | none => some .error
    | some st =>
      if st.table 0 0 = invalidFlag then
        if (List.range tb.bucketCount).all fun i => st.table 0 i = invalidFlag then
          match tb.buildFirstTime rand st with
          | none => some .error
          | some st => some (.ok st.table)
        else some .error
      else
        (tb.balance rand true fuel st).bind fun st =>
          (tb.balance rand false fuel st).map fun st =>
            if tb.overloaded st.table true > 8 ∨ tb.overloaded st.table false > 8 then .error
            else .ok st.table

end TableBuilder

end MyBase
