import MyBase.Meta.Published
import MyBase.Storage.Bounds

/-!
# MyBase — where a client sends its requests

`startup` asks the meta servers, one after the other, for the table. The words of the first reply
are pushed behind those that `myServerList` has; the numbers of buckets and copies are replaced.
`getServerId` looks up the row of the key's bucket. `close` keeps the list, and the thread that is
to renew it (`updateConfig`) does nothing.

`none` is an access outside of `tablebytes` or `myServerList`, or a division by zero.

* `routes_by_first_table` — the servers a client finds are those of the row that the meta server
  published when it was first started.
-/

namespace MyBase

open Lib List

/-- What comes of a request to a meta server. -/
inductive MetaReply
  | failed
  /-- Another type of message, or one that does not parse. -/
  | unexpected
  | getMeta (r : GetMetaResponse)
deriving DecidableEq, Repr

structure KvClientApi where
  initialized : Bool
  metaServerList : List ServerId
  myServerList : List ServerId
  bucketCount : Nat
  copyCount : Nat
deriving DecidableEq, Repr

inductive StartAction
  /-- With what the `k`-th server of `metaServerList` answers. -/
  | startup (metaServers : List ServerId) (answers : Nat → MetaReply)
  | close

namespace KvClientApi

/-- `KvClientApi()`. -/
def new : KvClientApi := ⟨false, [], [], 0, 0⟩

/-- The reply that `retrieveServerAddr` goes on with. -/
def firstReply (c : KvClientApi) (answers : Nat → MetaReply) : Option MetaReply :=
  ((List.range c.metaServerList.length).map answers).find? (· ≠ .failed)

def retrieveServerAddr (c : KvClientApi) (answers : Nat → MetaReply) :
    Option (Bool × KvClientApi) :=
  match c.firstReply answers with
  | some (.getMeta msg) =>
    if msg.metaversion = 0 then some (false, c)
    -- the counts are replaced before they are looked at
    else if msg.bucketcount = 0 ∨ msg.copycount = 0 then
      some (false, { c with bucketCount := msg.bucketcount, copyCount := msg.copycount })
    else
      -- a `uint32_t`, for words that nobody has counted
      let count := msg.bucketcount * msg.copycount % 2 ^ 32
      if msg.tablebytes.length < count then none
      else some (true, { c with
        bucketCount := msg.bucketcount
        copyCount := msg.copycount
        myServerList := c.myServerList ++ msg.tablebytes.take count })
  | _ => some (false, c)

def startup (c : KvClientApi) (metaServers : List ServerId) (answers : Nat → MetaReply) :
    Option (Bool × KvClientApi) :=
  if metaServers = [] ∨ c.initialized then some (false, c)
  else
    -- the servers of earlier starts are asked first
    (retrieveServerAddr { c with metaServerList := c.metaServerList ++ metaServers } answers).map
      fun (ok, c) => (ok, if ok then { c with initialized := true } else c)

def close (c : KvClientApi) : KvClientApi := { c with initialized := false }

/-- The loop of `getServerId` on the words it reads: whether it finds a server, and which. -/
def found (row : List ServerId) : Bool × List ServerId :=
  (!(row.filter (· ≠ 0)).isEmpty, row.filter (· ≠ 0))

def getServerId (hash : Bytes → UInt32) (c : KvClientApi) (key : Bytes) :
    Option (Bool × List ServerId) :=
  if c.myServerList = [] then some (false, [])
  else if c.bucketCount = 0 then none
  else
    let index i := ((hash key).toNat % c.bucketCount + i * c.bucketCount) % 2 ^ 32
    let copies := List.range (min c.copyCount c.myServerList.length)
    if ∀ i ∈ copies, index i < c.myServerList.length then
      some (found (copies.map fun i => c.myServerList.getD (index i) 0))
    else none

def step (c : KvClientApi) : StartAction → Option KvClientApi
  | .startup metaServers answers => (c.startup metaServers answers).map Prod.snd
  | .close => some c.close

-- The table a client goes by

/-- `myServerList` begins with the table that `m` publishes. -/
structure GoesBy (c : KvClientApi) (m : TableMgr) : Prop where
  begins : m.cells .hash <+: c.myServerList
  bucketCount : c.bucketCount = m.serverBucketCount
  copyCount : c.copyCount = m.serverCopyCount

section GoesBy

variable {c c' : KvClientApi} {m : TableMgr} {answers : Nat → MetaReply}

theorem length_cells (m : TableMgr) :
    (m.cells .hash).length = m.serverCopyCount * m.serverBucketCount := by
  rw [TableMgr.cells, length_map, length_range, TableMgr.getHashTableSize]

/-- The lookups stay inside of the table, so what is behind it does not matter. -/
theorem GoesBy.getServerId_eq (h : c.GoesBy m) (hash : Bytes → UInt32) (key : Bytes) :
    c.getServerId hash key = some (found ((List.range m.serverCopyCount).map fun p =>
      m.hashTable p (getBucketNumber hash m.serverBucketCount key))) := by
  obtain ⟨⟨rest, hList⟩, hBuckets, hCopies⟩ := h
  have hSize := length_cells m
  have hFits := m.fits
  have hPos := m.copies_pos
  have hLength : c.myServerList.length = (m.cells .hash).length + rest.length := by
    rw [← hList, length_append]
  have hEnough : m.serverCopyCount ≤ (m.cells .hash).length := by
    rw [hSize]
    exact Nat.le_mul_of_pos_right _ m.buckets_pos
  have hRow : ∀ p ∈ List.range m.serverCopyCount,
      p * m.serverBucketCount + (hash key).toNat % m.serverBucketCount <
        m.serverCopyCount * m.serverBucketCount := fun p hp =>
    index_lt (mem_range.mp hp) (Nat.mod_lt _ m.buckets_pos)
  -- so no index wraps around, and none leaves the first table
  unfold getServerId getBucketNumber
  rw [hBuckets, hCopies, if_neg (ne_nil_of_length_pos (by omega)),
    if_neg m.buckets_pos.ne', if_neg m.buckets_pos.ne', Nat.min_eq_left (by omega)]
  dsimp only
  rw [if_pos]
  · refine congrArg (some ∘ found) (map_congr_left fun p hp => ?_)
    have hLt := hRow p hp
    -- what `rest` has at this index is not looked at
    rw [Nat.add_comm, Nat.mod_eq_of_lt (by omega), ← hList, getD_append _ _ _ _ (by omega),
      TableMgr.cells, getD_eq_getElem?_getD, getElem?_map, TableMgr.getHashTableSize,
      getElem?_range hLt]
    rfl
  · intro p hp
    have hLt := hRow p hp
    rw [Nat.add_comm, Nat.mod_eq_of_lt (by omega)]
    omega

/-- Replies are about tables of the size of `m`. -/
def SameSize (m : TableMgr) : StartAction → Prop
  | .startup _ answers => ∀ k msg, answers k = .getMeta msg →
      msg.bucketcount = m.serverBucketCount ∧ msg.copycount = m.serverCopyCount
  | .close => True

/-- A further reply puts its table behind the others. -/
theorem GoesBy.retrieveServerAddr (h : c.GoesBy m)
    (hSame : ∀ k msg, answers k = .getMeta msg →
      msg.bucketcount = m.serverBucketCount ∧ msg.copycount = m.serverCopyCount)
    {ok : Bool} (hRetrieve : c.retrieveServerAddr answers = some (ok, c')) : c'.GoesBy m := by
  unfold KvClientApi.retrieveServerAddr at hRetrieve
  split at hRetrieve
  next msg hFirst =>
    obtain ⟨k, -, hk⟩ := mem_map.mp (mem_of_find?_eq_some hFirst)
    obtain ⟨hBuckets, hCopies⟩ := hSame k msg hk
    dsimp only at hRetrieve
    split_ifs at hRetrieve
    -- no version, a count of 0, and a table
    · cases hRetrieve
      exact h
    · cases hRetrieve
      exact ⟨h.begins, hBuckets, hCopies⟩
    · cases hRetrieve
      exact ⟨h.begins.trans (prefix_append _ _), hBuckets, hCopies⟩
  next =>
    cases hRetrieve
    exact h

/-- **Step lemma.** -/
theorem GoesBy.step {a : StartAction} (h : c.GoesBy m) (hSame : SameSize m a)
    (hStep : c.step a = some c') : c'.GoesBy m := by
  cases a with
  | close =>
    cases hStep
    exact ⟨h.begins, h.bucketCount, h.copyCount⟩
  | startup metaServers answers =>
    obtain ⟨⟨ok, c₂⟩, hStart, rfl⟩ := Option.map_eq_some_iff.mp hStep
    unfold startup at hStart
    split at hStart
    · cases hStart
      exact h
    · obtain ⟨⟨ok', c₁⟩, hRetrieve, hEq⟩ := Option.map_eq_some_iff.mp hStart
      have hAsked : GoesBy { c with metaServerList := c.metaServerList ++ metaServers } m :=
        ⟨h.begins, h.bucketCount, h.copyCount⟩
      obtain ⟨hBegins, hBuckets, hCopies⟩ := hAsked.retrieveServerAddr hSame hRetrieve
      cases hEq
      dsimp only
      split <;> exact ⟨hBegins, hBuckets, hCopies⟩

/-- The first start, with a reply that carries the table. -/
theorem goesBy_startup {s : SysMgr} {metaServers : List ServerId}
    (hPublished : s.tableMgr.Published) (hVersion : s.tableMgr.clientVersion ≠ 0)
    (hNe : metaServers ≠ [])
    (hReply : firstReply { new with metaServerList := metaServers } answers =
      some (.getMeta s.getMetaResponse)) :
    ∃ c, new.startup metaServers answers = some (true, c) ∧ c.GoesBy s.tableMgr := by
  have hFits := s.tableMgr.fits
  have hCount : s.tableMgr.serverBucketCount * s.tableMgr.serverCopyCount % 2 ^ 32 =
      (s.tableMgr.cells .hash).length := by
    rw [length_cells, Nat.mul_comm, Nat.mod_eq_of_lt (by omega)]
  unfold startup KvClientApi.retrieveServerAddr
  rw [if_neg (by simp [hNe, new])]
  -- every test of the reply comes out well: it is the table, and as long as it should be
  simp only [new, nil_append] at hReply ⊢
  simp only [hReply, SysMgr.getMetaResponse, hPublished.1, hCount, take_length, hVersion,
    s.tableMgr.buckets_pos.ne', s.tableMgr.copies_pos.ne', or_self, if_false, lt_irrefl,
    Option.map_some, if_true]
  exact ⟨_, rfl, prefix_rfl, rfl, rfl⟩

end GoesBy

/-- **A client goes by the table of its first start.** After every run of a meta server that was
started on a file, a client that starts with its reply finds, for every key, the servers of the
published row of the bucket that storage nodes put the key in. It still does after it has been
closed and started any number of times, whatever tables of the same size it was sent. -/
theorem routes_by_first_table (hash : Bytes → UInt32) (m : TableMgr) (minConfigVersion : Nat)
    {acts : List SysAction} {s : SysMgr}
    (hAlong : Along SysMgr.step SysMgr.NotBehind (SysMgr.opened m minConfigVersion) acts)
    (hMeta : run SysMgr.step (SysMgr.opened m minConfigVersion) acts = some s)
    (hVersion : s.getMetaResponse.metaversion ≠ 0) {metaServers : List ServerId}
    (hNe : metaServers ≠ []) {answers : Nat → MetaReply}
    (hReply : firstReply { new with metaServerList := metaServers } answers =
      some (.getMeta s.getMetaResponse)) :
    ∃ c, new.startup metaServers answers = some (true, c) ∧
      ∀ restarts c', (∀ a ∈ restarts, SameSize s.tableMgr a) → run step c restarts = some c' →
        ∀ key, c'.getServerId hash key =
          some (found ((List.range s.tableMgr.serverCopyCount).map fun p =>
            s.tableMgr.hashTable p
              (getBucketNumber hash s.heartbeatResponse.bucketcount key))) := by
  -- first the run of the meta server, then that of the client
  have hPublished : s.tableMgr.Published :=
    run_invariant (fun _ _ _ hNotBehind hInv hStep => SysMgr.published_step hInv hNotBehind hStep)
      (TableMgr.deflateHashTable_published m) hAlong hMeta
  obtain ⟨c, hStart, hGoesBy⟩ := goesBy_startup hPublished hVersion hNe hReply
  refine ⟨c, hStart, fun restarts c' hSame hRun => ?_⟩
  have hKeeps : ∀ x a x', SameSize s.tableMgr a → GoesBy x s.tableMgr → step x a = some x' →
      GoesBy x' s.tableMgr := fun _ _ _ hSize hInv hStep => hInv.step hSize hStep
  exact (run_invariant hKeeps hGoesBy (along_of_forall fun a ha _ => hSame a ha)
    hRun).getServerId_eq hash

/-- A table with two buckets for two servers: the key of bucket 1 is sent to server 2. -/
theorem routes_by_first_table_two_servers :
    ∃ s c, new.startup [7] (fun _ => .getMeta (SysMgr.getMetaResponse s)) = some (true, c) ∧
      c.getServerId (fun _ => 5) [107] = some (true, [2]) := by
  have hReached : ∃ s, run SysMgr.step
        (.opened (.create 2 1 (by decide) (by decide) (by decide)) 10)
        [.rebuild [1, 2] (fun _ => 0) 9] = some s ∧ s.getMetaResponse.metaversion ≠ 0 ∧
      ((List.range s.tableMgr.serverCopyCount).map fun p => s.tableMgr.hashTable p
        (getBucketNumber (fun _ => 5) s.heartbeatResponse.bucketcount [107])) = [2] :=
    run_reaches (by decide +kernel)
  obtain ⟨s, hMeta, hVersion, hRow⟩ := hReached
  have hReply : firstReply { new with metaServerList := [7] }
      (fun _ => .getMeta s.getMetaResponse) = some (.getMeta s.getMetaResponse) := rfl
  obtain ⟨c, hStart, hRoutes⟩ := routes_by_first_table (fun _ => 5) _ 10
    (along_of_forall (by simp [SysMgr.NotBehind])) hMeta hVersion (cons_ne_nil 7 []) hReply
  exact ⟨s, c, hStart, (hRoutes [] c (by simp) rfl [107]).trans (congrArg (some ∘ found) hRow)⟩

end KvClientApi

end MyBase
