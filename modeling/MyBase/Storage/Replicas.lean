import MyBase.Storage.Commiter
import MyBase.Storage.Entry

/-!
# MyBase — the replicas of one bucket

Every storage server has a `BucketMgr` for the bucket: the log, the commit
queue and the peers it replicates to. The server that clients take for the
master logs their puts and sends each peer the entries from the peer's next
index on (`requestAppendEntries`); a receiver that expects exactly this index
writes the entries, any other answers with the index it expects. There is no
term or epoch: who may send is decided by the routing table alone.

`Replicas.step` is the whole system: one client put, one message handled, lost or
repeated, one routing table, or one step of a commiter thread. A message is
handled atomically, and all file writes succeed.

The log is the segmented log of `Lib.SegLog` with the file boundaries of the
write-ahead log; `Storage/OnWal.lean` shows that it is what the files hold.
-/

namespace MyBase

open Lib List

structure BucketMgr where
  walog : SegLog LogData
  commiter : Commiter LogData
  /-- `Peer::nextSendIdx` of each peer. -/
  peers : OrdMap Nat Nat

/-- `KvRequestDump`; `dst` is the `peerid`, `src` the connection to answer on. -/
structure Dump where
  src : Nat
  dst : Nat
  nextidx : Nat
  commitidx : Nat
  entries : List LogData
deriving DecidableEq, Repr

/-- `KvResponseDumpReturn`; `src` is the `peerid`, echoed from the request. -/
structure DumpReturn where
  src : Nat
  dst : Nat
  accept : Bool
  nextidx : Nat
  commitidx : Nat
deriving DecidableEq, Repr

inductive Message
  | dump (m : Dump)
  | dumpReturn (r : DumpReturn)
deriving DecidableEq, Repr

/-- The two ends of a message: the server that asked and the peer it asked. -/
def Message.ends : Message → Nat × Nat
  | .dump m => (m.src, m.dst)
  | .dumpReturn r => (r.dst, r.src)

-- One bucket manager

namespace BucketMgr

/-- A bucket manager whose log has been opened on `walog`. -/
def opened (walog : SegLog LogData) : BucketMgr := ⟨walog, Commiter.init, ∅⟩

/-- The logged entries, without the connection headers. -/
def logged (b : BucketMgr) : List DumpEntry := b.walog.entries.map LogData.entry

def nextIndex (b : BucketMgr) : Nat := b.walog.nextIdx

def addPeer (b : BucketMgr) (srvId : Nat) : BucketMgr :=
  { b with peers := b.peers.emplace srvId 0 }

def registCommitCB (b : BucketMgr) : BucketMgr :=
  { b with commiter := b.commiter.registCommitCB }

def commit (b : BucketMgr) (idx : Nat) : BucketMgr :=
  { b with commiter := b.commiter.commit idx }

/-- The next index `requestAppendEntries` uses for a peer: a peer that has none
yet gets the one behind the sender's own log. -/
def nextLogIdx (b : BucketMgr) (next : Nat) : Nat :=
  if next = 0 then b.walog.lastIdx + 1 else next

/-- The request `requestAppendEntries` sends to peer `p`. -/
def dumpFor (b : BucketMgr) (self p next : Nat) : Dump where
  src := self
  dst := p
  nextidx := next
  commitidx := b.commiter.quickCommitIdx
  entries := b.walog.logEntries next b.walog.lastIdx

/-- `requestAppendEntries(p)` for a peer with next index `next`. -/
def requestAppendEntries (b : BucketMgr) (self p next : Nat) : BucketMgr × Message :=
  ({ b with peers := b.peers.modify p b.nextLogIdx },
    .dump (b.dumpFor self p (b.nextLogIdx next)))

/-- `appendEntris`: log the put and send to every peer. -/
def appendEntris [DumpEntryCodec] (b : BucketMgr) (self : Nat) (log : LogData) :
    BucketMgr × List Message :=
  let b := { b with walog := b.walog.append bucketFull log }
  b.peers.entries.foldl
    (fun acc e =>
      let r := acc.1.requestAppendEntries self e.1 e.2
      (r.1, acc.2 ++ [r.2]))
    (b, [])

/-- The entries of an accepted request, each with the receiver's connection header. -/
def writeEntries [DumpEntryCodec] (b : BucketMgr) (head : ConnHead) (entries : List LogData) :
    BucketMgr :=
  { b with walog := (entries.map (LogData.stamp head)).foldl (SegLog.append bucketFull) b.walog }

/-- `KV_REQ_MESSAGE_DUMP`. A `KvResponseDumpReturn` that is not filled in has
`accept` false and `commitIdx` 0. -/
def processDump [DumpEntryCodec] (b : BucketMgr) (head : ConnHead) (m : Dump) :
    BucketMgr × Message :=
  if b.nextIndex ≠ m.nextidx then
    (b, .dumpReturn ⟨m.dst, m.src, false, b.nextIndex, 0⟩)
  else
    ((b.writeEntries head m.entries).commit m.commitidx,
      .dumpReturn ⟨m.dst, m.src, true, m.nextidx + m.entries.length, m.commitidx⟩)

/-- The `need_to_catchup` of `rpcHandler`. -/
def needToCatchup (b : BucketMgr) (r : DumpReturn) : Bool :=
  if r.accept then r.nextidx ≤ b.walog.lastIdx || r.commitidx < r.nextidx - 1 else true

/-- `rpcHandler` for an answer that arrived; `role` is always `leader`. An answer
from a server that is no peer would dereference `peers.end()`: `none`. -/
def rpcHandler (b : BucketMgr) (self : Nat) (r : DumpReturn) :
    Option (BucketMgr × List Message) :=
  match b.peers.find? r.src with
  | none => none
  | some _ =>
    let b := { b with peers := b.peers.modify r.src fun _ => r.nextidx }
    let b := if r.accept then b.commit (r.nextidx - 1) else b
    if b.needToCatchup r then
      let out := b.requestAppendEntries self r.src r.nextidx
      some (out.1, [out.2])
    else some (b, [])

/-- `hbCallback` for the bucket's row of a new routing table, master first. The
log was opened by an earlier table, and `initial` does not open it again. -/
def hbCallback (b : BucketMgr) (self : Nat) (row : List Nat) : BucketMgr :=
  match row with
  | [] => b
  | master :: slaves =>
    slaves.foldl
      (fun b srvId =>
        let b := if self = master then b.addPeer srvId else b
        if self = srvId then b.registCommitCB else b)
      (if self = master then b.registCommitCB else b)

end BucketMgr

-- The system

structure Replicas where
  nodes : Nat → BucketMgr
  /-- Requests and answers in flight. -/
  net : List Message
  /-- The server clients send their puts to. -/
  master : Nat

inductive ReplicaAction
  /-- A client put at the master, over the connection `head`. -/
  | put (head : ConnHead) (entry : DumpEntry)
  /-- The `k`-th message in flight is handled; with `again` it can arrive once
  more. A request arrives over the connection `head`. -/
  | deliver (k : Nat) (again : Bool) (head : ConnHead)
  /-- The `k`-th message in flight is lost. -/
  | lose (k : Nat)
  /-- Clients learn of a routing table with another master. -/
  | route (master : Nat)
  /-- Server `n` learns of a routing table. -/
  | hbCallback (n : Nat) (row : List Nat)
  /-- Server `n` handles `KV_REQ_BUCKET_HEARTBEAT`. -/
  | bucketHeartbeat (n : Nat) (commitidx : Nat)
  /-- A step of the commiter thread of server `n`. -/
  | wake (n : Nat)
deriving DecidableEq, Repr

namespace Replicas

/-- Servers that have just opened empty logs for the bucket. -/
def fresh (master : Nat) : Replicas := ⟨fun _ => BucketMgr.opened SegLog.empty, [], master⟩

/-- Replace the bucket manager of `n`. -/
def set (s : Replicas) (n : Nat) (b : BucketMgr) : Replicas :=
  { s with nodes := Function.update s.nodes n b }

/-- A log has room for `count` more records. -/
def hasRoom (b : BucketMgr) (count : Nat) : Bool := b.walog.lastIdx + count ≤ maxIndex

/-- Handle a message at the server it is addressed to. -/
def handle [DumpEntryCodec] (s : Replicas) (head : ConnHead) : Message → Option Replicas
  | .dump m =>
    if hasRoom (s.nodes m.dst) m.entries.length then
      let out := (s.nodes m.dst).processDump head m
      some { s.set m.dst out.1 with net := s.net ++ [out.2] }
    else none
  | .dumpReturn r =>
    ((s.nodes r.dst).rpcHandler r.dst r).map fun out =>
      { s.set r.dst out.1 with net := s.net ++ out.2 }

def step [DumpEntryCodec] (s : Replicas) : ReplicaAction → Option Replicas
  | .put head entry =>
    if hasRoom (s.nodes s.master) 1 then
      let out := (s.nodes s.master).appendEntris s.master ⟨head, entry⟩
      some { s.set s.master out.1 with net := s.net ++ out.2 }
    else none
  | .deliver k again head =>
    match s.net[k]? with
    | none => none
    | some m => { s with net := if again then s.net else s.net.eraseIdx k }.handle head m
  | .lose k => if k < s.net.length then some { s with net := s.net.eraseIdx k } else none
  | .route master => some { s with master := master }
  | .hbCallback n row => some (s.set n ((s.nodes n).hbCallback n row))
  | .bucketHeartbeat n commitidx =>
    if commitidx < 2 ^ 64 then some (s.set n ((s.nodes n).commit commitidx)) else none
  | .wake n =>
    ((s.nodes n).commiter.wake (s.nodes n).walog.entryAt).map fun c =>
      s.set n { s.nodes n with commiter := c }

end Replicas

-- What each operation of a bucket manager does

namespace BucketMgr

/-- The requests of `requestAppendEntries()` depend on the log and the commit
index alone, so the peers can be served in any order. -/
theorem foldl_requestAppendEntries (self : Nat) (es : List (Nat × Nat)) (b : BucketMgr)
    (sent : List Message) :
    ∃ peers : OrdMap Nat Nat, peers.keys = b.peers.keys ∧
      es.foldl
        (fun acc e =>
          let r := acc.1.requestAppendEntries self e.1 e.2
          (r.1, acc.2 ++ [r.2]))
        (b, sent) =
      ({ b with peers := peers },
        sent ++ es.map fun e => .dump (b.dumpFor self e.1 (b.nextLogIdx e.2))) := by
  induction es generalizing b sent with
  | nil => exact ⟨b.peers, rfl, by simp⟩
  | cons e es ih =>
    obtain ⟨peers, hKeys, hEq⟩ := ih (b.requestAppendEntries self e.1 e.2).1
      (sent ++ [(b.requestAppendEntries self e.1 e.2).2])
    refine ⟨peers, hKeys.trans (OrdMap.keys_modify _ _ _), ?_⟩
    rw [foldl_cons, map_cons, append_cons]
    exact hEq

variable (b : BucketMgr)
include b

/-- `appendEntris` logs the put, keeps the peers, and sends every peer a request. -/
theorem appendEntris_eq [DumpEntryCodec] (self : Nat) (log : LogData) :
    ∃ peers : OrdMap Nat Nat, peers.keys = b.peers.keys ∧
      b.appendEntris self log =
        ({ b with walog := b.walog.append bucketFull log, peers := peers },
          b.peers.entries.map fun e =>
            let b := { b with walog := b.walog.append bucketFull log }
            .dump (b.dumpFor self e.1 (b.nextLogIdx e.2))) := by
  obtain ⟨peers, hKeys, hEq⟩ := foldl_requestAppendEntries self b.peers.entries
    { b with walog := b.walog.append bucketFull log } []
  exact ⟨peers, hKeys, hEq⟩

omit b in
/-- `rpcHandler` keeps the log, commits what an accepting peer has, and sends a
further request unless the peer has caught up. -/
theorem rpcHandler_eq {b : BucketMgr} {self : Nat} {r : DumpReturn}
    {out : BucketMgr × List Message} (h : b.rpcHandler self r = some out) :
    ∃ peers : OrdMap Nat Nat, peers.keys = b.peers.keys ∧
      out.1 =
        { b with
          commiter := if r.accept then b.commiter.commit (r.nextidx - 1) else b.commiter
          peers := peers } ∧
      out.2 = if b.needToCatchup r then [.dump (b.dumpFor self r.src (b.nextLogIdx r.nextidx))]
        else [] := by
  unfold rpcHandler at h
  split at h
  · cases h
  · obtain ⟨b₁, hb₁⟩ : ∃ b₁ : BucketMgr, b₁ =
        { walog := b.walog
          commiter := if r.accept then b.commiter.commit (r.nextidx - 1) else b.commiter
          peers := b.peers.modify r.src fun _ => r.nextidx } := ⟨_, rfl⟩
    have hCommitted : (if r.accept then
        ({ b with peers := b.peers.modify r.src fun _ => r.nextidx } : BucketMgr).commit
          (r.nextidx - 1)
        else { b with peers := b.peers.modify r.src fun _ => r.nextidx }) = b₁ := by
      rw [hb₁]
      cases r.accept <;> rfl
    -- a commit only queues its index, so requests are made as before it
    have hQuick : b₁.commiter.quickCommitIdx = b.commiter.quickCommitIdx := by
      rw [hb₁]
      cases r.accept <;> simp
    have hWalog : b₁.walog = b.walog := by rw [hb₁]
    have hDump : ∀ next, b₁.dumpFor self r.src next = b.dumpFor self r.src next := by
      intro next
      simp only [dumpFor, hQuick, hWalog]
    have hNext : b₁.nextLogIdx = b.nextLogIdx := by rw [hb₁]; rfl
    have hNeed : b₁.needToCatchup r = b.needToCatchup r := by rw [hb₁]; rfl
    have hKeys : b₁.peers.keys = b.peers.keys := by rw [hb₁]; exact OrdMap.keys_modify _ _ _
    simp only [hCommitted, hNeed] at h
    split at h
    · rename_i hCatchup
      cases h
      refine ⟨b₁.peers.modify r.src b₁.nextLogIdx, (OrdMap.keys_modify _ _ _).trans hKeys, ?_, ?_⟩
      · simp only [requestAppendEntries, hb₁]
      · simp only [requestAppendEntries, hDump, hNext, hCatchup, if_true]
    · rename_i hCaughtUp
      cases h
      exact ⟨b₁.peers, hKeys, by rw [hb₁], by rw [if_neg hCaughtUp]⟩

theorem writeEntries_entries [DumpEntryCodec] (head : ConnHead) (entries : List LogData) :
    (b.writeEntries head entries).walog.entries =
      b.walog.entries ++ entries.map (LogData.stamp head) :=
  SegLog.foldl_append_entries _ _ _

/-- Up to the connection headers, the entries of a request are written as they are. -/
theorem writeEntries_logged [DumpEntryCodec] (head : ConnHead) (entries : List LogData) :
    (b.writeEntries head entries).logged = b.logged ++ entries.map LogData.entry := by
  have hStamp : LogData.entry ∘ LogData.stamp head = LogData.entry := rfl
  rw [logged, writeEntries_entries, map_append, map_map, hStamp, logged]

/-- A server accepts up to the end of its own log. -/
theorem processDump_answer [DumpEntryCodec] (head : ConnHead) (m : Dump) :
    ∃ r, (b.processDump head m).2 = .dumpReturn r ∧ r.src = m.dst ∧ r.dst = m.src ∧
      (r.accept = true → r.nextidx ≤ (b.processDump head m).1.nextIndex) := by
  unfold processDump
  split
  · exact ⟨_, rfl, rfl, rfl, by simp⟩
  · rename_i hNext
    refine ⟨_, rfl, rfl, rfl, ?_⟩
    intro _
    have hEq : b.walog.lastIdx + 1 = m.nextidx := not_not.mp hNext
    show m.nextidx + m.entries.length ≤ (b.writeEntries head m.entries).walog.lastIdx + 1
    have hLast : (b.writeEntries head m.entries).walog.lastIdx =
        b.walog.lastIdx + m.entries.length := by
      simp [SegLog.lastIdx, writeEntries_entries]
    omega

/-- `b'` is `b` with the callback possibly registered and peers possibly added. -/
def Configures (b b' : BucketMgr) : Prop :=
  ∃ (registered : Bool) (peers : OrdMap Nat Nat), (∀ p ∈ b.peers.keys, p ∈ peers.keys) ∧
    b' = { b with commiter := { b.commiter with commitCB := registered }, peers := peers }

theorem Configures.refl : b.Configures b :=
  ⟨b.commiter.commitCB, b.peers, fun _ hp => hp, rfl⟩

omit b in
theorem Configures.trans {b₁ b₂ b₃ : BucketMgr} (h : b₁.Configures b₂) (h' : b₂.Configures b₃) :
    b₁.Configures b₃ := by
  obtain ⟨_, _, hKeys, rfl⟩ := h
  obtain ⟨registered, peers, hKeys', rfl⟩ := h'
  exact ⟨registered, peers, fun p hp => hKeys' p (hKeys p hp), rfl⟩

theorem configures_registCommitCB : b.Configures b.registCommitCB :=
  ⟨true, b.peers, fun _ hp => hp, rfl⟩

theorem configures_addPeer (srvId : Nat) : b.Configures (b.addPeer srvId) := by
  refine ⟨b.commiter.commitCB, _, ?_, rfl⟩
  intro p hp
  obtain ⟨e, he, rfl⟩ := mem_map.mp hp
  exact mem_map_of_mem (OrdMap.mem_emplace_of_mem 0 he)

/-- A routing table changes neither the log nor what has been committed. -/
theorem configures_hbCallback (self : Nat) (row : List Nat) :
    b.Configures (b.hbCallback self row) := by
  cases row with
  | nil => exact .refl b
  | cons master slaves =>
    have hSlave : ∀ (b : BucketMgr) (srvId : Nat), b.Configures
        (if self = srvId then
          (if self = master then b.addPeer srvId else b).registCommitCB
          else if self = master then b.addPeer srvId else b) := by
      intro b srvId
      have hAdd : b.Configures (if self = master then b.addPeer srvId else b) := by
        split
        · exact configures_addPeer b srvId
        · exact .refl b
      split
      · exact hAdd.trans (configures_registCommitCB _)
      · exact hAdd
    have hAll : ∀ (b : BucketMgr), b.Configures (slaves.foldl
        (fun b srvId =>
          let b := if self = master then b.addPeer srvId else b
          if self = srvId then b.registCommitCB else b) b) := by
      induction slaves with
      | nil => exact .refl
      | cons srvId slaves ih => exact fun b => (hSlave b srvId).trans (ih _)
    have hMaster : b.Configures (if self = master then b.registCommitCB else b) := by
      split
      · exact configures_registCommitCB b
      · exact .refl b
    exact hMaster.trans (hAll _)

end BucketMgr

-- What a step of the system does

namespace Replicas

/-- The messages still in flight once the action has taken its message. -/
def netAfter (s : Replicas) : ReplicaAction → List Message
  | .deliver k again _ => if again then s.net else s.net.eraseIdx k
  | .lose k => s.net.eraseIdx k
  | _ => s.net

/-- Under an action, the bucket manager of server `n` becomes `b` and sends `out`. -/
inductive Acts [DumpEntryCodec] (s : Replicas) :
    ReplicaAction → Nat → BucketMgr → List Message → Prop
  | put (head : ConnHead) (entry : DumpEntry) (hRoom : hasRoom (s.nodes s.master) 1 = true) :
      Acts s (.put head entry) s.master
        ((s.nodes s.master).appendEntris s.master ⟨head, entry⟩).1
        ((s.nodes s.master).appendEntris s.master ⟨head, entry⟩).2
  | dump {k : Nat} {m : Dump} (again : Bool) (head : ConnHead) (hMsg : s.net[k]? = some (.dump m))
      (hRoom : hasRoom (s.nodes m.dst) m.entries.length = true) :
      Acts s (.deliver k again head) m.dst ((s.nodes m.dst).processDump head m).1
        [((s.nodes m.dst).processDump head m).2]
  | dumpReturn {k : Nat} {r : DumpReturn} {out : BucketMgr × List Message} (again : Bool)
      (head : ConnHead) (hMsg : s.net[k]? = some (.dumpReturn r))
      (hOut : (s.nodes r.dst).rpcHandler r.dst r = some out) :
      Acts s (.deliver k again head) r.dst out.1 out.2
  | hbCallback (n : Nat) (row : List Nat) :
      Acts s (.hbCallback n row) n ((s.nodes n).hbCallback n row) []
  | bucketHeartbeat (n commitidx : Nat) (hLt : commitidx < 2 ^ 64) :
      Acts s (.bucketHeartbeat n commitidx) n ((s.nodes n).commit commitidx) []
  | wake {n : Nat} {c : Commiter LogData}
      (hWake : (s.nodes n).commiter.wake (s.nodes n).walog.entryAt = some c) :
      Acts s (.wake n) n { s.nodes n with commiter := c } []

/-- The system after server `n` has acted under `a`. -/
def acted (s : Replicas) (a : ReplicaAction) (n : Nat) (b : BucketMgr) (out : List Message) :
    Replicas :=
  { s.set n b with net := s.netAfter a ++ out }

@[simp] theorem acted_nodes_self (s : Replicas) (a : ReplicaAction) (n : Nat) (b : BucketMgr)
    (out : List Message) : (s.acted a n b out).nodes n = b := by
  simp [acted, set]

@[simp] theorem acted_nodes_of_ne (s : Replicas) (a : ReplicaAction) {n n' : Nat} (h : n' ≠ n)
    (b : BucketMgr) (out : List Message) : (s.acted a n b out).nodes n' = s.nodes n' := by
  simp [acted, set, h]

theorem mem_netAfter {s : Replicas} {a : ReplicaAction} {m : Message} (h : m ∈ s.netAfter a) :
    m ∈ s.net := by
  unfold netAfter at h
  split at h
  · split at h
    · exact h
    · exact mem_of_mem_eraseIdx h
  · exact mem_of_mem_eraseIdx h
  · exact h

theorem mem_acted_net {s : Replicas} {a : ReplicaAction} {n : Nat} {b : BucketMgr}
    {out : List Message} {m : Message} :
    m ∈ (s.acted a n b out).net ↔ m ∈ s.netAfter a ∨ m ∈ out :=
  mem_append

/-- What a step can do: one server acts, a message is lost, or clients turn to
another master. -/
inductive Steps [DumpEntryCodec] (s : Replicas) : ReplicaAction → Replicas → Prop
  | act {a : ReplicaAction} {n : Nat} {b : BucketMgr} {out : List Message} (h : Acts s a n b out) :
      Steps s a (s.acted a n b out)
  | lose (k : Nat) : Steps s (.lose k) { s with net := s.netAfter (.lose k) }
  | route (master : Nat) : Steps s (.route master) { s with master := master }

section Runs

variable [DumpEntryCodec] {s s' s₀ : Replicas} {a : ReplicaAction} {n : Nat} {b : BucketMgr}
  {out : List Message}

/-- Every step of the system is one of `Steps`. -/
theorem step_steps (h : s.step a = some s') : s.Steps a s' := by
  cases a with
  | put head entry =>
    simp only [step] at h
    split at h
    · rename_i hRoom
      cases h
      exact .act (.put head entry hRoom)
    · cases h
  | deliver k again head =>
    simp only [step] at h
    split at h
    · cases h
    · rename_i m hMsg
      cases m with
      | dump m =>
        simp only [handle] at h
        split at h
        · rename_i hRoom
          cases h
          exact .act (.dump again head hMsg hRoom)
        · cases h
      | dumpReturn r =>
        obtain ⟨out, hOut, rfl⟩ := Option.map_eq_some_iff.mp h
        exact .act (.dumpReturn again head hMsg hOut)
  | lose k =>
    simp only [step] at h
    split at h
    · cases h
      exact .lose k
    · cases h
  | route master =>
    cases h
    exact .route master
  | hbCallback n row =>
    cases h
    have hAct := Steps.act (Acts.hbCallback (s := s) n row)
    rwa [acted, append_nil] at hAct
  | bucketHeartbeat n commitidx =>
    simp only [step] at h
    split at h
    · rename_i hLt
      cases h
      have hAct := Steps.act (Acts.bucketHeartbeat (s := s) n commitidx hLt)
      rwa [acted, append_nil] at hAct
    · cases h
  | wake n =>
    obtain ⟨c, hWake, rfl⟩ := Option.map_eq_some_iff.mp h
    have hAct := Steps.act (Acts.wake hWake)
    rwa [acted, append_nil] at hAct

/-- A server's log is only ever extended. -/
theorem Acts.grows (h : s.Acts a n b out) : (s.nodes n).walog.entries <+: b.walog.entries := by
  cases h with
  | put head entry _ =>
    obtain ⟨_, -, hEq⟩ := (s.nodes s.master).appendEntris_eq s.master ⟨head, entry⟩
    rw [hEq, SegLog.append_entries]
    exact prefix_append _ _
  | @dump k m again head _ _ =>
    unfold BucketMgr.processDump
    split
    · exact prefix_refl _
    · show _ <+: ((s.nodes m.dst).writeEntries head m.entries).walog.entries
      rw [BucketMgr.writeEntries_entries]
      exact prefix_append _ _
  | dumpReturn _ _ _ hOut =>
    obtain ⟨_, -, hEq, -⟩ := BucketMgr.rpcHandler_eq hOut
    rw [hEq]
  | hbCallback n row =>
    obtain ⟨_, _, -, hEq⟩ := (s.nodes n).configures_hbCallback n row
    rw [hEq]
  | bucketHeartbeat n commitidx _ => exact prefix_refl _
  | wake _ => exact prefix_refl _

theorem step_grows (h : s.step a = some s') (n : Nat) :
    (s.nodes n).walog.entries <+: (s'.nodes n).walog.entries := by
  cases step_steps h with
  | @act _ n' b out hActs =>
    by_cases hn : n = n'
    · subst hn
      rw [acted_nodes_self]
      exact hActs.grows
    · rw [acted_nodes_of_ne s a hn]
  | lose k => exact prefix_refl _
  | route master => exact prefix_refl _

-- Peers

/-- Only a routing table changes who a server's peers are. -/
theorem Acts.peers (h : s.Acts a n b out) (hTable : ∀ row, a ≠ .hbCallback n row) :
    b.peers.keys = (s.nodes n).peers.keys := by
  cases h with
  | put head entry _ =>
    obtain ⟨_, hKeys, hEq⟩ := (s.nodes s.master).appendEntris_eq s.master ⟨head, entry⟩
    rw [hEq]
    exact hKeys
  | @dump k m again head _ _ =>
    unfold BucketMgr.processDump
    split <;> rfl
  | dumpReturn _ _ _ hOut =>
    obtain ⟨_, hKeys, hEq, -⟩ := BucketMgr.rpcHandler_eq hOut
    rw [hEq]
    exact hKeys
  | hbCallback n row => exact absurd rfl (hTable row)
  | bucketHeartbeat n commitidx _ => rfl
  | wake _ => rfl

/-- Peers are never removed. -/
theorem Acts.peers_mem (h : s.Acts a n b out) {p : Nat} (hp : p ∈ (s.nodes n).peers.keys) :
    p ∈ b.peers.keys := by
  by_cases hTable : ∃ row, a = .hbCallback n row
  · obtain ⟨row, rfl⟩ := hTable
    cases h with
    | hbCallback _ _ =>
      obtain ⟨_, _, hKeys, hEq⟩ := (s.nodes n).configures_hbCallback n row
      rw [hEq]
      exact hKeys p hp
  · rw [h.peers fun row hEq => hTable ⟨row, hEq⟩]
    exact hp

/-- Every message in flight belongs to an exchange with a registered peer. -/
def PeersKnown (s : Replicas) : Prop :=
  ∀ m ∈ s.net, m.ends.2 ∈ (s.nodes m.ends.1).peers.keys

/-- What a server sends belongs to an exchange with a registered peer. -/
theorem Acts.ends (h : s.Acts a n b out) (hKnown : s.PeersKnown) {m : Message} (hm : m ∈ out) :
    m.ends.2 ∈ (s.nodes m.ends.1).peers.keys := by
  cases h with
  | put head entry _ =>
    obtain ⟨_, -, hEq⟩ := (s.nodes s.master).appendEntris_eq s.master ⟨head, entry⟩
    rw [hEq] at hm
    obtain ⟨e, he, rfl⟩ := mem_map.mp hm
    exact mem_map_of_mem he
  | @dump k m' again head hMsg _ =>
    obtain ⟨r, hEq, hSrc, hDst, -⟩ := (s.nodes m'.dst).processDump_answer head m'
    rw [mem_singleton, hEq] at hm
    subst hm
    have hEnds := hKnown _ (mem_of_getElem? hMsg)
    simpa only [Message.ends, hSrc, hDst] using hEnds
  | @dumpReturn k r out _ _ hMsg hOut =>
    obtain ⟨_, -, -, hSent⟩ := BucketMgr.rpcHandler_eq hOut
    rw [hSent] at hm
    split at hm
    · rw [mem_singleton] at hm
      subst hm
      exact hKnown (.dumpReturn r) (mem_of_getElem? hMsg)
    · simp at hm
  | hbCallback n row => simp at hm
  | bucketHeartbeat n commitidx _ => simp at hm
  | wake _ => simp at hm

theorem step_peersKnown (h : s.PeersKnown) (hStep : s.step a = some s') : s'.PeersKnown := by
  intro m hm
  cases step_steps hStep with
  | @act _ n b out hActs =>
    have hBefore : m.ends.2 ∈ (s.nodes m.ends.1).peers.keys := by
      rcases mem_acted_net.mp hm with hm | hm
      · exact h m (mem_netAfter hm)
      · exact hActs.ends h hm
    by_cases hn : m.ends.1 = n
    · rw [hn] at hBefore ⊢
      rw [acted_nodes_self]
      exact hActs.peers_mem hBefore
    · rw [acted_nodes_of_ne s a hn]
      exact hBefore
  | lose k => exact h m (@mem_netAfter s (.lose k) _ hm)
  | route master => exact h m hm

variable {as : List ReplicaAction} {k : Nat} {r : DumpReturn}

theorem run_peersKnown (hNet : s₀.net = []) (hRun : run step s₀ as = some s) : s.PeersKnown := by
  have hStart : s₀.PeersKnown := by
    intro m hm
    simp [hNet] at hm
  exact run_keeps (fun _ _ _ => step_peersKnown) hStart hRun

/-- An answer in flight finds the peer it came from: `rpcHandler` never follows
`peers.end()`, so handling it is never refused. -/
theorem PeersKnown.answer_handled (h : s.PeersKnown) (hMsg : s.net[k]? = some (.dumpReturn r))
    (again : Bool) (head : ConnHead) : (s.step (.deliver k again head)).isSome := by
  have hPeer : r.src ∈ (s.nodes r.dst).peers.keys := h _ (mem_of_getElem? hMsg)
  obtain ⟨next, hNext⟩ := Option.isSome_iff_exists.mp (OrdMap.find?_isSome_iff.mpr hPeer)
  simp only [step, hMsg, handle, Option.isSome_map]
  show ((s.nodes r.dst).rpcHandler r.dst r).isSome
  unfold BucketMgr.rpcHandler
  rw [hNext]
  dsimp only
  split_ifs <;> rfl

/-- **Answers are handled.** In every run, whatever is lost, repeated or overtaken, an answer
finds the peer it came from at the server that it gets to. -/
theorem answers_handled (hNet : s₀.net = []) (hRun : run step s₀ as = some s)
    (hMsg : s.net[k]? = some (.dumpReturn r)) (again : Bool) (head : ConnHead) :
    (s.step (.deliver k again head)).isSome :=
  (run_peersKnown hNet hRun).answer_handled hMsg again head

end Runs

open PlainEntries in
/-- A put from server 1 to server 2: the answer of server 2 is the second message. -/
theorem answers_handled_put :
    ∃ s, run step (fresh 1) [.hbCallback 1 [1, 2], .put default default, .deliver 0 true default] =
      some s ∧ (s.step (.deliver 1 true default)).isSome := by
  have hReached : ∃ s, run step (fresh 1) [.hbCallback 1 [1, 2], .put default default,
      .deliver 0 true default] = some s ∧ ∃ r, s.net[1]? = some (.dumpReturn r) := ⟨_, rfl, _, rfl⟩
  obtain ⟨s, hRun, r, hMsg⟩ := hReached
  exact ⟨s, hRun, answers_handled rfl hRun hMsg true default⟩

end Replicas

end MyBase
