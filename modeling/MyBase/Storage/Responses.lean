import MyBase.Storage.Replicas

/-!
# MyBase — who gets the response to a put

A put is not answered where it is processed. `StorageServer::process` logs it
together with the connection it came over, and the commit callback, when the index is
committed, writes a response with the put's channel id to the connection it finds in
the log entry. Every replica runs the same callback; in its log the connection is the
one the entry arrived over in a DUMP request, and nothing tells the callback that no
put was received there.

`StorageCluster.step` is any number of buckets on any number of servers, each bucket as
in `Storage/Replicas.lean`, with the request frames the servers receive and the
response frames they write.

Main results:

* `responses_answer_requests` — then every response answers a request of the same
  connection, and none is answered twice;
* `replica_answers_dump_connection` — the commit on a replica writes the channel id of
  the put to the connection of the master.
-/

namespace MyBase

open Lib List

/-- The connection `sendResponse` looks for. -/
def ConnHead.conn (h : ConnHead) : UInt32 × UInt32 := (h.sockIndex, h.sockCreate)

/-- A request or a response: the server, the connection to it, and the channel id. -/
structure Frame where
  server : Nat
  conn : UInt32 × UInt32
  channelid : UInt32
deriving DecidableEq, Repr

/-- The response `StorageServer::commit` writes for a log entry. -/
def LogData.response (d : LogData) (server : Nat) : Frame :=
  ⟨server, d.head.conn, d.entry.channelid⟩

/-- The index the commiter thread is about to pass to the callback, with its entry. -/
def BucketMgr.committing (b : BucketMgr) : Option (Nat × Option LogData) :=
  match b.commiter.running with
  | some (i, idx) => if i ≤ idx ∧ b.commiter.commitCB then some (i, b.walog.entryAt i) else none
  | none => none

/-- A put that a server has received and logged. -/
structure LoggedPut where
  bucket : Nat
  server : Nat
  idx : Nat
  frame : Frame
deriving DecidableEq, Repr

structure StorageCluster where
  buckets : Nat → Replicas
  /-- Requests received. -/
  requests : List Frame
  /-- Responses written. -/
  responses : List Frame
  /-- Puts whose index has not been passed to the callback where they were logged. -/
  unanswered : List LoggedPut

inductive ClusterAction
  /-- Something happens to bucket `b`. A DUMP request arrives with this channel id, a
  bucket heartbeat also over this connection. -/
  | bucket (b : Nat) (a : ReplicaAction) (head : ConnHead) (channelid : UInt32)
  /-- A request that is answered at once and changes nothing: GET, or a DUMP that
  cannot be parsed. -/
  | get (server : Nat) (head : ConnHead) (channelid : UInt32)
  /-- A request that is not answered: too old, of unknown type, or a PUT or bucket
  heartbeat that cannot be parsed. -/
  | drop (server : Nat) (head : ConnHead) (channelid : UInt32)
deriving DecidableEq, Repr

/-- The frames that go with an action. -/
inductive Exchange
  | silent
  /-- A request and its response. -/
  | served (f : Frame)
  /-- A put, logged at index `i`. -/
  | logged (f : Frame) (i : Nat)
  /-- The callback runs on a server for index `i`. -/
  | committed (server i : Nat) (data : Option LogData)
deriving DecidableEq, Repr

namespace StorageCluster

def fresh (masters : Nat → Nat) : StorageCluster :=
  ⟨fun b => Replicas.fresh (masters b), [], [], []⟩

def exchange (r : Replicas) (head : ConnHead) (channelid : UInt32) : ReplicaAction → Exchange
  | .put h entry => .logged ⟨r.master, h.conn, entry.channelid⟩ (r.nodes r.master).nextIndex
  | .deliver k _ h =>
    match r.net[k]? with
    | some (.dump m) => .served ⟨m.dst, h.conn, channelid⟩
    | _ => .silent
  | .bucketHeartbeat n _ => .served ⟨n, head.conn, channelid⟩
  | .wake n =>
    match (r.nodes n).committing with
    | some (i, data) => .committed n i data
    | none => .silent
  | _ => .silent

/-- Record the frames. `StorageServer::commit` dereferences what `entryAt` returned. -/
def record (s : StorageCluster) (b : Nat) : Exchange → Option StorageCluster
  | .silent => some s
  | .served f => some { s with requests := s.requests ++ [f], responses := s.responses ++ [f] }
  | .logged f i =>
    some
      { s with
        requests := s.requests ++ [f]
        unanswered := s.unanswered ++ [⟨b, f.server, i, f⟩] }
  | .committed _ _ none => none
  | .committed n i (some d) =>
    some
      { s with
        responses := s.responses ++ [d.response n]
        unanswered := s.unanswered.erase ⟨b, n, i, d.response n⟩ }

def step [DumpEntryCodec] (s : StorageCluster) : ClusterAction → Option StorageCluster
  | .bucket b a head channelid =>
    ((s.buckets b).step a).bind fun r =>
      { s with buckets := Function.update s.buckets b r }.record b
        (exchange (s.buckets b) head channelid a)
  | .get n head channelid =>
    some
      { s with
        requests := s.requests ++ [⟨n, head.conn, channelid⟩]
        responses := s.responses ++ [⟨n, head.conn, channelid⟩] }
  | .drop n head channelid =>
    some { s with requests := s.requests ++ [⟨n, head.conn, channelid⟩] }

/-- An index that is passed to the callback on a server was logged there by a put, and
has not been passed to it before. -/
def CommitsOwnPuts (s : StorageCluster) : ClusterAction → Prop
  | .bucket b (.wake n) _ _ =>
    ∀ c ∈ ((s.buckets b).nodes n).committing, ∃ u ∈ s.unanswered,
      u.bucket = b ∧ u.server = n ∧ u.idx = c.1
  | _ => True

instance (s : StorageCluster) : (a : ClusterAction) → Decidable (s.CommitsOwnPuts a)
  | .bucket b (.wake n) _ _ =>
    inferInstanceAs (Decidable (∀ c ∈ ((s.buckets b).nodes n).committing, ∃ u ∈ s.unanswered,
      u.bucket = b ∧ u.server = n ∧ u.idx = c.1))
  | .bucket _ (.put ..) _ _ | .bucket _ (.deliver ..) _ _ | .bucket _ (.lose _) _ _
  | .bucket _ (.route _) _ _ | .bucket _ (.hbCallback ..) _ _ | .bucket _ (.bucketHeartbeat ..) _ _
  | .get .. | .drop .. => inferInstanceAs (Decidable True)

-- Responses against requests

/-- The log entry of an unanswered put still says whom to answer. -/
def Logged (s : StorageCluster) (u : LoggedPut) : Prop :=
  ∃ d, ((s.buckets u.bucket).nodes u.server).walog.entryAt u.idx = some d ∧
    u.frame = d.response u.server

structure Balanced (s : StorageCluster) : Prop where
  counts : ∀ f, s.responses.count f + (s.unanswered.map LoggedPut.frame).count f ≤
    s.requests.count f
  logged : ∀ u ∈ s.unanswered, s.Logged u

theorem fresh_balanced (masters : Nat → Nat) : (fresh masters).Balanced where
  counts := by simp [fresh]
  logged := by simp [fresh]

section Runs

variable [DumpEntryCodec] {s s' : StorageCluster} {u : LoggedPut} {b : Nat} {r : Replicas}
  {head : ConnHead} {channelid : UInt32}

variable {i n : Nat} {a : ReplicaAction} {data : Option LogData}

theorem Logged.step (h : s.Logged u) (hStep : (s.buckets b).step a = some r) :
    { s with buckets := Function.update s.buckets b r }.Logged u := by
  obtain ⟨d, hAt, hFrame⟩ := h
  refine ⟨d, ?_, hFrame⟩
  by_cases hb : u.bucket = b
  · subst hb
    obtain ⟨hPos, hGet⟩ := SegLog.entryAt_eq_some.mp hAt
    obtain ⟨more, hMore⟩ := Replicas.step_grows hStep u.server
    simp only [Function.update_self]
    refine SegLog.entryAt_eq_some.mpr ⟨hPos, ?_⟩
    rw [← hMore, getElem?_append_left (List.getElem?_eq_some_iff.mp hGet).1]
    exact hGet
  · simpa [hb] using hAt

theorem logged_put {entry : DumpEntry} (hStep : (s.buckets b).step (.put head entry) = some r) :
    { s with buckets := Function.update s.buckets b r }.Logged
      ⟨b, (s.buckets b).master, ((s.buckets b).nodes (s.buckets b).master).nextIndex,
        ⟨(s.buckets b).master, head.conn, entry.channelid⟩⟩ := by
  refine ⟨⟨head, entry⟩, ?_, rfl⟩
  simp only [Function.update_self]
  simp only [Replicas.step] at hStep
  split at hStep
  · cases hStep
    obtain ⟨peers, -, hEq⟩ := ((s.buckets b).nodes (s.buckets b).master).appendEntris_eq
      (s.buckets b).master ⟨head, entry⟩
    simp only [Replicas.set, Function.update_self, hEq]
    refine SegLog.entryAt_eq_some.mpr ⟨by simp [BucketMgr.nextIndex, SegLog.nextIdx], ?_⟩
    simp [BucketMgr.nextIndex, SegLog.nextIdx, SegLog.lastIdx, SegLog.append_entries]
  · cases hStep

omit [DumpEntryCodec] in
theorem exchange_eq_logged {f : Frame} (h : exchange r head channelid a = .logged f i) :
    ∃ h entry, a = .put h entry ∧ f = ⟨r.master, h.conn, entry.channelid⟩ ∧
      i = (r.nodes r.master).nextIndex := by
  unfold exchange at h
  split at h
  · rename_i conn entry
    cases h
    exact ⟨conn, entry, rfl, rfl, rfl⟩
  · split at h <;> cases h
  · cases h
  · split at h <;> cases h
  · cases h

omit [DumpEntryCodec] in
theorem exchange_eq_committed (h : exchange r head channelid a = .committed n i data) :
    a = .wake n ∧ (r.nodes n).committing = some (i, data) := by
  unfold exchange at h
  split at h
  · cases h
  · split at h <;> cases h
  · cases h
  · split at h
    · rename_i hCommitting
      cases h
      exact ⟨rfl, hCommitting⟩
    · cases h
  · cases h

omit [DumpEntryCodec] in
theorem committing_entry {b : BucketMgr} (h : b.committing = some (i, data)) :
    data = b.walog.entryAt i := by
  unfold BucketMgr.committing at h
  split at h
  · split at h
    · cases h
      rfl
    · cases h
  · cases h

omit [DumpEntryCodec] in
/-- An own put that is committed is no longer unanswered, and has its response. -/
theorem Balanced.committed (h : s.Balanced) {d : LogData}
    (hAt : ((s.buckets b).nodes n).walog.entryAt i = some d)
    (hOwn : ∃ u ∈ s.unanswered, u.bucket = b ∧ u.server = n ∧ u.idx = i) (f : Frame) :
    (s.responses ++ [d.response n]).count f +
      ((s.unanswered.erase ⟨b, n, i, d.response n⟩).map LoggedPut.frame).count f ≤
      s.requests.count f := by
  obtain ⟨u, hu, rfl, rfl, rfl⟩ := hOwn
  obtain ⟨d', hAt', hFrame⟩ := h.logged u hu
  obtain rfl : d = d' := Option.some.inj (hAt.symm.trans hAt')
  have hEq : (⟨u.bucket, u.server, u.idx, d.response u.server⟩ : LoggedPut) = u := by
    rw [← hFrame]
  have hPerm := ((perm_cons_erase hu).map LoggedPut.frame).count_eq f
  have hBefore := h.counts f
  rw [hEq, count_append, ← hFrame, count_singleton]
  rw [hPerm, map_cons, count_cons] at hBefore
  omega

/-- **Step lemma.** -/
theorem Balanced.step {a : ClusterAction} (h : s.Balanced) (hOwn : s.CommitsOwnPuts a)
    (hStep : s.step a = some s') : s'.Balanced := by
  have hCounts := h.counts
  cases a with
  | get n head channelid =>
    cases hStep
    refine ⟨?_, h.logged⟩
    intro f
    have hf := hCounts f
    simp only [count_append]
    omega
  | drop n head channelid =>
    cases hStep
    refine ⟨?_, h.logged⟩
    intro f
    have hf := hCounts f
    simp only [count_append]
    omega
  | bucket b a head channelid =>
    obtain ⟨r, hr, hRecord⟩ := Option.bind_eq_some_iff.mp hStep
    have hLogged : ∀ u ∈ s.unanswered,
        { s with buckets := Function.update s.buckets b r }.Logged u :=
      fun u hu => (h.logged u hu).step hr
    cases hExchange : exchange (s.buckets b) head channelid a with
    | silent =>
      rw [hExchange] at hRecord
      cases hRecord
      exact ⟨hCounts, hLogged⟩
    | served f =>
      -- the request is answered at once
      rw [hExchange] at hRecord
      cases hRecord
      refine ⟨?_, hLogged⟩
      intro f'
      have hf := hCounts f'
      simp only [count_append]
      omega
    | logged f i =>
      -- the answer waits for the commit
      rw [hExchange] at hRecord
      cases hRecord
      refine ⟨?_, ?_⟩
      · intro f'
        have hf := hCounts f'
        simp only [count_append, map_append, map_cons, map_nil]
        omega
      · intro u hu
        rcases mem_append.mp hu with hu | hu
        · exact hLogged u hu
        · rw [mem_singleton.mp hu]
          obtain ⟨h', entry, rfl, rfl, rfl⟩ := exchange_eq_logged hExchange
          exact logged_put hr
    | committed n i data =>
      -- the commit of an own put answers it
      obtain ⟨rfl, hCommitting⟩ := exchange_eq_committed hExchange
      have hData := committing_entry hCommitting
      rw [hExchange] at hRecord
      cases data with
      | none => cases hRecord
      | some d =>
        cases hRecord
        refine ⟨h.committed hData.symm (hOwn _ hCommitting), ?_⟩
        intro u hu
        exact hLogged u (mem_of_mem_erase hu)

/-- In every run along which servers commit nothing but the puts they have received
themselves, and these once, every response a server has written to a connection carries
the channel id of a request it has received over this connection, and no request has
been answered twice. -/
theorem responses_answer_requests (masters : Nat → Nat) (as : List ClusterAction)
    (hRun : run step (fresh masters) as = some s)
    (hOwn : Along step CommitsOwnPuts (fresh masters) as) (f : Frame) :
    s.responses.count f ≤ s.requests.count f := by
  have hBalanced : s.Balanced :=
    run_invariant (fun _ _ _ hOwn h hStep => Balanced.step h hOwn hStep)
      (fresh_balanced masters) hOwn hRun
  exact (Nat.le_add_right _ _).trans (hBalanced.counts f)

end Runs

/-- A connection of a client, and one of the master to a replica. -/
def clientHead : ConnHead := ⟨3, 1000, 1000, 0, 0⟩

def masterHead : ConnHead := ⟨4, 1000, 1000, 0, 0⟩

open PlainEntries in
/-- A put with channel id 77 is logged at the master and committed there. -/
theorem responses_answer_requests_one_put :
    ∃ s, run step (fresh fun _ => 1)
        [.bucket 0 (.hbCallback 1 [1, 2]) default 0,
          .bucket 0 (.put clientHead { (default : DumpEntry) with channelid := 77 }) default 0,
          .bucket 0 (.bucketHeartbeat 1 1) masterHead 5,
          .bucket 0 (.wake 1) default 0, .bucket 0 (.wake 1) default 0,
          .bucket 0 (.wake 1) default 0] = some s ∧
      ⟨1, clientHead.conn, 77⟩ ∈ s.responses ∧
      s.responses.count ⟨1, clientHead.conn, 77⟩ ≤ s.requests.count ⟨1, clientHead.conn, 77⟩ := by
  refine run_reaches_then (Q := fun s => ⟨1, clientHead.conn, 77⟩ ∈ s.responses)
    (by decide +kernel) fun s hRun hMem => ?_
  exact ⟨hMem, responses_answer_requests _ _ hRun (by decide +kernel) _⟩

open PlainEntries in
/-- The put is replicated to server 2 over the master's connection and committed on both
servers. Server 2 writes a response with channel id 77 to the master, which has sent no
request with this id. -/
theorem replica_answers_dump_connection :
    ∃ s, run step (fresh fun _ => 1)
        [.bucket 0 (.hbCallback 1 [1, 2]) default 0, .bucket 0 (.hbCallback 2 [1, 2]) default 0,
          .bucket 0 (.put clientHead { (default : DumpEntry) with channelid := 77 }) default 0,
          -- the replica refuses index 2, and the entry is sent from index 1 on
          .bucket 0 (.deliver 0 false masterHead) default 0,
          .bucket 0 (.deliver 0 false default) default 0,
          .bucket 0 (.deliver 0 false masterHead) default 1,
          .bucket 0 (.deliver 0 false default) default 0,
          -- the master commits
          .bucket 0 (.wake 1) default 0, .bucket 0 (.wake 1) default 0,
          .bucket 0 (.wake 1) default 0, .bucket 0 (.wake 1) default 0,
          .bucket 0 (.deliver 0 false masterHead) default 2,
          .bucket 0 (.deliver 0 false default) default 0,
          .bucket 0 (.deliver 0 false masterHead) default 3,
          -- and so does the replica
          .bucket 0 (.wake 2) default 0, .bucket 0 (.wake 2) default 0,
          .bucket 0 (.wake 2) default 0] = some s ∧
      ((⟨2, masterHead.conn, 77⟩ : Frame) ∈ s.responses ∧
        (⟨2, masterHead.conn, 77⟩ : Frame) ∉ s.requests) := run_reaches (by decide +kernel)

end StorageCluster

end MyBase
