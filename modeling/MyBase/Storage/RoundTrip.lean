import MyBase.Storage.Bounds
import MyBase.Storage.OnWal
import MyBase.Wal.Memory

/-!
# MyBase — a put on its way to the commit

A put is laid out five times. The server that accepts it writes a connection header and
the serialised entry; the log puts a length in front; a request to another server has the
record without the length; that server overwrites the header in place and logs the bytes
with a length again; and the commit, on either server, parses what stands at a fixed
offset of the record. `Buffer::pos`, by which the offsets are taken, refuses a position at
the end of a buffer and leaves the old one.

Here servers exchange bytes: every buffer is made from the one before it by the calls of
the source. Beside its log, each server has the list of the puts that its records were
made from, and a request carries the puts of the records it was read from. Any server may
accept puts, and requests may be lost, repeated, and delivered to any server in any order.

Main results:

* `commitDecode_frame` — the commit finds the entry in a record, whatever its header;
* `Carried.step` / `carried_run` — every record, in a file or in a request, has the entry
  of the put beside it;
* `commit_decodes_puts` — so the commit of any server decodes the put that was accepted.
-/

namespace MyBase

open Lib DumpEntryCodec List

-- The layouts

/-- A `KvRequestPut`, with the channel it came on. -/
structure PutRequest where
  channelid : UInt32
  ns : UInt32
  key : Bytes
  val : Bytes
  expired : UInt32
  version : UInt32
deriving DecidableEq, Repr

/-- `KV_REQ_MESSAGE_PUT`. -/
def kvReqMessagePut : UInt32 := 1

/-- The `DumpEntry` of a put. -/
def PutRequest.entry (r : PutRequest) : DumpEntry where
  channelid := r.channelid
  mtype := kvReqMessagePut
  ns := r.ns
  key := r.key
  val := r.val
  expired := r.expired
  version := r.version

/-- The `log` of a put. -/
def PutRequest.log [DumpEntryCodec] (head : ConnHead) (r : PutRequest) : Bytes :=
  LogData.encode ⟨head, r.entry⟩

/-- What `requestAppendEntries` adds to the request, of a record that it has read. -/
def dumpEntry (buf : Bytes) : Bytes := ((Buffer.wrap buf).pos 4).curData

/-- The entry that `StorageServer::commit` decodes from a record. -/
def commitDecode [DumpEntryCodec] (data : Bytes) : Option DumpEntry :=
  (Buffer.wrap data).readInt32.bind fun (_, data) =>
  (data.pos 4).readInt32.bind fun (_, data) =>
  data.readInt32.bind fun (_, data) => parse (data.pos 22).curData

/-- The commit of index `i` reads a record and decodes `e` from it. -/
def Session.Commits [DumpEntryCodec] (pf : Platform) (w : Session) (i : Nat) (e : DumpEntry) :
    Prop :=
  ∃ record, w.entryAtMem pf i = .ok (some record) ∧ commitDecode record = some e

-- The servers

/-- A server's log of one bucket. `puts` is what its records were made from. -/
structure LogNode where
  wal : Session
  puts : List PutRequest

/-- A `KvRequestDump` for the bucket. -/
structure LogDump where
  nextidx : Nat
  entries : List Bytes
  puts : List PutRequest

structure LogCluster where
  nodes : Nat → LogNode
  net : List LogDump

inductive LogAction
  /-- Server `n` gets a put on the connection `head`. -/
  | put (n : Nat) (head : ConnHead) (r : PutRequest)
  /-- Server `n` sends its records from `next` on. -/
  | requestAppendEntries (n next : Nat)
  /-- Server `n` gets the `k`-th request that was sent, on the connection `head`. -/
  | dump (k n : Nat) (head : ConnHead)

namespace LogCluster

def fresh (w₀ : Session) : LogCluster where
  nodes := fun _ => ⟨w₀, []⟩
  net := []

def setNode (c : LogCluster) (n : Nat) (node : LogNode) : LogCluster :=
  { c with nodes := Function.update c.nodes n node }

/-- One action; `none` if the server does not get through it. A put is accepted if its
record has room in a buffer, and as long as indices last. -/
def step [DumpEntryCodec] (pf : Platform) (c : LogCluster) : LogAction → Option LogCluster
  | .put n head r =>
    let node := c.nodes n
    if (r.log head).length ≤ maxPayload ∧ node.wal.wal.lastIdx < maxIndex then
      some (c.setNode n ⟨node.wal.appendLog pf (r.log head), node.puts ++ [r]⟩)
    else none
  | .requestAppendEntries n next =>
    let node := c.nodes n
    let lastIdx := node.wal.wal.lastIdx
    let next := if next = 0 then lastIdx + 1 else next
    match node.wal.logEntriesMem pf next lastIdx with
    | .error _ => none
    | .ok vec =>
      some { c with net := c.net ++
        [⟨next, vec.map dumpEntry, (node.puts.drop (next - 1)).take vec.length⟩] }
  | .dump k n head =>
    let node := c.nodes n
    match c.net[k]? with
    | none => none
    | some m =>
      if node.wal.wal.nextIdx ≠ m.nextidx then some c
      else if maxIndex < node.wal.wal.lastIdx + m.entries.length then none
      else
        (m.entries.mapM (stampEntry head)).bind fun datas =>
          (node.wal.writeAll pf m.nextidx datas).map fun wal =>
            c.setNode n ⟨wal, node.puts ++ m.puts⟩

@[simp] theorem setNode_self (c : LogCluster) (n : Nat) (node : LogNode) :
    (c.setNode n node).nodes n = node := Function.update_self ..

/-- The other nodes stay as they are. -/
theorem setNode_of_ne (c : LogCluster) {n n' : Nat} (h : n' ≠ n) (node : LogNode) :
    (c.setNode n node).nodes n' = c.nodes n' := Function.update_of_ne h ..

/-- What holds of every node and of the new one holds of every node afterwards. -/
theorem forall_setNode {c : LogCluster} {Q : LogNode → Prop} (h : ∀ n, Q (c.nodes n)) (n : Nat)
    {node : LogNode} (hNode : Q node) (n' : Nat) : Q ((c.setNode n node).nodes n') := by
  by_cases hn : n' = n
  · rw [hn, setNode_self]
    exact hNode
  · rw [setNode_of_ne c hn]
    exact h n'

end LogCluster

-- One record

section Records

variable [DumpEntryCodec]

/-- The payload is a header, any one, and the entry of the put. -/
def PutRequest.CarriedBy (payload : Bytes) (r : PutRequest) : Prop :=
  payload.length ≤ maxPayload ∧ ∃ head, payload = r.log head

namespace PutRequest

variable {payload : Bytes} {r : PutRequest}

/-- A record is the eighteen bytes of the connection and the entry. -/
theorem log_length (head : ConnHead) (r : PutRequest) :
    (r.log head).length = 18 + (serialize r.entry).length := by
  rw [log, LogData.encode, length_append, ConnHead.encode_length]

/-- The type of a put is not zero, so its entry has a byte at least. -/
theorem serialize_entry_pos (r : PutRequest) : 0 < (serialize r.entry).length :=
  length_pos_iff.mpr (serialize_ne_nil _ (by simp [entry, kvReqMessagePut]))

/-- A record with an entry in it is not empty. -/
theorem CarriedBy.ne_nil (h : r.CarriedBy payload) : payload ≠ [] := by
  obtain ⟨-, head, rfl⟩ := h
  have hLen := r.log_length head
  exact ne_nil_of_length_pos (by omega)

end PutRequest

omit [DumpEntryCodec] in
/-- Without its length a record is the payload. -/
theorem dumpEntry_frame {payload : Bytes} (h : payload ≠ []) :
    dumpEntry (frame payload) = payload := by
  have hPos := length_pos_iff.mpr h
  rw [dumpEntry, Buffer.wrap, Buffer.pos_of_lt (by simp only [frame_length]; omega)]
  exact drop_left' (be_length 4 _)

/-- **The commit finds the entry** behind the length and the header. -/
theorem commitDecode_frame {payload : Bytes} {r : PutRequest} (h : r.CarriedBy payload) :
    commitDecode (frame payload) = some r.entry := by
  obtain ⟨hSize, head, rfl⟩ := h
  have hLog := r.log_length head
  have hPos := r.serialize_entry_pos
  obtain ⟨data, hData⟩ : ∃ data, data = frame (r.log head) := ⟨_, rfl⟩
  have hLen : data.length = 22 + (serialize r.entry).length := by
    rw [hData, frame_length, hLog]
    omega
  have hEntry : data.drop 22 = serialize r.entry := by
    rw [hData, frame, ← drop_drop (i := 18) (j := 4), drop_left' (be_length 4 _)]
    exact LogData.encode_drop ⟨head, r.entry⟩
  rw [commitDecode, ← hData, Buffer.wrap, Buffer.readInt32_eq_some (by simp only; omega)]
  simp only [Option.bind_some, Nat.zero_add]
  rw [Buffer.pos_of_lt (by simp only; omega), Buffer.readInt32_eq_some (by simp only; omega)]
  simp only [Option.bind_some, Nat.reduceAdd]
  rw [Buffer.readInt32_eq_some (by simp only; omega)]
  simp only [Option.bind_some]
  rw [Buffer.pos_of_lt (by simp only; omega), Buffer.curData, hEntry]
  refine parse_serialize _ ?_
  simp only [maxPayload] at hSize
  omega

/-- Stamping a record succeeds and leaves its entry. -/
theorem PutRequest.CarriedBy.stamp {payload : Bytes} {r : PutRequest} (h : r.CarriedBy payload)
    (head : ConnHead) : ∃ data, stampEntry head payload = some data ∧ r.CarriedBy data := by
  obtain ⟨hSize, head', rfl⟩ := h
  refine ⟨_, stampEntry_encode head ⟨head', r.entry⟩, ?_, head, rfl⟩
  rw [LogData.encode_stamp_length]
  exact hSize

/-- The same for all records of a request. -/
theorem stamp_all {payloads : List Bytes} {puts : List PutRequest}
    (h : List.Forall₂ (fun p r => r.CarriedBy p) payloads puts) (head : ConnHead) :
    ∃ datas, payloads.mapM (stampEntry head) = some datas ∧
      List.Forall₂ (fun p r => r.CarriedBy p) datas puts := by
  induction h with
  | nil => exact ⟨[], rfl, .nil⟩
  | cons hOne _ ih =>
    obtain ⟨data, hStamp, hData⟩ := hOne.stamp head
    obtain ⟨datas, hAll, hDatas⟩ := ih
    exact ⟨data :: datas, by simp [mapM_cons, hStamp, hAll], .cons hData hDatas⟩

-- Runs

/-- The files hold records of the server's puts, in order. -/
def LogNode.Carries (pf : Platform) (node : LogNode) : Prop :=
  ∃ l, Represents pf .empty node.wal l ∧
    List.Forall₂ (fun p r => r.CarriedBy p) l.entries node.puts

namespace LogCluster

/-- Every record, in a file or in a request, has the entry of the put beside it. -/
structure Carried (pf : Platform) (c : LogCluster) : Prop where
  logs : ∀ n, (c.nodes n).Carries pf
  dumps : ∀ m ∈ c.net, List.Forall₂ (fun p r => r.CarriedBy p) m.entries m.puts

/-- What an action does. -/
inductive Steps (pf : Platform) (c : LogCluster) : LogAction → LogCluster → Prop
  | put (n : Nat) (head : ConnHead) (r : PutRequest) (hSize : (r.log head).length ≤ maxPayload)
      (hRoom : (c.nodes n).wal.wal.lastIdx < maxIndex) :
      Steps pf c (.put n head r)
        (c.setNode n ⟨(c.nodes n).wal.appendLog pf (r.log head), (c.nodes n).puts ++ [r]⟩)
  | request (n arg : Nat) {next : Nat} {vec : List Bytes} (hPos : 1 ≤ next)
      (hRead : (c.nodes n).wal.logEntriesMem pf next (c.nodes n).wal.wal.lastIdx = .ok vec) :
      Steps pf c (.requestAppendEntries n arg)
        { c with net := c.net ++ [⟨next, vec.map dumpEntry,
          ((c.nodes n).puts.drop (next - 1)).take vec.length⟩] }
  | refused (k n : Nat) (head : ConnHead) : Steps pf c (.dump k n head) c
  | dump (k n : Nat) (head : ConnHead) {m : LogDump} {datas : List Bytes} {wal : Session}
      (hm : m ∈ c.net) (hNext : (c.nodes n).wal.wal.nextIdx = m.nextidx)
      (hRoom : (c.nodes n).wal.wal.lastIdx + m.entries.length ≤ maxIndex)
      (hStamp : m.entries.mapM (stampEntry head) = some datas)
      (hWrite : (c.nodes n).wal.writeAll pf m.nextidx datas = some wal) :
      Steps pf c (.dump k n head) (c.setNode n ⟨wal, (c.nodes n).puts ++ m.puts⟩)

variable {pf : Platform} {c c' : LogCluster} {a : LogAction}

/-- Every step of the cluster is one of `Steps`. -/
theorem step_steps (h : c.step pf a = some c') : c.Steps pf a c' := by
  cases a with
  | put n head r =>
    simp only [step] at h
    split at h
    next hOk =>
      cases h
      exact .put n head r hOk.1 hOk.2
    next => cases h
  | requestAppendEntries n arg =>
    simp only [step] at h
    split at h
    next => cases h
    next vec hRead =>
      cases h
      refine .request n arg ?_ hRead
      split <;> omega
  | dump k n head =>
    simp only [step] at h
    split at h
    next => cases h
    next m hm =>
    split at h
    next =>
      cases h
      exact .refused k n head
    next hNext =>
    split at h
    next => cases h
    next hRoom =>
      obtain ⟨datas, hStamp, h⟩ := Option.bind_eq_some_iff.mp h
      obtain ⟨wal, hWrite, h⟩ := Option.map_eq_some_iff.mp h
      cases h
      exact .dump k n head (mem_of_getElem? hm) (not_not.mp hNext) (by omega) hStamp hWrite

variable {node : LogNode} {as : List LogAction} {w₀ : Session} {r : PutRequest} {m : LogDump}
  {P : PutRequest → Prop}

/-- A node may be replaced by one whose records carry their puts. -/
theorem Carried.setNode (h : c.Carried pf) (n : Nat) (hNode : node.Carries pf) :
    (c.setNode n node).Carried pf := ⟨forall_setNode h.logs n hNode, h.dumps⟩

/-- The master appends the record of a put, and the put beside it. -/
theorem Carries.put (h : node.Carries pf) {head : ConnHead}
    (hSize : (r.log head).length ≤ maxPayload) (hRoom : node.wal.wal.lastIdx < maxIndex) :
    LogNode.Carries pf ⟨node.wal.appendLog pf (r.log head), node.puts ++ [r]⟩ := by
  obtain ⟨l, hRep, hPuts⟩ := h
  have hLast := hRep.lastIdx_eq_length
  refine ⟨_, hRep.appendLog hSize ?_, ?_⟩
  · show 1 + l.lastIdx ≤ maxIndex
    omega
  · rw [SegLog.append_entries]
    exact rel_append hPuts (.cons ⟨hSize, head, rfl⟩ .nil)

/-- A request has the records from its index on, as many as were read. -/
theorem Carries.request (h : node.Carries pf) {next : Nat} {vec : List Bytes} (hPos : 1 ≤ next)
    (hRead : node.wal.logEntriesMem pf next node.wal.wal.lastIdx = .ok vec) :
    List.Forall₂ (fun p r => r.CarriedBy p) (vec.map dumpEntry)
      ((node.puts.drop (next - 1)).take vec.length) := by
  obtain ⟨l, hRep, hPuts⟩ := h
  have hStart : Base.empty.start = 1 := rfl
  have hVec := Session.logEntriesMem_ok hRead
  rw [hRep.logEntries (hStart ▸ hPos), hStart, Nat.add_sub_cancel, Nat.add_sub_cancel] at hVec
  have hTake := prefix_iff_eq_take.mp (l.logEntries_isPrefix next node.wal.wal.lastIdx)
  have hRecords : List.Forall₂ (fun p r => r.CarriedBy p) (l.logEntries next node.wal.wal.lastIdx)
      ((node.puts.drop (next - 1)).take vec.length) := by
    rw [hVec, length_map]
    nth_rewrite 1 [hTake]
    exact forall₂_take _ (forall₂_drop _ hPuts)
  rw [hVec, length_map, forall₂_map_left_iff, forall₂_map_left_iff]
  rw [hVec, length_map] at hRecords
  refine hRecords.imp ?_
  intro p r hOne
  rw [dumpEntry_frame hOne.ne_nil]
  exact hOne

/-- A request that is not refused can be stamped, and is written behind the last record. -/
theorem Carries.dump (h : node.Carries pf)
    (hm : List.Forall₂ (fun p r => r.CarriedBy p) m.entries m.puts) (head : ConnHead)
    (hNext : node.wal.wal.nextIdx = m.nextidx)
    (hRoom : node.wal.wal.lastIdx + m.entries.length ≤ maxIndex) :
    ∃ datas wal, m.entries.mapM (stampEntry head) = some datas ∧
      node.wal.writeAll pf m.nextidx datas = some wal ∧
      LogNode.Carries pf ⟨wal, node.puts ++ m.puts⟩ := by
  obtain ⟨l, hRep, hPuts⟩ := h
  obtain ⟨datas, hStamp, hDatas⟩ := stamp_all hm head
  have hLast := hRep.lastIdx_eq_length
  have hIdx : m.nextidx = l.nextIdx := by
    rw [← hNext, hRep.nextIdx_eq, SegLog.nextIdx, Nat.add_comm]
    rfl
  have hSmall : ∀ d ∈ datas, d.length ≤ maxPayload := ((forall₂_and_left _ _).mp hDatas).1
  have hCount : l.lastIdx + datas.length ≤ maxIndex := by
    rw [hDatas.length_eq, ← hm.length_eq, ← hLast]
    exact hRoom
  obtain ⟨wal, hWrite, hRep'⟩ := hRep.writeAll hSmall hCount
  rw [← hIdx] at hWrite
  refine ⟨datas, wal, hStamp, hWrite, _, hRep', ?_⟩
  rw [SegLog.foldl_append_entries]
  exact rel_append hPuts hDatas

/-- **Step lemma.** -/
theorem Carried.step (h : c.Carried pf) (hStep : c.step pf a = some c') : c'.Carried pf := by
  cases step_steps hStep with
  | put n head r hSize hRoom => exact h.setNode n (Carries.put (h.logs n) hSize hRoom)
  | request n arg hPos hRead =>
    refine ⟨h.logs, ?_⟩
    intro m hm
    rcases mem_append.mp hm with hm | hm
    · exact h.dumps m hm
    · rw [mem_singleton] at hm
      rw [hm]
      exact Carries.request (h.logs n) hPos hRead
  | refused => exact h
  | dump k n head hm hNext hRoom hStamp hWrite =>
    obtain ⟨datas, wal, hStamp', hWrite', hNode⟩ :=
      Carries.dump (h.logs n) (h.dumps _ hm) head hNext hRoom
    cases hStamp.symm.trans hStamp'
    cases hWrite.symm.trans hWrite'
    exact h.setNode n hNode

/-- A server gets through every request that was sent: stamping stays inside the entries,
and no `writeAt` fails. -/
theorem Carried.dump_isSome (h : c.Carried pf) {k : Nat} (hm : c.net[k]? = some m) (n : Nat)
    (head : ConnHead) (hRoom : (c.nodes n).wal.wal.lastIdx + m.entries.length ≤ maxIndex) :
    (c.step pf (.dump k n head)).isSome := by
  simp only [LogCluster.step, hm]
  split
  next => rfl
  next hNext =>
    obtain ⟨datas, wal, hStamp, hWrite, -⟩ :=
      Carries.dump (h.logs n) (h.dumps m (mem_of_getElem? hm)) head (not_not.mp hNext) hRoom
    rw [if_neg (by omega), hStamp, Option.bind_some, hWrite]
    rfl

/-- **Run lemma.** -/
theorem carried_run (h : c.Carried pf) (hRun : run (LogCluster.step pf) c as = some c') :
    c'.Carried pf :=
  run_keeps (fun _ _ _ hc hStep => Carried.step hc hStep) h hRun

/-- Nodes with empty logs carry no put. -/
theorem fresh_carried (hInit : Session.initial pf ∅ = some w₀) : (fresh w₀).Carried pf := by
  obtain ⟨w, hw, hRep⟩ := Represents.initial_empty pf
  cases hInit.symm.trans hw
  exact ⟨fun _ => ⟨_, hRep, .nil⟩, fun _ hm => nomatch hm⟩

/-- A step takes no put away from a node. -/
theorem step_puts (n : Nat) (hStep : c.step pf a = some c') :
    (c.nodes n).puts <+: (c'.nodes n).puts := by
  have hSet : ∀ n' wal puts, (c.nodes n).puts <+:
      ((c.setNode n' ⟨wal, (c.nodes n').puts ++ puts⟩).nodes n).puts := by
    intro n' wal puts
    by_cases hn : n = n'
    · rw [hn, setNode_self]
      exact prefix_append _ _
    · rw [setNode_of_ne c hn]
  cases step_steps hStep with
  | put n' head r _ _ => exact hSet n' _ _
  | request => exact prefix_rfl
  | refused => exact prefix_rfl
  | dump k n' head _ _ _ _ _ => exact hSet n' _ _

/-- So a put that a node has stays at its index. -/
theorem run_puts (n : Nat) (hRun : run (LogCluster.step pf) c as = some c') :
    (c.nodes n).puts <+: (c'.nodes n).puts := by
  have hKept : ∀ (s : LogCluster) (a : LogAction) (s' : LogCluster),
      (c.nodes n).puts <+: (s.nodes n).puts → s.step pf a = some s' →
      (c.nodes n).puts <+: (s'.nodes n).puts := fun _ _ _ h hStep => h.trans (step_puts n hStep)
  exact run_keeps hKept prefix_rfl hRun

/-- Every put beside a record, in a file or in a request, is one of `P`. -/
structure OnlyPuts (P : PutRequest → Prop) (c : LogCluster) : Prop where
  logs : ∀ n, ∀ r ∈ (c.nodes n).puts, P r
  dumps : ∀ m ∈ c.net, ∀ r ∈ m.puts, P r

omit [DumpEntryCodec] in
/-- A node may be replaced by one that has such puts only. -/
theorem OnlyPuts.setNode (h : c.OnlyPuts P) (n : Nat) (hNode : ∀ r ∈ node.puts, P r) :
    (c.setNode n node).OnlyPuts P :=
  ⟨forall_setNode (Q := fun node => ∀ r ∈ node.puts, P r) h.logs n hNode, h.dumps⟩

/-- New puts come from clients; a request brings those of another node. -/
theorem OnlyPuts.step (h : c.OnlyPuts P) (hPut : ∀ n head r, a = .put n head r → P r)
    (hStep : c.step pf a = some c') : c'.OnlyPuts P := by
  cases step_steps hStep with
  | put n head r _ _ =>
    refine h.setNode n (forall_mem_append.mpr ⟨h.logs n, ?_⟩)
    rw [forall_mem_singleton]
    exact hPut n head r rfl
  | request n arg _ _ =>
    refine ⟨h.logs, forall_mem_append.mpr ⟨h.dumps, ?_⟩⟩
    rw [forall_mem_singleton]
    exact fun r hr => h.logs n r (mem_of_mem_drop (mem_of_mem_take hr))
  | refused => exact h
  | dump k n head hm _ _ _ _ =>
    exact h.setNode n (forall_mem_append.mpr ⟨h.logs n, h.dumps _ hm⟩)

/-- Every put of a node was sent to a master in the run. -/
theorem run_onlyPuts (hRun : run (LogCluster.step pf) (fresh w₀) as = some c) :
    c.OnlyPuts fun r => ∃ n head, .put n head r ∈ as := by
  have hKept : ∀ s a s', a ∈ as → OnlyPuts (fun r => ∃ n head, .put n head r ∈ as) s →
      LogCluster.step pf s a = some s' → OnlyPuts (fun r => ∃ n head, .put n head r ∈ as) s' := by
    intro s a s' ha h hStep
    refine h.step ?_ hStep
    rintro n head r rfl
    exact ⟨n, head, ha⟩
  have hNone : OnlyPuts (fun r => ∃ n head, .put n head r ∈ as) (fresh w₀) :=
    ⟨fun _ _ hr => (nomatch hr), fun _ hm => (nomatch hm)⟩
  exact run_invariant hKept hNone (along_of_forall fun _ ha _ => ha) hRun

/-- A node has a put for every index of its log. -/
theorem Carried.puts_length (h : c.Carried pf) (n : Nat) :
    (c.nodes n).puts.length = (c.nodes n).wal.wal.lastIdx := by
  obtain ⟨l, hRep, hPuts⟩ := h.logs n
  rw [← hPuts.length_eq, hRep.lastIdx_eq_length, SegLog.lastIdx]

/-- The commit of an index decodes the put beside its record. -/
theorem Carried.commits (h : c.Carried pf) {n i : Nat} (hr : (c.nodes n).puts[i]? = some r) :
    (c.nodes n).wal.Commits pf (i + 1) r.entry := by
  obtain ⟨l, hRep, hPuts⟩ := h.logs n
  obtain ⟨hLt, rfl⟩ := List.getElem?_eq_some_iff.mp hr
  have hLen := hPuts.length_eq
  have hCarried := hPuts.get (by omega) hLt
  have hGet : l.entries[i + 1 - 1]? = some (l.entries.get ⟨i, by omega⟩) := by
    simp [getElem?_eq_getElem (by omega : i < l.entries.length)]
  have hRead := hRep.entryAt_of_get (by omega) hGet
  refine ⟨_, Session.entryAtMem_of_entryAt hRead ?_, commitDecode_frame hCarried⟩
  have hSize := hCarried.1
  rw [frame_length]
  simp only [maxPayload] at hSize
  omega

/-- **The commit decodes the put.** On the server that accepted it, from the index it was
logged at; and on every server, from every index, the put whose record was written
there. -/
theorem commit_decodes_puts (hInit : Session.initial pf ∅ = some w₀)
    (hRun : run (LogCluster.step pf) (fresh w₀) as = some c) :
    (∀ before n head r after, as = before ++ .put n head r :: after →
      ∃ c₁, run (LogCluster.step pf) (fresh w₀) before = some c₁ ∧
        (c.nodes n).wal.Commits pf ((c₁.nodes n).wal.wal.lastIdx + 1) r.entry) ∧
    (∀ n i, 1 ≤ i → i ≤ (c.nodes n).wal.wal.lastIdx →
      ∃ r, (c.nodes n).puts[i - 1]? = some r ∧ (∃ m head, .put m head r ∈ as) ∧
        (c.nodes n).wal.Commits pf i r.entry) := by
  have hFresh := fresh_carried hInit
  have hCarried := carried_run hFresh hRun
  constructor
  · intro before n head r after hSplit
    rw [hSplit] at hRun
    obtain ⟨c₁, hBefore, hRest⟩ := run_append.mp hRun
    obtain ⟨c₂, hPut, hAfter⟩ := run_cons_eq_some.mp hRest
    refine ⟨c₁, hBefore, ?_⟩
    rw [← (carried_run hFresh hBefore).puts_length n]
    refine hCarried.commits ?_
    have hLogged : (c₂.nodes n).puts = (c₁.nodes n).puts ++ [r] := by
      cases step_steps hPut with
      | put => rw [setNode_self]
    obtain ⟨rest, hMore⟩ := run_puts n hAfter
    rw [← hMore, hLogged]
    simp
  · intro n i hPos hLast
    rw [← hCarried.puts_length n] at hLast
    obtain ⟨r, hr⟩ : ∃ r, (c.nodes n).puts[i - 1]? = some r :=
      ⟨_, getElem?_eq_getElem (by omega)⟩
    have hCommits := hCarried.commits hr
    rw [Nat.sub_add_cancel hPos] at hCommits
    exact ⟨r, hr, (run_onlyPuts hRun).logs n r (mem_of_getElem? hr), hCommits⟩

end LogCluster

end Records

namespace LogCluster

open PlainEntries in
/-- A put on server 0 that server 1 gets, each with its own connection. -/
theorem commit_decodes_puts_hop :
    let put : PutRequest := ⟨7, 1, [107], [118], 0, 3⟩
    ∃ w₀ c, Session.initial .constant ∅ = some w₀ ∧
      run (LogCluster.step .constant) (fresh w₀)
        [.put 0 ⟨1, 2, 3, 4, 5⟩ put, .requestAppendEntries 0 1, .dump 0 1 ⟨9, 8, 7, 6, 5⟩] =
        some c ∧
      (c.nodes 0).wal.Commits .constant 1 put.entry ∧
      (c.nodes 1).wal.Commits .constant 1 put.entry := by
  intro put
  obtain ⟨w₀, hInit, -⟩ := Represents.initial_empty .constant
  obtain ⟨c, hRun, hPuts₀, hPuts₁⟩ : ∃ c, run (LogCluster.step .constant) (fresh w₀)
      [.put 0 ⟨1, 2, 3, 4, 5⟩ put, .requestAppendEntries 0 1, .dump 0 1 ⟨9, 8, 7, 6, 5⟩] =
      some c ∧ (c.nodes 0).puts = [put] ∧ (c.nodes 1).puts = [put] := by
    cases hInit
    exact run_reaches (by decide +kernel)
  have hLast : ∀ n, (c.nodes n).puts = [put] → (c.nodes n).wal.wal.lastIdx = 1 := by
    intro n hPuts
    rw [← (carried_run (fresh_carried hInit) hRun).puts_length n, hPuts]
    rfl
  obtain ⟨-, hAll⟩ := commit_decodes_puts hInit hRun
  obtain ⟨r₀, hr₀, -, hCommits₀⟩ := hAll 0 1 le_rfl (hLast 0 hPuts₀).ge
  obtain ⟨r₁, hr₁, -, hCommits₁⟩ := hAll 1 1 le_rfl (hLast 1 hPuts₁).ge
  rw [hPuts₀] at hr₀
  rw [hPuts₁] at hr₁
  cases hr₀
  cases hr₁
  exact ⟨w₀, c, hInit, hRun, hCommits₀, hCommits₁⟩

end LogCluster

end MyBase
