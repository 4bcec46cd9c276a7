import MyBase.Rpc.Client
import MyBase.Storage.Replicas

/-!
# MyBase — the rpc clients a storage server shares between its buckets

Every bucket manager numbers its own requests, from 0 on; `RpcMgr::createClient`
gives all of them the same client for the same peer; and the client finds the
callback of an answer by the number alone. `nextSeq` numbers the requests to the meta
server, which go through clients of their own.

`StorageRpc.step` is one server with all of this: a routing table, a put, a thread
that draws a number or calls `request`, a step of a client's thread, or an answer,
which runs `rpcHandler` of the bucket whose callback was found. A thread can be
overtaken between any two of these. What the peers answer, and when, is left open.

Main results:

* `answers_find_their_bucket` — then the numbers of the outstanding requests of a
  client differ, and an answer is handed to the request it answers;
* `answer_to_other_bucket` — two buckets with a common peer both send it request 0,
  and the first takes the answer to the second for its own.
-/

namespace MyBase

open Lib List

/-- Who draws sequence numbers: a bucket manager, or the server itself for its
heartbeats and migration reports. -/
inductive Sender
  | bucket (b : Nat)
  | server
deriving DecidableEq, Repr

/-- A client of `peerpc` or of `clirpc`. -/
inductive ClientId
  | peer (srvId : Nat)
  | metaServer (srvId : Nat)
deriving DecidableEq, Repr

/-- The `n`-th number a sender draws, from an atomic `uint32_t`; `nextSeq` starts at 1. -/
def Sender.nextSequence : Sender → Nat → Nat
  | .bucket _, n => n % 2 ^ 32
  | .server, n => (n + 1) % 2 ^ 32

/-- A request is the `n`-th of its sender. -/
abbrev StorageCtx : Type := ClientCtx (Sender × Nat)

structure StorageRpc where
  self : Nat
  bucketCount : Nat
  bucketMgr : Nat → BucketMgr
  /-- How many numbers each sender has drawn. -/
  drawn : Sender → Nat
  /-- Requests that have no number yet. -/
  building : List (Sender × ClientId)
  /-- Requests with a number that have not reached `Client::request` yet. -/
  calling : List (ClientId × StorageCtx)
  /-- What `createClient` returns. -/
  clients : ClientId → RpcClient (Sender × Nat)

inductive StorageRpcAction
  /-- The row of bucket `b` in a new routing table. -/
  | hbCallback (b : Nat) (row : List Nat)
  /-- A client put for bucket `b`. -/
  | put (b : Nat) (log : LogData)
  /-- A heartbeat or a migration report. -/
  | report (srvId : Nat)
  /-- The `k`-th request being built gets its number. -/
  | draw (k : Nat)
  /-- The `k`-th request with a number is passed to `Client::request`. -/
  | request (k : Nat)
  /-- Anything a client does that is not an answer to a DUMP request: its thread, its
  connection, its timers, and all other frames. -/
  | client (id : ClientId) (a : ClientAction (Sender × Nat))
  /-- A peer answers the DUMP request `r`. -/
  | answer (srvId : Nat) (r : StorageCtx) (ret : DumpReturn)
deriving DecidableEq, Repr

namespace StorageRpc

/-- A server that has just learnt how many buckets there are. -/
def fresh (self bucketCount : Nat) (walog : Nat → SegLog LogData) : StorageRpc where
  self := self
  bucketCount := bucketCount
  bucketMgr := fun b => BucketMgr.opened (walog b)
  drawn := fun _ => 0
  building := []
  calling := []
  clients := fun _ => RpcClient.init

/-- Bucket `b` becomes `m` and goes on to send `out`. -/
def setBucket (s : StorageRpc) (b : Nat) (m : BucketMgr) (out : List Message) : StorageRpc :=
  { s with
    bucketMgr := Function.update s.bucketMgr b m
    building := s.building ++ out.map fun msg => (.bucket b, .peer msg.ends.2) }

def setClient (s : StorageRpc) (id : ClientId) (c : RpcClient (Sender × Nat)) : StorageRpc :=
  { s with clients := Function.update s.clients id c }

@[simp] theorem setBucket_self (s : StorageRpc) (b : Nat) (m : BucketMgr) (out : List Message) :
    (s.setBucket b m out).bucketMgr b = m := Function.update_self ..

theorem setBucket_of_ne (s : StorageRpc) {b b' : Nat} (m : BucketMgr) (out : List Message)
    (h : b' ≠ b) : (s.setBucket b m out).bucketMgr b' = s.bucketMgr b' :=
  Function.update_of_ne h ..

@[simp] theorem setClient_self (s : StorageRpc) (id : ClientId) (c : RpcClient (Sender × Nat)) :
    (s.setClient id c).clients id = c := Function.update_self ..

variable {id : ClientId} {s s' : StorageRpc} {r : StorageCtx}

theorem setClient_of_ne (s : StorageRpc) {id' : ClientId} (c : RpcClient (Sender × Nat))
    (h : id' ≠ id) : (s.setClient id c).clients id' = s.clients id' := Function.update_of_ne h ..

/-- The request whose callback `Client::recv` finds for a frame. -/
def callbackOf (s : StorageRpc) (id : ClientId) (seq : Nat) : Option (Sender × Nat) :=
  ((s.clients id).ctxs.find? seq).map ClientCtx.call

def step [DumpEntryCodec] (s : StorageRpc) : StorageRpcAction → Option StorageRpc
  | .hbCallback b row =>
    if b < s.bucketCount then some (s.setBucket b ((s.bucketMgr b).hbCallback s.self row) [])
    else none
  | .put b log =>
    if b < s.bucketCount ∧ Replicas.hasRoom (s.bucketMgr b) 1 = true then
      let out := (s.bucketMgr b).appendEntris s.self log
      some (s.setBucket b out.1 out.2)
    else none
  | .report srvId => some { s with building := s.building ++ [(.server, .metaServer srvId)] }
  | .draw k =>
    match s.building[k]? with
    | none => none
    | some (sender, id) =>
      let n := s.drawn sender
      some
        { s with
          drawn := Function.update s.drawn sender (n + 1)
          building := s.building.eraseIdx k
          calling := s.calling ++ [(id, ⟨(sender, n), sender.nextSequence n⟩)] }
  | .request k =>
    match s.calling[k]? with
    | none => none
    | some (id, r) =>
      ((s.clients id).step (.request r)).map fun c =>
        { s.setClient id c with calling := s.calling.eraseIdx k }
  | .client _ (.request _) => none
  | .client id a => ((s.clients id).step a).map (s.setClient id)
  | .answer srvId r ret =>
    if r ∈ (s.clients (.peer srvId)).sent then
      let s' := s.setClient (.peer srvId) ((s.clients (.peer srvId)).complete r.sequence .ok)
      match s.callbackOf (.peer srvId) r.sequence with
      | some (.bucket b, _) =>
        ((s.bucketMgr b).rpcHandler s.self ret).map fun out => s'.setBucket b out.1 out.2
      | _ => some s'
    else none

/-- A routing table makes no server a peer of a bucket that is one of another bucket. -/
def PeersAlone (s : StorageRpc) : StorageRpcAction → Prop
  | .hbCallback b row =>
    row.head? = some s.self → ∀ p ∈ row.tail, ∀ b' < s.bucketCount, b' ≠ b →
      p ∉ (s.bucketMgr b').peers.keys
  | _ => True

instance (s : StorageRpc) (a : StorageRpcAction) : Decidable (s.PeersAlone a) := by
  cases a <;> unfold PeersAlone <;> infer_instance

/-- The senders that use a client have drawn fewer than 2^32 numbers. -/
def Few (s : StorageRpc) : ClientId → Prop
  | .peer _ => ∀ b < s.bucketCount, s.drawn (.bucket b) < 2 ^ 32
  | .metaServer _ => s.drawn .server < 2 ^ 32

-- Whose client it is

/-- A sender has to do with a client. -/
def Owns (s : StorageRpc) : Sender → ClientId → Prop
  | .bucket b, .peer p => p ∈ (s.bucketMgr b).peers.keys
  | .server, .metaServer _ => True
  | _, _ => False

/-- `r` is a request of a sender that has to do with the client. -/
structure Issued (s : StorageRpc) (id : ClientId) (r : StorageCtx) : Prop where
  owns : s.Owns r.call.1 id
  drawn : r.call.2 < s.drawn r.call.1
  sequence : r.sequence = r.call.1.nextSequence r.call.2

/-- Peers are only added, numbers only drawn. -/
structure Grows (s s' : StorageRpc) : Prop where
  bucketCount : s'.bucketCount = s.bucketCount
  peers : ∀ b, ∀ p ∈ (s.bucketMgr b).peers.keys, p ∈ (s'.bucketMgr b).peers.keys
  drawn : ∀ sender, s.drawn sender ≤ s'.drawn sender

theorem Owns.mono (hGrows : s.Grows s') {sender : Sender} (h : s.Owns sender id) :
    s'.Owns sender id := by
  cases sender with
  | bucket b =>
    cases id with
    | peer p => exact hGrows.peers b p h
    | metaServer srvId => exact h.elim
  | server =>
    cases id with
    | peer p => exact h.elim
    | metaServer srvId => trivial

theorem Issued.mono (hGrows : s.Grows s') (h : s.Issued id r) : s'.Issued id r :=
  ⟨h.owns.mono hGrows, h.drawn.trans_le (hGrows.drawn _), h.sequence⟩

theorem Few.anti (hGrows : s.Grows s') (h : s'.Few id) : s.Few id := by
  cases id with
  | peer p =>
    intro b hb
    exact (hGrows.drawn _).trans_lt (h b (hGrows.bucketCount ▸ hb))
  | metaServer srvId => exact (hGrows.drawn _).trans_lt h

structure Ledger (s : StorageRpc) : Prop where
  outside : ∀ b, s.bucketCount ≤ b → (s.bucketMgr b).peers.keys = []
  alone : ∀ b b' p, p ∈ (s.bucketMgr b).peers.keys → p ∈ (s.bucketMgr b').peers.keys → b = b'
  building : ∀ e ∈ s.building, s.Owns e.1 e.2
  calling : ∀ e ∈ s.calling, s.Issued e.1 e.2 ∧ ∀ id, e.2 ∉ (s.clients id).requested
  calling_nodup : (s.calling.map Prod.snd).Nodup
  requested : ∀ id, ∀ r ∈ (s.clients id).requested, s.Issued id r
  clients : ∀ id, s.Few id → (s.clients id).Inv

/-- A client has one sender only, whose numbers differ. -/
theorem Ledger.unique (h : s.Ledger) (hFew : s.Few id) {r' : StorageCtx} (hr : s.Issued id r)
    (hr' : s.Issued id r') (hSeq : r.sequence = r'.sequence) : r = r' := by
  obtain ⟨⟨sender, n⟩, q⟩ := r
  obtain ⟨⟨sender', n'⟩, q'⟩ := r'
  obtain ⟨hOwns, hDrawn, hq⟩ := hr
  obtain ⟨hOwns', hDrawn', hq'⟩ := hr'
  dsimp only at hOwns hDrawn hOwns' hDrawn' hSeq hq hq'
  subst hq hq'
  cases id with
  | peer p =>
    cases sender with
    | server => exact hOwns.elim
    | bucket b =>
      cases sender' with
      | server => exact hOwns'.elim
      | bucket b' =>
        -- no other bucket has this peer
        obtain rfl : b = b' := h.alone b b' p hOwns hOwns'
        have hb : b < s.bucketCount := by
          by_contra hb
          have hMem : p ∈ (s.bucketMgr b).peers.keys := hOwns
          simp [h.outside b (by omega)] at hMem
        have hBound := hFew b hb
        have hEq : n = n' := by
          rw [Sender.nextSequence, Sender.nextSequence, Nat.mod_eq_of_lt (by omega),
            Nat.mod_eq_of_lt (by omega)] at hSeq
          exact hSeq
        rw [hEq]
  | metaServer srvId =>
    cases sender with
    | bucket b => exact hOwns.elim
    | server =>
      cases sender' with
      | bucket b' => exact hOwns'.elim
      | server =>
        have hBound : s.drawn .server < 2 ^ 32 := hFew
        have hEq : n = n' := by
          rw [Sender.nextSequence, Sender.nextSequence, Nat.mod_eq_of_lt (by omega),
            Nat.mod_eq_of_lt (by omega)] at hSeq
          omega
        rw [hEq]

theorem fresh_ledger (self bucketCount : Nat) (walog : Nat → SegLog LogData) :
    (fresh self bucketCount walog).Ledger where
  outside := fun _ _ => rfl
  alone := by
    intro b b' p hp
    simp [fresh, BucketMgr.opened, OrdMap.keys] at hp
  building := by simp [fresh]
  calling := by simp [fresh]
  calling_nodup := nodup_nil
  requested := by simp [fresh, RpcClient.init]
  clients := fun _ _ => RpcClient.init_inv

end StorageRpc

-- The peers of a bucket manager

namespace BucketMgr

/-- A routing table adds the slaves of a bucket this server is the master of. -/
theorem mem_hbCallback_peers {b : BucketMgr} {self p : Nat} {row : List Nat}
    (h : p ∈ (b.hbCallback self row).peers.keys) :
    p ∈ b.peers.keys ∨ row.head? = some self ∧ p ∈ row.tail := by
  cases row with
  | nil => exact .inl h
  | cons master slaves =>
    have hAll : ∀ (slaves : List Nat) (b : BucketMgr), p ∈ (slaves.foldl
        (fun b srvId =>
          let b := if self = master then b.addPeer srvId else b
          if self = srvId then b.registCommitCB else b) b).peers.keys →
        p ∈ b.peers.keys ∨ master = self ∧ p ∈ slaves := by
      intro slaves
      induction slaves with
      | nil => exact fun b hb => .inl hb
      | cons srvId slaves ih =>
        intro b hb
        rcases ih _ hb with hp | ⟨hEq, hp⟩
        · have hAdd : p ∈ (if self = master then b.addPeer srvId else b).peers.keys := by
            dsimp only at hp
            split at hp
            · exact hp
            · exact hp
          split at hAdd
          · rename_i hEq
            rcases OrdMap.mem_keys_emplace hAdd with rfl | hOld
            · exact .inr ⟨hEq.symm, mem_cons_self⟩
            · exact .inl hOld
          · exact .inl hAdd
        · exact .inr ⟨hEq, mem_cons_of_mem _ hp⟩
    rcases hAll slaves _ h with hp | ⟨hEq, hp⟩
    · refine .inl ?_
      split at hp
      · exact hp
      · exact hp
    · exact .inr ⟨by rw [hEq]; rfl, hp⟩

theorem rpcHandler_peer {b : BucketMgr} {self : Nat} {r : DumpReturn}
    {out : BucketMgr × List Message} (h : b.rpcHandler self r = some out) :
    r.src ∈ b.peers.keys := by
  refine OrdMap.find?_isSome_iff.mp ?_
  unfold rpcHandler at h
  split at h
  · cases h
  · rename_i next hFind
    rw [hFind]
    rfl

end BucketMgr

-- Steps

namespace StorageRpc

variable {s : StorageRpc} {b : Nat} {m : BucketMgr} {id : ClientId}

theorem grows_setBucket (out : List Message)
    (hKeys : ∀ p ∈ (s.bucketMgr b).peers.keys, p ∈ m.peers.keys) :
    s.Grows (s.setBucket b m out) := by
  refine ⟨rfl, ?_, fun _ => le_refl _⟩
  intro b' p hp
  by_cases hb : b' = b
  · subst hb
    simpa [setBucket] using hKeys p hp
  · simpa [setBucket, hb] using hp

/-- A bucket manager gets peers no other bucket has, and sends to its peers. -/
theorem Ledger.setBucket (h : s.Ledger) {out : List Message} (hb : b < s.bucketCount)
    (hKeys : ∀ p ∈ (s.bucketMgr b).peers.keys, p ∈ m.peers.keys)
    (hNew : ∀ p ∈ m.peers.keys, ∀ b', b' ≠ b → p ∉ (s.bucketMgr b').peers.keys)
    (hOut : ∀ msg ∈ out, msg.ends.2 ∈ m.peers.keys) : (s.setBucket b m out).Ledger := by
  have hGrows := grows_setBucket out hKeys
  have hSelf := s.setBucket_self b m out
  have hOther : ∀ b', b' ≠ b → (s.setBucket b m out).bucketMgr b' = s.bucketMgr b' :=
    fun b' hb' => s.setBucket_of_ne m out hb'
  refine ⟨?_, ?_, ?_, ?_, h.calling_nodup, ?_, ?_⟩
  · intro b' hb'
    have hCount : s.bucketCount ≤ b' := hb'
    rw [hOther b' (by omega)]
    exact h.outside b' hb'
  · intro b₁ b₂ p h₁ h₂
    by_cases hb₁ : b₁ = b
    · by_cases hb₂ : b₂ = b
      · rw [hb₁, hb₂]
      · rw [hb₁, hSelf] at h₁
        rw [hOther b₂ hb₂] at h₂
        exact absurd h₂ (hNew p h₁ b₂ hb₂)
    · rw [hOther b₁ hb₁] at h₁
      by_cases hb₂ : b₂ = b
      · rw [hb₂, hSelf] at h₂
        exact absurd h₁ (hNew p h₂ b₁ hb₁)
      · rw [hOther b₂ hb₂] at h₂
        exact h.alone b₁ b₂ p h₁ h₂
  · intro e he
    rcases mem_append.mp he with he | he
    · exact (h.building e he).mono hGrows
    · obtain ⟨msg, hmsg, rfl⟩ := mem_map.mp he
      show msg.ends.2 ∈ ((s.setBucket b m out).bucketMgr b).peers.keys
      rw [hSelf]
      exact hOut msg hmsg
  · intro e he
    exact ⟨(h.calling e he).1.mono hGrows, (h.calling e he).2⟩
  · intro id r hr
    exact (h.requested id r hr).mono hGrows
  · intro id hFew
    exact h.clients id (hFew.anti hGrows)

theorem grows_setClient (s : StorageRpc) (id : ClientId) (c : RpcClient (Sender × Nat)) :
    s.Grows (s.setClient id c) :=
  ⟨rfl, fun _ _ hp => hp, fun _ => le_refl _⟩

/-- The client of one peer changes. -/
theorem Ledger.setClient (h : s.Ledger) {c : RpcClient (Sender × Nat)}
    (hReq : c.requested = (s.clients id).requested) (hInv : (s.clients id).Inv → c.Inv) :
    (s.setClient id c).Ledger := by
  have hSame : ∀ id', ((s.setClient id c).clients id').requested = (s.clients id').requested := by
    intro id'
    by_cases hId : id' = id
    · rw [hId, setClient_self, hReq]
    · rw [setClient_of_ne s c hId]
  refine ⟨h.outside, h.alone, h.building, ?_, h.calling_nodup, ?_, ?_⟩
  · intro e he
    refine ⟨(h.calling e he).1.mono (grows_setClient s id c), ?_⟩
    intro id'
    rw [hSame]
    exact (h.calling e he).2 id'
  · intro id' r hr
    rw [hSame] at hr
    exact (h.requested id' r hr).mono (grows_setClient s id c)
  · intro id' hFew
    by_cases hId : id' = id
    · rw [hId] at hFew ⊢
      rw [setClient_self]
      exact hInv (h.clients id hFew)
    · rw [setClient_of_ne s c hId]
      exact h.clients id' hFew

theorem Ledger.ne_of_mem_eraseIdx (h : s.Ledger) {k : Nat} {r : StorageCtx}
    (hGet : s.calling[k]? = some (id, r)) {e : ClientId × StorageCtx}
    (he : e ∈ s.calling.eraseIdx k) : e.2 ≠ r := by
  intro hEq
  have hGetSnd : (s.calling.map Prod.snd)[k]? = some r := by
    rw [getElem?_map, hGet]
    rfl
  have hIn : r ∈ (s.calling.map Prod.snd).eraseIdx k := by
    rw [eraseIdx_map, ← hEq]
    exact mem_map_of_mem he
  obtain ⟨hk, hr⟩ := List.getElem?_eq_some_iff.mp hGetSnd
  rw [← h.calling_nodup.erase_getElem k hk, hr] at hIn
  exact h.calling_nodup.not_mem_erase hIn

/-- The peers of a bucket are no peers of another. -/
theorem Ledger.own (h : s.Ledger) {p : Nat} (hp : p ∈ (s.bucketMgr b).peers.keys) :
    ∀ b', b' ≠ b → p ∉ (s.bucketMgr b').peers.keys :=
  fun b' hb' hp' => hb' (h.alone b' b p hp' hp)

theorem Ledger.report (h : s.Ledger) (srvId : Nat) :
    Ledger { s with building := s.building ++ [(.server, .metaServer srvId)] } := by
  have hGrows : s.Grows { s with building := s.building ++ [(.server, .metaServer srvId)] } :=
    ⟨rfl, fun _ _ hp => hp, fun _ => le_refl _⟩
  refine ⟨h.outside, h.alone, ?_, ?_, h.calling_nodup, ?_, h.clients⟩
  · intro e he
    rcases mem_append.mp he with he | he
    · exact (h.building e he).mono hGrows
    · rw [mem_singleton.mp he]
      trivial
  · intro e he
    exact ⟨(h.calling e he).1.mono hGrows, (h.calling e he).2⟩
  · intro id r hr
    exact (h.requested id r hr).mono hGrows

/-- An answer may make its bucket send again. -/
theorem Ledger.rpcHandler (h : s.Ledger) {ret : DumpReturn} {out : BucketMgr × List Message}
    (hOut : (s.bucketMgr b).rpcHandler s.self ret = some out) :
    (s.setBucket b out.1 out.2).Ledger := by
  have hPeer := BucketMgr.rpcHandler_peer hOut
  obtain ⟨peers, hKeys, hEq, hSent⟩ := BucketMgr.rpcHandler_eq hOut
  have hPeers : out.1.peers.keys = (s.bucketMgr b).peers.keys := by
    rw [hEq]
    exact hKeys
  have hb : b < s.bucketCount := by
    by_contra hb
    rw [h.outside b (by omega)] at hPeer
    exact not_mem_nil hPeer
  refine h.setBucket hb ?_ ?_ ?_
  · intro p hp
    rw [hPeers]
    exact hp
  · intro p hp
    exact h.own (hPeers ▸ hp)
  · intro msg hmsg
    rw [hPeers]
    rw [hSent] at hmsg
    split at hmsg
    · rw [mem_singleton.mp hmsg]
      exact hPeer
    · simp at hmsg

section Runs

variable [DumpEntryCodec] {s s' : StorageRpc} {b k : Nat} {id : ClientId}

section Ledger

variable (h : s.Ledger)
include h

/-- A sender draws its next sequence number. -/
theorem Ledger.draw (hStep : s.step (.draw k) = some s') : s'.Ledger := by
  simp only [StorageRpc.step] at hStep
  split at hStep
  · cases hStep
  · rename_i sender id hGet
    have hOwns : s.Owns sender id := h.building _ (mem_of_getElem? hGet)
    have hGrows : s.Grows s' := by
      cases hStep
      refine ⟨rfl, fun _ _ hp => hp, ?_⟩
      intro sender'
      by_cases hEq : sender' = sender
      · simp [hEq]
      · simp [hEq]
    -- every number given out so far is smaller
    have hOld : ∀ id' (r : StorageCtx), s.Issued id' r →
        r ≠ ⟨(sender, s.drawn sender), sender.nextSequence (s.drawn sender)⟩ := by
      rintro id' r hr rfl
      exact absurd hr.drawn (lt_irrefl _)
    cases hStep
    refine ⟨h.outside, h.alone, ?_, ?_, ?_, ?_, ?_⟩
    · intro e he
      exact (h.building e (mem_of_mem_eraseIdx he)).mono hGrows
    · intro e he
      rcases mem_append.mp he with he | he
      · exact ⟨(h.calling e he).1.mono hGrows, (h.calling e he).2⟩
      · rw [mem_singleton.mp he]
        refine ⟨⟨hOwns.mono hGrows, by simp, rfl⟩, ?_⟩
        intro id' hIn
        exact hOld id' _ (h.requested id' _ hIn) rfl
    · rw [map_append]
      refine nodup_append.mpr ⟨h.calling_nodup, nodup_singleton _, ?_⟩
      intro r hr r' hr'
      obtain ⟨e, he, rfl⟩ := mem_map.mp hr
      rw [mem_singleton.mp hr']
      exact hOld e.1 e.2 (h.calling e he).1
    · intro id' r hr
      exact (h.requested id' r hr).mono hGrows
    · intro id' hFew
      exact h.clients id' (hFew.anti hGrows)

/-- A request reaches its client, whose other requests have other numbers. -/
theorem Ledger.request (hStep : s.step (.request k) = some s') : s'.Ledger := by
  simp only [StorageRpc.step] at hStep
  split at hStep
  · cases hStep
  · rename_i id r hGet
    obtain ⟨c, hClient, rfl⟩ := Option.map_eq_some_iff.mp hStep
    have hMem := mem_of_getElem? hGet
    obtain ⟨hIssued, hNew⟩ := h.calling _ hMem
    have hReq : c.requested = (s.clients id).requested ++ [r] := by
      cases RpcClient.steps_of_step hClient with
      | request hNew => rfl
    have hGrows : s.Grows { s.setClient id c with calling := s.calling.eraseIdx k } :=
      ⟨rfl, fun _ _ hp => hp, fun _ => le_refl _⟩
    refine ⟨h.outside, h.alone, h.building, ?_, ?_, ?_, ?_⟩
    · intro e he
      have heOld := mem_of_mem_eraseIdx he
      refine ⟨(h.calling e heOld).1.mono hGrows, ?_⟩
      intro id'
      show e.2 ∉ ((s.setClient id c).clients id').requested
      by_cases hId : id' = id
      · rw [hId, setClient_self, hReq, mem_append, mem_singleton, not_or]
        exact ⟨(h.calling e heOld).2 id, h.ne_of_mem_eraseIdx hGet he⟩
      · rw [setClient_of_ne s c hId]
        exact (h.calling e heOld).2 id'
    · show ((s.calling.eraseIdx k).map Prod.snd).Nodup
      rw [← eraseIdx_map]
      exact h.calling_nodup.eraseIdx k
    · intro id' r' hr'
      refine Issued.mono hGrows ?_
      have hr' : r' ∈ ((s.setClient id c).clients id').requested := hr'
      by_cases hId : id' = id
      · rw [hId, setClient_self, hReq, mem_append, mem_singleton] at hr'
        rw [hId]
        rcases hr' with hr' | rfl
        · exact h.requested id r' hr'
        · exact hIssued
      · rw [setClient_of_ne s c hId] at hr'
        exact h.requested id' r' hr'
    · intro id' hFew
      have hFew : s.Few id' := hFew.anti hGrows
      show ((s.setClient id c).clients id').Inv
      by_cases hId : id' = id
      · subst hId
        rw [setClient_self]
        -- its number is not that of an outstanding request
        refine (h.clients id' hFew).step ?_ hClient
        intro r' hr' _ hSeq
        have hEq := h.unique hFew (h.requested id' r' hr') hIssued hSeq
        exact hNew id' (hEq ▸ hr')
      · rw [setClient_of_ne s c hId]
        exact h.clients id' hFew

/-- A bucket gets its peers. -/
theorem Ledger.hbCallback {row : List Nat} (hAlone : s.PeersAlone (.hbCallback b row))
    (hStep : s.step (.hbCallback b row) = some s') : s'.Ledger := by
  simp only [StorageRpc.step] at hStep
  split at hStep
  · rename_i hb
    cases hStep
    obtain ⟨_, _, hKeys, hEq⟩ := (s.bucketMgr b).configures_hbCallback s.self row
    refine h.setBucket hb ?_ ?_ (by simp)
    · intro p hp
      rw [hEq]
      exact hKeys p hp
    · intro p hp b' hb'
      rcases BucketMgr.mem_hbCallback_peers hp with hOld | ⟨hHead, hTail⟩
      · exact h.own hOld b' hb'
      · by_cases hIn : b' < s.bucketCount
        · exact hAlone hHead p hTail b' hIn hb'
        · rw [h.outside b' (by omega)]
          exact not_mem_nil
  · cases hStep

/-- A put makes its bucket send. -/
theorem Ledger.put {log : LogData} (hStep : s.step (.put b log) = some s') : s'.Ledger := by
  simp only [StorageRpc.step] at hStep
  split at hStep
  · rename_i hb
    cases hStep
    obtain ⟨peers, hKeys, hEq⟩ := (s.bucketMgr b).appendEntris_eq s.self log
    rw [hEq]
    refine h.setBucket hb.1 ?_ ?_ ?_
    · intro p hp
      exact hKeys ▸ hp
    · intro p hp
      exact h.own (hKeys ▸ hp)
    · intro msg hmsg
      obtain ⟨e, he, rfl⟩ := mem_map.mp hmsg
      show e.1 ∈ peers.keys
      rw [hKeys]
      exact mem_map_of_mem he
  · cases hStep

theorem Ledger.client {a : ClientAction (Sender × Nat)} (hStep : s.step (.client id a) = some s') :
    s'.Ledger := by
  have hClient : (∀ r, a ≠ .request r) ∧
      ((s.clients id).step a).map (s.setClient id) = some s' := by
    cases a with
    | request r => cases hStep
    | _ => exact ⟨fun r => by simp, hStep⟩
  obtain ⟨hNot, hMap⟩ := hClient
  obtain ⟨c, hc, rfl⟩ := Option.map_eq_some_iff.mp hMap
  refine h.setClient (RpcClient.step_requested hNot hc) ?_
  intro hInv
  refine hInv.step ?_ hc
  cases a with
  | request r => exact absurd rfl (hNot r)
  | _ => trivial

/-- A client completes the request of a frame, and the bucket it belongs to handles the
answer. -/
theorem Ledger.answer {srvId : Nat} {r : StorageCtx} {ret : DumpReturn}
    (hStep : s.step (.answer srvId r ret) = some s') : s'.Ledger := by
  simp only [StorageRpc.step] at hStep
  split at hStep
  · have hClient : (s.setClient (.peer srvId)
        ((s.clients (.peer srvId)).complete r.sequence .ok)).Ledger := by
      refine h.setClient (RpcClient.complete_requested _ _ _) ?_
      intro hInv
      exact hInv.settles (hInv.settles_complete r.sequence .ok)
    split at hStep
    · obtain ⟨out, hOut, rfl⟩ := Option.map_eq_some_iff.mp hStep
      exact hClient.rpcHandler hOut
    · cases hStep
      exact hClient
  · cases hStep

/-- **Step lemma.** -/
theorem Ledger.step {a : StorageRpcAction} (hAlone : s.PeersAlone a) (hStep : s.step a = some s') :
    s'.Ledger := by
  cases a with
  | hbCallback b row => exact h.hbCallback hAlone hStep
  | put b log => exact h.put hStep
  | report srvId =>
    cases hStep
    exact h.report srvId
  | draw k => exact h.draw hStep
  | request k => exact h.request hStep
  | client id a => exact h.client hStep
  | answer srvId r ret => exact h.answer hStep

end Ledger

/-- **Run lemma.** -/
theorem run_ledger {self bucketCount : Nat} {walog : Nat → SegLog LogData}
    {as : List StorageRpcAction} (hAlone : Along step PeersAlone (fresh self bucketCount walog) as)
    (hRun : run step (fresh self bucketCount walog) as = some s) : s.Ledger :=
  run_invariant (fun _ _ _ hAlone h hStep => Ledger.step h hAlone hStep)
    (fresh_ledger self bucketCount walog) hAlone hRun

/-- In every state a server reaches while its buckets have no peer in common, no two
outstanding requests of a client have the same number, and the answer to a request is
handed to its own callback, or to none if that has been invoked before. -/
theorem answers_find_their_bucket (self bucketCount : Nat) (walog : Nat → SegLog LogData)
    (as : List StorageRpcAction) (hRun : run step (fresh self bucketCount walog) as = some s)
    (hAlone : Along step PeersAlone (fresh self bucketCount walog) as) (id : ClientId)
    (hFew : s.Few id) :
    (∀ r r', (s.clients id).Outstanding r → (s.clients id).Outstanding r' →
      r.sequence = r'.sequence → r = r') ∧
    ∀ r ∈ (s.clients id).sent,
      s.callbackOf id r.sequence =
        if (s.clients id).Outstanding r then some r.call else none := by
  have h := run_ledger hAlone hRun
  have hInv := h.clients id hFew
  refine ⟨?_, ?_⟩
  · intro r r' hr hr'
    exact hInv.distinct r r' (hInv.outstanding_iff.mp hr) (hInv.outstanding_iff.mp hr')
  · intro r hr
    obtain ⟨hReq, hStarted⟩ := hInv.sent r hr
    split
    · rename_i hOut
      rcases hInv.outstanding_iff.mp hOut with hQueued | hArmed
      · exact absurd hQueued hStarted
      · rw [callbackOf, hArmed]
        rfl
    · rename_i hDone
      rw [callbackOf, Option.map_eq_none_iff]
      cases hFind : (s.clients id).ctxs.find? r.sequence with
      | none => rfl
      | some r' =>
        obtain ⟨hSeq, hReq', -⟩ := hInv.keyed _ r' hFind
        have hEq : r' = r := h.unique hFew (h.requested id r' hReq') (h.requested id r hReq) hSeq
        rw [hEq] at hFind
        exact absurd (hInv.outstanding_iff.mpr (.inr hFind)) hDone

end Runs

open PlainEntries in
/-- Two buckets, each with a peer of its own. Bucket 0 sends its peer two requests, bucket 1 sends
one with the same number as the first of them, and every answer finds its request. -/
theorem answers_find_their_bucket_three_puts :
    ∃ s, run step (fresh 1 2 fun _ => SegLog.empty)
        [.hbCallback 0 [1, 2], .hbCallback 1 [1, 3], .put 0 ⟨default, default⟩,
          .put 1 ⟨default, default⟩, .put 0 ⟨default, default⟩, .draw 0, .draw 0, .draw 0,
          .request 0, .request 0, .request 0,
          .client (.peer 2) (.start ⟨(.bucket 0, 0), 0⟩ false),
          .client (.peer 3) (.start ⟨(.bucket 1, 0), 0⟩ false),
          .client (.peer 2) (.start ⟨(.bucket 0, 1), 1⟩ false)] = some s ∧
      s.callbackOf (.peer 2) 0 = some (.bucket 0, 0) ∧
      s.callbackOf (.peer 2) 1 = some (.bucket 0, 1) ∧
      s.callbackOf (.peer 3) 0 = some (.bucket 1, 0) := by
  refine run_reaches_then (Q := fun s => (∀ b < s.bucketCount, s.drawn (.bucket b) < 2 ^ 32) ∧
      ∀ call ∈ [(2, 0, 0), (2, 0, 1), (3, 1, 0)],
        (⟨(.bucket call.2.1, call.2.2), call.2.2⟩ : StorageCtx) ∈ (s.clients (.peer call.1)).sent ∧
        (s.clients (.peer call.1)).Outstanding ⟨(.bucket call.2.1, call.2.2), call.2.2⟩)
    (by decide +kernel) ?_
  rintro s hRun ⟨hFew, hCalls⟩
  have hFound : ∀ call ∈ [(2, 0, 0), (2, 0, 1), (3, 1, 0)],
      s.callbackOf (.peer call.1) call.2.2 = some (.bucket call.2.1, call.2.2) := by
    intro call hCall
    obtain ⟨hSent, hOut⟩ := hCalls call hCall
    exact ((answers_find_their_bucket 1 2 (fun _ => SegLog.empty) _ hRun (by decide +kernel)
      (.peer call.1) hFew).2 _ hSent).trans (if_pos hOut)
  exact ⟨hFound (2, 0, 0) (by simp), hFound (2, 0, 1) (by simp), hFound (3, 1, 0) (by simp)⟩

open PlainEntries in
/-- Server 1 is the master of two buckets, server 2 the replica of both. Each bucket
sends its first request, both with number 0. The answer to the second bucket's goes to
the first, which takes the next index of the other log for its own peer's, and the
second bucket's callback is never invoked. -/
theorem answer_to_other_bucket :
    ∃ s s', run step (fresh 1 2 fun _ => SegLog.empty)
        [.hbCallback 0 [1, 2], .hbCallback 1 [1, 2], .put 0 ⟨default, default⟩,
          .put 1 ⟨default, default⟩, .draw 0, .draw 0, .request 0, .request 0,
          .client (.peer 2) (.start ⟨(.bucket 0, 0), 0⟩ false),
          .client (.peer 2) (.start ⟨(.bucket 1, 0), 0⟩ false)] = some s ∧
      s.step (.answer 2 ⟨(.bucket 1, 0), 0⟩ ⟨2, 1, false, 6, 0⟩) = some s' ∧
      ((s.clients (.peer 2)).Outstanding ⟨(.bucket 0, 0), 0⟩ ∧
        (s.clients (.peer 2)).Outstanding ⟨(.bucket 1, 0), 0⟩ ∧
        s.callbackOf (.peer 2) 0 = some (.bucket 0, 0)) ∧
      (s'.bucketMgr 0).peers.find? 2 = some 6 ∧ (s'.bucketMgr 1).peers.find? 2 = some 2 ∧
        (s'.clients (.peer 2)).Outstanding ⟨(.bucket 1, 0), 0⟩ ∧
        s'.callbackOf (.peer 2) 0 = none :=
  run_reaches_next (by decide +kernel)

end StorageRpc

end MyBase
