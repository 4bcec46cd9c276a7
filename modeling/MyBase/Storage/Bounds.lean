import MyBase.Lib.Run
import MyBase.Public.Buffer
import MyBase.Storage.Entry

/-!
# MyBase — what requests make a storage server access

`bucketMgr` is allocated by the first heartbeat reply, with as many elements as that
says there are buckets; `bucketCount` follows every reply. A PUT computes its bucket
from `bucketCount`, a DUMP and a bucket heartbeat bring theirs along, and nothing is
compared with what was allocated. The entries of a DUMP are stamped with the connection
at fixed positions, and read at fixed positions when they are committed, whatever their
length.

Main results:

* `stampEntry_encode` — an entry that another server has logged is stamped as
  `LogData.stamp` says;
* `accesses_in_bounds_iff` — a run accesses nothing outside exactly if every request
  finds its bucket allocated and its entries long enough;
* `access_out_of_bounds` — a put before the first heartbeat reply, and a DUMP with an
  entry of three bytes.
-/

namespace MyBase

open Lib List

-- Entries

/-- The loop body of `KV_REQ_MESSAGE_DUMP`: overwrite the connection header. -/
def stampEntry (head : ConnHead) (entry : Bytes) : Option Bytes :=
  (((Buffer.wrap entry).pos 0).fill 4 head.sockIndex.toNat).bind fun data =>
  ((data.pos 4).fill 4 head.sockCreate.toNat).bind fun data =>
  ((data.pos 8).fill 4 head.request.toNat).bind fun data =>
  ((data.pos 12).fill 4 head.srcIp.toNat).bind fun data =>
  ((data.pos 16).fill 2 head.srcPort.toNat).map Buffer.bytes

/-- What `StorageServer::commit` reads of a record: the connection, and the bytes it
parses as the entry. -/
def commitEntry (payload : Bytes) : Option ((Nat × Nat) × Bytes) :=
  (Buffer.wrap (frame payload)).readInt32.bind fun (_, data) =>
  (data.pos 4).readInt32.bind fun (sockIndex, data) =>
  data.readInt32.map fun (sockCreate, data) => ((sockIndex, sockCreate), (data.pos 22).curData)

/-- `getBucketNumber`, for the hash function `hash`. -/
def getBucketNumber (hash : Bytes → UInt32) (bucketCount : Nat) (key : Bytes) : Nat :=
  if bucketCount = 0 then 0 else (hash key).toNat % bucketCount

-- The server

inductive AccessFault
  /-- An element of `bucketMgr` that is not there. -/
  | bucketMgr
  /-- A byte that does not belong to the entry. -/
  | entry
deriving DecidableEq, Repr

structure StorageAccess where
  /-- The number of elements of `bucketMgr`, once it is allocated. -/
  bucketMgr : Option Nat
  bucketCount : Nat
  /-- The payloads in each bucket's log. -/
  logs : Nat → List Bytes
  fault : Option AccessFault

inductive StorageInput
  /-- `hbCallback` with this bucket count. -/
  | heartbeatReply (bucketCount : UInt32)
  | put (head : ConnHead) (entry : DumpEntry)
  | get
  | dump (head : ConnHead) (bucket : UInt32) (nextidx : UInt64) (entries : List Bytes)
  | bucketHeartbeat (bucketid : UInt32)
  /-- The commit callback for the record at index `k + 1` of a bucket. -/
  | commit (bucket : Nat) (k : Nat)
deriving DecidableEq, Repr

namespace StorageAccess

def init : StorageAccess := ⟨none, 0, fun _ => [], none⟩

/-- `bucketMgr[b]` is there. -/
def Has (s : StorageAccess) (b : Nat) : Prop := ∃ n ∈ s.bucketMgr, b < n

instance (s : StorageAccess) (b : Nat) : Decidable (s.Has b) := by
  unfold Has
  infer_instance

/-- Append to the log of bucket `b`. -/
def log (s : StorageAccess) (b : Nat) (payloads : List Bytes) : StorageAccess :=
  { s with logs := Function.update s.logs b (s.logs b ++ payloads) }

/-- `bucketMgr[b]`, and then what is done with it. -/
def withBucket (s : StorageAccess) (b : Nat) (f : StorageAccess) : StorageAccess :=
  if s.Has b then f else { s with fault := some .bucketMgr }

/-- One reply or request; after an access outside nothing more is said. -/
def step [DumpEntryCodec] (hash : Bytes → UInt32) (s : StorageAccess) (a : StorageInput) :
    Option StorageAccess :=
  if s.fault ≠ none then none
  else
    match a with
    | .heartbeatReply bucketCount =>
      some
        { s with
          bucketCount := bucketCount.toNat
          bucketMgr := some (s.bucketMgr.getD bucketCount.toNat) }
    | .put head entry =>
      let b := getBucketNumber hash s.bucketCount entry.key
      some (s.withBucket b (s.log b [LogData.encode ⟨head, entry⟩]))
    | .get => some s
    | .dump head bucket nextidx entries =>
      let b := bucket.toNat
      some (s.withBucket b
        (if (s.logs b).length + 1 ≠ nextidx.toNat then s
        else
          match entries.mapM (stampEntry head) with
          | none => { s with fault := some .entry }
          | some payloads => s.log b payloads))
    | .bucketHeartbeat bucketid =>
      some (if s.bucketMgr = none then s else s.withBucket bucketid.toNat s)
    | .commit b k =>
      match (s.logs b)[k]? with
      | none => none
      | some payload =>
        match commitEntry payload with
        | none => some { s with fault := some .entry }
        | some _ => some s

/-- The entry lengths that `KV_REQ_MESSAGE_DUMP` can stamp. -/
def Stampable (n : Nat) : Prop := n = 4 ∨ n = 8 ∨ n = 12 ∨ n = 16 ∨ 18 ≤ n

instance (n : Nat) : Decidable (Stampable n) := by
  unfold Stampable
  infer_instance

/-- The bucket of the request is allocated, and its entries are long enough. -/
def InBounds (hash : Bytes → UInt32) (s : StorageAccess) : StorageInput → Prop
  | .put _ entry => s.Has (getBucketNumber hash s.bucketCount entry.key)
  | .dump _ bucket nextidx entries =>
    s.Has bucket.toNat ∧
      ((s.logs bucket.toNat).length + 1 = nextidx.toNat → ∀ e ∈ entries, Stampable e.length)
  | .bucketHeartbeat bucketid => s.bucketMgr ≠ none → s.Has bucketid.toNat
  | .commit b k => ∀ payload ∈ (s.logs b)[k]?, 8 ≤ payload.length
  | _ => True

instance (hash : Bytes → UInt32) (s : StorageAccess) (a : StorageInput) :
    Decidable (s.InBounds hash a) := by
  cases a <;> unfold InBounds <;> infer_instance

end StorageAccess

-- Fixed positions in an entry

namespace Buffer

theorem fill_isSome_iff {w n : Nat} {b : Buffer} :
    (b.fill w n).isSome ↔ b.pdata + w ≤ b.bytes.length := by
  unfold fill
  split <;> simp [*]

theorem fill_keeps {w n : Nat} {b b' : Buffer} (h : b.fill w n = some b') :
    b'.bytes.length = b.bytes.length ∧ b'.pdata = b.pdata := by
  unfold fill at h
  split at h
  next hFits =>
    cases h
    refine ⟨?_, rfl⟩
    simp only [length_append, length_take, length_drop, be_length]
    omega
  next => cases h

/-- Filling behind `done` replaces the first bytes of the rest. -/
theorem fill_pos {w n q : Nat} (done rest : Bytes) (hw : 0 < w) (h : w ≤ rest.length) :
    ((⟨done ++ rest, q⟩ : Buffer).pos done.length).fill w n =
      some ⟨(done ++ be w n) ++ rest.drop w, done.length⟩ := by
  have hLen : (done ++ rest).length = done.length + rest.length := length_append
  rw [pos_of_lt (by simp only [hLen]; omega), fill, if_pos (by simp only [hLen]; omega)]
  simp [take_left', drop_append]

end Buffer

/-- Where `pos p` leaves a buffer of `n` bytes. -/
def posAfter (n p pdata : Nat) : Nat := if n ≤ p then pdata else p

theorem Buffer.pos_pdata (b : Buffer) (p : Nat) :
    (b.pos p).pdata = posAfter b.bytes.length p b.pdata := by
  unfold Buffer.pos posAfter
  split <;> rfl

/-- One word of the stamp, and the words after it. -/
theorem bind_fill_isSome {β : Type} {b : Buffer} {p w v n q : Nat} {f : Buffer → Option β}
    {Q : Prop} (hn : b.bytes.length = n) (hq : posAfter n p b.pdata = q)
    (hRest : ∀ b' : Buffer, b'.bytes.length = n → b'.pdata = q → ((f b').isSome ↔ Q)) :
    (((b.pos p).fill w v).bind f).isSome ↔ q + w ≤ n ∧ Q := by
  have hFits : ((b.pos p).fill w v).isSome ↔ q + w ≤ n := by
    rw [Buffer.fill_isSome_iff, Buffer.pos_pdata, Buffer.pos_bytes, hn, hq]
  cases hFill : (b.pos p).fill w v with
  | none =>
    rw [hFill] at hFits
    simp only [Option.isSome_none, Bool.false_eq_true, false_iff] at hFits
    simp [hFits]
  | some b' =>
    rw [hFill] at hFits
    obtain ⟨hLen, hPos⟩ := Buffer.fill_keeps hFill
    rw [Buffer.pos_bytes, hn] at hLen
    rw [Buffer.pos_pdata, hn, hq] at hPos
    rw [Option.bind_some, hRest b' hLen hPos]
    exact (and_iff_right (hFits.mp rfl)).symm

/-- A stamp stays inside the entry exactly for these lengths: a position behind the end
is refused, and the word goes where the one before it went. -/
theorem stampEntry_isSome_iff (head : ConnHead) (entry : Bytes) :
    (stampEntry head entry).isSome ↔ StorageAccess.Stampable entry.length := by
  obtain ⟨n, hn⟩ : ∃ n, entry.length = n := ⟨_, rfl⟩
  obtain ⟨p₁, hp₁⟩ : ∃ p₁, posAfter n 0 0 = p₁ := ⟨_, rfl⟩
  obtain ⟨p₂, hp₂⟩ : ∃ p₂, posAfter n 4 p₁ = p₂ := ⟨_, rfl⟩
  obtain ⟨p₃, hp₃⟩ : ∃ p₃, posAfter n 8 p₂ = p₃ := ⟨_, rfl⟩
  obtain ⟨p₄, hp₄⟩ : ∃ p₄, posAfter n 12 p₃ = p₄ := ⟨_, rfl⟩
  obtain ⟨p₅, hp₅⟩ : ∃ p₅, posAfter n 16 p₄ = p₅ := ⟨_, rfl⟩
  have hWords : (stampEntry head entry).isSome ↔
      p₁ + 4 ≤ n ∧ p₂ + 4 ≤ n ∧ p₃ + 4 ≤ n ∧ p₄ + 4 ≤ n ∧ p₅ + 2 ≤ n := by
    refine bind_fill_isSome hn hp₁ fun b₁ hLen₁ hPos₁ => ?_
    refine bind_fill_isSome hLen₁ (by rw [hPos₁, hp₂]) fun b₂ hLen₂ hPos₂ => ?_
    refine bind_fill_isSome hLen₂ (by rw [hPos₂, hp₃]) fun b₃ hLen₃ hPos₃ => ?_
    refine bind_fill_isSome hLen₃ (by rw [hPos₃, hp₄]) fun b₄ hLen₄ hPos₄ => ?_
    rw [Option.isSome_map, Buffer.fill_isSome_iff, Buffer.pos_pdata, Buffer.pos_bytes, hLen₄,
      hPos₄, hp₅]
  rw [hWords, hn]
  unfold StorageAccess.Stampable
  simp only [posAfter] at hp₁ hp₂ hp₃ hp₄ hp₅
  split_ifs at hp₁ hp₂ hp₃ hp₄ hp₅ <;> omega

/-- An entry that another server has logged gets the new connection header. -/
theorem stampEntry_encode [DumpEntryCodec] (head : ConnHead) (d : LogData) :
    stampEntry head d.encode = some (d.stamp head).encode := by
  obtain ⟨entry, hEntry⟩ : ∃ entry, entry = d.encode := ⟨_, rfl⟩
  have hLen : 18 ≤ entry.length := by simp [hEntry, LogData.encode]
  have h₁ := Buffer.fill_pos (n := head.sockIndex.toNat) (q := 0) [] entry
    (show 0 < 4 by decide) (by omega)
  have h₂ := Buffer.fill_pos (n := head.sockCreate.toNat) (q := 0)
    (be 4 head.sockIndex.toNat) (entry.drop 4)
    (show 0 < 4 by decide) (by simp; omega)
  have h₃ := Buffer.fill_pos (n := head.request.toNat) (q := 4)
    (be 4 head.sockIndex.toNat ++ be 4 head.sockCreate.toNat) (entry.drop 8)
    (show 0 < 4 by decide) (by simp; omega)
  have h₄ := Buffer.fill_pos (n := head.srcIp.toNat) (q := 8)
    (be 4 head.sockIndex.toNat ++ be 4 head.sockCreate.toNat ++ be 4 head.request.toNat)
    (entry.drop 12) (show 0 < 4 by decide) (by simp; omega)
  have h₅ := Buffer.fill_pos (n := head.srcPort.toNat) (q := 12)
    (be 4 head.sockIndex.toNat ++ be 4 head.sockCreate.toNat ++ be 4 head.request.toNat ++
      be 4 head.srcIp.toNat)
    (entry.drop 16) (show 0 < 2 by decide) (by simp; omega)
  rw [LogData.encode_stamp, ← hEntry, stampEntry]
  simp only [nil_append, length_nil, length_append, be_length, drop_drop,
    Nat.reduceAdd] at h₁ h₂ h₃ h₄ h₅
  rw [Buffer.wrap, h₁, Option.bind_some, h₂, Option.bind_some, h₃, Option.bind_some, h₄,
    Option.bind_some, h₅]
  rfl

theorem Buffer.readInt32_eq_none {b : Buffer} (h : b.bytes.length < b.pdata + 4) :
    b.readInt32 = none := if_neg (by omega)

theorem Buffer.readInt32_eq_some {b : Buffer} (h : b.pdata + 4 ≤ b.bytes.length) :
    b.readInt32 = some (ofBe (b.curData.take 4), { b with pdata := b.pdata + 4 }) := if_pos h

/-- The commit reads the two words behind the length; behind those it parses whatever is
there. -/
theorem commitEntry_isSome_iff (payload : Bytes) :
    (commitEntry payload).isSome ↔ 8 ≤ payload.length := by
  obtain ⟨data, hData⟩ : ∃ data, data = frame payload := ⟨_, rfl⟩
  have hFrame : data.length = 4 + payload.length := by simp [hData, frame]
  have hPos : (⟨data, 4⟩ : Buffer).pos 4 = ⟨data, 4⟩ := by
    unfold Buffer.pos
    split <;> rfl
  rw [commitEntry, ← hData, Buffer.wrap, Buffer.readInt32_eq_some (by simp only; omega)]
  simp only [Option.bind_some, Nat.zero_add, hPos]
  by_cases hFirst : 4 ≤ payload.length
  · rw [Buffer.readInt32_eq_some (by simp only; omega)]
    simp only [Option.bind_some, Option.isSome_map, Nat.reduceAdd]
    by_cases hSecond : 8 ≤ payload.length
    · rw [Buffer.readInt32_eq_some (by simp only; omega)]
      simp [hSecond]
    · rw [Buffer.readInt32_eq_none (by simp only; omega)]
      simp [hSecond]
  · rw [Buffer.readInt32_eq_none (by simp only; omega)]
    simp only [Option.bind_none, Option.isSome_none, Bool.false_eq_true, false_iff]
    omega

-- Accesses along a run

namespace StorageAccess

variable {hash : Bytes → UInt32} {s s' : StorageAccess} {a : StorageInput}

theorem mapM_stampEntry_isSome_iff (head : ConnHead) (entries : List Bytes) :
    (entries.mapM (stampEntry head)).isSome ↔ ∀ e ∈ entries, Stampable e.length := by
  induction entries with
  | nil => simp
  | cons e entries ih =>
    rw [forall_mem_cons, ← ih, ← stampEntry_isSome_iff head e, mapM_cons]
    cases stampEntry head e <;> cases entries.mapM (stampEntry head) <;> simp

theorem withBucket_fault_iff {b : Nat} {f : StorageAccess} :
    (s.withBucket b f).fault = none ↔ s.Has b ∧ f.fault = none := by
  unfold withBucket
  split <;> simp [*]

/-- A step accesses nothing outside exactly if it is in bounds. -/
theorem step_fault_iff [DumpEntryCodec] (h : s.step hash a = some s') :
    s'.fault = none ↔ s.InBounds hash a := by
  unfold step at h
  split at h
  next => cases h
  next hNone =>
  rw [ne_eq, not_not] at hNone
  cases a with
  | heartbeatReply bucketCount =>
    cases h
    exact iff_of_true hNone trivial
  | put head entry =>
    cases h
    rw [withBucket_fault_iff]
    exact and_iff_left hNone
  | get =>
    cases h
    exact iff_of_true hNone trivial
  | dump head bucket nextidx entries =>
    cases h
    rw [withBucket_fault_iff]
    refine and_congr_right fun _ => ?_
    by_cases hNext : (s.logs bucket.toNat).length + 1 = nextidx.toNat
    · rw [if_neg (not_not.mpr hNext), ← mapM_stampEntry_isSome_iff head entries]
      cases entries.mapM (stampEntry head) <;> simp [hNext, log, hNone]
    · simp [hNext, hNone]
  | bucketHeartbeat bucketid =>
    -- before the first reply nothing is allocated and nothing accessed
    cases h
    by_cases hMgr : s.bucketMgr = none
    · simp [hMgr, hNone, InBounds]
    · rw [if_neg hMgr, withBucket_fault_iff]
      simp [hMgr, hNone, InBounds]
  | commit b k =>
    have hIff : s.InBounds hash (.commit b k) ↔ ∀ payload ∈ (s.logs b)[k]?, 8 ≤ payload.length :=
      Iff.rfl
    cases hLog : (s.logs b)[k]? with
    | none => simp [hLog] at h
    | some payload =>
      simp only [hLog] at h
      have hRead := commitEntry_isSome_iff payload
      rw [hIff, hLog]
      simp only [Option.mem_some_iff, forall_eq', ← hRead]
      cases hCommit : commitEntry payload with
      | none =>
        simp only [hCommit, Option.some.injEq] at h
        simp [← h]
      | some x =>
        simp only [hCommit, Option.some.injEq] at h
        simp [← h, hNone]

theorem step_none_of_fault [DumpEntryCodec] (h : s.fault ≠ none) : s.step hash a = none := if_pos h

/-- Whatever the meta server replies and whatever is requested, before or after its
first reply, no element of `bucketMgr` and no byte of an entry is accessed that is not
there, exactly if every step is in bounds: a PUT's and a DUMP's bucket, and after the
first reply a bucket heartbeat's, is below the count of the first reply; the entries of
an accepted DUMP have 4, 8, 12, 16 or at least 18 bytes; and a committed entry has at
least 8. -/
theorem accesses_in_bounds_iff [DumpEntryCodec] {as : List StorageInput}
    (h : run (step hash) init as = some s) :
    s.fault = none ↔ Along (step hash) (InBounds hash) init as := by
  have hInit : init.fault = none := rfl
  generalize init = s₀ at h hInit ⊢
  induction as generalizing s₀ with
  | nil =>
    obtain rfl : s₀ = s := by simpa [run] using h
    exact iff_of_true hInit trivial
  | cons a as ih =>
    obtain ⟨s₁, hStep, hRest⟩ := run_cons_eq_some.mp h
    rw [along_cons_of_step hStep, ← step_fault_iff hStep]
    by_cases hFault : s₁.fault = none
    · exact (ih s₁ hRest hFault).trans (and_iff_right hFault).symm
    · -- Behind an access outside there is no step.
      cases as with
      | nil =>
        obtain rfl : s₁ = s := by simpa [run] using hRest
        simp [Along]
      | cons b as =>
        obtain ⟨s₂, hNext, -⟩ := run_cons_eq_some.mp hRest
        rw [step_none_of_fault hFault] at hNext
        cases hNext

open PlainEntries in
/-- Two buckets, a put into one of them, and a DUMP to the other whose entry consists
of a connection header only, and the commits of both. -/
theorem accesses_in_bounds_put_and_dump :
    ∃ s, run (step fun _ => 0) init
        [.heartbeatReply 2, .put default default, .dump default 1 1 [List.replicate 18 0],
          .commit 0 0, .commit 1 0] = some s ∧ s.fault = none :=
  run_reaches_then (Q := fun _ => True) (by decide) fun _ hRun _ =>
    (accesses_in_bounds_iff hRun).mpr (by decide)

open PlainEntries in
/-- A put before the first heartbeat reply, a DUMP for the bucket behind the last one,
and an entry of three bytes. -/
theorem access_out_of_bounds :
    (∃ s, run (step fun _ => 0) init [.put default default] = some s ∧
      s.fault = some .bucketMgr) ∧
    (∃ s, run (step fun _ => 0) init [.heartbeatReply 2, .dump default 2 1 []] = some s ∧
      s.fault = some .bucketMgr) ∧
    ∃ s, run (step fun _ => 0) init [.heartbeatReply 2, .dump default 1 1 [[1, 2, 3]]] = some s ∧
      s.fault = some .entry :=
  ⟨⟨_, rfl, rfl⟩, ⟨_, rfl, rfl⟩, _, rfl, rfl⟩

end StorageAccess

end MyBase
