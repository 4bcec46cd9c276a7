import MyBase.Storage.Replicas
import MyBase.Wal.WriteAt

/-!
# MyBase — the replicas on their write-ahead logs

The replication system keeps each bucket's log as a segmented log of entries.
Here every server has a session of the write-ahead log as well, and each action
makes the calls on it that the code makes: `appendLog` for a put, one `writeAt`
for each entry of an accepted request.

* `Stored` — the files of every server hold its log, payload for payload;
* `Stored.step` / `stored_run` — every run of the system is a run on the files,
  with no `writeAt` failing, and the files hold the logs at every moment;
* `Stored.request` / `Stored.commit_reads` — what `requestAppendEntries` and the
  commit loop read from the files is what the system's steps say.
-/

namespace MyBase

open Lib List

/-- The `writeAt` loop of a DUMP request, from index `idx` on. -/
def Session.writeAll (pf : Platform) : Session → Nat → List Bytes → Option Session
  | w, _, [] => some w
  | w, idx, d :: ds => (w.writeAt pf idx d).bind fun w' => writeAll pf w' (idx + 1) ds

/-- Behind the end of the log the loop appends record after record. -/
theorem Represents.writeAll {pf : Platform} {w : Session} {l : SegLog Bytes}
    (h : Represents pf .empty w l) {ds : List Bytes} (hds : ∀ d ∈ ds, d.length ≤ maxPayload)
    (hRoom : l.lastIdx + ds.length ≤ maxIndex) :
    ∃ w', w.writeAll pf l.nextIdx ds = some w' ∧
      Represents pf .empty w' (ds.foldl (SegLog.append walFull) l) := by
  induction ds generalizing w l with
  | nil => exact ⟨w, rfl, h⟩
  | cons d ds ih =>
    rw [length_cons] at hRoom
    have hStart : Base.empty.start = 1 := rfl
    have hNext : w.wal.nextIdx = l.nextIdx := by
      rw [h.nextIdx_eq, hStart, SegLog.nextIdx]
      omega
    have hAppend := h.appendLog (hds d mem_cons_self) (by rw [hStart]; omega)
    have hLast := SegLog.append_lastIdx walFull l d
    obtain ⟨w', hWrite, hRep⟩ := ih hAppend (fun x hx => hds x (mem_cons_of_mem _ hx))
      (by omega)
    have hIdx : (l.append walFull d).nextIdx = l.nextIdx + 1 := by
      rw [SegLog.nextIdx, SegLog.nextIdx, hLast]
    rw [hIdx] at hWrite
    refine ⟨w', ?_, hRep⟩
    rw [Session.writeAll, writeAt_next hNext, Option.bind_some]
    exact hWrite

namespace Replicas

theorem mem_dumpFor {b : BucketMgr} {self p next : Nat} {d : LogData}
    (h : d ∈ (b.dumpFor self p next).entries) : d ∈ b.walog.entries :=
  mem_of_mem_drop ((b.walog.logEntries_isPrefix next b.walog.lastIdx).subset h)

/-- The files of every server hold the payloads of its log. -/
def Stored [DumpEntryCodec] (pf : Platform) (w : Nat → Session) (s : Replicas) : Prop :=
  ∀ n, Represents pf .empty (w n) ((s.nodes n).walog.map LogData.encode)

/-- The calls an action makes on the write-ahead logs. -/
def walStep [DumpEntryCodec] (pf : Platform) (w : Nat → Session) (s : Replicas) :
    ReplicaAction → Option (Nat → Session)
  | .put head entry =>
    some (Function.update w s.master
      ((w s.master).appendLog pf (LogData.encode ⟨head, entry⟩)))
  | .deliver k _ head =>
    match s.net[k]? with
    | some (.dump m) =>
      if (w m.dst).wal.nextIdx ≠ m.nextidx then some w
      else
        ((w m.dst).writeAll pf m.nextidx
            (m.entries.map fun d => (d.stamp head).encode)).map
          (Function.update w m.dst)
    | _ => some w
  | _ => some w

/-- The system and its files take one step. -/
def stepOnWal [DumpEntryCodec] (pf : Platform) (ws : (Nat → Session) × Replicas)
    (a : ReplicaAction) : Option ((Nat → Session) × Replicas) :=
  (walStep pf ws.1 ws.2 a).bind fun w' => (ws.2.step a).map fun s' => (w', s')

/-- Every payload, logged or in flight, has a length `int32_t` can hold. -/
structure Small [DumpEntryCodec] (s : Replicas) : Prop where
  logs : ∀ n, ∀ d ∈ (s.nodes n).walog.entries, d.encode.length ≤ maxPayload
  dumps : ∀ m, .dump m ∈ s.net → ∀ d ∈ m.entries, d.encode.length ≤ maxPayload

def SmallPut [DumpEntryCodec] : ReplicaAction → Prop
  | .put head entry => (LogData.encode ⟨head, entry⟩).length ≤ maxPayload
  | _ => True

section Sizes

variable [DumpEntryCodec] {s s' : Replicas} {a : ReplicaAction} {n : Nat} {b : BucketMgr}
  {out : List Message}

/-- No record gets longer than the put that it came from. -/
theorem Acts.small (hActs : s.Acts a n b out) (hPut : SmallPut a) (h : s.Small) :
    (∀ d ∈ b.walog.entries, d.encode.length ≤ maxPayload) ∧
      ∀ m, .dump m ∈ out → ∀ d ∈ m.entries, d.encode.length ≤ maxPayload := by
  cases hActs with
  | put head entry _ =>
    obtain ⟨_, -, hEq⟩ := (s.nodes s.master).appendEntris_eq s.master ⟨head, entry⟩
    have hLog : ∀ d ∈ ((s.nodes s.master).walog.append bucketFull ⟨head, entry⟩).entries,
        d.encode.length ≤ maxPayload := by
      intro d hd
      rw [SegLog.append_entries, mem_append, mem_singleton] at hd
      rcases hd with hd | rfl
      · exact h.logs s.master d hd
      · exact hPut
    rw [hEq]
    refine ⟨hLog, ?_⟩
    intro m hm d hd
    obtain ⟨e, -, hm⟩ := mem_map.mp hm
    cases hm
    exact hLog d (mem_dumpFor hd)
  | @dump k m again head hMsg _ =>
    unfold BucketMgr.processDump
    split
    · exact ⟨h.logs m.dst, by simp⟩
    · refine ⟨?_, by simp⟩
      intro d hd
      replace hd : d ∈ ((s.nodes m.dst).writeEntries head m.entries).walog.entries := hd
      rw [BucketMgr.writeEntries_entries, mem_append] at hd
      rcases hd with hd | hd
      · exact h.logs m.dst d hd
      · obtain ⟨d', hd', rfl⟩ := mem_map.mp hd
        rw [LogData.encode_stamp_length]
        exact h.dumps m (mem_of_getElem? hMsg) d' hd'
  | @dumpReturn k r out _ _ hMsg hOut =>
    obtain ⟨_, -, hEq, hSent⟩ := BucketMgr.rpcHandler_eq hOut
    refine ⟨by rw [hEq]; exact h.logs r.dst, ?_⟩
    intro m hm d hd
    rw [hSent] at hm
    split at hm
    · rw [mem_singleton] at hm
      cases hm
      exact h.logs r.dst d (mem_dumpFor hd)
    · simp at hm
  | hbCallback n row =>
    obtain ⟨_, _, -, hEq⟩ := (s.nodes n).configures_hbCallback n row
    exact ⟨by rw [hEq]; exact h.logs n, by simp⟩
  | bucketHeartbeat n commitidx _ => exact ⟨h.logs n, by simp⟩
  | @wake n c _ => exact ⟨h.logs n, by simp⟩

theorem step_small (hPut : SmallPut a) (h : s.Small) (hStep : s.step a = some s') : s'.Small := by
  cases step_steps hStep with
  | @act _ n b out hActs =>
    obtain ⟨hLog, hOut⟩ := hActs.small hPut h
    refine ⟨?_, ?_⟩
    · intro n'
      by_cases hn : n' = n
      · rw [hn, acted_nodes_self]
        exact hLog
      · rw [acted_nodes_of_ne s a hn]
        exact h.logs n'
    · intro m hm
      rcases mem_acted_net.mp hm with hm | hm
      · exact h.dumps m (mem_netAfter hm)
      · exact hOut m hm
  | lose k => exact ⟨h.logs, fun m hm => h.dumps m (@mem_netAfter s (.lose k) _ hm)⟩
  | route master => exact ⟨h.logs, h.dumps⟩

end Sizes

-- The files hold the logs

section Stored

variable [DumpEntryCodec] {pf : Platform} {w : Nat → Session} {s : Replicas}

variable (h : Stored pf w s)
include h

theorem Stored.nextIdx (n : Nat) : (w n).wal.nextIdx = (s.nodes n).nextIndex := by
  have hStart : Base.empty.start = 1 := rfl
  have hNext := (h n).nextIdx_eq
  rw [SegLog.map_lastIdx, hStart] at hNext
  rw [hNext, BucketMgr.nextIndex, SegLog.nextIdx]
  omega

theorem Stored.lastIdx (n : Nat) : (w n).wal.lastIdx = (s.nodes n).walog.lastIdx := by
  rw [(h n).lastIdx_eq_length, SegLog.map_lastIdx]

theorem Stored.write (a : ReplicaAction) {n : Nat} {b : BucketMgr} (out : List Message)
    {w' : Session} (hRep : Represents pf .empty w' (b.walog.map LogData.encode)) :
    Stored pf (Function.update w n w') (s.acted a n b out) := by
  intro n'
  by_cases hn : n' = n
  · rw [hn, acted_nodes_self, Function.update_self]
    exact hRep
  · rw [acted_nodes_of_ne s a hn, Function.update_of_ne hn]
    exact h n'

theorem Stored.keep (a : ReplicaAction) {n : Nat} {b : BucketMgr} (out : List Message)
    (hb : b.walog = (s.nodes n).walog) : Stored pf w (s.acted a n b out) := by
  intro n'
  by_cases hn : n' = n
  · rw [hn, acted_nodes_self, hb]
    exact h n
  · rw [acted_nodes_of_ne s a hn]
    exact h n'

omit h in
theorem foldl_append_encode (l : SegLog LogData) (ds : List LogData) :
    (ds.foldl (SegLog.append bucketFull) l).map LogData.encode =
      (ds.map LogData.encode).foldl (SegLog.append walFull) (l.map LogData.encode) := by
  induction ds generalizing l with
  | nil => rfl
  | cons d ds ih => rw [foldl_cons, ih, map_append_encode, map_cons, foldl_cons]

/-- **Step lemma.** The calls succeed, and the files hold the logs again. -/
theorem Stored.step (hSmall : s.Small) {a : ReplicaAction} (hPut : SmallPut a) {s' : Replicas}
    (hStep : s.step a = some s') : ∃ w', walStep pf w s a = some w' ∧ Stored pf w' s' := by
  cases step_steps hStep with
  | @act _ n b out hActs =>
    cases hActs with
    | put head entry hRoom =>
      refine ⟨_, rfl, h.write _ _ ?_⟩
      obtain ⟨_, -, hEq⟩ := (s.nodes s.master).appendEntris_eq s.master ⟨head, entry⟩
      have hLe : _ ≤ maxIndex := of_decide_eq_true hRoom
      rw [hEq, map_append_encode]
      refine (h s.master).appendLog hPut ?_
      rw [SegLog.map_lastIdx]
      show 1 + _ ≤ maxIndex
      omega
    | @dump k m again head hMsg hRoom =>
      -- the entries are stamped and written at the next indices
      have hLe : _ ≤ maxIndex := of_decide_eq_true hRoom
      simp only [walStep, hMsg, h.nextIdx m.dst]
      unfold BucketMgr.processDump
      split
      · exact ⟨w, rfl, h.keep _ _ rfl⟩
      · rename_i hNext
        have hIdx : m.nextidx = ((s.nodes m.dst).walog.map LogData.encode).nextIdx := by
          rw [SegLog.nextIdx, SegLog.map_lastIdx]
          exact (not_not.mp hNext).symm
        have hPayloads : ∀ p ∈ m.entries.map fun d => (d.stamp head).encode,
            p.length ≤ maxPayload := by
          intro p hp
          obtain ⟨d, hd, rfl⟩ := mem_map.mp hp
          rw [LogData.encode_stamp_length]
          exact hSmall.dumps m (mem_of_getElem? hMsg) d hd
        obtain ⟨w', hWrite, hRep⟩ := (h m.dst).writeAll hPayloads
          (by rw [SegLog.map_lastIdx, length_map]; exact hLe)
        rw [← hIdx] at hWrite
        refine ⟨Function.update w m.dst w', by rw [hWrite]; rfl, h.write _ _ ?_⟩
        show Represents pf .empty w' ((((m.entries.map (LogData.stamp head)).foldl
          (SegLog.append bucketFull) (s.nodes m.dst).walog)).map LogData.encode)
        rw [foldl_append_encode, map_map]
        exact hRep
    | @dumpReturn k r out _ _ hMsg hOut =>
      obtain ⟨_, -, hEq, -⟩ := BucketMgr.rpcHandler_eq hOut
      refine ⟨w, by simp only [walStep, hMsg], h.keep _ _ (by rw [hEq])⟩
    | hbCallback n row =>
      obtain ⟨_, _, -, hEq⟩ := (s.nodes n).configures_hbCallback n row
      exact ⟨w, rfl, h.keep _ _ (by rw [hEq])⟩
    | bucketHeartbeat n commitidx _ => exact ⟨w, rfl, h.keep _ _ rfl⟩
    | wake _ => exact ⟨w, rfl, h.keep _ _ rfl⟩
  | lose k => exact ⟨w, rfl, h⟩
  | route master => exact ⟨w, rfl, h⟩

/-- **Run lemma.** Every run of the system, with puts of a size the log can take,
is a run on the files, and the files hold the logs at its end. -/
theorem stored_run {as : List ReplicaAction} (hSmall : s.Small) (hPuts : ∀ a ∈ as, SmallPut a)
    {s' : Replicas} (hRun : run Replicas.step s as = some s') :
    ∃ w', run (stepOnWal pf) (w, s) as = some (w', s') ∧ Stored pf w' s' := by
  induction as generalizing w s with
  | nil =>
    cases hRun
    exact ⟨w, rfl, h⟩
  | cons a as ih =>
    obtain ⟨s₁, hStep, hRest⟩ := run_cons_eq_some.mp hRun
    have hPut := hPuts a mem_cons_self
    obtain ⟨w₁, hWal, hStored⟩ := h.step hSmall hPut hStep
    obtain ⟨w', hRun', hStored'⟩ := ih hStored (step_small hPut hSmall hStep)
      (fun b hb => hPuts b (mem_cons_of_mem _ hb)) hRest
    refine ⟨w', run_cons_eq_some.mpr ⟨(w₁, s₁), ?_, hRun'⟩, hStored'⟩
    simp only [stepOnWal, hWal, hStep, Option.bind_some, Option.map_some]

omit h in
theorem fresh_stored (pf : Platform) (master : Nat) :
    ∃ w₀, Session.initial pf ∅ = some w₀ ∧ Stored pf (fun _ => w₀) (fresh master) := by
  obtain ⟨w₀, hInit, hRep⟩ := Represents.initial_empty pf
  exact ⟨w₀, hInit, fun _ => hRep⟩

/-- The requests `requestAppendEntries` builds from the files: each buffer that
`logEntries` returns, without its four length bytes. -/
theorem Stored.request (n p next : Nat) :
    let b := s.nodes n
    ((w n).logEntries pf (b.nextLogIdx next) (w n).wal.lastIdx).map (List.drop 4) =
      (b.dumpFor n p (b.nextLogIdx next)).entries.map LogData.encode := by
  have hPos : 1 ≤ (s.nodes n).nextLogIdx next := by
    unfold BucketMgr.nextLogIdx
    split <;> omega
  have hDrop : List.drop 4 ∘ frame = id := by
    funext p
    exact drop_left' (be_length 4 _)
  have hStart : Base.empty.start = 1 := rfl
  dsimp only
  rw [(h n).logEntries (hStart ▸ hPos), hStart, Nat.add_sub_cancel, Nat.add_sub_cancel,
    map_map, hDrop, map_id, h.lastIdx n, SegLog.map_logEntries]
  rfl

/-- What the commit loop reads from the files. -/
theorem Stored.commit_reads (n : Nat) {i : Nat} (hPos : 1 ≤ i) :
    (w n).entryAt pf i = ((s.nodes n).walog.entryAt i).map fun d => frame d.encode := by
  have hStart : Base.empty.start = 1 := rfl
  rw [(h n).entryAt (hStart ▸ hPos), hStart, Nat.add_sub_cancel, SegLog.map_entryAt,
    Option.map_map]
  rfl

end Stored

/-- **The replicas run on their files.** Whatever servers that start with empty directories
exchange, in any order and with losses, their logs can do: no append and no `writeAt` fails, and
at every index the files of a server read what the replicas say. -/
theorem runs_on_files [DumpEntryCodec] (pf : Platform) (master : Nat) {as : List ReplicaAction}
    {s : Replicas} (hPuts : ∀ a ∈ as, SmallPut a)
    (hRun : run Replicas.step (fresh master) as = some s) :
    ∃ w₀ w, Session.initial pf ∅ = some w₀ ∧
      run (stepOnWal pf) (fun _ => w₀, fresh master) as = some (w, s) ∧
      ∀ n i, 1 ≤ i → (w n).entryAt pf i =
        ((s.nodes n).walog.entryAt i).map fun d => frame d.encode := by
  obtain ⟨w₀, hInit, hStored⟩ := fresh_stored pf master
  -- nothing is logged and nothing in flight
  have hSmall : (fresh master).Small := ⟨fun _ _ hd => (nomatch hd), fun _ hm => (nomatch hm)⟩
  obtain ⟨w, hFiles, hStored'⟩ := stored_run hStored hSmall hPuts hRun
  exact ⟨w₀, w, hInit, hFiles, fun n i hi => hStored'.commit_reads n hi⟩

open PlainEntries in
/-- A put, and the follower's file. -/
theorem runs_on_files_put :
    ∃ w₀ w s, run (stepOnWal .constant) (fun _ => w₀, fresh 1)
        [.hbCallback 1 [1, 2], .put default default, .deliver 0 true default,
          .deliver 1 false default, .deliver 1 true default] = some (w, s) ∧
      (w 2).entryAt .constant 1 = some (frame (LogData.encode ⟨default, default⟩)) := by
  have hReached : ∃ s, run Replicas.step (fresh 1) [.hbCallback 1 [1, 2], .put default default,
      .deliver 0 true default, .deliver 1 false default, .deliver 1 true default] = some s ∧
      (s.nodes 2).walog.entryAt 1 = some ⟨default, default⟩ :=
    run_reaches (by decide +kernel)
  obtain ⟨s, hRun, hEntry⟩ := hReached
  have hSmall : (LogData.encode ⟨default, default⟩).length ≤ maxPayload := by decide
  obtain ⟨w₀, w, -, hFiles, hReads⟩ :=
    runs_on_files .constant 1 (by simpa [SmallPut] using hSmall) hRun
  exact ⟨w₀, w, s, hFiles, by rw [hReads 2 1 le_rfl, hEntry, Option.map_some]⟩

end Replicas

end MyBase
