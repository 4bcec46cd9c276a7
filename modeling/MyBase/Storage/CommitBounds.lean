import MyBase.Storage.Agreement

/-!
# MyBase — commit indices and the receiver's log

The index a server commits up to comes from another server: from the request it
has just accepted, or from the answer of a peer. Nothing compares it with the
server's own log. A request reaches only to the end of one file of the sender,
and an answer names the peer's next index even when the peer's log is the longer
one, so the index can lie beyond the receiver's log; `entryAt` then returns null,
and `StorageServer::commit` dereferences it.

Main results:

* `Commiter.Within` — all pending indices lie within the log, kept by every step;
* `commits_within_log` — while every commit index that arrives lies within the
  receiver's log, no null buffer is ever passed on;
* `commit_null_buffer` — a master with a shorter log than its peer's passes one.
-/

namespace MyBase

open Lib List

namespace Commiter

variable {α : Type}

/-- Everything committed and everything to be committed lies within a log of
`last` records. -/
structure Within (c : Commiter α) (last : Nat) : Prop where
  quick_le : c.quickCommitIdx ≤ last
  pending_le : ∀ j ∈ c.pending, j ≤ last
  loop_pos : ∀ i idx, c.running = some (i, idx) → 1 ≤ i
  iterated : ∀ i data, (i, data) ∈ c.iterated → (1 ≤ i ∧ i ≤ last) ∧ data ≠ none

theorem init_within (last : Nat) : (init : Commiter α).Within last where
  quick_le := Nat.zero_le _
  pending_le := by simp [init, pending]
  loop_pos := by simp [init]
  iterated := by simp [init]

theorem Within.mono {c : Commiter α} {last last' : Nat} (h : c.Within last) (hLe : last ≤ last') :
    c.Within last' where
  quick_le := h.quick_le.trans hLe
  pending_le := fun j hj => (h.pending_le j hj).trans hLe
  loop_pos := h.loop_pos
  iterated := fun i data hi =>
    ⟨⟨(h.iterated i data hi).1.1, (h.iterated i data hi).1.2.trans hLe⟩, (h.iterated i data hi).2⟩

theorem Within.commit {c : Commiter α} {last : Nat} (h : c.Within last) {idx : Nat}
    (hIdx : idx ≤ last) : (c.commit idx).Within last := by
  unfold Commiter.commit
  split
  · exact h
  · refine ⟨h.quick_le, ?_, h.loop_pos, h.iterated⟩
    intro j hj
    have hj' : j ∈ c.pending ++ [idx] := by simpa [dispatch, pending] using hj
    rcases List.mem_append.mp hj' with hj' | hj'
    · exact h.pending_le j hj'
    · rw [List.mem_singleton.mp hj']
      exact hIdx

/-- The commiter thread stays within the log. -/
theorem Within.wake {c c' : Commiter α} {last : Nat} (h : c.Within last) (hLast : last ≤ maxIndex)
    {entryAt : Nat → Option α} (hRead : ∀ i, 1 ≤ i → i ≤ last → entryAt i ≠ none)
    (hWake : c.wake entryAt = some c') : c'.Within last := by
  have hMax : maxIndex + 1 < 2 ^ 64 := by decide
  have hQuick := h.quick_le
  cases wake_wakes hWake with
  | @iterate i idx hRunning hLe =>
    -- the index is within the log, so its entry is there
    have hPos := h.loop_pos i idx hRunning
    have hIdx : idx ≤ last := h.pending_le idx (by simp [pending, hRunning])
    refine ⟨hQuick, ?_, ?_, ?_⟩
    · have hPending := h.pending_le
      simpa [pending, hRunning, Commiter.iterate] using hPending
    · intro i' idx' hEq
      cases hEq
      rw [succ64_of_lt (by omega)]
      omega
    · intro i' data hMem
      rcases List.mem_append.mp hMem with hMem | hMem
      · exact h.iterated i' data hMem
      · obtain ⟨rfl, rfl⟩ := Prod.mk.inj (List.mem_singleton.mp hMem)
        exact ⟨⟨hPos, hLe.trans hIdx⟩, hRead i' hPos (hLe.trans hIdx)⟩
  | @finish i idx hRunning _ =>
    refine ⟨h.pending_le idx (by simp [pending, hRunning]), ?_, by simp, h.iterated⟩
    intro j hj
    refine h.pending_le j ?_
    simp only [pending, Option.map_none, Option.toList_none, nil_append] at hj
    simp only [pending, append_assoc]
    exact mem_append_right _ hj
  | @start idx rest hRunning hCbs =>
    refine ⟨hQuick, ?_, ?_, h.iterated⟩
    · have hPending := h.pending_le
      simpa [pending, hRunning, hCbs] using hPending
    · intro i idx' hEq
      cases hEq
      rw [succ64_of_lt (by omega)]
      omega
  | swap hRunning hCbs =>
    refine ⟨hQuick, ?_, ?_, h.iterated⟩
    · have hPending := h.pending_le
      simpa [pending, hRunning, hCbs] using hPending
    · simp [hRunning]

end Commiter

namespace Replicas

/-- The commit index a message brings lies within the log of the server it arrives
at; of a request that is accepted, within the log with its entries. -/
def ArrivesWithin (s : Replicas) : Message → Prop
  | .dump m => m.nextidx = (s.nodes m.dst).nextIndex →
      m.commitidx < m.nextidx + m.entries.length
  | .dumpReturn r => r.accept = true → r.nextidx ≤ (s.nodes r.dst).nextIndex

instance (s : Replicas) (m : Message) : Decidable (s.ArrivesWithin m) := by
  cases m <;> unfold ArrivesWithin <;> infer_instance

def CommitsWithin (s : Replicas) : ReplicaAction → Prop
  | .deliver k _ _ => ∀ m ∈ s.net[k]?, s.ArrivesWithin m
  | .bucketHeartbeat n commitidx => commitidx ≤ (s.nodes n).walog.lastIdx
  | _ => True

instance (s : Replicas) : (a : ReplicaAction) → Decidable (s.CommitsWithin a)
  | .deliver k _ _ => inferInstanceAs (Decidable (∀ m ∈ s.net[k]?, s.ArrivesWithin m))
  | .bucketHeartbeat n commitidx =>
    inferInstanceAs (Decidable (commitidx ≤ (s.nodes n).walog.lastIdx))
  | .put .. | .lose _ | .route _ | .hbCallback .. | .wake _ => inferInstanceAs (Decidable True)

/-- All commit activity of a server lies within its log, which is not full. -/
def Bounded (b : BucketMgr) : Prop :=
  b.commiter.Within b.walog.lastIdx ∧ b.walog.lastIdx ≤ maxIndex

section Runs

variable [DumpEntryCodec] {s s' : Replicas} {a : ReplicaAction} {n : Nat} {b : BucketMgr}
  {out : List Message}

/-- **Step lemma.** -/
theorem Acts.bounded (hActs : s.Acts a n b out) (hWithin : s.CommitsWithin a)
    (h : Bounded (s.nodes n)) : Bounded b := by
  obtain ⟨hCommits, hMax⟩ := h
  cases hActs with
  | put head entry hRoom =>
    obtain ⟨_, -, hEq⟩ := (s.nodes s.master).appendEntris_eq s.master ⟨head, entry⟩
    rw [hEq]
    have hLast := SegLog.append_lastIdx bucketFull (s.nodes s.master).walog ⟨head, entry⟩
    refine ⟨hCommits.mono ?_, ?_⟩
    · show _ ≤ ((s.nodes s.master).walog.append bucketFull ⟨head, entry⟩).lastIdx
      omega
    · show ((s.nodes s.master).walog.append bucketFull ⟨head, entry⟩).lastIdx ≤ _
      have hLe : _ ≤ maxIndex := of_decide_eq_true hRoom
      omega
  | @dump k m again head hMsg hRoom =>
    -- the entries are logged before the commit
    unfold BucketMgr.processDump
    split
    · exact ⟨hCommits, hMax⟩
    · rename_i hNext
      have hNext : m.nextidx = (s.nodes m.dst).nextIndex := (not_not.mp hNext).symm
      have hIdx : m.commitidx < m.nextidx + m.entries.length := hWithin _ hMsg hNext
      have hLe : _ ≤ maxIndex := of_decide_eq_true hRoom
      have hLast : ((s.nodes m.dst).writeEntries head m.entries).walog.lastIdx =
          (s.nodes m.dst).walog.lastIdx + m.entries.length := by
        simp [SegLog.lastIdx, BucketMgr.writeEntries_entries]
      have hOld : m.nextidx = (s.nodes m.dst).walog.lastIdx + 1 := hNext
      refine ⟨Commiter.Within.commit (hCommits.mono ?_) ?_, ?_⟩
      · show _ ≤ ((s.nodes m.dst).writeEntries head m.entries).walog.lastIdx
        omega
      · show _ ≤ ((s.nodes m.dst).writeEntries head m.entries).walog.lastIdx
        omega
      · show ((s.nodes m.dst).writeEntries head m.entries).walog.lastIdx ≤ _
        omega
  | @dumpReturn k r out _ _ hMsg hOut =>
    obtain ⟨_, -, hEq, -⟩ := BucketMgr.rpcHandler_eq hOut
    rw [hEq]
    refine ⟨?_, hMax⟩
    show Commiter.Within (if r.accept = true then _ else _) (s.nodes r.dst).walog.lastIdx
    split
    · rename_i hAccept
      refine hCommits.commit ?_
      have hNext : r.nextidx ≤ (s.nodes r.dst).walog.lastIdx + 1 := hWithin _ hMsg hAccept
      omega
    · exact hCommits
  | hbCallback n row =>
    obtain ⟨_, _, -, hEq⟩ := (s.nodes n).configures_hbCallback n row
    rw [hEq]
    exact ⟨⟨hCommits.quick_le, hCommits.pending_le, hCommits.loop_pos, hCommits.iterated⟩, hMax⟩
  | bucketHeartbeat n commitidx _ => exact ⟨hCommits.commit hWithin, hMax⟩
  | @wake n c hWake =>
    refine ⟨hCommits.wake hMax ?_ hWake, hMax⟩
    intro i hPos hLe
    rw [← Option.isSome_iff_ne_none]
    exact SegLog.entryAt_isSome_iff.mpr ⟨hPos, hLe⟩

theorem step_bounded (hWithin : s.CommitsWithin a) (h : ∀ n, Bounded (s.nodes n))
    (hStep : s.step a = some s') (n : Nat) : Bounded (s'.nodes n) := by
  cases step_steps hStep with
  | @act _ n' b out hActs =>
    by_cases hn : n = n'
    · rw [hn, acted_nodes_self]
      exact hActs.bounded hWithin (h n')
    · rw [acted_nodes_of_ne s a hn]
      exact h n
  | lose k => exact h n
  | route master => exact h n

/-- While every commit index that arrives at a server lies within its log, every
index the commit loop visits does, and `entryAt` returns a buffer for it. -/
theorem commits_within_log (s₀ : Replicas) (as : List ReplicaAction)
    (hStart : ∀ n, (s₀.nodes n).commiter = Commiter.init ∧ (s₀.nodes n).walog.lastIdx ≤ maxIndex)
    (hWithin : Along step CommitsWithin s₀ as) (hRun : run step s₀ as = some s) (n i : Nat)
    {data : Option LogData} (hi : (i, data) ∈ (s.nodes n).commiter.iterated) :
    (1 ≤ i ∧ i ≤ (s.nodes n).walog.lastIdx) ∧ data ≠ none := by
  have hInit : ∀ n, Bounded (s₀.nodes n) := by
    intro n
    obtain ⟨hNew, hMax⟩ := hStart n
    refine ⟨?_, hMax⟩
    rw [hNew]
    exact Commiter.init_within _
  have hBounded : ∀ n, Bounded (s.nodes n) :=
    run_invariant (fun _ _ _ ha h hStep => step_bounded ha h hStep) hInit hWithin hRun
  exact (hBounded n).1.iterated i data hi

end Runs

open PlainEntries in
theorem commits_within_log_put :
    ∃ s, run step (fresh 1) [.hbCallback 1 [1, 2], .put default default, .deliver 0 false default,
        .deliver 0 false default, .deliver 0 false default, .deliver 0 false default, .wake 1,
        .wake 1, .wake 1] = some s ∧
      (1, some ⟨default, default⟩) ∈ (s.nodes 1).commiter.iterated ∧
      1 ≤ (s.nodes 1).walog.lastIdx := by
  refine run_reaches_then
    (Q := fun s => (1, some ⟨default, default⟩) ∈ (s.nodes 1).commiter.iterated)
    (by decide +kernel) fun s hRun hMem => ⟨hMem, ?_⟩
  exact (commits_within_log (fresh 1) _ (fun _ => ⟨rfl, Nat.zero_le _⟩) (by decide) hRun 1 1
    hMem).1.2

open PlainEntries in
/-- Server 1 has logged two puts that reached nobody when server 2 becomes the
master with an empty log. Server 1 rejects the first request of server 2 and
accepts the second one, which is for the index behind its own log; server 2 then
commits up to index 2, which it does not have. -/
theorem commit_null_buffer :
    ∃ s, run step (fresh 1) [.hbCallback 1 [1, 2], .hbCallback 2 [1, 2], .put default default,
        .put default default, .lose 0, .lose 0, .route 2, .hbCallback 2 [2, 1],
        .hbCallback 1 [2, 1], .put default default, .deliver 0 false default,
        .deliver 0 false default, .deliver 0 false default, .deliver 0 false default,
        .wake 2, .wake 2, .wake 2, .wake 2] = some s ∧
      (2, none) ∈ (s.nodes 2).commiter.applied ∧ (s.nodes 2).walog.lastIdx = 1 :=
  ⟨_, rfl, mem_cons_of_mem _ mem_cons_self, rfl⟩

end Replicas

end MyBase
