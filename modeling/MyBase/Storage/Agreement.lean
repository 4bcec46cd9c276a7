import MyBase.Storage.Replicas

/-!
# MyBase — what the replicas agree on

The only check on replicated entries is that the receiver's next index is the
one the request was made for. It keeps a follower's log a prefix of the master's
for as long as every log a request can be made from is such a prefix, and that
is an invariant of all logs and all requests in flight (`LogsIn`). A change of
master keeps it only when the new master has the longest log.

Main results:

* `followers_log_prefix` — under a fixed master, every log is a prefix of the
  master's at every moment;
* `committed_entries_agree` — under masters with the longest log, no two servers
  commit different entries at one index;
* `committed_entries_disagree` — a master with a shorter log makes them do so.
-/

namespace MyBase

open Lib List

namespace Replicas

/-- The entries a server has logged. -/
def logged (s : Replicas) (n : Nat) : List DumpEntry := (s.nodes n).logged

/-- All logs are prefixes of `log`, and all requests in flight are slices of it. -/
structure LogsIn (s : Replicas) (log : List DumpEntry) : Prop where
  logs : ∀ n, s.logged n <+: log
  dumps : ∀ m, .dump m ∈ s.net → m.entries.map LogData.entry <+: log.drop (m.nextidx - 1)

variable {log : List DumpEntry} {s : Replicas} {b : BucketMgr}

/-- What a server sends is a slice of every log its own is a prefix of. -/
theorem dumpFor_slice (h : b.logged <+: log) (self p next : Nat) :
    (b.dumpFor self p next).entries.map LogData.entry <+: log.drop (next - 1) := by
  have hRead := (b.walog.logEntries_isPrefix next b.walog.lastIdx).map LogData.entry
  rw [map_drop] at hRead
  exact hRead.trans (h.drop (next - 1))

theorem LogsIn.mono {log' : List DumpEntry} (h : s.LogsIn log) (hLog : log <+: log') :
    s.LogsIn log' where
  logs := fun n => (h.logs n).trans hLog
  dumps := fun m hm => (h.dumps m hm).trans (hLog.drop _)

theorem LogsIn.acted (h : s.LogsIn log) (a : ReplicaAction) (n : Nat) (hb : b.logged <+: log)
    {out : List Message}
    (hOut : ∀ m, .dump m ∈ out → m.entries.map LogData.entry <+: log.drop (m.nextidx - 1)) :
    (s.acted a n b out).LogsIn log := by
  refine ⟨?_, ?_⟩
  · intro n'
    unfold Replicas.logged
    by_cases hn : n' = n
    · rw [hn, acted_nodes_self]
      exact hb
    · rw [acted_nodes_of_ne s a hn]
      exact h.logs n'
  · intro m hm
    rcases mem_append.mp hm with hm | hm
    · exact h.dumps m (mem_netAfter hm)
    · exact hOut m hm

/-- A system before its first message: every log is a prefix of the master's. -/
structure Start (s : Replicas) : Prop where
  net : s.net = []
  logs : ∀ n, s.logged n <+: s.logged s.master

theorem Start.logsIn (h : s.Start) : s.LogsIn (s.logged s.master) :=
  ⟨h.logs, by simp [h.net]⟩

theorem fresh_start (master : Nat) : (fresh master).Start :=
  ⟨rfl, fun _ => prefix_refl _⟩

section Logs

variable [DumpEntryCodec] {s s' s₀ : Replicas} {log : List DumpEntry} {a : ReplicaAction}
  {as : List ReplicaAction} {n : Nat} {b : BucketMgr} {out : List Message}

/-- **Step lemma.** Whatever a server does other than taking a put, its log and
what it sends stay within `log`. -/
theorem LogsIn.acts (h : s.LogsIn log) (hActs : s.Acts a n b out)
    (hPut : ∀ head entry, a ≠ .put head entry) :
    b.logged <+: log ∧
      ∀ m, .dump m ∈ out → m.entries.map LogData.entry <+: log.drop (m.nextidx - 1) := by
  cases hActs with
  | put head entry _ => exact absurd rfl (hPut head entry)
  | @dump k m again head hMsg _ =>
    unfold BucketMgr.processDump
    split
    · exact ⟨h.logs m.dst, by simp⟩
    · rename_i hNext
      refine ⟨?_, by simp⟩
      -- the receiver expects exactly the index the slice begins at
      show ((s.nodes m.dst).writeEntries head m.entries).logged <+: log
      rw [BucketMgr.writeEntries_logged]
      refine SegLog.append_slice_isPrefix (h.logs m.dst) ?_
      have hLen : (s.nodes m.dst).logged.length = m.nextidx - 1 := by
        rw [BucketMgr.logged, length_map]
        have hEq : (s.nodes m.dst).walog.entries.length + 1 = m.nextidx := not_not.mp hNext
        omega
      rw [hLen]
      exact h.dumps m (mem_of_getElem? hMsg)
  | @dumpReturn k r out _ _ _ hOut =>
    obtain ⟨_, -, hb, hSent⟩ := BucketMgr.rpcHandler_eq hOut
    have hLogs := h.logs r.dst
    refine ⟨by rw [hb]; exact hLogs, ?_⟩
    intro m hm
    rw [hSent] at hm
    split at hm
    · rw [mem_singleton] at hm
      cases hm
      exact dumpFor_slice hLogs _ _ _
    · simp at hm
  | hbCallback n row =>
    obtain ⟨_, _, -, hb⟩ := (s.nodes n).configures_hbCallback n row
    exact ⟨by rw [hb]; exact h.logs n, by simp⟩
  | bucketHeartbeat n commitidx _ => exact ⟨h.logs n, by simp⟩
  | @wake n c _ => exact ⟨h.logs n, by simp⟩

/-- A put extends the log all others are compared with. -/
theorem LogsIn.put (h : s.LogsIn (s.logged s.master)) (head : ConnHead) (entry : DumpEntry)
    {out : BucketMgr × List Message}
    (hOut : (s.nodes s.master).appendEntris s.master ⟨head, entry⟩ = out) :
    out.1.logged = s.logged s.master ++ [entry] ∧
      (s.acted (.put head entry) s.master out.1 out.2).LogsIn (s.logged s.master ++ [entry]) := by
  obtain ⟨peers, -, hEq⟩ := (s.nodes s.master).appendEntris_eq s.master ⟨head, entry⟩
  rw [hOut] at hEq
  have hLogged : ∀ b : BucketMgr,
      b.walog = (s.nodes s.master).walog.append bucketFull ⟨head, entry⟩ →
      b.logged = s.logged s.master ++ [entry] := by
    intro b hb
    simp [BucketMgr.logged, Replicas.logged, hb]
  have hOut₁ : out.1.logged = s.logged s.master ++ [entry] := hLogged _ (by rw [hEq])
  refine ⟨hOut₁, (h.mono (prefix_append _ _)).acted _ _ (by rw [hOut₁]) ?_⟩
  intro m hm
  rw [hEq] at hm
  obtain ⟨e, -, hm⟩ := mem_map.mp hm
  cases hm
  exact dumpFor_slice (by rw [hLogged _ rfl]) _ _ _

/-- A new master has a log at least as long as every other server's. -/
def RoutesToLongest (s : Replicas) : ReplicaAction → Prop
  | .route master => ∀ n, (s.logged n).length ≤ (s.logged master).length
  | _ => True

/-- Without a put nothing new can enter the logs. -/
theorem LogsIn.step (h : s.LogsIn log) (hPut : ∀ head entry, a ≠ .put head entry)
    (hStep : s.step a = some s') : s'.LogsIn log := by
  cases step_steps hStep with
  | @act _ n b out hActs =>
    obtain ⟨hb, hOut⟩ := h.acts hActs hPut
    exact h.acted a n hb hOut
  | lose k => exact ⟨h.logs, fun m hm => h.dumps m (@mem_netAfter s (.lose k) _ hm)⟩
  | route master => exact ⟨h.logs, h.dumps⟩

/-- A master's log grows by puts only. -/
theorem LogsIn.master_eq (h : s.LogsIn (s.logged s.master))
    (hPut : ∀ head entry, a ≠ .put head entry) (hStep : s.step a = some s') :
    s'.logged s.master = s.logged s.master := by
  have hGrows : s.logged s.master <+: s'.logged s.master :=
    (step_grows hStep s.master).map LogData.entry
  exact (hGrows.eq_of_length_le ((h.step hPut hStep).logs s.master).length_le).symm

/-- **Step lemma.** All logs stay prefixes of the master's. -/
theorem step_logsIn (hRoute : s.RoutesToLongest a) (h : s.LogsIn (s.logged s.master))
    (hStep : s.step a = some s') : s'.LogsIn (s'.logged s'.master) := by
  by_cases hPut : ∃ head entry, a = .put head entry
  · obtain ⟨head, entry, rfl⟩ := hPut
    cases step_steps hStep with
    | act hActs =>
      cases hActs with
      | put _ _ _ =>
        obtain ⟨hLogged, hIn⟩ := h.put head entry rfl
        rw [← hLogged] at hIn
        show LogsIn _ ((acted s _ s.master _ _).nodes s.master).logged
        rw [acted_nodes_self]
        exact hIn
  · have hNot : ∀ head entry, a ≠ .put head entry := fun head entry hEq =>
      hPut ⟨head, entry, hEq⟩
    have hIn := h.step hNot hStep
    have hMaster := h.master_eq hNot hStep
    suffices hSame : s'.logged s'.master = s.logged s.master by
      rw [hSame]
      exact hIn
    cases step_steps hStep with
    | act _ => exact hMaster
    | lose k => exact hMaster
    | route master => exact (h.logs master).eq_of_length_le (hRoute s.master)

theorem step_master (hFixed : ∀ master, a ≠ .route master) (hStep : s.step a = some s') :
    s'.master = s.master := by
  cases step_steps hStep with
  | act _ => rfl
  | lose k => rfl
  | route master => exact absurd rfl (hFixed master)

/-- **Run lemma.** -/
theorem run_logsIn (hStart : s₀.Start) (hRoutes : Along step RoutesToLongest s₀ as)
    (hRun : run step s₀ as = some s) : s.LogsIn (s.logged s.master) :=
  run_invariant (fun _ _ _ hRoute h hStep => step_logsIn hRoute h hStep) hStart.logsIn
    hRoutes hRun

theorem along_of_fixed (hFixed : ∀ a ∈ as, ∀ master, a ≠ .route master) :
    Along step RoutesToLongest s₀ as := by
  refine along_of_forall ?_
  intro a ha s
  cases a with
  | route master => exact absurd rfl (hFixed _ ha master)
  | _ => exact trivial

theorem run_master (hFixed : ∀ a ∈ as, ∀ master, a ≠ .route master)
    (hRun : run step s₀ as = some s) : s.master = s₀.master := by
  have hKept : ∀ (t : Replicas) (a : ReplicaAction) (t' : Replicas),
      (∀ master, a ≠ .route master) → t.master = s₀.master → t.step a = some t' →
      t'.master = s₀.master := fun t a t' ha ht hStep => (step_master ha hStep).trans ht
  exact run_invariant hKept rfl (along_of_forall fun a ha _ => hFixed a ha) hRun

/-- Under one master, whatever happens to the messages, every server's log is a
prefix of the master's at every moment, up to the connection headers. -/
theorem followers_log_prefix (as : List ReplicaAction) (hStart : s₀.Start)
    (hFixed : ∀ a ∈ as, ∀ master, a ≠ .route master) (hRun : run step s₀ as = some s) (n : Nat) :
    s.logged n <+: s.logged s₀.master := by
  have hIn := run_logsIn hStart (along_of_fixed hFixed) hRun
  rw [run_master hFixed hRun] at hIn
  exact hIn.logs n

end Logs

open PlainEntries in
theorem followers_log_prefix_put :
    ∃ s, run step (fresh 1) [.hbCallback 1 [1, 2], .put default default, .deliver 0 true default,
        .deliver 1 false default, .deliver 1 true default] = some s ∧
      s.logged 2 = [default] ∧ s.logged 2 <+: s.logged 1 := by
  refine run_reaches_then (Q := fun s => s.logged 2 = [default]) (by decide +kernel) ?_
  exact fun s hRun hLogged => ⟨hLogged, followers_log_prefix _ (fresh_start 1) (by simp) hRun 2⟩

-- Committed entries

/-- Every entry passed to a commit callback is the one `log` has at its index. -/
def AppliedIn (s : Replicas) (log : List DumpEntry) : Prop :=
  ∀ n i d, (i, some d) ∈ (s.nodes n).commiter.applied → log[i - 1]? = some d.entry

theorem getElem?_of_prefix {l l' : List DumpEntry} (h : l <+: l') {i : Nat} {e : DumpEntry}
    (hGet : l[i]? = some e) : l'[i]? = some e := by
  obtain ⟨hLt, rfl⟩ := List.getElem?_eq_some_iff.mp hGet
  exact prefix_iff_getElem?.mp h i hLt

theorem AppliedIn.mono {s : Replicas} {log log' : List DumpEntry} (h : s.AppliedIn log)
    (hLog : log <+: log') : s.AppliedIn log' := by
  intro n i d hd
  exact getElem?_of_prefix hLog (h n i d hd)

section Commits

variable [DumpEntryCodec] {s s' s₀ : Replicas} {log : List DumpEntry} {a : ReplicaAction} {n : Nat}
  {b : BucketMgr} {out : List Message}

/-- Only the commiter thread passes entries to the callback, each from the
server's own log. -/
theorem Acts.applied (h : s.Acts a n b out) :
    b.commiter.applied = (s.nodes n).commiter.applied ∨
      ∃ i, b.commiter.applied =
        (s.nodes n).commiter.applied ++ [(i, (s.nodes n).walog.entryAt i)] := by
  cases h with
  | put head entry _ =>
    obtain ⟨_, -, hEq⟩ := (s.nodes s.master).appendEntris_eq s.master ⟨head, entry⟩
    exact Or.inl (by rw [hEq])
  | @dump k m again head _ _ =>
    unfold BucketMgr.processDump
    split
    · exact Or.inl rfl
    · exact Or.inl (Commiter.commit_applied _ _)
  | @dumpReturn k r out _ _ _ hOut =>
    obtain ⟨_, -, hEq, -⟩ := BucketMgr.rpcHandler_eq hOut
    left
    rw [hEq]
    show (if r.accept = true then _ else _ : Commiter LogData).applied = _
    split
    · exact Commiter.commit_applied _ _
    · rfl
  | hbCallback n row =>
    obtain ⟨_, _, -, hEq⟩ := (s.nodes n).configures_hbCallback n row
    exact Or.inl (by rw [hEq])
  | bucketHeartbeat n commitidx _ => exact Or.inl (Commiter.commit_applied _ _)
  | wake hWake =>
    cases Commiter.wake_wakes hWake with
    | @iterate i idx _ _ =>
      unfold Commiter.iterate
      dsimp only
      split
      · exact Or.inr ⟨i, rfl⟩
      · exact Or.inl rfl
    | finish _ _ => exact Or.inl rfl
    | start _ _ => exact Or.inl rfl
    | swap _ _ => exact Or.inl rfl

theorem LogsIn.master_grows (h : s.LogsIn (s.logged s.master)) (hRoute : s.RoutesToLongest a)
    (hStep : s.step a = some s') : s.logged s.master <+: s'.logged s'.master := by
  have hGrows : s.logged s.master <+: s'.logged s.master :=
    (step_grows hStep s.master).map LogData.entry
  cases step_steps hStep with
  | act _ => exact hGrows
  | lose k => exact hGrows
  | route master =>
    rw [← (h.logs master).eq_of_length_le (hRoute s.master)]
    exact prefix_refl _

/-- **Step lemma.** What has been committed stays within the log. -/
theorem step_appliedIn (hLogs : s.LogsIn log) (h : s.AppliedIn log) (hStep : s.step a = some s') :
    s'.AppliedIn log := by
  cases step_steps hStep with
  | @act _ n b out hActs =>
    intro n' i d hd
    by_cases hn : n' = n
    · rw [hn, acted_nodes_self] at hd
      rcases hActs.applied with hEq | ⟨j, hEq⟩
      · rw [hEq] at hd
        exact h n i d hd
      · rw [hEq] at hd
        rcases mem_append.mp hd with hd | hd
        · exact h n i d hd
        · obtain ⟨rfl, hEntry⟩ := Prod.mk.inj (mem_singleton.mp hd)
          obtain ⟨-, hGet⟩ := SegLog.entryAt_eq_some.mp hEntry.symm
          refine getElem?_of_prefix (hLogs.logs n) ?_
          show ((s.nodes n).walog.entries.map LogData.entry)[i - 1]? = _
          rw [getElem?_map, hGet]
          rfl
    · rw [acted_nodes_of_ne s a hn] at hd
      exact h n' i d hd
  | lose k => exact h
  | route master => exact h

/-- When every new master has a log at least as long as every other server's, no
two servers pass different entries to their commit callbacks for one index. -/
theorem committed_entries_agree (as : List ReplicaAction) (hStart : s₀.Start)
    (hApplied : ∀ n, (s₀.nodes n).commiter.applied = [])
    (hRoutes : Along step RoutesToLongest s₀ as) (hRun : run step s₀ as = some s) (n n' i : Nat)
    {d d' : LogData} (hd : (i, some d) ∈ (s.nodes n).commiter.applied)
    (hd' : (i, some d') ∈ (s.nodes n').commiter.applied) : d.entry = d'.entry := by
  have hKept : ∀ (t : Replicas) (a : ReplicaAction) (t' : Replicas), t.RoutesToLongest a →
      (t.LogsIn (t.logged t.master) ∧ t.AppliedIn (t.logged t.master)) → t.step a = some t' →
      t'.LogsIn (t'.logged t'.master) ∧ t'.AppliedIn (t'.logged t'.master) := by
    rintro t a t' hRoute ⟨hLogs, hIn⟩ hStep
    exact ⟨step_logsIn hRoute hLogs hStep,
      (step_appliedIn hLogs hIn hStep).mono (hLogs.master_grows hRoute hStep)⟩
  have hInit : s₀.AppliedIn (s₀.logged s₀.master) := by
    intro n i d hd
    rw [hApplied] at hd
    simp at hd
  obtain ⟨-, hIn⟩ := run_invariant hKept ⟨hStart.logsIn, hInit⟩ hRoutes hRun
  have hEq := (hIn n i d hd).symm.trans (hIn n' i d' hd')
  exact Option.some.inj hEq

end Commits

open PlainEntries in
theorem committed_entries_agree_put :
    ∃ (s : Replicas) (d d' : LogData),
      run step (fresh 1) [.route 2, .hbCallback 2 [2, 1], .hbCallback 1 [2, 1],
        .put default default, .deliver 0 false default, .deliver 0 false default,
        .deliver 0 false ⟨1, 0, 0, 0, 0⟩, .deliver 0 false default, .wake 2, .wake 2, .wake 2,
        .wake 2, .deliver 0 false default, .deliver 0 false default, .deliver 0 false default,
        .wake 1, .wake 1, .wake 1] = some s ∧
      (1, some d) ∈ (s.nodes 1).commiter.applied ∧
      (1, some d') ∈ (s.nodes 2).commiter.applied ∧ d ≠ d' ∧ d.entry = d'.entry := by
  refine ⟨_, ⟨⟨1, 0, 0, 0, 0⟩, default⟩, ⟨default, default⟩, rfl, mem_cons_self,
    mem_cons_self, by decide, ?_⟩
  refine committed_entries_agree [.route 2, .hbCallback 2 [2, 1], .hbCallback 1 [2, 1],
    .put default default, .deliver 0 false default, .deliver 0 false default,
    .deliver 0 false ⟨1, 0, 0, 0, 0⟩, .deliver 0 false default, .wake 2, .wake 2, .wake 2,
    .wake 2, .deliver 0 false default, .deliver 0 false default, .deliver 0 false default,
    .wake 1, .wake 1, .wake 1] (fresh_start 1) (fun _ => rfl) ?_ rfl 1 2 1
    mem_cons_self mem_cons_self
  exact ⟨fun _ => le_refl _, fun _ _ => along_of_forall (by simp [RoutesToLongest])⟩

open PlainEntries in
/-- Server 1 logs a put that reaches nobody, and server 2 becomes the master with
an empty log. Its first put leaves both logs at the same length, so server 1
accepts the empty request for index 2, and each server commits its own entry at
index 1. -/
theorem committed_entries_disagree :
    ∃ (s : Replicas) (d d' : LogData),
      run step (fresh 1) [.hbCallback 1 [1, 2], .hbCallback 2 [1, 2],
        .put default { (default : DumpEntry) with val := [1] }, .lose 0, .route 2,
        .hbCallback 2 [2, 1], .hbCallback 1 [2, 1],
        .put default { (default : DumpEntry) with val := [2] }, .deliver 0 false default,
        .deliver 0 false default, .wake 2, .wake 2, .wake 2, .wake 2, .deliver 0 false default,
        .deliver 0 false default, .deliver 0 false default, .wake 1, .wake 1, .wake 1] = some s ∧
      (1, some d) ∈ (s.nodes 1).commiter.applied ∧
      (1, some d') ∈ (s.nodes 2).commiter.applied ∧
      d.entry.val = [1] ∧ d'.entry.val = [2] :=
  ⟨_, _, _, rfl, mem_cons_self, mem_cons_self, rfl, rfl⟩

end Replicas

end MyBase
