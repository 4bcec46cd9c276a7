import MyBase.Storage.Agreement

/-!
# MyBase — catching up

With every message delivered exactly once and one master, the exchange a put
starts with each peer goes on until the peer has the master's whole log: each
request is answered, and an answer is followed by a further request unless it
accepts up to the end of the master's log. Overlapping exchanges, stale answers
and batches that end with a file do not matter, because every answer is judged
against the log as it is when the answer arrives.

A master that has not taken a put sends nothing, so a follower whose log is
behind from the start stays behind until then.

Main results:

* `quiet_logs_equal` — when nothing is in flight any more, every peer has the
  master's log;
* `quiet_follower_behind` — before the first put it may lack all of it.
-/

namespace MyBase

open Lib List

namespace Replicas

/-- No message is lost or repeated, the master stays, and no peer is added to it. -/
def Reliable (s : Replicas) : ReplicaAction → Prop
  | .deliver _ again _ => again = false
  | .lose _ => False
  | .route _ => False
  | .hbCallback n _ => n ≠ s.master
  | _ => True

instance (s : Replicas) : (a : ReplicaAction) → Decidable (s.Reliable a)
  | .deliver _ again _ => inferInstanceAs (Decidable (again = false))
  | .lose _ => inferInstanceAs (Decidable False)
  | .route _ => inferInstanceAs (Decidable False)
  | .hbCallback n _ => inferInstanceAs (Decidable (n ≠ s.master))
  | .put .. | .bucketHeartbeat .. | .wake _ => inferInstanceAs (Decidable True)

/-- An answer that accepts names an index up to which the peer has the log. -/
def AnswersHold (s : Replicas) : Prop :=
  ∀ r, .dumpReturn r ∈ s.net → r.accept = true → r.nextidx ≤ (s.nodes r.src).nextIndex

/-- A request to the peer, or the peer's answer, is in flight. -/
def Awaited (s : Replicas) (p : Nat) : Prop :=
  (∃ m, .dump m ∈ s.net ∧ m.src = s.master ∧ m.dst = p) ∨
    ∃ r, .dumpReturn r ∈ s.net ∧ r.src = p ∧ r.dst = s.master

/-- Every peer of the master is waited for or has a log as long as the master's. -/
def CatchingUp (s : Replicas) : Prop :=
  ∀ p ∈ (s.nodes s.master).peers.keys,
    s.Awaited p ∨ (s.logged s.master).length ≤ (s.logged p).length

/-- A message other than the one the action takes stays in flight. -/
theorem mem_netAfter_of_ne {s : Replicas} {a : ReplicaAction} (hReliable : s.Reliable a)
    {m : Message} (hm : m ∈ s.net) (hNe : ∀ k again head, a = .deliver k again head →
      s.net[k]? ≠ some m) : m ∈ s.netAfter a := by
  cases a with
  | deliver k again head =>
    have hAgain : again = false := hReliable
    subst hAgain
    obtain ⟨j, hj⟩ := mem_iff_getElem?.mp hm
    refine mem_eraseIdx_iff_getElem?.mpr ⟨j, ?_, hj⟩
    rintro rfl
    exact hNe j false head rfl hj
  | lose k => exact absurd hReliable id
  | _ => exact hm

-- Answers

section Exchanges

variable [DumpEntryCodec] {s s' s₀ : Replicas} {a : ReplicaAction} {b : BucketMgr}
  {out : List Message}

theorem nextIndex_grows (hStep : s.step a = some s') (n : Nat) :
    (s.nodes n).nextIndex ≤ (s'.nodes n).nextIndex :=
  Nat.succ_le_succ (step_grows hStep n).length_le

variable {n p k : Nat} {r : DumpReturn} {again : Bool} {head : ConnHead}

/-- Answers come from `processDump` alone. -/
theorem Acts.answer (h : s.Acts a n b out) (hr : .dumpReturn r ∈ out) :
    r.src = n ∧ (r.accept = true → r.nextidx ≤ b.nextIndex) := by
  cases h with
  | put head entry _ =>
    obtain ⟨_, -, hEq⟩ := (s.nodes s.master).appendEntris_eq s.master ⟨head, entry⟩
    rw [hEq] at hr
    obtain ⟨_, -, hr⟩ := List.mem_map.mp hr
    cases hr
  | @dump k m again head _ _ =>
    obtain ⟨r', hEq, hSrc, -, hAccept⟩ := (s.nodes m.dst).processDump_answer head m
    rw [mem_singleton, hEq] at hr
    cases hr
    exact ⟨hSrc, hAccept⟩
  | dumpReturn _ _ _ hOut =>
    obtain ⟨_, -, -, hSent⟩ := BucketMgr.rpcHandler_eq hOut
    rw [hSent] at hr
    split at hr
    · rw [mem_singleton] at hr
      cases hr
    · simp at hr
  | hbCallback n row => simp at hr
  | bucketHeartbeat n commitidx _ => simp at hr
  | wake _ => simp at hr

theorem step_answersHold (h : s.AnswersHold) (hStep : s.step a = some s') : s'.AnswersHold := by
  have hGrows := nextIndex_grows hStep
  intro r hr hAccept
  cases step_steps hStep with
  | @act _ n b out hActs =>
    rcases mem_acted_net.mp hr with hr | hr
    · exact (h r (mem_netAfter hr) hAccept).trans (hGrows r.src)
    · obtain ⟨hSrc, hNext⟩ := hActs.answer hr
      rw [hSrc, acted_nodes_self]
      exact hNext hAccept
  | lose k => exact h r (@mem_netAfter s (.lose k) _ hr) hAccept
  | route master => exact h r hr hAccept

-- Exchanges

theorem Reliable.master_peers (hReliable : s.Reliable a) (hActs : s.Acts a n b out) :
    ((s.acted a n b out).nodes s.master).peers.keys = (s.nodes s.master).peers.keys := by
  by_cases hn : s.master = n
  · rw [hn, acted_nodes_self]
    refine hActs.peers ?_
    rintro row rfl
    exact hReliable hn.symm
  · rw [acted_nodes_of_ne s a hn]

theorem appendEntris_request (b : BucketMgr) (self : Nat) (log : LogData) (hp : p ∈ b.peers.keys) :
    ∃ m, .dump m ∈ (b.appendEntris self log).2 ∧ m.src = self ∧ m.dst = p := by
  obtain ⟨_, -, hEq⟩ := b.appendEntris_eq self log
  obtain ⟨e, he, rfl⟩ := List.mem_map.mp hp
  rw [hEq]
  exact ⟨_, mem_map_of_mem he, rfl, rfl⟩

theorem Acts.answers (h : s.Acts (.deliver k again head) n b out) {m : Dump}
    (hMsg : s.net[k]? = some (.dump m)) :
    ∃ r, .dumpReturn r ∈ out ∧ r.src = m.dst ∧ r.dst = m.src := by
  cases h with
  | @dump _ m' _ _ hMsg' _ =>
    obtain rfl : m' = m := by
      rw [hMsg] at hMsg'
      cases hMsg'
      rfl
    obtain ⟨r, hEq, hSrc, hDst, -⟩ := (s.nodes m'.dst).processDump_answer head m'
    exact ⟨r, by rw [hEq]; exact mem_singleton_self _, hSrc, hDst⟩
  | dumpReturn _ _ hMsg' _ =>
    rw [hMsg] at hMsg'
    cases hMsg'

/-- An answer is followed by a request, unless it accepts up to the end of the log. -/
theorem Acts.follows (h : s.Acts (.deliver k again head) n b out)
    (hMsg : s.net[k]? = some (.dumpReturn r)) :
    (∃ m, .dump m ∈ out ∧ m.src = r.dst ∧ m.dst = r.src) ∨
      (r.accept = true ∧ (s.nodes r.dst).nextIndex ≤ r.nextidx) := by
  cases h with
  | dump _ _ hMsg' _ =>
    rw [hMsg] at hMsg'
    cases hMsg'
  | @dumpReturn _ r' _ _ _ hMsg' hOut =>
    obtain rfl : r' = r := by
      rw [hMsg] at hMsg'
      cases hMsg'
      rfl
    obtain ⟨_, -, -, hSent⟩ := BucketMgr.rpcHandler_eq hOut
    cases hNeed : (s.nodes r'.dst).needToCatchup r' with
    | true =>
      left
      rw [hSent, if_pos hNeed]
      exact ⟨_, mem_singleton_self _, rfl, rfl⟩
    | false =>
      right
      unfold BucketMgr.needToCatchup at hNeed
      split at hNeed
      · rename_i hAccept
        rw [Bool.or_eq_false_iff, decide_eq_false_iff_not] at hNeed
        exact ⟨hAccept, Nat.succ_le_of_lt (not_le.mp hNeed.1)⟩
      · cases hNeed

/-- **Step lemma.** A peer that is waited for is waited for still, or has caught up. -/
theorem step_awaited (hReliable : s.Reliable a) (hAnswers : s.AnswersHold)
    (hActs : s.Acts a n b out) (h : s.Awaited p) :
    (s.acted a n b out).Awaited p ∨ (s.logged s.master).length ≤ (s.logged p).length := by
  rcases h with ⟨m, hm, hSrc, hDst⟩ | ⟨r, hr, hSrc, hDst⟩
  · left
    by_cases hTaken : ∃ k again head, a = .deliver k again head ∧ s.net[k]? = some (.dump m)
    · obtain ⟨k, again, head, rfl, hMsg⟩ := hTaken
      obtain ⟨r, hr, hrSrc, hrDst⟩ := hActs.answers hMsg
      exact Or.inr ⟨r, mem_acted_net.mpr (Or.inr hr), hrSrc.trans hDst, hrDst.trans hSrc⟩
    · refine Or.inl ⟨m, mem_acted_net.mpr (Or.inl (mem_netAfter_of_ne hReliable hm ?_)), hSrc, hDst⟩
      intro k again head hEq hMsg
      exact hTaken ⟨k, again, head, hEq, hMsg⟩
  · by_cases hTaken : ∃ k again head, a = .deliver k again head ∧
        s.net[k]? = some (.dumpReturn r)
    · obtain ⟨k, again, head, rfl, hMsg⟩ := hTaken
      rcases hActs.follows hMsg with ⟨m, hm, hmSrc, hmDst⟩ | ⟨hAccept, hEnd⟩
      · exact Or.inl (Or.inl ⟨m, mem_acted_net.mpr (Or.inr hm), hmSrc.trans hDst,
          hmDst.trans hSrc⟩)
      · -- the peer had everything when it answered, and the master has nothing newer
        right
        have hPeer := hAnswers r hr hAccept
        rw [hDst] at hEnd
        rw [hSrc] at hPeer
        have hLe : (s.nodes s.master).walog.lastIdx + 1 ≤ (s.nodes p).walog.lastIdx + 1 :=
          hEnd.trans hPeer
        simpa [Replicas.logged, BucketMgr.logged, SegLog.lastIdx] using hLe
    · refine Or.inl (Or.inr ⟨r, mem_acted_net.mpr (Or.inl (mem_netAfter_of_ne hReliable hr ?_)),
        hSrc, hDst⟩)
      intro k again head hEq hMsg
      exact hTaken ⟨k, again, head, hEq, hMsg⟩

/-- **Step lemma.** From the first put on, every peer is waited for or has caught up. -/
theorem step_catchingUp (hReliable : s.Reliable a) (hLogs : s.LogsIn (s.logged s.master))
    (hAnswers : s.AnswersHold) (h : s.CatchingUp ∨ ∃ head entry, a = .put head entry)
    (hStep : s.step a = some s') : s'.CatchingUp := by
  have hGrows := step_grows hStep
  cases hCase : step_steps hStep with
  | @act _ n b out hActs =>
    intro p hp
    have hp' : p ∈ (s.nodes s.master).peers.keys := by
      rw [← hReliable.master_peers hActs]
      exact hp
    by_cases hPut : ∃ head entry, a = .put head entry
    · obtain ⟨head, entry, rfl⟩ := hPut
      cases hActs with
      | put _ _ _ =>
        obtain ⟨m, hm, hSrc, hDst⟩ :=
          appendEntris_request (s.nodes s.master) s.master ⟨head, entry⟩ hp'
        exact Or.inl (Or.inl ⟨m, mem_acted_net.mpr (Or.inr hm), hSrc, hDst⟩)
    · have hMaster := hLogs.master_eq (fun head entry hEq => hPut ⟨head, entry, hEq⟩) hStep
      have hPeer : (s.logged p).length ≤ ((s.acted a n b out).logged p).length :=
        ((hGrows p).map LogData.entry).length_le
      have hLonger : (s.logged s.master).length ≤ (s.logged p).length →
          ((s.acted a n b out).logged s.master).length ≤
            ((s.acted a n b out).logged p).length := by
        intro hLe
        rw [hMaster]
        exact hLe.trans hPeer
      rcases (h.resolve_right hPut) p hp' with hAwaited | hLe
      · exact (step_awaited hReliable hAnswers hActs hAwaited).imp_right hLonger
      · exact Or.inr (hLonger hLe)
  | lose k => exact absurd hReliable id
  | route master => exact absurd hReliable id

omit [DumpEntryCodec] in
theorem Reliable.routesToLongest (h : s.Reliable a) : s.RoutesToLongest a := by
  cases a with
  | route master => exact absurd h id
  | _ => exact trivial

/-- What holds at every moment of a reliable run, and what holds from its first put on. -/
structure Exchanging (put : Bool) (s : Replicas) : Prop where
  logs : s.LogsIn (s.logged s.master)
  answers : s.AnswersHold
  peers : put = true → s.CatchingUp

theorem step_exchanging {put : Bool} (hReliable : s.Reliable a) (h : Exchanging put s)
    (hStep : s.step a = some s') :
    Exchanging put s' where
  logs := step_logsIn hReliable.routesToLongest h.logs hStep
  answers := step_answersHold h.answers hStep
  peers := fun hPut => step_catchingUp hReliable h.logs h.answers (Or.inl (h.peers hPut)) hStep

/-- In a reliable run under one master that has taken at least one put, every peer
has the master's log whenever nothing is in flight. -/
theorem quiet_logs_equal (as : List ReplicaAction) (hStart : s₀.Start)
    (hReliable : Along step Reliable s₀ as) (hPut : ∃ head entry, .put head entry ∈ as)
    (hRun : run step s₀ as = some s) (hQuiet : s.net = []) (p : Nat)
    (hp : p ∈ (s.nodes s.master).peers.keys) : s.logged p = s.logged s.master := by
  obtain ⟨head, entry, hMem⟩ := hPut
  obtain ⟨before, after, rfl⟩ := append_of_mem hMem
  obtain ⟨s₁, hBefore, hRest⟩ := run_append.mp hRun
  obtain ⟨s₂, hStep, hAfter⟩ := run_cons_eq_some.mp hRest
  obtain ⟨hAlong, hAlongRest⟩ := along_append hReliable hBefore
  obtain ⟨hPutOk, hAlongAfter⟩ := hAlongRest
  have hInit : Exchanging false s₀ :=
    ⟨hStart.logsIn, by intro r hr; simp [hStart.net] at hr, by simp⟩
  have hFirst : Exchanging false s₁ :=
    run_invariant (fun _ _ _ ha h hs => step_exchanging ha h hs) hInit hAlong hBefore
  have hStarted : Exchanging true s₂ :=
    { logs := step_logsIn hPutOk.routesToLongest hFirst.logs hStep
      answers := step_answersHold hFirst.answers hStep
      peers := fun _ =>
        step_catchingUp hPutOk hFirst.logs hFirst.answers (Or.inr ⟨head, entry, rfl⟩) hStep }
  have hEnd : Exchanging true s :=
    run_invariant (fun _ _ _ ha h hs => step_exchanging ha h hs) hStarted
      (hAlongAfter s₂ hStep) hAfter
  rcases hEnd.peers rfl p hp with hAwaited | hLe
  · unfold Awaited at hAwaited
    simp [hQuiet] at hAwaited
  · exact (hEnd.logs.logs p).eq_of_length_le hLe

end Exchanges

theorem fresh_set_start (master : Nat) (b : BucketMgr) : ((fresh master).set master b).Start := by
  refine ⟨rfl, ?_⟩
  intro n
  by_cases hn : n = master
  · rw [hn]
    exact prefix_refl _
  · have hEmpty : ((fresh master).set master b).logged n = [] := by
      simp [Replicas.logged, Replicas.set, hn, fresh, BucketMgr.opened, BucketMgr.logged]
    rw [hEmpty]
    exact List.nil_prefix

open PlainEntries in
theorem quiet_logs_equal_put :
    ∃ s, run step ((fresh 1).set 1 ((BucketMgr.opened SegLog.empty).addPeer 2))
        [.put default default, .deliver 0 false default, .deliver 0 false default,
          .deliver 0 false default, .deliver 0 false default, .wake 1, .wake 1, .wake 1, .wake 1,
          .deliver 0 false default, .deliver 0 false default, .deliver 0 false default,
          .deliver 0 false default] = some s ∧
      s.net = [] ∧ s.logged 1 = [default] ∧ s.logged 2 = s.logged 1 := by
  refine run_reaches_then (Q := fun s => s.master = 1 ∧ s.net = [] ∧ s.logged 1 = [default] ∧
    2 ∈ (s.nodes s.master).peers.keys) (by decide +kernel) ?_
  rintro s hRun ⟨hMaster, hNet, hLogged, hPeer⟩
  have hSame := quiet_logs_equal _ (fresh_set_start 1 _) (by decide)
    ⟨default, default, mem_cons_self⟩ hRun hNet 2 hPeer
  rw [hMaster] at hSame
  exact ⟨hNet, hLogged, hSame⟩

open PlainEntries in
/-- A master that starts with one logged put and a peer with an empty log: nothing
is in flight, and nothing will be until the next put. -/
theorem quiet_follower_behind :
    ∃ s : Replicas, s.Start ∧ s.net = [] ∧ 2 ∈ (s.nodes s.master).peers.keys ∧
      s.logged s.master = [default] ∧ s.logged 2 = [] :=
  ⟨(fresh 1).set 1
      ((BucketMgr.opened (SegLog.empty.append bucketFull ⟨default, default⟩)).addPeer 2),
    fresh_set_start 1 _, rfl, mem_cons_self, rfl, rfl⟩

end Replicas

end MyBase
