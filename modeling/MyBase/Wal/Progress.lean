import MyBase.Wal.Appends

/-!
# MyBase — every call returns

As long as its writes succeed, a log gets every caller of `appendLog` to return, without
further calls: the leader writes its batch, rotates the file if need be and takes the batch
out of the queue; the first of the rest has been notified and leads the next batch; and so
on, until the caller's own batch is done.

What can stop a leader are the buffers for its batch and for the index of the file that it
rotates. `HasRoom` says that they suffice for the records in the queue: the batch is at most
all of these, and the index has their entries and those of a file that is not full.

* `calls_return` — with room, every caller returns.
-/

namespace MyBase

open Lib List

namespace Appends

/-- The `k`-th caller has returned. -/
def Returned (s : Appends) (k : Nat) : Prop :=
  ∃ w value, s.callers[k]? = some w ∧ w.thread = .returned value

/-- The action is a new call. -/
def IsCall : AppendAction → Prop
  | .enqueue _ => True
  | _ => False

/-- The threads can get from one state to another without new calls. -/
def Proceeds (pf : Platform) (s s' : Appends) : Prop :=
  ∃ acts, (∀ a ∈ acts, ¬ IsCall a) ∧ run (step pf) s acts = some s'

/-- A buffer has room for the records, and for an index with them and a file that is not
full. -/
def HasRoom (records : List Bytes) : Prop :=
  (frames records).length ≤ maxBuffer ∧
    77 + 16 * (rotateSize / 4 + records.length) ≤ maxBuffer

instance (records : List Bytes) : Decidable (HasRoom records) :=
  inferInstanceAs (Decidable (_ ∧ _))

section Proceeds

variable {pf : Platform} {s s' s'' : Appends} {a : AppendAction}

theorem Proceeds.refl (pf : Platform) (s : Appends) : s.Proceeds pf s :=
  ⟨[], fun _ ha => (nomatch ha), rfl⟩

theorem Proceeds.step (ha : ¬ IsCall a) (h : s.step pf a = some s') : s.Proceeds pf s' := by
  refine ⟨[a], ?_, run_cons_eq_some.mpr ⟨s', h, rfl⟩⟩
  rw [forall_mem_singleton]
  exact ha

theorem Proceeds.trans (h : s.Proceeds pf s') (h' : s'.Proceeds pf s'') : s.Proceeds pf s'' := by
  obtain ⟨acts, hActs, hRun⟩ := h
  obtain ⟨acts', hActs', hRun'⟩ := h'
  exact ⟨acts ++ acts', forall_mem_append.mpr ⟨hActs, hActs'⟩,
    run_append.mpr ⟨s', hRun, hRun'⟩⟩

end Proceeds

theorem HasRoom.drop {records : List Bytes} (h : HasRoom records) (n : Nat) :
    HasRoom (records.drop n) := by
  obtain ⟨hBatch, hIndex⟩ := h
  have hSplit := congrArg (fun rs => (frames rs).length) (take_append_drop n records)
  simp only [frames_append, length_append] at hSplit
  have hLength : (records.drop n).length = records.length - n := length_drop
  exact ⟨by omega, by omega⟩

-- The entries of the index

/-- The current file's index has entries of a file that is not full and of queued records. -/
structure Ready (pf : Platform) (b : Base) (old : List Bytes) (s : Appends) : Prop
    extends s.Sound pf b old s.finished where
  index : s.indexSize ≤ rotateSize / 4 + s.writers.length

section Index

variable {pf : Platform} {b : Base} {old : List Bytes} {s s' : Appends} {n k : Nat}

theorem Sound.ready (h : s.Sound pf b old n)
    (hIndex : s.indexSize ≤ rotateSize / 4 + s.writers.length) : s.Ready pf b old := by
  refine ⟨?_, hIndex⟩
  rw [h.queue.finished_eq]
  exact h

theorem Stores.indexSize_eq {closed : List (List Bytes)} {cur built : List Bytes}
    (h : Stores pf b s.session closed cur built) : s.indexSize = (cur ++ built).length := by
  obtain ⟨infos, curInfo, hInfos, hFile, -, hIvts⟩ := h.info_eq
  rw [indexSize, hFile, Option.bind_some, hInfos, getElem?_concat_length]
  simp only [hIvts, ivtsFrom_length]

theorem Stores.indexSize_le {closed : List (List Bytes)} {cur : List Bytes}
    (h : Stores pf b s.session closed cur []) (hSmall : (frames cur).length ≤ rotateSize)
    (count : Nat) : s.indexSize ≤ rotateSize / 4 + count := by
  have hCount := four_mul_length_le_frames cur
  rw [Stores.indexSize_eq h, append_nil]
  omega

theorem Queue.length_queued {first : Nat} (h : s.Queue first n) :
    (s.queued.map Prod.snd).length = s.writers.length := by
  rw [h.queued_data, h.writers, length_drop, payloads, length_map, length_range']

/-- The batch adds an entry for each queued record. -/
theorem Files.indexSize_lead (h : s.Files pf b old n) (hQueue : s.Queue (b.start + old.length) n)
    (hNone : s.leader = none) (hLead : s.lead pf k = some s') :
    s'.indexSize ≤ rotateSize / 4 + s'.writers.length := by
  obtain ⟨closed, cur, stores, records, small⟩ := h.of_none hNone
  unfold Appends.lead at hLead
  split at hLead
  next hFits =>
    cases hLead
    obtain ⟨-, hStores⟩ := hQueue.buildBatchGroup stores records small hFits
    have hCount := four_mul_length_le_frames cur
    refine (Stores.indexSize_eq hStores).trans_le ?_
    rw [length_append, hQueue.length_queued]
    show _ ≤ rotateSize / 4 + s.writers.length
    omega
  next => cases hLead

theorem Files.indexSize_check (h : s.Files pf b old n) (hQueue : s.Queue (b.start + old.length) n)
    (hThread : ∀ w, s.callers[k]? = some w → ∃ notified, w.thread = .waiting notified)
    (hIndex : s.indexSize ≤ rotateSize / 4 + s.writers.length)
    (hCheck : s.check pf k = some s') : s'.indexSize ≤ rotateSize / 4 + s'.writers.length := by
  rcases hQueue.check_cases hThread hCheck with ⟨w, -, -, -, rfl⟩ | ⟨-, -, hNone, hLead⟩ | ⟨-, rfl⟩
  · exact hIndex
  · exact h.indexSize_lead hQueue hNone hLead
  · exact hIndex

/-- **Step lemma.** -/
theorem Ready.step (h : s.Ready pf b old) {a : AppendAction} (hStep : s.step pf a = some s') :
    s'.Ready pf b old := by
  have hIndex := h.index
  obtain ⟨n', hSound, -⟩ := h.toSound.step hStep
  refine hSound.ready ?_
  cases a with
  | enqueue data =>
    obtain ⟨hNext, hCheck⟩ := step_enqueue.mp hStep
    refine (h.files.push h.queue data).indexSize_check (h.queue.push data hNext)
      (push_waiting data) ?_ hCheck
    show s.indexSize ≤ rotateSize / 4 + (s.writers ++ [s.callers.length]).length
    rw [length_append]
    omega
  | resume k =>
    obtain ⟨⟨w, notified, hw, hThread⟩, hCheck⟩ := step_resume.mp hStep
    refine h.files.indexSize_check h.queue (fun w' hw' => ?_) hIndex hCheck
    cases hw.symm.trans hw'
    exact ⟨notified, hThread⟩
  | write =>
    obtain ⟨writer, last, batch, -, rfl⟩ := step_write.mp hStep
    rw [indexSize, Session.write_wal]
    exact hIndex
  | rotate =>
    obtain ⟨writer, last, batch, -, -, rfl⟩ := step_rotate.mp hStep
    obtain ⟨closed, cur, stores, -, small⟩ := hSound.files.of_stored rfl
    exact Stores.indexSize_le stores small _
  | finish =>
    obtain ⟨writer, last, batch, -, rfl⟩ := step_finish.mp hStep
    obtain ⟨closed, cur, stores, -, small⟩ := hSound.files.of_none rfl
    exact Stores.indexSize_le stores small _

/-- **Run lemma.** -/
theorem ready_run {session : Session} {l : SegLog Bytes} (hLog : Represents pf b session l)
    {acts : List AppendAction} (hRun : run (Appends.step pf) (idle session) acts = some s) :
    s.Ready pf b l.entries := by
  refine run_keeps (fun _ _ _ h hStep => Ready.step h hStep) ?_ hRun
  exact (idle_sound hLog).ready (Stores.indexSize_le hLog.holds.stores hLog.cur_le _)

end Index

-- Rounds

section Rounds

variable {pf : Platform} {b : Base} {old : List Bytes} {s s' : Appends} {k : Nat}

variable (h : s.Ready pf b old)
include h

/-- What is not in the queue any more has returned, or does so next. -/
theorem Ready.returns (hk : k < s.finished) : ∃ s', s.Proceeds pf s' ∧ s'.Returned k := by
  obtain ⟨w, hw⟩ : ∃ w, s.callers[k]? = some w :=
    ⟨_, getElem?_eq_getElem (hk.trans_le h.queue.le)⟩
  rcases h.queue.released k w hk hw with hReturned | ⟨hDone, hWaiting⟩
  · exact ⟨s, .refl pf s, w, _, hw, hReturned⟩
  · refine ⟨s.setThread k (.returned w.seq), .step (a := .resume k) id ?_, { w with
      thread := .returned w.seq }, w.seq, ?_, rfl⟩
    · refine step_resume.mpr ⟨⟨w, true, hw, hWaiting⟩, ?_⟩
      rw [check, hw]
      exact if_pos hDone
    · rw [setThread, getElem?_modify_eq, if_pos rfl, hw]
      rfl

/-- The threads get the first of the queue out of it, without new calls. -/
def Advances (pf : Platform) (b : Base) (old : List Bytes) (s : Appends) : Prop :=
  ∃ s', s.Proceeds pf s' ∧ s'.Ready pf b old ∧ s'.payloads = s.payloads ∧ s.finished < s'.finished

omit h in
theorem Advances.of_step {a : AppendAction} (ha : ¬ IsCall a) (hStep : s.step pf a = some s')
    (hPayloads : s'.payloads = s.payloads) (hFinished : s'.finished = s.finished)
    (h : s'.Advances pf b old) : s.Advances pf b old := by
  obtain ⟨s'', hGo, hReady, hSame, hLt⟩ := h
  exact ⟨s'', (Proceeds.step ha hStep).trans hGo, hReady, hSame.trans hPayloads, hFinished ▸ hLt⟩

variable {writer last : Nat} {batch : Bytes}

/-- The leader takes its batch out of the queue. -/
theorem Ready.advances_of_stored (hLeader : s.leader = some ⟨writer, last, batch, .stored⟩) :
    s.Advances pf b old := by
  obtain ⟨rfl, hLo, hHi, -⟩ := h.queue.leader _ hLeader
  have hStep : s.step pf .finish = some (s.finish s.finished last) :=
    step_finish.mpr ⟨_, _, _, hLeader, rfl⟩
  refine ⟨_, .step id hStep, h.step hStep, h.queue.payloads_finish hLo hHi, ?_⟩
  rw [(h.queue.finish hLo hHi).1.finished_eq]
  exact Nat.lt_succ_of_le hLo

variable (hRoom : HasRoom (s.payloads.drop s.finished))
include hRoom

/-- The index fits a buffer, so the file can be rotated. -/
theorem Ready.advances_of_written (hLeader : s.leader = some ⟨writer, last, batch, .written⟩) :
    s.Advances pf b old := by
  have hIndex := h.index
  have hFits := hRoom.2
  rw [← h.queue.queued_data, h.queue.length_queued] at hFits
  have hStep : s.step pf .rotate = some _ :=
    step_rotate.mpr ⟨writer, last, batch, hLeader, by omega, rfl⟩
  exact .of_step id hStep rfl rfl ((h.step hStep).advances_of_stored rfl)

theorem Ready.advances_of_built (hLeader : s.leader = some ⟨writer, last, batch, .built⟩) :
    s.Advances pf b old := by
  have hStep : s.step pf .write = some _ := step_write.mpr ⟨writer, last, batch, hLeader, rfl⟩
  exact .of_step id hStep rfl rfl ((h.step hStep).advances_of_written hRoom rfl)

/-- The first of the queue has been notified; it leads the next batch. -/
theorem Ready.advances_of_none (hNone : s.leader = none) (hLt : s.finished < s.callers.length) :
    s.Advances pf b old := by
  obtain ⟨w, hw⟩ : ∃ w, s.callers[s.finished]? = some w := ⟨_, getElem?_eq_getElem hLt⟩
  have hHead : s.writers.head? = some s.finished := h.queue.head.mpr ⟨rfl, hLt⟩
  have hFits : (frames (s.queued.map Prod.snd)).length ≤ maxBuffer := by
    rw [h.queue.queued_data]
    exact hRoom.1
  have hCheck : s.check pf s.finished = s.lead pf s.finished := by
    rw [check, hw]
    simp only [h.queue.pending _ w le_rfl hw, hHead, Bool.false_eq_true, if_false, if_true]
  have hStep := step_resume.mpr
    ⟨⟨w, true, hw, h.handover hNone w hw⟩, hCheck.trans (if_pos hFits)⟩
  have hPayloads := payloads_setThread (s := s) (k := s.finished) .leading
  have hFinished : (s.setThread s.finished .leading).finished = s.finished := by
    rw [finished, setThread, length_modify]
    rfl
  refine .of_step id hStep hPayloads hFinished ((h.step hStep).advances_of_built ?_ rfl)
  show HasRoom ((s.setThread s.finished .leading).payloads.drop
    (s.setThread s.finished .leading).finished)
  rw [hPayloads, hFinished]
  exact hRoom

/-- **A round**: a batch leaves the queue. -/
theorem Ready.round (hLt : s.finished < s.callers.length) : s.Advances pf b old := by
  cases hLeader : s.leader with
  | none => exact h.advances_of_none hRoom hLeader hLt
  | some l =>
    obtain ⟨writer, last, batch, stage⟩ := l
    cases stage with
    | built => exact h.advances_of_built hRoom hLeader
    | written => exact h.advances_of_written hRoom hLeader
    | stored => exact h.advances_of_stored hLeader

theorem Ready.returned (hk : k < s.payloads.length) : ∃ s', s.Proceeds pf s' ∧ s'.Returned k := by
  -- on the number of callers in the queue, which every round lowers
  induction hCount : s.payloads.length - s.finished
    using Nat.strong_induction_on generalizing s with
  | _ count ih =>
    rcases lt_or_ge k s.finished with hDone | hQueued
    · exact h.returns hDone
    · have hLength : s.payloads.length = s.callers.length := length_map ..
      obtain ⟨s', hGo, hReady, hSame, hLt⟩ := h.round hRoom (by omega)
      have hLess : s'.payloads.length - s'.finished < count := by
        rw [hSame]
        omega
      have hRest := hRoom.drop (s'.finished - s.finished)
      rw [drop_drop, Nat.add_sub_cancel' hLt.le, ← hSame] at hRest
      obtain ⟨s'', hGo', hReturned⟩ := ih _ hLess hReady hRest (hSame ▸ hk) rfl
      exact ⟨s'', hGo.trans hGo', hReturned⟩

end Rounds

/-- **Every call returns.** After any run of callers on a log, if a buffer has room for the
records in the queue, each caller can return without new calls. -/
theorem calls_return {pf : Platform} {b : Base} {session : Session} {l : SegLog Bytes}
    (hLog : Represents pf b session l) {acts : List AppendAction} {s : Appends}
    (hRun : run (step pf) (idle session) acts = some s)
    (hRoom : HasRoom (s.payloads.drop s.finished)) {k : Nat} (hk : k < s.callers.length) :
    ∃ s', s.Proceeds pf s' ∧ s'.Returned k :=
  (ready_run hLog hRun).returned hRoom (hk.trans_eq (length_map ..).symm)

/-- Two callers in the queue of the first, which has written its record. -/
theorem calls_return_second :
    ∃ session s s', run (step .constant) (idle session) [.enqueue [97], .enqueue [98], .write] =
      some s ∧ s.Proceeds .constant s' ∧ s'.Returned 1 := by
  obtain ⟨session, hInitial, hLog⟩ := Represents.initial_empty .constant
  have hReached : ∃ s, run (step .constant) (idle ((Session.initial .constant ∅).getD ⟨∅, {}⟩))
      [.enqueue [97], .enqueue [98], .write] = some s ∧ HasRoom (s.payloads.drop s.finished) ∧
      1 < s.callers.length := run_reaches (by decide +kernel)
  obtain ⟨s, hRun, hRoom, hk⟩ := hReached
  rw [hInitial, Option.getD_some] at hRun
  obtain ⟨s', hGo, hReturned⟩ := calls_return hLog hRun hRoom hk
  exact ⟨session, s, s', hRun, hGo, hReturned⟩

end Appends

end MyBase
