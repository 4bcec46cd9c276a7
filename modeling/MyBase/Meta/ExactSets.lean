import MyBase.Lib.Loop
import MyBase.Meta.Rounds

/-!
# MyBase — what the bucket sets say throughout a rebuild

`m_buckets_set` and `s_buckets_set` are kept by hand beside the table. `Exact` says that they
name just the cells that the available servers have in the rows that are not lost.

The passes of the three loops of `rebuildTableNew` are `iteration`. The first loop keeps the
sets exact. A balancing loop does as long as a copy goes to another server: it is entered for
the new server and erased for the old one. The search for the least loaded server does not
leave out the server whose copy is to be moved. When it finds that one, the copy is entered
where it already is, and then erased, while the table still has it there (`DrawsItself`).

* `Moves.exact_iff` — a move keeps the sets exact just if it goes to another server;
* `bucketSets_exact_iff` — the sets are exact throughout a rebuild just if no server is drawn
  for its own copy.
-/

namespace MyBase

open Lib

namespace TableBuilder

/-- The bucket sets name just the cells that the servers have in rows that are not lost. -/
def Exact (tb : TableBuilder) (source : HashTable) (st : Rebuild) : Prop :=
  ∀ masterFlag, tb.Named (tb.Alive source) masterFlag (st.bucketsSet masterFlag) st.table

/-- The server whose copy is to be moved is drawn itself: nobody below its share can take a
copy, it may not keep one more, and of those that can take a copy it is the least loaded. -/
def DrawsItself (tb : TableBuilder) (rand : Nat → Nat) (st : Rebuild) (nodeInfo : ServerId)
    (masterFlag : Bool) : Prop :=
  (tb.needySearch rand st nodeInfo masterFlag).1 = none ∧ ¬ MayKeep st nodeInfo masterFlag ∧
    (tb.flaggedSearch rand st nodeInfo masterFlag).1.map Prod.fst = some nodeInfo

-- One call

section Calls

variable {tb : TableBuilder} {rand : Nat → Nat} {source : HashTable} {st st' : Rebuild}
  {nodeInfo node : ServerId} {masterFlag : Bool} {b p : Nat}

theorem Exact.of_eq (h : tb.Exact source st) (hTable : st'.table = st.table)
    (hSets : st'.bucketsSet = st.bucketsSet) : tb.Exact source st' := by
  intro f
  rw [hSets, hTable]
  exact h f

/-- A move to another server keeps the sets exact. -/
theorem Moves.named_of_ne (h : tb.Moves st st' nodeInfo masterFlag node b p)
    (hShed : tb.Shedding source st) (hCopies : 0 < tb.copyCount)
    (hNonzero : ¬ tb.Available invalidFlag) (hInfo : tb.Available nodeInfo)
    (hNamed : tb.Named (tb.Alive source) masterFlag (st.bucketsSet masterFlag) st.table)
    (hNe : node ≠ nodeInfo) :
    tb.Named (tb.Alive source) masterFlag (st'.bucketsSet masterFlag) st'.table := by
  obtain ⟨hAlive, hSlot, hCell⟩ := (hNamed nodeInfo hInfo b p).mp h.named
  have hFresh := h.fresh hShed hCopies hCell hNe
  -- no other cell of the row has the server
  have hOnly : ∀ q, tb.Slot masterFlag q → q ≠ p → st.table q b ≠ nodeInfo := by
    intro q hq hqp hSame
    exact hShed.sound.distinct b hAlive q (hq.lt hCopies) p (hSlot.lt hCopies) hqp
      (by rw [hSame]; exact hInfo.ne_invalid hNonzero) (hSame.trans hCell.symm)
  intro x hx b' q
  rw [h.sets, Function.update_self, h.table, find?_eraseBucket, find?_insert hFresh, hNamed x hx]
  by_cases hb : b' = b
  · subst hb
    by_cases hq : q = p
    · subst hq
      rw [set_self, hCell]
      constructor
      · rintro ⟨⟨_, _, rfl⟩ | ⟨rfl, -, -⟩, hNot⟩
        · exact absurd ⟨rfl, rfl⟩ hNot
        · exact ⟨hAlive, hSlot, rfl⟩
      · rintro ⟨_, _, rfl⟩
        exact ⟨Or.inr ⟨rfl, rfl, rfl⟩, fun hAnd => hNe hAnd.1⟩
    · rw [set_of_position_ne _ hq]
      constructor
      · rintro ⟨hOld | ⟨-, -, hEq⟩, -⟩
        · exact hOld
        · exact absurd hEq hq
      · rintro ⟨hAct, hSlotQ, hHas⟩
        refine ⟨Or.inl ⟨hAct, hSlotQ, hHas⟩, ?_⟩
        rintro ⟨rfl, -⟩
        exact hOnly q hSlotQ hq hHas
  · rw [set_of_bucket_ne _ hb]
    constructor
    · rintro ⟨hOld | ⟨-, hEq, -⟩, -⟩
      · exact hOld
      · exact absurd hEq hb
    · intro hOld
      exact ⟨Or.inl hOld, fun hAnd => hb hAnd.2⟩

/-- **A move keeps the sets exact just if it goes to another server.** -/
theorem Moves.exact_iff (h : tb.Moves st st' nodeInfo masterFlag node b p)
    (hShed : tb.Shedding source st) (hCopies : 0 < tb.copyCount)
    (hNonzero : ¬ tb.Available invalidFlag) (hInfo : tb.Available nodeInfo)
    (hExact : tb.Exact source st) : tb.Exact source st' ↔ node ≠ nodeInfo := by
  obtain ⟨hAlive, hSlot, hCell⟩ := (hExact masterFlag nodeInfo hInfo b p).mp h.named
  constructor
  · -- the bucket has been erased, and the table still has the server there
    rintro hAfter rfl
    have hHas : st'.table p b = node := by
      rw [h.table, set_self]
    have hFind := (hAfter masterFlag node hInfo b p).mpr ⟨hAlive, hSlot, hHas⟩
    rw [h.sets, Function.update_self, find?_eraseBucket] at hFind
    exact hFind.2 ⟨rfl, rfl⟩
  · intro hNe f
    by_cases hf : f = masterFlag
    · subst hf
      exact h.named_of_ne hShed hCopies hNonzero hInfo (hExact f) hNe
    · rw [h.sets, Function.update_of_ne hf, h.table]
      exact (hExact f).of_slot (Ne.symm hf) hSlot b node

/-- **Step lemma of the balancing loops.** -/
theorem Exact.chooseNode_iff (hExact : tb.Exact source st) (hShed : tb.Shedding source st)
    (rand : Nat → Nat) (hCopies : 0 < tb.copyCount) (hNonzero : ¬ tb.Available invalidFlag)
    (hInfo : tb.Available nodeInfo) (hPos : 0 < valueAt (st.migrateNodeInfo masterFlag) nodeInfo) :
    tb.Exact source (tb.chooseNode rand st nodeInfo masterFlag) ↔
      ¬ tb.DrawsItself rand st nodeInfo masterFlag := by
  unfold DrawsItself
  cases hNeedy : (tb.needySearch rand st nodeInfo masterFlag).1 with
  | some move =>
    -- who is below its share is not the server
    obtain ⟨hMoves, hBelow⟩ := give_of_needy hShed.listing hNonzero hInfo hNeedy
    have hNe : move.1 ≠ nodeInfo := by
      rintro hSame
      rw [hSame] at hBelow
      omega
    rw [hMoves.exact_iff hShed hCopies hNonzero hInfo hExact]
    simp [hNe]
  | none =>
    by_cases hKeep : MayKeep st nodeInfo masterFlag
    · rw [chooseNode_of_mayKeep hNeedy hKeep]
      exact iff_of_true (hExact.of_eq rfl rfl) fun hDraws => hDraws.2.1 hKeep
    · cases hFlagged : (tb.flaggedSearch rand st nodeInfo masterFlag).1 with
      | some move =>
        obtain ⟨hMoves, -⟩ := push_of_flagged hShed.listing hNonzero hInfo hNeedy hKeep hFlagged
        rw [hMoves.exact_iff hShed hCopies hNonzero hInfo hExact]
        simp [hKeep]
      | none =>
        rw [chooseNode_of_not_mayKeep hNeedy hKeep, hFlagged, Option.elim_none]
        exact iff_of_true (hExact.of_eq rfl rfl) fun hDraws => by simp at hDraws

end Calls

-- The passes of a rebuild

/-- The loops of `rebuildTableNew`: the buckets of step 1, the masters, the slaves. -/
inductive Phase
  | fill (bucket : Nat)
  | balance (masterFlag : Bool)
deriving DecidableEq, Repr

/-- The condition of the balancing loops: the most loaded server, if it has a surplus. -/
def surplusServer (st : Rebuild) (masterFlag : Bool) : Option ServerId :=
  (sortMapByValue (st.migrateNodeInfo masterFlag)).getLast?.bind fun e =>
    if e.1 > 0 then some e.2 else none

/-- One pass, or the way from one loop to the next; `none` when the rebuild is over. -/
def iteration (tb : TableBuilder) (rand : Nat → Nat) : Phase × Rebuild → Option (Phase × Rebuild)
  | (.fill i, st) =>
    if i < tb.bucketCount then (tb.fillBucket rand st i).map fun st => (.fill (i + 1), st)
    else if st.table 0 0 = invalidFlag then none
    else some (.balance true, st)
  | (.balance masterFlag, st) =>
    match surplusServer st masterFlag with
    | some nodeInfo => some (.balance masterFlag, tb.chooseNode rand st nodeInfo masterFlag)
    | none => if masterFlag then some (.balance false, st) else none

/-- After `n` passes a rebuild of `source` is at `s`. -/
def Visits (tb : TableBuilder) (rand : Nat → Nat) (source : HashTable) (n : Nat)
    (s : Phase × Rebuild) : Prop :=
  tb.checkRebuildNeed source = true ∧ tb.copyCount ≤ tb.availableServer.entries.length ∧
    after (tb.iteration rand) (.fill 0, tb.initRebuild source) n = some s

/-- The next call of `chooseNode` draws the server that it is for. -/
def NextDrawsItself (tb : TableBuilder) (rand : Nat → Nat) : Phase × Rebuild → Prop
  | (.fill _, _) => False
  | (.balance masterFlag, st) =>
    ∃ nodeInfo ∈ surplusServer st masterFlag, tb.DrawsItself rand st nodeInfo masterFlag

instance (tb : TableBuilder) (rand : Nat → Nat) (st : Rebuild) (nodeInfo : ServerId)
    (masterFlag : Bool) : Decidable (tb.DrawsItself rand st nodeInfo masterFlag) :=
  inferInstanceAs (Decidable (_ ∧ _))

instance decidableNextDrawsItself (tb : TableBuilder) (rand : Nat → Nat) :
    DecidablePred (tb.NextDrawsItself rand)
  | (.fill _, _) => .isFalse fun h => h
  | (.balance masterFlag, st) =>
    inferInstanceAs (Decidable
      (∃ nodeInfo ∈ surplusServer st masterFlag, tb.DrawsItself rand st nodeInfo masterFlag))

/-- What one pass can be. -/
inductive Pass (tb : TableBuilder) (rand : Nat → Nat) : Phase × Rebuild → Phase × Rebuild → Prop
  | fill (i : Nat) (st st' : Rebuild) (hi : i < tb.bucketCount)
      (hFill : tb.fillBucket rand st i = some st') : Pass tb rand (.fill i, st) (.fill (i + 1), st')
  | filled (i : Nat) (st : Rebuild) (hi : tb.bucketCount ≤ i) :
      Pass tb rand (.fill i, st) (.balance true, st)
  | choose (masterFlag : Bool) (st : Rebuild) (nodeInfo : ServerId)
      (hServer : surplusServer st masterFlag = some nodeInfo) :
      Pass tb rand (.balance masterFlag, st)
        (.balance masterFlag, tb.chooseNode rand st nodeInfo masterFlag)
  | slaves (st : Rebuild) (hNone : surplusServer st true = none) :
      Pass tb rand (.balance true, st) (.balance false, st)

/-- What every pass keeps: in the first loop the counters and sets are in line with the table,
and the rows are filled up to the bucket; then `Shedding`. -/
def OnTrack (tb : TableBuilder) (source : HashTable) : Phase × Rebuild → Prop
  | (.fill i, st) => tb.Counted source st ∧ tb.FilledUpTo source i st.table
  | (.balance _, st) => tb.Shedding source st

section Passes

variable {tb : TableBuilder} {rand : Nat → Nat} {source : HashTable} {st st' : Rebuild}
  {nodeInfo : ServerId} {masterFlag : Bool} {s s' : Phase × Rebuild}

theorem surplusServer_eq_some (hListing : tb.Listing st)
    (h : surplusServer st masterFlag = some nodeInfo) :
    tb.Available nodeInfo ∧ 0 < valueAt (st.migrateNodeInfo masterFlag) nodeInfo := by
  obtain ⟨e, hLast, hServer⟩ := Option.bind_eq_some_iff.mp h
  obtain ⟨hPos, rfl⟩ : e.1 > 0 ∧ e.2 = nodeInfo := by simpa using hServer
  obtain ⟨hKey, hValue⟩ := mem_sortMapByValue.mp (List.mem_of_getLast? hLast)
  exact ⟨(hListing.migrates masterFlag e.2).mp hKey, hValue ▸ hPos⟩

/-- **Inversion of `iteration`.** -/
theorem iteration_pass (h : tb.iteration rand s = some s') : tb.Pass rand s s' := by
  obtain ⟨phase, st⟩ := s
  cases phase with
  | fill i =>
    rw [iteration] at h
    split at h
    · rename_i hi
      obtain ⟨st', hFill, rfl⟩ := Option.map_eq_some_iff.mp h
      exact .fill i st st' hi hFill
    · rename_i hi
      split at h
      · cases h
      · cases h
        exact .filled i st (not_lt.mp hi)
  | balance masterFlag =>
    rw [iteration] at h
    split at h
    · rename_i nodeInfo hServer
      cases h
      exact .choose masterFlag st nodeInfo hServer
    · rename_i hNone
      cases masterFlag with
      | true =>
        cases h
        exact .slaves st hNone
      | false => cases h

/-- When the rebuild is over, `chooseNode` is not called. -/
theorem not_nextDrawsItself_of_left (h : tb.iteration rand s = none) :
    ¬ tb.NextDrawsItself rand s := by
  obtain ⟨phase, st⟩ := s
  cases phase with
  | fill i => exact fun hDraws => hDraws
  | balance masterFlag =>
    rintro ⟨nodeInfo, hServer, -⟩
    have hServer : surplusServer st masterFlag = some nodeInfo := hServer
    rw [iteration, hServer] at h
    cases h

variable (hNonzero : ¬ tb.Available invalidFlag) (hCopies : 0 < tb.copyCount)
  (hSource : tb.SourceOk source)

include hNonzero hCopies hSource

theorem onTrack_start : tb.OnTrack source (.fill 0, tb.initRebuild source) :=
  ⟨initRebuild_counted hNonzero hCopies hSource, filledUpTo_zero tb source⟩

theorem OnTrack.iteration (h : tb.OnTrack source s) (hPass : tb.iteration rand s = some s') :
    tb.OnTrack source s' := by
  cases iteration_pass hPass with
  | fill i st st' hi hFill =>
    exact h.1.fillBucket hNonzero hSource h.2 hi hFill
  | filled i st hi => exact h.1.shedding (h.2.filled hi)
  | choose masterFlag st nodeInfo hServer =>
    have hShed : tb.Shedding source st := h
    obtain ⟨hInfo, -⟩ := surplusServer_eq_some hShed.listing hServer
    exact hShed.chooseNode rand hCopies hNonzero hInfo masterFlag
  | slaves st _ => exact h

/-- A pass keeps the sets exact just if it does not draw the server that it is for. -/
theorem exact_iteration_iff (h : tb.OnTrack source s) (hExact : tb.Exact source s.2)
    (hPass : tb.iteration rand s = some s') :
    tb.Exact source s'.2 ↔ ¬ tb.NextDrawsItself rand s := by
  have hTrack := h.iteration hNonzero hCopies hSource hPass
  cases iteration_pass hPass with
  | fill i st st' hi hFill => exact iff_of_true hTrack.1.named fun hDraws => hDraws
  | filled i st hi => exact iff_of_true hExact fun hDraws => hDraws
  | choose masterFlag st nodeInfo hServer =>
    have hShed : tb.Shedding source st := h
    obtain ⟨hInfo, hPos⟩ := surplusServer_eq_some hShed.listing hServer
    have hCall := Exact.chooseNode_iff hExact hShed rand hCopies hNonzero hInfo hPos
    refine hCall.trans (not_congr ?_)
    constructor
    · intro hDraws
      exact ⟨nodeInfo, hServer, hDraws⟩
    · rintro ⟨x, hx, hDraws⟩
      obtain rfl : nodeInfo = x := Option.some.inj (hServer.symm.trans hx)
      exact hDraws
  | slaves st hNone =>
    refine iff_of_true hExact ?_
    rintro ⟨x, hx, -⟩
    rw [hNone] at hx
    cases hx

end Passes

-- The whole rebuild

section Whole

variable {tb : TableBuilder} {rand : Nat → Nat} {source : HashTable} {st st' : Rebuild}
  {masterFlag : Bool} {s : Phase × Rebuild}

theorem after_fill
    (hRun : run (tb.fillBucket rand) (tb.initRebuild source) (List.range' 0 tb.bucketCount) =
      some st) :
    after (tb.iteration rand) (.fill 0, tb.initRebuild source) tb.bucketCount =
      some (.fill tb.bucketCount, st) := by
  have hEnd := run_range'
    (fun i st => after (tb.iteration rand) (.fill 0, tb.initRebuild source) i = some (.fill i, st))
    (by
      intro i st st' _ hi hBefore hFill
      refine after_succ_eq_some.mpr ⟨_, hBefore, ?_⟩
      rw [iteration, if_pos (by omega), hFill]
      rfl)
    rfl hRun
  rwa [Nat.zero_add] at hEnd

/-- A balance is so many passes of its loop. -/
theorem after_balance {fuel n : Nat}
    (hAfter : after (tb.iteration rand) s n = some (.balance masterFlag, st))
    (hBalance : tb.balance rand masterFlag fuel st = some st') :
    ∃ m, after (tb.iteration rand) s m = some (.balance masterFlag, st') ∧
      surplusServer st' masterFlag = none := by
  induction fuel generalizing st n with
  | zero => cases hBalance
  | succ fuel ih =>
    rw [balance] at hBalance
    split at hBalance
    · cases hBalance
    · rename_i e hLast
      split at hBalance
      · rename_i hPos
        have hServer : surplusServer st masterFlag = some e.2 := by
          rw [surplusServer, hLast, Option.bind_some, if_pos hPos]
        refine ih (after_succ_eq_some.mpr ⟨_, hAfter, ?_⟩) hBalance
        rw [iteration, hServer]
      · rename_i hNot
        cases hBalance
        refine ⟨n, hAfter, ?_⟩
        rw [surplusServer, hLast, Option.bind_some, if_neg hNot]

/-- **The table that a rebuild returns is the one of its last pass**, but for a table that is
built for the first time, which starts where the first loop ends. -/
theorem rebuildTableNew_visits {fuel : Nat} {t : HashTable}
    (h : tb.rebuildTableNew rand fuel source = some (.ok t)) :
    (∃ n st st', tb.Visits rand source n (.fill tb.bucketCount, st) ∧
        tb.buildFirstTime rand st = some st' ∧ st'.table = t) ∨
      ∃ n st, tb.Visits rand source n (.balance false, st) ∧ surplusServer st false = none ∧
        st.table = t := by
  unfold rebuildTableNew at h
  split at h
  · cases h
  rename_i hNeed
  split at h
  · cases h
  rename_i hEnough
  have hStarts : ∀ {n s}, after (tb.iteration rand) (.fill 0, tb.initRebuild source) n = some s →
      tb.Visits rand source n s := fun hAfter =>
    ⟨not_not.mp hNeed, not_lt.mp hEnough, hAfter⟩
  split at h
  · cases h
  rename_i st hFill
  have hFilled := after_fill hFill
  split at h
  · -- no bucket has a master: the first build
    left
    split at h
    · split at h
      · cases h
      · rename_i st' hFirst
        cases h
        exact ⟨_, st, st', hStarts hFilled, hFirst, rfl⟩
    · cases h
  · -- the masters are balanced, then the copies
    right
    rename_i hMaster
    obtain ⟨st₁, hMasters, h⟩ := Option.bind_eq_some_iff.mp h
    obtain ⟨st₂, hSlaves, h⟩ := Option.map_eq_some_iff.mp h
    have hFirst : after (tb.iteration rand) (.fill 0, tb.initRebuild source) (tb.bucketCount + 1) =
        some (.balance true, st) := by
      refine after_succ_eq_some.mpr ⟨_, hFilled, ?_⟩
      rw [iteration, if_neg (lt_irrefl _), if_neg hMaster]
    obtain ⟨n, hAfter, hDone⟩ := after_balance hFirst hMasters
    have hSecond : after (tb.iteration rand) (.fill 0, tb.initRebuild source) (n + 1) =
        some (.balance false, st₁) := by
      refine after_succ_eq_some.mpr ⟨_, hAfter, ?_⟩
      rw [iteration, hDone]
      rfl
    obtain ⟨m, hAfter', hDone'⟩ := after_balance hSecond hSlaves
    split at h
    · cases h
    · cases h
      exact ⟨m, st₂, hStarts hAfter', hDone', rfl⟩

end Whole

/-- For every bucket count and copy count, every set of servers, every source table whose rows
have no server twice and whose rows with an available master have available servers or none as
slaves, and every sequence of random numbers: at every pass of the loops the bucket sets name
just the copies of the rows that are not lost, each with its position, if and only if no call
of `chooseNode` draws the server that it is for. -/
theorem bucketSets_exact_iff (tb : TableBuilder) (rand : Nat → Nat) (source : HashTable)
    (hCopies : 1 ≤ tb.copyCount) (hNonzero : ¬ tb.Available invalidFlag)
    (hSource : tb.SourceOk source) :
    (∀ n s, tb.Visits rand source n s → tb.Exact source s.2) ↔
      ∀ n s, tb.Visits rand source n s → ¬ tb.NextDrawsItself rand s := by
  have hStart := onTrack_start hNonzero hCopies hSource
  have hLoops := after_keeps_iff (Q := fun s => ¬ tb.NextDrawsItself rand s)
    (fun s s' (hTrack : tb.OnTrack source s) hPass =>
      hTrack.iteration hNonzero hCopies hSource hPass)
    (fun s s' hTrack (hExact : tb.Exact source s.2) hPass =>
      exact_iteration_iff hNonzero hCopies hSource hTrack hExact hPass)
    (fun s hLeft => not_nextDrawsItself_of_left hLeft) hStart hStart.1.named
  by_cases hRuns : tb.checkRebuildNeed source = true ∧
      tb.copyCount ≤ tb.availableServer.entries.length
  · simp only [Visits, hRuns, true_and]
    exact hLoops
  · refine iff_of_true ?_ ?_
    · rintro n s ⟨hNeed, hEnough, -⟩
      exact absurd ⟨hNeed, hEnough⟩ hRuns
    · rintro n s ⟨hNeed, hEnough, -⟩
      exact absurd ⟨hNeed, hEnough⟩ hRuns

/-- A third server joins two: no server is drawn for its own copy. -/
theorem bucketSets_exact_joined :
    SourceOk ⟨4, 2, setAvailableServer [1, 2, 3]⟩ (fun copy _ => copy + 1) ∧
      ∀ n s, Visits ⟨4, 2, setAvailableServer [1, 2, 3]⟩ (fun _ => 0) (fun copy _ => copy + 1) n s →
        Exact ⟨4, 2, setAvailableServer [1, 2, 3]⟩ (fun copy _ => copy + 1) s.2 := by
  have hSource : SourceOk ⟨4, 2, setAvailableServer [1, 2, 3]⟩ (fun copy _ => copy + 1) :=
    ⟨by decide, by decide⟩
  refine ⟨hSource, (bucketSets_exact_iff ⟨4, 2, setAvailableServer [1, 2, 3]⟩ (fun _ => 0)
    (fun copy _ => copy + 1) (by decide) (by decide) hSource).mpr ?_⟩
  rintro n s ⟨-, -, hAfter⟩
  -- the rebuild takes eleven passes
  have hLeft : after (iteration ⟨4, 2, setAvailableServer [1, 2, 3]⟩ fun _ => 0)
      (.fill 0, initRebuild ⟨4, 2, setAvailableServer [1, 2, 3]⟩ fun copy _ => copy + 1) 12 =
        none := by rfl
  exact forall_after_of_left (Q := fun s => ¬ NextDrawsItself _ _ s) hLeft (by decide) n s hAfter

/-- Three buckets of two copies, and two servers. -/
def twoServers : TableBuilder := ⟨3, 2, setAvailableServer [1, 2]⟩

/-- Server 1 is the master of all buckets, and the last one has lost its slave. -/
def lostSlave : HashTable := fun copy bucket =>
  if copy = 0 then 1 else if bucket = 2 then invalidFlag else 2

/-- The masters' loop is to take a bucket from server 1. Server 2 has a copy of each, so server 1
is drawn itself: it stays the master of bucket 0, and its bucket set does not name it any more,
whatever the random numbers. -/
theorem bucketSets_not_exact :
    twoServers.SourceOk lostSlave ∧ ¬ twoServers.Available invalidFlag ∧
      ∀ rand, ∃ s, twoServers.Visits rand lostSlave 5 s ∧ s.2.table 0 0 = 1 ∧
        (bucketsOf (s.2.bucketsSet true) 1).find? 0 = none ∧ ¬ twoServers.Exact lostSlave s.2 := by
  refine ⟨⟨by decide, by decide⟩, by decide, fun rand => ?_⟩
  have hVisits : ∃ s, twoServers.Visits rand lostSlave 5 s ∧ s.2.table 0 0 = 1 ∧
      (bucketsOf (s.2.bucketsSet true) 1).find? 0 = none :=
    ⟨_, ⟨by decide, by decide, rfl⟩, rfl, rfl⟩
  obtain ⟨s, hVisits, hMaster, hNone⟩ := hVisits
  refine ⟨s, hVisits, hMaster, hNone, ?_⟩
  intro hExact
  have hAlive : twoServers.Alive lostSlave 0 := ⟨by decide, by decide⟩
  have hNamed := (hExact true 1 (by decide) 0 0).mpr ⟨hAlive, rfl, hMaster⟩
  rw [hNone] at hNamed
  cases hNamed

end TableBuilder

end MyBase
