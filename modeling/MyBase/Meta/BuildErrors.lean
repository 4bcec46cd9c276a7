import MyBase.Meta.Counters

/-!
# MyBase — when a rebuild fails

`rebuildTableNew` returns `BUILD_ERROR` from seven places. Five of them are reached
only when no server will do for an empty slot, and one when some buckets have a master
and bucket 0 has none. With as many servers as copies, and a table in which all buckets
have a master or none has, these six are never reached.

* `rebuildTableNew_error` — the reasons that remain;
* `rebuildTableNew_divides_by_zero` — the number of servers as an `int32_t`.
-/

namespace MyBase

open Lib List

namespace TableBuilder

variable {tb : TableBuilder} {rand : Nat → Nat} {source : HashTable} {st : Rebuild}

-- The divisor

/-- Buckets without an available master are skipped. -/
theorem checkRebuildNeedFrom_dead {t : HashTable} {buckets : List Nat}
    (h : ∀ b ∈ buckets, ¬ tb.Available (t 0 b)) (seen : OrdMap ServerId Unit) :
    tb.checkRebuildNeedFrom t buckets seen = decide (tb.availableServer.keys ≠ seen.keys) := by
  induction buckets with
  | nil => rfl
  | cons i buckets ih =>
    have hMaster : ¬ tb.isAvailable (t 0 i) = true :=
      fun hA => h i mem_cons_self (isAvailable_iff.mp hA)
    rw [checkRebuildNeedFrom, if_pos hMaster]
    exact ih fun b hb => h b (mem_cons_of_mem _ hb)

/-- There are servers when it comes to dividing by their number. -/
theorem checkRebuildNeed_servers (h : tb.checkRebuildNeed source = true) :
    0 < tb.availableServer.entries.length := by
  by_contra hNone
  have hEmpty : tb.availableServer.entries = [] := List.length_eq_zero_iff.mp (by omega)
  have hNo : ∀ node, ¬ tb.Available node := by
    intro node hNode
    simp [Available, OrdMap.keys, hEmpty] at hNode
  rw [checkRebuildNeed, checkRebuildNeedFrom_dead fun _ _ => hNo _] at h
  simp [OrdMap.keys, hEmpty] at h

-- The placements

section Placements

variable (hSome : 0 < tb.availableServer.entries.length)
  (hCount : tb.copyCount ≤ tb.availableServer.entries.length)

include hSome hCount

theorem chooseNodeInvalid_total (rand : Nat → Nat) (hListing : tb.Listing st)
    (bucket : Nat) {position : Nat}
    (hPosition : position < tb.copyCount ∨ tb.copyCount = 0) (masterFlag : Bool) :
    ∃ st', tb.chooseNodeInvalid rand st bucket position masterFlag = some st' ∧
      tb.Listing st' ∧ ∃ node, tb.Available node ∧
        st'.table = st.table.set position bucket node := by
  obtain ⟨st', hChoose⟩ := Option.isSome_iff_exists.mp
    (chooseNodeInvalid_isSome rand bucket masterFlag hListing hSome hCount hPosition)
  obtain ⟨hKeys, node, hListed, -, hTable, -⟩ := chooseNodeInvalid_cases hChoose
  refine ⟨st', hChoose, hListing.of_sameKeys hKeys, node, ?_, hTable⟩
  exact hListed.elim (hListing.migrates masterFlag node).mp (hListing.flags masterFlag node).mp

theorem chooseSlaveForInvalid_total (rand : Nat → Nat) (hListing : tb.Listing st) (bucket : Nat) :
    ∃ st', tb.chooseSlaveForInvalid rand st bucket = some st' ∧ tb.Listing st' ∧
      ∀ b, st'.table 0 b = st.table 0 b := by
  refine run_total (P := fun _ n => 1 ≤ n ∧ n < tb.copyCount) ?_
    (And.intro hListing fun _ => rfl) (along_of_forall ?_)
  · rintro s n ⟨hn, hnC⟩ ⟨hListing, hMasters⟩
    by_cases hEmpty : s.table n bucket = invalidFlag
    · obtain ⟨s', hChoose, hListing', node, -, hTable⟩ :=
        chooseNodeInvalid_total hSome hCount rand hListing bucket (Or.inl hnC) false
      refine ⟨s', by rw [if_pos hEmpty, hChoose], hListing', ?_⟩
      intro b
      rw [hTable, set_of_position_ne _ (by omega)]
      exact hMasters b
    · exact ⟨s, by rw [if_neg hEmpty], hListing, hMasters⟩
  · intro n hn _
    have hRange := mem_range'_1.mp hn
    omega

omit hSome hCount in
/-- Making the master a slave concerns its own bucket. -/
theorem demoteMaster_listing (hListing : tb.Listing st) (bucket : Nat) :
    tb.Listing (tb.demoteMaster st bucket) ∧
      ∀ b, b ≠ bucket → ∀ p, (tb.demoteMaster st bucket).table p b = st.table p b := by
  have hKeys := sameKeys_mapMigrate st true (keys_decrNodeCount (st.table 0 bucket))
  unfold demoteMaster
  dsimp only
  split
  · exact ⟨hListing.of_sameKeys hKeys, fun _ _ _ => rfl⟩
  · refine ⟨hListing.of_sameKeys hKeys, ?_⟩
    intro b hb p
    dsimp only
    rw [set_of_bucket_ne _ hb, set_of_bucket_ne _ hb]
    rfl

/-- **Step lemma of the first phase.** A bucket is dealt with; it has a master
afterwards just when it had one. -/
theorem fillBucket_total (rand : Nat → Nat) (hNonzero : ¬ tb.Available invalidFlag)
    (hListing : tb.Listing st) (i : Nat) :
    ∃ st', tb.fillBucket rand st i = some st' ∧ tb.Listing st' ∧
      ∀ b, st'.table 0 b = invalidFlag ↔ st.table 0 b = invalidFlag := by
  -- what the branches have in common that leave the master
  have hSlaves : ∀ s : Rebuild, tb.Listing s →
      (∀ b, s.table 0 b = invalidFlag ↔ st.table 0 b = invalidFlag) →
      ∃ st', tb.chooseSlaveForInvalid rand s i = some st' ∧ tb.Listing st' ∧
        ∀ b, st'.table 0 b = invalidFlag ↔ st.table 0 b = invalidFlag := by
    intro s hS hMasters
    obtain ⟨st', hChoose, hListing', hSame⟩ :=
      chooseSlaveForInvalid_total hSome hCount rand hS i
    refine ⟨st', hChoose, hListing', ?_⟩
    intro b
    rw [hSame b]
    exact hMasters b
  unfold fillBucket
  dsimp only
  split
  · exact ⟨st, rfl, hListing, fun _ => Iff.rfl⟩
  rename_i hAlive
  split
  · exact ⟨st, rfl, hListing, fun _ => Iff.rfl⟩
  rename_i hIncomplete
  split
  · exact hSlaves st hListing fun _ => Iff.rfl
  split
  · have hKeys := (sameKeys_mapNodeFlag st true (keys_incrNodeCount (st.table 0 i))).trans
      (sameKeys_mapMigrate _ true (keys_decrNodeCount (st.table 0 i)))
    exact hSlaves _ (hListing.of_sameKeys hKeys) fun _ => Iff.rfl
  split
  · -- the master becomes a slave and another one is chosen
    obtain ⟨hDemoted, hOthers⟩ := demoteMaster_listing hListing i
    have hCopies : 0 < tb.copyCount := by
      by_contra hZero
      refine hIncomplete ?_
      rw [show tb.copyCount - 1 = 0 by omega]
      rfl
    obtain ⟨s, hChoose, hS, node, hNode, hTable⟩ :=
      chooseNodeInvalid_total hSome hCount rand hDemoted i (Or.inl hCopies) true
    rw [hChoose, Option.bind_some]
    refine hSlaves s hS ?_
    intro b
    by_cases hb : b = i
    · subst hb
      rw [hTable, set_self]
      refine ⟨fun hEq => absurd (hEq ▸ hNode) hNonzero, fun hEq => absurd (Or.inl hEq) hAlive⟩
    · rw [hTable, set_of_bucket_ne _ hb, hOthers b hb]
  · exact hSlaves st hListing fun _ => Iff.rfl

/-- The first build finds a server for every slot. -/
theorem buildFirstTime_total (rand : Nat → Nat) (hListing : tb.Listing st) :
    ∃ st', tb.buildFirstTime rand st = some st' := by
  have hMaster : ∀ s i, True → tb.Listing s →
      ∃ s', tb.chooseNodeInvalid rand s i 0 true = some s' ∧ tb.Listing s' := by
    intro s i _ hS
    have hFirst : 0 < tb.copyCount ∨ tb.copyCount = 0 := by omega
    obtain ⟨s', hChoose, hS', -⟩ := chooseNodeInvalid_total hSome hCount rand hS i hFirst true
    exact ⟨s', hChoose, hS'⟩
  have hSlave : ∀ i s j, j < tb.copyCount → tb.Listing s →
      ∃ s', tb.chooseNodeInvalid rand s i j false = some s' ∧ tb.Listing s' := by
    intro i s j hj hS
    obtain ⟨s', hChoose, hS', -⟩ :=
      chooseNodeInvalid_total hSome hCount rand hS i (Or.inl hj) false
    exact ⟨s', hChoose, hS'⟩
  have hBucket : ∀ s i, True → tb.Listing s →
      ∃ s', run (fun st j => tb.chooseNodeInvalid rand st i j false) s
        (List.range' 1 (tb.copyCount - 1)) = some s' ∧ tb.Listing s' := by
    intro s i _ hS
    refine run_total (hSlave i) hS (along_of_forall ?_)
    intro j hj _
    have hRange := mem_range'_1.mp hj
    omega
  obtain ⟨st₁, hMasters, hListing₁⟩ :=
    run_total hMaster hListing (along_of_forall fun _ (_ : _ ∈ List.range' 0 tb.bucketCount) _ =>
      trivial)
  obtain ⟨st₂, hSlaves, -⟩ :=
    run_total hBucket hListing₁ (along_of_forall fun _ (_ : _ ∈ List.range' 0 tb.bucketCount) _ =>
      trivial)
  refine ⟨st₂, ?_⟩
  rw [buildFirstTime, hMasters]
  exact hSlaves

end Placements

-- The whole rebuild

/-- The table that the balancing loops leave. -/
def Balanced (tb : TableBuilder) (rand : Nat → Nat) (fuel : Nat) (source t : HashTable) : Prop :=
  ∃ st st₁ st₂ : Rebuild,
    run (tb.fillBucket rand) (tb.initRebuild source) (List.range' 0 tb.bucketCount) = some st ∧
    tb.balance rand true fuel st = some st₁ ∧ tb.balance rand false fuel st₁ = some st₂ ∧
    st₂.table = t

/-- All buckets have a master, or none has. -/
def MastersUniform (tb : TableBuilder) (source : HashTable) : Prop :=
  tb.MastersEmpty source ∨ ∀ b < tb.bucketCount, source 0 b ≠ invalidFlag

/-- After the first phase the buckets with a master are those that had one. -/
theorem fill_total (rand : Nat → Nat) (source : HashTable)
    (hSome : 0 < tb.availableServer.entries.length)
    (hCount : tb.copyCount ≤ tb.availableServer.entries.length)
    (hNonzero : ¬ tb.Available invalidFlag) :
    ∃ st, run (tb.fillBucket rand) (tb.initRebuild source) (List.range' 0 tb.bucketCount) =
        some st ∧
      tb.Listing st ∧ ∀ b, st.table 0 b = invalidFlag ↔ source 0 b = invalidFlag := by
  have hStep : ∀ (s : Rebuild) (i : Nat), True →
      (tb.Listing s ∧ ∀ b, s.table 0 b = invalidFlag ↔ source 0 b = invalidFlag) →
      ∃ s', tb.fillBucket rand s i = some s' ∧
        (tb.Listing s' ∧ ∀ b, s'.table 0 b = invalidFlag ↔ source 0 b = invalidFlag) := by
    rintro s i - ⟨hListing, hMasters⟩
    obtain ⟨s', hFill, hListing', hSame⟩ :=
      fillBucket_total hSome hCount rand hNonzero hListing i
    exact ⟨s', hFill, hListing', fun b => (hSame b).trans (hMasters b)⟩
  exact run_total hStep ⟨initRebuild_listing source, fun _ => Iff.rfl⟩
    (along_of_forall fun _ _ _ => trivial)

/-- With fewer than `2 ^ 32` servers, no zero among them, and a table in which all buckets
have a master or none has, the number of servers is not zero when the shares are
computed, and a rebuild fails only for want of servers or because its table gives too
many servers more than their share. -/
theorem rebuildTableNew_error (tb : TableBuilder) (rand : Nat → Nat) (fuel : Nat)
    (source : HashTable) (hServers : tb.availableServer.entries.length < 2 ^ 32)
    (hNonzero : ¬ tb.Available invalidFlag) (hMasters : tb.MastersUniform source) :
    (tb.checkRebuildNeed source = true → tb.serverCount ≠ 0) ∧
      (tb.rebuildTableNew rand fuel source = some .error →
        tb.availableServer.entries.length < tb.copyCount ∨
          ∃ t, tb.Balanced rand fuel source t ∧
            (tb.overloaded t true > 8 ∨ tb.overloaded t false > 8)) := by
  refine ⟨?_, ?_⟩
  · intro hNeed
    have hSome := checkRebuildNeed_servers hNeed
    rw [serverCount, Nat.mod_eq_of_lt hServers]
    omega
  · intro hError
    unfold rebuildTableNew at hError
    split at hError
    · cases hError
    rename_i hNeed
    have hSome := checkRebuildNeed_servers (not_not.mp hNeed)
    split at hError
    · rename_i hFew
      exact Or.inl hFew
    rename_i hEnough
    obtain ⟨st, hFill, hListing, hSame⟩ :=
      fill_total rand source hSome (by omega) hNonzero
    rw [hFill] at hError
    dsimp only at hError
    split at hError
    · -- bucket 0 has no master, so no bucket has one, and there is a first table
      rename_i hFirst
      have hAll : ((List.range tb.bucketCount).all fun i => st.table 0 i = invalidFlag) = true := by
        rw [all_eq_true]
        intro i hi
        rw [decide_eq_true_eq, hSame]
        have hi := List.mem_range.mp hi
        rcases hMasters with hEmpty | hFull
        · exact hEmpty i hi
        · exact absurd ((hSame 0).mp hFirst) (hFull 0 (by omega))
      obtain ⟨st', hBuild⟩ := buildFirstTime_total hSome (by omega) rand hListing
      rw [if_pos hAll, hBuild] at hError
      cases hError
    · obtain ⟨st₁, hMaster, hRest⟩ := Option.bind_eq_some_iff.mp hError
      obtain ⟨st₂, hSlave, hResult⟩ := Option.map_eq_some_iff.mp hRest
      split at hResult
      · rename_i hOver
        exact Or.inr ⟨st₂.table, ⟨st, st₁, st₂, hFill, hMaster, hSlave, rfl⟩, hOver⟩
      · cases hResult

/-- One server for two copies. -/
theorem rebuildTableNew_error_one_server :
    rebuildTableNew ⟨1, 2, setAvailableServer [5]⟩ (fun _ => 0) 1 (fun _ _ => 0) = some .error ∧
      serverCount ⟨1, 2, setAvailableServer [5]⟩ ≠ 0 ∧
      ((setAvailableServer [5]).entries.length < 2 ∨
        ∃ t, Balanced ⟨1, 2, setAvailableServer [5]⟩ (fun _ => 0) 1 (fun _ _ => 0) t ∧
          (overloaded ⟨1, 2, setAvailableServer [5]⟩ t true > 8 ∨
            overloaded ⟨1, 2, setAvailableServer [5]⟩ t false > 8)) := by
  obtain ⟨hDivisor, hError⟩ := rebuildTableNew_error ⟨1, 2, setAvailableServer [5]⟩ (fun _ => 0) 1
    (fun _ _ => 0) (by decide) (by decide) (Or.inl fun _ _ => rfl)
  exact ⟨rfl, hDivisor (by decide), hError rfl⟩

/-- The servers with ids 1 to `n`. -/
def firstServers (n : Nat) : OrdMap ServerId Unit where
  entries := (List.range' 1 n).map fun id => (id, ())
  sorted := by
    rw [pairwise_map]
    exact pairwise_lt_range'

theorem mem_keys_firstServers {n id : Nat} : id ∈ (firstServers n).keys ↔ 1 ≤ id ∧ id < 1 + n := by
  simp [OrdMap.keys, firstServers, mem_range'_1]

/-- A positive multiple of `2 ^ 32` servers: a first table is needed and `S` is zero. -/
theorem serverCount_wraps {n : Nat} (hPos : 0 < n) (hWraps : n % 2 ^ 32 = 0) :
    ¬ Available ⟨1, 1, firstServers n⟩ invalidFlag ∧
      checkRebuildNeed ⟨1, 1, firstServers n⟩ (fun _ _ => invalidFlag) = true ∧
      serverCount ⟨1, 1, firstServers n⟩ = 0 := by
  have hZero : ¬ Available ⟨1, 1, firstServers n⟩ invalidFlag := by
    intro h
    have hOne := (mem_keys_firstServers.mp h).1
    simp [invalidFlag] at hOne
  refine ⟨hZero, ?_, ?_⟩
  · rw [checkRebuildNeed, checkRebuildNeedFrom_dead fun _ _ => hZero, decide_eq_true_eq]
    intro hKeys
    have hOne : 1 ∈ (firstServers n).keys := mem_keys_firstServers.mpr (by omega)
    rw [hKeys] at hOne
    simp [OrdMap.keys] at hOne
  · simpa [serverCount, firstServers] using hWraps

/-- 2^32 servers, of which an `int32_t` counts none. -/
theorem rebuildTableNew_divides_by_zero :
    ¬ Available ⟨1, 1, firstServers (2 ^ 32)⟩ invalidFlag ∧
      checkRebuildNeed ⟨1, 1, firstServers (2 ^ 32)⟩ (fun _ _ => invalidFlag) = true ∧
      serverCount ⟨1, 1, firstServers (2 ^ 32)⟩ = 0 :=
  serverCount_wraps (by norm_num) (Nat.mod_self _)

end TableBuilder

end MyBase
