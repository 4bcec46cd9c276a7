import MyBase.Meta.Rebuild

/-!
# MyBase — which servers a rebuild makes masters

A rebuild can give a bucket a new master. The server it takes may be new to the bucket
or may be the old master again, but it is never one of the bucket's old slaves: the
slaves stay where they are until the masters are settled, and a server with a copy of
the bucket is not taken for another.

Two facts carry this. The bucket sets for masters name position 0 and those for slaves
the other positions, so that each balancing loop moves its own kind (`Positions`); and
up to the end of the master loop a slot with a server keeps it, unless it is the
master's (`Kept`).

Main result:

* `rebuildTableNew_master_ne_slave` — the master of a rebuilt row is none of its old
  slaves.
-/

namespace MyBase

open Lib

namespace TableBuilder

variable {tb : TableBuilder} {rand : Nat → Nat} {source : HashTable} {st st' : Rebuild}

/-- The bucket sets for masters name masters, those for slaves name slaves. -/
def Positions (st : Rebuild) : Prop :=
  ∀ f, SetsAll (fun _ p => f = true ↔ p = 0) (st.bucketsSet f)

/-- Slaves are where they were. -/
structure Kept (source : HashTable) (st : Rebuild) : Prop where
  positions : Positions st
  slaves : ∀ b p, 1 ≤ p → source p b ≠ invalidFlag → st.table p b = source p b

-- Positions

variable {bucket position b p fuel : Nat} {masterFlag : Bool} {st₁ : Rebuild}

theorem Positions.update (h : Positions st) {sets : OrdMap ServerId (OrdMap Nat Nat)}
    (hNew : SetsAll (fun _ p => masterFlag = true ↔ p = 0) sets)
    (hSets : st'.bucketsSet = Function.update st.bucketsSet masterFlag sets) : Positions st' := by
  intro f
  rw [hSets]
  by_cases hf : f = masterFlag
  · subst hf
    rwa [Function.update_self]
  · rw [Function.update_of_ne hf]
    exact h f

theorem Positions.chooseNodeInvalid (h : Positions st) (hKind : masterFlag = true ↔ position = 0)
    (hChoose : tb.chooseNodeInvalid rand st bucket position masterFlag = some st') :
    Positions st' := by
  obtain ⟨-, node, -, -, -, hSets⟩ := chooseNodeInvalid_cases hChoose
  exact h.update ((h masterFlag).insert node hKind) hSets

/-- A search for a master leaves the slaves, and one for a slave the masters. -/
theorem Positions.chooseNode (tb : TableBuilder) (rand : Nat → Nat) (h : Positions st)
    (nodeInfo : ServerId) (masterFlag : Bool) :
    Positions (tb.chooseNode rand st nodeInfo masterFlag) ∧
      ∀ b p, (masterFlag = true ↔ p ≠ 0) →
        (tb.chooseNode rand st nodeInfo masterFlag).table p b = st.table p b := by
  obtain ⟨-, ⟨hTable, hSets⟩ | ⟨move, -, ⟨buckets, hBuckets, hMem⟩, -, hTable, hSets⟩⟩ :=
    chooseNode_cases tb rand st nodeInfo masterFlag
  · refine ⟨?_, fun b p _ => by rw [hTable]⟩
    intro f
    rw [hSets]
    exact h f
  · have hKind : masterFlag = true ↔ move.2.2 = 0 := h masterFlag _ hBuckets _ hMem
    refine ⟨h.update (((h masterFlag).insert move.1 hKind).erase nodeInfo move.2.1) hSets, ?_⟩
    intro b p hOther
    rw [hTable]
    refine set_of_position_ne _ ?_ _ _ _
    rintro rfl
    exact iff_not_self (hKind.symm.trans hOther)

theorem initRebuild_positions : Positions (tb.initRebuild source) := by
  intro f
  refine initBucketSet_all f ?_
  intro i j _ hPosition
  cases f with
  | true => simpa using hPosition
  | false =>
    have hPos : 1 ≤ j := hPosition.1
    simp only [Bool.false_eq_true, false_iff]
    omega

-- Slaves stay

section Kept

variable (h : Kept source st)
include h

theorem Kept.congr (hTable : st'.table = st.table) (hSets : st'.bucketsSet = st.bucketsSet) :
    Kept source st' := by
  refine ⟨?_, ?_⟩
  · intro f
    rw [hSets]
    exact h.positions f
  · rw [hTable]
    exact h.slaves

/-- A slot that is empty now has been empty from the start. -/
theorem Kept.empty (hp : 1 ≤ p) (hEmpty : st.table p b = invalidFlag) :
    source p b = invalidFlag := by
  by_contra hNe
  exact hNe ((h.slaves b p hp hNe).symm.trans hEmpty)

/-- A server goes to the master's slot or to an empty one. -/
theorem Kept.set (hSlot : position = 0 ∨ st.table position bucket = invalidFlag) (node : ServerId)
    (hp : 1 ≤ p) (hNe : source p b ≠ invalidFlag) :
    st.table.set position bucket node p b = source p b := by
  by_cases hHere : p = position ∧ b = bucket
  · obtain ⟨rfl, rfl⟩ := hHere
    rcases hSlot with hZero | hEmpty
    · omega
    · exact absurd (h.empty hp hEmpty) hNe
  · rw [← h.slaves b p hp hNe]
    by_cases hPos : p = position
    · exact set_of_bucket_ne _ (fun hb => hHere ⟨hPos, hb⟩) _ _ _
    · exact set_of_position_ne _ hPos _ _ _

theorem Kept.chooseNodeInvalid (hKind : masterFlag = true ↔ position = 0)
    (hSlot : position = 0 ∨ st.table position bucket = invalidFlag)
    (hChoose : tb.chooseNodeInvalid rand st bucket position masterFlag = some st') :
    Kept source st' := by
  obtain ⟨-, node, -, -, hTable, -⟩ := chooseNodeInvalid_cases hChoose
  refine ⟨h.positions.chooseNodeInvalid hKind hChoose, ?_⟩
  intro b p hp hNe
  rw [hTable]
  exact h.set hSlot node hp hNe

theorem Kept.chooseSlaveForInvalid (hChoose : tb.chooseSlaveForInvalid rand st bucket = some st') :
    Kept source st' := by
  refine run_range' (fun _ => Kept source) ?_ h hChoose
  intro n s s' hLo _ hInv hStep
  split at hStep
  · rename_i hEmpty
    exact hInv.chooseNodeInvalid (by simp; omega) (Or.inr hEmpty) hStep
  · cases hStep
    exact hInv

/-- The master goes to an empty slot. -/
theorem Kept.demoteMaster (bucket : Nat) : Kept source (tb.demoteMaster st bucket) := by
  unfold TableBuilder.demoteMaster
  dsimp only
  split
  · exact h.congr rfl rfl
  · rename_i n hFind
    have hRange := List.mem_range'_1.mp (List.mem_of_find?_eq_some hFind)
    have hFound := List.find?_some hFind
    have hEmpty : st.table n bucket = invalidFlag := of_decide_eq_true hFound
    refine ⟨?_, ?_⟩
    · intro f
      cases f with
      | true => exact (h.positions true).erase _ _
      | false =>
        exact (h.positions false).insert _ (by simp only [Bool.false_eq_true, false_iff]; omega)
    · intro b p hp hNe
      show (st.table.set n bucket _).set 0 bucket invalidFlag p b = source p b
      rw [set_of_position_ne _ (by omega)]
      exact h.set (Or.inr hEmpty) _ hp hNe

/-- Filling a row leaves the slaves that it has. -/
theorem Kept.fillBucket {i : Nat} (hFill : tb.fillBucket rand st i = some st') :
    Kept source st' := by
  unfold TableBuilder.fillBucket at hFill
  dsimp only at hFill
  split at hFill
  · cases hFill
    exact h
  split at hFill
  · cases hFill
    exact h
  split at hFill
  · exact h.chooseSlaveForInvalid hFill
  split at hFill
  · refine Kept.chooseSlaveForInvalid ?_ hFill
    exact h.congr rfl rfl
  split at hFill
  · -- the master becomes a slave, and the search is for another master
    obtain ⟨st₁, hMaster, hSlaves⟩ := Option.bind_eq_some_iff.mp hFill
    exact ((h.demoteMaster i).chooseNodeInvalid (by simp) (Or.inl rfl)
      hMaster).chooseSlaveForInvalid hSlaves
  · exact h.chooseSlaveForInvalid hFill

end Kept

/-- **The first phase and the master loop** leave the slaves where they were. -/
theorem kept_of_balance_masters
    (hFill : run (tb.fillBucket rand) (tb.initRebuild source) (List.range' 0 tb.bucketCount) =
      some st) (hBalance : tb.balance rand true fuel st = some st₁) : Kept source st₁ := by
  have hStart : Kept source (tb.initRebuild source) := ⟨initRebuild_positions, fun _ _ _ _ => rfl⟩
  have hFilled : Kept source st :=
    run_range' (fun _ => Kept source) (fun _ _ _ _ _ hInv hStep => hInv.fillBucket hStep)
      hStart hFill
  refine balance_invariant (Kept source) ?_ hFilled hBalance
  intro st nodeInfo h
  obtain ⟨hPositions, hSame⟩ := h.positions.chooseNode tb rand nodeInfo true
  refine ⟨hPositions, ?_⟩
  intro b p hp hNe
  rw [hSame b p (by simp; omega)]
  exact h.slaves b p hp hNe

/-- **The slave loop** leaves the masters where they were. -/
theorem masters_of_balance_slaves (hPositions : Positions st)
    (hBalance : tb.balance rand false fuel st = some st₁) (b : Nat) :
    st₁.table 0 b = st.table 0 b := by
  have hEnd := balance_invariant
    (fun s => Positions s ∧ s.table 0 b = st.table 0 b)
    (fun s nodeInfo h => by
      obtain ⟨hPositions', hSame⟩ := h.1.chooseNode tb rand nodeInfo false
      exact ⟨hPositions', (hSame b 0 (by simp)).trans h.2⟩)
    ⟨hPositions, rfl⟩ hBalance
  exact hEnd.2

/-- **The new master is no old slave.** When a rebuild succeeds, the master of a bucket
whose old master is available is none of the bucket's old slaves. -/
theorem rebuildTableNew_master_ne_slave (hCopies : 1 ≤ tb.copyCount)
    (hNonzero : ¬ tb.Available invalidFlag) (hSource : tb.SourceOk source) {t : HashTable}
    (hOk : tb.rebuildTableNew rand fuel source = some (.ok t)) (hAlive : tb.Alive source b)
    (hLo : 1 ≤ p) (hHi : p < tb.copyCount) : t 0 b ≠ source p b := by
  obtain ⟨st, hFill, hCase⟩ := rebuildTableNew_phases hOk
  obtain ⟨hSound, hFilled⟩ := fill_rows hNonzero hSource (initRebuild_sound hCopies hSource) rfl
    hFill
  rcases hCase with ⟨st', hEmpty, -, -⟩ | ⟨st₁, st₂, -, hMaster, hSlave, rfl⟩
  · -- the master that the first phase has left is available
    have hFirst := hFilled b hAlive 0 hCopies
    rw [hEmpty b hAlive.1] at hFirst
    exact absurd hFirst hNonzero
  · obtain ⟨hSound₁, hFilled₁⟩ := balance_rows hSound hFilled hMaster
    have hKept := kept_of_balance_masters hFill hMaster
    have hNe : st₁.table 0 b ≠ invalidFlag := by
      intro hZero
      exact hNonzero (hZero ▸ hFilled₁ b hAlive 0 hCopies)
    rw [masters_of_balance_slaves hKept.positions hSlave b]
    by_cases hSlot : source p b = invalidFlag
    · rwa [hSlot]
    · rw [← hKept.slaves b p hLo hSlot]
      exact hSound₁.distinct b hAlive 0 hCopies p hHi (by omega) hNe

end TableBuilder

end MyBase
