import MyBase.Meta.Rebuild

/-!
# MyBase — the quick table

When servers fail, `TableBuilder::buildQuickTable` keeps the buckets served without
moving data: a bucket whose master is dead makes one of its available slaves the
master, the dead slaves of a bucket with an available master are struck out, and
the slaves that are left move to the front of the row.

Each of the three loops changes a row by looking at that row alone, apart from the
numbers of masters promoted so far, which only decide between available slaves. So
what the table becomes is said row by row:

* `buildQuickTable_row` — the new row of a bucket, given its old one (`QuickRow`);
* `buildQuickTable_sourceOk` — the quick table is one a rebuild can start from.
-/

namespace MyBase

open Lib List

/-- The servers of a bucket, by copy. -/
def HashTable.row (t : HashTable) (b : Nat) : Nat → ServerId := fun p => t p b

namespace TableBuilder

-- The three loops

section Definitions

variable (tb : TableBuilder)

def isNodeAvailble (node : ServerId) : Bool := node ≠ invalidFlag && tb.isAvailable node

/-- The members that the first loop works on. A server that is not in the map yet is
entered with 0 by `operator[]`. -/
structure QuickBuild where
  table : HashTable
  mtokensCountInNode : ServerId → Int

/-- One pass of the search for the slave that becomes master: a slave that is not
available is skipped, and of the others the first that is master least often is kept. -/
def considerLine (q : QuickBuild) (idx : Nat) (chosen : Option Nat) (nextLine : Nat) :
    Option Nat :=
  if ¬ tb.isNodeAvailble (q.table nextLine idx) then chosen
  else
    match chosen with
    | none => some nextLine
    | some l =>
      if q.mtokensCountInNode (q.table l idx) > q.mtokensCountInNode (q.table nextLine idx)
      then some nextLine else some l

/-- `chosen_line_num`. -/
def chosenLine (q : QuickBuild) (idx : Nat) : Option Nat :=
  (List.range' 1 (tb.copyCount - 1)).foldl (tb.considerLine q idx) none

/-- `changeMasterNode` with `force_flag`, which is how it is called. -/
def changeMasterNode (q : QuickBuild) (idx : Nat) : QuickBuild :=
  match tb.chosenLine q idx with
  | none => q
  | some chosen =>
    let orgNode := q.table 0 idx
    let newMaster := q.table chosen idx
    let count := Function.update q.mtokensCountInNode newMaster
      (q.mtokensCountInNode newMaster + 1)
    let table := q.table.set 0 idx newMaster
    if tb.isNodeAvailble orgNode then
      ⟨table.set chosen idx orgNode, Function.update count orgNode (count orgNode - 1)⟩
    else ⟨table.set chosen idx invalidFlag, count⟩

/-- The first loop, over the buckets. -/
def promoteMasters (t : HashTable) : HashTable :=
  ((List.range tb.bucketCount).foldl
    (fun q idx => if tb.isNodeAvailble (q.table 0 idx) then q else tb.changeMasterNode q idx)
    ⟨t, fun _ => 0⟩).table

/-- The second loop. Each cell depends on itself and on the master, which stays. -/
def dropDead (t : HashTable) : HashTable := fun p b =>
  if 1 ≤ p ∧ p < tb.copyCount ∧ b < tb.bucketCount ∧ tb.isNodeAvailble (t 0 b) ∧
      ¬ tb.isNodeAvailble (t p b) then invalidFlag
  else t p b

/-- The third loop for copy `j` of a row: an empty slot takes the next server. -/
def pullForward (row : Nat → ServerId) (j : Nat) : Nat → ServerId :=
  if row j ≠ invalidFlag then row
  else
    match (List.range' (j + 1) (tb.copyCount - (j + 1))).find? fun n => row n ≠ invalidFlag with
    | none => row
    | some n => Function.update (Function.update row j (row n)) n invalidFlag

def compactRow (row : Nat → ServerId) : Nat → ServerId :=
  (List.range' 1 (tb.copyCount - 1)).foldl tb.pullForward row

/-- The third loop, over the buckets. -/
def compact (t : HashTable) : HashTable := fun p b =>
  if b < tb.bucketCount then tb.compactRow (t.row b) p else t p b

/-- `buildQuickTable`, which always returns true. -/
def buildQuickTable (t : HashTable) : HashTable := tb.compact (tb.dropDead (tb.promoteMasters t))

end Definitions

/-- No server is twice in a row. -/
def RowDistinct (tb : TableBuilder) (row : Nat → ServerId) : Prop :=
  ∀ p < tb.copyCount, ∀ q < tb.copyCount, p ≠ q → row p ≠ invalidFlag → row p ≠ row q

-- Promotion

section Promotion

variable {tb : TableBuilder}

theorem isNodeAvailble_iff {node : ServerId} :
    tb.isNodeAvailble node = true ↔ node ≠ invalidFlag ∧ tb.Available node := by
  simp [isNodeAvailble, isAvailable_iff]

variable {q : QuickBuild} {idx l p : Nat} {row row' : Nat → ServerId} {lines : List Nat}
  {chosen : Option Nat}

theorem considerLine_of_dead (chosen : Option Nat) (h : tb.isNodeAvailble (q.table l idx) = false) :
    tb.considerLine q idx chosen l = chosen := by
  unfold considerLine
  rw [if_pos (by simp [h])]

theorem considerLine_of_available (chosen : Option Nat)
    (h : tb.isNodeAvailble (q.table l idx) = true) :
    tb.considerLine q idx chosen l = some l ∨
      (chosen ≠ none ∧ tb.considerLine q idx chosen l = chosen) := by
  unfold considerLine
  rw [if_neg (by simp [h])]
  cases chosen with
  | none => exact Or.inl rfl
  | some l' =>
    dsimp only
    split
    · exact Or.inl rfl
    · exact Or.inr ⟨Option.some_ne_none _, rfl⟩

/-- What is chosen after some more lines was chosen before or is one of them. -/
theorem foldl_considerLine_some (h : lines.foldl (tb.considerLine q idx) chosen = some l) :
    chosen = some l ∨ (l ∈ lines ∧ tb.isNodeAvailble (q.table l idx) = true) := by
  induction lines generalizing chosen with
  | nil => exact Or.inl h
  | cons l₀ lines ih =>
    rw [foldl_cons] at h
    rcases ih h with hStep | ⟨hMem, hAv⟩
    · cases hFirst : tb.isNodeAvailble (q.table l₀ idx) with
      | false => exact Or.inl ((considerLine_of_dead chosen hFirst).symm.trans hStep)
      | true =>
        rcases considerLine_of_available chosen hFirst with hTake | ⟨-, hKeep⟩
        · rw [hTake] at hStep
          cases hStep
          exact Or.inr ⟨mem_cons_self, hFirst⟩
        · exact Or.inl (hKeep.symm.trans hStep)
    · exact Or.inr ⟨mem_cons_of_mem _ hMem, hAv⟩

theorem foldl_considerLine_none (h : lines.foldl (tb.considerLine q idx) chosen = none) :
    chosen = none ∧ ∀ l ∈ lines, tb.isNodeAvailble (q.table l idx) = false := by
  induction lines generalizing chosen with
  | nil => exact ⟨h, by simp⟩
  | cons l₀ lines ih =>
    rw [foldl_cons] at h
    obtain ⟨hStep, hRest⟩ := ih h
    cases hFirst : tb.isNodeAvailble (q.table l₀ idx) with
    | false =>
      refine ⟨(considerLine_of_dead chosen hFirst).symm.trans hStep, ?_⟩
      exact List.forall_mem_cons.mpr ⟨hFirst, hRest⟩
    | true =>
      rcases considerLine_of_available chosen hFirst with hTake | ⟨hNe, hKeep⟩
      · rw [hTake] at hStep
        cases hStep
      · exact absurd (hKeep.symm.trans hStep) hNe

theorem chosenLine_some (h : tb.chosenLine q idx = some l) :
    1 ≤ l ∧ l < tb.copyCount ∧ tb.isNodeAvailble (q.table l idx) = true := by
  obtain ⟨hMem, hAv⟩ := (foldl_considerLine_some h).resolve_left (by simp)
  have hRange := mem_range'_1.mp hMem
  exact ⟨hRange.1, by omega, hAv⟩

theorem chosenLine_none (h : tb.chosenLine q idx = none) (hLo : 1 ≤ l) (hHi : l < tb.copyCount) :
    tb.isNodeAvailble (q.table l idx) = false :=
  (foldl_considerLine_none h).2 l (mem_range'_1.mpr (by omega))

/-- A row after the first loop: it is as it was when its master is available or no slave
is, and else an available slave is the master and its old slot is empty. -/
def Promoted (tb : TableBuilder) (row row' : Nat → ServerId) : Prop :=
  (row' = row ∧ (tb.isNodeAvailble (row 0) = true ∨
    ∀ p < tb.copyCount, tb.isNodeAvailble (row p) = false)) ∨
  ∃ l, 1 ≤ l ∧ l < tb.copyCount ∧ tb.isNodeAvailble (row 0) = false ∧
    tb.isNodeAvailble (row l) = true ∧
    row' = Function.update (Function.update row 0 (row l)) l invalidFlag

theorem row_set_self (t : HashTable) (position b : Nat) (node : ServerId) :
    (t.set position b node).row b = Function.update (t.row b) position node := by
  funext p
  by_cases hp : p = position
  · subst hp
    simp [HashTable.row, set_self]
  · simp [HashTable.row, set_of_position_ne t hp, hp]

theorem row_set_of_ne (t : HashTable) {bucket b : Nat} (h : b ≠ bucket) (position : Nat)
    (node : ServerId) : (t.set position bucket node).row b = t.row b := by
  funext p
  exact set_of_bucket_ne t h position p node

/-- The first loop gives each row a master, if it can. -/
theorem promoteMasters_row (tb : TableBuilder) (t : HashTable) (b : Nat) :
    (b < tb.bucketCount → tb.Promoted (t.row b) ((tb.promoteMasters t).row b)) ∧
      (tb.bucketCount ≤ b → (tb.promoteMasters t).row b = t.row b) := by
  refine foldl_range_rows (fun q b => q.table.row b) tb.Promoted ?_ ?_
    (QuickBuild.mk t fun _ => 0) _ _
  · intro q idx
    split
    · rename_i hMaster
      exact Or.inl ⟨rfl, Or.inl hMaster⟩
    · rename_i hMaster
      rw [Bool.not_eq_true] at hMaster
      unfold changeMasterNode
      split
      · rename_i hChosen
        refine Or.inl ⟨rfl, Or.inr ?_⟩
        intro p hp
        by_cases hp0 : p = 0
        · rw [hp0]
          exact hMaster
        · exact chosenLine_none hChosen (by omega) hp
      · rename_i l hChosen
        obtain ⟨hLo, hHi, hAv⟩ := chosenLine_some hChosen
        dsimp only
        rw [if_neg (by simp [hMaster])]
        refine Or.inr ⟨l, hLo, hHi, hMaster, hAv, ?_⟩
        rw [row_set_self, row_set_self]
        rfl
  · intro q idx b hb
    split
    · rfl
    · unfold changeMasterNode
      split
      · rfl
      · dsimp only
        split <;> rw [row_set_of_ne _ hb, row_set_of_ne _ hb]

variable (h : tb.Promoted row row')
include h

/-- Promotion keeps the servers of a row distinct. -/
theorem Promoted.distinct (hDistinct : tb.RowDistinct row) : tb.RowDistinct row' := by
  rcases h with ⟨rfl, -⟩ | ⟨l, hLo, hHi, -, hAv, rfl⟩
  · exact hDistinct
  · have hNode := (isNodeAvailble_iff.mp hAv).1
    have hl : l ≠ 0 := by omega
    intro p hp q hq hpq hNe
    by_cases hpl : p = l
    · subst hpl
      simp at hNe
    by_cases hql : q = l
    · subst hql
      simpa using hNe
    by_cases hp0 : p = 0
    · subst hp0
      simp only [Function.update_of_ne hpl, Function.update_self, Function.update_of_ne hql,
        Function.update_of_ne (Ne.symm hpq)]
      exact hDistinct l hHi q hq (Ne.symm hql) hNode
    · simp only [Function.update_of_ne hpl, Function.update_of_ne hp0] at hNe ⊢
      by_cases hq0 : q = 0
      · subst hq0
        simp only [Function.update_of_ne hql, Function.update_self]
        exact hDistinct p hp l hHi hpl hNe
      · simp only [Function.update_of_ne hql, Function.update_of_ne hq0]
        exact hDistinct p hp q hq hpq hNe

/-- After the first loop the master is available when any server of the row was. -/
theorem Promoted.available (hp : p < tb.copyCount) (hAv : tb.isNodeAvailble (row p) = true) :
    tb.isNodeAvailble (row' 0) = true := by
  rcases h with ⟨rfl, hMaster | hNone⟩ | ⟨l, hLo, -, -, hSlave, rfl⟩
  · exact hMaster
  · rw [hNone p hp] at hAv
    cases hAv
  · rwa [Function.update_of_ne (by omega), Function.update_self]

/-- The servers after the first loop are servers of the row. -/
theorem Promoted.within (hp : p < tb.copyCount) :
    row' p = invalidFlag ∨ ∃ q < tb.copyCount, row' p = row q := by
  rcases h with ⟨rfl, -⟩ | ⟨l, hLo, hHi, -, -, rfl⟩
  · exact Or.inr ⟨p, hp, rfl⟩
  · by_cases hpl : p = l
    · subst hpl
      exact Or.inl (Function.update_self ..)
    · rw [Function.update_of_ne hpl]
      by_cases hp0 : p = 0
      · subst hp0
        exact Or.inr ⟨l, hHi, Function.update_self ..⟩
      · exact Or.inr ⟨p, hp, Function.update_of_ne hp0 ..⟩

theorem Promoted.master
    (hStays : tb.isNodeAvailble (row 0) = true ∨
      ∀ p < tb.copyCount, tb.isNodeAvailble (row p) = false) : row' 0 = row 0 := by
  rcases h with ⟨rfl, -⟩ | ⟨l, -, hHi, hDead, hAv, -⟩
  · rfl
  · rcases hStays with hMaster | hNone
    · rw [hDead] at hMaster
      cases hMaster
    · rw [hNone l hHi] at hAv
      cases hAv

end Promotion

-- Striking out dead slaves

/-- A row after the second loop. -/
structure Dropped (tb : TableBuilder) (row row' : Nat → ServerId) : Prop where
  master : row' 0 = row 0
  cells : ∀ p < tb.copyCount, row' p = invalidFlag ∨ row' p = row p
  available : tb.isNodeAvailble (row 0) = true →
    ∀ p < tb.copyCount, row' p = invalidFlag ∨ tb.isNodeAvailble (row' p) = true

section Dropping

variable {tb : TableBuilder}

/-- The second loop empties the slots of dead slaves. -/
theorem dropDead_row (t : HashTable) {b : Nat} (hb : b < tb.bucketCount) :
    tb.Dropped (t.row b) ((tb.dropDead t).row b) := by
  have hZero : tb.dropDead t 0 b = t 0 b := if_neg (by omega)
  refine ⟨hZero, ?_, ?_⟩
  · intro p _
    show tb.dropDead t p b = invalidFlag ∨ tb.dropDead t p b = t p b
    rw [dropDead]
    exact ite_eq_or_eq ..
  · intro hMaster p hp
    by_cases hp0 : p = 0
    · subst hp0
      right
      show tb.isNodeAvailble (tb.dropDead t 0 b) = true
      rw [hZero]
      exact hMaster
    · cases hAv : tb.isNodeAvailble (t p b) with
      | true =>
        right
        show tb.isNodeAvailble (tb.dropDead t p b) = true
        rwa [dropDead, if_neg (by simp [hAv])]
      | false => exact Or.inl (if_pos ⟨by omega, hp, hb, hMaster, by simp [hAv]⟩)

theorem Dropped.distinct {row row' : Nat → ServerId} (h : tb.Dropped row row')
    (hDistinct : tb.RowDistinct row) : tb.RowDistinct row' := by
  intro p hp q hq hpq hNe
  have hRow := (h.cells p hp).resolve_left hNe
  rcases h.cells q hq with hEmpty | hSame
  · rw [hEmpty]
    exact hNe
  · rw [hRow, hSame]
    exact hDistinct p hp q hq hpq (hRow ▸ hNe)

end Dropping

-- Compaction

section Compaction

variable {tb : TableBuilder}

/-- The slaves of a row in another order. -/
def Reordered (tb : TableBuilder) (row row' : Nat → ServerId) : Prop :=
  ∃ σ : Equiv.Perm Nat, row' = row ∘ σ ∧ σ 0 = 0 ∧ ∀ p, tb.copyCount ≤ p → σ p = p

theorem Reordered.refl (row : Nat → ServerId) : tb.Reordered row row :=
  ⟨Equiv.refl Nat, rfl, rfl, fun _ _ => rfl⟩

variable {row row' : Nat → ServerId} {p : Nat}

theorem Reordered.trans {row₁ row₂ : Nat → ServerId} (h : tb.Reordered row row₁)
    (h' : tb.Reordered row₁ row₂) : tb.Reordered row row₂ := by
  obtain ⟨σ, rfl, hZero, hBehind⟩ := h
  obtain ⟨τ, rfl, hZero', hBehind'⟩ := h'
  refine ⟨τ.trans σ, rfl, ?_, ?_⟩
  · rw [Equiv.trans_apply, hZero', hZero]
  · intro p hp
    rw [Equiv.trans_apply, hBehind' p hp, hBehind p hp]

/-- The third loop moves servers within a row. -/
theorem pullForward_reordered (row : Nat → ServerId) {j : Nat} (hj : 1 ≤ j) :
    tb.Reordered row (tb.pullForward row j) := by
  unfold pullForward
  split
  · exact Reordered.refl row
  · rename_i hEmpty
    rw [not_not] at hEmpty
    split
    · exact Reordered.refl row
    · rename_i n hFind
      have hRange := mem_range'_1.mp (mem_of_find?_eq_some hFind)
      -- the slot that is filled and the one that becomes empty change places
      refine ⟨Equiv.swap j n, ?_, Equiv.swap_apply_of_ne_of_ne (by omega) (by omega), ?_⟩
      · funext p
        by_cases hpn : p = n
        · subst hpn
          simp [hEmpty]
        · by_cases hpj : p = j
          · subst hpj
            simp [hpn]
          · simp [hpn, hpj, Equiv.swap_apply_of_ne_of_ne hpj hpn]
      · intro p hp
        exact Equiv.swap_apply_of_ne_of_ne (by omega) (by omega)

theorem compactRow_reordered (row : Nat → ServerId) : tb.Reordered row (tb.compactRow row) := by
  unfold compactRow
  refine List.foldlRecOn _ _ (Reordered.refl row) ?_
  intro row' hRow j hj
  exact hRow.trans (pullForward_reordered row' (mem_range'_1.mp hj).1)

theorem Reordered.master (h : tb.Reordered row row') : row' 0 = row 0 := by
  obtain ⟨σ, rfl, hZero, -⟩ := h
  rw [Function.comp_apply, hZero]

/-- A permutation that keeps everything behind the row keeps the row. -/
theorem perm_lt {σ : Equiv.Perm Nat} {n : Nat} (hBehind : ∀ p, n ≤ p → σ p = p) (hp : p < n) :
    σ p < n := by
  by_contra hGe
  have hEq : σ p = p := σ.injective (hBehind (σ p) (by omega))
  omega

theorem Reordered.cell (h : tb.Reordered row row') (hp : p < tb.copyCount) :
    ∃ q < tb.copyCount, row' p = row q := by
  obtain ⟨σ, rfl, -, hBehind⟩ := h
  exact ⟨σ p, perm_lt hBehind hp, rfl⟩

theorem Reordered.distinct (h : tb.Reordered row row') (hDistinct : tb.RowDistinct row) :
    tb.RowDistinct row' := by
  obtain ⟨σ, rfl, -, hBehind⟩ := h
  intro p hp q hq hpq hNe
  exact hDistinct (σ p) (perm_lt hBehind hp) (σ q) (perm_lt hBehind hq)
    (fun hEq => hpq (σ.injective hEq)) hNe

end Compaction

-- Rows of the quick table

/-- What the quick table makes of a row. -/
structure QuickRow (tb : TableBuilder) (row row' : Nat → ServerId) : Prop where
  /-- Servers only leave the row. -/
  within : ∀ p < tb.copyCount, row' p = invalidFlag ∨ ∃ q < tb.copyCount, row' p = row q
  /-- A row with an available server has one as its master and no others left. -/
  served : (∃ p < tb.copyCount, tb.isNodeAvailble (row p) = true) →
    tb.isNodeAvailble (row' 0) = true ∧
      ∀ p < tb.copyCount, row' p = invalidFlag ∨ tb.isNodeAvailble (row' p) = true
  /-- An available master stays, and so does a dead one without an available slave. -/
  master : (tb.isNodeAvailble (row 0) = true ∨
    ∀ p < tb.copyCount, tb.isNodeAvailble (row p) = false) → row' 0 = row 0
  distinct : tb.RowDistinct row → tb.RowDistinct row'

section Rows

variable {tb : TableBuilder}

/-- **The quick table, row by row.** -/
theorem buildQuickTable_row (tb : TableBuilder) (t : HashTable) {b : Nat}
    (hb : b < tb.bucketCount) : tb.QuickRow (t.row b) ((tb.buildQuickTable t).row b) := by
  have hPromoted := (promoteMasters_row tb t b).1 hb
  have hDropped := dropDead_row (tb.promoteMasters t) hb
  have hReordered : tb.Reordered ((tb.dropDead (tb.promoteMasters t)).row b)
      ((tb.buildQuickTable t).row b) := by
    have hRow : (tb.buildQuickTable t).row b =
        tb.compactRow ((tb.dropDead (tb.promoteMasters t)).row b) := funext fun p => if_pos hb
    rw [hRow]
    exact compactRow_reordered _
  refine ⟨?_, ?_, ?_, ?_⟩
  · intro p hp
    obtain ⟨q, hq, hCell⟩ := hReordered.cell hp
    rcases hDropped.cells q hq with hEmpty | hSame
    · exact Or.inl (hCell.trans hEmpty)
    · rw [hCell, hSame]
      exact hPromoted.within hq
  · rintro ⟨p, hp, hAv⟩
    have hMaster := hPromoted.available hp hAv
    refine ⟨?_, ?_⟩
    · rwa [hReordered.master, hDropped.master]
    · intro p' hp'
      obtain ⟨q, hq, hCell⟩ := hReordered.cell hp'
      rw [hCell]
      exact hDropped.available hMaster q hq
  · intro hStays
    rw [hReordered.master, hDropped.master, hPromoted.master hStays]
  · intro hDistinct
    exact hReordered.distinct (hDropped.distinct (hPromoted.distinct hDistinct))

/-- A rebuild can start from the quick table of a table without double entries. -/
theorem buildQuickTable_sourceOk (t : HashTable)
    (hDistinct : ∀ b < tb.bucketCount, tb.Distinct t b) (hNonzero : ¬ tb.Available invalidFlag) :
    tb.SourceOk (tb.buildQuickTable t) where
  distinct := fun b hb => (buildQuickTable_row tb t hb).distinct (hDistinct b hb)
  fillable := by
    intro b hb hMaster p hp
    have hRow := buildQuickTable_row tb t hb
    by_cases hAny : ∃ q < tb.copyCount, tb.isNodeAvailble (t.row b q) = true
    · exact ((hRow.served hAny).2 p hp).imp_right fun h => (isNodeAvailble_iff.mp h).2
    · -- the master has not changed, so it is not available
      have hNone : ∀ q < tb.copyCount, tb.isNodeAvailble (t.row b q) = false := by
        simpa using hAny
      have hSame : tb.buildQuickTable t 0 b = t 0 b := hRow.master (Or.inr hNone)
      have hDead := hNone 0 (by omega)
      have hAv : tb.isNodeAvailble (t.row b 0) = true := by
        rw [hSame] at hMaster
        exact isNodeAvailble_iff.mpr ⟨fun hEq => hNonzero (hEq ▸ hMaster), hMaster⟩
      rw [hDead] at hAv
      cases hAv

end Rows

end TableBuilder

end MyBase
