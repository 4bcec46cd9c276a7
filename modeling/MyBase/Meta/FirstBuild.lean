import MyBase.Lib.Shares
import MyBase.Meta.BucketSets

/-!
# MyBase — the first table

When the table has no masters, `rebuildTableNew` builds it anew: first all masters, then
the slaves bucket by bucket. No flag is set meanwhile, so each slot gets a server that has
least among those not yet in the row.

For the masters every server will do, and the numbers of buckets the servers are masters
of never differ by more than one (`MastersChosen`). The slaves of a bucket are the servers,
apart from its master, that have least (`RowChosen`). A master that has least when its own
bucket comes falls behind, and when that is one of the last buckets, nothing makes up for it.

Main results:

* `rebuildTableNew_first_masters` — every server is master of its share;
* `rebuildTableNew_first_shares` — numbers of buckets, copies and servers for which every server
  has its share of all copies, whatever the random numbers;
* `rebuildTableNew_first_unfair` — a table in which one has not.
-/

namespace MyBase

open Lib

namespace TableBuilder

variable {tb : TableBuilder} {rand : Nat → Nat} {st st' : Rebuild}

/-- The table of a new system. -/
def zeroTable : HashTable := fun _ _ => invalidFlag

/-- The masters of the first table. -/
def firstMasters (tb : TableBuilder) (rand : Nat → Nat) (st : Rebuild) : Option Rebuild :=
  run (fun st i => tb.chooseNodeInvalid rand st i 0 true) st (List.range' 0 tb.bucketCount)

/-- The slaves of one bucket of the first table. -/
def slavesOfBucket (tb : TableBuilder) (rand : Nat → Nat) (st : Rebuild) (i : Nat) :
    Option Rebuild :=
  run (fun st j => tb.chooseNodeInvalid rand st i j false) st (List.range' 1 (tb.copyCount - 1))

-- A rebuild of a table without masters

theorem checkRebuildNeed_zero (hSome : 0 < tb.availableServer.entries.length)
    (hNonzero : ¬ tb.Available invalidFlag) : tb.checkRebuildNeed zeroTable = true := by
  rw [checkRebuildNeed, checkRebuildNeedFrom_dead fun _ _ => hNonzero, decide_eq_true_eq]
  intro hKeys
  have hLength := congrArg List.length hKeys
  simp [OrdMap.keys] at hLength
  rw [hLength] at hSome
  simp at hSome

/-- Buckets without a master are left to `buildFirstTime`. -/
theorem fill_zero (buckets : List Nat) :
    run (tb.fillBucket rand) (tb.initRebuild zeroTable) buckets =
      some (tb.initRebuild zeroTable) := by
  induction buckets with
  | nil => rfl
  | cons i buckets ih =>
    have hStep : tb.fillBucket rand (tb.initRebuild zeroTable) i =
        some (tb.initRebuild zeroTable) := by
      rw [fillBucket]
      exact if_pos (Or.inl rfl)
    rw [run, hStep]
    exact ih

theorem rebuildTableNew_zero (hSome : 0 < tb.availableServer.entries.length)
    (hNonzero : ¬ tb.Available invalidFlag)
    (hCount : tb.copyCount ≤ tb.availableServer.entries.length) (fuel : Nat)
    (hBuild : tb.buildFirstTime rand (tb.initRebuild zeroTable) = some st) :
    tb.rebuildTableNew rand fuel zeroTable = some (.ok st.table) := by
  have hAll : ((List.range tb.bucketCount).all fun i =>
      (tb.initRebuild zeroTable).table 0 i = invalidFlag) = true := by
    rw [List.all_eq_true]
    intro i _
    exact decide_eq_true rfl
  have hFirst : (tb.initRebuild zeroTable).table 0 0 = invalidFlag := rfl
  rw [rebuildTableNew, if_neg (by rw [checkRebuildNeed_zero hSome hNonzero]; simp),
    if_neg (by omega), fill_zero]
  dsimp only
  rw [if_pos hFirst, if_pos hAll, hBuild]

-- Masters

/-- What holds throughout a first build: the counters list the servers, no flag is set,
and the counters tell what a server has. -/
structure FirstBuild (tb : TableBuilder) (st : Rebuild) : Prop where
  listing : tb.Listing st
  flags : ∀ f x, valueAt (st.nodeFlag f) x = 0
  masters : tb.Tally true st
  copies : 0 < tb.copyCount → tb.Tally false st

/-- A build of the empty table starts with counters of 0. -/
theorem initRebuild_first (hNonzero : ¬ tb.Available invalidFlag) :
    tb.FirstBuild (tb.initRebuild zeroTable) where
  listing := initRebuild_listing _
  flags := fun _ x => valueAt_initTokenCount x
  masters := by
    by_cases hCopies : 0 < tb.copyCount
    · exact initRebuild_tally hCopies _ true
    · -- the counts are empty, and so is the table
      intro x hx
      have hxNe : x ≠ invalidFlag := hx.ne_invalid hNonzero
      have hHeld : tb.held true zeroTable x = 0 := held_empty (fun _ _ => rfl) hxNe
      have hCount : valueAt (tb.tokensCountInNode zeroTable true) x = 0 := by
        rw [tokensCountInNode, if_pos rfl, if_pos (by omega)]
        exact valueAt_initTokenCount x
      have hMigrate : valueAt ((tb.initRebuild zeroTable).migrateNodeInfo true) x =
          valueAt (tb.tokensCountInNode zeroTable true) x - tb.tokensPerNodeMin true :=
        valueAt_initCandidateNew _ ((keys_tokensCountInNode _ _).mpr hx)
      have hFlag : valueAt ((tb.initRebuild zeroTable).nodeFlag true) x = 0 :=
        valueAt_initTokenCount x
      have hTable : (tb.initRebuild zeroTable).table = zeroTable := rfl
      rw [hMigrate, hFlag, hCount, hTable, hHeld]
      simp
  copies := fun hCopies => initRebuild_tally hCopies _ false

section Placing

variable (hNonzero : ¬ tb.Available invalidFlag)

include hNonzero

variable {node x : ServerId} {i b j : Nat} {t : HashTable} {masterFlag : Bool}

/-- A server that is placed is counted. -/
theorem FirstBuild.takes {bucket position : Nat} (h : tb.FirstBuild st)
    (hTakes : tb.Takes st st' bucket position masterFlag node)
    (hEmpty : st.table position bucket = invalidFlag) (hBucket : bucket < tb.bucketCount)
    (hMaster : position = 0 ↔ masterFlag = true)
    (hPosition : position = 0 ∨ position < tb.copyCount) :
    tb.FirstBuild st' where
  listing := hTakes.listing
  flags := by
    rw [hTakes.flags]
    exact h.flags
  masters := by
    refine hTakes.tally hNonzero hEmpty ?_ h.masters
    rw [mem_cells_true]
    simp [hBucket, hMaster]
  copies := by
    intro hCopies
    refine hTakes.tally hNonzero hEmpty ?_ (h.copies hCopies)
    rw [mem_cells_false]
    have hIn : position < tb.copyCount := by omega
    simp [hBucket, hIn]

omit hNonzero in
/-- With no flags set, a counter is smaller just when the server has less. -/
theorem FirstBuild.held_le (h : tb.FirstBuild st) (hTally : tb.Tally masterFlag st) {y : ServerId}
    (hx : tb.Available x) (hy : tb.Available y)
    (hLe : valueAt (st.migrateNodeInfo masterFlag) x ≤ valueAt (st.migrateNodeInfo masterFlag) y) :
    tb.held masterFlag st.table x ≤ tb.held masterFlag st.table y := by
  have hxT := hTally x hx
  have hyT := hTally y hy
  rw [h.flags] at hxT hyT
  omega

/-- The masters of the buckets below `i` have been chosen, evenly. One that is chosen has most then,
so it is chosen again at once only when all servers have the same number. -/
structure MastersChosen (tb : TableBuilder) (i : Nat) (st : Rebuild) : Prop where
  first : tb.FirstBuild st
  chosen : ∀ b < i, tb.Available (st.table 0 b)
  empty : ∀ p b, p ≠ 0 ∨ i ≤ b → st.table p b = invalidFlag
  even : (tb.servers : Set ServerId).EquitableOn (tb.held true st.table)
  total : ∑ x ∈ tb.servers, tb.held true st.table x = i
  last : ∀ b, b + 1 = i → ∀ x ∈ tb.servers,
    tb.held true st.table x ≤ tb.held true st.table (st.table 0 b)
  again : ∀ b, b + 1 < i → st.table 0 b = st.table 0 (b + 1) → tb.servers.card ∣ b + 1

/-- The server that becomes a master is master of least, as the row is empty and every server
would do. -/
theorem MastersChosen.taken_least (h : tb.MastersChosen i st)
    (hTakes : tb.Takes st st' i 0 true node) :
    ∀ x ∈ tb.servers, tb.held true st.table node ≤ tb.held true st.table x := by
  intro x hx
  have hx : tb.Available x := mem_servers.mp hx
  refine h.first.held_le h.first.masters hTakes.available hx
    (hTakes.least (h.first.flags true) x hx (checkNodeOk_iff.mpr ?_))
  intro p _ hp hEq
  rw [h.empty p i (Or.inl hp)] at hEq
  exact hNonzero (hEq ▸ hx)

theorem MastersChosen.held_of_takes (h : tb.MastersChosen i st) (hi : i < tb.bucketCount)
    (hTakes : tb.Takes st st' i 0 true node) :
    ∀ x ∈ tb.servers,
      tb.held true st'.table x = tb.held true st.table x + if x = node then 1 else 0 := by
  intro x hx
  rw [hTakes.table, held_fill (mem_cells_true.mpr ⟨rfl, hi⟩) (h.empty 0 i (Or.inr (le_refl i))) node
    ((mem_servers.mp hx).ne_invalid hNonzero)]
  simp only [eq_comm]

/-- **Step lemma.** -/
theorem MastersChosen.step (h : tb.MastersChosen i st) (hi : i < tb.bucketCount)
    (hStep : tb.chooseNodeInvalid rand st i 0 true = some st') : tb.MastersChosen (i + 1) st' := by
  obtain ⟨node, hTakes⟩ := chooseNodeInvalid_takes h.first.listing hNonzero hStep
  have hNode : node ∈ tb.servers := mem_servers.mpr hTakes.available
  have hLeast := h.taken_least hNonzero hTakes
  have hHeld := h.held_of_takes hNonzero hi hTakes
  have hOwn : st'.table 0 i = node := by rw [hTakes.table, set_self]
  have hOther : ∀ p b, b ≠ i → st'.table p b = st.table p b := by
    intro p b hb
    rw [hTakes.table, set_of_bucket_ne _ hb]
  refine ⟨h.first.takes hNonzero hTakes (h.empty 0 i (Or.inr (le_refl i))) hi (by simp)
    (Or.inl rfl), ?_, ?_, equitableOn_incr h.even hLeast hHeld, ?_, ?_, ?_⟩
  · intro b hb
    by_cases hbi : b = i
    · rw [hbi, hOwn]
      exact hTakes.available
    · rw [hOther 0 b hbi]
      exact h.chosen b (by omega)
  · intro p b hpb
    by_cases hbi : b = i
    · rw [hTakes.table, hbi, set_of_position_ne _ (by omega)]
      exact h.empty p i (by omega)
    · rw [hOther p b hbi]
      exact h.empty p b (by omega)
  · rw [Finset.sum_congr rfl hHeld, Finset.sum_add_distrib, h.total, Finset.sum_ite_eq',
      if_pos hNode]
  · intro b hb x hx
    obtain rfl : b = i := by omega
    have hEven := h.even hx hNode
    rw [hOwn, hHeld x hx, hHeld node hNode, if_pos rfl]
    split
    next hEq => rw [hEq]
    next => exact hEven
  · intro b hb hSame
    rw [hOther 0 b (by omega)] at hSame
    by_cases hbi : b + 1 = i
    · -- the last master has most, and now it has least: all have the same
      rw [hbi, hOwn] at hSame
      have hAll : ∀ x ∈ tb.servers, tb.held true st.table x = tb.held true st.table node := by
        intro x hx
        have hMost := h.last b hbi x hx
        rw [hSame] at hMost
        exact le_antisymm hMost (hLeast x hx)
      refine ⟨tb.held true st.table node, ?_⟩
      rw [hbi, ← h.total, Finset.sum_congr rfl hAll, Finset.sum_const, smul_eq_mul]
    · rw [hOther 0 (b + 1) hbi] at hSame
      exact h.again b (by omega) hSame

/-- **The masters of a first table.** -/
theorem firstMasters_chosen (hRun : tb.firstMasters rand (tb.initRebuild zeroTable) = some st) :
    tb.MastersChosen tb.bucketCount st := by
  have hNone : ∀ x ∈ tb.servers, tb.held true (tb.initRebuild zeroTable).table x = 0 :=
    fun x hx => held_empty (fun _ _ => rfl) ((mem_servers.mp hx).ne_invalid hNonzero)
  have hStart : tb.MastersChosen 0 (tb.initRebuild zeroTable) := by
    refine ⟨initRebuild_first hNonzero, by simp, fun _ _ _ => rfl, ?_, ?_, by omega, by omega⟩
    · intro x y hx _
      rw [hNone x hx]
      omega
    · rw [Finset.sum_congr rfl hNone, Finset.sum_const_zero]
  have hEnd := run_range' (tb.MastersChosen) (fun i s s' _ hi h hStep =>
    h.step hNonzero (by omega) hStep) hStart hRun
  rwa [Nat.zero_add] at hEnd

-- Slaves

omit hNonzero in
/-- The slaves of a bucket at the positions below `j`. -/
def slavesBelow (t : HashTable) (b j : Nat) : Finset ServerId :=
  (Finset.Ico 1 j).image fun p => t p b

omit hNonzero in
theorem mem_slavesBelow : x ∈ slavesBelow t b j ↔ ∃ p, 1 ≤ p ∧ p < j ∧ t p b = x := by
  simp [slavesBelow, and_assoc]

omit hNonzero in
theorem mem_slavesBelow_set (hj : 1 ≤ j) :
    x ∈ slavesBelow (t.set j b node) b (j + 1) ↔ x = node ∨ x ∈ slavesBelow t b j := by
  have hCell : ∀ p, p ≠ j → t.set j b node p b = t p b := fun p hp =>
    set_of_position_ne _ hp _ _ _
  rw [mem_slavesBelow, mem_slavesBelow]
  constructor
  · rintro ⟨p, hp, hpj, rfl⟩
    by_cases hpEq : p = j
    · subst hpEq
      exact Or.inl (set_self _ _ _ _)
    · exact Or.inr ⟨p, hp, by omega, (hCell p hpEq).symm⟩
  · rintro (rfl | ⟨p, hp, hpj, rfl⟩)
    · exact ⟨j, hj, by omega, set_self _ _ _ _⟩
    · exact ⟨p, hp, by omega, hCell p (by omega)⟩

/-- The slaves of bucket `b` have been chosen at the positions below `j`: they have no
more than any server that is not in the row. -/
structure RowChosen (tb : TableBuilder) (st₀ : Rebuild) (b j : Nat) (st : Rebuild) : Prop where
  first : tb.FirstBuild st
  others : ∀ b', b' ≠ b → ∀ p, st.table p b' = st₀.table p b'
  master : st.table 0 b = st₀.table 0 b
  empty : ∀ p, j ≤ p → st.table p b = invalidFlag
  chosen : ∀ p < j, tb.Available (st.table p b)
  distinct : ∀ p < j, ∀ q < j, p ≠ q → st.table p b ≠ st.table q b
  held : ∀ x, tb.Available x → tb.held false st.table x =
    tb.held false st₀.table x + if x ∈ slavesBelow st.table b j then 1 else 0
  least : ∀ y ∈ slavesBelow st.table b j, ∀ x, tb.Available x → (∀ q < j, st.table q b ≠ x) →
    tb.held false st₀.table y ≤ tb.held false st₀.table x

omit hNonzero in
theorem not_mem_slavesBelow (h : ∀ p < j, t p b ≠ x) : x ∉ slavesBelow t b j := by
  intro hMem
  obtain ⟨p, -, hpj, hEq⟩ := mem_slavesBelow.mp hMem
  exact h p hpj hEq

section Takes

variable {st₀ : Rebuild} {b j : Nat} {node : ServerId}

omit hNonzero in
/-- The server that is taken is not in the row yet. -/
theorem RowChosen.taken_new (hTakes : tb.Takes st st' b j false node) (hjC : j < tb.copyCount) :
    ∀ p < j, st.table p b ≠ node :=
  fun p hp => checkNodeOk_iff.mp hTakes.fits p (by omega) (by omega)

/-- The server that is taken, against one that would have done as well. -/
theorem RowChosen.taken_least (h : tb.RowChosen st₀ b j st) (hj : 1 ≤ j) (hjC : j < tb.copyCount)
    (hTakes : tb.Takes st st' b j false node) {x : ServerId} (hx : tb.Available x)
    (hxRow : ∀ q < j, st.table q b ≠ x) :
    tb.held false st₀.table node ≤ tb.held false st₀.table x := by
  have hOk : tb.checkNodeOk x b j st.table = true := by
    rw [checkNodeOk_iff]
    intro i _ hij
    by_cases hLess : i < j
    · exact hxRow i hLess
    · rw [h.empty i (by omega)]
      exact (hx.ne_invalid hNonzero).symm
  have hLe := h.first.held_le (h.first.copies (by omega)) hTakes.available hx
    (hTakes.least (h.first.flags false) x hx hOk)
  rwa [h.held node hTakes.available, h.held x hx,
    if_neg (not_mem_slavesBelow (RowChosen.taken_new hTakes hjC)),
    if_neg (not_mem_slavesBelow hxRow)] at hLe

theorem RowChosen.held_of_takes (h : tb.RowChosen st₀ b j st) (hb : b < tb.bucketCount)
    (hj : 1 ≤ j) (hjC : j < tb.copyCount) (hTakes : tb.Takes st st' b j false node) {x : ServerId}
    (hx : tb.Available x) :
    tb.held false st'.table x =
      tb.held false st₀.table x + if x ∈ slavesBelow st'.table b (j + 1) then 1 else 0 := by
  rw [hTakes.table, held_fill (mem_cells_false.mpr ⟨hjC, hb⟩) (h.empty j (le_refl j)) node
    (hx.ne_invalid hNonzero), h.held x hx]
  by_cases hEq : node = x
  · subst hEq
    rw [if_neg (not_mem_slavesBelow (RowChosen.taken_new hTakes hjC)), if_pos rfl,
      if_pos ((mem_slavesBelow_set hj).mpr (Or.inl rfl))]
  · have hIff : x ∈ slavesBelow (st.table.set j b node) b (j + 1) ↔
        x ∈ slavesBelow st.table b j := by
      rw [mem_slavesBelow_set hj, or_iff_right (Ne.symm hEq)]
    rw [if_neg hEq, add_zero]
    simp only [hIff]

end Takes

variable {st₀ : Rebuild} {b j i : Nat}

/-- One more slave of a row is chosen. -/
theorem RowChosen.step (h : tb.RowChosen st₀ b j st) (hb : b < tb.bucketCount) (hj : 1 ≤ j)
    (hjC : j < tb.copyCount) (hStep : tb.chooseNodeInvalid rand st b j false = some st') :
    tb.RowChosen st₀ b (j + 1) st' := by
  obtain ⟨node, hTakes⟩ := chooseNodeInvalid_takes h.first.listing hNonzero hStep
  have hOwn : st'.table j b = node := by rw [hTakes.table, set_self]
  have hCell : ∀ p, p ≠ j → st'.table p b = st.table p b := by
    intro p hp
    rw [hTakes.table, set_of_position_ne _ hp]
  have hNew := RowChosen.taken_new hTakes hjC
  refine ⟨?_, ?_, ?_, ?_, ?_, ?_, fun x => h.held_of_takes hNonzero hb hj hjC hTakes, ?_⟩
  · exact h.first.takes hNonzero hTakes (h.empty j (le_refl j)) hb (by simp; omega) (Or.inr hjC)
  · intro b' hb' p
    rw [hTakes.table, set_of_bucket_ne _ hb']
    exact h.others b' hb' p
  · rw [hCell 0 (by omega)]
    exact h.master
  · intro p hp
    rw [hCell p (by omega)]
    exact h.empty p (by omega)
  · intro p hp
    by_cases hpj : p = j
    · rw [hpj, hOwn]
      exact hTakes.available
    · rw [hCell p hpj]
      exact h.chosen p (by omega)
  · intro p hp q hq hpq
    by_cases hpj : p = j
    · rw [hpj, hOwn, hCell q (by omega)]
      exact (hNew q (by omega)).symm
    · rw [hCell p hpj]
      by_cases hqj : q = j
      · rw [hqj, hOwn]
        exact hNew p (by omega)
      · rw [hCell q hqj]
        exact h.distinct p (by omega) q (by omega) hpq
  · -- whoever is not in the row has no fewer copies than those chosen
    intro y hy x hx hxRow
    have hxOld : ∀ q < j, st.table q b ≠ x := by
      intro q hq
      rw [← hCell q (by omega)]
      exact hxRow q (by omega)
    rw [hTakes.table, mem_slavesBelow_set hj] at hy
    rcases hy with rfl | hy
    · exact h.taken_least hNonzero hj hjC hTakes hx hxOld
    · exact h.least y hy x hx hxOld

omit hNonzero in
/-- The slaves that a bucket is given are the servers, apart from its master, that have least. -/
theorem RowChosen.shares (h : tb.RowChosen st₀ b j st) (hj : 0 < j) :
    Row tb.servers (st₀.table 0 b) (slavesBelow st.table b j) (tb.held false st₀.table)
        (tb.held false st.table) ∧ (slavesBelow st.table b j).card = j - 1 := by
  have hMaster := h.chosen 0 hj
  rw [h.master] at hMaster
  refine ⟨⟨mem_servers.mpr hMaster, ?_, ?_, fun x hx => h.held x (mem_servers.mp hx)⟩, ?_⟩
  · intro x hx
    obtain ⟨p, hp, hpj, rfl⟩ := mem_slavesBelow.mp hx
    refine Finset.mem_erase.mpr ⟨?_, mem_servers.mpr (h.chosen p hpj)⟩
    rw [← h.master]
    exact h.distinct p hpj 0 hj (by omega)
  · intro y hy x hx hxm hxT
    refine h.least y hy x (mem_servers.mp hx) ?_
    intro q hq hEq
    by_cases hq0 : q = 0
    · rw [hq0, h.master] at hEq
      exact hxm hEq.symm
    · exact hxT (mem_slavesBelow.mpr ⟨q, by omega, hq, hEq⟩)
  · have hInj : Set.InjOn (fun p => st.table p b) (Finset.Ico 1 j : Finset Nat) := by
      intro p hp q hq hEq
      have hp := Finset.mem_Ico.mp hp
      have hq := Finset.mem_Ico.mp hq
      by_contra hpq
      exact h.distinct p hp.2 q hq.2 hpq hEq
    exact (Finset.card_image_of_injOn hInj).trans (Nat.card_Ico 1 j)

/-- The masters are chosen, and the slaves of the buckets below `i`, row by row. -/
structure SlavesChosen (tb : TableBuilder) (st₀ : Rebuild) (i : Nat) (st : Rebuild) : Prop where
  first : tb.FirstBuild st
  masters : ∀ b, st.table 0 b = st₀.table 0 b
  chosen : ∀ b < tb.bucketCount, tb.Available (st.table 0 b)
  empty : ∀ p b, p ≠ 0 → i ≤ b → st.table p b = invalidFlag
  rows : Rows tb.servers (st₀.table 0) (tb.copyCount - 1) (tb.held false st₀.table) i
    (tb.held false st.table)

/-- **The slaves of a bucket.** -/
theorem SlavesChosen.row (h : tb.SlavesChosen st₀ i st) (hi : i < tb.bucketCount)
    (hRun : tb.slavesOfBucket rand st i = some st') :
    tb.RowChosen st i (1 + (tb.copyCount - 1)) st' := by
  have hNone : slavesBelow st.table i 1 = ∅ := rfl
  refine run_range' (fun j s => tb.RowChosen st i j s) (fun j s s' hj hjC hRow hStep =>
    hRow.step hNonzero hi hj (by omega) hStep) ?_ hRun
  refine ⟨h.first, fun _ _ _ => rfl, rfl, ?_, ?_, ?_, ?_, ?_⟩
  · intro p hp
    exact h.empty p i (by omega) (le_refl i)
  · intro p hp
    rw [show p = 0 by omega]
    exact h.chosen i hi
  · omega
  · simp [hNone]
  · simp [hNone]

/-- One more row has its slaves. -/
theorem SlavesChosen.step (h : tb.SlavesChosen st₀ i st) (hi : i < tb.bucketCount)
    (hRun : tb.slavesOfBucket rand st i = some st') : tb.SlavesChosen st₀ (i + 1) st' := by
  have hRow := h.row hNonzero hi hRun
  have hMasters : ∀ b, st'.table 0 b = st.table 0 b := by
    intro b
    by_cases hb : b = i
    · rw [hb]
      exact hRow.master
    · exact hRow.others b hb 0
  refine ⟨hRow.first, fun b => (hMasters b).trans (h.masters b), ?_, ?_, ?_⟩
  · intro b hb
    rw [hMasters]
    exact h.chosen b hb
  · intro p b hp hb
    rw [hRow.others b (by omega)]
    exact h.empty p b hp (by omega)
  · obtain ⟨hShares, hCard⟩ := hRow.shares (by omega)
    rw [h.masters] at hShares
    exact h.rows.row hShares (by omega)

theorem SlavesChosen.run {n : Nat} (h : tb.SlavesChosen st₀ 0 st) (hn : n ≤ tb.bucketCount)
    (hRun : run (tb.slavesOfBucket rand) st (List.range' 0 n) = some st') :
    tb.SlavesChosen st₀ n st' := by
  have hEnd := run_range' (tb.SlavesChosen st₀) (fun i s s' _ hi h hStep =>
    h.step hNonzero (by omega) hStep) h hRun
  rwa [Nat.zero_add] at hEnd

omit hNonzero in
theorem MastersChosen.slaves (h : tb.MastersChosen tb.bucketCount st) :
    tb.SlavesChosen st 0 st :=
  ⟨h.first, fun _ => rfl, h.chosen, fun p b hp _ => h.empty p b (Or.inl hp), .start⟩

end Placing

-- Shares

/-- A first table, whatever the random numbers: the masters, and then the slaves. -/
theorem firstBuild_total (rand : Nat → Nat) (hNonzero : ¬ tb.Available invalidFlag)
    (hSome : 0 < tb.availableServer.entries.length)
    (hCount : tb.copyCount ≤ tb.availableServer.entries.length) (fuel : Nat) :
    ∃ st₁ st₂, tb.MastersChosen tb.bucketCount st₁ ∧ tb.SlavesChosen st₁ tb.bucketCount st₂ ∧
      tb.rebuildTableNew rand fuel zeroTable = some (.ok st₂.table) := by
  obtain ⟨st₂, hBuild⟩ := buildFirstTime_total hSome hCount rand
    (initRebuild_listing zeroTable)
  obtain ⟨st₁, hMasters, hSlaves⟩ := Option.bind_eq_some_iff.mp hBuild
  have hChosen := firstMasters_chosen hNonzero hMasters
  exact ⟨st₁, st₂, hChosen, hChosen.slaves.run hNonzero (le_refl _) hSlaves,
    rebuildTableNew_zero hSome hNonzero hCount fuel hBuild⟩

variable {server x : ServerId} {st₀ : Rebuild}

theorem Available.length_pos (h : tb.Available server) : 0 < tb.availableServer.entries.length := by
  rw [← card_servers]
  exact Finset.card_pos.mpr ⟨server, mem_servers.mpr h⟩

/-- The slaves leave the masters as they were. -/
theorem SlavesChosen.held_masters {i : Nat} (h : tb.SlavesChosen st₀ i st) (x : ServerId) :
    tb.held true st.table x = tb.held true st₀.table x := by
  refine tally_congr ?_ x
  intro c hc
  rw [(mem_cells_true.mp hc).1]
  exact h.masters c.2

theorem MastersChosen.share (h : tb.MastersChosen tb.bucketCount st) (hx : x ∈ tb.servers) :
    tb.held true st.table x = tb.bucketCount / tb.availableServer.entries.length ∨
      tb.held true st.table x = tb.bucketCount / tb.availableServer.entries.length + 1 := by
  have hEven := Finset.equitableOn_iff.mp h.even x hx
  rwa [h.total, card_servers] at hEven

/-- In the first table every server is master of its share. -/
theorem rebuildTableNew_first_masters (tb : TableBuilder) (rand : Nat → Nat) (fuel : Nat)
    (hNonzero : ¬ tb.Available invalidFlag)
    (hCount : tb.copyCount ≤ tb.availableServer.entries.length) (hServer : tb.Available server) :
    ∃ t, tb.rebuildTableNew rand fuel zeroTable = some (.ok t) ∧
      (tb.held true t server = tb.bucketCount / tb.availableServer.entries.length ∨
        tb.held true t server = tb.bucketCount / tb.availableServer.entries.length + 1) := by
  obtain ⟨st₁, st₂, hMasters, hSlaves, hTable⟩ :=
    firstBuild_total rand hNonzero hServer.length_pos hCount fuel
  refine ⟨st₂.table, hTable, ?_⟩
  rw [hSlaves.held_masters]
  exact hMasters.share (mem_servers.mpr hServer)

theorem rebuildTableNew_first_masters_three :
    ∃ t, rebuildTableNew ⟨4, 2, setAvailableServer [1, 2, 3]⟩ (fun _ => 0) 0 zeroTable =
        some (.ok t) ∧
      (held ⟨4, 2, setAvailableServer [1, 2, 3]⟩ true t 3 = 4 / 3 ∨
        held ⟨4, 2, setAvailableServer [1, 2, 3]⟩ true t 3 = 4 / 3 + 1) :=
  rebuildTableNew_first_masters ⟨4, 2, setAvailableServer [1, 2, 3]⟩ (fun _ => 0) 0 (by decide)
    (by decide) (by decide)

/-- Before there are slaves, a server has the buckets it is master of. -/
theorem MastersChosen.held_copies (h : tb.MastersChosen tb.bucketCount st)
    (hNonzero : ¬ tb.Available invalidFlag) (hCopies : 0 < tb.copyCount) (hx : x ∈ tb.servers) :
    tb.held false st.table x = tb.held true st.table x := by
  rw [held_eq_add hCopies, tally_eq_zero, Nat.add_zero]
  intro c hc hEq
  have hPosition : 1 ≤ c.1 := (mem_slots.mp hc).1.1
  rw [h.empty c.1 c.2 (Or.inl (by omega))] at hEq
  exact (mem_servers.mp hx).ne_invalid hNonzero hEq.symm

theorem held_true_eq_count (t : HashTable) (x : ServerId) :
    tb.held true t x = ((List.range tb.bucketCount).map (t 0)).count x := by
  rw [held, cells, if_pos rfl, tally_eq_sum, Finset.sum_product, Finset.sum_singleton,
    ← tally_eq_sum, tally_range]

/-- Numbers of buckets, copies and servers for which greed is fair: there is one copy only, or one
for every server; the share is one bucket at most; or so many copies are left over that the
last rows do no harm. With three copies or more no two rows at the end may have one master, which
happens when the last master is the first of a round, and the servers must be enough for three rows
with distinct slaves. -/
def SharesEvenly (buckets copies servers : Nat) : Prop :=
  copies = 1 ∨ copies = servers ∨ buckets * copies < 2 * servers ∨
    (copies = 2 ∨ 3 * copies ≤ servers + 2) ∧ copies ≤ buckets * copies % servers + 1 ∧
      (copies = 2 ∨ buckets % servers ≠ 1)

instance (buckets copies servers : Nat) : Decidable (SharesEvenly buckets copies servers) :=
  inferInstanceAs (Decidable (_ ∨ _))

/-- **The shares after the rows**, by the numbers of buckets, copies and servers. -/
theorem SlavesChosen.share_le (h : tb.SlavesChosen st₀ tb.bucketCount st)
    (hMasters : tb.MastersChosen tb.bucketCount st₀) (hNonzero : ¬ tb.Available invalidFlag)
    (hCopies : 0 < tb.copyCount) (hCount : tb.copyCount ≤ tb.servers.card)
    (hEvenly : SharesEvenly tb.bucketCount tb.copyCount tb.servers.card) :
    ∀ x ∈ tb.servers,
      tb.bucketCount * tb.copyCount / tb.servers.card ≤ tb.held false st.table x := by
  have hStart : ∀ x ∈ tb.servers, tb.held false st₀.table x = tb.held true st₀.table x :=
    fun x => hMasters.held_copies hNonzero hCopies
  have hTotal : ∑ x ∈ tb.servers, tb.held false st.table x = tb.bucketCount * tb.copyCount := by
    obtain ⟨k, hk⟩ : ∃ k, tb.copyCount = k + 1 := ⟨tb.copyCount - 1, by omega⟩
    rw [h.rows.sum, Finset.sum_congr rfl hStart, hMasters.total, hk, Nat.add_sub_cancel,
      Nat.mul_succ, Nat.add_comm]
  rw [← hTotal]
  by_cases hOne : tb.copyCount = 1
  · -- there are no slaves
    intro x hx
    have hSame : tb.held false st.table x = tb.held true st.table x := by
      rw [held_eq_add hCopies, tally_eq_zero, Nat.add_zero]
      intro c hc
      have hSlot : 1 ≤ c.1 ∧ c.1 < tb.copyCount := (mem_slots.mp hc).1
      omega
    have hShare := hMasters.share hx
    rw [hTotal, hOne, Nat.mul_one, card_servers, hSame, h.held_masters]
    omega
  by_cases hAll : tb.copyCount = tb.servers.card
  · intro x hx
    have hRows := h.rows.eq_of_all (by omega) hx
    have hPos : 0 < tb.servers.card := Finset.card_pos.mpr ⟨x, hx⟩
    rw [hStart x hx, held_true_eq_count] at hRows
    rw [hTotal, hAll, Nat.mul_div_cancel _ hPos]
    omega
  rcases (hEvenly.resolve_left hOne).resolve_left hAll with hFew | ⟨hRoom, hRest, hLast⟩
  · -- no server is master of two buckets
    have hBuckets : tb.bucketCount < tb.servers.card := by
      have := Nat.mul_le_mul_left tb.bucketCount (show 2 ≤ tb.copyCount by omega)
      omega
    refine h.rows.le_of_few ?_ ?_ (by omega)
    · intro x hx
      have hShare := hMasters.share hx
      rw [← card_servers, Nat.div_eq_of_lt hBuckets] at hShare
      rw [hStart x hx]
      omega
    · intro b hb
      rw [hStart _ (mem_servers.mpr (hMasters.chosen b hb)), held_true_eq_count]
      exact List.count_pos_iff.mpr (List.mem_map_of_mem (List.mem_range.mpr hb))
  · refine h.rows.le_of_spread ?_ hMasters.again (by omega) (by omega) (by omega) ?_ ?_
    · intro x y hx hy
      rw [hStart x hx, hStart y hy]
      exact hMasters.even hx hy
    · rw [hTotal]
      omega
    · intro hFirst
      have hTwo := hLast.resolve_right (not_not.mpr hFirst)
      rw [hTotal, hTwo, Nat.mul_mod, hFirst, one_mul, Nat.mod_mod]
      exact (Nat.mod_eq_of_lt (by omega)).ge

/-- In a first table every server has its share of all copies, whatever the random numbers, if the
numbers of buckets, copies and servers are such that greed is fair. -/
theorem rebuildTableNew_first_shares (tb : TableBuilder) (rand : Nat → Nat) (fuel : Nat)
    (hNonzero : ¬ tb.Available invalidFlag)
    (hCount : tb.copyCount ≤ tb.availableServer.entries.length)
    (hEvenly : SharesEvenly tb.bucketCount tb.copyCount tb.availableServer.entries.length)
    (hServer : tb.Available server) :
    ∃ t, tb.rebuildTableNew rand fuel zeroTable = some (.ok t) ∧
      tb.bucketCount * tb.copyCount / tb.availableServer.entries.length ≤
        tb.held false t server := by
  obtain ⟨st₁, st₂, hMasters, hSlaves, hTable⟩ :=
    firstBuild_total rand hNonzero hServer.length_pos hCount fuel
  refine ⟨st₂.table, hTable, ?_⟩
  rcases Nat.eq_zero_or_pos tb.copyCount with hNone | hCopies
  · rw [hNone, Nat.mul_zero, Nat.zero_div]
    exact Nat.zero_le _
  · rw [← card_servers] at hCount hEvenly ⊢
    exact hSlaves.share_le hMasters hNonzero hCopies hCount hEvenly server (mem_servers.mpr hServer)

/-- Six buckets of three copies on seven servers: the share is two, and four copies are left
over. -/
theorem rebuildTableNew_first_shares_seven :
    ∃ t, rebuildTableNew ⟨6, 3, setAvailableServer [1, 2, 3, 4, 5, 6, 7]⟩ (fun i => 7 * i) 0
        zeroTable = some (.ok t) ∧
      2 ≤ held ⟨6, 3, setAvailableServer [1, 2, 3, 4, 5, 6, 7]⟩ false t 7 :=
  rebuildTableNew_first_shares ⟨6, 3, setAvailableServer [1, 2, 3, 4, 5, 6, 7]⟩ (fun i => 7 * i) 0
    (by decide) (by decide) (by decide) (by decide)

/-- The rows are [1, 2], [2, 1] and [3, 1]: two slaves went to servers 2 and 1 before the
last bucket, whose master is the server that still had one bucket only. -/
theorem rebuildTableNew_first_unfair :
    ∃ t, rebuildTableNew ⟨3, 2, setAvailableServer [1, 2, 3]⟩ (fun _ => 0) 0 zeroTable =
        some (.ok t) ∧
      Available ⟨3, 2, setAvailableServer [1, 2, 3]⟩ 3 ∧
      held ⟨3, 2, setAvailableServer [1, 2, 3]⟩ false t 3 = 1 ∧ 3 * 2 / 3 = 2 :=
  ⟨_, rfl, by decide, rfl, rfl⟩

end TableBuilder

end MyBase
