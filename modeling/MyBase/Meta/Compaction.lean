import MyBase.Meta.QuickTable

/-!
# MyBase — the rows of the quick table, exactly

The third loop of `buildQuickTable` fills each empty slave slot of a row with the next
server behind it. The servers keep their order and the empty slots end up behind them
(`compactRow_slaves`). With what the first two loops do to a row this says what the slaves
of the quick table are, in rows with and without an available server
(`buildQuickTable_exact`).
-/

namespace MyBase

open Lib List

namespace TableBuilder

/-- The slaves of a row, in order. -/
def slaves (tb : TableBuilder) (row : Nat → ServerId) : List ServerId :=
  (List.range' 1 (tb.copyCount - 1)).map row

variable {tb : TableBuilder}

instance (row : Nat → ServerId) : Decidable (tb.RowDistinct row) := by
  unfold RowDistinct
  infer_instance

variable {b j : Nat} {row : Nat → ServerId} {node : ServerId} {t : HashTable}

theorem mem_slaves : node ∈ tb.slaves row ↔ ∃ p, 1 ≤ p ∧ p < tb.copyCount ∧ row p = node := by
  rw [slaves, mem_map]
  constructor
  · rintro ⟨p, hp, rfl⟩
    have hRange := mem_range'_1.mp hp
    exact ⟨p, hRange.1, by omega, rfl⟩
  · rintro ⟨p, hLo, hHi, rfl⟩
    exact ⟨p, mem_range'_1.mpr (by omega), rfl⟩

-- Servers first

/-- A list with nothing but empty slots behind an empty slot. -/
theorem eq_servers_append_empty {l : List ServerId}
    (h : l.Pairwise fun a b => a ≠ invalidFlag ∨ b = invalidFlag) :
    ∃ k, l = l.filter (· ≠ invalidFlag) ++ List.replicate k invalidFlag := by
  induction l with
  | nil => exact ⟨0, rfl⟩
  | cons a l ih =>
    obtain ⟨hHead, hTail⟩ := pairwise_cons.mp h
    by_cases ha : a = invalidFlag
    · -- everything behind `a` is empty as well
      have hEmpty : ∀ b ∈ a :: l, b = invalidFlag :=
        forall_mem_cons.mpr ⟨ha, fun b hb => (hHead b hb).resolve_left (not_not.mpr ha)⟩
      have hNone : (a :: l).filter (· ≠ invalidFlag) = [] := by
        rw [filter_eq_nil_iff]
        intro b hb
        simp [hEmpty b hb]
      refine ⟨(a :: l).length, ?_⟩
      rw [hNone, nil_append]
      exact eq_replicate_of_mem hEmpty
    · obtain ⟨k, hk⟩ := ih hTail
      refine ⟨k, ?_⟩
      rw [filter_cons_of_pos (by simpa using ha), cons_append, ← hk]

/-- A server that takes the place of an empty slot before it, with nothing between them. -/
theorem filter_swap_empty (before between behind : List ServerId) (x : ServerId)
    (hBetween : ∀ y ∈ between, y = invalidFlag) :
    (before ++ x :: (between ++ invalidFlag :: behind)).filter (· ≠ invalidFlag) =
      (before ++ invalidFlag :: (between ++ x :: behind)).filter (· ≠ invalidFlag) := by
  have hNone : between.filter (· ≠ invalidFlag) = [] := by
    rw [filter_eq_nil_iff]
    intro y hy
    simp [hBetween y hy]
  simp only [filter_append, filter_cons, hNone]
  simp

/-- The slots `1 … C - 1` around two of them. -/
theorem range'_split {n c : Nat} (hj : 1 ≤ j) (hn : j < n) (hc : n < c) :
    List.range' 1 (c - 1) = List.range' 1 (j - 1) ++ j ::
      (List.range' (j + 1) (n - (j + 1)) ++ n :: List.range' (n + 1) (c - (n + 1))) := by
  have hInner : List.range' (j + 1) (c - (j + 1)) =
      List.range' (j + 1) (n - (j + 1)) ++ n :: List.range' (n + 1) (c - (n + 1)) := by
    have hAppend := range'_append_1 (s := j + 1) (m := n - (j + 1)) (n := c - (n + 1) + 1)
    rw [show j + 1 + (n - (j + 1)) = n by omega] at hAppend
    rw [← range'_succ, hAppend]
    congr 1
    omega
  have hAppend := range'_append_1 (s := 1) (m := j - 1) (n := c - (j + 1) + 1)
  rw [show 1 + (j - 1) = j by omega] at hAppend
  rw [← hInner, ← range'_succ, hAppend]
  congr 1
  omega

/-- One pass keeps the servers of a row and their order. -/
theorem filter_pullForward (row : Nat → ServerId) (hj : 1 ≤ j) :
    (tb.slaves (tb.pullForward row j)).filter (· ≠ invalidFlag) =
      (tb.slaves row).filter (· ≠ invalidFlag) := by
  unfold pullForward
  split
  · rfl
  · rename_i hEmpty
    rw [not_not] at hEmpty
    split
    · rfl
    · rename_i n hFind
      obtain ⟨-, hMem, hBefore⟩ := find?_range'_eq_some.mp hFind
      have hRange := mem_range'_1.mp hMem
      -- the slots other than the two are as they were
      have hOther : ∀ l : List Nat, (∀ p ∈ l, p ≠ j ∧ p ≠ n) →
          l.map (Function.update (Function.update row j (row n)) n invalidFlag) = l.map row := by
        intro l hl
        refine map_congr_left fun p hp => ?_
        rw [Function.update_of_ne (hl p hp).2, Function.update_of_ne (hl p hp).1]
      have hNew : Function.update (Function.update row j (row n)) n invalidFlag j = row n := by
        rw [Function.update_of_ne (by omega), Function.update_self]
      rw [slaves, slaves, range'_split hj (by omega) (show n < tb.copyCount by omega)]
      simp only [map_append, map_cons]
      rw [hOther _ (by simp only [mem_range'_1]; omega),
        hOther _ (by simp only [mem_range'_1]; omega),
        hOther _ (by simp only [mem_range'_1]; omega), hNew, Function.update_self, hEmpty]
      refine filter_swap_empty _ _ _ _ ?_
      intro y hy
      obtain ⟨p, hp, rfl⟩ := mem_map.mp hy
      have hp := mem_range'_1.mp hp
      simpa using hBefore p hp.1 (by omega)

/-- Behind an empty slot below `j` there are only empty slots. -/
def ServersFirst (tb : TableBuilder) (j : Nat) (row : Nat → ServerId) : Prop :=
  ∀ p, 1 ≤ p → p < j → row p ≠ invalidFlag ∨ ∀ q, p < q → q < tb.copyCount → row q = invalidFlag

/-- One pass settles one more slot. -/
theorem ServersFirst.pullForward (h : tb.ServersFirst j row) :
    tb.ServersFirst (j + 1) (tb.pullForward row j) := by
  unfold TableBuilder.pullForward
  split
  · rename_i hServer
    intro p hp hpj
    by_cases hpEq : p = j
    · exact Or.inl (hpEq ▸ hServer)
    · exact h p hp (by omega)
  · rename_i hEmpty
    rw [not_not] at hEmpty
    split
    · -- nothing behind the slot
      rename_i hNone
      intro p hp hpj
      by_cases hpEq : p = j
      · refine Or.inr ?_
        intro q hpq hq
        have hq := List.find?_eq_none.mp hNone q (mem_range'_1.mpr (by omega))
        simpa using hq
      · exact h p hp (by omega)
    · rename_i n hFind
      obtain ⟨hServer, hMem, -⟩ := find?_range'_eq_some.mp hFind
      have hRange := mem_range'_1.mp hMem
      have hServer : row n ≠ invalidFlag := by simpa using hServer
      intro p hp hpj
      left
      rw [Function.update_of_ne (by omega)]
      by_cases hpEq : p = j
      · rw [hpEq, Function.update_self]
        exact hServer
      · rw [Function.update_of_ne hpEq]
        refine (h p hp (by omega)).resolve_right ?_
        intro hBehind
        exact hServer (hBehind n (by omega) (by omega))

/-- **The third loop.** The servers among the slaves keep their order, and the empty slots
come behind them. -/
theorem compactRow_slaves (tb : TableBuilder) (row : Nat → ServerId) :
    ∃ k, tb.slaves (tb.compactRow row) =
      (tb.slaves row).filter (· ≠ invalidFlag) ++ List.replicate k invalidFlag := by
  have hFold : ∀ m, ((tb.slaves ((List.range' 1 m).foldl tb.pullForward row)).filter
        (· ≠ invalidFlag) = (tb.slaves row).filter (· ≠ invalidFlag)) ∧
      tb.ServersFirst (1 + m) ((List.range' 1 m).foldl tb.pullForward row) := by
    intro m
    induction m with
    | zero => exact ⟨rfl, fun p hp hpj => by omega⟩
    | succ m ih =>
      obtain ⟨hFilter, hFirst⟩ := ih
      rw [range'_1_concat, foldl_append, foldl_cons, foldl_nil]
      exact ⟨(filter_pullForward _ (by omega)).trans hFilter, hFirst.pullForward⟩
  obtain ⟨hFilter, hFirst⟩ := hFold (tb.copyCount - 1)
  have hOrder : (tb.slaves (tb.compactRow row)).Pairwise
      fun a b => a ≠ invalidFlag ∨ b = invalidFlag := by
    rw [slaves, pairwise_map]
    refine List.Pairwise.imp_of_mem ?_ pairwise_lt_range'
    intro p q hp hq hpq
    have hp := mem_range'_1.mp hp
    have hq := mem_range'_1.mp hq
    exact (hFirst p hp.1 hp.2).imp_right fun h => h q hpq (by omega)
  obtain ⟨k, hk⟩ := eq_servers_append_empty hOrder
  exact ⟨k, hk.trans (congrArg (· ++ List.replicate k invalidFlag) hFilter)⟩

-- The slaves that are left

theorem buildQuickTable_row_eq (t : HashTable) (hb : b < tb.bucketCount) :
    (tb.buildQuickTable t).row b = tb.compactRow ((tb.dropDead (tb.promoteMasters t)).row b) :=
  funext fun _ => if_pos hb

/-- The second loop keeps the available slaves of an available master. -/
theorem mem_slaves_dropDead (hb : b < tb.bucketCount) (hMaster : tb.isNodeAvailble (t 0 b) = true) :
    node ∈ (tb.slaves ((tb.dropDead t).row b)).filter (· ≠ invalidFlag) ↔
      tb.isNodeAvailble node = true ∧ node ∈ tb.slaves (t.row b) := by
  have hCell : ∀ p, 1 ≤ p → p < tb.copyCount → tb.dropDead t p b =
      if tb.isNodeAvailble (t p b) = true then t p b else invalidFlag := by
    intro p hp hpC
    rw [dropDead]
    by_cases hAv : tb.isNodeAvailble (t p b) = true
    · rw [if_pos hAv, if_neg fun h => h.2.2.2.2 hAv]
    · rw [if_neg hAv, if_pos ⟨hp, hpC, hb, hMaster, hAv⟩]
  rw [mem_filter, mem_slaves, mem_slaves]
  constructor
  · rintro ⟨⟨p, hp, hpC, rfl⟩, hNe⟩
    have hEq : tb.dropDead t p b = _ := hCell p hp hpC
    rw [HashTable.row, hEq] at hNe ⊢
    by_cases hAv : tb.isNodeAvailble (t p b) = true
    · rw [if_pos hAv]
      exact ⟨hAv, p, hp, hpC, rfl⟩
    · rw [if_neg hAv] at hNe
      simp at hNe
  · rintro ⟨hAv, p, hp, hpC, rfl⟩
    refine ⟨⟨p, hp, hpC, (hCell p hp hpC).trans (if_pos hAv)⟩, ?_⟩
    simpa using (isNodeAvailble_iff.mp hAv).1

/-- The available slaves after the first loop are the available servers of the row other
than the master. -/
theorem Promoted.mem_slaves {row' : Nat → ServerId} (h : tb.Promoted row row')
    (hDistinct : tb.RowDistinct row) (hNode : tb.isNodeAvailble node = true) :
    node ∈ tb.slaves row' ↔ node ≠ row' 0 ∧ ∃ p < tb.copyCount, row p = node := by
  have hNe := (isNodeAvailble_iff.mp hNode).1
  rw [TableBuilder.mem_slaves]
  rcases h with ⟨rfl, -⟩ | ⟨l, hLo, hHi, hDead, -, rfl⟩
  · constructor
    · rintro ⟨p, hp, hpC, rfl⟩
      exact ⟨hDistinct p hpC 0 (by omega) (by omega) hNe, p, hpC, rfl⟩
    · rintro ⟨hMaster, p, hpC, rfl⟩
      refine ⟨p, ?_, hpC, rfl⟩
      by_contra hp
      exact hMaster (by rw [show p = 0 by omega])
  · have hZero : Function.update (Function.update row 0 (row l)) l invalidFlag 0 = row l := by
      rw [Function.update_of_ne (by omega), Function.update_self]
    have hCell : ∀ p, 1 ≤ p → p ≠ l →
        Function.update (Function.update row 0 (row l)) l invalidFlag p = row p := by
      intro p hp hpl
      rw [Function.update_of_ne hpl, Function.update_of_ne (by omega)]
    rw [hZero]
    constructor
    · rintro ⟨p, hp, hpC, rfl⟩
      by_cases hpl : p = l
      · rw [hpl, Function.update_self] at hNe
        exact absurd rfl hNe
      · rw [hCell p hp hpl] at hNe ⊢
        exact ⟨hDistinct p hpC l hHi hpl hNe, p, hpC, rfl⟩
    · rintro ⟨hMaster, p, hpC, rfl⟩
      have hpl : p ≠ l := by
        rintro rfl
        exact hMaster rfl
      have hp : 1 ≤ p := by
        by_contra hp
        rw [show p = 0 by omega, hDead] at hNode
        cases hNode
      exact ⟨p, hp, hpC, hCell p hp hpl⟩

/-- A row without empty slots counted has no slave twice. -/
theorem RowDistinct.nodup (h : tb.RowDistinct row) :
    ((tb.slaves row).filter (· ≠ invalidFlag)).Nodup := by
  unfold slaves
  rw [filter_map]
  refine List.Nodup.map_on ?_ (List.Nodup.filter _ nodup_range')
  intro p hp q hq hEq
  obtain ⟨hp, hNe⟩ := mem_filter.mp hp
  have hp := mem_range'_1.mp hp
  have hq := mem_range'_1.mp (mem_filter.mp hq).1
  by_contra hpq
  exact h p (by omega) q (by omega) hpq (by simpa using hNe) hEq

/-- The slaves of a row that has an available server: the other available servers. -/
theorem buildQuickTable_slaves_mem (hb : b < tb.bucketCount) (hDistinct : tb.RowDistinct (t.row b))
    (hSome : ∃ p < tb.copyCount, tb.isNodeAvailble (t.row b p) = true) :
    ∃ (kept : List ServerId) (k : Nat),
      tb.slaves ((tb.buildQuickTable t).row b) = kept ++ List.replicate k invalidFlag ∧
      kept.Nodup ∧ ∀ node, node ∈ kept ↔ tb.isNodeAvailble node = true ∧
        node ≠ (tb.buildQuickTable t).row b 0 ∧ ∃ p < tb.copyCount, t.row b p = node := by
  have hPromoted := (promoteMasters_row tb t b).1 hb
  have hDropped := dropDead_row (tb.promoteMasters t) hb
  obtain ⟨p, hp, hAv⟩ := hSome
  have hMaster : tb.isNodeAvailble (tb.promoteMasters t 0 b) = true := hPromoted.available hp hAv
  have hZero : (tb.buildQuickTable t).row b 0 = (tb.promoteMasters t).row b 0 := by
    rw [buildQuickTable_row_eq t hb, (compactRow_reordered _).master, hDropped.master]
  obtain ⟨k, hk⟩ := compactRow_slaves tb ((tb.dropDead (tb.promoteMasters t)).row b)
  rw [← buildQuickTable_row_eq t hb] at hk
  refine ⟨_, k, hk, (hDropped.distinct (hPromoted.distinct hDistinct)).nodup, ?_⟩
  intro node
  rw [mem_slaves_dropDead hb hMaster, hZero]
  refine and_congr_right fun hNode => ?_
  exact hPromoted.mem_slaves hDistinct hNode

/-- A row without available servers keeps its slaves, in order. -/
theorem buildQuickTable_slaves_dead (hb : b < tb.bucketCount) (hCopies : 0 < tb.copyCount)
    (hNone : ∀ p < tb.copyCount, tb.isNodeAvailble (t.row b p) = false) :
    ∃ k, tb.slaves ((tb.buildQuickTable t).row b) =
      (tb.slaves (t.row b)).filter (· ≠ invalidFlag) ++ List.replicate k invalidFlag := by
  have hPromoted : (tb.promoteMasters t).row b = t.row b := by
    rcases (promoteMasters_row tb t b).1 hb with ⟨hSame, -⟩ | ⟨l, -, hHi, -, hAv, -⟩
    · exact hSame
    · rw [hNone l hHi] at hAv
      cases hAv
  have hMaster : tb.isNodeAvailble (tb.promoteMasters t 0 b) = false := by
    have hZero : tb.promoteMasters t 0 b = t.row b 0 := congrFun hPromoted 0
    rw [hZero]
    exact hNone 0 hCopies
  have hDropped : (tb.dropDead (tb.promoteMasters t)).row b = t.row b := by
    rw [← hPromoted]
    funext p
    exact if_neg fun h => by simp [hMaster] at h
  obtain ⟨k, hk⟩ := compactRow_slaves tb ((tb.dropDead (tb.promoteMasters t)).row b)
  rw [← buildQuickTable_row_eq t hb, hDropped] at hk
  exact ⟨k, hk⟩

/-- The row of every bucket: with an available server it gets an available master, the old
one if that is available, and as slaves the other available servers; without one its
servers stay. The empty slots come last. -/
theorem buildQuickTable_exact (tb : TableBuilder) (t : HashTable) (hCopies : 2 ≤ tb.copyCount)
    (hb : b < tb.bucketCount) (hDistinct : tb.RowDistinct (t.row b)) :
    ((∃ p < tb.copyCount, tb.isNodeAvailble (t p b) = true) →
      tb.isNodeAvailble (tb.buildQuickTable t 0 b) = true ∧
      (tb.isNodeAvailble (t 0 b) = true → tb.buildQuickTable t 0 b = t 0 b) ∧
      ∃ (kept : List ServerId) (k : Nat),
        tb.slaves ((tb.buildQuickTable t).row b) = kept ++ List.replicate k invalidFlag ∧
        kept.Nodup ∧ ∀ node, node ∈ kept ↔ tb.isNodeAvailble node = true ∧
          node ≠ tb.buildQuickTable t 0 b ∧ ∃ p < tb.copyCount, t p b = node) ∧
    ((∀ p < tb.copyCount, tb.isNodeAvailble (t p b) = false) →
      tb.buildQuickTable t 0 b = t 0 b ∧
      ∃ k, tb.slaves ((tb.buildQuickTable t).row b) =
        (tb.slaves (t.row b)).filter (· ≠ invalidFlag) ++ List.replicate k invalidFlag) := by
  have hRow := buildQuickTable_row tb t hb
  refine ⟨?_, ?_⟩
  · intro hSome
    exact ⟨(hRow.served hSome).1, fun hMaster => hRow.master (Or.inl hMaster),
      buildQuickTable_slaves_mem hb hDistinct hSome⟩
  · intro hNone
    exact ⟨hRow.master (Or.inr hNone), buildQuickTable_slaves_dead hb (by omega) hNone⟩

/-- Servers 2 and 4 of the row 1, 2, 3, 4 are available. -/
theorem buildQuickTable_exact_four :
    buildQuickTable ⟨1, 4, setAvailableServer [2, 4]⟩ (fun p _ => p + 1) 0 0 = 2 ∧
      ∃ (kept : List ServerId) (k : Nat),
        slaves ⟨1, 4, setAvailableServer [2, 4]⟩
            ((buildQuickTable ⟨1, 4, setAvailableServer [2, 4]⟩ fun p _ => p + 1).row 0) =
          kept ++ List.replicate k invalidFlag ∧ kept.Nodup := by
  have hExact := buildQuickTable_exact ⟨1, 4, setAvailableServer [2, 4]⟩ (fun p _ => p + 1)
    (by decide) (b := 0) (by decide) (by decide)
  obtain ⟨-, -, kept, k, hSlaves, hNodup, -⟩ := hExact.1 ⟨1, by decide, by decide⟩
  exact ⟨by decide, kept, k, hSlaves, hNodup⟩

end TableBuilder

end MyBase
