import MyBase.Meta.BuildErrors

/-!
# MyBase — what the bucket sets name

`m_buckets_set` and `s_buckets_set` are kept beside the table, as the counters are. Through
the first phase of a rebuild they name just the cells of the rows that may be changed: the
masters' cells the one, the slaves' the other (`Named`). A row is filled one cell at a time,
and every such step keeps counters, flags and bucket sets in line with the table
(`Counted`).

When no other rows hold an available server, a server is named with as many cells as the
table has of it (`Named.length_eq`), and its copies are the buckets it is master of and those
it is slave of (`held_eq_add`).
-/

namespace MyBase

open Lib List

-- Bucket sets

/-- The buckets of a server. -/
def bucketsOf (sets : OrdMap ServerId (OrdMap Nat Nat)) (node : ServerId) : OrdMap Nat Nat :=
  (sets.find? node).getD ∅

theorem bucketsOf_insert (sets : OrdMap ServerId (OrdMap Nat Nat)) (node : ServerId)
    (bucket position : Nat) (x : ServerId) :
    bucketsOf (insertBucketMap node bucket position sets) x =
      if x = node then (bucketsOf sets x).emplace bucket position else bucketsOf sets x := by
  unfold bucketsOf insertBucketMap
  rw [OrdMap.find?_modify, OrdMap.find?_emplace, OrdMap.find?_emplace]
  by_cases hx : x = node
  · subst hx
    simp
  · simp [hx]

theorem bucketsOf_erase (sets : OrdMap ServerId (OrdMap Nat Nat)) (node : ServerId)
    (bucket : Nat) (x : ServerId) :
    bucketsOf (eraseBucketMap node bucket sets) x =
      if x = node then (bucketsOf sets x).erase bucket else bucketsOf sets x := by
  unfold bucketsOf eraseBucketMap
  rw [OrdMap.find?_modify]
  by_cases hx : x = node
  · subst hx
    cases sets.find? x with
    | none => rw [if_pos rfl, if_pos rfl]; rfl
    | some buckets => simp
  · simp [hx]

/-- What is named after a bucket has been entered that was not. -/
theorem find?_insert {sets : OrdMap ServerId (OrdMap Nat Nat)} {node : ServerId} {bucket : Nat}
    (hNew : (bucketsOf sets node).find? bucket = none) (position : Nat) (x : ServerId) (b p : Nat) :
    (bucketsOf (insertBucketMap node bucket position sets) x).find? b = some p ↔
      (bucketsOf sets x).find? b = some p ∨ (x = node ∧ b = bucket ∧ p = position) := by
  rw [bucketsOf_insert]
  by_cases hx : x = node
  · subst hx
    rw [if_pos rfl, OrdMap.find?_emplace, hNew]
    by_cases hb : b = bucket
    · subst hb
      simp [hNew, eq_comm]
    · simp [hb]
  · simp [hx]

theorem find?_eraseBucket (sets : OrdMap ServerId (OrdMap Nat Nat)) (node : ServerId)
    (bucket : Nat) (x : ServerId) (b p : Nat) :
    (bucketsOf (eraseBucketMap node bucket sets) x).find? b = some p ↔
      (bucketsOf sets x).find? b = some p ∧ ¬ (x = node ∧ b = bucket) := by
  rw [bucketsOf_erase]
  by_cases hx : x = node
  · subst hx
    rw [if_pos rfl, OrdMap.find?_erase]
    by_cases hb : b = bucket <;> simp [hb]
  · simp [hx]

namespace TableBuilder

/-- The positions of masters, or of slaves. -/
def Slot (tb : TableBuilder) (masterFlag : Bool) (position : Nat) : Prop :=
  if masterFlag then position = 0 else 1 ≤ position ∧ position < tb.copyCount

/-- The bucket sets name just the cells of the rows in `act`. -/
def Named (tb : TableBuilder) (act : Nat → Prop) (masterFlag : Bool)
    (sets : OrdMap ServerId (OrdMap Nat Nat)) (t : HashTable) : Prop :=
  ∀ x, tb.Available x → ∀ b p, (bucketsOf sets x).find? b = some p ↔
    act b ∧ tb.Slot masterFlag p ∧ t p b = x

section Named

variable {tb : TableBuilder} {act : Nat → Prop} {masterFlag : Bool} {t : HashTable}
  {sets : OrdMap ServerId (OrdMap Nat Nat)}

variable {p position i : Nat} {f : Bool} {x : ServerId}

theorem Slot.lt (hCopies : 0 < tb.copyCount) (h : tb.Slot masterFlag p) : p < tb.copyCount := by
  cases masterFlag with
  | true =>
    obtain rfl : p = 0 := h
    exact hCopies
  | false => exact h.2

/-- Masters' positions are not slaves' ones. -/
theorem Slot.eq (h : tb.Slot masterFlag p) (h' : tb.Slot f p) : f = masterFlag := by
  cases masterFlag with
  | true =>
    obtain rfl : p = 0 := h
    cases f with
    | true => rfl
    | false => exact absurd h'.1 (by omega)
  | false =>
    cases f with
    | true =>
      obtain rfl : p = 0 := h'
      exact absurd h.1 (by omega)
    | false => rfl

/-- A master's cell counts for masters and for copies, a slave's cell for copies. -/
theorem Slot.mem_cells {b : Nat} (h : tb.Slot masterFlag p) (hCopies : 0 < tb.copyCount)
    (hb : b < tb.bucketCount) (f : Bool) :
    (p, b) ∈ tb.cells f ↔ (f = true → masterFlag = true) := by
  cases f with
  | true =>
    rw [mem_cells_true]
    constructor
    · rintro ⟨hZero, -⟩ -
      cases masterFlag with
      | true => rfl
      | false =>
        have hOne : 1 ≤ p := h.1
        omega
    · intro hFlag
      rw [hFlag rfl] at h
      exact ⟨h, hb⟩
  | false =>
    rw [mem_cells_false]
    exact ⟨fun _ => nofun, fun _ => ⟨h.lt hCopies, hb⟩⟩

/-- A copy that is placed is entered. -/
theorem Named.insert (h : tb.Named act masterFlag sets t) {bucket : Nat} {node : ServerId}
    (hNonzero : ¬ tb.Available invalidFlag) (hBucket : act bucket)
    (hSlot : tb.Slot masterFlag position) (hEmpty : t position bucket = invalidFlag)
    (hNode : tb.Available node)
    (hFits : ∀ i, tb.Slot masterFlag i → i ≠ position → t i bucket ≠ node) :
    tb.Named act masterFlag (insertBucketMap node bucket position sets)
      (t.set position bucket node) := by
  have hNe : node ≠ invalidFlag := hNode.ne_invalid hNonzero
  have hNew : (bucketsOf sets node).find? bucket = none := by
    by_contra hFind
    obtain ⟨p, hp⟩ := Option.ne_none_iff_exists'.mp hFind
    obtain ⟨-, hpSlot, hCell⟩ := (h node hNode bucket p).mp hp
    by_cases hpp : p = position
    · rw [hpp, hEmpty] at hCell
      exact hNe hCell.symm
    · exact hFits p hpSlot hpp hCell
  intro x hx b p
  rw [find?_insert hNew, h x hx]
  by_cases hCell : p = position ∧ b = bucket
  · obtain ⟨rfl, rfl⟩ := hCell
    have hxNe : ¬ t p b = x := by
      rw [hEmpty]
      rintro rfl
      exact hNonzero hx
    rw [set_self]
    simp [hxNe, hBucket, hSlot, eq_comm]
  · have hSame : t.set position bucket node p b = t p b := by
      by_cases hp : p = position
      · exact set_of_bucket_ne t (fun hb => hCell ⟨hp, hb⟩) _ _ _
      · exact set_of_position_ne t hp _ _ _
    rw [hSame, or_iff_left]
    rintro ⟨-, hb, hp⟩
    exact hCell ⟨hp, hb⟩

/-- Cells that the sets do not name can be given any server. -/
theorem Named.of_slot (h : tb.Named act masterFlag sets t) (hf : f ≠ masterFlag)
    (hSlot : tb.Slot f position) (bucket : Nat) (node : ServerId) :
    tb.Named act masterFlag sets (t.set position bucket node) := by
  intro x hx b p
  rw [h x hx]
  refine and_congr_right fun _ => and_congr_right fun hp => ?_
  rw [set_of_position_ne]
  rintro rfl
  exact hf (hp.eq hSlot)

/-- The slaves of one bucket, entered one after the other. -/
theorem find?_rowSlaves (hDistinct : tb.Distinct t i) (hNonzero : x ≠ invalidFlag)
    (hNew : (bucketsOf sets x).find? i = none) {m : Nat} (hm : m ≤ tb.copyCount - 1) (b p : Nat) :
    (bucketsOf ((List.range' 1 m).foldl (fun sets j => insertBucketMap (t j i) i j sets) sets)
        x).find? b = some p ↔
      (bucketsOf sets x).find? b = some p ∨ (b = i ∧ (1 ≤ p ∧ p ≤ m) ∧ t p i = x) := by
  induction m generalizing b p with
  | zero =>
    rw [range'_zero, foldl_nil, or_iff_left]
    omega
  | succ m ih =>
    have hBefore := fun b p => ih (by omega) b p
    rw [range'_1_concat, foldl_append, foldl_cons, foldl_nil]
    by_cases hx : x = t (1 + m) i
    · -- no slave before this one is the same server
      have hFree : (bucketsOf ((List.range' 1 m).foldl
          (fun sets j => insertBucketMap (t j i) i j sets) sets) (t (1 + m) i)).find? i = none := by
        rw [← hx]
        by_contra hFind
        obtain ⟨q, hq⟩ := Option.ne_none_iff_exists'.mp hFind
        rcases (hBefore i q).mp hq with hOld | ⟨-, hqm, hCell⟩
        · rw [hNew] at hOld
          cases hOld
        · exact hDistinct q (by omega) (1 + m) (by omega) (by omega) (by rw [hCell]; exact hNonzero)
            (hCell.trans hx)
      rw [find?_insert hFree, hBefore, or_assoc]
      refine or_congr_right ?_
      constructor
      · rintro (⟨rfl, hpm, hCell⟩ | ⟨-, rfl, rfl⟩)
        · exact ⟨rfl, by omega, hCell⟩
        · exact ⟨rfl, by omega, hx.symm⟩
      · rintro ⟨rfl, hpm, hCell⟩
        by_cases hp : p = 1 + m
        · exact Or.inr ⟨hx, rfl, hp⟩
        · exact Or.inl ⟨rfl, by omega, hCell⟩
    · rw [bucketsOf_insert, if_neg hx, hBefore]
      refine or_congr_right (and_congr_right fun _ => ?_)
      constructor
      · rintro ⟨hpm, hCell⟩
        exact ⟨by omega, hCell⟩
      · rintro ⟨hpm, hCell⟩
        refine ⟨?_, hCell⟩
        have hp : p ≠ 1 + m := by
          rintro rfl
          exact hx hCell.symm
        omega

/-- What one row adds to the set of a server. -/
theorem find?_enterRow (hDistinct : tb.Distinct t i) (hNonzero : x ≠ invalidFlag)
    (hNew : (bucketsOf sets x).find? i = none) (masterFlag : Bool) (b p : Nat) :
    (bucketsOf (tb.enterRow t masterFlag sets i) x).find? b = some p ↔
      (bucketsOf sets x).find? b = some p ∨
        (b = i ∧ tb.Available (t 0 i) ∧ tb.Slot masterFlag p ∧ t p i = x) := by
  unfold enterRow
  by_cases hAvailable : tb.Available (t 0 i)
  · rw [if_pos (isAvailable_iff.mpr hAvailable)]
    cases masterFlag with
    | true =>
      rw [if_pos rfl]
      by_cases hx : x = t 0 i
      · rw [find?_insert (hx ▸ hNew)]
        refine or_congr_right ?_
        constructor
        · rintro ⟨-, rfl, rfl⟩
          exact ⟨rfl, hAvailable, rfl, hx.symm⟩
        · rintro ⟨rfl, -, hp, -⟩
          exact ⟨hx, rfl, hp⟩
      · rw [bucketsOf_insert, if_neg hx, or_iff_left]
        rintro ⟨-, -, hp, hCell⟩
        obtain rfl : p = 0 := hp
        exact hx hCell.symm
    | false =>
      rw [if_neg (by decide), find?_rowSlaves hDistinct hNonzero hNew (le_refl _)]
      refine or_congr_right ?_
      constructor
      · rintro ⟨rfl, hp, hCell⟩
        exact ⟨rfl, hAvailable, ⟨hp.1, by omega⟩, hCell⟩
      · rintro ⟨rfl, -, hp, hCell⟩
        have hpC := hp.2
        exact ⟨rfl, ⟨hp.1, by omega⟩, hCell⟩
  · rw [if_neg fun h => hAvailable (isAvailable_iff.mp h), or_iff_left]
    exact fun h => hAvailable h.2.1

/-- The sets name the copies of the table at the start. -/
theorem named_initBucketSet (hDistinct : ∀ b < tb.bucketCount, tb.Distinct t b)
    (hNonzero : ¬ tb.Available invalidFlag) (masterFlag : Bool) :
    tb.Named (tb.Alive t) masterFlag (tb.initBucketSet t masterFlag) t := by
  intro x hx
  have hxNe : x ≠ invalidFlag := hx.ne_invalid hNonzero
  have hStart : bucketsOf (tb.availableServer.entries.foldl (fun m e => m.emplace e.1 ∅) ∅) x =
      (∅ : OrdMap Nat Nat) := by
    refine List.foldlRecOn
      (motive := fun sets : OrdMap ServerId (OrdMap Nat Nat) => bucketsOf sets x = ∅) _ _ rfl ?_
    intro sets hSets e _
    unfold bucketsOf at hSets ⊢
    rw [OrdMap.find?_emplace]
    by_cases hEq : x = e.1
    · rw [if_pos hEq, Option.getD_some, ← hEq, hSets]
    · rw [if_neg hEq, hSets]
  -- the rows below `n` have been entered
  have hRows : ∀ n ≤ tb.bucketCount, ∀ b p,
      (bucketsOf ((List.range n).foldl (tb.enterRow t masterFlag)
        (tb.availableServer.entries.foldl (fun m e => m.emplace e.1 ∅) ∅)) x).find? b = some p ↔
      (b < n ∧ tb.Available (t 0 b)) ∧ tb.Slot masterFlag p ∧ t p b = x := by
    intro n hn
    induction n with
    | zero =>
      intro b p
      rw [range_zero, foldl_nil, hStart]
      simp
    | succ n ih =>
      intro b p
      have hBefore := ih (by omega)
      rw [range_succ, foldl_append, foldl_cons, foldl_nil,
        find?_enterRow (hDistinct n (by omega)) hxNe ?_, hBefore, Nat.lt_succ_iff_lt_or_eq]
      · constructor
        · rintro (⟨⟨hb, hAvailable⟩, hCell⟩ | ⟨rfl, hAvailable, hCell⟩)
          · exact ⟨⟨Or.inl hb, hAvailable⟩, hCell⟩
          · exact ⟨⟨Or.inr rfl, hAvailable⟩, hCell⟩
        · rintro ⟨⟨hb | rfl, hAvailable⟩, hCell⟩
          · exact Or.inl ⟨⟨hb, hAvailable⟩, hCell⟩
          · exact Or.inr ⟨rfl, hAvailable, hCell⟩
      · by_contra hFind
        obtain ⟨q, hq⟩ := Option.ne_none_iff_exists'.mp hFind
        exact absurd ((hBefore n q).mp hq).1.1 (lt_irrefl n)
  exact hRows tb.bucketCount (le_refl _)

end Named

-- Counting

section Counting

variable {tb : TableBuilder} {act : Nat → Prop} {t : HashTable}
  {sets : OrdMap ServerId (OrdMap Nat Nat)}

/-- The cells of the masters, or of the slaves. -/
def slots (tb : TableBuilder) (masterFlag : Bool) : Finset (Nat × Nat) :=
  (if masterFlag then {0} else Finset.Ico 1 tb.copyCount) ×ˢ Finset.range tb.bucketCount

theorem mem_slots {masterFlag : Bool} {c : Nat × Nat} :
    c ∈ tb.slots masterFlag ↔ tb.Slot masterFlag c.1 ∧ c.2 < tb.bucketCount := by
  rw [slots, Finset.mem_product, Finset.mem_range]
  cases masterFlag <;> simp [Slot]

/-- A server is named with as many cells as it has. -/
theorem Named.length_eq {masterFlag : Bool} (h : tb.Named act masterFlag sets t)
    (hAct : ∀ b p, tb.Slot masterFlag p → tb.Available (t p b) → (act b ↔ b < tb.bucketCount))
    {x : ServerId} (hx : tb.Available x) :
    (bucketsOf sets x).entries.length = tally (tb.slots masterFlag) (fun c => t c.1 c.2) x := by
  have hNodup : ((bucketsOf sets x).entries.map Prod.swap).Nodup :=
    (bucketsOf sets x).entries_nodup.map Prod.swap_injective
  have hCells : ((bucketsOf sets x).entries.map Prod.swap).toFinset =
      (tb.slots masterFlag).filter fun c => t c.1 c.2 = x := by
    ext ⟨p, b⟩
    rw [mem_toFinset, Finset.mem_filter, mem_slots]
    have hSwap : (p, b) ∈ (bucketsOf sets x).entries.map Prod.swap ↔
        (b, p) ∈ (bucketsOf sets x).entries := by
      simp
    rw [hSwap, ← OrdMap.find?_eq_some_iff, h x hx]
    constructor
    · rintro ⟨hb, hp, hCell⟩
      exact ⟨⟨hp, (hAct b p hp (hCell ▸ hx)).mp hb⟩, hCell⟩
    · rintro ⟨⟨hp, hb⟩, hCell⟩
      exact ⟨(hAct b p hp (hCell ▸ hx)).mpr hb, hp, hCell⟩
  rw [tally, ← hCells, toFinset_card_of_nodup hNodup, length_map]

theorem held_eq_add (hCopies : 0 < tb.copyCount) (x : ServerId) :
    tb.held false t x = tb.held true t x + tally (tb.slots false) (fun c => t c.1 c.2) x := by
  have hCells : tb.cells false = tb.cells true ∪ tb.slots false := by
    ext c
    rw [Finset.mem_union, mem_cells_false, mem_cells_true, mem_slots]
    show _ ↔ _ ∨ (1 ≤ c.1 ∧ c.1 < tb.copyCount) ∧ _
    omega
  have hDisjoint : Disjoint (tb.cells true) (tb.slots false) := by
    rw [Finset.disjoint_left]
    intro c hc hSlave
    have hZero := (mem_cells_true.mp hc).1
    have hOne : 1 ≤ c.1 := (mem_slots.mp hSlave).1.1
    omega
  unfold held tally
  rw [hCells, Finset.filter_union, Finset.card_union_of_disjoint]
  exact Finset.disjoint_filter_filter hDisjoint

end Counting

-- The first phase

/-- Counters, flags and bucket sets are in line with the table. -/
structure Counted (tb : TableBuilder) (source : HashTable) (st : Rebuild) : Prop where
  sound : tb.Sound source (tb.Alive source) st
  listing : tb.Listing st
  tally : ∀ f, tb.Tally f st
  named : ∀ f, tb.Named (tb.Alive source) f (st.bucketsSet f) st.table
  /-- A master is let stay once at most, and only for a bucket that has slaves. -/
  flags : ∀ x, 0 ≤ valueAt (st.nodeFlag true) x ∧ valueAt (st.nodeFlag true) x ≤ 1
  lone : tb.copyCount = 1 → ∀ x, valueAt (st.nodeFlag true) x = 0
  slaveFlags : ∀ x, valueAt (st.nodeFlag false) x = 0
  spare : st.maxCount false = (tb.initRebuild source).maxCount false

section Counted

variable {tb : TableBuilder} {rand : Nat → Nat} {source : HashTable} {st st' : Rebuild}
  (hNonzero : ¬ tb.Available invalidFlag)

include hNonzero

theorem initRebuild_counted (hCopies : 0 < tb.copyCount) (hSource : tb.SourceOk source) :
    tb.Counted source (tb.initRebuild source) where
  sound := initRebuild_sound hCopies hSource
  listing := initRebuild_listing source
  tally := initRebuild_tally hCopies source
  named := named_initBucketSet hSource.distinct hNonzero
  flags := by
    intro x
    have hZero : valueAt ((tb.initRebuild source).nodeFlag true) x = 0 := valueAt_initTokenCount x
    omega
  lone := fun _ => valueAt_initTokenCount
  slaveFlags := valueAt_initTokenCount
  spare := rfl

variable {b m bucket position i : Nat} {masterFlag f : Bool}

section Phase

variable (h : tb.Counted source st)
include h

/-- The counters after an empty slot is filled. -/
theorem Counted.takes {node : ServerId} (hTakes : tb.Takes st st' bucket position masterFlag node)
    (hSound : tb.Sound source (tb.Alive source) st') (hCopies : 0 < tb.copyCount)
    (hAlive : tb.Alive source bucket) (hSlot : tb.Slot masterFlag position)
    (hEmpty : st.table position bucket = invalidFlag) : tb.Counted source st' where
  sound := hSound
  listing := hTakes.listing
  tally := by
    intro f
    exact hTakes.tally hNonzero hEmpty (hSlot.mem_cells hCopies hAlive.1 f) (h.tally f)
  named := by
    intro f
    rw [hTakes.sets, hTakes.table]
    by_cases hf : f = masterFlag
    · subst hf
      rw [Function.update_self]
      refine (h.named f).insert hNonzero hAlive hSlot hEmpty hTakes.available ?_
      intro i hi hNe
      exact checkNodeOk_iff.mp hTakes.fits i (hi.lt hCopies) hNe
    · rw [Function.update_of_ne hf]
      exact (h.named f).of_slot (Ne.symm hf) hSlot bucket node
  flags := by
    rw [hTakes.flags]
    exact h.flags
  lone := by
    rw [hTakes.flags]
    exact h.lone
  slaveFlags := by
    rw [hTakes.flags]
    exact h.slaveFlags
  spare := by
    rw [hTakes.counts]
    exact h.spare

theorem Counted.chooseNodeInvalid (hCopies : 0 < tb.copyCount) (hAlive : tb.Alive source bucket)
    (hSlot : tb.Slot masterFlag position) (hEmpty : st.table position bucket = invalidFlag)
    (hChoose : tb.chooseNodeInvalid rand st bucket position masterFlag = some st') :
    tb.Counted source st' := by
  obtain ⟨node, hTakes⟩ := chooseNodeInvalid_takes h.listing hNonzero hChoose
  obtain ⟨hSound, -⟩ := h.sound.chooseNodeInvalid hAlive (hSlot.lt hCopies) hChoose
  exact h.takes hNonzero hTakes hSound hCopies hAlive hSlot hEmpty

theorem Counted.chooseSlaves (hAlive : tb.Alive source i)
    (hChoose : tb.chooseSlaveForInvalid rand st i = some st') : tb.Counted source st' := by
  refine run_range' (fun _ s => tb.Counted source s) ?_ h hChoose
  intro n s s' hLo hHi hInv hStep
  split at hStep
  · rename_i hEmpty
    have hSlot : tb.Slot false n := ⟨hLo, by omega⟩
    exact hInv.chooseNodeInvalid hNonzero (by omega) hAlive hSlot hEmpty hStep
  · cases hStep
    exact hInv

/-- The counters after a master keeps its bucket. -/
theorem Counted.keepCopy {master : ServerId} (hMaster : tb.Available master)
    (hCopies : tb.copyCount ≠ 1) (hFlag : valueAt (st.nodeFlag true) master = 0) :
    tb.Counted source (keepCopy st master true) := by
  have hFlags : ∀ x, valueAt ((TableBuilder.keepCopy st master true).nodeFlag true) x =
      valueAt (st.nodeFlag true) x + if x = master then 1 else 0 :=
    h.listing.valueAt_incrFlag hNonzero hMaster true
  have hMigrates : ∀ x, valueAt ((TableBuilder.keepCopy st master true).migrateNodeInfo true) x =
      valueAt (st.migrateNodeInfo true) x - if x = master then 1 else 0 :=
    h.listing.valueAt_decrMigrate hNonzero hMaster true
  have hKeys := (sameKeys_mapNodeFlag st true (keys_incrNodeCount master)).trans
    (sameKeys_mapMigrate _ true (keys_decrNodeCount master))
  refine ⟨⟨h.sound.books.keepCopy master true, h.sound.distinct, h.sound.frame⟩,
    h.listing.of_sameKeys fun f => hKeys f, ?_, h.named, ?_, fun hOne => absurd hOne hCopies,
    h.slaveFlags, h.spare⟩
  · intro f x hx
    have hBefore := h.tally f x hx
    cases f with
    | true =>
      rw [hFlags x, hMigrates x]
      show (tb.held true st.table x : Int) = _
      omega
    | false => exact hBefore
  · intro x
    have hBefore := h.flags x
    rw [hFlags x]
    split
    · rename_i hx
      rw [hx, hFlag]
      omega
    · omega

omit h in
/-- The counters still tell what a server has when the master has become a slave. -/
theorem Demotes.tally (h : tb.Demotes st st' b m) (hListing : tb.Listing st)
    (hb : b < tb.bucketCount) (hMaster : tb.Available (st.table 0 b)) (hTally : tb.Tally f st) :
    tb.Tally f st' := by
  intro x hx
  have hBefore := hTally x hx
  have hPos := h.pos
  have hLt := h.lt
  have hxNe : invalidFlag ≠ x := (hx.ne_invalid hNonzero).symm
  have hZero : st.table.set m b (st.table 0 b) 0 b = st.table 0 b :=
    set_of_position_ne _ (by omega) _ _ _
  rw [h.flags, h.table]
  cases f with
  | true =>
    have hSlave : (m, b) ∉ tb.cells true := by
      rw [mem_cells_true]
      omega
    have hCell : (0, b) ∈ tb.cells true := mem_cells_true.mpr ⟨rfl, hb⟩
    have hSet := held_set (t := st.table.set m b (st.table 0 b)) hCell invalidFlag x
    rw [held_set_of_notMem hSlave, hZero, if_neg hxNe] at hSet
    rw [h.migrates, hListing.valueAt_decrMigrate hNonzero hMaster]
    by_cases hx : x = st.table 0 b
    · rw [if_pos hx.symm] at hSet
      rw [if_pos hx]
      omega
    · rw [if_neg (Ne.symm hx)] at hSet
      rw [if_neg hx]
      omega
  | false =>
    have hCell : ∀ p < tb.copyCount, (p, b) ∈ tb.cells false := fun p hp =>
      mem_cells_false.mpr ⟨hp, hb⟩
    have hFirst := held_fill (hCell m hLt) h.free (st.table 0 b) hxNe.symm
    have hSecond := held_set (t := st.table.set m b (st.table 0 b)) (hCell 0 (by omega))
      invalidFlag x
    rw [hZero, if_neg hxNe] at hSecond
    rw [h.copies]
    omega

omit h in
/-- The bucket sets still name the cells when the master has become a slave. -/
theorem Demotes.named (h : tb.Demotes st st' b m) {act : Nat → Prop} (hb : act b)
    (hMaster : tb.Available (st.table 0 b)) (hDistinct : tb.Distinct st.table b)
    (hNamed : tb.Named act f (st.bucketsSet f) st.table) :
    tb.Named act f (st'.bucketsSet f) st'.table := by
  have hPos := h.pos
  have hLt := h.lt
  cases f with
  | true =>
    have hRow : ∀ b', b' ≠ b → st'.table 0 b' = st.table 0 b' := by
      intro b' hb'
      rw [h.table, set_of_bucket_ne _ hb', set_of_bucket_ne _ hb']
    intro x hx b' p
    rw [h.masters, find?_eraseBucket, hNamed x hx]
    constructor
    · rintro ⟨⟨hb', hp, hCell⟩, hNot⟩
      obtain rfl : p = 0 := hp
      have hOther : b' ≠ b := by
        rintro rfl
        exact hNot ⟨hCell.symm, rfl⟩
      exact ⟨hb', rfl, (hRow b' hOther).trans hCell⟩
    · rintro ⟨hb', hp, hCell⟩
      obtain rfl : p = 0 := hp
      have hOther : b' ≠ b := by
        rintro rfl
        rw [h.table, set_self] at hCell
        exact hx.ne_invalid hNonzero hCell.symm
      exact ⟨⟨hb', rfl, (hRow b' hOther).symm.trans hCell⟩, fun hAnd => hOther hAnd.2⟩
  | false =>
    have hSlot : tb.Slot false m := ⟨hPos, hLt⟩
    have hInsert := hNamed.insert hNonzero hb hSlot h.free hMaster (by
      intro i hi _
      have hiPos : 1 ≤ i := hi.1
      exact (hDistinct 0 (by omega) i hi.2 (by omega) (hMaster.ne_invalid hNonzero)).symm)
    have hMasterSlot : tb.Slot true 0 := rfl
    rw [h.slaves, h.table]
    exact hInsert.of_slot (by decide) hMasterSlot b invalidFlag

/-- The counters after a master has become a slave. -/
theorem Counted.demotes (hDemotes : tb.Demotes st st' b m) (hAlive : tb.Alive source b)
    (hMaster : tb.Available (st.table 0 b)) (hSound : tb.Sound source (tb.Alive source) st')
    (hListing : tb.Listing st') :
    tb.Counted source st' where
  sound := hSound
  listing := hListing
  tally := fun f => hDemotes.tally hNonzero h.listing hAlive.1 hMaster (h.tally f)
  named := fun f => hDemotes.named hNonzero hAlive hMaster (h.sound.distinct b hAlive) (h.named f)
  flags := by
    rw [hDemotes.flags]
    exact h.flags
  lone := by
    rw [hDemotes.flags]
    exact h.lone
  slaveFlags := by
    rw [hDemotes.flags]
    exact h.slaveFlags
  spare := by
    rw [hDemotes.counts]
    exact h.spare

/-- **Step lemma of the first phase.** -/
theorem Counted.fillBucket (hSource : tb.SourceOk source) (hRows : tb.FilledUpTo source i st.table)
    (hi : i < tb.bucketCount) (hFill : tb.fillBucket rand st i = some st') :
    tb.Counted source st' ∧ tb.FilledUpTo source (i + 1) st'.table := by
  have hNext := (hRows.fillBucket hNonzero hSource h.sound hi hFill).2
  have hRow := hRows.later i (le_refl i)
  refine ⟨?_, hNext⟩
  rcases fillBucket_cases hFill with ⟨rfl, -⟩ | ⟨hMaster, ⟨n, hn, hEmpty⟩, st₁, hSlaves, hCase⟩
  · exact h
  have hRange := mem_range'_1.mp hn
  have hAlive : tb.Alive source i := ⟨hi, hRow 0 ▸ hMaster⟩
  refine Counted.chooseSlaves hNonzero ?_ hAlive hSlaves
  rcases hCase with rfl | ⟨hFlag, rfl⟩ | hChoose
  · exact h
  · exact h.keepCopy hNonzero hMaster (by omega) hFlag
  · have hFillable : tb.Fillable st.table i := by
      intro p hp
      rw [hRow p]
      exact hSource.fillable i hi hAlive.2 p hp
    have hDemoted := demoteMaster_spec h.sound hAlive hMaster hNonzero hFillable hn hEmpty
    obtain ⟨m, hDemotes⟩ := demoteMaster_demotes hn hEmpty
    have hCounted := h.demotes hNonzero hDemotes hAlive hMaster hDemoted.sound
      (demoteMaster_listing h.listing i).1
    have hFree : (tb.demoteMaster st i).table 0 i = invalidFlag := by
      rw [hDemotes.table, set_self]
    have hSlot : tb.Slot true 0 := rfl
    exact hCounted.chooseNodeInvalid hNonzero (by omega) hAlive hSlot hFree hChoose

end Phase

/-- **The first phase.** -/
theorem fill_counted (hCopies : 0 < tb.copyCount) (hSource : tb.SourceOk source)
    (hRun : run (tb.fillBucket rand) (tb.initRebuild source) (List.range' 0 tb.bucketCount) =
      some st) : tb.Counted source st := by
  have hEnd := run_range'
    (fun i s => tb.Counted source s ∧ tb.FilledUpTo source i s.table)
    (by
      rintro i s s' - hi ⟨hCounted, hRows⟩ hStep
      exact hCounted.fillBucket hNonzero hSource hRows (by omega) hStep)
    ⟨initRebuild_counted hNonzero hCopies hSource, filledUpTo_zero tb source⟩ hRun
  exact hEnd.1

end Counted

end TableBuilder

end MyBase
