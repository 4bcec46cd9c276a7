import MyBase.Lib.Surplus
import MyBase.Meta.BucketSets

/-!
# MyBase — rounds of the balancing loops

A balancing loop calls `chooseNode` for the server with the greatest counter. `Choice` says
what one call can do, and `Shedding` what it keeps: complete rows, counters that tell what a
server has, and bucket sets that name cells of their server. A server may be chosen for its
own copy; then nothing is moved, but the bucket set names the copy no longer.

* `chooseNode_choice` — inversion of `chooseNode`;
* `Shedding.chooseNode` — one call keeps `Shedding`;
* `Shedding.round` — on the counters of masters, or of all copies, one call is a `Round` of
  the library, unless the server is stuck.
-/

namespace MyBase

open Lib List

namespace TableBuilder

section Rounds

variable {tb : TableBuilder} {rand : Nat → Nat} {st st' : Rebuild} {nodeInfo : ServerId}
  {masterFlag : Bool}

theorem movable_eq_none {node : ServerId} :
    tb.movable st nodeInfo masterFlag node = none ↔
      ∀ b p, (bucketsOf (st.bucketsSet masterFlag) nodeInfo).find? b = some p →
        tb.checkNodeOk node b p st.table ≠ true := by
  unfold movable
  rw [Option.map_eq_none_iff, find?_eq_none]
  constructor
  · intro h b p hFind
    exact h (b, p) (OrdMap.mem_of_find? hFind)
  · rintro h ⟨b, p⟩ hMem
    exact h b p (OrdMap.find?_of_mem hMem)

theorem movable_eq_some {node : ServerId} {move : ServerId × Nat × Nat}
    (h : tb.movable st nodeInfo masterFlag node = some move) :
    move.1 = node ∧
      (bucketsOf (st.bucketsSet masterFlag) nodeInfo).find? move.2.1 = some move.2.2 ∧
      tb.checkNodeOk node move.2.1 move.2.2 st.table = true := by
  obtain ⟨e, he, rfl⟩ := Option.map_eq_some_iff.mp h
  have hFits := find?_some he
  exact ⟨rfl, OrdMap.find?_of_mem (mem_of_find?_eq_some he), hFits⟩

/-- A copy of a bucket has been moved from `nodeInfo` to `node`, in the table, the bucket
sets, and the sums of counter and flag. -/
structure Moves (tb : TableBuilder) (st st' : Rebuild) (nodeInfo : ServerId) (masterFlag : Bool)
    (node : ServerId) (b p : Nat) : Prop where
  available : tb.Available node
  named : (bucketsOf (st.bucketsSet masterFlag) nodeInfo).find? b = some p
  fits : tb.checkNodeOk node b p st.table = true
  table : st'.table = st.table.set p b node
  sets : st'.bucketsSet = Function.update st.bucketsSet masterFlag
    (eraseBucketMap nodeInfo b (insertBucketMap node b p (st.bucketsSet masterFlag)))
  sums : ∀ f x, valueAt (st'.migrateNodeInfo f) x + valueAt (st'.nodeFlag f) x =
    valueAt (st.migrateNodeInfo f) x + valueAt (st.nodeFlag f) x +
      if f = true → masterFlag = true then
        (if x = node then 1 else 0) - if x = nodeInfo then 1 else 0
      else 0

/-- What one `chooseNode` does. -/
inductive Choice (tb : TableBuilder) (st : Rebuild) (nodeInfo : ServerId) (masterFlag : Bool)
    (st' : Rebuild) : Prop
  /-- A server below its share takes a copy. -/
  | give (node : ServerId) (b p : Nat) (hMoves : tb.Moves st st' nodeInfo masterFlag node b p)
      (hNeedy : valueAt (st.migrateNodeInfo masterFlag) node < 0)
      (hMigrate : ∀ x, valueAt (st'.migrateNodeInfo masterFlag) x =
        valueAt (st.migrateNodeInfo masterFlag) x - (if x = nodeInfo then 1 else 0) +
          if x = node then 1 else 0)
      (hFlags : st'.nodeFlag = st.nodeFlag) (hMax : st'.maxCount = st.maxCount)
  /-- The server keeps one more than its share. -/
  | keep (hNone : ∀ x, tb.Available x → valueAt (st.migrateNodeInfo masterFlag) x < 0 →
        tb.movable st nodeInfo masterFlag x = none)
      (hFirst : valueAt (st.nodeFlag masterFlag) nodeInfo = 0) (hLeft : 0 < st.maxCount masterFlag)
      (hTable : st'.table = st.table) (hSets : st'.bucketsSet = st.bucketsSet)
      (hMigrate : ∀ f x, valueAt (st'.migrateNodeInfo f) x =
        valueAt (st.migrateNodeInfo f) x - if f = masterFlag ∧ x = nodeInfo then 1 else 0)
      (hFlags : ∀ f x, valueAt (st'.nodeFlag f) x =
        valueAt (st.nodeFlag f) x + if f = masterFlag ∧ x = nodeInfo then 1 else 0)
      (hMax : st'.maxCount = Function.update st.maxCount masterFlag (st.maxCount masterFlag - 1))
  /-- The least loaded server that can takes a copy. -/
  | push (node : ServerId) (b p : Nat) (hMoves : tb.Moves st st' nodeInfo masterFlag node b p)
      (hNone : ∀ x, tb.Available x → valueAt (st.migrateNodeInfo masterFlag) x < 0 →
        tb.movable st nodeInfo masterFlag x = none)
      (hNot : ¬ (valueAt (st.nodeFlag masterFlag) nodeInfo = 0 ∧ 0 < st.maxCount masterFlag))
      (hLess : ∀ x, tb.Available x →
        valueAt (st.nodeFlag masterFlag) x + valueAt (st.migrateNodeInfo masterFlag) x <
          valueAt (st.nodeFlag masterFlag) node + valueAt (st.migrateNodeInfo masterFlag) node →
        tb.movable st nodeInfo masterFlag x = none)
      (hMigrate : ∀ x, valueAt (st'.migrateNodeInfo masterFlag) x =
        valueAt (st.migrateNodeInfo masterFlag) x - if x = nodeInfo then 1 else 0)
      (hFlags : ∀ f x, valueAt (st'.nodeFlag f) x =
        valueAt (st.nodeFlag f) x + if f = masterFlag ∧ x = node then 1 else 0)
      (hMax : st'.maxCount = Function.update st.maxCount masterFlag (st.maxCount masterFlag - 1))
  /-- Nothing is changed. -/
  | stay (hNone : ∀ x, tb.Available x → tb.movable st nodeInfo masterFlag x = none)
      (hNot : ¬ (valueAt (st.nodeFlag masterFlag) nodeInfo = 0 ∧ 0 < st.maxCount masterFlag))
      (hSame : ∃ drawn, st' = { st with drawn := drawn })

/-- The first search of `chooseNode`: a copy that a server below its share can take. -/
def needySearch (tb : TableBuilder) (rand : Nat → Nat) (st : Rebuild) (nodeInfo : ServerId)
    (masterFlag : Bool) : Option (ServerId × Nat × Nat) × Nat :=
  drawGroups rand invalidFlag (tb.movable st nodeInfo masterFlag) (st.needyServers masterFlag)
    st.drawn

/-- The second search: a copy that the least loaded server can take. -/
def flaggedSearch (tb : TableBuilder) (rand : Nat → Nat) (st : Rebuild) (nodeInfo : ServerId)
    (masterFlag : Bool) : Option (ServerId × Nat × Nat) × Nat :=
  drawGroups rand invalidFlag (tb.movable st nodeInfo masterFlag) (st.flaggedServers masterFlag)
    (tb.needySearch rand st nodeInfo masterFlag).2

/-- The server may keep one copy more: it has not been let yet, and there are some to spare. -/
def MayKeep (st : Rebuild) (nodeInfo : ServerId) (masterFlag : Bool) : Prop :=
  valueAt (st.nodeFlag masterFlag) nodeInfo = 0 ∧ 0 < st.maxCount masterFlag

instance (st : Rebuild) (nodeInfo : ServerId) (masterFlag : Bool) :
    Decidable (MayKeep st nodeInfo masterFlag) :=
  inferInstanceAs (Decidable (_ ∧ _))

theorem chooseNode_of_needy {move : ServerId × Nat × Nat}
    (h : (tb.needySearch rand st nodeInfo masterFlag).1 = some move) :
    tb.chooseNode rand st nodeInfo masterFlag =
      giveCopy { st with drawn := (tb.needySearch rand st nodeInfo masterFlag).2 } nodeInfo
        masterFlag move := by
  have hDraw : tb.needySearch rand st nodeInfo masterFlag =
      (some move, (tb.needySearch rand st nodeInfo masterFlag).2) := Prod.ext h rfl
  generalize (tb.needySearch rand st nodeInfo masterFlag).2 = drawn at hDraw ⊢
  unfold needySearch at hDraw
  rw [chooseNode, hDraw]

section NoneNeedy

variable (hNone : (tb.needySearch rand st nodeInfo masterFlag).1 = none)

include hNone

theorem chooseNode_of_mayKeep (hKeep : MayKeep st nodeInfo masterFlag) :
    tb.chooseNode rand st nodeInfo masterFlag =
      keepCopy { st with drawn := (tb.needySearch rand st nodeInfo masterFlag).2 } nodeInfo
        masterFlag := by
  have hDraw : tb.needySearch rand st nodeInfo masterFlag =
      (none, (tb.needySearch rand st nodeInfo masterFlag).2) := Prod.ext hNone rfl
  generalize (tb.needySearch rand st nodeInfo masterFlag).2 = drawn at hDraw ⊢
  unfold needySearch at hDraw
  rw [chooseNode, hDraw]
  exact if_pos hKeep

/-- A server that may not keep its copy pushes it on or is stuck. -/
theorem chooseNode_of_not_mayKeep (hNot : ¬ MayKeep st nodeInfo masterFlag) :
    tb.chooseNode rand st nodeInfo masterFlag =
      (tb.flaggedSearch rand st nodeInfo masterFlag).1.elim
        { st with drawn := (tb.flaggedSearch rand st nodeInfo masterFlag).2 }
        (pushCopy { st with drawn := (tb.flaggedSearch rand st nodeInfo masterFlag).2 } nodeInfo
          masterFlag) := by
  have hDraw : tb.needySearch rand st nodeInfo masterFlag =
      (none, (tb.needySearch rand st nodeInfo masterFlag).2) := Prod.ext hNone rfl
  unfold flaggedSearch
  generalize (tb.needySearch rand st nodeInfo masterFlag).2 = drawn at hDraw ⊢
  unfold needySearch at hDraw
  rw [chooseNode, hDraw]
  refine (if_neg hNot).trans ?_
  -- the searches do not look at how many random numbers have been used
  split
  · rename_i move drawn' hFlag
    have hFound : drawGroups rand invalidFlag (tb.movable st nodeInfo masterFlag)
      (st.flaggedServers masterFlag) drawn = (some move, drawn') := hFlag
    rw [hFound]
    rfl
  · rename_i drawn' hFlag
    have hFound : drawGroups rand invalidFlag (tb.movable st nodeInfo masterFlag)
      (st.flaggedServers masterFlag) drawn = (none, drawn') := hFlag
    rw [hFound]
    rfl

end NoneNeedy

section Inversion

variable (hListing : tb.Listing st) (hNonzero : ¬ tb.Available invalidFlag)

include hListing hNonzero

theorem valueAt_decr_incr (hInfo : tb.Available nodeInfo) {node : ServerId}
    (hNode : tb.Available node) (f : Bool) (x : ServerId) :
    valueAt (incrNodeCount node (decrNodeCount nodeInfo (st.migrateNodeInfo f))) x =
      valueAt (st.migrateNodeInfo f) x - (if x = nodeInfo then 1 else 0) +
        if x = node then 1 else 0 := by
  rw [valueAt_incrNodeCount _ (hNode.ne_invalid hNonzero),
    hListing.valueAt_decrMigrate hNonzero hInfo]
  rw [keys_decrNodeCount]
  exact (hListing.migrates f node).mpr hNode

variable {move : ServerId × Nat × Nat} {drawn : Nat} (hInfo : tb.Available nodeInfo)
  (hNode : tb.Available move.1)
  (hNamed : (bucketsOf (st.bucketsSet masterFlag) nodeInfo).find? move.2.1 = some move.2.2)
  (hFits : tb.checkNodeOk move.1 move.2.1 move.2.2 st.table = true)

include hInfo hNode hNamed hFits

theorem giveCopy_moves :
    tb.Moves st (giveCopy { st with drawn := drawn } nodeInfo masterFlag move) nodeInfo masterFlag
      move.1 move.2.1 move.2.2 where
  available := hNode
  named := hNamed
  fits := hFits
  table := by cases masterFlag <;> rfl
  sets := by
    rw [giveCopy, moveCopy_bucketsSet]
    cases masterFlag <;> rfl
  sums := by
    have hBoth := valueAt_decr_incr hListing hNonzero hInfo hNode
    intro f x
    cases masterFlag <;> cases f <;>
      simp [giveCopy, moveCopy, Rebuild.mapBuckets, Rebuild.mapMigrate, hBoth] <;> omega

/-- A copy that is pushed on has moved. -/
theorem pushCopy_moves :
    tb.Moves st (pushCopy { st with drawn := drawn } nodeInfo masterFlag move) nodeInfo masterFlag
      move.1 move.2.1 move.2.2 where
  available := hNode
  named := hNamed
  fits := hFits
  table := by cases masterFlag <;> rfl
  sets := by
    rw [pushCopy, moveCopy_bucketsSet]
    cases masterFlag <;> rfl
  sums := by
    have hBoth := valueAt_decr_incr hListing hNonzero hInfo hNode
    have hDecr := hListing.valueAt_decrMigrate hNonzero hInfo
    have hFlagged := hListing.valueAt_incrFlag hNonzero hNode masterFlag
    intro f x
    cases masterFlag <;> cases f <;>
      simp [pushCopy, moveCopy, Rebuild.mapBuckets, Rebuild.mapMigrate, Rebuild.mapNodeFlag,
        Rebuild.decrMaxCount, hBoth, hDecr, hFlagged] <;> omega

end Inversion

/-- A copy has been found for a server below its share. -/
theorem give_of_needy (hListing : tb.Listing st) (hNonzero : ¬ tb.Available invalidFlag)
    (hInfo : tb.Available nodeInfo) {move : ServerId × Nat × Nat}
    (h : (tb.needySearch rand st nodeInfo masterFlag).1 = some move) :
    tb.Moves st (tb.chooseNode rand st nodeInfo masterFlag) nodeInfo masterFlag move.1 move.2.1
        move.2.2 ∧ valueAt (st.migrateNodeInfo masterFlag) move.1 < 0 := by
  obtain ⟨node, hKey, hNeedy, hMove, -⟩ := needyServers_some (Prod.ext h rfl)
  obtain ⟨rfl, hNamed, hFits⟩ := movable_eq_some hMove
  have hNode := (hListing.migrates masterFlag move.1).mp hKey
  rw [chooseNode_of_needy h]
  exact ⟨giveCopy_moves hListing hNonzero hInfo hNode hNamed hFits, hNeedy⟩

/-- A copy has been found for the least loaded server that can take one. -/
theorem push_of_flagged (hListing : tb.Listing st) (hNonzero : ¬ tb.Available invalidFlag)
    (hInfo : tb.Available nodeInfo) (hNone : (tb.needySearch rand st nodeInfo masterFlag).1 = none)
    (hNot : ¬ MayKeep st nodeInfo masterFlag) {move : ServerId × Nat × Nat}
    (h : (tb.flaggedSearch rand st nodeInfo masterFlag).1 = some move) :
    tb.Moves st (tb.chooseNode rand st nodeInfo masterFlag) nodeInfo masterFlag move.1 move.2.1
        move.2.2 ∧
      ∀ x, tb.Available x →
        valueAt (st.nodeFlag masterFlag) x + valueAt (st.migrateNodeInfo masterFlag) x <
          valueAt (st.nodeFlag masterFlag) move.1 + valueAt (st.migrateNodeInfo masterFlag) move.1 →
        tb.movable st nodeInfo masterFlag x = none := by
  obtain ⟨node, hKey, hMove, hLess⟩ := flaggedServers_some (Prod.ext h rfl)
  obtain ⟨rfl, hNamed, hFits⟩ := movable_eq_some hMove
  have hNode := (hListing.flags masterFlag move.1).mp hKey
  rw [chooseNode_of_not_mayKeep hNone hNot, h, Option.elim_some]
  exact ⟨pushCopy_moves hListing hNonzero hInfo hNode hNamed hFits,
    fun x hx hLt => hLess x ((hListing.flags masterFlag x).mpr hx) hLt⟩

/-- **Inversion of `chooseNode`.** -/
theorem chooseNode_choice (rand : Nat → Nat) (hListing : tb.Listing st)
    (hNonzero : ¬ tb.Available invalidFlag) (hInfo : tb.Available nodeInfo) (masterFlag : Bool) :
    tb.Choice st nodeInfo masterFlag (tb.chooseNode rand st nodeInfo masterFlag) := by
  have hDecr := hListing.valueAt_decrMigrate hNonzero hInfo
  cases hSearch : (tb.needySearch rand st nodeInfo masterFlag).1 with
  | some move =>
    -- a server below its share takes the copy
    obtain ⟨hMoves, hBelow⟩ := give_of_needy hListing hNonzero hInfo hSearch
    have hBoth := valueAt_decr_incr hListing hNonzero hInfo hMoves.available
    refine .give move.1 move.2.1 move.2.2 hMoves hBelow ?_ ?_ ?_
    · intro x
      rw [chooseNode_of_needy hSearch]
      cases masterFlag <;>
        simp [giveCopy, moveCopy, Rebuild.mapBuckets, Rebuild.mapMigrate, hBoth]
    · rw [chooseNode_of_needy hSearch]
      cases masterFlag <;> rfl
    · rw [chooseNode_of_needy hSearch]
      cases masterFlag <;> rfl
  | none =>
    have hNone : ∀ x, tb.Available x → valueAt (st.migrateNodeInfo masterFlag) x < 0 →
        tb.movable st nodeInfo masterFlag x = none := by
      intro x hx
      exact needyServers_none (Prod.ext hSearch rfl) x
        ((hListing.migrates masterFlag x).mpr hx)
    by_cases hKeep : MayKeep st nodeInfo masterFlag
    · -- one above the share may be kept
      rw [chooseNode_of_mayKeep hSearch hKeep]
      have hFlagged := hListing.valueAt_incrFlag hNonzero hInfo masterFlag
      refine .keep hNone hKeep.1 hKeep.2 rfl rfl ?_ ?_ rfl
      · intro f x
        by_cases hf : f = masterFlag
        · subst hf
          simp [keepCopy, Rebuild.decrMaxCount, Rebuild.mapMigrate, Rebuild.mapNodeFlag, hDecr]
        · simp [keepCopy, Rebuild.decrMaxCount, Rebuild.mapMigrate, Rebuild.mapNodeFlag, hf]
      · intro f x
        by_cases hf : f = masterFlag
        · subst hf
          simp [keepCopy, Rebuild.decrMaxCount, Rebuild.mapMigrate, Rebuild.mapNodeFlag, hFlagged]
        · simp [keepCopy, Rebuild.decrMaxCount, Rebuild.mapMigrate, Rebuild.mapNodeFlag, hf]
    · cases hFlag : (tb.flaggedSearch rand st nodeInfo masterFlag).1 with
      | some move =>
        obtain ⟨hMoves, hLess⟩ := push_of_flagged hListing hNonzero hInfo hSearch hKeep hFlag
        have hFlagged := hListing.valueAt_incrFlag hNonzero hMoves.available masterFlag
        refine .push move.1 move.2.1 move.2.2 hMoves hNone hKeep hLess ?_ ?_ ?_
        · intro x
          rw [chooseNode_of_not_mayKeep hSearch hKeep, hFlag, Option.elim_some]
          cases masterFlag <;>
            simp [pushCopy, moveCopy, Rebuild.mapBuckets, Rebuild.mapMigrate, Rebuild.mapNodeFlag,
              Rebuild.decrMaxCount, hDecr]
        · intro f x
          rw [chooseNode_of_not_mayKeep hSearch hKeep, hFlag, Option.elim_some]
          cases masterFlag <;> cases f <;>
            simp [pushCopy, moveCopy, Rebuild.mapBuckets, Rebuild.mapMigrate, Rebuild.mapNodeFlag,
              Rebuild.decrMaxCount, hFlagged]
        · rw [chooseNode_of_not_mayKeep hSearch hKeep, hFlag, Option.elim_some]
          cases masterFlag <;> rfl
      | none =>
        rw [chooseNode_of_not_mayKeep hSearch hKeep, hFlag, Option.elim_none]
        refine .stay ?_ hKeep ⟨_, rfl⟩
        intro x hx
        exact flaggedServers_none (Prod.ext hFlag rfl) x ((hListing.flags masterFlag x).mpr hx)

end Rounds

-- What the loops keep

/-- The rows of available masters are complete; the counters tell what a server has; the
bucket sets name cells that hold the server. -/
structure Shedding (tb : TableBuilder) (source : HashTable) (st : Rebuild) : Prop where
  sound : tb.Sound source (tb.Alive source) st
  filled : ∀ b, tb.Alive source b → tb.Filled st.table b
  listing : tb.Listing st
  tally : ∀ f, tb.Tally f st
  within : ∀ f x, tb.Available x → ∀ b p, (bucketsOf (st.bucketsSet f) x).find? b = some p →
    tb.Alive source b ∧ tb.Slot f p ∧ st.table p b = x

section Shedding

variable {tb : TableBuilder} {rand : Nat → Nat} {source : HashTable} {st st' : Rebuild}
  {nodeInfo node : ServerId} {masterFlag : Bool} {b p : Nat}

theorem Counted.shedding (h : tb.Counted source st)
    (hFilled : ∀ b, tb.Alive source b → tb.Filled st.table b) : tb.Shedding source st :=
  ⟨h.sound, hFilled, h.listing, h.tally, fun f x hx b p hFind => (h.named f x hx b p).mp hFind⟩

section Moves

variable (h : tb.Moves st st' nodeInfo masterFlag node b p)
include h

/-- The counters still tell what a server has when a copy has been moved. -/
theorem Moves.tally (hCopies : 0 < tb.copyCount) (hb : b < tb.bucketCount)
    (hSlot : tb.Slot masterFlag p) (hCell : st.table p b = nodeInfo) {f : Bool}
    (hTally : tb.Tally f st) : tb.Tally f st' := by
  intro x hx
  have hBefore := hTally x hx
  have hSum := h.sums f x
  have hCells := hSlot.mem_cells hCopies hb f
  rw [h.table]
  by_cases hIn : (p, b) ∈ tb.cells f
  · have hSet : (tb.held f (st.table.set p b node) x : Int) + (if x = nodeInfo then 1 else 0) =
        tb.held f st.table x + if x = node then 1 else 0 := by
      have hNat := held_set (t := st.table) hIn node x
      rw [hCell] at hNat
      simp only [eq_comm (b := x)] at hNat
      exact_mod_cast hNat
    rw [if_pos (hCells.mp hIn)] at hSum
    linarith
  · rw [held_set_of_notMem hIn]
    rw [if_neg fun hFlag => hIn (hCells.mpr hFlag)] at hSum
    omega

/-- The server that takes a copy of a bucket has none yet, unless it is its own. -/
theorem Moves.fresh (hShed : tb.Shedding source st) (hCopies : 0 < tb.copyCount)
    (hCell : st.table p b = nodeInfo) (hNe : node ≠ nodeInfo) :
    (bucketsOf (st.bucketsSet masterFlag) node).find? b = none := by
  by_contra hFind
  obtain ⟨q, hq⟩ := Option.ne_none_iff_exists'.mp hFind
  obtain ⟨-, hSlot, hHas⟩ := hShed.within masterFlag node h.available b q hq
  by_cases hqp : q = p
  · rw [hqp, hCell] at hHas
    exact hNe hHas.symm
  · exact checkNodeOk_iff.mp h.fits q (hSlot.lt hCopies) hqp hHas

/-- What the sets name after a move is in the table. -/
theorem Moves.within (hShed : tb.Shedding source st) (hCopies : 0 < tb.copyCount)
    (hb : tb.Alive source b) (hSlot : tb.Slot masterFlag p) (hCell : st.table p b = nodeInfo)
    (f : Bool) (x : ServerId) (hx : tb.Available x) (b' p' : Nat)
    (hFind : (bucketsOf (st'.bucketsSet f) x).find? b' = some p') :
    tb.Alive source b' ∧ tb.Slot f p' ∧ st'.table p' b' = x := by
  rw [h.sets] at hFind
  rw [h.table]
  by_cases hf : f = masterFlag
  · subst hf
    rw [Function.update_self, find?_eraseBucket] at hFind
    obtain ⟨hFind, hNot⟩ := hFind
    rw [bucketsOf_insert] at hFind
    -- the bucket that moved, at its new server and at others
    by_cases hbb : b' = b
    · subst hbb
      by_cases hxn : x = node
      · subst hxn
        have hNe : x ≠ nodeInfo := fun hEq => hNot ⟨hEq, rfl⟩
        rw [if_pos rfl, OrdMap.find?_emplace, if_pos rfl, h.fresh hShed hCopies hCell hNe] at hFind
        cases hFind
        exact ⟨hb, hSlot, set_self _ _ _ _⟩
      · rw [if_neg hxn] at hFind
        obtain ⟨hAlive, hSlot', hHas⟩ := hShed.within f x hx b' p' hFind
        refine ⟨hAlive, hSlot', ?_⟩
        rw [set_of_position_ne]
        · exact hHas
        · rintro rfl
          exact hNot ⟨hHas.symm.trans hCell, rfl⟩
    · have hOld : (bucketsOf (st.bucketsSet f) x).find? b' = some p' := by
        by_cases hxn : x = node
        · rwa [if_pos hxn, OrdMap.find?_emplace, if_neg hbb] at hFind
        · rwa [if_neg hxn] at hFind
      obtain ⟨hAlive, hSlot', hHas⟩ := hShed.within f x hx b' p' hOld
      exact ⟨hAlive, hSlot', (set_of_bucket_ne _ hbb _ _ _).trans hHas⟩
  · rw [Function.update_of_ne hf] at hFind
    obtain ⟨hAlive, hSlot', hHas⟩ := hShed.within f x hx b' p' hFind
    refine ⟨hAlive, hSlot', ?_⟩
    rw [set_of_position_ne]
    · exact hHas
    · rintro rfl
      exact hf (hSlot.eq hSlot')

/-- What a move does to the size of a set. -/
theorem Moves.length (hShed : tb.Shedding source st) (hCopies : 0 < tb.copyCount)
    (hCell : st.table p b = nodeInfo) (x : ServerId) :
    ((bucketsOf (st'.bucketsSet masterFlag) x).entries.length : Int) =
      (bucketsOf (st.bucketsSet masterFlag) x).entries.length - (if x = nodeInfo then 1 else 0) +
        if x = node ∧ node ≠ nodeInfo then 1 else 0 := by
  rw [h.sets, Function.update_self, bucketsOf_erase, bucketsOf_insert]
  by_cases hxi : x = nodeInfo
  · subst hxi
    have hErase := OrdMap.length_erase h.named
    have hNot : ¬ (x = node ∧ node ≠ x) := fun hAnd => hAnd.2 hAnd.1.symm
    rw [if_pos rfl, if_pos rfl, if_neg hNot]
    by_cases hxn : x = node
    · have hSame : (bucketsOf (st.bucketsSet masterFlag) x).emplace b p =
          bucketsOf (st.bucketsSet masterFlag) x :=
        OrdMap.emplace_of_mem ⟨(b, p), OrdMap.mem_of_find? h.named, rfl⟩
      rw [if_pos hxn, hSame]
      omega
    · rw [if_neg hxn]
      omega
  · rw [if_neg hxi, if_neg hxi]
    by_cases hxn : x = node
    · subst hxn
      rw [if_pos rfl, if_pos ⟨rfl, hxi⟩, OrdMap.length_emplace (h.fresh hShed hCopies hCell hxi)]
      push_cast
      omega
    · rw [if_neg hxn, if_neg fun hAnd => hxn hAnd.1]
      omega

end Moves

/-- **Step lemma.** -/
theorem Shedding.chooseNode (h : tb.Shedding source st) (rand : Nat → Nat)
    (hCopies : 0 < tb.copyCount) (hNonzero : ¬ tb.Available invalidFlag)
    (hInfo : tb.Available nodeInfo) (masterFlag : Bool) :
    tb.Shedding source (tb.chooseNode rand st nodeInfo masterFlag) := by
  obtain ⟨hSound, hFilled⟩ := chooseNode_rows rand h.sound h.filled nodeInfo masterFlag
  have hListing := h.listing.of_sameKeys (chooseNode_cases tb rand st nodeInfo masterFlag).1
  -- when a copy has been moved
  have hMoved : ∀ {node b p}, tb.Moves st (tb.chooseNode rand st nodeInfo masterFlag) nodeInfo
      masterFlag node b p → tb.Shedding source (tb.chooseNode rand st nodeInfo masterFlag) := by
    intro node b p hMoves
    obtain ⟨hAlive, hSlot, hCell⟩ := h.within masterFlag nodeInfo hInfo b p hMoves.named
    exact ⟨hSound, hFilled, hListing,
      fun f => hMoves.tally hCopies hAlive.1 hSlot hCell (h.tally f),
      hMoves.within h hCopies hAlive hSlot hCell⟩
  cases chooseNode_choice rand h.listing hNonzero hInfo masterFlag with
  | give node b p hMoves => exact hMoved hMoves
  | push node b p hMoves => exact hMoved hMoves
  | keep _ _ _ hTable hSets hMigrate hFlags _ =>
    refine ⟨hSound, hFilled, hListing, ?_, ?_⟩
    · intro f x hx
      have hBefore := h.tally f x hx
      rw [hTable, hMigrate f x, hFlags f x]
      omega
    · rw [hTable, hSets]
      exact h.within
  | stay _ _ hSame =>
    obtain ⟨drawn, hSame⟩ := hSame
    rw [hSame]
    rw [hSame] at hSound hFilled hListing
    exact ⟨hSound, hFilled, hListing, h.tally, h.within⟩

end Shedding

-- Rounds

/-- The counters of masters, or of all copies. -/
def loads (masterFlag : Bool) (st : Rebuild) : Loads ServerId where
  surplus := valueAt (st.migrateNodeInfo masterFlag)
  extra := valueAt (st.nodeFlag masterFlag)
  movable := fun x => ((bucketsOf (st.bucketsSet masterFlag) x).entries.length : Int)
  spare := st.maxCount masterFlag

section Rounds

variable {tb : TableBuilder} {rand : Nat → Nat} {source : HashTable} {st st' : Rebuild}
  {nodeInfo node : ServerId} {masterFlag : Bool}

/-- Servers that no copy can be given to have another copy of every bucket. -/
theorem mem_others_of_movable (h : tb.movable st nodeInfo masterFlag node = none) {b p : Nat}
    (hNamed : (bucketsOf (st.bucketsSet masterFlag) nodeInfo).find? b = some p) :
    node ∈ tb.others st.table b p :=
  not_checkNodeOk_iff.mp (movable_eq_none.mp h b p hNamed)

variable (h : tb.Shedding source st)
include h

/-- Fewer servers than copies have another copy of a bucket. -/
theorem Shedding.card_le (hCopies : 0 < tb.copyCount) (hInfo : tb.Available nodeInfo) {b p : Nat}
    (hNamed : (bucketsOf (st.bucketsSet masterFlag) nodeInfo).find? b = some p)
    {q : ServerId → Prop} [DecidablePred q]
    (hNone : ∀ x, tb.Available x → q x → tb.movable st nodeInfo masterFlag x = none) :
    (tb.servers.filter q).card ≤ tb.copyCount - 1 := by
  obtain ⟨-, hSlot, -⟩ := h.within masterFlag nodeInfo hInfo b p hNamed
  have hSub : tb.servers.filter q ⊆ tb.others st.table b p := by
    intro x hx
    obtain ⟨hServer, hq⟩ := Finset.mem_filter.mp hx
    exact mem_others_of_movable (hNone x (mem_servers.mp hServer) hq) hNamed
  have hCard := Finset.card_le_card hSub
  have hOthers := card_others_lt st.table b (hSlot.lt hCopies)
  omega

/-- A server that no copy can be given to has as many copies as there are to give. -/
theorem Shedding.length_le_held (hInfo : tb.Available nodeInfo)
    (hNone : tb.movable st nodeInfo masterFlag node = none) :
    (bucketsOf (st.bucketsSet masterFlag) nodeInfo).entries.length ≤
      tb.held false st.table node := by
  have hKeys : (bucketsOf (st.bucketsSet masterFlag) nodeInfo).entries.length =
      (bucketsOf (st.bucketsSet masterFlag) nodeInfo).keys.toFinset.card := by
    rw [toFinset_card_of_nodup (OrdMap.keys_nodup _), OrdMap.keys, length_map]
  rw [hKeys, held, Lib.tally]
  refine le_trans (Finset.card_le_card ?_) (Finset.card_image_le (f := Prod.snd))
  intro b hb
  obtain ⟨p, hp⟩ := Option.isSome_iff_exists.mp
    (OrdMap.find?_isSome_iff.mpr (List.mem_toFinset.mp hb))
  obtain ⟨hAlive, -, -⟩ := h.within masterFlag nodeInfo hInfo b p hp
  obtain ⟨i, hi, hCell⟩ := Finset.mem_image.mp (mem_others_of_movable hNone hp)
  refine Finset.mem_image.mpr ⟨(i, b), Finset.mem_filter.mpr ⟨?_, hCell⟩, rfl⟩
  exact mem_cells_false.mpr ⟨Finset.mem_range.mp (Finset.mem_of_mem_erase hi), hAlive.1⟩

omit h in
/-- A server with buckets to give has one. -/
theorem exists_named (h : 0 < (loads masterFlag st).movable nodeInfo) :
    ∃ b p, (bucketsOf (st.bucketsSet masterFlag) nodeInfo).find? b = some p := by
  have hPos : 0 < (bucketsOf (st.bucketsSet masterFlag) nodeInfo).entries.length :=
    Int.natCast_pos.mp h
  obtain ⟨⟨b, p⟩, hMem⟩ := exists_mem_of_length_pos hPos
  exact ⟨b, p, OrdMap.find?_of_mem hMem⟩

theorem Shedding.blocked (hCopies : 0 < tb.copyCount) (hInfo : tb.Available nodeInfo)
    (hNone : ∀ x, tb.Available x → valueAt (st.migrateNodeInfo masterFlag) x < 0 →
      tb.movable st nodeInfo masterFlag x = none) :
    Blocked tb.servers (fun x => (tb.held false st.table x : Int)) (tb.copyCount - 1) nodeInfo
      (loads masterFlag st) where
  copies := by
    intro x hx hNeedy
    have hLe := h.length_le_held hInfo (hNone x (mem_servers.mp hx) hNeedy)
    show ((bucketsOf (st.bucketsSet masterFlag) nodeInfo).entries.length : Int) ≤ _
    exact_mod_cast hLe
  few := by
    intro hGives
    obtain ⟨b, p, hNamed⟩ := exists_named hGives
    exact h.card_le hCopies hInfo hNamed hNone

/-- A server can take its own copy. -/
theorem Shedding.movable_self (hNonzero : ¬ tb.Available invalidFlag) (hCopies : 0 < tb.copyCount)
    (hInfo : tb.Available nodeInfo) (hGives : 0 < (loads masterFlag st).movable nodeInfo) :
    tb.movable st nodeInfo masterFlag nodeInfo ≠ none := by
  intro hNone
  obtain ⟨b, p, hNamed⟩ := exists_named hGives
  obtain ⟨hAlive, hSlot, hCell⟩ := h.within masterFlag nodeInfo hInfo b p hNamed
  refine movable_eq_none.mp hNone b p hNamed (checkNodeOk_iff.mpr ?_)
  intro i hi hip hEq
  exact (h.filled b hAlive).injective hNonzero (h.sound.distinct b hAlive) hi (hSlot.lt hCopies)
    hip (hEq.trans hCell.symm)

/-- **`chooseNode` is a round.** -/
theorem Shedding.round (rand : Nat → Nat) (hNonzero : ¬ tb.Available invalidFlag)
    (hCopies : 0 < tb.copyCount) (hInfo : tb.Available nodeInfo)
    (hPos : 0 < (loads masterFlag st).surplus nodeInfo)
    (hNotStuck : (loads masterFlag st).movable nodeInfo = 0 →
      (loads masterFlag st).extra nodeInfo = 0 ∧ 0 < (loads masterFlag st).spare) :
    Round tb.servers (fun x => (tb.held false st.table x : Int)) (tb.copyCount - 1) nodeInfo
      (loads masterFlag st) (loads masterFlag (tb.chooseNode rand st nodeInfo masterFlag)) := by
  have hLength : ∀ {node b p}, tb.Moves st (tb.chooseNode rand st nodeInfo masterFlag) nodeInfo
      masterFlag node b p → ∀ x,
      (loads masterFlag (tb.chooseNode rand st nodeInfo masterFlag)).movable x =
        (loads masterFlag st).movable x - (if x = nodeInfo then 1 else 0) +
          if x = node ∧ node ≠ nodeInfo then 1 else 0 := by
    intro node b p hMoves x
    obtain ⟨-, -, hCell⟩ := h.within masterFlag nodeInfo hInfo b p hMoves.named
    exact hMoves.length h hCopies hCell x
  cases chooseNode_choice rand h.listing hNonzero hInfo masterFlag with
  | give node b p hMoves hNeedy hMigrate hFlags hMax =>
    have hNe : node ≠ nodeInfo := by
      rintro rfl
      exact absurd hPos (not_lt.mpr (le_of_lt hNeedy))
    refine .give node (mem_servers.mpr hMoves.available) hNeedy hMigrate ?_ ?_ ?_
    · intro x
      rw [hLength hMoves x]
      simp only [hNe, ne_eq, not_false_eq_true, and_true]
    · intro x
      show valueAt _ x = valueAt _ x
      rw [hFlags]
    · show _ = st.maxCount masterFlag
      rw [← hMax]
      rfl
  | keep hNone hFirst hLeft hTable hSets hMigrate hFlags hMax =>
    refine .keep (h.blocked hCopies hInfo hNone) hFirst hLeft ?_ ?_ ?_ ?_
    · intro x
      simpa [loads] using hMigrate masterFlag x
    · intro x
      show ((bucketsOf _ x).entries.length : Int) = (bucketsOf _ x).entries.length
      rw [hSets]
    · intro x
      simpa [loads] using hFlags masterFlag x
    · show (tb.chooseNode rand st nodeInfo masterFlag).maxCount masterFlag = _
      rw [hMax, Function.update_self]
      rfl
  | push node b p hMoves hNone hNot hLess hMigrate hFlags hMax =>
    refine .push node (h.blocked hCopies hInfo hNone) hNot (mem_servers.mpr hMoves.available) ?_ ?_
      hMigrate (hLength hMoves) ?_ ?_
    · -- who is below its share would have been given the copy
      by_contra hNeedy
      have hFree := hNone node hMoves.available (not_le.mp hNeedy)
      exact movable_eq_none.mp hFree b p hMoves.named hMoves.fits
    · exact h.card_le hCopies hInfo hMoves.named hLess
    · intro x
      simpa [loads] using hFlags masterFlag x
    · show (tb.chooseNode rand st nodeInfo masterFlag).maxCount masterFlag = _
      rw [hMax, Function.update_self]
      rfl
  | stay hNone hNot _ =>
    by_cases hGives : 0 < (loads masterFlag st).movable nodeInfo
    · exact absurd (hNone nodeInfo hInfo) (h.movable_self hNonzero hCopies hInfo hGives)
    · have hNonneg : 0 ≤ (loads masterFlag st).movable nodeInfo := Int.natCast_nonneg _
      exact absurd (hNotStuck (le_antisymm (not_lt.mp hGives) hNonneg)) hNot

end Rounds

end TableBuilder

end MyBase
