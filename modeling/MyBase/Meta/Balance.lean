import MyBase.Meta.QuickTable
import MyBase.Meta.Rounds

/-!
# MyBase — the balancing loops come to an end

Each round of a balancing loop lowers what the servers have above their shares, unless the
server it is for is stuck: it has a surplus, its bucket set is empty, and it may not keep
one copy more. So a loop ends if no server gets stuck (`balance_total`).

* In the masters' loop a server with a surplus has a master's cell to give, and can always
  take it back itself. What a server is let keep is bounded by `masterBound`: when nobody
  below its share can take a copy, the server that gets it has no more than all but a few
  others (`Spread`).
* In the slaves' loop the masters are fixed. Their number is at most one above a server's
  share of all copies (`masterBound_le`), so a server can only get stuck with as many masters
  and no slaves left. Then there are more copies to spare than the others can have used up
  (`others_lt_spare`, `Settling`).

Both arguments count an available server's cells as those that the bucket sets name. They
fail when a row whose master is dead still has an available slave: its copy is counted
and can never be moved (`lostMasters`).
-/

namespace MyBase

open Lib List

namespace TableBuilder

-- The loops

/-- The last entry of the sorted map has the greatest value. -/
theorem getLast?_sortMapByValue {m : OrdMap ServerId Int} (hKeys : m.keys ≠ []) :
    ∃ e, (sortMapByValue m).getLast? = some e ∧ e.2 ∈ m.keys ∧ e.1 = valueAt m e.2 ∧
      ∀ x ∈ m.keys, valueAt m x ≤ e.1 := by
  obtain ⟨x, hx⟩ := exists_mem_of_ne_nil _ hKeys
  have hNe : sortMapByValue m ≠ [] :=
    ne_nil_of_mem (mem_sortMapByValue.mpr ⟨hx, rfl⟩ : (valueAt m x, x) ∈ sortMapByValue m)
  obtain ⟨e, he⟩ := Option.isSome_iff_exists.mp (List.getLast?_isSome.mpr hNe)
  obtain ⟨front, hFront⟩ := List.getLast?_eq_some_iff.mp he
  have hMem : e ∈ sortMapByValue m := mem_of_getLast? he
  obtain ⟨hKey, hValue⟩ := mem_sortMapByValue.mp hMem
  refine ⟨e, he, hKey, hValue, ?_⟩
  intro y hy
  have hSorted : (sortMapByValue m).Pairwise fun a b => a.1 ≤ b.1 := pairwise_sortByValue _
  have hIn : (valueAt m y, y) ∈ sortMapByValue m := mem_sortMapByValue.mpr ⟨hy, rfl⟩
  rw [hFront] at hSorted hIn
  rcases List.mem_append.mp hIn with hBefore | hLast
  · exact (List.pairwise_append.mp hSorted).2.2 _ hBefore e mem_cons_self
  · rw [mem_singleton] at hLast
    rw [← hLast]

section Loops

variable {tb : TableBuilder} {rand : Nat → Nat} {source : HashTable} {st st' : Rebuild}
  {masterFlag : Bool}

/-- **Loop rule.** A balancing loop whose every round is one comes to an end, and then no
server has a surplus. -/
theorem balance_total (Inv : Rebuild → Prop) (hSome : 0 < tb.availableServer.entries.length)
    (hListing : ∀ st, Inv st → tb.Listing st)
    (hStep : ∀ st nodeInfo, Inv st → tb.Available nodeInfo →
      0 < (loads masterFlag st).surplus nodeInfo →
      Inv (tb.chooseNode rand st nodeInfo masterFlag) ∧
        ∃ (copies : ServerId → Int) (c : Nat), Round tb.servers copies c nodeInfo
          (loads masterFlag st) (loads masterFlag (tb.chooseNode rand st nodeInfo masterFlag)))
    (h : Inv st) :
    ∃ n st', (∀ fuel, n ≤ fuel → tb.balance rand masterFlag fuel st = some st') ∧ Inv st' ∧
      ∀ x, tb.Available x → (loads masterFlag st').surplus x ≤ 0 := by
  -- by induction on what is above the shares
  induction hMeasure : ∑ x ∈ tb.servers, ((loads masterFlag st).surplus x).toNat
    using Nat.strong_induction_on generalizing st with
  | _ measure ih =>
    have hKeys : (st.migrateNodeInfo masterFlag).keys ≠ [] := by
      obtain ⟨e, he⟩ := exists_mem_of_length_pos hSome
      have hServer : tb.Available e.1 := mem_map_of_mem he
      exact ne_nil_of_mem (((hListing st h).migrates masterFlag e.1).mpr hServer)
    obtain ⟨e, hLast, hKey, hValue, hMost⟩ := getLast?_sortMapByValue hKeys
    by_cases hPos : e.1 > 0
    · have hInfo := ((hListing st h).migrates masterFlag e.2).mp hKey
      have hSurplus : 0 < (loads masterFlag st).surplus e.2 := by
        show 0 < valueAt (st.migrateNodeInfo masterFlag) e.2
        rw [← hValue]
        exact hPos
      obtain ⟨hInv, copies, c, hRound⟩ := hStep st e.2 h hInfo hSurplus
      have hLess := hRound.sum_toNat_lt (mem_servers.mpr hInfo) hSurplus
      obtain ⟨n, st', hBalance, hEnd⟩ := ih _ (hMeasure ▸ hLess) hInv rfl
      refine ⟨n + 1, st', ?_, hEnd⟩
      intro fuel hFuel
      obtain ⟨fuel, rfl⟩ : ∃ k, fuel = k + 1 := ⟨fuel - 1, by omega⟩
      rw [balance, hLast]
      dsimp only
      rw [if_pos hPos]
      exact hBalance fuel (by omega)
    · refine ⟨1, st, ?_, h, ?_⟩
      · intro fuel hFuel
        obtain ⟨fuel, rfl⟩ : ∃ k, fuel = k + 1 := ⟨fuel - 1, by omega⟩
        rw [balance, hLast]
        dsimp only
        rw [if_neg hPos]
      · intro x hx
        exact (hMost x (((hListing st h).migrates masterFlag x).mpr hx)).trans (not_lt.mp hPos)

end Loops

-- Shares

theorem toInt32_of_lt {n : Nat} (h : n < 2 ^ 31) : toInt32 n = n := by
  have hNat : (BitVec.ofNat 32 n).toNat = n := by
    rw [BitVec.toNat_ofNat, Nat.mod_eq_of_lt (by omega)]
  rw [toInt32, BitVec.toInt_eq_toNat_of_lt (by omega), hNat]

section Shares

variable {tb : TableBuilder}

theorem card_cells (tb : TableBuilder) (masterFlag : Bool) :
    (tb.cells masterFlag).card =
      if masterFlag then tb.bucketCount else tb.bucketCount * tb.copyCount := by
  cases masterFlag <;> simp [cells, mul_comm]

variable (hCopies : 0 < tb.copyCount) (hServers : tb.availableServer.entries.length < 2 ^ 32)
  (hCells : tb.bucketCount * tb.copyCount < 2 ^ 31)

include hCopies hCells

theorem copiesOf_eq (masterFlag : Bool) : tb.copiesOf masterFlag = (tb.cells masterFlag).card := by
  have hBuckets : tb.bucketCount ≤ tb.bucketCount * tb.copyCount :=
    Nat.le_mul_of_pos_right _ hCopies
  rw [copiesOf, card_cells, Nat.mod_eq_of_lt (by omega), Nat.mod_eq_of_lt (by omega)]

theorem card_cells_lt (masterFlag : Bool) : (tb.cells masterFlag).card < 2 ^ 31 := by
  have hBuckets : tb.bucketCount ≤ tb.bucketCount * tb.copyCount :=
    Nat.le_mul_of_pos_right _ hCopies
  rw [card_cells]
  split <;> omega

include hServers

theorem tokensPerNodeMin_eq (masterFlag : Bool) :
    tb.tokensPerNodeMin masterFlag =
      ((tb.cells masterFlag).card / tb.availableServer.entries.length : Nat) := by
  have hLt := card_cells_lt hCopies hCells masterFlag
  rw [tokensPerNodeMin, copiesOf_eq hCopies hCells, serverCount, Nat.mod_eq_of_lt hServers,
    toInt32_of_lt (lt_of_le_of_lt (Nat.div_le_self _ _) hLt)]

theorem maxCount_initRebuild (source : HashTable) (masterFlag : Bool) :
    (tb.initRebuild source).maxCount masterFlag =
      ((tb.cells masterFlag).card % tb.availableServer.entries.length : Nat) := by
  have hLt := card_cells_lt hCopies hCells masterFlag
  show toInt32 (tb.copiesOf masterFlag % tb.serverCount) = _
  rw [copiesOf_eq hCopies hCells, serverCount, Nat.mod_eq_of_lt hServers,
    toInt32_of_lt (lt_of_le_of_lt (Nat.mod_le _ _) hLt)]

end Shares

theorem sum_held_le (tb : TableBuilder) (masterFlag : Bool) (t : HashTable) :
    ∑ x ∈ tb.servers, tb.held masterFlag t x ≤ (tb.cells masterFlag).card := by
  have hParts : ∑ x ∈ tb.servers, tb.held masterFlag t x =
      ((tb.cells masterFlag).filter fun c => t c.1 c.2 ∈ tb.servers).card := by
    rw [Finset.card_eq_sum_card_fiberwise (f := fun c => t c.1 c.2) (t := tb.servers)]
    · refine Finset.sum_congr rfl fun x hx => ?_
      rw [held, Lib.tally, Finset.filter_filter]
      congr 1
      refine Finset.filter_congr fun c _ => ?_
      constructor
      · rintro rfl
        exact ⟨hx, rfl⟩
      · exact And.right
    · intro c hc
      exact (Finset.mem_filter.mp hc).2
  rw [hParts]
  exact Finset.card_filter_le _ _

-- The masters' loop

/-- No available server has a copy of a bucket whose master is not available. -/
def DeadRowsEmpty (tb : TableBuilder) (source : HashTable) : Prop :=
  ∀ b < tb.bucketCount, ¬ tb.Available (source 0 b) →
    ∀ p < tb.copyCount, ¬ tb.Available (source p b)

/-- The number of buckets that a server can be master of, but for one. -/
def masterBound (tb : TableBuilder) : Nat :=
  tb.bucketCount / (tb.availableServer.entries.length - (tb.copyCount - 1))

theorem le_masterBound {tb : TableBuilder}
    (hEnough : tb.copyCount ≤ tb.availableServer.entries.length) (hCopies : 0 < tb.copyCount)
    {v : Int} (hv : ((tb.availableServer.entries.length : Int) - (tb.copyCount - 1 : Nat)) * v ≤
      tb.bucketCount) : v ≤ tb.masterBound := by
  have hDivisor : (0 : Int) < (tb.availableServer.entries.length - (tb.copyCount - 1) : Nat) := by
    omega
  rw [masterBound, Int.natCast_ediv, Int.le_ediv_iff_mul_le hDivisor, mul_comm]
  refine le_trans (le_of_eq ?_) hv
  congr 1
  omega

/-- Even a master with one more than this bound is at most one above its share of all
copies. -/
theorem masterBound_le {tb : TableBuilder}
    (hEnough : tb.copyCount ≤ tb.availableServer.entries.length) (hCopies : 0 < tb.copyCount) :
    tb.masterBound ≤ tb.bucketCount * tb.copyCount / tb.availableServer.entries.length := by
  obtain ⟨c, hc⟩ : ∃ c, tb.copyCount = c + 1 := ⟨tb.copyCount - 1, by omega⟩
  obtain ⟨k, hk⟩ : ∃ k, tb.availableServer.entries.length = k + 1 + c :=
    ⟨tb.availableServer.entries.length - 1 - c, by omega⟩
  rw [masterBound, hk, hc, Nat.add_sub_cancel, Nat.add_sub_cancel, Nat.le_div_iff_mul_le (by omega)]
  have hMul : tb.bucketCount / (k + 1) * (k + 1) ≤ tb.bucketCount := Nat.div_mul_le_self _ _
  have hSelf : tb.bucketCount / (k + 1) ≤ tb.bucketCount := Nat.div_le_self _ _
  calc tb.bucketCount / (k + 1) * (k + 1 + c)
      = tb.bucketCount / (k + 1) * (k + 1) + tb.bucketCount / (k + 1) * c := by ring
    _ ≤ tb.bucketCount + tb.bucketCount * c :=
        Nat.add_le_add hMul (Nat.mul_le_mul_right c hSelf)
    _ = tb.bucketCount * (c + 1) := by ring

/-- When a server's masters alone are one above its share of all copies, the other servers
are masters of fewer buckets than there are copies to spare. -/
theorem others_lt_spare {tb : TableBuilder}
    (hEnough : tb.copyCount ≤ tb.availableServer.entries.length) (hCopies : 2 ≤ tb.copyCount)
    {others : Nat}
    (hBound : tb.bucketCount * tb.copyCount / tb.availableServer.entries.length ≤ tb.masterBound)
    (hOthers : others + (tb.bucketCount * tb.copyCount / tb.availableServer.entries.length + 1) ≤
      tb.bucketCount) :
    others < tb.bucketCount * tb.copyCount % tb.availableServer.entries.length := by
  obtain ⟨c, hc⟩ : ∃ c, tb.copyCount = c + 2 := ⟨tb.copyCount - 2, by omega⟩
  obtain ⟨k, hk⟩ : ∃ k, tb.availableServer.entries.length = k + (c + 1) :=
    ⟨tb.availableServer.entries.length - (c + 1), by omega⟩
  have hSplit := Nat.div_add_mod (tb.bucketCount * tb.copyCount) tb.availableServer.entries.length
  rw [masterBound, hk, hc] at hBound
  rw [hk, hc] at hOthers hSplit ⊢
  rw [show c + 2 - 1 = c + 1 by omega, Nat.add_sub_cancel] at hBound
  have hMul : tb.bucketCount / k * k ≤ tb.bucketCount := Nat.div_mul_le_self _ _
  generalize tb.bucketCount * (c + 2) / (k + (c + 1)) = share at *
  generalize tb.bucketCount * (c + 2) % (k + (c + 1)) = spare at *
  have hShare : share * k ≤ tb.bucketCount := (Nat.mul_le_mul_right k hBound).trans hMul
  have hRow : share * (c + 1) + (others + 1) ≤ tb.bucketCount * (c + 1) := by
    have hLess : share + (others + 1) ≤ tb.bucketCount := by omega
    calc share * (c + 1) + (others + 1)
        ≤ share * (c + 1) + (others + 1) * (c + 1) := by
          exact Nat.add_le_add_left (Nat.le_mul_of_pos_right _ (by omega)) _
      _ = (share + (others + 1)) * (c + 1) := by ring
      _ ≤ tb.bucketCount * (c + 1) := Nat.mul_le_mul_right _ hLess
  have hAll : (k + (c + 1)) * share = share * k + share * (c + 1) := by ring
  have hTable : tb.bucketCount * (c + 2) = tb.bucketCount + tb.bucketCount * (c + 1) := by ring
  omega

/-- While masters are moved, what concerns the slaves stays as the first phase left it. -/
structure MasterPhase (tb : TableBuilder) (source : HashTable) (st : Rebuild) : Prop where
  shed : tb.Shedding source st
  spread : Spread tb.servers (tb.copyCount - 1) (tb.tokensPerNodeMin true) tb.bucketCount
    tb.masterBound (loads true st)
  named : tb.Named (tb.Alive source) false (st.bucketsSet false) st.table
  slaveFlags : ∀ x, valueAt (st.nodeFlag false) x = 0
  spare : st.maxCount false = (tb.initRebuild source).maxCount false

section Phases

variable {tb : TableBuilder} {rand : Nat → Nat} {source : HashTable} {st st' : Rebuild}
  (hNonzero : ¬ tb.Available invalidFlag) (hCopies : 0 < tb.copyCount)

/-- An available server is in a row of an available master. -/
theorem Sound.alive_iff (h : tb.Sound source (tb.Alive source) st)
    (hDead : tb.DeadRowsEmpty source) {b p : Nat} (hp : p < tb.copyCount)
    (hCell : tb.Available (st.table p b)) : tb.Alive source b ↔ b < tb.bucketCount := by
  refine ⟨fun hAlive => hAlive.1, fun hb => ?_⟩
  by_contra hNot
  have hMaster : ¬ tb.Available (source 0 b) := fun hAvailable => hNot ⟨hb, hAvailable⟩
  rw [h.frame b hNot p] at hCell
  exact hDead b hb hMaster p hp hCell

include hCopies in
/-- The masters are balanced from what the first phase leaves. -/
theorem Counted.masterPhase (h : tb.Counted source st)
    (hFilled : ∀ b, tb.Alive source b → tb.Filled st.table b) (hDead : tb.DeadRowsEmpty source)
    (hBound : tb.tokensPerNodeMin true ≤ tb.masterBound) :
    tb.MasterPhase source st where
  shed := h.shedding hFilled
  spread := by
    have hLoad : ∀ x ∈ tb.servers, tb.tokensPerNodeMin true + (loads true st).surplus x +
        (loads true st).extra x = tb.held true st.table x := fun x hx =>
      (h.tally true x (mem_servers.mp hx)).symm
    refine ⟨?_, fun x _ => (h.flags x).1, ?_, ?_, ?_, ?_⟩
    · intro x hx
      have hLength : (loads true st).movable x = tb.held true st.table x :=
        congrArg Nat.cast ((h.named true).length_eq
          (fun b p hp hCell => h.sound.alive_iff hDead (hp.lt hCopies) hCell) (mem_servers.mp hx))
      have hFlag : 0 ≤ (loads true st).extra x := (h.flags x).1
      have hTally := hLoad x hx
      omega
    · intro x hx
      rw [hLoad x hx]
      exact Int.natCast_nonneg _
    · rw [Finset.sum_congr rfl hLoad, ← Nat.cast_sum]
      have hSum := sum_held_le tb true st.table
      rw [card_cells, if_pos rfl] at hSum
      exact_mod_cast hSum
    · intro x _
      have hFlag : (loads true st).extra x ≤ 1 := (h.flags x).2
      omega
    · intro hc x _ hExtra
      have hZero : (loads true st).extra x = 0 := h.lone (by omega) x
      omega
  named := h.named false
  slaveFlags := h.slaveFlags
  spare := h.spare

include hNonzero hCopies in
/-- One call is a round on the counters of masters. -/
theorem MasterPhase.chooseNode (h : tb.MasterPhase source st) (rand : Nat → Nat)
    {nodeInfo : ServerId} (hInfo : tb.Available nodeInfo)
    (hPos : 0 < (loads true st).surplus nodeInfo)
    (hEnough : tb.copyCount ≤ tb.availableServer.entries.length)
    (hShare : 0 ≤ tb.tokensPerNodeMin true) (hBound : tb.tokensPerNodeMin true ≤ tb.masterBound) :
    tb.MasterPhase source (tb.chooseNode rand st nodeInfo true) ∧
      Round tb.servers (fun x => (tb.held false st.table x : Int)) (tb.copyCount - 1) nodeInfo
        (loads true st) (loads true (tb.chooseNode rand st nodeInfo true)) := by
  have hRound := h.shed.round rand hNonzero hCopies hInfo hPos (by
    intro hZero
    have hGives := h.spread.enough nodeInfo (mem_servers.mpr hInfo)
    omega)
  have hShed := h.shed.chooseNode rand hCopies hNonzero hInfo true
  have hSpread := h.spread.round hRound (mem_servers.mpr hInfo) hPos hShare hBound (by
    intro v hv
    rw [card_servers] at hv
    exact le_masterBound hEnough hCopies hv)
  -- moving a master leaves the sets of slaves
  have hMoved : ∀ {node b p}, tb.Moves st (tb.chooseNode rand st nodeInfo true) nodeInfo true node
      b p → tb.Named (tb.Alive source) false
        ((tb.chooseNode rand st nodeInfo true).bucketsSet false)
        (tb.chooseNode rand st nodeInfo true).table := by
    intro node b p hMoves
    obtain ⟨-, hSlot, -⟩ := h.shed.within true nodeInfo hInfo b p hMoves.named
    rw [hMoves.sets, Function.update_of_ne (by decide), hMoves.table]
    exact h.named.of_slot (by decide) hSlot b node
  refine ⟨?_, hRound⟩
  cases chooseNode_choice rand h.shed.listing hNonzero hInfo true with
  | give node b p hMoves _ _ hFlags hMax =>
    refine ⟨hShed, hSpread, hMoved hMoves, ?_, ?_⟩
    · rw [hFlags]
      exact h.slaveFlags
    · rw [hMax]
      exact h.spare
  | keep _ _ _ hTable hSets _ hFlags hMax =>
    refine ⟨hShed, hSpread, ?_, ?_, ?_⟩
    · rw [hSets, hTable]
      exact h.named
    · intro x
      rw [hFlags false x, if_neg (by simp), add_zero]
      exact h.slaveFlags x
    · rw [hMax, Function.update_of_ne (by decide)]
      exact h.spare
  | push node b p hMoves _ _ _ _ hFlags hMax =>
    refine ⟨hShed, hSpread, hMoved hMoves, ?_, ?_⟩
    · intro x
      rw [hFlags false x, if_neg (by simp), add_zero]
      exact h.slaveFlags x
    · rw [hMax, Function.update_of_ne (by decide)]
      exact h.spare
  | stay _ _ hSame =>
    obtain ⟨drawn, hSame⟩ := hSame
    rw [hSame] at hShed hSpread ⊢
    exact ⟨hShed, hSpread, h.named, h.slaveFlags, h.spare⟩

-- The slaves' loop

/-- While slaves are moved, the masters stay. -/
structure SlavePhase (tb : TableBuilder) (source : HashTable) (own : ServerId → Int)
    (st : Rebuild) : Prop where
  shed : tb.Shedding source st
  settling : Settling tb.servers (tb.tokensPerNodeMin false) own
    ((tb.initRebuild source).maxCount false) (loads false st)

include hNonzero hCopies in
theorem SlavePhase.chooseNode {own : ServerId → Int} (h : tb.SlavePhase source own st)
    (rand : Nat → Nat) (hOwn : ∀ x ∈ tb.servers, 0 ≤ own x ∧ own x ≤ tb.tokensPerNodeMin false + 1)
    {nodeInfo : ServerId} (hInfo : tb.Available nodeInfo)
    (hPos : 0 < (loads false st).surplus nodeInfo) :
    tb.SlavePhase source own (tb.chooseNode rand st nodeInfo false) ∧
      Round tb.servers (fun x => (tb.held false st.table x : Int)) (tb.copyCount - 1) nodeInfo
        (loads false st) (loads false (tb.chooseNode rand st nodeInfo false)) := by
  have hMember := mem_servers.mpr hInfo
  have hRound := h.shed.round rand hNonzero hCopies hInfo hPos
    (h.settling.not_stuck hMember hPos (hOwn nodeInfo hMember).2)
  refine ⟨⟨h.shed.chooseNode rand hCopies hNonzero hInfo false, ?_⟩, hRound⟩
  exact h.settling.round hRound hMember hPos
    (fun x hx => h.shed.tally false x (mem_servers.mp hx)) fun x hx => (hOwn x hx).1

section Start

variable (hServers : tb.availableServer.entries.length < 2 ^ 32)
  (hCells : tb.bucketCount * tb.copyCount < 2 ^ 31)
  (hEnough : tb.copyCount ≤ tb.availableServer.entries.length)
  (hDone : ∀ x, tb.Available x → (loads true st).surplus x ≤ 0)

include hDone

/-- After the masters' loop a server is master of what it may keep. -/
theorem MasterPhase.held_le (h : tb.MasterPhase source st) {x : ServerId}
    (hx : x ∈ tb.servers) :
    (tb.held true st.table x : Int) ≤ tb.tokensPerNodeMin true + (loads true st).extra x ∧
      tb.held true st.table x ≤ tb.masterBound + 1 := by
  have hTally := h.shed.tally true x (mem_servers.mp hx)
  have hNone := hDone x (mem_servers.mp hx)
  have hExtra := h.spread.extra_le x hx
  have hKept : (tb.held true st.table x : Int) ≤
      tb.tokensPerNodeMin true + (loads true st).extra x := by
    rw [hTally]
    show tb.tokensPerNodeMin true + (loads true st).surplus x + (loads true st).extra x ≤ _
    omega
  exact ⟨hKept, by omega⟩

include hCopies hServers hCells hEnough

/-- While some server is below its share of all copies, a server whose masters alone are
above it leaves few to the others. -/
theorem MasterPhase.few (h : tb.MasterPhase source st)
    (hNeedy : ∃ n ∈ tb.servers, (loads false st).surplus n < 0) {a : ServerId}
    (ha : a ∈ tb.servers) (hOwn : (tb.held true st.table a : Int) = tb.tokensPerNodeMin false + 1) :
    ∑ x ∈ tb.servers.erase a, (tb.held true st.table x : Int) <
      (tb.initRebuild source).maxCount false := by
  have hShare := tokensPerNodeMin_eq hCopies hServers hCells false
  rw [card_cells, if_neg (by decide)] at hShare
  obtain ⟨hKept, hLe⟩ := h.held_le hDone ha
  by_cases hOne : tb.copyCount = 1
  · -- every server could take every bucket, so all have their share
    exfalso
    obtain ⟨n, hn, hLow⟩ := hNeedy
    have hShareTrue := tokensPerNodeMin_eq hCopies hServers hCells true
    rw [card_cells, if_pos rfl] at hShareTrue
    rw [hOne, mul_one] at hShare
    have hServed := h.spread.served (by omega) a ha (by omega) n hn
    have hMasters := h.shed.tally true n (mem_servers.mp hn)
    have hAll := h.shed.tally false n (mem_servers.mp hn)
    have hExtra := h.spread.extra_nonneg n hn
    have hSame := held_eq_add (t := st.table) hCopies n
    have hFlag := h.slaveFlags n
    unfold loads at hServed hExtra hLow
    dsimp only at hServed hExtra hLow
    omega
  · rw [maxCount_initRebuild hCopies hServers hCells, card_cells, if_neg (by decide)]
    have hSum := sum_held_le tb true st.table
    rw [card_cells, if_pos rfl, ← Finset.add_sum_erase _ _ ha] at hSum
    rw [← Nat.cast_sum]
    refine Nat.cast_lt.mpr (others_lt_spare hEnough (by omega) ?_ ?_)
    · omega
    · omega

/-- The copies are balanced from what the balance of masters leaves. -/
theorem MasterPhase.slavePhase (h : tb.MasterPhase source st) (hDead : tb.DeadRowsEmpty source) :
    tb.SlavePhase source (fun x => (tb.held true st.table x : Int)) st := by
  have hSlack : ∀ x ∈ tb.servers, (loads false st).slack (tb.tokensPerNodeMin false)
      (fun x => (tb.held true st.table x : Int)) x = 0 := by
    intro x hx
    have hLength : (loads false st).movable x =
        (tally (tb.slots false) (fun c => st.table c.1 c.2) x : Nat) :=
      congrArg Nat.cast (h.named.length_eq
        (fun b p hp hCell => h.shed.sound.alive_iff hDead (hp.lt hCopies) hCell)
        (mem_servers.mp hx))
    have hTally := h.shed.tally false x (mem_servers.mp hx)
    have hAdd := held_eq_add (t := st.table) hCopies x
    have hFlag := h.slaveFlags x
    unfold Loads.slack
    rw [hLength]
    show _ - (tb.tokensPerNodeMin false + valueAt (st.migrateNodeInfo false) x -
      (tb.held true st.table x : Int)) = 0
    omega
  have hTight : ∀ x ∈ tb.servers, ¬ (loads false st).Loose (tb.tokensPerNodeMin false)
      (fun x => (tb.held true st.table x : Int)) x := by
    intro x hx hLoose
    unfold Loads.Loose at hLoose
    rw [hSlack x hx] at hLoose
    omega
  have hExtra : ∀ x, (loads false st).extra x = 0 := h.slaveFlags
  have hFew := fun hNeedy a (ha : a ∈ tb.servers) =>
    h.few hCopies hServers hCells hEnough hDone hNeedy ha
  refine ⟨h.shed, ⟨fun x hx => (hSlack x hx).ge, fun x _ => (hExtra x).ge, fun x _ _ => hExtra x,
    fun x hx _ => hTight x hx, fun _ x _ hNe => absurd (hExtra x) hNe, ?_, hFew, ?_, ?_⟩⟩
  · -- all copies are those that make up the shares, and those to spare
    have hTally : ∀ x ∈ tb.servers, (loads false st).surplus x =
        (tb.held false st.table x : Int) - tb.tokensPerNodeMin false := by
      intro x hx
      have hAll := h.shed.tally false x (mem_servers.mp hx)
      have hFlag := h.slaveFlags x
      show valueAt (st.migrateNodeInfo false) x = _
      omega
    have hSum := sum_held_le tb false st.table
    have hSplit := Nat.div_add_mod (tb.cells false).card tb.availableServer.entries.length
    show _ ≤ st.maxCount false
    rw [h.spare, maxCount_initRebuild hCopies hServers hCells, Finset.sum_congr rfl hTally,
      Finset.sum_sub_distrib, Finset.sum_const, card_servers, nsmul_eq_mul,
      tokensPerNodeMin_eq hCopies hServers hCells, ← Nat.cast_sum, ← Nat.cast_mul]
    omega
  · intro _ _
    have hNonneg : 0 ≤ ∑ x ∈ tb.servers, (loads false st).used (tb.tokensPerNodeMin false)
        (fun x => (tb.held true st.table x : Int)) x := by
      refine Finset.sum_nonneg fun x hx => ?_
      rw [Loads.used, if_neg (hTight x hx)]
    show (tb.initRebuild source).maxCount false - st.maxCount false ≤ _
    rw [h.spare, sub_self]
    exact hNonneg
  · intro hNeedy hSpare a ha hOwn
    have hLess := hFew hNeedy a ha hOwn
    have hNonneg : 0 ≤ ∑ x ∈ tb.servers.erase a, (tb.held true st.table x : Int) :=
      Finset.sum_nonneg fun x _ => Int.natCast_nonneg _
    have hLeft : (loads false st).spare = (tb.initRebuild source).maxCount false := h.spare
    omega

end Start

end Phases

-- The whole rebuild

section Whole

variable {tb : TableBuilder} {source : HashTable}

/-- Both balances come to an end. -/
theorem balance_both (rand : Nat → Nat) (hNonzero : ¬ tb.Available invalidFlag)
    (hCopies : 0 < tb.copyCount) (hEnough : tb.copyCount ≤ tb.availableServer.entries.length)
    (hServers : tb.availableServer.entries.length < 2 ^ 32)
    (hCells : tb.bucketCount * tb.copyCount < 2 ^ 31) (hDead : tb.DeadRowsEmpty source)
    {st : Rebuild} (h : tb.Counted source st)
    (hFilled : ∀ b, tb.Alive source b → tb.Filled st.table b) :
    ∃ n st₁ st₂, ∀ fuel, n ≤ fuel → tb.balance rand true fuel st = some st₁ ∧
      tb.balance rand false fuel st₁ = some st₂ := by
  have hSome : 0 < tb.availableServer.entries.length := by omega
  have hShareTrue := tokensPerNodeMin_eq hCopies hServers hCells true
  have hShareFalse := tokensPerNodeMin_eq hCopies hServers hCells false
  rw [card_cells, if_pos rfl] at hShareTrue
  rw [card_cells, if_neg (by decide)] at hShareFalse
  have hShare : 0 ≤ tb.tokensPerNodeMin true := by
    rw [hShareTrue]
    exact Int.natCast_nonneg _
  have hBound : tb.tokensPerNodeMin true ≤ tb.masterBound := by
    have hDiv : tb.bucketCount / tb.availableServer.entries.length ≤ tb.masterBound :=
      Nat.div_le_div_left (by omega) (by omega)
    omega
  -- first the masters; then nobody is master of too many buckets
  obtain ⟨n₁, st₁, hMasters, hPhase, hDone⟩ := balance_total (tb.MasterPhase source) hSome
    (fun _ hInv => hInv.shed.listing)
    (fun _ _ hInv hInfo hPos =>
      let ⟨hNext, hRound⟩ :=
        hInv.chooseNode hNonzero hCopies rand hInfo hPos hEnough hShare hBound
      ⟨hNext, _, _, hRound⟩)
    (h.masterPhase hCopies hFilled hDead hBound)
  have hOwn : ∀ x ∈ tb.servers, 0 ≤ (tb.held true st₁.table x : Int) ∧
      (tb.held true st₁.table x : Int) ≤ tb.tokensPerNodeMin false + 1 := by
    intro x hx
    have hLe := (hPhase.held_le hDone hx).2
    have hMost := masterBound_le hEnough hCopies
    omega
  obtain ⟨n₂, st₂, hSlaves, -, -⟩ := balance_total
    (tb.SlavePhase source fun x => (tb.held true st₁.table x : Int)) hSome
    (fun _ hInv => hInv.shed.listing)
    (fun _ _ hInv hInfo hPos =>
      let ⟨hNext, hRound⟩ := hInv.chooseNode hNonzero hCopies rand hOwn hInfo hPos
      ⟨hNext, _, _, hRound⟩)
    (hPhase.slavePhase hCopies hServers hCells hEnough hDone hDead)
  exact ⟨max n₁ n₂, st₁, st₂, fun fuel hFuel =>
    ⟨hMasters fuel (le_trans (le_max_left _ _) hFuel),
      hSlaves fuel (le_trans (le_max_right _ _) hFuel)⟩⟩

/-- The quick table of a rebuild is such a table: a bucket that has an available server gets
one as its master. -/
theorem deadRowsEmpty_quick (tb : TableBuilder) (hNonzero : ¬ tb.Available invalidFlag)
    (t : HashTable) : tb.DeadRowsEmpty (tb.buildQuickTable t) := by
  intro b hb hDead p hp hAvailable
  have hRow := buildQuickTable_row tb t hb
  have hSome : ∃ q < tb.copyCount, tb.isNodeAvailble (t.row b q) = true := by
    rcases hRow.within p hp with hZero | ⟨q, hq, hCell⟩
    · have hCell : tb.buildQuickTable t p b = invalidFlag := hZero
      rw [hCell] at hAvailable
      exact absurd hAvailable hNonzero
    · have hCell : tb.buildQuickTable t p b = t q b := hCell
      rw [hCell] at hAvailable
      exact ⟨q, hq, isNodeAvailble_iff.mpr ⟨fun hEq => hNonzero (hEq ▸ hAvailable), hAvailable⟩⟩
  exact hDead (isNodeAvailble_iff.mp (hRow.served hSome).1).2

/-- So is every table with one copy, which a rebuild takes as it is. -/
theorem deadRowsEmpty_one (hOne : tb.copyCount = 1) : tb.DeadRowsEmpty source := by
  intro b _ hDead p hp
  obtain rfl : p = 0 := by omega
  exact hDead

/-- For every bucket count and copy count whose product is below `2 ^ 31`, every set of at
least as many servers as copies, every source table whose rows have no server twice, whose
rows with an available master have available servers or none as slaves, and whose other
rows have no available server, and every sequence of random numbers: from some number of
rounds on, more are not needed. -/
theorem rebuildTableNew_returns (tb : TableBuilder) (rand : Nat → Nat) (source : HashTable)
    (hCopies : 1 ≤ tb.copyCount) (hEnough : tb.copyCount ≤ tb.availableServer.entries.length)
    (hServers : tb.availableServer.entries.length < 2 ^ 32)
    (hCells : tb.bucketCount * tb.copyCount < 2 ^ 31) (hNonzero : ¬ tb.Available invalidFlag)
    (hSource : tb.SourceOk source) (hDead : tb.DeadRowsEmpty source) :
    ∃ n result, ∀ fuel, n ≤ fuel → tb.rebuildTableNew rand fuel source = some result := by
  unfold rebuildTableNew
  by_cases hNeed : tb.checkRebuildNeed source = true
  · have hFew : ¬ tb.availableServer.entries.length < tb.copyCount := by omega
    simp only [hNeed, not_true_eq_false, if_false, hFew]
    cases hFill : run (tb.fillBucket rand) (tb.initRebuild source)
        (List.range' 0 tb.bucketCount) with
    | none => exact ⟨0, _, fun _ _ => rfl⟩
    | some st =>
      dsimp only
      by_cases hFirst : st.table 0 0 = invalidFlag
      · -- no loop is entered
        simp only [if_pos hFirst]
        split
        · cases hBuild : tb.buildFirstTime rand st with
          | none => exact ⟨0, _, fun _ _ => rfl⟩
          | some st' => exact ⟨0, _, fun _ _ => rfl⟩
        · exact ⟨0, _, fun _ _ => rfl⟩
      · simp only [if_neg hFirst]
        have hCounted := fill_counted hNonzero hCopies hSource hFill
        have hFilled :=
          (fill_rows hNonzero hSource (initRebuild_sound hCopies hSource) rfl hFill).2
        obtain ⟨n, st₁, st₂, hBalance⟩ := balance_both rand hNonzero hCopies hEnough hServers hCells
          hDead hCounted hFilled
        refine ⟨n,
          if tb.overloaded st₂.table true > 8 ∨ tb.overloaded st₂.table false > 8 then .error
          else .ok st₂.table, fun fuel hFuel => ?_⟩
        obtain ⟨hMasters, hSlaves⟩ := hBalance fuel hFuel
        rw [hMasters, Option.bind_some, hSlaves, Option.map_some]
  · exact ⟨0, _, fun _ _ => if_pos hNeed⟩

/-- A third server joins two. -/
theorem rebuildTableNew_returns_joined :
    ∃ n result, ∀ fuel, n ≤ fuel →
      rebuildTableNew ⟨4, 2, setAvailableServer [1, 2, 3]⟩ (fun _ => 0) fuel
        (fun copy _ => copy + 1) = some result :=
  rebuildTableNew_returns ⟨4, 2, setAvailableServer [1, 2, 3]⟩ (fun _ => 0) (fun copy _ => copy + 1)
    (by decide) (by decide) (by decide) (by decide) (by decide) ⟨by decide, by decide⟩
    (by unfold DeadRowsEmpty; decide)

/-- Three buckets of two copies, and three servers. -/
def threeServers : TableBuilder := ⟨3, 2, setAvailableServer [1, 2, 3]⟩

/-- Every bucket has lost its master, server 9, and has server 1 as its slave. -/
def lostMasters : HashTable := fun copy _ => if copy = 0 then 9 else 1

/-- Server 1 has one copy more than its share of two, there are none to spare, and its bucket
set is empty. -/
theorem balance_lostMasters (rand : Nat → Nat) (fuel drawn : Nat) :
    threeServers.balance rand false fuel
      { threeServers.initRebuild lostMasters with drawn := drawn } = none := by
  induction fuel generalizing drawn with
  | zero => rfl
  | succ fuel ih =>
    have hLast : (sortMapByValue ((threeServers.initRebuild lostMasters).migrateNodeInfo
        false)).getLast? = some (1, 1) := by decide
    have hListing : threeServers.Listing
        { threeServers.initRebuild lostMasters with drawn := drawn } :=
      ⟨(initRebuild_listing lostMasters).flags, (initRebuild_listing lostMasters).migrates⟩
    have hServer : threeServers.Available 1 := by decide
    have hSpare : ¬ 0 < (threeServers.initRebuild lostMasters).maxCount false := by decide
    have hEmpty : ∀ {b p : Nat}, (bucketsOf ((threeServers.initRebuild lostMasters).bucketsSet
        false) 1).find? b = some p → False := by
      intro b p hFind
      have hNone : bucketsOf ((threeServers.initRebuild lostMasters).bucketsSet false) 1 = ∅ := by
        decide
      rw [hNone, OrdMap.find?_empty] at hFind
      cases hFind
    rw [balance, hLast]
    dsimp only
    rw [if_pos (by decide)]
    cases chooseNode_choice rand hListing (by decide) hServer false with
    | give _ _ _ hMoves => exact (hEmpty hMoves.named).elim
    | push _ _ _ hMoves => exact (hEmpty hMoves.named).elim
    | keep _ _ hLeft => exact absurd hLeft hSpare
    | stay _ _ hSame =>
      obtain ⟨drawn', hSame⟩ := hSame
      rw [hSame]
      exact ih drawn'

/-- The slaves' loop does not end, whatever the random numbers. -/
theorem rebuildTableNew_stuck :
    threeServers.SourceOk lostMasters ∧
      threeServers.copyCount ≤ threeServers.availableServer.entries.length ∧
      ∀ (rand : Nat → Nat) (fuel : Nat),
        threeServers.rebuildTableNew rand fuel lostMasters = none := by
  refine ⟨⟨by decide, by decide⟩, by decide, ?_⟩
  intro rand fuel
  have hFill : run (threeServers.fillBucket rand) (threeServers.initRebuild lostMasters)
      (List.range' 0 threeServers.bucketCount) = some (threeServers.initRebuild lostMasters) := rfl
  unfold rebuildTableNew
  rw [if_neg (by decide), if_neg (by decide), hFill]
  dsimp only
  rw [if_neg (by decide)]
  cases fuel with
  | zero => rfl
  | succ fuel =>
    have hMasters : threeServers.balance rand true (fuel + 1)
        (threeServers.initRebuild lostMasters) = some (threeServers.initRebuild lostMasters) := rfl
    rw [hMasters, Option.bind_some]
    exact congrArg _ (balance_lostMasters rand (fuel + 1) 0)

end Whole

end TableBuilder

end MyBase
