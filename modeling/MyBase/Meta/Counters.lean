import MyBase.Lib.Tally
import MyBase.Meta.Rebuild

/-!
# MyBase — which server a search takes

The searches of `rebuildTableNew` go through the servers in sets of equal value, the
smallest value first, and try every server of a set before the next set. So whatever
the random numbers are, the server that is taken has the smallest value among those
that will do, and a search fails only when no server will do.

* `Tally` — the counters tell how many cells of the table a server has.
-/

namespace MyBase

open Lib List

-- Counters

variable {m : OrdMap ServerId Int} {node : ServerId}

theorem valueAt_of_mem {v : Int} (h : (node, v) ∈ m.entries) : valueAt m node = v := by
  rw [valueAt, OrdMap.find?_of_mem h]
  rfl

theorem mem_entries_valueAt (h : node ∈ m.keys) : (node, valueAt m node) ∈ m.entries := by
  obtain ⟨e, he, rfl⟩ := mem_map.mp h
  rw [valueAt_of_mem he]
  exact he

theorem valueAt_modify (h : node ∈ m.keys) (f : Int → Int) (x : ServerId) :
    valueAt (m.modify node f) x = if x = node then f (valueAt m node) else valueAt m x := by
  have hFind : m.find? node = some (valueAt m node) := OrdMap.find?_of_mem (mem_entries_valueAt h)
  rw [valueAt, OrdMap.find?_modify]
  split
  · rw [hFind]
    rfl
  · rfl

theorem valueAt_incrNodeCount (h : node ∈ m.keys) (hNode : node ≠ invalidFlag) (x : ServerId) :
    valueAt (incrNodeCount node m) x = valueAt m x + if x = node then 1 else 0 := by
  rw [incrNodeCount, if_neg hNode, valueAt_modify h]
  by_cases hx : x = node
  · rw [if_pos hx, if_pos hx, hx]
  · rw [if_neg hx, if_neg hx, add_zero]

theorem valueAt_decrNodeCount (h : node ∈ m.keys) (hNode : node ≠ invalidFlag) (x : ServerId) :
    valueAt (decrNodeCount node m) x = valueAt m x - if x = node then 1 else 0 := by
  rw [decrNodeCount, if_neg hNode, valueAt_modify h]
  by_cases hx : x = node
  · rw [if_pos hx, if_pos hx, hx]
  · rw [if_neg hx, if_neg hx, sub_zero]

-- Servers by value

section Search

variable {β : Type} {rand : Nat → Nat} {attempt : ServerId → Option β} {drawn drawn' : Nat}
  {move : β}

variable {e : Int × ServerId} {sorted : List (Int × ServerId)}

/-- The server taken has the smallest value among those that will do. -/
theorem serversByValue_some (hSorted : sorted.Pairwise fun a b => a.1 ≤ b.1)
    (h : drawGroups rand invalidFlag attempt (serversByValue sorted) drawn =
      (some move, drawn')) :
    ∃ e ∈ sorted, attempt e.2 = some move ∧ ∀ x ∈ sorted, x.1 < e.1 → attempt x.2 = none := by
  obtain ⟨before, group, after, hGroups, ⟨node, hNode, hAttempt⟩, hBefore⟩ := drawGroups_first h
  obtain ⟨before', rest, hRanges, rfl, hRest⟩ := map_eq_append_iff.mp hGroups
  obtain ⟨range, after', rfl, rfl, rfl⟩ := map_eq_cons_iff.mp hRest
  obtain ⟨e, he, rfl⟩ := mem_map.mp hNode
  have hRange : range ∈ equalRanges Prod.fst sorted := by
    rw [hRanges]
    exact mem_append_right _ mem_cons_self
  refine ⟨e, mem_equalRanges hRange he, hAttempt, ?_⟩
  intro x hx hLess
  by_contra hSome
  -- otherwise `x` is not in an earlier set, so its value is not smaller
  have hNotBefore : ∀ r ∈ before', x ∉ r := by
    intro r hr hxr
    exact hSome (hBefore _ (mem_map_of_mem hr) _ (mem_map_of_mem hxr))
  exact absurd (equalRanges_least hSorted hRanges he hx hNotBefore) (not_le.mpr hLess)

theorem serversByValue_none
    (h : drawGroups rand invalidFlag attempt (serversByValue sorted) drawn = (none, drawn')) :
    ∀ e ∈ sorted, attempt e.2 = none := by
  intro e he
  rw [← flatten_equalRanges Prod.fst sorted] at he
  obtain ⟨range, hRange, he⟩ := mem_flatten.mp he
  exact drawGroups_none h _ (mem_map_of_mem hRange) _ (mem_map_of_mem he)

theorem pairwise_sortByValue (l : List (Int × ServerId)) :
    (l.insertionSort fun a b => a.1 ≤ b.1).Pairwise fun a b => a.1 ≤ b.1 := by
  have : IsTrans (Int × ServerId) fun a b => a.1 ≤ b.1 := ⟨fun _ _ _ h h' => le_trans h h'⟩
  have : Std.Total fun a b : Int × ServerId => a.1 ≤ b.1 := ⟨fun a b => le_total a.1 b.1⟩
  exact pairwise_insertionSort _ l

theorem mem_sortMapByValue {m : OrdMap ServerId Int} :
    e ∈ sortMapByValue m ↔ e.2 ∈ m.keys ∧ e.1 = valueAt m e.2 := by
  rw [sortMapByValue, mem_insertionSort, mem_map]
  constructor
  · rintro ⟨⟨node, v⟩, hMem, rfl⟩
    exact ⟨mem_map_of_mem hMem, (valueAt_of_mem hMem).symm⟩
  · rintro ⟨hKey, hValue⟩
    refine ⟨(e.2, e.1), ?_, rfl⟩
    rw [hValue]
    exact mem_entries_valueAt hKey

/-- The entries below 0 are those before the first entry that is not. -/
theorem mem_takeWhile_neg {l : List (Int × ServerId)} (hSorted : l.Pairwise fun a b => a.1 ≤ b.1) :
    e ∈ (l.takeWhile fun x => x.1 < 0) ↔ e ∈ l ∧ e.1 < 0 := by
  induction l with
  | nil => simp
  | cons x l ih =>
    obtain ⟨hHead, hTail⟩ := pairwise_cons.mp hSorted
    by_cases hx : x.1 < 0
    · rw [takeWhile_cons_of_pos (by simpa using hx), mem_cons, ih hTail, mem_cons]
      constructor
      · rintro (rfl | ⟨he, hNeg⟩)
        · exact ⟨Or.inl rfl, hx⟩
        · exact ⟨Or.inr he, hNeg⟩
      · rintro ⟨rfl | he, hNeg⟩
        · exact Or.inl rfl
        · exact Or.inr ⟨he, hNeg⟩
    · rw [takeWhile_cons_of_neg (by simpa using hx)]
      constructor
      · intro he
        cases he
      · rintro ⟨he, hNeg⟩
        rcases mem_cons.mp he with rfl | he
        · exact absurd hNeg hx
        · exact absurd (lt_of_le_of_lt (hHead e he) hNeg) hx

variable {st : Rebuild} {masterFlag : Bool}

/-- The server a search takes: no needier one would do. -/
theorem needyServers_some
    (h : drawGroups rand invalidFlag attempt (st.needyServers masterFlag) drawn =
      (some move, drawn')) :
    ∃ node ∈ (st.migrateNodeInfo masterFlag).keys,
      valueAt (st.migrateNodeInfo masterFlag) node < 0 ∧ attempt node = some move ∧
      ∀ x ∈ (st.migrateNodeInfo masterFlag).keys,
        valueAt (st.migrateNodeInfo masterFlag) x < valueAt (st.migrateNodeInfo masterFlag) node →
        attempt x = none := by
  have hSorted := pairwise_sortByValue ((st.migrateNodeInfo masterFlag).entries.map Prod.swap)
  obtain ⟨e, he, hAttempt, hLess⟩ :=
    serversByValue_some (hSorted.sublist (takeWhile_sublist _)) h
  obtain ⟨hMem, hNeg⟩ := (mem_takeWhile_neg hSorted).mp he
  obtain ⟨hKey, hValue⟩ := mem_sortMapByValue.mp hMem
  refine ⟨e.2, hKey, hValue ▸ hNeg, hAttempt, ?_⟩
  intro x hx hxLess
  rw [← hValue] at hxLess
  refine hLess (valueAt (st.migrateNodeInfo masterFlag) x, x) ?_ hxLess
  exact (mem_takeWhile_neg hSorted).mpr
    ⟨mem_sortMapByValue.mpr ⟨hx, rfl⟩, lt_trans hxLess hNeg⟩

/-- A search that fails has tried every needy server. -/
theorem needyServers_none
    (h : drawGroups rand invalidFlag attempt (st.needyServers masterFlag) drawn = (none, drawn')) :
    ∀ x ∈ (st.migrateNodeInfo masterFlag).keys, valueAt (st.migrateNodeInfo masterFlag) x < 0 →
      attempt x = none := by
  have hSorted := pairwise_sortByValue ((st.migrateNodeInfo masterFlag).entries.map Prod.swap)
  intro x hx hNeg
  refine serversByValue_none h (valueAt (st.migrateNodeInfo masterFlag) x, x) ?_
  exact (mem_takeWhile_neg hSorted).mpr ⟨mem_sortMapByValue.mpr ⟨hx, rfl⟩, hNeg⟩

theorem mem_flagged :
    e ∈ (((st.nodeFlag masterFlag).entries.map fun e =>
        (e.2 + valueAt (st.migrateNodeInfo masterFlag) e.1, e.1)).insertionSort
        fun a b => a.1 ≤ b.1) ↔
      e.2 ∈ (st.nodeFlag masterFlag).keys ∧
        e.1 = valueAt (st.nodeFlag masterFlag) e.2 +
          valueAt (st.migrateNodeInfo masterFlag) e.2 := by
  rw [mem_insertionSort, mem_map]
  constructor
  · rintro ⟨⟨node, v⟩, hMem, rfl⟩
    exact ⟨mem_map_of_mem hMem, by rw [valueAt_of_mem hMem]⟩
  · rintro ⟨hKey, hValue⟩
    refine ⟨(e.2, valueAt (st.nodeFlag masterFlag) e.2), mem_entries_valueAt hKey, ?_⟩
    rw [← hValue]

theorem flaggedServers_some
    (h : drawGroups rand invalidFlag attempt (st.flaggedServers masterFlag) drawn =
      (some move, drawn')) :
    ∃ node ∈ (st.nodeFlag masterFlag).keys, attempt node = some move ∧
      ∀ x ∈ (st.nodeFlag masterFlag).keys,
        valueAt (st.nodeFlag masterFlag) x + valueAt (st.migrateNodeInfo masterFlag) x <
          valueAt (st.nodeFlag masterFlag) node + valueAt (st.migrateNodeInfo masterFlag) node →
        attempt x = none := by
  obtain ⟨e, he, hAttempt, hLess⟩ := serversByValue_some (pairwise_sortByValue _) h
  obtain ⟨hKey, hValue⟩ := mem_flagged.mp he
  refine ⟨e.2, hKey, hAttempt, ?_⟩
  intro x hx hxLess
  rw [← hValue] at hxLess
  exact hLess (_, x) (mem_flagged.mpr ⟨hx, rfl⟩) hxLess

theorem flaggedServers_none
    (h : drawGroups rand invalidFlag attempt (st.flaggedServers masterFlag) drawn =
      (none, drawn')) :
    ∀ x ∈ (st.nodeFlag masterFlag).keys, attempt x = none := by
  intro x hx
  exact serversByValue_none h
    (valueAt (st.nodeFlag masterFlag) x + valueAt (st.migrateNodeInfo masterFlag) x, x)
    (mem_flagged.mpr ⟨hx, rfl⟩)

end Search

-- Filling an empty slot

namespace TableBuilder

/-- The counters list the available servers, all of them. -/
structure Listing (tb : TableBuilder) (st : Rebuild) : Prop where
  flags : ∀ f x, x ∈ (st.nodeFlag f).keys ↔ tb.Available x
  migrates : ∀ f x, x ∈ (st.migrateNodeInfo f).keys ↔ tb.Available x

section Slots

variable {tb : TableBuilder} {rand : Nat → Nat} {st st' : Rebuild} {bucket position : Nat}
  {masterFlag : Bool}

theorem Listing.of_sameKeys (h : tb.Listing st) (hKeys : SameKeys st st') : tb.Listing st' where
  flags := by
    intro f x
    rw [(hKeys f).1]
    exact h.flags f x
  migrates := by
    intro f x
    rw [(hKeys f).2]
    exact h.migrates f x

variable {node x : ServerId}

theorem Listing.valueAt_incrFlag (h : tb.Listing st) (hNonzero : ¬ tb.Available invalidFlag)
    (hNode : tb.Available node) (f : Bool) (x : ServerId) :
    valueAt (incrNodeCount node (st.nodeFlag f)) x =
      valueAt (st.nodeFlag f) x + if x = node then 1 else 0 :=
  valueAt_incrNodeCount ((h.flags f node).mpr hNode) (hNode.ne_invalid hNonzero) x

theorem Listing.valueAt_decrMigrate (h : tb.Listing st) (hNonzero : ¬ tb.Available invalidFlag)
    (hNode : tb.Available node) (f : Bool) (x : ServerId) :
    valueAt (decrNodeCount node (st.migrateNodeInfo f)) x =
      valueAt (st.migrateNodeInfo f) x - if x = node then 1 else 0 :=
  valueAt_decrNodeCount ((h.migrates f node).mpr hNode) (hNode.ne_invalid hNonzero) x

theorem mem_keys_foldl_entries {V W : Type} (l : List (ServerId × V)) (val : ServerId × V → W)
    (x : ServerId) :
    x ∈ (l.foldl (fun m e => m.emplace e.1 (val e)) (∅ : OrdMap ServerId W)).keys ↔
      x ∈ l.map Prod.fst := by
  rw [OrdMap.mem_keys_foldl (fun e k => k = e.1)]
  · simp only [OrdMap.keys, OrdMap.entries_empty, map_nil, not_mem_nil, false_or,
      mem_map, eq_comm]
  · intro m e k
    rw [← OrdMap.find?_isSome_iff, OrdMap.find?_emplace, ← OrdMap.find?_isSome_iff]
    by_cases hk : k = e.1 <;> simp [hk]

theorem initTokenCount_keys : x ∈ tb.initTokenCount.keys ↔ tb.Available x :=
  mem_keys_foldl_entries _ _ x

theorem keys_tokensCountInNode (t : HashTable) (masterFlag : Bool) :
    x ∈ (tb.tokensCountInNode t masterFlag).keys ↔ tb.Available x := by
  rw [tokensCountInNode, keys_updateNodeCounts]
  exact initTokenCount_keys

theorem initRebuild_listing (source : HashTable) : tb.Listing (tb.initRebuild source) where
  flags := fun _ _ => initTokenCount_keys
  migrates := by
    intro f x
    rw [← keys_tokensCountInNode source f]
    exact mem_keys_foldl_entries _ _ x

/-- **What `chooseNodeInvalid` takes.** A server below its share that has the smallest
counter among those that will do; or, when no server below its share will do, one with
the smallest sum of counter and flag. -/
theorem chooseNodeInvalid_found
    (h : tb.chooseNodeInvalid rand st bucket position masterFlag = some st') :
    ∃ (node : ServerId) (drawn : Nat),
      st' = placeInvalid { st with drawn := drawn } bucket position masterFlag node ∧
      tb.checkNodeOk node bucket position st.table = true ∧
      ((node ∈ (st.migrateNodeInfo masterFlag).keys ∧
          valueAt (st.migrateNodeInfo masterFlag) node < 0 ∧
          ∀ x ∈ (st.migrateNodeInfo masterFlag).keys,
            tb.checkNodeOk x bucket position st.table = true →
            valueAt (st.migrateNodeInfo masterFlag) node ≤
              valueAt (st.migrateNodeInfo masterFlag) x) ∨
        (node ∈ (st.nodeFlag masterFlag).keys ∧
          ∀ x ∈ (st.nodeFlag masterFlag).keys,
            tb.checkNodeOk x bucket position st.table = true →
            valueAt (st.nodeFlag masterFlag) node + valueAt (st.migrateNodeInfo masterFlag) node ≤
              valueAt (st.nodeFlag masterFlag) x +
                valueAt (st.migrateNodeInfo masterFlag) x)) := by
  have hTried : ∀ x, (if tb.checkNodeOk x bucket position st.table then some x else none) = none →
      tb.checkNodeOk x bucket position st.table = true → False := by
    intro x hNone hOk
    rw [if_pos hOk] at hNone
    cases hNone
  unfold chooseNodeInvalid at h
  dsimp only at h
  split at h
  · rename_i node drawn hDraw
    cases h
    obtain ⟨y, hKey, hNeg, hAttempt, hLess⟩ := needyServers_some hDraw
    obtain ⟨hOk, ⟨⟩⟩ := Option.ite_none_right_eq_some.mp hAttempt
    refine ⟨node, drawn, rfl, hOk, Or.inl ⟨hKey, hNeg, ?_⟩⟩
    intro x hx hxOk
    exact not_lt.mp fun hxLess => hTried x (hLess x hx hxLess) hxOk
  · -- nobody below its share will do: the second search
    split at h
    · rename_i node drawn hDraw
      cases h
      obtain ⟨y, hKey, hAttempt, hLess⟩ := flaggedServers_some hDraw
      obtain ⟨hOk, ⟨⟩⟩ := Option.ite_none_right_eq_some.mp hAttempt
      refine ⟨node, drawn, rfl, hOk, Or.inr ⟨hKey, ?_⟩⟩
      intro x hx hxOk
      exact not_lt.mp fun hxLess => hTried x (hLess x hx hxLess) hxOk
    · cases h

/-- The available servers. -/
def servers (tb : TableBuilder) : Finset ServerId := tb.availableServer.keys.toFinset

@[simp] theorem mem_servers : node ∈ tb.servers ↔ tb.Available node :=
  mem_toFinset

theorem card_servers (tb : TableBuilder) :
    tb.servers.card = tb.availableServer.entries.length := by
  rw [servers, toFinset_card_of_nodup (OrdMap.keys_nodup _), OrdMap.keys, length_map]

/-- The servers that have another copy of the bucket. -/
def others (tb : TableBuilder) (t : HashTable) (bucket position : Nat) : Finset ServerId :=
  ((Finset.range tb.copyCount).erase position).image fun i => t i bucket

theorem not_checkNodeOk_iff {t : HashTable} :
    tb.checkNodeOk node bucket position t ≠ true ↔ node ∈ tb.others t bucket position := by
  simp only [ne_eq, checkNodeOk_iff, others, Finset.mem_image, Finset.mem_erase, Finset.mem_range,
    not_forall, not_not, exists_prop]
  exact ⟨fun ⟨i, hi, hNe, h⟩ => ⟨i, ⟨hNe, hi⟩, h⟩, fun ⟨i, ⟨hNe, hi⟩, h⟩ => ⟨i, hi, hNe, h⟩⟩

/-- Fewer servers than copies have another copy of the bucket. -/
theorem card_others_lt (t : HashTable) (bucket : Nat) (hPosition : position < tb.copyCount) :
    (tb.others t bucket position).card < tb.copyCount := by
  have hErase : ((Finset.range tb.copyCount).erase position).card = tb.copyCount - 1 := by
    rw [Finset.card_erase_of_mem (Finset.mem_range.mpr hPosition), Finset.card_range]
  have hImage : (tb.others t bucket position).card ≤ _ := Finset.card_image_le
  omega

/-- With as many servers as copies there is one for every slot. -/
theorem exists_checkNodeOk (t : HashTable) (bucket : Nat)
    (hSome : 0 < tb.availableServer.entries.length)
    (hCount : tb.copyCount ≤ tb.availableServer.entries.length)
    (hPosition : position < tb.copyCount ∨ tb.copyCount = 0) :
    ∃ node, tb.Available node ∧ tb.checkNodeOk node bucket position t = true := by
  by_contra hNone
  push Not at hNone
  have hSub : tb.servers ⊆ tb.others t bucket position := by
    intro node hNode
    exact not_checkNodeOk_iff.mp (hNone node (mem_servers.mp hNode))
  have hCard := Finset.card_le_card hSub
  rw [card_servers] at hCard
  rcases hPosition with hPosition | hZero
  · have hOthers := card_others_lt t bucket hPosition
    omega
  · have hEmpty : tb.others t bucket position = ∅ := by simp [others, hZero]
    rw [hEmpty, Finset.card_empty] at hCard
    omega

/-- There is a server for every empty slot, when there are as many servers as copies. -/
theorem chooseNodeInvalid_isSome (rand : Nat → Nat) (bucket : Nat) (masterFlag : Bool)
    (hListing : tb.Listing st) (hSome : 0 < tb.availableServer.entries.length)
    (hCount : tb.copyCount ≤ tb.availableServer.entries.length)
    (hPosition : position < tb.copyCount ∨ tb.copyCount = 0) :
    (tb.chooseNodeInvalid rand st bucket position masterFlag).isSome = true := by
  obtain ⟨node, hNode, hOk⟩ :=
    exists_checkNodeOk st.table bucket hSome hCount hPosition
  unfold chooseNodeInvalid
  dsimp only
  split
  · rfl
  · split
    · rfl
    · -- the second search would have tried the server
      rename_i drawn _ _ hDraw
      have hTried := flaggedServers_none hDraw node ((hListing.flags masterFlag node).mpr hNode)
      rw [if_pos hOk] at hTried
      cases hTried

end Slots

-- What the counters count

/-- The cells of the masters, or of all copies. -/
def cells (tb : TableBuilder) (masterFlag : Bool) : Finset (Nat × Nat) :=
  (if masterFlag then {0} else Finset.range tb.copyCount) ×ˢ Finset.range tb.bucketCount

/-- How many buckets a server is master of, or has a copy of. -/
def held (tb : TableBuilder) (masterFlag : Bool) (t : HashTable) (node : ServerId) : Nat :=
  tally (tb.cells masterFlag) (fun c => t c.1 c.2) node

theorem mem_cells_true {tb : TableBuilder} {c : Nat × Nat} :
    c ∈ tb.cells true ↔ c.1 = 0 ∧ c.2 < tb.bucketCount := by
  rw [cells, if_pos rfl, Finset.mem_product, Finset.mem_singleton, Finset.mem_range]

theorem mem_cells_false {tb : TableBuilder} {c : Nat × Nat} :
    c ∈ tb.cells false ↔ c.1 < tb.copyCount ∧ c.2 < tb.bucketCount := by
  rw [cells, if_neg (by decide), Finset.mem_product, Finset.mem_range, Finset.mem_range]

section Tally

variable {tb : TableBuilder} {rand : Nat → Nat} {st st' : Rebuild} {t : HashTable}
  {bucket position : Nat} {masterFlag : Bool}

theorem set_apply (t : HashTable) (position bucket : Nat) (node : ServerId) :
    (fun c : Nat × Nat => t.set position bucket node c.1 c.2) =
      Function.update (fun c : Nat × Nat => t c.1 c.2) (position, bucket) node := by
  funext c
  by_cases hc : c = (position, bucket)
  · subst hc
    rw [Function.update_self, set_self]
  · rw [Function.update_of_ne hc]
    by_cases hp : c.1 = position
    · refine set_of_bucket_ne t ?_ _ _ _
      intro hb
      exact hc (Prod.ext hp hb)
    · exact set_of_position_ne t hp _ _ _

theorem held_set (h : (position, bucket) ∈ tb.cells masterFlag) (node x : ServerId) :
    tb.held masterFlag (t.set position bucket node) x +
        (if t position bucket = x then 1 else 0) =
      tb.held masterFlag t x + if node = x then 1 else 0 := by
  unfold held
  rw [set_apply]
  exact tally_update h node x

theorem held_set_of_notMem (h : (position, bucket) ∉ tb.cells masterFlag) (node x : ServerId) :
    tb.held masterFlag (t.set position bucket node) x = tb.held masterFlag t x := by
  unfold held
  rw [set_apply]
  exact tally_update_of_notMem h node x

variable {x node : ServerId}

theorem held_fill (h : (position, bucket) ∈ tb.cells masterFlag)
    (hEmpty : t position bucket = invalidFlag) (node : ServerId) (hx : x ≠ invalidFlag) :
    tb.held masterFlag (t.set position bucket node) x =
      tb.held masterFlag t x + if node = x then 1 else 0 := by
  have hSet := held_set (t := t) h node x
  rwa [hEmpty, if_neg hx.symm, add_zero] at hSet

theorem held_empty (hEmpty : ∀ c ∈ tb.cells masterFlag, t c.1 c.2 = invalidFlag)
    (hx : x ≠ invalidFlag) : tb.held masterFlag t x = 0 := by
  refine tally_eq_zero ?_
  intro c hc hEq
  exact hx (hEq.symm.trans (hEmpty c hc))

/-- Counter and flag of a server make up the difference between what it has and its
share. -/
def Tally (tb : TableBuilder) (masterFlag : Bool) (st : Rebuild) : Prop :=
  ∀ x, tb.Available x →
    (tb.held masterFlag st.table x : Int) =
      tb.tokensPerNodeMin masterFlag + valueAt (st.migrateNodeInfo masterFlag) x +
        valueAt (st.nodeFlag masterFlag) x

theorem valueAt_initTokenCount (x : ServerId) : valueAt tb.initTokenCount x = 0 := by
  unfold initTokenCount
  refine List.foldlRecOn (motive := fun m : OrdMap ServerId Int => valueAt m x = 0) _ _ rfl ?_
  intro m hm e _
  rw [valueAt, OrdMap.find?_emplace]
  split
  · rename_i hx
    rw [← hx]
    exact hm
  · exact hm

theorem valueAt_initCandidateNew {counts : OrdMap ServerId Int} (nodeMinCount : Int)
    (hx : x ∈ counts.keys) :
    valueAt (initCandidateNew nodeMinCount counts) x = valueAt counts x - nodeMinCount := by
  have hEntry := OrdMap.find?_foldl_emplace (fun e => e.2 - nodeMinCount) (m := ∅)
    counts.keys_nodup (fun _ _ => rfl) (mem_entries_valueAt hx)
  rw [valueAt, initCandidateNew, hEntry]
  rfl

/-- A counter grows by the number of times its server is listed. -/
theorem valueAt_updateNodeCounts (nodes : List ServerId) {m : OrdMap ServerId Int}
    (hx : x ∈ m.keys) :
    valueAt (updateNodeCounts nodes m) x = valueAt m x + (nodes.count x : Int) := by
  unfold updateNodeCounts
  induction nodes generalizing m with
  | nil => simp
  | cons node nodes ih =>
    have hNode : valueAt (m.modify node (· + 1)) x =
        valueAt m x + if node = x then 1 else 0 := by
      by_cases hEq : node = x
      · subst hEq
        rw [valueAt_modify hx, if_pos rfl, if_pos rfl]
      · rw [valueAt, OrdMap.find?_modify, if_neg (Ne.symm hEq), if_neg hEq, add_zero]
        rfl
    rw [foldl_cons, ih (by rwa [OrdMap.keys_modify]), hNode, count_cons]
    by_cases hEq : node = x
    · subst hEq
      simp
      omega
    · simp [hEq]

theorem valueAt_tokensCountInNode (hCopies : 0 < tb.copyCount) (hx : tb.Available x) :
    valueAt (tb.tokensCountInNode t masterFlag) x = (tb.held masterFlag t x : Int) := by
  have hZero : valueAt tb.initTokenCount x = 0 := valueAt_initTokenCount x
  rw [tokensCountInNode, valueAt_updateNodeCounts _ (initTokenCount_keys.mpr hx), hZero, zero_add]
  congr 1
  cases masterFlag with
  | true =>
    rw [if_pos rfl, if_neg (by omega), line, ← tally_range, held, cells, if_pos rfl,
      tally_eq_sum, tally_eq_sum, Finset.sum_product, Finset.sum_singleton]
  | false =>
    rw [if_neg (by decide), held, cells, if_neg (by decide), tally_product_range]
    rfl

theorem initRebuild_tally (hCopies : 0 < tb.copyCount) (source : HashTable) (masterFlag : Bool) :
    tb.Tally masterFlag (tb.initRebuild source) := by
  intro x hx
  have hMigrate : valueAt ((tb.initRebuild source).migrateNodeInfo masterFlag) x =
      valueAt (tb.tokensCountInNode source masterFlag) x - tb.tokensPerNodeMin masterFlag :=
    valueAt_initCandidateNew _ ((keys_tokensCountInNode _ _).mpr hx)
  have hFlag : valueAt ((tb.initRebuild source).nodeFlag masterFlag) x = 0 :=
    valueAt_initTokenCount x
  rw [hMigrate, hFlag, valueAt_tokensCountInNode hCopies hx]
  show (tb.held masterFlag source x : Int) = _
  omega

/-- What one successful `chooseNodeInvalid` does: the cell gets the server `node`, whose
counters grow by one, and nothing else changes in the counters. -/
structure Takes (tb : TableBuilder) (st st' : Rebuild) (bucket position : Nat) (masterFlag : Bool)
    (node : ServerId) : Prop where
  available : tb.Available node
  fits : tb.checkNodeOk node bucket position st.table = true
  table : st'.table = st.table.set position bucket node
  sets : st'.bucketsSet = Function.update st.bucketsSet masterFlag
    (insertBucketMap node bucket position (st.bucketsSet masterFlag))
  flags : st'.nodeFlag = st.nodeFlag
  counts : st'.maxCount = st.maxCount
  listing : tb.Listing st'
  migrates : ∀ f x, valueAt (st'.migrateNodeInfo f) x = valueAt (st.migrateNodeInfo f) x +
    if x = node ∧ (f = true → masterFlag = true) then 1 else 0
  /-- With no flags set, no server that will do has a smaller counter. -/
  least : (∀ x, valueAt (st.nodeFlag masterFlag) x = 0) →
    ∀ x, tb.Available x → tb.checkNodeOk x bucket position st.table = true →
      valueAt (st.migrateNodeInfo masterFlag) node ≤ valueAt (st.migrateNodeInfo masterFlag) x

theorem placeInvalid_migrates (hListing : tb.Listing st) (hNode : tb.Available node)
    (hNonzero : node ≠ invalidFlag) (f : Bool) (x : ServerId) :
    valueAt ((placeInvalid st bucket position masterFlag node).migrateNodeInfo f) x =
      valueAt (st.migrateNodeInfo f) x +
        if x = node ∧ (f = true → masterFlag = true) then 1 else 0 := by
  have hIncr : ∀ g, valueAt (incrNodeCount node (st.migrateNodeInfo g)) x =
      valueAt (st.migrateNodeInfo g) x + if x = node then 1 else 0 := fun g =>
    valueAt_incrNodeCount ((hListing.migrates g node).mpr hNode) hNonzero x
  cases f with
  | false =>
    cases masterFlag <;> simp [placeInvalid, Rebuild.mapMigrate, Rebuild.mapBuckets, hIncr]
  | true =>
    cases masterFlag <;> simp [placeInvalid, Rebuild.mapMigrate, Rebuild.mapBuckets, hIncr]

theorem placeInvalid_frame (st : Rebuild) (bucket position : Nat) (masterFlag : Bool)
    (node : ServerId) :
    (placeInvalid st bucket position masterFlag node).nodeFlag = st.nodeFlag ∧
      (placeInvalid st bucket position masterFlag node).maxCount = st.maxCount := by
  cases masterFlag <;> exact ⟨rfl, rfl⟩

/-- The server that is found takes the slot. -/
theorem chooseNodeInvalid_takes (hListing : tb.Listing st) (hNonzero : ¬ tb.Available invalidFlag)
    (h : tb.chooseNodeInvalid rand st bucket position masterFlag = some st') :
    ∃ node, tb.Takes st st' bucket position masterFlag node := by
  obtain ⟨node, drawn, rfl, hOk, hFound⟩ := chooseNodeInvalid_found h
  have hNode : tb.Available node := by
    rcases hFound with ⟨hKey, -⟩ | ⟨hKey, -⟩
    · exact (hListing.migrates masterFlag node).mp hKey
    · exact (hListing.flags masterFlag node).mp hKey
  have hListing' : tb.Listing { st with drawn := drawn } := ⟨hListing.flags, hListing.migrates⟩
  obtain ⟨hKeys, hTable, hSets⟩ :=
    placeInvalid_eq { st with drawn := drawn } bucket position masterFlag node
  obtain ⟨hFlags, hMax⟩ :=
    placeInvalid_frame { st with drawn := drawn } bucket position masterFlag node
  refine ⟨node, ⟨hNode, hOk, hTable, hSets, hFlags, hMax, hListing'.of_sameKeys hKeys, ?_, ?_⟩⟩
  · exact placeInvalid_migrates hListing' hNode (hNode.ne_invalid hNonzero)
  · intro hZero x hx hxOk
    rcases hFound with ⟨-, -, hLeast⟩ | ⟨-, hLeast⟩
    · exact hLeast x ((hListing.migrates masterFlag x).mpr hx) hxOk
    · have hSum := hLeast x ((hListing.flags masterFlag x).mpr hx) hxOk
      rwa [hZero, hZero, zero_add, zero_add] at hSum

/-- The counters still tell what a server has when an empty cell has been filled. -/
theorem Takes.tally (h : tb.Takes st st' bucket position masterFlag node)
    (hNonzero : ¬ tb.Available invalidFlag) (hEmpty : st.table position bucket = invalidFlag)
    {f : Bool} (hCell : (position, bucket) ∈ tb.cells f ↔ (f = true → masterFlag = true))
    (hTally : tb.Tally f st) : tb.Tally f st' := by
  intro x hx
  have hBefore := hTally x hx
  rw [h.flags, h.migrates f x, h.table]
  by_cases hIn : (position, bucket) ∈ tb.cells f
  · rw [held_fill hIn hEmpty node (hx.ne_invalid hNonzero)]
    have hFlag := hCell.mp hIn
    by_cases hEq : x = node
    · rw [if_pos hEq.symm, if_pos ⟨hEq, hFlag⟩]
      push_cast
      omega
    · rw [if_neg (Ne.symm hEq), if_neg fun hAnd => hEq hAnd.1]
      push_cast
      omega
  · rw [held_set_of_notMem hIn, if_neg fun hAnd => hIn (hCell.mpr hAnd.2)]
    omega

end Tally

end TableBuilder

end MyBase
