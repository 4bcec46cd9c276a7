import MyBase.Meta.TableBuilder

/-!
# MyBase — the rows of a rebuilt table

Every phase of `rebuildTableNew` changes one cell of the table at a time, to an
available server that no other copy of the bucket is on, or turns a master into
one of the bucket's empty slaves. The searches and counters decide which server is
taken and when the loops end; what the rows look like depends on them only in that
the candidates are available servers and that the bucket sets name buckets that
may be changed (`Books`).

Main results:

* `chooseNodeInvalid_cases` / `chooseNode_cases` — what one search can do;
* `rebuildTableNew_rows` — the rows of every table that is returned with `BUILD_OK`;
* `rebuildTableNew_fills_dead_row` — when all masters are empty, rows with slaves
  left are rewritten too.
-/

namespace MyBase

open Lib List

-- Maps

@[simp] theorem keys_incrNodeCount (node : ServerId) (m : OrdMap ServerId Int) :
    (incrNodeCount node m).keys = m.keys := by
  unfold incrNodeCount
  split
  · rfl
  · exact OrdMap.keys_modify _ _ _

@[simp] theorem keys_decrNodeCount (node : ServerId) (m : OrdMap ServerId Int) :
    (decrNodeCount node m).keys = m.keys := by
  unfold decrNodeCount
  split
  · rfl
  · exact OrdMap.keys_modify _ _ _

variable {group : List ServerId} {node : ServerId} {st : Rebuild} {masterFlag : Bool}

theorem mem_serversByValue {sorted : List (Int × ServerId)} (hGroup : group ∈ serversByValue sorted)
    (hNode : node ∈ group) : ∃ v, (v, node) ∈ sorted := by
  obtain ⟨range, hRange, rfl⟩ := mem_map.mp hGroup
  obtain ⟨e, he, rfl⟩ := mem_map.mp hNode
  exact ⟨e.1, mem_equalRanges hRange he⟩

theorem mem_needyServers (hGroup : group ∈ st.needyServers masterFlag) (hNode : node ∈ group) :
    node ∈ (st.migrateNodeInfo masterFlag).keys := by
  obtain ⟨v, hv⟩ := mem_serversByValue hGroup hNode
  have hSorted := (List.takeWhile_prefix _).subset hv
  rw [sortMapByValue, mem_insertionSort] at hSorted
  obtain ⟨e, he, hEq⟩ := mem_map.mp hSorted
  exact mem_map.mpr ⟨e, he, congrArg Prod.snd hEq⟩

theorem mem_flaggedServers (hGroup : group ∈ st.flaggedServers masterFlag) (hNode : node ∈ group) :
    node ∈ (st.nodeFlag masterFlag).keys := by
  obtain ⟨v, hv⟩ := mem_serversByValue hGroup hNode
  rw [mem_insertionSort] at hv
  obtain ⟨e, he, hEq⟩ := mem_map.mp hv
  exact mem_map.mpr ⟨e, he, congrArg Prod.snd hEq⟩

-- Bookkeeping

namespace TableBuilder

/-- The server is alive. -/
def Available (tb : TableBuilder) (node : ServerId) : Prop := node ∈ tb.availableServer.keys

instance (tb : TableBuilder) (node : ServerId) : Decidable (tb.Available node) := by
  unfold Available
  infer_instance

variable {sets : OrdMap ServerId (OrdMap Nat Nat)} {tb : TableBuilder} {node : ServerId}
  {Q : Nat → Nat → Prop} {bucket position copyCount : Nat} {act : Nat → Prop}

theorem isAvailable_iff : tb.isAvailable node = true ↔ tb.Available node :=
  OrdMap.find?_isSome_iff

/-- The id 0 stands for no server. -/
theorem Available.ne_invalid (h : tb.Available node) (hNonzero : ¬ tb.Available invalidFlag) :
    node ≠ invalidFlag := by
  rintro rfl
  exact hNonzero h

/-- All copies that bucket sets name satisfy `Q`. -/
def SetsAll (Q : Nat → Nat → Prop) (sets : OrdMap ServerId (OrdMap Nat Nat)) : Prop :=
  ∀ e ∈ sets.entries, ∀ c ∈ e.2.entries, Q c.1 c.2

theorem SetsAll.insert (h : SetsAll Q sets) (node : ServerId) (hNew : Q bucket position) :
    SetsAll Q (insertBucketMap node bucket position sets) := by
  have hEmpty : SetsAll Q (sets.emplace node ∅) := by
    intro e he
    rcases OrdMap.mem_emplace he with rfl | he
    · simp
    · exact h e he
  intro e he c hc
  rcases OrdMap.mem_modify he with he | ⟨buckets, hBuckets, rfl⟩
  · exact hEmpty e he c hc
  · rcases OrdMap.mem_emplace hc with rfl | hc
    · exact hNew
    · exact hEmpty _ hBuckets c hc

theorem SetsAll.erase (h : SetsAll Q sets) (node : ServerId) (bucket : Nat) :
    SetsAll Q (eraseBucketMap node bucket sets) := by
  intro e he c hc
  rcases OrdMap.mem_modify he with he | ⟨buckets, hBuckets, rfl⟩
  · exact h e he c hc
  · exact h _ hBuckets c (OrdMap.mem_erase.mp hc).1

/-- Bucket sets name copies of buckets that may be changed. -/
def SetsWithin (act : Nat → Prop) (copyCount : Nat) (sets : OrdMap ServerId (OrdMap Nat Nat)) :
    Prop :=
  ∀ e ∈ sets.entries, ∀ c ∈ e.2.entries, act c.1 ∧ c.2 < copyCount

theorem SetsWithin.insert (h : SetsWithin act copyCount sets) (node : ServerId)
    (hBucket : act bucket) (hPosition : position < copyCount) :
    SetsWithin act copyCount (insertBucketMap node bucket position sets) :=
  SetsAll.insert (Q := fun b p => act b ∧ p < copyCount) h node ⟨hBucket, hPosition⟩

theorem SetsWithin.erase (h : SetsWithin act copyCount sets) (node : ServerId) (bucket : Nat) :
    SetsWithin act copyCount (eraseBucketMap node bucket sets) :=
  SetsAll.erase (Q := fun b p => act b ∧ p < copyCount) h node bucket

/-- The maps list available servers, and the bucket sets name copies of the buckets
in `act`. -/
structure Books (tb : TableBuilder) (act : Nat → Prop) (st : Rebuild) : Prop where
  flags : ∀ f, ∀ node ∈ (st.nodeFlag f).keys, tb.Available node
  migrates : ∀ f, ∀ node ∈ (st.migrateNodeInfo f).keys, tb.Available node
  sets : ∀ f, SetsWithin act tb.copyCount (st.bucketsSet f)

section Books

variable {tb : TableBuilder} {act : Nat → Prop} {st : Rebuild}

theorem Books.mono (h : tb.Books act st) {act' : Nat → Prop} (hAct : ∀ b, act b → act' b) :
    tb.Books act' st :=
  ⟨h.flags, h.migrates, fun f e he c hc => ⟨hAct _ (h.sets f e he c hc).1, (h.sets f e he c hc).2⟩⟩

theorem Books.mapMigrate (h : tb.Books act st) (masterFlag : Bool)
    {f : OrdMap ServerId Int → OrdMap ServerId Int} (hf : ∀ m, (f m).keys = m.keys) :
    tb.Books act (st.mapMigrate masterFlag f) := by
  refine ⟨h.flags, ?_, h.sets⟩
  intro flag node hNode
  by_cases hFlag : flag = masterFlag
  · subst hFlag
    simp only [Rebuild.mapMigrate, Function.update_self, hf] at hNode
    exact h.migrates flag node hNode
  · simp only [Rebuild.mapMigrate, Function.update_of_ne hFlag] at hNode
    exact h.migrates flag node hNode

theorem Books.mapNodeFlag (h : tb.Books act st) (masterFlag : Bool)
    {f : OrdMap ServerId Int → OrdMap ServerId Int} (hf : ∀ m, (f m).keys = m.keys) :
    tb.Books act (st.mapNodeFlag masterFlag f) := by
  refine ⟨?_, h.migrates, h.sets⟩
  intro flag node hNode
  by_cases hFlag : flag = masterFlag
  · subst hFlag
    simp only [Rebuild.mapNodeFlag, Function.update_self, hf] at hNode
    exact h.flags flag node hNode
  · simp only [Rebuild.mapNodeFlag, Function.update_of_ne hFlag] at hNode
    exact h.flags flag node hNode

/-- The books do not depend on the table, the counts and the random numbers. -/
theorem Books.congr (h : tb.Books act st) (table : HashTable) (maxCount : Bool → Int)
    (drawn : Nat) :
    tb.Books act { st with table := table, maxCount := maxCount, drawn := drawn } :=
  ⟨h.flags, h.migrates, h.sets⟩

end Books

-- One search

/-- `t'` is `t` with an available server in a cell of a bucket it has no other copy
of. -/
def Places (tb : TableBuilder) (bucket position : Nat) (t t' : HashTable) : Prop :=
  ∃ node, tb.Available node ∧ tb.checkNodeOk node bucket position t = true ∧
    t' = t.set position bucket node

section Search

variable {tb : TableBuilder} {rand : Nat → Nat} {act : Nat → Prop} {st st' : Rebuild}

/-- The counters list the servers they listed before. -/
def SameKeys (st st' : Rebuild) : Prop :=
  ∀ f, (st'.nodeFlag f).keys = (st.nodeFlag f).keys ∧
    (st'.migrateNodeInfo f).keys = (st.migrateNodeInfo f).keys

variable {masterFlag : Bool} {f : OrdMap ServerId Int → OrdMap ServerId Int} {st₁ : Rebuild}
  {node nodeInfo : ServerId} {bucket position : Nat} {move : ServerId × Nat × Nat}

theorem sameKeys_mapMigrate (st : Rebuild) (masterFlag : Bool) (hf : ∀ m, (f m).keys = m.keys) :
    SameKeys st (st.mapMigrate masterFlag f) := by
  intro flag
  refine ⟨rfl, ?_⟩
  by_cases hFlag : flag = masterFlag
  · subst hFlag
    simp [Rebuild.mapMigrate, hf]
  · simp [Rebuild.mapMigrate, hFlag]

theorem sameKeys_mapNodeFlag (st : Rebuild) (masterFlag : Bool) (hf : ∀ m, (f m).keys = m.keys) :
    SameKeys st (st.mapNodeFlag masterFlag f) := by
  intro flag
  refine ⟨?_, rfl⟩
  by_cases hFlag : flag = masterFlag
  · subst hFlag
    simp [Rebuild.mapNodeFlag, hf]
  · simp [Rebuild.mapNodeFlag, hFlag]

theorem SameKeys.trans {st₂ : Rebuild} (h : SameKeys st st₁) (h' : SameKeys st₁ st₂) :
    SameKeys st st₂ :=
  fun f => ⟨(h' f).1.trans (h f).1, (h' f).2.trans (h f).2⟩

/-- The server of a search: one of those the counters list. -/
def Listed (st : Rebuild) (masterFlag : Bool) (node : ServerId) : Prop :=
  node ∈ (st.migrateNodeInfo masterFlag).keys ∨ node ∈ (st.nodeFlag masterFlag).keys

theorem Books.available (h : tb.Books act st) (hListed : Listed st masterFlag node) :
    tb.Available node :=
  hListed.elim (h.migrates masterFlag node) (h.flags masterFlag node)

/-- The books after a change of the bucket sets that names only what they may name. -/
theorem Books.of_sameKeys (h : tb.Books act st) (hKeys : SameKeys st st')
    (hSets : ∀ f, SetsWithin act tb.copyCount (st'.bucketsSet f)) : tb.Books act st' where
  flags := fun f node hNode => h.flags f node ((hKeys f).1 ▸ hNode)
  migrates := fun f node hNode => h.migrates f node ((hKeys f).2 ▸ hNode)
  sets := hSets

/-- What `chooseNodeInvalid` does with the server it has found. -/
theorem placeInvalid_eq (st : Rebuild) (bucket position : Nat) (masterFlag : Bool)
    (node : ServerId) :
    SameKeys st (placeInvalid st bucket position masterFlag node) ∧
      (placeInvalid st bucket position masterFlag node).table =
        st.table.set position bucket node ∧
      (placeInvalid st bucket position masterFlag node).bucketsSet =
        Function.update st.bucketsSet masterFlag
          (insertBucketMap node bucket position (st.bucketsSet masterFlag)) := by
  unfold placeInvalid
  have hAll := sameKeys_mapMigrate st false (keys_incrNodeCount node)
  cases masterFlag with
  | false => exact ⟨hAll, rfl, rfl⟩
  | true =>
    have hBoth := hAll.trans (sameKeys_mapMigrate _ true (keys_incrNodeCount node))
    exact ⟨hBoth, rfl, rfl⟩

/-- **Inversion of `chooseNodeInvalid`.** -/
theorem chooseNodeInvalid_cases
    (h : tb.chooseNodeInvalid rand st bucket position masterFlag = some st') :
    SameKeys st st' ∧ ∃ node, Listed st masterFlag node ∧
      tb.checkNodeOk node bucket position st.table = true ∧
      st'.table = st.table.set position bucket node ∧
      st'.bucketsSet = Function.update st.bucketsSet masterFlag
        (insertBucketMap node bucket position (st.bucketsSet masterFlag)) := by
  have hPlaced : ∀ (groups : List (List ServerId)) (drawn drawn' : Nat) (node : ServerId),
      (∀ group ∈ groups, ∀ node ∈ group, Listed st masterFlag node) →
      drawGroups rand invalidFlag
        (fun node => if tb.checkNodeOk node bucket position st.table then some node else none)
        groups drawn = (some node, drawn') →
      Listed st masterFlag node ∧ tb.checkNodeOk node bucket position st.table = true := by
    intro groups drawn drawn' node hGroups hDraw
    obtain ⟨group, hGroup, a, ha, hAttempt⟩ := drawGroups_some hDraw
    split at hAttempt
    · rename_i hOk
      cases hAttempt
      exact ⟨hGroups group hGroup node ha, hOk⟩
    · cases hAttempt
  unfold chooseNodeInvalid at h
  dsimp only at h
  split at h
  · rename_i node drawn hDraw
    cases h
    obtain ⟨hListed, hOk⟩ := hPlaced _ _ _ _
      (fun group hGroup n hn => Or.inl (mem_needyServers hGroup hn)) hDraw
    obtain ⟨hKeys, hTable, hSets⟩ := placeInvalid_eq { st with drawn := drawn } bucket position
      masterFlag node
    exact ⟨hKeys, node, hListed, hOk, hTable, hSets⟩
  · split at h
    · rename_i node drawn hDraw
      cases h
      obtain ⟨hListed, hOk⟩ := hPlaced _ _ _ _
        (fun group hGroup n hn => Or.inr (mem_flaggedServers hGroup hn)) hDraw
      obtain ⟨hKeys, hTable, hSets⟩ := placeInvalid_eq { st with drawn := drawn } bucket position
        masterFlag node
      exact ⟨hKeys, node, hListed, hOk, hTable, hSets⟩
    · cases h

/-- `chooseNodeInvalid` puts an available server into the cell. -/
theorem chooseNodeInvalid_spec (hBooks : tb.Books act st) (hBucket : act bucket)
    (hPosition : position < tb.copyCount)
    (h : tb.chooseNodeInvalid rand st bucket position masterFlag = some st') :
    tb.Books act st' ∧ tb.Places bucket position st.table st'.table := by
  obtain ⟨hKeys, node, hListed, hOk, hTable, hSets⟩ := chooseNodeInvalid_cases h
  refine ⟨hBooks.of_sameKeys hKeys ?_, node, hBooks.available hListed, hOk, hTable⟩
  intro f
  rw [hSets]
  by_cases hf : f = masterFlag
  · subst hf
    rw [Function.update_self]
    exact (hBooks.sets f).insert node hBucket hPosition
  · rw [Function.update_of_ne hf]
    exact hBooks.sets f

theorem movable_some (h : tb.movable st nodeInfo masterFlag node = some move) :
    move.1 = node ∧ (∃ buckets, (nodeInfo, buckets) ∈ (st.bucketsSet masterFlag).entries ∧
        move.2 ∈ buckets.entries) ∧
      tb.checkNodeOk node move.2.1 move.2.2 st.table = true := by
  obtain ⟨e, he, rfl⟩ := Option.map_eq_some_iff.mp h
  have hMem := mem_of_find?_eq_some he
  have hOk := find?_some he
  cases hFind : (st.bucketsSet masterFlag).find? nodeInfo with
  | none => simp [hFind] at hMem
  | some buckets =>
    rw [hFind] at hMem
    exact ⟨rfl, ⟨buckets, OrdMap.mem_of_find? hFind, hMem⟩, hOk⟩

theorem moveCopy_bucketsSet (st : Rebuild) (nodeInfo : ServerId) (masterFlag : Bool)
    (move : ServerId × Nat × Nat) :
    (moveCopy st nodeInfo masterFlag move).bucketsSet = Function.update st.bucketsSet masterFlag
      (eraseBucketMap nodeInfo move.2.1
        (insertBucketMap move.1 move.2.1 move.2.2 (st.bucketsSet masterFlag))) := by
  simp [moveCopy, Rebuild.mapBuckets]

/-- A copy has been moved from `nodeInfo` to a server that the counters list. -/
def Moved (tb : TableBuilder) (st st' : Rebuild) (nodeInfo : ServerId) (masterFlag : Bool) : Prop :=
  ∃ move : ServerId × Nat × Nat, Listed st masterFlag move.1 ∧
    (∃ buckets, (nodeInfo, buckets) ∈ (st.bucketsSet masterFlag).entries ∧
      move.2 ∈ buckets.entries) ∧
    tb.checkNodeOk move.1 move.2.1 move.2.2 st.table = true ∧
    st'.table = st.table.set move.2.2 move.2.1 move.1 ∧
    st'.bucketsSet = Function.update st.bucketsSet masterFlag
      (eraseBucketMap nodeInfo move.2.1
        (insertBucketMap move.1 move.2.1 move.2.2 (st.bucketsSet masterFlag)))

/-- A move that a search among listed servers has found, made after the counters have
been brought up to date. -/
theorem moved_of_draw {groups : List (List ServerId)} {drawn drawn' : Nat}
    (hGroups : ∀ group ∈ groups, ∀ node ∈ group, Listed st masterFlag node)
    (hDraw : drawGroups rand invalidFlag (tb.movable st nodeInfo masterFlag) groups drawn =
      (some move, drawn')) (hTable : st₁.table = st.table)
    (hSets : st₁.bucketsSet = st.bucketsSet) :
    tb.Moved st (moveCopy st₁ nodeInfo masterFlag move) nodeInfo masterFlag := by
  obtain ⟨group, hGroup, node, hNode, hMove⟩ := drawGroups_some hDraw
  obtain ⟨rfl, hEntry, hOk⟩ := movable_some hMove
  refine ⟨move, hGroups group hGroup _ hNode, hEntry, hOk, ?_, ?_⟩
  · rw [← hTable]
    rfl
  · rw [← hSets]
    exact moveCopy_bucketsSet st₁ nodeInfo masterFlag move

/-- **Inversion of `chooseNode`.** It leaves table and bucket sets or moves a copy. -/
theorem chooseNode_cases (tb : TableBuilder) (rand : Nat → Nat) (st : Rebuild)
    (nodeInfo : ServerId) (masterFlag : Bool) :
    let st' := tb.chooseNode rand st nodeInfo masterFlag
    SameKeys st st' ∧ ((st'.table = st.table ∧ st'.bucketsSet = st.bucketsSet) ∨
      tb.Moved st st' nodeInfo masterFlag) := by
  have hKeys : ∀ (node : ServerId) (m : OrdMap ServerId Int),
      (incrNodeCount node (decrNodeCount nodeInfo m)).keys = m.keys := by
    intro node m
    rw [keys_incrNodeCount, keys_decrNodeCount]
  dsimp only
  unfold chooseNode
  split
  · -- a server below its share takes the copy
    rename_i move drawn hDraw
    have hAll := sameKeys_mapMigrate { st with drawn := drawn } false (hKeys move.1)
    have hGroups : ∀ group ∈ st.needyServers masterFlag, ∀ node ∈ group,
        Listed st masterFlag node := fun group hGroup n hn => Or.inl (mem_needyServers hGroup hn)
    cases masterFlag with
    | false => exact ⟨hAll, Or.inr (moved_of_draw hGroups hDraw rfl rfl)⟩
    | true =>
      have hBoth := hAll.trans (sameKeys_mapMigrate _ true (hKeys move.1))
      exact ⟨hBoth, Or.inr (moved_of_draw hGroups hDraw rfl rfl)⟩
  · rename_i drawn _
    dsimp only
    split
    · -- the server keeps one more than its share
      have hFlag := (sameKeys_mapNodeFlag { st with drawn := drawn } masterFlag
        (keys_incrNodeCount nodeInfo)).trans
        (sameKeys_mapMigrate _ masterFlag (keys_decrNodeCount nodeInfo))
      exact ⟨hFlag, Or.inl ⟨rfl, rfl⟩⟩
    · split
      · rename_i move drawn' hDraw
        have hFlag := (sameKeys_mapNodeFlag { st with drawn := drawn' } masterFlag
          (keys_incrNodeCount move.1)).trans
          (sameKeys_mapMigrate _ masterFlag (keys_decrNodeCount nodeInfo))
        have hGroups : ∀ group ∈ Rebuild.flaggedServers { st with drawn := drawn } masterFlag,
            ∀ node ∈ group, Listed { st with drawn := drawn } masterFlag node :=
          fun group hGroup n hn => Or.inr (mem_flaggedServers hGroup hn)
        cases masterFlag with
        | false => exact ⟨hFlag, Or.inr (moved_of_draw hGroups hDraw rfl rfl)⟩
        | true =>
          have hAll := hFlag.trans (sameKeys_mapMigrate _ false (hKeys move.1))
          exact ⟨hAll, Or.inr (moved_of_draw hGroups hDraw rfl rfl)⟩
      · exact ⟨fun _ => ⟨rfl, rfl⟩, Or.inl ⟨rfl, rfl⟩⟩

/-- `chooseNode` leaves the table or changes one cell of a bucket that may be changed. -/
theorem chooseNode_spec (hBooks : tb.Books act st) (nodeInfo : ServerId) (masterFlag : Bool) :
    tb.Books act (tb.chooseNode rand st nodeInfo masterFlag) ∧
      ((tb.chooseNode rand st nodeInfo masterFlag).table = st.table ∨
        ∃ bucket position, act bucket ∧ position < tb.copyCount ∧
          tb.Places bucket position st.table
            (tb.chooseNode rand st nodeInfo masterFlag).table) := by
  obtain ⟨hKeys, ⟨hTable, hSets⟩ |
      ⟨move, hListed, ⟨buckets, hBuckets, hMem⟩, hOk, hTable, hSets⟩⟩ :=
    chooseNode_cases tb rand st nodeInfo masterFlag
  · refine ⟨hBooks.of_sameKeys hKeys ?_, Or.inl hTable⟩
    rw [hSets]
    exact hBooks.sets
  · obtain ⟨hAct, hPosition⟩ := hBooks.sets masterFlag _ hBuckets _ hMem
    refine ⟨hBooks.of_sameKeys hKeys ?_, Or.inr ⟨move.2.1, move.2.2, hAct, hPosition, move.1,
      hBooks.available hListed, hOk, hTable⟩⟩
    intro f
    rw [hSets]
    by_cases hf : f = masterFlag
    · subst hf
      rw [Function.update_self]
      exact ((hBooks.sets f).insert move.1 hAct hPosition).erase nodeInfo move.2.1
    · rw [Function.update_of_ne hf]
      exact hBooks.sets f

end Search

-- Rows

/-- No server has two copies of the bucket. -/
def Distinct (tb : TableBuilder) (t : HashTable) (b : Nat) : Prop :=
  ∀ p < tb.copyCount, ∀ q < tb.copyCount, p ≠ q → t p b ≠ invalidFlag → t p b ≠ t q b

/-- Every copy of the bucket is on an available server. -/
def Filled (tb : TableBuilder) (t : HashTable) (b : Nat) : Prop :=
  ∀ p < tb.copyCount, tb.Available (t p b)

/-- Every copy of the bucket is on an available server or has none. -/
def Fillable (tb : TableBuilder) (t : HashTable) (b : Nat) : Prop :=
  ∀ p < tb.copyCount, t p b = invalidFlag ∨ tb.Available (t p b)

instance (tb : TableBuilder) (t : HashTable) (b : Nat) : Decidable (tb.Distinct t b) := by
  unfold Distinct
  infer_instance

instance (tb : TableBuilder) (t : HashTable) (b : Nat) : Decidable (tb.Fillable t b) := by
  unfold Fillable
  infer_instance

theorem set_self (t : HashTable) (position bucket : Nat) (node : ServerId) :
    t.set position bucket node position bucket = node := by
  simp [HashTable.set]

theorem set_of_position_ne (t : HashTable) {position p : Nat} (h : p ≠ position) (bucket b : Nat)
    (node : ServerId) : t.set position bucket node p b = t p b := by
  simp [HashTable.set, h]

theorem set_of_bucket_ne (t : HashTable) {bucket b : Nat} (h : b ≠ bucket) (position p : Nat)
    (node : ServerId) : t.set position bucket node p b = t p b := by
  by_cases hp : p = position
  · subst hp
    simp [HashTable.set, h]
  · exact set_of_position_ne t hp _ _ _

theorem checkNodeOk_iff {tb : TableBuilder} {node : ServerId} {bucket position : Nat}
    {t : HashTable} :
    tb.checkNodeOk node bucket position t = true ↔
      ∀ i < tb.copyCount, i ≠ position → t i bucket ≠ node := by
  simp only [checkNodeOk, all_eq_true, mem_range, Bool.or_eq_true, decide_eq_true_eq]
  refine forall₂_congr fun i _ => ?_
  rw [or_iff_not_imp_left]

section Rows

variable {tb : TableBuilder} {bucket position : Nat} {t t' : HashTable}

variable (h : tb.Places bucket position t t')
include h

theorem Places.other {b : Nat} (hb : b ≠ bucket) (p : Nat) : t' p b = t p b := by
  obtain ⟨node, -, -, rfl⟩ := h
  exact set_of_bucket_ne t hb _ _ _

theorem Places.position_ne {p : Nat} (hp : p ≠ position) (b : Nat) : t' p b = t p b := by
  obtain ⟨node, -, -, rfl⟩ := h
  exact set_of_position_ne t hp _ _ _

theorem Places.available : tb.Available (t' position bucket) := by
  obtain ⟨node, hNode, -, rfl⟩ := h
  rwa [set_self]

theorem Places.distinct (hDistinct : tb.Distinct t bucket) : tb.Distinct t' bucket := by
  obtain ⟨node, -, hOk, rfl⟩ := h
  rw [checkNodeOk_iff] at hOk
  intro p hp q hq hpq hNe
  by_cases hpp : p = position
  · subst hpp
    rw [set_self, set_of_position_ne t (Ne.symm hpq)]
    exact (hOk q hq (Ne.symm hpq)).symm
  · rw [set_of_position_ne t hpp] at hNe ⊢
    by_cases hqp : q = position
    · subst hqp
      rw [set_self]
      exact hOk p hp hpp
    · rw [set_of_position_ne t hqp]
      exact hDistinct p hp q hq hpq hNe

theorem Places.fillable (hFillable : tb.Fillable t bucket) : tb.Fillable t' bucket := by
  intro p hp
  by_cases hpp : p = position
  · subst hpp
    exact Or.inr h.available
  · rw [h.position_ne hpp]
    exact hFillable p hp

theorem Places.filled {b : Nat} (hFilled : tb.Filled t b) : tb.Filled t' b := by
  intro p hp
  by_cases hb : b = bucket
  · subst hb
    by_cases hpp : p = position
    · subst hpp
      exact h.available
    · rw [h.position_ne hpp]
      exact hFilled p hp
  · rw [h.other hb]
    exact hFilled p hp

end Rows

/-- What holds of the members at every moment: the books are right, the rows that
may be changed have no server twice, and the other rows are those of `source`. -/
structure Sound (tb : TableBuilder) (source : HashTable) (act : Nat → Prop) (st : Rebuild) :
    Prop where
  books : tb.Books act st
  distinct : ∀ b, act b → tb.Distinct st.table b
  frame : ∀ b, ¬ act b → ∀ p, st.table p b = source p b

section Phases

variable {tb : TableBuilder} {rand : Nat → Nat} {source : HashTable} {act : Nat → Prop}
  {st st' : Rebuild}

variable {b i n p fuel : Nat} {masterFlag : Bool} {st₀ : Rebuild} {t : HashTable}

theorem Sound.places (h : tb.Sound source act st) (hBooks : tb.Books act st') (hb : act b)
    (hPlaces : tb.Places b p st.table st'.table) : tb.Sound source act st' := by
  refine ⟨hBooks, ?_, ?_⟩
  · intro b' hb'
    by_cases hEq : b' = b
    · subst hEq
      exact hPlaces.distinct (h.distinct b' hb')
    · intro i hi j hj
      rw [hPlaces.other hEq, hPlaces.other hEq]
      exact h.distinct b' hb' i hi j hj
  · intro b' hb' i
    have hNe : b' ≠ b := by
      rintro rfl
      exact hb' hb
    rw [hPlaces.other hNe]
    exact h.frame b' hb' i

theorem Sound.chooseNodeInvalid (h : tb.Sound source act st) (hb : act b) (hp : p < tb.copyCount)
    (hChoose : tb.chooseNodeInvalid rand st b p masterFlag = some st') :
    tb.Sound source act st' ∧ tb.Places b p st.table st'.table := by
  obtain ⟨hBooks, hPlaces⟩ := chooseNodeInvalid_spec h.books hb hp hChoose
  exact ⟨h.places hBooks hb hPlaces, hPlaces⟩

/-- The slots of one bucket are filled from position `n` on. -/
structure Filling (tb : TableBuilder) (source : HashTable) (act : Nat → Prop) (st₀ : Rebuild)
    (b n : Nat) (st : Rebuild) : Prop where
  sound : tb.Sound source act st
  others : ∀ b', b' ≠ b → ∀ p, st.table p b' = st₀.table p b'
  fillable : tb.Fillable st.table b
  done : ∀ p < n, p < tb.copyCount → tb.Available (st.table p b)

theorem Filling.places (h : tb.Filling source act st₀ b n st) (hb : act b) (hn : n < tb.copyCount)
    (hChoose : tb.chooseNodeInvalid rand st b n masterFlag = some st') :
    tb.Filling source act st₀ b (n + 1) st' := by
  obtain ⟨hSound, hPlaces⟩ := h.sound.chooseNodeInvalid hb hn hChoose
  refine ⟨hSound, ?_, hPlaces.fillable h.fillable, ?_⟩
  · intro b' hb' p
    rw [hPlaces.other hb']
    exact h.others b' hb' p
  · intro p hp hpc
    by_cases hpn : p = n
    · subst hpn
      exact hPlaces.available
    · rw [hPlaces.position_ne hpn]
      exact h.done p (by omega) hpc

/-- `chooseSlaveForInvalid` completes a bucket whose master is available. -/
theorem chooseSlaveForInvalid_spec (h : tb.Filling source act st₀ b 1 st) (hb : act b)
    (hChoose : tb.chooseSlaveForInvalid rand st b = some st') :
    tb.Sound source act st' ∧ (∀ b', b' ≠ b → ∀ p, st'.table p b' = st₀.table p b') ∧
      tb.Filled st'.table b := by
  have hEnd := run_range' (tb.Filling source act st₀ b) (by
    intro n s s' hLo hHi hInv hStep
    have hn : n < tb.copyCount := by omega
    split at hStep
    · exact hInv.places hb hn hStep
    · -- the slot has a server, which is available
      rename_i hNe
      cases hStep
      refine ⟨hInv.sound, hInv.others, hInv.fillable, ?_⟩
      intro p hp hpc
      by_cases hpn : p = n
      · subst hpn
        exact (hInv.fillable p hpc).resolve_left hNe
      · exact hInv.done p (by omega) hpc) h hChoose
  refine ⟨hEnd.sound, hEnd.others, ?_⟩
  intro p hp
  exact hEnd.done p (by omega) hp

/-- Turning the master into an empty slave gives no server a second copy. -/
theorem distinct_demote (h : tb.Distinct t b) (hPos : n ≠ 0) (hn : n < tb.copyCount)
    (hMaster : t 0 b ≠ invalidFlag) : tb.Distinct ((t.set n b (t 0 b)).set 0 b invalidFlag) b := by
  have hZero : 0 < tb.copyCount := by omega
  have hCell : ∀ p, p ≠ 0 → p ≠ n →
      ((t.set n b (t 0 b)).set 0 b invalidFlag) p b = t p b := by
    intro p hp hpn
    rw [set_of_position_ne _ hp, set_of_position_ne t hpn]
  have hNew : ((t.set n b (t 0 b)).set 0 b invalidFlag) n b = t 0 b := by
    rw [set_of_position_ne _ hPos, set_self]
  intro p hp q hq hpq hNe
  by_cases hp0 : p = 0
  · subst hp0
    exact absurd (set_self _ _ _ _) hNe
  by_cases hq0 : q = 0
  · subst hq0
    rw [set_self]
    exact hNe
  by_cases hpn : p = n
  · subst hpn
    rw [hNew, hCell q hq0 (Ne.symm hpq)]
    exact h 0 hZero q hq (Ne.symm hq0) hMaster
  rw [hCell p hp0 hpn] at hNe ⊢
  by_cases hqn : q = n
  · subst hqn
    rw [hNew]
    exact h p hp 0 hZero hp0 hNe
  · rw [hCell q hq0 hqn]
    exact h p hp q hq hpq hNe

/-- The master of a bucket has become its slave at position `m`, and is not counted as a
master any more. -/
structure Demotes (tb : TableBuilder) (st st' : Rebuild) (b m : Nat) : Prop where
  pos : 1 ≤ m
  lt : m < tb.copyCount
  free : st.table m b = invalidFlag
  table : st'.table = (st.table.set m b (st.table 0 b)).set 0 b invalidFlag
  masters : st'.bucketsSet true = eraseBucketMap (st.table 0 b) b (st.bucketsSet true)
  slaves : st'.bucketsSet false = insertBucketMap (st.table 0 b) b m (st.bucketsSet false)
  migrates : st'.migrateNodeInfo true = decrNodeCount (st.table 0 b) (st.migrateNodeInfo true)
  copies : st'.migrateNodeInfo false = st.migrateNodeInfo false
  flags : st'.nodeFlag = st.nodeFlag
  counts : st'.maxCount = st.maxCount

/-- **Inversion of `demoteMaster`** for a bucket with an empty slave. -/
theorem demoteMaster_demotes (hn : n ∈ List.range' 1 (tb.copyCount - 1))
    (hEmpty : st.table n b = invalidFlag) : ∃ m, tb.Demotes st (tb.demoteMaster st b) b m := by
  unfold demoteMaster
  dsimp only
  split
  · rename_i hNone
    exact absurd (decide_eq_true hEmpty) (List.find?_eq_none.mp hNone n hn)
  · rename_i m hFind
    have hRange := mem_range'_1.mp (mem_of_find?_eq_some hFind)
    have hFree := find?_some hFind
    exact ⟨m, hRange.1, by omega, of_decide_eq_true hFree, rfl, rfl, rfl, rfl, rfl, rfl, rfl⟩

/-- A master that becomes a slave is entered among these. -/
theorem Demotes.books {m : Nat} (h : tb.Demotes st st' b m) (hBooks : tb.Books act st)
    (hb : act b) : tb.Books act st' where
  flags := by
    rw [h.flags]
    exact hBooks.flags
  migrates := by
    intro f
    cases f with
    | true =>
      rw [h.migrates, keys_decrNodeCount]
      exact hBooks.migrates true
    | false =>
      rw [h.copies]
      exact hBooks.migrates false
  sets := by
    intro f
    cases f with
    | true =>
      rw [h.masters]
      exact (hBooks.sets true).erase (st.table 0 b) b
    | false =>
      rw [h.slaves]
      exact (hBooks.sets false).insert (st.table 0 b) hb h.lt

/-- After `demoteMaster` the slots of the bucket can be filled from the master on. -/
theorem demoteMaster_spec (h : tb.Sound source act st) (hb : act b)
    (hMaster : tb.Available (st.table 0 b)) (hNonzero : ¬ tb.Available invalidFlag)
    (hFillable : tb.Fillable st.table b) (hn : n ∈ List.range' 1 (tb.copyCount - 1))
    (hEmpty : st.table n b = invalidFlag) :
    tb.Filling source act st b 0 (tb.demoteMaster st b) := by
  obtain ⟨m, hDemotes⟩ := demoteMaster_demotes hn hEmpty
  have hTable := hDemotes.table
  have hm0 : m ≠ 0 := Nat.one_le_iff_ne_zero.mp hDemotes.pos
  have hOther : ∀ b', b' ≠ b → ∀ p, (tb.demoteMaster st b).table p b' = st.table p b' := by
    intro b' hb' p
    rw [hTable, set_of_bucket_ne _ hb', set_of_bucket_ne _ hb']
  refine ⟨⟨hDemotes.books h.books hb, ?_, ?_⟩, hOther, ?_, by simp⟩
  · intro b' hb'
    by_cases hEq : b' = b
    · subst hEq
      rw [hTable]
      exact distinct_demote (h.distinct b' hb') hm0 hDemotes.lt (hMaster.ne_invalid hNonzero)
    · intro p hp q hq
      rw [hOther b' hEq, hOther b' hEq]
      exact h.distinct b' hb' p hp q hq
  · intro b' hb' p
    have hNe : b' ≠ b := by
      rintro rfl
      exact hb' hb
    rw [hOther b' hNe]
    exact h.frame b' hb' p
  · intro p hp
    rw [hTable]
    by_cases hp0 : p = 0
    · subst hp0
      exact Or.inl (set_self _ _ _ _)
    · rw [set_of_position_ne _ hp0]
      by_cases hpm : p = m
      · subst hpm
        rw [set_self]
        exact Or.inr hMaster
      · rw [set_of_position_ne _ hpm]
        exact hFillable p hp

/-- The bucket has an available master. -/
def Alive (tb : TableBuilder) (source : HashTable) (b : Nat) : Prop :=
  b < tb.bucketCount ∧ tb.Available (source 0 b)

/-- What the table is like that a rebuild starts from. -/
structure SourceOk (tb : TableBuilder) (source : HashTable) : Prop where
  distinct : ∀ b < tb.bucketCount, tb.Distinct source b
  fillable : ∀ b < tb.bucketCount, tb.Available (source 0 b) → tb.Fillable source b

/-- The slaves can be chosen when the master stays, whatever the counts. -/
theorem Sound.filling_of_table (h : tb.Sound source act st) (hFillable : tb.Fillable st.table i)
    (hMaster : tb.Available (st.table 0 i)) {st₁ : Rebuild} (hBooks : tb.Books act st₁)
    (hTable : st₁.table = st.table) : tb.Filling source act st i 1 st₁ := by
  refine ⟨⟨hBooks, ?_, ?_⟩, ?_, ?_, ?_⟩
  · rw [hTable]
    exact h.distinct
  · rw [hTable]
    exact h.frame
  · rw [hTable]
    exact fun _ _ _ => rfl
  · rw [hTable]
    exact hFillable
  · intro p hp _
    rw [hTable, show p = 0 by omega]
    exact hMaster

theorem Books.keepCopy (h : tb.Books act st) (nodeInfo : ServerId) (masterFlag : Bool) :
    tb.Books act (keepCopy st nodeInfo masterFlag) :=
  ((h.mapNodeFlag masterFlag (keys_incrNodeCount _)).mapMigrate masterFlag
    (keys_decrNodeCount _)).congr _ _ _

/-- **Inversion of `fillBucket`.** A bucket without an available master, or without empty
slots, is left; otherwise its slaves are chosen, after the master has been let stay or
has been made a slave. -/
theorem fillBucket_cases (h : tb.fillBucket rand st i = some st') :
    (st' = st ∧ (st.table 0 i = invalidFlag ∨ ¬ tb.Available (st.table 0 i) ∨
      ∀ n ∈ List.range' 1 (tb.copyCount - 1), st.table n i ≠ invalidFlag)) ∨
    (tb.Available (st.table 0 i) ∧
      (∃ n ∈ List.range' 1 (tb.copyCount - 1), st.table n i = invalidFlag) ∧
      ∃ st₁, tb.chooseSlaveForInvalid rand st₁ i = some st' ∧
        (st₁ = st ∨
          (valueAt (st.nodeFlag true) (st.table 0 i) = 0 ∧ st₁ = keepCopy st (st.table 0 i) true) ∨
          tb.chooseNodeInvalid rand (tb.demoteMaster st i) i 0 true = some st₁)) := by
  unfold fillBucket at h
  dsimp only at h
  split at h
  · rename_i hDead
    cases h
    refine Or.inl ⟨rfl, hDead.imp_right fun hNot => Or.inl fun hAvailable => ?_⟩
    rw [isAvailable_iff.mpr hAvailable] at hNot
    cases hNot
  rename_i hAlive
  rw [not_or, Bool.not_eq_false, isAvailable_iff] at hAlive
  split at h
  · rename_i hComplete
    cases h
    refine Or.inl ⟨rfl, Or.inr (Or.inr fun n hn => ?_)⟩
    simpa using all_eq_true.mp hComplete n hn
  rename_i hIncomplete
  refine Or.inr ⟨hAlive.2, by simpa [and_assoc] using hIncomplete, ?_⟩
  split at h
  · exact ⟨st, h, Or.inl rfl⟩
  split at h
  · rename_i hStay
    exact ⟨_, h, Or.inr (Or.inl ⟨hStay.2, rfl⟩)⟩
  split at h
  · obtain ⟨st₁, hChoose, hRest⟩ := Option.bind_eq_some_iff.mp h
    exact ⟨st₁, hRest, Or.inr (Or.inr hChoose)⟩
  · exact ⟨st, h, Or.inl rfl⟩

/-- **Step lemma of the first phase.** A bucket with an available master becomes
complete, and no other bucket changes. -/
theorem fillBucket_spec (hNonzero : ¬ tb.Available invalidFlag) (hSource : tb.SourceOk source)
    (h : tb.Sound source (tb.Alive source) st) (hi : i < tb.bucketCount)
    (hRow : ∀ p, st.table p i = source p i) (hFill : tb.fillBucket rand st i = some st') :
    tb.Sound source (tb.Alive source) st' ∧
      (∀ b, b ≠ i → ∀ p, st'.table p b = st.table p b) ∧
      (tb.Available (source 0 i) → tb.Filled st'.table i) := by
  have hFillable : tb.Available (st.table 0 i) → tb.Fillable st.table i := by
    intro hMaster p hp
    rw [hRow 0] at hMaster
    rw [hRow p]
    exact hSource.fillable i hi hMaster p hp
  rcases fillBucket_cases hFill with ⟨rfl, hLeft⟩ | ⟨hMaster, ⟨n, hn, hEmpty⟩, st₁, hSlaves, hCase⟩
  · -- the master is missing or dead, or nothing is to be filled
    refine ⟨h, fun _ _ _ => rfl, ?_⟩
    intro hAvailable p hp
    rw [← hRow 0] at hAvailable
    rcases hLeft with hZero | hDead | hComplete
    · exact absurd (hZero ▸ hAvailable) hNonzero
    · exact absurd hAvailable hDead
    · by_cases hp0 : p = 0
      · rw [hp0]
        exact hAvailable
      · exact (hFillable hAvailable p hp).resolve_left
          (hComplete p (mem_range'_1.mpr (by omega)))
  · have hAct : tb.Alive source i := ⟨hi, hRow 0 ▸ hMaster⟩
    have hFilling : tb.Filling source (tb.Alive source) st i 1 st₁ := by
      rcases hCase with rfl | ⟨-, rfl⟩ | hChoose
      · exact h.filling_of_table (hFillable hMaster) hMaster h.books rfl
      · exact h.filling_of_table (hFillable hMaster) hMaster (h.books.keepCopy _ _) rfl
      · have hZero : 0 < tb.copyCount := by
          have hRange := mem_range'_1.mp hn
          omega
        exact (demoteMaster_spec h hAct hMaster hNonzero (hFillable hMaster) hn hEmpty).places
          hAct hZero hChoose
    obtain ⟨hSound, hOthers, hFilled⟩ := chooseSlaveForInvalid_spec hFilling hAct hSlaves
    exact ⟨hSound, hOthers, fun _ => hFilled⟩

/-- The first phase has come to bucket `i`: the rows from there on are those of the source, and
those before it are complete. -/
structure FilledUpTo (tb : TableBuilder) (source : HashTable) (i : Nat) (t : HashTable) : Prop where
  later : ∀ b, i ≤ b → ∀ p, t p b = source p b
  earlier : ∀ b < i, tb.Available (source 0 b) → tb.Filled t b

theorem filledUpTo_zero (tb : TableBuilder) (source : HashTable) : tb.FilledUpTo source 0 source :=
  ⟨fun _ _ _ => rfl, fun _ hb => absurd hb (Nat.not_lt_zero _)⟩

theorem FilledUpTo.filled (h : tb.FilledUpTo source i t) (hi : tb.bucketCount ≤ i) :
    ∀ b, tb.Alive source b → tb.Filled t b :=
  fun b hb => h.earlier b (lt_of_lt_of_le hb.1 hi) hb.2

/-- **Step lemma of the first phase.** -/
theorem FilledUpTo.fillBucket (h : tb.FilledUpTo source i st.table)
    (hNonzero : ¬ tb.Available invalidFlag) (hSource : tb.SourceOk source)
    (hSound : tb.Sound source (tb.Alive source) st) (hi : i < tb.bucketCount)
    (hFill : tb.fillBucket rand st i = some st') :
    tb.Sound source (tb.Alive source) st' ∧ tb.FilledUpTo source (i + 1) st'.table := by
  obtain ⟨hSound', hOthers, hFilled⟩ := fillBucket_spec hNonzero hSource hSound hi
    (h.later i (le_refl i)) hFill
  refine ⟨hSound', ?_, ?_⟩
  · intro b hb p
    rw [hOthers b (by omega)]
    exact h.later b (by omega) p
  · intro b hb hAvailable
    by_cases hbi : b = i
    · subst hbi
      exact hFilled hAvailable
    · intro p hp
      rw [hOthers b hbi]
      exact h.earlier b (by omega) hAvailable p hp

/-- **The first phase.** Every bucket with an available master is complete; every
other bucket is as it was. -/
theorem fill_rows (hNonzero : ¬ tb.Available invalidFlag) (hSource : tb.SourceOk source)
    (h : tb.Sound source (tb.Alive source) st) (hTable : st.table = source)
    (hRun : run (tb.fillBucket rand) st (List.range' 0 tb.bucketCount) = some st') :
    tb.Sound source (tb.Alive source) st' ∧
      ∀ b, tb.Alive source b → tb.Filled st'.table b := by
  have hEnd := run_range'
    (fun i s => tb.Sound source (tb.Alive source) s ∧ tb.FilledUpTo source i s.table)
    (by
      rintro i s s' - hi ⟨hSound, hRows⟩ hStep
      exact hRows.fillBucket hNonzero hSource hSound (by omega) hStep)
    ⟨h, hTable ▸ filledUpTo_zero tb source⟩ hRun
  exact ⟨hEnd.1, hEnd.2.filled (Nat.zero_add _).ge⟩

/-- The slaves of a row are chosen one after the other. -/
theorem Sound.chooseSlaves (hSound : tb.Sound source act st) (hi : act i)
    (hMaster : tb.Available (st.table 0 i))
    (hRun : run (fun st j => tb.chooseNodeInvalid rand st i j false) st
      (List.range' 1 (tb.copyCount - 1)) = some st') :
    tb.Sound source act st' ∧ (∀ b, b ≠ i → ∀ p, st'.table p b = st.table p b) ∧
      tb.Filled st'.table i := by
  have hEnd := run_range'
    (fun j u => tb.Sound source act u ∧ (∀ b, b ≠ i → ∀ p, u.table p b = st.table p b) ∧
      ∀ p < j, p < tb.copyCount → tb.Available (u.table p i))
    (by
      rintro j u u' hj1 hj ⟨hSoundU, hOthers, hFront⟩ hCell
      obtain ⟨hSoundU', hPlaces⟩ := hSoundU.chooseNodeInvalid hi (by omega) hCell
      refine ⟨hSoundU', ?_, ?_⟩
      · intro b hb p
        rw [hPlaces.other hb]
        exact hOthers b hb p
      · intro p hp hpc
        by_cases hpj : p = j
        · subst hpj
          exact hPlaces.available
        · rw [hPlaces.position_ne hpj]
          exact hFront p (by omega) hpc)
    ⟨hSound, fun _ _ _ => rfl, fun p hp _ => by
      rw [show p = 0 by omega]
      exact hMaster⟩ hRun
  obtain ⟨hSound', hOthers, hFront⟩ := hEnd
  exact ⟨hSound', hOthers, fun p hp => hFront p (by omega) hp⟩

/-- **The first table.** Every cell of every bucket is chosen anew. -/
theorem buildFirstTime_rows (hCopies : 0 < tb.copyCount)
    (h : tb.Sound source (· < tb.bucketCount) st) (hBuild : tb.buildFirstTime rand st = some st') :
    tb.Sound source (· < tb.bucketCount) st' ∧ ∀ b < tb.bucketCount, tb.Filled st'.table b := by
  obtain ⟨st₁, hMasters, hSlaves⟩ := Option.bind_eq_some_iff.mp hBuild
  -- the masters
  obtain ⟨hSound₁, hFirst⟩ := run_range'
    (fun i s => tb.Sound source (· < tb.bucketCount) s ∧ ∀ b < i, tb.Available (s.table 0 b))
    (by
      rintro i s s' - hi ⟨hSound, hDone⟩ hStep
      obtain ⟨hSound', hPlaces⟩ := hSound.chooseNodeInvalid (by omega) hCopies hStep
      refine ⟨hSound', ?_⟩
      intro b hb
      by_cases hbi : b = i
      · subst hbi
        exact hPlaces.available
      · rw [hPlaces.other hbi]
        exact hDone b (by omega))
    ⟨h, by simp⟩ hMasters
  -- the slaves, bucket by bucket
  have hEnd := run_range'
    (fun i s => tb.Sound source (· < tb.bucketCount) s ∧
      (∀ b < tb.bucketCount, tb.Available (s.table 0 b)) ∧ ∀ b < i, tb.Filled s.table b)
    (by
      rintro i s s' - hi ⟨hSound, hMaster, hDone⟩ hStep
      obtain ⟨hSound', hOthers, hFilled⟩ :=
        hSound.chooseSlaves (show i < tb.bucketCount by omega) (hMaster i (by omega)) hStep
      refine ⟨hSound', ?_, ?_⟩
      · intro b hb
        by_cases hbi : b = i
        · subst hbi
          exact hFilled 0 hCopies
        · rw [hOthers b hbi]
          exact hMaster b hb
      · intro b hb
        by_cases hbi : b = i
        · subst hbi
          exact hFilled
        · intro p hp
          rw [hOthers b hbi]
          exact hDone b (by omega) p hp)
    ⟨hSound₁, fun b hb => hFirst b (by omega), by simp⟩ hSlaves
  refine ⟨hEnd.1, ?_⟩
  intro b hb
  exact hEnd.2.2 b (by omega)

/-- **Loop rule.** What `chooseNode` keeps, the balancing loops keep. -/
theorem balance_invariant (Inv : Rebuild → Prop)
    (hStep : ∀ st nodeInfo, Inv st → Inv (tb.chooseNode rand st nodeInfo masterFlag)) (h : Inv st)
    (hBalance : tb.balance rand masterFlag fuel st = some st') : Inv st' := by
  induction fuel generalizing st with
  | zero => cases hBalance
  | succ fuel ih =>
    rw [balance] at hBalance
    split at hBalance
    · cases hBalance
    · split at hBalance
      · exact ih (hStep _ _ h) hBalance
      · cases hBalance
        exact h

theorem chooseNode_rows (rand : Nat → Nat) (h : tb.Sound source act st)
    (hFilled : ∀ b, act b → tb.Filled st.table b) (nodeInfo : ServerId) (masterFlag : Bool) :
    tb.Sound source act (tb.chooseNode rand st nodeInfo masterFlag) ∧
      ∀ b, act b → tb.Filled (tb.chooseNode rand st nodeInfo masterFlag).table b := by
  obtain ⟨hBooks, hTable⟩ : tb.Books act (tb.chooseNode rand st nodeInfo masterFlag) ∧ _ :=
    chooseNode_spec h.books nodeInfo masterFlag
  rcases hTable with hSame | ⟨b, p, hb, hp, hPlaces⟩
  · refine ⟨⟨hBooks, ?_, ?_⟩, ?_⟩
    · rw [hSame]
      exact h.distinct
    · rw [hSame]
      exact h.frame
    · rw [hSame]
      exact hFilled
  · exact ⟨h.places hBooks hb hPlaces, fun b' hb' => hPlaces.filled (hFilled b' hb')⟩

/-- **The balancing loops.** Complete rows stay complete. -/
theorem balance_rows (h : tb.Sound source act st) (hFilled : ∀ b, act b → tb.Filled st.table b)
    (hBalance : tb.balance rand masterFlag fuel st = some st') :
    tb.Sound source act st' ∧ ∀ b, act b → tb.Filled st'.table b := by
  refine balance_invariant
    (fun st => tb.Sound source act st ∧ ∀ b, act b → tb.Filled st.table b) ?_ ⟨h, hFilled⟩ hBalance
  rintro st nodeInfo ⟨h, hFilled⟩
  exact chooseNode_rows rand h hFilled nodeInfo masterFlag

end Phases

-- The whole rebuild

section Whole

variable {tb : TableBuilder} {rand : Nat → Nat} {source : HashTable}

theorem mem_keys_initTokenCount {node : ServerId} (h : node ∈ tb.initTokenCount.keys) :
    tb.Available node := by
  rcases OrdMap.mem_keys_foldl_emplace h with h | ⟨e, he, rfl⟩
  · simp [OrdMap.keys] at h
  · exact mem_map_of_mem he

theorem keys_updateNodeCounts (nodes : List ServerId) (m : OrdMap ServerId Int) :
    (updateNodeCounts nodes m).keys = m.keys := by
  unfold updateNodeCounts
  induction nodes generalizing m with
  | nil => rfl
  | cons node nodes ih => rw [foldl_cons, ih, OrdMap.keys_modify]

/-- The bucket sets name the masters, or the slaves, of the available masters' rows. -/
theorem initBucketSet_all {Q : Nat → Nat → Prop} (masterFlag : Bool)
    (hNew : ∀ i j, tb.Alive source i →
      (if masterFlag then j = 0 else 1 ≤ j ∧ j < tb.copyCount) → Q i j) :
    SetsAll Q (tb.initBucketSet source masterFlag) := by
  unfold initBucketSet
  refine List.foldlRecOn _ _ ?_ ?_
  · refine List.foldlRecOn _ _ ?_ ?_
    · intro e he
      simp at he
    · intro sets hSets e _ x hx
      rcases OrdMap.mem_emplace hx with rfl | hx
      · simp
      · exact hSets x hx
  · intro sets hSets i hi
    unfold enterRow
    split
    · rename_i hAvailable
      have hAlive : tb.Alive source i := ⟨mem_range.mp hi, isAvailable_iff.mp hAvailable⟩
      cases masterFlag with
      | true => exact hSets.insert _ (hNew i 0 hAlive rfl)
      | false =>
        refine List.foldlRecOn _ _ hSets ?_
        intro sets' hSets' j hj
        have hRange := mem_range'_1.mp hj
        exact hSets'.insert _ (hNew i j hAlive ⟨hRange.1, by omega⟩)
    · exact hSets

theorem initBucketSet_within (masterFlag : Bool) (hCopies : 0 < tb.copyCount) :
    SetsWithin (tb.Alive source) tb.copyCount (tb.initBucketSet source masterFlag) := by
  refine initBucketSet_all (Q := fun b p => tb.Alive source b ∧ p < tb.copyCount) masterFlag ?_
  intro i j hAlive hPosition
  refine ⟨hAlive, ?_⟩
  cases masterFlag with
  | true => exact (show j = 0 from hPosition) ▸ hCopies
  | false => exact hPosition.2

theorem initRebuild_sound (hCopies : 0 < tb.copyCount) (hSource : tb.SourceOk source) :
    tb.Sound source (tb.Alive source) (tb.initRebuild source) where
  books :=
    { flags := fun _ _ hNode => mem_keys_initTokenCount hNode
      migrates := by
        intro masterFlag node hNode
        rcases OrdMap.mem_keys_foldl_emplace hNode with h | ⟨e, he, rfl⟩
        · simp [OrdMap.keys] at h
        · have hKey := mem_map_of_mem (f := Prod.fst) he
          refine mem_keys_initTokenCount ?_
          rw [← keys_updateNodeCounts]
          exact hKey
      sets := fun masterFlag => initBucketSet_within masterFlag hCopies }
  distinct := fun b hb => hSource.distinct b hb.1
  frame := fun _ _ _ => rfl

variable {t : HashTable} {b fuel : Nat}

theorem Filled.injective (h : tb.Filled t b) (hNonzero : ¬ tb.Available invalidFlag)
    (hDistinct : tb.Distinct t b) {p q : Nat} (hp : p < tb.copyCount) (hq : q < tb.copyCount)
    (hpq : p ≠ q) : t p b ≠ t q b := by
  refine hDistinct p hp q hq hpq ?_
  intro hEq
  exact hNonzero (hEq ▸ h p hp)

/-- No bucket has a master. -/
def MastersEmpty (tb : TableBuilder) (source : HashTable) : Prop :=
  ∀ b < tb.bucketCount, source 0 b = invalidFlag

/-- **The phases of a successful rebuild.** After the first, the table is built as a new
one when no bucket has a master, and balanced when bucket 0 has one. -/
theorem rebuildTableNew_phases (hOk : tb.rebuildTableNew rand fuel source = some (.ok t)) :
    ∃ st, run (tb.fillBucket rand) (tb.initRebuild source) (List.range' 0 tb.bucketCount) =
        some st ∧
      ((∃ st', (∀ b < tb.bucketCount, st.table 0 b = invalidFlag) ∧
          tb.buildFirstTime rand st = some st' ∧ st'.table = t) ∨
        ∃ st₁ st₂, st.table 0 0 ≠ invalidFlag ∧ tb.balance rand true fuel st = some st₁ ∧
          tb.balance rand false fuel st₁ = some st₂ ∧ st₂.table = t) := by
  unfold rebuildTableNew at hOk
  split at hOk
  · cases hOk
  split at hOk
  · cases hOk
  split at hOk
  · cases hOk
  rename_i st hFill
  refine ⟨st, hFill, ?_⟩
  split at hOk
  · split at hOk
    · rename_i hAll
      split at hOk
      · cases hOk
      · rename_i st' hBuild
        cases hOk
        refine Or.inl ⟨st', ?_, hBuild, rfl⟩
        intro b hb
        simpa using all_eq_true.mp hAll b (mem_range.mpr hb)
    · cases hOk
  · rename_i hFirst
    obtain ⟨st₁, hMaster, hRest⟩ := Option.bind_eq_some_iff.mp hOk
    obtain ⟨st₂, hSlave, hResult⟩ := Option.map_eq_some_iff.mp hRest
    split at hResult
    · cases hResult
    · cases hResult
      exact Or.inr ⟨st₁, st₂, hFirst, hMaster, hSlave, rfl⟩

/-- A successful rebuild ends with all cells chosen anew, for a table without
masters, or with the rows of the available masters balanced. -/
theorem rebuildTableNew_ok (hBuckets : 1 ≤ tb.bucketCount) (hCopies : 1 ≤ tb.copyCount)
    (hNonzero : ¬ tb.Available invalidFlag) (hSource : tb.SourceOk source)
    (hOk : tb.rebuildTableNew rand fuel source = some (.ok t)) :
    ∃ (act : Nat → Prop) (st : Rebuild), st.table = t ∧ tb.Sound source act st ∧
      (∀ b, act b → tb.Filled t b) ∧
      ((tb.MastersEmpty source ∧ act = (· < tb.bucketCount)) ∨
        (¬ tb.MastersEmpty source ∧ act = tb.Alive source)) := by
  obtain ⟨st, hFill, hCase⟩ := rebuildTableNew_phases hOk
  obtain ⟨hSound, hFilled⟩ := fill_rows hNonzero hSource (initRebuild_sound hCopies hSource) rfl
    hFill
  rcases hCase with ⟨st', hEmpty, hBuild, rfl⟩ | ⟨st₁, st₂, hFirst, hMaster, hSlave, rfl⟩
  · -- a bucket with an available master would have one now
    have hDead : ∀ b, ¬ tb.Alive source b := by
      intro b hb
      have hMaster := hFilled b hb 0 hCopies
      rw [hEmpty b hb.1] at hMaster
      exact hNonzero hMaster
    have hSame : ∀ b p, st.table p b = source p b := fun b p => hSound.frame b (hDead b) p
    have hStart : tb.Sound source (· < tb.bucketCount) st := by
      refine ⟨hSound.books.mono fun b hb => absurd hb (hDead b), ?_, fun b _ => hSame b⟩
      intro b hb p hp q hq
      rw [hSame, hSame]
      exact hSource.distinct b hb p hp q hq
    obtain ⟨hSound', hFilled'⟩ := buildFirstTime_rows hCopies hStart hBuild
    refine ⟨_, st', rfl, hSound', hFilled', Or.inl ⟨?_, rfl⟩⟩
    intro b hb
    rw [← hSame]
    exact hEmpty b hb
  · obtain ⟨hSound₁, hFilled₁⟩ := balance_rows hSound hFilled hMaster
    obtain ⟨hSound₂, hFilled₂⟩ := balance_rows hSound₁ hFilled₁ hSlave
    refine ⟨_, st₂, rfl, hSound₂, hFilled₂, Or.inr ⟨?_, rfl⟩⟩
    intro hEmpty
    -- bucket 0 was skipped, so its master is still missing
    have hZero := hEmpty 0 hBuckets
    refine hFirst ((hSound.frame 0 ?_ 0).trans hZero)
    intro hAlive
    exact hNonzero (hZero ▸ hAlive.2)

/-- When a rebuild succeeds, the row of every bucket whose master was available, and
every row when all masters were empty, has its copies on pairwise distinct
available servers. Every other row is as it was. -/
theorem rebuildTableNew_rows (tb : TableBuilder) (rand : Nat → Nat) (fuel : Nat)
    (source : HashTable) (hBuckets : 1 ≤ tb.bucketCount) (hCopies : 1 ≤ tb.copyCount)
    (hNonzero : ¬ tb.Available invalidFlag) (hSource : tb.SourceOk source)
    (hOk : tb.rebuildTableNew rand fuel source = some (.ok t)) (hb : b < tb.bucketCount) :
    (tb.Available (source 0 b) ∨ tb.MastersEmpty source →
      (∀ p < tb.copyCount, tb.Available (t p b)) ∧
        ∀ p < tb.copyCount, ∀ q < tb.copyCount, p ≠ q → t p b ≠ t q b) ∧
    (¬ (tb.Available (source 0 b) ∨ tb.MastersEmpty source) →
      ∀ p < tb.copyCount, t p b = source p b) := by
  obtain ⟨act, st, rfl, hSound, hFilled, hCase⟩ :=
    rebuildTableNew_ok hBuckets hCopies hNonzero hSource hOk
  have hAct : act b ↔ tb.Available (source 0 b) ∨ tb.MastersEmpty source := by
    rcases hCase with ⟨hEmpty, rfl⟩ | ⟨hSome, rfl⟩
    · exact ⟨fun _ => Or.inr hEmpty, fun _ => hb⟩
    · exact ⟨fun h => Or.inl h.2, fun h => ⟨hb, h.resolve_right hSome⟩⟩
  refine ⟨?_, ?_⟩
  · intro h
    have hRow := hFilled b (hAct.mpr h)
    exact ⟨hRow, fun p hp q hq hpq =>
      hRow.injective hNonzero (hSound.distinct b (hAct.mpr h)) hp hq hpq⟩
  · intro h p _
    exact hSound.frame b (fun hb' => h (hAct.mp hb')) p

theorem rebuildTableNew_rows_one_slave :
    ∃ t, rebuildTableNew ⟨1, 2, setAvailableServer [5, 6]⟩ (fun _ => 0) 1
        (fun copy _ => if copy = 0 then 5 else 0) = some (.ok t) ∧
      t 0 0 = 5 ∧ t 1 0 = 6 ∧ t 0 0 ≠ t 1 0 := by
  refine ⟨_, rfl, rfl, rfl, ?_⟩
  have hRows := rebuildTableNew_rows ⟨1, 2, setAvailableServer [5, 6]⟩ (fun _ => 0) 1
    (fun copy _ => if copy = 0 then 5 else 0) (by decide) (by decide) (by decide)
    ⟨by decide, by decide⟩ rfl (b := 0) (by decide)
  exact (hRows.1 (Or.inl (by decide))).2 0 (by decide) 1 (by decide) (by decide)

/-- One bucket of two copies that has lost its master and still has server 5 as its
slave: all masters are empty, so the rebuild takes the table for a new one and
gives the bucket a master. -/
theorem rebuildTableNew_fills_dead_row :
    SourceOk ⟨1, 2, setAvailableServer [5, 6]⟩ (fun copy _ => if copy = 0 then 0 else 5) ∧
      ∃ t, rebuildTableNew ⟨1, 2, setAvailableServer [5, 6]⟩ (fun _ => 0) 1
          (fun copy _ => if copy = 0 then 0 else 5) = some (.ok t) ∧
        t 0 0 = 6 ∧ t 1 0 = 5 :=
  ⟨⟨by decide, by decide⟩, _, rfl, rfl, rfl⟩

end Whole

end TableBuilder

end MyBase
