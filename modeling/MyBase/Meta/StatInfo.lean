import MyBase.Lib.OrdMap
import MyBase.Lib.Run
import MyBase.Public.DataBuffer

/-!
# MyBase — statistics of a node

`StatInfoDetail` is a list of counters, `NodeStatInfo` such a list for each area. They are
sent as bytes, and added up over the nodes by `update_stat_info`: position by position, a
missing one counting as 0. A counter is an `int64_t`; sums wrap, and only the 64 bits matter.

`none` is an assertion of the buffer that fails, or a loop that does not end: the loops over
a list count in 32 bits.
-/

namespace MyBase

open Lib List

/-- `StatInfoDetail::data_holder`. -/
abbrev StatInfoDetail := List UInt64

namespace StatInfoDetail

def getUnitValue (d : StatInfoDetail) (i : Nat) : UInt64 := d.getD i 0

/-- The list is made longer first, when it is too short. -/
def setUnitValue (d : StatInfoDetail) (i : Nat) (v : UInt64) : StatInfoDetail :=
  (d ++ List.replicate (i + 1 - d.length) 0).set i v

def addUnitValue (d : StatInfoDetail) (i : Nat) (v : UInt64) : StatInfoDetail :=
  d.setUnitValue i (v + d.getUnitValue i)

/-- The loop of `update_stat_info_detail`, over the positions from `i` on. -/
def addFrom (d : StatInfoDetail) (i : Nat) : List UInt64 → StatInfoDetail
  | [] => d
  | v :: sv => addFrom (d.addUnitValue i v) (i + 1) sv

/-- With `2 ^ 32` values the `uint32_t` index never reaches the end. -/
def updateStatInfoDetail (d sv : StatInfoDetail) : Option StatInfoDetail :=
  if sv.length < 2 ^ 32 then some (d.addFrom 0 sv) else none

def encode (d : StatInfoDetail) (output : DataBuffer) : Option DataBuffer := do
  let output ← output.writeInt32 d.length
  d.foldlM (fun output v => output.writeInt64 v.toNat) output

/-- The loop of `decode`. -/
def readValues : Nat → DataBuffer → Option (StatInfoDetail × DataBuffer)
  | 0, input => some ([], input)
  | n + 1, input => do
    let (v, input) ← input.readInt64
    let (d, input) ← readValues n input
    some (UInt64.ofNat v :: d, input)

def decode (input : DataBuffer) : Option (StatInfoDetail × DataBuffer) := do
  let (size, input) ← input.readInt32
  readValues size input

end StatInfoDetail

/-- The keys are `uint32_t`. -/
abbrev StatMap := OrdMap (Fin (2 ^ 32)) StatInfoDetail

structure NodeStatInfo where
  lastUpdateTime : UInt32
  dataHolder : StatMap

namespace NodeStatInfo

def create : NodeStatInfo := ⟨0, ∅⟩

/-- `data_holder[area].update_stat_info_detail(..)` for one entry; there is an empty list to
begin with when the area is new. -/
def addArea (m : StatMap) (e : Fin (2 ^ 32) × StatInfoDetail) : Option StatMap :=
  (((m.find? e.1).getD []).updateStatInfoDetail e.2).map (m.insert e.1)

def updateStatInfo (x rv : NodeStatInfo) : Option NodeStatInfo :=
  (rv.dataHolder.entries.foldlM addArea x.dataHolder).map fun m => ⟨rv.lastUpdateTime, m⟩

def encode (x : NodeStatInfo) (output : DataBuffer) : Option DataBuffer := do
  let output ← output.writeInt32 x.dataHolder.entries.length
  x.dataHolder.entries.foldlM (fun output e => do
    let output ← output.writeInt32 e.1.val
    e.2.encode output) output

/-- The loop of `decode`. -/
def readAreas : Nat → StatMap → DataBuffer → Option (StatMap × DataBuffer)
  | 0, m, input => some (m, input)
  | n + 1, m, input => do
    let (area, input) ← input.readInt32
    let (info, input) ← StatInfoDetail.decode input
    readAreas n (m.insert (Fin.ofNat _ area) info) input

def decode (x : NodeStatInfo) (input : DataBuffer) : Option (NodeStatInfo × DataBuffer) := do
  let (size, input) ← input.readInt32
  let (m, input) ← readAreas size ∅ input
  some ({ x with dataHolder := m }, input)

/-- `update_stat_info` for one after the other. -/
def updateAll (x : NodeStatInfo) (infos : List NodeStatInfo) : Option NodeStatInfo :=
  run updateStatInfo x infos

end NodeStatInfo

-- Sums of lists

namespace StatInfoDetail

theorem ext_unit {d d' : StatInfoDetail} (hLen : d.length = d'.length)
    (h : ∀ i, d.getUnitValue i = d'.getUnitValue i) : d = d' := by
  refine ext_getElem hLen fun i hi hi' => ?_
  have hAt := h i
  rwa [getUnitValue, getUnitValue, getD_eq_getElem _ _ hi,
    getD_eq_getElem _ _ hi'] at hAt

theorem length_setUnitValue (d : StatInfoDetail) (i : Nat) (v : UInt64) :
    (d.setUnitValue i v).length = max d.length (i + 1) := by
  rw [setUnitValue, length_set, length_append, length_replicate]
  omega

theorem getUnitValue_setUnitValue (d : StatInfoDetail) (i : Nat) (v : UInt64) (j : Nat) :
    (d.setUnitValue i v).getUnitValue j = if j = i then v else d.getUnitValue j := by
  rw [getUnitValue, setUnitValue, getD_eq_getElem?_getD, getElem?_set,
    getUnitValue, getD_eq_getElem?_getD]
  by_cases hij : i = j
  · subst hij
    rw [if_pos rfl, if_pos rfl, if_pos (by
      rw [length_append, length_replicate]
      omega)]
    rfl
  · rw [if_neg hij, if_neg fun h => hij h.symm]
    by_cases hj : j < d.length
    · rw [getElem?_append_left hj]
    · rw [getElem?_append_right (not_lt.mp hj), getElem?_eq_none (not_lt.mp hj),
        getElem?_replicate]
      split <;> rfl

theorem length_addFrom (d : StatInfoDetail) (i : Nat) (sv : List UInt64) :
    (d.addFrom i sv).length = if sv = [] then d.length else max d.length (i + sv.length) := by
  induction sv generalizing d i with
  | nil => rfl
  | cons v sv ih =>
    rw [addFrom, ih, addUnitValue, length_setUnitValue,
      if_neg (cons_ne_nil v sv), length_cons]
    split
    · rename_i hNil
      rw [hNil]
      rfl
    · omega

theorem get_addFrom (d : StatInfoDetail) (i : Nat) (sv : List UInt64) (j : Nat) :
    (d.addFrom i sv).getUnitValue j =
      d.getUnitValue j + if i ≤ j then getUnitValue sv (j - i) else 0 := by
  induction sv generalizing d i with
  | nil => simp [addFrom, getUnitValue]
  | cons v sv ih =>
    rw [addFrom, ih, addUnitValue, getUnitValue_setUnitValue]
    rcases Nat.lt_trichotomy j i with hLt | rfl | hGt
    · rw [if_neg (by omega), if_neg (by omega), if_neg (by omega)]
    · rw [if_pos rfl, if_neg (by omega), if_pos le_rfl, Nat.sub_self, UInt64.add_zero,
        UInt64.add_comm]
      rfl
    · obtain ⟨k, rfl⟩ : ∃ k, j = i + 1 + k := ⟨j - (i + 1), by omega⟩
      rw [if_neg (by omega), if_pos (by omega), if_pos (by omega), Nat.add_sub_cancel_left,
        show i + 1 + k - i = k + 1 by omega]
      rfl

theorem length_add (d sv : StatInfoDetail) : (d.addFrom 0 sv).length = max d.length sv.length := by
  rw [length_addFrom, Nat.zero_add]
  split
  · rename_i hNil
    simp [hNil]
  · rfl

theorem get_add (d sv : StatInfoDetail) (j : Nat) :
    (d.addFrom 0 sv).getUnitValue j = d.getUnitValue j + sv.getUnitValue j := by
  rw [get_addFrom, if_pos (Nat.zero_le j), Nat.sub_zero]

/-- **Swap law.** -/
theorem add_right_comm (d a b : StatInfoDetail) :
    (d.addFrom 0 a).addFrom 0 b = (d.addFrom 0 b).addFrom 0 a := by
  refine ext_unit ?_ fun i => ?_
  · rw [length_add, length_add, length_add, length_add]
    omega
  · rw [get_add, get_add, get_add, get_add, UInt64.add_assoc, UInt64.add_assoc,
      UInt64.add_comm (a.getUnitValue i)]

end StatInfoDetail

-- Sums of maps

namespace NodeStatInfo

variable {l : List (Fin (2 ^ 32) × StatInfoDetail)} {infos : List NodeStatInfo}

/-- A loop over entries with different keys, each of which sets its key to something that
depends on what is there: what is found afterwards. -/
theorem find?_foldl_insert (f : Option StatInfoDetail → StatInfoDetail → StatInfoDetail)
    (hl : (l.map Prod.fst).Nodup) (m : StatMap) (k : Fin (2 ^ 32)) :
    (l.foldl (fun m e => m.insert e.1 (f (m.find? e.1) e.2)) m).find? k =
      (l.find? fun e => decide (e.1 = k)).elim (m.find? k) fun e => some (f (m.find? k) e.2) := by
  induction l generalizing m with
  | nil => rfl
  | cons e l ih =>
    obtain ⟨hNot, hRest⟩ := nodup_cons.mp hl
    rw [foldl_cons, ih hRest, OrdMap.find?_insert]
    by_cases hk : k = e.1
    · subst hk
      have hNone : l.find? (fun e' => decide (e'.1 = e.1)) = none := by
        rw [find?_eq_none]
        intro e' he' hSame
        exact hNot (mem_map.mpr ⟨e', he', of_decide_eq_true hSame⟩)
      have hHere : (e :: l).find? (fun e' => decide (e'.1 = e.1)) = some e :=
        find?_cons_of_pos (decide_eq_true rfl)
      rw [hNone, hHere, if_pos rfl]
      rfl
    · rw [if_neg hk, find?_cons_of_neg (by simpa using fun h => hk h.symm)]

/-- The map with the entries of another added. -/
def plus (m a : StatMap) : StatMap :=
  a.entries.foldl (fun m e => m.insert e.1 (((m.find? e.1).getD []).addFrom 0 e.2)) m

theorem find?_plus (m a : StatMap) (k : Fin (2 ^ 32)) :
    (plus m a).find? k =
      (a.find? k).elim (m.find? k) fun sv => some (((m.find? k).getD []).addFrom 0 sv) := by
  have hFind : a.find? k = (a.entries.find? fun e => decide (e.1 = k)).map Prod.snd := rfl
  rw [plus, find?_foldl_insert (fun o sv => (o.getD []).addFrom 0 sv) a.keys_nodup, hFind]
  cases a.entries.find? (fun e => decide (e.1 = k)) <;> rfl

/-- **Swap law.** -/
theorem plus_right_comm (m a b : StatMap) : plus (plus m a) b = plus (plus m b) a := by
  refine OrdMap.ext_find? fun k => ?_
  rw [find?_plus, find?_plus, find?_plus, find?_plus]
  cases a.find? k with
  | none => rfl
  | some sv =>
    cases b.find? k with
    | none => rfl
    | some sv' => exact congrArg some (StatInfoDetail.add_right_comm _ _ _)

/-- No list is so long that a loop over it does not end. -/
def Short (m : StatMap) : Prop := ∀ e ∈ m.entries, e.2.length < 2 ^ 32

theorem addArea_eq {m : StatMap} {e : Fin (2 ^ 32) × StatInfoDetail} (he : e.2.length < 2 ^ 32) :
    addArea m e = some (m.insert e.1 (((m.find? e.1).getD []).addFrom 0 e.2)) := by
  rw [addArea, StatInfoDetail.updateStatInfoDetail, if_pos he]
  rfl

theorem foldlM_addArea (hl : ∀ e ∈ l, e.2.length < 2 ^ 32) (m : StatMap) :
    l.foldlM addArea m =
      some (l.foldl (fun m e => m.insert e.1 (((m.find? e.1).getD []).addFrom 0 e.2)) m) := by
  induction l generalizing m with
  | nil => rfl
  | cons e l ih =>
    rw [foldlM_cons, addArea_eq (hl e mem_cons_self), Option.bind_eq_bind,
      Option.bind_some, ih (fun e' he' => hl e' (mem_cons_of_mem _ he')), foldl_cons]

theorem updateStatInfo_eq (x : NodeStatInfo) {rv : NodeStatInfo} (h : Short rv.dataHolder) :
    x.updateStatInfo rv = some ⟨rv.lastUpdateTime, plus x.dataHolder rv.dataHolder⟩ := by
  rw [updateStatInfo, foldlM_addArea h]
  rfl

theorem updateAll_eq (x : NodeStatInfo) (h : ∀ y ∈ infos, Short y.dataHolder) :
    (x.updateAll infos).map dataHolder =
      some (infos.foldl (fun m y => plus m y.dataHolder) x.dataHolder) := by
  induction infos generalizing x with
  | nil => rfl
  | cons y infos ih =>
    rw [updateAll, run, updateStatInfo_eq x (h y mem_cons_self), Option.bind_some]
    exact ih _ fun z hz => h z (mem_cons_of_mem _ hz)

/-- The order in which statistics are added makes no difference. -/
theorem updateAll_perm (x : NodeStatInfo) {order : List NodeStatInfo}
    (h : ∀ y ∈ infos, Short y.dataHolder) (hOrder : order.Perm infos) :
    (x.updateAll order).map dataHolder = (x.updateAll infos).map dataHolder := by
  rw [updateAll_eq x h, updateAll_eq x fun y hy => h y (hOrder.mem_iff.mp hy)]
  exact congrArg some (hOrder.foldl_eq' (fun a _ b _ m => plus_right_comm m _ _) _)

end NodeStatInfo

-- The bytes

open DataBuffer

namespace StatInfoDetail

/-- What `encode` writes. -/
def encoding (d : StatInfoDetail) : Bytes := be 4 d.length ++ d.flatMap fun v => be 8 v.toNat

theorem encode_writes (d : StatInfoDetail) : Writes d.encode d.encoding := by
  have hSize : Writes (fun b => b.writeInt32 d.length) (be 4 d.length) :=
    writes_write (by decide) d.length
  have hValue : ∀ v : UInt64, Writes (fun b => b.writeInt64 v.toNat) (be 8 v.toNat) :=
    fun v => writes_write (by decide) v.toNat
  exact hSize.comp (Writes.foldlM hValue d)

theorem length_encoding (d : StatInfoDetail) : d.encoding.length = 4 + 8 * d.length := by
  rw [encoding, length_append, be_length, length_flatMap]
  simp [be_length, Nat.mul_comm]

theorem readValues_reads (d : StatInfoDetail) :
    Reads (readValues d.length) (d.flatMap fun v => be 8 v.toNat) d := by
  induction d with
  | nil => exact Reads.pure []
  | cons v d ih =>
    have hRead : Reads readInt64 (be 8 v.toNat) v.toNat := reads_read (by omega) v.toNat_lt
    have hRest : Reads (fun b => (readValues d.length b).bind fun out =>
        some (UInt64.ofNat v.toNat :: out.1, out.2))
        (d.flatMap fun v => be 8 v.toNat) (v :: d) := by
      have hLast := ih.bind (g := fun u b => some (v :: u, b)) (Reads.pure (v :: d))
      rw [UInt64.ofNat_toNat]
      rwa [append_nil] at hLast
    exact hRead.bind (g := fun n b => (readValues d.length b).bind fun out =>
      some (UInt64.ofNat n :: out.1, out.2)) hRest

theorem decode_reads {d : StatInfoDetail} (h : d.length < 2 ^ 32) :
    Reads decode d.encoding d :=
  (reads_read (by omega) h).bind (readValues_reads d)

end StatInfoDetail

namespace NodeStatInfo

/-- What `encode` writes for one area. -/
def areaEncoding (e : Fin (2 ^ 32) × StatInfoDetail) : Bytes := be 4 e.1.val ++ e.2.encoding

/-- What `encode` writes. -/
def encoding (x : NodeStatInfo) : Bytes :=
  be 4 x.dataHolder.entries.length ++ x.dataHolder.entries.flatMap areaEncoding

/-- How many bytes that is. -/
def encodedLength (x : NodeStatInfo) : Nat :=
  4 + (x.dataHolder.entries.map fun e => 8 + 8 * e.2.length).sum

theorem length_encoding (x : NodeStatInfo) : x.encoding.length = x.encodedLength := by
  rw [encoding, length_append, be_length, length_flatMap, encodedLength]
  congr 2
  refine map_congr_left fun e _ => ?_
  rw [areaEncoding, length_append, be_length, StatInfoDetail.length_encoding]
  omega

theorem encode_writes (x : NodeStatInfo) : Writes x.encode x.encoding := by
  have hInt : ∀ n : Nat, Writes (fun b => b.writeInt32 n) (be 4 n) :=
    fun n => writes_write (by decide) n
  have hArea : ∀ e : Fin (2 ^ 32) × StatInfoDetail,
      Writes (fun b => (b.writeInt32 e.1.val).bind e.2.encode) (areaEncoding e) :=
    fun e => (hInt e.1.val).comp e.2.encode_writes
  exact (hInt _).comp (Writes.foldlM hArea x.dataHolder.entries)

/-- The areas are read back one after the other. -/
theorem readAreas_reads {l : List (Fin (2 ^ 32) × StatInfoDetail)}
    (hl : ∀ e ∈ l, e.2.length < 2 ^ 32) (m : StatMap) :
    Reads (readAreas l.length m) (l.flatMap areaEncoding)
      (l.foldl (fun m e => m.insert e.1 e.2) m) := by
  induction l generalizing m with
  | nil => exact Reads.pure m
  | cons e l ih =>
    have hArea : Reads readInt32 (be 4 e.1.val) e.1.val := reads_read (by omega) e.1.isLt
    have hInfo := StatInfoDetail.decode_reads (hl e mem_cons_self)
    have hRest := ih (fun e' he' => hl e' (mem_cons_of_mem _ he')) (m.insert e.1 e.2)
    have hOne : Fin.ofNat (2 ^ 32) e.1.val = e.1 := Fin.ofNat_val_eq_self e.1
    rw [flatMap_cons, areaEncoding, append_assoc]
    refine hArea.bind (g := fun n b => (StatInfoDetail.decode b).bind fun out =>
      readAreas l.length (m.insert (Fin.ofNat _ n) out.1) out.2) ?_
    refine hInfo.bind (g := fun info b =>
      readAreas l.length (m.insert (Fin.ofNat _ e.1.val) info) b) ?_
    rw [hOne]
    exact hRest

theorem foldl_insert_entries (m : StatMap) :
    m.entries.foldl (fun m e => m.insert e.1 e.2) ∅ = m := by
  refine OrdMap.ext_find? fun k => ?_
  rw [find?_foldl_insert (fun _ sv => sv) m.keys_nodup, OrdMap.find?_empty, OrdMap.find?]
  cases m.entries.find? (fun e => decide (e.1 = k)) <;> rfl

theorem decode_reads {x : NodeStatInfo} (into : NodeStatInfo) (hShort : Short x.dataHolder)
    (hCount : x.dataHolder.entries.length < 2 ^ 32) :
    Reads into.decode x.encoding { into with dataHolder := x.dataHolder } := by
  have hAreas := readAreas_reads hShort ∅
  rw [foldl_insert_entries] at hAreas
  have hSize : Reads readInt32 (be 4 x.dataHolder.entries.length) x.dataHolder.entries.length :=
    reads_read (by omega) hCount
  refine hSize.bind (g := fun n b => (readAreas n ∅ b).bind fun out =>
    some ({ into with dataHolder := out.1 }, out.2)) ?_
  have hLast := hAreas.bind (g := fun m b => some ({ into with dataHolder := m }, b))
    (Reads.pure { into with dataHolder := x.dataHolder })
  rwa [append_nil] at hLast

-- A collection of statistics

/-- Decoding what `x` is encoded as restores its map. -/
def Restored (x : NodeStatInfo) : Prop :=
  ∀ into : NodeStatInfo, ∃ output y rest, x.encode DataBuffer.create = some output ∧
    into.decode output = some (y, rest) ∧ y.dataHolder = x.dataHolder

theorem short_of_encodedLength {x : NodeStatInfo} (h : x.encodedLength ≤ 2 ^ 30) :
    Short x.dataHolder ∧ x.dataHolder.entries.length < 2 ^ 32 := by
  constructor
  · intro e he
    have hPart := single_le_sum (by simp) _ (mem_map_of_mem
      (f := fun e : Fin (2 ^ 32) × StatInfoDetail => 8 + 8 * e.2.length) he)
    rw [encodedLength] at h
    omega
  · have hParts := length_le_sum_of_one_le
      (x.dataHolder.entries.map fun e => 8 + 8 * e.2.length) (by simp; omega)
    rw [length_map] at hParts
    rw [encodedLength] at h
    omega

theorem encode_eq_none {x : NodeStatInfo} (h : 2 ^ 30 < x.encodedLength) :
    x.encode DataBuffer.create = none := by
  refine (x.encode_writes _ create_sound).2 ?_
  rw [length_encoding]
  exact h.trans_le (Nat.le_add_left _ _)

theorem restored_iff (x : NodeStatInfo) : x.Restored ↔ x.encodedLength ≤ 2 ^ 30 := by
  constructor
  · intro h
    by_contra hLong
    obtain ⟨output, y, rest, hEncode, -⟩ := h create
    rw [encode_eq_none (not_le.mp hLong)] at hEncode
    exact Option.some_ne_none _ hEncode.symm
  · intro h into
    obtain ⟨output, hEncode, -, hBytes, hData⟩ := (x.encode_writes _ create_sound).1 (by
      rw [length_encoding]
      exact (Nat.zero_add _).le.trans h)
    obtain ⟨hShort, hCount⟩ := short_of_encodedLength h
    refine ⟨output, _, _, hEncode, decode_reads into hShort hCount output [] ?_, rfl⟩
    rw [hData, hBytes, append_nil]
    rfl

/-- **A collection of statistics.** Each of them is restored from its bytes, and their sum does
not depend on the order, just if none takes more than the `2 ^ 30` bytes of a buffer. -/
theorem restored_and_order_free_iff (start : NodeStatInfo) (infos : List NodeStatInfo) :
    ((∀ x ∈ infos, x.Restored) ∧
      ∃ m, ∀ order : List NodeStatInfo, order.Perm infos →
        (start.updateAll order).map dataHolder = some m) ↔
    ∀ x ∈ infos, x.encodedLength ≤ 2 ^ 30 := by
  constructor
  · rintro ⟨hRestored, -⟩ x hx
    exact (restored_iff x).mp (hRestored x hx)
  · intro h
    have hShort : ∀ x ∈ infos, Short x.dataHolder :=
      fun x hx => (short_of_encodedLength (h x hx)).1
    refine ⟨fun x hx => (restored_iff x).mpr (h x hx),
      infos.foldl (fun m y => plus m y.dataHolder) start.dataHolder, fun order hOrder => ?_⟩
    rw [updateAll_perm start hShort hOrder, updateAll_eq start hShort]

/-- Statistics of one area. -/
def ofArea (area : Fin (2 ^ 32)) (d : StatInfoDetail) : NodeStatInfo :=
  ⟨0, (∅ : StatMap).insert area d⟩

theorem encodedLength_ofArea (area : Fin (2 ^ 32)) (d : StatInfoDetail) :
    (ofArea area d).encodedLength = 12 + 8 * d.length := by
  have hLast : ((∅ : StatMap).emplace area d).entries = [] ++ [(area, d)] := rfl
  have hEntries : (ofArea area d).dataHolder.entries = [] ++ [(area, d)] :=
    OrdMap.modify_last hLast
  rw [encodedLength, hEntries, nil_append, map_singleton, sum_singleton]
  show 4 + (8 + 8 * d.length) = 12 + 8 * d.length
  omega

/-- With `2 ^ 27` counters the bytes are a few too many. -/
theorem long_not_restored : ¬ (ofArea 0 (List.replicate (2 ^ 27) 0)).Restored := by
  rw [restored_iff, encodedLength_ofArea, length_replicate]
  omega

end NodeStatInfo

end MyBase
