import MyBase.Kvstore.Rdb
import MyBase.Lib.ByteOrder
import MyBase.Lib.OrdMap
import MyBase.Public.Common

/-!
# MyBase — when areas were cleared, across restarts

`clearArea` stores the second of the clear in a database of its own, as text under the
text of the area, before it enters it in memory. An instance that is opened reads the
range of these keys, takes the area out of each key again and enters what it finds. The
database is an exact map in the order of its keys.

Main result:

* `reopen_run` — after every history of clears, puts, passing time and restarts, closing
  and opening the store gives the same times.
-/

namespace MyBase

open Lib List
open scoped Lib.ByteOrder

/-- `area_expired_`. -/
def areaExpiredPrefix : Bytes := "area_expired_".toList.map Char.toUInt8

/-- The key of an area, which is an `int32_t`. -/
def areaKey (area : UInt32) : Bytes :=
  areaExpiredPrefix ++ [58] ++ decimalInt area.toInt32.toInt

/-- An instance and its system database. -/
structure RdbStore where
  rdb : RdbInstance
  sysDb : OrdMap Bytes Bytes

inductive RdbStoreAction
  /-- Time passes; `TimeHelper::currentSec` is a `uint64_t`. -/
  | clock (sec : UInt64)
  | put (ns bucketNo : UInt32) (key value : Bytes) (expireTime : UInt32)
  | clearArea (area : UInt32)
  | setValidBucketMgn (m : CValidBucketMgn)
  /-- The process ends, and opens the databases again. -/
  | reopen

namespace RdbStore

/-- Databases that do not exist yet. -/
def init : RdbStore := ⟨RdbInstance.init, ∅⟩

/-- `sysDb->Put`. -/
def putSys (sysDb : OrdMap Bytes Bytes) (k v : Bytes) : OrdMap Bytes Bytes :=
  (sysDb.emplace k v).modify k fun _ => v

/-- `clearArea`, with a system database that works. -/
def clearArea (s : RdbStore) (area : UInt32) : RdbStore where
  sysDb := putSys s.sysDb (areaKey area) (decimal s.rdb.currentSec)
  rdb := s.rdb.clearArea area

/-- The area a key is of: `none` for a key that has not two parts, and else what
`std::stoi` makes of the second, if anything. -/
def areaOf (k : Bytes) : Option (Option UInt32) :=
  match StringHelper.tokenize k [58] with
  | [_, area] => some ((stoi area).map fun z => (Int32.ofInt z).toUInt32)
  | _ => none

/-- One turn of the loop of `loadAreaExpiredSec`; `none`: an exception. -/
def loadEntry (areaExpiredSec : UInt32 → Option Nat) (e : Bytes × Bytes) :
    Option (UInt32 → Option Nat) :=
  match areaOf e.1 with
  | none => some areaExpiredSec
  | some none => none
  | some (some area) =>
    (stoul e.2).map fun expiredTs =>
      -- `insert` leaves an entry that is there.
      if (areaExpiredSec area).isSome then areaExpiredSec
      else Function.update areaExpiredSec area (some expiredTs)

/-- `loadAreaExpiredSec`, from the first key of the range to the last. -/
def loadAreaExpiredSec (sysDb : OrdMap Bytes Bytes) : Option (UInt32 → Option Nat) :=
  let startKey := areaExpiredPrefix ++ [58]
  let endKey := areaExpiredPrefix ++ [59]
  (sysDb.entries.filter fun e => decide (InRange startKey endKey e.1)).foldlM loadEntry
    fun _ => none

/-- `initialize` of a new instance on what the old one has stored. -/
def reopen (s : RdbStore) : Option RdbStore :=
  (loadAreaExpiredSec s.sysDb).map fun areaExpiredSec =>
    { s with
      rdb := { s.rdb with
        areaExpiredSec := areaExpiredSec
        validBucketMgn := RdbInstance.init.validBucketMgn } }

def onRdb (s : RdbStore) (a : RdbAction) : Option RdbStore :=
  (s.rdb.step a).map fun rdb => { s with rdb := rdb }

def step (s : RdbStore) : RdbStoreAction → Option RdbStore
  | .clock sec => s.onRdb (.clock sec.toNat)
  | .put ns bucketNo key value expireTime => s.onRdb (.put ns bucketNo key value expireTime)
  | .clearArea area => some (s.clearArea area)
  | .setValidBucketMgn m => s.onRdb (.setValidBucketMgn m)
  | .reopen => s.reopen

-- Keys

theorem colon_not_mem_decimalInt (z : Int) : (58 : UInt8) ∉ decimalInt z := by
  have hDigits : ∀ n, (58 : UInt8) ∉ decimal n := fun n h => by cases isDigit_of_mem_decimal h
  unfold decimalInt
  split
  · simp [hDigits]
  · exact hDigits _

theorem decimalInt_ne_nil (z : Int) : decimalInt z ≠ [] := by
  unfold decimalInt
  split
  · simp
  · exact decimal_ne_nil _

/-- The area is read back from the key of every area, the negative ones among them. -/
theorem areaOf_areaKey (area : UInt32) : areaOf (areaKey area) = some (some area) := by
  have hTokens : StringHelper.tokenize (areaKey area) [58] =
      [areaExpiredPrefix, decimalInt area.toInt32.toInt] := by
    rw [areaKey, append_assoc, singleton_append]
    exact StringHelper.tokenize_pair (by decide) (colon_not_mem_decimalInt _)
      (decimalInt_ne_nil _)
  simp [areaOf, hTokens, stoi_decimalInt (Int32.le_toInt _) (Int32.toInt_lt _)]

theorem areaKey_inj {area area' : UInt32} (h : areaKey area = areaKey area') : area = area' := by
  have hAreas := areaOf_areaKey area
  rw [h, areaOf_areaKey] at hAreas
  simpa using hAreas.symm

theorem areaKey_inRange (area : UInt32) :
    InRange (areaExpiredPrefix ++ [58]) (areaExpiredPrefix ++ [59]) (areaKey area) :=
  inRange_append _ _ (by decide)

-- Loading

theorem loadEntry_areaKey {m : UInt32 → Option Nat} {area : UInt32} {t : Nat} (ht : t < 2 ^ 64)
    (hm : m area = none ∨ m area = some t) :
    loadEntry m (areaKey area, decimal t) = some (Function.update m area (some t)) := by
  simp only [loadEntry, areaOf_areaKey, stoul_decimal ht, Option.map_some]
  rcases hm with hNone | hSome
  · rw [hNone]
    rfl
  · rw [hSome, Option.isSome_some, if_pos rfl, ← hSome, Function.update_eq_self]

/-- The loop over entries that `clearArea` has stored: their areas get their times. -/
theorem foldlM_loadEntry {times m : UInt32 → Option Nat} {es : List (Bytes × Bytes)}
    (hEs : ∀ e ∈ es, ∃ area t, e = (areaKey area, decimal t) ∧ times area = some t ∧ t < 2 ^ 64)
    (hm : ∀ area, m area = none ∨ m area = times area) :
    es.foldlM loadEntry m =
      some fun area => if areaKey area ∈ es.map Prod.fst then times area else m area := by
  induction es generalizing m with
  | nil => simp
  | cons e es ih =>
    obtain ⟨area, t, rfl, hTime, ht⟩ := hEs e mem_cons_self
    have hEntry := hm area
    rw [hTime] at hEntry
    have hNext : ∀ area', Function.update m area (some t) area' = none ∨
        Function.update m area (some t) area' = times area' := by
      intro area'
      by_cases hEq : area' = area
      · rw [hEq, Function.update_self, hTime]
        exact .inr rfl
      · rw [Function.update_of_ne hEq]
        exact hm area'
    rw [foldlM_cons, loadEntry_areaKey ht hEntry, Option.bind_eq_bind, Option.bind_some,
      ih (fun e he => hEs e (mem_cons_of_mem _ he)) hNext]
    refine congrArg some (funext fun area' => ?_)
    by_cases hEq : area' = area
    · simp [hEq, hTime]
    · have hMem : areaKey area' ∈ ((areaKey area, decimal t) :: es).map Prod.fst ↔
          areaKey area' ∈ es.map Prod.fst := by
        rw [map_cons, mem_cons]
        exact or_iff_right fun h => hEq (areaKey_inj h)
      simp only [Function.update_of_ne hEq, hMem]

-- What is stored is what is in memory

/-- The system database has the times of the areas, and nothing else. -/
structure Persisted (s : RdbStore) : Prop where
  sec : s.rdb.currentSec < 2 ^ 64
  times : ∀ area t, s.rdb.areaExpiredSec area = some t → t < 2 ^ 64
  find : ∀ area, s.sysDb.find? (areaKey area) = (s.rdb.areaExpiredSec area).map decimal
  keys : ∀ k ∈ s.sysDb.keys, ∃ area, k = areaKey area

variable {s s' : RdbStore} {a : RdbStoreAction}

theorem Persisted.entry (h : s.Persisted) {e : Bytes × Bytes} (he : e ∈ s.sysDb.entries) :
    ∃ area t, e = (areaKey area, decimal t) ∧ s.rdb.areaExpiredSec area = some t ∧
      t < 2 ^ 64 := by
  obtain ⟨area, hKey⟩ := h.keys e.1 (mem_map_of_mem he)
  have hFind := OrdMap.find?_of_mem (k := e.1) (v := e.2) he
  rw [hKey, h.find] at hFind
  obtain ⟨t, hTime, hText⟩ := Option.map_eq_some_iff.mp hFind
  exact ⟨area, t, Prod.ext hKey hText.symm, hTime, h.times area t hTime⟩

/-- Loading gives back the times that are in memory. -/
theorem Persisted.loadAreaExpiredSec_eq (h : s.Persisted) :
    loadAreaExpiredSec s.sysDb = some s.rdb.areaExpiredSec := by
  have hAll : (s.sysDb.entries.filter fun e => decide
      (InRange (areaExpiredPrefix ++ [58]) (areaExpiredPrefix ++ [59]) e.1)) =
        s.sysDb.entries := by
    refine List.filter_eq_self.mpr fun e he => ?_
    obtain ⟨area, t, rfl, -, -⟩ := h.entry he
    exact decide_eq_true (areaKey_inRange area)
  rw [loadAreaExpiredSec, hAll, foldlM_loadEntry (fun e he => h.entry he) fun _ => .inl rfl]
  refine congrArg some (funext fun area => ?_)
  show (if areaKey area ∈ s.sysDb.keys then _ else none) = _
  split
  next => rfl
  next hKey =>
    -- A key that is not there belongs to an area that was not cleared.
    rw [← OrdMap.find?_isSome_iff, h.find, Option.isSome_map, Option.not_isSome_iff_eq_none] at hKey
    exact hKey.symm

theorem find?_putSys (sysDb : OrdMap Bytes Bytes) (k v k' : Bytes) :
    (putSys sysDb k v).find? k' = if k' = k then some v else sysDb.find? k' :=
  OrdMap.find?_insert sysDb k v k'

theorem mem_keys_putSys {sysDb : OrdMap Bytes Bytes} {k v k' : Bytes}
    (h : k' ∈ (putSys sysDb k v).keys) : k' = k ∨ k' ∈ sysDb.keys :=
  OrdMap.mem_keys_insert.mp h

theorem init_persisted : init.Persisted where
  sec := by decide
  times _ _ h := by cases h
  find _ := rfl
  keys _ h := by cases h

theorem clearArea_areaExpiredSec (s : RdbStore) (area : UInt32) :
    (s.clearArea area).rdb.areaExpiredSec =
      Function.update s.rdb.areaExpiredSec area (some s.rdb.currentSec) := rfl

/-- Clearing an area writes its time to both. -/
theorem Persisted.clearArea (h : s.Persisted) (area : UInt32) : (s.clearArea area).Persisted where
  sec := h.sec
  times area' t hTime := by
    rw [clearArea_areaExpiredSec] at hTime
    by_cases hEq : area' = area
    · rw [hEq, Function.update_self] at hTime
      cases hTime
      exact h.sec
    · rw [Function.update_of_ne hEq] at hTime
      exact h.times area' t hTime
  find area' := by
    rw [clearArea_areaExpiredSec]
    show (putSys _ _ _).find? _ = _
    rw [find?_putSys]
    by_cases hEq : area' = area
    · rw [hEq, if_pos rfl, Function.update_self]
      rfl
    · rw [if_neg fun hKey => hEq (areaKey_inj hKey), Function.update_of_ne hEq, h.find]
  keys k hk := by
    rcases mem_keys_putSys hk with rfl | hk
    · exact ⟨area, rfl⟩
    · exact h.keys k hk

/-- Anything else leaves the times of the areas alone. -/
theorem Persisted.of_same (h : s.Persisted) (hSec : s'.rdb.currentSec < 2 ^ 64)
    (hTimes : s'.rdb.areaExpiredSec = s.rdb.areaExpiredSec) (hSys : s'.sysDb = s.sysDb) :
    s'.Persisted where
  sec := hSec
  times := by
    rw [hTimes]
    exact h.times
  find := by
    rw [hTimes, hSys]
    exact h.find
  keys := by
    rw [hSys]
    exact h.keys

/-- Every step keeps the database equal to what is in memory. -/
theorem step_persisted (h : s.Persisted) (hStep : s.step a = some s') : s'.Persisted := by
  cases a with
  | clock sec =>
    obtain ⟨rdb, hRdb, rfl⟩ := Option.map_eq_some_iff.mp hStep
    simp only [RdbInstance.step] at hRdb
    split at hRdb
    · cases hRdb
      exact h.of_same (UInt64.toNat_lt sec) rfl rfl
    · cases hRdb
  | put ns b key value expireTime =>
    obtain ⟨rdb, hRdb, rfl⟩ := Option.map_eq_some_iff.mp hStep
    obtain ⟨k, item, -, rfl⟩ := RdbInstance.put_eq_some hRdb
    exact h.of_same h.sec rfl rfl
  | clearArea area =>
    cases hStep
    exact h.clearArea area
  | setValidBucketMgn m =>
    cases hStep
    exact h.of_same h.sec rfl rfl
  | reopen =>
    obtain ⟨areaExpiredSec, hLoad, rfl⟩ := Option.map_eq_some_iff.mp hStep
    rw [h.loadAreaExpiredSec_eq] at hLoad
    cases hLoad
    exact h.of_same h.sec rfl rfl

/-- The database has exactly what is in memory. -/
theorem run_persisted {as : List RdbStoreAction} (h : run step init as = some s) : s.Persisted :=
  run_keeps (fun _ _ _ => step_persisted) init_persisted h

/-- For every history of clears of any areas, puts, passing time and restarts: closing
and opening the store succeeds, and gives the same times for the same areas. -/
theorem reopen_run {as : List RdbStoreAction} (h : run step init as = some s) :
    ∃ s', run step init (as ++ [.reopen]) = some s' ∧
      s'.rdb.areaExpiredSec = s.rdb.areaExpiredSec ∧
      loadAreaExpiredSec s.sysDb = some s.rdb.areaExpiredSec := by
  have hLoad := (run_persisted h).loadAreaExpiredSec_eq
  obtain ⟨s', hReopen, hSame⟩ : ∃ s', s.reopen = some s' ∧
      s'.rdb.areaExpiredSec = s.rdb.areaExpiredSec := by
    rw [reopen, hLoad]
    exact ⟨_, rfl, rfl⟩
  exact ⟨s', run_append.mpr ⟨s, h, run_cons_eq_some.mpr ⟨s', hReopen, rfl⟩⟩, hSame, hLoad⟩

/-- Area -5 is cleared twice, and area 7 once. -/
theorem reopen_run_three_clears : ∃ s s', run step init
      [.clock 1000, .clearArea 0xfffffffb, .clearArea 7, .clock 1003, .clearArea 0xfffffffb] =
        some s ∧
    run step init ([.clock 1000, .clearArea 0xfffffffb, .clearArea 7, .clock 1003,
      .clearArea 0xfffffffb] ++ [.reopen]) = some s' ∧
    s'.rdb.areaExpiredSec = s.rdb.areaExpiredSec := by
  obtain ⟨s', hRun, hSame, -⟩ := reopen_run
    (rfl : run step init [.clock 1000, .clearArea 0xfffffffb, .clearArea 7, .clock 1003,
      .clearArea 0xfffffffb] = some _)
  exact ⟨_, s', rfl, hRun, hSame⟩

end RdbStore

end MyBase
