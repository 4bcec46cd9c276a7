import MyBase.Meta.KvLogStore

/-!
# MyBase — packs of log entries

`pack` writes a number of entries behind one another, each with its length in front;
`apply_pack` writes them into another store. `nuraft::buffer` is taken as the bytes put into
it, and its integers as 4 bytes.

Neither can do what it is for. `pack` finds the null pointers that `log_entries` begins with,
and fails its assertion (`pack_of_pos`). `apply_pack` takes the lock and calls `write_at`,
which takes it again, and leaves a store without entries as it is: it never writes an entry
(`applyPack_db`).
-/

namespace MyBase

open Lib
open scoped ByteOrder

namespace KvLogStore

variable (codec : EntryCodec)

/-- `pack`, for a `cnt` that is not negative. -/
def pack (s : KvLogStore) (index cnt : Nat) : Option Bytes :=
  let logBatch := s.logEntries codec index ((index + cnt) % 2 ^ 64)
  ((List.range cnt).mapM fun ii => (logBatch.getD ii none).map codec.serialize).map fun logs =>
    be 4 cnt ++ logs.flatMap fun bb => be 4 bb.length ++ bb

/-- The value of an `int32_t`. -/
def int32 (n : Nat) : Int := if n < 2 ^ 31 then n else n - 2 ^ 32

/-- The loop of `apply_pack`. The buffer throws when there is less in it than is asked for, or
a negative length. -/
def replay : Nat → Nat → Bytes → KvLogStore → Option KvLogStore
  | 0, _, _, s => some s
  | n + 1, index, pack, s => do
    let (buf_size, pack) ← readInt 4 pack
    if 2 ^ 31 ≤ buf_size ∨ pack.length < buf_size then none
    else do
      let (s, _) ← s.writeAt codec (index % 2 ^ 64) (codec.deserialize (pack.take buf_size))
      replay n (index + 1) (pack.drop buf_size) s

/-- What `apply_pack` does under the lock. -/
def applyEntries (index : Nat) (numLogs : Int) (pack : Bytes) (s : KvLogStore) :
    Option (KvLogStore × Unit) :=
  (replay codec numLogs.toNat index pack s).map fun s =>
    let stop := ((index + numLogs) % 2 ^ 64).toNat
    ({ s with nextIdx := if s.nextIdx < stop then stop else s.nextIdx }, ())

def applyPack (s : KvLogStore) (index : Nat) (pack : Bytes) : Option KvLogStore := do
  let (numLogs, pack) ← readInt 4 pack
  if s.startIdx = s.nextIdx then some s
  else if index < s.startIdx ∨ s.nextIdx < index then some s
  else (s.guarded (applyEntries codec index (int32 numLogs) pack)).map Prod.fst

variable {codec} {s : KvLogStore}

-- What is packed

theorem pack_zero (codec : EntryCodec) (s : KvLogStore) (index : Nat) :
    s.pack codec index 0 = some (be 4 0) := rfl

variable {index cnt : Nat} {pack : Bytes} {s' : KvLogStore}

/-- Where an entry should be is a null pointer. -/
theorem pack_of_pos (codec : EntryCodec) (s : KvLogStore) (hIndex : index < 2 ^ 64) (hPos : 0 < cnt)
    (hCnt : cnt < 2 ^ 31) : s.pack codec index cnt = none := by
  obtain ⟨n, rfl⟩ : ∃ n, cnt = n + 1 := ⟨cnt - 1, by omega⟩
  have hNulls : ((index + (n + 1)) % 2 ^ 64 + 2 ^ 64 - index) % 2 ^ 64 = n + 1 := by omega
  have hFirst : (s.logEntries codec index ((index + (n + 1)) % 2 ^ 64)).getD 0 none = none := by
    rw [logEntries, hNulls, List.replicate_succ, List.cons_append]
    rfl
  rw [pack, List.range_succ_eq_map, List.mapM_cons, hFirst]
  rfl

-- What is applied

theorem writeAt_of_locked (h : s.locked = true) (index : Nat) (e : LogEntry) :
    s.writeAt codec index e = none := by
  rw [writeAt, guarded, if_pos h]

/-- Under the lock no round of the loop comes to its end. -/
theorem replay_of_locked (h : s.locked = true) {n : Nat}
    (hReplay : replay codec n index pack s = some s') : n = 0 ∧ s' = s := by
  cases n with
  | zero =>
    cases hReplay
    exact ⟨rfl, rfl⟩
  | succ n =>
    rw [replay, Option.bind_eq_bind, Option.bind_eq_some_iff] at hReplay
    obtain ⟨⟨size, rest⟩, -, hRound⟩ := hReplay
    simp [writeAt_of_locked h] at hRound

theorem applyEntries_of_locked (h : s.locked = true) {numLogs : Int} {out : KvLogStore × Unit}
    (hApply : applyEntries codec index numLogs pack s = some out) :
    numLogs.toNat = 0 ∧ out.1.db = s.db := by
  obtain ⟨s₁, hReplay, rfl⟩ := Option.map_eq_some_iff.mp hApply
  obtain ⟨hNone, rfl⟩ := replay_of_locked h hReplay
  exact ⟨hNone, rfl⟩

/-- **No entry is ever written.** -/
theorem applyPack_db (h : s.applyPack codec index pack = some s') : s'.db = s.db := by
  rw [applyPack, Option.bind_eq_bind, Option.bind_eq_some_iff] at h
  obtain ⟨⟨numLogs, rest⟩, -, hRest⟩ := h
  dsimp only at hRest
  split at hRest
  · cases hRest
    rfl
  · split at hRest
    · cases hRest
      rfl
    · obtain ⟨out, hGuarded, rfl⟩ := Option.map_eq_some_iff.mp hRest
      rw [guarded] at hGuarded
      split at hGuarded
      · cases hGuarded
      · obtain ⟨inner, hApply, rfl⟩ := Option.map_eq_some_iff.mp hGuarded
        exact (applyEntries_of_locked rfl hApply).2

/-- A pack without entries changes nothing that a reader sees. -/
theorem applyPack_zero (codec : EntryCodec) (hFree : s.locked = false) (hNext : index ≤ s.nextIdx)
    (hBound : s.nextIdx < 2 ^ 64) : s.applyPack codec index (be 4 0) = some s := by
  have hRead : readInt 4 (be 4 0) = some (0, []) := rfl
  have hStop : ((index + int32 0) % 2 ^ 64).toNat = index := by
    rw [int32, if_pos (by decide)]
    omega
  have hApply : applyEntries codec index (int32 0) [] { s with locked := true } =
      some ({ s with locked := true }, ()) := by
    rw [applyEntries, hStop]
    show some ({ s with
      nextIdx := if s.nextIdx < index then index else s.nextIdx
      locked := true }, ()) = _
    rw [if_neg (not_lt.mpr hNext)]
  rw [applyPack, hRead]
  show (if _ then _ else if _ then _ else _) = _
  split
  · rfl
  · split
    · rfl
    · rw [guarded_of_free hFree, hApply]
      obtain ⟨db, startIdx, nextIdx, locked⟩ := s
      obtain rfl : locked = false := hFree
      rfl

-- From one store to another

/-- Packing and applying returns, and the entries have arrived. -/
def Arrives (codec : EntryCodec) (s t : KvLogStore) (index cnt : Nat) : Prop :=
  ∃ bytes t', s.pack codec index cnt = some bytes ∧ t.applyPack codec index bytes = some t' ∧
    (∀ i, index ≤ i → i < index + cnt → t'.get codec i = s.get codec i) ∧
    index + cnt ≤ t'.nextIdx

/-- **Packs.** Entries that are packed arrive just if there are none: whatever the first store
has, and for an index up to the next one of the second. -/
theorem arrives_iff (codec : EntryCodec) (s t : KvLogStore) (hCnt : cnt < 2 ^ 31)
    (hFree : t.locked = false) (hNext : index ≤ t.nextIdx) (hBound : t.nextIdx < 2 ^ 64) :
    s.Arrives codec t index cnt ↔ cnt = 0 := by
  constructor
  · rintro ⟨bytes, t', hPack, -⟩
    by_contra hCount
    rw [pack_of_pos codec s (by omega) (Nat.pos_of_ne_zero hCount) hCnt] at hPack
    cases hPack
  · rintro rfl
    refine ⟨_, t, pack_zero codec s index, applyPack_zero codec hFree hNext hBound, ?_, hNext⟩
    intro i hi hi'
    omega

/-- A store with one entry. -/
def oneEntry : KvLogStore where
  db := (∅ : OrdMap Bytes Bytes).insert (key 1) (plainCodec.serialize ⟨1, 1, [1]⟩)
  startIdx := 1
  nextIdx := 2
  locked := false

theorem arrives_iff_none :
    (0 < 2 ^ 31 ∧ oneEntry.locked = false ∧ 1 ≤ oneEntry.nextIdx ∧ oneEntry.nextIdx < 2 ^ 64) ∧
      init.Arrives plainCodec oneEntry 1 0 :=
  ⟨by decide,
    (arrives_iff plainCodec init oneEntry (by decide) rfl (by decide) (by decide)).mpr rfl⟩

/-- The entry of one store does not arrive in an empty one. -/
theorem one_entry_stays :
    init.append plainCodec ⟨1, 1, [1]⟩ = some (oneEntry, 1) ∧
      oneEntry.get plainCodec 1 = some ⟨1, 1, [1]⟩ ∧ init.startIdx ≤ 1 ∧ 1 ≤ init.nextIdx ∧
      ¬ oneEntry.Arrives plainCodec init 1 1 := by
  refine ⟨rfl, by decide, by decide, by decide, ?_⟩
  rintro ⟨bytes, t', hPack, -⟩
  rw [pack_of_pos plainCodec oneEntry (by decide) (by decide) (by decide)] at hPack
  cases hPack

end KvLogStore

end MyBase
