import MyBase.Kvstore.Expiry
import MyBase.Kvstore.Format

/-!
# MyBase — how long a record is returned

A record is returned until a put stores under the same key, until it expires, and until
its area is cleared. The last two are told from whole seconds: when it was put, in 32
bits, when it expires, as a sum of 32 bits, and when the area was cleared, in 64.

Main results:

* `expires_exactly_iff` — a record with a time to live is returned until then and not
  after it exactly if the second it expires at has 32 bits and its value is not empty;
* `get_after_clears` — when clears of areas keep a record from being returned: those in a
  later second than the put do, and no others.
-/

namespace MyBase

open Lib

namespace RdbInstance

variable {s s' : RdbInstance} {a : RdbAction} {as : List RdbAction}

-- Runs that leave a record alone

/-- No put stores under the key `k`. -/
def NotPut (k : Bytes) : RdbInstance → RdbAction → Prop
  | _, .put ns bucketNo key _ _ => RdbKey.set key bucketNo ns ≠ some k
  | _, _ => True

/-- The area is not cleared in a later second than `sec`. -/
def NotClearedAfter (sec : Nat) (area : UInt32) : RdbInstance → RdbAction → Prop
  | s, .clearArea area' => area' = area → s.currentSec ≤ sec
  | _, _ => True

/-- The area is not cleared. -/
def NotCleared (area : UInt32) : RdbInstance → RdbAction → Prop
  | _, .clearArea area' => area' ≠ area
  | _, _ => True

variable {area : UInt32} {k : Bytes} {sec : Nat}

theorem NotCleared.notClearedAfter (h : NotCleared area s a) (sec : Nat) :
    NotClearedAfter sec area s a := by
  cases a with
  | clearArea area' => exact fun hEq => absurd hEq h
  | clock | put | setValidBucketMgn => exact trivial

/-- A step that puts nothing under a key leaves its record. -/
theorem step_dataDb (hKeep : NotPut k s a) (h : s.step a = some s') : s'.dataDb k = s.dataDb k := by
  cases a with
  | clock sec =>
    simp only [step] at h
    split at h
    · cases h
      rfl
    · cases h
  | put ns b key value expireTime =>
    obtain ⟨k', item, hKey, rfl⟩ := put_eq_some h
    refine Function.update_of_ne ?_ _ _
    rintro rfl
    exact hKeep hKey
  | clearArea area =>
    cases h
    rfl
  | setValidBucketMgn m =>
    cases h
    rfl

/-- A run that puts nothing under a key leaves its record. -/
theorem run_dataDb (hKeep : Along step (NotPut k) s as) (h : run step s as = some s') :
    s'.dataDb k = s.dataDb k := by
  have hStep : ∀ t a t', NotPut k t a → t.dataDb k = s.dataDb k → step t a = some t' →
      t'.dataDb k = s.dataDb k := by
    intro t a t' hKeep hSame hStep
    exact (step_dataDb hKeep hStep).trans hSame
  exact run_invariant hStep rfl hKeep h

/-- An area has no later time than `sec` just if it had none and the step gives it none. -/
theorem step_cleared_le_iff (hPast : s.ClearedBefore) (h : s.step a = some s') :
    s'.getAreaExpiredTime area ≤ sec ↔
      s.getAreaExpiredTime area ≤ sec ∧ NotClearedAfter sec area s a := by
  cases a with
  | clock sec' =>
    simp only [step] at h
    split at h
    · cases h
      exact (and_iff_left trivial).symm
    · cases h
  | put ns b key value expireTime =>
    obtain ⟨k, item, -, rfl⟩ := put_eq_some h
    exact (and_iff_left trivial).symm
  | clearArea area' =>
    cases h
    have hPast' := hPast area
    rw [getAreaExpiredTime_clearArea]
    show _ ↔ _ ∧ (area' = area → s.currentSec ≤ sec)
    by_cases hArea : area = area'
    · rw [if_pos hArea]
      exact ⟨fun hLe => ⟨by omega, fun _ => hLe⟩, fun hLe => hLe.2 hArea.symm⟩
    · rw [if_neg hArea]
      exact ⟨fun hLe => ⟨hLe, fun hEq => absurd hEq.symm hArea⟩, fun hLe => hLe.1⟩
  | setValidBucketMgn m =>
    cases h
    exact (and_iff_left trivial).symm

/-- An area that was not cleared after `sec` is not cleared after it later on exactly if
no step of the run clears it then. -/
theorem run_cleared_le_iff (hPast : s.ClearedBefore) (h : run step s as = some s') :
    s'.getAreaExpiredTime area ≤ sec ↔
      s.getAreaExpiredTime area ≤ sec ∧ Along step (NotClearedAfter sec area) s as := by
  induction as generalizing s with
  | nil =>
    cases h
    exact (and_iff_left trivial).symm
  | cons a as ih =>
    obtain ⟨s₁, hStep, hRest⟩ := run_cons_eq_some.mp h
    rw [ih (step_later hPast hStep).1 hRest, step_cleared_le_iff hPast hStep,
      along_cons_of_step hStep, and_assoc]

-- A get after a put

section

variable {ns ns' b b' expireTime : UInt32} {key key' k value : Bytes}

/-- What a get returns after any run that stores nothing under its key. -/
theorem get_run {r : Record} (hFind : s.dataDb k = some r)
    (hKeep : Along step (NotPut k) s as) (hRun : run step s as = some s')
    (hKey : RdbKey.set key b ns = some k) :
    s'.get ns b key =
      if s'.dataExpired ns (RdbItem.assign r.item) then .dataExpired
      else .success (RdbItem.value r.item) r := by
  rw [← run_dataDb hKeep hRun] at hFind
  simp only [get, hKey, hFind]

theorem put_item (h : s.put ns b key value expireTime = some s') :
    ∃ k item, RdbKey.set key b ns = some k ∧
      RdbItem.set (s.putMeta expireTime) value = some item ∧
      s' = { s with dataDb := Function.update s.dataDb k (some ⟨ns, key, item⟩) } := by
  unfold put at h
  split at h
  next k item hKey hItem =>
    cases h
    exact ⟨k, item, hKey, hItem, rfl⟩
  next => cases h

/-- The dates of an item that is put, as they are read back. -/
theorem assign_putMeta (s : RdbInstance) (expireTime : UInt32) (v : Bytes) :
    RdbItem.assign ((s.putMeta expireTime).encodeToBuf ++ v) = s.putMeta expireTime :=
  RdbItem.assign_set _ v

/-- The second at which a record that is put now expires. -/
theorem putMeta_edate_toNat (s : RdbInstance) (ht : expireTime ≠ 0)
    (hSec : s.currentSec < 2 ^ 32) :
    (s.putMeta expireTime).edate.toNat = (s.currentSec + expireTime.toNat) % 2 ^ 32 := by
  simp only [putMeta, if_pos ht, UInt32.toNat_add, UInt32.toNat_ofNat', Nat.mod_eq_of_lt hSec]

theorem putMeta_mdate_toNat (s : RdbInstance) (expireTime : UInt32)
    (hSec : s.currentSec < 2 ^ 32) : (s.putMeta expireTime).mdate.toNat = s.currentSec := by
  simp only [putMeta, UInt32.toNat_ofNat', Nat.mod_eq_of_lt hSec]

/-- The two tests of `get`, for a record that was put at `s`: it has not expired, and its
area was not cleared after it. -/
theorem dataExpired_putMeta (hSum : s.currentSec + expireTime.toNat < 2 ^ 32) :
    s'.dataExpired ns (s.putMeta expireTime) = false ↔
      (expireTime = 0 ∨ s'.currentSec ≤ s.currentSec + expireTime.toNat) ∧
        s'.getAreaExpiredTime ns ≤ s.currentSec := by
  have hSec : s.currentSec < 2 ^ 32 := by omega
  have hMdate := putMeta_mdate_toNat s expireTime hSec
  simp only [dataExpired, Bool.or_eq_false_iff, Bool.and_eq_false_iff, bne_eq_false_iff_eq,
    decide_eq_false_iff_not, hMdate, Nat.not_lt]
  refine and_congr_left fun _ => ?_
  by_cases ht : expireTime = 0
  · simp [ht, putMeta]
  · have hEdate := putMeta_edate_toNat s ht hSec
    rw [Nat.mod_eq_of_lt hSum] at hEdate
    have hPos : expireTime.toNat ≠ 0 := fun hZero => ht (UInt32.toNat_inj.mp hZero)
    have hSome : (s.putMeta expireTime).edate ≠ 0 := by
      intro hZero
      rw [hZero] at hEdate
      simp only [UInt32.toNat_zero] at hEdate
      omega
    simp only [hSome, ht, hEdate, false_or]

theorem put_record (hPut : s.put ns b key value expireTime = some s') (hNe : value ≠ [])
    (hLen : value.length < 2 ^ 31) (hKey : RdbKey.set key b ns = some k) :
    s'.dataDb k = some ⟨ns, key, (s.putMeta expireTime).encodeToBuf ++ value⟩ := by
  obtain ⟨k', item, hKey', hItem, rfl⟩ := put_item hPut
  obtain rfl : k = k' := Option.some.inj (hKey.symm.trans hKey')
  have hPos := List.length_pos_iff.mpr hNe
  rcases RdbItem.set_eq_some hItem with ⟨hZero, -⟩ | ⟨-, -, rfl⟩
  · rw [int32Size_of_lt hLen] at hZero
    omega
  · simp [int32Size_of_lt hLen]

/-- What a put leaves as it is. -/
theorem put_times (hPut : s.put ns b key value expireTime = some s') :
    s'.currentSec = s.currentSec ∧
      ∀ area, s'.getAreaExpiredTime area = s.getAreaExpiredTime area := by
  obtain ⟨k, item, -, rfl⟩ := put_eq_some hPut
  exact ⟨rfl, fun _ => rfl⟩

/-- Whether a record that was put at `s` is expired after a run, for a get in any area. -/
theorem dataExpired_run (hPast : s.ClearedBefore)
    (hPut : s.put ns b key value expireTime = some s')
    (hSum : s.currentSec + expireTime.toNat < 2 ^ 32) {s₂ : RdbInstance}
    (hRun : run step s' as = some s₂) :
    s₂.dataExpired ns' (s.putMeta expireTime) = false ↔
      (expireTime = 0 ∨ s₂.currentSec ≤ s.currentSec + expireTime.toNat) ∧
        Along step (NotClearedAfter s.currentSec ns') s' as := by
  obtain ⟨hSec, hTimes⟩ := put_times hPut
  have hPast' : s'.ClearedBefore := by
    intro area
    rw [hTimes, hSec]
    exact hPast area
  have hCleared : s'.getAreaExpiredTime ns' ≤ s.currentSec := by
    rw [hTimes]
    exact hPast ns'
  rw [dataExpired_putMeta hSum, run_cleared_le_iff hPast' hRun, and_iff_right hCleared]

-- The time to live

/-- The record that a put at `s` leaves in `s₁` is returned up to the exact second at
which it expires, and nothing is returned after it, whatever happens in between, but for
puts under its key and clears of its area. -/
def ExpiresExactly (s s₁ : RdbInstance) (ns b : UInt32) (key value : Bytes)
    (expireTime : UInt32) : Prop :=
  ∀ k as s₂, RdbKey.set key b ns = some k → run step s₁ as = some s₂ →
    Along step (fun s a => NotPut k s a ∧ NotCleared ns s a) s₁ as →
    (s₂.currentSec ≤ s.currentSec + expireTime.toNat →
      ∃ r, s₂.get ns b key = .success value r) ∧
    (s.currentSec + expireTime.toNat < s₂.currentSec →
      ∀ v r, s₂.get ns b key ≠ .success v r)

/-- The two moments that decide: right after the put, and one second after it expires. -/
theorem ExpiresExactly.at_both_ends {r : Record} (ht : expireTime ≠ 0)
    (hKey : RdbKey.set key b ns = some k) (hFind : s'.dataDb k = some r)
    (hSec : s'.currentSec = s.currentSec)
    (h : ExpiresExactly s s' ns b key value expireTime) :
    s'.dataExpired ns (RdbItem.assign r.item) = false ∧ RdbItem.value r.item = value ∧
      ({ s' with currentSec := s.currentSec + expireTime.toNat + 1 } :
        RdbInstance).dataExpired ns (RdbItem.assign r.item) = true := by
  obtain ⟨s₂, hs₂⟩ : ∃ s₂ : RdbInstance,
      s₂ = { s' with currentSec := s.currentSec + expireTime.toNat + 1 } := ⟨_, rfl⟩
  have hPos : expireTime.toNat ≠ 0 := fun hZero => ht (UInt32.toNat_inj.mp hZero)
  have hRun₂ : run step s' [.clock (s.currentSec + expireTime.toNat + 1)] = some s₂ := by
    rw [hs₂, run_cons_eq_some]
    exact ⟨_, if_pos (by omega), rfl⟩
  have hClock : Along step (NotPut k) s' [.clock (s.currentSec + expireTime.toNat + 1)] :=
    along_of_forall (by simp [NotPut])
  have hNone : Along step (NotPut k) s' [] := trivial
  obtain ⟨r', hGet₁⟩ := (h k [] s' hKey rfl trivial).1 (by omega)
  have hGet₂ := (h k _ s₂ hKey hRun₂ (along_of_forall (by simp [NotPut, NotCleared]))).2
    (by rw [hs₂]; exact Nat.lt_succ_self _)
  rw [get_run hFind hNone rfl hKey] at hGet₁
  rw [get_run hFind hClock hRun₂ hKey] at hGet₂
  rw [← hs₂]
  split at hGet₁
  next => cases hGet₁
  next hFresh =>
    refine ⟨by simpa using hFresh, (GetResult.success.inj hGet₁).1, ?_⟩
    by_contra hNot
    rw [if_neg hNot] at hGet₂
    exact hGet₂ _ _ rfl

/-- A record whose time fits 32 bits expires when it should. -/
theorem expiresExactly_of_sum_lt (hPast : s.ClearedBefore) (ht : expireTime ≠ 0)
    (hPut : s.put ns b key value expireTime = some s')
    (hSum : s.currentSec + expireTime.toNat < 2 ^ 32) (hNe : value ≠ [])
    (hLen : value.length < 2 ^ 31) : ExpiresExactly s s' ns b key value expireTime := by
  intro k as s₂ hKey hRun hAlong
  have hFind := put_record hPut hNe hLen hKey
  have hNotPut : Along step (NotPut k) s' as := along_mono (fun _ _ h => h.1) hAlong
  have hCleared : Along step (NotClearedAfter s.currentSec ns) s' as :=
    along_mono (fun _ _ h => h.2.notClearedAfter _) hAlong
  have hTest : s₂.dataExpired ns (s.putMeta expireTime) = false ↔ _ :=
    dataExpired_run hPast hPut hSum hRun
  rw [get_run hFind hNotPut hRun hKey, assign_putMeta, RdbItem.value_set]
  constructor
  · intro hNow
    rw [hTest.mpr ⟨.inr hNow, hCleared⟩]
    exact ⟨_, rfl⟩
  · intro hNow v r hGet
    split at hGet
    next => cases hGet
    next hFresh =>
      rcases (hTest.mp (by simpa using hFresh)).1 with hZero | hLe
      · exact ht hZero
      · omega

/-- A record that expires when it should has a time of 32 bits and a value. -/
theorem ExpiresExactly.sum_lt (hPast : s.ClearedBefore) (hSec : s.currentSec < 2 ^ 32)
    (ht : expireTime ≠ 0) (hPut : s.put ns b key value expireTime = some s')
    (h : ExpiresExactly s s' ns b key value expireTime) :
    s.currentSec + expireTime.toNat < 2 ^ 32 ∧ value ≠ [] ∧ value.length < 2 ^ 31 := by
  obtain ⟨hSec', hTimes⟩ := put_times hPut
  obtain ⟨k, item, hKey, hItem, hs'⟩ := put_item hPut
  have hFind : s'.dataDb k = some ⟨ns, key, item⟩ := by simp [hs']
  obtain ⟨hFresh, hValue, hExpired⟩ := h.at_both_ends ht hKey hFind hSec'
  rcases RdbItem.set_eq_some hItem with ⟨-, rfl⟩ | ⟨hPos, hSize, rfl⟩
  · -- Without dates the test does not depend on the time.
    have hSame : ({ s' with currentSec := s.currentSec + expireTime.toNat + 1 } :
        RdbInstance).dataExpired ns {} = s'.dataExpired ns {} := rfl
    rw [show RdbItem.assign [] = {} from rfl] at hFresh hExpired
    rw [hSame, hFresh] at hExpired
    cases hExpired
  · rw [RdbItem.value_set] at hValue
    rw [assign_putMeta] at hFresh hExpired
    have hLen := RdbItem.length_lt_of_take_eq hValue
    rw [int32Size_of_lt hLen] at hPos
    refine ⟨?_, List.length_pos_iff.mp hPos, hLen⟩
    by_contra hSum
    -- The sum has wrapped to a second before the put, or to none.
    have hLt := UInt32.toNat_lt expireTime
    have hEdate := putMeta_edate_toNat s ht hSec
    have hMdate := putMeta_mdate_toNat s expireTime hSec
    have hCleared : s'.getAreaExpiredTime ns ≤ s.currentSec := by
      rw [hTimes]
      exact hPast ns
    simp only [dataExpired, Bool.or_eq_false_iff, Bool.and_eq_false_iff, bne_eq_false_iff_eq,
      decide_eq_false_iff_not, hSec', ← UInt32.toNat_inj, UInt32.toNat_zero] at hFresh
    simp only [dataExpired, Bool.or_eq_true, Bool.and_eq_true, bne_iff_ne, ne_eq,
      decide_eq_true_eq, ← UInt32.toNat_inj, UInt32.toNat_zero, hMdate] at hExpired
    rcases hExpired with ⟨hSome, -⟩ | hLess
    · omega
    · exact absurd hLess (Nat.not_lt.mpr hCleared)

/-- For every reachable state, a put in it at a 32-bit time with a time to live, and every
run after it without a put under its key or a clear of its area: the value is returned
until the exact sum and not after it, exactly if the sum is below `2 ^ 32` and the value
is not empty (nor longer than its size can say). -/
theorem expires_exactly_iff (hRun : run step init as = some s) (hSec : s.currentSec < 2 ^ 32)
    (ht : expireTime ≠ 0) (hPut : s.put ns b key value expireTime = some s') :
    ExpiresExactly s s' ns b key value expireTime ↔
      s.currentSec + expireTime.toNat < 2 ^ 32 ∧ value ≠ [] ∧ value.length < 2 ^ 31 := by
  have hPast : s.ClearedBefore := (run_later init_clearedBefore hRun).1
  constructor
  · exact ExpiresExactly.sum_lt hPast hSec ht hPut
  · rintro ⟨hSum, hNe, hLen⟩
    exact expiresExactly_of_sum_lt hPast ht hPut hSum hNe hLen

-- Clears

/-- For every reachable state, a put in it of a value that is not empty, whose dates have
32 bits, and every run after it that stores nothing under its key: a get that is stored
under that key, in any area, returns the value if its time to live has not passed and
the area was not cleared in a later second than that of the put, and otherwise does not
return it. -/
theorem get_after_clears (hRun₀ : run step init as = some s)
    (hPut : s.put ns b key value expireTime = some s') (hNe : value ≠ [])
    (hLen : value.length < 2 ^ 31) (hSum : s.currentSec + expireTime.toNat < 2 ^ 32)
    (hKey : RdbKey.set key b ns = some k) {as₁ : List RdbAction} {s₂ : RdbInstance}
    (hRun : run step s' as₁ = some s₂) (hKeep : Along step (NotPut k) s' as₁)
    (hKey' : RdbKey.set key' b' ns' = some k) :
    ((∃ r, s₂.get ns' b' key' = .success value r) ↔
      (expireTime = 0 ∨ s₂.currentSec ≤ s.currentSec + expireTime.toNat) ∧
        Along step (NotClearedAfter s.currentSec ns') s' as₁) ∧
    ((¬ ∃ r, s₂.get ns' b' key' = .success value r) → s₂.get ns' b' key' = .dataExpired) := by
  have hPast : s.ClearedBefore := (run_later init_clearedBefore hRun₀).1
  rw [get_run (put_record hPut hNe hLen hKey) hKeep hRun hKey', assign_putMeta,
    RdbItem.value_set, ← dataExpired_run hPast hPut hSum hRun]
  cases s₂.dataExpired ns' (s.putMeta expireTime) <;> simp

end

/-- Put at second 1000 with ten seconds to live. -/
theorem expires_exactly_iff_1000 : ∃ s s', run step init [.clock 1000] = some s ∧
    s.put 1 0 [7] [42] 10 = some s' ∧ ExpiresExactly s s' 1 0 [7] [42] 10 :=
  ⟨_, _, rfl, rfl, (expires_exactly_iff (rfl : run step init [.clock 1000] = _) (by decide)
    (by decide) rfl).mpr (by decide)⟩

/-- In the last second of 32 bits, what has ten seconds to live is expired at once; an
empty value is returned after its second. -/
theorem expires_at_wrong_second :
    (∃ s s', run step init [.clock (2 ^ 32 - 1)] = some s ∧ s.put 1 0 [7] [42] 10 = some s' ∧
      s'.get 1 0 [7] = .dataExpired ∧ ¬ ExpiresExactly s s' 1 0 [7] [42] 10) ∧
    ∃ s s', run step init [.clock 1000] = some s ∧ s.put 1 0 [7] [] 10 = some s' ∧
      (∃ s₂ r, run step s' [.clock 1011] = some s₂ ∧ s₂.get 1 0 [7] = .success [] r) ∧
      ¬ ExpiresExactly s s' 1 0 [7] [] 10 := by
  refine ⟨⟨_, _, rfl, rfl, by decide, ?_⟩, _, _, rfl, rfl, ⟨_, _, rfl, rfl⟩, ?_⟩
  · intro h
    obtain ⟨r, hGet⟩ := (h _ [] _ rfl rfl trivial).1 (by decide)
    cases hGet
  · intro h
    exact (h _ [.clock 1011] _ rfl rfl (along_of_forall (by simp [NotPut, NotCleared]))).2
      (by decide) [] _ rfl

/-- Put at second 1000: returned after another area is cleared, and not after its own is
cleared a second later. -/
theorem get_after_clears_1001 :
    (∃ s s' s₂, run step init [.clock 1000] = some s ∧ s.put 1 0 [7] [42] 0 = some s' ∧
      run step s' [.clock 1001, .clearArea 2] = some s₂ ∧
      ∃ r, s₂.get 1 0 [7] = .success [42] r) ∧
    ∃ s s' s₂, run step init [.clock 1000] = some s ∧ s.put 1 0 [7] [42] 0 = some s' ∧
      run step s' [.clock 1001, .clearArea 1] = some s₂ ∧ s₂.get 1 0 [7] = .dataExpired := by
  refine ⟨⟨_, _, _, rfl, rfl, rfl, ?_⟩, _, _, _, rfl, rfl, rfl, ?_⟩
  · exact (get_after_clears (rfl : run step init [.clock 1000] = _)
      (rfl : put _ 1 0 [7] [42] 0 = _) (by decide) (by decide) (by decide) rfl
      (rfl : run step _ [.clock 1001, .clearArea 2] = _) (along_of_forall (by simp [NotPut]))
      rfl).1.mpr ⟨.inl rfl, along_of_forall (by simp [NotClearedAfter])⟩
  · refine (get_after_clears (rfl : run step init [.clock 1000] = _)
      (rfl : put _ 1 0 [7] [42] 0 = _) (by decide) (by decide) (by decide) rfl
      (rfl : run step _ [.clock 1001, .clearArea 1] = _) (along_of_forall (by simp [NotPut]))
      rfl).2 ?_
    rintro ⟨r, hGet⟩
    cases hGet

/-- Put and cleared in one second: the value is still returned. -/
theorem get_after_clear_in_same_second : ∃ s s' s₂ r, run step init [.clock 1000] = some s ∧
    s.put 1 0 [7] [42] 0 = some s' ∧ run step s' [.clearArea 1] = some s₂ ∧
    s₂.get 1 0 [7] = .success [42] r ∧ (r.ns, r.key) = (1, [7]) :=
  ⟨_, _, _, _, rfl, rfl, rfl, rfl, rfl⟩

end RdbInstance

end MyBase
