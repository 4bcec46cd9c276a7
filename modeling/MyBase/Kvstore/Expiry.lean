import MyBase.Kvstore.Rdb

/-!
# MyBase — what the compaction filter drops

`get` tests the namespace of the request and the times as they are; the filter tests
what it can read back of the namespace and the bucket, and the times as they were when
it was created. It also drops what is in an area that does not exist, or in a bucket
that is not valid, which `get` does not look at.

Main results:

* `filter_sound_iff` — over all histories, no record that the filter drops would be
  returned by a later get, exactly if the key is not empty, the namespace is one of the
  1024 and the bucket is valid;
* `filter_drops_readable` — records of the namespaces 2000 and 65537, and of a bucket
  that is not valid.
-/

namespace MyBase

open Lib

namespace RdbInstance

variable {s s' : RdbInstance} {a : RdbAction}

-- Times

structure Later (s s' : RdbInstance) : Prop where
  currentSec : s.currentSec ≤ s'.currentSec
  cleared : ∀ area, s.getAreaExpiredTime area ≤ s'.getAreaExpiredTime area

theorem Later.refl (s : RdbInstance) : Later s s := ⟨Nat.le_refl _, fun _ => Nat.le_refl _⟩

/-- No area was cleared in the future. -/
def ClearedBefore (s : RdbInstance) : Prop := ∀ area, s.getAreaExpiredTime area ≤ s.currentSec

theorem init_clearedBefore : init.ClearedBefore := fun _ => Nat.le_refl 0

theorem getAreaExpiredTime_clearArea (s : RdbInstance) (area area' : UInt32) :
    (s.clearArea area).getAreaExpiredTime area' =
      if area' = area then s.currentSec else s.getAreaExpiredTime area' := by
  unfold getAreaExpiredTime clearArea
  by_cases h : area' = area
  · subst h
    simp
  · simp [h]

/-- A step moves the times forward only. -/
theorem step_later (hPast : s.ClearedBefore) (h : s.step a = some s') :
    s'.ClearedBefore ∧ Later s s' := by
  cases a with
  | clock sec =>
    simp only [step] at h
    split at h
    next hLe =>
      cases h
      exact ⟨fun area => Nat.le_trans (hPast area) hLe, hLe, fun _ => Nat.le_refl _⟩
    next => cases h
  | put ns b key value expireTime =>
    obtain ⟨k, item, -, rfl⟩ := put_eq_some h
    exact ⟨hPast, Nat.le_refl _, fun _ => Nat.le_refl _⟩
  | clearArea area =>
    cases h
    refine ⟨?_, Nat.le_refl _, ?_⟩ <;> intro area' <;> have hPast' := hPast area' <;>
      rw [getAreaExpiredTime_clearArea]
    · show _ ≤ s.currentSec
      split <;> omega
    · split <;> omega
  | setValidBucketMgn m =>
    cases h
    exact ⟨hPast, Nat.le_refl _, fun _ => Nat.le_refl _⟩

/-- Times only grow. -/
theorem run_later {as : List RdbAction} (hPast : s.ClearedBefore) (h : run step s as = some s') :
    s'.ClearedBefore ∧ Later s s' := by
  have hStep : ∀ t a t', (t.ClearedBefore ∧ Later s t) → step t a = some t' →
      (t'.ClearedBefore ∧ Later s t') := by
    intro t a t' ⟨hPast, hLater⟩ hStep
    obtain ⟨hPast', hLater'⟩ := step_later hPast hStep
    exact ⟨hPast', Nat.le_trans hLater.currentSec hLater'.currentSec,
      fun area => Nat.le_trans (hLater.cleared area) (hLater'.cleared area)⟩
  exact run_keeps hStep ⟨hPast, .refl s⟩ h

/-- What is expired stays expired. -/
theorem dataExpired_of_later {ns : UInt32} {m : ValueMeta} (h : Later s s')
    (hExpired : s.dataExpired ns m = true) : s'.dataExpired ns m = true := by
  have hSec := h.currentSec
  have hArea := h.cleared ns
  simp only [dataExpired, Bool.or_eq_true, Bool.and_eq_true, bne_iff_ne, ne_eq,
    decide_eq_true_eq] at hExpired ⊢
  rcases hExpired with ⟨hSome, hLess⟩ | hLess
  · exact .inl ⟨hSome, by omega⟩
  · exact .inr (by omega)

-- The filter

/-- A filter that is created while the buckets of `m` are valid drops no record that a
put of `key` in `ns` has left in bucket `b` and that a get of them returns later: `s₀`
is when the filter is created, `s₁` when it meets the record and `s₂` when the get
comes. -/
def FilterSound (ns b : UInt32) (key : Bytes) (m : CValidBucketMgn) : Prop :=
  ∀ as₀ s₀, run step init as₀ = some s₀ → s₀.validBucketMgn = m →
    ∀ as₁ s₁, run step s₀ as₁ = some s₁ →
      ∀ k r behind, RdbKey.set key b ns = some k → s₁.dataDb k = some r →
        (r.ns, r.key) = (ns, key) →
        s₀.createCompactionFilter.filter behind k r.item = true →
        ∀ as₂ s₂, run step s₁ as₂ = some s₂ →
          ∀ b' value, s₂.get ns b' key ≠ .success value r

section

variable {ns b : UInt32} {key k : Bytes} {m : CValidBucketMgn}

/-- Where the area can be read back and the bucket is valid, the two tests are one. -/
theorem filter_eq_dataExpired (hKey : RdbKey.set key b ns = some k)
    (hKept : RdbKey.kept key ≠ []) (hNs : ns.toNat < sMaxNamespaceCount)
    (hValid : s.validBucketMgn.valid (b.toNat % 2 ^ 24) = true) (behind : Nat → UInt8)
    (item : Bytes) :
    s.createCompactionFilter.filter behind k item = s.dataExpired ns (RdbItem.assign item) := by
  have hArea : RdbKey.area k behind = ns.toNat := by
    unfold sMaxNamespaceCount at hNs
    rw [RdbKey.area_set hKey hKept, Nat.mod_eq_of_lt (by omega)]
  have hBucket := RdbKey.getBucketNumber_set hKey hKept behind
  simp only [ExpiredFilter.filter, createCompactionFilter, hArea, hBucket, hValid,
    if_neg (Nat.not_le.mpr hNs), UInt32.ofNat_toNat, Bool.not_true, Bool.or_false]
  rfl

section FilterSound

variable (h : FilterSound ns b key m)
include h

/-- A record without dates that a get returns must not be dropped. -/
theorem FilterSound.filter_eq_false {as : List RdbAction} (hRun : run step init as = some s)
    (hm : s.validBucketMgn = m) (hKey : RdbKey.set key b ns = some k)
    (hFind : s.dataDb k = some ⟨ns, key, []⟩) (hFresh : s.dataExpired ns {} = false)
    (behind : Nat → UInt8) : s.createCompactionFilter.filter behind k [] = false := by
  by_contra hDrop
  rw [Bool.not_eq_false] at hDrop
  have hAssign : RdbItem.assign [] = {} := rfl
  refine h as s hRun hm [] s rfl k _ behind hKey hFind rfl hDrop [] s rfl b [] ?_
  simp [get, hKey, hFind, hAssign, hFresh, RdbItem.value]

/-- One put, of a value without dates, while the buckets of `m` are valid. -/
def onePut (ns : UInt32) (key k : Bytes) (m : CValidBucketMgn) : RdbInstance :=
  { init with
    validBucketMgn := m
    dataDb := Function.update init.dataDb k (some ⟨ns, key, []⟩) }

omit h in
theorem run_onePut (hKey : RdbKey.set key b ns = some k) :
    run step init [.setValidBucketMgn m, .put ns b key [] 0] = some (onePut ns key k m) := by
  simp only [run, step, put, hKey, Option.bind_some]
  rfl

/-- A filter right after the put must not drop the record. -/
theorem FilterSound.keeps_onePut (hKey : RdbKey.set key b ns = some k) (behind : Nat → UInt8) :
    (onePut ns key k m).createCompactionFilter.filter behind k [] = false :=
  h.filter_eq_false (run_onePut hKey) rfl hKey (by simp [onePut]) rfl behind

/-- What lies behind an empty key can be anything. -/
theorem FilterSound.kept_ne_nil : RdbKey.kept key ≠ [] := by
  intro hNil
  have hKeeps := h.keeps_onePut (RdbKey.set_of_kept_nil hNil b ns) fun _ => 255
  simp [ExpiredFilter.filter, RdbKey.area, RdbKey.byteAt, sMaxNamespaceCount] at hKeeps

theorem FilterSound.area_and_bucket (hKey : RdbKey.set key b ns = some k) :
    ns.toNat % 2 ^ 16 < sMaxNamespaceCount ∧ m.valid (b.toNat % 2 ^ 24) = true := by
  have hKept := h.kept_ne_nil
  have hKeeps := h.keeps_onePut hKey fun _ => 0
  simp only [ExpiredFilter.filter, createCompactionFilter, RdbKey.area_set hKey hKept,
    RdbKey.getBucketNumber_set hKey hKept] at hKeeps
  split at hKeeps
  next => cases hKeeps
  next hArea =>
    simp only [Bool.or_eq_false_iff, Bool.not_eq_false'] at hKeeps
    exact ⟨Nat.lt_of_not_le hArea, hKeeps.2⟩

/-- Clearing the area that the key says must not clear the namespace of another. -/
theorem FilterSound.ns_lt (hKey : RdbKey.set key b ns = some k) :
    ns.toNat < sMaxNamespaceCount := by
  have hKept := h.kept_ne_nil
  have hArea := (h.area_and_bucket hKey).1
  by_contra hNs
  obtain ⟨area, hAreaEq⟩ : ∃ area, area = UInt32.ofNat (ns.toNat % 2 ^ 16) := ⟨_, rfl⟩
  have hNe : ns ≠ area := by
    intro hEq
    have hToNat := congrArg UInt32.toNat hEq
    rw [hAreaEq, UInt32.toNat_ofNat'] at hToNat
    omega
  obtain ⟨s, hs⟩ : ∃ s : RdbInstance,
      s = ({ onePut ns key k m with currentSec := 1 } : RdbInstance).clearArea area := ⟨_, rfl⟩
  have hRun : run step init
      ([.setValidBucketMgn m, .put ns b key [] 0] ++ [.clock 1, .clearArea area]) = some s := by
    refine run_append.mpr ⟨_, run_onePut hKey, ?_⟩
    rw [hs]
    rfl
  have hFresh : s.dataExpired ns {} = false := by
    rw [dataExpired, hs, getAreaExpiredTime_clearArea, if_neg hNe]
    rfl
  have hKeeps := h.filter_eq_false hRun (by rw [hs]; rfl) hKey
    (by simp [hs, onePut, clearArea]) hFresh fun _ => 0
  simp only [ExpiredFilter.filter, createCompactionFilter, RdbKey.area_set hKey hKept,
    if_neg (Nat.not_le.mpr hArea), ← hAreaEq, hs, clearArea, Function.update_self] at hKeeps
  cases hKeeps

end FilterSound

/-- For every namespace, key, bucket and setting of valid buckets: over every history of
puts, clears and settings before the filter is created, before it meets the record and
before the get, what it drops would not have been returned, exactly if the key is
stored with its area, the namespace is below 1024 and the bucket is valid. -/
theorem filter_sound_iff (ns b : UInt32) (key : Bytes) (m : CValidBucketMgn) :
    FilterSound ns b key m ↔
      RdbKey.TooLong key ∨ (RdbKey.kept key ≠ [] ∧ ns.toNat < sMaxNamespaceCount ∧
        m.valid (b.toNat % 2 ^ 24) = true) := by
  constructor
  · intro hSound
    refine or_iff_not_imp_left.mpr fun hLen => ?_
    have hKey := RdbKey.set_of_kept hSound.kept_ne_nil hLen b ns
    exact ⟨hSound.kept_ne_nil, hSound.ns_lt hKey, (hSound.area_and_bucket hKey).2⟩
  · rintro (hLong | ⟨hKept, hNs, hValid⟩)
    · intro _ _ _ _ _ _ _ k _ _ hKey
      rw [RdbKey.set_of_tooLong hLong] at hKey
      cases hKey
    · intro as₀ s₀ hRun₀ hm as₁ s₁ hRun₁ k r behind hKey _ _ hDrop as₂ s₂ hRun₂ b' value hGet
      have hPast₀ : s₀.ClearedBefore := (run_later init_clearedBefore hRun₀).1
      have hLater : Later s₀ s₂ := (run_later hPast₀ (run_append.mpr ⟨s₁, hRun₁, hRun₂⟩)).2
      rw [filter_eq_dataExpired hKey hKept hNs (hm ▸ hValid)] at hDrop
      obtain ⟨-, -, -, hFresh⟩ := get_eq_success hGet
      rw [dataExpired_of_later hLater hDrop] at hFresh
      cases hFresh

end

/-- The filter drops key 7 of namespace 2000 as soon as it is written, of namespace
65537 when namespace 1 is cleared, and of a bucket that is not valid; a get returns it
each time. -/
theorem filter_drops_readable :
    (∃ s k r, run step init [.put 2000 0 [7] [42] 0] = some s ∧
      RdbKey.set [7] 0 2000 = some k ∧ s.dataDb k = some r ∧
      s.createCompactionFilter.filter (fun _ => 0) k r.item = true ∧
      s.get 2000 0 [7] = .success [42] r) ∧
    (∃ s k r, run step init [.put 65537 0 [7] [42] 0, .clock 1, .clearArea 1] = some s ∧
      RdbKey.set [7] 0 65537 = some k ∧ s.dataDb k = some r ∧
      s.createCompactionFilter.filter (fun _ => 0) k r.item = true ∧
      s.get 65537 0 [7] = .success [42] r) ∧
    ∃ s k r, run step init
        [.setValidBucketMgn ⟨true, fun _ => 0⟩, .put 1 0 [7] [42] 0] = some s ∧
      RdbKey.set [7] 0 1 = some k ∧ s.dataDb k = some r ∧
      s.createCompactionFilter.filter (fun _ => 0) k r.item = true ∧
      s.get 1 0 [7] = .success [42] r := by
  refine ⟨⟨_, _, _, rfl, rfl, rfl, ?_, ?_⟩, ⟨_, _, _, rfl, rfl, rfl, ?_, ?_⟩,
    _, _, _, rfl, rfl, rfl, ?_, ?_⟩ <;> decide

end RdbInstance

end MyBase
