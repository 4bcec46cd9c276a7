import MyBase.Kvstore.Rdb
import MyBase.Storage.Bounds

/-!
# MyBase — whose value a get returns

A request names a value by a namespace of 32 bits and a key of any bytes; the record is
stored under sixteen bits of the namespace, and without it if the key is empty. The
bucket number comes from the key, and from the number of buckets at that time.

Main results:

* `isolated_iff` — a value put under one name is never returned for another, whatever
  is put, cleared and counted in between, exactly if the names are `Apart`;
* `namespaces_share_value` — namespaces 1 and 65537 share the value of a key, and 1 and
  2 that of the empty key.
-/

namespace MyBase

open Lib

namespace RdbInstance

/-- `StorageServer::process` of a get, with `bucketCount` buckets. -/
def processGet (hash : Bytes → UInt32) (bucketCount : UInt32) (s : RdbInstance) (ns : UInt32)
    (key : Bytes) : GetResult :=
  s.get ns (UInt32.ofNat (getBucketNumber hash bucketCount.toNat key)) key

/-- `StorageServer::commit` puts a value where the key's bucket is at that time. -/
def ByHash (hash : Bytes → UInt32) : RdbInstance → RdbAction → Prop
  | _, .put _ bucketNo key _ _ =>
    ∃ bucketCount : UInt32, bucketNo = UInt32.ofNat (getBucketNumber hash bucketCount.toNat key)
  | _, _ => True

/-- The stored bytes of the keys differ, or there are some and the namespaces differ in
sixteen bits, or the first one cannot be stored. -/
def Apart (ns₁ : UInt32) (key₁ : Bytes) (ns₂ : UInt32) (key₂ : Bytes) : Prop :=
  RdbKey.kept key₁ ≠ RdbKey.kept key₂ ∨
    (RdbKey.kept key₁ ≠ [] ∧ ns₁.toNat % 2 ^ 16 ≠ ns₂.toNat % 2 ^ 16) ∨ RdbKey.TooLong key₁

-- Records lie where they were put

variable {s s' : RdbInstance} {a : RdbAction}

/-- Every record lies under a key of the request that put it. -/
def Stored (s : RdbInstance) : Prop :=
  ∀ k r, s.dataDb k = some r → ∃ b, RdbKey.set r.key b r.ns = some k

/-- A step stores records under the key of its request only. -/
theorem step_stored (hStored : s.Stored) (h : s.step a = some s') : s'.Stored := by
  cases a with
  | clock sec =>
    simp only [step] at h
    split at h
    · cases h
      exact hStored
    · cases h
  | put ns b key value expireTime =>
    obtain ⟨k, item, hKey, rfl⟩ := put_eq_some h
    intro k' r hFind
    by_cases hEq : k' = k
    · subst hEq
      simp only [Function.update_self, Option.some.injEq] at hFind
      subst hFind
      exact ⟨b, hKey⟩
    · simp only [Function.update_of_ne hEq] at hFind
      exact hStored k' r hFind
  | clearArea area =>
    cases h
    exact hStored
  | setValidBucketMgn m =>
    cases h
    exact hStored

/-- Every record lies under the key of the request that put it. -/
theorem run_stored {as : List RdbAction} (h : run step init as = some s) : s.Stored :=
  run_keeps (fun _ _ _ => step_stored) (fun _ _ hFind => by cases hFind) h

-- Isolation

/-- Names that are not apart are stored under the same key, with one bucket. -/
theorem set_eq_of_not_apart {ns₁ ns₂ : UInt32} {key₁ key₂ : Bytes}
    (h : ¬ Apart ns₁ key₁ ns₂ key₂) (b : UInt32) :
    ∃ k, RdbKey.set key₁ b ns₁ = some k ∧ RdbKey.set key₂ b ns₂ = some k := by
  simp only [Apart, not_or, not_and, not_not, ne_eq] at h
  obtain ⟨hKept, hAreas, hLen⟩ := h
  by_cases hNil : RdbKey.kept key₁ = []
  · exact ⟨[], RdbKey.set_of_kept_nil hNil b ns₁, RdbKey.set_of_kept_nil (hKept ▸ hNil) b ns₂⟩
  · have hLen₂ : ¬ RdbKey.TooLong key₂ := by
      unfold RdbKey.TooLong at hLen ⊢
      rwa [← RdbKey.kept_length, ← hKept, RdbKey.kept_length]
    refine ⟨_, RdbKey.set_of_kept hNil hLen b ns₁, ?_⟩
    rw [RdbKey.set_of_kept (hKept ▸ hNil) hLen₂, RdbKey.encodeArea_inj.mpr (hAreas hNil), hKept]

/-- For every hash function and any two names: over every history of puts, clears and
passing time, with any number of buckets at each put and at the get, a value put under
the first name is not returned for the second, exactly if the names are apart. -/
theorem isolated_iff (hash : Bytes → UInt32) (ns₁ ns₂ : UInt32) (key₁ key₂ : Bytes) :
    (∀ as s bucketCount value r, run step init as = some s →
      Along step (ByHash hash) init as →
      s.processGet hash bucketCount ns₂ key₂ = .success value r →
      (r.ns, r.key) ≠ (ns₁, key₁)) ↔ Apart ns₁ key₁ ns₂ key₂ := by
  constructor
  · -- One bucket, one put, and a get of the other name right after it.
    intro hIsolated
    by_contra hNot
    obtain ⟨k, hKey₁, hKey₂⟩ := set_eq_of_not_apart hNot 0
    have hBucket : ∀ key, UInt32.ofNat (getBucketNumber hash (1 : UInt32).toNat key) = 0 := by
      intro key
      simp [getBucketNumber, Nat.mod_one]
    have hPut : init.put ns₁ 0 key₁ [] 0 =
        some { init with dataDb := Function.update init.dataDb k (some ⟨ns₁, key₁, []⟩) } := by
      simp only [put, hKey₁]
      rfl
    refine hIsolated [.put ns₁ 0 key₁ [] 0] _ 1 [] ⟨ns₁, key₁, []⟩
      (run_cons_eq_some.mpr ⟨_, hPut, rfl⟩) ⟨⟨1, (hBucket key₁).symm⟩, fun _ _ => trivial⟩ ?_ rfl
    simp only [processGet, hBucket, get, hKey₂, Function.update_self]
    rfl
  · intro hApart as s bucketCount value r hRun _ hGet hEq
    obtain ⟨k, hKey, hFind, -⟩ := get_eq_success hGet
    obtain ⟨b, hPut⟩ := run_stored hRun k r hFind
    obtain ⟨rfl, rfl⟩ := Prod.mk.inj hEq
    obtain ⟨hKept, hAreas⟩ := RdbKey.set_inj hPut hKey
    rcases hApart with hDiffer | ⟨hSome, hDiffer⟩ | hLong
    · exact hDiffer hKept
    · exact hDiffer (hAreas.resolve_left hSome)
    · rw [RdbKey.set_of_tooLong hLong] at hPut
      cases hPut

/-- The value 42 is put under key 7 in namespace 1, and read from namespace 65537; and
the same with the empty key and namespace 2. -/
theorem namespaces_share_value :
    (∃ s r, run step init [.put 1 0 [7] [42] 0] = some s ∧
      s.processGet (fun _ => 0) 1 65537 [7] = .success [42] r ∧ (r.ns, r.key) = (1, [7])) ∧
    ∃ s r, run step init [.put 1 0 [] [42] 0] = some s ∧
      s.processGet (fun _ => 0) 1 2 [] = .success [42] r ∧ (r.ns, r.key) = (1, []) :=
  ⟨⟨_, _, rfl, rfl, rfl⟩, _, _, rfl, rfl, rfl⟩

end RdbInstance

end MyBase
