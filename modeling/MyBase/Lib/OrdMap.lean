import Mathlib

/-!
# Ordered maps

A map kept as the list of its entries in strictly increasing key order, with
the order carried by the type. The operations are those of an ordered
associative container: iteration is the entry list, `emplace` keeps an entry
that is already there, `lowerBound` finds the first key that is not below a
given one.

The lemmas locate an entry in a map whose entry list is known as a
concatenation (`emplace_mid`, `erase_last`, `lowerBound_append`), and say
which keys an operation can add (`mem_keys_emplace`, `keys_modify`). A map is
determined by its lookups (`ext_find?`), and each operation is described by what a
lookup finds afterwards (`find?_emplace`, `find?_modify`, `find?_insert`, `find?_erase`). The
entries of a range of numbered keys are looked up one after the other (`filter_range`).
-/

namespace MyBase.Lib

open List

structure OrdMap (K V : Type) [LinearOrder K] where
  entries : List (K × V)
  sorted : entries.Pairwise fun a b => a.1 < b.1

namespace OrdMap

variable {K V : Type} [LinearOrder K]

variable {k k' b i : K} {m m' : OrdMap K V} {v : V} {e : K × V} {l r : List (K × V)} {α : Type}
  {f : V → V}

@[ext] theorem ext (h : m.entries = m'.entries) : m = m' := by
  cases m
  cases m'
  cases h
  rfl

/-- The map without entries. -/
def empty : OrdMap K V := ⟨[], List.Pairwise.nil⟩

instance : EmptyCollection (OrdMap K V) := ⟨empty⟩

@[simp] theorem entries_empty : (∅ : OrdMap K V).entries = [] := rfl

/-- The keys, in increasing order. -/
def keys (m : OrdMap K V) : List K := m.entries.map Prod.fst

/-- The value stored under a key. -/
def find? (m : OrdMap K V) (k : K) : Option V :=
  (m.entries.find? fun e => decide (e.1 = k)).map Prod.snd

/-- The first entry whose key is not below `k`. -/
def lowerBound (m : OrdMap K V) (k : K) : Option (K × V) :=
  m.entries.find? fun e => decide (k ≤ e.1)

-- Insertion

/-- Insert into a sorted entry list; an entry already stored under the key
stays as it is. -/
def emplaceList (k : K) (v : V) : List (K × V) → List (K × V)
  | [] => [(k, v)]
  | e :: rest =>
    if k < e.1 then (k, v) :: e :: rest
    else if k = e.1 then e :: rest
    else e :: emplaceList k v rest

theorem mem_emplaceList (h : e ∈ emplaceList k v l) : e = (k, v) ∨ e ∈ l := by
  induction l with
  | nil => exact Or.inl (by simpa [emplaceList] using h)
  | cons x rest ih =>
    unfold emplaceList at h
    split_ifs at h with hlt heq
    · simpa using h
    · exact Or.inr h
    · rcases mem_cons.mp h with rfl | hRest
      · exact Or.inr (mem_cons_self ..)
      · exact (ih hRest).imp_right (mem_cons_of_mem _)

theorem mem_emplaceList_of_mem (v : V) (h : e ∈ l) : e ∈ emplaceList k v l := by
  induction l with
  | nil => simp at h
  | cons x rest ih =>
    unfold emplaceList
    split_ifs with hlt heq
    · exact mem_cons_of_mem _ h
    · exact h
    · rcases mem_cons.mp h with rfl | hRest
      · exact mem_cons_self ..
      · exact mem_cons_of_mem _ (ih hRest)

theorem mem_emplaceList_self (v : V) (h : ∀ e ∈ l, e.1 ≠ k) : (k, v) ∈ emplaceList k v l := by
  induction l with
  | nil => exact mem_singleton_self _
  | cons x rest ih =>
    unfold emplaceList
    split
    · exact mem_cons_self
    · rw [if_neg fun hk => h x mem_cons_self hk.symm]
      exact mem_cons_of_mem _ (ih fun e he => h e (mem_cons_of_mem _ he))

theorem sorted_emplaceList (k : K) (v : V) (h : l.Pairwise fun a b => a.1 < b.1) :
    (emplaceList k v l).Pairwise fun a b => a.1 < b.1 := by
  induction l with
  | nil => exact pairwise_singleton _ _
  | cons x rest ih =>
    obtain ⟨hHead, hRest⟩ := pairwise_cons.mp h
    unfold emplaceList
    split_ifs with hlt heq
    · refine pairwise_cons.mpr ⟨?_, h⟩
      intro e he
      rcases mem_cons.mp he with rfl | he'
      · exact hlt
      · exact lt_trans hlt (hHead e he')
    · exact h
    · refine pairwise_cons.mpr ⟨?_, ih hRest⟩
      intro e he
      rcases mem_emplaceList he with rfl | he'
      · exact lt_of_le_of_ne (not_lt.mp hlt) (Ne.symm heq)
      · exact hHead e he'

/-- Insert an entry unless the key is already there. -/
def emplace (m : OrdMap K V) (k : K) (v : V) : OrdMap K V :=
  ⟨emplaceList k v m.entries, sorted_emplaceList k v m.sorted⟩

theorem mem_emplace (h : e ∈ (m.emplace k v).entries) : e = (k, v) ∨ e ∈ m.entries :=
  mem_emplaceList h

theorem mem_emplace_of_mem (v : V) (h : e ∈ m.entries) : e ∈ (m.emplace k v).entries :=
  mem_emplaceList_of_mem v h

theorem mem_keys_emplace (h : k' ∈ (m.emplace k v).keys) : k' = k ∨ k' ∈ m.keys := by
  obtain ⟨e, he, rfl⟩ := mem_map.mp h
  rcases mem_emplace he with rfl | he'
  · exact Or.inl rfl
  · exact Or.inr (mem_map_of_mem he')

theorem mem_keys_foldl_emplace {key : α → K} {val : α → V} {l : List α}
    (h : k ∈ (l.foldl (fun m a => m.emplace (key a) (val a)) m).keys) :
    k ∈ m.keys ∨ ∃ a ∈ l, k = key a := by
  induction l generalizing m with
  | nil => exact Or.inl h
  | cons a l ih =>
    rcases ih h with h | ⟨b, hb, rfl⟩
    · rcases mem_keys_emplace h with rfl | h
      · exact Or.inr ⟨a, mem_cons_self, rfl⟩
      · exact Or.inl h
    · exact Or.inr ⟨b, mem_cons_of_mem _ hb, rfl⟩

/-- A loop that enters keys has entered those of its passes. -/
theorem mem_keys_foldl (key : α → K → Prop) {f : OrdMap K V → α → OrdMap K V}
    (hStep : ∀ m a k, k ∈ (f m a).keys ↔ k ∈ m.keys ∨ key a k) (l : List α) (m : OrdMap K V)
    (k : K) : k ∈ (l.foldl f m).keys ↔ k ∈ m.keys ∨ ∃ a ∈ l, key a k := by
  induction l generalizing m with
  | nil => simp
  | cons a l ih => rw [foldl_cons, ih, hStep, or_assoc, exists_mem_cons_iff]

/-- A new entry goes between the smaller and the greater keys. -/
theorem emplaceList_mid (hl : ∀ e ∈ l, e.1 < k) (hr : ∀ e ∈ r, k < e.1) :
    emplaceList k v (l ++ r) = l ++ (k, v) :: r := by
  induction l with
  | nil =>
    cases r with
    | nil => rfl
    | cons y rest => simp [emplaceList, hr y (mem_cons_self ..)]
  | cons x rest ih =>
    have hx : x.1 < k := hl x (mem_cons_self ..)
    rw [cons_append, emplaceList, if_neg (not_lt.mpr hx.le), if_neg hx.ne',
      ih fun e he => hl e (mem_cons_of_mem _ he)]
    rfl

theorem emplace_mid (h : m.entries = l ++ r) (hl : ∀ e ∈ l, e.1 < k) (hr : ∀ e ∈ r, k < e.1) :
    (m.emplace k v).entries = l ++ (k, v) :: r := by
  show emplaceList k v m.entries = _
  rw [h, emplaceList_mid hl hr]

theorem emplace_last (h : ∀ e ∈ m.entries, e.1 < k) :
    (m.emplace k v).entries = m.entries ++ [(k, v)] :=
  emplace_mid (append_nil _).symm h (by simp)

/-- Inserting under a key that is present changes nothing. -/
theorem emplaceList_of_mem (hl : l.Pairwise fun a b => a.1 < b.1) (h : ∃ e ∈ l, e.1 = k) :
    emplaceList k v l = l := by
  induction l with
  | nil => simp at h
  | cons x rest ih =>
    obtain ⟨hHead, hRest⟩ := pairwise_cons.mp hl
    obtain ⟨e, he, rfl⟩ := h
    unfold emplaceList
    rcases mem_cons.mp he with rfl | he'
    · rw [if_neg (lt_irrefl _), if_pos rfl]
    · have hx : x.1 < e.1 := hHead e he'
      rw [if_neg (not_lt.mpr hx.le), if_neg hx.ne', ih hRest ⟨e, he', rfl⟩]

theorem emplace_of_mem (h : ∃ e ∈ m.entries, e.1 = k) : m.emplace k v = m :=
  ext (emplaceList_of_mem m.sorted h)

-- Updates that keep or drop entries

/-- Change the value stored under a key; a key that is absent stays absent. -/
def modify (m : OrdMap K V) (k : K) (f : V → V) : OrdMap K V where
  entries := m.entries.map fun e => if e.1 = k then (e.1, f e.2) else e
  sorted := by
    rw [pairwise_map]
    refine m.sorted.imp ?_
    intro a b hab
    split_ifs <;> exact hab

@[simp] theorem keys_modify (m : OrdMap K V) (k : K) (f : V → V) :
    (m.modify k f).keys = m.keys := by
  simp only [keys, modify, map_map]
  apply map_congr_left
  intro e _
  simp only [Function.comp_apply]
  split_ifs <;> rfl

theorem mem_modify (h : e ∈ (m.modify k f).entries) :
    e ∈ m.entries ∨ ∃ v, (k, v) ∈ m.entries ∧ e = (k, f v) := by
  obtain ⟨x, hx, rfl⟩ := mem_map.mp h
  split
  · rename_i hk
    subst hk
    exact Or.inr ⟨x.2, hx, rfl⟩
  · exact Or.inl hx

theorem modify_last (h : m.entries = l ++ [(k, v)]) : (m.modify k f).entries = l ++ [(k, f v)] := by
  have hs := m.sorted
  rw [h, pairwise_append] at hs
  show m.entries.map (fun e => if e.1 = k then (e.1, f e.2) else e) = _
  rw [h, map_append]
  have hKeep : l.map (fun e => if e.1 = k then (e.1, f e.2) else e) = l := by
    conv_rhs => rw [← map_id l]
    apply map_congr_left
    intro e he
    exact if_neg (hs.2.2 e he (k, v) (mem_singleton_self _)).ne
  rw [hKeep]
  simp

/-- Drop the entry stored under a key. -/
def erase (m : OrdMap K V) (k : K) : OrdMap K V :=
  ⟨m.entries.filter fun e => decide (e.1 ≠ k), m.sorted.filter _⟩

theorem mem_erase : e ∈ (m.erase k).entries ↔ e ∈ m.entries ∧ e.1 ≠ k := by
  simp [erase, mem_filter]

theorem erase_last (h : m.entries = l ++ [(k, v)]) : (m.erase k).entries = l := by
  have hs := m.sorted
  rw [h, pairwise_append] at hs
  show m.entries.filter (fun e => decide (e.1 ≠ k)) = l
  rw [h, filter_append]
  have hKeep : l.filter (fun e => decide (e.1 ≠ k)) = l := by
    rw [filter_eq_self]
    intro e he
    have := hs.2.2 e he (k, v) (mem_singleton_self _)
    simpa using this.ne
  rw [hKeep]
  simp

/-- Keep the entries up to a key. -/
def keepLe (m : OrdMap K V) (k : K) : OrdMap K V :=
  ⟨m.entries.filter fun e => decide (e.1 ≤ k), m.sorted.filter _⟩

-- Lookups

theorem find?_isSome_iff : (m.find? k).isSome ↔ k ∈ m.keys := by
  unfold find? keys
  rw [Option.isSome_map, find?_isSome, mem_map]
  constructor
  · rintro ⟨e, he, hk⟩
    exact ⟨e, he, of_decide_eq_true hk⟩
  · rintro ⟨e, he, hk⟩
    exact ⟨e, he, decide_eq_true hk⟩

theorem mem_of_find? (h : m.find? k = some v) : (k, v) ∈ m.entries := by
  unfold find? at h
  obtain ⟨e, he, rfl⟩ := Option.map_eq_some_iff.mp h
  have hk : e.1 = k := by simpa using find?_some he
  subst hk
  exact mem_of_find?_eq_some he

theorem keys_nodup (m : OrdMap K V) : m.keys.Nodup := by
  refine List.Pairwise.map Prod.fst (fun a b hab => ?_) m.sorted
  exact ne_of_lt hab

theorem eq_of_mem {v' : V} (h : (k, v) ∈ m.entries) (h' : (k, v') ∈ m.entries) : v = v' := by
  have := inj_on_of_nodup_map m.keys_nodup h h' rfl
  exact (Prod.mk.inj this).2

theorem find?_of_mem (h : (k, v) ∈ m.entries) : m.find? k = some v := by
  have hSome : (m.find? k).isSome := find?_isSome_iff.mpr (mem_map_of_mem h)
  obtain ⟨v', hv'⟩ := Option.isSome_iff_exists.mp hSome
  rw [hv', eq_of_mem (mem_of_find? hv') h]

theorem find?_eq_some_iff : m.find? k = some v ↔ (k, v) ∈ m.entries :=
  ⟨mem_of_find?, find?_of_mem⟩

@[simp] theorem find?_empty (k : K) : (∅ : OrdMap K V).find? k = none := rfl

theorem entries_nodup (m : OrdMap K V) : m.entries.Nodup := List.Nodup.of_map _ m.keys_nodup

/-- Entries in increasing order are determined by which they are. -/
theorem eq_of_mem_iff {l' : List (K × V)} (hl : l.Pairwise fun a b => a.1 < b.1)
    (hl' : l'.Pairwise fun a b => a.1 < b.1) (h : ∀ e, e ∈ l ↔ e ∈ l') : l = l' := by
  have hNodup : ∀ r : List (K × V), (r.Pairwise fun a b => a.1 < b.1) → r.Nodup := by
    intro r hr
    refine hr.imp ?_
    rintro a _ hab rfl
    exact lt_irrefl _ hab
  have hPerm := (perm_ext_iff_of_nodup (hNodup l hl) (hNodup l' hl')).mpr h
  refine hPerm.eq_of_pairwise ?_ hl hl'
  intro a b _ _ hab hba
  exact absurd hab (not_lt_of_gt hba)

theorem ext_find? (h : ∀ k, m.find? k = m'.find? k) : m = m' := by
  refine ext (eq_of_mem_iff m.sorted m'.sorted ?_)
  rintro ⟨k, v⟩
  rw [← find?_eq_some_iff, ← find?_eq_some_iff, h k]

/-- The entries of a range of numbered keys are found by looking the numbers up in turn. -/
theorem filter_range {key : Nat → K} {a b : Nat} {p : K → Bool}
    (hMono : ∀ i j, i < j → j < b → key i < key j)
    (hRange : ∀ k ∈ m.keys, p k = true ↔ ∃ i, a ≤ i ∧ i < b ∧ key i = k) :
    m.entries.filter (fun e => p e.1) =
      (List.range' a (b - a)).filterMap fun i => (m.find? (key i)).map fun v => (key i, v) := by
  have hMem : ∀ i, i ∈ List.range' a (b - a) ↔ a ≤ i ∧ i < b := by
    intro i
    rw [mem_range'_1]
    omega
  refine eq_of_mem_iff (m.sorted.filter _) ?_ ?_
  · rw [pairwise_filterMap]
    refine (pairwise_lt_range' 1).imp_of_mem ?_
    intro i j _ hj hij e he e' he'
    obtain ⟨v, -, rfl⟩ := Option.map_eq_some_iff.mp he
    obtain ⟨v', -, rfl⟩ := Option.map_eq_some_iff.mp he'
    exact hMono i j hij ((hMem j).mp hj).2
  · rintro ⟨k, v⟩
    rw [mem_filter, mem_filterMap]
    constructor
    · rintro ⟨hEntry, hp⟩
      obtain ⟨i, ha, hb, rfl⟩ := (hRange k (mem_map_of_mem hEntry)).mp hp
      refine ⟨i, (hMem i).mpr ⟨ha, hb⟩, ?_⟩
      rw [find?_of_mem hEntry]
      rfl
    · rintro ⟨i, hi, hFind⟩
      obtain ⟨v', hv', hEq⟩ := Option.map_eq_some_iff.mp hFind
      cases hEq
      have hEntry := mem_of_find? hv'
      obtain ⟨ha, hb⟩ := (hMem i).mp hi
      exact ⟨hEntry, (hRange _ (mem_map_of_mem hEntry)).mpr ⟨i, ha, hb, rfl⟩⟩

/-- `emplace` keeps a value that is there. -/
theorem find?_emplace (m : OrdMap K V) (k : K) (v : V) (k' : K) :
    (m.emplace k v).find? k' = if k' = k then some ((m.find? k).getD v) else m.find? k' := by
  by_cases hPresent : ∃ e ∈ m.entries, e.1 = k
  · rw [emplace_of_mem hPresent]
    obtain ⟨e, he, rfl⟩ := hPresent
    split
    · rename_i hk
      rw [hk, find?_of_mem he]
      rfl
    · rfl
  · have hNone : m.find? k = none := by
      rw [Option.eq_none_iff_forall_ne_some]
      intro v' hv'
      exact hPresent ⟨(k, v'), mem_of_find? hv', rfl⟩
    have hNew : (k, v) ∈ (m.emplace k v).entries := mem_emplaceList_self v fun e he hk =>
      hPresent ⟨e, he, hk⟩
    split
    · rename_i hk
      rw [hk, hNone, find?_of_mem hNew]
      rfl
    · rename_i hk
      apply Option.ext
      intro v'
      rw [find?_eq_some_iff, find?_eq_some_iff]
      refine ⟨fun h => (mem_emplace h).resolve_left ?_, mem_emplace_of_mem v⟩
      intro hEq
      exact hk (Prod.mk.inj hEq).1

theorem find?_foldl_emplace_of_some {key : α → K} {val : α → V} (l : List α)
    (h : m.find? k = some v) :
    (l.foldl (fun m a => m.emplace (key a) (val a)) m).find? k = some v := by
  refine List.foldlRecOn (motive := fun m : OrdMap K V => m.find? k = some v) _ _ h ?_
  intro m hm a _
  rw [find?_emplace]
  split
  · rename_i hk
    rw [← hk, hm]
    rfl
  · exact hm

/-- Every new key of a list gets its value. -/
theorem find?_foldl_emplace {key : α → K} (val : α → V) {l : List α} (hNodup : (l.map key).Nodup)
    (hNew : ∀ a ∈ l, m.find? (key a) = none) {a : α} (ha : a ∈ l) :
    (l.foldl (fun m a => m.emplace (key a) (val a)) m).find? (key a) = some (val a) := by
  induction l generalizing m with
  | nil => cases ha
  | cons b l ih =>
    obtain ⟨hHead, hTail⟩ := nodup_cons.mp hNodup
    rw [foldl_cons]
    rcases mem_cons.mp ha with rfl | ha
    · refine find?_foldl_emplace_of_some l ?_
      rw [find?_emplace, if_pos rfl, hNew a mem_cons_self]
      rfl
    · refine ih hTail ?_ ha
      intro c hc
      rw [find?_emplace, if_neg]
      · exact hNew c (mem_cons_of_mem _ hc)
      · intro hEq
        exact hHead (hEq ▸ mem_map_of_mem hc)

theorem find?_modify (m : OrdMap K V) (k : K) (f : V → V) (k' : K) :
    (m.modify k f).find? k' = if k' = k then (m.find? k).map f else m.find? k' := by
  have hKey : ((fun e : K × V => decide (e.1 = k')) ∘
      fun e => if e.1 = k then (e.1, f e.2) else e) = fun e => decide (e.1 = k') := by
    funext e
    simp only [Function.comp_apply]
    split <;> rfl
  unfold find? modify
  rw [find?_map, hKey, Option.map_map]
  cases hFind : m.entries.find? fun e => decide (e.1 = k') with
  | none =>
    split
    · rename_i hk
      rw [← hk, hFind]
      rfl
    · rfl
  | some e =>
    have hKey' : e.1 = k' := by simpa using find?_some hFind
    split
    · rename_i hk
      rw [← hk, hFind]
      simp [hKey', hk]
    · rename_i hk
      simp [hKey', hk]

theorem find?_modify_of_none (h : m.find? k' = none) (k : K) (f : V → V) :
    (m.modify k f).find? k' = none := by
  rw [find?_modify]
  split
  · rename_i hKey
    rw [← hKey, h]
    rfl
  · exact h

/-- Change every value. -/
def mapValues (m : OrdMap K V) (f : V → V) : OrdMap K V where
  entries := m.entries.map fun e => (e.1, f e.2)
  sorted := pairwise_map.mpr m.sorted

theorem find?_mapValues (m : OrdMap K V) (f : V → V) (k : K) :
    (m.mapValues f).find? k = (m.find? k).map f := by
  unfold find? mapValues
  rw [find?_map, Option.map_map, Option.map_map]
  rfl

theorem find?_erase (m : OrdMap K V) (k k' : K) :
    (m.erase k).find? k' = if k' = k then none else m.find? k' := by
  apply Option.ext
  intro v
  rw [find?_eq_some_iff, mem_erase]
  split
  · rename_i hk
    simp [hk]
  · rename_i hk
    rw [find?_eq_some_iff]
    exact and_iff_left hk

/-- Give a key a value, whether it has one or not. -/
def insert (m : OrdMap K V) (k : K) (v : V) : OrdMap K V := (m.emplace k v).modify k fun _ => v

theorem find?_insert (m : OrdMap K V) (k : K) (v : V) (k' : K) :
    (m.insert k v).find? k' = if k' = k then some v else m.find? k' := by
  rw [insert, find?_modify, find?_emplace, find?_emplace, if_pos rfl]
  split <;> rfl

theorem mem_keys_insert : k' ∈ (m.insert k v).keys ↔ k' = k ∨ k' ∈ m.keys := by
  rw [← find?_isSome_iff, ← find?_isSome_iff, find?_insert]
  split
  · rename_i hk
    exact iff_of_true rfl (Or.inl hk)
  · rename_i hk
    exact (or_iff_right hk).symm

theorem find?_foldl_erase (key : α → K) (l : List α) (m : OrdMap K V) (k : K) :
    (l.foldl (fun m a => m.erase (key a)) m).find? k =
      if k ∈ l.map key then none else m.find? k := by
  induction l generalizing m with
  | nil => rfl
  | cons a l ih =>
    rw [foldl_cons, ih, find?_erase, map_cons]
    by_cases hk : k = key a
    · simp [hk]
    · simp [hk]

theorem perm_cons (hNew : m.find? k = none)
    (h : ∀ k', m'.find? k' = if k' = k then some v else m.find? k') :
    m'.entries.Perm ((k, v) :: m.entries) := by
  have hNot : (k, v) ∉ m.entries := by
    rw [← find?_eq_some_iff, hNew]
    exact nofun
  refine (perm_ext_iff_of_nodup m'.entries_nodup
    (nodup_cons.mpr ⟨hNot, m.entries_nodup⟩)).mpr ?_
  rintro ⟨k', v'⟩
  rw [mem_cons, ← find?_eq_some_iff, ← find?_eq_some_iff, h k', Prod.mk.injEq]
  by_cases hk : k' = k
  · subst hk
    simp [hNew, eq_comm]
  · simp [hk]

theorem perm_emplace (h : m.find? k = none) (v : V) :
    (m.emplace k v).entries.Perm ((k, v) :: m.entries) := by
  refine perm_cons h fun k' => ?_
  rw [find?_emplace, h]
  rfl

theorem perm_erase (h : m.find? k = some v) : m.entries.Perm ((k, v) :: (m.erase k).entries) := by
  refine perm_cons ?_ fun k' => ?_
  · rw [find?_erase, if_pos rfl]
  · rw [find?_erase]
    by_cases hk : k' = k
    · rw [if_pos hk, hk, h]
    · rw [if_neg hk, if_neg hk]

theorem length_emplace (h : m.find? k = none) (v : V) :
    (m.emplace k v).entries.length = m.entries.length + 1 :=
  (perm_emplace h v).length_eq

theorem length_erase (h : m.find? k = some v) : (m.erase k).entries.length + 1 = m.entries.length :=
  (perm_erase h).length_eq.symm

instance [DecidableEq V] : DecidableEq (OrdMap K V) := fun m m' =>
  decidable_of_iff (m.entries = m'.entries) ⟨ext, congrArg entries⟩

/-- Entries with smaller keys are passed over by a lower-bound search. -/
theorem lowerBound_append (h : m.entries = l ++ e :: r) (hl : ∀ x ∈ l, x.1 < k) (he : k ≤ e.1) :
    m.lowerBound k = some e := by
  unfold lowerBound
  have hSkip : l.find? (fun x => decide (k ≤ x.1)) = none := by
    rw [find?_eq_none]
    intro x hx
    simpa using hl x hx
  rw [h, find?_append, hSkip, Option.none_or, find?_cons_of_pos (by simpa using he)]

/-- A lower-bound search is not changed by dropping entries other than its result. -/
theorem lowerBound_of_filter {q : K × V → Bool} (h : m'.entries = m.entries.filter q)
    (hFound : m.lowerBound k = some e) (hKeep : q e = true) : m'.lowerBound k = some e := by
  unfold lowerBound at hFound ⊢
  rw [h]
  obtain ⟨hPos, l, r, hSplit, hBefore⟩ := List.find?_eq_some_iff_append.mp hFound
  rw [hSplit, filter_append, filter_cons_of_pos hKeep, find?_append,
    List.find?_eq_none.mpr, Option.none_or, find?_cons_of_pos (by simpa using hPos)]
  intro x hx
  simpa using hBefore x (mem_filter.mp hx).1

section Found

variable (h : m.lowerBound k = some e)
include h

theorem lowerBound_keepLe (hb : e.1 ≤ b) : (m.keepLe b).lowerBound k = some e :=
  lowerBound_of_filter rfl h (decide_eq_true hb)

theorem lowerBound_erase (hb : e.1 ≠ b) : (m.erase b).lowerBound k = some e :=
  lowerBound_of_filter rfl h (decide_eq_true hb)

omit h in
/-- Every key up to the one a search finds leads to the same entry. -/
theorem lowerBound_of_le (h : m.lowerBound i = some e) (hk : i ≤ k) (he : k ≤ e.1) :
    m.lowerBound k = some e := by
  unfold lowerBound at h
  obtain ⟨_, l, r, hSplit, hBefore⟩ := List.find?_eq_some_iff_append.mp h
  refine lowerBound_append hSplit ?_ he
  intro x hx
  have hNot := hBefore x hx
  simp only [Bool.not_eq_eq_eq_not, Bool.not_true, decide_eq_false_iff_not, not_le] at hNot
  exact lt_of_lt_of_le hNot hk

theorem le_of_lowerBound : k ≤ e.1 := by
  unfold lowerBound at h
  simpa using find?_some h

/-- The search finds the least key that is not below. -/
theorem lowerBound_le {e' : K × V} (he' : e' ∈ m.entries) (hk : k ≤ e'.1) : e.1 ≤ e'.1 := by
  by_contra hlt
  rw [not_le] at hlt
  have hSorted := m.sorted
  unfold lowerBound at h
  obtain ⟨_, l, r, hSplit, hBefore⟩ := List.find?_eq_some_iff_append.mp h
  rw [hSplit] at he' hSorted
  rcases mem_append.mp he' with hl | hr
  · have hNot := hBefore e' hl
    simp only [Bool.not_eq_eq_eq_not, Bool.not_true, decide_eq_false_iff_not, not_le] at hNot
    exact absurd hk (not_le.mpr hNot)
  · rcases mem_cons.mp hr with rfl | hr
    · exact lt_irrefl _ hlt
    · have hTail := (pairwise_append.mp hSorted).2.1
      exact lt_asymm hlt ((pairwise_cons.mp hTail).1 e' hr)

end Found

/-- A lower-bound search after an insertion: below the new key it finds the old
result if that is not above the new key, and the new entry otherwise. -/
theorem lowerBound_emplace (m : OrdMap K V) (k : K) (v : V) (hi : i ≤ k) :
    (m.emplace k v).lowerBound i =
      match m.lowerBound i with
      | some e => if e.1 ≤ k then some e else some (k, v)
      | none => some (k, v) := by
  show (emplaceList k v m.entries).find? (fun e => decide (i ≤ e.1)) =
    match m.entries.find? (fun e => decide (i ≤ e.1)) with
    | some e => if e.1 ≤ k then some e else some (k, v)
    | none => some (k, v)
  induction m.entries with
  | nil => simp [emplaceList, hi]
  | cons x rest ih =>
    unfold emplaceList
    by_cases hlt : k < x.1
    · have hix : i ≤ x.1 := le_of_lt (lt_of_le_of_lt hi hlt)
      simp [hlt, hi, hix, not_le.mpr hlt]
    · by_cases heq : k = x.1
      · have hix : i ≤ x.1 := heq ▸ hi
        simp [heq, hix]
      · have hxk : x.1 ≤ k := not_lt.mp hlt
        rw [if_neg hlt, if_neg heq]
        by_cases hix : i ≤ x.1
        · simp [hix, hxk]
        · rw [find?_cons_of_neg (by simpa using hix),
            find?_cons_of_neg (by simpa using hix), ih]

theorem lowerBound_eq_none (h : ∀ x ∈ m.entries, x.1 < k) : m.lowerBound k = none := by
  unfold lowerBound
  rw [find?_eq_none]
  intro x hx
  simpa using h x hx

-- Sums of values

/-- The sum of the values. -/
def total (m : OrdMap K Int) : Int := (m.entries.map Prod.snd).sum

theorem total_emplaceList (v : Int) {l : List (K × Int)} (h : ∀ e ∈ l, e.1 ≠ k) :
    ((emplaceList k v l).map Prod.snd).sum = v + (l.map Prod.snd).sum := by
  induction l with
  | nil => rfl
  | cons x rest ih =>
    unfold emplaceList
    split
    · simp
    · rw [if_neg fun hk => h x mem_cons_self hk.symm, map_cons, sum_cons,
        ih fun e he => h e (mem_cons_of_mem _ he), map_cons, sum_cons]
      omega

/-- An entry 0 that may be there already leaves the sum as it is. -/
theorem total_emplace_zero (m : OrdMap K Int) (k : K) : (m.emplace k 0).total = m.total := by
  by_cases hPresent : ∃ e ∈ m.entries, e.1 = k
  · rw [emplace_of_mem hPresent]
  · refine (total_emplaceList 0 fun e he hk => hPresent ⟨e, he, hk⟩).trans ?_
    rw [zero_add]
    rfl

/-- Changing the value under a key changes the sum by the difference. -/
theorem total_modify {m : OrdMap K Int} {v : Int} (f : Int → Int) (h : (k, v) ∈ m.entries) :
    (m.modify k f).total = m.total - v + f v := by
  obtain ⟨l, r, hSplit⟩ := append_of_mem h
  have hSorted := m.sorted
  rw [hSplit, pairwise_append, pairwise_cons] at hSorted
  have hKeep : ∀ l' : List (K × Int), (∀ e ∈ l', e.1 ≠ k) →
      l'.map (fun e => if e.1 = k then (e.1, f e.2) else e) = l' := by
    intro l' hl'
    conv_rhs => rw [← map_id l']
    exact map_congr_left fun e he => if_neg (hl' e he)
  unfold total modify
  dsimp only
  rw [hSplit, map_append, map_cons,
    hKeep l fun e he => (hSorted.2.2 e he (k, v) mem_cons_self).ne,
    hKeep r fun e he => (hSorted.2.1.1 e he).ne']
  simp only [map_append, map_cons, sum_append, sum_cons, if_true]
  omega

end OrdMap

end MyBase.Lib
