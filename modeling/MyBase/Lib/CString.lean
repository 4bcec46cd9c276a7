import Mathlib

/-!
# Pointers into a buffer

A buffer is a list of cells, and a pointer a position in it. An access outside of the
buffer, also in front of it, gives `none`.

* `scan f mem p` — `while (f(*p)) p++`;
* `scanBack f mem p` — `while (f(*(p - 1))) p--`;
* `store mem p c` — `*p = c`;
* `cstr terminator mem p` — the cells from `p` on, up to the first that is `terminator`.

Each walk is described by the list of cells that it passes: `scan_append`,
`scan_takeWhile`, `scanBack_append` and `cstr_append`.
-/

namespace MyBase.Lib

open List

variable {α : Type}

/-- Walk forwards over `cells`, the first of which is at `p`. -/
def scanFrom (f : α → Bool) : List α → Nat → Option Nat
  | [], _ => none
  | c :: cells, p => if f c then scanFrom f cells (p + 1) else some p

/-- `while (f(*p)) p++` -/
def scan (f : α → Bool) (mem : List α) (p : Nat) : Option Nat := scanFrom f (mem.drop p) p

/-- `while (f(*(p - 1))) p--` -/
def scanBack (f : α → Bool) (mem : List α) : Nat → Option Nat
  | 0 => none
  | p + 1 => mem[p]?.bind fun c => if f c then scanBack f mem p else some (p + 1)

/-- `*p = c` -/
def store (mem : List α) (p : Nat) (c : α) : Option (List α) :=
  if p < mem.length then some (mem.set p c) else none

/-- Any cell but `c`. -/
def isNot [DecidableEq α] (c x : α) : Bool := decide (x ≠ c)

/-- The string that begins at `p`. -/
def cstr [DecidableEq α] (terminator : α) (mem : List α) (p : Nat) : Option (List α) :=
  (scan (isNot terminator) mem p).map fun q => (mem.drop p).take (q - p)

-- Forwards

variable {f : α → Bool} {c : α} {l : List α}

theorem scanFrom_append (hl : ∀ x ∈ l, f x = true) (hc : f c = false) (rest : List α) (p : Nat) :
    scanFrom f (l ++ c :: rest) p = some (p + l.length) := by
  induction l generalizing p with
  | nil => simp [scanFrom, hc]
  | cons x l ih =>
    rw [cons_append, scanFrom, if_pos (hl x mem_cons_self),
      ih fun y hy => hl y (mem_cons_of_mem x hy), length_cons]
    congr 1
    omega

/-- A walk over `l`, stopped by the cell behind it. -/
theorem scan_append (before : List α) (hl : ∀ x ∈ l, f x = true) (hc : f c = false)
    (rest : List α) :
    scan f (before ++ (l ++ c :: rest)) before.length = some (before.length + l.length) := by
  rw [scan, drop_left]
  exact scanFrom_append hl hc rest before.length

/-- A walk over the first cells of `l` that satisfy `f`, with one behind `l` that does not. -/
theorem scan_takeWhile (before l : List α) (hc : f c = false) (rest : List α) :
    scan f (before ++ (l ++ c :: rest)) before.length =
      some (before.length + (l.takeWhile f).length) := by
  have hl : ∀ x ∈ l.takeWhile f, f x = true := fun x hx => mem_takeWhile_imp hx
  cases hDrop : l.dropWhile f with
  | nil =>
    have hAll : l.takeWhile f = l := by
      have hSplit := takeWhile_append_dropWhile (p := f) (l := l)
      rwa [hDrop, append_nil] at hSplit
    rw [hAll] at hl ⊢
    exact scan_append before hl hc rest
  | cons x l' =>
    have hx : f x = false := by
      have hNot := head_dropWhile_not f (l := l) (by simp [hDrop])
      simpa [hDrop] using hNot
    have hSplit : l.takeWhile f ++ x :: l' = l := hDrop ▸ takeWhile_append_dropWhile
    have hScan := scan_append before hl hx (l' ++ c :: rest)
    rw [← cons_append, ← append_assoc (l.takeWhile f), hSplit] at hScan
    exact hScan

section Strings

variable [DecidableEq α] {c : α} {s : List α}

@[simp] theorem isNot_eq_true {x : α} : isNot c x = true ↔ x ≠ c := decide_eq_true_iff

theorem isNot_self (c : α) : isNot c c = false := by simp [isNot]

theorem isNot_of_not_mem (hs : c ∉ s) : ∀ x ∈ s, isNot c x = true := by
  intro x hx
  rw [isNot_eq_true]
  rintro rfl
  exact hs hx

theorem not_mem_takeWhile_isNot (s : List α) (c : α) : c ∉ s.takeWhile (isNot c) := by
  intro hMem
  exact isNot_eq_true.mp (mem_takeWhile_imp hMem) rfl

theorem takeWhile_isNot_of_not_mem (hs : c ∉ s) : s.takeWhile (isNot c) = s :=
  takeWhile_eq_self_iff.mpr (isNot_of_not_mem hs)

theorem takeWhile_isNot_append (hs : c ∉ s) (rest : List α) :
    (s ++ c :: rest).takeWhile (isNot c) = s := by
  rw [takeWhile_append_of_pos (isNot_of_not_mem hs),
    takeWhile_cons_of_neg (by simp [isNot_self]), append_nil]

/-- The part of a list in front of the first `c`, when there is one. -/
theorem eq_takeWhile_isNot_append (hc : c ∈ s) :
    ∃ rest, s.dropWhile (isNot c) = c :: rest ∧ s = s.takeWhile (isNot c) ++ c :: rest := by
  have hNe : s.dropWhile (isNot c) ≠ [] := by
    rw [Ne, dropWhile_eq_nil_iff]
    intro hAll
    exact isNot_eq_true.mp (hAll c hc) rfl
  obtain ⟨x, rest, hx⟩ := exists_cons_of_ne_nil hNe
  have hHead : x = c := by
    have hNot := head_dropWhile_not (isNot c) hNe
    simpa [hx, isNot] using hNot
  subst hHead
  refine ⟨rest, hx, ?_⟩
  rw [← hx]
  exact takeWhile_append_dropWhile.symm

theorem cstr_append {terminator : α} {l : List α} (before : List α)
    (hl : terminator ∉ l) (rest : List α) :
    cstr terminator (before ++ (l ++ terminator :: rest)) before.length = some l := by
  rw [cstr, scan_append before (isNot_of_not_mem hl) (isNot_self terminator), drop_left,
    Option.map_some, Nat.add_sub_cancel_left, take_left]

/-- A string that begins in front of a terminator ends there at the latest. -/
theorem exists_cstr {terminator : α} {mem : List α} {p q : Nat} (hq : mem[q]? = some terminator)
    (hp : p ≤ q) : ∃ s, cstr terminator mem p = some s ∧ s.length ≤ q - p := by
  have hLt : q < mem.length := (List.getElem?_eq_some_iff.mp hq).1
  have hMem : terminator ∈ mem.drop p := by
    refine mem_of_getElem? (i := q - p) ?_
    rw [getElem?_drop, Nat.add_sub_cancel' hp, hq]
  obtain ⟨rest, -, hSplit⟩ := eq_takeWhile_isNot_append hMem
  refine ⟨(mem.drop p).takeWhile (isNot terminator), ?_, ?_⟩
  · have hCstr := cstr_append (mem.take p) (not_mem_takeWhile_isNot (mem.drop p) terminator) rest
    rw [← hSplit, take_append_drop, length_take_of_le (by omega)] at hCstr
    exact hCstr
  · -- otherwise the terminator at `q` would be one of the cells before the first one
    by_contra hLong
    have hAt : (mem.drop p)[q - p]? = some terminator := by
      rw [getElem?_drop, Nat.add_sub_cancel' hp, hq]
    rw [hSplit, getElem?_append_left (by omega)] at hAt
    exact not_mem_takeWhile_isNot _ _ (mem_of_getElem? hAt)

end Strings

-- Backwards

/-- A walk back over the cells in front of `t`'s end: it is stopped by the last of them that
does not satisfy `f`, and leaves the buffer when there is none. -/
theorem scanBack_append (f : α → Bool) (t rest : List α) :
    scanBack f (t ++ rest) t.length =
      if t.rdropWhile f = [] then none else some (t.rdropWhile f).length := by
  induction t using List.reverseRecOn generalizing rest with
  | nil => rfl
  | append_singleton t c ih =>
    have hLast : (t ++ [c] ++ rest)[t.length]? = some c := by simp
    rw [length_append, length_singleton, scanBack, hLast, Option.bind_some,
      rdropWhile_concat]
    split
    · rw [append_assoc]
      exact ih ([c] ++ rest)
    · simp

variable {f : α → Bool} {r mem : List α} {c : α}

theorem rdropWhile_append_of_all (l : List α) (h : ∀ x ∈ r, f x = true) :
    (l ++ r).rdropWhile f = l.rdropWhile f := by
  have hRev : ∀ x ∈ r.reverse, f x = true := fun x hx => h x (mem_reverse.mp hx)
  rw [List.rdropWhile, reverse_append, dropWhile_append_of_pos hRev, List.rdropWhile]

theorem rdropWhile_append_of_ne_nil (l : List α) (h : r.rdropWhile f ≠ []) :
    (l ++ r).rdropWhile f = l ++ r.rdropWhile f := by
  have hRev : (r.reverse.dropWhile f).isEmpty = false := by
    rw [isEmpty_eq_false_iff]
    intro hNil
    exact h (by rw [List.rdropWhile, hNil, reverse_nil])
  rw [List.rdropWhile, reverse_append, dropWhile_append, hRev]
  simp [List.rdropWhile]

/-- A cell that does not satisfy `f` is not dropped, and keeps what is in front of it. -/
theorem rdropWhile_append_cons (hc : f c = false) (l r : List α) :
    (l ++ c :: r).rdropWhile f = l ++ c :: r.rdropWhile f := by
  by_cases hr : r.rdropWhile f = []
  · rw [append_cons, rdropWhile_append_of_all _ (rdropWhile_eq_nil_iff.mp hr),
      rdropWhile_concat_neg _ _ _ (by simp [hc]), hr]
  · rw [append_cons, rdropWhile_append_of_ne_nil _ hr, ← append_cons]

-- Writing

theorem store_length {mem' : List α} {p : Nat} (h : store mem p c = some mem') :
    mem'.length = mem.length := by
  obtain ⟨-, hEq⟩ := Option.ite_none_right_eq_some.mp h
  cases hEq
  exact length_set

/-- A cell is written behind the first ones of the buffer. -/
theorem store_of_prefix {q : List α} (h : q <+: mem) (hLt : q.length < mem.length) (c : α) :
    store mem q.length c = some (mem.set q.length c) ∧
      ∃ rest, mem.set q.length c = q ++ c :: rest := by
  refine ⟨if_pos hLt, ?_⟩
  obtain ⟨r, rfl⟩ := h
  cases r with
  | nil => simp at hLt
  | cons x r => exact ⟨r, by simp⟩

theorem store_append (before : List α) (x : α) (rest : List α) (c : α) :
    store (before ++ x :: rest) before.length c = some (before ++ c :: rest) := by
  rw [store, if_pos (by simp)]
  simp

end MyBase.Lib
