import MyBase.Public.Buffer

/-!
# MyBase — making room in a `Buffer`

`Buffer::expand` doubles an `int32_t` until it is a size with enough free bytes, takes that much
memory, copies the data and frees the memory it had. Pointers are distances from `_pstart`, sizes
are 32 bits wide, shifts and differences of them are taken modulo `2 ^ 32`, and memory can always
be had: `malloc n` is what the new memory holds.

A size that has become negative does no harm by itself, and may be followed by one that is
positive again. There are three ways to fail:

* no size is enough, and from the 32nd one on all are zero: the loop goes on for ever. So it is
  for memory of no bytes at all, and for a new buffer from `2 ^ 30 + 1` bytes on;
* the size is so far below zero that `bufsize - dlen` wraps around and looks like enough.
  The loop is left with a negative size, and `_pend` is put before `_pstart` (`grows_iff`);
* the memory is the caller's, which the buffer only wraps. The destructor looks at `_wrapBuf`
  before it frees, `expand` does not (`expand_wrapped`).

`expand_grants_iff` puts them together.
-/

namespace MyBase

open Lib List

namespace Buffer

/-- The memory of a buffer and its pointers. -/
structure Block where
  memory : Bytes
  pdata : Nat
  pfree : Nat
  pend : Int
  /-- `_pstart == _wrapBuf`: the memory belongs to the caller. -/
  wrapped : Bool
deriving DecidableEq, Repr

/-- How `expand` ends: it returns; or it hands memory to `free` that is not the buffer's own, so
that the caller's pointers are left dangling, or the heap is damaged. -/
inductive Outcome
  | returned (k : Block)
  | foreignFree
deriving DecidableEq, Repr

/-- `memcpy` and `memmove` of `n` bytes to the front of `dst`. -/
def memcpy (dst src : Bytes) (n : Nat) : Bytes := src.take n ++ dst.drop n

/-- `::free(_pstart)`, and the pointers into the new memory that are set after it. -/
def Block.replaced (k k' : Block) : Outcome := if k.wrapped then .foreignFree else .returned k'

/-- `expand`, for a buffer that has no memory yet (`_pstart == nullptr`) or some. `none`: `fuel`
passes of its loop are not enough. -/
def expand (malloc : Int → Bytes) (fuel : Nat) (need : BitVec 32) : Option Block → Option Outcome
  | none =>
    (loop (doubling 0 need) fuel 256).map fun len =>
      .returned ⟨malloc len.toInt, 0, 0, len.toInt, false⟩
  | some k =>
    if k.pend - k.pfree < need.toInt then
      let flen := BitVec.ofInt 32 (k.pend - k.pfree)
      let dlen := BitVec.ofNat 32 k.pfree
      let readLen := k.pdata % 2 ^ 32
      if flen.slt need || (flen * 4).slt dlen then
        (loop (doubling dlen need) fuel (BitVec.ofInt 32 (k.pend * 2))).map fun bufsize =>
          let newbuf := malloc bufsize.toInt
          k.replaced
            { memory := if 0 < dlen.toInt then memcpy newbuf k.memory dlen.toInt.toNat else newbuf
              pdata := readLen
              pfree := dlen.toInt.toNat
              pend := bufsize.toInt
              wrapped := false }
      else
        some (.returned { k with
          memory := memcpy k.memory (k.memory.drop k.pdata) dlen.toInt.toNat
          pdata := readLen
          pfree := dlen.toInt.toNat })
    else some (.returned k)

/-- `Buffer(wrapbuf, len)`. -/
def Block.wrap (bs : Bytes) : Block := ⟨bs, 0, bs.length, bs.length, true⟩

/-- The bytes that have been written. -/
def Block.stored (k : Block) : Bytes := k.memory.take k.pfree

/-- What a buffer can be, with sizes of 32 bits. -/
structure Block.Sound (k : Block) : Prop where
  read : k.pdata ≤ k.pfree
  inside : (k.pfree : Int) ≤ k.pend
  size : k.pend < 2 ^ 31
  memory : (k.memory.length : Int) = k.pend

/-- `expand` returns; the bytes that have been written and the position to read from are as
before; and `need` bytes of the memory are free. -/
def Grants (malloc : Int → Bytes) (b : Option Block) (need : Nat) : Prop :=
  ∃ k : Block,
    (∃ n, ∀ fuel, n ≤ fuel → expand malloc fuel (BitVec.ofNat 32 need) b = some (.returned k)) ∧
    k.Sound ∧ k.stored = b.elim [] Block.stored ∧ k.pdata = b.elim 0 Block.pdata ∧
    (need : Int) ≤ k.pend - k.pfree

-- ---------------------------------------------------------------------------
-- Doubling
-- ---------------------------------------------------------------------------

section Doubling

variable {dlen need : Nat} {size : BitVec 32}

/-- The sizes lead to one that is enough: before it the difference never wraps around. -/
def Reaches (size dlen need : Nat) : Prop :=
  ∃ n, dlen + need ≤ 2 ^ n * size % 2 ^ 32 ∧ 2 ^ n * size % 2 ^ 32 < 2 ^ 31 ∧
    ∀ m < n, 2 ^ m * size % 2 ^ 32 < 2 ^ 31 ∨ 2 ^ 31 + dlen ≤ 2 ^ m * size % 2 ^ 32

/-- A size that is taken as enough is, unless it is negative. -/
theorem le_toInt_iff (hLow : dlen + need ≤ size.toNat) :
    ((dlen + need : Nat) : Int) ≤ size.toInt ↔ size.toNat < 2 ^ 31 := by
  have hLt := size.isLt
  rw [BitVec.toInt_eq_toNat_cond]
  omega

/-- **The loop is left with enough just if the sizes lead to one that is.** -/
theorem grows_iff (size : BitVec 32) (hData : dlen < 2 ^ 31) (hNeed : need < 2 ^ 31) :
    (∃ size', Ends (doubling (BitVec.ofNat 32 dlen) (BitVec.ofNat 32 need)) size size' ∧
        ((dlen + need : Nat) : Int) ≤ size'.toInt) ↔
      Reaches size.toNat dlen need := by
  simp only [Ends, left_doubling_iff hData hNeed]
  constructor
  · rintro ⟨size', ⟨n, hSize, ⟨hLow, -⟩, hBefore⟩, hLe⟩
    have hPositive := (le_toInt_iff hLow).mp hLe
    rw [hSize] at hLow hPositive
    refine ⟨n, hLow, hPositive, ?_⟩
    intro m hm
    by_contra hWraps
    -- the loop would have been left here
    exact hBefore m hm ⟨by omega, by omega⟩
  · intro hReaches
    -- the first such size
    classical
    obtain ⟨hLow, hPositive, hNoWrap⟩ := Nat.find_spec hReaches
    have hFirst := fun m => Nat.find_min (m := m) hReaches
    generalize Nat.find hReaches = n at hLow hPositive hNoWrap hFirst
    have hSize : (BitVec.ofNat 32 (2 ^ n * size.toNat)).toNat = 2 ^ n * size.toNat % 2 ^ 32 :=
      BitVec.toNat_ofNat _ _
    refine ⟨BitVec.ofNat 32 (2 ^ n * size.toNat), ⟨n, hSize, ?_, ?_⟩, ?_⟩
    · rw [hSize]
      exact ⟨hLow, by omega⟩
    · rintro m hm ⟨hEnough, hHigh⟩
      refine hFirst m hm ⟨hEnough, ?_, fun i hi => hNoWrap i (by omega)⟩
      have hHere := hNoWrap m hm
      omega
    · rw [le_toInt_iff (by rw [hSize]; exact hLow), hSize]
      exact hPositive

end Doubling

-- ---------------------------------------------------------------------------
-- Expanding
-- ---------------------------------------------------------------------------

section Expanding

variable {malloc : Int → Bytes} {k : Block} {need : Nat}

theorem toInt_ofNat {n : Nat} (h : n < 2 ^ 31) : (BitVec.ofNat 32 n).toInt = n := by
  rw [BitVec.toInt_eq_toNat_cond, BitVec.toNat_ofNat]
  omega

theorem Block.Sound.pfree_lt (h : k.Sound) : k.pfree < 2 ^ 31 := by
  have hInside := h.inside
  have hSize := h.size
  omega

/-- With enough free bytes nothing is done. -/
theorem expand_of_le (hNeed : need < 2 ^ 31) (hFree : (need : Int) ≤ k.pend - k.pfree)
    (fuel : Nat) : expand malloc fuel (BitVec.ofNat 32 need) (some k) = some (.returned k) := by
  rw [expand, toInt_ofNat hNeed, if_neg (by omega)]

/-- What becomes of the memory when it grows. -/
def Block.grown (malloc : Int → Bytes) (k : Block) (bufsize : BitVec 32) : Block :=
  { memory := if 0 < k.pfree then memcpy (malloc bufsize.toInt) k.memory k.pfree
      else malloc bufsize.toInt
    pdata := k.pdata
    pfree := k.pfree
    pend := bufsize.toInt
    wrapped := false }

/-- The data are always copied: `flen < need` is what has just been found. -/
theorem expand_of_lt (h : k.Sound) (hNeed : need < 2 ^ 31) (hFree : k.pend - k.pfree < need)
    (fuel : Nat) :
    expand malloc fuel (BitVec.ofNat 32 need) (some k) =
      (loop (doubling (BitVec.ofNat 32 k.pfree) (BitVec.ofNat 32 need)) fuel
        (BitVec.ofInt 32 (k.pend * 2))).map fun bufsize => k.replaced (k.grown malloc bufsize) := by
  have hRead := h.read
  have hInside := h.inside
  have hSize := h.size
  have hLen : (BitVec.ofInt 32 (k.pend - k.pfree)).toInt = k.pend - k.pfree := by
    rw [BitVec.toInt_ofInt, Int.bmod_eq_of_le (by omega) (by omega)]
  have hLess : (BitVec.ofInt 32 (k.pend - k.pfree)).slt (BitVec.ofNat 32 need) = true := by
    rw [BitVec.slt, hLen, toInt_ofNat hNeed]
    exact decide_eq_true hFree
  have hMod : k.pdata % 2 ^ 32 = k.pdata := Nat.mod_eq_of_lt (by omega)
  rw [expand, toInt_ofNat hNeed, if_pos hFree]
  simp only [hLess, Bool.true_or, if_true, toInt_ofNat h.pfree_lt, hMod, Int.toNat_natCast,
    Int.natCast_pos]
  rfl

/-- **Memory that is wrapped is freed, or the loop goes on for ever**: in no case does `expand`
return when it has to grow. -/
theorem expand_wrapped (h : k.Sound) (hWrapped : k.wrapped = true) (hNeed : need < 2 ^ 31)
    (hFree : k.pend - k.pfree < need) (fuel : Nat) (k' : Block) :
    expand malloc fuel (BitVec.ofNat 32 need) (some k) ≠ some (.returned k') := by
  rw [expand_of_lt h hNeed hFree]
  intro hReturned
  obtain ⟨bufsize, -, hReplaced⟩ := Option.map_eq_some_iff.mp hReturned
  rw [Block.replaced, if_pos hWrapped] at hReplaced
  cases hReplaced

theorem grown_stored (h : k.Sound) (bufsize : BitVec 32) :
    (k.grown malloc bufsize).stored = k.stored := by
  have hInside := h.inside
  have hMemory := h.memory
  unfold Block.stored Block.grown memcpy
  dsimp only
  by_cases hSome : 0 < k.pfree
  · rw [if_pos hSome, take_append_of_le_length (by rw [length_take]; omega),
      take_take, min_self]
  · have hZero : k.pfree = 0 := by omega
    rw [hZero, take_zero, take_zero]

/-- The memory is of the size that has been asked for, and the data fit in. -/
theorem grown_sound (hMalloc : ∀ n : Nat, (malloc n).length = n) (h : k.Sound)
    {bufsize : BitVec 32} (hFits : (k.pfree : Int) ≤ bufsize.toInt) :
    (k.grown malloc bufsize).Sound where
  read := h.read
  inside := hFits
  size := BitVec.toInt_lt
  memory := by
    have hInside := h.inside
    have hMemory := h.memory
    obtain ⟨size, hSize⟩ : ∃ size : Nat, bufsize.toInt = size := ⟨bufsize.toInt.toNat, by omega⟩
    unfold Block.grown memcpy
    dsimp only
    rw [hSize] at hFits ⊢
    split
    · rw [length_append, length_take, length_drop, hMalloc]
      omega
    · rw [hMalloc]

end Expanding

/-- When `expand` does what it is for: a new buffer is asked for no more than `2 ^ 30` bytes;
or the bytes are free already; or the memory is the buffer's own, and doubling it leads to a
size that is enough. -/
def CanGrow : Option Block → Nat → Prop
  | none, need => need ≤ 2 ^ 30
  | some k, need =>
    (need : Int) ≤ k.pend - k.pfree ∨
      k.wrapped = false ∧ Reaches (2 * k.pend.toNat) k.pfree need

section Grants

variable {malloc : Int → Bytes} (hMalloc : ∀ n : Nat, (malloc n).length = n) {k : Block}
  {need : Nat} (hNeed : need < 2 ^ 31)

include hMalloc hNeed

/-- A new buffer gets up to `2 ^ 30` bytes. -/
theorem grants_new_iff : Grants malloc none need ↔ need ≤ 2 ^ 30 := by
  constructor
  · rintro ⟨k, hReturns, -, -, -, -⟩
    obtain ⟨len, ⟨n, hLeft⟩, -⟩ := ends_iff_loop_map.mp hReturns
    obtain ⟨hn, -, hLe, -⟩ := (left_new_iff hNeed).mp hLeft
    have hPow : 2 ^ n ≤ 2 ^ 22 := Nat.pow_le_pow_right (by omega) (by omega)
    omega
  · intro hFew
    obtain ⟨n, -, len, hAfter, hLeft, hLe⟩ := exists_left_new hFew
    obtain ⟨hn, hSize, -, -⟩ := (left_new_iff hNeed).mp ⟨hAfter, hLeft⟩
    have hPow : 2 ^ n ≤ 2 ^ 22 := Nat.pow_le_pow_right (by omega) (by omega)
    have hInt : len.toInt = (len.toNat : Int) := by
      rw [BitVec.toInt_eq_toNat_cond, if_pos (by omega)]
    refine ⟨_, ends_iff_loop_map.mpr ⟨len, ⟨n, hAfter, hLeft⟩, rfl⟩,
      ⟨le_refl 0, ?_, BitVec.toInt_lt, ?_⟩, rfl, rfl, ?_⟩
    all_goals dsimp only; rw [hInt]
    · omega
    · rw [hMalloc]
    · omega

/-- A buffer that is not wrapped grows to a size that the loop reaches. -/
theorem grants_grow_iff (h : k.Sound) (hFree : k.pend - k.pfree < need) :
    Grants malloc (some k) need ↔
      k.wrapped = false ∧ Reaches (2 * k.pend.toNat) k.pfree need := by
  have hInside := h.inside
  have hSize := h.size
  have hStart : (BitVec.ofInt 32 (k.pend * 2)).toNat = 2 * k.pend.toNat := by
    rw [BitVec.toNat_ofInt]
    omega
  cases hWrapped : k.wrapped with
  | true =>
    refine iff_of_false ?_ (by simp)
    rintro ⟨k', ⟨n, hReturns⟩, -⟩
    exact expand_wrapped h hWrapped hNeed hFree n k' (hReturns n (le_refl n))
  | false =>
    have hReplaced : ∀ k', k.replaced k' = .returned k' := by
      intro k'
      rw [Block.replaced, hWrapped, if_neg Bool.false_ne_true]
    rw [← hStart, ← grows_iff _ h.pfree_lt hNeed, eq_self_iff_true, true_and]
    unfold Grants
    simp only [expand_of_lt h hNeed hFree, hReplaced, ends_iff_loop_map, Outcome.returned.injEq]
    constructor
    · rintro ⟨k', ⟨bufsize, hEnds, rfl⟩, -, -, -, hRoom⟩
      refine ⟨bufsize, hEnds, ?_⟩
      have hRoom : (need : Int) ≤ bufsize.toInt - k.pfree := hRoom
      omega
    · rintro ⟨bufsize, hEnds, hLe⟩
      refine ⟨k.grown malloc bufsize, ⟨bufsize, hEnds, rfl⟩, grown_sound hMalloc h (by omega),
        grown_stored h bufsize, rfl, ?_⟩
      show (need : Int) ≤ bufsize.toInt - k.pfree
      omega

end Grants

/-- For every content that new memory can have, every buffer, without memory, with memory of its
own or wrapping the caller's, whose sizes fit into 32 bits, and every number of bytes below
`2 ^ 31`: `expand` returns after finitely many passes with the data and the read position
unchanged and that many bytes free, if and only if the buffer can grow so far. -/
theorem expand_grants_iff (malloc : Int → Bytes) (hMalloc : ∀ n : Nat, (malloc n).length = n)
    (b : Option Block) (hBuffer : ∀ k ∈ b, k.Sound) (need : Nat) (hNeed : need < 2 ^ 31) :
    Grants malloc b need ↔ CanGrow b need := by
  cases b with
  | none => exact grants_new_iff hMalloc hNeed
  | some k =>
    have hSound := hBuffer k rfl
    by_cases hFree : k.pend - k.pfree < need
    · rw [grants_grow_iff hMalloc hNeed hSound hFree, CanGrow, or_iff_right (by omega)]
    · refine iff_of_true ⟨k, ⟨0, ?_⟩, hSound, rfl, rfl, by omega⟩ (Or.inl (by omega))
      intro fuel _
      exact expand_of_le hNeed (by omega) fuel

/-- Memory that holds zeros. -/
def zeroed (n : Int) : Bytes := List.replicate n.toNat 0

theorem length_zeroed (n : Nat) : (zeroed n).length = n := by
  rw [zeroed, length_replicate, Int.toNat_natCast]

/-- A new buffer in which 254 bytes have been written, and two of them read, is moved to 512. -/
theorem expand_grants_four : Grants zeroed (some ⟨List.replicate 256 7, 2, 254, 256, false⟩) 4 := by
  refine (expand_grants_iff zeroed length_zeroed
    (some ⟨List.replicate 256 7, 2, 254, 256, false⟩) ?_ 4 (by decide)).mpr
    (Or.inr ⟨rfl, 0, by decide, by decide, by decide⟩)
  intro k hk
  obtain rfl := Option.mem_some_iff.mp hk
  refine ⟨by decide, by decide, by decide, ?_⟩
  rw [length_replicate]
  rfl

/-- A new buffer for more than `2 ^ 30` bytes: 256 is doubled to `2 ^ 30`, to `-2 ^ 31`, and then it
is zero for ever. -/
theorem expand_never_returns :
    (∀ fuel, expand zeroed fuel (BitVec.ofNat 32 (2 ^ 30 + 1)) none = none) ∧
      ¬ Grants zeroed none (2 ^ 30 + 1) := by
  constructor
  · intro fuel
    by_contra hSome
    obtain ⟨out, hOut⟩ := Option.ne_none_iff_exists'.mp hSome
    obtain ⟨len, hLoop, -⟩ := Option.map_eq_some_iff.mp hOut
    obtain ⟨n, -, hLeft⟩ := loop_eq_some_iff.mp hLoop
    obtain ⟨hn, -, hLe, -⟩ := (left_new_iff (by omega)).mp hLeft
    have hPow : 2 ^ n ≤ 2 ^ 22 := Nat.pow_le_pow_right (by omega) (by omega)
    omega
  · rw [grants_new_iff length_zeroed (by omega)]
    omega

/-- **A buffer that wraps memory never grows**: all of its bytes are written from the start. -/
theorem not_grants_wrap {malloc : Int → Bytes} {bs : Bytes} (hLen : bs.length < 2 ^ 31)
    {need : Nat} (hSome : 0 < need) (hNeed : need < 2 ^ 31) :
    ¬ Grants malloc (some (Block.wrap bs)) need := by
  have hSize : (bs.length : Int) < 2 ^ 31 := by omega
  have hSound : (Block.wrap bs).Sound := ⟨Nat.zero_le _, le_refl _, hSize, rfl⟩
  rintro ⟨k, ⟨n, hReturns⟩, -⟩
  refine expand_wrapped hSound rfl hNeed ?_ n k (hReturns n (le_refl n))
  show (bs.length : Int) - bs.length < need
  omega

end Buffer

end MyBase
