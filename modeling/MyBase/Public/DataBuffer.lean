import MyBase.Lib.Bytes

/-!
# MyBase — `DataBuffer`

A buffer that grows as it is written and is read from its front. `bytes` reaches from
`_pstart` to `_pfree`, `pdata` is the position of `_pdata`, and `capacity` the distance from
`_pstart` to `_pend` once there is memory. `none` is an assertion that fails.

The sizes are `int32_t` that are doubled. From `2 ^ 30` on the next one is negative, and the
memory for it cannot be had: that is as much as a buffer holds.

`Writes f bs` says that `f` appends `bs`, when they still fit; `Reads f bs v` that `f` takes
`bs` from the front and returns `v`. Both compose, so a codec is described by following its
own structure (`Writes.comp`, `Writes.foldlM`, `Reads.bind`).
-/

namespace MyBase

open Lib List

structure DataBuffer where
  bytes : Bytes
  pdata : Nat
  capacity : Option Nat
deriving DecidableEq, Repr

namespace DataBuffer

/-- A buffer that has not been written. -/
def create : DataBuffer := ⟨[], 0, none⟩

/-- The loops of `expand`: an `int32_t` is doubled until it is enough. `none`: it has become
negative. -/
def doubled (need : Nat) : Nat → Nat → Option Nat
  | 0, _ => none
  | rounds + 1, len =>
    if 2 ^ 31 ≤ len then none
    else if len < need then doubled need rounds (2 * len)
    else some len

/-- `expand`. What it does for a buffer in which `need` bytes are free is nothing, so the
branch in which the data are moved is never taken. -/
def expand (b : DataBuffer) (need : Nat) : Option DataBuffer :=
  match b.capacity with
  | none => (doubled need 32 256).map fun len => { b with capacity := some len }
  | some size =>
    if size - b.bytes.length < need then
      (doubled (b.bytes.length + need) 32 (2 * size)).map fun len => { b with capacity := some len }
    else some b

/-- `writeInt32` and `writeInt64`, `w` bytes wide. -/
def write (w : Nat) (b : DataBuffer) (n : Nat) : Option DataBuffer :=
  (b.expand w).map fun b' => { b' with bytes := b'.bytes ++ be w n }

def writeInt32 (b : DataBuffer) (n : Nat) : Option DataBuffer := b.write 4 n

def writeInt64 (b : DataBuffer) (n : Nat) : Option DataBuffer := b.write 8 n

/-- `readInt32` and `readInt64`, with their assertion. -/
def read (w : Nat) (b : DataBuffer) : Option (Nat × DataBuffer) :=
  if b.pdata + w ≤ b.bytes.length then
    some (ofBe ((b.bytes.drop b.pdata).take w), { b with pdata := b.pdata + w })
  else none

def readInt32 (b : DataBuffer) : Option (Nat × DataBuffer) := b.read 4

def readInt64 (b : DataBuffer) : Option (Nat × DataBuffer) := b.read 8

-- How a buffer grows

/-- The memory is 256 bytes, doubled some times, and the data are inside. -/
def Sound (b : DataBuffer) : Prop :=
  match b.capacity with
  | none => b.bytes = []
  | some size => b.bytes.length ≤ size ∧ ∃ k ≤ 22, size = 2 ^ k * 256

theorem create_sound : create.Sound := rfl

variable {α : Type} {b : DataBuffer} {need w : Nat} {bs cs : Bytes}

theorem Sound.length_le (h : b.Sound) : b.bytes.length ≤ 2 ^ 30 := by
  obtain ⟨bytes, pdata, capacity⟩ := b
  cases capacity with
  | none =>
    obtain rfl : bytes = [] := h
    exact Nat.zero_le _
  | some size =>
    obtain ⟨hInside, k, hk, hSize⟩ := h
    have hBound : 2 ^ k ≤ 2 ^ 22 := Nat.pow_le_pow_right (by omega) hk
    simp only at hInside ⊢
    omega

theorem doubled_of_le {rounds len : Nat} (hNeed : need ≤ len) (hLen : len < 2 ^ 31) :
    doubled need (rounds + 1) len = some len := by
  rw [doubled, if_neg (by omega), if_neg (by omega)]

/-- A few bytes can be had just as long as there are no more than `2 ^ 30` in all. -/
theorem Sound.expand (h : b.Sound) (hNeed : need ≤ 256) :
    (b.bytes.length + need ≤ 2 ^ 30 →
      ∃ size, b.expand need = some { b with capacity := some size } ∧
      b.bytes.length + need ≤ size ∧ ∃ k ≤ 22, size = 2 ^ k * 256) ∧
    (2 ^ 30 < b.bytes.length + need → b.expand need = none) := by
  obtain ⟨bytes, pdata, capacity⟩ := b
  cases capacity with
  | none =>
    obtain rfl : bytes = [] := h
    constructor
    · intro _
      refine ⟨256, ?_, by simpa using hNeed, 0, by omega, rfl⟩
      simp only [DataBuffer.expand]
      rw [doubled_of_le hNeed (by omega)]
      rfl
    · intro hMuch
      simp only [length_nil] at hMuch
      omega
  | some size =>
    obtain ⟨hInside, k, hk, hSize⟩ := h
    simp only at hInside
    simp only [DataBuffer.expand]
    by_cases hFree : size - bytes.length < need
    · rw [if_pos hFree]
      have hPow : 2 ^ (k + 1) = 2 * 2 ^ k := Nat.pow_succ'
      have hPos : 0 < 2 ^ k := Nat.two_pow_pos k
      constructor
      · intro hFits
        -- there is room for another doubling, as the memory is not enough yet
        have hLess : k < 22 := by
          by_contra hLast
          obtain rfl : k = 22 := by omega
          omega
        have hBound : 2 ^ (k + 1) ≤ 2 ^ 22 := Nat.pow_le_pow_right (by omega) hLess
        refine ⟨2 * size, ?_, by omega, k + 1, hLess, by omega⟩
        rw [doubled_of_le (by omega) (by omega)]
        rfl
      · intro hMuch
        -- the memory is `2 ^ 30` bytes already: with less, this would not be too much
        have hLast : k = 22 := by
          by_contra hLess
          have hBound : 2 ^ k ≤ 2 ^ 21 := Nat.pow_le_pow_right (by omega) (by omega)
          omega
        subst hLast
        rw [doubled, if_pos (by omega)]
        rfl
    · rw [if_neg hFree]
      have hBound : 2 ^ k ≤ 2 ^ 22 := Nat.pow_le_pow_right (by omega) hk
      exact ⟨fun _ => ⟨size, rfl, by omega, k, hk, hSize⟩, fun hMuch => by omega⟩

-- Writing

/-- `f` appends `bs` to a buffer, when there are no more than `2 ^ 30` bytes in all, and fails
otherwise. -/
def Writes (f : DataBuffer → Option DataBuffer) (bs : Bytes) : Prop :=
  ∀ b : DataBuffer, b.Sound →
    (b.bytes.length + bs.length ≤ 2 ^ 30 →
      ∃ b', f b = some b' ∧ b'.Sound ∧ b'.bytes = b.bytes ++ bs ∧ b'.pdata = b.pdata) ∧
    (2 ^ 30 < b.bytes.length + bs.length → f b = none)

theorem writes_write (hw : w ≤ 256) (n : Nat) : Writes (fun b => b.write w n) (be w n) := by
  intro b hb
  obtain ⟨hFits, hMuch⟩ := hb.expand hw
  rw [be_length]
  constructor
  · intro hLen
    obtain ⟨size, hExpand, hSize, hPow⟩ := hFits hLen
    refine ⟨{ b with bytes := b.bytes ++ be w n, capacity := some size }, ?_, ⟨?_, hPow⟩, rfl, rfl⟩
    · show (b.expand w).map _ = _
      rw [hExpand]
      rfl
    · simpa using hSize
  · intro hLen
    show (b.expand w).map _ = _
    rw [hMuch hLen]
    rfl

theorem writes_nil : Writes some [] := by
  intro b hb
  refine ⟨fun _ => ⟨b, rfl, hb, (append_nil _).symm, rfl⟩, ?_⟩
  intro hMuch
  have hLen := hb.length_le
  rw [length_nil] at hMuch
  omega

/-- One write after another. -/
theorem Writes.comp {f g : DataBuffer → Option DataBuffer} (hf : Writes f bs) (hg : Writes g cs) :
    Writes (fun b => (f b).bind g) (bs ++ cs) := by
  intro b hb
  obtain ⟨hFits, hMuch⟩ := hf b hb
  rw [length_append, ← Nat.add_assoc]
  constructor
  · intro hLen
    obtain ⟨b₁, hf₁, hb₁, hBytes, hData⟩ := hFits (by omega)
    obtain ⟨b₂, hg₂, hb₂, hBytes', hData'⟩ := (hg b₁ hb₁).1 (by
      rw [hBytes, length_append]
      exact hLen)
    refine ⟨b₂, ?_, hb₂, ?_, hData'.trans hData⟩
    · show (f b).bind g = some b₂
      rw [hf₁, Option.bind_some, hg₂]
    · rw [hBytes', hBytes, append_assoc]
  · intro hLen
    show (f b).bind g = none
    by_cases hFirst : b.bytes.length + bs.length ≤ 2 ^ 30
    · obtain ⟨b₁, hf₁, hb₁, hBytes, -⟩ := hFits hFirst
      rw [hf₁, Option.bind_some]
      refine (hg b₁ hb₁).2 ?_
      rw [hBytes, length_append]
      exact hLen
    · rw [hMuch (by omega), Option.bind_none]

theorem Writes.foldlM {f : DataBuffer → α → Option DataBuffer} {enc : α → Bytes}
    (h : ∀ a, Writes (fun b => f b a) (enc a)) (l : List α) :
    Writes (fun b => l.foldlM f b) (l.flatMap enc) := by
  induction l with
  | nil => exact writes_nil
  | cons a l ih => exact (h a).comp ih

-- Reading

/-- `f` takes `bs` from the front of what has not been read, and returns `v`. -/
def Reads {α : Type} (f : DataBuffer → Option (α × DataBuffer)) (bs : Bytes) (v : α) : Prop :=
  ∀ (b : DataBuffer) (rest : Bytes), b.bytes.drop b.pdata = bs ++ rest →
    f b = some (v, { b with pdata := b.pdata + bs.length })

theorem reads_read {n : Nat} (hw : 0 < w) (hn : n < 256 ^ w) : Reads (read w) (be w n) n := by
  intro b rest hRest
  have hLen := congrArg List.length hRest
  rw [length_drop, length_append, be_length] at hLen
  rw [read, if_pos (by omega), hRest, be_length, take_left' (be_length w n), ofBe_be_of_lt hn]

/-- One after the other; what is read next may depend on what was read. -/
theorem Reads.bind {β : Type} {f : DataBuffer → Option (α × DataBuffer)}
    {g : α → DataBuffer → Option (β × DataBuffer)} {u : α} {v : β} (hf : Reads f bs u)
    (hg : Reads (g u) cs v) :
    Reads (fun b => (f b).bind fun out => g out.1 out.2) (bs ++ cs) v := by
  intro b rest hRest
  rw [append_assoc] at hRest
  have hBehind : b.bytes.drop (b.pdata + bs.length) = cs ++ rest := by
    rw [← drop_drop, hRest, drop_left]
  show (f b).bind _ = _
  rw [hf b (cs ++ rest) hRest, Option.bind_some, hg _ rest hBehind, length_append]
  simp [Nat.add_assoc]

theorem Reads.pure (v : α) : Reads (fun b => some (v, b)) [] v := by
  intro b rest _
  rfl

end DataBuffer

end MyBase
