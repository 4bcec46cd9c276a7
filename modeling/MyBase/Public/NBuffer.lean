import MyBase.Lib.Bytes
import MyBase.Lib.Ring

/-!
# MyBase — `NBuffer`, the buffer a connection reads into

A buffer of `len` bytes (and eight more behind them), of which `index` are in use. It
grows whenever less than 4096 bytes are free, up to `maxBufLen`; `calloc` is taken to
succeed. An access outside of the memory is `none`.

Growing copies the bytes that are in use according to `index`. `addIndex` changes that
first, so growing in an `addIndex` of a negative number would keep the wrong bytes:
`addIndex_neg` shows that a buffer which has just been added to does not grow there.

Main result:

* `expand_spec` — growing keeps the content, and leaves the bytes free or all there can be.
-/

namespace MyBase

open Lib List

/-- `DEFAULT_MAX_NBUFFER_SIZE`. -/
def defaultMaxNBufferSize : Nat := 1024 * 1024 + 256

structure NBuffer where
  /-- The memory at `m_buf`. -/
  buf : Bytes
  len : Nat
  index : Nat
  maxBufLen : Nat
deriving DecidableEq, Repr

namespace NBuffer

def getFreeLen (b : NBuffer) : Nat := b.len - b.index

/-- `reallocBuf`. -/
def reallocBuf (b : NBuffer) (len : Nat) : Option NBuffer := do
  let newbuf ← memcpy (List.replicate (len + 8) 0) 0 b.buf 0 b.index
  return { b with buf := newbuf, len := len }

/-- `setNewSize`; nobody looks at what it returns. -/
def setNewSize (b : NBuffer) (len : Nat) : Option NBuffer :=
  if b.len < len then b.reallocBuf len
  else if len = b.len then some b
  else if len ≤ b.index then some b
  else b.reallocBuf len

/-- The loop of `expand`; `none` if it does not end. -/
def expandLoop (b : NBuffer) (expandLen : Nat) : Nat → Nat → Option Nat
  | 0, _ => none
  | fuel + 1, newLen =>
    let newLen := newLen * 2
    if b.maxBufLen < newLen then some b.maxBufLen
    else if b.len + expandLen ≤ newLen then some newLen
    else expandLoop b expandLen fuel newLen

def expand (b : NBuffer) (expandLen : Nat) : Option NBuffer :=
  if expandLen = 0 then some b
  else do
    let newLen ← b.expandLoop expandLen (b.maxBufLen + 1) b.len
    if b.len < newLen then b.setNewSize newLen else return b

/-- `addIndex`; an index below zero is `none`. -/
def addIndex (b : NBuffer) (len : Int) : Option NBuffer :=
  if (b.index : Int) + len < 0 then none
  else
    let b' : NBuffer := { b with index := ((b.index : Int) + len).toNat }
    if b'.getFreeLen < 4096 then b'.expand 4096 else some b'

/-- `copyBuf`, and whether there was room. -/
def copyBuf (b : NBuffer) (data : Bytes) : Option (Bool × NBuffer) :=
  (if b.getFreeLen < data.length then b.expand data.length else some b).bind fun b =>
    if b.getFreeLen < data.length then some (false, b)
    else (memcpy b.buf b.index data 0 data.length).map fun buf =>
      (true, { b with buf := buf, index := b.index + data.length })

/-- `shrinkFromFront`. -/
def shrinkFromFront (b : NBuffer) (len : Nat) : Option NBuffer := do
  -- from the old memory, as `memmove` does
  let buf ← memcpy b.buf 0 b.buf len (b.index - len)
  return { b with buf := buf, index := b.index - len }

/-- `NBuffer(maxBufLen)`. -/
def create (maxBufLen : Nat) : Option NBuffer := setNewSize ⟨[], 0, 0, maxBufLen⟩ 512

def release (b : NBuffer) : Option NBuffer :=
  let b' : NBuffer := { b with index := 0 }
  if 128 * 1024 < b.len then b'.setNewSize 512 else some b'

/-- The bytes in use. -/
def content (b : NBuffer) : Bytes := b.buf.take b.index

/-- A buffer of the default kind. -/
structure Ok (b : NBuffer) : Prop where
  buf_length : b.buf.length = b.len + 8
  index_le : b.index ≤ b.len
  len_pos : 0 < b.len
  len_le : b.len ≤ b.maxBufLen
  max_eq : b.maxBufLen = defaultMaxNBufferSize

/-- There is enough room, or the buffer does not grow any more. -/
def Roomy (b : NBuffer) : Prop := 4096 ≤ b.getFreeLen ∨ b.len = b.maxBufLen

variable {b : NBuffer}

theorem Ok.content_length (h : b.Ok) : b.content.length = b.index := by
  have hBuf := h.buf_length
  have hIndex := h.index_le
  rw [content, length_take]
  omega

theorem Ok.content_eq_nil (h : b.Ok) : b.content = [] ↔ b.index = 0 := by
  rw [← length_eq_zero_iff, h.content_length]

-- Growing

/-- The loop ends, with a length that is large enough or the largest. -/
theorem expandLoop_spec (b : NBuffer) (expandLen : Nat) {fuel newLen : Nat} (hPos : 0 < newLen)
    (hLe : newLen ≤ b.maxBufLen) (hFuel : b.maxBufLen < newLen + fuel) :
    ∃ r, b.expandLoop expandLen fuel newLen = some r ∧ newLen ≤ r ∧ r ≤ b.maxBufLen ∧
      (b.len + expandLen ≤ r ∨ r = b.maxBufLen) := by
  induction fuel generalizing newLen with
  | zero => omega
  | succ fuel ih =>
    unfold expandLoop
    dsimp only
    by_cases hMax : b.maxBufLen < newLen * 2
    · exact ⟨_, if_pos hMax, hLe, Nat.le_refl _, .inr rfl⟩
    · rw [if_neg hMax]
      by_cases hEnough : b.len + expandLen ≤ newLen * 2
      · exact ⟨_, if_pos hEnough, by omega, by omega, .inl hEnough⟩
      · rw [if_neg hEnough]
        obtain ⟨r, hr, hGe, hMaxLe, hOr⟩ :=
          ih (show 0 < newLen * 2 by omega) (by omega) (by omega)
        exact ⟨r, hr, by omega, hMaxLe, hOr⟩

theorem reallocBuf_spec {len : Nat} (hBuf : b.index ≤ b.buf.length) (hLen : b.index ≤ len) :
    ∃ buf, b.reallocBuf len = some { b with buf := buf, len := len } ∧
      buf.length = len + 8 ∧ buf.take b.index = b.content := by
  have hCopy := memcpy_eq_some (show 0 + b.index ≤ (List.replicate (len + 8) (0 : UInt8)).length by
    rw [length_replicate]; omega) (show 0 + b.index ≤ b.buf.length by omega)
  refine ⟨_, by rw [reallocBuf, hCopy]; rfl, ?_, ?_⟩
  · rw [memcpy_length hCopy, length_replicate]
  · have hTake : (b.buf.take b.index).length = b.index := by
      rw [length_take]
      omega
    simp only [take_zero, nil_append, drop_zero]
    rw [take_left' hTake, content]

/-- Growing keeps the content, and leaves `n` bytes free or all there can be. -/
theorem expand_spec (h : b.Ok) {n : Nat} (hn : n ≠ 0) :
    ∃ b', b.expand n = some b' ∧ b'.Ok ∧ (n ≤ b'.getFreeLen ∨ b'.len = b'.maxBufLen) ∧
      b'.index = b.index ∧ b'.content = b.content ∧ (b.len = b.maxBufLen → b' = b) := by
  have hIndex := h.index_le
  have hBuf := h.buf_length
  have hLe := h.len_le
  obtain ⟨newLen, hLoop, hGe, hMax, hOr⟩ :=
    expandLoop_spec b n h.len_pos h.len_le
      (show b.maxBufLen < b.len + (b.maxBufLen + 1) by omega)
  unfold expand
  rw [if_neg hn, hLoop]
  simp only [Option.bind_eq_bind, Option.bind_some]
  by_cases hGrows : b.len < newLen
  · obtain ⟨buf, hRealloc, hLength, hTake⟩ :=
      reallocBuf_spec (show b.index ≤ b.buf.length by omega) (show b.index ≤ newLen by omega)
    refine ⟨{ b with buf := buf, len := newLen }, ?_, ⟨hLength, ?_, ?_, hMax, h.max_eq⟩, ?_, rfl,
      hTake, fun hFull => ?_⟩
    · rw [if_pos hGrows, setNewSize, if_pos hGrows, hRealloc]
    · exact Nat.le_trans hIndex hGe
    · exact Nat.lt_of_lt_of_le h.len_pos hGe
    · rcases hOr with hEnough | hAll
      · left
        unfold getFreeLen
        dsimp only
        omega
      · exact .inr hAll
    · omega
  · refine ⟨b, by rw [if_neg hGrows]; rfl, h, .inr (by omega), rfl, rfl, fun _ => rfl⟩

-- The index

/-- Bytes that have been written behind the content are taken in. -/
theorem addIndex_pos (h : b.Ok) {n : Nat} (hFree : n ≤ b.getFreeLen) :
    ∃ b', b.addIndex n = some b' ∧ b'.Ok ∧ b'.Roomy ∧ b'.index = b.index + n ∧
      b'.content = b.buf.take (b.index + n) := by
  have hIndex := h.index_le
  have hAdded : Ok { b with index := b.index + n } := by
    refine ⟨h.buf_length, ?_, h.len_pos, h.len_le, h.max_eq⟩
    unfold getFreeLen at hFree
    dsimp only
    omega
  have hNat : ((b.index : Int) + (n : Int)).toNat = b.index + n := by omega
  unfold addIndex
  rw [if_neg (by omega), hNat]
  dsimp only
  by_cases hTight : getFreeLen { b with index := b.index + n } < 4096
  · rw [if_pos hTight]
    obtain ⟨b', hExpand, hOk, hRoomy, hIndex', hContent, -⟩ :=
      expand_spec hAdded (n := 4096) (by decide)
    exact ⟨b', hExpand, hOk, hRoomy, hIndex', hContent⟩
  · rw [if_neg hTight]
    exact ⟨_, rfl, hAdded, .inl (by omega), rfl, rfl⟩

/-- Taking bytes off does not move the others, because the buffer does not grow. -/
theorem addIndex_neg (h : b.Ok) (hRoomy : b.Roomy) {n : Nat} (hn : n ≤ b.index) :
    b.addIndex (-n) = some { b with index := b.index - n } := by
  have hIndex := h.index_le
  have hNat : ((b.index : Int) + -(n : Int)).toNat = b.index - n := by omega
  unfold addIndex
  rw [if_neg (by omega), hNat]
  dsimp only
  by_cases hTight : getFreeLen { b with index := b.index - n } < 4096
  · have hFull : b.len = b.maxBufLen := by
      refine hRoomy.resolve_left ?_
      unfold getFreeLen at hTight ⊢
      dsimp only at hTight
      omega
    have hLess : Ok { b with index := b.index - n } :=
      ⟨h.buf_length, Nat.le_trans (Nat.sub_le _ _) hIndex, h.len_pos, h.len_le, h.max_eq⟩
    obtain ⟨b', hExpand, -, -, -, -, hSame⟩ := expand_spec hLess (n := 4096) (by decide)
    rw [if_pos hTight, hExpand, hSame hFull]
  · rw [if_neg hTight]

/-- With nothing taken off it may grow. -/
theorem addIndex_zero (h : b.Ok) :
    ∃ b', b.addIndex 0 = some b' ∧ b'.Ok ∧ b'.Roomy ∧ b'.index = b.index ∧
      b'.content = b.content := by
  exact addIndex_pos h (Nat.zero_le _)

-- Adding behind and taking from the front

/-- Bytes are added behind the content as long as there is room up to `maxBufLen`. -/
theorem copyBuf_spec (h : b.Ok) (data : Bytes) :
    ∃ b', b.copyBuf data = some (decide (b.index + data.length ≤ defaultMaxNBufferSize), b') ∧
      b'.Ok ∧ b'.content =
        if b.index + data.length ≤ defaultMaxNBufferSize then b.content ++ data else b.content := by
  -- `b₁` is the buffer behind the call of `expand`, if there is one
  obtain ⟨b₁, hGrown, h₁, hRoom, hIndex, hContent⟩ : ∃ b₁,
      (if b.getFreeLen < data.length then b.expand data.length else some b) = some b₁ ∧ b₁.Ok ∧
        (data.length ≤ b₁.getFreeLen ∨ b₁.len = b₁.maxBufLen) ∧ b₁.index = b.index ∧
        b₁.content = b.content := by
    split
    next hTight =>
      obtain ⟨b₁, hExpand, h₁, hRoom, hIndex, hContent, -⟩ :=
        expand_spec h (n := data.length) (by omega)
      exact ⟨b₁, hExpand, h₁, hRoom, hIndex, hContent⟩
    next hFree => exact ⟨b, rfl, h, .inl (not_lt.mp hFree), rfl, rfl⟩
  obtain ⟨hBuf, hLe, hPos, hLen, hMax⟩ := h₁
  rw [copyBuf, hGrown, Option.bind_some, ← hIndex, ← hContent]
  unfold getFreeLen at hRoom ⊢
  by_cases hFits : b₁.index + data.length ≤ defaultMaxNBufferSize
  · have hCopy := memcpy_eq_some (show b₁.index + data.length ≤ b₁.buf.length by omega)
      (show 0 + data.length ≤ data.length by omega)
    rw [if_neg (by omega), hCopy, if_pos hFits, decide_eq_true hFits]
    refine ⟨_, rfl, ⟨?_, by dsimp only; omega, hPos, hLen, hMax⟩, ?_⟩
    · rw [memcpy_length hCopy, hBuf]
    · obtain ⟨-, hTake, hCopied, -⟩ := eq_of_memcpy hCopy
      rw [content, take_left' (by rw [length_append, hTake, hCopied]), drop_zero,
        take_length, content]
  -- it has grown as far as it can
  · rw [if_pos (by omega), if_neg hFits, decide_eq_false hFits]
    exact ⟨b₁, rfl, ⟨hBuf, hLe, hPos, hLen, hMax⟩, rfl⟩

/-- Bytes are taken from the front of the content. -/
theorem shrinkFromFront_spec (h : b.Ok) {n : Nat} (hn : n ≤ b.index) :
    ∃ b', b.shrinkFromFront n = some b' ∧ b'.Ok ∧ b'.content = b.content.drop n := by
  obtain ⟨hBuf, hLe, hPos, hLen, hMax⟩ := h
  have hCopy := memcpy_eq_some (show 0 + (b.index - n) ≤ b.buf.length by omega)
    (show n + (b.index - n) ≤ b.buf.length by omega)
  obtain ⟨-, -, hCopied, -⟩ := eq_of_memcpy hCopy
  rw [shrinkFromFront, hCopy]
  refine ⟨_, rfl, ⟨(memcpy_length hCopy).trans hBuf, ?_, hPos, hLen, hMax⟩, ?_⟩
  · exact (Nat.sub_le _ _).trans hLe
  · rw [content, take_zero, nil_append, take_left' hCopied, content, drop_take]

-- The buffer of a new connection

/-- A buffer as a connection starts with it. -/
theorem create_ok : ∃ b, create defaultMaxNBufferSize = some b ∧ b.Ok ∧ b.index = 0 := by
  obtain ⟨buf, hRealloc, hLength, -⟩ :=
    reallocBuf_spec (b := ⟨[], 0, 0, defaultMaxNBufferSize⟩) (Nat.zero_le _) (Nat.zero_le 512)
  refine ⟨⟨buf, 512, 0, defaultMaxNBufferSize⟩, ?_, ⟨hLength, Nat.zero_le _, ?_, ?_, rfl⟩, rfl⟩
  · rw [create, setNewSize, if_pos (by decide), hRealloc]
  · exact (by decide : 0 < 512)
  · exact (by decide : 512 ≤ defaultMaxNBufferSize)

theorem release_ok (h : b.Ok) : ∃ b', b.release = some b' ∧ b'.Ok ∧ b'.index = 0 := by
  have hMax := h.max_eq
  have hReleased : Ok { b with index := 0 } :=
    ⟨h.buf_length, Nat.zero_le _, h.len_pos, h.len_le, h.max_eq⟩
  unfold release
  dsimp only
  by_cases hLarge : 128 * 1024 < b.len
  · obtain ⟨buf, hRealloc, hLength, -⟩ :=
      reallocBuf_spec (b := { b with index := 0 }) (Nat.zero_le _) (Nat.zero_le 512)
    rw [if_pos hLarge, setNewSize, if_neg (by dsimp only; omega), if_neg (by dsimp only; omega),
      if_neg (Nat.not_succ_le_zero 511), hRealloc]
    refine ⟨_, rfl, ⟨hLength, Nat.zero_le _, ?_, ?_, hMax⟩, rfl⟩
    · exact (by decide : 0 < 512)
    · dsimp only
      rw [hMax]
      decide
  · rw [if_neg hLarge]
    exact ⟨_, rfl, hReleased, rfl⟩

end NBuffer

end MyBase
