import MyBase.Lib.Bytes
import MyBase.Lib.Ring

/-!
# MyBase — messages in a circular buffer

`CBufferQueue` and `BufferQueue` keep messages in a circular buffer of `n` bytes, each
behind a length field of eight bytes, and both field and message may go around the end.
They share the code that copies a message in and out, down to its cases; what they
differ in is when a buffer is full, what is in the length field, and how far the end has
to stay behind the beginning (`gap`, in their assertions).

`none` is an assertion that fails or an access outside the buffer.

* `Fits.stores` — a message is stored behind what is there.
-/

namespace MyBase

open Lib List

-- Length fields

/-- The eight bytes of a `uint64_t` in memory. -/
def setLen (u : Nat) : Bytes := (be 8 u).reverse

def getLen (field : Bytes) : Nat := ofBe field.reverse

@[simp] theorem setLen_length (u : Nat) : (setLen u).length = 8 := by simp [setLen]

theorem getLen_setLen {u : Nat} (h : u < 2 ^ 64) : getLen (setLen u) = u := by
  rw [getLen, setLen, reverse_reverse, ofBe_be_of_lt (by simpa using h)]

namespace Circle

-- Storing

/-- The end of `enqueue`: the length field, and the two parts of a message of length
`len`, are copied to `iEnd`; `iEnd` is moved. -/
def store (gap iBegin iEnd : Nat) (field : Bytes) (len : Nat) (buffer1 buffer2 data : Bytes) :
    Option (Bytes × Nat) :=
  let n := data.length
  let len1 := buffer1.length
  let len2 := buffer2.length
  if n < iEnd + 8 then do
    -- The length field goes around the end.
    let data ← memcpy data iEnd field 0 (n - iEnd)
    let data ← memcpy data 0 field (n - iEnd) (iEnd + 8 - n)
    let data ← memcpy data (iEnd + 8 - n) buffer1 0 len1
    let data ← memcpy data (iEnd + 8 - n + len1) buffer2 0 len2
    guard (len + iEnd + 8 - n + gap ≤ iBegin)
    return (data, len + iEnd + 8 - n)
  else if n < iEnd + 8 + len then do
    let data ← memcpy data iEnd field 0 8
    let data ←
      if n < iEnd + 8 + len1 then do
        -- The first part goes around the end.
        let data ← memcpy data (iEnd + 8) buffer1 0 (n - iEnd - 8)
        let data ← memcpy data 0 buffer1 (n - iEnd - 8) (len1 - (n - iEnd - 8))
        memcpy data (len1 - (n - iEnd - 8)) buffer2 0 len2
      else do
        -- The second part goes around the end.
        let data ← memcpy data (iEnd + 8) buffer1 0 len1
        let data ← memcpy data (iEnd + 8 + len1) buffer2 0 (n - iEnd - 8 - len1)
        memcpy data 0 buffer2 (n - iEnd - 8 - len1) (len2 - (n - iEnd - 8 - len1))
    guard (len - (n - iEnd - 8) + gap ≤ iBegin)
    return (data, len - (n - iEnd - 8))
  else do
    let data ← memcpy data iEnd field 0 8
    let data ← memcpy data (iEnd + 8) buffer1 0 len1
    let data ← memcpy data (iEnd + 8 + len1) buffer2 0 len2
    return (data, (iEnd + 8 + len) % n)

-- Loading

/-- Where the message at the front is. -/
structure Located where
  /-- What is in its length field. -/
  encodedLen : Nat
  len : Nat
  dataFrom : Nat
  newBegin : Nat
  /-- It was found with `iEnd` behind `iBegin`. -/
  linear : Bool
deriving DecidableEq, Repr

/-- The beginning of `dequeue`, when there is something: read the length field at
`iBegin`. `size` is the length of the message by its length field, or `none` if it is of
another type and stays where it is. One of the callers does not assert that the length
field is there (`checked`). -/
def locate (gap : Nat) (checked : Bool) (iBegin iEnd : Nat) (data : Bytes)
    (size : Nat → Option Nat) : Option (Option Located) :=
  let n := data.length
  if iBegin < iEnd then do
    guard (checked → iBegin + 8 < iEnd)
    let field ← readAt data iBegin 8
    match size (getLen field) with
    | none => return none
    | some len =>
      guard (iBegin + 8 + len ≤ iEnd)
      return some ⟨getLen field, len, iBegin + 8, iBegin + 8 + len, true⟩
  else do
    guard (iEnd + gap ≤ iBegin)
    guard (iBegin + 1 ≤ n)
    if n < iBegin + 8 then
      -- The length field goes around the end.
      let head ← readAt data iBegin (n - iBegin)
      let tail ← readAt data 0 (iBegin + 8 - n)
      match size (getLen (head ++ tail)) with
      | none => return none
      | some len =>
        guard (iBegin + 8 - n + len ≤ iEnd)
        return some ⟨getLen (head ++ tail), len, iBegin + 8 - n, iBegin + 8 - n + len, false⟩
    else
      let field ← readAt data iBegin 8
      match size (getLen field) with
      | none => return none
      | some len =>
        let dataFrom := if iBegin + 8 = n then 0 else iBegin + 8
        if iBegin + 8 + len < n then
          return some ⟨getLen field, len, dataFrom, iBegin + 8 + len, false⟩
        else
          guard (iBegin + 8 + len - n ≤ iEnd)
          return some ⟨getLen field, len, dataFrom, iBegin + 8 + len - n, false⟩

/-- Copy the message to one buffer. -/
def copyOne (data : Bytes) (l : Located) : Option Bytes :=
  let n := data.length
  if l.linear then readAt data l.dataFrom l.len
  else if l.dataFrom < l.newBegin then do
    guard (l.newBegin - l.dataFrom = l.len)
    readAt data l.dataFrom l.len
  else do
    let head ← readAt data l.dataFrom (n - l.dataFrom)
    let tail ← readAt data 0 l.newBegin
    guard (n - (l.dataFrom - l.newBegin) = l.len)
    return head ++ tail

/-- Copy `k` bytes of the message to one buffer, and the rest to another. -/
def copyTwo (data : Bytes) (l : Located) (k : Nat) : Option (Bytes × Bytes) :=
  let n := data.length
  if l.linear then do
    return (← readAt data l.dataFrom k, ← readAt data (l.dataFrom + k) (l.len - k))
  else if l.dataFrom < l.newBegin then do
    guard (l.newBegin - l.dataFrom = l.len)
    return (← readAt data l.dataFrom k, ← readAt data (l.dataFrom + k) (l.len - k))
  else do
    guard (n - (l.dataFrom - l.newBegin) = l.len)
    if n - l.dataFrom < k then
      -- The first part goes around the end.
      let head ← readAt data l.dataFrom (n - l.dataFrom)
      let tail ← readAt data 0 (k - (n - l.dataFrom))
      return (head ++ tail, ← readAt data (l.dataFrom + k - n) (l.len - k))
    else
      -- The second part goes around the end.
      let first ← readAt data l.dataFrom k
      let head ← readAt data (l.dataFrom + k) (n - l.dataFrom - k)
      let tail ← readAt data 0 (l.len - (n - l.dataFrom))
      return (first, head ++ tail)

-- What is stored

section Store

variable {gap b e len : Nat} {data cs field buffer1 buffer2 : Bytes}

/-- There is room behind `cs` for the length field and the message, and more. -/
structure Fits (gap b e : Nat) (field : Bytes) (len : Nat) (buffer1 buffer2 data cs : Bytes) :
    Prop where
  ring : Ring data b e cs
  field_length : field.length = 8
  len_eq : len = buffer1.length + buffer2.length
  room : cs.length + 8 + len + gap ≤ data.length
  less : cs.length + 8 + len < data.length

/-- The message is stored behind `cs`. -/
def Stores (gap b e : Nat) (field : Bytes) (len : Nat) (buffer1 buffer2 data cs : Bytes) : Prop :=
  ∃ data' e', store gap b e field len buffer1 buffer2 data = some (data', e') ∧
    data'.length = data.length ∧ Ring data' b e' (cs ++ (field ++ (buffer1 ++ buffer2)))

variable (h : Fits gap b e field len buffer1 buffer2 data cs)
include h

/-- When the message goes around the end, what is there does not. -/
theorem Fits.behind (hAround : data.length < e + 8 + len) : b + cs.length = e := by
  have hEnd := h.ring.end_eq
  have hBegin := h.ring.begin_lt
  have hRoom := h.room
  omega

/-- The length field goes around the end. -/
theorem Fits.stores_of_field_around (hAround : data.length < e + 8) :
    Stores gap b e field len buffer1 buffer2 data cs := by
  obtain ⟨n, hn⟩ : ∃ n, data.length = n := ⟨_, rfl⟩
  have hBehind := h.behind (by omega)
  obtain ⟨⟨hBegin, hEnd, hLt, -, hHolds⟩, hField, hLen, hRoom, hLess⟩ := h
  rw [hn] at hBegin hEnd hLt hRoom hLess hAround
  obtain ⟨data₁, data₂, h₁, h₂, hn₂, hHolds₂, hm₂⟩ := hHolds.memcpy_around e field (n - e)
    (e + 8 - n) (by omega) (by omega) rfl hBehind (by omega)
  obtain ⟨data₃, h₃, hn₃, hHolds₃, hm₃⟩ := hHolds₂.memcpy_all (e + 8 - n) buffer1 _ rfl hm₂
    (.inr (by omega)) (by omega) (by omega)
  obtain ⟨data₄, h₄, hn₄, hHolds₄, hm₄⟩ := hHolds₃.memcpy_all (e + 8 - n + buffer1.length) buffer2
    _ rfl hm₃ (.inr (by omega)) (by omega) (by omega)
  rw [append_assoc, append_assoc] at hHolds₄ hm₄
  refine ⟨data₄, len + e + 8 - n, ?_, by omega, by omega, by omega, by omega, by omega, hHolds₄⟩
  simp [store, hn, hAround, h₁, h₂, h₃, h₄, guard, show len + e + 8 - n + gap ≤ b by omega]

/-- The first part goes around the end. -/
theorem Fits.stores_of_first_around (hField' : ¬ data.length < e + 8)
    (hAround : data.length < e + 8 + buffer1.length) :
    Stores gap b e field len buffer1 buffer2 data cs := by
  obtain ⟨n, hn⟩ : ∃ n, data.length = n := ⟨_, rfl⟩
  have hLen' := h.len_eq
  have hBehind := h.behind (by omega)
  obtain ⟨⟨hBegin, hEnd, hLt, -, hHolds⟩, hField, hLen, hRoom, hLess⟩ := h
  rw [hn] at hBegin hEnd hLt hRoom hLess hAround hField'
  obtain ⟨data₁, h₁, hn₁, hHolds₁, hm₁⟩ := hHolds.memcpy_all e field 8 hField rfl (.inl hBehind)
    (by omega) (by omega)
  obtain ⟨data₂, data₃, h₂, h₃, hn₃, hHolds₃, hm₃⟩ := hHolds₁.memcpy_around (e + 8) buffer1
    (n - e - 8) (buffer1.length - (n - e - 8)) (by omega) (by omega) hm₁ (by omega) (by omega)
  obtain ⟨data₄, h₄, hn₄, hHolds₄, hm₄⟩ := hHolds₃.memcpy_all (buffer1.length - (n - e - 8)) buffer2
    _ rfl hm₃ (.inr (by omega)) (by omega) (by omega)
  rw [append_assoc, append_assoc] at hHolds₄ hm₄
  refine ⟨data₄, len - (n - e - 8), ?_, by omega, by omega, by omega, by omega, by omega, hHolds₄⟩
  simp [store, hn, hField', hAround, h₁, h₂, h₃, h₄, guard, show n < e + 8 + len by omega,
    show len - (n - e - 8) + gap ≤ b by omega]

/-- The second part goes around the end. -/
theorem Fits.stores_of_second_around (hFirst : ¬ data.length < e + 8 + buffer1.length)
    (hAround : data.length < e + 8 + len) : Stores gap b e field len buffer1 buffer2 data cs := by
  obtain ⟨n, hn⟩ : ∃ n, data.length = n := ⟨_, rfl⟩
  have hBehind := h.behind hAround
  obtain ⟨⟨hBegin, hEnd, hLt, -, hHolds⟩, hField, hLen, hRoom, hLess⟩ := h
  rw [hn] at hBegin hEnd hLt hRoom hLess hAround hFirst
  obtain ⟨data₁, h₁, hn₁, hHolds₁, hm₁⟩ := hHolds.memcpy_all e field 8 hField rfl (.inl hBehind)
    (by omega) (by omega)
  obtain ⟨data₂, h₂, hn₂, hHolds₂, hm₂⟩ := hHolds₁.memcpy_all (e + 8) buffer1 _ rfl hm₁
    (.inl (by omega)) (by omega) (by omega)
  obtain ⟨data₃, data₄, h₃, h₄, hn₄, hHolds₄, hm₄⟩ := hHolds₂.memcpy_around (e + 8 + buffer1.length)
    buffer2 (n - e - 8 - buffer1.length) (buffer2.length - (n - e - 8 - buffer1.length)) (by omega)
    (by omega) hm₂ (by omega) (by omega)
  rw [append_assoc, append_assoc] at hHolds₄ hm₄
  refine ⟨data₄, len - (n - e - 8), ?_, by omega, by omega, by omega, by omega, by omega, hHolds₄⟩
  simp [store, hn, hAround, hFirst, h₁, h₂, h₃, h₄, guard, show ¬ n < e + 8 by omega,
    show len - (n - e - 8) + gap ≤ b by omega]

/-- Nothing goes around the end. -/
theorem Fits.stores_straight (hStraight : ¬ data.length < e + 8 + len) :
    Stores gap b e field len buffer1 buffer2 data cs := by
  obtain ⟨n, hn⟩ : ∃ n, data.length = n := ⟨_, rfl⟩
  obtain ⟨⟨hBegin, hEnd, hLt, hEndEq, hHolds⟩, hField, hLen, hRoom, hLess⟩ := h
  rw [hn] at hBegin hEnd hLt hEndEq hRoom hLess hStraight
  obtain ⟨data₁, h₁, hn₁, hHolds₁, hm₁⟩ := hHolds.memcpy_all e field 8 hField rfl (by omega)
    (by omega) (by omega)
  obtain ⟨data₂, h₂, hn₂, hHolds₂, hm₂⟩ := hHolds₁.memcpy_all (e + 8) buffer1 _ rfl hm₁
    (by omega) (by omega) (by omega)
  obtain ⟨data₃, h₃, hn₃, hHolds₃, hm₃⟩ := hHolds₂.memcpy_all (e + 8 + buffer1.length) buffer2 _ rfl
    hm₂ (by omega) (by omega) (by omega)
  rw [append_assoc, append_assoc] at hHolds₃ hm₃
  have hMod : e + 8 + len < n ∧ (e + 8 + len) % n = e + 8 + len ∨
      e + 8 + len = n ∧ (e + 8 + len) % n = 0 := by
    rcases Nat.lt_or_ge (e + 8 + len) n with hLt' | hGe
    · exact .inl ⟨hLt', Nat.mod_eq_of_lt hLt'⟩
    · have hEq : e + 8 + len = n := by omega
      exact .inr ⟨hEq, by rw [hEq, Nat.mod_self]⟩
  refine ⟨data₃, (e + 8 + len) % n, ?_, by omega, by omega, by omega, by omega, by omega, hHolds₃⟩
  simp [store, hn, hStraight, h₁, h₂, h₃, show ¬ n < e + 8 by omega]

/-- A message is stored behind what is there, if there is room for it and more. -/
theorem Fits.stores : Stores gap b e field len buffer1 buffer2 data cs := by
  by_cases hStraight : data.length < e + 8 + len
  · by_cases hField : data.length < e + 8
    · exact h.stores_of_field_around hField
    · by_cases hFirst : data.length < e + 8 + buffer1.length
      · exact h.stores_of_first_around hField hFirst
      · exact h.stores_of_second_around hFirst hStraight
  · exact h.stores_straight hStraight

end Store

-- What is loaded

section Load

variable {gap b e : Nat} {data field payload rest : Bytes} {l : Located}

/-- `l` is where `payload` is. -/
structure Located.Of (l : Located) (data payload : Bytes) : Prop where
  len_eq : l.len = payload.length
  len_pos : 0 < l.len
  len_lt : l.len < data.length
  from_lt : l.dataFrom < data.length
  to_lt : l.newBegin < data.length
  to_eq : l.dataFrom + l.len = l.newBegin ∨ l.dataFrom + l.len = l.newBegin + data.length
  linear : l.linear = true → l.dataFrom + l.len ≤ data.length
  holds : Holds data l.dataFrom payload

/-- The length field at the front is read, around the end or not. -/
theorem readAt_field (h : Ring data b e (field ++ rest)) (hField : field.length = 8)
    (hIn : b + 8 ≤ data.length) : readAt data b 8 = some field := by
  rw [h.holds.readAt (o := 0) (q := b) (.inl rfl) hIn (by rw [length_append]; omega),
    drop_zero, take_left' hField]

/-- A length field that goes around the end is read in two pieces. -/
theorem readAt_field_around (h : Ring data b e (field ++ rest)) (hField : field.length = 8)
    (hAround : data.length < b + 8) :
    ∃ head tail, readAt data b (data.length - b) = some head ∧
      readAt data 0 (b + 8 - data.length) = some tail ∧ head ++ tail = field := by
  have hBegin := h.begin_lt
  have hEnd := h.end_eq
  have hLt := h.length_lt
  have hEndLt := h.end_lt
  rw [length_append] at hEnd hLt
  have hHead := h.holds.left.readAt (o := 0) (q := b) (k := data.length - b) (.inl rfl) (by omega)
    (by omega)
  have hTail := h.holds.left.readAt (o := data.length - b) (q := 0) (k := b + 8 - data.length)
    (.inr (by omega)) (by omega) (by omega)
  refine ⟨_, _, hHead, hTail, ?_⟩
  rw [drop_zero]
  exact take_append_piece field (by omega)

/-- Where the payload begins and ends, given either side of the end. -/
theorem located_of (h : Ring data b e (field ++ (payload ++ rest))) (hField : field.length = 8)
    (hPos : 0 < payload.length) {u dataFrom newBegin : Nat} {linear : Bool}
    (hFrom : dataFrom < data.length) (hTo : newBegin < data.length)
    (hFromEq : b + 8 = dataFrom ∨ b + 8 = dataFrom + data.length)
    (hToEq : b + 8 + payload.length = newBegin ∨
      b + 8 + payload.length = newBegin + data.length)
    (hLinear : linear = true → dataFrom + payload.length ≤ data.length) :
    (⟨u, payload.length, dataFrom, newBegin, linear⟩ : Located).Of data payload ∧
      Ring data newBegin e rest := by
  have hLt := h.length_lt
  simp only [length_append, hField] at hLt
  refine ⟨⟨rfl, hPos, ?_, hFrom, hTo, ?_, hLinear, ?_⟩, ?_⟩
  · show payload.length < data.length
    omega
  · show dataFrom + payload.length = newBegin ∨ dataFrom + payload.length = newBegin + data.length
    omega
  · exact (h.holds.right (by rw [hField]; exact hFromEq)).left
  · rw [← append_assoc] at h
    exact h.drop hTo (by rw [length_append, hField, ← Nat.add_assoc]; exact hToEq)

/-- The message at the front is found, and what remains without it. -/
theorem locate_spec (checked : Bool) (size : Nat → Option Nat)
    (h : Ring data b e (field ++ (payload ++ rest))) (hField : field.length = 8)
    (hPos : payload ≠ []) (hSize : size (getLen field) = some payload.length)
    (hGap : (field ++ (payload ++ rest)).length + gap ≤ data.length) :
    ∃ l, locate gap checked b e data size = some (some l) ∧ l.encodedLen = getLen field ∧
      l.Of data payload ∧ Ring data l.newBegin e rest := by
  have hBegin := h.begin_lt
  have hEnd := h.end_eq
  have hLt := h.length_lt
  have hEndLt := h.end_lt
  have hLen : 0 < payload.length := length_pos_iff.mpr hPos
  simp only [length_append, hField] at hEnd hLt hGap
  unfold locate
  -- all in one piece, or around the end
  by_cases hLinear : b < e
  · have hRead := readAt_field h hField (by omega)
    refine ⟨⟨getLen field, payload.length, b + 8, b + 8 + payload.length, true⟩, ?_, rfl,
      located_of h hField hLen (by omega) (by omega) (.inl rfl) (.inl rfl) fun _ => by omega⟩
    simp [hLinear, hRead, hSize, guard, show b + 8 < e by omega,
      show b + 8 + payload.length ≤ e by omega]
  · have hGuard : e + gap ≤ b := by omega
    by_cases hAround : data.length < b + 8
    · obtain ⟨head, tail, hHead, hTail, hBoth⟩ := readAt_field_around h hField hAround
      refine ⟨⟨getLen field, payload.length, b + 8 - data.length,
        b + 8 - data.length + payload.length, false⟩, ?_, rfl,
        located_of h hField hLen (by omega) (by omega) (.inr (by omega)) (.inr (by omega))
          (by simp)⟩
      simp [hLinear, hGuard, hAround, hHead, hTail, hBoth, hSize, guard,
        show b + 1 ≤ data.length by omega, show b + 8 - data.length + payload.length ≤ e by omega]
    · have hRead := readAt_field h hField (by omega)
      obtain ⟨dataFrom, hFrom⟩ :
          ∃ dataFrom, (if b + 8 = data.length then 0 else b + 8) = dataFrom := ⟨_, rfl⟩
      have hFromEq : dataFrom < data.length ∧
          (b + 8 = dataFrom ∨ b + 8 = dataFrom + data.length) := by
        split at hFrom <;> omega
      by_cases hStraight : b + 8 + payload.length < data.length
      · refine ⟨⟨getLen field, payload.length, dataFrom, b + 8 + payload.length, false⟩, ?_, rfl,
          located_of h hField hLen hFromEq.1 (by omega) hFromEq.2 (.inl rfl) (by simp)⟩
        simp [hLinear, hGuard, hAround, hRead, hSize, hFrom, hStraight, guard,
          show b + 1 ≤ data.length by omega]
      · refine ⟨⟨getLen field, payload.length, dataFrom, b + 8 + payload.length - data.length,
          false⟩, ?_, rfl,
          located_of h hField hLen hFromEq.1 (by omega) hFromEq.2 (.inr (by omega)) (by simp)⟩
        simp [hLinear, hGuard, hAround, hRead, hSize, hFrom, hStraight, guard,
          show b + 1 ≤ data.length by omega,
          show b + 8 + payload.length ≤ e + data.length by omega]

/-- A message of another type stays where it is. -/
theorem locate_other (checked : Bool) (size : Nat → Option Nat)
    (h : Ring data b e (field ++ (payload ++ rest))) (hField : field.length = 8)
    (hPos : payload ≠ []) (hSize : size (getLen field) = none)
    (hGap : (field ++ (payload ++ rest)).length + gap ≤ data.length) :
    locate gap checked b e data size = some none := by
  have hBegin := h.begin_lt
  have hEnd := h.end_eq
  have hLen : 0 < payload.length := length_pos_iff.mpr hPos
  have hEndLt := h.end_lt
  simp only [length_append, hField] at hEnd hGap
  unfold locate
  by_cases hLinear : b < e
  · have hRead := readAt_field h hField (by omega)
    simp [hLinear, hRead, hSize, guard, show b + 8 < e by omega]
  · have hGuard : e + gap ≤ b := by omega
    by_cases hAround : data.length < b + 8
    · obtain ⟨head, tail, hHead, hTail, hBoth⟩ := readAt_field_around h hField hAround
      simp [hLinear, hGuard, hAround, hHead, hTail, hBoth, hSize, guard,
        show b + 1 ≤ data.length by omega]
    · have hRead := readAt_field h hField (by omega)
      simp [hLinear, hGuard, hAround, hRead, hSize, guard, show b + 1 ≤ data.length by omega]

/-- The message is copied out whole. -/
theorem copyOne_spec (h : l.Of data payload) : copyOne data l = some payload := by
  obtain ⟨hLen, hPos, hLt, hFrom, hTo, hToEq, hLinear, hHolds⟩ := h
  have hRead : l.dataFrom + l.len ≤ data.length → readAt data l.dataFrom l.len = some payload := by
    intro hIn
    rw [hHolds.readAt (o := 0) (q := l.dataFrom) (.inl rfl) hIn (by omega), hLen, drop_zero,
      take_length]
  unfold copyOne
  split
  next hLin => exact hRead (hLinear hLin)
  next =>
  split
  next hOrder => simp [guard, hRead (by omega), show l.newBegin - l.dataFrom = l.len by omega]
  next hOrder =>
    have hHead := hHolds.readAt (o := 0) (q := l.dataFrom) (k := data.length - l.dataFrom)
      (.inl rfl) (by omega) (by omega)
    have hTail := hHolds.readAt (o := data.length - l.dataFrom) (q := 0) (k := l.newBegin)
      (.inr (by omega)) (by omega) (by omega)
    have hTwo := take_append_piece payload
      (show data.length - l.dataFrom + l.newBegin = payload.length by omega)
    simp [guard, hHead, hTail, hTwo,
      show data.length - (l.dataFrom - l.newBegin) = l.len by omega]

/-- The message is copied out in two parts. -/
theorem copyTwo_spec (h : l.Of data payload) {k : Nat} (hk : k ≤ l.len) :
    copyTwo data l k = some (payload.take k, payload.drop k) := by
  obtain ⟨hLen, hPos, hLt, hFrom, hTo, hToEq, hLinear, hHolds⟩ := h
  have hRest : (payload.drop k).take (l.len - k) = payload.drop k :=
    take_of_length_le (by rw [length_drop]; omega)
  have hRead : l.dataFrom + l.len ≤ data.length →
      readAt data l.dataFrom k = some (payload.take k) ∧
        readAt data (l.dataFrom + k) (l.len - k) = some (payload.drop k) := by
    intro hIn
    have hFirst := hHolds.readAt (o := 0) (q := l.dataFrom) (k := k) (.inl rfl) (by omega)
      (by omega)
    have hSecond := hHolds.readAt (o := k) (q := l.dataFrom + k) (k := l.len - k) (.inl rfl)
      (by omega) (by omega)
    rw [hRest] at hSecond
    exact ⟨hFirst, hSecond⟩
  unfold copyTwo
  split
  next hLin => simp [hRead (hLinear hLin)]
  next =>
  split
  next hOrder => simp [guard, hRead (by omega), show l.newBegin - l.dataFrom = l.len by omega]
  next hOrder =>
    have hGuard : data.length - (l.dataFrom - l.newBegin) = l.len := by omega
    -- the end of the buffer lies in the first part or in the second
    by_cases hFirst : data.length - l.dataFrom < k
    · have hHead := hHolds.readAt (o := 0) (q := l.dataFrom) (k := data.length - l.dataFrom)
        (.inl rfl) (by omega) (by omega)
      have hTail := hHolds.readAt (o := data.length - l.dataFrom) (q := 0)
        (k := k - (data.length - l.dataFrom)) (.inr (by omega)) (by omega) (by omega)
      have hSecond := hHolds.readAt (o := k) (q := l.dataFrom + k - data.length) (k := l.len - k)
        (.inr (by omega)) (by omega) (by omega)
      have hTwo : payload.take k = payload.take (data.length - l.dataFrom) ++
          (payload.drop (data.length - l.dataFrom)).take (k - (data.length - l.dataFrom)) := by
        rw [← take_add]
        congr 1
        omega
      simp [guard, hGuard, hFirst, hHead, hTail, hSecond, hRest, hTwo]
    · have hHead := hHolds.readAt (o := 0) (q := l.dataFrom) (k := k) (.inl rfl) (by omega)
        (by omega)
      have hMid := hHolds.readAt (o := k) (q := l.dataFrom + k) (k := data.length - l.dataFrom - k)
        (.inl rfl) (by omega) (by omega)
      have hTail := hHolds.readAt (o := data.length - l.dataFrom) (q := 0)
        (k := l.len - (data.length - l.dataFrom)) (.inr (by omega)) (by omega) (by omega)
      have hTwo := take_append_piece (payload.drop k)
        (show data.length - l.dataFrom - k + (l.len - (data.length - l.dataFrom)) =
          (payload.drop k).length by rw [length_drop]; omega)
      rw [drop_drop,
        show k + (data.length - l.dataFrom - k) = data.length - l.dataFrom by omega] at hTwo
      simp [guard, hGuard, hFirst, hHead, hMid, hTail, hTwo]

end Load

end Circle

end MyBase
