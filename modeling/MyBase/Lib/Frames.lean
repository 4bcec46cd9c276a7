import MyBase.Lib.Bytes

/-!
# Length-prefixed frames

A frame is a byte string whose first four bytes are its own length, big-endian. A
stream is cut into frames from the front; what is left is incomplete.

* `isFrame_take` — a stream that is not incomplete starts with a whole frame;
* `arrived_append` — which of a stream's frames are complete.
-/

namespace MyBase.Lib

open List

/-- The length field at the front of a stream. -/
def frameLen (bs : Bytes) : Nat := ofBe (bs.take 4)

/-- A whole frame. -/
def IsFrame (f : Bytes) : Prop := 4 ≤ f.length ∧ frameLen f = f.length

instance (f : Bytes) : Decidable (IsFrame f) := by
  unfold IsFrame
  infer_instance

/-- The stream has no length field yet, or not as many bytes as that says. -/
def Incomplete (bs : Bytes) : Prop := bs.length < 4 ∨ bs.length < frameLen bs

instance (bs : Bytes) : Decidable (Incomplete bs) := by
  unfold Incomplete
  infer_instance

variable {bs more f : Bytes}

/-- Later bytes do not change the length field. -/
theorem frameLen_append (h : 4 ≤ bs.length) (more : Bytes) :
    frameLen (bs ++ more) = frameLen bs := by
  unfold frameLen
  rw [take_append_of_le_length h]

theorem incomplete_nil : Incomplete [] := .inl (by simp)

/-- What is incomplete was so before more bytes came. -/
theorem Incomplete.of_append (h : Incomplete (bs ++ more)) : Incomplete bs := by
  by_cases hShort : bs.length < 4
  · exact .inl hShort
  · rw [Incomplete, frameLen_append (by omega), length_append] at h
    exact .inr (by omega)

/-- The front of a stream that is not incomplete, if its length field makes sense. -/
theorem isFrame_take (h : ¬ Incomplete bs) (hLen : 4 ≤ frameLen bs) :
    IsFrame (bs.take (frameLen bs)) := by
  unfold Incomplete at h
  have hTake : (bs.take (frameLen bs)).length = frameLen bs := by
    rw [length_take]
    omega
  refine ⟨by omega, ?_⟩
  rw [hTake]
  unfold frameLen
  rw [take_take, Nat.min_eq_left]
  exact hLen

-- Streams of frames

/-- The frames of a stream that are complete when `n` bytes of it have arrived. -/
def arrived : List Bytes → Nat → List Bytes
  | [], _ => []
  | f :: fs, n => if f.length ≤ n then f :: arrived fs (n - f.length) else []

/-- Which of a stream's frames are complete. -/
theorem arrived_append (done rest : List Bytes) (n : Nat) :
    arrived (done ++ rest) (done.flatten.length + n) = done ++ arrived rest n := by
  induction done with
  | nil => simp
  | cons f done ih =>
    have hLen : (f :: done).flatten.length + n = f.length + (done.flatten.length + n) := by
      rw [flatten_cons, length_append, Nat.add_assoc]
    rw [cons_append, hLen, arrived, if_pos (Nat.le_add_right _ _), Nat.add_sub_cancel_left,
      ih, cons_append]

theorem arrived_of_lt {fs : List Bytes} {n : Nat} (h : ∀ f ∈ fs.head?, n < f.length) :
    arrived fs n = [] := by
  cases fs with
  | nil => rfl
  | cons f fs =>
    have hShort : n < f.length := h f rfl
    rw [arrived, if_neg (by omega)]

/-- The length field of part of a stream of frames. -/
theorem IsFrame.frameLen_of_prefix (h : IsFrame f) (hPrefix : bs <+: f ++ more)
    (hLen : 4 ≤ bs.length) : frameLen bs = f.length := by
  obtain ⟨more', hEq⟩ := hPrefix
  rw [← frameLen_append hLen more', hEq, frameLen_append h.1, h.2]

/-- A part that is long enough for its first frame starts with it. -/
theorem prefix_append_split (h : bs <+: f ++ more) (hLen : f.length ≤ bs.length) :
    ∃ bs', bs = f ++ bs' ∧ bs' <+: more := by
  obtain ⟨bs', rfl⟩ := prefix_of_prefix_length_le (prefix_append f more) h hLen
  exact ⟨bs', rfl, (prefix_append_right_inj f).mp h⟩

end MyBase.Lib
