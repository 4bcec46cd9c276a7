import MyBase.Lib.Walk
import MyBase.Wal.Decode

/-!
# MyBase — when loading a file comes back

`loadInfo` has two loops that depend on what is in the file. With a trailer, the buffer
for the index is doubled until it is large enough, and so many entries are read as the
index says. Without one, the walk over the lengths goes on at a position of 32 bits, and
a length that exceeds the rest of them leads back.

Main result:

* `loadInfo_returns_iff` — loading returns exactly if the trailer's index can be read or
  is reported as missing, or the lengths never lead back.
-/

namespace MyBase

open Lib

namespace WalFileInfo

/-- True or false is returned, after finitely many steps. -/
def Returns (r : Except LoadError WalFileInfo) : Prop :=
  (∃ info, r = .ok info) ∨ r = .error .shortRead

-- The walk over the lengths

/-- Where the length at `pos` leads, if there is one. -/
def nextPos (file : Bytes) (pos : Nat) : Option Nat :=
  if pos + 4 ≤ file.length then
    some ((pos + (4 + ofBe (pread file pos 4)) % 2 ^ 32) % 2 ^ 32)
  else none

variable {info : WalFileInfo} {file buf : Bytes} {pos lastIdx : Nat} {e : LoadError}

theorem nextPos_lt (h : (nextPos file pos).isSome) : pos < file.length := by
  unfold nextPos at h
  split at h
  · omega
  · cases h

/-- The walk has returned exactly if it has ended within the steps it is given. -/
theorem scanRecords_returns_iff_steps {fuel : Nat} :
    Returns (scanRecords file fuel lastIdx pos info) ↔ steps (nextPos file) fuel pos = none := by
  induction fuel generalizing lastIdx pos info with
  | zero => simp [Returns, scanRecords, steps]
  | succ fuel ih =>
    have hLen := pread_length file pos 4
    rw [scanRecords, steps, nextPos]
    by_cases hIn : pos < file.length
    · by_cases hField : pos + 4 ≤ file.length
      · rw [if_pos hIn, if_pos hField]
        simp only [show ¬ (pread file pos 4).length ≠ 4 by omega, if_false, Option.bind_some]
        exact ih
      · rw [if_pos hIn, if_neg hField]
        simp [show (pread file pos 4).length ≠ 4 by omega, Returns]
    · rw [if_neg hIn, if_neg (by omega)]
      simp [Returns]

/-- The walk from the first position returns exactly if it never comes back. -/
theorem scanRecords_returns_iff :
    Returns (scanRecords file (file.length + 1) lastIdx 0 info) ↔
      NeverBack (nextPos file) 0 := by
  have hPlaces : ∀ pos, (nextPos file pos).isSome → pos ∈ Finset.range file.length :=
    fun pos h => Finset.mem_range.mpr (nextPos_lt h)
  rw [scanRecords_returns_iff_steps, ← steps_eq_none_iff _ hPlaces, Finset.card_range]

-- The index behind a trailer

theorem readIndex_error {count : Nat} (h : readIndex count buf info = .error e) :
    e = .assertion := by
  induction count generalizing buf info with
  | zero => cases h
  | succ count ih =>
    unfold readIndex at h
    split at h
    next => cases h; rfl
    next =>
      split at h
      next => cases h; rfl
      next => exact ih h

theorem readStored_error (h : info.readStored buf = .error e) : e = .assertion := by
  unfold readStored at h
  split at h
  next => cases h; rfl
  next count rest hCount =>
    cases hRead : readIndex count rest info with
    | error e' =>
      rw [hRead] at h
      cases h
      exact readIndex_error hRead
    | ok info' =>
      rw [hRead] at h
      cases h

/-- What stands where a trailer points can be read, and is an index if it is all there. -/
def IndexReadable (file : Bytes) (pos size : Nat) : Prop :=
  Readable file pos size ∧ (size ≤ file.length - pos → ∃ es, StoresIndex file pos size es)

/-- When reading the index of a trailer returns. -/
theorem loadIndex_returns_iff {size : Nat} :
    Returns (loadIndex info file pos size) ↔ IndexReadable file pos size := by
  constructor
  · rintro (⟨info', hOk⟩ | hShort)
    · obtain ⟨es, hStores, -⟩ := loadIndex_eq_ok_iff.mp hOk
      exact ⟨.inl hStores.1, fun _ => ⟨es, hStores⟩⟩
    · unfold loadIndex at hShort
      by_cases hReadable : Readable file pos size
      · rw [readBuffer_of_readable hReadable] at hShort
        refine ⟨hReadable, fun hThere => ?_⟩
        -- All of it was read, and an entry is missing: an assertion.
        rw [if_pos hThere] at hShort
        cases readStored_error hShort
      · rw [readBuffer_of_not_readable hReadable] at hShort
        split at hShort <;> cases hShort
  · rintro ⟨hReadable, hIndex⟩
    by_cases hThere : size ≤ file.length - pos
    · obtain ⟨es, hStores⟩ := hIndex hThere
      exact .inl ⟨_, loadIndex_eq_ok_iff.mpr ⟨es, hStores, rfl⟩⟩
    · refine .inr ?_
      rw [loadIndex, readBuffer_of_readable hReadable, if_neg hThere]
      rfl

-- Loading

/-- For every content of a file: loading returns exactly if what a trailer points to can
be read or is found missing and, where there is no trailer, the lengths never lead back
to a position from which they were followed before. -/
theorem loadInfo_returns_iff (pf : Platform) (info : WalFileInfo) (file : Bytes) :
    Returns (loadInfo pf info file) ↔
      (∀ pos size, EndsInTrailer pf file pos size → IndexReadable file pos size) ∧
        ((∀ pos size, ¬ EndsInTrailer pf file pos size) → NeverBack (nextPos file) 0) := by
  unfold loadInfo
  cases hTrailer : trailer pf file with
  | some e =>
    obtain ⟨pos, size⟩ := e
    have hEnds := trailer_eq_some_iff.mp hTrailer
    have hOnly : ∀ pos' size', EndsInTrailer pf file pos' size' → (pos', size') = (pos, size) := by
      intro pos' size' hEnds'
      rw [trailer_eq_some_iff.mpr hEnds'] at hTrailer
      exact Option.some.inj hTrailer
    simp only
    rw [loadIndex_returns_iff]
    constructor
    · intro hReadable
      refine ⟨?_, fun hNone => absurd hEnds (hNone pos size)⟩
      intro pos' size' hEnds'
      obtain ⟨rfl, rfl⟩ := Prod.mk.inj (hOnly pos' size' hEnds')
      exact hReadable
    · exact fun h => h.1 pos size hEnds
  | none =>
    have hNone := trailer_eq_none_iff.mp hTrailer
    simp only
    rw [scanRecords_returns_iff]
    constructor
    · exact fun hNever => ⟨fun pos size hEnds => absurd hEnds (hNone pos size), fun _ => hNever⟩
    · exact fun h => h.2 hNone

/-- Four bytes, whose length and the four bytes themselves make a step of zero: the walk
stays where it is. -/
theorem loadInfo_stays :
    ¬ Returns (loadInfo .constant { startIndex := 1 } [0xff, 0xff, 0xff, 0xfc]) ∧
      ∀ n, steps (nextPos [0xff, 0xff, 0xff, 0xfc]) n 0 = some 0 := by
  constructor
  · have hEndless : loadInfo .constant { startIndex := 1 } [0xff, 0xff, 0xff, 0xfc] =
        .error .endless := by decide
    simp [hEndless, Returns]
  · intro n
    induction n with
    | zero => rfl
    | succ n ih =>
      have hNext : nextPos [0xff, 0xff, 0xff, 0xfc] 0 = some 0 := by decide
      rw [steps, hNext]
      exact ih

end WalFileInfo

end MyBase
