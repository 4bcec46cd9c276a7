import MyBase.Wal.Load
import MyBase.Wal.Recovery

/-!
# MyBase — the buffers that reads write to

`entryAt` and `logEntries` take the lengths of records from an index that was loaded from
a file, as numbers of 32 bits. A length is the size of a buffer, as an `int32_t`, and the
number of bytes that `pread` may write to it; `logEntries` adds the lengths up, again in
32 bits, reads so many bytes and cuts them. `Session.entryAt` and `Session.logEntries`
are what is read if the buffers are large enough; here the buffers are what `alloc` makes
them.

Main result:

* `memorySafe_iff` — loading a directory and every call after it stay inside their
  buffers, exactly if no file that overflows one is reached and all lengths fit.
-/

namespace MyBase

open Lib List

namespace Session

-- The calls

/-- Fewer bytes than asked for are reported by a null buffer. -/
def orNull : Except LoadError Bytes → Except LoadError (Option Bytes)
  | .ok buf => .ok (some buf)
  | .error .shortRead => .ok none
  | .error e => .error e

/-- `Wal::entryAt`. -/
def entryAtMem (pf : Platform) (s : Session) (idx : Nat) : Except LoadError (Option Bytes) :=
  if idx < s.wal.startIdx ∨ s.wal.lastIdx < idx then .ok none
  else
    match s.wal.walFiles.lowerBound idx with
    | none => .ok none
    | some (_, ptr) =>
      let ivt := s.ivtAt pf ptr idx
      if ivt = 0 then .ok none
      else orNull (WalFileInfo.readBuffer (s.dataAt ptr) (ivtPos ivt) (ivtLength ivt))

/-- Cut a buffer into pieces, each in a buffer of its own. `readBytes` refuses a piece that
is longer than the rest, and nobody looks at that; a negative length passes the check, and
`memcpy` takes it for a very large one. -/
def cutMem : List Nat → Bytes → Except LoadError (List Bytes)
  | [], _ => .ok []
  | len :: rest, buf =>
    if (Buffer.alloc len).isNone then .error .endless
    else if 2 ^ 31 ≤ len then .error .overflow
    else if buf.length < len then .error .unread
    else (cutMem rest (buf.drop len)).map (buf.take len :: ·)

/-- What `logEntries` makes of the bytes it has read. -/
def cutOrNone (lengths : List Nat) : Except LoadError (Option Bytes) → Except LoadError (List Bytes)
  | .ok (some buf) => cutMem lengths buf
  | .ok none => .ok []
  | .error e => .error e

/-- `Wal::logEntries`. -/
def logEntriesMem (pf : Platform) (s : Session) (sidx eidx : Nat) :
    Except LoadError (List Bytes) :=
  if eidx < sidx ∨ sidx < s.wal.startIdx ∨ s.wal.lastIdx < sidx ∨
      eidx < s.wal.startIdx ∨ s.wal.lastIdx < eidx then .ok []
  else
    match s.wal.walFiles.lowerBound sidx with
    | none => .ok []
    | some (key, ptr) =>
      let endIdx := if eidx < key then eidx else key
      match s.collect pf ptr (List.range' sidx (endIdx + 1 - sidx)) 0xFFFFFFFF 0 [] with
      | none => .ok []
      | some (startPos, total, lengths) =>
        cutOrNone lengths (orNull (WalFileInfo.readBuffer (s.dataAt ptr) startPos total))

-- One read

section

variable {file buf : Bytes} {pos size : Nat} {lengths : List Nat}

theorem orNull_readBuffer (h : WalFileInfo.Readable file pos size) :
    orNull (WalFileInfo.readBuffer file pos size) =
      .ok (if (pread file pos size).length ≠ size then none else some (pread file pos size)) := by
  rw [WalFileInfo.readBuffer_of_readable h]
  by_cases hThere : size ≤ file.length - pos
  · rw [if_pos hThere, if_neg (not_not.mpr (pread_length_eq_iff.mpr hThere))]
    rfl
  · rw [if_neg hThere, if_pos (mt pread_length_eq_iff.mp hThere)]
    rfl

theorem orNull_readBuffer_error (h : ¬ WalFileInfo.Readable file pos size) :
    ∃ e, orNull (WalFileInfo.readBuffer file pos size) = .error e := by
  rw [WalFileInfo.readBuffer_of_not_readable h]
  split
  · exact ⟨.endless, rfl⟩
  · exact ⟨.overflow, rfl⟩

/-- Pieces that lie in the buffer are cut from it. -/
theorem cutMem_eq (hBuf : buf.length ≤ 2 ^ 30) (h : lengths.sum ≤ buf.length) :
    cutMem lengths buf = .ok (cutBuffer lengths buf) := by
  induction lengths generalizing buf with
  | nil => rfl
  | cons len rest ih =>
    rw [sum_cons] at h
    obtain ⟨n, hAlloc, -⟩ := Buffer.alloc_of_le (by omega : len ≤ 2 ^ 30)
    have hRest : (buf.drop len).length = buf.length - len := length_drop
    rw [cutMem, hAlloc, if_neg (by simp), if_neg (by omega), if_neg (by omega),
      ih (by omega) (by omega)]
    rfl

/-- Fewer bytes than the lengths say cannot be cut. -/
theorem cutMem_error (hBuf : buf.length ≤ 2 ^ 30) (h : buf.length < lengths.sum) :
    ∃ e, cutMem lengths buf = .error e := by
  induction lengths generalizing buf with
  | nil =>
    rw [sum_nil] at h
    omega
  | cons len rest ih =>
    rw [sum_cons] at h
    have hRest : (buf.drop len).length = buf.length - len := length_drop
    rw [cutMem]
    split
    next => exact ⟨_, rfl⟩
    next =>
    split
    next => exact ⟨_, rfl⟩
    next =>
    split
    next => exact ⟨_, rfl⟩
    next hIn =>
      have hMore : (buf.drop len).length < rest.sum := by omega
      obtain ⟨e, hError⟩ := ih (by omega) hMore
      exact ⟨e, by rw [hError]; rfl⟩

end

-- The lengths of a range

/-- Where a range starts: `0xFFFFFFFF` stands for no position yet. -/
def startOf (startPos : Nat) (ivts : List Nat) : Nat :=
  ivts.foldl (fun pos ivt => if pos = 0xFFFFFFFF then ivtPos ivt else pos) startPos

/-- The lengths are added up in 32 bits. -/
theorem collect_eq (pf : Platform) (s : Session) (ptr : Nat) (idxs : List Nat)
    {startPos total : Nat} (lengths : List Nat) (hTotal : total < 2 ^ 32) :
    s.collect pf ptr idxs startPos total lengths =
      if 0 ∈ idxs.map (s.ivtAt pf ptr) then none
      else some (startOf startPos (idxs.map (s.ivtAt pf ptr)),
        (total + ((idxs.map (s.ivtAt pf ptr)).map ivtLength).sum) % 2 ^ 32,
        lengths ++ (idxs.map (s.ivtAt pf ptr)).map ivtLength) := by
  induction idxs generalizing startPos total lengths with
  | nil =>
    simp [collect, startOf]
    omega
  | cons idx rest ih =>
    rw [collect]
    by_cases hZero : s.ivtAt pf ptr idx = 0
    · simp [hZero]
    · have hMem : 0 ∈ (idx :: rest).map (s.ivtAt pf ptr) ↔ 0 ∈ rest.map (s.ivtAt pf ptr) := by
        rw [map_cons, mem_cons]
        exact or_iff_right fun h => hZero h.symm
      simp only [if_neg hZero, ih _ (Nat.mod_lt _ (by decide : 0 < 2 ^ 32)), hMem]
      by_cases hRest : 0 ∈ rest.map (s.ivtAt pf ptr)
      · rw [if_pos hRest, if_pos hRest]
      · rw [if_neg hRest, if_neg hRest]
        simp [startOf, Nat.add_assoc]

/-- What a range is in the file: the bytes from `pos` on, cut, if they are there. -/
def readRange (file : Bytes) (pos : Nat) (lengths : List Nat) : List Bytes :=
  let buf := pread file pos (lengths.sum % 2 ^ 32)
  if buf.length ≠ lengths.sum % 2 ^ 32 then [] else cutBuffer lengths buf

/-- The sum of the lengths can be read, and if so many bytes are there, it has not been
cut to 32 bits. -/
def RangeFits (file : Bytes) (pos : Nat) (lengths : List Nat) : Prop :=
  WalFileInfo.Readable file pos (lengths.sum % 2 ^ 32) ∧
    (lengths.sum % 2 ^ 32 ≤ file.length - pos → lengths.sum < 2 ^ 32)

section

variable {file : Bytes} {pos : Nat} {lengths : List Nat}

/-- A range that fits is read and cut as it is in the file. -/
theorem cutOrNone_of_fits (h : RangeFits file pos lengths) :
    cutOrNone lengths (orNull (WalFileInfo.readBuffer file pos (lengths.sum % 2 ^ 32))) =
      .ok (readRange file pos lengths) := by
  obtain ⟨hReadable, hSum⟩ := h
  rw [orNull_readBuffer hReadable]
  unfold readRange
  by_cases hIn : lengths.sum % 2 ^ 32 ≤ file.length - pos
  · have hLen := pread_length_eq_iff.mpr hIn
    have hSize : (pread file pos (lengths.sum % 2 ^ 32)).length ≤ 2 ^ 30 := by
      rcases hReadable with hSize | hFew <;> omega
    simp only [if_neg (not_not.mpr hLen), cutOrNone]
    exact cutMem_eq hSize (by rw [hLen, Nat.mod_eq_of_lt (hSum hIn)])
  · have hLen := mt pread_length_eq_iff.mp hIn
    simp only [if_pos hLen, cutOrNone]

/-- One that does not fit is not read at all. -/
theorem cutOrNone_error (h : ¬ RangeFits file pos lengths) :
    ∃ e, cutOrNone lengths
      (orNull (WalFileInfo.readBuffer file pos (lengths.sum % 2 ^ 32))) = .error e := by
  by_cases hReadable : WalFileInfo.Readable file pos (lengths.sum % 2 ^ 32)
  · have hCut : lengths.sum % 2 ^ 32 ≤ file.length - pos ∧ ¬ lengths.sum < 2 ^ 32 := by
      rw [RangeFits, and_iff_right hReadable] at h
      exact Classical.not_imp.mp h
    have hLen := pread_length_eq_iff.mpr hCut.1
    have hSize : (pread file pos (lengths.sum % 2 ^ 32)).length ≤ 2 ^ 30 := by
      rcases hReadable with hSize | hFew <;> omega
    have hMore : (pread file pos (lengths.sum % 2 ^ 32)).length < lengths.sum := by omega
    rw [orNull_readBuffer hReadable]
    simp only [if_neg (not_not.mpr hLen), cutOrNone]
    exact cutMem_error hSize hMore
  · obtain ⟨e, hError⟩ := orNull_readBuffer_error hReadable
    exact ⟨e, by rw [hError]; rfl⟩

theorem cutOrNone_eq_iff :
    cutOrNone lengths (orNull (WalFileInfo.readBuffer file pos (lengths.sum % 2 ^ 32))) =
      .ok (readRange file pos lengths) ↔ RangeFits file pos lengths := by
  refine ⟨?_, cutOrNone_of_fits⟩
  intro hOk
  by_contra hNot
  obtain ⟨e, hError⟩ := cutOrNone_error hNot
  rw [hError] at hOk
  cases hOk

end

-- The calls, on what is loaded

/-- The index entries of the records that a call for a range reads from one file, up to
the last one of the file. -/
def rangeIvts (pf : Platform) (s : Session) (ptr key sidx eidx : Nat) : List Nat :=
  (List.range' sidx ((if eidx < key then eidx else key) + 1 - sidx)).map (s.ivtAt pf ptr)

/-- The entries of the index have lengths that can be read, one by one and for every range
of one file. -/
structure ReadsFit (pf : Platform) (s : Session) : Prop where
  entry : ∀ idx key ptr, s.wal.startIdx ≤ idx → idx ≤ s.wal.lastIdx →
    s.wal.walFiles.lowerBound idx = some (key, ptr) → s.ivtAt pf ptr idx ≠ 0 →
    WalFileInfo.Readable (s.dataAt ptr) (ivtPos (s.ivtAt pf ptr idx))
      (ivtLength (s.ivtAt pf ptr idx))
  range : ∀ sidx eidx key ptr, s.wal.startIdx ≤ sidx → sidx ≤ eidx → eidx ≤ s.wal.lastIdx →
    s.wal.walFiles.lowerBound sidx = some (key, ptr) → 0 ∉ s.rangeIvts pf ptr key sidx eidx →
    RangeFits (s.dataAt ptr) (startOf 0xFFFFFFFF (s.rangeIvts pf ptr key sidx eidx))
      ((s.rangeIvts pf ptr key sidx eidx).map ivtLength)

variable {pf : Platform} {s : Session}

variable {info : WalFileInfo} {idx sidx eidx fuel lastIdx pos : Nat} {file data : Bytes}

/-- A call returns what the file has, or reports failure, exactly if its buffers can be allocated.
-/
theorem entryAtMem_eq_iff :
    s.entryAtMem pf idx = .ok (s.entryAt pf idx) ↔
      ∀ key ptr, s.wal.startIdx ≤ idx → idx ≤ s.wal.lastIdx →
        s.wal.walFiles.lowerBound idx = some (key, ptr) → s.ivtAt pf ptr idx ≠ 0 →
        WalFileInfo.Readable (s.dataAt ptr) (ivtPos (s.ivtAt pf ptr idx))
          (ivtLength (s.ivtAt pf ptr idx)) := by
  unfold entryAtMem entryAt
  by_cases hOut : idx < s.wal.startIdx ∨ s.wal.lastIdx < idx
  · rw [if_pos hOut, if_pos hOut]
    exact iff_of_true rfl fun _ _ hLow hHigh => by omega
  · rw [if_neg hOut, if_neg hOut]
    cases hFile : s.wal.walFiles.lowerBound idx with
    | none => exact iff_of_true rfl fun _ _ _ _ h => by cases h
    | some e =>
      obtain ⟨key, ptr⟩ := e
      simp only
      by_cases hZero : s.ivtAt pf ptr idx = 0
      · rw [if_pos hZero, if_pos hZero]
        refine iff_of_true rfl fun _ _ _ _ h hNe => ?_
        cases h
        exact absurd hZero hNe
      · rw [if_neg hZero, if_neg hZero]
        constructor
        · intro hEq _ _ _ _ h _
          cases h
          by_contra hNot
          obtain ⟨e, hError⟩ := orNull_readBuffer_error hNot
          rw [hError] at hEq
          cases hEq
        · intro h
          exact orNull_readBuffer (h key ptr (by omega) (by omega) rfl hZero)

/-- The same for a bulk read. -/
theorem logEntriesMem_eq_iff :
    s.logEntriesMem pf sidx eidx = .ok (s.logEntries pf sidx eidx) ↔
      ∀ key ptr, s.wal.startIdx ≤ sidx → sidx ≤ eidx → eidx ≤ s.wal.lastIdx →
        s.wal.walFiles.lowerBound sidx = some (key, ptr) →
        0 ∉ s.rangeIvts pf ptr key sidx eidx →
        RangeFits (s.dataAt ptr) (startOf 0xFFFFFFFF (s.rangeIvts pf ptr key sidx eidx))
          ((s.rangeIvts pf ptr key sidx eidx).map ivtLength) := by
  unfold logEntriesMem logEntries
  by_cases hOut : eidx < sidx ∨ sidx < s.wal.startIdx ∨ s.wal.lastIdx < sidx ∨
      eidx < s.wal.startIdx ∨ s.wal.lastIdx < eidx
  · rw [if_pos hOut, if_pos hOut]
    exact iff_of_true rfl fun _ _ hLow hLe hHigh => by omega
  · rw [if_neg hOut, if_neg hOut]
    cases hFile : s.wal.walFiles.lowerBound sidx with
    | none => exact iff_of_true rfl fun _ _ _ _ _ h => by cases h
    | some e =>
      obtain ⟨key, ptr⟩ := e
      simp only [collect_eq pf s ptr _ [] (by decide : 0 < 2 ^ 32), Nat.zero_add, nil_append]
      by_cases hZero : 0 ∈ s.rangeIvts pf ptr key sidx eidx
      · rw [if_pos (by exact hZero)]
        refine iff_of_true rfl fun _ _ _ _ _ h hNot => ?_
        cases h
        exact absurd hZero hNot
      · rw [if_neg (by exact hZero)]
        refine cutOrNone_eq_iff.trans ?_
        constructor
        · intro hFits _ _ _ _ _ h _
          cases h
          exact hFits
        · intro h
          exact h key ptr (by omega) (by omega) (by omega) rfl hZero

/-- A bulk read that returns has returned what the file has. -/
theorem logEntriesMem_ok {bufs : List Bytes} (h : s.logEntriesMem pf sidx eidx = .ok bufs) :
    bufs = s.logEntries pf sidx eidx := by
  suffices hEq : s.logEntriesMem pf sidx eidx = .ok (s.logEntries pf sidx eidx) by
    rw [hEq] at h
    cases h
    rfl
  rw [logEntriesMem_eq_iff]
  intro key ptr hLow hLe hHigh hFile hZero
  by_contra hNot
  obtain ⟨e, hError⟩ := cutOrNone_error hNot
  unfold logEntriesMem at h
  rw [if_neg (by omega), hFile] at h
  simp only [collect_eq pf s ptr _ [] (by decide : 0 < 2 ^ 32), Nat.zero_add,
    nil_append] at h
  rw [if_neg (by exact hZero)] at h
  exact nomatch hError.symm.trans h

/-- A record that has room in a buffer is read into one. -/
theorem entryAtMem_of_entryAt {buf : Bytes} (h : s.entryAt pf idx = some buf)
    (hLen : buf.length ≤ 2 ^ 30) : s.entryAtMem pf idx = .ok (some buf) := by
  rw [← h, entryAtMem_eq_iff]
  intro key ptr hLow hHigh hFile hNe
  unfold entryAt at h
  rw [if_neg (by omega), hFile] at h
  simp only [if_neg hNe] at h
  split at h
  next => cases h
  next hSize =>
    cases h
    rw [not_not.mp hSize] at hLen
    exact .inl hLen

/-- Every call returns what the file has, or reports failure, exactly if the lengths
fit. -/
theorem reads_eq_iff :
    (∀ idx, s.entryAtMem pf idx = .ok (s.entryAt pf idx)) ∧
        (∀ sidx eidx, s.logEntriesMem pf sidx eidx = .ok (s.logEntries pf sidx eidx)) ↔
      s.ReadsFit pf := by
  constructor
  · rintro ⟨hEntry, hRange⟩
    exact ⟨fun idx => entryAtMem_eq_iff.mp (hEntry idx),
      fun sidx eidx => logEntriesMem_eq_iff.mp (hRange sidx eidx)⟩
  · intro h
    exact ⟨fun idx => entryAtMem_eq_iff.mpr (h.entry idx),
      fun sidx eidx => logEntriesMem_eq_iff.mpr (h.range sidx eidx)⟩

-- Loading

/-- The file ends in a trailer with a size that is negative as an `int32_t`, and has more
bytes from its position on than the least buffer. -/
def Overruns (pf : Platform) (data : Bytes) : Prop :=
  ∃ pos size, EndsInTrailer pf data pos size ∧ 2 ^ 31 ≤ size ∧ 256 < data.length - pos

/-- The file ends in a trailer, and an index stands where it points. -/
def Complete (pf : Platform) (data : Bytes) : Prop :=
  ∃ pos size es, EndsInTrailer pf data pos size ∧ StoresIndex data pos size es

/-- A file that overruns its buffer, behind complete ones only. A file whose name is no
number is passed over. -/
def ReachesOverrun (pf : Platform) : List (Nat × Bytes) → Prop
  | [] => False
  | (file, data) :: rest =>
    (file ≠ 0 ∧ Overruns pf data) ∨ ((file = 0 ∨ Complete pf data) ∧ ReachesOverrun pf rest)

/-- The walk over the lengths writes behind no buffer. -/
theorem scanRecords_error {e : LoadError}
    (h : WalFileInfo.scanRecords file fuel lastIdx pos info = .error e) :
    e = .endless ∨ e = .shortRead := by
  induction fuel generalizing lastIdx pos info with
  | zero =>
    cases h
    exact .inl rfl
  | succ fuel ih =>
    unfold WalFileInfo.scanRecords at h
    simp only at h
    split at h
    next =>
      split at h
      next =>
        cases h
        exact .inr rfl
      next => exact ih h
    next => cases h

/-- The walk does not set `loadFull`. -/
theorem scanRecords_loadFull {info' : WalFileInfo}
    (h : WalFileInfo.scanRecords file fuel lastIdx pos info = .ok info') :
    info'.loadFull = info.loadFull := by
  induction fuel generalizing lastIdx pos info with
  | zero => cases h
  | succ fuel ih =>
    unfold WalFileInfo.scanRecords at h
    simp only at h
    split at h
    next =>
      split at h
      next => cases h
      next =>
        have hRest := ih h
        exact hRest
    next =>
      cases h
      rfl

/-- Which file makes loading write behind a buffer. -/
theorem loadInfo_overflow_iff :
    WalFileInfo.loadInfo pf info data = .error .overflow ↔ Overruns pf data := by
  unfold WalFileInfo.loadInfo
  cases hTrailer : WalFileInfo.trailer pf data with
  | none =>
    refine iff_of_false (fun h => ?_) fun ⟨pos, size, hEnds, _⟩ =>
      trailer_eq_none_iff.mp hTrailer pos size hEnds
    rcases scanRecords_error h with h | h <;> cases h
  | some e =>
    obtain ⟨pos, size⟩ := e
    simp only [WalFileInfo.loadIndex]
    constructor
    · intro h
      by_cases hReadable : WalFileInfo.Readable data pos size
      · rw [WalFileInfo.readBuffer_of_readable hReadable] at h
        split at h
        next => cases WalFileInfo.readStored_error h
        next => cases h
      · rw [WalFileInfo.readBuffer_of_not_readable hReadable] at h
        unfold WalFileInfo.Readable at hReadable
        split at h
        next => cases h
        next hNeg => exact ⟨pos, size, trailer_eq_some_iff.mp hTrailer, by omega, by omega⟩
    · rintro ⟨pos', size', hEnds, hNeg, hMany⟩
      rw [trailer_eq_some_iff.mpr hEnds] at hTrailer
      cases hTrailer
      have hNot : ¬ WalFileInfo.Readable data pos size := by
        unfold WalFileInfo.Readable
        omega
      rw [WalFileInfo.readBuffer_of_not_readable hNot, if_neg (by omega)]
      rfl

/-- Only a complete file counts as full. -/
theorem loadInfo_full_iff {file : Nat} :
    (∃ info, WalFileInfo.loadInfo pf { startIndex := file } data = .ok info ∧
      info.loadFull = true) ↔ Complete pf data := by
  constructor
  · rintro ⟨info, hLoad, hFull⟩
    cases hTrailer : WalFileInfo.trailer pf data with
    | none =>
      simp only [WalFileInfo.loadInfo, hTrailer] at hLoad
      rw [scanRecords_loadFull hLoad] at hFull
      cases hFull
    | some e =>
      have hEnds := trailer_eq_some_iff.mp hTrailer
      obtain ⟨es, hStores, -⟩ := (loadInfo_eq_ok_iff hEnds).mp hLoad
      exact ⟨_, _, es, hEnds, hStores⟩
  · rintro ⟨pos, size, es, hEnds, hStores⟩
    exact ⟨_, (loadInfo_eq_ok_iff hEnds).mpr ⟨es, hStores, rfl⟩, rfl⟩

/-- Loading a directory writes behind a buffer exactly if it comes to such a file. -/
theorem scanAllWalFiles_overflow_iff {w : Wal} {entries : List (Nat × Bytes)} :
    scanAllWalFiles pf w entries = .error .overflow ↔ ReachesOverrun pf entries := by
  induction entries generalizing w with
  | nil => exact iff_of_false (fun h => by cases h) id
  | cons e rest ih =>
    obtain ⟨file, data⟩ := e
    rw [scanAllWalFiles, ReachesOverrun]
    by_cases hFile : file = 0
    · rw [if_pos hFile, ih]
      simp [hFile]
    · rw [if_neg hFile]
      have hOverruns : WalFileInfo.loadInfo pf { startIndex := file } data = .error .overflow ↔
          Overruns pf data := loadInfo_overflow_iff
      have hComplete : (∃ info, WalFileInfo.loadInfo pf { startIndex := file } data = .ok info ∧
          info.loadFull = true) ↔ Complete pf data := loadInfo_full_iff
      cases hLoad : WalFileInfo.loadInfo pf { startIndex := file } data with
      | error e =>
        rw [hLoad] at hOverruns hComplete
        have hNot : ¬ Complete pf data := by
          rw [← hComplete]
          rintro ⟨info, hOk, -⟩
          cases hOk
        rw [scanFile_error hLoad]
        show Except.error e = _ ↔ _
        simp only [hFile, hNot, ← hOverruns, ne_eq, not_false_eq_true, true_and, or_self,
          false_and, or_false]
        exact ⟨fun h => by cases h; rfl, fun h => by cases h; rfl⟩
      | ok info =>
        rw [hLoad] at hOverruns hComplete
        have hNot : ¬ Overruns pf data := by
          rw [← hOverruns]
          intro h
          cases h
        simp only [hFile, hNot, ne_eq, not_false_eq_true, and_false, false_or]
        cases rest with
        | nil =>
          -- The last file: nothing is read behind it.
          refine iff_of_false ?_ fun h => h.2
          cases hFull : info.loadFull with
          | true => simp [scanFile_full_last hLoad hFull, scanAllWalFiles, bind, Except.bind, pure,
              Except.pure]
          | false => simp [scanFile_open hLoad hFull, scanAllWalFiles, bind, Except.bind, pure,
              Except.pure]
        | cons e rest =>
          cases hFull : info.loadFull with
          | true =>
            rw [isEmpty_cons, scanFile_full hLoad hFull]
            refine ih.trans (and_iff_right ?_).symm
            exact hComplete.mp ⟨info, rfl, hFull⟩
          | false =>
            refine iff_of_false ?_ fun h => ?_
            · simp [scanFile, hLoad, hFull, bind, Except.bind, pure, Except.pure]
            · obtain ⟨info', hOk, hFull'⟩ := hComplete.mpr h.1
              cases hOk
              rw [hFull] at hFull'
              cases hFull'

-- Loading and reading

/-- Loading writes behind no buffer, and after it every call returns what the file has, or
reports failure. -/
def MemorySafe (pf : Platform) (dir : Dir) : Prop :=
  scanAllWalFiles pf {} dir.entries ≠ .error .overflow ∧
    ∀ s, initial pf dir = some s →
      (∀ idx, s.entryAtMem pf idx = .ok (s.entryAt pf idx)) ∧
        ∀ sidx eidx, s.logEntriesMem pf sidx eidx = .ok (s.logEntries pf sidx eidx)

/-- For every content of a directory: loading it and calling `entryAt` and `logEntries`
with any indices stays inside the buffers, exactly if no file with a negative index size
and more bytes than the least buffer is reached, and every length in the loaded index, and
every sum of lengths of one file's records, can be read. -/
theorem memorySafe_iff (pf : Platform) (dir : Dir) :
    MemorySafe pf dir ↔
      ¬ ReachesOverrun pf dir.entries ∧ ∀ s, initial pf dir = some s → s.ReadsFit pf := by
  refine and_congr (not_congr scanAllWalFiles_overflow_iff) ?_
  exact forall_congr' fun s => imp_congr_right fun _ => reads_eq_iff

/-- One record that is `2 ^ 31` bytes long, of which 304 are there. -/
def tornRecord : Bytes := [0x7f, 0xff, 0xff, 0xfc] ++ List.replicate 300 1

set_option maxRecDepth 4000 in
theorem loadInfo_tornRecord :
    WalFileInfo.loadInfo .constant { startIndex := 1 } tornRecord =
      .ok { startIndex := 1, lastIndex := 1, ivts := [(1, 2 ^ 31)] } := by
  decide

set_option maxRecDepth 4000 in
/-- Reading it writes all 304 bytes to a buffer of 256. -/
theorem entryAt_overruns :
    (∃ s, initial .constant ((∅ : Dir).emplace 1 tornRecord) = some s ∧
      s.entryAtMem .constant 1 = .error .overflow) ∧
    ¬ MemorySafe .constant ((∅ : Dir).emplace 1 tornRecord) := by
  have hScan : scanAllWalFiles .constant {} ((∅ : Dir).emplace 1 tornRecord).entries =
      scanAllWalFiles .constant {} [(1, tornRecord)] := rfl
  have hRead : ∃ s, initial .constant ((∅ : Dir).emplace 1 tornRecord) = some s ∧
      s.entryAtMem .constant 1 = .error .overflow := by
    rw [initial, hScan, scanAllWalFiles, if_neg (by decide), isEmpty_nil,
      scanFile_open loadInfo_tornRecord rfl]
    exact ⟨_, rfl, rfl⟩
  refine ⟨hRead, fun hSafe => ?_⟩
  obtain ⟨s, hInit, hOverrun⟩ := hRead
  have hEntry := (hSafe.2 s hInit).1 1
  rw [hOverrun] at hEntry
  cases hEntry

end Session

end MyBase
