import MyBase.Wal.Format

/-!
# MyBase — loading arbitrary bytes

`Wal.Format` says what loading makes of the files the log itself writes. Here
nothing is assumed about the bytes: a payload is arbitrary, so the end of an
unrotated file can look like a trailer, and a crash can leave any prefix of a
record behind.

* `EndsInTrailer` / `StoresIndex` — what the loader accepts, said about the
  bytes alone: the file ends in eight bytes and their md5, and at the position
  they name stands a serialised index;
* `loadInfo_eq_ok_iff` — a file with a trailer loads exactly when it stores an
  index, and with that index.
-/

namespace MyBase

open Lib List

-- The trailer

/-- The last bytes are the position and the length of an index, and their md5. -/
def EndsInTrailer (pf : Platform) (file : Bytes) (pos size : Nat) : Prop :=
  pos < 2 ^ 32 ∧ size < 2 ^ 32 ∧
    ∃ body, body ≠ [] ∧
      file = body ++ (be 4 pos ++ be 4 size) ++ pf.md5AndEncode (be 4 pos ++ be 4 size)

/-- When a file is taken to end in a trailer. -/
theorem trailer_eq_some_iff {pf : Platform} {file : Bytes} {pos size : Nat} :
    WalFileInfo.trailer pf file = some (pos, size) ↔ EndsInTrailer pf file pos size := by
  constructor
  · intro h
    unfold WalFileInfo.trailer at h
    split_ifs at h with hShort
    set buf := pread file (file.length - 73) 73 with hBuf
    simp only at h
    split_ifs at h with hMd5
    have hLen : buf.length = 73 := by
      rw [hBuf, pread_length_eq_iff]
      omega
    have hTake4 : (buf.take 4).length = 4 := by
      rw [length_take]
      omega
    have hMid4 : ((buf.drop 4).take 4).length = 4 := by
      rw [length_take, length_drop]
      omega
    obtain ⟨hPos, hSize⟩ := Prod.mk.inj (Option.some.inj h)
    have hBe : be 4 pos = buf.take 4 := by
      have := be_ofBe (buf.take 4)
      rwa [hTake4, hPos] at this
    have hBe' : be 4 size = (buf.drop 4).take 4 := by
      have := be_ofBe ((buf.drop 4).take 4)
      rwa [hMid4, hSize] at this
    -- the md5 is that of the eight bytes in front of it
    have hKey : be 4 pos ++ be 4 size = buf.take 8 := by
      rw [hBe, hBe', show (8 : Nat) = 4 + 4 from rfl, take_add]
    refine ⟨?_, ?_, file.take (file.length - 73), ?_, ?_⟩
    · have := ofBe_lt (buf.take 4)
      rw [hTake4, hPos] at this
      omega
    · have := ofBe_lt ((buf.drop 4).take 4)
      rw [hMid4, hSize] at this
      omega
    · apply ne_nil_of_length_pos
      rw [length_take]
      omega
    · have hRest : buf = file.drop (file.length - 73) := by
        rw [hBuf, pread, take_of_length_le]
        rw [length_drop]
        omega
      rw [hKey, hMd5, append_assoc, take_append_drop, hRest, take_append_drop]
  · rintro ⟨hPos, hSize, body, hBody, rfl⟩
    rw [trailer_append pf hBody _ (by simp)]
    have hTake : (be 4 pos ++ be 4 size).take 4 = be 4 pos := by simp
    have hDrop : (be 4 pos ++ be 4 size).drop 4 = be 4 size := by simp
    rw [hTake, hDrop, ofBe_be_of_lt (by simpa using hPos), ofBe_be_of_lt (by simpa using hSize)]

theorem trailer_eq_none_iff {pf : Platform} {file : Bytes} :
    WalFileInfo.trailer pf file = none ↔ ∀ pos size, ¬EndsInTrailer pf file pos size := by
  constructor
  · intro h pos size hEnds
    rw [trailer_eq_some_iff.mpr hEnds] at h
    cases h
  · intro h
    cases hTrailer : WalFileInfo.trailer pf file with
    | none => rfl
    | some e => exact absurd (trailer_eq_some_iff.mp hTrailer) (h e.1 e.2)

-- The index

/-- What loading does with one index entry. -/
def addEntry (info : WalFileInfo) (e : Nat × Nat) : WalFileInfo :=
  { info with
    ivts := emplaceIvt info.ivts e.1 e.2
    lastIndex := if info.lastIndex < e.1 then e.1 else info.lastIndex }

/-- The greatest index an index has an entry for. -/
def greatestIndex (es : List (Nat × Nat)) : Nat := (es.map Prod.fst).foldl max 0

section foldl_addEntry

variable (info : WalFileInfo) (es : List (Nat × Nat))

@[simp] theorem foldl_addEntry_startIndex :
    (es.foldl addEntry info).startIndex = info.startIndex := by
  induction es generalizing info with
  | nil => rfl
  | cons e es ih => rw [foldl_cons, ih]; rfl

theorem foldl_addEntry_lastIndex :
    (es.foldl addEntry info).lastIndex = (es.map Prod.fst).foldl max info.lastIndex := by
  induction es generalizing info with
  | nil => rfl
  | cons e es ih =>
    rw [foldl_cons, ih, map_cons, foldl_cons]
    congr 1
    show (if info.lastIndex < e.1 then e.1 else info.lastIndex) = max info.lastIndex e.1
    split_ifs <;> omega

/-- Of several entries for one index the first counts. -/
theorem foldl_addEntry_lookup (i : Nat) :
    (es.foldl addEntry info).ivts.lookup i = (info.ivts.lookup i).or (es.lookup i) := by
  induction es generalizing info with
  | nil => simp
  | cons e es ih =>
    rw [foldl_cons, ih]
    show ((emplaceIvt info.ivts e.1 e.2).lookup i).or (es.lookup i) = _
    unfold emplaceIvt
    by_cases hPresent : (info.ivts.lookup e.1).isSome
    · rw [if_pos hPresent]
      obtain ⟨v, hv⟩ := Option.isSome_iff_exists.mp hPresent
      by_cases hi : i = e.1
      · subst hi
        simp [hv]
      · have hBeq : (i == e.1) = false := by simpa using hi
        obtain ⟨k, w⟩ := e
        simp only at hBeq
        rw [List.lookup, hBeq]
    · rw [if_neg hPresent, lookup_append]
      have hNone : info.ivts.lookup e.1 = none := Option.not_isSome_iff_eq_none.mp hPresent
      obtain ⟨k, w⟩ := e
      simp only at hNone ⊢
      by_cases hi : i = k
      · subst hi
        simp [hNone, List.lookup]
      · have hBeq : (i == k) = false := by simpa using hi
        simp [List.lookup, hBeq]

end foldl_addEntry

/-- At `pos` stand `size` bytes that hold the serialised index `es`, no more than a buffer
can have. -/
def StoresIndex (file : Bytes) (pos size : Nat) (es : List (Nat × Nat)) : Prop :=
  size ≤ 2 ^ 30 ∧ (pread file pos size).length = size ∧ es.length < 2 ^ 32 ∧
    (∀ e ∈ es, e.1 < 2 ^ 64 ∧ e.2 < 2 ^ 64) ∧
    ∃ rest, pread file pos size =
      be 4 es.length ++ ((es.flatMap fun e => be 8 e.1 ++ be 8 e.2) ++ rest)

variable {info info' : WalFileInfo} {buf file : Bytes} {pos size : Nat}

/-- Reading `count` entries succeeds exactly on the serialisation of as many. -/
theorem readIndex_eq_ok_iff {count : Nat} :
    WalFileInfo.readIndex count buf info = .ok info' ↔
      ∃ (es : List (Nat × Nat)) (rest : Bytes), es.length = count ∧
        (∀ e ∈ es, e.1 < 2 ^ 64 ∧ e.2 < 2 ^ 64) ∧
        buf = (es.flatMap fun e => be 8 e.1 ++ be 8 e.2) ++ rest ∧
        info' = es.foldl addEntry info := by
  -- one entry is sixteen bytes
  induction count generalizing buf info with
  | zero =>
    constructor
    · intro h
      cases h
      exact ⟨[], buf, rfl, by simp, rfl, rfl⟩
    · rintro ⟨es, rest, hLen, _, _, rfl⟩
      rw [length_eq_zero_iff.mp hLen]
      rfl
  | succ count ih =>
    constructor
    · intro h
      rw [WalFileInfo.readIndex] at h
      cases hSeq : readInt 8 buf with
      | none => simp [hSeq] at h
      | some r =>
        obtain ⟨seq, buf₁⟩ := r
        simp only [hSeq] at h
        cases hIdx : readInt 8 buf₁ with
        | none => simp [hIdx] at h
        | some r =>
          obtain ⟨idx, buf₂⟩ := r
          simp only [hIdx] at h
          obtain ⟨es, rest, hLen, hFit, hBuf, hInfo⟩ := ih.mp h
          obtain ⟨hSeqLt, hBuf₁⟩ := readInt_eq_some_iff.mp hSeq
          obtain ⟨hIdxLt, hBuf₂⟩ := readInt_eq_some_iff.mp hIdx
          refine ⟨(seq, idx) :: es, rest, by simp [hLen], ?_, ?_, hInfo⟩
          · intro e he
            rcases mem_cons.mp he with rfl | he
            · exact ⟨by simpa using hSeqLt, by simpa using hIdxLt⟩
            · exact hFit e he
          · rw [hBuf₁, hBuf₂, hBuf, flatMap_cons]
            simp only [append_assoc]
    · rintro ⟨es, rest, hLen, hFit, rfl, rfl⟩
      cases es with
      | nil => simp at hLen
      | cons e es =>
        obtain ⟨hSeq, hIdx⟩ := hFit e (mem_cons_self ..)
        rw [flatMap_cons, append_assoc, append_assoc, WalFileInfo.readIndex,
          readInt_be_append (by simpa using hSeq)]
        simp only
        rw [readInt_be_append (by simpa using hIdx)]
        simp only
        exact ih.mpr ⟨es, rest, by simpa using hLen,
          fun x hx => hFit x (mem_cons_of_mem _ hx), rfl, rfl⟩

/-- When an index can be read. -/
theorem readStored_eq_ok_iff :
    info.readStored buf = .ok info' ↔
      ∃ es : List (Nat × Nat), es.length < 2 ^ 32 ∧ (∀ e ∈ es, e.1 < 2 ^ 64 ∧ e.2 < 2 ^ 64) ∧
        (∃ rest, buf = be 4 es.length ++ ((es.flatMap fun e => be 8 e.1 ++ be 8 e.2) ++ rest)) ∧
        info' = { es.foldl addEntry info with loadFull := true } := by
  unfold WalFileInfo.readStored
  constructor
  · intro h
    cases hCount : readInt 4 buf with
    | none => simp [hCount] at h
    | some r =>
      obtain ⟨count, rest⟩ := r
      simp only [hCount] at h
      obtain ⟨hCountLt, hBuf⟩ := readInt_eq_some_iff.mp hCount
      cases hRead : WalFileInfo.readIndex count rest info with
      | error e => simp [hRead, Except.map] at h
      | ok loaded =>
        obtain ⟨es, rest, hLen, hFit, hEntries, hLoaded⟩ := readIndex_eq_ok_iff.mp hRead
        rw [hRead] at h
        refine ⟨es, ?_, hFit, ⟨rest, ?_⟩, ?_⟩
        · rw [hLen]
          simpa using hCountLt
        · rw [hBuf, hLen, hEntries]
        · rw [← hLoaded]
          exact (Except.ok.inj h).symm
  · rintro ⟨es, hCount, hFit, ⟨rest, rfl⟩, rfl⟩
    rw [readInt_be_append (by simpa using hCount)]
    simp only
    rw [readIndex_eq_ok_iff.mpr ⟨es, rest, rfl, hFit, rfl, rfl⟩]
    rfl

/-- When the index of a trailer can be read. -/
theorem loadIndex_eq_ok_iff :
    WalFileInfo.loadIndex info file pos size = .ok info' ↔
      ∃ es, StoresIndex file pos size es ∧
        info' = { es.foldl addEntry info with loadFull := true } := by
  unfold WalFileInfo.loadIndex
  by_cases hReadable : WalFileInfo.Readable file pos size
  · rw [WalFileInfo.readBuffer_of_readable hReadable]
    by_cases hThere : size ≤ file.length - pos
    · rw [if_pos hThere]
      have hSize : size ≤ 2 ^ 30 := by
        rcases hReadable with hSize | hFew <;> omega
      show info.readStored _ = _ ↔ _
      rw [readStored_eq_ok_iff]
      constructor
      · rintro ⟨es, hCount, hFit, hBuf, hInfo⟩
        exact ⟨es, ⟨hSize, pread_length_eq_iff.mpr hThere, hCount, hFit, hBuf⟩, hInfo⟩
      · rintro ⟨es, ⟨-, -, hCount, hFit, hBuf⟩, hInfo⟩
        exact ⟨es, hCount, hFit, hBuf, hInfo⟩
    · rw [if_neg hThere]
      exact iff_of_false (fun h => by cases h) fun ⟨_, hStores, _⟩ =>
        hThere (pread_length_eq_iff.mp hStores.2.1)
  · rw [WalFileInfo.readBuffer_of_not_readable hReadable]
    exact iff_of_false (fun h => by cases h) fun ⟨_, hStores, _⟩ =>
      hReadable (.inl hStores.1)

/-- **Loading a file that ends in a trailer** succeeds exactly when an index
stands where the trailer points, and takes that index. -/
theorem loadInfo_eq_ok_iff {pf : Platform} (h : EndsInTrailer pf file pos size) :
    WalFileInfo.loadInfo pf info file = .ok info' ↔
      ∃ es, StoresIndex file pos size es ∧
        info' = { es.foldl addEntry info with loadFull := true } := by
  unfold WalFileInfo.loadInfo
  rw [trailer_eq_some_iff.mpr h]
  exact loadIndex_eq_ok_iff

-- A file cut inside its last record

/-- The records `recs` and the first `c` bytes of one more. -/
def cutFile (recs : List Bytes) (p : Bytes) (c : Nat) : Bytes :=
  frames recs ++ (frame p).take c

section cutFile

variable {recs : List Bytes} {p : Bytes} {c : Nat}

theorem cutFile_length (recs : List Bytes) (hc : c < 4 + p.length) :
    (cutFile recs p c).length = (frames recs).length + c := by
  rw [cutFile, length_append, length_take, frame_length]
  omega

theorem cutFile_zero (recs : List Bytes) (p : Bytes) : cutFile recs p 0 = frames recs := by
  simp [cutFile]

/-- The walk over the complete records; it stops in front of the cut one. -/
theorem scanRecords_cut (recs : List Bytes) (start : Nat) (hc : c < 4 + p.length) (hPos : 0 < c)
    (hBytes : (frames recs).length < 2 ^ 32) :
    ∃ fuel, WalFileInfo.scanRecords (cutFile recs p c) ((cutFile recs p c).length + 1) start 0
        { startIndex := start } =
      WalFileInfo.scanRecords (cutFile recs p c) (fuel + 2) (start + recs.length)
        (frames recs).length
        { startIndex := start
          ivts := ivtsFrom start 0 recs
          lastIndex := if recs = [] then 0 else start + recs.length - 1 } := by
  have hCount := four_mul_length_le_frames recs
  have hLen := cutFile_length recs hc
  have h := scanRecords_frames [] recs ((frame p).take c) ((cutFile recs p c).length + 1) start
    { startIndex := start } (by simpa using hBytes) rfl (by omega)
  simp only [nil_append, length_nil, Nat.add_zero, frames_nil] at h
  refine ⟨(cutFile recs p c).length - 1 - recs.length, ?_⟩
  have hFuel : (cutFile recs p c).length - 1 - recs.length + 2 =
      (cutFile recs p c).length + 1 - recs.length := by omega
  rw [hFuel]
  exact h

/-- Cut inside the length: the loader fails. -/
theorem loadInfo_cut_length {pf : Platform} {start : Nat} (hPos : 0 < c) (hc : c < 4)
    (hBytes : (frames recs).length < 2 ^ 32)
    (hTrailer : WalFileInfo.trailer pf (cutFile recs p c) = none) :
    WalFileInfo.loadInfo pf { startIndex := start } (cutFile recs p c) =
      .error .shortRead := by
  have hCut : c < 4 + p.length := by omega
  have hLen := cutFile_length recs hCut
  obtain ⟨fuel, hScan⟩ := scanRecords_cut recs start hCut hPos hBytes
  have hRead : (pread (cutFile recs p c) (frames recs).length 4).length ≠ 4 := by
    rw [pread_length]
    omega
  unfold WalFileInfo.loadInfo
  rw [hTrailer]
  simp only
  rw [hScan, WalFileInfo.scanRecords, if_pos (by omega)]
  simp only [if_pos hRead]

/-- Cut behind the length: the loader counts the record that is not there. -/
theorem loadInfo_cut_body {pf : Platform} {start : Nat} (hPos : 4 ≤ c)
    (hc : c < 4 + p.length) (hBytes : (frames recs).length + (4 + p.length) < 2 ^ 32)
    (hTrailer : WalFileInfo.trailer pf (cutFile recs p c) = none) :
    WalFileInfo.loadInfo pf { startIndex := start } (cutFile recs p c) =
      .ok { startIndex := start
            ivts := ivtsFrom start 0 (recs ++ [p])
            lastIndex := start + recs.length } := by
  have hLen := cutFile_length recs hc
  obtain ⟨fuel, hScan⟩ := scanRecords_cut recs start hc (by omega) (by omega)
  have hRead : pread (cutFile recs p c) (frames recs).length 4 = be 4 p.length := by
    have hTake : (frame p).take c = be 4 p.length ++ p.take (c - 4) := by
      rw [frame, take_append, be_length, take_of_length_le (by simpa using hPos)]
    have hMid := pread_append_mid (frames recs) (be 4 p.length) (p.take (c - 4))
    rw [be_length] at hMid
    rw [cutFile, hTake, ← append_assoc, hMid]
  have hNew : ((ivtsFrom start 0 recs).lookup (start + recs.length)).isSome = false := by
    rw [lookup_ivtsFrom_none (Or.inr (le_refl _))]
    rfl
  have hSize : (4 + ofBe (be 4 p.length)) % 2 ^ 32 = 4 + p.length := by
    rw [ofBe_be_of_lt (by omega), Nat.mod_eq_of_lt (by omega)]
  unfold WalFileInfo.loadInfo
  rw [hTrailer]
  simp only
  rw [hScan, WalFileInfo.scanRecords, if_pos (by omega)]
  simp only [hRead, be_length, hSize, emplaceIvt, hNew, ne_eq, not_true_eq_false,
    Bool.false_eq_true, if_false]
  rw [Nat.mod_eq_of_lt (by omega), WalFileInfo.scanRecords, if_neg (by omega)]
  simp [ivtsFrom_append, ivtsFrom]

end cutFile

end MyBase
