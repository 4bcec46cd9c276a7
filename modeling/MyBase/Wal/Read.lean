import MyBase.Wal.Refine

/-!
# MyBase — reading the log

`entryAt` and `logEntries` on a session that stores an abstract log. A read
finds the file through `walFiles`, the position through the file's index and
the bytes through one `pread`; `Located` names what the three steps find for an
index, and the two reads are computed from it.

Main results:

* `Represents.entryAt` — a single read returns the record with its length in
  front, and nothing outside the log;
* `Represents.logEntries` — a bulk read returns the records of one file;
* `appendAll_reads_back` — both, for a log written from an empty directory.
-/

namespace MyBase

open Lib List

-- One index entry

/-- The entry `ivt` of an index locates the bytes `buf` of the file. -/
def Locates (file : Bytes) (ivt : Nat) (buf : Bytes) : Prop :=
  ivtLength ivt = buf.length ∧ pread file (ivtPos ivt) (ivtLength ivt) = buf

variable {pf : Platform} {s : Session} {i start : Nat} {info : WalFileInfo}

/-- What `entryAt` returns once the file is found: the bytes the index entry
locates, if it is not zero. -/
theorem entryAt_eq_some_iff {key ptr : Nat} {buf : Bytes} (hStart : s.wal.startIdx ≤ i)
    (hLast : i ≤ s.wal.lastIdx) (hKey : s.wal.walFiles.lowerBound i = some (key, ptr))
    (hInfo : s.wal.infos[ptr]? = some info) (hNormal : info.status = .normal) (hBuf : buf ≠ []) :
    s.entryAt pf i = some buf ↔
      ∃ ivt, info.ivts.lookup i = some ivt ∧
        Locates (fileData s.dir info.startIndex) ivt buf := by
  have hIvt : s.ivtAt pf ptr i = (info.ivts.lookup i).getD 0 := by
    simp [Session.ivtAt, hInfo, WalFileInfo.getIvtIndex, WalFileInfo.ensureNormal, hNormal]
  have hData : s.dataAt ptr = fileData s.dir info.startIndex := by
    simp [Session.dataAt, hInfo]
  have hPos : 0 < buf.length := length_pos_iff.mpr hBuf
  have hGuard : ¬(i < s.wal.startIdx ∨ s.wal.lastIdx < i) := by omega
  unfold Session.entryAt Locates
  simp only [hKey, hIvt, hData, if_neg hGuard]
  cases hLookup : info.ivts.lookup i with
  | none => simp
  | some ivt =>
    simp only [Option.getD_some]
    by_cases hZero : ivt = 0
    · -- a zero entry stands for "no entry"; its length cannot be that of `buf`
      rw [if_pos hZero]
      constructor
      · intro h
        cases h
      · rintro ⟨ivt', hIvt', hLen, _⟩
        cases hIvt'
        rw [hZero] at hLen
        simp only [ivtLength] at hLen
        omega
    · rw [if_neg hZero]
      constructor
      · intro h
        split_ifs at h with hShort
        have hEq := Option.some.inj h
        refine ⟨ivt, rfl, ?_, hEq⟩
        rw [← hEq]
        exact (not_not.mp hShort).symm
      · rintro ⟨ivt', hIvt', hLen, hRead⟩
        cases hIvt'
        rw [hRead, if_neg (by simp [hLen])]

theorem entryAt_eq_none (h : i < s.wal.startIdx ∨ s.wal.lastIdx < i) : s.entryAt pf i = none := by
  unfold Session.entryAt
  rw [if_pos h]

@[simp] theorem frame_ne_nil (p : Bytes) : frame p ≠ [] := by
  apply ne_nil_of_length_pos
  rw [frame_length]
  omega

/-- The index of a file locates each of its records, whatever follows them. -/
theorem InfoOf.locates {j : Nat} {recs : List Bytes} {p : Bytes} (h : InfoOf info start recs)
    (hBytes : (frames recs).length < 2 ^ 31) (hGet : recs[j]? = some p) (suffix : Bytes) :
    info.ivts.lookup (start + j) =
        some (packIvt (frames (recs.take j)).length (4 + p.length)) ∧
      Locates (frames recs ++ suffix)
        (packIvt (frames (recs.take j)).length (4 + p.length)) (frame p) := by
  have hLookup : info.ivts.lookup (start + j) =
      some (packIvt (frames (recs.take j)).length (4 + p.length)) := by
    rw [lookup_perm h.ivts (ivtsFrom_keys_nodup ..), lookup_ivtsFrom hGet]
    simp
  have hRead := pread_frames hGet suffix
  -- the record ends inside the file, so position and length fit their halves
  have hEnd : (frames (recs.take j)).length + (4 + p.length) ≤ (frames recs).length := by
    obtain ⟨hj, rfl⟩ := List.getElem?_eq_some_iff.mp hGet
    have hSplit : recs = recs.take j ++ recs[j] :: recs.drop (j + 1) := by
      rw [← drop_eq_getElem_cons hj, take_append_drop]
    have hLen := congrArg (fun l => (frames l).length) hSplit
    simp only [frames_append, frames_cons, length_append, frame_length] at hLen
    omega
  refine ⟨hLookup, ?_, ?_⟩
  · rw [ivtLength_packIvt (by omega), frame_length]
  · rw [ivtPos_packIvt (by omega) (by omega), ivtLength_packIvt (by omega), hRead]

-- Finding the file of an index

/-- What the search for index `i` finds: the entry `(key, ptr)` of `walFiles`,
the heap entry behind it, and the file with the records `recs` from index
`start` on. `pre` are the records before them in the log. -/
structure Located (s : Session) (b : Base) (l : SegLog Bytes) (i : Nat) where
  key : Nat
  ptr : Nat
  info : WalFileInfo
  pre : List Bytes
  recs : List Bytes
  post : List Bytes
  suffix : Bytes
  key_eq : s.wal.walFiles.lowerBound i = some (key, ptr)
  info_eq : s.wal.infos[ptr]? = some info
  infoOf : InfoOf info (b.start + pre.length) recs
  bytes : (frames recs).length < 2 ^ 31
  data_eq : fileData s.dir info.startIndex = frames recs ++ suffix
  log_eq : l.entries = pre ++ recs ++ post
  ge : b.start + pre.length ≤ i
  lt : i < b.start + pre.length + recs.length
  /-- The key is the last index of the file, or the sentinel of the last file. -/
  key_end : key = b.start + pre.length + recs.length - 1 ∨
    (key = sMaxLogIndex ∧ post = [])
  seg_end : l.segEnd (i + 1 - b.start) = pre.length + recs.length
  seg_at : l.segAt (i + 1 - b.start) = (pre.length, recs)

theorem fileData_of_mem {dir : Dir} {file : Nat} {data : Bytes}
    (h : (file, data) ∈ dir.entries) : fileData dir file = data := by
  rw [fileData, OrdMap.find?_of_mem h]
  rfl

theorem ClosedFits.bytes_lt {pre post : List (List Bytes)} {seg : List Bytes}
    (h : ClosedFits start (pre ++ seg :: post)) : (frames seg).length < 2 ^ 31 := by
  rw [closedFits_append] at h
  exact h.2.1.bytes

namespace Represents

variable {pf : Platform} {b : Base} {s : Session} {l : SegLog Bytes}

section Reads

variable (h : Represents pf b s l)
include h

theorem cur_lt : (frames l.cur).length < 2 ^ 31 := by
  have := h.cur_le
  simp only [rotateSize] at this
  omega

/-- An index of a closed file; the list of files is split there. -/
theorem locate_closed {i : Nat} (hGe : b.start ≤ i)
    (hClosed : i < b.start + l.closed.flatten.length) : Nonempty (Located s b l i) := by
  obtain ⟨infos, curInfo, hInfos, hClosedInfos, -⟩ := h.holds.infos_eq
  obtain ⟨pre, seg, post, hSplit, hLo, hHi⟩ :=
    SegLog.exists_segment (i := i + 1 - b.start) (by omega)
      (show i + 1 - b.start ≤ l.closed.flatten.length by omega)
  have hFits := h.holds.fits
  have hNe := l.closed_ne
  rw [hSplit] at hClosedInfos hFits hNe
  obtain ⟨info, hGet, hInfoOf⟩ := hClosedInfos.getElem?
  have hPre : pre.length < infos.length := (List.getElem?_eq_some_iff.mp hGet).1
  -- the key of the segment, with the other keys around it
  have hKeys : s.wal.walFiles.entries =
      (b.keys ++ closedKeys b.start b.infos.length pre) ++
        (b.start + pre.flatten.length + seg.length - 1, b.infos.length + pre.length) ::
        (closedKeys (b.start + pre.flatten.length + seg.length)
            (b.infos.length + pre.length + 1) post ++
          [(sMaxLogIndex, b.infos.length + l.closed.length)]) := by
    rw [h.holds.walFiles_eq, hSplit, closedKeys_append, closedKeys]
    simp only [append_assoc, cons_append]
  have hFile : (b.start + pre.flatten.length, sealedFile pf (b.start + pre.flatten.length) seg) ∈
      s.dir.entries := by
    rw [h.holds.dir_eq, hSplit, closedFiles_append, closedFiles]
    simp
  refine ⟨{
    key := b.start + pre.flatten.length + seg.length - 1
    ptr := b.infos.length + pre.length
    info := info
    pre := pre.flatten
    recs := seg
    post := post.flatten ++ l.cur
    suffix := sealBytes pf (b.start + pre.flatten.length) seg
    key_eq := OrdMap.lowerBound_append hKeys ?_ ?_
    info_eq := ?_
    infoOf := hInfoOf
    bytes := hFits.bytes_lt
    data_eq := ?_
    log_eq := ?_
    ge := by omega
    lt := by omega
    key_end := Or.inl rfl
    seg_end := ?_
    seg_at := ?_ }⟩
  · intro e he
    rcases mem_append.mp he with he | he
    · have := b.keys_lt e he
      omega
    · have := mem_closedKeys_key (fun x hx => hNe x (mem_append_left _ hx)) he
      omega
  · show i ≤ b.start + pre.flatten.length + seg.length - 1
    omega
  · rw [hInfos, append_assoc, getElem?_append_right (by omega),
      Nat.add_sub_cancel_left, getElem?_append_left hPre, hGet]
  · rw [hInfoOf.start_eq, fileData_of_mem hFile, sealedFile]
  · rw [SegLog.entries, hSplit]
    simp only [flatten_append, flatten_cons, append_assoc]
  · rw [SegLog.segEnd_of_segment hSplit (by omega) (by omega)]
  · rw [SegLog.segAt, hSplit, SegLog.segAtFrom_of_segment (by omega) (by omega), Nat.zero_add]

/-- An index of the current file, behind the sentinel key. -/
theorem locate_cur {i : Nat} (hCur : b.start + l.closed.flatten.length ≤ i)
    (hLe : i ≤ s.wal.lastIdx) : Nonempty (Located s b l i) := by
  obtain ⟨infos, curInfo, hInfos, hClosedInfos, hStart, hNormal, hIvts⟩ := h.holds.infos_eq
  have hLast := h.lastIdx_eq
  have hIndex := h.index_le
  have hLength := l.lastIdx_eq
  have hFile : (b.start + l.closed.flatten.length, frames l.cur) ∈ s.dir.entries := by
    rw [h.holds.dir_eq]
    simp
  refine ⟨{
    key := sMaxLogIndex
    ptr := b.infos.length + l.closed.length
    info := curInfo
    pre := l.closed.flatten
    recs := l.cur
    post := []
    suffix := []
    key_eq := OrdMap.lowerBound_append h.holds.walFiles_eq ?_ ?_
    info_eq := ?_
    infoOf := ⟨hStart, hNormal, by rw [hIvts]⟩
    bytes := h.cur_lt
    data_eq := ?_
    log_eq := by simp [SegLog.entries]
    ge := by omega
    lt := by omega
    key_end := Or.inr ⟨rfl, rfl⟩
    seg_end := ?_
    seg_at := ?_ }⟩
  · intro e he
    have := h.holds.key_lt he
    omega
  · simp only [sMaxLogIndex]
    simp only [maxIndex] at hIndex
    omega
  · rw [hInfos, ← hClosedInfos.length_eq, ← length_append]
    simp
  · rw [hStart, fileData_of_mem hFile, append_nil]
  · rw [SegLog.segEnd, SegLog.segEndFrom_of_gt (by omega)]
    exact hLength
  · rw [SegLog.segAt, SegLog.segAtFrom_of_gt (by omega), Nat.zero_add]

/-- Every index from the base on is in a closed file or in the current one. -/
theorem locate {i : Nat} (hGe : b.start ≤ i) (hLe : i ≤ s.wal.lastIdx) :
    Nonempty (Located s b l i) := by
  by_cases hClosed : i < b.start + l.closed.flatten.length
  · exact h.locate_closed hGe hClosed
  · exact h.locate_cur (by omega) hLe

/-- **A single read** returns the record of the abstract log, its length in front. -/
theorem entryAt {i : Nat} (hGe : b.start ≤ i) :
    s.entryAt pf i = (l.entryAt (i + 1 - b.start)).map frame := by
  have hLast := h.lastIdx_eq
  have hStartPos := b.start_pos
  have hStartIdx := h.holds.startIdx_eq
  by_cases hLe : i ≤ s.wal.lastIdx
  · obtain ⟨L⟩ := h.locate hGe hLe
    have hLo := L.ge
    have hHi := L.lt
    obtain ⟨p, hp⟩ : ∃ p, L.recs[i - (b.start + L.pre.length)]? = some p :=
      ⟨_, getElem?_eq_getElem (by omega)⟩
    have hAt : b.start + L.pre.length + (i - (b.start + L.pre.length)) = i := by omega
    obtain ⟨hLookup, hLocates⟩ := L.infoOf.locates L.bytes hp L.suffix
    rw [hAt] at hLookup
    have hAbstract : l.entryAt (i + 1 - b.start) = some p := by
      rw [SegLog.entryAt_eq_some, L.log_eq, append_assoc]
      refine ⟨by omega, ?_⟩
      rw [getElem?_append_right (by omega), getElem?_append_left (by omega)]
      have hIdx : i + 1 - b.start - 1 - L.pre.length = i - (b.start + L.pre.length) := by omega
      rw [hIdx, hp]
    rw [hAbstract, Option.map_some,
      entryAt_eq_some_iff (by omega) hLe L.key_eq L.info_eq L.infoOf.normal (frame_ne_nil p)]
    refine ⟨_, hLookup, ?_⟩
    rw [L.data_eq]
    exact hLocates
  · have hNone : l.entryAt (i + 1 - b.start) = none := by
      unfold SegLog.entryAt
      rw [if_pos (by omega)]
    rw [hNone, entryAt_eq_none (by omega)]
    rfl

end Reads

/-- A single read of a log that starts at index 1. -/
theorem entryAt_of_get (h : Represents pf .empty s l) {i : Nat} (hi : 1 ≤ i) {p : Bytes}
    (hp : l.entries[i - 1]? = some p) : s.entryAt pf i = some (frame p) := by
  rw [h.entryAt (b := .empty) hi]
  show (l.entryAt i).map frame = _
  rw [SegLog.entryAt_eq_some.mpr ⟨hi, hp⟩]
  rfl

end Represents

-- Bulk reads

variable {s : Session} {l : SegLog Bytes} {b : Base} {i : Nat} {pf : Platform}

/-- Collecting the lengths of consecutive records of one file: the start is
where the first of them stands and the total is all their bytes. -/
theorem collect_records (pf : Platform) {ptr start : Nat} {info : WalFileInfo}
    (hInfo : s.wal.infos[ptr]? = some info) (pre mid post : List Bytes)
    (hInfoOf : InfoOf info start (pre ++ mid ++ post))
    (hBytes : (frames (pre ++ mid ++ post)).length < 2 ^ 31) (startPos total : Nat)
    (lengths : List Nat) (hTotal : total + (frames mid).length < 2 ^ 32) :
    s.collect pf ptr (List.range' (start + pre.length) mid.length) startPos total lengths =
      some (if mid = [] ∨ startPos ≠ 0xFFFFFFFF then startPos else (frames pre).length,
        total + (frames mid).length, lengths ++ mid.map fun p => (frame p).length) := by
  -- along the loop the records move from `mid` to `pre`
  induction mid generalizing pre startPos total lengths with
  | nil => simp [Session.collect]
  | cons p mid ih =>
    have hGet : (pre ++ p :: mid ++ post)[pre.length]? = some p := by simp
    have hTake : (pre ++ p :: mid ++ post).take pre.length = pre := by simp
    obtain ⟨hLookup, hLocates⟩ := hInfoOf.locates hBytes hGet []
    rw [hTake] at hLookup hLocates
    have hFits : (frames pre).length + (4 + p.length) < 2 ^ 31 := by
      simp only [frames_append, frames_cons, length_append, frame_length] at hBytes
      omega
    have hIvt : s.ivtAt pf ptr (start + pre.length) =
        packIvt (frames pre).length (4 + p.length) := by
      simp [Session.ivtAt, hInfo, WalFileInfo.getIvtIndex, WalFileInfo.ensureNormal,
        hInfoOf.normal, hLookup]
    have hStep : List.range' (start + pre.length) (p :: mid).length =
        (start + pre.length) :: List.range' (start + (pre ++ [p]).length) mid.length := by
      rw [length_cons, range'_succ, length_append, length_singleton,
        Nat.add_assoc]
    rw [frames_cons, length_append, frame_length] at hTotal
    have hMove : pre ++ p :: mid ++ post = pre ++ [p] ++ mid ++ post := by simp
    rw [hStep, Session.collect]
    have hSize : 4 + p.length < 2 ^ 32 := by omega
    have hNonzero : packIvt (frames pre).length (4 + p.length) ≠ 0 :=
      packIvt_ne_zero hSize (by omega)
    have hPos : ivtPos (packIvt (frames pre).length (4 + p.length)) = (frames pre).length :=
      ivtPos_packIvt (by omega) hSize
    have hLength : ivtLength (packIvt (frames pre).length (4 + p.length)) = 4 + p.length :=
      ivtLength_packIvt hSize
    simp only [hIvt, if_neg hNonzero, hPos, hLength]
    rw [Nat.mod_eq_of_lt (by omega), ih (pre ++ [p]) (by rw [← hMove]; exact hInfoOf)
      (by rw [← hMove]; exact hBytes) _ _ _ (by omega)]
    congr 2
    · -- the start position is set by the first record and never again
      by_cases hUnset : startPos = 0xFFFFFFFF
      · have hNe : (frames pre).length ≠ 0xFFFFFFFF := by omega
        simp [hUnset, hNe]
      · simp [hUnset]
    · simp [Nat.add_assoc]

theorem cutBuffer_frames (recs : List Bytes) :
    Session.cutBuffer (recs.map fun p => (frame p).length) (frames recs) = recs.map frame := by
  induction recs with
  | nil => rfl
  | cons p rest ih =>
    rw [map_cons, Session.cutBuffer, frames_cons, take_left, drop_left, ih,
      map_cons]

/-- The records of a file from the one at `i` on, at most up to `e`. -/
theorem Located.records_split (L : Located s b l i) {n : Nat}
    (hn : n ≤ b.start + L.pre.length + L.recs.length - i) :
    ∃ pre mid post, L.recs = pre ++ mid ++ post ∧
      b.start + L.pre.length + pre.length = i ∧ mid.length = n ∧
      (l.entries.drop (i - b.start)).take n = mid := by
  have hLo := L.ge
  have hHi := L.lt
  set k := i - (b.start + L.pre.length) with hk
  refine ⟨L.recs.take k, (L.recs.drop k).take n, (L.recs.drop k).drop n, ?_, ?_, ?_, ?_⟩
  · rw [append_assoc, take_append_drop, take_append_drop]
  · rw [length_take]
    omega
  · rw [length_take, length_drop]
    omega
  · have hDrop : i - b.start = L.pre.length + k := by omega
    rw [L.log_eq, hDrop, append_assoc, ← drop_drop, drop_left,
      drop_append_of_le_length (by omega),
      take_append_of_le_length (by rw [length_drop]; omega)]

/-- **A bulk read** returns the records of the abstract log's bulk read. -/
theorem Represents.logEntries (h : Represents pf b s l) {a e : Nat} (hGe : b.start ≤ a) :
    s.logEntries pf a e = (l.logEntries (a + 1 - b.start) (e + 1 - b.start)).map frame := by
  have hLast := h.lastIdx_eq
  have hIndex := h.index_le
  have hStartPos := b.start_pos
  have hStartIdx := h.holds.startIdx_eq
  by_cases hIn : a ≤ e ∧ e ≤ s.wal.lastIdx
  · obtain ⟨hae, heLast⟩ := hIn
    obtain ⟨L⟩ := h.locate hGe (show a ≤ s.wal.lastIdx by omega)
    have hLo := L.ge
    have hHi := L.lt
    have hLen : l.lastIdx = L.pre.length + L.recs.length + L.post.length := by
      rw [SegLog.lastIdx, L.log_eq, length_append, length_append]
    -- the loop runs to the end of the file or to `e`, whichever comes first
    have hEnd : (if e < L.key then e else L.key) =
        min e (b.start + L.pre.length + L.recs.length - 1) := by
      rcases L.key_end with hKey | ⟨hKey, hPost⟩
      · split_ifs <;> omega
      · rw [hPost, length_nil] at hLen
        have hSentinel : e < L.key := by
          simp only [hKey, sMaxLogIndex]
          simp only [maxIndex] at hIndex
          omega
        rw [if_pos hSentinel]
        omega
    set n := min e (b.start + L.pre.length + L.recs.length - 1) + 1 - a with hn
    obtain ⟨pre, mid, post, hRecs, hPre, hMid, hTake⟩ := L.records_split (n := n) (by omega)
    have hBytes := L.bytes
    have hInfoOf := L.infoOf
    rw [hRecs] at hBytes hInfoOf
    have hMidLt : 0 + (frames mid).length < 2 ^ 32 := by
      simp only [frames_append, length_append] at hBytes
      omega
    have hCollect := collect_records pf L.info_eq pre mid post hInfoOf hBytes
      0xFFFFFFFF 0 [] hMidLt
    rw [hPre, hMid] at hCollect
    have hNe : mid ≠ [] := by
      apply ne_nil_of_length_pos
      omega
    have hData : s.dataAt L.ptr = frames pre ++ frames mid ++ (frames post ++ L.suffix) := by
      simp only [Session.dataAt, L.info_eq, L.data_eq, hRecs, frames_append, append_assoc]
    have hAbstract : l.logEntries (a + 1 - b.start) (e + 1 - b.start) = mid := by
      have hCount : min (e + 1 - b.start) (l.segEnd (a + 1 - b.start)) + 1 -
          (a + 1 - b.start) = n := by
        rw [L.seg_end]
        omega
      have hDrop : a + 1 - b.start - 1 = a - b.start := by omega
      unfold SegLog.logEntries
      rw [if_neg (by omega), hCount, hDrop, hTake]
    have hGuard : ¬(e < a ∨ a < s.wal.startIdx ∨ s.wal.lastIdx < a ∨
        e < s.wal.startIdx ∨ s.wal.lastIdx < e) := by omega
    unfold Session.logEntries
    simp only [if_neg hGuard, L.key_eq, hEnd, ← hn, hCollect, hNe, hData, ne_eq,
      not_true_eq_false, or_self, if_false, Nat.zero_add, nil_append, pread_append_mid]
    rw [cutBuffer_frames, hAbstract]
  · have hGuard : e < a ∨ a < s.wal.startIdx ∨ s.wal.lastIdx < a ∨
        e < s.wal.startIdx ∨ s.wal.lastIdx < e := by omega
    unfold Session.logEntries SegLog.logEntries
    rw [if_pos hGuard, if_pos (by omega)]
    rfl

-- A log written from an empty directory

/-- Open a log on an empty directory and append payloads one after another. -/
def written (pf : Platform) (ps : List Bytes) : Option Session :=
  (Session.initial pf ∅).map fun s => s.appendAll pf ps

/-- The abstract log of the same appends. -/
def logOf (ps : List Bytes) : SegLog Bytes := ps.foldl (SegLog.append walFull) SegLog.empty

@[simp] theorem logOf_entries (ps : List Bytes) : (logOf ps).entries = ps := by
  rw [logOf, SegLog.foldl_append_entries]
  rfl

@[simp] theorem logOf_lastIdx (ps : List Bytes) : (logOf ps).lastIdx = ps.length := by
  rw [SegLog.lastIdx, logOf_entries]

theorem logOf_append (ps : List Bytes) (d : Bytes) :
    logOf (ps ++ [d]) = (logOf ps).append walFull d := by
  rw [logOf, foldl_append]
  rfl

theorem written_represents (pf : Platform) (ps : List Bytes)
    (hps : ∀ p ∈ ps, p.length ≤ maxPayload) (hCount : ps.length ≤ maxIndex) :
    ∃ s, written pf ps = some s ∧ Represents pf .empty s (logOf ps) := by
  obtain ⟨s₀, hInit, hEmpty⟩ := Represents.initial_empty pf
  refine ⟨s₀.appendAll pf ps, ?_, hEmpty.appendAll hps ?_⟩
  · rw [written, hInit]
    rfl
  · show 1 + 0 + ps.length ≤ maxIndex + 1
    omega

/-- The last index stored in the file that holds index `i`: the one before the
first index of the next file. -/
def Session.lastInFile (s : Session) (i : Nat) : Nat :=
  match s.dir.keys.find? fun name => decide (i < name) with
  | some next => next - 1
  | none => s.wal.lastIdx

/-- The files of a directory tell where the segments of the log end. -/
theorem find?_closedFiles (pf : Platform) (last i base : Nat) (closed : List (List Bytes))
    (hi : base < i) :
    (match ((closedFiles pf (base + 1) closed).map Prod.fst ++
        [base + 1 + closed.flatten.length]).find? (fun name => decide (i < name)) with
      | some next => next - 1
      | none => last) = SegLog.segEndFrom last i base closed := by
  induction closed generalizing base with
  | nil =>
    have hNot : ¬i < base + 1 := by omega
    simp [closedFiles, SegLog.segEndFrom, hNot]
  | cons seg rest ih =>
    have hNot : decide (i < base + 1) = false := decide_eq_false (by omega)
    have hLen : base + 1 + (seg :: rest).flatten.length =
        base + seg.length + 1 + rest.flatten.length := by
      rw [flatten_cons, length_append]
      omega
    have hComm : base + 1 + seg.length = base + seg.length + 1 := by omega
    rw [closedFiles, map_cons, cons_append, find?_cons, hNot, hLen, hComm,
      SegLog.segEndFrom]
    simp only
    by_cases hSeg : i ≤ base + seg.length
    · -- the next file is the first one past the index
      have hHead : ∃ names, (closedFiles pf (base + seg.length + 1) rest).map Prod.fst ++
          [base + seg.length + 1 + rest.flatten.length] = (base + seg.length + 1) :: names := by
        cases rest with
        | nil => exact ⟨[], rfl⟩
        | cons x rest => exact ⟨_, rfl⟩
      obtain ⟨names, hNames⟩ := hHead
      rw [hNames, find?_cons, decide_eq_true (by omega), if_pos hSeg]
      rfl
    · rw [if_neg hSeg]
      exact ih (base + seg.length) (by omega)

theorem Represents.lastInFile (h : Represents pf .empty s l) (hi : 1 ≤ i) :
    s.lastInFile i = l.segEnd i := by
  have hKeys : s.dir.keys = (closedFiles pf (0 + 1) l.closed).map Prod.fst ++
      [0 + 1 + l.closed.flatten.length] := by
    rw [OrdMap.keys, h.holds.dir_eq]
    simp [Base.empty]
  have hLast : s.wal.lastIdx = l.lastIdx := by
    have := h.lastIdx_eq
    simp only [Base.empty] at this
    omega
  unfold Session.lastInFile
  rw [hKeys, hLast, SegLog.segEnd]
  exact find?_closedFiles pf l.lastIdx i 0 l.closed hi

/-- **Reads return what was appended**, across any number of rotations: a single
read the payload with its length in front, a bulk read the single reads from its
start up to its end or the end of the file, and at least one. -/
theorem appendAll_reads_back (pf : Platform) (ps : List Bytes)
    (hShort : ∀ p ∈ ps, p.length < 2 ^ 20) (hCount : ps.length ≤ maxIndex) :
    ∃ s, written pf ps = some s ∧ s.wal.startIdx = 1 ∧ s.wal.lastIdx = ps.length ∧
      (∀ i p, s.wal.startIdx ≤ i → i ≤ s.wal.lastIdx → ps[i - 1]? = some p →
        s.entryAt pf i = some (be 4 p.length ++ p)) ∧
      (∀ a e, s.wal.startIdx ≤ a → a ≤ e → e ≤ s.wal.lastIdx →
        s.logEntries pf a e ≠ [] ∧
        (s.logEntries pf a e).map some =
          (List.range' a (min e (s.lastInFile a) + 1 - a)).map (s.entryAt pf)) := by
  have hps : ∀ p ∈ ps, p.length ≤ maxPayload := by
    intro p hp
    have := hShort p hp
    simp only [maxPayload]
    omega
  obtain ⟨s, hWritten, hRep⟩ := written_represents pf ps hps hCount
  have hStart : s.wal.startIdx = 1 := hRep.holds.startIdx_eq
  have hLast : s.wal.lastIdx = ps.length := by
    have := hRep.lastIdx_eq
    simp only [Base.empty, logOf_lastIdx] at this
    omega
  have hEntry : ∀ i, 1 ≤ i → s.entryAt pf i = ((logOf ps).entryAt i).map frame := by
    intro i hi
    exact hRep.entryAt (i := i) hi
  refine ⟨s, hWritten, hStart, hLast, ?_, ?_⟩
  · intro i p hi _ hp
    have hAbstract : (logOf ps).entryAt i = some p := by
      rw [SegLog.entryAt_eq_some, logOf_entries]
      exact ⟨by omega, hp⟩
    rw [hEntry i (by omega), hAbstract]
    rfl
  · -- a bulk read gives what single reads give
    intro a e ha hae he
    have ha' : 1 ≤ a := by omega
    have hBulk : s.logEntries pf a e = ((logOf ps).logEntries a e).map frame :=
      hRep.logEntries (b := .empty) ha'
    have hLength := SegLog.logEntries_length (l := logOf ps) ha' hae
      (by rw [logOf_lastIdx]; omega)
    have hSeg : a ≤ (logOf ps).segEnd a :=
      SegLog.le_segEnd ha' (by rw [logOf_lastIdx]; omega)
    have hInFile := hRep.lastInFile ha'
    constructor
    · apply ne_nil_of_length_pos
      rw [hBulk, length_map, hLength]
      omega
    · have hReads : (s.logEntries pf a e).map some =
          (((logOf ps).logEntries a e).map some).map (Option.map frame) := by
        rw [hBulk, map_map, map_map]
        rfl
      rw [hReads, SegLog.logEntries_eq_entryAt ha' hae (by rw [logOf_lastIdx]; omega), hInFile,
        map_map]
      refine map_congr_left fun i hi => ?_
      rw [mem_range'_1] at hi
      exact (hEntry i (by omega)).symm

/-- Two payloads, one of them empty. -/
theorem reads_back_two_payloads :
    ∃ s, written .constant [[0x61], []] = some s ∧
      s.entryAt .constant 1 = some [0, 0, 0, 1, 0x61] ∧
      s.entryAt .constant 2 = some [0, 0, 0, 0] := by
  obtain ⟨s, hWritten, hStart, hLast, hEntry, _⟩ :=
    appendAll_reads_back .constant [[0x61], []] (by decide) (by decide)
  refine ⟨s, hWritten, ?_, ?_⟩
  · rw [hEntry 1 [0x61] (by omega) (by simp [hLast]) rfl]
    rfl
  · rw [hEntry 2 [] (by omega) (by simp [hLast]) rfl]
    rfl

end MyBase
