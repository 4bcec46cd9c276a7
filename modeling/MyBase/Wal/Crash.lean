import MyBase.Wal.Recovery

/-!
# MyBase — opening a log after a crash

A crash while a record is written leaves a prefix of it at the end of the last
file. Nothing in the format marks the end of a record, so what `initial` makes
of the rest depends on where the cut falls:

* inside the 4-byte length the walk reads short and `initial` fails;
* behind the length the walk steps over the end of the file and counts the
  record as present;
* at the record's first byte the file is a plain unrotated one.

`crash_recovery_iff` is the exact condition on the bytes left under which the
log opens with the complete records and keeps working.

The library half of the argument is `OpenedNew.represents`: a session that took
its last file for a rotated one stores, on top of everything it found, the empty
log, and `Represents.appendAll` carries on from there.
-/

namespace MyBase

open Lib List

-- Going on after a load through a trailer

section OpenedNew

variable {pf : Platform} {dir : Dir} {closed : List (List Bytes)} {data : Bytes}
  {info : WalFileInfo} {s : Session}

/-- The files a session found when it started a file of its own. -/
def OpenedNew.base (h : LastFile pf dir closed data) (info : WalFileInfo)
    (hGt : closed.flatten.length < info.lastIndex) : Base where
  files := dir.entries
  keys := closedKeys 1 0 closed ++ [(info.lastIndex, closed.length)]
  infos := recoveredInfos pf 1 closed ++ [info.setNormal]
  start := info.lastIndex + 1
  start_pos := Nat.succ_pos _
  files_lt := by
    intro e he
    rw [h.dir_eq] at he
    rcases mem_append.mp he with he | he
    · have := (mem_closedFiles_key h.closed_ne he).2
      omega
    · rw [mem_singleton] at he
      subst he
      simp only
      omega
  keys_lt := by
    intro e he
    rcases mem_append.mp he with he | he
    · have := (mem_closedKeys_key h.closed_ne he).2
      omega
    · rw [mem_singleton] at he
      subst he
      exact Nat.lt_succ_self _

/-- On top of what it found, such a session stores the empty log. -/
theorem OpenedNew.represents (h : LastFile pf dir closed data)
    (hs : OpenedNew pf dir closed info s) (hGt : closed.flatten.length < info.lastIndex)
    (hMax : info.lastIndex ≤ maxIndex) :
    Represents pf (OpenedNew.base h info hGt) s SegLog.empty := by
  have hLt : info.lastIndex < sMaxLogIndex := by
    simp only [sMaxLogIndex]
    simp only [maxIndex] at hMax
    omega
  have hSucc : succ64 info.lastIndex = info.lastIndex + 1 := by
    simp only [maxIndex] at hMax
    exact succ64_of_lt (by omega)
  obtain ⟨m, hm, hWal⟩ := hs.walFiles_eq hLt
  -- the rotated file is filed under its greatest index
  have hInner : (m.emplace info.lastIndex closed.length).entries =
      closedKeys 1 0 closed ++ [(info.lastIndex, closed.length)] := by
    rw [OrdMap.emplace_last, hm]
    intro e he
    rw [hm] at he
    have := (mem_closedKeys_key h.closed_ne he).2
    omega
  have hKeysLt := (OpenedNew.base h info hGt).keys_lt
  have hFilesLt : ∀ e ∈ dir.entries, e.1 < info.lastIndex + 1 :=
    (OpenedNew.base h info hGt).files_lt
  have hInfosLen : (recoveredInfos pf 1 closed ++ [info.setNormal]).length =
      closed.length + 1 := by
    rw [length_append, recoveredInfos_length, length_singleton]
  refine ⟨?_, ?_, ?_, by simp [SegLog.empty, rotateSize], ?_⟩
  · constructor
    · rw [hs.dir_eq, hSucc, OrdMap.emplace_last hFilesLt]
      simp [OpenedNew.base, SegLog.empty, closedFiles]
    · rw [hWal, OrdMap.emplace_last, hInner]
      · simp [OpenedNew.base, SegLog.empty, closedKeys, recoveredInfos_length]
      · intro e he
        rw [hInner] at he
        have : e.1 < info.lastIndex + 1 := hKeysLt e he
        omega
    · refine ⟨[], { startIndex := info.lastIndex + 1, status := .normal }, ?_, trivial, rfl, rfl,
        rfl⟩
      rw [hs.infos_eq, hSucc]
      simp [OpenedNew.base]
    · rw [hs.curWalFile_eq]
      show _ = some ((recoveredInfos pf 1 closed ++ [info.setNormal]).length + 0)
      rw [hInfosLen]
    · rw [hs.wFd_eq, hSucc]
      rfl
    · exact hs.curWalPos_eq
    · exact hs.startIdx_eq
    · simp [SegLog.empty]
    · trivial
  · rw [hs.lastIdx_eq]
    rfl
  · rw [hs.nextIdx_eq, hs.lastIdx_eq, hSucc]
    rfl
  · show info.lastIndex + 1 + 0 ≤ maxIndex + 1
    omega

end OpenedNew

/-- Records appended to a session that stores a log are read back. -/
theorem Represents.appendAll_entryAt {pf : Platform} {b : Base} {s : Session}
    {l : SegLog Bytes} (h : Represents pf b s l) {qs : List Bytes}
    (hqs : ∀ q ∈ qs, q.length ≤ maxPayload)
    (hIndex : b.start + l.lastIdx + qs.length ≤ maxIndex + 1) {j : Nat} {q : Bytes}
    (hq : qs[j]? = some q) :
    (s.appendAll pf qs).entryAt pf (b.start + l.lastIdx + j) = some (frame q) := by
  have hRep := h.appendAll hqs hIndex
  have hAbstract : (qs.foldl (SegLog.append walFull) l).entryAt (l.lastIdx + j + 1) =
      some q := by
    rw [SegLog.entryAt_eq_some, SegLog.foldl_append_entries]
    refine ⟨by omega, ?_⟩
    have hIdx : l.lastIdx + j + 1 - 1 - l.entries.length = j := by
      unfold SegLog.lastIdx
      omega
    rw [getElem?_append_right (by unfold SegLog.lastIdx; omega), hIdx, hq]
  have hShift : b.start + l.lastIdx + j + 1 - b.start = l.lastIdx + j + 1 := by omega
  rw [hRep.entryAt (by omega), hShift, hAbstract]
  rfl

-- The crash

/-- The directory with only the first `n` bytes of a file left. -/
def cutDir (dir : Dir) (file n : Nat) : Dir := dir.modify file (List.take n)

/-- Opening the directory recovers the records before the last one of the
session `s`, and records appended afterwards are read back. -/
def RecoversComplete (pf : Platform) (s : Session) (dir : Dir) : Prop :=
  ∃ s', Session.initial pf dir = some s' ∧ s'.wal.lastIdx = s.wal.lastIdx - 1 ∧
    (∀ i, 1 ≤ i → i ≤ s'.wal.lastIdx → s'.entryAt pf i = s.entryAt pf i) ∧
    ∀ qs, (∀ q ∈ qs, q.length ≤ maxPayload) → s'.wal.lastIdx + qs.length ≤ maxIndex →
      ∀ j q, qs[j]? = some q →
        (s'.appendAll pf qs).entryAt pf (s'.wal.lastIdx + 1 + j) = some (frame q)

section Front

variable {pf : Platform} {dir : Dir} {closed : List (List Bytes)} {data : Bytes}
  {info : WalFileInfo} {s : Session}

/-- The index behind the last loaded one belongs to the file that was started. -/
theorem OpenedNew.lowerBound_next (h : LastFile pf dir closed data)
    (hs : OpenedNew pf dir closed info s) (hLast : info.lastIndex = closed.flatten.length)
    (hLt : info.lastIndex < sMaxLogIndex) :
    s.wal.walFiles.lowerBound (info.lastIndex + 1) = some (sMaxLogIndex, closed.length + 1) := by
  obtain ⟨m, hm, hWal⟩ := hs.walFiles_eq hLt
  rw [hWal, OrdMap.lowerBound_emplace _ _ _ hLt, OrdMap.lowerBound_eq_none]
  intro e he
  rcases OrdMap.mem_emplace he with rfl | he
  · exact Nat.lt_succ_self _
  · rw [hm] at he
    have := (mem_closedKeys_key h.closed_ne he).2
    omega

theorem OpenedNew.addRecord_info (hs : OpenedNew pf dir closed info s)
    (hNext : s.wal.nextIdx = info.lastIndex + 1) :
    (s.addRecord pf []).wal.infos[closed.length + 1]? =
      some { startIndex := succ64 info.lastIndex, status := .normal,
             ivts := [(info.lastIndex + 1, packIvt 0 4)] } := by
  have hPtr : (recoveredInfos pf 1 closed ++ [info.setNormal]).length = closed.length + 1 := by
    rw [length_append, recoveredInfos_length, length_singleton]
  rw [Session.addRecord, Session.write_wal]
  simp only [Session.addWriter, hs.curWalFile_eq, hs.curWalPos_eq, hs.infos_eq, ← hPtr, hNext]
  rw [modify_append_singleton, getElem?_append_right le_rfl, Nat.sub_self]
  rfl

theorem OpenedNew.addRecord_data (h : LastFile pf dir closed data)
    (hs : OpenedNew pf dir closed info s)
    (hSucc : succ64 info.lastIndex = 1 + closed.flatten.length) :
    fileData (s.addRecord pf []).dir (succ64 info.lastIndex) = data ++ frame [] := by
  have hFile : (1 + closed.flatten.length, data) ∈ dir.entries := by
    rw [h.dir_eq]
    simp
  -- the file it starts is there already
  have hDir : s.dir = dir := by
    rw [hs.dir_eq, hSucc]
    exact OrdMap.emplace_of_mem ⟨_, hFile, rfl⟩
  have hFd : s.wal.wFd = some (1 + closed.flatten.length) := by rw [hs.wFd_eq, hSucc]
  rw [hSucc, Session.addRecord_dir pf [] hFd, hDir]
  apply fileData_of_mem
  rw [OrdMap.modify_last h.dir_eq]
  simp

/-- A file that is reopened for appending although it is not empty: the next
record is read from the front of the file. -/
theorem OpenedNew.append_reads_front (h : LastFile pf dir closed data)
    (hs : OpenedNew pf dir closed info s) (hLast : info.lastIndex = closed.flatten.length)
    (hMax : info.lastIndex ≤ maxIndex) (hData : 4 ≤ data.length) :
    (s.appendAll pf [[]]).entryAt pf (info.lastIndex + 1) = some (data.take 4) := by
  have hSucc : succ64 info.lastIndex = 1 + closed.flatten.length := by
    simp only [maxIndex] at hMax
    rw [succ64_of_lt (by omega)]
    omega
  have hLt : info.lastIndex < sMaxLogIndex := by
    simp only [sMaxLogIndex]
    simp only [maxIndex] at hMax
    omega
  have hNext : s.wal.nextIdx = info.lastIndex + 1 := by
    rw [hs.nextIdx_eq, hs.lastIdx_eq, hSucc, hLast, Nat.add_comm]
  -- the record goes behind `data`, and is filed at position 0
  set t := s.addRecord pf [] with ht
  have hPos : t.wal.curWalPos = 4 := by
    rw [ht, Session.addRecord_curWalPos, hs.curWalPos_eq]
    rfl
  obtain ⟨u, hu⟩ : ∃ u : Session, u = { t with wal := { t.wal with lastIdx := s.wal.nextIdx } } :=
    ⟨_, rfl⟩
  have hResult : s.appendAll pf [[]] = u := by
    rw [hu]
    exact Session.appendLog_of_le (by rw [← ht, hPos]; decide)
  have hKey : u.wal.walFiles.lowerBound (info.lastIndex + 1) =
      some (sMaxLogIndex, closed.length + 1) := by
    rw [hu]
    show t.wal.walFiles.lowerBound _ = _
    rw [ht, Session.addRecord_walFiles]
    exact hs.lowerBound_next h hLast hLt
  have hInfo := hs.addRecord_info hNext
  have hStart : u.wal.startIdx ≤ info.lastIndex + 1 := by
    rw [hu]
    show t.wal.startIdx ≤ _
    rw [ht, Session.addRecord_startIdx, hs.startIdx_eq]
    omega
  have hLast' : info.lastIndex + 1 ≤ u.wal.lastIdx := by
    rw [hu]
    show _ ≤ s.wal.nextIdx
    omega
  have hTake : data.take 4 ≠ [] := by
    apply ne_nil_of_length_pos
    rw [length_take]
    omega
  rw [← ht] at hInfo
  rw [hResult, entryAt_eq_some_iff hStart hLast' hKey (by rw [hu]; exact hInfo) rfl hTake]
  refine ⟨packIvt 0 4, by simp [List.lookup], ?_, ?_⟩
  · rw [ivtLength_packIvt (by decide), length_take]
    omega
  · have hWritten : fileData u.dir (succ64 info.lastIndex) = data ++ frame [] := by
      rw [hu]
      exact hs.addRecord_data h hSucc
    rw [hWritten, ivtPos_packIvt (by decide) (by decide), ivtLength_packIvt (by decide),
      pread_append_of_le (by omega), pread, drop_zero]

end Front

section Crash

variable {pf : Platform} {s : Session} {l : SegLog Bytes} {recs : List Bytes} {p : Bytes}
  {c : Nat}

variable (h : Represents pf .empty s l)
include h

/-- What the crash leaves: the closed files and a cut last one. -/
theorem Represents.lastFile_cut (hCur : l.cur = recs ++ [p]) (c : Nat) :
    LastFile pf (cutDir s.dir l.curStart ((frames recs).length + c)) l.closed
      (cutFile recs p c) := by
  refine ⟨?_, l.closed_ne, h.holds.fits⟩
  have hName : l.curStart = 1 + l.closed.flatten.length := Nat.add_comm _ _
  have hFrames : (frames l.cur).take ((frames recs).length + c) = cutFile recs p c := by
    rw [hCur, frames_append, take_length_add_append, cutFile]
    simp
  have hDir := OrdMap.modify_last (f := List.take ((frames recs).length + c)) h.holds.dir_eq
  rw [hFrames] at hDir
  rw [cutDir, hName]
  exact hDir

/-- The session the complete records give reads what the old session read. -/
theorem Represents.entryAt_cut (hCur : l.cur = recs ++ [p]) {i : Nat} (hPos : 1 ≤ i)
    (hLe : i < l.lastIdx) :
    ∃ q, (l.closed.flatten ++ recs)[i - 1]? = some q ∧ s.entryAt pf i = some (frame q) := by
  have hLength := l.lastIdx_eq
  have hEntries : l.entries = l.closed.flatten ++ recs ++ [p] := by
    rw [SegLog.entries, hCur, append_assoc]
  have hLen : l.cur.length = recs.length + 1 := by
    rw [hCur, length_append, length_singleton]
  have hIn : i - 1 < (l.closed.flatten ++ recs).length := by
    rw [length_append]
    omega
  refine ⟨(l.closed.flatten ++ recs)[i - 1], getElem?_eq_getElem hIn, ?_⟩
  refine h.entryAt_of_get hPos ?_
  rw [hEntries, getElem?_append_left hIn, getElem?_eq_getElem hIn]

/-- If the bytes left end in no trailer, the log recovers only when the cut
leaves nothing of the last record. -/
theorem Represents.crash_no_trailer (hCur : l.cur = recs ++ [p]) (hc : c < 4 + p.length)
    (hTrailer : WalFileInfo.trailer pf (cutFile recs p c) = none) :
    RecoversComplete pf s (cutDir s.dir l.curStart ((frames recs).length + c)) ↔ c = 0 := by
  have hFile := h.lastFile_cut hCur c
  have hLastIdx := h.lastIdx_eq_length
  have hLength := l.lastIdx_eq
  have hLen : l.cur.length = recs.length + 1 := by
    rw [hCur, length_append, length_singleton]
  have hIndex := h.index_le
  have hBytes := h.cur_le
  rw [hCur, frames_append, length_append] at hBytes
  simp only [frames_cons, frames_nil, append_nil, frame_length] at hBytes
  have hSmall : (frames recs).length + (4 + p.length) < 2 ^ 32 := by
    simp only [rotateSize] at hBytes
    omega
  simp only [Base.empty] at hIndex
  constructor
  · rintro ⟨s', hInit, hLast, -, -⟩
    by_contra hPos
    by_cases hShort : c < 4
    · -- cut inside the length: nothing opens
      have hError := hFile.initial_error
        (loadInfo_cut_length (by omega) hShort (by omega) hTrailer)
      rw [hInit] at hError
      cases hError
    · -- cut inside the payload: the record is counted
      obtain ⟨s'', hInit', hOpened⟩ := hFile.initial_open
        (loadInfo_cut_body (by omega) hc hSmall hTrailer) rfl
      rw [hInit] at hInit'
      cases hInit'
      have hCounted := hOpened.lastIdx_eq
      simp only at hCounted
      rw [if_neg (by omega)] at hCounted
      omega
  · rintro rfl
    rw [cutFile_zero] at hFile hTrailer
    obtain ⟨s', hInit, hRep⟩ := reopen_represents hFile (by omega) (by omega) hTrailer
    have hLast : s'.wal.lastIdx = l.closed.flatten.length + recs.length := by
      rw [hRep.lastIdx_eq_length, SegLog.lastIdx_eq]
    refine ⟨s', hInit, by omega, ?_, ?_⟩
    · intro i hPos hLe
      obtain ⟨q, hq, hOld⟩ := h.entryAt_cut hCur hPos (by omega)
      rw [hOld, hRep.entryAt_of_get hPos hq]
    · intro qs hqs hCount j q hq
      have hBase : (Base.empty).start + (⟨l.closed, recs, hFile.closed_ne⟩ : SegLog Bytes).lastIdx =
          s'.wal.lastIdx + 1 := hRep.lastIdx_eq.symm
      have hRead := hRep.appendAll_entryAt hqs (by rw [hBase]; omega) hq
      rwa [hBase] at hRead

omit h in
theorem EndsInTrailer.length_lt {pf : Platform} {file : Bytes} {pos size : Nat}
    (h : EndsInTrailer pf file pos size) : 73 < file.length := by
  obtain ⟨-, -, body, hBody, hEq⟩ := h
  have hBodyPos := length_pos_iff.mpr hBody
  have hMd5 := pf.md5_length (be 4 pos ++ be 4 size)
  rw [hEq]
  simp only [length_append, be_length]
  omega

/-- With nothing but a part of one record left, the file is opened again and appended to,
and the record that is appended is not read back. -/
theorem Represents.crash_first_record (hCur : l.cur = [] ++ [p]) (hc : c < 4 + p.length)
    {pos size : Nat} (hEnds : EndsInTrailer pf (cutFile [] p c) pos size) {info : WalFileInfo}
    {s' : Session}
    (hOpened : OpenedNew pf (cutDir s.dir l.curStart ((frames []).length + c)) l.closed info s')
    (hLast : info.lastIndex = l.lastIdx - 1) :
    (s'.appendAll pf [[]]).entryAt pf (s'.wal.lastIdx + 1 + 0) ≠ some (frame []) := by
  have hFileLen := hEnds.length_lt
  have hCut := cutFile_length [] hc
  have hLength := l.lastIdx_eq
  have hIndex := h.index_le
  have hBytes := h.cur_lt
  rw [hCur, nil_append] at hLength hBytes
  simp only [Base.empty, frames_nil, frames_cons, append_nil, length_nil,
    length_singleton, frame_length] at hIndex hCut hLength hBytes
  have hFront := hOpened.append_reads_front (h.lastFile_cut hCur c) (by omega) (by omega)
    (by omega)
  intro hWanted
  rw [hOpened.lastIdx_eq, Nat.add_zero, hFront] at hWanted
  -- the front of the file is the length of the cut record, not zero
  have hTake : (cutFile [] p c).take 4 = be 4 p.length := by
    rw [cutFile, frames_nil, nil_append, take_take, Nat.min_eq_left (by omega), frame]
    simp
  have hBe := congrArg ofBe ((Option.some.inj hWanted).symm.trans hTake)
  rw [frame, append_nil, ofBe_be_of_lt (by simp), ofBe_be_of_lt (by omega)] at hBe
  simp only [length_nil] at hBe
  omega

/-- If they end in a trailer, its index has to describe the complete records,
and there has to be one. -/
theorem Represents.crash_trailer (hCur : l.cur = recs ++ [p]) (hc : c < 4 + p.length)
    {pos size : Nat} (hEnds : EndsInTrailer pf (cutFile recs p c) pos size) :
    RecoversComplete pf s (cutDir s.dir l.curStart ((frames recs).length + c)) ↔
      recs ≠ [] ∧ TakenForRotated pf (cutFile recs p c) (l.lastIdx - 1) l.curStart recs := by
  have hFile := h.lastFile_cut hCur c
  have hLastIdx := h.lastIdx_eq_length
  have hLength := l.lastIdx_eq
  have hLen : l.cur.length = recs.length + 1 := by
    rw [hCur, length_append, length_singleton]
  have hIndex := h.index_le
  simp only [Base.empty] at hIndex
  have hName : l.curStart = 1 + l.closed.flatten.length := Nat.add_comm _ _
  constructor
  · -- what opens has the greatest index of the trailer as its last
    rintro ⟨s', hInit, hLast, hReads, hAppends⟩
    obtain ⟨es, hStores, hOpened⟩ := hFile.of_initial_trailer hEnds hInit
    have hInfoLast := loadedInfo_lastIndex (1 + l.closed.flatten.length) es
    have hGreatest : greatestIndex es = l.lastIdx - 1 := by
      rw [← hInfoLast, ← hOpened.lastIdx_eq, hLast, hLastIdx]
    refine ⟨?_, pos, size, es, hEnds, hStores, hGreatest, ?_⟩
    · -- without a complete record the next file is this one again
      rintro rfl
      refine h.crash_first_record hCur hc hEnds hOpened (by rw [hInfoLast, hGreatest]) ?_
      exact hAppends [[]] (by simp [maxPayload]) (by simp; omega) 0 [] rfl
    · intro j q hq
      have hj := (List.getElem?_eq_some_iff.mp hq).1
      have hLe : l.curStart + j ≤ s'.wal.lastIdx := by omega
      obtain ⟨q', hq', hOld⟩ := h.entryAt_cut hCur (i := l.curStart + j) (by omega) (by omega)
      have hIdx : l.curStart + j - 1 - l.closed.flatten.length = j := by omega
      rw [getElem?_append_right (by omega), hIdx, hq] at hq'
      cases hq'
      have hRead := hReads _ (by omega) hLe
      rw [hOld] at hRead
      exact (hFile.entryAt_last hOpened (by omega) (by omega) (by omega) q).mp hRead
  · rintro ⟨hNe, pos', size', es, hEnds', hStores, hGreatest, hDescribes⟩
    obtain ⟨s', hInit, hOpened⟩ := hFile.initial_trailer hEnds' hStores
    have hInfoLast := loadedInfo_lastIndex (1 + l.closed.flatten.length) es
    have hPos : 0 < recs.length := length_pos_iff.mpr hNe
    have hLast : s'.wal.lastIdx = l.lastIdx - 1 := by
      rw [hOpened.lastIdx_eq, hInfoLast, hGreatest]
    refine ⟨s', hInit, by omega, ?_, ?_⟩
    · intro i hi hLe
      obtain ⟨q, hq, hOld⟩ := h.entryAt_cut hCur hi (by omega)
      rw [hOld]
      by_cases hClosed : i ≤ l.closed.flatten.length
      · rw [getElem?_append_left (by omega)] at hq
        exact hFile.entryAt_first hOpened (by omega) hi hClosed (by omega) hq
      · rw [getElem?_append_right (by omega)] at hq
        rw [hFile.entryAt_last hOpened (by omega) (by omega) (by omega) q]
        have hAt : l.curStart + (i - 1 - l.closed.flatten.length) = i := by omega
        have := hDescribes _ _ hq
        rwa [hAt] at this
    · intro qs hqs hCount j q hq
      have hRep := hOpened.represents hFile (by rw [hInfoLast]; omega) (by rw [hInfoLast]; omega)
      have hRead := hRep.appendAll_entryAt hqs (j := j) (q := q) ?_ hq
      · have hBase : (loadedInfo (1 + l.closed.flatten.length) es).lastIndex + 1 + 0 + j =
            s'.wal.lastIdx + 1 + j := by
          rw [hOpened.lastIdx_eq]
        rw [← hBase]
        exact hRead
      · show (loadedInfo (1 + l.closed.flatten.length) es).lastIndex + 1 + 0 + qs.length ≤ _
        rw [← hOpened.lastIdx_eq]
        omega

end Crash

/-- **Recovery after a crash**: for a cut at offset `c` of the last record of the
last file, the exact condition on the bytes left. -/
theorem crash_recovery_iff (pf : Platform) (ps : List Bytes)
    (hps : ∀ p ∈ ps, p.length ≤ maxPayload) (hCount : ps.length ≤ maxIndex)
    (recs : List Bytes) (p : Bytes) (hCur : (logOf ps).cur = recs ++ [p])
    (c : Nat) (hc : c < 4 + p.length) :
    ∃ s, written pf ps = some s ∧
      (RecoversComplete pf s (cutDir s.dir (logOf ps).curStart ((frames recs).length + c)) ↔
        (c = 0 ∧ ∀ pos size, ¬EndsInTrailer pf (cutFile recs p c) pos size) ∨
          (recs ≠ [] ∧ TakenForRotated pf (cutFile recs p c) (ps.length - 1) (logOf ps).curStart
            recs)) := by
  obtain ⟨s, hWritten, hRep⟩ := written_represents pf ps hps hCount
  refine ⟨s, hWritten, ?_⟩
  by_cases hNone : ∀ pos size, ¬EndsInTrailer pf (cutFile recs p c) pos size
  · rw [hRep.crash_no_trailer hCur hc (trailer_eq_none_iff.mpr hNone)]
    constructor
    · intro hZero
      exact Or.inl ⟨hZero, hNone⟩
    · rintro (⟨hZero, -⟩ | ⟨-, pos, size, es, hEnds, -⟩)
      · exact hZero
      · exact absurd hEnds (hNone pos size)
  · push Not at hNone
    obtain ⟨pos, size, hEnds⟩ := hNone
    rw [hRep.crash_trailer hCur hc hEnds, logOf_lastIdx]
    constructor
    · exact Or.inr
    · rintro (⟨-, hNone⟩ | hTaken)
      · exact absurd hEnds (hNone pos size)
      · exact hTaken

/-- Two records, and a cut that leaves nothing of the second. -/
theorem crash_recovery_whole_record :
    ∃ s, written .constant [[0x61], [0x62]] = some s ∧
      RecoversComplete .constant s (cutDir s.dir 1 5) := by
  obtain ⟨s, hWritten, hIff⟩ := crash_recovery_iff .constant [[0x61], [0x62]] (by decide)
    (by decide) [[0x61]] [0x62] rfl 0 (by decide)
  refine ⟨s, hWritten, hIff.mpr (Or.inl ⟨rfl, ?_⟩)⟩
  exact trailer_eq_none_iff.mp rfl

/-- One record of one byte. Cut inside its length the log does not open; cut
behind its length it opens with a record that cannot be read. -/
theorem crash_recovery_fails :
    ∃ s, written .constant [[0x61]] = some s ∧
      Session.initial .constant (cutDir s.dir 1 2) = none ∧
      ∃ s', Session.initial .constant (cutDir s.dir 1 4) = some s' ∧
        s'.wal.lastIdx = 1 ∧ s'.entryAt .constant 1 = none := by
  refine ⟨_, rfl, rfl, _, rfl, rfl, rfl⟩

end MyBase
