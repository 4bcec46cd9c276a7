import MyBase.Wal.Decode
import MyBase.Wal.Read

/-!
# MyBase — opening a log again

What `initial` makes of a directory that holds rotated files and, as the last
one, a file with arbitrary bytes. The rotated files always come back; what
happens to the last one depends on how its bytes load:

* `initial_error` — it does not load: the log does not open;
* `initial_open` — it loads by its record lengths and takes the next appends;
* `initial_full` — it loads through a trailer: it counts as rotated, its
  greatest index becomes the last one and the next file is started.

From these, for a log closed without a crash:

* `reopen_represents` — without a trailer at the end of the last file the new
  session stores the same log as the one that wrote it;
* `reopen_same_iff` — the exact condition on the bytes of the last file under
  which the new session agrees with the old one. Payload bytes are arbitrary
  and the trailer is recognised by its md5 alone, so a last file can end in
  bytes that look like one.
-/

namespace MyBase

open Lib List

-- Scanning the rotated files

/-- The heap entry of a rotated file after loading it. -/
def recoveredInfo (pf : Platform) (start : Nat) (seg : List Bytes) : WalFileInfo where
  startIndex := start
  lastIndex := start + seg.length - 1
  status := .normal
  loadFull := true
  ivts := pf.hashOrder (ivtsFrom start 0 seg)

def recoveredInfos (pf : Platform) : Nat → List (List Bytes) → List WalFileInfo
  | _, [] => []
  | start, seg :: rest => recoveredInfo pf start seg :: recoveredInfos pf (start + seg.length) rest

theorem closedInfos_recoveredInfos (pf : Platform) (start : Nat) (closed : List (List Bytes)) :
    ClosedInfos start (recoveredInfos pf start closed) closed := by
  induction closed generalizing start with
  | nil => trivial
  | cons seg rest ih => exact ⟨⟨rfl, rfl, pf.hashOrder_perm _⟩, ih _⟩

section scanFile

variable {pf : Platform} {w : Wal} {file : Nat} {data : Bytes} {info : WalFileInfo}

theorem scanFile_error {e : LoadError} {last : Bool}
    (hLoad : WalFileInfo.loadInfo pf { startIndex := file } data = .error e) :
    Session.scanFile pf w file data last = .error e := by
  simp [Session.scanFile, hLoad, bind, Except.bind]

/-- The fields a scanned file sets whatever becomes of it. -/
def Wal.addFile (w : Wal) (file : Nat) (info : WalFileInfo) : Wal :=
  { w with
    startIdx := if w.startIdx = 0 then file else w.startIdx
    infos := w.infos ++ [info.setNormal]
    curWalFile := some w.infos.length }

variable (hLoad : WalFileInfo.loadInfo pf { startIndex := file } data = .ok info)
include hLoad

theorem scanFile_full (hFull : info.loadFull = true) :
    Session.scanFile pf w file data false = .ok (some
      { w.addFile file info with
        walFiles := w.walFiles.emplace info.lastIndex w.infos.length }) := by
  simp [Session.scanFile, hLoad, hFull, bind, Except.bind, pure, Except.pure, Wal.addFile]

theorem scanFile_full_last (hFull : info.loadFull = true) :
    Session.scanFile pf w file data true = .ok (some
      { w.addFile file info with
        wFd := none
        curWalPos := 0
        walFiles := w.walFiles.emplace info.lastIndex w.infos.length
        lastIdx := info.lastIndex }) := by
  simp [Session.scanFile, hLoad, hFull, bind, Except.bind, pure, Except.pure, Wal.addFile]

theorem scanFile_open (hOpen : info.loadFull = false) :
    Session.scanFile pf w file data true = .ok (some
      { w.addFile file info with
        wFd := some file
        curWalPos := data.length % 2 ^ 32
        walFiles := w.walFiles.emplace sMaxLogIndex w.infos.length
        lastIdx := if info.lastIndex = 0 then info.startIndex - 1 else info.lastIndex }) := by
  simp [Session.scanFile, hLoad, hOpen, bind, Except.bind, pure, Except.pure, Wal.addFile]

end scanFile

/-- The state of the scan after rotated files: their indices are loaded and
nothing else has changed. -/
structure Scanned (pf : Platform) (w w' : Wal) (start : Nat) (closed : List (List Bytes)) :
    Prop where
  infos_eq : w'.infos = w.infos ++ recoveredInfos pf start closed
  walFiles_eq : w'.walFiles.entries =
    w.walFiles.entries ++ closedKeys start w.infos.length closed
  startIdx_eq : w'.startIdx = if w.startIdx = 0 ∧ closed ≠ [] then start else w.startIdx

/-- **Scanning rotated files**, by induction over them. -/
theorem scanAllWalFiles_closed (pf : Platform) (w : Wal) {start : Nat} (hStart : 0 < start)
    {closed : List (List Bytes)} (hNe : ∀ seg ∈ closed, seg ≠ []) (hFits : ClosedFits start closed)
    (hKeys : ∀ e ∈ w.walFiles.entries, e.1 < start) {rest : List (Nat × Bytes)}
    (hRest : rest ≠ []) :
    ∃ w', Session.scanAllWalFiles pf w (closedFiles pf start closed ++ rest) =
        Session.scanAllWalFiles pf w' rest ∧ Scanned pf w w' start closed := by
  induction closed generalizing w start with
  | nil =>
    refine ⟨w, rfl, ?_, ?_, ?_⟩
    · simp [recoveredInfos]
    · simp [closedKeys]
    · simp
  | cons seg tail ih =>
    obtain ⟨hFit, hFits⟩ := hFits
    have hSegNe : seg ≠ [] := hNe seg (mem_cons_self ..)
    have hSegPos : 0 < seg.length := length_pos_iff.mpr hSegNe
    have hLoad := loadInfo_sealedFile pf hSegNe hStart hFit
    have hNotLast : (closedFiles pf (start + seg.length) tail ++ rest).isEmpty = false := by
      cases rest with
      | nil => exact absurd rfl hRest
      | cons => simp
    have hStep := scanFile_full (w := w) hLoad rfl
    -- the scan goes on with this file's index on the heap and its key in the map
    obtain ⟨w₁, hw₁⟩ : ∃ w₁ : Wal, w₁ = { (w.addFile start (recoveredInfo pf start seg)) with
        walFiles := w.walFiles.emplace (start + seg.length - 1) w.infos.length } := ⟨_, rfl⟩
    have hMap : w₁.walFiles.entries =
        w.walFiles.entries ++ [(start + seg.length - 1, w.infos.length)] := by
      rw [hw₁]
      apply OrdMap.emplace_last
      intro e he
      have := hKeys e he
      omega
    have hInfos : w₁.infos = w.infos ++ [recoveredInfo pf start seg] := by
      rw [hw₁]
      rfl
    obtain ⟨w', hScan, hScanned⟩ := @ih w₁ (start + seg.length) (by omega)
      (fun x hx => hNe x (mem_cons_of_mem _ hx)) hFits (by
        intro e he
        rw [hMap] at he
        rcases mem_append.mp he with he | he
        · have := hKeys e he
          omega
        · rw [mem_singleton] at he
          subst he
          simp only
          omega)
    refine ⟨w', ?_, ?_, ?_, ?_⟩
    · rw [closedFiles, cons_append, Session.scanAllWalFiles, if_neg (by omega), hNotLast,
        hStep, ← hScan, hw₁]
      rfl
    · rw [hScanned.infos_eq, hInfos, recoveredInfos, append_assoc]
      rfl
    · rw [hScanned.walFiles_eq, hMap, hInfos, closedKeys, length_append,
        length_singleton, append_assoc]
      rfl
    · rw [hScanned.startIdx_eq]
      have hFirst : w₁.startIdx = if w.startIdx = 0 then start else w.startIdx := by
        rw [hw₁]
        rfl
      rw [hFirst]
      by_cases hZero : w.startIdx = 0
      · have : start ≠ 0 := by omega
        simp [hZero, this]
      · simp [hZero]

-- Opening a directory

/-- The directory holds the rotated files `closed` and behind them one file with
the bytes `data`. -/
structure LastFile (pf : Platform) (dir : Dir) (closed : List (List Bytes)) (data : Bytes) :
    Prop where
  dir_eq : dir.entries = closedFiles pf 1 closed ++ [(1 + closed.flatten.length, data)]
  closed_ne : ∀ seg ∈ closed, seg ≠ []
  fits : ClosedFits 1 closed

/-- The session that took the last file for the one to append to. -/
structure OpenedLast (pf : Platform) (dir : Dir) (closed : List (List Bytes)) (data : Bytes)
    (info : WalFileInfo) (s : Session) : Prop where
  dir_eq : s.dir = dir
  infos_eq : s.wal.infos = recoveredInfos pf 1 closed ++ [info.setNormal]
  walFiles_eq : s.wal.walFiles.entries = closedKeys 1 0 closed ++ [(sMaxLogIndex, closed.length)]
  curWalFile_eq : s.wal.curWalFile = some closed.length
  wFd_eq : s.wal.wFd = some (1 + closed.flatten.length)
  curWalPos_eq : s.wal.curWalPos = data.length % 2 ^ 32
  startIdx_eq : s.wal.startIdx = 1
  lastIdx_eq : s.wal.lastIdx =
    if info.lastIndex = 0 then info.startIndex - 1 else info.lastIndex
  nextIdx_eq : s.wal.nextIdx = succ64 s.wal.lastIdx

/-- The session that took the last file for a rotated one and started another. -/
structure OpenedNew (pf : Platform) (dir : Dir) (closed : List (List Bytes))
    (info : WalFileInfo) (s : Session) : Prop where
  dir_eq : s.dir = dir.emplace (succ64 info.lastIndex) []
  infos_eq : s.wal.infos = recoveredInfos pf 1 closed ++ [info.setNormal] ++
    [{ startIndex := succ64 info.lastIndex, status := .normal }]
  walFiles_eq : info.lastIndex < sMaxLogIndex → ∃ m : OrdMap Nat Nat,
    m.entries = closedKeys 1 0 closed ∧
    s.wal.walFiles =
      (m.emplace info.lastIndex closed.length).emplace sMaxLogIndex (closed.length + 1)
  curWalFile_eq : s.wal.curWalFile = some (closed.length + 1)
  wFd_eq : s.wal.wFd = some (succ64 info.lastIndex)
  curWalPos_eq : s.wal.curWalPos = 0
  startIdx_eq : s.wal.startIdx = 1
  lastIdx_eq : s.wal.lastIdx = info.lastIndex
  nextIdx_eq : s.wal.nextIdx = succ64 s.wal.lastIdx

/-- The indices of files that fit are far from the sentinel. -/
theorem ClosedFits.total_le {start : Nat} {closed : List (List Bytes)}
    (hStart : start ≤ 2 ^ 63) (h : ClosedFits start closed) :
    start + closed.flatten.length ≤ 2 ^ 63 := by
  induction closed generalizing start with
  | nil => simpa using hStart
  | cons seg rest ih =>
    have := ih h.1.index h.2
    rw [flatten_cons, length_append]
    omega

theorem recoveredInfos_length (pf : Platform) (start : Nat) (closed : List (List Bytes)) :
    (recoveredInfos pf start closed).length = closed.length :=
  (closedInfos_recoveredInfos pf start closed).length_eq

namespace LastFile

variable {pf : Platform} {dir : Dir} {closed : List (List Bytes)} {data : Bytes}
  {info : WalFileInfo}

variable (h : LastFile pf dir closed data)
include h

theorem scan :
    ∃ w, Session.scanAllWalFiles pf {} dir.entries =
        Session.scanAllWalFiles pf w [(1 + closed.flatten.length, data)] ∧
      Scanned pf {} w 1 closed := by
  rw [h.dir_eq]
  exact scanAllWalFiles_closed pf {} (by decide) h.closed_ne h.fits (by simp) (by simp)

omit h in
theorem startIdx_addFile {w : Wal} (h : Scanned pf {} w 1 closed) (info : WalFileInfo) :
    (w.addFile (1 + closed.flatten.length) info).startIdx = 1 := by
  show (if w.startIdx = 0 then 1 + closed.flatten.length else w.startIdx) = 1
  rw [h.startIdx_eq]
  by_cases hClosed : closed = []
  · simp [hClosed]
  · simp [hClosed]

/-- The last file does not load. -/
theorem initial_error {e : LoadError}
    (hLoad : WalFileInfo.loadInfo pf { startIndex := 1 + closed.flatten.length } data =
      .error e) : Session.initial pf dir = none := by
  obtain ⟨w, hScan, _⟩ := h.scan
  have hFile : Session.scanAllWalFiles pf {} dir.entries = .error e := by
    rw [hScan, Session.scanAllWalFiles, if_neg (by omega), isEmpty_nil,
      scanFile_error hLoad]
    rfl
  unfold Session.initial
  rw [hFile]

/-- The last file loads by its record lengths and takes the next appends. -/
theorem initial_open
    (hLoad : WalFileInfo.loadInfo pf { startIndex := 1 + closed.flatten.length } data =
      .ok info) (hOpen : info.loadFull = false) :
    ∃ s, Session.initial pf dir = some s ∧ OpenedLast pf dir closed data info s := by
  obtain ⟨w, hScan, hScanned⟩ := h.scan
  have hLen : w.infos.length = closed.length := by
    rw [hScanned.infos_eq]
    simp [recoveredInfos_length]
  have hFile := scanFile_open (w := w) hLoad hOpen
  have hStartIdx := startIdx_addFile hScanned info
  rw [Session.scanAllWalFiles, if_neg (by omega), isEmpty_nil, hFile] at hScan
  refine ⟨_, by unfold Session.initial; rw [hScan]; rfl, ?_⟩
  constructor
  · rfl
  · show w.infos ++ [info.setNormal] = _
    rw [hScanned.infos_eq]
    rfl
  · show (w.walFiles.emplace sMaxLogIndex w.infos.length).entries = _
    rw [OrdMap.emplace_last, hScanned.walFiles_eq, hLen]
    · rfl
    · intro e he
      rw [hScanned.walFiles_eq] at he
      have := (mem_closedKeys_key h.closed_ne he).2
      have := ClosedFits.total_le (by decide) h.fits
      simp only [sMaxLogIndex]
      omega
  · show some w.infos.length = _
    rw [hLen]
  · rfl
  · rfl
  · show (if (w.addFile (1 + closed.flatten.length) info).startIdx = 0 then 1
      else (w.addFile (1 + closed.flatten.length) info).startIdx) = 1
    rw [hStartIdx]
    rfl
  · rfl
  · rfl

/-- The last file loads through a trailer and counts as rotated. -/
theorem initial_full
    (hLoad : WalFileInfo.loadInfo pf { startIndex := 1 + closed.flatten.length } data =
      .ok info) (hFull : info.loadFull = true) :
    ∃ s, Session.initial pf dir = some s ∧ OpenedNew pf dir closed info s := by
  obtain ⟨w, hScan, hScanned⟩ := h.scan
  have hLen : w.infos.length = closed.length := by
    rw [hScanned.infos_eq]
    simp [recoveredInfos_length]
  have hFile := scanFile_full_last (w := w) hLoad hFull
  have hStartIdx := startIdx_addFile hScanned info
  rw [Session.scanAllWalFiles, if_neg (by omega), isEmpty_nil, hFile] at hScan
  refine ⟨_, by unfold Session.initial; rw [hScan]; rfl, ?_⟩
  constructor
  · rfl
  · show w.infos ++ [info.setNormal] ++ _ = _
    rw [hScanned.infos_eq]
    rfl
  · intro hLt
    refine ⟨w.walFiles, by rw [hScanned.walFiles_eq]; rfl, ?_⟩
    -- no file is open for appending, so the new one gets the sentinel key
    have hNone : (w.walFiles.emplace info.lastIndex w.infos.length).find? sMaxLogIndex =
        none := by
      rw [← Option.not_isSome_iff_eq_none, OrdMap.find?_isSome_iff]
      intro hMem
      rcases OrdMap.mem_keys_emplace hMem with hEq | hOld
      · omega
      · obtain ⟨e, he, hKey⟩ := mem_map.mp hOld
        rw [hScanned.walFiles_eq] at he
        have := (mem_closedKeys_key h.closed_ne he).2
        have := ClosedFits.total_le (by decide) h.fits
        simp only [sMaxLogIndex] at hKey
        omega
    refine (Session.prepareNewFile_walFiles hNone (succ64 info.lastIndex)).trans ?_
    show (w.walFiles.emplace info.lastIndex w.infos.length).emplace sMaxLogIndex
      (w.infos ++ [info.setNormal]).length = _
    rw [hLen, length_append, hLen, length_singleton]
  · show some (w.infos ++ [info.setNormal]).length = _
    rw [length_append, hLen, length_singleton]
  · rfl
  · rfl
  · show (if (w.addFile (1 + closed.flatten.length) info).startIdx = 0 then 1
      else (w.addFile (1 + closed.flatten.length) info).startIdx) = 1
    rw [hStartIdx]
    rfl
  · rfl
  · rfl

variable {s : Session} {i : Nat} {pre post : List (List Bytes)} {seg : List Bytes}

/-- However the last file loads, the log starts at index 1. -/
theorem initial_startIdx (hInit : Session.initial pf dir = some s) : s.wal.startIdx = 1 := by
  cases hLoad : WalFileInfo.loadInfo pf { startIndex := 1 + closed.flatten.length } data with
  | error e =>
    rw [h.initial_error hLoad] at hInit
    cases hInit
  | ok info =>
    cases hFull : info.loadFull with
    | true =>
      obtain ⟨s', hInit', hs⟩ := h.initial_full hLoad hFull
      rw [hInit] at hInit'
      cases hInit'
      exact hs.startIdx_eq
    | false =>
      obtain ⟨s', hInit', hs⟩ := h.initial_open hLoad hFull
      rw [hInit] at hInit'
      cases hInit'
      exact hs.startIdx_eq

omit h in
/-- The key under which an index of a closed file is found. -/
theorem closed_lowerBound {m : OrdMap Nat Nat} (hm : m.entries = closedKeys 1 0 closed)
    (hNe : ∀ seg ∈ closed, seg ≠ []) (hSplit : closed = pre ++ seg :: post)
    (hLo : pre.flatten.length < i) (hHi : i ≤ pre.flatten.length + seg.length) :
    m.lowerBound i = some (pre.flatten.length + seg.length, pre.length) := by
  rw [hSplit] at hNe
  have hKeys : m.entries = closedKeys 1 0 pre ++
      (pre.flatten.length + seg.length, pre.length) ::
        closedKeys (1 + pre.flatten.length + seg.length) (0 + pre.length + 1) post := by
    rw [hm, hSplit, closedKeys_append, closedKeys]
    have hEnd : 1 + pre.flatten.length + seg.length - 1 = pre.flatten.length + seg.length := by
      omega
    rw [hEnd, Nat.zero_add]
  refine OrdMap.lowerBound_append hKeys ?_ hHi
  intro e he
  have := mem_closedKeys_key (fun x hx => hNe x (mem_append_left _ hx)) he
  omega

omit h in
/-- Files that were there keep their content when another is created. -/
theorem fileData_emplace {dir : Dir} {file : Nat} {data : Bytes} (name : Nat)
    (h : (file, data) ∈ dir.entries) : fileData (dir.emplace name []) file = data :=
  fileData_of_mem (OrdMap.mem_emplace_of_mem [] h)

/-- After a load through a trailer, an index whose file ends at or before the
loaded last index is read from that file. -/
theorem entryAt_closed (hs : OpenedNew pf dir closed info s) (hMax : info.lastIndex ≤ maxIndex)
    (hSplit : closed = pre ++ seg :: post) {p : Bytes} (hLo : pre.flatten.length < i)
    (hGet : seg[i - pre.flatten.length - 1]? = some p)
    (hEnd : pre.flatten.length + seg.length ≤ info.lastIndex) :
    s.entryAt pf i = some (frame p) := by
  have hLt : info.lastIndex < sMaxLogIndex := by
    simp only [sMaxLogIndex]
    simp only [maxIndex] at hMax
    omega
  obtain ⟨m, hm, hWal⟩ := hs.walFiles_eq hLt
  have hIn := (List.getElem?_eq_some_iff.mp hGet).1
  have hStart := hs.startIdx_eq
  have hLast := hs.lastIdx_eq
  have hFits := h.fits
  rw [hSplit] at hFits
  have hFound := closed_lowerBound hm h.closed_ne hSplit hLo (by omega)
  -- neither of the two new keys lies in front of that of the file
  have hKey : s.wal.walFiles.lowerBound i =
      some (pre.flatten.length + seg.length, pre.length) := by
    rw [hWal, OrdMap.lowerBound_emplace _ _ _ (by omega),
      OrdMap.lowerBound_emplace _ _ _ (by omega), hFound]
    simp only [if_pos hEnd]
    rw [if_pos (by omega)]
  have hInfos := closedInfos_recoveredInfos pf 1 closed
  rw [hSplit] at hInfos
  obtain ⟨found, hFoundGet, hInfoOf⟩ := hInfos.getElem?
  have hInfo : s.wal.infos[pre.length]? = some found := by
    have hLen := (List.getElem?_eq_some_iff.mp hFoundGet).1
    rw [← hSplit] at hFoundGet hLen
    rw [hs.infos_eq, append_assoc, getElem?_append_left hLen, hFoundGet]
  have hFile : (1 + pre.flatten.length, sealedFile pf (1 + pre.flatten.length) seg) ∈
      dir.entries := by
    rw [h.dir_eq, hSplit, closedFiles_append, closedFiles]
    simp
  obtain ⟨hLookup, hLocates⟩ := hInfoOf.locates hFits.bytes_lt hGet
    (sealBytes pf (1 + pre.flatten.length) seg)
  have hAt : 1 + pre.flatten.length + (i - pre.flatten.length - 1) = i := by omega
  rw [hAt] at hLookup
  rw [entryAt_eq_some_iff (by omega) (by omega) hKey hInfo hInfoOf.normal (frame_ne_nil p)]
  refine ⟨_, hLookup, ?_⟩
  rw [hs.dir_eq, hInfoOf.start_eq, fileData_emplace _ hFile]
  exact hLocates

/-- Any other index up to the loaded last one is read through the loaded index. -/
theorem entryAt_loaded (hs : OpenedNew pf dir closed info s) (hMax : info.lastIndex ≤ maxIndex)
    (hFileName : info.startIndex = 1 + closed.flatten.length) (hPos : 1 ≤ i)
    (hLe : i ≤ info.lastIndex)
    (hOther : ∀ pre seg post, closed = pre ++ seg :: post → pre.flatten.length < i →
      i ≤ pre.flatten.length + seg.length → info.lastIndex < pre.flatten.length + seg.length)
    {buf : Bytes} (hBuf : buf ≠ []) :
    s.entryAt pf i = some buf ↔
      ∃ ivt, info.ivts.lookup i = some ivt ∧ Locates data ivt buf := by
  have hLt : info.lastIndex < sMaxLogIndex := by
    simp only [sMaxLogIndex]
    simp only [maxIndex] at hMax
    omega
  obtain ⟨m, hm, hWal⟩ := hs.walFiles_eq hLt
  have hStart := hs.startIdx_eq
  have hLast := hs.lastIdx_eq
  have hKey : s.wal.walFiles.lowerBound i = some (info.lastIndex, closed.length) := by
    have hInner : (m.emplace info.lastIndex closed.length).lowerBound i =
        some (info.lastIndex, closed.length) := by
      rw [OrdMap.lowerBound_emplace _ _ _ hLe]
      by_cases hClosed : i ≤ closed.flatten.length
      · -- its own file ends behind the loaded last index
        obtain ⟨pre, seg, post, hSplit, hLo, hHi⟩ := SegLog.exists_segment hPos hClosed
        have := hOther pre seg post hSplit hLo hHi
        rw [closed_lowerBound hm h.closed_ne hSplit hLo hHi]
        simp only
        rw [if_neg (by omega)]
      · rw [OrdMap.lowerBound_eq_none]
        intro e he
        rw [hm] at he
        have := (mem_closedKeys_key h.closed_ne he).2
        omega
    rw [hWal, OrdMap.lowerBound_emplace _ _ _ (by omega), hInner]
    simp only
    rw [if_pos (by omega)]
  have hInfo : s.wal.infos[closed.length]? = some info.setNormal := by
    rw [hs.infos_eq, ← recoveredInfos_length pf 1 closed]
    simp
  have hFile : (1 + closed.flatten.length, data) ∈ dir.entries := by
    rw [h.dir_eq]
    simp
  have hRead : s.entryAt pf i = some buf ↔ _ :=
    entryAt_eq_some_iff (by omega) (by omega) hKey hInfo rfl hBuf
  have hData : fileData s.dir info.setNormal.startIndex = data := by
    rw [hs.dir_eq]
    show fileData _ info.startIndex = data
    rw [hFileName, fileData_emplace _ hFile]
  rw [hData] at hRead
  exact hRead

end LastFile

-- A log closed without a crash

/-- The index `es` locates in the file each of the records `recs`, the first of
which has index `start`. -/
def IndexDescribes (file : Bytes) (es : List (Nat × Nat)) (start : Nat) (recs : List Bytes) :
    Prop :=
  ∀ j p, recs[j]? = some p → ∃ ivt, es.lookup (start + j) = some ivt ∧ Locates file ivt (frame p)

/-- The bytes of a file are those of a rotated file whose index names `last` as
its greatest index and locates the records `recs`. -/
def TakenForRotated (pf : Platform) (file : Bytes) (last start : Nat) (recs : List Bytes) :
    Prop :=
  ∃ pos size es, EndsInTrailer pf file pos size ∧ StoresIndex file pos size es ∧
    greatestIndex es = last ∧ IndexDescribes file es start recs

/-- Two sessions report the same indices and read the same records. -/
structure SameLog (pf : Platform) (s s' : Session) : Prop where
  startIdx : s'.wal.startIdx = s.wal.startIdx
  lastIdx : s'.wal.lastIdx = s.wal.lastIdx
  nextIdx : s'.wal.nextIdx = s.wal.nextIdx
  entryAt : ∀ i, s'.entryAt pf i = s.entryAt pf i

section Reopen

variable {pf : Platform} {s : Session} {l : SegLog Bytes}

section Represents

variable (h : Represents pf .empty s l)
include h

theorem Represents.lastFile : LastFile pf s.dir l.closed (frames l.cur) :=
  ⟨h.holds.dir_eq, l.closed_ne, h.holds.fits⟩

theorem Represents.lastIdx_eq_length : s.wal.lastIdx = l.lastIdx := by
  have := h.lastIdx_eq
  simp only [Base.empty] at this
  omega

theorem Represents.lastIdx_lt : l.lastIdx < 2 ^ 63 := by
  have := h.index_le
  simp only [Base.empty, maxIndex] at this
  omega

variable {dir : Dir} {closed : List (List Bytes)} {s' : Session} {data : Bytes}
  {es : List (Nat × Nat)} {pos size i : Nat}

theorem Represents.sameLog (h' : Represents pf .empty s' l) : SameLog pf s s' := by
  refine ⟨?_, ?_, ?_, ?_⟩
  · rw [h.holds.startIdx_eq, h'.holds.startIdx_eq]
  · rw [h.lastIdx_eq_length, h'.lastIdx_eq_length]
  · rw [h.nextIdx_eq, h'.nextIdx_eq]
  · intro i
    by_cases hi : 1 ≤ i
    · rw [h.entryAt (b := .empty) hi, h'.entryAt (b := .empty) hi]
    · rw [entryAt_eq_none (Or.inl (by rw [h'.holds.startIdx_eq]; omega)),
        entryAt_eq_none (Or.inl (by rw [h.holds.startIdx_eq]; omega))]

end Represents

/-- Opening a directory whose last file holds records and no trailer. -/
theorem reopen_represents {recs : List Bytes} (h : LastFile pf dir closed (frames recs))
    (hBytes : (frames recs).length ≤ rotateSize)
    (hIndex : closed.flatten.length + recs.length ≤ maxIndex)
    (hTrailer : WalFileInfo.trailer pf (frames recs) = none) :
    ∃ s', Session.initial pf dir = some s' ∧
      Represents pf .empty s' ⟨closed, recs, h.closed_ne⟩ := by
  have hLt : (frames recs).length < 2 ^ 31 := by
    simp only [rotateSize] at hBytes
    omega
  obtain ⟨s', hInit, hs'⟩ := h.initial_open (loadInfo_frames pf hLt hTrailer) rfl
  have hLast : s'.wal.lastIdx = closed.flatten.length + recs.length := by
    rw [hs'.lastIdx_eq]
    -- without records the last index is that of the file before
    by_cases hEmpty : recs = []
    · simp [hEmpty]
    · have hPos : 0 < recs.length := length_pos_iff.mpr hEmpty
      simp only [hEmpty, if_false]
      rw [if_neg (by omega)]
      omega
  have hTotal : (⟨closed, recs, h.closed_ne⟩ : SegLog Bytes).lastIdx =
      closed.flatten.length + recs.length := SegLog.lastIdx_eq _
  refine ⟨s', hInit, ?_⟩
  constructor
  · exact
      { dir_eq := by rw [hs'.dir_eq]; exact h.dir_eq
        walFiles_eq := by rw [hs'.walFiles_eq]; simp [Base.empty]
        infos_eq := ⟨recoveredInfos pf 1 closed, _, hs'.infos_eq,
          closedInfos_recoveredInfos pf 1 closed, rfl, rfl, rfl⟩
        curWalFile_eq := by rw [hs'.curWalFile_eq]; simp [Base.empty]
        wFd_eq := hs'.wFd_eq
        curWalPos_eq := by rw [hs'.curWalPos_eq, Nat.mod_eq_of_lt (by omega)]
        startIdx_eq := hs'.startIdx_eq
        closed_ne := h.closed_ne
        fits := h.fits }
  · rw [hTotal, hLast, Nat.add_comm]
    rfl
  · rw [hTotal, hs'.nextIdx_eq, hLast]
    simp only [maxIndex] at hIndex
    rw [succ64_of_lt (by omega), Nat.add_comm]
    rfl
  · exact hBytes
  · rw [hTotal]
    show 1 + _ ≤ _
    omega

/-- The heap entry of a file loaded through a trailer with index `es`. -/
def loadedInfo (start : Nat) (es : List (Nat × Nat)) : WalFileInfo :=
  { es.foldl addEntry { startIndex := start } with loadFull := true }

theorem loadedInfo_startIndex (start : Nat) (es : List (Nat × Nat)) :
    (loadedInfo start es).startIndex = start := by
  simp [loadedInfo]

theorem loadedInfo_lastIndex (start : Nat) (es : List (Nat × Nat)) :
    (loadedInfo start es).lastIndex = greatestIndex es :=
  foldl_addEntry_lastIndex { startIndex := start } es

theorem loadedInfo_lookup (start : Nat) (es : List (Nat × Nat)) (i : Nat) :
    (loadedInfo start es).ivts.lookup i = es.lookup i := by
  show (es.foldl addEntry { startIndex := start }).ivts.lookup i = _
  rw [foldl_addEntry_lookup]
  simp

/-- A last file that ends in a trailer opens with the index it stores. -/
theorem LastFile.initial_trailer (h : LastFile pf dir closed data)
    (hEnds : EndsInTrailer pf data pos size) (hStores : StoresIndex data pos size es) :
    ∃ s', Session.initial pf dir = some s' ∧
      OpenedNew pf dir closed (loadedInfo (1 + closed.flatten.length) es) s' :=
  h.initial_full ((loadInfo_eq_ok_iff hEnds).mpr ⟨es, hStores, rfl⟩) rfl

theorem LastFile.of_initial_trailer (h : LastFile pf dir closed data)
    (hEnds : EndsInTrailer pf data pos size) (hInit : Session.initial pf dir = some s') :
    ∃ es, StoresIndex data pos size es ∧
      OpenedNew pf dir closed (loadedInfo (1 + closed.flatten.length) es) s' := by
  cases hLoad : WalFileInfo.loadInfo pf { startIndex := 1 + closed.flatten.length } data with
  | error e =>
    rw [h.initial_error hLoad] at hInit
    cases hInit
  | ok info =>
    obtain ⟨es, hStores, hInfo⟩ := (loadInfo_eq_ok_iff hEnds).mp hLoad
    obtain ⟨s'', hInit', hOpened⟩ := h.initial_trailer hEnds hStores
    rw [hInit] at hInit'
    cases hInit'
    exact ⟨es, hStores, hOpened⟩

theorem flatten_split_le {α : Type} {closed pre post : List (List α)} {seg : List α}
    (h : closed = pre ++ seg :: post) :
    pre.flatten.length + seg.length ≤ closed.flatten.length := by
  rw [h, flatten_append, flatten_cons, length_append, length_append]
  omega

/-- Indices past the closed files are read through the loaded index. -/
theorem LastFile.entryAt_last (h : LastFile pf dir closed data)
    (hs : OpenedNew pf dir closed (loadedInfo (1 + closed.flatten.length) es) s')
    (hMax : greatestIndex es ≤ maxIndex) (hGt : closed.flatten.length < i)
    (hLe : i ≤ greatestIndex es) (p : Bytes) :
    s'.entryAt pf i = some (frame p) ↔
      ∃ ivt, es.lookup i = some ivt ∧ Locates data ivt (frame p) := by
  have hLast := loadedInfo_lastIndex (1 + closed.flatten.length) es
  have hRead := h.entryAt_loaded hs (by rw [hLast]; exact hMax) (loadedInfo_startIndex _ _)
    (i := i) (by omega) (by rw [hLast]; exact hLe) ?_ (frame_ne_nil p)
  · rw [hRead, loadedInfo_lookup]
  · intro pre seg post hSplit hLo hHi
    have := flatten_split_le hSplit
    omega

/-- Indices of closed files are read from them. -/
theorem LastFile.entryAt_first (h : LastFile pf dir closed data)
    (hs : OpenedNew pf dir closed (loadedInfo (1 + closed.flatten.length) es) s')
    (hMax : greatestIndex es ≤ maxIndex) (hPos : 1 ≤ i) (hLe : i ≤ closed.flatten.length)
    (hEnd : closed.flatten.length ≤ greatestIndex es) {p : Bytes}
    (hGet : closed.flatten[i - 1]? = some p) : s'.entryAt pf i = some (frame p) := by
  have hLast := loadedInfo_lastIndex (1 + closed.flatten.length) es
  obtain ⟨pre, seg, post, hSplit, hLo, hHi⟩ := SegLog.exists_segment hPos hLe
  have hTotal := flatten_split_le hSplit
  rw [SegLog.getElem?_of_segment hSplit hLo hHi] at hGet
  exact h.entryAt_closed hs (by rw [hLast]; exact hMax) hSplit hLo hGet (by rw [hLast]; omega)

/-- **Opening the log again gives the same log exactly when** the last file does
not end in a trailer, or ends in one whose index happens to describe the file. -/
theorem Represents.reopen_iff (h : Represents pf .empty s l) :
    (∃ s', Session.initial pf s.dir = some s' ∧ SameLog pf s s') ↔
      (∀ pos size, ¬EndsInTrailer pf (frames l.cur) pos size) ∨
        TakenForRotated pf (frames l.cur) l.lastIdx l.curStart l.cur := by
  have hFile := h.lastFile
  have hLastIdx := h.lastIdx_eq_length
  have hStartIdx := h.holds.startIdx_eq
  have hIndex : l.lastIdx ≤ maxIndex := by
    have := h.index_le
    simp only [Base.empty] at this
    omega
  have hLength := l.lastIdx_eq
  have hCurStart : l.curStart = 1 + l.closed.flatten.length := Nat.add_comm _ _
  constructor
  · rintro ⟨s', hInit, hSame⟩
    by_cases hNone : ∀ pos size, ¬EndsInTrailer pf (frames l.cur) pos size
    · exact Or.inl hNone
    · right
      push Not at hNone
      obtain ⟨pos, size, hEnds⟩ := hNone
      obtain ⟨es, hStores, hOpened⟩ := hFile.of_initial_trailer hEnds hInit
      have hGreatest : greatestIndex es = l.lastIdx := by
        rw [← loadedInfo_lastIndex (1 + l.closed.flatten.length), ← hOpened.lastIdx_eq,
          hSame.lastIdx, hLastIdx]
      refine ⟨pos, size, es, hEnds, hStores, hGreatest, ?_⟩
      -- each record of the last file is read back through the loaded index
      intro j p hp
      have hj := (List.getElem?_eq_some_iff.mp hp).1
      have hGet : l.entries[l.curStart + j - 1]? = some p := by
        have hIdx : l.curStart + j - 1 - l.closed.flatten.length = j := by omega
        rw [SegLog.entries, getElem?_append_right (by omega), hIdx, hp]
      have hRead : s'.entryAt pf (l.curStart + j) = some (frame p) := by
        rw [hSame.entryAt, h.entryAt_of_get (by omega) hGet]
      exact (hFile.entryAt_last hOpened (by omega) (by omega) (by omega) p).mp hRead
  · rintro (hNone | ⟨pos, size, es, hEnds, hStores, hGreatest, hDescribes⟩)
    · obtain ⟨s', hInit, hRep⟩ := reopen_represents hFile h.cur_le (by omega)
        (trailer_eq_none_iff.mpr hNone)
      exact ⟨s', hInit, h.sameLog hRep⟩
    · obtain ⟨s', hInit, hOpened⟩ := hFile.initial_trailer hEnds hStores
      have hLast' : s'.wal.lastIdx = l.lastIdx := by
        rw [hOpened.lastIdx_eq, loadedInfo_lastIndex, hGreatest]
      refine ⟨s', hInit, ?_, ?_, ?_, ?_⟩
      · rw [hOpened.startIdx_eq, hStartIdx]
      · rw [hLast', hLastIdx]
      · rw [hOpened.nextIdx_eq, hLast', h.nextIdx_eq]
        simp only [maxIndex] at hIndex
        rw [succ64_of_lt (by omega), Nat.add_comm]
        rfl
      · intro i
        by_cases hIn : 1 ≤ i ∧ i ≤ l.lastIdx
        · obtain ⟨hPos, hLe⟩ := hIn
          obtain ⟨p, hp⟩ : ∃ p, l.entries[i - 1]? = some p :=
            ⟨_, getElem?_eq_getElem (by unfold SegLog.lastIdx at hLe; omega)⟩
          rw [h.entryAt_of_get hPos hp]
          by_cases hClosed : i ≤ l.closed.flatten.length
          · rw [SegLog.entries, getElem?_append_left (by omega)] at hp
            exact hFile.entryAt_first hOpened (by omega) hPos hClosed (by omega) hp
          · rw [SegLog.entries, getElem?_append_right (by omega)] at hp
            rw [hFile.entryAt_last hOpened (by omega) (by omega) (by omega) p]
            have hAt : l.curStart + (i - 1 - l.closed.flatten.length) = i := by omega
            have := hDescribes (i - 1 - l.closed.flatten.length) p hp
            rwa [hAt] at this
        · rw [entryAt_eq_none (by rw [hOpened.startIdx_eq, hLast']; omega),
            entryAt_eq_none (by rw [hStartIdx, hLastIdx]; omega)]

end Reopen

/-- The condition on the last file, for every sequence of appends. -/
theorem reopen_same_iff (pf : Platform) (ps : List Bytes)
    (hps : ∀ p ∈ ps, p.length ≤ maxPayload) (hCount : ps.length ≤ maxIndex) :
    ∃ s, written pf ps = some s ∧
      ((∃ s', Session.initial pf s.dir = some s' ∧ SameLog pf s s') ↔
        (∀ pos size, ¬EndsInTrailer pf (frames (logOf ps).cur) pos size) ∨
          TakenForRotated pf (frames (logOf ps).cur) ps.length (logOf ps).curStart
            (logOf ps).cur) := by
  obtain ⟨s, hWritten, hRep⟩ := written_represents pf ps hps hCount
  have hIff := hRep.reopen_iff
  rw [logOf_lastIdx] at hIff
  exact ⟨s, hWritten, hIff⟩

/-- Three short records, one of them empty: their file is too short to end in a trailer. -/
theorem reopen_three_records :
    ∃ s, written .constant [[0x61], [], [0x62, 0x63]] = some s ∧
      ∃ s', Session.initial .constant s.dir = some s' ∧ SameLog .constant s s' := by
  obtain ⟨s, hWritten, hIff⟩ := reopen_same_iff .constant [[0x61], [], [0x62, 0x63]] (by decide)
    (by decide)
  refine ⟨s, hWritten, hIff.mpr (Or.inl ?_)⟩
  exact trailer_eq_none_iff.mp rfl

/-- A payload that is eight zero bytes and their md5. -/
def forgedPayload (pf : Platform) : Bytes :=
  List.replicate 8 0 ++ pf.md5AndEncode (List.replicate 8 0)

/-- A log whose last record is such a payload does not open again, whatever the
md5 function is: the trailer points to an index of length zero. -/
theorem forgedPayload_not_reopened (pf : Platform) :
    ∃ s, written pf [forgedPayload pf] = some s ∧ s.wal.lastIdx = 1 ∧
      Session.initial pf s.dir = none := by
  have hMd5 := pf.md5_length (List.replicate 8 0)
  have hLen : (forgedPayload pf).length = 73 := by
    rw [forgedPayload, length_append, hMd5]
    rfl
  obtain ⟨s, hWritten, hRep⟩ := written_represents pf [forgedPayload pf]
    (by intro p hp; rw [mem_singleton] at hp; rw [hp, hLen]; decide)
    (by rw [length_singleton]; decide)
  have hCur : (logOf [forgedPayload pf]).cur = [forgedPayload pf] := by
    refine (SegLog.append_of_not_full (l := SegLog.empty) (a := forgedPayload pf) ?_).2
    simp [SegLog.empty, walFull, hLen, rotateSize]
  have hEnds : EndsInTrailer pf (frames (logOf [forgedPayload pf]).cur) 0 0 := by
    refine ⟨by decide, by decide, be 4 73, by decide, ?_⟩
    have hKey : be 4 0 ++ be 4 0 = List.replicate 8 0 := by decide
    rw [hCur, frames_cons, frames_nil, append_nil, frame, hLen, hKey, forgedPayload,
      append_assoc]
  refine ⟨s, hWritten, ?_, ?_⟩
  · rw [hRep.lastIdx_eq_length, logOf_lastIdx]
    rfl
  · cases hInit : Session.initial pf s.dir with
    | none => rfl
    | some s' =>
      -- an index of no bytes has no entry count
      obtain ⟨es, ⟨_, _, _, _, rest, hRead⟩, _⟩ := hRep.lastFile.of_initial_trailer hEnds hInit
      have := congrArg List.length hRead
      simp only [pread, take_zero, length_nil, length_append, be_length] at this
      omega

/-- The same on a concrete platform. -/
theorem reopen_forged_trailer_fails :
    ∃ s, written .constant [forgedPayload .constant] = some s ∧ s.wal.lastIdx = 1 ∧
      Session.initial .constant s.dir = none :=
  forgedPayload_not_reopened .constant

end MyBase
