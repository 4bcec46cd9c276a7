import MyBase.Lib.SegLog
import MyBase.Wal.Format
import MyBase.Wal.Wal

/-!
# MyBase — the WAL refines a segmented log

The abstract log of `Lib.SegLog` says what the class is for: records numbered
from 1, stored in files that are closed when they pass 16 MiB. `Represents`
relates a session to the abstract log it stores: every file of the directory,
every key of `walFiles` and every index entry is determined by the log.

* `Represents.appendLog` — `appendLog` is `SegLog.append`;
* `Represents.entryAt` / `Represents.logEntries` — reads return what the
  abstract log holds, each record with its length in front.

The bounds are those of the source's types: a payload and its length have to
fit in a `Buffer`, whose capacity is a power of two below 2^31 (`maxPayload`),
and the indices are printed into file names as signed 64-bit numbers
(`maxIndex`).
-/

namespace MyBase

open Lib List

/-- The longest payload a `Buffer` can take together with its length. -/
def maxPayload : Nat := 2 ^ 30 - 4

/-- The number of records a log can hold with its indices still in range. -/
def maxIndex : Nat := 2 ^ 63 - 1

/-- The records of a file that is rotated. -/
def walFull (recs : List Bytes) : Bool := decide (rotateSize < (frames recs).length)

-- What the closed files look like

/-- The rotated files, the first with the record `start`. -/
def closedFiles (pf : Platform) : Nat → List (List Bytes) → List (Nat × Bytes)
  | _, [] => []
  | start, seg :: rest =>
    (start, sealedFile pf start seg) :: closedFiles pf (start + seg.length) rest

/-- Their entries of `walFiles`: the last index, and the position on the heap. -/
def closedKeys : Nat → Nat → List (List Bytes) → List (Nat × Nat)
  | _, _, [] => []
  | start, ptr, seg :: rest =>
    (start + seg.length - 1, ptr) :: closedKeys (start + seg.length) (ptr + 1) rest

/-- `info` holds the index of the records `recs`, in some order. -/
structure InfoOf (info : WalFileInfo) (start : Nat) (recs : List Bytes) : Prop where
  start_eq : info.startIndex = start
  normal : info.status = .normal
  ivts : info.ivts.Perm (ivtsFrom start 0 recs)

/-- Their entries on the heap. -/
def ClosedInfos : Nat → List WalFileInfo → List (List Bytes) → Prop
  | _, [], [] => True
  | start, info :: infos, seg :: rest =>
    InfoOf info start seg ∧ ClosedInfos (start + seg.length) infos rest
  | _, _, _ => False

/-- All of them fit the fields of the format. -/
def ClosedFits : Nat → List (List Bytes) → Prop
  | _, [] => True
  | start, seg :: rest => FileFits start seg ∧ ClosedFits (start + seg.length) rest

theorem closedFiles_append (pf : Platform) (start : Nat) (a b : List (List Bytes)) :
    closedFiles pf start (a ++ b) =
      closedFiles pf start a ++ closedFiles pf (start + a.flatten.length) b := by
  induction a generalizing start with
  | nil => simp [closedFiles]
  | cons seg rest ih =>
    rw [cons_append, closedFiles, closedFiles, ih, flatten_cons, length_append,
      cons_append, Nat.add_assoc]

theorem closedKeys_append (start ptr : Nat) (a b : List (List Bytes)) :
    closedKeys start ptr (a ++ b) =
      closedKeys start ptr a ++ closedKeys (start + a.flatten.length) (ptr + a.length) b := by
  induction a generalizing start ptr with
  | nil => simp [closedKeys]
  | cons seg rest ih =>
    rw [cons_append, closedKeys, closedKeys, ih, flatten_cons, length_append,
      cons_append, length_cons]
    congr 3 <;> omega

variable {start : Nat} {infos : List WalFileInfo} {closed a b : List (List Bytes)}

theorem closedFits_append :
    ClosedFits start (a ++ b) ↔
      ClosedFits start a ∧ ClosedFits (start + a.flatten.length) b := by
  induction a generalizing start with
  | nil => simp [ClosedFits]
  | cons seg rest ih =>
    rw [cons_append, ClosedFits, ClosedFits, ih, flatten_cons, length_append,
      and_assoc, Nat.add_assoc]

theorem ClosedInfos.length_eq (h : ClosedInfos start infos closed) :
    infos.length = closed.length := by
  induction closed generalizing start infos with
  | nil =>
    cases infos with
    | nil => rfl
    | cons => exact h.elim
  | cons seg rest ih =>
    cases infos with
    | nil => exact h.elim
    | cons info infos => simp [ih h.2]

theorem ClosedInfos.append {infos' : List WalFileInfo} (ha : ClosedInfos start infos a)
    (hb : ClosedInfos (start + a.flatten.length) infos' b) :
    ClosedInfos start (infos ++ infos') (a ++ b) := by
  induction a generalizing start infos with
  | nil =>
    cases infos with
    | nil => simpa using hb
    | cons => exact ha.elim
  | cons seg rest ih =>
    cases infos with
    | nil => exact ha.elim
    | cons info infos =>
      refine ⟨ha.1, ih ha.2 ?_⟩
      rw [flatten_cons, length_append, ← Nat.add_assoc] at hb
      exact hb

theorem ClosedInfos.getElem? {pre post : List (List Bytes)} {seg : List Bytes}
    (h : ClosedInfos start infos (pre ++ seg :: post)) :
    ∃ info, infos[pre.length]? = some info ∧
      InfoOf info (start + pre.flatten.length) seg := by
  induction pre generalizing start infos with
  | nil =>
    cases infos with
    | nil => exact h.elim
    | cons info infos => exact ⟨info, rfl, h.1⟩
  | cons x pre ih =>
    cases infos with
    | nil => exact h.elim
    | cons info infos =>
      obtain ⟨info', hGet, hInfo⟩ := ih h.2
      refine ⟨info', by simpa using hGet, ?_⟩
      rw [flatten_cons, length_append, ← Nat.add_assoc]
      exact hInfo

theorem mem_closedFiles_key {pf : Platform} (hNe : ∀ seg ∈ closed, seg ≠ []) {e : Nat × Bytes}
    (he : e ∈ closedFiles pf start closed) : start ≤ e.1 ∧ e.1 < start + closed.flatten.length := by
  induction closed generalizing start with
  | nil => simp [closedFiles] at he
  | cons seg rest ih =>
    have hSeg : 0 < seg.length :=
      length_pos_iff.mpr (hNe seg (mem_cons_self ..))
    rw [flatten_cons, length_append]
    rcases mem_cons.mp he with rfl | he'
    · simp only
      omega
    · have := ih (fun x hx => hNe x (mem_cons_of_mem _ hx)) he'
      omega

theorem mem_closedKeys_key {ptr : Nat} (hNe : ∀ seg ∈ closed, seg ≠ []) {e : Nat × Nat}
    (he : e ∈ closedKeys start ptr closed) : start ≤ e.1 ∧ e.1 < start + closed.flatten.length := by
  induction closed generalizing start ptr with
  | nil => simp [closedKeys] at he
  | cons seg rest ih =>
    have hSeg : 0 < seg.length :=
      length_pos_iff.mpr (hNe seg (mem_cons_self ..))
    rw [flatten_cons, length_append]
    rcases mem_cons.mp he with rfl | he'
    · simp only
      omega
    · have := ih (fun x hx => hNe x (mem_cons_of_mem _ hx)) he'
      omega

-- Sessions that store given files

/-- What was there before the first record of interest: files, keys and heap
entries that appends leave alone. `start` is the index of that record. -/
structure Base where
  files : List (Nat × Bytes)
  keys : List (Nat × Nat)
  infos : List WalFileInfo
  start : Nat
  start_pos : 0 < start
  files_lt : ∀ e ∈ files, e.1 < start
  keys_lt : ∀ e ∈ keys, e.1 < start

/-- Nothing: the log starts at index 1. -/
def Base.empty : Base where
  files := []
  keys := []
  infos := []
  start := 1
  start_pos := Nat.one_pos
  files_lt := by simp
  keys_lt := by simp

/-- On top of the base the session stores the closed files `closed` and the
current file `cur`. The indices it reports are left open: they are behind while
a batch is written. -/
structure Holds (pf : Platform) (b : Base) (s : Session) (closed : List (List Bytes))
    (cur : List Bytes) : Prop where
  dir_eq : s.dir.entries = b.files ++ closedFiles pf b.start closed ++
    [(b.start + closed.flatten.length, frames cur)]
  walFiles_eq : s.wal.walFiles.entries = b.keys ++
    closedKeys b.start b.infos.length closed ++
    [(sMaxLogIndex, b.infos.length + closed.length)]
  infos_eq : ∃ infos curInfo, s.wal.infos = b.infos ++ infos ++ [curInfo] ∧
    ClosedInfos b.start infos closed ∧
    curInfo.startIndex = b.start + closed.flatten.length ∧ curInfo.status = .normal ∧
    curInfo.ivts = ivtsFrom (b.start + closed.flatten.length) 0 cur
  curWalFile_eq : s.wal.curWalFile = some (b.infos.length + closed.length)
  wFd_eq : s.wal.wFd = some (b.start + closed.flatten.length)
  curWalPos_eq : s.wal.curWalPos = (frames cur).length
  startIdx_eq : s.wal.startIdx = 1
  closed_ne : ∀ seg ∈ closed, seg ≠ []
  fits : ClosedFits b.start closed

/-- The session stores the abstract log `l` on top of the base. -/
structure Represents (pf : Platform) (b : Base) (s : Session) (l : SegLog Bytes) : Prop where
  holds : Holds pf b s l.closed l.cur
  lastIdx_eq : s.wal.lastIdx + 1 = b.start + l.lastIdx
  nextIdx_eq : s.wal.nextIdx = b.start + l.lastIdx
  cur_le : (frames l.cur).length ≤ rotateSize
  index_le : b.start + l.lastIdx ≤ maxIndex + 1

/-- A log opened on an empty directory is empty. -/
theorem Represents.initial_empty (pf : Platform) :
    ∃ s, Session.initial pf ∅ = some s ∧ Represents pf .empty s SegLog.empty := by
  refine ⟨_, rfl, ?_, rfl, rfl, by simp [SegLog.empty, rotateSize], by
    simp [Base.empty, SegLog.lastIdx, maxIndex]⟩
  exact
    { dir_eq := rfl
      walFiles_eq := rfl
      infos_eq := ⟨[], { startIndex := 1, status := .normal }, rfl, trivial, rfl, rfl, rfl⟩
      curWalFile_eq := rfl
      wFd_eq := rfl
      curWalPos_eq := rfl
      startIdx_eq := rfl
      closed_ne := by simp [SegLog.empty]
      fits := trivial }

-- Writing one record

section Writing

variable {pf : Platform} {b : Base} {s : Session} {closed : List (List Bytes)}
  {cur : List Bytes}

theorem Base.file_lt (b : Base) (hNe : ∀ seg ∈ closed, seg ≠ []) {e : Nat × Bytes}
    (he : e ∈ b.files ++ closedFiles pf b.start closed) :
    e.1 < b.start + closed.flatten.length := by
  rcases mem_append.mp he with he | he
  · have := b.files_lt e he
    omega
  · exact (mem_closedFiles_key hNe he).2

theorem Holds.key_lt (h : Holds pf b s closed cur) {e : Nat × Nat}
    (he : e ∈ b.keys ++ closedKeys b.start b.infos.length closed) :
    e.1 < b.start + closed.flatten.length := by
  rcases mem_append.mp he with he | he
  · have := b.keys_lt e he
    omega
  · exact (mem_closedKeys_key h.closed_ne he).2

theorem modify_append_singleton {α : Type} (l : List α) (a : α) (f : α → α) :
    (l ++ [a]).modify l.length f = l ++ [f a] := by
  induction l with
  | nil => rfl
  | cons x rest ih => simp [ih]

/-- The index entry of the next record goes to the end of a loaded index. -/
theorem insert_next {info : WalFileInfo} {start : Nat} (hNormal : info.status = .normal)
    (hIvts : info.ivts = ivtsFrom start 0 cur) (file p : Bytes) :
    info.insert pf file (start + cur.length) (packIvt (frames cur).length (4 + p.length)) =
      { info with ivts := ivtsFrom start 0 (cur ++ [p]) } := by
  have hNew : (info.ivts.lookup (start + cur.length)).isSome = false := by
    rw [hIvts, lookup_ivtsFrom_none (Or.inr (le_refl _))]
    rfl
  simp only [WalFileInfo.insert, WalFileInfo.ensureNormal, hNormal, if_true, emplaceIvt, hNew]
  rw [hIvts, ivtsFrom_append]
  simp [ivtsFrom]

/-- A record goes behind those of the current file. -/
theorem Holds.write_record (h : Holds pf b s closed cur) (p : Bytes)
    (hBytes : (frames cur).length + (4 + p.length) < 2 ^ 32) :
    Holds pf b
      ((s.addWriter pf (b.start + closed.flatten.length + cur.length) p).write (frame p))
      closed (cur ++ [p]) := by
  obtain ⟨infos, curInfo, hInfos, hClosed, hStart, hNormal, hIvts⟩ := h.infos_eq
  have hPtr : b.infos.length + closed.length = (b.infos ++ infos).length := by
    rw [length_append, hClosed.length_eq]
  set start := b.start + closed.flatten.length with hStartDef
  have hAdd : (s.addWriter pf (start + cur.length) p).wal.infos =
      b.infos ++ infos ++ [{ curInfo with ivts := ivtsFrom start 0 (cur ++ [p]) }] := by
    simp only [Session.addWriter, h.curWalFile_eq, h.curWalPos_eq, hInfos, hPtr]
    rw [modify_append_singleton, insert_next hNormal hIvts]
  have hFd : (s.addWriter pf (start + cur.length) p).wal.wFd = some start := h.wFd_eq
  constructor
  · -- the bytes go to the end of the current file
    rw [Session.write_dir hFd, Session.addWriter_dir, OrdMap.modify_last h.dir_eq]
    simp
  · simpa using h.walFiles_eq
  · exact ⟨infos, { curInfo with ivts := ivtsFrom start 0 (cur ++ [p]) },
      by rw [Session.write_wal, hAdd], hClosed, hStart, hNormal, rfl⟩
  · simpa using h.curWalFile_eq
  · simpa using h.wFd_eq
  · rw [Session.write_wal, Session.addWriter_curWalPos, h.curWalPos_eq, Nat.mod_eq_of_lt hBytes]
    simp
  · simpa using h.startIdx_eq
  · exact h.closed_ne
  · exact h.fits

theorem total_concat (start : Nat) (closed : List (List Bytes)) (cur : List Bytes) :
    start + (closed ++ [cur]).flatten.length = start + closed.flatten.length + cur.length := by
  rw [flatten_append, length_append]
  simp only [flatten_cons, flatten_nil, append_nil]
  omega

/-- The files when the current one gets its index and trailer and an empty one takes its
place. -/
theorem Base.rotate_dir {dir : Dir} (hNe : ∀ seg ∈ closed, seg ≠ []) (hCur : cur ≠ [])
    (hDir : dir.entries = b.files ++ closedFiles pf b.start closed ++
      [(b.start + closed.flatten.length, frames cur)]) :
    ((dir.modify (b.start + closed.flatten.length)
        (· ++ sealBytes pf (b.start + closed.flatten.length) cur)).emplace
      (b.start + closed.flatten.length + cur.length) []).entries =
    b.files ++ closedFiles pf b.start (closed ++ [cur]) ++
      [(b.start + (closed ++ [cur]).flatten.length, frames [])] := by
  have hPos : 0 < cur.length := length_pos_iff.mpr hCur
  have hTotal := total_concat b.start closed cur
  have hSealed : (dir.modify (b.start + closed.flatten.length)
      (· ++ sealBytes pf (b.start + closed.flatten.length) cur)).entries =
        b.files ++ closedFiles pf b.start (closed ++ [cur]) := by
    rw [OrdMap.modify_last hDir, closedFiles_append]
    simp only [closedFiles, sealedFile, append_assoc]
  rw [OrdMap.emplace_last, hSealed, hTotal]
  · rfl
  · rw [hSealed, closedFiles_append, ← append_assoc]
    intro e he
    rcases mem_append.mp he with he | he
    · have := b.file_lt hNe he
      omega
    · rw [closedFiles, closedFiles, mem_singleton] at he
      subst he
      simp only
      omega

/-- The keys: that of the file that was current moves from the sentinel to its last index,
and the new file gets the sentinel. -/
theorem Holds.rotate_walFiles (h : Holds pf b s closed cur) (hCur : cur ≠ []) {ptr : Nat}
    (hIdx : b.start + closed.flatten.length + cur.length ≤ 2 ^ 63) :
    (((s.wal.walFiles.emplace (b.start + closed.flatten.length + cur.length - 1)
        (b.infos.length + closed.length)).erase sMaxLogIndex).emplace sMaxLogIndex ptr).entries =
      b.keys ++ closedKeys b.start b.infos.length (closed ++ [cur]) ++ [(sMaxLogIndex, ptr)] := by
  have hPos : 0 < cur.length := length_pos_iff.mpr hCur
  have hKeyLt := fun e => h.key_lt (e := e)
  set start := b.start + closed.flatten.length with hStartDef
  have hKeysNew : closedKeys b.start b.infos.length (closed ++ [cur]) =
      closedKeys b.start b.infos.length closed ++
        [(start + cur.length - 1, b.infos.length + closed.length)] := by
    rw [closedKeys_append, ← hStartDef]
    simp [closedKeys]
  have hMoved : (s.wal.walFiles.emplace (start + cur.length - 1)
      (b.infos.length + closed.length)).entries =
      b.keys ++ closedKeys b.start b.infos.length (closed ++ [cur]) ++
        [(sMaxLogIndex, b.infos.length + closed.length)] := by
    rw [OrdMap.emplace_mid h.walFiles_eq, hKeysNew]
    · simp only [append_assoc, cons_append, nil_append]
    · intro e he
      have := hKeyLt e he
      omega
    · intro e he
      rw [mem_singleton] at he
      subst he
      simp only [sMaxLogIndex]
      omega
  have hErased := OrdMap.erase_last hMoved
  rw [OrdMap.emplace_last, hErased]
  rw [hErased, hKeysNew, ← append_assoc]
  intro e he
  simp only [sMaxLogIndex]
  rcases mem_append.mp he with he | he
  · have := hKeyLt e he
    omega
  · rw [mem_singleton] at he
    subst he
    simp only
    omega

theorem Session.rotate_seals {info : WalFileInfo} {start lastSeq : Nat}
    (hInfo : s.wal.curWalFile.bind (s.wal.infos[·]?) = some info)
    (hIvts : info.ivts = ivtsFrom start 0 cur) (hPos : s.wal.curWalPos = (frames cur).length)
    (hSeq : lastSeq + 1 = start + cur.length) (hLt : start + cur.length < 2 ^ 64) :
    s.rotate pf lastSeq =
      (s.write (sealBytes pf start cur)).prepareNewFile (start + cur.length) := by
  have hIndex : info.buildIndex pf = indexBytes pf start cur := by
    rw [WalFileInfo.buildIndex, hIvts, ivtsFrom_length, indexBytes]
  have hSucc : succ64 lastSeq = start + cur.length := by
    rw [succ64_of_lt (by omega), hSeq]
  simp only [Session.rotate, hInfo, hIndex, hPos, hSucc]
  rfl

/-- Rotating: the current file gets its index and trailer, and an empty file
takes its place. -/
theorem Holds.rotate (h : Holds pf b s closed cur) (hCur : cur ≠ [])
    (hFits : FileFits (b.start + closed.flatten.length) cur) (lastSeq : Nat)
    (hSeq : lastSeq + 1 = b.start + closed.flatten.length + cur.length) :
    Holds pf b (s.rotate pf lastSeq) (closed ++ [cur]) [] := by
  obtain ⟨infos, curInfo, hInfos, hClosed, hStart, hNormal, hIvts⟩ := h.infos_eq
  have hPtr : b.infos.length + closed.length = (b.infos ++ infos).length := by
    rw [length_append, hClosed.length_eq]
  have hStartPos := b.start_pos
  have hPos : 0 < cur.length := length_pos_iff.mpr hCur
  have hTotal := total_concat b.start closed cur
  set start := b.start + closed.flatten.length with hStartDef
  have hIdx := hFits.index
  -- what is written behind the records
  have hGet : s.wal.curWalFile.bind (s.wal.infos[·]?) = some curInfo := by
    rw [h.curWalFile_eq, hInfos, hPtr]
    simp
  have hRotate : s.rotate pf lastSeq =
      (s.write (sealBytes pf start cur)).prepareNewFile (start + cur.length) :=
    Session.rotate_seals hGet hIvts h.curWalPos_eq hSeq (by omega)
  have hNe : ∀ seg ∈ closed ++ [cur], seg ≠ [] := by
    intro seg hSeg
    rcases mem_append.mp hSeg with hSeg | hSeg
    · exact h.closed_ne seg hSeg
    · rw [mem_singleton] at hSeg
      rwa [hSeg]
  have hFind : s.wal.walFiles.find? sMaxLogIndex = some (b.infos.length + closed.length) :=
    OrdMap.find?_of_mem (by rw [h.walFiles_eq]; simp)
  rw [hRotate]
  constructor
  · show ((s.write (sealBytes pf start cur)).dir.emplace (start + cur.length) []).entries = _
    rw [Session.write_dir h.wFd_eq]
    exact Base.rotate_dir h.closed_ne hCur h.dir_eq
  · have hOne : start + cur.length ≠ 1 := by omega
    have hPred : pred64 (start + cur.length) = start + cur.length - 1 :=
      pred64_of_pos (by omega) (by omega)
    simp only [Session.prepareNewFile, Session.write_wal, hFind, hOne, hPred, ne_eq,
      not_false_eq_true, if_true]
    rw [h.rotate_walFiles hCur hIdx, hInfos, length_append, length_append,
      length_append, hClosed.length_eq]
    simp [Nat.add_assoc]
  · refine ⟨infos ++ [curInfo], { startIndex := start + cur.length, status := .normal }, ?_, ?_,
      hTotal.symm, rfl, rfl⟩
    · simp only [Session.prepareNewFile, Session.write_wal, hInfos, append_assoc]
    · refine hClosed.append ⟨⟨hStart, hNormal, ?_⟩, trivial⟩
      rw [hIvts]
  · simp only [Session.prepareNewFile, Session.write_wal, hInfos, length_append,
      hClosed.length_eq, length_singleton, Nat.add_assoc]
  · simp only [Session.prepareNewFile, hTotal]
  · rfl
  · simpa [Session.prepareNewFile] using h.startIdx_eq
  · exact hNe
  · rw [closedFits_append, ← hStartDef]
    exact ⟨h.fits, hFits, trivial⟩

end Writing

/-- The records of a file that took one more record fit the format. -/
theorem fileFits_append {start : Nat} {cur : List Bytes} {p : Bytes}
    (hCur : (frames cur).length ≤ rotateSize) (hp : p.length ≤ maxPayload)
    (hIndex : start + cur.length ≤ maxIndex) : FileFits start (cur ++ [p]) := by
  have hCount := four_mul_length_le_frames cur
  simp only [rotateSize] at hCur
  simp only [maxPayload] at hp
  simp only [maxIndex] at hIndex
  constructor
  · rw [length_append, length_singleton]
    omega
  · rw [frames_append, length_append]
    simp only [frames_cons, frames_nil, append_nil, frame_length]
    omega
  · rw [length_append, length_singleton]
    omega

theorem Session.writeBatch_singleton (pf : Platform) (s : Session) (seq : Nat) (p : Bytes) :
    s.writeBatch pf [(seq, p)] seq =
      (let t := (s.addWriter pf seq p).write (frame p)
       let t := if rotateSize < t.wal.curWalPos then t.rotate pf seq else t
       { t with wal := { t.wal with lastIdx := seq } }) := by
  simp only [Session.writeBatch, Session.buildBatchGroup, append_nil, frame]
  rfl

/-- The session after a record is written, before it is reported. -/
def Session.addRecord (pf : Platform) (s : Session) (p : Bytes) : Session :=
  Session.write (Session.addWriter pf
    { s with wal := { s.wal with nextIdx := succ64 s.wal.nextIdx } } s.wal.nextIdx p) (frame p)

section addRecord

variable (pf : Platform) (s : Session) (p : Bytes)

theorem Session.addRecord_dir {s : Session} {file : Nat} (h : s.wal.wFd = some file) :
    (s.addRecord pf p).dir = s.dir.modify file (· ++ frame p) := by
  have hFd : (Session.addWriter pf { s with wal := { s.wal with
      nextIdx := succ64 s.wal.nextIdx } } s.wal.nextIdx p).wal.wFd = some file := h
  rw [Session.addRecord, Session.write_dir hFd, Session.addWriter_dir]

@[simp] theorem Session.addRecord_walFiles :
    (s.addRecord pf p).wal.walFiles = s.wal.walFiles := by
  rw [Session.addRecord, Session.write_wal, Session.addWriter_walFiles]

@[simp] theorem Session.addRecord_startIdx :
    (s.addRecord pf p).wal.startIdx = s.wal.startIdx := by
  rw [Session.addRecord, Session.write_wal, Session.addWriter_startIdx]

@[simp] theorem Session.addRecord_nextIdx :
    (s.addRecord pf p).wal.nextIdx = succ64 s.wal.nextIdx := by
  rw [Session.addRecord, Session.write_wal, Session.addWriter_nextIdx]

@[simp] theorem Session.addRecord_curWalPos :
    (s.addRecord pf p).wal.curWalPos = (s.wal.curWalPos + (4 + p.length)) % 2 ^ 32 := by
  rw [Session.addRecord, Session.write_wal, Session.addWriter_curWalPos]

end addRecord

/-- The append: write the record, rotate if the file is past the limit, report it. -/
theorem Session.appendLog_eq (pf : Platform) (s : Session) (p : Bytes) :
    s.appendLog pf p =
      (let t := s.addRecord pf p
       let t := if rotateSize < t.wal.curWalPos then t.rotate pf s.wal.nextIdx else t
       { t with wal := { t.wal with lastIdx := s.wal.nextIdx } }) :=
  Session.writeBatch_singleton pf
    { s with wal := { s.wal with nextIdx := succ64 s.wal.nextIdx } } s.wal.nextIdx p

variable {pf : Platform} {s : Session} {b : Base} {p : Bytes} {l : SegLog Bytes}

theorem Session.appendLog_of_le (h : (s.addRecord pf p).wal.curWalPos ≤ rotateSize) :
    s.appendLog pf p =
      { s.addRecord pf p with
        wal := { (s.addRecord pf p).wal with lastIdx := s.wal.nextIdx } } := by
  have hNot : ¬rotateSize < (s.addRecord pf p).wal.curWalPos := by omega
  rw [Session.appendLog_eq]
  simp only [if_neg hNot]

/-- `Holds` does not depend on the indices a session reports. -/
theorem Holds.congr_indices {closed : List (List Bytes)} {cur : List Bytes}
    (h : Holds pf b s closed cur) (lastIdx nextIdx : Nat) :
    Holds pf b { s with wal := { s.wal with lastIdx := lastIdx, nextIdx := nextIdx } }
      closed cur :=
  { dir_eq := h.dir_eq
    walFiles_eq := h.walFiles_eq
    infos_eq := h.infos_eq
    curWalFile_eq := h.curWalFile_eq
    wFd_eq := h.wFd_eq
    curWalPos_eq := h.curWalPos_eq
    startIdx_eq := h.startIdx_eq
    closed_ne := h.closed_ne
    fits := h.fits }

theorem Session.rotate_nextIdx (pf : Platform) (s : Session) (lastSeq : Nat) :
    (s.rotate pf lastSeq).wal.nextIdx = s.wal.nextIdx := by
  simp [Session.rotate, Session.prepareNewFile]

/-- **`appendLog` is the abstract append.** -/
theorem Represents.appendLog (h : Represents pf b s l) (hp : p.length ≤ maxPayload)
    (hIndex : b.start + l.lastIdx ≤ maxIndex) :
    Represents pf b (s.appendLog pf p) (l.append walFull p) := by
  have hLast := l.lastIdx_eq
  have hNextIdx := h.nextIdx_eq
  have hFits : FileFits (b.start + l.closed.flatten.length) (l.cur ++ [p]) :=
    fileFits_append h.cur_le hp (by omega)
  have hSeq : s.wal.nextIdx = b.start + l.closed.flatten.length + l.cur.length := by omega
  have hBytes := hFits.bytes
  simp only [frames_append, frames_cons, frames_nil, append_nil, length_append,
    frame_length] at hBytes
  -- the record goes to the end of the current file
  have hWrite := (h.holds.congr_indices s.wal.lastIdx (succ64 s.wal.nextIdx)).write_record p
    (by omega)
  rw [← hSeq] at hWrite
  set t := s.addRecord pf p with ht
  replace hWrite : Holds pf b t l.closed (l.cur ++ [p]) := hWrite
  have hNext : t.wal.nextIdx = s.wal.nextIdx + 1 := by
    simp only [maxIndex] at hIndex
    rw [ht, Session.addRecord_nextIdx, succ64_of_lt (by omega)]
  have hPos : t.wal.curWalPos = (frames (l.cur ++ [p])).length := hWrite.curWalPos_eq
  have hResult := Session.appendLog_eq pf s p
  simp only [← ht] at hResult
  have hLastIdx := SegLog.append_lastIdx walFull l p
  rw [hResult, hPos]
  by_cases hFull : rotateSize < (frames (l.cur ++ [p])).length
  · -- the file is past the limit and is rotated
    obtain ⟨hClosed, hCur⟩ := SegLog.append_of_full (l := l) (a := p)
      (show walFull _ = true from decide_eq_true hFull)
    have hRot := hWrite.rotate (by simp) hFits s.wal.nextIdx (by
      rw [length_append, length_singleton]
      omega)
    simp only [if_pos hFull]
    constructor
    · rw [hClosed, hCur]
      exact hRot.congr_indices s.wal.nextIdx (t.rotate pf s.wal.nextIdx).wal.nextIdx
    · show s.wal.nextIdx + 1 = _
      omega
    · show (t.rotate pf s.wal.nextIdx).wal.nextIdx = _
      rw [Session.rotate_nextIdx, hNext]
      omega
    · rw [hCur]
      simp [rotateSize]
    · omega
  · obtain ⟨hClosed, hCur⟩ := SegLog.append_of_not_full (l := l) (a := p)
      (show walFull _ = false from decide_eq_false hFull)
    simp only [if_neg hFull]
    constructor
    · rw [hClosed, hCur]
      exact hWrite.congr_indices s.wal.nextIdx t.wal.nextIdx
    · show s.wal.nextIdx + 1 = _
      omega
    · show t.wal.nextIdx = _
      omega
    · rw [hCur]
      exact Nat.le_of_not_lt hFull
    · omega

theorem Represents.appendAll (h : Represents pf b s l) {ps : List Bytes}
    (hps : ∀ p ∈ ps, p.length ≤ maxPayload)
    (hIndex : b.start + l.lastIdx + ps.length ≤ maxIndex + 1) :
    Represents pf b (s.appendAll pf ps) (ps.foldl (SegLog.append walFull) l) := by
  induction ps generalizing s l with
  | nil => exact h
  | cons p ps ih =>
    rw [length_cons] at hIndex
    have hStep := h.appendLog (hps p (mem_cons_self ..)) (by omega)
    refine ih hStep (fun q hq => hps q (mem_cons_of_mem _ hq)) ?_
    rw [SegLog.append_lastIdx]
    omega

end MyBase
