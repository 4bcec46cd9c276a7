import MyBase.Lib.OrdMap
import MyBase.Wal.FileInfo

/-!
# MyBase — the write-ahead log

The class `Wal` of `common/wal.cc`, with the directory it works on made
explicit: a `Session` is a running `Wal` together with its directory.

* The directory maps the index a file is named by to the bytes of the file.
  The names are 19 digits long and zero-padded, so sorting them as strings is
  sorting them as numbers.
* `WalFileInfo` objects are shared between `walFiles` and `curWalFile`; the
  model keeps them in a heap `infos` and passes positions in it around.
* Files are opened with `O_APPEND`: every write goes to the end of the file,
  whatever `curWalPos` says.
* Opening and writing files succeeds.

`appendLog` and `writeAt` are the calls of a single thread: the writer finds
the queue empty, becomes the leader and writes a batch of one.
-/

namespace MyBase

open Lib

/-- The key under which `walFiles` holds the file that takes the appends. -/
def sMaxLogIndex : Nat := 0xFFFFFFFFFFFFFFFF

/-- A file is rotated when the append position is past 16 MiB. -/
def rotateSize : Nat := 16 * 1024 * 1024

/-- `+ 1` and `- 1` on `uint64_t`. -/
def succ64 (n : Nat) : Nat := (n + 1) % 2 ^ 64

def pred64 (n : Nat) : Nat := (n + (2 ^ 64 - 1)) % 2 ^ 64

theorem succ64_of_lt {n : Nat} (h : n + 1 < 2 ^ 64) : succ64 n = n + 1 :=
  Nat.mod_eq_of_lt h

theorem pred64_of_pos {n : Nat} (hPos : 0 < n) (h : n < 2 ^ 64) : pred64 n = n - 1 := by
  unfold pred64
  omega

abbrev Dir := OrdMap Nat Bytes

/-- The content of a file. -/
def fileData (dir : Dir) (file : Nat) : Bytes := (dir.find? file).getD []

structure Wal where
  /-- The heap of `WalFileInfo` objects; the other fields hold positions in it. -/
  infos : List WalFileInfo := []
  walFiles : OrdMap Nat Nat := ∅
  curWalFile : Option Nat := none
  startIdx : Nat := 0
  lastIdx : Nat := 0
  nextIdx : Nat := 1
  curWalPos : Nat := 0
  wFd : Option Nat := none

structure Session where
  dir : Dir
  wal : Wal

namespace Session

-- Opening files

def prepareNewFile (s : Session) (startLogId : Nat) : Session :=
  let w := s.wal
  let walFiles :=
    match w.walFiles.find? sMaxLogIndex with
    | some info =>
      (if startLogId ≠ 1 then w.walFiles.emplace (pred64 startLogId) info
        else w.walFiles).erase sMaxLogIndex
    | none => w.walFiles
  { dir := s.dir.emplace startLogId []
    wal := { w with
      infos := w.infos ++ [{ startIndex := startLogId, status := .normal }]
      walFiles := walFiles.emplace sMaxLogIndex w.infos.length
      curWalFile := some w.infos.length
      curWalPos := 0
      wFd := some startLogId } }

/-- No file is open for appending, so none gets its last index as key. -/
theorem prepareNewFile_walFiles {s : Session} (h : s.wal.walFiles.find? sMaxLogIndex = none)
    (startLogId : Nat) : (s.prepareNewFile startLogId).wal.walFiles =
      s.wal.walFiles.emplace sMaxLogIndex s.wal.infos.length := by
  simp only [prepareNewFile, h]

/-- One file of the scan; `last` tells whether it is the last of the listing. -/
def scanFile (pf : Platform) (w : Wal) (file : Nat) (data : Bytes) (last : Bool) :
    Except LoadError (Option Wal) := do
  let startIdx := if w.startIdx = 0 then file else w.startIdx
  let info ← WalFileInfo.loadInfo pf { startIndex := file } data
  let w := { w with
    startIdx := startIdx
    infos := w.infos ++ [info.setNormal]
    curWalFile := some w.infos.length }
  let ptr := w.infos.length - 1
  if last then
    if info.loadFull then
      -- full: the scan leaves no file open for appending
      return some { w with
        wFd := none
        curWalPos := 0
        walFiles := w.walFiles.emplace info.lastIndex ptr
        lastIdx := info.lastIndex }
    else
      return some { w with
        wFd := some file
        curWalPos := data.length % 2 ^ 32
        walFiles := w.walFiles.emplace sMaxLogIndex ptr
        lastIdx := if info.lastIndex = 0 then info.startIndex - 1 else info.lastIndex }
  else if info.loadFull then
    return some { w with walFiles := w.walFiles.emplace info.lastIndex ptr }
  else
    return none

/-- `scanAllWalFiles` over the sorted listing; `none` where the source returns
false because a file before the last is not complete. -/
def scanAllWalFiles (pf : Platform) : Wal → List (Nat × Bytes) → Except LoadError (Option Wal)
  | w, [] => return some w
  | w, (file, data) :: rest =>
    -- the name of the file does not start with a number
    if file = 0 then scanAllWalFiles pf w rest
    else do
      match ← scanFile pf w file data rest.isEmpty with
      | none => return none
      | some w => scanAllWalFiles pf w rest

/-- `Wal::initial` of a fresh object on a directory; `none` when it does not
return true. -/
def initial (pf : Platform) (dir : Dir) : Option Session :=
  match scanAllWalFiles pf {} dir.entries with
  | .ok (some w) =>
    let s : Session := ⟨dir, w⟩
    let s := if w.wFd = none then s.prepareNewFile (succ64 w.lastIdx) else s
    some { s with wal := { s.wal with
      startIdx := if s.wal.startIdx = 0 then 1 else s.wal.startIdx
      nextIdx := succ64 s.wal.lastIdx } }
  | _ => none

-- Writing

/-- Append to the file behind the write descriptor. -/
def write (s : Session) (data : Bytes) : Session :=
  match s.wal.wFd with
  | some file => { s with dir := s.dir.modify file (· ++ data) }
  | none => s

@[simp] theorem write_wal (s : Session) (data : Bytes) : (s.write data).wal = s.wal := by
  unfold write
  split <;> rfl

theorem write_dir {s : Session} {file : Nat} (h : s.wal.wFd = some file) (data : Bytes) :
    (s.write data).dir = s.dir.modify file (· ++ data) := by
  simp [write, h]

/-- Record one writer in the current file's index and move the append position. -/
def addWriter (pf : Platform) (s : Session) (seq : Nat) (data : Bytes) : Session :=
  let size := packIvt s.wal.curWalPos (4 + data.length)
  let infos :=
    match s.wal.curWalFile with
    | some ptr => s.wal.infos.modify ptr fun info =>
        info.insert pf (fileData s.dir info.startIndex) seq size
    | none => s.wal.infos
  { s with wal := { s.wal with
    infos := infos
    curWalPos := (s.wal.curWalPos + (4 + data.length)) % 2 ^ 32 } }

section addWriter

variable (pf : Platform) (s : Session) (seq : Nat) (data : Bytes)

@[simp] theorem addWriter_dir : (s.addWriter pf seq data).dir = s.dir := rfl

@[simp] theorem addWriter_walFiles :
    (s.addWriter pf seq data).wal.walFiles = s.wal.walFiles := rfl

@[simp] theorem addWriter_curWalFile :
    (s.addWriter pf seq data).wal.curWalFile = s.wal.curWalFile := rfl

@[simp] theorem addWriter_wFd : (s.addWriter pf seq data).wal.wFd = s.wal.wFd := rfl

@[simp] theorem addWriter_startIdx :
    (s.addWriter pf seq data).wal.startIdx = s.wal.startIdx := rfl

@[simp] theorem addWriter_nextIdx :
    (s.addWriter pf seq data).wal.nextIdx = s.wal.nextIdx := rfl

@[simp] theorem addWriter_curWalPos :
    (s.addWriter pf seq data).wal.curWalPos =
      (s.wal.curWalPos + (4 + data.length)) % 2 ^ 32 := rfl

end addWriter

/-- `buildBatchGroup`: the bytes of all queued writers, in queue order. -/
def buildBatchGroup (pf : Platform) : Session → List (Nat × Bytes) → Bytes × Session
  | s, [] => ([], s)
  | s, (seq, data) :: rest =>
    let (rep, s) := buildBatchGroup pf (addWriter pf s seq data) rest
    (be 4 data.length ++ data ++ rep, s)

/-- Write the index and the trailer behind the records and start a new file. -/
def rotate (pf : Platform) (s : Session) (lastSeq : Nat) : Session :=
  let idxbuf :=
    match s.wal.curWalFile.bind (s.wal.infos[·]?) with
    | some info => info.buildIndex pf
    | none => []
  let buf := be 4 s.wal.curWalPos ++ be 4 idxbuf.length
  (s.write (idxbuf ++ buf ++ pf.md5AndEncode buf)).prepareNewFile (succ64 lastSeq)

/-- What the leader does for a batch of writers ending with `lastSeq`. -/
def writeBatch (pf : Platform) (s : Session) (batch : List (Nat × Bytes)) (lastSeq : Nat) :
    Session :=
  let (rep, s) := buildBatchGroup pf s batch
  let s := s.write rep
  let s := if rotateSize < s.wal.curWalPos then s.rotate pf lastSeq else s
  { s with wal := { s.wal with lastIdx := lastSeq } }

def appendLog (pf : Platform) (s : Session) (data : Bytes) : Session :=
  let seq := s.wal.nextIdx
  writeBatch pf { s with wal := { s.wal with nextIdx := succ64 seq } } [(seq, data)] seq

/-- `Wal::rollback`: drop the files behind the one that holds `lastIdx`, and
continue appending in that one. -/
def rollback (s : Session) (lastIdx : Nat) : Session :=
  match s.wal.walFiles.lowerBound lastIdx with
  | none => s
  | some (endIdx, ptr) =>
    let size := ((s.wal.infos[ptr]?).map fun info => (info.rollback lastIdx).1).getD 0
    { s with wal := { s.wal with
      walFiles := s.wal.walFiles.keepLe endIdx
      infos := s.wal.infos.modify ptr fun info => (info.rollback lastIdx).2
      curWalFile := some ptr
      curWalPos := size
      nextIdx := succ64 lastIdx } }

/-- `Wal::writeAt`; `none` when the index is past the end. -/
def writeAt (pf : Platform) (s : Session) (idx : Nat) (data : Bytes) : Option Session :=
  if s.wal.nextIdx < idx then none
  else
    let s := if idx < s.wal.nextIdx then s.rollback (pred64 idx) else s
    some (s.appendLog pf data)

-- Reading

/-- The index entry of `idx` in the file behind a `walFiles` position. -/
def ivtAt (pf : Platform) (s : Session) (ptr idx : Nat) : Nat :=
  match s.wal.infos[ptr]? with
  | some info => info.getIvtIndex pf (fileData s.dir info.startIndex) idx
  | none => 0

/-- The content of the file behind a `walFiles` position. -/
def dataAt (s : Session) (ptr : Nat) : Bytes :=
  match s.wal.infos[ptr]? with
  | some info => fileData s.dir info.startIndex
  | none => []

def entryAt (pf : Platform) (s : Session) (idx : Nat) : Option Bytes :=
  if idx < s.wal.startIdx ∨ s.wal.lastIdx < idx then none
  else
    match s.wal.walFiles.lowerBound idx with
    | none => none
    | some (_, ptr) =>
      let ivt := s.ivtAt pf ptr idx
      if ivt = 0 then none
      else
        let buf := pread (s.dataAt ptr) (ivtPos ivt) (ivtLength ivt)
        if buf.length ≠ ivtLength ivt then none else some buf

/-- The loop of `logEntries` that collects the lengths; `none` where an index
has no entry. -/
def collect (pf : Platform) (s : Session) (ptr : Nat) :
    List Nat → Nat → Nat → List Nat → Option (Nat × Nat × List Nat)
  | [], startPos, total, lengths => some (startPos, total, lengths)
  | idx :: rest, startPos, total, lengths =>
    let ivt := s.ivtAt pf ptr idx
    if ivt = 0 then none
    else
      let startPos := if startPos = 0xFFFFFFFF then ivtPos ivt else startPos
      collect pf s ptr rest startPos ((total + ivtLength ivt) % 2 ^ 32)
        (lengths ++ [ivtLength ivt])

/-- Cut a buffer into pieces of the given lengths. -/
def cutBuffer : List Nat → Bytes → List Bytes
  | [], _ => []
  | len :: rest, buf => buf.take len :: cutBuffer rest (buf.drop len)

def logEntries (pf : Platform) (s : Session) (sidx eidx : Nat) : List Bytes :=
  if eidx < sidx ∨ sidx < s.wal.startIdx ∨ s.wal.lastIdx < sidx ∨
      eidx < s.wal.startIdx ∨ s.wal.lastIdx < eidx then []
  else
    match s.wal.walFiles.lowerBound sidx with
    | none => []
    | some (key, ptr) =>
      let endIdx := if eidx < key then eidx else key
      match s.collect pf ptr (List.range' sidx (endIdx + 1 - sidx)) 0xFFFFFFFF 0 [] with
      | none => []
      | some (startPos, total, lengths) =>
        let buf := pread (s.dataAt ptr) startPos total
        if buf.length ≠ total then [] else cutBuffer lengths buf

/-- Append payloads one after another. -/
def appendAll (pf : Platform) (s : Session) (ps : List Bytes) : Session :=
  ps.foldl (appendLog pf) s

end Session

end MyBase
