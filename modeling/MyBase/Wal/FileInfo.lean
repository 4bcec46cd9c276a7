import MyBase.Public.Buffer

/-!
# MyBase — WAL file metadata

`WalFileInfo` of `common/wal.cc`: the in-memory index of one WAL file, how it
is filled while records are written, written out when the file is rotated, and
rebuilt from the file when the log is opened again.

A record on disk is its 4-byte big-endian length followed by the payload. A
rotated file carries behind its records the serialised index and a 73-byte
trailer: 8 bytes with the position and length of the index, and 65 bytes with
the hex md5 of those 8. `loadInfo` decides from these last 73 bytes whether the
file is complete; otherwise it walks over the record lengths.

`Platform` collects what the file format takes from outside the repository's
own logic: the md5 routine, as an arbitrary function with a 65-byte result, and
the iteration order of `std::unordered_map`, as an arbitrary permutation.
-/

namespace MyBase

open Lib

structure Platform where
  /-- `MD5AndEncode` into a zeroed 65-byte buffer. -/
  md5AndEncode : Bytes → Bytes
  md5_length : ∀ bs, (md5AndEncode bs).length = 65
  /-- The order in which a `std::unordered_map` is iterated. -/
  hashOrder : List (Nat × Nat) → List (Nat × Nat)
  hashOrder_perm : ∀ l, (hashOrder l).Perm l

/-- A platform to run examples on: the digest is constant and hash maps iterate
in insertion order. -/
def Platform.constant : Platform where
  md5AndEncode _ := List.replicate 65 0
  md5_length _ := List.length_replicate
  hashOrder l := l
  hashOrder_perm _ := List.Perm.refl _

-- The 64-bit index entry: position in the upper half, length in the lower

def packIvt (pos size : Nat) : Nat := (pos <<< 32) ||| size

def ivtPos (ivt : Nat) : Nat := (ivt >>> 32) % 2 ^ 32

def ivtLength (ivt : Nat) : Nat := ivt % 2 ^ 32

-- WalFileInfo

inductive Status
  | clean
  | loading
  | normal
  deriving DecidableEq, Repr

/-- One WAL file. The file is named by the index of its first record, so
`startIndex` also stands for the path and the descriptor. -/
structure WalFileInfo where
  startIndex : Nat
  lastIndex : Nat := 0
  status : Status := .clean
  loadFull : Bool := false
  /-- `std::unordered_map`, as the list of its entries in insertion order. -/
  ivts : List (Nat × Nat) := []
  deriving DecidableEq, Repr

/-- `unordered_map::emplace`: an entry that is already there stays. -/
def emplaceIvt (ivts : List (Nat × Nat)) (seq ivt : Nat) : List (Nat × Nat) :=
  if (ivts.lookup seq).isSome then ivts else ivts ++ [(seq, ivt)]

/-- Why reading from a file does not come back with what was asked for. -/
inductive LoadError
  /-- `pread` returned fewer bytes than asked for, which is reported. -/
  | shortRead
  /-- A `Buffer` read ran past the end of its data; the process aborts. -/
  | assertion
  /-- A loop does not end: the length walk never reaches the end of the file, or a
  buffer is not allocated. -/
  | endless
  /-- Bytes are written behind a buffer. -/
  | overflow
  /-- A buffer is handed out with bytes that were not read. -/
  | unread
  deriving DecidableEq, Repr

namespace WalFileInfo

def setNormal (info : WalFileInfo) : WalFileInfo := { info with status := .normal }

/-- The serialised index: the number of entries, then each of them. -/
def buildIndex (pf : Platform) (info : WalFileInfo) : Bytes :=
  be 4 info.ivts.length ++
    (pf.hashOrder info.ivts).flatMap fun e => be 8 e.1 ++ be 8 e.2

/-- Read `count` index entries from a buffer. -/
def readIndex : Nat → Bytes → WalFileInfo → Except LoadError WalFileInfo
  | 0, _, info => .ok info
  | count + 1, buf, info =>
    match readInt 8 buf with
    | none => .error .assertion
    | some (seq, buf) =>
      match readInt 8 buf with
      | none => .error .assertion
      | some (idx, buf) =>
        readIndex count buf
          { info with
            ivts := emplaceIvt info.ivts seq idx
            lastIndex := if info.lastIndex < seq then seq else info.lastIndex }

/-- The position and length of the index, when the last 73 bytes of the file
are 8 bytes followed by their md5. -/
def trailer (pf : Platform) (file : Bytes) : Option (Nat × Nat) :=
  if file.length ≤ 73 then none
  else
    let buf := pread file (file.length - 73) 73
    if pf.md5AndEncode (buf.take 8) = buf.drop 8 then
      some (ofBe (buf.take 4), ofBe ((buf.drop 4).take 4))
    else none

/-- The number of entries, and as many entries. -/
def readStored (info : WalFileInfo) (buf : Bytes) : Except LoadError WalFileInfo :=
  match readInt 4 buf with
  | none => .error .assertion
  | some (count, buf) =>
    (readIndex count buf info).map fun info => { info with loadFull := true }

/-- Allocate a buffer and read `size` bytes at `pos` into it. -/
def readBuffer (file : Bytes) (pos size : Nat) : Except LoadError Bytes :=
  match Buffer.alloc size with
  | none => .error .endless
  | some len =>
    let buf := pread file pos size
    if len < buf.length then .error .overflow
    else if buf.length ≠ size then .error .shortRead
    else .ok buf

/-- The size can be allocated; or it is negative, and there are no more bytes than the least
buffer has. -/
def Readable (file : Bytes) (pos size : Nat) : Prop :=
  size ≤ 2 ^ 30 ∨ (2 ^ 31 ≤ size ∧ file.length - pos ≤ 256)

section readBuffer

variable {file : Bytes} {pos size : Nat}

theorem readBuffer_of_readable (h : Readable file pos size) :
    readBuffer file pos size =
      if size ≤ file.length - pos then .ok (pread file pos size) else .error .shortRead := by
  have hLen := pread_length file pos size
  rcases h with hSize | ⟨hNeg, hFew⟩
  · obtain ⟨len, hAlloc, hLe⟩ := Buffer.alloc_of_le hSize
    rw [readBuffer, hAlloc]
    simp only [show ¬ len < (pread file pos size).length by omega, if_false]
    by_cases hThere : size ≤ file.length - pos
    · rw [if_neg (by omega), if_pos hThere]
    · rw [if_pos (by omega), if_neg hThere]
  · rw [readBuffer, Buffer.alloc_of_ge hNeg]
    simp only [show ¬ 256 < (pread file pos size).length by omega, if_false]
    rw [if_pos (by omega), if_neg (by omega)]

/-- A size in between is not allocated, and a negative one is overrun. -/
theorem readBuffer_of_not_readable (h : ¬ Readable file pos size) :
    readBuffer file pos size = .error (if size < 2 ^ 31 then .endless else .overflow) := by
  unfold Readable at h
  have hLen := pread_length file pos size
  by_cases hPos : size < 2 ^ 31
  · rw [readBuffer, Buffer.alloc_eq_none (by omega) hPos, if_pos hPos]
  · rw [readBuffer, Buffer.alloc_of_ge (by omega), if_neg hPos]
    simp only [show 256 < (pread file pos size).length by omega, if_true]

end readBuffer

/-- Load the index a trailer points to. -/
def loadIndex (info : WalFileInfo) (file : Bytes) (pos size : Nat) :
    Except LoadError WalFileInfo :=
  (readBuffer file pos size).bind info.readStored

/-- Walk over the records by their lengths. The loop variables are 32-bit; a
walk that comes back to an offset it has seen goes on forever, so it is endless
exactly when it makes more steps than the file has bytes (`fuel`). -/
def scanRecords (file : Bytes) : Nat → Nat → Nat → WalFileInfo → Except LoadError WalFileInfo
  | 0, _, _, _ => .error .endless
  | fuel + 1, lastIdx, pos, info =>
    if pos < file.length then
      let buf := pread file pos 4
      if buf.length ≠ 4 then .error .shortRead
      else
        let vsize := (4 + ofBe buf) % 2 ^ 32
        scanRecords file fuel (lastIdx + 1) ((pos + vsize) % 2 ^ 32)
          { info with
            ivts := emplaceIvt info.ivts lastIdx (packIvt pos vsize)
            lastIndex := lastIdx }
    else .ok info

def loadInfo (pf : Platform) (info : WalFileInfo) (file : Bytes) :
    Except LoadError WalFileInfo :=
  match trailer pf file with
  | some (pos, size) => loadIndex info file pos size
  | none => scanRecords file (file.length + 1) info.startIndex 0 info

/-- Load the index on first use. -/
def ensureNormal (pf : Platform) (info : WalFileInfo) (file : Bytes) :
    Except LoadError WalFileInfo :=
  if info.status = .normal then .ok info
  else (loadInfo pf info file).map setNormal

def insert (pf : Platform) (info : WalFileInfo) (file : Bytes) (seq size : Nat) :
    WalFileInfo :=
  match ensureNormal pf info file with
  | .ok info => { info with ivts := emplaceIvt info.ivts seq size }
  | .error _ => info

def getIvtIndex (pf : Platform) (info : WalFileInfo) (file : Bytes) (seq : Nat) : Nat :=
  match ensureNormal pf info file with
  | .ok info => (info.ivts.lookup seq).getD 0
  | .error _ => 0

/-- `WalFileInfo::rollback`: the append position after `idx`, and the index
without the entries between `idx` and `lastIndex`. -/
def rollback (info : WalFileInfo) (idx : Nat) : Nat × WalFileInfo :=
  if idx < info.startIndex ∨ info.lastIndex < idx then (0, info)
  else
    let info := { info with
      ivts := info.ivts.filter fun e => !decide (idx + 1 ≤ e.1 ∧ e.1 < info.lastIndex) }
    match info.ivts.lookup idx with
    | none => (0, info)
    | some ivt => ((ivtPos ivt + ivtLength ivt) % 2 ^ 32, info)

end WalFileInfo

end MyBase
