import MyBase.Wal.Refine

/-!
# MyBase — batches of records

A leader collects the records of all queued writers in one buffer
(`buildBatchGroup`), writes the buffer and rotates the file if it has grown past the
limit. The index of the file and the append position are moved while the batch is built,
before anything is written; `Stores` describes the session at that point too.

A batch can be a thousand times longer than the limit, so files are longer here than
those of single appends (`Holds`), and only what the files contain is tracked.
-/

namespace MyBase

open Lib List

/-- The files are the closed ones and the current one, which holds `cur`; the records
`built` are in its index and not yet written. -/
structure Stores (pf : Platform) (b : Base) (s : Session) (closed : List (List Bytes))
    (cur built : List Bytes) : Prop where
  dir_eq : s.dir.entries = b.files ++ closedFiles pf b.start closed ++
    [(b.start + closed.flatten.length, frames cur)]
  info_eq : ∃ infos curInfo, s.wal.infos = infos ++ [curInfo] ∧
    s.wal.curWalFile = some infos.length ∧ curInfo.status = .normal ∧
    curInfo.ivts = ivtsFrom (b.start + closed.flatten.length) 0 (cur ++ built)
  wFd_eq : s.wal.wFd = some (b.start + closed.flatten.length)
  curWalPos_eq : s.wal.curWalPos = (frames (cur ++ built)).length
  closed_ne : ∀ seg ∈ closed, seg ≠ []

section Stores

variable {pf : Platform} {b : Base} {s : Session} {closed : List (List Bytes)}
  {cur built : List Bytes}

theorem Holds.stores (h : Holds pf b s closed cur) : Stores pf b s closed cur [] := by
  obtain ⟨infos, curInfo, hInfos, hClosed, -, hNormal, hIvts⟩ := h.infos_eq
  refine ⟨h.dir_eq, ⟨b.infos ++ infos, curInfo, hInfos, ?_, hNormal, ?_⟩, h.wFd_eq, ?_, h.closed_ne⟩
  · rw [h.curWalFile_eq, length_append, hClosed.length_eq]
  · rw [append_nil, hIvts]
  · rw [append_nil, h.curWalPos_eq]

section Records

variable (h : Stores pf b s closed cur built)
include h

theorem Stores.congr_indices (lastIdx nextIdx : Nat) :
    Stores pf b { s with wal := { s.wal with lastIdx := lastIdx, nextIdx := nextIdx } }
      closed cur built :=
  ⟨h.dir_eq, h.info_eq, h.wFd_eq, h.curWalPos_eq, h.closed_ne⟩

theorem Stores.addWriter (p : Bytes)
    (hBytes : (frames (cur ++ built)).length + (4 + p.length) < 2 ^ 32) :
    Stores pf b (s.addWriter pf (b.start + closed.flatten.length + (cur ++ built).length) p)
      closed cur (built ++ [p]) := by
  obtain ⟨infos, curInfo, hInfos, hFile, hNormal, hIvts⟩ := h.info_eq
  refine ⟨h.dir_eq, ?_, h.wFd_eq, ?_, h.closed_ne⟩
  · refine ⟨infos, { curInfo with
        ivts := ivtsFrom (b.start + closed.flatten.length) 0 (cur ++ built ++ [p]) },
      ?_, hFile, hNormal, by rw [append_assoc]⟩
    simp only [Session.addWriter, hFile, h.curWalPos_eq, hInfos]
    rw [modify_append_singleton, insert_next hNormal hIvts]
  · rw [Session.addWriter_curWalPos, h.curWalPos_eq, Nat.mod_eq_of_lt hBytes, ← append_assoc,
      frames_append (cur ++ built), length_append]
    simp

/-- The positions in a batch are the next indices, one after the other. -/
def Consecutive (first : Nat) (batch : List (Nat × Bytes)) : Prop :=
  ∀ i e, batch[i]? = some e → e.1 = first + i

/-- **The batch is built**: its bytes are the records, and the index knows all of them. -/
theorem Stores.buildBatchGroup {batch : List (Nat × Bytes)}
    (hSeq : Consecutive (b.start + closed.flatten.length + (cur ++ built).length) batch)
    (hBytes : (frames (cur ++ built)).length + (frames (batch.map Prod.snd)).length < 2 ^ 32) :
    (Session.buildBatchGroup pf s batch).1 = frames (batch.map Prod.snd) ∧
      Stores pf b (Session.buildBatchGroup pf s batch).2 closed cur
        (built ++ batch.map Prod.snd) := by
  induction batch generalizing s built with
  | nil =>
    rw [map_nil, append_nil]
    exact ⟨rfl, h⟩
  | cons e batch ih =>
    obtain ⟨seq, p⟩ := e
    rw [map_cons, frames_cons, length_append, frame_length] at hBytes
    dsimp only at hBytes
    have hHead : seq = b.start + closed.flatten.length + (cur ++ built).length := hSeq 0 _ rfl
    have hAdded := h.addWriter p (by omega)
    rw [← hHead] at hAdded
    have hLength : (cur ++ (built ++ [p])).length = (cur ++ built).length + 1 := by
      rw [← append_assoc]
      exact length_append
    obtain ⟨hRep, hStores⟩ := ih hAdded (by
        intro i e he
        have hNext := hSeq (i + 1) e he
        rw [hLength]
        omega) (by
        rw [← append_assoc, frames_append (cur ++ built), length_append]
        simp only [frames_cons, frames_nil, append_nil, frame_length]
        omega)
    refine ⟨?_, ?_⟩
    · show be 4 p.length ++ p ++ (Session.buildBatchGroup pf _ batch).1 = _
      rw [hRep, map_cons, frames_cons]
      rfl
    · rw [map_cons, append_cons]
      exact hStores

theorem Stores.write : Stores pf b (s.write (frames built)) closed (cur ++ built) [] := by
  refine ⟨?_, ?_, ?_, ?_, h.closed_ne⟩
  · rw [Session.write_dir h.wFd_eq, OrdMap.modify_last h.dir_eq, frames_append]
  · rw [Session.write_wal, append_nil]
    exact h.info_eq
  · rw [Session.write_wal, h.wFd_eq]
  · rw [Session.write_wal, append_nil, h.curWalPos_eq]

end Records

/-- The current file is closed and a new one started. -/
theorem Stores.rotate (h : Stores pf b s closed cur []) (hCur : cur ≠ []) {lastSeq : Nat}
    (hSeq : lastSeq + 1 = b.start + closed.flatten.length + cur.length)
    (hLt : lastSeq + 1 < 2 ^ 64) :
    Stores pf b (s.rotate pf lastSeq) (closed ++ [cur]) [] [] := by
  obtain ⟨infos, curInfo, hInfos, hFile, hNormal, hIvts⟩ := h.info_eq
  have hPos := h.curWalPos_eq
  rw [append_nil] at hIvts hPos
  have hGet : s.wal.curWalFile.bind (s.wal.infos[·]?) = some curInfo := by
    rw [hFile, hInfos]
    simp
  have hTotal : b.start + (closed ++ [cur]).flatten.length =
      b.start + closed.flatten.length + cur.length := by
    rw [flatten_append, length_append]
    simp only [flatten_cons, flatten_nil, append_nil]
    omega
  rw [Session.rotate_seals hGet hIvts hPos hSeq (by omega)]
  refine ⟨?_, ?_, ?_, rfl, ?_⟩
  · show ((s.write _).dir.emplace _ []).entries = _
    rw [Session.write_dir h.wFd_eq]
    exact Base.rotate_dir h.closed_ne hCur h.dir_eq
  · let info : WalFileInfo :=
      { startIndex := b.start + closed.flatten.length + cur.length, status := .normal }
    refine ⟨s.wal.infos, info, ?_, ?_, rfl, rfl⟩
    · simp only [Session.prepareNewFile, Session.write_wal, info]
    · simp only [Session.prepareNewFile, Session.write_wal]
  · simp only [Session.prepareNewFile, hTotal]
  · intro seg hSeg
    rcases mem_append.mp hSeg with hSeg | hSeg
    · exact h.closed_ne seg hSeg
    · rw [mem_singleton] at hSeg
      rwa [hSeg]

end Stores

section Indices

variable (pf : Platform) (s : Session)

@[simp] theorem Session.buildBatchGroup_nextIdx (batch : List (Nat × Bytes)) :
    (Session.buildBatchGroup pf s batch).2.wal.nextIdx = s.wal.nextIdx := by
  induction batch generalizing s with
  | nil => rfl
  | cons e batch ih => exact (ih _).trans (Session.addWriter_nextIdx ..)

end Indices

end MyBase
