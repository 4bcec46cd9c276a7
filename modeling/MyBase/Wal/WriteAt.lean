import MyBase.Wal.Recovery

/-!
# MyBase — overwriting records

`writeAt` at an index the log already holds. It rolls back to the index before
and appends, but the rollback does not do what it is for in a session that
wrote the files itself:

* `WalFileInfo::rollback` compares with `lastIndex`, which only `loadInfo` sets,
  so for a file of this session it returns position 0 and keeps the index;
* `insert` keeps an index entry that is present, so the overwritten index still
  leads to the old record;
* the write descriptor stays on the last file, which is opened with `O_APPEND`,
  so the new record goes behind everything that is there;
* the files behind the one rolled back to stay in the directory.

`Represents.overwrite` collects what the session and the directory look like
afterwards; `writeAt_iff` is the exact condition under which the call does what
its name says, before and after a restart.
-/

namespace MyBase

open Lib List

-- Sessions that wrote all their files

/-- The heap entries of a session that opened no file with records in it: no
last index was loaded, and the index entries stand in the order of the records. -/
def Fresh (s : Session) : Prop :=
  ∀ info ∈ s.wal.infos, info.lastIndex = 0 ∧
    ∃ recs, info.ivts = ivtsFrom info.startIndex 0 recs

theorem ivtsFrom_sorted (seq pos : Nat) (recs : List Bytes) :
    (ivtsFrom seq pos recs).Pairwise fun a b => a.1 < b.1 := by
  induction recs generalizing seq pos with
  | nil => exact List.Pairwise.nil
  | cons p rest ih =>
    rw [ivtsFrom, pairwise_cons]
    refine ⟨?_, ih ..⟩
    intro e he
    have := mem_ivtsFrom_key he
    simp only
    omega

/-- The index entries of a file of such a session are exactly its records'. -/
theorem Fresh.ivts_eq {s : Session} (h : Fresh s) {info : WalFileInfo} (hMem : info ∈ s.wal.infos)
    {start : Nat} {recs : List Bytes} (hInfo : InfoOf info start recs) :
    info.ivts = ivtsFrom start 0 recs := by
  obtain ⟨-, recs', hIvts⟩ := h info hMem
  have hPerm := hInfo.ivts
  rw [hIvts] at hPerm ⊢
  refine hPerm.eq_of_pairwise ?_ (ivtsFrom_sorted ..) (ivtsFrom_sorted ..)
  intro a b _ _ hab hba
  exact absurd hab (lt_asymm hba)

/-- Appends keep a session fresh. -/
theorem Fresh.appendLog {pf : Platform} {b : Base} {s : Session} {l : SegLog Bytes}
    (h : Represents pf b s l) (hf : Fresh s) (p : Bytes) : Fresh (s.appendLog pf p) := by
  obtain ⟨infos, curInfo, hInfos, hClosed, hStart, hNormal, hIvts⟩ := h.holds.infos_eq
  have hNext : s.wal.nextIdx = b.start + l.closed.flatten.length + l.cur.length := by
    have hLast := l.lastIdx_eq
    have := h.nextIdx_eq
    omega
  have hPtr : b.infos.length + l.closed.length = (b.infos ++ infos).length := by
    rw [length_append, hClosed.length_eq]
  have hRecord : (s.addRecord pf p).wal.infos = b.infos ++ infos ++
      [{ curInfo with
        ivts := ivtsFrom (b.start + l.closed.flatten.length) 0 (l.cur ++ [p]) }] := by
    rw [Session.addRecord, Session.write_wal]
    simp only [Session.addWriter, h.holds.curWalFile_eq, h.holds.curWalPos_eq, hInfos, hPtr, hNext]
    rw [modify_append_singleton, insert_next hNormal hIvts]
  have hStep : Fresh (s.addRecord pf p) := by
    intro info hMem
    rw [hRecord] at hMem
    rcases mem_append.mp hMem with hOld | hNew
    · exact hf info (by rw [hInfos]; exact mem_append_left _ hOld)
    · rw [mem_singleton] at hNew
      subst hNew
      refine ⟨(hf curInfo (by rw [hInfos]; simp)).1, l.cur ++ [p], ?_⟩
      rw [← hStart]
  rw [Session.appendLog_eq]
  simp only
  split_ifs
  · -- rotation adds the entry of an empty file
    intro info hMem
    have hRotated : info ∈ ((s.addRecord pf p).rotate pf s.wal.nextIdx).wal.infos := hMem
    simp only [Session.rotate, Session.prepareNewFile, Session.write_wal] at hRotated
    rcases mem_append.mp hRotated with hOld | hNew
    · exact hStep info hOld
    · rw [mem_singleton] at hNew
      subst hNew
      exact ⟨rfl, [], rfl⟩
  · exact hStep

/-- A log written from an empty directory is such a session. -/
theorem written_fresh (pf : Platform) {ps : List Bytes} (hps : ∀ p ∈ ps, p.length ≤ maxPayload)
    (hCount : ps.length ≤ maxIndex) :
    ∃ s, written pf ps = some s ∧ Represents pf .empty s (logOf ps) ∧ Fresh s := by
  induction ps using List.reverseRecOn with
  | nil =>
    obtain ⟨s, hInit, hRep⟩ := Represents.initial_empty pf
    refine ⟨s, by rw [written, hInit]; rfl, hRep, ?_⟩
    have hs : s.wal.infos = [{ startIndex := 1, status := .normal }] := by
      cases hInit
      rfl
    intro info hMem
    rw [hs, mem_singleton] at hMem
    subst hMem
    exact ⟨rfl, [], rfl⟩
  | append_singleton ps p ih =>
    rw [length_append, length_singleton] at hCount
    obtain ⟨s, hWritten, hRep, hFresh⟩ :=
      ih (fun q hq => hps q (mem_append_left _ hq)) (by omega)
    refine ⟨s.appendLog pf p, ?_, ?_, Fresh.appendLog hRep hFresh p⟩
    · obtain ⟨s₀, hInit, hs⟩ := Option.map_eq_some_iff.mp hWritten
      rw [written, hInit, Option.map_some, Session.appendAll, foldl_append]
      show some (Session.appendLog pf (s₀.appendAll pf ps) p) = _
      rw [hs]
    · rw [logOf_append]
      exact hRep.appendLog (hps p (by simp)) (by rw [logOf_lastIdx]; show 1 + _ ≤ _; omega)

-- The rollback

/-- What the rollback of a fresh session does: it forgets the files behind the
one it found and takes that one for current, at position 0. -/
def Session.rolledBack (s : Session) (key ptr k : Nat) : Session :=
  { s with wal := { s.wal with
    walFiles := s.wal.walFiles.keepLe key
    curWalFile := some ptr
    curWalPos := 0
    nextIdx := k } }

section Overwrite

variable {pf : Platform} {s : Session} {l : SegLog Bytes} {k : Nat} {d : Bytes}

/-- The file a rollback to before `k` finds: that of `k - 1`, or the first one. -/
theorem Represents.lowerBound_rollback (h : Represents pf .empty s l) (hk : 1 ≤ k)
    (L : Located s .empty l (max 1 (k - 1))) :
    s.wal.walFiles.lowerBound (k - 1) = some (L.key, L.ptr) := by
  by_cases hOne : k = 1
  · -- no key is 0, so the search for 0 finds what the search for 1 finds
    have hKey := L.key_eq
    subst hOne
    rw [← hKey]
    show s.wal.walFiles.entries.find? _ = s.wal.walFiles.entries.find? _
    have hPos : ∀ e ∈ s.wal.walFiles.entries, 1 ≤ e.1 := by
      intro e he
      rw [h.holds.walFiles_eq] at he
      rcases mem_append.mp he with he | he
      · exact (mem_closedKeys_key l.closed_ne he).1
      · rw [mem_singleton] at he
        subst he
        show 1 ≤ sMaxLogIndex
        decide
    apply find?_congr
    intro e he
    have := hPos e he
    simp
    omega
  · have hSame : s.wal.walFiles.lowerBound (k - 1) =
        s.wal.walFiles.lowerBound (max 1 (k - 1)) := by
      congr 1
      omega
    exact hSame.trans L.key_eq

/-- What the rollback does. -/
theorem Represents.rollback_eq (h : Represents pf .empty s l) (hf : Fresh s) (hk : 1 ≤ k)
    (hLe : k ≤ l.lastIdx) (L : Located s .empty l (max 1 (k - 1))) :
    s.rollback (k - 1) = s.rolledBack L.key L.ptr k := by
  have hIndex := h.lastIdx_lt
  have hSucc : succ64 (k - 1) = k := by
    rw [succ64_of_lt (by omega)]
    omega
  have hMem : L.info ∈ s.wal.infos := mem_of_getElem? L.info_eq
  -- the file's last index was never loaded, so its index stays as it is
  have hInfo : L.info.rollback (k - 1) = (0, L.info) := by
    have hStart : L.info.startIndex = 1 + L.pre.length := L.infoOf.start_eq
    have hLast := (hf L.info hMem).1
    unfold WalFileInfo.rollback
    rw [if_pos (by omega)]
  have hInfos : (s.wal.infos.modify L.ptr fun info => (info.rollback (k - 1)).2) =
      s.wal.infos := by
    apply ext_getElem?
    intro j
    rw [getElem?_modify]
    by_cases hj : L.ptr = j
    · subst hj
      simp [L.info_eq, hInfo]
    · simp [hj]
  unfold Session.rollback
  rw [h.lowerBound_rollback hk L]
  simp only [L.info_eq, Option.map_some, Option.getD_some, hInfo, hInfos, hSucc]
  rfl

/-- `writeAt` below the next index is the rollback and an append. -/
theorem Represents.writeAt_eq (h : Represents pf .empty s l) (hf : Fresh s) (hk : 1 ≤ k)
    (hLe : k ≤ l.lastIdx) (L : Located s .empty l (max 1 (k - 1))) :
    s.writeAt pf k d = some ((s.rolledBack L.key L.ptr k).appendLog pf d) := by
  have hNext : s.wal.nextIdx = 1 + l.lastIdx := h.nextIdx_eq
  have hIndex := h.lastIdx_lt
  unfold Session.writeAt
  rw [if_neg (by omega)]
  simp only
  rw [if_pos (by omega), pred64_of_pos (by omega) (by omega), h.rollback_eq hf hk hLe L]

theorem insert_of_normal {info : WalFileInfo} (h : info.status = .normal) (file : Bytes)
    (seq ivt : Nat) :
    info.insert pf file seq ivt = { info with ivts := emplaceIvt info.ivts seq ivt } := by
  simp [WalFileInfo.insert, WalFileInfo.ensureNormal, h]

/-- An insertion changes no lookup that found something, nor that of another index. -/
theorem lookup_emplaceIvt {ivts : List (Nat × Nat)} {seq ivt i v : Nat}
    (h : ivts.lookup i = some v) : (emplaceIvt ivts seq ivt).lookup i = some v := by
  unfold emplaceIvt
  split_ifs
  · exact h
  · rw [lookup_append, h]
    rfl

-- The append after the rollback

/-- `info'` is loaded and leads wherever `info` leads. -/
def LeadsAs (info info' : WalFileInfo) : Prop :=
  info'.startIndex = info.startIndex ∧ info'.status = .normal ∧
    ∀ i v, info.ivts.lookup i = some v → info'.ivts.lookup i = some v

/-- What an overwrite leaves of the old session, as far as reads up to `k` see
it. `key` is the key of the file rolled back to. -/
structure Overwritten (s s' : Session) (k key : Nat) : Prop where
  startIdx_eq : s'.wal.startIdx = 1
  lastIdx_eq : s'.wal.lastIdx = k
  nextIdx_eq : s'.wal.nextIdx = k + 1
  infos_get : ∀ (j : Nat) (info : WalFileInfo), s.wal.infos[j]? = some info →
    info.status = .normal → ∃ info', s'.wal.infos[j]? = some info' ∧ LeadsAs info info'
  walFiles_get : ∀ i e, s.wal.walFiles.lowerBound i = some e → e.1 ≤ key → i ≤ k →
    ∃ key', s'.wal.walFiles.lowerBound i = some (key', e.2)
  data_get : ∀ file data, (file, data) ∈ s.dir.entries →
    ∃ suffix, fileData s'.dir file = data ++ suffix

/-- The session after the new record is written. -/
structure OverwriteRecord (pf : Platform) (s t : Session) (start key ptr k : Nat) (d : Bytes) :
    Prop where
  dir_eq : t.dir = s.dir.modify start (· ++ frame d)
  infos_eq : t.wal.infos = s.wal.infos.modify ptr fun info =>
    info.insert pf (fileData s.dir info.startIndex) k (packIvt 0 (4 + d.length))
  walFiles_eq : t.wal.walFiles = s.wal.walFiles.keepLe key
  curWalFile_eq : t.wal.curWalFile = some ptr
  wFd_eq : t.wal.wFd = some start
  curWalPos_eq : t.wal.curWalPos = 4 + d.length
  startIdx_eq : t.wal.startIdx = 1
  nextIdx_eq : t.wal.nextIdx = k + 1

/-- The record goes to the end of the last file. -/
theorem Represents.overwriteRecord (h : Represents pf .empty s l) (hLe : k ≤ l.lastIdx)
    (hd : d.length ≤ maxPayload) (key ptr : Nat) :
    OverwriteRecord pf s ((s.rolledBack key ptr k).addRecord pf d) l.curStart key ptr k d := by
  have hName : l.curStart = 1 + l.closed.flatten.length := Nat.add_comm _ _
  have hFd : s.wal.wFd = some l.curStart := by
    rw [h.holds.wFd_eq, hName]
    rfl
  have hIndex := h.lastIdx_lt
  simp only [maxPayload] at hd
  refine ⟨?_, ?_, ?_, ?_, ?_, ?_, ?_, ?_⟩
  · exact Session.addRecord_dir pf d (s := s.rolledBack key ptr k) hFd
  · rw [Session.addRecord, Session.write_wal]
    rfl
  · rw [Session.addRecord_walFiles]
    rfl
  · rw [Session.addRecord, Session.write_wal]
    rfl
  · rw [Session.addRecord, Session.write_wal]
    exact hFd
  · rw [Session.addRecord_curWalPos]
    show (0 + (4 + d.length)) % 2 ^ 32 = _
    rw [Nat.mod_eq_of_lt (by omega), Nat.zero_add]
  · rw [Session.addRecord_startIdx]
    exact h.holds.startIdx_eq
  · rw [Session.addRecord_nextIdx]
    show succ64 k = _
    exact succ64_of_lt (by omega)

namespace OverwriteRecord

variable {t : Session} {start key ptr : Nat}

variable (ht : OverwriteRecord pf s t start key ptr k d)
include ht

/-- An index entry that was there is still found after the insertion. -/
theorem infos_get {j : Nat} {info : WalFileInfo} (hInfo : s.wal.infos[j]? = some info)
    (hNormal : info.status = .normal) :
    ∃ info', t.wal.infos[j]? = some info' ∧ LeadsAs info info' := by
  rw [ht.infos_eq, getElem?_modify, hInfo]
  by_cases hj : ptr = j
  · refine ⟨{ info with ivts := emplaceIvt info.ivts k (packIvt 0 (4 + d.length)) }, ?_, rfl,
      hNormal, ?_⟩
    · simp [hj, insert_of_normal hNormal]
    · intro i v hv
      exact lookup_emplaceIvt hv
  · exact ⟨info, by simp [hj], rfl, hNormal, fun _ _ hv => hv⟩

theorem walFiles_get {i : Nat} {e : Nat × Nat} (hFound : s.wal.walFiles.lowerBound i = some e)
    (hKey : e.1 ≤ key) : t.wal.walFiles.lowerBound i = some e := by
  rw [ht.walFiles_eq]
  exact OrdMap.lowerBound_keepLe hFound hKey

omit ht in
theorem mem_modify_append {dir : Dir} {file : Nat} {data : Bytes}
    (h : (file, data) ∈ dir.entries) (name : Nat) (extra : Bytes) :
    ∃ suffix, (file, data ++ suffix) ∈ (dir.modify name (· ++ extra)).entries := by
  have hMem := mem_map_of_mem
    (f := fun e : Nat × Bytes => if e.1 = name then (e.1, e.2 ++ extra) else e) h
  by_cases hName : file = name
  · exact ⟨extra, by simpa [OrdMap.modify, hName] using hMem⟩
  · exact ⟨[], by simpa [OrdMap.modify, hName] using hMem⟩

theorem data_mem {file : Nat} {data : Bytes} (h : (file, data) ∈ s.dir.entries) :
    ∃ suffix, (file, data ++ suffix) ∈ t.dir.entries := by
  rw [ht.dir_eq]
  exact mem_modify_append h start (frame d)

end OverwriteRecord

/-- What a rotation writes behind the records. -/
def Session.sealing (pf : Platform) (t : Session) : Bytes :=
  let idxbuf :=
    match t.wal.curWalFile.bind (t.wal.infos[·]?) with
    | some info => info.buildIndex pf
    | none => []
  let buf := be 4 t.wal.curWalPos ++ be 4 idxbuf.length
  idxbuf ++ buf ++ pf.md5AndEncode buf

theorem Session.rotate_eq (pf : Platform) (t : Session) (lastSeq : Nat) :
    t.rotate pf lastSeq = (t.write (t.sealing pf)).prepareNewFile (succ64 lastSeq) := rfl

variable {i ptr start : Nat} {e : Nat × Nat} {p : Bytes} {t : Session}

variable (h : Represents pf .empty s l)
include h

/-- The keys of `walFiles` other than the sentinel lie below a file found under it. -/
theorem Represents.key_lt_of_sentinel
    (hFound : s.wal.walFiles.lowerBound i = some (sMaxLogIndex, ptr))
    (he : e ∈ s.wal.walFiles.entries) (hNe : e.1 ≠ sMaxLogIndex) : e.1 < i := by
  by_contra hGe
  have hLe := OrdMap.lowerBound_le hFound he (by omega)
  rw [h.holds.walFiles_eq] at he
  rcases mem_append.mp he with he | he
  · have hLt := (mem_closedKeys_key l.closed_ne he).2
    have hTotal := ClosedFits.total_le (by decide) h.holds.fits
    simp only [sMaxLogIndex, Base.empty] at hLe hLt hTotal
    omega
  · rw [mem_singleton] at he
    exact hNe (by rw [he])

theorem Represents.key_le_sentinel (L : Located s .empty l i) : L.key ≤ sMaxLogIndex := by
  have hIndex := h.lastIdx_lt
  rcases L.key_end with hEnd | ⟨hEnd, -⟩
  · have hLen := congrArg List.length L.log_eq
    simp only [length_append] at hLen
    have hLast : l.lastIdx = l.entries.length := rfl
    simp only [hEnd, Base.empty, sMaxLogIndex]
    omega
  · exact le_of_eq hEnd

/-- If the sentinel is still there after the rollback, the file behind it is filed under
`k` in a rotation. That is the file a key above `k` led to before. -/
theorem Represents.refiled (hk : 1 ≤ k) {ptr' : Nat} (L : Located s .empty l (max 1 (k - 1)))
    (ht : OverwriteRecord pf s t start L.key ptr k d)
    (hFind : t.wal.walFiles.find? sMaxLogIndex = some ptr') (hMem : e ∈ s.wal.walFiles.entries) :
    (if e.1 ≤ k then e else (k, ptr')).2 = e.2 ∧ (if e.1 ≤ k then e else (k, ptr')).1 ≤ k := by
  have hKept := OrdMap.mem_of_find? hFind
  rw [ht.walFiles_eq] at hKept
  have hSentinel : (sMaxLogIndex, ptr') ∈ s.wal.walFiles.entries := (mem_filter.mp hKept).1
  have hKeyEq : L.key = sMaxLogIndex := by
    have hGe : sMaxLogIndex ≤ L.key := by simpa using (mem_filter.mp hKept).2
    have hKeyMax := h.key_le_sentinel L
    omega
  split_ifs with hek
  · exact ⟨rfl, hek⟩
  · -- no other key lies above `k`
    have hEnd : e.1 = sMaxLogIndex := by
      by_contra hNe
      have hFoundL := L.key_eq
      rw [hKeyEq] at hFoundL
      have hLt := h.key_lt_of_sentinel hFoundL hMem hNe
      omega
    have hSame : (sMaxLogIndex, e.2) ∈ s.wal.walFiles.entries := by
      rw [← hEnd]
      exact hMem
    exact ⟨OrdMap.eq_of_mem hSentinel hSame, le_refl _⟩

/-- A rotation behind the new record leaves every index up to `k` in the file it was in. -/
theorem Represents.prepared_walFiles_get (hk : 1 ≤ k) (hLe : k ≤ l.lastIdx)
    (L : Located s .empty l (max 1 (k - 1))) (ht : OverwriteRecord pf s t start L.key ptr k d)
    (hFound : s.wal.walFiles.lowerBound i = some e) (hKey : e.1 ≤ L.key) (hik : i ≤ k) :
    ∃ key', (t.prepareNewFile (k + 1)).wal.walFiles.lowerBound i = some (key', e.2) := by
  have hIndex := h.lastIdx_lt
  have hGet := ht.walFiles_get hFound hKey
  have hKeyMax := h.key_le_sentinel L
  have hiMax : i ≤ sMaxLogIndex := by
    simp only [sMaxLogIndex]
    omega
  simp only [Session.prepareNewFile]
  cases hFind : t.wal.walFiles.find? sMaxLogIndex with
  | none =>
    refine ⟨e.1, ?_⟩
    simp only
    rw [OrdMap.lowerBound_emplace _ _ _ hiMax, hGet]
    simp only
    rw [if_pos (by omega)]
  | some ptr' =>
    have hPred : pred64 (k + 1) = k := by
      rw [pred64_of_pos (by omega) (by omega)]
      omega
    have hInner : ((t.wal.walFiles.emplace k ptr').lowerBound i) =
        some (if e.1 ≤ k then e else (k, ptr')) := by
      rw [OrdMap.lowerBound_emplace _ _ _ hik, hGet]
      simp only
      split_ifs <;> rfl
    obtain ⟨hPtr, hLeK⟩ := h.refiled hk L ht hFind (mem_of_find?_eq_some hFound)
    refine ⟨(if e.1 ≤ k then e else (k, ptr')).1, ?_⟩
    simp only [hPred, show k + 1 ≠ 1 by omega, ne_eq, not_false_eq_true, if_true]
    rw [OrdMap.lowerBound_emplace _ _ _ hiMax, OrdMap.lowerBound_erase hInner ?_]
    · simp only
      rw [if_pos (by simp only [sMaxLogIndex]; omega), ← hPtr]
    · simp only [sMaxLogIndex]
      omega

/-- **The overwrite**: rotated or not, it leaves what reads up to `k` need. -/
theorem Represents.overwrite (hk : 1 ≤ k) (hLe : k ≤ l.lastIdx) (hd : d.length ≤ maxPayload)
    (L : Located s .empty l (max 1 (k - 1))) :
    Overwritten s ((s.rolledBack L.key L.ptr k).appendLog pf d) k L.key := by
  have hIndex := h.lastIdx_lt
  have ht := h.overwriteRecord (k := k) hLe hd L.key L.ptr
  have hEq := Session.appendLog_eq pf (s.rolledBack L.key L.ptr k) d
  set t := (s.rolledBack L.key L.ptr k).addRecord pf d with htDef
  have hSeq : (s.rolledBack L.key L.ptr k).wal.nextIdx = k := rfl
  simp only [hSeq] at hEq
  rw [hEq]
  -- the new record alone decides about the rotation
  by_cases hRot : rotateSize < t.wal.curWalPos
  · simp only [if_pos hRot, Session.rotate_eq]
    have hSucc : succ64 k = k + 1 := succ64_of_lt (by omega)
    have hDir : (t.write (t.sealing pf)).dir = t.dir.modify l.curStart (· ++ t.sealing pf) :=
      Session.write_dir ht.wFd_eq _
    constructor
    · show (t.write (t.sealing pf)).wal.startIdx = 1
      rw [Session.write_wal, ht.startIdx_eq]
    · rfl
    · show (t.write (t.sealing pf)).wal.nextIdx = k + 1
      rw [Session.write_wal, ht.nextIdx_eq]
    · intro j info hInfo hNormal
      obtain ⟨info', hGet, hLeads⟩ := ht.infos_get hInfo hNormal
      refine ⟨info', ?_, hLeads⟩
      show ((t.write (t.sealing pf)).wal.infos ++ _)[j]? = _
      rw [Session.write_wal, getElem?_append_left (List.getElem?_eq_some_iff.mp hGet).1, hGet]
    · intro i e hFound hKey hik
      obtain ⟨key', hGet⟩ := h.prepared_walFiles_get hk hLe L ht hFound hKey hik
      refine ⟨key', ?_⟩
      rw [hSucc]
      simpa only [Session.prepareNewFile, Session.write_wal] using hGet
    · intro file data hFile
      obtain ⟨suffix, hMem⟩ := ht.data_mem hFile
      obtain ⟨suffix', hMem'⟩ := OverwriteRecord.mem_modify_append hMem l.curStart
        (t.sealing pf)
      refine ⟨suffix ++ suffix', ?_⟩
      show fileData ((t.write (t.sealing pf)).dir.emplace (succ64 k) []) file = _
      rw [hDir, LastFile.fileData_emplace _ hMem', append_assoc]
  · simp only [if_neg hRot]
    constructor
    · exact ht.startIdx_eq
    · rfl
    · exact ht.nextIdx_eq
    · intro j info hInfo hNormal
      exact ht.infos_get hInfo hNormal
    · intro i e hFound hKey _
      exact ⟨e.1, ht.walFiles_get hFound hKey⟩
    · intro file data hFile
      obtain ⟨suffix, hMem⟩ := ht.data_mem hFile
      exact ⟨suffix, fileData_of_mem hMem⟩

-- Reads after the overwrite

/-- What `writeAt k d` should leave in a session `t`: record `k` is `d`, the
records before it are those of `s`, and nothing follows. -/
structure WroteAt (pf : Platform) (s : Session) (k : Nat) (d : Bytes) (t : Session) : Prop where
  entry : t.entryAt pf k = some (frame d)
  before : ∀ i, s.wal.startIdx ≤ i → i < k → t.entryAt pf i = s.entryAt pf i
  after : ∀ i, k < i → t.entryAt pf i = none
  lastIdx : t.wal.lastIdx = k
  nextIdx : t.wal.nextIdx = k + 1

omit h in
theorem frame_injective {q : Bytes} (h : frame p = frame q) : p = q := by
  have hDrop := congrArg (List.drop 4) h
  simpa [frame, drop_append_of_le_length] using hDrop

omit h in
/-- Old records whose file was kept are read as before. -/
theorem Overwritten.entryAt {s' : Session} {key : Nat} (hs : Overwritten s s' k key) (hi : 1 ≤ i)
    (hik : i ≤ k) (L : Located s .empty l i) (hKey : L.key ≤ key)
    (hp : l.entries[i - 1]? = some p) : s'.entryAt pf i = some (frame p) := by
  have hLo := L.ge
  have hHi := L.lt
  simp only [Base.empty] at hLo hHi
  obtain ⟨key', hFound⟩ := hs.walFiles_get i _ L.key_eq hKey hik
  obtain ⟨info', hInfo, hStart, hNormal, hLeads⟩ :=
    hs.infos_get L.ptr L.info L.info_eq L.infoOf.normal
  -- position of the record in its file
  have hGet : L.recs[i - (1 + L.pre.length)]? = some p := by
    rw [L.log_eq, append_assoc, getElem?_append_right (by omega),
      getElem?_append_left (by omega)] at hp
    have hIdx : i - 1 - L.pre.length = i - (1 + L.pre.length) := by omega
    rwa [hIdx] at hp
  have hFile : ∃ file, (L.info.startIndex, file) ∈ s.dir.entries := by
    by_contra hNone
    have hEmpty : fileData s.dir L.info.startIndex = [] := by
      unfold fileData
      cases hFind : s.dir.find? L.info.startIndex with
      | none => rfl
      | some file => exact absurd ⟨file, OrdMap.mem_of_find? hFind⟩ hNone
    have hLen := congrArg List.length (hEmpty.symm.trans L.data_eq)
    have hCount := four_mul_length_le_frames L.recs
    simp only [length_nil, length_append] at hLen
    omega
  obtain ⟨file, hFile⟩ := hFile
  obtain ⟨suffix, hData⟩ := hs.data_get _ _ hFile
  have hOld := L.data_eq
  rw [fileData_of_mem hFile] at hOld
  obtain ⟨hLookup, hLocates⟩ :=
    L.infoOf.locates L.bytes hGet (L.suffix ++ suffix)
  have hAt : Base.empty.start + L.pre.length + (i - (1 + L.pre.length)) = i := by
    show 1 + L.pre.length + _ = i
    omega
  rw [hAt] at hLookup
  have hStartIdx := hs.startIdx_eq
  have hLastIdx := hs.lastIdx_eq
  rw [entryAt_eq_some_iff (by omega) (by omega) hFound hInfo hNormal (frame_ne_nil p)]
  refine ⟨_, hLeads _ _ hLookup, ?_⟩
  rw [hStart, hData, hOld, append_assoc]
  exact hLocates

/-- The file rolled back to holds `k` exactly when its key is not below `k`. -/
theorem Located.key_ge_iff (hLe : k ≤ l.lastIdx) (L : Located s .empty l (max 1 (k - 1))) :
    k ≤ L.key ↔ k ≤ l.segEnd (max 1 (k - 1)) := by
  have hSeg : l.segEnd (max 1 (k - 1)) = L.pre.length + L.recs.length := L.seg_end
  have hLen := congrArg List.length L.log_eq
  simp only [length_append] at hLen
  have hLast : l.lastIdx = l.entries.length := rfl
  have hIndex := h.lastIdx_lt
  rcases L.key_end with hEnd | ⟨hEnd, hPost⟩
  · simp only [Base.empty] at hEnd
    omega
  · rw [hPost, length_nil] at hLen
    simp only [sMaxLogIndex] at hEnd
    omega

/-- A record that starts a file is not read back. -/
theorem Represents.entryAt_past (hk : 1 ≤ k) (hLe : k ≤ l.lastIdx) (hd : d.length ≤ maxPayload)
    (L : Located s .empty l (max 1 (k - 1))) (hPast : L.key < k) :
    ((s.rolledBack L.key L.ptr k).appendLog pf d).entryAt pf k ≠ some (frame d) := by
  have hIndex := h.lastIdx_lt
  have hOver := h.overwrite (d := d) hk hLe hd L
  have ht := h.overwriteRecord (k := k) hLe hd L.key L.ptr
  have hEq := Session.appendLog_eq pf (s.rolledBack L.key L.ptr k) d
  have hSeq : (s.rolledBack L.key L.ptr k).wal.nextIdx = k := rfl
  simp only [hSeq] at hEq
  set t := (s.rolledBack L.key L.ptr k).addRecord pf d with htDef
  set s' := (s.rolledBack L.key L.ptr k).appendLog pf d with hs'
  have hStartIdx := hOver.startIdx_eq
  have hLastIdx := hOver.lastIdx_eq
  have hBelow : ∀ e ∈ t.wal.walFiles.entries, e.1 < k := by
    intro e he
    rw [ht.walFiles_eq] at he
    have : e.1 ≤ L.key := by simpa using (mem_filter.mp he).2
    omega
  have hNoKey : t.wal.walFiles.lowerBound k = none := OrdMap.lowerBound_eq_none hBelow
  by_cases hRot : rotateSize < t.wal.curWalPos
  · -- the search ends at the new file, which is empty
    simp only [if_pos hRot, Session.rotate_eq] at hEq
    have hFind : t.wal.walFiles.find? sMaxLogIndex = none := by
      rw [← Option.not_isSome_iff_eq_none, OrdMap.find?_isSome_iff]
      intro hMem
      obtain ⟨e, he, hKey⟩ := mem_map.mp hMem
      have := hBelow e he
      simp only [sMaxLogIndex] at hKey
      omega
    have hFound : s'.wal.walFiles.lowerBound k = some (sMaxLogIndex, t.wal.infos.length) := by
      rw [hEq]
      simp only [Session.prepareNewFile, Session.write_wal, hFind]
      rw [OrdMap.lowerBound_emplace _ _ _ (by simp only [sMaxLogIndex]; omega), hNoKey]
    have hInfo : s'.wal.infos[t.wal.infos.length]? =
        some { startIndex := succ64 k, status := .normal } := by
      rw [hEq]
      simp [Session.prepareNewFile]
    intro hRead
    rw [entryAt_eq_some_iff (by omega) (by omega) hFound hInfo rfl (frame_ne_nil d)] at hRead
    obtain ⟨ivt, hIvt, -⟩ := hRead
    simp at hIvt
  · simp only [if_neg hRot] at hEq
    have hNone : s'.entryAt pf k = none := by
      have hFound : s'.wal.walFiles.lowerBound k = none := by
        rw [hEq]
        exact hNoKey
      unfold Session.entryAt
      rw [if_neg (by omega), hFound]
    rw [hNone]
    simp

/-- **In memory** an overwrite does what it should exactly when the record was
`d` already and stands in the file rolled back to. -/
theorem Represents.wroteAt_iff (hk : 1 ≤ k) (hLe : k ≤ l.lastIdx) (hd : d.length ≤ maxPayload)
    (L : Located s .empty l (max 1 (k - 1))) :
    WroteAt pf s k d ((s.rolledBack L.key L.ptr k).appendLog pf d) ↔
      l.entries[k - 1]? = some d ∧ k ≤ l.segEnd (max 1 (k - 1)) := by
  have hOver := h.overwrite (d := d) hk hLe hd L
  have hLastIdx := h.lastIdx_eq_length
  have hStartIdx := h.holds.startIdx_eq
  obtain ⟨p, hp⟩ : ∃ p, l.entries[k - 1]? = some p :=
    ⟨_, getElem?_eq_getElem (by unfold SegLog.lastIdx at hLe; omega)⟩
  -- a kept file leads to the old record
  have hRead : k ≤ L.key →
      ((s.rolledBack L.key L.ptr k).appendLog pf d).entryAt pf k = some (frame p) := by
    intro hKey
    obtain ⟨Lk⟩ := h.locate (i := k) hk (by omega)
    have hSame := OrdMap.lowerBound_of_le L.key_eq (k := k) (by omega) hKey
    rw [Lk.key_eq] at hSame
    have hKeyEq : Lk.key = L.key := congrArg Prod.fst (Option.some.inj hSame)
    exact hOver.entryAt hk (le_refl _) Lk (le_of_eq hKeyEq) hp
  constructor
  · intro hWrote
    by_cases hKey : k ≤ L.key
    · have hEq := hWrote.entry
      rw [hRead hKey] at hEq
      rw [hp, frame_injective (Option.some.inj hEq)]
      exact ⟨rfl, (L.key_ge_iff h hLe).mp hKey⟩
    · exact absurd hWrote.entry (h.entryAt_past hk hLe hd L (by omega))
  · rintro ⟨hSame, hSeg⟩
    rw [hp] at hSame
    cases hSame
    refine ⟨hRead ((L.key_ge_iff h hLe).mpr hSeg), ?_, ?_, hOver.lastIdx_eq, hOver.nextIdx_eq⟩
    · intro i hi hik
      rw [hStartIdx] at hi
      obtain ⟨Li⟩ := h.locate (i := i) hi (by omega)
      obtain ⟨q, hq⟩ : ∃ q, l.entries[i - 1]? = some q :=
        ⟨_, getElem?_eq_getElem (by unfold SegLog.lastIdx at hLe; omega)⟩
      have hMem : (L.key, L.ptr) ∈ s.wal.walFiles.entries := mem_of_find?_eq_some L.key_eq
      have hUp := OrdMap.le_of_lowerBound L.key_eq
      have hKey : Li.key ≤ L.key :=
        OrdMap.lowerBound_le Li.key_eq hMem (show i ≤ L.key by simp only at hUp; omega)
      rw [hOver.entryAt hi (by omega) Li hKey hq, h.entryAt_of_get hi hq]
    · intro i hik
      exact entryAt_eq_none (Or.inr (by rw [hOver.lastIdx_eq]; exact hik))

-- The directory after the overwrite

/-- What a rotation writes behind an overwriting record: the index of the file
that holds `k`, with the position of the record in that file. -/
def resealBytes (pf : Platform) (l : SegLog Bytes) (k : Nat) (d : Bytes) : Bytes :=
  let idxbuf := indexBytes pf (1 + (l.segAt k).1) (l.segAt k).2
  let buf := be 4 (4 + d.length) ++ be 4 idxbuf.length
  idxbuf ++ buf ++ pf.md5AndEncode buf

/-- The last file after an overwrite of a record that was `d` already. -/
def overwrittenFile (pf : Platform) (l : SegLog Bytes) (k : Nat) (d : Bytes) : Bytes :=
  frames l.cur ++ frame d ++ (if rotateSize < 4 + d.length then resealBytes pf l k d else [])

omit h in
theorem frame_length_le_frames {recs : List Bytes} (h : p ∈ recs) :
    4 + p.length ≤ (frames recs).length := by
  induction recs with
  | nil => simp at h
  | cons q rest ih =>
    rw [frames_cons, length_append, frame_length]
    rcases mem_cons.mp h with rfl | h
    · omega
    · have := ih h
      omega

/-- A record that fills a file alone is the last one of a closed file, and the
next file is there. -/
theorem Represents.next_file_exists (hTight : l.Tight walFull) (hk : 1 ≤ k)
    (hGet : l.entries[k - 1]? = some d) (hBig : rotateSize < 4 + d.length) :
    ∃ data, (k + 1, data) ∈ s.dir.entries := by
  have hIn : k ≤ l.closed.flatten.length := by
    by_contra hNot
    rw [SegLog.entries, getElem?_append_right (by omega)] at hGet
    have := frame_length_le_frames (mem_of_getElem? hGet)
    have := h.cur_le
    omega
  obtain ⟨pre, seg, post, hSplit, hLo, hHi⟩ := SegLog.exists_segment hk hIn
  rw [SegLog.entries, getElem?_append_left (by omega),
    SegLog.getElem?_of_segment hSplit hLo hHi] at hGet
  -- the records before the last one of a closed file are below the limit
  obtain ⟨init, a, hInit, hNotFull⟩ := hTight.closed seg (by rw [hSplit]; simp)
  have hLast : k = pre.flatten.length + seg.length := by
    by_contra hNe
    have hLen : seg.length = init.length + 1 := by
      rw [hInit, length_append, length_singleton]
    rw [hInit, getElem?_append_left (by omega)] at hGet
    have := frame_length_le_frames (mem_of_getElem? hGet)
    simp only [walFull, decide_eq_false_iff_not] at hNotFull
    omega
  have hDir := h.holds.dir_eq
  simp only [Base.empty, nil_append] at hDir
  have hName : 1 + pre.flatten.length + seg.length = k + 1 := by omega
  cases post with
  | nil =>
    refine ⟨frames l.cur, ?_⟩
    have hTotal : 1 + l.closed.flatten.length = k + 1 := by
      rw [hSplit, flatten_append, length_append]
      simp only [flatten_cons, flatten_nil, append_nil]
      omega
    rw [hDir, hTotal]
    simp
  | cons seg' post =>
    refine ⟨sealedFile pf (k + 1) seg', ?_⟩
    rw [hDir, hSplit, closedFiles_append, closedFiles, closedFiles, hName]
    simp

/-- The directory after such an overwrite: only the last file has changed. -/
theorem Represents.lastFile_overwritten (hf : Fresh s) (hTight : l.Tight walFull) (hk : 1 ≤ k)
    (hLe : k ≤ l.lastIdx) (hd : d.length ≤ maxPayload) (L : Located s .empty l (max 1 (k - 1)))
    (hGet : l.entries[k - 1]? = some d) (hSeg : k ≤ l.segEnd (max 1 (k - 1))) :
    LastFile pf ((s.rolledBack L.key L.ptr k).appendLog pf d).dir l.closed
      (overwrittenFile pf l k d) := by
  have hIndex := h.lastIdx_lt
  have hName : l.curStart = 1 + l.closed.flatten.length := Nat.add_comm _ _
  have ht := h.overwriteRecord (k := k) hLe hd L.key L.ptr
  have hEq := Session.appendLog_eq pf (s.rolledBack L.key L.ptr k) d
  have hSeq : (s.rolledBack L.key L.ptr k).wal.nextIdx = k := rfl
  simp only [hSeq] at hEq
  set t := (s.rolledBack L.key L.ptr k).addRecord pf d with htDef
  refine ⟨?_, l.closed_ne, h.holds.fits⟩
  have hRecord : t.dir.entries = closedFiles pf 1 l.closed ++
      [(1 + l.closed.flatten.length, frames l.cur ++ frame d)] := by
    rw [ht.dir_eq, hName, OrdMap.modify_last h.lastFile.dir_eq]
  rw [hEq, ht.curWalPos_eq]
  unfold overwrittenFile
  by_cases hRot : rotateSize < 4 + d.length
  · simp only [if_pos hRot, Session.rotate_eq]
    -- the index written is that of the file of `k`
    obtain ⟨Lk⟩ := h.locate (i := k) hk (by rw [h.lastIdx_eq_length]; exact hLe)
    have hKey := (L.key_ge_iff h hLe).mpr hSeg
    have hSame := OrdMap.lowerBound_of_le L.key_eq (k := k) (by omega) hKey
    rw [Lk.key_eq] at hSame
    have hPtr : Lk.ptr = L.ptr := congrArg Prod.snd (Option.some.inj hSame)
    have hInfo : t.wal.infos[L.ptr]? = some Lk.info := by
      have hLo := Lk.ge
      have hHi := Lk.lt
      have hPresent : (Lk.info.ivts.lookup k).isSome := by
        have hIn : k - (Base.empty.start + Lk.pre.length) < Lk.recs.length := by omega
        have hAt : Base.empty.start + Lk.pre.length +
            (k - (Base.empty.start + Lk.pre.length)) = k := by omega
        obtain ⟨hLookup, -⟩ := Lk.infoOf.locates Lk.bytes
          (getElem?_eq_getElem hIn) []
        rw [hAt] at hLookup
        rw [hLookup]
        rfl
      rw [ht.infos_eq, getElem?_modify, ← hPtr, Lk.info_eq]
      simp [insert_of_normal Lk.infoOf.normal, emplaceIvt, hPresent]
    have hIvts := hf.ivts_eq (mem_of_getElem? Lk.info_eq) Lk.infoOf
    have hSegAt : l.segAt k = (Lk.pre.length, Lk.recs) := Lk.seg_at
    have hSealing : t.sealing pf = resealBytes pf l k d := by
      have hIndexBytes : Lk.info.buildIndex pf =
          indexBytes pf (1 + Lk.pre.length) Lk.recs := by
        rw [WalFileInfo.buildIndex, hIvts, ivtsFrom_length, indexBytes]
        rfl
      unfold Session.sealing resealBytes
      simp only [ht.curWalFile_eq, Option.bind_some, hInfo, hIndexBytes, ht.curWalPos_eq, hSegAt]
    obtain ⟨data, hNext⟩ := h.next_file_exists hTight hk hGet hRot
    have hDir : (t.write (t.sealing pf)).dir.entries = closedFiles pf 1 l.closed ++
        [(1 + l.closed.flatten.length, frames l.cur ++ frame d ++ resealBytes pf l k d)] := by
      rw [Session.write_dir ht.wFd_eq, hName, OrdMap.modify_last hRecord, hSealing]
    -- starting file `k + 1` changes nothing: it is there
    have hThere : ∃ e ∈ (t.write (t.sealing pf)).dir.entries, e.1 = succ64 k := by
      obtain ⟨suffix, hMem⟩ := ht.data_mem hNext
      obtain ⟨suffix', hMem'⟩ := OverwriteRecord.mem_modify_append hMem l.curStart
        (t.sealing pf)
      rw [Session.write_dir ht.wFd_eq, succ64_of_lt (by omega)]
      exact ⟨_, hMem', rfl⟩
    show ((t.write (t.sealing pf)).dir.emplace (succ64 k) []).entries = _
    rw [OrdMap.emplace_of_mem hThere, hDir]
  · simp only [if_neg hRot, append_nil]
    exact hRecord

-- The restart

/-- The bytes of the last file are taken for a rotated file whose index ends at
`k` and leads to every record up to `k` whose own file does not end by then. -/
def IndexedUpTo (pf : Platform) (l : SegLog Bytes) (k : Nat) (file : Bytes) : Prop :=
  ∃ pos size es, EndsInTrailer pf file pos size ∧ StoresIndex file pos size es ∧
    greatestIndex es = k ∧
    ∀ i q, 1 ≤ i → i ≤ k → l.closed.flatten.length < i ∨ k < l.segEnd i →
      l.entries[i - 1]? = some q → ∃ ivt, es.lookup i = some ivt ∧ Locates file ivt (frame q)

/-- A restart on a directory whose last file ends in a trailer. -/
theorem Represents.restart_trailer {dir : Dir} {data : Bytes}
    (hFile : LastFile pf dir l.closed data) (hk : 1 ≤ k) (hLe : k ≤ l.lastIdx)
    (hGet : l.entries[k - 1]? = some d) {pos size : Nat} (hEnds : EndsInTrailer pf data pos size) :
    (∃ t, Session.initial pf dir = some t ∧ WroteAt pf s k d t) ↔ IndexedUpTo pf l k data := by
  have hIndex := h.index_le
  simp only [Base.empty] at hIndex
  have hStartIdx := h.holds.startIdx_eq
  have hRecord : ∀ i, 1 ≤ i → i ≤ k → ∃ q, l.entries[i - 1]? = some q := by
    intro i _ hik
    exact ⟨_, getElem?_eq_getElem (by unfold SegLog.lastIdx at hLe; omega)⟩
  have hLoaded : ∀ es i q t, OpenedNew pf dir l.closed
      (loadedInfo (1 + l.closed.flatten.length) es) t → greatestIndex es = k → 1 ≤ i → i ≤ k →
      l.closed.flatten.length < i ∨ k < l.segEnd i →
      (t.entryAt pf i = some (frame q) ↔
        ∃ ivt, es.lookup i = some ivt ∧ Locates data ivt (frame q)) := by
    intro es i q t hOpened hGreatest hi hik hOpen
    have hLast := loadedInfo_lastIndex (1 + l.closed.flatten.length) es
    rw [hGreatest] at hLast
    rw [hFile.entryAt_loaded hOpened (by omega) (loadedInfo_startIndex _ _) hi (by omega) ?_
      (frame_ne_nil q), loadedInfo_lookup]
    intro pre seg post hSplit hLo hHi
    have hTotal := flatten_split_le hSplit
    have hEnd := SegLog.segEnd_of_segment hSplit hLo hHi
    omega
  constructor
  · rintro ⟨t, hInit, hWrote⟩
    obtain ⟨es, hStores, hOpened⟩ := hFile.of_initial_trailer hEnds hInit
    have hGreatest : greatestIndex es = k := by
      rw [← loadedInfo_lastIndex (1 + l.closed.flatten.length), ← hOpened.lastIdx_eq,
        hWrote.lastIdx]
    refine ⟨pos, size, es, hEnds, hStores, hGreatest, ?_⟩
    intro i q hi hik hOpen hq
    rw [← hLoaded es i q t hOpened hGreatest hi hik hOpen]
    by_cases hEq : i = k
    · subst hEq
      rw [hGet] at hq
      cases hq
      exact hWrote.entry
    · rw [hWrote.before i (by omega) (by omega), h.entryAt_of_get hi hq]
  · rintro ⟨pos', size', es, hEnds', hStores, hGreatest, hDescribes⟩
    obtain ⟨t, hInit, hOpened⟩ := hFile.initial_trailer hEnds' hStores
    have hLast := loadedInfo_lastIndex (1 + l.closed.flatten.length) es
    rw [hGreatest] at hLast
    have hRead : ∀ i q, 1 ≤ i → i ≤ k → l.entries[i - 1]? = some q →
        t.entryAt pf i = some (frame q) := by
      intro i q hi hik hq
      by_cases hOpen : l.closed.flatten.length < i ∨ k < l.segEnd i
      · exact (hLoaded es i q t hOpened hGreatest hi hik hOpen).mpr
          (hDescribes i q hi hik hOpen hq)
      · -- its file ends by `k`, so it is found there
        obtain ⟨pre, seg, post, hSplit, hLo, hHi⟩ :=
          SegLog.exists_segment hi (show i ≤ l.closed.flatten.length by omega)
        have hEnd := SegLog.segEnd_of_segment hSplit hLo hHi
        refine hFile.entryAt_closed hOpened (by omega) hSplit hLo ?_ (by omega)
        rwa [SegLog.entries, getElem?_append_left (by omega),
          SegLog.getElem?_of_segment hSplit hLo hHi] at hq
    refine ⟨t, hInit, hRead k d hk (le_refl _) hGet, ?_, ?_, ?_, ?_⟩
    · intro i hi hik
      rw [hStartIdx] at hi
      obtain ⟨q, hq⟩ := hRecord i hi (by omega)
      rw [hRead i q hi (by omega) hq, h.entryAt_of_get hi hq]
    · intro i hik
      exact entryAt_eq_none (Or.inr (by rw [hOpened.lastIdx_eq, hLast]; exact hik))
    · rw [hOpened.lastIdx_eq, hLast]
    · rw [hOpened.nextIdx_eq, hOpened.lastIdx_eq, hLast]
      simp only [maxIndex] at hIndex
      exact succ64_of_lt (by omega)

/-- The restart after an overwrite in place. Without a trailer the appended
record is counted behind all others. -/
theorem Represents.restart_iff (hf : Fresh s) (hTight : l.Tight walFull) (hk : 1 ≤ k)
    (hLe : k ≤ l.lastIdx) (hd : d.length ≤ maxPayload) (hNext : l.lastIdx + 1 ≤ maxIndex)
    (L : Located s .empty l (max 1 (k - 1))) (hGet : l.entries[k - 1]? = some d)
    (hSeg : k ≤ l.segEnd (max 1 (k - 1))) :
    (∃ t, Session.initial pf ((s.rolledBack L.key L.ptr k).appendLog pf d).dir = some t ∧
        WroteAt pf s k d t) ↔ IndexedUpTo pf l k (overwrittenFile pf l k d) := by
  have hFile := h.lastFile_overwritten hf hTight hk hLe hd L hGet hSeg
  cases hTrailer : WalFileInfo.trailer pf (overwrittenFile pf l k d) with
  | some e => exact h.restart_trailer hFile hk hLe hGet (trailer_eq_some_iff.mp hTrailer)
  | none =>
    have hNone := trailer_eq_none_iff.mp hTrailer
    constructor
    · rintro ⟨t, hInit, hWrote⟩
      -- a rotation would have left a trailer
      have hSmall : ¬rotateSize < 4 + d.length := by
        intro hRot
        have hNe : frames l.cur ++ frame d ++
            indexBytes pf (1 + (l.segAt k).1) (l.segAt k).2 ≠ [] := by
          simp
        have hSome := trailer_append pf hNe (be 4 (4 + d.length) ++
          be 4 (indexBytes pf (1 + (l.segAt k).1) (l.segAt k).2).length) (by simp)
        rw [overwrittenFile, if_pos hRot, resealBytes] at hTrailer
        simp only [append_assoc] at hTrailer hSome
        rw [hSome] at hTrailer
        cases hTrailer
      have hBytes : overwrittenFile pf l k d = frames (l.cur ++ [d]) := by
        rw [overwrittenFile, if_neg hSmall]
        simp
      have hFits : FileFits (1 + l.closed.flatten.length) (l.cur ++ [d]) := by
        have := l.lastIdx_eq
        exact fileFits_append h.cur_le hd (by omega)
      rw [hBytes] at hFile hTrailer
      obtain ⟨t', hInit', hOpened⟩ := hFile.initial_open
        (loadInfo_frames pf hFits.bytes hTrailer) rfl
      rw [hInit] at hInit'
      cases hInit'
      have hCounted := hOpened.lastIdx_eq
      have hLength := l.lastIdx_eq
      rw [hWrote.lastIdx] at hCounted
      simp only [append_eq_nil_iff, cons_ne_nil, and_false, if_false,
        length_append, length_singleton] at hCounted
      rw [if_neg (by omega)] at hCounted
      omega
    · rintro ⟨pos, size, es, hEnds, -⟩
      exact absurd hEnds (hNone pos size)

end Overwrite

-- writeAt

theorem logOf_tight (ps : List Bytes) : (logOf ps).Tight walFull :=
  SegLog.Tight.foldl_append (by decide) ⟨by decide, by simp [SegLog.empty]⟩ ps

variable {pf : Platform} {s s' : Session} {ps : List Bytes} {d : Bytes}

theorem writeAt_next {k : Nat} (h : s.wal.nextIdx = k) (d : Bytes) :
    s.writeAt pf k d = some (s.appendLog pf d) := by
  simp [Session.writeAt, h]

/-- An append writes at the next index. -/
theorem Represents.wroteAt_next (h : Represents pf .empty s (logOf ps))
    (h' : Represents pf .empty s' (logOf (ps ++ [d]))) : WroteAt pf s (ps.length + 1) d s' := by
  have hLast' : s'.wal.lastIdx = ps.length + 1 := by
    rw [h'.lastIdx_eq_length, logOf_lastIdx, length_append, length_singleton]
  refine ⟨?_, ?_, ?_, hLast', ?_⟩
  · refine h'.entryAt_of_get (by omega) ?_
    rw [logOf_entries]
    simp
  · intro i hi hik
    rw [h.holds.startIdx_eq] at hi
    have hIn : i - 1 < ps.length := by omega
    have hGet : (logOf ps).entries[i - 1]? = some ps[i - 1] := by
      rw [logOf_entries, getElem?_eq_getElem hIn]
    have hGet' : (logOf (ps ++ [d])).entries[i - 1]? = some ps[i - 1] := by
      rw [logOf_entries, getElem?_append_left hIn, getElem?_eq_getElem hIn]
    rw [h'.entryAt_of_get hi hGet', h.entryAt_of_get hi hGet]
  · intro i hik
    exact entryAt_eq_none (Or.inr (by omega))
  · rw [h'.nextIdx_eq, logOf_lastIdx, length_append, length_singleton]
    show 1 + (ps.length + 1) = _
    omega

/-- A restart after an append: the new session does what the call should leave
exactly when it is the same log. -/
theorem Represents.restart_next (h : Represents pf .empty s (logOf ps))
    (h' : Represents pf .empty s' (logOf (ps ++ [d]))) :
    (∃ t, Session.initial pf s'.dir = some t ∧ WroteAt pf s (ps.length + 1) d t) ↔
      ∃ t, Session.initial pf s'.dir = some t ∧ SameLog pf s' t := by
  have hMemory := h.wroteAt_next h'
  constructor
  · rintro ⟨t, hInit, hWrote⟩
    have hStart := h'.lastFile.initial_startIdx hInit
    refine ⟨t, hInit, ?_, ?_, ?_, ?_⟩
    · rw [hStart, h'.holds.startIdx_eq]
    · rw [hWrote.lastIdx, hMemory.lastIdx]
    · rw [hWrote.nextIdx, hMemory.nextIdx]
    · intro i
      rcases Nat.lt_trichotomy i (ps.length + 1) with hLt | hEq | hGt
      · by_cases hi : 1 ≤ i
        · have hi' : s.wal.startIdx ≤ i := by rw [h.holds.startIdx_eq]; exact hi
          rw [hWrote.before i hi' hLt, hMemory.before i hi' hLt]
        · rw [entryAt_eq_none (Or.inl (by omega)),
            entryAt_eq_none (Or.inl (by rw [h'.holds.startIdx_eq]; omega))]
      · rw [hEq, hWrote.entry, hMemory.entry]
      · rw [hWrote.after i hGt, hMemory.after i hGt]
  · rintro ⟨t, hInit, hSame⟩
    refine ⟨t, hInit, ?_, ?_, ?_, ?_, ?_⟩
    · rw [hSame.entryAt, hMemory.entry]
    · intro i hi hik
      rw [hSame.entryAt, hMemory.before i hi hik]
    · intro i hik
      rw [hSame.entryAt, hMemory.after i hik]
    · rw [hSame.lastIdx, hMemory.lastIdx]
    · rw [hSame.nextIdx, hMemory.nextIdx]

/-- **`writeAt` writes at its index**, in memory and after a restart, exactly when

* the index is the next one and the log opens again, or
* the record was the given one already, it does not start a file other than the
  first, and the last file with the record appended once more is taken for a
  rotated one whose index ends at `k`. -/
theorem writeAt_iff (pf : Platform) (ps : List Bytes) (d : Bytes) (k : Nat)
    (hps : ∀ p ∈ ps, p.length ≤ maxPayload) (hd : d.length ≤ maxPayload)
    (hCount : ps.length + 1 ≤ maxIndex) (hk : 1 ≤ k) (hkLe : k ≤ ps.length + 1) :
    ∃ s s', written pf ps = some s ∧ s.writeAt pf k d = some s' ∧
      ((WroteAt pf s k d s' ∧
          ∃ t, Session.initial pf s'.dir = some t ∧ WroteAt pf s k d t) ↔
        (k = ps.length + 1 ∧
          ((∀ pos size, ¬EndsInTrailer pf (frames (logOf (ps ++ [d])).cur) pos size) ∨
            TakenForRotated pf (frames (logOf (ps ++ [d])).cur) k (logOf (ps ++ [d])).curStart
              (logOf (ps ++ [d])).cur)) ∨
        (k ≤ ps.length ∧ ps[k - 1]? = some d ∧ k ≤ (logOf ps).segEnd (max 1 (k - 1)) ∧
          IndexedUpTo pf (logOf ps) k (overwrittenFile pf (logOf ps) k d))) := by
  obtain ⟨s, hWritten, hRep, hFresh⟩ := written_fresh pf hps (by omega)
  have hNext : s.wal.nextIdx = ps.length + 1 := by
    rw [hRep.nextIdx_eq, logOf_lastIdx]
    exact Nat.add_comm _ _
  by_cases hAppend : k = ps.length + 1
  · -- at the end: an append
    subst hAppend
    have hRep' : Represents pf .empty (s.appendLog pf d) (logOf (ps ++ [d])) := by
      rw [logOf_append]
      exact hRep.appendLog hd (by rw [logOf_lastIdx]; show 1 + _ ≤ _; omega)
    refine ⟨s, s.appendLog pf d, hWritten, writeAt_next hNext d, ?_⟩
    have hIff := hRep'.reopen_iff
    rw [logOf_lastIdx, length_append, length_singleton] at hIff
    rw [hRep.restart_next hRep', hIff]
    constructor
    · rintro ⟨-, hReopen⟩
      exact Or.inl ⟨rfl, hReopen⟩
    · rintro (⟨-, hReopen⟩ | ⟨hLe, -⟩)
      · exact ⟨hRep.wroteAt_next hRep', hReopen⟩
      · omega
  · -- inside the log: rollback and append
    have hLe : k ≤ (logOf ps).lastIdx := by
      rw [logOf_lastIdx]
      omega
    have hIn : max 1 (k - 1) ≤ s.wal.lastIdx := by
      rw [hRep.lastIdx_eq_length]
      omega
    obtain ⟨L⟩ := hRep.locate (i := max 1 (k - 1)) (Nat.le_max_left _ _) hIn
    refine ⟨s, _, hWritten, hRep.writeAt_eq hFresh hk hLe L, ?_⟩
    have hMemory := hRep.wroteAt_iff hk hLe hd L
    rw [hMemory]
    have hEntries := logOf_entries ps
    constructor
    · rintro ⟨⟨hGet, hSeg⟩, hRestart⟩
      rw [hRep.restart_iff hFresh (logOf_tight ps) hk hLe hd (by rw [logOf_lastIdx]; exact hCount)
        L hGet hSeg] at hRestart
      rw [hEntries] at hGet
      exact Or.inr ⟨by omega, hGet, hSeg, hRestart⟩
    · rintro (⟨hEq, -⟩ | ⟨-, hGet, hSeg, hIndexed⟩)
      · exact absurd hEq hAppend
      · rw [← hEntries] at hGet
        refine ⟨⟨hGet, hSeg⟩, ?_⟩
        rw [hRep.restart_iff hFresh (logOf_tight ps) hk hLe hd
          (by rw [logOf_lastIdx]; exact hCount) L hGet hSeg]
        exact hIndexed

/-- A write at the next index of a log with one record. -/
theorem writeAt_behind_one_record :
    ∃ s s', written .constant [[0x61]] = some s ∧ s.writeAt .constant 2 [0x62] = some s' ∧
      WroteAt .constant s 2 [0x62] s' ∧
      ∃ t, Session.initial .constant s'.dir = some t ∧ WroteAt .constant s 2 [0x62] t := by
  obtain ⟨s, s', hWritten, hWrite, hIff⟩ := writeAt_iff .constant [[0x61]] [0x62] 2 (by decide)
    (by decide) (by decide) (by decide) (by decide)
  refine ⟨s, s', hWritten, hWrite, hIff.mpr (Or.inl ⟨rfl, Or.inl ?_⟩)⟩
  exact trailer_eq_none_iff.mp rfl

/-- A write at index 1 of a log with one record: the record read back is the old
one, and after a restart the log has two. -/
theorem writeAt_keeps_old_record :
    ∃ s s', written .constant [[0x61]] = some s ∧ s.writeAt .constant 1 [0x62] = some s' ∧
      s'.entryAt .constant 1 = some (frame [0x61]) ∧
      ∃ t, Session.initial .constant s'.dir = some t ∧ t.wal.lastIdx = 2 := by
  refine ⟨_, _, rfl, rfl, rfl, _, rfl, rfl⟩

end MyBase
