import MyBase.Wal.FileInfo

/-!
# MyBase — the WAL file format

What the bytes of a WAL file say about its records. The records of a file are
the concatenation `frames recs`; `ivtsFrom start 0 recs` is the index entry of
each of them. A rotated file is `sealedFile`: the records, the serialised index
and the trailer.

Main results:

* `loadInfo_sealedFile` — loading a rotated file brings the index back, in
  whatever order the hash map was iterated;
* `loadInfo_frames` — walking over the lengths of an unrotated file brings the
  index back, unless its last bytes happen to look like a trailer.
-/

namespace MyBase

open Lib List

-- Packing

variable {pos seq size k j start : Nat} {recs : List Bytes} {l l' : List (Nat × Nat)} {p : Bytes}
  {e : Nat × Nat}

theorem packIvt_eq (h : size < 2 ^ 32) : packIvt pos size = pos * 2 ^ 32 + size := by
  unfold packIvt
  rw [← Nat.shiftLeft_add_eq_or_of_lt h, Nat.shiftLeft_eq]

theorem ivtPos_packIvt (hp : pos < 2 ^ 32) (hs : size < 2 ^ 32) :
    ivtPos (packIvt pos size) = pos := by
  rw [packIvt_eq hs, ivtPos, Nat.shiftRight_eq_div_pow]
  omega

theorem ivtLength_packIvt (hs : size < 2 ^ 32) : ivtLength (packIvt pos size) = size := by
  rw [packIvt_eq hs, ivtLength]
  omega

theorem packIvt_ne_zero (hs : size < 2 ^ 32) (h : 0 < size) : packIvt pos size ≠ 0 := by
  rw [packIvt_eq hs]
  omega

-- Records

/-- One record on disk: the length, then the payload. -/
def frame (p : Bytes) : Bytes := be 4 p.length ++ p

/-- The records of a file. -/
def frames (recs : List Bytes) : Bytes := recs.flatMap frame

@[simp] theorem frame_length (p : Bytes) : (frame p).length = 4 + p.length := by
  simp [frame]

@[simp] theorem frames_nil : frames [] = [] := rfl

@[simp] theorem frames_cons (p : Bytes) (rest : List Bytes) :
    frames (p :: rest) = frame p ++ frames rest := rfl

@[simp] theorem frames_append (a b : List Bytes) : frames (a ++ b) = frames a ++ frames b := by
  simp [frames]

theorem four_mul_length_le_frames (recs : List Bytes) :
    4 * recs.length ≤ (frames recs).length := by
  induction recs with
  | nil => simp
  | cons p rest ih =>
    rw [frames_cons, length_append, frame_length, length_cons]
    omega

/-- The index entries of consecutive records, the first at `pos` in the file. -/
def ivtsFrom (seq pos : Nat) : List Bytes → List (Nat × Nat)
  | [] => []
  | p :: rest =>
    (seq, packIvt pos (4 + p.length)) :: ivtsFrom (seq + 1) (pos + (4 + p.length)) rest

@[simp] theorem ivtsFrom_length (seq pos : Nat) (recs : List Bytes) :
    (ivtsFrom seq pos recs).length = recs.length := by
  induction recs generalizing seq pos with
  | nil => rfl
  | cons p rest ih => simp [ivtsFrom, ih]

theorem ivtsFrom_append (seq pos : Nat) (a b : List Bytes) :
    ivtsFrom seq pos (a ++ b) =
      ivtsFrom seq pos a ++ ivtsFrom (seq + a.length) (pos + (frames a).length) b := by
  induction a generalizing seq pos with
  | nil => simp [ivtsFrom]
  | cons p rest ih =>
    rw [cons_append, ivtsFrom, ih, ivtsFrom, cons_append, frames_cons,
      length_append, frame_length, length_cons]
    congr 3 <;> omega

theorem mem_ivtsFrom_key (h : e ∈ ivtsFrom seq pos recs) : seq ≤ e.1 ∧ e.1 < seq + recs.length := by
  induction recs generalizing seq pos with
  | nil => simp [ivtsFrom] at h
  | cons p rest ih =>
    rw [length_cons]
    rcases mem_cons.mp h with rfl | hRest
    · exact ⟨le_refl _, by omega⟩
    · have := ih hRest
      omega

theorem ivtsFrom_keys_nodup (seq pos : Nat) (recs : List Bytes) :
    ((ivtsFrom seq pos recs).map Prod.fst).Nodup := by
  induction recs generalizing seq pos with
  | nil => simp [ivtsFrom]
  | cons p rest ih =>
    rw [ivtsFrom, map_cons, nodup_cons]
    refine ⟨?_, ih ..⟩
    intro hMem
    obtain ⟨e, he, hKey⟩ := mem_map.mp hMem
    have := mem_ivtsFrom_key he
    simp only at hKey
    omega

-- Lookups in an index

theorem lookup_eq_some_iff (h : (l.map Prod.fst).Nodup) {v : Nat} :
    l.lookup k = some v ↔ (k, v) ∈ l := by
  induction l with
  | nil => simp
  | cons e rest ih =>
    rw [map_cons, nodup_cons] at h
    obtain ⟨hNot, hRest⟩ := h
    obtain ⟨k', v'⟩ := e
    by_cases hk : k = k'
    · subst hk
      have hAbs : (k, v) ∉ rest := fun hMem => hNot (mem_map.mpr ⟨_, hMem, rfl⟩)
      simp [List.lookup, hAbs, eq_comm]
    · have hBeq : (k == k') = false := by simpa using hk
      rw [List.lookup, hBeq, mem_cons, ih hRest]
      simp [hk]

/-- The order of the entries does not matter for a lookup. -/
theorem lookup_perm (hp : l.Perm l') (h : (l'.map Prod.fst).Nodup) (k : Nat) :
    l.lookup k = l'.lookup k := by
  have hl : (l.map Prod.fst).Nodup := (hp.map Prod.fst).nodup_iff.mpr h
  apply Option.ext
  intro v
  rw [lookup_eq_some_iff hl, lookup_eq_some_iff h]
  exact hp.mem_iff

/-- The index has the position and the length of every record. -/
theorem lookup_ivtsFrom (h : recs[j]? = some p) :
    (ivtsFrom seq pos recs).lookup (seq + j) =
      some (packIvt (pos + (frames (recs.take j)).length) (4 + p.length)) := by
  rw [lookup_eq_some_iff (ivtsFrom_keys_nodup ..)]
  obtain ⟨hj, rfl⟩ := List.getElem?_eq_some_iff.mp h
  have hSplit : recs = recs.take j ++ recs[j] :: recs.drop (j + 1) := by
    rw [← drop_eq_getElem_cons hj, take_append_drop]
  have hLen : (recs.take j).length = j := by
    rw [length_take]
    omega
  conv_lhs => rw [hSplit]
  rw [ivtsFrom_append, ivtsFrom, hLen]
  simp

theorem lookup_ivtsFrom_none (h : k < seq ∨ seq + recs.length ≤ k) :
    (ivtsFrom seq pos recs).lookup k = none := by
  rw [lookup_eq_none_iff]
  intro e he
  have := mem_ivtsFrom_key he
  simp only [bne_iff_ne, ne_eq]
  omega

/-- The bytes an index entry locates are the record's. -/
theorem pread_frames (h : recs[j]? = some p) (suffix : Bytes) :
    pread (frames recs ++ suffix) (frames (recs.take j)).length (4 + p.length) = frame p := by
  obtain ⟨hj, rfl⟩ := List.getElem?_eq_some_iff.mp h
  have hSplit : recs = recs.take j ++ recs[j] :: recs.drop (j + 1) := by
    rw [← drop_eq_getElem_cons hj, take_append_drop]
  have hBytes : frames recs ++ suffix =
      frames (recs.take j) ++ frame recs[j] ++ (frames (recs.drop (j + 1)) ++ suffix) := by
    calc frames recs ++ suffix
        = frames (recs.take j ++ recs[j] :: recs.drop (j + 1)) ++ suffix := by rw [← hSplit]
      _ = _ := by rw [frames_append, frames_cons]; simp only [append_assoc]
  rw [hBytes, ← frame_length, pread_append_mid]

-- Rotated files

/-- The serialised index of a file whose records start at index `start`. -/
def indexBytes (pf : Platform) (start : Nat) (recs : List Bytes) : Bytes :=
  be 4 recs.length ++
    (pf.hashOrder (ivtsFrom start 0 recs)).flatMap fun e => be 8 e.1 ++ be 8 e.2

/-- The 8 bytes whose md5 closes a rotated file. -/
def trailerKey (pf : Platform) (start : Nat) (recs : List Bytes) : Bytes :=
  be 4 (frames recs).length ++ be 4 (indexBytes pf start recs).length

/-- What rotation writes behind the records. -/
def sealBytes (pf : Platform) (start : Nat) (recs : List Bytes) : Bytes :=
  indexBytes pf start recs ++ trailerKey pf start recs ++
    pf.md5AndEncode (trailerKey pf start recs)

def sealedFile (pf : Platform) (start : Nat) (recs : List Bytes) : Bytes :=
  frames recs ++ sealBytes pf start recs

theorem flatMap_pair_length (l : List (Nat × Nat)) :
    (l.flatMap fun e => be 8 e.1 ++ be 8 e.2).length = 16 * l.length := by
  induction l with
  | nil => rfl
  | cons e rest ih =>
    rw [flatMap_cons, length_append, ih]
    simp only [length_append, be_length, length_cons]
    omega

theorem indexBytes_length (pf : Platform) (start : Nat) (recs : List Bytes) :
    (indexBytes pf start recs).length = 4 + 16 * recs.length := by
  rw [indexBytes, length_append, be_length, flatMap_pair_length,
    (pf.hashOrder_perm _).length_eq, ivtsFrom_length]

@[simp] theorem trailerKey_length (pf : Platform) (start : Nat) (recs : List Bytes) :
    (trailerKey pf start recs).length = 8 := by
  simp [trailerKey]

/-- A file that ends in 8 bytes and their md5 is taken for a rotated one. -/
theorem trailer_append (pf : Platform) {file : Bytes} (hFile : file ≠ []) (key : Bytes)
    (hKey : key.length = 8) :
    WalFileInfo.trailer pf (file ++ key ++ pf.md5AndEncode key) =
      some (ofBe (key.take 4), ofBe (key.drop 4)) := by
  have hMd5 := pf.md5_length key
  have hPos : 0 < file.length := length_pos_iff.mpr hFile
  have hLen : (file ++ key ++ pf.md5AndEncode key).length = file.length + 73 := by
    simp only [length_append]
    omega
  have hRead : pread (file ++ key ++ pf.md5AndEncode key) file.length 73 =
      key ++ pf.md5AndEncode key := by
    have hMid := pread_append_mid file (key ++ pf.md5AndEncode key) []
    have hLen73 : (key ++ pf.md5AndEncode key).length = 73 := by
      rw [length_append]
      omega
    rw [hLen73, append_nil] at hMid
    rw [append_assoc]
    exact hMid
  unfold WalFileInfo.trailer
  rw [if_neg (by omega), hLen, Nat.add_sub_cancel, hRead]
  have hTake : (key ++ pf.md5AndEncode key).take 8 = key := by
    rw [← hKey, take_left]
  have hDrop : (key ++ pf.md5AndEncode key).drop 8 = pf.md5AndEncode key := by
    rw [← hKey, drop_left]
  have hTake4 : (key ++ pf.md5AndEncode key).take 4 = key.take 4 :=
    take_append_of_le_length (by omega)
  have hMid4 : ((key ++ pf.md5AndEncode key).drop 4).take 4 = key.drop 4 := by
    rw [drop_append_of_le_length (by omega), take_append_of_le_length
      (by rw [length_drop]; omega), take_of_length_le (by rw [length_drop]; omega)]
  simp only [hTake, hDrop, hTake4, hMid4, if_true]

/-- Reading back serialised entries whose keys are new and fit in 64 bits. -/
theorem readIndex_flatMap (l : List (Nat × Nat)) (info : WalFileInfo) (rest : Bytes)
    (hNew : ((info.ivts ++ l).map Prod.fst).Nodup)
    (hFit : ∀ e ∈ l, e.1 < 2 ^ 64 ∧ e.2 < 2 ^ 64) :
    WalFileInfo.readIndex l.length
        ((l.flatMap fun e => be 8 e.1 ++ be 8 e.2) ++ rest) info =
      .ok { info with
        ivts := info.ivts ++ l
        lastIndex := l.foldl (fun m e => if m < e.1 then e.1 else m) info.lastIndex } := by
  induction l generalizing info with
  | nil => simp [WalFileInfo.readIndex]
  | cons e l ih =>
    obtain ⟨hSeq, hIvt⟩ := hFit e (mem_cons_self ..)
    have hAbs : (info.ivts.lookup e.1).isSome = false := by
      rw [Option.isSome_eq_false_iff, Option.isNone_iff_eq_none, lookup_eq_none_iff]
      intro x hx
      rw [map_append, nodup_append] at hNew
      have := hNew.2.2 x.1 (mem_map_of_mem hx) e.1 (by simp)
      simpa using Ne.symm this
    have hEmplace : emplaceIvt info.ivts e.1 e.2 = info.ivts ++ [e] := by
      simp [emplaceIvt, hAbs]
    rw [length_cons, flatMap_cons, append_assoc, append_assoc,
      WalFileInfo.readIndex, readInt_be_append (by simpa using hSeq)]
    simp only
    rw [readInt_be_append (by simpa using hIvt)]
    simp only
    rw [hEmplace, ih _ (by simpa using hNew) fun x hx => hFit x (mem_cons_of_mem _ hx)]
    simp

/-- The running maximum over the entries is the greatest key. -/
theorem foldl_max_perm (hp : l.Perm l') (m : Nat) :
    l.foldl (fun m e => if m < e.1 then e.1 else m) m =
      l'.foldl (fun m e => if m < e.1 then e.1 else m) m := by
  refine hp.foldl_eq' ?_ m
  intro x _ y _ z
  split_ifs <;> omega

theorem foldl_max_ivtsFrom (seq pos m : Nat) (recs : List Bytes) (hm : m < seq) :
    (ivtsFrom seq pos recs).foldl (fun m e => if m < e.1 then e.1 else m) m =
      if recs = [] then m else seq + recs.length - 1 := by
  induction recs generalizing seq pos m with
  | nil => rfl
  | cons p rest ih =>
    rw [ivtsFrom, foldl_cons, if_pos hm, ih _ _ _ (Nat.lt_succ_self seq)]
    rw [if_neg (cons_ne_nil _ _), length_cons]
    split_ifs with h
    · simp [h]
    · omega

/-- Bounds under which a file's positions and lengths fit their fields. -/
structure FileFits (start : Nat) (recs : List Bytes) : Prop where
  index : start + recs.length ≤ 2 ^ 63
  bytes : (frames recs).length < 2 ^ 31
  count : recs.length ≤ 2 ^ 22 + 1

theorem mem_ivtsFrom_lt (h : e ∈ ivtsFrom seq pos recs)
    (hBytes : pos + (frames recs).length < 2 ^ 31) : e.2 < 2 ^ 64 := by
  induction recs generalizing seq pos with
  | nil => simp [ivtsFrom] at h
  | cons p rest ih =>
    rw [frames_cons, length_append, frame_length] at hBytes
    rcases mem_cons.mp h with rfl | hRest
    · show packIvt pos (4 + p.length) < 2 ^ 64
      rw [packIvt_eq (by omega)]
      omega
    · exact ih hRest (by omega)

/-- **Loading a rotated file** brings its index back, complete. -/
theorem loadInfo_sealedFile (pf : Platform) (hNe : recs ≠ []) (hStart : 0 < start)
    (hFits : FileFits start recs) :
    WalFileInfo.loadInfo pf { startIndex := start } (sealedFile pf start recs) =
      .ok { startIndex := start
            lastIndex := start + recs.length - 1
            loadFull := true
            ivts := pf.hashOrder (ivtsFrom start 0 recs) } := by
  obtain ⟨hIndex, hBytes, hCount⟩ := hFits
  have hPerm := pf.hashOrder_perm (ivtsFrom start 0 recs)
  have hIdxLen := indexBytes_length pf start recs
  -- the last bytes name the position and the size of the index
  have hTrailer : WalFileInfo.trailer pf (sealedFile pf start recs) =
      some ((frames recs).length, (indexBytes pf start recs).length) := by
    have hBody : frames recs ++ indexBytes pf start recs ≠ [] := by
      apply ne_nil_of_length_pos
      rw [length_append]
      omega
    have h := trailer_append pf hBody _ (trailerKey_length pf start recs)
    have hTake : (trailerKey pf start recs).take 4 = be 4 (frames recs).length := by
      simp [trailerKey]
    have hDrop : (trailerKey pf start recs).drop 4 = be 4 (indexBytes pf start recs).length := by
      simp [trailerKey]
    rw [hTake, hDrop, ofBe_be_of_lt (by omega), ofBe_be_of_lt (by omega)] at h
    rw [← h, sealedFile, sealBytes]
    simp only [append_assoc]
  have hRead : pread (sealedFile pf start recs) (frames recs).length
      (indexBytes pf start recs).length = indexBytes pf start recs := by
    have := pread_append_mid (frames recs) (indexBytes pf start recs)
      (trailerKey pf start recs ++ pf.md5AndEncode (trailerKey pf start recs))
    have hFile : sealedFile pf start recs = frames recs ++ indexBytes pf start recs ++
        (trailerKey pf start recs ++ pf.md5AndEncode (trailerKey pf start recs)) := by
      simp only [sealedFile, sealBytes, append_assoc]
    rw [hFile]
    exact this
  unfold WalFileInfo.loadInfo
  rw [hTrailer]
  simp only
  have hThere := pread_length_eq_iff.mp (congrArg List.length hRead)
  rw [WalFileInfo.loadIndex, WalFileInfo.readBuffer_of_readable (.inl (by omega)),
    if_pos hThere, hRead]
  simp only [Except.bind, WalFileInfo.readStored]
  rw [indexBytes, readInt_be_append (by omega)]
  simp only
  -- the hash map is iterated in some order
  have hReadIndex := readIndex_flatMap (pf.hashOrder (ivtsFrom start 0 recs))
    { startIndex := start } []
    (by
      simp only [nil_append]
      exact (hPerm.map Prod.fst).nodup_iff.mpr (ivtsFrom_keys_nodup ..))
    (by
      intro e he
      have hMem := hPerm.mem_iff.mp he
      have hKey := mem_ivtsFrom_key hMem
      exact ⟨by omega, mem_ivtsFrom_lt hMem (by omega)⟩)
  rw [hPerm.length_eq, ivtsFrom_length, append_nil] at hReadIndex
  rw [hReadIndex, foldl_max_perm hPerm, foldl_max_ivtsFrom _ _ _ _ hStart, if_neg hNe]
  rfl

-- Unrotated files

/-- One pass of the walk takes one record. -/
theorem scanRecords_frame {pre : List Bytes} {suffix : Bytes} {fuel : Nat} {info : WalFileInfo}
    (hBytes : (frames pre).length + (4 + p.length) < 2 ^ 32)
    (hNew : (info.ivts.lookup seq).isSome = false) :
    WalFileInfo.scanRecords (frames pre ++ frame p ++ suffix) (fuel + 1) seq
        (frames pre).length info =
      WalFileInfo.scanRecords (frames pre ++ frame p ++ suffix) fuel (seq + 1)
        ((frames pre).length + (4 + p.length))
        { info with
          ivts := info.ivts ++ [(seq, packIvt (frames pre).length (4 + p.length))]
          lastIndex := seq } := by
  have hHead : pread (frames pre ++ frame p ++ suffix) (frames pre).length 4 =
      be 4 p.length := by
    have := pread_append_mid (frames pre) (be 4 p.length) (p ++ suffix)
    rw [be_length] at this
    rw [← this, frame]
    simp only [append_assoc]
  have hSize : (4 + ofBe (be 4 p.length)) % 2 ^ 32 = 4 + p.length := by
    rw [ofBe_be_of_lt (by omega), Nat.mod_eq_of_lt (by omega)]
  rw [WalFileInfo.scanRecords, if_pos (by simp only [length_append, frame_length]; omega)]
  simp only [hHead, be_length, hSize, emplaceIvt, hNew]
  rw [Nat.mod_eq_of_lt (by omega)]
  simp

/-- Walking over complete records, from any position inside the file. -/
theorem scanRecords_frames (pre recs : List Bytes) (suffix : Bytes) (fuel start : Nat)
    (info : WalFileInfo)
    (hBytes : (frames (pre ++ recs)).length < 2 ^ 32)
    (hIvts : info.ivts = ivtsFrom start 0 pre) (hFuel : recs.length ≤ fuel) :
    WalFileInfo.scanRecords (frames (pre ++ recs) ++ suffix) fuel (start + pre.length)
        (frames pre).length info =
      WalFileInfo.scanRecords (frames (pre ++ recs) ++ suffix) (fuel - recs.length)
        (start + (pre ++ recs).length) (frames (pre ++ recs)).length
        { info with
          ivts := ivtsFrom start 0 (pre ++ recs)
          lastIndex := if recs = [] then info.lastIndex
            else start + (pre ++ recs).length - 1 } := by
  -- on the records to come; `pre` are those the walk has passed
  induction recs generalizing pre fuel info with
  | nil =>
    obtain ⟨startIndex, lastIndex, status, loadFull, ivts⟩ := info
    simp only at hIvts
    subst hIvts
    simp
  | cons p rest ih =>
    obtain ⟨fuel, rfl⟩ : ∃ f, fuel = f + 1 := ⟨fuel - 1, by
      simp only [length_cons] at hFuel
      omega⟩
    have hSplit : pre ++ p :: rest = (pre ++ [p]) ++ rest := by simp
    have hBytes' : (frames pre).length + (4 + p.length) < 2 ^ 32 := by
      simp only [frames_append, frames_cons, length_append, frame_length] at hBytes
      omega
    have hNew : (info.ivts.lookup (start + pre.length)).isSome = false := by
      rw [hIvts, lookup_ivtsFrom_none (Or.inr (le_refl _))]
      rfl
    have hFile : frames (pre ++ p :: rest) ++ suffix =
        frames pre ++ frame p ++ (frames rest ++ suffix) := by simp
    rw [hFile, scanRecords_frame hBytes' hNew, ← hFile, hSplit]
    have hStep := ih (pre ++ [p]) fuel
      { info with
        ivts := info.ivts ++
          [(start + pre.length, packIvt (frames pre).length (4 + p.length))]
        lastIndex := start + pre.length }
      (by rw [← hSplit]; exact hBytes)
      (by simp [hIvts, ivtsFrom_append, ivtsFrom])
      (by simp only [length_cons] at hFuel; omega)
    have hLen : start + (pre ++ [p]).length = start + pre.length + 1 := by
      rw [length_append, length_singleton]
      omega
    have hPos : (frames (pre ++ [p])).length = (frames pre).length + (4 + p.length) := by
      simp
    have hLast : (if rest = [] then start + pre.length
        else start + (pre ++ [p] ++ rest).length - 1) =
        start + (pre ++ [p] ++ rest).length - 1 := by
      split_ifs with h
      · simp [h]
      · rfl
    rw [hLen, hPos, hLast] at hStep
    rw [hStep, if_neg (cons_ne_nil _ _), length_cons, Nat.add_sub_add_right]

/-- **Loading an unrotated file** brings its index back, when its last bytes do
not look like a trailer. -/
theorem loadInfo_frames (pf : Platform) (hBytes : (frames recs).length < 2 ^ 31)
    (hTrailer : WalFileInfo.trailer pf (frames recs) = none) :
    WalFileInfo.loadInfo pf { startIndex := start } (frames recs) =
      .ok { startIndex := start
            lastIndex := if recs = [] then 0 else start + recs.length - 1
            ivts := ivtsFrom start 0 recs } := by
  unfold WalFileInfo.loadInfo
  rw [hTrailer]
  have hCount := four_mul_length_le_frames recs
  have h := scanRecords_frames [] recs [] ((frames recs).length + 1) start
    { startIndex := start } (by simpa using by omega) rfl (by omega)
  simp only [nil_append, append_nil, length_nil, Nat.add_zero, frames_nil] at h
  simp only
  rw [h]
  obtain ⟨k, hk⟩ : ∃ k, (frames recs).length + 1 - recs.length = k + 1 :=
    ⟨(frames recs).length - recs.length, by omega⟩
  rw [hk, WalFileInfo.scanRecords, if_neg (lt_irrefl _)]

end MyBase
