import MyBase.Public.Config

/-!
# MyBase — which configuration files are read inside of the buffers

`LineInside` says from the text of a line when `load` takes it apart without an access
outside of its buffers, and `load_inside_iff` that a file is read without one exactly when
this holds of every line that is read.

* `cutValue_inside_iff`, `parsePair_inside_iff` — the walks of the parser over the text of a line
  with a `=`;
* `parseValue_inside_iff` — the same for any line;
* `isSectionName_eq` — the other parser always stays inside. It removes a closing bracket
  also when it then finds that the line names no section.
-/

namespace MyBase

open Lib List

namespace CConfig

-- What the text of a line says

/-- The bytes of a line up to the first zero byte. -/
def text (line : Bytes) : Bytes := line.takeWhile (isNot 0)

/-- A line that begins with `[`, and ends with `]` but for blanks. -/
def Bracketed (s : Bytes) : Prop :=
  2 < s.length ∧ s.head? = some '['.toUInt8 ∧
    (s.rdropWhile isBlank).getLast? = some ']'.toUInt8

instance (s : Bytes) : Decidable (Bracketed s) := inferInstanceAs (Decidable (_ ∧ _ ∧ _))

/-- The line without its closing bracket. -/
def unbracketed (s : Bytes) : Bytes := (s.rdropWhile isBlank).dropLast

/-- A bracketed line is the name of a section when only letters, digits and `_` are inside. -/
def NamesSection (s : Bytes) : Prop := Bracketed s ∧ (unbracketed s).tail.all isWord = true

instance (s : Bytes) : Decidable (NamesSection s) := inferInstanceAs (Decidable (_ ∧ _))

/-- What `parseValue` gets to see of a line that is no section's name: the closing bracket
is gone already. The blanks at the end do not matter. -/
def body (s : Bytes) : Bytes := (if Bracketed s then unbracketed s else s).rdropWhile isBlank

/-- The text in front of the first `=`. -/
def beforeEq (b : Bytes) : Bytes := b.takeWhile (isNot '='.toUInt8)

/-- The text behind the first `=`, up to a comment. -/
def behindEq (b : Bytes) : Bytes :=
  (b.dropWhile (isNot '='.toUInt8)).tail.takeWhile (isNot '#'.toUInt8)

/-- A space in front of the first `=`. -/
def SpaceBeforeEq (b : Bytes) : Prop := (beforeEq b).getLast? = some ' '.toUInt8

instance (b : Bytes) : Decidable (SpaceBeforeEq b) := inferInstanceAs (Decidable (_ = _))

/-- The key that is copied. It is the text in front of `=` without the blanks around it,
apart from two cases. Without such a text it begins with the `=`, if that is still there; and
with a value that has no visible ASCII character, those that follow the last one of the key
are dropped as well. -/
def keyOf (b : Bytes) : Bytes :=
  if (beforeEq b).all isBlank then
    if SpaceBeforeEq b then '='.toUInt8 :: (behindEq b).rdropWhile notAboveSpace else []
  else
    let name := ((beforeEq b).rdropWhile isSpace).dropWhile isBlank
    if SpaceBeforeEq b ∨ ¬ (behindEq b).all notAboveSpace then name
    else name.rdropWhile notAboveSpace

/-- A line with a `=` stays inside when there is something other than spaces in front of the
`=`; when there is a space directly in front of it, or a visible ASCII character in the key or
the value; and when the key has less than 128 bytes. -/
structure PairInside (b : Bytes) : Prop where
  name : ¬ (beforeEq b).all isSpace
  visible : SpaceBeforeEq b ∨ ¬ (beforeEq b ++ behindEq b).all notAboveSpace
  key : (keyOf b).length < 128

instance (b : Bytes) : Decidable (PairInside b) :=
  decidable_of_iff (¬ (beforeEq b).all isSpace ∧
    (SpaceBeforeEq b ∨ ¬ (beforeEq b ++ behindEq b).all notAboveSpace) ∧ (keyOf b).length < 128)
    ⟨fun h => ⟨h.1, h.2.1, h.2.2⟩, fun h => ⟨h.name, h.visible, h.key⟩⟩

/-- A comment. -/
def IsComment (b : Bytes) : Prop := (b.dropWhile isBlank).head? = some '#'.toUInt8

instance (b : Bytes) : Decidable (IsComment b) := inferInstanceAs (Decidable (_ = _))

/-- Lines that name a section, comments and lines without `=` stay inside. -/
def LineInside (line : Bytes) : Prop :=
  NamesSection (text line) ∨ IsComment (body (text line)) ∨
    '='.toUInt8 ∉ body (text line) ∨ PairInside (body (text line))

instance (line : Bytes) : Decidable (LineInside line) := inferInstanceAs (Decidable (_ ∨ _ ∨ _ ∨ _))

-- Strings in the buffer

theorem strEnd_append (before : Bytes) {s : Bytes} (hs : 0 ∉ s) (junk : Bytes) :
    strEnd (before ++ (s ++ 0 :: junk)) before.length = some (before.length + s.length) :=
  scan_append before (isNot_of_not_mem hs) (isNot_self 0) junk

theorem getElem?_append_cons (before s : Bytes) (c : UInt8) (rest : Bytes) :
    (before ++ (s ++ c :: rest))[before.length + s.length]? = some c := by
  rw [← append_assoc, ← length_append, getElem?_append_right le_rfl]
  simp

section Strchr

variable (before : Bytes) {s : Bytes} {c : UInt8} (hs : 0 ∉ s) (hc : c ∉ s)

include hs hc

theorem isNot_both : ∀ x ∈ s, (isNot c x && isNot 0 x) = true := by
  intro x hx
  rw [Bool.and_eq_true]
  exact ⟨isNot_of_not_mem hc x hx, isNot_of_not_mem hs x hx⟩

theorem strchr_append (rest : Bytes) :
    strchr (before ++ (s ++ c :: rest)) before.length c =
      some (some (before.length + s.length)) := by
  have hStop : (isNot c c && isNot 0 c) = false := by rw [isNot_self, Bool.false_and]
  rw [strchr, scan_append before (isNot_both hs hc) hStop, Option.bind_eq_bind, Option.bind_some,
    getElem?_append_cons]
  simp

theorem strchr_append_of_not_mem (hNul : c ≠ 0) (rest : Bytes) :
    strchr (before ++ (s ++ 0 :: rest)) before.length c = some none := by
  have hStop : (isNot c 0 && isNot 0 (0 : UInt8)) = false := by rw [isNot_self, Bool.and_false]
  rw [strchr, scan_append before (isNot_both hs hc) hStop, Option.bind_eq_bind, Option.bind_some,
    getElem?_append_cons]
  simp [hNul.symm]

end Strchr

/-- A value ends at a comment, or at the end of the string. -/
theorem valueEnd_append (before : Bytes) {s : Bytes} (hs : 0 ∉ s) (junk : Bytes) :
    valueEnd (before ++ (s ++ 0 :: junk)) before.length =
      some (before.length + (s.takeWhile (isNot '#'.toUInt8)).length) := by
  by_cases hHash : '#'.toUInt8 ∈ s
  · obtain ⟨rest, -, hSplit⟩ := eq_takeWhile_isNot_append hHash
    have hShown : 0 ∉ s.takeWhile (isNot '#'.toUInt8) :=
      fun h => hs ((List.takeWhile_prefix _).subset h)
    have hFound := strchr_append before hShown (not_mem_takeWhile_isNot s _) (rest ++ 0 :: junk)
    rw [← cons_append, ← append_assoc (List.takeWhile _ s), ← hSplit] at hFound
    rw [valueEnd, hFound]
    rfl
  · rw [valueEnd, strchr_append_of_not_mem before hs hHash (by decide),
      takeWhile_isNot_of_not_mem hHash]
    exact strEnd_append before hs junk

-- A line with `=`

/-- The key is all that can be too long. -/
theorem copyPair_inside_iff {before key junk : Bytes} (hKey : 0 ∉ key) {value stop : Nat}
    (hStop : (before ++ (key ++ 0 :: junk))[stop]? = some 0) (hValue : value ≤ stop)
    (hSize : stop < 4096) :
    (copyPair (before ++ (key ++ 0 :: junk)) before.length value).isSome ↔ key.length < 128 := by
  obtain ⟨val, hVal, hLen⟩ := exists_cstr hStop hValue
  rw [copyPair, getElem?_append_right le_rfl, Nat.sub_self]
  cases key with
  | nil => simp
  | cons c key =>
    have hc : c ≠ 0 := fun h => hKey (h ▸ mem_cons_self)
    have hCopyVal : strcpy 4096 (before ++ (c :: key ++ 0 :: junk)) value = some val := by
      rw [strcpy, hVal, Option.bind_eq_bind, Option.bind_some, if_pos (by omega)]
    have hCopyKey : strcpy 128 (before ++ (c :: key ++ 0 :: junk)) before.length =
        if (c :: key).length < 128 then some (c :: key) else none := by
      rw [strcpy, cstr_append before hKey, Option.bind_eq_bind, Option.bind_some]
    rw [hCopyVal, hCopyKey]
    by_cases hShort : (c :: key).length < 128
    · rw [if_pos hShort]
      exact iff_of_true (by simp [hc]) hShort
    · rw [if_neg hShort]
      exact iff_of_false (by simp [hc]) hShort

/-- The string that begins somewhere in `q`, when a zero byte is behind `q`. -/
theorem exists_key (q junk : Bytes) {name : Nat} (hName : name ≤ q.length) :
    ∃ before rest, q ++ 0 :: junk =
      before ++ ((q.drop name).takeWhile (isNot 0) ++ 0 :: rest) ∧ before.length = name := by
  have hMem : (0 : UInt8) ∈ q.drop name ++ 0 :: junk := by simp
  obtain ⟨rest, -, hSplit⟩ := eq_takeWhile_isNot_append hMem
  have hTake : (q.drop name ++ 0 :: junk).takeWhile (isNot 0) =
      (q.drop name).takeWhile (isNot 0) := by
    rw [takeWhile_append]
    split
    · rename_i hAll
      rw [takeWhile_cons_of_neg (by simp [isNot]), append_nil]
      exact ((List.takeWhile_prefix _).eq_of_length hAll).symm
    · rfl
  refine ⟨q.take name, rest, ?_, length_take_of_le hName⟩
  rw [← hTake, ← hSplit, ← append_assoc, take_append_drop]

/-- The end of the value, from its first character that is no space. -/
theorem valueEnd_behind_spaces (pre : Bytes) {behind : Bytes} (hBehind : 0 ∉ behind)
    (junk : Bytes) :
    valueEnd (pre ++ (behind ++ 0 :: junk)) (pre.length + (behind.takeWhile isSpace).length) =
      some (pre ++ behind.takeWhile (isNot '#'.toUInt8)).length := by
  have hSplit : behind.takeWhile isSpace ++ behind.dropWhile isSpace = behind :=
    takeWhile_append_dropWhile
  have hNoHash : ∀ x ∈ behind.takeWhile isSpace, isNot '#'.toUInt8 x = true := by
    intro x hx
    have hSpace : isSpace x = true := mem_takeWhile_imp hx
    rw [isSpace, beq_iff_eq] at hSpace
    rw [hSpace]
    decide
  have hShown : behind.takeWhile (isNot '#'.toUInt8) = behind.takeWhile isSpace ++
      (behind.dropWhile isSpace).takeWhile (isNot '#'.toUInt8) := by
    rw [← takeWhile_append_of_pos hNoHash, hSplit]
  have hRest : 0 ∉ behind.dropWhile isSpace :=
    fun h => hBehind ((dropWhile_suffix _).subset h)
  have hFound := valueEnd_append (pre ++ behind.takeWhile isSpace) hRest junk
  rw [append_assoc, ← append_assoc (behind.takeWhile isSpace), hSplit,
    length_append] at hFound
  rw [hFound, hShown, length_append, length_append, Nat.add_assoc]

/-- The walk back from the end of the value must find a visible character, in the value or
before it; then what is left of the name must fit. -/
theorem cutValue_inside_iff {pre behind junk : Bytes} (hBehind : 0 ∉ behind) {name p1 : Nat}
    (hPre : pre.length = p1 + 1) (hSize : (pre ++ (behind ++ 0 :: junk)).length ≤ 4096)
    {q : Bytes}
    (hq : (pre ++ behind.takeWhile (isNot '#'.toUInt8)).rdropWhile notAboveSpace = q)
    (hName : q ≠ [] → name ≤ q.length) :
    (cutValue (pre ++ (behind ++ 0 :: junk)) name p1).isSome ↔
      q ≠ [] ∧ ((q.drop name).takeWhile (isNot 0)).length < 128 := by
  have hShown : pre ++ behind.takeWhile (isNot '#'.toUInt8) <+: pre ++ (behind ++ 0 :: junk) :=
    (prefix_append_right_inj pre).mpr
      ((List.takeWhile_prefix _).trans (prefix_append _ _))
  have hPrefix : q <+: pre ++ behind.takeWhile (isNot '#'.toUInt8) :=
    hq ▸ rdropWhile_prefix _ _
  have hValue : scan isSpace (pre ++ (behind ++ 0 :: junk)) (p1 + 1) =
      some (pre.length + (behind.takeWhile isSpace).length) := by
    rw [← hPre]
    exact scan_takeWhile pre behind (by decide) junk
  have hBack : scanBack notAboveSpace (pre ++ (behind ++ 0 :: junk))
      (pre ++ behind.takeWhile (isNot '#'.toUInt8)).length =
        if q = [] then none else some q.length := by
    obtain ⟨rest, hRest⟩ := hShown
    rw [← hRest, ← hq]
    exact scanBack_append notAboveSpace _ rest
  rw [cutValue, hValue, Option.bind_eq_bind, Option.bind_some,
    valueEnd_behind_spaces pre hBehind, Option.bind_some, hBack]
  by_cases hNone : q = []
  · simp [hNone]
  rw [if_neg hNone, Option.bind_some, and_iff_right hNone]
  -- the zero byte is written behind `q`, and the one at the end of the line is still there
  have hqLen := hPrefix.length_le
  have hShownLen : (behind.takeWhile (isNot '#'.toUInt8)).length ≤ behind.length :=
    (List.takeWhile_prefix _).length_le
  have hSpacesLen : (behind.takeWhile isSpace).length ≤ behind.length :=
    (List.takeWhile_prefix _).length_le
  simp only [length_append, length_cons] at hqLen hSize
  obtain ⟨hStore, after, hAfter⟩ := store_of_prefix (hPrefix.trans hShown)
    (by simp only [length_append, length_cons]; omega) 0
  have hStop : ((pre ++ (behind ++ 0 :: junk)).set q.length 0)[pre.length + behind.length]? =
      some 0 := by
    rw [getElem?_set]
    split
    · rw [if_pos (by simp only [length_append, length_cons]; omega)]
    · exact getElem?_append_cons pre behind 0 junk
  obtain ⟨before, rest, hSplit, rfl⟩ := exists_key q after (hName hNone)
  rw [hStore, Option.bind_eq_bind, Option.bind_some]
  rw [hAfter, hSplit] at hStop ⊢
  refine copyPair_inside_iff (not_mem_takeWhile_isNot _ 0) hStop ?_ ?_
  · omega
  · omega

theorem notAboveSpace_of_isBlank {c : UInt8} (h : isBlank c = true) : notAboveSpace c = true := by
  simp only [isBlank, Bool.or_eq_true, beq_iff_eq] at h
  rcases h with ((rfl | rfl) | rfl) | rfl <;> decide

theorem isBlank_of_isSpace {c : UInt8} (h : isSpace c = true) : isBlank c = true := by
  rw [isSpace, beq_iff_eq] at h
  rw [h]
  decide

/-- The parts of a line with `=`: blanks, the name, spaces, and what is behind the `=`. -/
structure Parts (b lead name spaces behind : Bytes) : Prop where
  eq : b = lead ++ name ++ spaces ++ '='.toUInt8 :: behind
  noEq : '='.toUInt8 ∉ lead ++ name ++ spaces
  lead_blank : ∀ c ∈ lead, isBlank c = true
  name_head : name.dropWhile isBlank = name
  spaces_space : ∀ c ∈ spaces, isSpace c = true
  name_last : (lead ++ name).rdropWhile isSpace = lead ++ name

/-- A text with a `=` has these parts. -/
theorem exists_parts {b : Bytes} (hEq : '='.toUInt8 ∈ b) :
    ∃ lead name spaces behind, Parts b lead name spaces behind := by
  obtain ⟨behind, -, hSplit⟩ := eq_takeWhile_isNot_append hEq
  set before := b.takeWhile (isNot '='.toUInt8) with hBefore
  set kept := before.rdropWhile isSpace with hKept
  have hKeptSplit : kept ++ before.rtakeWhile isSpace = before :=
    rdropWhile_append_rtakeWhile
  have hLeadSplit : kept.takeWhile isBlank ++ kept.dropWhile isBlank = kept :=
    takeWhile_append_dropWhile
  refine ⟨kept.takeWhile isBlank, kept.dropWhile isBlank, before.rtakeWhile isSpace, behind,
    ?_, ?_, fun c hc => mem_takeWhile_imp hc, dropWhile_idempotent _ _,
    fun c hc => mem_rtakeWhile_imp hc, ?_⟩
  · rw [hLeadSplit, hKeptSplit]
    exact hSplit
  · rw [hLeadSplit, hKeptSplit]
    exact not_mem_takeWhile_isNot b _
  · rw [hLeadSplit]
    exact rdropWhile_idempotent _ _

namespace Parts

variable {b lead name spaces behind : Bytes}

variable (h : Parts b lead name spaces behind)
include h

theorem beforeEq_eq : beforeEq b = lead ++ name ++ spaces := by
  rw [beforeEq, h.eq, takeWhile_append_of_pos (isNot_of_not_mem h.noEq),
    takeWhile_cons_of_neg (by simp [isNot]), append_nil]

theorem behindEq_eq : behindEq b = behind.takeWhile (isNot '#'.toUInt8) := by
  rw [behindEq, h.eq, dropWhile_append_of_pos (isNot_of_not_mem h.noEq),
    dropWhile_cons_of_neg (by simp [isNot]), tail_cons]

theorem kept_eq : (beforeEq b).rdropWhile isSpace = lead ++ name := by
  rw [h.beforeEq_eq, rdropWhile_append_of_all _ h.spaces_space, h.name_last]

theorem all_isSpace_iff : (beforeEq b).all isSpace = true ↔ lead ++ name = [] := by
  rw [← h.kept_eq, rdropWhile_eq_nil_iff, all_eq_true]

theorem all_isBlank_iff : (beforeEq b).all isBlank = true ↔ name = [] := by
  rw [h.beforeEq_eq, all_eq_true]
  constructor
  · intro hAll
    rw [← h.name_head, dropWhile_eq_nil_iff]
    exact fun c hc => hAll c (by simp [hc])
  · rintro rfl c hc
    rw [append_nil] at hc
    rcases mem_append.mp hc with hLead | hSpaces
    · exact h.lead_blank c hLead
    · exact isBlank_of_isSpace (h.spaces_space c hSpaces)

/-- The `spaces` of the parts are those in front of the `=`. -/
theorem spaceBeforeEq_iff : SpaceBeforeEq b ↔ spaces ≠ [] := by
  rw [SpaceBeforeEq, h.beforeEq_eq]
  constructor
  · rintro hLast rfl
    rw [append_nil] at hLast
    have hNe : lead ++ name ≠ [] := by
      intro hNil
      rw [hNil] at hLast
      cases hLast
    have hNot := rdropWhile_eq_self_iff.mp h.name_last hNe
    rw [getLast?_eq_getLast_of_ne_nil hNe, Option.some.injEq] at hLast
    exact hNot (by rw [hLast]; decide)
  · intro hNe
    rw [getLast?_append_of_ne_nil _ hNe, getLast?_eq_getLast_of_ne_nil hNe,
      Option.some.injEq]
    have hSpace := h.spaces_space _ (getLast_mem hNe)
    rwa [isSpace, beq_iff_eq] at hSpace

/-- Where the parser sees the name begin: at the `=` when there is none. -/
theorem takeWhile_isBlank : b.takeWhile isBlank = if name = [] then lead ++ spaces else lead := by
  have hStop : isBlank '='.toUInt8 = false := by decide
  split
  · rename_i hName
    have hAll : ∀ c ∈ lead ++ name ++ spaces, isBlank c = true := by
      rw [← all_eq_true, ← h.beforeEq_eq]
      exact h.all_isBlank_iff.mpr hName
    rw [h.eq, takeWhile_append_of_pos hAll, takeWhile_cons_of_neg (by simp [hStop]),
      hName, append_nil, append_nil]
  · rename_i hName
    obtain ⟨c, rest, rfl⟩ := exists_cons_of_ne_nil hName
    have hc : isBlank c = false := by
      have hHead := dropWhile_eq_self_iff.mp h.name_head (by simp)
      simpa using hHead
    rw [h.eq, append_assoc, append_assoc, takeWhile_append_of_pos h.lead_blank,
      cons_append, takeWhile_cons_of_neg (by simp [hc]), append_nil]

theorem keyOf_eq :
    keyOf b = if name = [] then
        if spaces = [] then [] else '='.toUInt8 :: (behindEq b).rdropWhile notAboveSpace
      else if spaces = [] ∧ (behindEq b).all notAboveSpace then name.rdropWhile notAboveSpace
      else name := by
  have hKept : ((beforeEq b).rdropWhile isSpace).dropWhile isBlank = name := by
    rw [h.kept_eq, dropWhile_append_of_pos h.lead_blank, h.name_head]
  rw [keyOf, hKept]
  simp only [h.all_isBlank_iff, h.spaceBeforeEq_iff]
  by_cases hName : name = [] <;> by_cases hSpaces : spaces = [] <;>
    by_cases hAll : (behindEq b).all notAboveSpace = true <;> simp_all

/-- The line up to and with the `=`, after the name has been ended by a zero byte: in the
place of the first space, or of the `=` itself. -/
def front (lead name spaces : Bytes) : Bytes :=
  lead ++ name ++ 0 :: if spaces = [] then [] else spaces.tail ++ ['='.toUInt8]

theorem front_length : (front lead name spaces).length = (beforeEq b).length + 1 := by
  rw [h.beforeEq_eq]
  cases spaces with
  | nil => simp [front, Nat.add_assoc]
  | cons x rest => simp [front, Nat.add_assoc]

theorem store_name (junk : Bytes) :
    store (b ++ 0 :: junk) (lead ++ name).length 0 =
      some (front lead name spaces ++ (behind ++ 0 :: junk)) := by
  rw [h.eq]
  cases spaces with
  | nil =>
    have hStore := store_append (lead ++ name) '='.toUInt8 (behind ++ 0 :: junk) 0
    simpa [front] using hStore
  | cons x rest =>
    have hStore := store_append (lead ++ name) x (rest ++ '='.toUInt8 :: behind ++ 0 :: junk) 0
    simpa [front] using hStore

/-- What is in front of the place where the walk back from the end of the value stops. -/
def cut (b lead name spaces : Bytes) : Bytes :=
  (front lead name spaces ++ behindEq b).rdropWhile notAboveSpace

omit h in
theorem cut_of_space (hSpaces : spaces ≠ []) :
    cut b lead name spaces = lead ++ name ++ 0 :: (spaces.tail ++
      '='.toUInt8 :: (behindEq b).rdropWhile notAboveSpace) := by
  have hEq : notAboveSpace '='.toUInt8 = false := by decide
  have hCut := rdropWhile_append_cons hEq (lead ++ name ++ 0 :: spaces.tail) (behindEq b)
  simpa [cut, front, hSpaces] using hCut

omit h in
theorem cut_of_visible (hSpaces : spaces = [])
    (hVisible : (behindEq b).rdropWhile notAboveSpace ≠ []) :
    cut b lead name spaces = lead ++ name ++ 0 :: (behindEq b).rdropWhile notAboveSpace := by
  rw [cut, rdropWhile_append_of_ne_nil _ hVisible, front, if_pos hSpaces]
  simp

omit h in
theorem cut_of_invisible (hSpaces : spaces = [])
    (hInvisible : (behindEq b).rdropWhile notAboveSpace = []) :
    cut b lead name spaces = (lead ++ name).rdropWhile notAboveSpace := by
  rw [cut, rdropWhile_append_of_all _ (rdropWhile_eq_nil_iff.mp hInvisible), front,
    if_pos hSpaces, rdropWhile_concat_pos _ _ _ (by decide)]

theorem pairInside_iff (hKept : lead ++ name ≠ []) :
    PairInside b ↔ (spaces ≠ [] ∨ ¬ (beforeEq b ++ behindEq b).all notAboveSpace) ∧
      (keyOf b).length < 128 := by
  constructor
  · intro hInside
    exact ⟨hInside.visible.imp_left h.spaceBeforeEq_iff.mp, hInside.key⟩
  · rintro ⟨hVisible, hKey⟩
    exact ⟨fun hAll => hKept (h.all_isSpace_iff.mp hAll),
      hVisible.imp_left h.spaceBeforeEq_iff.mpr, hKey⟩

/-- The string that begins where the name was seen is the key. -/
def HasKey (b c : Bytes) : Prop :=
  (b.takeWhile isBlank).length ≤ c.length ∧
    (c.drop (b.takeWhile isBlank).length).takeWhile (isNot 0) = keyOf b

omit h in
theorem all_behindEq_iff :
    (behindEq b).all notAboveSpace = true ↔ (behindEq b).rdropWhile notAboveSpace = [] := by
  rw [all_eq_true, rdropWhile_eq_nil_iff]

/-- The zero byte behind the name is still there. -/
theorem hasKey_of_name (hb : 0 ∉ b) (hNil : name ≠ [])
    (hWhole : ¬ (spaces = [] ∧ (behindEq b).all notAboveSpace)) (rest : Bytes) :
    HasKey b (lead ++ name ++ 0 :: rest) := by
  have hName : 0 ∉ name := fun hMem => hb (by rw [h.eq]; simp [hMem])
  rw [HasKey, h.takeWhile_isBlank, h.keyOf_eq, if_neg hNil, if_neg hNil, if_neg hWhole,
    append_assoc, drop_left]
  exact ⟨by simp, takeWhile_isNot_append hName _⟩

/-- The walk back goes on into the name. -/
theorem hasKey_cut_of_invisible (hb : 0 ∉ b) (hSpaces : spaces = [])
    (hInvisible : (behindEq b).rdropWhile notAboveSpace = []) (hCut : cut b lead name spaces ≠ []) :
    HasKey b (cut b lead name spaces) := by
  have hName : 0 ∉ name := fun hMem => hb (by rw [h.eq]; simp [hMem])
  rw [cut_of_invisible hSpaces hInvisible] at hCut ⊢
  have hNameCut : name.rdropWhile notAboveSpace ≠ [] := by
    intro hNil
    refine hCut (rdropWhile_eq_nil_iff.mpr fun c hc => ?_)
    rcases mem_append.mp hc with hc | hc
    · exact notAboveSpace_of_isBlank (h.lead_blank c hc)
    · exact rdropWhile_eq_nil_iff.mp hNil c hc
  have hNe : name ≠ [] := by
    rintro rfl
    exact hNameCut rfl
  rw [HasKey, h.takeWhile_isBlank, h.keyOf_eq, rdropWhile_append_of_ne_nil lead hNameCut,
    if_neg hNe, if_neg hNe, if_pos ⟨hSpaces, all_behindEq_iff.mpr hInvisible⟩, drop_left]
  exact ⟨by simp, takeWhile_isNot_of_not_mem fun hMem =>
    hName ((List.rdropWhile_prefix _ _).subset hMem)⟩

omit h in
/-- Without a name, the key begins with the `=`. -/
theorem hasKey_cut_of_no_name (h : Parts b lead [] spaces behind) (hb : 0 ∉ b)
    (hSpaces : spaces ≠ []) : HasKey b (cut b lead [] spaces) := by
  have hShown : 0 ∉ (behindEq b).rdropWhile notAboveSpace := by
    intro hMem
    have hMem' : 0 ∈ behindEq b := (List.rdropWhile_prefix _ _).subset hMem
    rw [h.behindEq_eq] at hMem'
    have hMem'' : 0 ∈ behind := (List.takeWhile_prefix _).subset hMem'
    exact hb (by rw [h.eq]; simp [hMem''])
  obtain ⟨x, rest, rfl⟩ := exists_cons_of_ne_nil hSpaces
  have hDrop : (lead ++ 0 :: (rest ++ '='.toUInt8 ::
      (behindEq b).rdropWhile notAboveSpace)).drop (lead ++ x :: rest).length =
        '='.toUInt8 :: (behindEq b).rdropWhile notAboveSpace := by
    rw [show (lead ++ x :: rest).length = (lead ++ 0 :: rest).length by simp,
      ← cons_append, ← append_assoc]
    exact drop_left
  rw [HasKey, h.takeWhile_isBlank, h.keyOf_eq, cut_of_space hSpaces, if_pos rfl, if_pos rfl,
    if_neg hSpaces, append_nil, tail_cons, hDrop]
  refine ⟨by simp, takeWhile_isNot_of_not_mem ?_⟩
  rw [mem_cons, not_or]
  exact ⟨by decide, hShown⟩

/-- What is cut out is the key. -/
theorem hasKey_cut (hb : 0 ∉ b) (hCut : cut b lead name spaces ≠ []) :
    HasKey b (cut b lead name spaces) := by
  by_cases hSpaces : spaces = []
  · by_cases hVisible : (behindEq b).rdropWhile notAboveSpace = []
    · exact h.hasKey_cut_of_invisible hb hSpaces hVisible hCut
    · -- the walk back stops in the value, and the name ends where the `=` was
      rw [cut_of_visible hSpaces hVisible]
      by_cases hNil : name = []
      · rw [HasKey, h.takeWhile_isBlank, h.keyOf_eq, if_pos hNil, if_pos hNil, if_pos hSpaces, hNil,
          hSpaces, append_nil]
        exact ⟨by simp, by simp [isNot]⟩
      · exact h.hasKey_of_name hb hNil (fun hBoth => hVisible (all_behindEq_iff.mp hBoth.2)) _
  · by_cases hNil : name = []
    · subst hNil
      exact h.hasKey_cut_of_no_name hb hSpaces
    · -- the `=` is still there, and the walk back stops there at the latest
      rw [cut_of_space hSpaces]
      exact h.hasKey_of_name hb hNil (fun hBoth => hSpaces hBoth.1) _

theorem cut_ne_nil_iff :
    cut b lead name spaces ≠ [] ↔
      spaces ≠ [] ∨ ¬ (beforeEq b ++ behindEq b).all notAboveSpace := by
  by_cases hSpaces : spaces = []
  · rw [← not_and_or, not_iff_not, all_append, Bool.and_eq_true, all_eq_true,
      all_eq_true, ← rdropWhile_eq_nil_iff, ← rdropWhile_eq_nil_iff, h.beforeEq_eq,
      hSpaces, append_nil]
    by_cases hVisible : (behindEq b).rdropWhile notAboveSpace = []
    · rw [cut_of_invisible rfl hVisible]
      simp [hVisible]
    · rw [cut_of_visible rfl hVisible]
      simp [hVisible]
  · rw [cut_of_space hSpaces]
    simp [hSpaces]

/-- **Lines with `=`.** -/
theorem parsePair_inside_iff (hb : 0 ∉ b) {junk : Bytes} (hSize : (b ++ 0 :: junk).length ≤ 4096) :
    (parsePair (b ++ 0 :: junk) (b.takeWhile isBlank).length (beforeEq b).length).isSome ↔
      PairInside b := by
  have hBack : scanBack isSpace (b ++ 0 :: junk) (beforeEq b).length =
      if lead ++ name = [] then none else some (lead ++ name).length := by
    have hWalk := scanBack_append isSpace (beforeEq b) ('='.toUInt8 :: (behind ++ 0 :: junk))
    rw [h.kept_eq] at hWalk
    rw [← hWalk, h.beforeEq_eq]
    congr 1
    rw [h.eq]
    simp
  rw [parsePair, hBack]
  by_cases hKept : lead ++ name = []
  · rw [if_pos hKept]
    refine iff_of_false (by simp) fun hInside => ?_
    exact hInside.name (h.all_isSpace_iff.mpr hKept)
  rw [if_neg hKept, Option.bind_eq_bind, Option.bind_some, h.store_name, Option.bind_eq_bind,
    Option.bind_some]
  have hBehind : 0 ∉ behind := fun hMem => hb (by rw [h.eq]; simp [hMem])
  have hLen : (front lead name spaces ++ (behind ++ 0 :: junk)).length ≤ 4096 :=
    (store_length (h.store_name junk)).trans_le hSize
  have hCutEq : (front lead name spaces ++ behind.takeWhile (isNot '#'.toUInt8)).rdropWhile
      notAboveSpace = cut b lead name spaces := by
    rw [cut, h.behindEq_eq]
  rw [cutValue_inside_iff hBehind h.front_length hLen hCutEq
    fun hCut => (h.hasKey_cut hb hCut).1, h.pairInside_iff hKept, ← h.cut_ne_nil_iff]
  refine and_congr_right fun hCut => ?_
  rw [(h.hasKey_cut hb hCut).2]

end Parts

-- Any line

theorem removeBackBlank_append (t rest : Bytes) {p : Nat} (hp : p ≤ (t.rdropWhile isBlank).length) :
    removeBackBlank (t ++ rest) p t.length = some (t.rdropWhile isBlank).length := by
  induction t using List.reverseRecOn generalizing rest with
  | nil => rfl
  | append_singleton t c ih =>
    have hLast : (t ++ [c] ++ rest)[t.length]? = some c := by simp
    rw [length_append, length_singleton, removeBackBlank, hLast, Option.bind_some]
    rw [rdropWhile_concat] at hp ⊢
    split at hp
    · rename_i hBlank
      have hLe : (t.rdropWhile isBlank).length ≤ t.length := (List.rdropWhile_prefix _ _).length_le
      rw [if_pos (by omega), if_pos hBlank, if_pos hBlank, append_assoc]
      exact ih ([c] ++ rest) hp
    · rename_i hBlank
      rw [if_neg hBlank, if_neg hBlank, length_append, length_singleton, ite_self]

theorem removeBackBlank_self (data : Bytes) (p : Nat) : removeBackBlank data p p = some p := by
  cases p with
  | zero => rfl
  | succ p => rw [removeBackBlank, if_neg (lt_irrefl _)]

/-- A line that is not blank, from its first character to its last that is no blank. -/
theorem exists_first {s : Bytes} (hNil : s.rdropWhile isBlank ≠ []) :
    ∃ c rest, s.rdropWhile isBlank = s.takeWhile isBlank ++ c :: rest ∧ isBlank c = false := by
  set b := s.rdropWhile isBlank with hb
  obtain ⟨c, rest, hDrop⟩ : ∃ c rest, b.dropWhile isBlank = c :: rest := by
    refine exists_cons_of_ne_nil fun hAll => ?_
    exact rdropWhile_last_not _ _ hNil
      (dropWhile_eq_nil_iff.mp hAll _ (getLast_mem hNil))
  have hBlank : isBlank c = false := by
    have hNot := head_dropWhile_not isBlank (l := b) (by simp [hDrop])
    simpa [hDrop] using hNot
  have hSplit : b = b.takeWhile isBlank ++ c :: rest :=
    hDrop ▸ takeWhile_append_dropWhile.symm
  refine ⟨c, rest, ?_, hBlank⟩
  obtain ⟨blanks, hBlanks⟩ : b <+: s := rdropWhile_prefix _ _
  have hTake : s.takeWhile isBlank = b.takeWhile isBlank := by
    rw [← hBlanks, hSplit, append_assoc, cons_append,
      takeWhile_append_of_pos fun x hx => mem_takeWhile_imp hx,
      takeWhile_cons_of_neg (by simp [hBlank]), ← hSplit, append_nil]
  rw [hTake]
  exact hSplit

section Line

variable {s junk : Bytes} (hs : 0 ∉ s)

include hs

theorem strEnd_behind_blanks :
    strEnd (s ++ 0 :: junk) (s.takeWhile isBlank).length = some s.length := by
  have hRest : 0 ∉ s.dropWhile isBlank := fun h => hs ((dropWhile_suffix _).subset h)
  have hSplit : s.takeWhile isBlank ++ s.dropWhile isBlank = s := takeWhile_append_dropWhile
  have hEnd := strEnd_append (s.takeWhile isBlank) hRest junk
  rwa [← append_assoc, hSplit, ← length_append, hSplit] at hEnd

theorem strchr_eq_beforeEq (hEq : '='.toUInt8 ∈ s) :
    strchr (s ++ 0 :: junk) 0 '='.toUInt8 = some (some (beforeEq s).length) := by
  obtain ⟨behind, -, hSplit⟩ := eq_takeWhile_isNot_append hEq
  have hBefore : 0 ∉ s.takeWhile (isNot '='.toUInt8) :=
    fun h => hs ((List.takeWhile_prefix _).subset h)
  have hFound := strchr_append [] hBefore (not_mem_takeWhile_isNot s _) (behind ++ 0 :: junk)
  rw [← cons_append, ← append_assoc (List.takeWhile _ s), ← hSplit] at hFound
  simpa [beforeEq] using hFound

/-- The blanks at the end of a line that is not blank are cut off. -/
theorem exists_trimmed (hNil : s.rdropWhile isBlank ≠ []) (junk : Bytes) :
    ∃ c junk', removeBackBlank (s ++ 0 :: junk) (s.takeWhile isBlank).length s.length =
        some (s.rdropWhile isBlank).length ∧
      store (s ++ 0 :: junk) (s.rdropWhile isBlank).length 0 =
        some (s.rdropWhile isBlank ++ 0 :: junk') ∧
      (s.rdropWhile isBlank ++ 0 :: junk').length = (s ++ 0 :: junk).length ∧
      (s.rdropWhile isBlank ++ 0 :: junk')[(s.takeWhile isBlank).length]? = some c ∧ c ≠ 0 ∧
      (IsComment (s.rdropWhile isBlank) ↔ c = '#'.toUInt8) ∧
      (s.rdropWhile isBlank).takeWhile isBlank = s.takeWhile isBlank := by
  obtain ⟨c, rest, hSplit, hBlank⟩ := exists_first hNil
  have hPrefix : s.rdropWhile isBlank <+: s := rdropWhile_prefix _ _
  have hLead : ∀ x ∈ s.takeWhile isBlank, isBlank x = true := fun x hx => mem_takeWhile_imp hx
  have hLt : (s.rdropWhile isBlank).length < (s ++ 0 :: junk).length := by
    have hLen := hPrefix.length_le
    simp only [length_append, length_cons]
    omega
  obtain ⟨hStore, junk', hSet⟩ :=
    store_of_prefix (hPrefix.trans (prefix_append s (0 :: junk))) hLt 0
  refine ⟨c, junk', ?_, ?_, ?_, ?_, ?_, ?_, ?_⟩
  · refine removeBackBlank_append s (0 :: junk) ?_
    rw [hSplit]
    simp
  · rw [hStore, hSet]
  · rw [← hSet, length_set]
  · rw [hSplit]
    simp
  · rintro rfl
    exact hs (hPrefix.subset (by rw [hSplit]; simp))
  · rw [IsComment, hSplit, dropWhile_append_of_pos hLead,
      dropWhile_cons_of_neg (by simp [hBlank]), head?_cons, Option.some.injEq]
  · rw [hSplit, takeWhile_append_of_pos hLead, takeWhile_cons_of_neg (by simp [hBlank]),
      append_nil]

/-- **Lines that are not a section's name.** -/
theorem parseValue_inside_iff (hSize : (s ++ 0 :: junk).length ≤ 4096) :
    (parseValue (s ++ 0 :: junk)).isSome ↔ IsComment (s.rdropWhile isBlank) ∨
      '='.toUInt8 ∉ s.rdropWhile isBlank ∨ PairInside (s.rdropWhile isBlank) := by
  have hStart : scan isBlank (s ++ 0 :: junk) 0 = some (s.takeWhile isBlank).length := by
    have hScan := scan_takeWhile [] s (f := isBlank) (c := 0) (by decide) junk
    simpa using hScan
  rw [parseValue, hStart, Option.bind_eq_bind, Option.bind_some, strEnd_behind_blanks hs,
    Option.bind_some]
  by_cases hNil : s.rdropWhile isBlank = []
  · -- only blanks
    have hAll : s.takeWhile isBlank = s :=
      takeWhile_eq_self_iff.mpr (rdropWhile_eq_nil_iff.mp hNil)
    rw [hAll, removeBackBlank_self, Option.bind_some, store_append]
    refine iff_of_true (by simp) (Or.inr (Or.inl ?_))
    simp [hNil]
  have hb0 : 0 ∉ s.rdropWhile isBlank := fun h => hs ((List.rdropWhile_prefix _ _).subset h)
  obtain ⟨c, junk', hRemove, hStore, hLen, hFirst, hc0, hComment, hTake⟩ :=
    exists_trimmed hs hNil junk
  rw [hRemove, Option.bind_some, hStore, Option.bind_eq_bind, Option.bind_some, hFirst,
    Option.bind_eq_bind, Option.bind_some, hComment]
  by_cases hHash : c = '#'.toUInt8
  · simp [hHash]
  rw [if_neg (by simp [hHash, hc0]), or_iff_right hHash]
  by_cases hEq : '='.toUInt8 ∈ s.rdropWhile isBlank
  · obtain ⟨lead, name, spaces, behind, hParts⟩ := exists_parts hEq
    rw [strchr_eq_beforeEq hb0 hEq, or_iff_right (not_not.mpr hEq),
      ← hParts.parsePair_inside_iff hb0 (hLen.trans_le hSize), hTake]
    rfl
  · have hNone := strchr_append_of_not_mem [] hb0 hEq (by decide) junk'
    rw [nil_append, length_nil] at hNone
    rw [hNone]
    exact iff_of_true rfl (Or.inl hEq)

end Line

-- The names of sections

/-- A name is found just if it consists of word bytes. -/
theorem sectionName_eq (c : UInt8) {inner : Bytes} (hInner : 0 ∉ inner) (junk : Bytes) :
    ∃ name, sectionName (c :: (inner ++ 0 :: junk)) = some name ∧
      (name.isSome ↔ inner.all isWord = true) := by
  have hScan : scan isWord (c :: (inner ++ 0 :: junk)) 1 =
      some (1 + (inner.takeWhile isWord).length) :=
    scan_takeWhile [c] inner (by decide) junk
  rw [sectionName, hScan, Option.bind_eq_bind, Option.bind_some]
  by_cases hAll : inner.all isWord = true
  · have hTake : inner.takeWhile isWord = inner :=
      takeWhile_eq_self_iff.mpr (all_eq_true.mp hAll)
    have hAt : (c :: (inner ++ 0 :: junk))[1 + inner.length]? = some 0 :=
      getElem?_append_cons [c] inner 0 junk
    have hName : cstr 0 (c :: (inner ++ 0 :: junk)) 1 = some inner := cstr_append [c] hInner junk
    refine ⟨some inner, ?_, by simp [hAll]⟩
    rw [hTake, hAt, Option.bind_eq_bind, Option.bind_some, if_pos rfl, hName]
    rfl
  · have hNe : inner.dropWhile isWord ≠ [] := by
      rw [Ne, dropWhile_eq_nil_iff, ← all_eq_true]
      exact hAll
    obtain ⟨x, rest, hx⟩ := exists_cons_of_ne_nil hNe
    have hSplit : inner = inner.takeWhile isWord ++ x :: rest :=
      hx ▸ takeWhile_append_dropWhile.symm
    have hx0 : x ≠ 0 := by
      rintro rfl
      exact hInner (by rw [hSplit]; simp)
    have hAt : (c :: (inner ++ 0 :: junk))[1 + (inner.takeWhile isWord).length]? = some x := by
      have hCell := getElem?_append_cons [c] (inner.takeWhile isWord) x (rest ++ 0 :: junk)
      rw [← cons_append, ← append_assoc (List.takeWhile _ _), ← hSplit] at hCell
      exact hCell
    refine ⟨none, ?_, by simp [hAll]⟩
    rw [hAt, Option.bind_eq_bind, Option.bind_some, if_neg hx0]

variable {s data : Bytes} {out : Bytes × ParseResult} {name : Nat}

theorem strEnd_zero (hs : 0 ∉ s) (junk : Bytes) : strEnd (s ++ 0 :: junk) 0 = some s.length := by
  have hStr := strEnd_append [] hs junk
  simpa using hStr

theorem exists_last (hNe : s.rdropWhile isBlank ≠ []) :
    ∃ before x blanks, s.rdropWhile isBlank = before ++ [x] ∧ s = before ++ x :: blanks := by
  obtain ⟨before, x, hLast⟩ : ∃ before x, s.rdropWhile isBlank = before ++ [x] :=
    ⟨_, _, (dropLast_append_getLast hNe).symm⟩
  obtain ⟨blanks, hBlanks⟩ : s.rdropWhile isBlank <+: s := rdropWhile_prefix _ _
  refine ⟨before, x, blanks, hLast, ?_⟩
  rw [← hBlanks, hLast]
  simp

/-- A line that begins with a bracket. -/
theorem isSectionName_open {s : Bytes} (hs : 0 ∉ s) (hLong : 2 < s.length)
    (hOpen : s.head? = some '['.toUInt8) (junk : Bytes) :
    ∃ junk' name, isSectionName (s ++ 0 :: junk) =
        some ((if Bracketed s then unbracketed s else s) ++ 0 :: junk', name) ∧
      ((if Bracketed s then unbracketed s else s) ++ 0 :: junk').length =
        (s ++ 0 :: junk).length ∧
      (name.isSome ↔ NamesSection s) := by
  have hFirst : (s ++ 0 :: junk)[0]? = some '['.toUInt8 := by
    rw [getElem?_append_left (by omega), ← head?_eq_getElem?, hOpen]
  have hNe : s.rdropWhile isBlank ≠ [] := by
    rw [Ne, rdropWhile_eq_nil_iff]
    intro hAll
    exact absurd (hAll '['.toUInt8 (mem_of_mem_head? hOpen)) (by decide)
  -- the last byte that is not blank decides
  obtain ⟨before, x, blanks, hLast, hSplit⟩ := exists_last hNe
  have hBack : scanBack isBlank (s ++ 0 :: junk) s.length = some (before.length + 1) := by
    rw [scanBack_append, if_neg hNe, hLast, length_append, length_singleton]
  have hAt : (s ++ 0 :: junk)[before.length + 1 - 1]? = some x := by
    rw [hSplit, Nat.add_sub_cancel]
    simp
  have hBracketed : Bracketed s ↔ x = ']'.toUInt8 := by
    rw [Bracketed, hLast, getLast?_concat, Option.some.injEq, and_iff_right hLong,
      and_iff_right hOpen]
  rw [isSectionName, strEnd_zero hs, Option.bind_eq_bind, Option.bind_some, hFirst,
    Option.bind_eq_bind, Option.bind_some, if_neg (by simp; omega), hBack, Option.bind_eq_bind,
    Option.bind_some, hAt, Option.bind_eq_bind, Option.bind_some]
  by_cases hx : x = ']'.toUInt8
  · subst hx
    have hYes : Bracketed s := hBracketed.mpr rfl
    have hUn : unbracketed s = before := by rw [unbracketed, hLast, dropLast_concat]
    obtain ⟨inner, rfl⟩ : ∃ inner, before = '['.toUInt8 :: inner := by
      rw [hSplit] at hOpen
      cases before with
      | nil => exact absurd (Option.some.inj hOpen) (by decide)
      | cons y inner => exact ⟨inner, by rw [Option.some.inj hOpen]⟩
    have hInner : 0 ∉ inner := fun h => hs (by rw [hSplit]; simp [h])
    have hMem : s ++ 0 :: junk = '['.toUInt8 :: inner ++ ']'.toUInt8 :: (blanks ++ 0 :: junk) := by
      rw [hSplit]
      simp
    obtain ⟨name, hName, hSome⟩ := sectionName_eq '['.toUInt8 hInner (blanks ++ 0 :: junk)
    refine ⟨blanks ++ 0 :: junk, name, ?_, ?_, ?_⟩
    · rw [if_neg (by simp), hMem, Nat.add_sub_cancel, store_append, Option.bind_some,
        cons_append, hName, if_pos hYes, hUn]
      rfl
    · rw [if_pos hYes, hUn, hMem]
      simp
    · rw [hSome, NamesSection, hUn, tail_cons, and_iff_right hYes]
  · have hNot : ¬ Bracketed s := fun h => hx (hBracketed.mp h)
    rw [if_pos hx, if_neg hNot]
    exact ⟨junk, none, rfl, rfl, by simp [NamesSection, hNot]⟩

/-- `isSectionName` stays inside, finds the names of sections, and takes a closing bracket
away. -/
theorem isSectionName_eq (hs : 0 ∉ s) (junk : Bytes) :
    ∃ junk' name, isSectionName (s ++ 0 :: junk) =
        some ((if Bracketed s then unbracketed s else s) ++ 0 :: junk', name) ∧
      ((if Bracketed s then unbracketed s else s) ++ 0 :: junk').length =
        (s ++ 0 :: junk).length ∧
      (name.isSome ↔ NamesSection s) := by
  by_cases hOpen : 2 < s.length ∧ s.head? = some '['.toUInt8
  · exact isSectionName_open hs hOpen.1 hOpen.2 junk
  have hNot : ¬ Bracketed s := fun h => hOpen ⟨h.1, h.2.1⟩
  refine ⟨junk, none, ?_, by rw [if_neg hNot], by simp [NamesSection, hNot]⟩
  rw [isSectionName, strEnd_zero hs, Option.bind_eq_bind, Option.bind_some, if_neg hNot]
  cases s with
  | nil => rfl
  | cons c s' =>
    rw [cons_append, getElem?_cons_zero, Option.bind_eq_bind, Option.bind_some]
    refine if_pos ?_
    by_contra hBoth
    obtain ⟨hLong, hc⟩ := not_or.mp hBoth
    exact hOpen ⟨not_le.mp hLong, by rw [head?_cons, not_not.mp hc]⟩

-- The buffer keeps its size

theorem copyPair_length {value : Nat} (h : copyPair data name value = some out) :
    out.1.length = data.length := by
  obtain ⟨c, -, h⟩ := Option.bind_eq_some_iff.mp h
  split at h
  · cases h
    rfl
  · obtain ⟨key, -, h⟩ := Option.bind_eq_some_iff.mp h
    obtain ⟨val, -, h⟩ := Option.bind_eq_some_iff.mp h
    cases h
    rfl

theorem parsePair_length {p1 : Nat} (h : parsePair data name p1 = some out) :
    out.1.length = data.length := by
  obtain ⟨nameEnd, -, h⟩ := Option.bind_eq_some_iff.mp h
  obtain ⟨data₁, hStore, h⟩ := Option.bind_eq_some_iff.mp h
  obtain ⟨value, -, h⟩ := Option.bind_eq_some_iff.mp h
  obtain ⟨p, -, h⟩ := Option.bind_eq_some_iff.mp h
  obtain ⟨q, -, h⟩ := Option.bind_eq_some_iff.mp h
  obtain ⟨data₂, hStore', h⟩ := Option.bind_eq_some_iff.mp h
  rw [copyPair_length h, store_length hStore', store_length hStore]

theorem parseValue_length (h : parseValue data = some out) : out.1.length = data.length := by
  obtain ⟨p, -, h⟩ := Option.bind_eq_some_iff.mp h
  obtain ⟨p1, -, h⟩ := Option.bind_eq_some_iff.mp h
  obtain ⟨p1', -, h⟩ := Option.bind_eq_some_iff.mp h
  obtain ⟨data₁, hStore, h⟩ := Option.bind_eq_some_iff.mp h
  obtain ⟨c, -, h⟩ := Option.bind_eq_some_iff.mp h
  rw [← store_length hStore]
  split at h
  · cases h
    rfl
  · obtain ⟨found, -, h⟩ := Option.bind_eq_some_iff.mp h
    cases found with
    | none =>
      cases h
      rfl
    | some p1'' => exact parsePair_length h

-- Files

theorem takeLine_length (n : Nat) (file : Bytes) : (takeLine n file).1.length ≤ n := by
  induction n generalizing file with
  | zero => exact le_rfl
  | succ n ih =>
    cases file with
    | nil => exact Nat.zero_le _
    | cons c file =>
      rw [takeLine]
      split
      · simp
      · exact Nat.succ_le_succ (ih file)

theorem takeLines_length {n : Nat} {file line : Bytes} (h : line ∈ takeLines n file) :
    line.length ≤ 4095 := by
  induction n generalizing file with
  | zero => cases h
  | succ n ih =>
    cases file with
    | nil => cases h
    | cons c file =>
      rcases mem_cons.mp h with rfl | hRest
      · exact takeLine_length 4095 (c :: file)
      · exact ih hRest

namespace Loading

variable {st : Loading} {line : Bytes}

/-- A line that is read stays inside. -/
def Inside (st : Loading) (line : Bytes) : Prop := st.exited = false → LineInside line

instance (st : Loading) (line : Bytes) : Decidable (st.Inside line) :=
  inferInstanceAs (Decidable (_ → _))

theorem add_data (st : Loading) (r : ParseResult) : (st.add r).data = st.data := by
  unfold add
  split
  · rfl
  · rfl
  · split <;> rfl

theorem fgets_eq (hData : st.data.length = 4096) (hLine : line.length ≤ 4095) :
    ∃ junk, st.fgets line = text line ++ 0 :: junk ∧ (text line ++ 0 :: junk).length = 4096 := by
  obtain ⟨before, junk, hSplit, hLen⟩ :=
    exists_key line (st.data.drop (line.length + 1)) (Nat.zero_le _)
  obtain rfl := length_eq_zero_iff.mp hLen
  rw [drop_zero, nil_append] at hSplit
  refine ⟨junk, hSplit, ?_⟩
  rw [text, ← hSplit]
  simp only [length_append, length_cons, length_drop]
  omega

/-- **Step lemma.** -/
theorem loadLine_inside (hData : st.data.length = 4096) (hLine : line.length ≤ 4095) :
    (st.Inside line → ∃ st', st.loadLine line = some st' ∧ st'.data.length = 4096) ∧
      (¬ st.Inside line → st.loadLine line = none) := by
  by_cases hExited : st.exited = true
  · refine ⟨fun _ => ⟨st, if_pos hExited, hData⟩, fun hNot => ?_⟩
    exact absurd (fun h => absurd (hExited.symm.trans h) (by decide)) hNot
  have hReads : st.Inside line ↔ LineInside line := by
    rw [Bool.not_eq_true] at hExited
    exact imp_iff_right hExited
  obtain ⟨junk, hFgets, hSize⟩ := fgets_eq hData hLine
  have hText : 0 ∉ text line := not_mem_takeWhile_isNot line 0
  obtain ⟨junk', name, hSection, hSize', hNames⟩ := isSectionName_eq hText junk
  rw [hReads, loadLine, if_neg hExited, hFgets, hSection, Option.bind_eq_bind, Option.bind_some]
  rw [hSize] at hSize'
  cases name with
  | some name =>
    have hInside : LineInside line := Or.inl (hNames.mp rfl)
    exact ⟨fun _ => ⟨_, rfl, hSize'⟩, fun hNot => absurd hInside hNot⟩
  | none =>
    have hNoName : ¬ NamesSection (text line) := fun h => by cases hNames.mpr h
    have hSeen : 0 ∉ (if Bracketed (text line) then unbracketed (text line) else text line) := by
      split
      · intro hMem
        exact hText ((List.rdropWhile_prefix _ _).subset (dropLast_subset _ hMem))
      · exact hText
    have hParse := parseValue_inside_iff hSeen hSize'.le
    have hInside : LineInside line ↔ _ := or_iff_right hNoName
    rw [hInside, body, ← hParse]
    dsimp only
    constructor
    · intro hSome
      obtain ⟨out, hOut⟩ := Option.isSome_iff_exists.mp hSome
      rw [hOut]
      refine ⟨_, rfl, ?_⟩
      rw [add_data]
      exact (parseValue_length hOut).trans hSize'
    · intro hNone
      rw [Option.not_isSome_iff_eq_none.mp hNone]
      rfl

end Loading

/-- A file of any content is read without an access outside of the three buffers if and only
if every line that is read, up to where `load` gives up, names a section, is a comment, has no
`=`, or satisfies the three conditions on lines with `=`. -/
theorem load_inside_iff (configMap : Bytes → Option Section) {data : Bytes}
    (hData : data.length = 4096) (file : Bytes) :
    (∃ st, load configMap data file = some st) ↔
      Along Loading.loadLine Loading.Inside ⟨configMap, none, data, false⟩ (lines file) := by
  have hLines : Along Loading.loadLine (fun _ line => line.length ≤ 4095)
      ⟨configMap, none, data, false⟩ (lines file) :=
    along_of_forall fun line hLine _ => takeLines_length hLine
  have hStep : ∀ (st : Loading) (line : Bytes), line.length ≤ 4095 → st.data.length = 4096 →
      (st.Inside line → ∃ st', st.loadLine line = some st' ∧ st'.data.length = 4096) ∧
        (¬ st.Inside line → st.loadLine line = none) :=
    fun st line hLine hSize => Loading.loadLine_inside hSize hLine
  exact run_total_iff hStep hData hLines

/-- A section, a comment, and values of two keys. -/
theorem load_inside_iff_section :
    ∃ st, load (fun _ => none) (List.replicate 4096 0)
      (['[', 'a', ']', '\n', '#', '\n', ' ', 'k', ' ', '=', ' ', 'v', '#', '\n', 'l', '=', '\n'].map
        Char.toUInt8) = some st := by
  have hAll : ∀ line ∈ lines (['[', 'a', ']', '\n', '#', '\n', ' ', 'k', ' ', '=', ' ', 'v', '#',
      '\n', 'l', '=', '\n'].map Char.toUInt8), LineInside line := by
    decide
  exact (load_inside_iff _ length_replicate _).mpr
    (along_of_forall fun line hLine _ _ => hAll line hLine)

/-- The line `=1`: the byte in front of the buffer is read. -/
theorem load_equals_first :
    load (fun _ => none) (List.replicate 4096 0) ['='.toUInt8, '1'.toUInt8] = none := by
  have hOut : ¬ Loading.Inside ⟨fun _ => none, none, List.replicate 4096 0, false⟩
      ['='.toUInt8, '1'.toUInt8] := fun h => absurd (h rfl) (by decide)
  have hNone := (Loading.loadLine_inside length_replicate (by decide)).2 hOut
  rw [load, show lines ['='.toUInt8, '1'.toUInt8] = [['='.toUInt8, '1'.toUInt8]] by decide, run,
    hNone, Option.bind_none]

end CConfig

end MyBase
