import MyBase.Lib.Bytes
import MyBase.Lib.CString
import MyBase.Lib.Run

/-!
# MyBase — reading a configuration file

`CConfig::load` reads a file line by line into a buffer of 4096 bytes and takes each line
apart in place, with pointers that also walk backwards. A key is copied to a buffer of 128
bytes, a value to one of 4096. `none` is an access outside of one of the three; a `char` is
signed.

Two of the walks look at what is in front of a pointer and not at where the line begins, and
the key is copied whatever its length.
-/

namespace MyBase

open Lib

namespace CConfig

-- Characters

/-- `c == ' ' || c == '\t' || c == '\r' || c == '\n'` -/
def isBlank (c : UInt8) : Bool :=
  c == ' '.toUInt8 || c == '\t'.toUInt8 || c == '\r'.toUInt8 || c == '\n'.toUInt8

def isSpace (c : UInt8) : Bool := c == ' '.toUInt8

/-- `c <= ' '`, for a signed `char`. -/
def notAboveSpace (c : UInt8) : Bool := c.toNat ≤ 32 || 128 ≤ c.toNat

/-- A letter, a digit or `_`. -/
def isWord (c : UInt8) : Bool :=
  ('A'.toUInt8 ≤ c && c ≤ 'Z'.toUInt8) || ('a'.toUInt8 ≤ c && c ≤ 'z'.toUInt8) ||
    ('0'.toUInt8 ≤ c && c ≤ '9'.toUInt8) || c == '_'.toUInt8

-- The C library

/-- `p + strlen(p)` -/
def strEnd (data : Bytes) (p : Nat) : Option Nat := scan (isNot 0) data p

/-- `strchr(p, c)` -/
def strchr (data : Bytes) (p : Nat) (c : UInt8) : Option (Option Nat) := do
  let q ← scan (fun b => isNot c b && isNot 0 b) data p
  let b ← data[q]?
  return if b = c then some q else none

/-- `strcpy` of what begins at `p` to a buffer of `size` bytes. -/
def strcpy (size : Nat) (data : Bytes) (p : Nat) : Option Bytes := do
  let s ← cstr 0 data p
  if s.length < size then some s else none

-- The parser

/-- What `parseValue` returns: -1, -2, or 0 with a key and a value. -/
inductive ParseResult where
  | skipped
  | failed
  | parsed (key value : Bytes)
deriving DecidableEq, Repr

/-- `remove back blank`: back from `p1`, at most to `p`. -/
def removeBackBlank (data : Bytes) (p : Nat) : Nat → Option Nat
  | 0 => some 0
  | p1 + 1 =>
    if p < p1 + 1 then
      data[p1]?.bind fun c => if isBlank c then removeBackBlank data p p1 else some (p1 + 1)
    else some (p1 + 1)

/-- `strchr(value, '#')`, or the end of the value. -/
def valueEnd (data : Bytes) (value : Nat) : Option Nat := do
  match ← strchr data value '#'.toUInt8 with
  | some p => some p
  | none => strEnd data value

/-- The end of `parseValue`: what begins at `name` and at `value` is copied. -/
def copyPair (data : Bytes) (name value : Nat) : Option (Bytes × ParseResult) := do
  let c ← data[name]?
  if c = 0 then some (data, .failed)
  else do
    let key ← strcpy 128 data name
    let val ← strcpy 4096 data value
    some (data, .parsed key val)

/-- The value: from the first character behind `=` that is no space up to a comment, without
what is at its end. -/
def cutValue (data : Bytes) (name p1 : Nat) : Option (Bytes × ParseResult) := do
  let value ← scan isSpace data (p1 + 1)
  let p ← valueEnd data value
  let p ← scanBack notAboveSpace data p
  let data ← store data p 0
  copyPair data name value

/-- `parseValue`, behind the search for `=`, which was found at `p1`: the name ends in front
of the spaces before it. -/
def parsePair (data : Bytes) (name p1 : Nat) : Option (Bytes × ParseResult) := do
  let nameEnd ← scanBack isSpace data p1
  let data ← store data nameEnd 0
  cutValue data name p1

def parseValue (data : Bytes) : Option (Bytes × ParseResult) := do
  let p ← scan isBlank data 0
  let p1 ← strEnd data p
  let p1 ← removeBackBlank data p p1
  let data ← store data p1 0
  let c ← data[p]?
  if c = '#'.toUInt8 ∨ c = 0 then some (data, .skipped)
  else do
    match ← strchr data 0 '='.toUInt8 with
    | none => some (data, .failed)
    | some p1 => parsePair data p p1

/-- The loop over the name of a section, up to a character that is no part of one. -/
def sectionName (data : Bytes) : Option (Option Bytes) := do
  let p ← scan isWord data 1
  let c ← data[p]?
  if c = 0 then (cstr 0 data 1).map some else some none

def isSectionName (data : Bytes) : Option (Bytes × Option Bytes) := do
  let len ← strEnd data 0
  let c ← data[0]?
  if len ≤ 2 ∨ c ≠ '['.toUInt8 then some (data, none)
  else do
    let p ← scanBack isBlank data len
    let c ← data[p - 1]?
    if c ≠ ']'.toUInt8 then some (data, none)
    else do
      let data ← store data (p - 1) 0
      let name ← sectionName data
      some (data, name)

-- The file

/-- The bytes that `fgets` takes: up to a newline, and at most `n`. -/
def takeLine : Nat → Bytes → Bytes × Bytes
  | 0, file => ([], file)
  | _ + 1, [] => ([], [])
  | n + 1, c :: file =>
    if c = '\n'.toUInt8 then ([c], file) else ((c :: (takeLine n file).1), (takeLine n file).2)

/-- The lines of a file. Each has a byte at least, so there are no more of them than bytes. -/
def takeLines : Nat → Bytes → List Bytes
  | 0, _ => []
  | _ + 1, [] => []
  | n + 1, c :: file =>
    (takeLine 4095 (c :: file)).1 :: takeLines n (takeLine 4095 (c :: file)).2

def lines (file : Bytes) : List Bytes := takeLines file.length file

/-- A section's keys and values. -/
abbrev Section := Bytes → Option Bytes

/-- `load` between two lines: the sections so far, the current one, the buffer, and whether
it has returned `EXIT_FAILURE`. -/
structure Loading where
  configMap : Bytes → Option Section
  current : Option Bytes
  data : Bytes
  exited : Bool

/-- Values of one key are appended, with a zero byte in between. -/
def addValue (m : Section) (key value : Bytes) : Section :=
  Function.update m key (some (match m key with
    | some old => old ++ 0 :: value
    | none => value))

namespace Loading

/-- A section is entered, and made when it is not there. -/
def enter (s : Loading) (name : Bytes) : Loading :=
  { s with
    configMap := Function.update s.configMap name (some ((s.configMap name).getD fun _ => none))
    current := some name }

/-- What `load` does for the result of `parseValue`. -/
def add (s : Loading) : ParseResult → Loading
  | .failed => { s with exited := true }
  | .skipped => s
  | .parsed key value =>
    match s.current with
    | none => { s with exited := true }
    | some name =>
      { s with
        configMap := Function.update s.configMap name
          ((s.configMap name).map fun m => addValue m key value) }

/-- `fgets` writes the line and a zero byte. -/
def fgets (s : Loading) (line : Bytes) : Bytes := line ++ 0 :: s.data.drop (line.length + 1)

/-- One pass of the loop of `load`. After an exit, no line is read any more. -/
def loadLine (s : Loading) (line : Bytes) : Option Loading :=
  if s.exited then some s
  else do
    let (data, name) ← isSectionName (s.fgets line)
    match name with
    | some name => some ({ s with data := data }.enter name)
    | none => do
      let (data, result) ← parseValue data
      some ({ s with data := data }.add result)

end Loading

/-- `load`, of a file that can be opened, with what is in the buffer before. -/
def load (configMap : Bytes → Option Section) (data file : Bytes) : Option Loading :=
  run Loading.loadLine ⟨configMap, none, data, false⟩ (lines file)

end CConfig

end MyBase
