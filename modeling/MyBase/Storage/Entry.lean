import MyBase.Wal.Refine

/-!
# MyBase — what a bucket's log holds

A log payload is an 18-byte connection header, by which the storage server finds
the connection to answer on, followed by a protobuf `DumpEntry`. A replica that
receives a payload overwrites the header with its own and keeps the entry. The code that
protobuf generates is a parameter (`DumpEntryCodec`); runs on fixed entries take the one of
`PlainEntries`.
-/

namespace MyBase

open Lib

/-- The fields of the request header that are copied into a payload. -/
structure ConnHead where
  sockIndex : UInt32
  sockCreate : UInt32
  request : UInt32
  srcIp : UInt32
  srcPort : UInt16
deriving DecidableEq, Repr, Inhabited

/-- A put as it is logged; the `head` field of the message is never set. -/
structure DumpEntry where
  channelid : UInt32
  mtype : UInt32
  ns : UInt32
  key : Bytes
  val : Bytes
  expired : UInt32
  version : UInt32
deriving DecidableEq, Repr, Inhabited

/-- The code that protobuf generates for the message. Entries of a size that it handles are
parsed back, and one with a type has a byte at least. -/
class DumpEntryCodec where
  /-- `SerializeToArray`. -/
  serialize : DumpEntry → Bytes
  /-- `ParseFromArray`. -/
  parse : Bytes → Option DumpEntry
  parse_serialize : ∀ e, (serialize e).length < 2 ^ 31 → parse (serialize e) = some e
  serialize_ne_nil : ∀ e, e.mtype ≠ 0 → serialize e ≠ []

open DumpEntryCodec

/-- The 18 header bytes of a payload. -/
def ConnHead.encode (h : ConnHead) : Bytes :=
  be 4 h.sockIndex.toNat ++ be 4 h.sockCreate.toNat ++ be 4 h.request.toNat ++
    be 4 h.srcIp.toNat ++ be 2 h.srcPort.toNat

@[simp] theorem ConnHead.encode_length (h : ConnHead) : h.encode.length = 18 := by
  simp [ConnHead.encode]

-- Payloads

structure LogData where
  head : ConnHead
  entry : DumpEntry
deriving DecidableEq, Repr

/-- The receiver of a DUMP request writes its own connection header. -/
def LogData.stamp (h : ConnHead) (d : LogData) : LogData := { d with head := h }

@[simp] theorem LogData.stamp_entry (h : ConnHead) (d : LogData) : (d.stamp h).entry = d.entry :=
  rfl

section Payload

variable [DumpEntryCodec]

namespace LogData

/-- The payload handed to `Wal::appendLog` and `Wal::writeAt`. -/
def encode (d : LogData) : Bytes := d.head.encode ++ serialize d.entry

/-- Behind the connection header a payload is the serialised entry. -/
theorem encode_drop (d : LogData) : d.encode.drop 18 = serialize d.entry :=
  List.drop_left' (ConnHead.encode_length _)

/-- Stamping a payload replaces exactly its first 18 bytes. -/
theorem encode_stamp (h : ConnHead) (d : LogData) :
    (d.stamp h).encode = h.encode ++ d.encode.drop 18 := by
  rw [encode_drop]
  rfl

@[simp] theorem encode_stamp_length (h : ConnHead) (d : LogData) :
    (d.stamp h).encode.length = d.encode.length := by
  simp [encode, stamp]

end LogData

/-- A bucket's log file is full when the file of its payloads is. -/
def bucketFull (recs : List LogData) : Bool := walFull (recs.map LogData.encode)

/-- Appending an entry to a bucket's log appends its payload to the byte log, file boundaries
included. -/
theorem map_append_encode (l : SegLog LogData) (d : LogData) :
    (l.append bucketFull d).map LogData.encode =
      (l.map LogData.encode).append walFull d.encode := by
  have hCur : (l.cur ++ [d]).map LogData.encode = l.cur.map LogData.encode ++ [d.encode] := by
    simp
  have hFull : bucketFull (l.cur ++ [d]) = walFull (l.cur.map LogData.encode ++ [d.encode]) := by
    rw [bucketFull, hCur]
  unfold SegLog.append
  rw [hFull]
  show SegLog.map LogData.encode (if _ then _ else _) =
    if walFull (l.cur.map LogData.encode ++ [d.encode]) = true then _ else _
  split <;> simp [SegLog.map]

end Payload

-- An example of a codec

namespace PlainEntries

/-- Entries as bytes: the numbers, with the length of the key, and then the key and the value. -/
def plain (e : DumpEntry) : Bytes :=
  be 4 e.channelid.toNat ++ (be 4 e.mtype.toNat ++ (be 4 e.ns.toNat ++ (be 4 e.expired.toNat ++
    (be 4 e.version.toNat ++ (be 4 e.key.length ++ (e.key ++ e.val))))))

def ofPlain (bs : Bytes) : Option DumpEntry := do
  let (channelid, bs) ← readInt 4 bs
  let (mtype, bs) ← readInt 4 bs
  let (ns, bs) ← readInt 4 bs
  let (expired, bs) ← readInt 4 bs
  let (version, bs) ← readInt 4 bs
  let (len, bs) ← readInt 4 bs
  some ⟨.ofNat channelid, .ofNat mtype, .ofNat ns, bs.take len, bs.drop len, .ofNat expired,
    .ofNat version⟩

theorem ofPlain_plain (e : DumpEntry) (hSize : (plain e).length < 2 ^ 31) :
    ofPlain (plain e) = some e := by
  have hWord : ∀ (v : UInt32) (rest : Bytes),
      readInt 4 (be 4 v.toNat ++ rest) = some (v.toNat, rest) :=
    fun v rest => readInt_be_append v.toNat_lt rest
  have hKey : e.key.length < 256 ^ 4 := by
    simp only [plain, List.length_append, be_length] at hSize
    omega
  simp only [ofPlain, plain, hWord, readInt_be_append hKey, Option.bind_eq_bind, Option.bind_some,
    UInt32.ofNat_toNat, List.take_left, List.drop_left]

scoped instance : DumpEntryCodec where
  serialize := plain
  parse := ofPlain
  parse_serialize := ofPlain_plain
  serialize_ne_nil e _ := List.ne_nil_of_length_pos (by simp [plain])

end PlainEntries

end MyBase
