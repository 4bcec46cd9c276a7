import MyBase.Lib.Decimal

/-!
# MyBase — text helpers

`StringHelper::tokenize`, and the text of an address and a port, as it is printed and
parsed again. `inet_addr` and `gethostbyname` are parameters; of the first it is assumed
that it reads four numbers with dots in between. Addresses are in network byte order, in
a `uint32_t` whose lowest byte comes first in memory.

Main result:

* `NetHelper.str2Addr_addr2String_iff` — an address is parsed as it was printed exactly
  if its port is below `2 ^ 15`.
-/

namespace MyBase

open Lib List

-- Separators

namespace StringHelper

/-- `src.find(delim)`. -/
def find (src delim : Bytes) : Option Nat :=
  (List.range (src.length + 1)).find? fun i => delim.isPrefixOf (src.drop i)

/-- The loop of `tokenize`, on what begins at `last`. -/
def tokenizeFrom (delim : Bytes) : Nat → Bytes → List Bytes
  | 0, _ => []
  | rounds + 1, rest =>
    match find rest delim with
    | some pos => rest.take pos :: tokenizeFrom delim rounds (rest.drop (pos + delim.length))
    | none => if rest = [] then [] else [rest]

/-- `StringHelper::tokenize`. Every round passes a separator, so with one that is not
empty there are no more rounds than bytes. -/
def tokenize (src delim : Bytes) : List Bytes := tokenizeFrom delim (src.length + 1) src

variable {c : UInt8} {p src q : Bytes}

theorem isPrefixOf_singleton_drop {i : Nat} :
    [c].isPrefixOf (src.drop i) = true ↔ src[i]? = some c := by
  rw [List.isPrefixOf_iff_prefix, ← head?_drop]
  cases src.drop i with
  | nil => simp
  | cons b rest => simp [eq_comm]

theorem find_of_not_mem (h : c ∉ src) : find src [c] = none := by
  rw [find, find?_eq_none]
  intro i _ hAt
  exact h (mem_of_getElem? (isPrefixOf_singleton_drop.mp hAt))

theorem find_append_cons (h : c ∉ p) (q : Bytes) : find (p ++ c :: q) [c] = some p.length := by
  rw [find, find?_range_eq_some]
  refine ⟨isPrefixOf_singleton_drop.mpr (by simp), by simp, ?_⟩
  intro i hi
  rw [Bool.not_eq_true', ← Bool.not_eq_true, isPrefixOf_singleton_drop,
    getElem?_append_left hi]
  exact fun hAt => h (mem_of_getElem? hAt)

theorem tokenizeFrom_append_cons (h : c ∉ p) (rounds : Nat) (q : Bytes) :
    tokenizeFrom [c] (rounds + 1) (p ++ c :: q) = p :: tokenizeFrom [c] rounds q := by
  have hRest : (p ++ c :: q).drop (p.length + 1) = q := by
    rw [← drop_drop, drop_left, drop_succ_cons, drop_zero]
  simp only [tokenizeFrom, find_append_cons h, take_left, length_singleton, hRest]

theorem tokenizeFrom_last (h : c ∉ q) (hNe : q ≠ []) (rounds : Nat) :
    tokenizeFrom [c] (rounds + 1) q = [q] := by
  simp only [tokenizeFrom, find_of_not_mem h, if_neg hNe]

/-- Two parts, if there is one separator and something behind it. -/
theorem tokenize_pair (hp : c ∉ p) (hq : c ∉ q) (hNe : q ≠ []) :
    tokenize (p ++ c :: q) [c] = [p, q] := by
  have hLen : (p ++ c :: q).length = p.length + q.length + 1 := by
    simp
    omega
  rw [tokenize, hLen, tokenizeFrom_append_cons hp, tokenizeFrom_last hq hNe]

end StringHelper

-- Addresses

namespace NetHelper

/-- `ipAndPort`. -/
def ipAndPort (ip : UInt32) (port : UInt16) : UInt64 := port.toUInt64 <<< 32 ||| ip.toUInt64

/-- `bytes[i]` of an address. -/
def byteOf (ip : UInt32) (i : Nat) : Nat := ip.toNat / 256 ^ i % 256

/-- `%d.%d.%d.%d`. -/
def dotted (a b c d : Nat) : Bytes :=
  decimal a ++ [46] ++ decimal b ++ [46] ++ decimal c ++ [46] ++ decimal d

/-- `addr2String`. -/
def addr2String (ipport : UInt64) : Bytes :=
  let ip : UInt32 := (ipport &&& 0xffffffff).toUInt32
  let port := (ipport >>> 32 &&& 0xffff).toNat
  let text := dotted (byteOf ip 0) (byteOf ip 1) (byteOf ip 2) (byteOf ip 3)
  if 0 < port then text ++ [58] ++ decimal port else text

section

variable (inetAddr : Bytes → UInt32) (gethostbyname : Bytes → Option UInt32)

/-- `ipStr2Addr`. -/
def ipStr2Addr (ip : Bytes) : UInt32 :=
  let x := inetAddr ip
  if x = 0xffffffff then (gethostbyname ip).getD 0 else x

/-- `str2Addr`, on the text up to a terminating zero. What is in front of a colon is cut
to 64 bytes, and the port is an `int16_t`. -/
def str2Addr (ipPtr : Bytes) (port : Int16) : UInt64 :=
  let ip := ipPtr.takeWhile (· != 0)
  let (nip, port) :=
    match StringHelper.find ip [58] with
    | some p =>
      if 0 < p then
        (ipStr2Addr inetAddr gethostbyname (ip.take (min p 64)),
          Int16.ofInt (atoi (ip.drop (p + 1))))
      else (ipStr2Addr inetAddr gethostbyname ip, port)
    | none => (ipStr2Addr inetAddr gethostbyname ip, port)
  if nip = 0 then 0 else UInt64.ofInt port.toInt <<< 32 ||| nip.toUInt64

end

theorem toNat_shift_or (hi : UInt64) (lo : UInt32) :
    (hi <<< 32 ||| lo.toUInt64).toNat = hi.toNat % 2 ^ 32 * 2 ^ 32 + lo.toNat := by
  have hLo := UInt32.toNat_lt lo
  have hHi : hi.toNat <<< 32 % 2 ^ 64 = (hi.toNat % 2 ^ 32) <<< 32 := by
    rw [Nat.shiftLeft_eq, Nat.shiftLeft_eq]
    omega
  rw [UInt64.toNat_or, UInt64.toNat_shiftLeft, UInt32.toNat_toUInt64]
  show hi.toNat <<< 32 % 2 ^ 64 ||| lo.toNat = _
  rw [hHi, ← Nat.shiftLeft_add_eq_or_of_lt hLo, Nat.shiftLeft_eq]

theorem toNat_ipAndPort (ip : UInt32) (port : UInt16) :
    (ipAndPort ip port).toNat = port.toNat * 2 ^ 32 + ip.toNat := by
  have hPort := UInt16.toNat_lt port
  rw [ipAndPort, toNat_shift_or, UInt16.toNat_toUInt64, Nat.mod_eq_of_lt (by omega)]

/-- The text of an address, without the port. -/
def ipText (ip : UInt32) : Bytes := dotted (byteOf ip 0) (byteOf ip 1) (byteOf ip 2) (byteOf ip 3)

theorem addr2String_ipAndPort (ip : UInt32) (port : UInt16) :
    addr2String (ipAndPort ip port) =
      if 0 < port.toNat then ipText ip ++ 58 :: decimal port.toNat else ipText ip := by
  have hIpLt := UInt32.toNat_lt ip
  have hPortLt := UInt16.toNat_lt port
  have hIp : (ipAndPort ip port &&& 0xffffffff).toUInt32 = ip := by
    rw [← UInt32.toNat_inj, UInt64.toNat_toUInt32, UInt64.toNat_and, toNat_ipAndPort]
    show (_ &&& 2 ^ 32 - 1) % 2 ^ 32 = _
    rw [Nat.and_two_pow_sub_one_eq_mod]
    omega
  have hPort : (ipAndPort ip port >>> 32 &&& 0xffff).toNat = port.toNat := by
    rw [UInt64.toNat_and, UInt64.toNat_shiftRight, toNat_ipAndPort]
    show _ >>> 32 &&& 2 ^ 16 - 1 = _
    rw [Nat.and_two_pow_sub_one_eq_mod, Nat.shiftRight_eq_div_pow]
    omega
  simp only [addr2String, hIp, hPort, ipText, append_assoc, singleton_append]

theorem mem_ipText {ip : UInt32} {b : UInt8} (h : b ∈ ipText ip) : isDigit b = true ∨ b = 46 := by
  simp only [ipText, dotted, mem_append, mem_singleton] at h
  rcases h with (((((h | h) | h) | h) | h) | h) | h
  all_goals first
    | exact .inl (isDigit_of_mem_decimal h)
    | exact .inr h

theorem not_mem_ipText (ip : UInt32) {b : UInt8} (hDigit : isDigit b = false) (hDot : b ≠ 46) :
    b ∉ ipText ip := by
  intro h
  rcases mem_ipText h with h | h
  · rw [hDigit] at h
    cases h
  · exact hDot h

theorem ipText_length_le (ip : UInt32) : (ipText ip).length ≤ 64 := by
  have hByte : ∀ i, (decimal (byteOf ip i)).length ≤ 3 := by
    intro i
    refine decimal_length_le ?_
    unfold byteOf
    omega
  have h0 := hByte 0
  have h1 := hByte 1
  have h2 := hByte 2
  have h3 := hByte 3
  simp only [ipText, dotted, length_append, length_singleton]
  omega

/-- No text of an address has a zero in it. -/
theorem takeWhile_addr2String (ip : UInt32) (port : UInt16) :
    (addr2String (ipAndPort ip port)).takeWhile (· != 0) = addr2String (ipAndPort ip port) := by
  rw [takeWhile_eq_self_iff]
  intro b hb
  rw [bne_iff_ne]
  rintro rfl
  have hIp := not_mem_ipText ip (rfl : isDigit 0 = false) (by decide)
  have hPort : (0 : UInt8) ∉ decimal port.toNat := fun h => by cases isDigit_of_mem_decimal h
  rw [addr2String_ipAndPort] at hb
  split at hb
  · simp [hIp, hPort] at hb
  · exact hIp hb

section

variable {inetAddr : Bytes → UInt32} {gethostbyname : Bytes → Option UInt32} {ip : UInt32}
  {port : UInt16}

/-- `inet_addr` reads four numbers with dots in between, the first into the lowest byte. -/
def ParsesDotted (inetAddr : Bytes → UInt32) : Prop :=
  ∀ a b c d, a < 256 → b < 256 → c < 256 → d < 256 →
    inetAddr (dotted a b c d) = UInt32.ofNat (a + b * 2 ^ 8 + c * 2 ^ 16 + d * 2 ^ 24)

theorem ipStr2Addr_ipText (hInet : ParsesDotted inetAddr) (hNone : ip ≠ 0xffffffff) :
    ipStr2Addr inetAddr gethostbyname (ipText ip) = ip := by
  have hByte : ∀ i, byteOf ip i < 256 := fun i => Nat.mod_lt _ (by decide)
  have hIp : inetAddr (ipText ip) = ip := by
    rw [ipText, hInet _ _ _ _ (hByte 0) (hByte 1) (hByte 2) (hByte 3), ← UInt32.toNat_inj,
      UInt32.toNat_ofNat']
    have hLt := UInt32.toNat_lt ip
    simp only [byteOf]
    omega
  simp only [ipStr2Addr, hIp, if_neg hNone]

/-- What is parsed of an address with a port: the port as an `int16_t`. -/
theorem str2Addr_addr2String (hInet : ParsesDotted inetAddr) (hZero : ip ≠ 0)
    (hNone : ip ≠ 0xffffffff) :
    str2Addr inetAddr gethostbyname (addr2String (ipAndPort ip port)) 0 =
      UInt64.ofInt (Int16.ofInt port.toNat).toInt <<< 32 ||| ip.toUInt64 := by
  have hPortLt := UInt16.toNat_lt port
  have hColon := not_mem_ipText ip (rfl : isDigit 58 = false) (by decide)
  have hAddr : ipStr2Addr inetAddr gethostbyname (ipText ip) = ip := ipStr2Addr_ipText hInet hNone
  rw [str2Addr, takeWhile_addr2String, addr2String_ipAndPort]
  by_cases hPort : 0 < port.toNat
  · have hPos : 0 < (ipText ip).length := by
      simp [ipText, dotted]
    have hMin : min (ipText ip).length 64 = (ipText ip).length :=
      Nat.min_eq_left (ipText_length_le ip)
    have hRest : (ipText ip ++ 58 :: decimal port.toNat).drop ((ipText ip).length + 1) =
        decimal port.toNat := by
      rw [← drop_drop, drop_left, drop_succ_cons, drop_zero]
    simp only [if_pos hPort, StringHelper.find_append_cons hColon, if_pos hPos, hMin,
      take_left, hRest, hAddr, atoi_decimal (by omega : port.toNat < 2 ^ 31), if_neg hZero]
  · have hPortZero : port.toNat = 0 := by omega
    simp only [if_neg hPort, StringHelper.find_of_not_mem hColon, hAddr, if_neg hZero]
    rw [hPortZero]
    rfl

/-- For every address but `0.0.0.0` and `255.255.255.255` and every port: the id that is
parsed from the printed one is the same exactly if the port is not negative as an
`int16_t`. -/
theorem str2Addr_addr2String_iff (hInet : ParsesDotted inetAddr) (hZero : ip ≠ 0)
    (hNone : ip ≠ 0xffffffff) :
    str2Addr inetAddr gethostbyname (addr2String (ipAndPort ip port)) 0 = ipAndPort ip port ↔
      port.toNat < 2 ^ 15 := by
  have hPortLt := UInt16.toNat_lt port
  have hIpLt := UInt32.toNat_lt ip
  have hSigned : (UInt64.ofInt (Int16.ofInt port.toNat).toInt).toNat =
      (((port.toNat : Int).bmod (2 ^ 16)) % 2 ^ 64).toNat := by
    rw [Int16.toInt_ofInt]
    show (UInt64.ofNat _).toNat = _
    rw [UInt64.toNat_ofNat', Nat.mod_eq_of_lt]
    · rfl
    · omega
  rw [str2Addr_addr2String hInet hZero hNone, ← UInt64.toNat_inj, toNat_shift_or,
    toNat_ipAndPort, hSigned]
  rcases Nat.lt_or_ge port.toNat (2 ^ 15) with hLow | hHigh
  · rw [Int.bmod_eq_of_le (by omega) (by omega)]
    omega
  · -- The sign fills the upper half of the address.
    have hNeg : (port.toNat : Int).bmod (2 ^ 16) = (port.toNat : Int) - 2 ^ 16 := by
      rw [← Int.sub_bmod_right, Int.bmod_eq_of_le (by omega) (by omega)]
      rfl
    rw [hNeg]
    omega

end

/-- `inet_addr` of four decimal numbers, and of nothing else. -/
def inetAddrDotted (text : Bytes) : UInt32 :=
  match StringHelper.tokenize text [46] with
  | [a, b, c, d] =>
    UInt32.ofNat (number a + number b * 2 ^ 8 + number c * 2 ^ 16 + number d * 2 ^ 24)
  | _ => 0xffffffff

theorem inetAddrDotted_parses : ParsesDotted inetAddrDotted := by
  intro a b c d _ _ _ _
  have hDot : ∀ n, (46 : UInt8) ∉ decimal n := fun n h => by cases isDigit_of_mem_decimal h
  have hText : dotted a b c d =
      decimal a ++ 46 :: (decimal b ++ 46 :: (decimal c ++ 46 :: decimal d)) := by
    simp [dotted]
  have hLen : (dotted a b c d).length = (dotted a b c d).length - 3 + 3 := by
    simp only [hText, length_append, length_cons]
    omega
  have hTokens : StringHelper.tokenize (dotted a b c d) [46] =
      [decimal a, decimal b, decimal c, decimal d] := by
    rw [StringHelper.tokenize, hLen, hText]
    rw [StringHelper.tokenizeFrom_append_cons (hDot a),
      StringHelper.tokenizeFrom_append_cons (hDot b),
      StringHelper.tokenizeFrom_append_cons (hDot c),
      StringHelper.tokenizeFrom_last (hDot d) (decimal_ne_nil d)]
  simp only [inetAddrDotted, hTokens, number_decimal]

/-- The id of `127.0.0.1:8090`. -/
theorem str2Addr_addr2String_8090 :
    str2Addr inetAddrDotted (fun _ => none) (addr2String (ipAndPort 0x0100007f 8090)) 0 =
      ipAndPort 0x0100007f 8090 :=
  (str2Addr_addr2String_iff inetAddrDotted_parses (by decide) (by decide)).mpr (by decide)

/-- The id of `127.0.0.1:32768` is parsed with all bits above the port set. -/
theorem str2Addr_of_port_32768 :
    str2Addr inetAddrDotted (fun _ => none) (addr2String (ipAndPort 0x0100007f 32768)) 0 =
        0xffff80000100007f ∧
      str2Addr inetAddrDotted (fun _ => none) (addr2String (ipAndPort 0x0100007f 32768)) 0 ≠
        ipAndPort 0x0100007f 32768 := by
  decide

end NetHelper

end MyBase
