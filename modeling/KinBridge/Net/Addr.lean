/-!
# Addresses

`IpAddr`, `SocketAddr` and their text, as `std::net` has them. Two spellings of one
IPv4 host exist, the plain one and the IPv4-mapped IPv6 one that a dual-stack
listener hands out, and `std` treats them as different addresses with different
texts. `try_into_v4` and `AddrMangle` come from `hbb_common`, which is not part of
this repository, so they are the fields of `AddrOps`.
-/

namespace KinBridge

/-- A byte string: `Bytes`, `Vec<u8>` or `&[u8]`. -/
abbrev Bytes := List UInt8

structure Ipv4Addr where
  a : UInt8
  b : UInt8
  c : UInt8
  d : UInt8
deriving DecidableEq, Repr

/-- The eight 16-bit segments. -/
structure Ipv6Addr where
  s0 : UInt16
  s1 : UInt16
  s2 : UInt16
  s3 : UInt16
  s4 : UInt16
  s5 : UInt16
  s6 : UInt16
  s7 : UInt16
deriving DecidableEq, Repr

inductive IpAddr where
  | v4 (ip : Ipv4Addr)
  | v6 (ip : Ipv6Addr)
deriving DecidableEq, Repr

structure SocketAddr where
  ip : IpAddr
  port : UInt16
deriving DecidableEq, Repr

/-! ## IPv4 -/

def Ipv4Addr.toString (x : Ipv4Addr) : String :=
  Nat.repr x.a.toNat ++ "." ++ Nat.repr x.b.toNat ++ "." ++ Nat.repr x.c.toNat ++ "."
    ++ Nat.repr x.d.toNat

/-- `0.0.0.0`. -/
def Ipv4Addr.unspecified : Ipv4Addr := ⟨0, 0, 0, 0⟩

/-- The whole of `127.0.0.0/8`. -/
def Ipv4Addr.isLoopback (x : Ipv4Addr) : Bool := x.a == 127

/-! ## IPv6 -/

def Ipv6Addr.segments (x : Ipv6Addr) : List UInt16 :=
  [x.s0, x.s1, x.s2, x.s3, x.s4, x.s5, x.s6, x.s7]

/-- `::1` and nothing else, in particular not `::ffff:127.0.0.1`. -/
def Ipv6Addr.isLoopback (x : Ipv6Addr) : Bool := x.segments == [0, 0, 0, 0, 0, 0, 0, 1]

/-- The IPv4 address held in the last two segments. -/
def Ipv6Addr.low4 (x : Ipv6Addr) : Ipv4Addr :=
  ⟨(x.s6 >>> 8).toUInt8, x.s6.toUInt8, (x.s7 >>> 8).toUInt8, x.s7.toUInt8⟩

/-- `to_ipv4_mapped`: `::ffff:a.b.c.d` only. -/
def Ipv6Addr.toIpv4Mapped (x : Ipv6Addr) : Option Ipv4Addr :=
  if [x.s0, x.s1, x.s2, x.s3, x.s4, x.s5] = [0, 0, 0, 0, 0, 0xffff] then some x.low4 else none

/-- `to_ipv4`: `::ffff:a.b.c.d` and also `::a.b.c.d`. -/
def Ipv6Addr.toIpv4 (x : Ipv6Addr) : Option Ipv4Addr :=
  if [x.s0, x.s1, x.s2, x.s3, x.s4] = [0, 0, 0, 0, 0] ∧ (x.s5 = 0 ∨ x.s5 = 0xffff) then
    some x.low4
  else none

/-- A run of zero segments: where it starts and how long it is. -/
structure ZeroSpan where
  start : Nat
  len : Nat

/-- The first longest run of zeros, scanning from segment `i` with the run `cur` open. -/
def longestZeros : List UInt16 → Nat → ZeroSpan → ZeroSpan → ZeroSpan
  | [], _, _, best => best
  | s :: rest, i, cur, best =>
    if s = 0 then
      let cur : ZeroSpan := if cur.len = 0 then ⟨i, 1⟩ else ⟨cur.start, cur.len + 1⟩
      longestZeros rest (i + 1) cur (if best.len < cur.len then cur else best)
    else longestZeros rest (i + 1) ⟨0, 0⟩ best

/-- A segment in lower-case hexadecimal, no leading zeros. -/
def segmentText (s : UInt16) : String := String.ofList (Nat.toDigits 16 s.toNat)

/-- Segments joined by colons. -/
def segmentsText (l : List UInt16) : String := ":".intercalate (l.map segmentText)

/-- An IPv4-mapped address in mixed form, otherwise hexadecimal with the longest run of
two or more zeros written `::`. -/
def Ipv6Addr.toString (x : Ipv6Addr) : String :=
  match x.toIpv4Mapped with
  | some v4 => "::ffff:" ++ v4.toString
  | none =>
    let z := longestZeros x.segments 0 ⟨0, 0⟩ ⟨0, 0⟩
    if 1 < z.len then
      segmentsText (x.segments.take z.start) ++ "::"
        ++ segmentsText (x.segments.drop (z.start + z.len))
    else segmentsText x.segments

/-! ## The two families have different texts -/

theorem colon_notMem_toDigits (n : Nat) : ':' ∉ Nat.toDigits 10 n := by
  intro h
  have hdigit := Nat.isDigit_of_mem_toDigits (by decide) (by decide) h
  exact absurd hdigit (by decide)

theorem Ipv4Addr.colon_notMem (x : Ipv4Addr) : ':' ∉ x.toString.toList := by
  simp [Ipv4Addr.toString, colon_notMem_toDigits]

theorem colon_mem_segmentsText (s t : UInt16) (l : List UInt16) :
    ':' ∈ (segmentsText (s :: t :: l)).toList := by
  simp [segmentsText, String.toList_intercalate]

theorem Ipv6Addr.colon_mem (x : Ipv6Addr) : ':' ∈ x.toString.toList := by
  unfold Ipv6Addr.toString
  split
  · simp
  · dsimp only
    split
    · simp
    · exact colon_mem_segmentsText ..

theorem Ipv4Addr.toString_ne (x : Ipv4Addr) (y : Ipv6Addr) : x.toString ≠ y.toString := by
  intro h
  exact x.colon_notMem (h ▸ y.colon_mem)

/-! ## Either family -/

/-- `ip.to_string()`, the text that `PeerInfo.ip` and the blocker's keys hold. -/
def IpAddr.toString : IpAddr → String
  | .v4 x => x.toString
  | .v6 x => x.toString

def IpAddr.isLoopback : IpAddr → Bool
  | .v4 x => x.isLoopback
  | .v6 x => x.isLoopback

/-- The address of a record that never registered, `0.0.0.0:0`. -/
def SocketAddr.unspecified : SocketAddr := ⟨.v4 .unspecified, 0⟩

example : (IpAddr.v6 ⟨0x2001, 0xdb8, 0, 0, 1, 0, 0, 1⟩).toString = "2001:db8::1:0:0:1" := by decide
example : (IpAddr.v6 ⟨0, 0, 0, 0, 0, 0xffff, 0x102, 0x304⟩).toString = "::ffff:1.2.3.4" := by decide

/--
What the servers use of `hbb_common` about addresses: the plain IPv4 form of an
address, and the encoding of an address that a peer is given and echoes.
-/
structure AddrOps where
  tryIntoV4 : SocketAddr → SocketAddr
  encode : SocketAddr → Bytes
  decode : Bytes → SocketAddr

end KinBridge
