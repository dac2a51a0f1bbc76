import Mathlib.Algebra.Ring.Nat
import Mathlib.Data.List.TakeWhile
import KinBridge.Net.Addr

/-!
# Numbers and addresses read from text

What `str::parse` makes of a number, an `IpAddr` or a `SocketAddr`, as `core` has it. The
address parser reads from the front, and a piece that does not fit leaves the text as it was;
what is left over at the end makes the whole fail.
-/

namespace KinBridge

/-! ## Integers -/

/-- A row of decimal digits, not empty. -/
def parseDigits (cs : List Char) : Option Nat :=
  if cs ≠ [] ∧ cs.all Char.isDigit then some (Nat.ofDigitChars 10 cs 0) else none

/-- `str::parse::<usize>`. -/
def parseUsize (s : String) : Option Nat :=
  let digits :=
    match s.toList with
    | '+' :: cs => cs
    | cs => cs
  (parseDigits digits).filter (· < 2 ^ 64)

/-- `str::parse::<i32>`. -/
def parseI32 (s : String) : Option Int :=
  match s.toList with
  | '-' :: cs => ((parseDigits cs).filter (· ≤ 2 ^ 31)).map fun n => -(n : Int)
  | '+' :: cs => ((parseDigits cs).filter (· < 2 ^ 31)).map Int.ofNat
  | cs => ((parseDigits cs).filter (· < 2 ^ 31)).map Int.ofNat

example : ["42", "+7", "-", "-3", "2147483648", "1x"].map parseI32
    = [some 42, some 7, none, some (-3), none, none] := by decide

/-! ## Addresses -/

/-- A piece read off the front, and the rest. -/
abbrev Reader (α : Type) := List Char → Option (α × List Char)

/-- `char::to_digit`. -/
def toDigit (radix : Nat) (c : Char) : Option Nat :=
  let n :=
    if '0' ≤ c ∧ c ≤ '9' then c.toNat - 48
    else if 'a' ≤ c ∧ c ≤ 'z' then c.toNat - 87
    else if 'A' ≤ c ∧ c ≤ 'Z' then c.toNat - 55
    else radix
  if n < radix then some n else none

/-- `read_number`: all the digits there are; `maxDigits` and `zeros` may rule the number out. -/
def readNumber (radix : Nat) (maxDigits : Option Nat) (zeros : Bool) (bound : Nat) :
    Reader Nat := fun cs =>
  let digits := (cs.takeWhile fun c => (toDigit radix c).isSome).filterMap (toDigit radix)
  let rest := cs.dropWhile fun c => (toDigit radix c).isSome
  if digits = [] then none
  else if maxDigits.any (· < digits.length) then none
  else if !zeros && digits.head? = some 0 && 1 < digits.length then none
  else
    let n := digits.foldl (fun n d => n * radix + d) 0
    if n < bound then some (n, rest) else none

/-- `read_given_char`. -/
def readChar (c : Char) : Reader Unit
  | x :: cs => if x = c then some ((), cs) else none
  | [] => none

def readOctet : Reader UInt8 := fun cs =>
  (readNumber 10 (some 3) false 256 cs).map fun r => (UInt8.ofNat r.1, r.2)

/-- A dot and an octet. -/
def readDotOctet : Reader UInt8 := fun cs => (readChar '.' cs).bind fun r => readOctet r.2

/-- `read_ipv4_addr`. -/
def readIpv4 : Reader Ipv4Addr := fun cs =>
  (readOctet cs).bind fun (a, cs) => (readDotOctet cs).bind fun (b, cs) =>
    (readDotOctet cs).bind fun (c, cs) => (readDotOctet cs).map fun (d, cs) => (⟨a, b, c, d⟩, cs)

def readGroup : Reader UInt16 := fun cs =>
  (readNumber 16 (some 4) true 65536 cs).map fun r => (UInt16.ofNat r.1, r.2)

/-- What comes before a group that is not the first. -/
def readSeparator (first : Bool) (cs : List Char) : Option (List Char) :=
  if first then some cs else (readChar ':' cs).map Prod.snd

/-- The two groups that an IPv4 address fills. -/
def Ipv4Addr.groups (x : Ipv4Addr) : List UInt16 :=
  [x.a.toUInt16 <<< 8 ||| x.b.toUInt16, x.c.toUInt16 <<< 8 ||| x.d.toUInt16]

/-- `read_groups`: as many as there are up to a limit, whether they end with an IPv4 address,
and the rest. -/
def readGroups : Nat → Bool → List Char → List UInt16 × Bool × List Char
  | 0, _, cs => ([], false, cs)
  | n + 1, first, cs =>
    let sep := readSeparator first cs
    -- an IPv4 address needs two groups
    match if 0 < n then sep.bind readIpv4 else none with
    | some (v4, cs) => (v4.groups, true, cs)
    | none =>
      match sep.bind readGroup with
      | some (g, cs) =>
        let (gs, v4, cs) := readGroups n false cs
        (g :: gs, v4, cs)
      | none => ([], false, cs)

def Ipv6Addr.ofSegments : List UInt16 → Ipv6Addr
  | [a, b, c, d, e, f, g, h] => ⟨a, b, c, d, e, f, g, h⟩
  | _ => ⟨0, 0, 0, 0, 0, 0, 0, 0⟩

/-- `read_ipv6_addr`. -/
def readIpv6 : Reader Ipv6Addr := fun cs =>
  let (head, v4, cs) := readGroups 8 true cs
  if head.length = 8 then some (.ofSegments head, cs)
  else if v4 then none
  else
    match cs with
    | ':' :: ':' :: cs =>
      let (tail, _, cs) := readGroups (8 - (head.length + 1)) true cs
      let zeros := List.replicate (8 - (head.length + tail.length)) 0
      some (.ofSegments (head ++ zeros ++ tail), cs)
    | _ => none

/-- `read_ip_addr`. -/
def readIpAddr : Reader IpAddr := fun cs =>
  match readIpv4 cs with
  | some (ip, cs) => some (.v4 ip, cs)
  | none => (readIpv6 cs).map fun r => (.v6 r.1, r.2)

/-- A colon and a port. -/
def readPort : Reader UInt16 := fun cs =>
  (readChar ':' cs).bind fun r =>
    (readNumber 10 none true 65536 r.2).map fun r => (UInt16.ofNat r.1, r.2)

/-- The text behind a scope id, which is `%` and a number, if there is one. -/
def skipScopeId (cs : List Char) : List Char :=
  match readChar '%' cs with
  | some (_, rest) =>
    match readNumber 10 none true (2 ^ 32) rest with
    | some (_, rest) => rest
    | none => cs
  | none => cs

/-- `read_socket_addr`. -/
def readSocketAddr : Reader SocketAddr := fun cs =>
  match (readIpv4 cs).bind fun (ip, cs) => (readPort cs).map fun (port, cs) => (ip, port, cs) with
  | some (ip, port, cs) => some (⟨.v4 ip, port⟩, cs)
  | none =>
    (readChar '[' cs).bind fun (_, cs) => (readIpv6 cs).bind fun (ip, cs) =>
      (readChar ']' (skipScopeId cs)).bind fun (_, cs) =>
        (readPort cs).map fun (port, cs) => (⟨.v6 ip, port⟩, cs)

/-- Nothing may be left over. -/
def readAll {α : Type} (r : Reader α) (s : String) : Option α :=
  match r s.toList with
  | some (x, []) => some x
  | _ => none

/-- `str::parse::<IpAddr>`. -/
def parseIpAddr (s : String) : Option IpAddr := readAll readIpAddr s

/-- `str::parse::<SocketAddr>`. -/
def parseSocketAddr (s : String) : Option SocketAddr := readAll readSocketAddr s

example : ["10.0.0.1", "010.0.0.1", "10.0.0", "1::2:0", "::ffff:1.2.3.4", "1:2"].map parseIpAddr
    = [some (.v4 ⟨10, 0, 0, 1⟩), none, none, some (.v6 ⟨1, 0, 0, 0, 0, 0, 2, 0⟩),
      some (.v6 ⟨0, 0, 0, 0, 0, 0xffff, 0x102, 0x304⟩), none] := by decide
example : ["10.0.0.1:80", "[::1%3]:80", "::1:80", "10.0.0.1:65536"].map parseSocketAddr
    = [some ⟨.v4 ⟨10, 0, 0, 1⟩, 80⟩, some ⟨.v6 ⟨0, 0, 0, 0, 0, 0, 0, 1⟩, 80⟩, none, none] := by
  decide

/-! ## The text of an IPv4 address is read back -/

/-- A digit starts nothing here. -/
def NoDigit (cs : List Char) : Prop := ∀ c, cs.head? = some c → toDigit 10 c = none

theorem noDigit_cons {c : Char} {cs : List Char} (h : toDigit 10 c = none) : NoDigit (c :: cs) := by
  rintro _ ⟨⟩
  exact h

/-- The digits of an octet: all of them are digits, three at most, and no zero in front. -/
theorem octet_digits : ∀ x : Fin 256, (Nat.toDigits 10 x).all (fun c => (toDigit 10 c).isSome)
    ∧ (let ds := (Nat.toDigits 10 x).filterMap (toDigit 10)
      ds ≠ [] ∧ ds.length ≤ 3 ∧ (ds.head? = some 0 → ds.length ≤ 1)
        ∧ ds.foldl (fun n d => n * 10 + d) 0 = x.val) := by
  decide +kernel

theorem readOctet_digits (x : UInt8) {rest : List Char} (hrest : NoDigit rest) :
    readOctet (Nat.toDigits 10 x.toNat ++ rest) = some (x, rest) := by
  obtain ⟨hall, hne, hlen, hzero, hval⟩ := octet_digits ⟨x.toNat, x.toNat_lt⟩
  dsimp only at hall hne hlen hzero hval
  have hdigits : ∀ c ∈ Nat.toDigits 10 x.toNat, (toDigit 10 c).isSome = true :=
    List.all_eq_true.mp hall
  have hstop : rest.takeWhile (fun c => (toDigit 10 c).isSome) = []
      ∧ rest.dropWhile (fun c => (toDigit 10 c).isSome) = rest := by
    cases rest with
    | nil => exact ⟨rfl, rfl⟩
    | cons c cs => simp [hrest c rfl]
  unfold readOctet readNumber
  rw [List.takeWhile_append_of_pos hdigits, List.dropWhile_append_of_pos hdigits, hstop.1,
    hstop.2, List.append_nil]
  dsimp only
  rw [if_neg hne, if_neg (by simpa using hlen), if_neg (by simpa using hzero), hval,
    if_pos x.toNat_lt]
  simp

theorem readDotOctet_digits (x : UInt8) {rest : List Char} (hrest : NoDigit rest) :
    readDotOctet ('.' :: (Nat.toDigits 10 x.toNat ++ rest)) = some (x, rest) :=
  readOctet_digits x hrest

theorem readIpv4_toString (x : Ipv4Addr) {rest : List Char} (hrest : NoDigit rest) :
    readIpv4 (x.toString.toList ++ rest) = some (x, rest) := by
  have hdot : ∀ cs, NoDigit ('.' :: cs) := fun cs => noDigit_cons (by decide)
  have htext : x.toString.toList ++ rest = Nat.toDigits 10 x.a.toNat ++
      '.' :: (Nat.toDigits 10 x.b.toNat ++ '.' :: (Nat.toDigits 10 x.c.toNat ++
        '.' :: (Nat.toDigits 10 x.d.toNat ++ rest))) := by
    simp [Ipv4Addr.toString]
  unfold readIpv4
  rw [htext, readOctet_digits _ (hdot _)]
  dsimp only [Option.bind_some]
  rw [readDotOctet_digits _ (hdot _)]
  dsimp only [Option.bind_some]
  rw [readDotOctet_digits _ (hdot _)]
  dsimp only [Option.bind_some]
  rw [readDotOctet_digits _ hrest]
  rfl

/-- The text of an IPv4 address, with a port behind it. -/
theorem parseSocketAddr_toString (x : Ipv4Addr) {port : String} {n : UInt16}
    (hport : readPort port.toList = some (n, [])) (hcolon : NoDigit port.toList) :
    parseSocketAddr (x.toString ++ port) = some ⟨.v4 x, n⟩ := by
  unfold parseSocketAddr readAll readSocketAddr
  rw [String.toList_append, readIpv4_toString x hcolon]
  dsimp only [Option.bind_some]
  rw [hport]
  rfl

end KinBridge
