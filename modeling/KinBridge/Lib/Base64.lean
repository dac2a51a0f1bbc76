import Mathlib.Algebra.Ring.Nat
import Mathlib.Data.List.Basic

/-!
# Base64

The standard alphabet with padding: three bytes make four characters, and a last group of
one or two bytes is filled up with `=`. Decoding takes nothing but what encoding puts out:
the padding has to be there, and the bits that it stands for have to be zero.

`decode_encode` is the round trip, `mem_encode` says which characters occur, and
`utf8ByteSize_encode` how many.
-/

namespace Base64

/-- `n` characters from this one on. -/
def charsFrom (c : Char) (n : Nat) : List Char :=
  (List.range n).map fun i => Char.ofNat (c.toNat + i)

/-- `A` to `Z`, `a` to `z`, `0` to `9`, `+` and `/`. -/
def alphabet : List Char :=
  charsFrom 'A' 26 ++ charsFrom 'a' 26 ++ charsFrom '0' 10 ++ ['+', '/']

/-- The character for six bits. -/
def digit (n : Nat) : Char := alphabet.getD n '='

/-- The six bits of a character. -/
def value (c : Char) : Option Nat :=
  let n := alphabet.idxOf c
  if n < 64 then some n else none

def encodeChars : List UInt8 → List Char
  | [] => []
  | [a] =>
    let n := a.toNat * 16
    [digit (n / 64), digit (n % 64), '=', '=']
  | [a, b] =>
    let n := (a.toNat * 256 + b.toNat) * 4
    [digit (n / 4096), digit (n / 64 % 64), digit (n % 64), '=']
  | a :: b :: c :: rest =>
    let n := (a.toNat * 256 + b.toNat) * 256 + c.toNat
    digit (n / 262144) :: digit (n / 4096 % 64) :: digit (n / 64 % 64) :: digit (n % 64)
      :: encodeChars rest

/-- A group of four without padding. -/
def decodeGroup (w x y z : Char) : Option (List UInt8) := do
  let n := (((← value w) * 64 + (← value x)) * 64 + (← value y)) * 64 + (← value z)
  some [UInt8.ofNat (n / 65536), UInt8.ofNat (n / 256 % 256), UInt8.ofNat (n % 256)]

/-- The last group, whose fourth character is `=`. -/
def decodeLast (w x y : Char) : Option (List UInt8) :=
  if y = '=' then do
    let n := (← value w) * 64 + (← value x)
    if n % 16 = 0 then some [UInt8.ofNat (n / 16)] else none
  else do
    let n := ((← value w) * 64 + (← value x)) * 64 + (← value y)
    if n % 4 = 0 then some [UInt8.ofNat (n / 1024), UInt8.ofNat (n / 4 % 256)] else none

def decodeChars : List Char → Option (List UInt8)
  | [] => some []
  | w :: x :: y :: z :: rest =>
    if z = '=' then if rest = [] then decodeLast w x y else none
    else do
      let head ← decodeGroup w x y z
      let tail ← decodeChars rest
      some (head ++ tail)
  | _ => none

def encode (bytes : List UInt8) : String := String.ofList (encodeChars bytes)

def decode (s : String) : Option (List UInt8) := decodeChars s.toList

/-! ## Digits -/

theorem alphabet_length : alphabet.length = 64 := by decide

theorem alphabet_nodup : alphabet.Nodup := by decide +kernel

theorem pad_notMem : '=' ∉ alphabet := by decide

theorem digit_eq {n : Nat} (h : n < alphabet.length) : digit n = alphabet[n] := by
  rw [digit, List.getD_eq_getElem?_getD, List.getElem?_eq_getElem h, Option.getD_some]

theorem digit_mem {n : Nat} (h : n < 64) : digit n ∈ alphabet := by
  have hlen : n < alphabet.length := alphabet_length ▸ h
  rw [digit_eq hlen]
  exact List.getElem_mem hlen

theorem digit_ne_pad {n : Nat} (h : n < 64) : digit n ≠ '=' := by
  intro heq
  exact pad_notMem (heq ▸ digit_mem h)

theorem value_digit {n : Nat} (h : n < 64) : value (digit n) = some n := by
  have hlen : n < alphabet.length := alphabet_length ▸ h
  unfold value
  rw [digit_eq hlen, alphabet_nodup.idxOf_getElem n hlen]
  exact if_pos h

theorem ofNat_toNat (a : UInt8) {n : Nat} (h : n = a.toNat) : UInt8.ofNat n = a := by
  rw [h, UInt8.ofNat_toNat]

/-! ## Round trip -/

theorem decodeGroup_digits (a b c : UInt8) :
    let n := (a.toNat * 256 + b.toNat) * 256 + c.toNat
    decodeGroup (digit (n / 262144)) (digit (n / 4096 % 64)) (digit (n / 64 % 64))
      (digit (n % 64)) = some [a, b, c] := by
  have ha := a.toNat_lt
  have hb := b.toNat_lt
  have hc := c.toNat_lt
  intro n
  have hn : n = (a.toNat * 256 + b.toNat) * 256 + c.toNat := rfl
  have hjoin : ((n / 262144 * 64 + n / 4096 % 64) * 64 + n / 64 % 64) * 64 + n % 64 = n := by omega
  unfold decodeGroup
  rw [value_digit (by omega), value_digit (by omega), value_digit (by omega),
    value_digit (by omega)]
  show some [UInt8.ofNat (_ / 65536), UInt8.ofNat (_ / 256 % 256), UInt8.ofNat (_ % 256)] = _
  rw [hjoin, ofNat_toNat a (by omega), ofNat_toNat b (by omega), ofNat_toNat c (by omega)]

theorem decodeLast_one (a : UInt8) :
    decodeLast (digit (a.toNat * 16 / 64)) (digit (a.toNat * 16 % 64)) '=' = some [a] := by
  have ha := a.toNat_lt
  have hjoin : a.toNat * 16 / 64 * 64 + a.toNat * 16 % 64 = a.toNat * 16 := by omega
  unfold decodeLast
  rw [if_pos rfl, value_digit (by omega), value_digit (by omega)]
  show (if (_ % 16 = 0) then some [UInt8.ofNat (_ / 16)] else none) = _
  rw [hjoin, if_pos (by omega), ofNat_toNat a (by omega)]

theorem decodeLast_two (a b : UInt8) :
    let n := (a.toNat * 256 + b.toNat) * 4
    decodeLast (digit (n / 4096)) (digit (n / 64 % 64)) (digit (n % 64)) = some [a, b] := by
  have ha := a.toNat_lt
  have hb := b.toNat_lt
  intro n
  have hn : n = (a.toNat * 256 + b.toNat) * 4 := rfl
  have hjoin : (n / 4096 * 64 + n / 64 % 64) * 64 + n % 64 = n := by omega
  unfold decodeLast
  rw [if_neg (digit_ne_pad (by omega)), value_digit (by omega), value_digit (by omega),
    value_digit (by omega)]
  show (if (_ % 4 = 0) then some [UInt8.ofNat (_ / 1024), UInt8.ofNat (_ / 4 % 256)] else none) = _
  rw [hjoin, if_pos (by omega), ofNat_toNat a (by omega), ofNat_toNat b (by omega)]

theorem decodeChars_encodeChars (bytes : List UInt8) :
    decodeChars (encodeChars bytes) = some bytes := by
  induction bytes using encodeChars.induct with
  | case1 => rfl
  | case2 a =>
      unfold encodeChars decodeChars
      rw [if_pos rfl, if_pos rfl]
      exact decodeLast_one a
  | case3 a b =>
      unfold encodeChars decodeChars
      rw [if_pos rfl, if_pos rfl]
      exact decodeLast_two a b
  | case4 a b c rest ih =>
      unfold encodeChars decodeChars
      rw [if_neg (digit_ne_pad (Nat.mod_lt _ (by decide))), decodeGroup_digits a b c, ih]
      rfl

theorem decode_encode (bytes : List UInt8) : decode (encode bytes) = some bytes := by
  unfold decode encode
  rw [String.toList_ofList, decodeChars_encodeChars]

/-! ## The characters -/

/-- Only the alphabet and the padding occur. -/
theorem mem_encode {bytes : List UInt8} {c : Char} (h : c ∈ (encode bytes).toList) :
    c = '=' ∨ c ∈ alphabet := by
  rw [encode, String.toList_ofList] at h
  induction bytes using encodeChars.induct with
  | case1 => cases h
  | case2 a =>
      have ha := a.toNat_lt
      simp only [encodeChars, List.mem_cons, List.not_mem_nil, or_false, or_self] at h
      rcases h with rfl | rfl | rfl
      · exact .inr (digit_mem (by omega))
      · exact .inr (digit_mem (by omega))
      · exact .inl rfl
  | case3 a b =>
      have ha := a.toNat_lt
      have hb := b.toNat_lt
      simp only [encodeChars, List.mem_cons, List.not_mem_nil, or_false] at h
      rcases h with rfl | rfl | rfl | rfl
      · exact .inr (digit_mem (by omega))
      · exact .inr (digit_mem (by omega))
      · exact .inr (digit_mem (by omega))
      · exact .inl rfl
  | case4 a b c' rest ih =>
      have ha := a.toNat_lt
      have hb := b.toNat_lt
      have hc := c'.toNat_lt
      simp only [encodeChars, List.mem_cons] at h
      rcases h with rfl | rfl | rfl | rfl | h
      · exact .inr (digit_mem (by omega))
      · exact .inr (digit_mem (by omega))
      · exact .inr (digit_mem (by omega))
      · exact .inr (digit_mem (by omega))
      · exact ih h

/-! ## The size -/

theorem utf8ByteSize_ofList (l : List Char) :
    (String.ofList l).utf8ByteSize = (l.map Char.utf8Size).sum := by
  induction l with
  | nil => rfl
  | cons c l ih =>
      have hcons : String.ofList (c :: l) = String.singleton c ++ String.ofList l := by
        simp [String.ofList_cons]
      rw [hcons, String.utf8ByteSize_append, ih, String.utf8ByteSize_singleton, List.map_cons,
        List.sum_cons]

theorem length_encodeChars (bytes : List UInt8) :
    (encodeChars bytes).length = (bytes.length + 2) / 3 * 4 := by
  induction bytes using encodeChars.induct with
  | case1 => rfl
  | case2 => simp [encodeChars]
  | case3 => simp [encodeChars]
  | case4 a b c rest ih =>
      simp only [encodeChars, List.length_cons, ih]
      omega

/-- The size depends on the number of bytes alone. -/
theorem utf8ByteSize_encode (bytes : List UInt8) :
    (encode bytes).utf8ByteSize = (bytes.length + 2) / 3 * 4 := by
  have hascii : ∀ c ∈ encodeChars bytes, c.utf8Size = 1 := by
    intro c hc
    have hall : ('=' :: alphabet).all (fun c => c.utf8Size = 1) = true := by decide
    have hmem := @mem_encode bytes c (by rwa [encode, String.toList_ofList])
    exact of_decide_eq_true (List.all_eq_true.mp hall c (List.mem_cons.mpr hmem))
  rw [encode, utf8ByteSize_ofList, ← length_encodeChars, List.map_congr_left hascii]
  simp

example : encode [77, 97] = "TWE=" := by decide

end Base64
