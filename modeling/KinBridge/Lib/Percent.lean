import Mathlib.Data.List.Basic

/-!
# Percent encoding

Bytes as text: those that `keep` lets stand are written as the character they are, every
other as `%` and two hexadecimal digits. Reading takes the digits in either case, and a
character that is not `%` for its bytes in UTF-8.

`unescape_escape` is the round trip, for every `keep` that leaves `%` and what is not ASCII to
the digits, and `mem_escape` says which characters occur.
-/

namespace Percent

def hexDigits : List Char := "0123456789ABCDEF".toList

def hexDigit (n : Nat) : Char := hexDigits.getD n '0'

def hexValue (c : Char) : Option Nat :=
  if '0' ≤ c ∧ c ≤ '9' then some (c.toNat - '0'.toNat)
  else if 'A' ≤ c ∧ c ≤ 'F' then some (c.toNat - 'A'.toNat + 10)
  else if 'a' ≤ c ∧ c ≤ 'f' then some (c.toNat - 'a'.toNat + 10)
  else none

def escapeByte (keep : UInt8 → Bool) (b : UInt8) : List Char :=
  if keep b then [Char.ofNat b.toNat] else ['%', hexDigit (b.toNat / 16), hexDigit (b.toNat % 16)]

def escape (keep : UInt8 → Bool) (bytes : List UInt8) : List Char :=
  bytes.flatMap (escapeByte keep)

def unescape : List Char → Option (List UInt8)
  | [] => some []
  | '%' :: x :: y :: rest => do
    let hi ← hexValue x
    let lo ← hexValue y
    let tail ← unescape rest
    some (UInt8.ofNat (hi * 16 + lo) :: tail)
  | c :: rest =>
    if c = '%' then none else (unescape rest).map fun tail => String.utf8EncodeChar c ++ tail

/-- Bytes that may stand for themselves. -/
def Plain (keep : UInt8 → Bool) : Prop := ∀ b, keep b = true → b.toNat < 128 ∧ b.toNat ≠ '%'.toNat

variable {keep : UInt8 → Bool}

theorem hexValue_hexDigit : ∀ {n : Nat}, n < 16 → hexValue (hexDigit n) = some n := by
  decide

theorem hexDigit_mem : ∀ {n : Nat}, n < 16 → hexDigit n ∈ hexDigits := by
  decide

theorem toNat_ofNat {n : Nat} (h : n < 128) : (Char.ofNat n).toNat = n := by
  have hvalid : n.isValidChar := .inl (by omega)
  unfold Char.ofNat
  rw [dif_pos hvalid]
  rfl

/-- In UTF-8 an ASCII character is one byte. -/
theorem utf8EncodeChar_ascii {n : Nat} (h : n < 128) :
    String.utf8EncodeChar (Char.ofNat n) = [UInt8.ofNat n] := by
  have hval : (Char.ofNat n).val.toNat = n := toNat_ofNat h
  unfold String.utf8EncodeChar
  rw [hval]
  exact if_pos (by omega)

theorem unescape_escapeByte (hk : Plain keep) (b : UInt8) (rest : List Char) :
    unescape (escapeByte keep b ++ rest) = (unescape rest).map fun tail => b :: tail := by
  unfold escapeByte
  split
  · rename_i hkeep
    obtain ⟨hascii, hpercent⟩ := hk b hkeep
    have hne : Char.ofNat b.toNat ≠ '%' := by
      intro heq
      rw [← toNat_ofNat hascii, heq] at hpercent
      exact hpercent rfl
    rw [List.singleton_append, unescape, if_neg hne, utf8EncodeChar_ascii hascii,
      UInt8.ofNat_toNat]
    · rfl
    · exact fun _ _ _ heq => absurd heq hne
  · have hb := b.toNat_lt
    have hjoin : b.toNat / 16 * 16 + b.toNat % 16 = b.toNat := by omega
    rw [List.cons_append, List.cons_append, List.singleton_append, unescape,
      hexValue_hexDigit (by omega), hexValue_hexDigit (by omega)]
    cases unescape rest with
    | none => rfl
    | some tail =>
        show some (UInt8.ofNat _ :: tail) = some (b :: tail)
        rw [hjoin, UInt8.ofNat_toNat]

theorem unescape_escape (hk : Plain keep) (bytes : List UInt8) :
    unescape (escape keep bytes) = some bytes := by
  induction bytes with
  | nil => rw [escape, List.flatMap_nil, unescape]
  | cons b bytes ih =>
      rw [escape, List.flatMap_cons, unescape_escapeByte hk, ← escape, ih, Option.map_some]

/-- What occurs in the text: `%`, digits, and what was kept. -/
theorem mem_escape {bytes : List UInt8} {c : Char} (hc : c ∈ escape keep bytes) :
    c = '%' ∨ c ∈ hexDigits ∨ ∃ b, keep b = true ∧ c = Char.ofNat b.toNat := by
  obtain ⟨b, _, hb⟩ := List.mem_flatMap.mp hc
  have hlt := b.toNat_lt
  unfold escapeByte at hb
  split at hb
  · exact .inr (.inr ⟨b, ‹_›, List.mem_singleton.mp hb⟩)
  · rcases List.mem_cons.mp hb with rfl | hb
    · exact .inl rfl
    · rcases List.mem_pair.mp hb with rfl | rfl
      · exact .inr (.inl (hexDigit_mem (by omega)))
      · exact .inr (.inl (hexDigit_mem (by omega)))

end Percent
