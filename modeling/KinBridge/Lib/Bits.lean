import Mathlib.Algebra.Order.Floor.Div
import Mathlib.Data.Nat.Bitwise
import Mathlib.Data.UInt

/-!
# Bits of a byte string

A byte string read as a row of bits, the leftmost bit of each byte first. Setting a bit is
an `or` into the byte that holds it. `bitAt_marks` says what a whole pass over a list sets:
bit `i` exactly if item `i` passes the test.
-/

namespace Bits

variable {α : Type*}

/-- Bit `i` of the row. -/
def bitAt (b : List UInt8) (i : Nat) : Bool := (b.getD (i / 8) 0).toNat.testBit (7 - i % 8)

/-- `b[i / 8] |= 0x01 << (7 - i % 8)`. -/
def setBit (b : List UInt8) (i : Nat) : List UInt8 :=
  b.modify (i / 8) (· ||| 1 <<< UInt8.ofNat (7 - i % 8))

@[simp] theorem length_setBit (b : List UInt8) (i : Nat) : (setBit b i).length = b.length := by
  simp [setBit]

@[simp] theorem bitAt_zeros (n i : Nat) : bitAt (List.replicate n 0) i = false := by
  have hzero : (List.replicate n (0 : UInt8)).getD (i / 8) 0 = 0 := by
    rw [List.getD_eq_getElem?_getD, List.getElem?_replicate]
    split <;> rfl
  rw [bitAt, hzero]
  exact Nat.zero_testBit _

/-- The mask of bit `k` of a byte has that bit and no other. -/
theorem testBit_mask {k m : Nat} (hk : k < 8) :
    (1 <<< UInt8.ofNat k : UInt8).toNat.testBit m = decide (m = k) := by
  have hval : (1 <<< UInt8.ofNat k : UInt8).toNat = 2 ^ k := by
    have hall : ∀ k : Fin 8, (1 <<< UInt8.ofNat k.val : UInt8).toNat = 2 ^ k.val := by decide
    exact hall ⟨k, hk⟩
  rw [hval, Nat.testBit_two_pow]
  simp only [eq_comm]

/-- Setting a bit sets that bit and no other. -/
theorem bitAt_setBit {b : List UInt8} {i : Nat} (hi : i / 8 < b.length) (j : Nat) :
    bitAt (setBit b i) j = (decide (j = i) || bitAt b j) := by
  unfold bitAt setBit
  by_cases hbyte : i / 8 = j / 8
  · have hj : j / 8 < b.length := hbyte ▸ hi
    have hget : (b.modify (j / 8) (· ||| 1 <<< UInt8.ofNat (7 - i % 8))).getD (j / 8) 0
        = b.getD (j / 8) 0 ||| 1 <<< UInt8.ofNat (7 - i % 8) := by
      simp [List.getD_eq_getElem?_getD, hj]
    have hsame : 7 - j % 8 = 7 - i % 8 ↔ j = i := by omega
    rw [hbyte, hget, UInt8.toNat_or, Nat.testBit_or, testBit_mask (by omega), Bool.or_comm]
    simp only [hsame]
  · have hne : j ≠ i := by intro heq; subst heq; exact hbyte rfl
    simp [List.getD_eq_getElem?_getD, hbyte, hne]

/-! ## A pass over a list -/

/-- One bit for each item that passes, at the item's index. -/
def marks (p : α → Bool) (xs : List (α × Nat)) (b : List UInt8) : List UInt8 :=
  xs.foldl (fun b x => if p x.1 then setBit b x.2 else b) b

theorem bitAt_marks {p : α → Bool} {xs : List (α × Nat)} {b : List UInt8}
    (hb : ∀ x ∈ xs, x.2 / 8 < b.length) (j : Nat) :
    bitAt (marks p xs b) j = (xs.any (fun x => x.2 = j && p x.1) || bitAt b j) := by
  induction xs generalizing b with
  | nil => simp [marks]
  | cons x xs ih =>
      have hx := hb x List.mem_cons_self
      have hrest : ∀ y ∈ xs, y.2 / 8 < (if p x.1 then setBit b x.2 else b).length := by
        intro y hy
        have hy := hb y (List.mem_cons_of_mem x hy)
        split
        · rwa [length_setBit]
        · exact hy
      have hstep := ih hrest
      unfold marks at hstep ⊢
      rw [List.foldl_cons, hstep]
      cases hp : p x.1 with
      | false => simp [hp]
      | true =>
          rw [if_pos rfl, bitAt_setBit hx, List.any_cons, hp, Bool.and_true, Bool.or_left_comm,
            Bool.or_assoc]
          simp only [eq_comm]

/-- Over a list with its own indices, bit `i` says whether item `i` passes. -/
theorem bitAt_marks_zipIdx {p : α → Bool} {xs : List α} {n i : Nat} {x : α}
    (hn : xs.length ≤ 8 * n) (hx : xs[i]? = some x) :
    bitAt (marks p xs.zipIdx (List.replicate n 0)) i = p x := by
  rw [bitAt_marks]
  · rw [bitAt_zeros, Bool.or_false]
    cases hp : p x with
    | true =>
        refine List.any_eq_true.mpr ⟨(x, i), List.mk_mem_zipIdx_iff_getElem?.mpr hx, ?_⟩
        simp [hp]
    | false =>
        refine List.any_eq_false.mpr ?_
        intro y hy
        obtain ⟨y, k⟩ := y
        have hk := List.mk_mem_zipIdx_iff_getElem?.mp hy
        by_cases hki : k = i
        · subst hki
          rw [hx] at hk
          simp [← Option.some.inj hk, hp]
        · simp [hki]
  · intro y hy
    obtain ⟨y, k⟩ := y
    have hk := List.mk_mem_zipIdx_iff_getElem?.mp hy
    have hlt := (List.getElem?_eq_some_iff.mp hk).1
    simp only [List.length_replicate]
    omega

@[simp] theorem length_marks (p : α → Bool) (xs : List (α × Nat)) (b : List UInt8) :
    (marks p xs b).length = b.length := by
  induction xs generalizing b with
  | nil => rfl
  | cons x xs ih =>
      unfold marks at ih ⊢
      rw [List.foldl_cons, ih]
      split
      · rw [length_setBit]
      · rfl

/-! ## Indexing that can fail -/

/-- `setBit`, where an index out of bounds is an error. -/
def setBit? (b : List UInt8) (i : Nat) : Option (List UInt8) :=
  if i / 8 < b.length then some (setBit b i) else none

def marks? (p : α → Bool) (xs : List (α × Nat)) (b : List UInt8) : Option (List UInt8) :=
  xs.foldlM (fun b x => if p x.1 then setBit? b x.2 else some b) b

/-- With every index in bounds at the start, every index stays in bounds. -/
theorem marks?_eq {p : α → Bool} {xs : List (α × Nat)} {b : List UInt8}
    (hb : ∀ x ∈ xs, x.2 / 8 < b.length) : marks? p xs b = some (marks p xs b) := by
  induction xs generalizing b with
  | nil => rfl
  | cons x xs ih =>
      have hx := hb x List.mem_cons_self
      have hrest := fun y hy => hb y (List.mem_cons_of_mem x hy)
      unfold marks? marks at ih ⊢
      rw [List.foldlM_cons, List.foldl_cons]
      cases hp : p x.1 with
      | false => exact ih hrest
      | true =>
          rw [if_pos rfl, if_pos rfl, setBit?, if_pos hx]
          exact ih fun y hy => by
            rw [length_setBit]
            exact hrest y hy

/-! ## What a byte string holds -/

/-- The first `n` bits of the row. -/
def readBits (b : List UInt8) (n : Nat) : List Bool := (List.range n).map (bitAt b)

/-- These bits and no more: as many bytes as they need, and zeros behind them. -/
structure Encodes (b : List UInt8) (bits : List Bool) : Prop where
  length : b.length = bits.length ⌈/⌉ 8
  read : readBits b bits.length = bits
  padding : ∀ i, bits.length ≤ i → bitAt b i = false

/-- A pass over a list with its own indices writes the list of results. -/
theorem encodes_marks (p : α → Bool) (xs : List α) :
    Encodes (marks p xs.zipIdx (List.replicate ((xs.length + 7) / 8) 0)) (xs.map p) := by
  have hroom : xs.length ≤ 8 * ((xs.length + 7) / 8) := by omega
  constructor
  case length =>
    rw [length_marks, List.length_replicate, List.length_map]
    rfl
  case read =>
    refine List.ext_getElem? fun i => ?_
    rw [readBits, List.length_map, List.getElem?_map, List.getElem?_map]
    cases hx : xs[i]? with
    | none =>
        have hlen := List.getElem?_eq_none_iff.mp hx
        rw [List.getElem?_eq_none (by rwa [List.length_range])]
        rfl
    | some x =>
        have hlt := (List.getElem?_eq_some_iff.mp hx).1
        rw [List.getElem?_range hlt, Option.map_some, Option.map_some,
          bitAt_marks_zipIdx hroom hx]
  case padding =>
    intro i hi
    rw [List.length_map] at hi
    rw [bitAt_marks, bitAt_zeros, Bool.or_false]
    · refine List.any_eq_false.mpr ?_
      rintro ⟨x, k⟩ hx
      have hlt := (List.getElem?_eq_some_iff.mp (List.mk_mem_zipIdx_iff_getElem?.mp hx)).1
      have hne : k ≠ i := by omega
      simp [hne]
    · rintro ⟨x, k⟩ hx
      have hlt := (List.getElem?_eq_some_iff.mp (List.mk_mem_zipIdx_iff_getElem?.mp hx)).1
      rw [List.length_replicate]
      show k / 8 < (xs.length + 7) / 8
      omega

end Bits
