import Mathlib.Algebra.Ring.Nat
import Mathlib.Order.Interval.Finset.Nat
import KinBridge.Lib.Runs

/-!
# A counter that several parties draw from

A party draws the counter's value, the counter goes up by one, and some time later the party
comes back with what it drew. In between others draw, and they come back in any order. What
does not depend on the order is the whole: what came back and what is still out at the end is
what was out at the beginning and a row of consecutive numbers.

In such a row every residue modulo `n` comes up equally often, if the row's length is a multiple
of `n`.
-/

namespace Tickets

open Runs

variable {κ : Type*}

/-! ## Rows of numbers -/

/-- The next `m` values of a counter that starts over at `size`. -/
def row (size c m : ℕ) : List ℕ := (List.range m).map fun j => (c + j) % size

theorem row_succ (size c m : ℕ) : row size c (m + 1) = row size c m ++ [(c + m) % size] := by
  simp [row, List.range_succ]

/-- Before it starts over. -/
theorem row_eq_range' {size c m : ℕ} (h : c + m ≤ size) : row size c m = List.range' c m := by
  rw [row, List.range'_eq_map_range]
  refine List.map_congr_left fun j hj => ?_
  have hlt := List.mem_range.mp hj
  exact Nat.mod_eq_of_lt (by omega)

/-- `n` consecutive numbers have the residues below `n`. -/
theorem range'_mod_perm (c n : ℕ) : ((List.range' c n).map (· % n)).Perm (List.range n) := by
  have h := Nat.multiset_Ico_map_mod c n
  rw [← Multiset.coe_eq_coe, ← Multiset.map_coe]
  have hrow : Multiset.Ico c (c + n) = ↑(List.range' c n) := by
    change (↑(List.range' c (c + n - c)) : Multiset ℕ) = _
    rw [Nat.add_sub_cancel_left]
  rwa [hrow] at h

/-- **Every residue equally often.** -/
theorem count_range'_mod {i n : ℕ} (hi : i < n) (c k : ℕ) :
    ((List.range' c (k * n)).map (· % n)).count i = k := by
  induction k with
  | zero => simp
  | succ k ih =>
      have hcut : List.range' c ((k + 1) * n)
          = List.range' c (k * n) ++ List.range' (c + k * n) n := by
        rw [List.range'_append_1, Nat.succ_mul]
      rw [hcut, List.map_append, List.count_append, ih, (range'_mod_perm _ n).count_eq,
        List.count_range, if_pos hi]

/-! ## Drawing and coming back -/

/-- The counter, and what is out. -/
structure Counter (κ : Type*) where
  next : ℕ
  out : List (κ × ℕ)

inductive Event (κ : Type*) where
  | draw (p : κ)
  | back (p : κ) (t : ℕ)

def Event.isDraw : Event κ → Bool
  | .draw _ => true
  | .back _ _ => false

/-- What comes back. -/
def Event.ticket : Event κ → Option ℕ
  | .draw _ => none
  | .back _ t => some t

/-- How often is drawn. -/
def draws (es : List (Event κ)) : ℕ := es.countP Event.isDraw

/-- Everything that comes back. -/
def backs (es : List (Event κ)) : List ℕ := es.filterMap Event.ticket

variable [DecidableEq κ]

def step (size : ℕ) (s : Counter κ) : Event κ → Option (Counter κ × Unit)
  | .draw p => some (⟨(s.next + 1) % size, s.out ++ [(p, s.next)]⟩, ())
  | .back p t =>
    if (p, t) ∈ s.out then some ({ s with out := s.out.erase (p, t) }, ()) else none

variable {size : ℕ} {s s' : Counter κ} {h : List (Occ (Counter κ) (Event κ) Unit)}

/-- **Nothing is lost and nothing made up**, in whatever order the parties come. -/
theorem run_row (hr : Run (step size) s h s') (hlt : s.next < size) :
    s'.next = (s.next + draws (h.map Occ.ev)) % size
      ∧ (backs (h.map Occ.ev) ++ s'.out.map Prod.snd).Perm
        (s.out.map Prod.snd ++ row size s.next (draws (h.map Occ.ev))) := by
  induction hr with
  | nil => exact ⟨(Nat.mod_eq_of_lt hlt).symm, by simp [backs, draws, row]⟩
  | @snoc h t t' e u _ hst ih =>
      obtain ⟨hnext, hperm⟩ := ih
      rw [List.map_append, List.map_singleton]
      generalize h.map Occ.ev = es at hnext hperm ⊢
      cases e with
      | draw p =>
          cases hst
          -- the next of the row, and it is out from now on
          have hdraws : draws (es ++ [.draw p]) = draws es + 1 := by simp [draws, Event.isDraw]
          have hbacks : backs (es ++ [.draw p]) = backs es := by simp [backs, Event.ticket]
          rw [hdraws, hbacks]
          refine ⟨by rw [hnext, Nat.mod_add_mod, Nat.add_assoc], ?_⟩
          rw [List.map_append, List.map_singleton, row_succ, ← List.append_assoc,
            ← List.append_assoc, hnext]
          exact hperm.append_right _
      | back p b =>
          simp only [step] at hst
          split at hst
          · rename_i hout
            cases hst
            -- it only changes sides
            have hdraws : draws (es ++ [.back p b]) = draws es := by simp [draws, Event.isDraw]
            have hbacks : backs (es ++ [.back p b]) = backs es ++ [b] := by
              simp [backs, Event.ticket]
            have hmoved : (t.out.map Prod.snd).Perm (b :: (t.out.erase (p, b)).map Prod.snd) :=
              (List.perm_cons_erase hout).map Prod.snd
            rw [hdraws, hbacks, List.append_assoc, List.singleton_append]
            exact ⟨hnext, (hmoved.symm.append_left _).trans hperm⟩
          · cases hst

/-- **Every residue equally often**, while the counter does not start over. -/
theorem run_fair (hr : Run (step size) s h s') (hlt : s.next < size) {i n k : ℕ} (hi : i < n)
    (hdraws : draws (h.map Occ.ev) = k * n) (hwrap : s.next + k * n ≤ size) :
    ((backs (h.map Occ.ev)).map (· % n)).count i + ((s'.out.map Prod.snd).map (· % n)).count i
      = ((s.out.map Prod.snd).map (· % n)).count i + k := by
  obtain ⟨_, hperm⟩ := run_row hr hlt
  rw [hdraws, row_eq_range' hwrap] at hperm
  have hcount := (hperm.map (· % n)).count_eq i
  simpa only [List.map_append, List.count_append, count_range'_mod hi] using hcount

end Tickets
