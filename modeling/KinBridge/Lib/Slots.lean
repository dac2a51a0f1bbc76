import Mathlib.Logic.Function.Basic

/-!
# Shared maps with one holder per key

Two parties meet through a map: one leaves something under a key, the other takes
it out. `put` overwrites and `free` clears without looking, exactly as `insert` and
`remove` of a hash map do, so whether anything is lost is a question about runs and
not about the operations.

The one invariant such a map needs is `Keyed`: whatever sits under a key belongs
there. From it a holder sits under at most one key.
-/

namespace Slots

variable {κ ρ : Type*} {m : κ → Option ρ} {k k' : κ} {r r' : ρ} {own own' : κ → ρ → Prop}

/-- Whatever sits under a key belongs under that key. -/
def Keyed (own : κ → ρ → Prop) (m : κ → Option ρ) : Prop := ∀ k r, m k = some r → own k r

theorem keyed_empty : Keyed own fun _ => none := by
  intro k r h; cases h

/-- What belongs somewhere may be judged by a weaker rule. -/
theorem Keyed.mono (h : Keyed own m) (hw : ∀ k r, m k = some r → own k r → own' k r) :
    Keyed own' m :=
  fun k r hk => hw k r hk (h k r hk)

/-- A holder that belongs under one key only sits under at most one. -/
theorem Keyed.unique (h : Keyed own m) (hu : ∀ k k' r, own k r → own k' r → k = k')
    (h1 : m k = some r) (h2 : m k' = some r) : k = k' :=
  hu k k' r (h k r h1) (h k' r h2)

/-! ## Insert and remove -/

variable [DecidableEq κ]

/-- `m.insert(k, r)`. -/
def put (m : κ → Option ρ) (k : κ) (r : ρ) : κ → Option ρ := Function.update m k (some r)

/-- `m.remove(&k)`. -/
def free (m : κ → Option ρ) (k : κ) : κ → Option ρ := Function.update m k none

@[simp] theorem put_self (m : κ → Option ρ) (k : κ) (r : ρ) : put m k r k = some r :=
  Function.update_self ..

@[simp] theorem put_ne (h : k' ≠ k) : put m k r k' = m k' := Function.update_of_ne h ..

@[simp] theorem free_self (m : κ → Option ρ) (k : κ) : free m k k = none :=
  Function.update_self ..

@[simp] theorem free_ne (h : k' ≠ k) : free m k k' = m k' := Function.update_of_ne h ..

theorem put_eq_some :
    put m k r k' = some r' ↔ (k' = k ∧ r = r') ∨ (k' ≠ k ∧ m k' = some r') := by
  by_cases h : k' = k
  · subst h; simp
  · simp [h]

theorem free_eq_some : free m k k' = some r ↔ k' ≠ k ∧ m k' = some r := by
  by_cases h : k' = k
  · subst h; simp
  · simp [h]

/-- With its only slot cleared, a holder sits nowhere. -/
theorem free_ne_some (hu : ∀ x, m x = some r → x = k) : free m k k' ≠ some r := by
  intro hk
  obtain ⟨hne, hk⟩ := free_eq_some.mp hk
  exact hne (hu k' hk)

@[simp] theorem put_put (m : κ → Option ρ) (k : κ) (r r' : ρ) :
    put (put m k r) k r' = put m k r' := Function.update_idem ..

/-- Putting back what is there changes nothing. -/
theorem put_of_some (h : m k = some r) : put m k r = m := by
  funext x
  by_cases hx : x = k
  · subst hx; rw [put_self, h]
  · rw [put_ne hx]

/-- Taking out of an empty slot changes nothing. -/
theorem free_of_none (h : m k = none) : free m k = m := by
  funext x
  by_cases hx : x = k
  · subst hx; rw [free_self, h]
  · rw [free_ne hx]

theorem Keyed.put (h : Keyed own m) (hk : own k r) : Keyed own (put m k r) := by
  intro x y hx
  rcases put_eq_some.mp hx with ⟨rfl, rfl⟩ | ⟨_, hx⟩
  · exact hk
  · exact h x y hx

theorem Keyed.free (h : Keyed own m) (k : κ) : Keyed own (free m k) :=
  fun x y hx => h x y (free_eq_some.mp hx).2

end Slots
