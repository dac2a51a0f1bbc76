import Mathlib.Data.List.AList

/-!
# Maps without the entries that no longer matter

Two copies of a map, one of which has lost some entries. What is lost satisfies `P`, a property
of entries whose loss nobody can tell. A write of one value on both sides makes the copies
agree under its key, and a filter that drops what satisfies `P` leaves the same under every key.

Copies are compared by what they have under a key: in which order a map lists its entries is
its own affair.
-/

namespace Thin

variable {κ ν : Type*} [DecidableEq κ] {a b a' b' : AList fun _ : κ => ν} {P Q : ν → Prop} {k : κ}

/-- `b` has what `a` has, but for entries that satisfy `P`. -/
def Thinned (P : ν → Prop) (a b : AList fun _ : κ => ν) : Prop :=
  ∀ k, b.lookup k = a.lookup k ∨ (b.lookup k = none ∧ ∃ v, a.lookup k = some v ∧ P v)

theorem Thinned.of_eq (h : ∀ k, b.lookup k = a.lookup k) : Thinned P a b := fun k => .inl (h k)

theorem Thinned.refl (P : ν → Prop) (a : AList fun _ : κ => ν) : Thinned P a a :=
  .of_eq fun _ => rfl

theorem Thinned.mono (h : Thinned P a b) (hPQ : ∀ v, P v → Q v) : Thinned Q a b := by
  intro k
  rcases h k with heq | ⟨hnone, v, hv, hp⟩
  · exact .inl heq
  · exact .inr ⟨hnone, v, hv, hPQ v hp⟩

/-- Both sides write under one key, and what they write is the same. -/
theorem Thinned.write (h : Thinned P a b) (ha : ∀ k', k' ≠ k → a'.lookup k' = a.lookup k')
    (hb : ∀ k', k' ≠ k → b'.lookup k' = b.lookup k') (hk : b'.lookup k = a'.lookup k) :
    Thinned P a' b' := by
  intro k'
  by_cases hkk : k' = k
  · subst hkk
    exact .inl hk
  · rw [ha k' hkk, hb k' hkk]
    exact h k'

/-- A filter that drops what does not matter leaves the same under every key. -/
theorem Thinned.filter_eq (h : Thinned P a b) {keep : ν → Bool} (hP : ∀ v, P v → keep v = false)
    (k : κ) : (b.lookup k).filter keep = (a.lookup k).filter keep := by
  rcases h k with heq | ⟨hnone, v, hv, hp⟩
  · rw [heq]
  · rw [hnone, hv, Option.filter_none, Option.filter_some, if_neg (by simp [hP v hp])]

/-- A filter that drops only what satisfies `P`. -/
theorem thinned_filter (keep : ν → Bool) (hb : ∀ k, b.lookup k = (a.lookup k).filter keep)
    (hP : ∀ k v, a.lookup k = some v → keep v = false → P v) : Thinned P a b := by
  intro k
  rw [hb]
  cases ha : a.lookup k with
  | none => exact .inl rfl
  | some v =>
      cases hkeep : keep v with
      | true => exact .inl (by simp [hkeep])
      | false => exact .inr ⟨by simp [hkeep], v, rfl, hP k v ha hkeep⟩

end Thin
