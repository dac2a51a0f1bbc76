import Mathlib.Data.List.Nodup

/-!
# Rows with a unique column

A table is a list of rows, and a unique index on it says that a column determines
the row. That is what turns a scan (`seek`) into a lookup: whether a row is found no
longer depends on where it stands.
-/

namespace Rows

variable {α κ : Type*} {col : α → κ} {l : List α} {x y : α} {k : κ}

/-- No two rows agree on the column. -/
def Unique (col : α → κ) (l : List α) : Prop := (l.map col).Nodup

theorem Unique.nil : Unique col ([] : List α) := List.nodup_nil

theorem Unique.cons (h : Unique col l) (hx : ∀ y ∈ l, col y ≠ col x) : Unique col (x :: l) := by
  refine List.nodup_cons.mpr ⟨?_, h⟩
  intro hmem
  obtain ⟨y, hy, heq⟩ := List.mem_map.mp hmem
  exact hx y hy heq

theorem Unique.eq (h : Unique col l) (hx : x ∈ l) (hy : y ∈ l) (heq : col x = col y) : x = y :=
  List.inj_on_of_nodup_map h hx hy heq

/-- Rewriting the rows keeps the index if no two rows come to agree. -/
theorem Unique.map {f : α → α} (h : Unique col l)
    (hf : ∀ x ∈ l, ∀ y ∈ l, col (f x) = col (f y) → col x = col y) : Unique col (l.map f) := by
  unfold Unique at h ⊢
  rw [List.map_map]
  refine (List.nodup_map_iff_inj_on h.of_map).mpr ?_
  intro x hx y hy heq
  exact Unique.eq h hx hy (hf x hx y hy heq)

variable [DecidableEq κ]

/-- The first row with the given column value. -/
def seek (col : α → κ) (l : List α) (k : κ) : Option α := l.find? fun x => col x = k

theorem seek_eq_none : seek col l k = none ↔ ∀ x ∈ l, col x ≠ k := by
  simp [seek, List.find?_eq_none]

theorem seek_mem (h : seek col l k = some x) : x ∈ l ∧ col x = k :=
  ⟨List.mem_of_find?_eq_some h, by simpa using List.find?_some h⟩

theorem seek_cons_ne (h : col x ≠ k) : seek col (x :: l) k = seek col l k :=
  List.find?_cons_of_neg (by simpa using h)

/-- Under a unique index a row is found exactly if it is there. -/
theorem Unique.seek_eq_some (h : Unique col l) : seek col l k = some x ↔ x ∈ l ∧ col x = k := by
  refine ⟨seek_mem, fun ⟨hx, hk⟩ => ?_⟩
  cases hs : seek col l k with
  | none => exact absurd hk (seek_eq_none.mp hs x hx)
  | some y =>
      obtain ⟨hy, hyk⟩ := seek_mem hs
      rw [h.eq hy hx (hyk.trans hk.symm)]

end Rows
