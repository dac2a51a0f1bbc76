import Mathlib.Data.List.Infix

/-!
# Readers of a text

A reader takes a piece off the front of a text and hands back the rest, or fails. The rest is an
end of the text. A token stops a reader if the reader gets no further than to it, whatever comes
behind: then what is read in front of the token is what would be read if the text ended there.
-/

namespace Readers

variable {τ α β : Type*} {c : τ}

/-- From a text to a piece and the rest. -/
abbrev Reads (τ α : Type*) := List τ → Option (α × List τ)

def Leaves (r : Reads τ α) : Prop := ∀ cs x rest, r cs = some (x, rest) → rest <:+ cs

def Stops (c : τ) (r : Reads τ α) : Prop :=
  ∀ cs rest, r (cs ++ c :: rest) = (r cs).map fun x => (x.1, x.2 ++ c :: rest)

variable {r : Reads τ α} {f : α → Reads τ β} {g : α → β}

theorem Leaves.bind (hr : Leaves r) (hf : ∀ a, Leaves (f a)) :
    Leaves fun cs => (r cs).bind fun x => f x.1 x.2 := by
  intro cs y rest h
  obtain ⟨⟨x, mid⟩, hx, hy⟩ := Option.bind_eq_some_iff.mp h
  exact (hf x mid y rest hy).trans (hr cs x mid hx)

theorem Leaves.map (hr : Leaves r) : Leaves fun cs => (r cs).map fun x => (g x.1, x.2) := by
  intro cs y rest h
  obtain ⟨⟨x, mid⟩, hx, hy⟩ := Option.map_eq_some_iff.mp h
  obtain ⟨_, rfl⟩ := Prod.mk.inj hy
  exact hr cs x mid hx

theorem Stops.bind (hr : Stops c r) (hf : ∀ a, Stops c (f a)) :
    Stops c fun cs => (r cs).bind fun x => f x.1 x.2 := by
  intro cs rest
  dsimp only
  rw [hr]
  cases r cs with
  | none => rfl
  | some x => exact hf x.1 x.2 rest

theorem Stops.map (hr : Stops c r) : Stops c fun cs => (r cs).map fun x => (g x.1, x.2) := by
  intro cs rest
  dsimp only
  rw [hr]
  cases r cs <;> rfl

/-- A reader that ends at such a token has read the text in front of it, whole. -/
theorem Stops.whole_iff (hs : Stops c r) (hl : Leaves r) {cs rest : List τ} {x : α} :
    r cs = some (x, c :: rest) ↔ ∃ front, cs = front ++ c :: rest ∧ r front = some (x, []) := by
  constructor
  · intro h
    obtain ⟨front, rfl⟩ := hl cs x _ h
    rw [hs] at h
    obtain ⟨⟨y, mid⟩, hy, heq⟩ := Option.map_eq_some_iff.mp h
    obtain ⟨rfl, hmid⟩ := Prod.mk.inj heq
    obtain rfl : mid = [] := List.append_left_eq_self.mp hmid
    exact ⟨front, rfl, hy⟩
  · rintro ⟨front, rfl, h⟩
    rw [hs, h]
    rfl

end Readers
