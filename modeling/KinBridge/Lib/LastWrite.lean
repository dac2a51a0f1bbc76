import KinBridge.Lib.Runs

/-!
# The last write wins

A part of the state that every step either writes or leaves alone is, after a run, what was
written last. What a step writes is read off the step: its event, what it put out, and what
it started from.
-/

namespace Runs

variable {σ ε ω α : Type*} {write : Occ σ ε ω → Option α} {h : List (Occ σ ε ω)}
  {o : Occ σ ε ω}

/-- What was written last, if anything was. -/
def lastWrite (write : Occ σ ε ω → Option α) (h : List (Occ σ ε ω)) : Option α :=
  h.reverse.findSome? write

theorem lastWrite_snoc : lastWrite write (h ++ [o]) = (write o).or (lastWrite write h) := by
  rw [lastWrite, List.reverse_append, List.reverse_singleton, List.singleton_append,
    List.findSome?_cons, lastWrite]
  cases write o <;> rfl

/-- The last write wins, for steps from states that a run can reach. -/
theorem Run.lastWrite_of {step : σ → ε → Option (σ × ω)} {s₀ s : σ} {J : σ → Prop} {view : σ → α}
    (hJ : ∀ h s, Run step s₀ h s → J s)
    (hs : ∀ o : Occ σ ε ω, J o.pre → step o.pre o.ev = some (o.post, o.out) →
      view o.post = (write o).getD (view o.pre))
    (hr : Run step s₀ h s) : view s = (Runs.lastWrite write h).getD (view s₀) := by
  induction hr with
  | nil => rfl
  | @snoc h s s' e o hr hst ih =>
      have hpost := hs ⟨s, e, o, s'⟩ (hJ h s hr) hst
      dsimp only at hpost
      rw [hpost, lastWrite_snoc, ih]
      cases write ⟨s, e, o, s'⟩ <;> rfl

/-- **The last write wins.** -/
theorem Run.lastWrite {step : σ → ε → Option (σ × ω)} {s₀ s : σ} {view : σ → α}
    (hs : ∀ o : Occ σ ε ω, step o.pre o.ev = some (o.post, o.out) →
      view o.post = (write o).getD (view o.pre))
    (hr : Run step s₀ h s) : view s = (Runs.lastWrite write h).getD (view s₀) :=
  hr.lastWrite_of (J := fun _ => True) (fun _ _ _ => trivial) fun o _ hst => hs o hst

/-- What was set and not cleared since, for steps from states that a run can reach. -/
theorem Run.since_of {step : σ → ε → Option (σ × ω)} {s₀ s : σ} {J Q : σ → Prop}
    {set clear : Occ σ ε ω → Prop} (hJ : ∀ h s, Run step s₀ h s → J s)
    (hs : ∀ o : Occ σ ε ω, J o.pre → step o.pre o.ev = some (o.post, o.out) →
      (Q o.post ↔ set o ∨ (Q o.pre ∧ ¬ clear o)))
    (hr : Run step s₀ h s) : Q s ↔ Since set clear h ∨ (Q s₀ ∧ ∀ o ∈ h, ¬ clear o) := by
  refine Run.inv (I := fun h s => Run step s₀ h s
    ∧ (Q s ↔ Since set clear h ∨ (Q s₀ ∧ ∀ o ∈ h, ¬ clear o))) ⟨Run.nil, ?_⟩ ?_ hr |>.2
  · constructor
    · exact fun hq => .inr ⟨hq, by simp⟩
    · rintro (⟨h₁, o, h₂, heq, _⟩ | ⟨hq, _⟩)
      · simp at heq
      · exact hq
  · intro h s e s' o hi hst
    obtain ⟨hrun, ih⟩ := hi
    refine ⟨hrun.snoc hst, ?_⟩
    rw [hs ⟨s, e, o, s'⟩ (hJ h s hrun) hst, since_snoc, ih, List.forall_mem_append,
      List.forall_mem_singleton]
    tauto

end Runs
