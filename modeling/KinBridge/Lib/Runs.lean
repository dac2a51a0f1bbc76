import Mathlib.Data.List.Basic
import Mathlib.Data.List.Flatten

/-!
# Runs of a step function

A system is a partial step function `σ → ε → Option (σ × ω)`: from a state and an
event to the state after and what the step put out, `none` when the event is not
enabled. An interleaving of several parties is then nothing but a list of events,
and a property of every interleaving is a property of every `Run`.

`Run` carries its whole history, so a claim about the past ("was answered", "was
submitted") is a claim about a list, and an invariant may relate the state to that
list. `Run.inv` packages the induction once.
-/

namespace Runs

variable {σ ε ω : Type*}

/-- One step that happened: the state before, the event, what came out, the state after. -/
structure Occ (σ ε ω : Type*) where
  pre : σ
  ev : ε
  out : ω
  post : σ

/-- `Run step s₀ h s`: the steps `h`, in order, lead from `s₀` to `s`. -/
inductive Run (step : σ → ε → Option (σ × ω)) (s₀ : σ) : List (Occ σ ε ω) → σ → Prop where
  | nil : Run step s₀ [] s₀
  | snoc {h : List (Occ σ ε ω)} {s s' : σ} {e : ε} {o : ω} :
      Run step s₀ h s → step s e = some (s', o) → Run step s₀ (h ++ [⟨s, e, o, s'⟩]) s'

variable {step : σ → ε → Option (σ × ω)} {s₀ s s' : σ} {h h₁ h₂ : List (Occ σ ε ω)}

/-- An invariant of history and state that every step keeps holds after every run. -/
theorem Run.inv {I : List (Occ σ ε ω) → σ → Prop} (h0 : I [] s₀)
    (hs : ∀ h s e s' o, I h s → step s e = some (s', o) → I (h ++ [⟨s, e, o, s'⟩]) s')
    (hr : Run step s₀ h s) : I h s := by
  induction hr with
  | nil => exact h0
  | snoc _ hst ih => exact hs _ _ _ _ _ ih hst

/-- The same for runs whose steps all meet a condition on what they start from. -/
theorem Run.inv_of {C : σ → ε → Prop} {I : List (Occ σ ε ω) → σ → Prop} (h0 : I [] s₀)
    (hs : ∀ h s e s' o, I h s → C s e → step s e = some (s', o) → I (h ++ [⟨s, e, o, s'⟩]) s')
    (hr : Run step s₀ h s) (hc : ∀ o ∈ h, C o.pre o.ev) : I h s := by
  induction hr with
  | nil => exact h0
  | @snoc h s s' e o _ hst ih =>
      refine hs _ _ _ _ _ (ih fun x hx => hc x (List.mem_append_left _ hx)) ?_ hst
      exact hc ⟨s, e, o, s'⟩ (List.mem_append_right _ (List.mem_singleton_self _))

theorem Run.trans {s₁ : σ} (hr₁ : Run step s₀ h₁ s₁) (hr₂ : Run step s₁ h₂ s) :
    Run step s₀ (h₁ ++ h₂) s := by
  induction hr₂ with
  | nil => rw [List.append_nil]; exact hr₁
  | snoc _ hst ih => rw [← List.append_assoc]; exact Run.snoc ih hst

/-- A run cut in two is two runs. -/
theorem Run.split (hr : Run step s₀ (h₁ ++ h₂) s) :
    ∃ s₁, Run step s₀ h₁ s₁ ∧ Run step s₁ h₂ s := by
  generalize hh : h₁ ++ h₂ = h at hr
  induction hr generalizing h₂ with
  | nil =>
      obtain ⟨rfl, rfl⟩ := List.append_eq_nil_iff.mp hh
      exact ⟨s₀, Run.nil, Run.nil⟩
  | @snoc g t t' e o hg hst ih =>
      rcases List.eq_nil_or_concat h₂ with rfl | ⟨l, x, rfl⟩
      · rw [List.append_nil] at hh
        subst hh
        exact ⟨t', Run.snoc hg hst, Run.nil⟩
      · rw [List.concat_eq_append, ← List.append_assoc] at hh
        obtain ⟨hl, hx⟩ := List.append_inj' hh rfl
        obtain ⟨s₁, hr₁, hr₂⟩ := ih hl
        obtain rfl : x = ⟨t, e, o, t'⟩ := by simpa using hx
        exact ⟨s₁, hr₁, by rw [List.concat_eq_append]; exact Run.snoc hr₂ hst⟩

/-- The run up to one of its steps, that step, and the run from there. -/
theorem Run.at {x : Occ σ ε ω} (hr : Run step s₀ (h₁ ++ x :: h₂) s) :
    Run step s₀ h₁ x.pre ∧ step x.pre x.ev = some (x.post, x.out) ∧ Run step x.post h₂ s := by
  rw [List.append_cons] at hr
  obtain ⟨s₁, hr₁, hr₂⟩ := hr.split
  generalize hg : h₁ ++ [x] = g at hr₁
  cases hr₁ with
  | nil => simp at hg
  | snoc hpre hst =>
      obtain ⟨rfl, hx⟩ := List.append_inj' hg rfl
      obtain rfl := List.singleton_inj.mp hx
      exact ⟨hpre, hst, hr₂⟩

/-- Every step of a run happened in a state some prefix of the run reached. -/
theorem Run.mem {x : Occ σ ε ω} (hr : Run step s₀ h s) (hx : x ∈ h) :
    ∃ h₁ h₂, h = h₁ ++ x :: h₂ ∧ Run step s₀ h₁ x.pre
      ∧ step x.pre x.ev = some (x.post, x.out) ∧ Run step x.post h₂ s := by
  obtain ⟨h₁, h₂, rfl⟩ := List.append_of_mem hx
  exact ⟨h₁, h₂, rfl, hr.at⟩

/-- Two steps of a run are the same, or one leads to the other. -/
theorem Run.order {x y : Occ σ ε ω} (hr : Run step s₀ h s) (hx : x ∈ h) (hy : y ∈ h) :
    x = y ∨ (∃ g, Run step x.post g y.pre) ∨ ∃ g, Run step y.post g x.pre := by
  obtain ⟨h₁, h₂, rfl, hr₁, _, hr₂⟩ := hr.mem hx
  rcases List.mem_append.mp hy with hy | hy
  · obtain ⟨_, g, _, _, _, hg⟩ := hr₁.mem hy
    exact .inr (.inr ⟨g, hg⟩)
  · rcases List.mem_cons.mp hy with rfl | hy
    · exact .inl rfl
    · obtain ⟨g, _, _, hg, _⟩ := hr₂.mem hy
      exact .inr (.inl ⟨g, hg⟩)

/-- A state predicate that every step keeps holds from any point of a run on. -/
theorem Run.keeps {Q : σ → Prop} (hs : ∀ s e s' o, Q s → step s e = some (s', o) → Q s')
    (hr : Run step s₀ h s) (h0 : Q s₀) : Q s :=
  Run.inv (I := fun _ s => Q s) h0 (fun _ _ _ _ _ hq hst => hs _ _ _ _ hq hst) hr

/-! ## What was set and not cleared since -/

/-- Some step of `h` set it, and no later one cleared it. -/
def Since (set clear : Occ σ ε ω → Prop) (h : List (Occ σ ε ω)) : Prop :=
  ∃ h₁ o h₂, h = h₁ ++ o :: h₂ ∧ set o ∧ ∀ x ∈ h₂, ¬ clear x

theorem since_snoc {set clear : Occ σ ε ω → Prop} {o : Occ σ ε ω} :
    Since set clear (h ++ [o]) ↔ set o ∨ (Since set clear h ∧ ¬ clear o) := by
  constructor
  · rintro ⟨h₁, x, h₂, heq, hset, hkept⟩
    rcases List.eq_nil_or_concat h₂ with rfl | ⟨g, y, rfl⟩
    · obtain ⟨_, hx⟩ := List.append_inj' heq rfl
      obtain rfl := List.singleton_inj.mp hx
      exact .inl hset
    · rw [List.concat_eq_append, ← List.cons_append, ← List.append_assoc] at heq
      obtain ⟨rfl, hx⟩ := List.append_inj' heq rfl
      obtain rfl := List.singleton_inj.mp hx
      exact .inr ⟨⟨h₁, x, g, rfl, hset, fun z hz => hkept z (by simp [hz])⟩,
        hkept _ (by simp)⟩
  · rintro (hset | ⟨⟨h₁, x, h₂, rfl, hset, hkept⟩, hlast⟩)
    · exact ⟨h, o, [], rfl, hset, by simp⟩
    · refine ⟨h₁, x, h₂ ++ [o], by simp, hset, ?_⟩
      intro z hz
      rcases List.mem_append.mp hz with hz | hz
      · exact hkept z hz
      · rwa [List.mem_singleton.mp hz]

/-- A state predicate that a step can only set or clear: it holds after a run if the run set it
and has not cleared it since, or if it held before and was never cleared. -/
theorem Run.since {set clear : Occ σ ε ω → Prop} {Q : σ → Prop}
    (hs : ∀ o : Occ σ ε ω, step o.pre o.ev = some (o.post, o.out) →
      (Q o.post ↔ set o ∨ (Q o.pre ∧ ¬ clear o)))
    (hr : Run step s₀ h s) : Q s ↔ Since set clear h ∨ (Q s₀ ∧ ∀ o ∈ h, ¬ clear o) := by
  induction hr with
  | nil =>
      constructor
      · exact fun hq => .inr ⟨hq, nofun⟩
      · rintro (⟨h₁, o, h₂, heq, _⟩ | ⟨hq, _⟩)
        · simp at heq
        · exact hq
  | @snoc h s s' e o _ hst ih =>
      rw [hs ⟨s, e, o, s'⟩ hst, since_snoc, ih, List.forall_mem_append, List.forall_mem_singleton]
      tauto

/-! ## Executing a list of events -/

/-- The run that a list of events produces, if all of them are enabled in turn. -/
def exec (step : σ → ε → Option (σ × ω)) : σ → List ε → Option (List (Occ σ ε ω) × σ)
  | s, [] => some ([], s)
  | s, e :: es =>
    match step s e with
    | none => none
    | some (s', o) => (exec step s' es).map fun r => (⟨s, e, o, s'⟩ :: r.1, r.2)

theorem exec_run : ∀ {es : List ε} {s t : σ} {h : List (Occ σ ε ω)},
    exec step s es = some (h, t) → Run step s h t ∧ h.map Occ.ev = es
  | [], s, t, h, hx => by
      simp only [exec, Option.some.injEq, Prod.mk.injEq] at hx
      obtain ⟨rfl, rfl⟩ := hx
      exact ⟨Run.nil, rfl⟩
  | e :: es, s, t, h, hx => by
      simp only [exec] at hx
      split at hx
      · cases hx
      · rename_i s' o hst
        obtain ⟨⟨g, u⟩, hg, heq⟩ := Option.map_eq_some_iff.mp hx
        obtain ⟨rfl, rfl⟩ := Prod.mk.inj heq
        have hfst : Run step s [⟨s, e, o, s'⟩] s' := Run.snoc Run.nil hst
        obtain ⟨hrest, hevs⟩ := exec_run hg
        exact ⟨hfst.trans hrest, congrArg (e :: ·) hevs⟩

/-- A list of events whose execution passes a check is a run that passes it. -/
theorem exists_run {es : List ε} {p : List (Occ σ ε ω) → σ → Bool}
    (hx : (exec step s₀ es).map (fun r => p r.1 r.2) = some true) :
    ∃ h s, Run step s₀ h s ∧ h.map Occ.ev = es ∧ p h s = true := by
  obtain ⟨⟨h, s⟩, hr, hp⟩ := Option.map_eq_some_iff.mp hx
  exact ⟨h, s, (exec_run hr).1, (exec_run hr).2, hp⟩

end Runs
