import Mathlib.Data.List.Forall2
import KinBridge.Lib.Runs

/-!
# Runs that refine a specification

A specification here is a total step `α → β → α × γ`: it takes a message and answers. A
machine refines it if some of its events carry a message and the others are silent, and a
relation between the two states is kept by every step, with the same answer where there is
a message. Then a run of the machine, its silent steps left out, goes along the
specification step by step. Two runs that carry the same messages go along the same steps,
whatever the silent events in between: that is `Refines.same`.
-/

namespace Runs

variable {σ ε ω α β γ : Type*}

/-- The specification's answers and states, one for each message. -/
def trace (spec : α → β → α × γ) : α → List β → List (α × γ)
  | _, [] => []
  | a, b :: bs => spec a b :: trace spec (spec a b).1 bs

/-- The specification's state after these messages. -/
def after (spec : α → β → α × γ) (a : α) (bs : List β) : α := bs.foldl (fun a b => (spec a b).1) a

theorem trace_snoc (spec : α → β → α × γ) (a : α) (bs : List β) (b : β) :
    trace spec a (bs ++ [b]) = trace spec a bs ++ [spec (after spec a bs) b] := by
  induction bs generalizing a with
  | nil => rfl
  | cons c bs ih => simp only [List.cons_append, trace, after, List.foldl_cons, ih]

theorem after_snoc (spec : α → β → α × γ) (a : α) (bs : List β) (b : β) :
    after spec a (bs ++ [b]) = (spec (after spec a bs) b).1 := by
  simp [after]

section

variable (label : ε → Option β)

/-- The messages of a run. -/
def messages (h : List (Occ σ ε ω)) : List β := h.filterMap fun o => label o.ev

/-- The steps of a run that carry a message. -/
def heard (h : List (Occ σ ε ω)) : List (Occ σ ε ω) := h.filter fun o => (label o.ev).isSome

end

/-- `R` relates the machine's states to the specification's, for steps that meet `C`. -/
structure Refines (step : σ → ε → Option (σ × ω)) (C : σ → ε → Prop) (spec : α → β → α × γ)
    (label : ε → Option β) (answer : ω → γ) (R : σ → α → Prop) : Prop where
  silent : ∀ s e s' o a, R s a → C s e → step s e = some (s', o) → label e = none → R s' a
  answered : ∀ s e s' o a b, R s a → C s e → step s e = some (s', o) → label e = some b →
    R s' (spec a b).1 ∧ answer o = (spec a b).2

variable {step : σ → ε → Option (σ × ω)} {C : σ → ε → Prop} {spec : α → β → α × γ}
  {label : ε → Option β} {answer : ω → γ} {R : σ → α → Prop}
  {s₀ s s₀' s' : σ} {h h' : List (Occ σ ε ω)} {a : α}

/-- A run goes along the specification. -/
theorem Refines.run (hf : Refines step C spec label answer R) (h0 : R s₀ a)
    (hr : Run step s₀ h s) (hc : ∀ o ∈ h, C o.pre o.ev) :
    R s (after spec a (messages label h)) ∧
      List.Forall₂ (fun o t => R o.post t.1 ∧ answer o.out = t.2)
        (heard label h) (trace spec a (messages label h)) := by
  induction hr with
  | nil => exact ⟨h0, .nil⟩
  | @snoc h s s' e o _ hst ih =>
      obtain ⟨hrel, hall⟩ := ih fun x hx => hc x (List.mem_append_left _ hx)
      have hce : C s e := hc ⟨s, e, o, s'⟩ (by simp)
      cases hl : label e with
      | none =>
          have hmsg : messages label (h ++ [⟨s, e, o, s'⟩]) = messages label h := by
            simp [messages, hl]
          have hheard : heard label (h ++ [⟨s, e, o, s'⟩]) = heard label h := by
            simp [heard, hl]
          rw [hmsg, hheard]
          exact ⟨hf.silent s e s' o _ hrel hce hst hl, hall⟩
      | some b =>
          have hmsg : messages label (h ++ [⟨s, e, o, s'⟩]) = messages label h ++ [b] := by
            simp [messages, hl]
          have hheard : heard label (h ++ [⟨s, e, o, s'⟩]) = heard label h ++ [⟨s, e, o, s'⟩] := by
            simp [heard, hl]
          obtain ⟨hrel', hans⟩ := hf.answered s e s' o _ b hrel hce hst hl
          rw [hmsg, hheard, after_snoc, trace_snoc]
          exact ⟨hrel', List.rel_append hall (.cons ⟨hrel', hans⟩ .nil)⟩

/-- What goes along the same list goes along one another. -/
theorem forall₂_of_common {τ τ' κ : Type*} {P : τ → κ → Prop} {P' : τ' → κ → Prop} {xs : List τ}
    {ys : List τ'} {zs : List κ} (hx : List.Forall₂ P xs zs) (hy : List.Forall₂ P' ys zs) :
    List.Forall₂ (fun x y => ∃ z, P x z ∧ P' y z) xs ys := by
  induction hx generalizing ys with
  | nil => cases hy; exact .nil
  | @cons x z xs zs hxz _ ih =>
      cases hy with
      | cons hyz hrest => exact .cons ⟨z, hxz, hyz⟩ (ih hrest)

/-- **Runs with the same messages answer the same**, and after each message their states
stand for the same state of the specification. -/
theorem Refines.same (hf : Refines step C spec label answer R) (h0 : R s₀ a) (h0' : R s₀' a)
    (hr : Run step s₀ h s) (hr' : Run step s₀' h' s') (hc : ∀ o ∈ h, C o.pre o.ev)
    (hc' : ∀ o ∈ h', C o.pre o.ev) (hmsg : messages label h = messages label h') :
    List.Forall₂ (fun o o' => answer o.out = answer o'.out ∧ ∃ b, R o.post b ∧ R o'.post b)
      (heard label h) (heard label h') := by
  have hall := (hf.run h0 hr hc).2
  have hall' := (hf.run h0' hr' hc').2
  rw [← hmsg] at hall'
  refine (forall₂_of_common hall hall').imp ?_
  intro o o' hboth
  obtain ⟨t, ⟨hrel, hans⟩, hrel', hans'⟩ := hboth
  exact ⟨hans.trans hans'.symm, t.1, hrel, hrel'⟩

/-! ## A part of the state -/

section Part

variable {τ ε' ω' : Type*} {machine : τ → ε' → Option (τ × ω')} {told : σ → ε → Option ε'}

/-- The machine takes the step that it is told to take, or stays. -/
def Follows (machine : τ → ε' → Option (τ × ω')) (a b : τ) : Option ε' → Prop
  | none => b = a
  | some e => ∃ o, machine a e = some (b, o)

/-- **A part of the state that goes along a machine at every step** has a run of the machine
behind it, with the events that the steps tell it. -/
theorem Run.part (view : σ → τ) (hs : ∀ s e s' o, step s e = some (s', o) →
      Follows machine (view s) (view s') (told s e)) (hr : Run step s₀ h s) :
    ∃ g, Run machine (view s₀) g (view s)
      ∧ g.map Occ.ev = h.filterMap fun o => told o.pre o.ev := by
  induction hr with
  | nil => exact ⟨[], Run.nil, rfl⟩
  | @snoc h s s' e o _ hst ih =>
      obtain ⟨g, hg, hev⟩ := ih
      have hfollows := hs s e s' o hst
      rw [List.filterMap_append, ← hev]
      cases htold : told s e with
      | none =>
          rw [htold] at hfollows
          exact ⟨g, hfollows ▸ hg, by simp [htold]⟩
      | some e' =>
          rw [htold] at hfollows
          obtain ⟨o', hst'⟩ := hfollows
          exact ⟨_, hg.snoc hst', by simp [htold]⟩

end Part

/-! ## Two runs of the same events -/

/-- **A run is matched by one from elsewhere**, event for event, if every step is. `R` may look at
the run so far, and `Q` is what is to be seen of a pair of steps. -/
theorem Run.lockstep {P : List (Occ σ ε ω) → Prop} {R : List (Occ σ ε ω) → σ → σ → Prop}
    {Q : Occ σ ε ω → Occ σ ε ω → Prop} (hP : ∀ h o, P (h ++ [o]) → P h) (h0 : R [] s₀ s₀')
    (hs : ∀ h s s' e t o, R h s s' → P (h ++ [⟨s, e, o, t⟩]) → step s e = some (t, o) →
      ∃ t' o', step s' e = some (t', o') ∧ R (h ++ [⟨s, e, o, t⟩]) t t'
        ∧ Q ⟨s, e, o, t⟩ ⟨s', e, o', t'⟩)
    (hr : Run step s₀ h s) (hp : P h) :
    ∃ h' s', Run step s₀' h' s' ∧ R h s s' ∧ List.Forall₂ Q h h' := by
  induction hr with
  | nil => exact ⟨[], s₀', Run.nil, h0, .nil⟩
  | @snoc h s t e o _ hst ih =>
      obtain ⟨h', s', hr', hrel, hall⟩ := ih (hP _ _ hp)
      obtain ⟨t', o', hst', hrel', hq⟩ := hs h s s' e t o hrel hp hst
      exact ⟨_, t', hr'.snoc hst', hrel', List.rel_append hall (.cons hq .nil)⟩

/-! ## Another machine's run beside it -/

/-- **A run has another machine's run beside it**, on the same events, if every step of it has a
step beside it that leads on to related states. `A` is what the two put out have in common. -/
theorem Run.beside {σ' ω' : Type*} {s₀' : σ'} {step' : σ' → ε → Option (σ' × ω')}
    {R : σ → σ' → Prop} {A : ω → ω' → Prop} (h0 : R s₀ s₀')
    (hs : ∀ h s s' e t o, Run step s₀ h s → R s s' → step s e = some (t, o) →
      ∃ t' o', step' s' e = some (t', o') ∧ R t t' ∧ A o o')
    (hr : Run step s₀ h s) :
    ∃ h' s', Run step' s₀' h' s' ∧ R s s' ∧ List.Forall₂
      (fun o o' => o'.ev = o.ev ∧ R o.pre o'.pre ∧ R o.post o'.post ∧ A o.out o'.out) h h' := by
  induction hr with
  | nil => exact ⟨[], s₀', Run.nil, h0, .nil⟩
  | @snoc h s t e o hrun hst ih =>
      obtain ⟨h', s', hr', hrel, hall⟩ := ih
      obtain ⟨t', o', hst', hrel', hout⟩ := hs h s s' e t o hrun hrel hst
      exact ⟨_, t', hr'.snoc hst', hrel',
        List.rel_append hall (.cons ⟨rfl, hrel, hrel', hout⟩ .nil)⟩

end Runs
