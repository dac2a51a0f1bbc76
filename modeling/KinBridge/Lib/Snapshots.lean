import Mathlib.Data.List.Pairwise
import Mathlib.Order.Basic
import KinBridge.Lib.Runs

/-!
# Copies of a value that is replaced

A system holds a value and replaces it from time to time, always by one of a higher version.
Its parts work with copies, each made of the value in force at some moment, and show what
they have whenever they like. However old the copies are, one version stands for one value:
all that was ever in force is a list along which versions rise, and every copy is in it.
-/

namespace Runs

variable {σ ε ω α ν : Type*}

section

variable [LT ν]

/-- Versions rise along the list. -/
def Rising (version : α → ν) (vs : List α) : Prop :=
  vs.Pairwise fun a b => version a < version b

/-- `cur` is the value in force, `held` says what copies there are, and `shown` what a step
shows. A step replaces the value by one of a higher version, or leaves it. -/
structure Publishes (step : σ → ε → Option (σ × ω)) (version : α → ν) (cur : σ → α)
    (held : σ → α → Prop) (shown : ω → α → Prop) : Prop where
  raised : ∀ s e s' o, step s e = some (s', o) →
    cur s' = cur s ∨ version (cur s) < version (cur s')
  copied : ∀ s e s' o a, step s e = some (s', o) → held s' a → held s a ∨ a = cur s
  shows : ∀ s e s' o a, step s e = some (s', o) → shown o a → held s a ∨ a = cur s

/-- Everything that was in force: the copies that there are, and all that was shown, are in it,
and it ends with what is in force now. -/
structure InForce (version : α → ν) (cur : σ → α) (held : σ → α → Prop) (shown : ω → α → Prop)
    (vs : List α) (h : List (Occ σ ε ω)) (s : σ) : Prop where
  rising : Rising version vs
  last : ∃ us, vs = us ++ [cur s]
  held : ∀ a, held s a → a ∈ vs
  shown : ∀ o ∈ h, ∀ a, shown o.out a → a ∈ vs

end

variable [Preorder ν] {version : α → ν}

theorem rising_snoc {vs : List α} {b : α} :
    Rising version (vs ++ [b]) ↔ Rising version vs ∧ ∀ a ∈ vs, version a < version b := by
  simp [Rising, List.pairwise_append]

/-- One version, one value. -/
theorem Rising.eq_of_version {vs : List α} (h : Rising version vs) {a b : α} (ha : a ∈ vs)
    (hb : b ∈ vs) (hv : version a = version b) : a = b := by
  induction h with
  | nil => cases ha
  | @cons c vs hc _ ih =>
      rcases List.mem_cons.mp ha with hac | hin
      · rcases List.mem_cons.mp hb with hbc | hin'
        · exact hac.trans hbc.symm
        · exact absurd hv (hac ▸ hc b hin').ne
      · rcases List.mem_cons.mp hb with hbc | hin'
        · exact absurd hv (hbc ▸ hc a hin).ne'
        · exact ih hin hin'

variable {step : σ → ε → Option (σ × ω)} {cur : σ → α} {held : σ → α → Prop}
  {shown : ω → α → Prop} {s₀ s : σ} {h : List (Occ σ ε ω)}

theorem InForce.cur_mem {vs : List α} (hi : InForce version cur held shown vs h s) :
    cur s ∈ vs := by
  obtain ⟨us, rfl⟩ := hi.last
  exact List.mem_append_right _ (List.mem_singleton_self _)

/-- The value in force is newer than all that was in force before. -/
theorem InForce.below {vs : List α} (hi : InForce version cur held shown vs h s) {b : α}
    (hb : version (cur s) < version b) : ∀ a ∈ vs, version a < version b := by
  obtain ⟨us, rfl⟩ := hi.last
  intro a ha
  rcases List.mem_append.mp ha with ha | ha
  · exact ((rising_snoc.mp hi.rising).2 a ha).trans hb
  · rwa [List.mem_singleton.mp ha]

theorem Publishes.inForce_step (hp : Publishes step version cur held shown) {vs : List α} {s' : σ}
    {e : ε} {o : ω} (hi : InForce version cur held shown vs h s)
    (hst : step s e = some (s', o)) :
    ∃ vs', InForce version cur held shown vs' (h ++ [⟨s, e, o, s'⟩]) s' := by
  -- a copy made in this step is one of what was in force before it
  have hold : ∀ a, held s a ∨ a = cur s → a ∈ vs := by
    rintro a (ha | rfl)
    · exact hi.held a ha
    · exact hi.cur_mem
  have hheld : ∀ a, held s' a → a ∈ vs := fun a ha => hold a (hp.copied s e s' o a hst ha)
  have hshown : ∀ x ∈ h ++ [⟨s, e, o, s'⟩], ∀ a, shown x.out a → a ∈ vs := by
    intro x hx a ha
    rcases List.mem_append.mp hx with hx | hx
    · exact hi.shown x hx a ha
    · obtain rfl := List.mem_singleton.mp hx
      exact hold a (hp.shows s e s' o a hst ha)
  rcases hp.raised s e s' o hst with hsame | hlt
  · exact ⟨vs, hi.rising, hsame ▸ hi.last, hheld, hshown⟩
  · refine ⟨vs ++ [cur s'], rising_snoc.mpr ⟨hi.rising, hi.below hlt⟩, ⟨vs, rfl⟩, ?_, ?_⟩
    · exact fun a ha => List.mem_append_left _ (hheld a ha)
    · exact fun x hx a ha => List.mem_append_left _ (hshown x hx a ha)

theorem Publishes.run (hp : Publishes step version cur held shown) (h0 : ∀ a, ¬ held s₀ a)
    (hr : Run step s₀ h s) : ∃ vs, InForce version cur held shown vs h s := by
  induction hr with
  | nil =>
      refine ⟨[cur s₀], List.pairwise_singleton _ _, ⟨[], rfl⟩, ?_, ?_⟩
      · exact fun a ha => absurd ha (h0 a)
      · exact fun o ho => by cases ho
  | snoc _ hst ih =>
      obtain ⟨vs, hi⟩ := ih
      exact hp.inForce_step hi hst

/-- **What is shown under one version is one value**, whichever copies it came from. -/
theorem Publishes.agree (hp : Publishes step version cur held shown) (h0 : ∀ a, ¬ held s₀ a)
    (hr : Run step s₀ h s) {o o' : Occ σ ε ω} (ho : o ∈ h) (ho' : o' ∈ h) {a b : α}
    (ha : shown o.out a) (hb : shown o'.out b) (hv : version a = version b) : a = b := by
  obtain ⟨vs, hi⟩ := hp.run h0 hr
  exact hi.rising.eq_of_version (hi.shown o ho a ha) (hi.shown o' ho' b hb) hv

/-- What is in force after a run has the version it had before, or a higher one. -/
theorem Publishes.mono (hp : Publishes step version cur held shown) (hr : Run step s₀ h s) :
    version (cur s₀) ≤ version (cur s) := by
  refine hr.keeps (Q := fun s => version (cur s₀) ≤ version (cur s)) ?_ le_rfl
  intro s e s' o hle hst
  rcases hp.raised s e s' o hst with hsame | hlt
  · rw [hsame]
    exact hle
  · exact hle.trans hlt.le

end Runs
