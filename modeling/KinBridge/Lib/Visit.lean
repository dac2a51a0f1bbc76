import Mathlib.Data.List.Count

/-!
# Visiting a set that loses members

A loop over a set calls its members in turn, and a call may take members out. One that is out
before its turn is passed over. No call puts a member in, so the loop ends with the last of those
that were there at its beginning.
-/

namespace Visit

variable {σ κ : Type*} [DecidableEq κ] (members : σ → List κ) (call : κ → σ → σ)

/-- The members that are called, and the state after. -/
def visit : List κ → σ → List κ × σ
  | [], s => ([], s)
  | k :: ks, s =>
    if k ∈ members s then
      let (called, s') := visit ks (call k s)
      (k :: called, s')
    else visit ks s

variable {members : σ → List κ} {call : κ → σ → σ} {k : κ} {ks : List κ} {s : σ}

theorem visit_member (h : k ∈ members s) : visit members call (k :: ks) s
    = (k :: (visit members call ks (call k s)).1, (visit members call ks (call k s)).2) :=
  if_pos h

theorem visit_gone (h : k ∉ members s) :
    visit members call (k :: ks) s = visit members call ks s :=
  if_neg h

theorem visit_sublist : (visit members call ks s).1.Sublist ks := by
  induction ks generalizing s with
  | nil => exact .slnil
  | cons k ks ih =>
      by_cases h : k ∈ members s
      · rw [visit_member h]
        exact ih.cons_cons k
      · rw [visit_gone h]
        exact ih.cons k

/-- What every call keeps, the loop keeps. -/
theorem visit_keeps {P : σ → Prop} (hcall : ∀ k s, P s → P (call k s)) (h : P s) :
    P (visit members call ks s).2 := by
  induction ks generalizing s with
  | nil => exact h
  | cons k ks ih =>
      by_cases hmem : k ∈ members s
      · rw [visit_member hmem]
        exact ih (hcall k s h)
      · rw [visit_gone hmem]
        exact ih h

section

variable (hgone : ∀ j s, k ∉ members s → k ∉ members (call j s))

include hgone

/-- A member that is still there at the end had its call. -/
theorem visit_called (hk : k ∈ ks) (h : k ∈ members (visit members call ks s).2) :
    k ∈ (visit members call ks s).1 := by
  -- nobody comes back, so it was there all the time
  have hthere : k ∈ members s := by
    by_contra hnot
    exact visit_keeps (P := fun s => k ∉ members s) hgone hnot h
  induction ks generalizing s with
  | nil => cases hk
  | cons j ks ih =>
      by_cases hmem : j ∈ members s
      · rw [visit_member hmem] at h ⊢
        rcases List.mem_cons.mp hk with rfl | hlater
        · exact List.mem_cons_self
        · refine List.mem_cons_of_mem _ (ih hlater h ?_)
          by_contra hnot
          exact visit_keeps (P := fun s => k ∉ members s) hgone hnot h
      · rw [visit_gone hmem] at h ⊢
        rcases List.mem_cons.mp hk with rfl | hlater
        · exact absurd hthere hmem
        · exact ih hlater h hthere

/-- And one call only, if it was there once. -/
theorem visit_once (hk : ks.count k = 1) (h : k ∈ members (visit members call ks s).2) :
    (visit members call ks s).1.count k = 1 := by
  have hmem : k ∈ ks := List.count_pos_iff.mp (hk ▸ Nat.one_pos)
  have hcalled := List.count_pos_iff.mpr (visit_called hgone hmem h)
  have hle := (@visit_sublist _ _ _ members call ks s).count_le k
  omega

end

end Visit
