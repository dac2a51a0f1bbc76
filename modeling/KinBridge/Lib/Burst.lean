import Mathlib.Data.List.Basic
import Mathlib.Order.Basic

/-!
# Limiting bursts

A limiter that remembers a count and the time of its last admission. An attempt that comes
`gap` or more after that time starts over at one; any other is counted on, and refused when
`cap` are counted already. A refusal leaves the count and the time alone.

What the limiter counts is a *streak*: the newest admissions, each less than `gap` after the
one before. `Tracks` says so, and from it follow which attempts are refused and how many can
be admitted in a window shorter than `gap`.

Histories of admissions are newest first.
-/

namespace Burst

variable {gap cap : Nat} {st st' : Nat × Nat} {now : Nat} {acc : List Nat}

/-- One attempt: the count and the time after it, `none` if it is refused. -/
def attempt (gap cap : Nat) (st : Nat × Nat) (now : Nat) : Option (Nat × Nat) :=
  if gap ≤ now - st.2 then some (1, now)
  else if st.1 < cap then some (st.1 + 1, now)
  else none

/-- How many of the newest admissions came less than `gap` after the one before. -/
def streak (gap : Nat) : List Nat → Nat
  | [] => 0
  | [_] => 1
  | t :: t' :: ts => if t - t' < gap then streak gap (t' :: ts) + 1 else 1

/-- An attempt at `now` continues a streak that is full. -/
def Full (gap cap : Nat) (acc : List Nat) (now : Nat) : Prop :=
  cap ≤ streak gap acc ∧ ∃ t ts, acc = t :: ts ∧ now - t < gap

/-- The limiter's state is the length of the newest streak and the time of the last admission. -/
structure Tracks (gap : Nat) (st : Nat × Nat) (acc : List Nat) : Prop where
  count : st.1 = streak gap acc
  last : ∀ t ts, acc = t :: ts → st.2 = t

theorem tracks_nil (h : st.1 = 0) : Tracks gap st [] := ⟨h, by rintro t ts ⟨⟩⟩

/-- What an admission adds to the newest streak. -/
theorem streak_cons (gap t : Nat) (acc : List Nat) : streak gap (t :: acc) = streak gap acc + 1 ∨
    ((∃ t' ts, acc = t' :: ts ∧ gap ≤ t - t') ∧ streak gap (t :: acc) = 1) := by
  cases acc with
  | nil => exact .inl rfl
  | cons t' ts =>
      by_cases hlt : t - t' < gap
      · exact .inl (if_pos hlt)
      · exact .inr ⟨⟨t', ts, rfl, Nat.not_lt.mp hlt⟩, if_neg hlt⟩

theorem streak_pos (gap t : Nat) (acc : List Nat) : 1 ≤ streak gap (t :: acc) := by
  rcases streak_cons gap t acc with h | ⟨_, h⟩ <;> omega

/-- **An attempt is refused exactly if it continues a full streak.** -/
theorem attempt_eq_none (h : Tracks gap st acc) (hcap : 0 < cap) :
    attempt gap cap st now = none ↔ Full gap cap acc now := by
  unfold attempt Full
  rw [h.count]
  cases acc with
  | nil => simp [streak, hcap]
  | cons t ts =>
      rw [h.last t ts rfl]
      by_cases hgap : gap ≤ now - t
      · rw [if_pos hgap]
        simp [Nat.not_lt.mpr hgap]
      · rw [if_neg hgap]
        simp [Nat.not_le.mp hgap]

/-- An admission keeps the account. -/
theorem Tracks.admit (h : Tracks gap st acc) (hst : attempt gap cap st now = some st') :
    Tracks gap st' (now :: acc) := by
  unfold attempt at hst
  split at hst
  · rename_i hgap
    obtain rfl := Option.some.inj hst
    refine ⟨?_, by rintro t ts ⟨⟩; rfl⟩
    cases acc with
    | nil => rfl
    | cons t ts =>
        rw [h.last t ts rfl] at hgap
        exact (if_neg (Nat.not_lt.mpr hgap)).symm
  · rename_i hgap
    split at hst
    · obtain rfl := Option.some.inj hst
      refine ⟨?_, by rintro t ts ⟨⟩; rfl⟩
      show st.1 + 1 = streak gap (now :: acc)
      rw [h.count]
      cases acc with
      | nil => rfl
      | cons t ts =>
          rw [h.last t ts rfl] at hgap
          exact (if_pos (Nat.not_le.mp hgap)).symm
    · cases hst

/-! ## Windows -/

/-- Admissions in order of time, none of which continued a full streak. -/
def Paced (gap cap : Nat) : List Nat → Prop
  | [] => True
  | t :: ts => (∀ x ∈ ts, x ≤ t) ∧ ¬ Full gap cap ts t ∧ Paced gap cap ts

theorem Paced.sorted : ∀ {acc : List Nat}, Paced gap cap acc → acc.Pairwise (· ≥ ·)
  | [], _ => List.Pairwise.nil
  | _ :: _, h => List.Pairwise.cons h.1 h.2.2.sorted

/-- No streak is longer than `cap`. -/
theorem Paced.streak_le (hcap : 0 < cap) (h : Paced gap cap acc) : streak gap acc ≤ cap := by
  cases acc with
  | nil => exact Nat.zero_le _
  | cons t ts =>
      cases ts with
      | nil => exact hcap
      | cons t' ts =>
          by_cases hlt : t - t' < gap
          · have hfull : ¬ cap ≤ streak gap (t' :: ts) := fun hle => h.2.1 ⟨hle, t', ts, rfl, hlt⟩
            rw [streak, if_pos hlt]
            omega
          · rw [streak, if_neg hlt]
            exact hcap

/-- The newest admissions, back to a time less than `gap` ago, are one streak. -/
theorem count_le_streak {w : Nat} : ∀ {acc : List Nat}, acc.Pairwise (· ≥ ·) →
    (∀ t ∈ acc, t < w + gap) → acc.countP (fun t => w ≤ t) ≤ streak gap acc
  | [], _, _ => Nat.le_refl _
  | [_], _, _ => List.countP_le_length
  | t :: t' :: ts, hsorted, hlt => by
      obtain ⟨hhead, htail⟩ := List.pairwise_cons.mp hsorted
      have ih := count_le_streak htail fun x hx => hlt x (List.mem_cons_of_mem _ hx)
      by_cases hin : w ≤ t'
      · -- both in the window, so the second continues the streak
        have hnear : t - t' < gap := by
          have hnew := hlt t List.mem_cons_self
          have hle := hhead t' List.mem_cons_self
          omega
        rw [streak, if_pos hnear, List.countP_cons]
        split <;> omega
      · -- the second is out, and with it everything older
        have hout : (t' :: ts).countP (fun t => w ≤ t) = 0 := by
          rw [List.countP_eq_zero]
          intro x hx
          have hle : x ≤ t' := by
            rcases List.mem_cons.mp hx with rfl | hx
            · exact Nat.le_refl _
            · exact (List.pairwise_cons.mp htail).1 x hx
          simp only [decide_eq_true_eq]
          omega
        have hpos := streak_pos gap t (t' :: ts)
        rw [List.countP_cons, hout]
        split <;> omega

/-- **A window shorter than `gap` holds at most `cap` admissions.** -/
theorem Paced.window {w d : Nat} (hcap : 0 < cap) (hd : d < gap) : ∀ {acc : List Nat},
    Paced gap cap acc → acc.countP (fun t => w ≤ t ∧ t ≤ w + d) ≤ cap
  | [], _ => Nat.zero_le _
  | t :: ts, h => by
      by_cases hin : t ≤ w + d
      · have hall : ∀ x ∈ t :: ts, x < w + gap := by
          intro x hx
          rcases List.mem_cons.mp hx with rfl | hx
          · omega
          · have hle := h.1 x hx
            omega
        have hstreak := count_le_streak h.sorted hall
        have hmono : (t :: ts).countP (fun x => w ≤ x ∧ x ≤ w + d)
            ≤ (t :: ts).countP (fun x => w ≤ x) := by
          refine List.countP_mono_left ?_
          intro x _ hx
          simp only [decide_eq_true_eq] at hx ⊢
          exact hx.1
        exact Nat.le_trans hmono (Nat.le_trans hstreak (h.streak_le hcap))
      · rw [List.countP_cons_of_neg (by simp [hin])]
        exact h.2.2.window hcap hd

end Burst
