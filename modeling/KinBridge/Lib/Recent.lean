import Mathlib.Data.List.Basic

/-!
# Logs without recent duplicates

A log grows at the end. Before an entry goes in, the last `n` are looked at from the back, up
to the first with the same key: if that one is less than `gap` old, nothing is recorded.

Among the last `n` the newest with a key is the one that counts, because the log is in order
of time. So two entries with one key are more than `n` apart, or at least `gap` apart in time.
-/

namespace Recent

variable {α κ : Type*} [DecidableEq κ] (key : α → κ) (time : α → Nat)

/-- The newest of the last `n` entries that has this key. -/
def newest (n : Nat) (log : List α) (k : κ) : Option α :=
  (log.reverse.take n).find? fun e => key e = k

/-- The entry goes in, unless it would repeat a recent one. -/
def record (n gap : Nat) (log : List α) (now : Nat) (a : α) : List α :=
  match newest key n log (key a) with
  | some e => if now - time e < gap then log else log ++ [a]
  | none => log ++ [a]

/-- The log is in order of time. -/
def Sorted (log : List α) : Prop := log.Pairwise fun a b => time a ≤ time b

/-- Entries with one key are more than `n` places apart, or at least `gap` apart in time. -/
def Spaced (n gap : Nat) (log : List α) : Prop :=
  ∀ i j a b, i < j → log[i]? = some a → log[j]? = some b → key a = key b →
    n < j - i ∨ time a + gap ≤ time b

/-- An entry with this key is less than `gap` old. -/
def Fresh (gap : Nat) (log : List α) (now : Nat) (k : κ) : Prop :=
  ∃ e ∈ log, key e = k ∧ now - time e < gap

variable {key time} {n gap now i : Nat} {log : List α} {a : α} {k : κ}

theorem newest_mem {e : α} (h : newest key n log k = some e) : e ∈ log ∧ key e = k := by
  have hk := List.find?_some (p := fun e => decide (key e = k)) h
  refine ⟨?_, of_decide_eq_true hk⟩
  exact List.mem_reverse.mp (List.mem_of_mem_take (List.mem_of_find?_eq_some h))

/-- No entry with the key among the last `n` is newer than the one found. -/
theorem le_newest (hs : Sorted time log) (hi : log[i]? = some a) (hnear : log.length ≤ i + n)
    (hk : key a = k) : ∃ e, newest key n log k = some e ∧ time a ≤ time e := by
  have hlt : i < log.length := (List.getElem?_eq_some_iff.mp hi).1
  have hmem : a ∈ log.reverse.take n := by
    refine List.mem_of_getElem? (i := log.length - 1 - i) ?_
    rw [List.getElem?_take_of_lt (by omega), List.getElem?_reverse (by omega)]
    have hback : log.length - 1 - (log.length - 1 - i) = i := by omega
    rw [hback, hi]
  cases hf : newest key n log k with
  | none =>
      have hnone := List.find?_eq_none.mp hf a hmem
      exact absurd (decide_eq_true hk) hnone
  | some e =>
      refine ⟨e, rfl, ?_⟩
      -- `a` is not before `e` in the search, so it is not newer
      obtain ⟨_, before, after, hsplit, hbefore⟩ := List.find?_eq_some_iff_append.mp hf
      have hsorted : (log.reverse.take n).Pairwise fun a b => time b ≤ time a :=
        (List.pairwise_reverse.mpr hs).sublist (List.take_sublist ..)
      rw [hsplit] at hmem hsorted
      rcases List.mem_append.mp hmem with hin | hin
      · exact absurd (decide_eq_true hk) (by simpa using hbefore a hin)
      · rcases List.mem_cons.mp hin with rfl | hin
        · exact Nat.le_refl _
        · exact (List.pairwise_cons.mp (List.pairwise_append.mp hsorted).2.1).1 a hin

/-- Either a recent entry is there, or the new one goes in and nothing near it is too recent. -/
theorem record_cases (key : α → κ) (n gap now : Nat) (a : α) (hs : Sorted time log) :
    (record key time n gap log now a = log ∧ Fresh key time gap log now (key a))
      ∨ (record key time n gap log now a = log ++ [a]
        ∧ ∀ i b, log[i]? = some b → log.length ≤ i + n → key b = key a → gap ≤ now - time b) := by
  unfold record
  cases hf : newest key n log (key a) with
  | none =>
      refine .inr ⟨rfl, fun i b hi hnear hk => ?_⟩
      obtain ⟨e, he, _⟩ := le_newest hs hi hnear hk
      rw [hf] at he
      cases he
  | some e =>
      dsimp only
      by_cases hgap : now - time e < gap
      · rw [if_pos hgap]
        obtain ⟨hmem, hk⟩ := newest_mem hf
        exact .inl ⟨rfl, e, hmem, hk, hgap⟩
      · rw [if_neg hgap]
        refine .inr ⟨rfl, fun i b hi hnear hk => ?_⟩
        obtain ⟨e', he', hle⟩ := le_newest hs hi hnear hk
        obtain rfl := Option.some.inj (hf.symm.trans he')
        omega

theorem sorted_record (hs : Sorted time log) (hnow : ∀ e ∈ log, time e ≤ time a) :
    Sorted time (record key time n gap log now a) := by
  rcases record_cases key n gap now a hs with ⟨heq, _⟩ | ⟨heq, _⟩
  · rw [heq]
    exact hs
  · rw [heq]
    refine List.pairwise_append.mpr ⟨hs, List.pairwise_singleton _ _, fun e he b hb => ?_⟩
    rw [List.mem_singleton.mp hb]
    exact hnow e he

/-- What is recorded at its own time keeps its distance. -/
theorem spaced_record (hs : Sorted time log) (hsp : Spaced key time n gap log)
    (hnow : ∀ e ∈ log, time e ≤ time a) :
    Spaced key time n gap (record key time n gap log (time a) a) := by
  rcases record_cases key n gap (time a) a hs with ⟨heq, _⟩ | ⟨heq, hfar⟩
  · rw [heq]
    exact hsp
  · rw [heq]
    intro i j b c hij hi hj hk
    have hjlen : j < log.length + 1 := by
      have hlt := (List.getElem?_eq_some_iff.mp hj).1
      rwa [List.length_append, List.length_singleton] at hlt
    have hilog : log[i]? = some b := by rwa [List.getElem?_append_left (by omega)] at hi
    -- two old entries keep their distance; the new one is compared with those near it
    by_cases hlast : j = log.length
    · subst hlast
      obtain rfl : a = c := by simpa using hj
      by_cases hfew : n < log.length - i
      · exact .inl hfew
      · have hold := hfar i b hilog (by omega) hk
        have hle := hnow b (List.mem_of_getElem? hilog)
        exact .inr (by omega)
    · rw [List.getElem?_append_left (by omega)] at hj
      exact hsp i j b c hij hilog hj hk

/-- Afterwards an entry with the key is recent. -/
theorem fresh_record (key : α → κ) (n : Nat) (a : α) (hs : Sorted time log) (hgap : 0 < gap) :
    Fresh key time gap (record key time n gap log (time a) a) (time a) (key a) := by
  rcases record_cases key n gap (time a) a hs with ⟨heq, hfresh⟩ | ⟨heq, _⟩
  · rw [heq]
    exact hfresh
  · rw [heq]
    exact ⟨a, by simp, rfl, by omega⟩

end Recent
