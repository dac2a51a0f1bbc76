import KinBridge.Hbbs.Command

/-!
# The listing loop

`ip-blocker` and `ip-changes` list ten entries of a map with one and the same loop: a counter
runs to `start + 10`, an iterator over the map goes along with it, and what comes before `start`
is passed over. Turn by turn it comes to `page`.
-/

namespace KinBridge

/-- `a + b` of two `i32`s in a release build: the sum wraps. -/
def addI32 (a b : Int) : Int := (a + b).bmod (2 ^ 32)

variable {α : Type}

/-- The loop: its counter, what is left of the iterator, and what it has printed. -/
structure Listing (α : Type) where
  i : Int
  it : List α
  printed : List α

/-- A turn of `for i in 0..bound`; `none` when the loop is over. -/
def listTurn (start bound : Int) (s : Listing α) : Option (Listing α) :=
  if s.i < bound then
    match s.it with
    | [] => none
    | x :: it => some ⟨s.i + 1, it, if s.i < start then s.printed else s.printed ++ [x]⟩
  else none

/-- What the loop prints, if it is over after so many turns. -/
def listLoop (start bound : Int) : Nat → Listing α → Option (List α)
  | 0, _ => none
  | turns + 1, s =>
    match listTurn start bound s with
    | some s => listLoop start bound turns s
    | none => some s.printed

/-- What a command prints of the entries `l`, in as many turns as it has entries, and one. -/
def listed (start : Int) (l : List α) : Option (List α) :=
  listLoop start (addI32 start 10) (l.length + 1) ⟨0, l, []⟩

example : listed 2 ["a", "b", "c"] = some ["c"] := by decide

theorem addI32_fits {a b : Int} (h : 0 ≤ a + b) (h' : a + b < 2 ^ 31) : addI32 a b = a + b := by
  unfold addI32
  exact Int.bmod_eq_of_le (by omega) (by omega)

theorem addI32_wraps {a b : Int} (h : 2 ^ 31 ≤ a + b) (h' : a + b < 2 ^ 32) :
    addI32 a b = a + b - 2 ^ 32 := by
  unfold addI32
  rw [← Int.sub_bmod_right]
  exact Int.bmod_eq_of_le (by omega) (by omega)

/-- **The loop ends**, with the iterator at the latest, and prints what lies between its bounds. -/
theorem listLoop_eq {start bound : Int} {turns : Nat} {s : Listing α} (h : s.it.length < turns) :
    listLoop start bound turns s
      = some (s.printed ++ (s.it.take (bound - s.i).toNat).drop (start - s.i).toNat) := by
  induction turns generalizing s with
  | zero => omega
  | succ turns ih =>
      obtain ⟨i, it, printed⟩ := s
      dsimp only at h ⊢
      rw [listLoop]
      by_cases hi : i < bound
      · cases it with
        | nil => simp [listTurn, hi]
        | cons x it =>
            have hturn : listTurn start bound ⟨i, x :: it, printed⟩
                = some ⟨i + 1, it, if i < start then printed else printed ++ [x]⟩ := if_pos hi
            -- the iterator and the counter go on together
            have hbound : (bound - i).toNat = (bound - (i + 1)).toNat + 1 := by omega
            rw [hturn]
            dsimp only
            rw [ih (by simpa using h), hbound, List.take_succ_cons]
            by_cases hs : i < start
            · have hstart : (start - i).toNat = (start - (i + 1)).toNat + 1 := by omega
              rw [if_pos hs, hstart, List.drop_succ_cons]
            · have hstart : (start - i).toNat = 0 := by omega
              have hstart' : (start - (i + 1)).toNat = 0 := by omega
              rw [if_neg hs, hstart, hstart', List.drop_zero, List.drop_zero, List.append_assoc,
                List.singleton_append]
      · have hbound : (bound - i).toNat = 0 := by omega
        rw [listTurn, if_neg hi, hbound]
        simp

/-- The loop is `page`. -/
theorem listed_eq_page {start : Int} {l : List α} (h : 0 ≤ start) (h' : start < 2 ^ 31) :
    listed start l = some (page start l) := by
  have hloop : listed start l = _ :=
    @listLoop_eq α start _ (l.length + 1) ⟨0, l, []⟩ (Nat.lt_succ_self l.length)
  rw [hloop]
  dsimp only
  rw [List.nil_append, Int.sub_zero, Int.sub_zero]
  unfold page
  by_cases hfits : start + 10 < 2 ^ 31
  · have hbound : (start + 10).toNat = start.toNat + 10 := by omega
    rw [if_pos hfits, addI32_fits (by omega) hfits, hbound, List.drop_take]
    simp
  · -- the bound is negative, and the loop is over before it begins
    have hbound : (addI32 start 10).toNat = 0 := by
      rw [addI32_wraps (by omega) (by omega)]
      omega
    rw [if_neg hfits, hbound, List.take_zero, List.drop_nil]

end KinBridge
