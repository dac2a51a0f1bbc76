import Mathlib.Data.List.Perm.Basic
import Mathlib.Data.List.Perm.Subperm
import KinBridge.Lib.Runs

/-!
# Futures that push to one list

A task starts a future for each of its items and waits for all of them. A future tries its
item, and pushes it to a list that is behind a lock if that succeeds. Futures run in any
order, so the list can be any selection of the items, in any order. It has no other items,
though, and none is lost: it has every item whose future succeeded, as often as that happened.
-/

namespace Gather

open Runs

variable {α : Type*}

/-- How far a future is. After `succeeded` it waits for the lock. -/
inductive Stage where
  | trying
  | succeeded
  | failed
  | pushed
deriving DecidableEq, Repr

/-- The items whose futures are at this stage. -/
def itemsAt (p : Stage) (futures : List (α × Stage)) : List α :=
  (futures.filter fun f => f.2 = p).map Prod.fst

/-- The futures and the list. What is on it has been pushed, and nothing was pushed in vain. -/
structure Batch (α : Type*) where
  futures : List (α × Stage)
  found : List α
  pushed : found.Perm (itemsAt .pushed futures)

def Batch.items (t : Batch α) : List α := t.futures.map Prod.fst

/-- All futures are done. -/
def Batch.joined (t : Batch α) : Bool := t.futures.all fun f => f.2 = .failed || f.2 = .pushed

inductive Advance (α : Type*) where
  /-- The future at this place gets an answer. -/
  | answer (i : Nat) (ok : α → Bool)
  /-- The future at this place gets the lock, and pushes. -/
  | push (i : Nat)

/-! ## A future that moves on -/

theorem itemsAt_cons (r : Stage) (x : α) (p : Stage) (futures : List (α × Stage)) :
    itemsAt r ((x, p) :: futures)
      = if p = r then x :: itemsAt r futures else itemsAt r futures := by
  unfold itemsAt
  rw [List.filter_cons]
  split
  · rename_i h
    rw [if_pos (of_decide_eq_true h), List.map_cons]
  · rename_i h
    rw [if_neg fun hp => h (decide_eq_true hp)]

theorem itemsAt_perm {r : Stage} {futures futures' : List (α × Stage)}
    (h : futures.Perm futures') : (itemsAt r futures).Perm (itemsAt r futures') :=
  (h.filter _).map _

/-- A future at one stage, and the same future at another, next to the others. -/
theorem set_perm {futures : List (α × Stage)} {i : Nat} {x : α} {p : Stage} (q : Stage)
    (h : futures[i]? = some (x, p)) : ∃ rest, futures.Perm ((x, p) :: rest)
      ∧ (futures.set i (x, q)).Perm ((x, q) :: rest) := by
  obtain ⟨hlt, hget⟩ := List.getElem?_eq_some_iff.mp h
  refine ⟨futures.eraseIdx i, ?_, List.set_perm_cons_eraseIdx hlt _⟩
  have hperm := List.getElem_cons_eraseIdx_perm hlt
  rw [hget] at hperm
  exact hperm.symm

/-- Stages that a future neither leaves nor comes to have the items that they had. -/
theorem itemsAt_other {futures : List (α × Stage)} {i : Nat} {x : α} {p q r : Stage}
    (h : futures[i]? = some (x, p)) (hp : p ≠ r) (hq : q ≠ r) :
    (itemsAt r (futures.set i (x, q))).Perm (itemsAt r futures) := by
  obtain ⟨rest, hold, hnew⟩ := set_perm q h
  have hold' := itemsAt_perm (r := r) hold
  have hnew' := itemsAt_perm (r := r) hnew
  rw [itemsAt_cons, if_neg hp] at hold'
  rw [itemsAt_cons, if_neg hq] at hnew'
  exact hnew'.trans hold'.symm

theorem itemsAt_left {futures : List (α × Stage)} {i : Nat} {x : α} {p q : Stage}
    (h : futures[i]? = some (x, p)) (hq : q ≠ p) :
    (itemsAt p futures).Perm (x :: itemsAt p (futures.set i (x, q))) := by
  obtain ⟨rest, hold, hnew⟩ := set_perm q h
  have hold' := itemsAt_perm (r := p) hold
  have hnew' := itemsAt_perm (r := p) hnew
  rw [itemsAt_cons, if_pos rfl] at hold'
  rw [itemsAt_cons, if_neg hq] at hnew'
  exact hold'.trans (hnew'.symm.cons x)

theorem itemsAt_entered {futures : List (α × Stage)} {i : Nat} {x : α} {p q : Stage}
    (h : futures[i]? = some (x, p)) (hp : p ≠ q) :
    (itemsAt q (futures.set i (x, q))).Perm (x :: itemsAt q futures) := by
  obtain ⟨rest, hold, hnew⟩ := set_perm q h
  have hold' := itemsAt_perm (r := q) hold
  have hnew' := itemsAt_perm (r := q) hnew
  rw [itemsAt_cons, if_neg hp] at hold'
  rw [itemsAt_cons, if_pos rfl] at hnew'
  exact hnew'.trans (hold'.symm.cons x)

/-! ## Moves -/

theorem itemsAt_trying (p : Stage) (items : List α) :
    itemsAt p (items.map fun x => (x, .trying)) = if .trying = p then items else [] := by
  induction items with
  | nil => exact (ite_self _).symm
  | cons x items ih =>
      rw [List.map_cons, itemsAt_cons, ih]
      split <;> rfl

def Batch.start (items : List α) : Batch α where
  futures := items.map fun x => (x, .trying)
  found := []
  pushed := .of_eq (itemsAt_trying .pushed items).symm

/-- A future that tries gets this answer. -/
def Batch.answered (t : Batch α) (i : Nat) (x : α) (ok : Bool)
    (h : t.futures[i]? = some (x, .trying)) : Batch α where
  futures := t.futures.set i (x, if ok then .succeeded else .failed)
  found := t.found
  pushed := t.pushed.trans (itemsAt_other h (by decide) (by cases ok <;> decide)).symm

/-- A future that succeeded pushes its item. -/
def Batch.push (t : Batch α) (i : Nat) (x : α) (h : t.futures[i]? = some (x, .succeeded)) :
    Batch α where
  futures := t.futures.set i (x, .pushed)
  found := t.found ++ [x]
  pushed :=
    (List.perm_append_singleton x t.found).trans
      ((t.pushed.cons x).trans (itemsAt_entered h (by decide)).symm)

def step (t : Batch α) : Advance α → Option (Batch α × Unit)
  | .answer i ok =>
    match h : t.futures[i]? with
    | some (x, .trying) => some (t.answered i x (ok x) h, ())
    | _ => none
  | .push i =>
    match h : t.futures[i]? with
    | some (x, .succeeded) => some (t.push i x h, ())
    | _ => none

/-- What one move does. -/
inductive Advanced (t : Batch α) : Advance α → Batch α → Prop where
  | answer {i : Nat} {ok : α → Bool} {x : α} (h : t.futures[i]? = some (x, .trying)) :
      Advanced t (.answer i ok) (t.answered i x (ok x) h)
  | push {i : Nat} {x : α} (h : t.futures[i]? = some (x, .succeeded)) :
      Advanced t (.push i) (t.push i x h)

theorem step_iff {t t' : Batch α} {m : Advance α} : step t m = some (t', ()) ↔ Advanced t m t' := by
  constructor
  · intro hst
    cases m with
    | answer i ok =>
        dsimp only [step] at hst
        split at hst
        · rename_i h
          cases hst
          exact .answer h
        · cases hst
    | push i =>
        dsimp only [step] at hst
        split at hst
        · rename_i h
          cases hst
          exact .push h
        · cases hst
  · intro hmoved
    cases hmoved with
    | answer h =>
        dsimp only [step]
        split
        · rename_i heq
          obtain ⟨rfl, _⟩ := Prod.mk.inj (Option.some.inj (heq.symm.trans h))
          rfl
        · rename_i hno
          exact absurd h (hno _)
    | push h =>
        dsimp only [step]
        split
        · rename_i heq
          obtain ⟨rfl, _⟩ := Prod.mk.inj (Option.some.inj (heq.symm.trans h))
          rfl
        · rename_i hno
          exact absurd h (hno _)

/-! ## What is found -/

variable {t t' : Batch α} {m : Advance α} {ok : α → Bool} {xs rs : List α}
  {h : List (Occ (Batch α) (Advance α) Unit)}

/-- An entry may be replaced by one that looks the same. -/
theorem map_set_same {β γ : Type*} (f : β → γ) {l : List β} {i : Nat} {a b : β}
    (h : l[i]? = some a) (hf : f b = f a) : (l.set i b).map f = l.map f := by
  obtain ⟨hlt, hget⟩ := List.getElem?_eq_some_iff.mp h
  rw [List.map_set, hf]
  refine List.ext_getElem? fun j => ?_
  by_cases hj : i = j
  · subst hj
    rw [List.getElem?_set_self (by simpa using hlt), List.getElem?_map, h, Option.map_some]
  · rw [List.getElem?_set_ne hj]

theorem Advanced.items (hm : Advanced t m t') : t'.items = t.items := by
  cases hm with
  | answer h => exact map_set_same Prod.fst h rfl
  | push h => exact map_set_same Prod.fst h rfl

theorem items_start : (Batch.start xs).items = xs := by
  unfold Batch.items Batch.start
  rw [List.map_map]
  exact List.map_id xs

theorem Batch.found_subperm (t : Batch α) : t.found.Subperm t.items :=
  t.pushed.subperm.trans (List.filter_sublist.map _).subperm

/-- The answers so far were those of `ok`. -/
def Told (ok : α → Bool) (t : Batch α) : Prop :=
  ∀ f ∈ t.futures, f.2 ≠ .trying → (ok f.1 = false ↔ f.2 = .failed)

theorem told_start : Told ok (.start xs) := by
  intro f hf hne
  obtain ⟨x, _, rfl⟩ := List.mem_map.mp hf
  exact absurd rfl hne

theorem Told.moved (ht : Told ok t) (hm : Advanced t m t')
    (hok : ∀ i ok', m = .answer i ok' → ok' = ok) : Told ok t' := by
  intro f hf hne
  cases hm with
  | @answer i ok' x h =>
      obtain rfl := hok i ok' rfl
      rcases List.mem_or_eq_of_mem_set hf with hold | rfl
      · exact ht f hold hne
      · dsimp only
        cases ok' x <;> simp
  | @push i x h =>
      rcases List.mem_or_eq_of_mem_set hf with hold | rfl
      · exact ht f hold hne
      · -- it had succeeded, so the answer was good
        have hgood := ht _ (List.mem_of_getElem? h) Stage.noConfusion
        dsimp only at hgood ⊢
        rw [hgood]
        decide

/-- **A task finds what answers**: every such item, as often as it is there, and no other. -/
theorem Told.found (ht : Told ok t) (hj : t.joined = true) : t.found.Perm (t.items.filter ok) := by
  refine t.pushed.trans (List.Perm.of_eq ?_)
  unfold itemsAt Batch.items
  rw [List.filter_map]
  congr 1
  refine List.filter_congr fun f hf => ?_
  have hdone : f.2 = .failed ∨ f.2 = .pushed := by simpa using List.all_eq_true.mp hj f hf
  rcases hdone with hfail | hpush
  · have hbad := (ht f hf (by rw [hfail]; decide)).mpr hfail
    simp [hfail, hbad]
  · have hgood := ht f hf (by rw [hpush]; decide)
    simp_all

/-! ## Every selection, in every order -/

theorem mem_itemsAt {p : Stage} {futures : List (α × Stage)} {x : α}
    (h : x ∈ itemsAt p futures) : ∃ i : Nat, futures[i]? = some (x, p) := by
  obtain ⟨⟨y, q⟩, hmem, rfl⟩ := List.mem_map.mp h
  obtain ⟨hmem', hq⟩ := List.mem_filter.mp hmem
  obtain rfl : q = p := of_decide_eq_true hq
  exact List.mem_iff_getElem?.mp hmem'

/-- Futures that still try can push their items in any order. -/
theorem push_any (hrs : rs.Subperm (itemsAt .trying t.futures))
    (hno : itemsAt .succeeded t.futures = []) :
    ∃ h t', Run step t h t' ∧ t'.found = t.found ++ rs ∧ t'.items = t.items
      ∧ itemsAt .succeeded t'.futures = [] := by
  induction rs generalizing t with
  | nil => exact ⟨[], t, Run.nil, (List.append_nil _).symm, rfl, hno⟩
  | cons x rs ih =>
      obtain ⟨i, hi⟩ := mem_itemsAt (hrs.subset List.mem_cons_self)
      -- the future gets an answer, and then the lock
      have hfst : Advanced t (.answer i fun _ => true) _ := .answer hi
      have hi' : (t.answered i x true hi).futures[i]? = some (x, .succeeded) := by
        obtain ⟨hlt, _⟩ := List.getElem?_eq_some_iff.mp hi
        exact List.getElem?_set_self hlt
      have hsnd := Advanced.push hi'
      have htrying : (itemsAt .trying t.futures).Perm
          (x :: itemsAt .trying ((t.answered i x true hi).push i x hi').futures) :=
        (itemsAt_left hi (by decide)).trans
          ((itemsAt_other hi' (by decide) (by decide)).symm.cons x)
      have hrest : rs.Subperm (itemsAt .trying ((t.answered i x true hi).push i x hi').futures) :=
        (List.subperm_cons x).mp (htrying.subperm_left.mp hrs)
      have hno' : itemsAt .succeeded ((t.answered i x true hi).push i x hi').futures = [] := by
        have hone := (itemsAt_left hi' (q := .pushed) (by decide)).symm.trans
          (itemsAt_entered (q := .succeeded) hi (by decide))
        rw [hno] at hone
        exact List.perm_nil.mp ((List.perm_cons x).mp hone)
      obtain ⟨h, t', hr, hfound, hitems, hdone⟩ := ih hrest hno'
      have htwo := (Run.nil.snoc (step_iff.mpr hfst)).snoc (step_iff.mpr hsnd)
      refine ⟨_, t', htwo.trans hr, ?_, ?_, hdone⟩
      · rw [hfound]
        exact List.append_assoc ..
      · rw [hitems, hsnd.items, hfst.items]

/-- Futures that still try can all fail. -/
theorem fail_all (hno : itemsAt .succeeded t.futures = []) :
    ∃ h t', Run step t h t' ∧ t'.joined = true ∧ t'.found = t.found ∧ t'.items = t.items := by
  generalize hn : (itemsAt .trying t.futures).length = n
  induction n generalizing t with
  | zero =>
      refine ⟨[], t, Run.nil, ?_, rfl, rfl⟩
      have hnil := List.eq_nil_of_length_eq_zero hn
      refine List.all_eq_true.mpr fun f hf => ?_
      have hat : ∀ p, itemsAt p t.futures = [] → f.2 ≠ p := by
        intro p hp heq
        have hmem : f.1 ∈ itemsAt p t.futures :=
          List.mem_map.mpr ⟨f, List.mem_filter.mpr ⟨hf, decide_eq_true heq⟩, rfl⟩
        rw [hp] at hmem
        cases hmem
      have htrying := hat _ hnil
      have hsucceeded := hat _ hno
      cases hf2 : f.2 with
      | trying => exact absurd hf2 htrying
      | succeeded => exact absurd hf2 hsucceeded
      | failed => rfl
      | pushed => rfl
  | succ n ih =>
      obtain ⟨x, l, hx⟩ := List.exists_cons_of_length_eq_add_one hn
      obtain ⟨i, hi⟩ := mem_itemsAt (hx ▸ List.mem_cons_self : x ∈ itemsAt .trying t.futures)
      have hmoved : Advanced t (.answer i fun _ => false) _ := .answer hi
      have hlen : (itemsAt .trying (t.answered i x false hi).futures).length = n := by
        have hleft := (itemsAt_left hi (q := .failed) (by decide)).length_eq
        rw [hn, List.length_cons] at hleft
        exact (Nat.succ.inj hleft).symm
      have hno' : itemsAt .succeeded (t.answered i x false hi).futures = [] := by
        have hother := itemsAt_other hi (q := .failed) (r := .succeeded) (by decide) (by decide)
        rw [hno] at hother
        exact List.perm_nil.mp hother
      obtain ⟨h, t', hr, hj, hfound, hitems⟩ := ih hno' hlen
      refine ⟨_, t', (Run.nil.snoc (step_iff.mpr hmoved)).trans hr, hj, hfound, ?_⟩
      rw [hitems, hmoved.items]

/-- **What a task finds is any selection of its items, in any order**, and nothing else. -/
theorem found_iff : (∃ h t, Run step (.start xs) h t ∧ t.joined = true ∧ t.found = rs
    ∧ t.items = xs) ↔ rs.Subperm xs := by
  constructor
  · rintro ⟨h, t, _, _, rfl, hitems⟩
    exact hitems ▸ t.found_subperm
  · intro hsub
    have hsub' : rs.Subperm (itemsAt .trying (Batch.start xs).futures) :=
      (itemsAt_trying .trying xs).symm ▸ hsub
    obtain ⟨h, t, hr, hfound, hitems, hno⟩ := push_any hsub' (itemsAt_trying .succeeded xs)
    obtain ⟨h', t', hr', hj, hfound', hitems'⟩ := fail_all hno
    exact ⟨h ++ h', t', hr.trans hr', hj, hfound'.trans hfound,
      hitems'.trans (hitems.trans items_start)⟩

end Gather
