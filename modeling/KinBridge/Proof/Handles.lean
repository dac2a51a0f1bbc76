import KinBridge.Hbbs.Server
import KinBridge.Store.Handles

/-!
# One record per id

Whoever asks for an id should be given the same record, or an update made through one
`LockPeer` is lost to everybody who holds another.

`get` looks in the map, lets go of it, reads the row, and then writes the map without
looking again. Between its look and its write another lookup may have put a record there,
and the main loop may have updated it. `handle_unique_iff` says that this is the only way:
the records stay unique exactly if no map write finds its id taken.
-/

namespace KinBridge.Handles

open KinBridge Runs Slots

variable {J : InfoJson} {db : Table} {s : Sys} {h : List (Occ Sys Event Out)}

/-- Some lookup of `id` was handed `r`. -/
def Returned (h : List (Occ Sys Event Out)) (id : String) (r : LockPeer) : Prop :=
  ∃ o ∈ h, o.out = .returned id r

theorem Returned.mono {g : List (Occ Sys Event Out)} {id : String} {r : LockPeer}
    (hr : Returned h id r) : Returned (h ++ g) id r := by
  obtain ⟨o, ho, hout⟩ := hr
  exact ⟨o, List.mem_append_left g ho, hout⟩

theorem returned_snoc {o : Occ Sys Event Out} {id : String} {r : LockPeer} :
    Returned (h ++ [o]) id r ↔ Returned h id r ∨ o.out = .returned id r := by
  simp [Returned, or_and_right, exists_or]

/-- All lookups of an id are handed one record, and a completed `update_pk` stays: its
record is still the one in the map, with what was written until the next `update_pk`. -/
def HandleUnique (h : List (Occ Sys Event Out)) (s : Sys) : Prop :=
  (∀ id r r', Returned h id r → Returned h id r' → r = r') ∧
    ∀ h₁ o h₂ id r, h = h₁ ++ o :: h₂ → o.out = .completed id r →
      s.shared.map id = some r
        ∧ ((∀ x ∈ h₂, ¬ Writes x.pre r x.ev) → s.shared.heap r = o.post.shared.heap r)

/-- Every map write of the run finds nothing under its id. -/
def NoOverwrite (h : List (Occ Sys Event Out)) : Prop :=
  ∀ o ∈ h, ∀ id, Inserts o.pre id o.ev → o.pre.shared.map id = none

/-! ## What holds in every run -/

/-- Whatever is in the map or in hand was handed out, and records are numbered in order. -/
structure HandleInv (h : List (Occ Sys Event Out)) (s : Sys) : Prop where
  map : ∀ id r, s.shared.map id = some r → Returned h id r
  main : ∀ id r, s.main.holds = some (id, r) → Returned h id r
  fresh : ∀ id r, Returned h id r → r < s.shared.next

theorem handleInv_step {o : Occ Sys Event Out} (hi : HandleInv h o.pre)
    (hst : handles J o.pre o.ev = some (o.post, o.out)) : HandleInv (h ++ [o]) o.post := by
  have heff := handles_effect hst
  refine ⟨?_, ?_, ?_⟩
  · intro id r hr
    cases heff.map with
    | kept hmap =>
        rw [hmap] at hr
        exact (hi.map id r hr).mono
    | inserted _ hmap _ hout =>
        rw [hmap] at hr
        rcases put_eq_some.mp hr with ⟨rfl, rfl⟩ | ⟨_, hr⟩
        · exact returned_snoc.mpr (.inr hout)
        · exact (hi.map id r hr).mono
  · intro id r hm
    rw [returned_snoc]
    exact (heff.holds id r hm).imp_left (hi.main id r)
  · intro id r hret
    rcases returned_snoc.mp hret with hret | hout
    · exact Nat.lt_of_lt_of_le (hi.fresh id r hret) heff.map.next_le
    · cases heff.map with
      | kept _ hnext hsame =>
          rw [hnext]
          exact hi.fresh id r (hi.map id r (hsame id r hout))
      | inserted _ _ hnext hout' =>
          obtain ⟨_, rfl⟩ := Out.returned.inj (hout.symm.trans hout')
          rw [hnext]
          exact Nat.lt_succ_self _

theorem handleInv_run (hr : Run (handles J) (Sys.start db) h s) : HandleInv h s := by
  refine Run.inv ?_ (fun h s e s' o hi hst => handleInv_step (o := ⟨s, e, o, s'⟩) hi hst) hr
  exact ⟨nofun, nofun, fun id r ⟨_, ho, _⟩ => absurd ho List.not_mem_nil⟩

/-- In every reachable state the map can be read as one of records, so `get_alone` and
`update_alone` apply. -/
theorem tidy_run (hr : Run (handles J) (Sys.start db) h s) : Tidy s.shared := by
  refine hr.keeps (Q := fun s => Tidy s.shared) ?_ ⟨nofun, nofun⟩
  intro s e s' o ht hst
  have heff := handles_effect hst
  cases heff.map with
  | kept hmap hnext => exact ⟨by rw [hmap, hnext]; exact ht.lt, by rw [hmap]; exact ht.inj⟩
  | @inserted id _ hmap hnext =>
      -- the new record is under one id, and all the others are older
      have hold : ∀ x r, x ≠ id → s'.shared.map x = some r → s.shared.map x = some r := by
        intro x r hx hr
        rw [hmap, put_ne hx] at hr
        exact hr
      have hnew : ∀ r, s'.shared.map id = some r → r = s.shared.next := by
        intro r hr
        rw [hmap, put_self] at hr
        exact (Option.some.inj hr).symm
      constructor
      · intro x r hr
        rw [hnext]
        by_cases hx : x = id
        · rw [hnew r (hx ▸ hr)]
          exact Nat.lt_succ_self _
        · exact Nat.lt_succ_of_lt (ht.lt x r (hold x r hx hr))
      · intro x y r hxr hyr
        by_cases hx : x = id <;> by_cases hy : y = id
        · rw [hx, hy]
        · have hlt := ht.lt y r (hold y r hy hyr)
          rw [hnew r (hx ▸ hxr)] at hlt
          exact absurd hlt (Nat.lt_irrefl _)
        · have hlt := ht.lt x r (hold x r hx hxr)
          rw [hnew r (hy ▸ hyr)] at hlt
          exact absurd hlt (Nat.lt_irrefl _)
        · exact ht.inj x y r (hold x r hx hxr) (hold y r hy hyr)

/-! ## Without overwriting -/

/-- A record that was handed out stays in the map. -/
theorem returned_stays (hr : Run (handles J) (Sys.start db) h s) (hno : NoOverwrite h) :
    ∀ id r, Returned h id r → s.shared.map id = some r := by
  refine Run.inv_of (C := fun s e => ∀ id, Inserts s id e → s.shared.map id = none)
    (I := fun h s => ∀ id r, Returned h id r → s.shared.map id = some r) ?_ ?_ hr hno
  · exact fun id r ⟨_, ho, _⟩ => absurd ho List.not_mem_nil
  · intro h s e s' o ih hnone hst id r hret
    have heff := handles_effect hst
    cases heff.map with
    | kept hmap _ hsame =>
        rw [hmap]
        exact (returned_snoc.mp hret).elim (ih id r) (hsame id r)
    | @inserted id' hins hmap _ hout =>
        rw [hmap]
        rcases returned_snoc.mp hret with hret | hret
        · -- the id of an older record is taken, so it is not the one written
          have hne : id ≠ id' := by
            intro heq
            subst heq
            exact Option.some_ne_none r ((ih id r hret).symm.trans (hnone id hins))
          exact (put_ne hne).trans (ih id r hret)
        · obtain ⟨rfl, rfl⟩ := Out.returned.inj (hret.symm.trans hout)
          exact put_self ..

/-- A record that nobody updates stays what it is. -/
theorem heap_stays {s₀ : Sys} {r : LockPeer} (hr : Run (handles J) s₀ h s)
    (hlt : r < s₀.shared.next) (hno : ∀ x ∈ h, ¬ Writes x.pre r x.ev) :
    s.shared.heap r = s₀.shared.heap r := by
  refine (Run.inv_of (C := fun s e => ¬ Writes s r e)
    (I := fun _ s => r < s.shared.next ∧ s.shared.heap r = s₀.shared.heap r)
    ⟨hlt, rfl⟩ ?_ hr hno).2
  intro _ s e s' o ⟨hlt, hheap⟩ hw hst
  have heff := handles_effect hst
  exact ⟨Nat.lt_of_lt_of_le hlt heff.map.next_le, (heff.heap r hlt hw).trans hheap⟩

/--
**Handles stay unique exactly if no map write finds its id taken**, over every
interleaving of any number of lookups with the main loop.
-/
theorem handle_unique_iff (hr : Run (handles J) (Sys.start db) h s) :
    HandleUnique h s ↔ NoOverwrite h := by
  constructor
  · intro hboth o ho id hins
    obtain ⟨huniq, _⟩ := hboth
    obtain ⟨h₁, h₂, rfl, hr₁, hst, _⟩ := hr.mem ho
    have hi := handleInv_run hr₁
    cases hm : o.pre.shared.map id with
    | none => rfl
    | some r =>
        have hret := hi.map id r hm
        -- the record written is a new one, and it is handed out too
        have hnew : Returned (h₁ ++ o :: h₂) id o.pre.shared.next := ⟨o, ho, inserts_out hst hins⟩
        have heq := huniq id r _ hret.mono hnew
        exact absurd heq (Nat.ne_of_lt (hi.fresh id r hret))
  · intro hno
    have hstays := returned_stays hr hno
    refine ⟨?_, ?_⟩
    · intro id r r' hret hret'
      exact Option.some.inj ((hstays id r hret).symm.trans (hstays id r' hret'))
    · intro h₁ o h₂ id r heq hout
      subst heq
      obtain ⟨hr₁, hst, hr₂⟩ := hr.at
      have hi := handleInv_run hr₁
      have hheld := (handles_effect hst).completed id r hout
      have hret := hi.main id r hheld
      refine ⟨hstays id r hret.mono, heap_stays hr₂ ?_⟩
      exact (handleInv_run (Run.snoc hr₁ hst)).fresh id r hret.mono

/-! ## Two runs -/

/-- The id under which a step writes the map. -/
def insertsAt (s : Sys) : Event → Option String
  | .task t _ =>
    match s.tasks t with
    | some (id, .mapWrite _) => some id
    | _ => none
  | .main _ _ =>
    match s.main with
    | .get id (.mapWrite _) => some id
    | .orInsert id => if s.shared.map id = none then some id else none
    | _ => none
  | _ => none

theorem insertsAt_eq_some {s : Sys} {e : Event} {id : String} (h : Inserts s id e) :
    insertsAt s e = some id := by
  cases e with
  | task t now =>
      obtain ⟨v, htask⟩ := h
      simp only [insertsAt, htask]
  | main now guid =>
      rcases h with ⟨v, hmain⟩ | ⟨hmain, hnone⟩
      · simp only [insertsAt, hmain]
      · simp only [insertsAt, hmain]
        exact if_pos hnone
  | _ => cases h

theorem noOverwrite_of_insertsAt
    (hall : ∀ o ∈ h, ∀ id ∈ insertsAt o.pre o.ev, o.pre.shared.map id = none) : NoOverwrite h :=
  fun o ho id hins => hall o ho id (insertsAt_eq_some hins)

/-- A table with one row. -/
def oneRow : Table := (Table.empty.insertPeer (Io.sample 0 1).guid "peer-1" [1] [2] "").getD .empty

/-- A task loads the record, the main loop finds it and updates it, and a second task finds it. -/
def sharedTrace : List Event :=
  [.spawn 0 "peer-1", .task 0 0, .task 0 0, .task 0 0,
   .getOr "peer-1", .main 1 (Io.sample 0 1).guid,
   .update 1 .unspecified [1] [9] "0.0.0.0", .main 1 (Io.sample 0 1).guid,
   .spawn 1 "peer-1", .task 1 2]

theorem handle_unique_first :
    ∃ h s, Run (handles Ext.sample.toInfoJson) (Sys.start oneRow) h s
      ∧ h.map Occ.ev = sharedTrace
      ∧ (h.map Occ.out).filter (· ≠ .silent) = [.returned "peer-1" 0, .returned "peer-1" 0,
        .completed "peer-1" 0, .returned "peer-1" 0]
      ∧ (s.shared.heap 0).pk = [9] ∧ HandleUnique h s := by
  obtain ⟨h, s, hr, hev, hp⟩ := @exists_run _ _ _ (handles Ext.sample.toInfoJson)
    (Sys.start oneRow) sharedTrace
    (fun h s => decide ((h.map Occ.out).filter (· ≠ .silent) = [.returned "peer-1" 0,
        .returned "peer-1" 0, .completed "peer-1" 0, .returned "peer-1" 0])
      && decide ((s.shared.heap 0).pk = [9])
      && decide (∀ o ∈ h, ∀ id ∈ insertsAt o.pre o.ev, o.pre.shared.map id = none)) (by decide)
  simp only [Bool.and_eq_true, decide_eq_true_eq] at hp
  obtain ⟨⟨hout, hpk⟩, hfree⟩ := hp
  exact ⟨h, s, hr, hev, hout, hpk,
    (handle_unique_iff hr).mpr (noOverwrite_of_insertsAt hfree)⟩

/-- A task reads the row and is suspended; the main loop loads, updates and persists the
record; the task goes on. -/
def lostUpdateTrace : List Event :=
  [.spawn 0 "peer-1", .task 0 0, .task 0 0,
   .getOr "peer-1", .main 1 (Io.sample 0 1).guid, .main 1 (Io.sample 0 1).guid,
   .main 1 (Io.sample 0 1).guid,
   .update 1 .unspecified [1] [9] "0.0.0.0", .main 1 (Io.sample 0 1).guid,
   .task 0 2]

/-- **A completed update lost**: another record, built from the row as it was, takes its
place in the map. -/
theorem handle_overwritten :
    ¬ ∀ db h s, Run (handles Ext.sample.toInfoJson) (Sys.start db) h s → HandleUnique h s := by
  intro hall
  obtain ⟨h, s, hr, _, hp⟩ := @exists_run _ _ _ (handles Ext.sample.toInfoJson) (Sys.start oneRow)
    lostUpdateTrace
    (fun h s => h.any (fun o => o.out = .completed "peer-1" 0) && s.shared.map "peer-1" = some 1)
    (by decide)
  obtain ⟨hdone, hmap⟩ := Bool.and_eq_true_iff.mp hp
  obtain ⟨o, ho, hout⟩ := List.any_eq_true.mp hdone
  obtain ⟨h₁, h₂, rfl⟩ := List.append_of_mem ho
  have hkept := ((hall _ _ _ hr).2 h₁ o h₂ "peer-1" 0 rfl (decide_eq_true_iff.mp hout)).1
  rw [decide_eq_true_iff.mp hmap] at hkept
  exact absurd (Option.some.inj hkept) (by decide)

end KinBridge.Handles
