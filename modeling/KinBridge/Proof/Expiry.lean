import KinBridge.Proof.Pairing

/-!
# Whose stream a timer removes

A task that found nobody leaves its stream in `PEERS`, sleeps for thirty seconds and then
removes what is under its uuid. If somebody has taken the stream in the meantime, nothing of
the task's own is there any more, and the removal finds nothing, or the stream of a third
connection that has come with the same uuid since. That stream goes before its time.
-/

namespace KinBridge.Hbbr

open KinBridge Runs Slots

variable {key : String} {s s' : State} {h : List (Occ State Event Out)}

/-- The stream of `c` was left under `u` at this time. -/
def LeftAt (h : List (Occ State Event Out)) (u : String) (c : ConnId) (t : Instant) : Prop :=
  ∃ o ∈ h, Leaves o c ∧ o.ev.now = t ∧ o.post.peers u = some c

/-- The ways in which the stream `c` may leave `PEERS`. -/
inductive Removal (h : List (Occ State Event Out)) (o : Occ State Event Out) (u : String)
    (c : ConnId) : Prop where
  | paired : o.out = .paired c → Removal h o u c
  | replaced : o.ev.act = .insert → o.post.peers u = some o.ev.conn → Removal h o u c
  | expired {t : Instant} : o.ev.act = .expire → o.ev.conn = c → LeftAt h u c t →
      t + ofSecs 30 ≤ o.ev.now → Removal h o u c

/-- No stream leaves `PEERS` in another way, and no timer removes another connection's. -/
structure WaitHonoured (h : List (Occ State Event Out)) : Prop where
  removal : ∀ o ∈ h, ∀ u c, o.pre.peers u = some c → o.post.peers u = some c ∨ Removal h o u c
  timer : ∀ o ∈ h, o.ev.act = .expire → ∀ u c, o.pre.peers u = some c → c ≠ o.ev.conn →
    o.post.peers u = some c

/-- When the timer of a task ends, nobody else's stream is under its uuid. -/
def ExpiresAlone (s : State) (e : Event) : Prop :=
  e.act = .expire → ∀ rf since, s.pc e.conn = some (.sleeping rf since) →
    ∀ c, s.peers rf.uuid = some c → c = e.conn

/-- When a stream is left under a uuid, no timer for that uuid is running. -/
def LeavesFresh (s : State) (e : Event) : Prop :=
  e.act = .insert → ∀ rf, s.pc e.conn = some (.insert rf) → ∀ c, ¬ Waits s rf.uuid c

/-! ## Timers know when their streams were left -/

theorem LeftAt.mono {g : List (Occ State Event Out)} {u : String} {c : ConnId} {t : Instant}
    (hl : LeftAt h u c t) : LeftAt (h ++ g) u c t := by
  obtain ⟨o, ho, hrest⟩ := hl
  exact ⟨o, List.mem_append_left g ho, hrest⟩

theorem leftAt_run (hr : Run (makePair key) .start h s) :
    ∀ c rf since, s.pc c = some (.sleeping rf since) → LeftAt h rf.uuid c since := by
  refine Run.inv (I := fun h s => ∀ c rf since, s.pc c = some (.sleeping rf since) →
    LeftAt h rf.uuid c since) nofun ?_ hr
  intro h s e s' o ih hst c rf since hc
  obtain ⟨_, _, hstep⟩ := makePair_step hst
  cases hstep with
  | accept _ _ hput =>
      rcases pc_put_cases hput hc with ⟨_, hpc⟩ | ⟨_, hold⟩
      · cases hpc
      · exact (ih c rf since hold).mono
  | @move pc pc' hpc hmove hput =>
      rcases pc_put_cases hput hc with ⟨rfl, rfl⟩ | ⟨_, hold⟩
      · generalize hact : e.act = act at hmove
        generalize hpeers : s'.peers = peers at hmove
        cases hmove with
        | insert =>
            refine ⟨_, List.mem_append_right _ (List.mem_singleton_self _), ⟨rfl, hact⟩, rfl, ?_⟩
            rw [hpeers]
            exact put_self ..
      · exact (ih c rf since hold).mono

/-! ## One step -/

/-- A step that meets the condition removes a stream in one of the three ways only. -/
theorem removal_step {o : Occ State Event Out} (hr : Run (makePair key) .start h o.pre)
    (hst : makePair key o.pre o.ev = some (o.post, o.out)) (halone : ExpiresAlone o.pre o.ev)
    {u : String} {c : ConnId} (hc : o.pre.peers u = some c) :
    o.post.peers u = some c ∨ Removal h o u c := by
  obtain ⟨_, _, hstep⟩ := makePair_step hst
  cases hstep with
  | accept _ _ _ hmap => exact .inl (hmap ▸ hc)
  | @move pc pc' hpc hmove hput =>
      generalize hpeers : o.post.peers = peers at hmove
      generalize hact : o.ev.act = act at hmove
      generalize hout : o.out = out at hmove
      cases hmove with
      | @found rf peer hfound =>
          by_cases hu : u = rf.uuid
          · subst hu
            obtain rfl := Option.some.inj (hc.symm.trans hfound)
            exact .inr (.paired hout)
          · exact .inl ((free_ne hu).trans hc)
      | @insert rf =>
          by_cases hu : u = rf.uuid
          · subst hu
            refine .inr (.replaced hact ?_)
            rw [hpeers]
            exact put_self ..
          · exact .inl ((put_ne hu).trans hc)
      | @expire rf since hle =>
          by_cases hu : u = rf.uuid
          · subst hu
            obtain rfl := halone hact rf since hpc c hc
            exact .inr (.expired hact rfl (leftAt_run hr _ rf since hpc) hle)
          · exact .inl ((free_ne hu).trans hc)
      | _ => exact .inl hc

/-- A timer empties its uuid, whoever is there. -/
theorem expire_frees {o : Occ State Event Out}
    (hst : makePair key o.pre o.ev = some (o.post, o.out)) (hact : o.ev.act = .expire)
    {rf : RequestRelay} {since : Instant} (hpc : o.pre.pc o.ev.conn = some (.sleeping rf since)) :
    o.post.peers = free o.pre.peers rf.uuid ∧ o.out = .silent := by
  obtain ⟨_, _, hstep⟩ := makePair_step hst
  cases hstep with
  | accept hacc => rw [hact] at hacc; cases hacc
  | @move pc pc' hpc' hmove hput =>
      obtain rfl := Option.some.inj (hpc.symm.trans hpc')
      rw [hact] at hmove
      generalize o.post.peers = peers at hmove ⊢
      generalize o.out = out at hmove ⊢
      cases hmove with
      | expire => exact ⟨rfl, rfl⟩

/-- Only a sleeping task has a timer that ends. -/
theorem sleeping_of_expire {o : Occ State Event Out}
    (hst : makePair key o.pre o.ev = some (o.post, o.out)) (hact : o.ev.act = .expire) :
    ∃ rf since, o.pre.pc o.ev.conn = some (.sleeping rf since) := by
  obtain ⟨_, _, hstep⟩ := makePair_step hst
  cases hstep with
  | accept hacc => rw [hact] at hacc; cases hacc
  | @move pc pc' hpc hmove hput =>
      rw [hact] at hmove
      generalize o.post.peers = peers at hmove
      generalize o.out = out at hmove
      cases hmove with
      | expire => exact ⟨_, _, hpc⟩

/-! ## Over runs -/

theorem waitHonoured_of_alone (hr : Run (makePair key) .start h s)
    (halone : ∀ o ∈ h, ExpiresAlone o.pre o.ev) : WaitHonoured h := by
  constructor
  case removal =>
    intro o ho u c hc
    obtain ⟨h₁, h₂, rfl, hr₁, hst, _⟩ := hr.mem ho
    rcases removal_step hr₁ hst (halone o ho) hc with hstays | hpaired | ⟨hact, hpost⟩ |
        ⟨hact, hconn, hleft, hle⟩
    · exact .inl hstays
    · exact .inr (.paired hpaired)
    · exact .inr (.replaced hact hpost)
    · exact .inr (.expired hact hconn hleft.mono hle)
  case timer =>
    intro o ho hact u c hc hne
    obtain ⟨_, _, _, _, hst, _⟩ := hr.mem ho
    obtain ⟨rf, since, hpc⟩ := sleeping_of_expire hst hact
    rw [(expire_frees hst hact hpc).1]
    by_cases hu : u = rf.uuid
    · subst hu
      exact absurd (halone o ho hact rf since hpc c hc) hne
    · rw [free_ne hu]
      exact hc

theorem alone_of_waitHonoured (hr : Run (makePair key) .start h s) (hw : WaitHonoured h) :
    ∀ o ∈ h, ExpiresAlone o.pre o.ev := by
  intro o ho hact rf since hpc c hc
  obtain ⟨_, _, _, _, hst, _⟩ := hr.mem ho
  by_contra hne
  have hkept := hw.timer o ho hact rf.uuid c hc hne
  rw [(expire_frees hst hact hpc).1, free_self] at hkept
  cases hkept

/-- Where no uuid is used again while a timer for it runs, what is under the uuid of a sleeping
task is its own stream. -/
theorem alone_of_fresh (hr : Run (makePair key) .start h s)
    (hfresh : ∀ o ∈ h, LeavesFresh o.pre o.ev) :
    ∀ u c c', Waits s u c → s.peers u = some c' → c' = c := by
  refine Run.inv_of (C := LeavesFresh)
    (I := fun _ s => ∀ u c c', Waits s u c → s.peers u = some c' → c' = c) ?_ ?_ hr hfresh
  · intro u c c' _ hc'
    cases hc'
  intro _ s e s' o ih hfresh hst u c c' hw hc'
  obtain ⟨rf, since, hpc', rfl⟩ := hw
  obtain ⟨_, _, hstep⟩ := makePair_step hst
  cases hstep with
  | accept _ _ hput hmap =>
      rcases pc_put_cases hput hpc' with ⟨_, hrecv⟩ | ⟨_, hold⟩
      · cases hrecv
      · exact ih _ c c' ⟨rf, since, hold, rfl⟩ (hmap ▸ hc')
  | @move pc pc' hpc hmove hput =>
      rcases pc_put_cases hput hpc' with ⟨rfl, rfl⟩ | ⟨hne, hold⟩
      · -- the task that moves begins to sleep, so it has just left its own stream
        generalize s'.peers = peers at hmove hc'
        generalize e.act = act at hmove
        cases hmove with
        | insert =>
            rw [put_self] at hc'
            exact (Option.some.inj hc').symm
      · have hwait : Waits s rf.uuid c := ⟨rf, since, hold, rfl⟩
        generalize s'.peers = peers at hmove hc'
        generalize hact : e.act = act at hmove
        cases hmove with
        | found => exact ih _ c c' hwait (free_eq_some.mp hc').2
        | expire => exact ih _ c c' hwait (free_eq_some.mp hc').2
        | insert =>
            rcases put_eq_some.mp hc' with ⟨hu, _⟩ | ⟨_, hc'⟩
            · exact absurd (hu ▸ hwait) (hfresh hact _ hpc c)
            · exact ih _ c c' hwait hc'
        | _ => exact ih _ c c' hwait hc'

/--
**Waiting time is honoured exactly if every timer that ends finds its own stream or none.**
That is so in particular when no stream is left under a uuid while a timer for it runs.
-/
theorem wait_honoured_iff (hr : Run (makePair key) .start h s) :
    (WaitHonoured h ↔ ∀ o ∈ h, ExpiresAlone o.pre o.ev)
      ∧ ((∀ o ∈ h, LeavesFresh o.pre o.ev) → WaitHonoured h) := by
  refine ⟨⟨alone_of_waitHonoured hr, waitHonoured_of_alone hr⟩, ?_⟩
  intro hfresh
  refine waitHonoured_of_alone hr ?_
  intro o ho _ rf since hpc c hc
  obtain ⟨h₁, h₂, rfl, hr₁, _, _⟩ := hr.mem ho
  have hfresh₁ : ∀ x ∈ h₁, LeavesFresh x.pre x.ev := fun x hx =>
    hfresh x (List.mem_append_left _ hx)
  exact alone_of_fresh hr₁ hfresh₁ rf.uuid o.ev.conn c ⟨rf, since, hpc, rfl⟩ hc

/-! ### On three connections -/

/-- If a timer ends in this step, its uuid is empty. -/
def endsEmpty (o : Occ State Event Out) : Bool :=
  o.ev.act ≠ .expire || match o.pre.pc o.ev.conn with
    | some (.sleeping rf _) => o.pre.peers rf.uuid = none
    | _ => true

theorem expiresAlone_of_endsEmpty {o : Occ State Event Out} (hcheck : endsEmpty o = true) :
    ExpiresAlone o.pre o.ev := by
  intro hact rf since hpc c hc
  simp [endsEmpty, hact, hpc, hc] at hcheck

/-- A pair that has found each other, and the first one's timer. -/
def timerTrace : List Event := pairTrace ++ [⟨ofSecs 30, 0, .expire⟩]

theorem wait_honoured_two :
    ∃ h s, Run (makePair "secret") .start h s ∧ h.map Occ.ev = timerTrace ∧ WaitHonoured h := by
  obtain ⟨h, s, hr, hev, hp⟩ := @exists_run _ _ _ (makePair "secret") .start timerTrace
    (fun h _ => h.all endsEmpty) (by decide)
  refine ⟨h, s, hr, hev, (wait_honoured_iff hr).1.mpr ?_⟩
  intro o ho
  exact expiresAlone_of_endsEmpty (List.all_eq_true.mp hp o ho)

/-- A third connection leaves its stream under the same uuid twenty seconds later. -/
def reuseTrace : List Event :=
  pairTrace ++ [⟨ofSecs 20, 2, .accept .unspecified⟩, ⟨ofSecs 20, 2, askU⟩,
    ⟨ofSecs 20, 2, .lookup⟩, ⟨ofSecs 20, 2, .insert⟩, ⟨ofSecs 30, 0, .expire⟩]

/-- The timer of the first connection ends while the third one's stream waits. -/
def endsOther (o : Occ State Event Out) : Bool :=
  o.ev = ⟨ofSecs 30, 0, .expire⟩ && o.pre.peers "u" = some 2 && o.post.peers "u" = none

/-- **Ten seconds instead of thirty**: the stream left at twenty seconds is removed at thirty, by
the timer of a connection that has long been paired. -/
theorem wait_cut_short : ¬ ∀ h s, Run (makePair "secret") .start h s → WaitHonoured h := by
  intro hall
  obtain ⟨h, s, hr, _, hp⟩ := @exists_run _ _ _ (makePair "secret") .start reuseTrace
    (fun h _ => h.any endsOther) (by decide)
  obtain ⟨o, ho, hends⟩ := List.any_eq_true.mp hp
  simp only [endsOther, Bool.and_eq_true, decide_eq_true_eq] at hends
  obtain ⟨⟨hev, hpre⟩, hpost⟩ := hends
  have hkept := (hall h s hr).timer o ho (by rw [hev]) "u" 2 hpre (by rw [hev]; decide)
  rw [hpost] at hkept
  cases hkept

end KinBridge.Hbbr
