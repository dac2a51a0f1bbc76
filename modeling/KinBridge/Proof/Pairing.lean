import KinBridge.Hbbr.Pair

/-!
# Who relays with whom

Two results about `PEERS`.

Safety holds in every run: a stream is in one place at a time, so it is relayed at most
once, never with itself, and only with a stream that asked for the same uuid. It needs no
more than that a stream waits only under its own uuid while its task sleeps.

That two tasks with one uuid find each other does not hold in every run. A task looks for
its partner and leaves its own stream under two separate locks. If both look before either
has left anything, both wait.
-/

namespace KinBridge.Hbbr

open KinBridge Runs Slots

variable {key : String} {s s' : State} {h : List (Occ State Event Out)}

/-! ## Relays -/

/-- The relays of a run, each as the task that runs it and the stream it took from `PEERS`. -/
def pairings (h : List (Occ State Event Out)) : List (ConnId × ConnId) :=
  h.filterMap fun o =>
    match o.out with
    | .paired peer => some (o.ev.conn, peer)
    | .silent => none

/-- The streams that were ever in a relay, once for each time. -/
def relayed (h : List (Occ State Event Out)) : List ConnId :=
  (pairings h).flatMap fun p => [p.1, p.2]

/-- The stream that the task has taken to relay with. -/
def TaskPc.peer : TaskPc → Option ConnId
  | .paired _ peer | .relaying _ peer | .ended _ peer => some peer
  | _ => none

/-- The request that the task has accepted. -/
def TaskPc.rf : TaskPc → Option RequestRelay
  | .lookup rf | .insert rf | .sleeping rf _ | .paired rf _ | .relaying rf _ | .ended rf _ =>
    some rf
  | _ => none

/-- The task's stream is still its own and unused. -/
def TaskPc.owns : TaskPc → Bool
  | .recv | .lookup _ | .insert _ => true
  | _ => false

/-- The connection sent this request. -/
def Presented (h : List (Occ State Event Out)) (c : ConnId) (rf : RequestRelay) : Prop :=
  ∃ o ∈ h, o.ev.conn = c ∧ o.ev.act = .recv (some (.requestRelay rf))

/-- It has a uuid, and the server's key where there is one. -/
def Valid (key : String) (rf : RequestRelay) : Prop :=
  rf.uuid ≠ "" ∧ (key ≠ "" → rf.licenceKey = key)

structure PairingSafe (key : String) (h : List (Occ State Event Out)) (s : State) : Prop where
  /-- No stream is relayed twice, in whichever role. -/
  once : (relayed h).Nodup
  /-- A stream in `PEERS` is in no relay, past or present. -/
  apart : ∀ u c, s.peers u = some c → c ∉ relayed h
  /-- The relays going on are among those of the run. -/
  live : ∀ a pc b, s.pc a = some pc → pc.peer = some b → (a, b) ∈ pairings h
  notSelf : ∀ a b, (a, b) ∈ pairings h → a ≠ b
  /-- Both ends sent valid requests with one uuid. -/
  agree : ∀ a b, (a, b) ∈ pairings h → ∃ rf rf', Presented h a rf ∧ Presented h b rf'
    ∧ rf.uuid = rf'.uuid ∧ Valid key rf ∧ Valid key rf'

theorem accepted_some {msg : Option RendezvousMessage} {rf : RequestRelay}
    (h : accepted key msg = some rf) : msg = some (.requestRelay rf) ∧ Valid key rf := by
  unfold accepted at h
  split at h
  · split at h
    · cases h
    · split at h
      · cases h
      · rename_i hkey huuid
        obtain rfl := Option.some.inj h
        rw [not_and_not_right] at hkey
        exact ⟨rfl, huuid, hkey⟩
  · cases h

theorem Presented.mono {g : List (Occ State Event Out)} {c : ConnId} {rf : RequestRelay}
    (hp : Presented h c rf) : Presented (h ++ g) c rf := by
  obtain ⟨o, ho, hrest⟩ := hp
  exact ⟨o, List.mem_append_left g ho, hrest⟩

/-- The stream `c` waits under `u`: its task accepted that uuid and sleeps. -/
def Waits (s : State) (u : String) (c : ConnId) : Prop :=
  ∃ rf since, s.pc c = some (.sleeping rf since) ∧ rf.uuid = u

/-- What every run keeps. -/
structure PairInv (key : String) (h : List (Occ State Event Out)) (s : State) : Prop where
  once : (relayed h).Nodup
  /-- Whatever sits in `PEERS` waits there. -/
  waits : Keyed (Waits s) s.peers
  apart : ∀ u c, s.peers u = some c → c ∉ relayed h
  /-- A relayed stream is not its task's own any more. -/
  spent : ∀ c ∈ relayed h, ∃ pc, s.pc c = some pc ∧ pc.owns = false
  live : ∀ a pc b, s.pc a = some pc → pc.peer = some b → (a, b) ∈ pairings h
  asked : ∀ c pc rf, s.pc c = some pc → pc.rf = some rf → Presented h c rf ∧ Valid key rf
  agree : ∀ a b, (a, b) ∈ pairings h → ∃ rf rf', Presented h a rf ∧ Presented h b rf'
    ∧ rf.uuid = rf'.uuid ∧ Valid key rf ∧ Valid key rf'

/-- One connection's task moves. -/
theorem pc_put_cases {c x : ConnId} {pc' pc : TaskPc} (hput : s'.pc = put s.pc c pc')
    (h : s'.pc x = some pc) : (x = c ∧ pc' = pc) ∨ (x ≠ c ∧ s.pc x = some pc) := by
  rw [hput] at h
  exact put_eq_some.mp h

/-- A step that pairs nobody keeps the invariant, if the task that moves keeps its own
account straight. -/
theorem pairInv_silent {o : Occ State Event Out} {c : ConnId} {pc' : TaskPc}
    (hi : PairInv key h s) (hout : o.out = .silent) (hput : s'.pc = put s.pc c pc')
    (howns : pc'.owns = true → c ∉ relayed h)
    (hpeers : ∀ u x, s'.peers u = some x → (x ≠ c ∧ s.peers u = some x) ∨
      (x = c ∧ c ∉ relayed h ∧ ∃ rf since, pc' = .sleeping rf since ∧ rf.uuid = u))
    (hpeer : ∀ b, pc'.peer = some b → ∃ pc, s.pc c = some pc ∧ pc.peer = some b)
    (hrf : ∀ rf, pc'.rf = some rf → Presented (h ++ [o]) c rf ∧ Valid key rf) :
    PairInv key (h ++ [o]) s' := by
  have hpair : pairings (h ++ [o]) = pairings h := by
    simp [pairings, List.filterMap_append, hout]
  have hrel : relayed (h ++ [o]) = relayed h := by rw [relayed, hpair, relayed]
  constructor
  case once => exact hrel ▸ hi.once
  case waits =>
    intro u x hx
    rcases hpeers u x hx with ⟨hne, hx⟩ | ⟨rfl, _, rf, since, rfl, hu⟩
    · obtain ⟨rf, since, hpc, hu⟩ := hi.waits u x hx
      exact ⟨rf, since, by rw [hput, put_ne hne]; exact hpc, hu⟩
    · exact ⟨rf, since, by rw [hput]; exact put_self .., hu⟩
  case apart =>
    intro u x hx
    rw [hrel]
    rcases hpeers u x hx with ⟨_, hx⟩ | ⟨rfl, hno, _⟩
    · exact hi.apart u x hx
    · exact hno
  case spent =>
    intro x hx
    rw [hrel] at hx
    by_cases hc : x = c
    · subst hc
      refine ⟨pc', by rw [hput]; exact put_self .., ?_⟩
      rw [← Bool.not_eq_true]
      exact fun hown => howns hown hx
    · obtain ⟨pc, hpc, hown⟩ := hi.spent x hx
      exact ⟨pc, by rw [hput, put_ne hc]; exact hpc, hown⟩
  case live =>
    intro a pc b ha hb
    rw [hpair]
    rcases pc_put_cases hput ha with ⟨rfl, rfl⟩ | ⟨_, ha⟩
    · obtain ⟨pc, hpc, hb'⟩ := hpeer b hb
      exact hi.live a pc b hpc hb'
    · exact hi.live a pc b ha hb
  case asked =>
    intro x pc rf hx hpc
    rcases pc_put_cases hput hx with ⟨rfl, rfl⟩ | ⟨_, hx⟩
    · exact hrf rf hpc
    · exact (hi.asked x pc rf hx hpc).imp_left Presented.mono
  case agree =>
    intro a b hab
    rw [hpair] at hab
    obtain ⟨rf, rf', ha, hb, hrest⟩ := hi.agree a b hab
    exact ⟨rf, rf', ha.mono, hb.mono, hrest⟩

/-- A stream that is still its task's own is in no relay. -/
theorem PairInv.unused (hi : PairInv key h s) {c : ConnId}
    (hc : ∀ pc, s.pc c = some pc → pc.owns = true) : c ∉ relayed h := by
  intro hmem
  obtain ⟨pc, hpc, hown⟩ := hi.spent c hmem
  rw [hc pc hpc] at hown
  cases hown

/-- Only a sleeping task has its stream in `PEERS`. -/
theorem PairInv.elsewhere (hi : PairInv key h s) {c : ConnId}
    (hc : ∀ rf since, s.pc c ≠ some (.sleeping rf since)) (u : String) (x : ConnId)
    (hx : s.peers u = some x) : x ≠ c ∧ s.peers u = some x := by
  refine ⟨?_, hx⟩
  intro heq
  subst heq
  obtain ⟨rf, since, hpc, _⟩ := hi.waits u x hx
  exact hc rf since hpc

/-- A stream waits under one uuid only. -/
theorem PairInv.unique (hi : PairInv key h s) {u u' : String} {c : ConnId}
    (hu : s.peers u = some c) (hu' : s.peers u' = some c) : u = u' := by
  refine hi.waits.unique ?_ hu hu'
  intro u u' c hw hw'
  obtain ⟨rf, since, hpc, rfl⟩ := hw
  obtain ⟨rf', since', hpc', rfl⟩ := hw'
  rw [hpc] at hpc'
  obtain ⟨rfl, _⟩ := TaskPc.sleeping.inj (Option.some.inj hpc')
  rfl

/-- Once a stream is found and removed, what sits in the map is neither of the two. -/
theorem PairInv.beside_found (hi : PairInv key h s) {c peer : ConnId} {rf : RequestRelay}
    (hpc : s.pc c = some (.lookup rf)) (hfound : s.peers rf.uuid = some peer) {u : String}
    {x : ConnId} (hx : free s.peers rf.uuid u = some x) :
    x ≠ c ∧ x ≠ peer ∧ s.peers u = some x := by
  have hold := (free_eq_some.mp hx).2
  refine ⟨(hi.elsewhere (fun _ _ hc => ?_) u x hold).1, ?_, hold⟩
  · rw [hpc] at hc
    cases hc
  · intro heq
    subst heq
    exact free_ne_some (fun _ hu => hi.unique hu hfound) hx

/-- A stream whose time is up and that is removed sits nowhere else. -/
theorem PairInv.beside_expired (hi : PairInv key h s) {c : ConnId} {rf : RequestRelay}
    {since : Instant} (hpc : s.pc c = some (.sleeping rf since)) {u : String} {x : ConnId}
    (hx : free s.peers rf.uuid u = some x) : x ≠ c ∧ s.peers u = some x := by
  obtain ⟨hne, hold⟩ := free_eq_some.mp hx
  refine ⟨?_, hold⟩
  intro heq
  subst heq
  -- it sits under the uuid of its own request, which has just been cleared
  obtain ⟨rf', since', hpc', hu⟩ := hi.waits u _ hold
  rw [hpc] at hpc'
  obtain ⟨rfl, _⟩ := TaskPc.sleeping.inj (Option.some.inj hpc')
  exact hne hu.symm

/-- The step that pairs. -/
theorem pairInv_found {o : Occ State Event Out} {c peer : ConnId} {rf : RequestRelay}
    (hi : PairInv key h s) (hconn : o.ev.conn = c) (hout : o.out = .paired peer)
    (hpc : s.pc c = some (.lookup rf)) (hput : s'.pc = put s.pc c (.paired rf peer))
    (hmap : s'.peers = free s.peers rf.uuid) (hfound : s.peers rf.uuid = some peer) :
    PairInv key (h ++ [o]) s' := by
  have hpair : pairings (h ++ [o]) = pairings h ++ [(c, peer)] := by
    simp [pairings, List.filterMap_append, hout, hconn]
  have hrel : relayed (h ++ [o]) = relayed h ++ [c, peer] := by
    simp [relayed, hpair, List.flatMap_append]
  obtain ⟨rf', since, hwait, hu⟩ := hi.waits rf.uuid peer hfound
  have hc : c ∉ relayed h := hi.unused fun pc hpc' => by
    rw [hpc] at hpc'; obtain rfl := Option.some.inj hpc'; rfl
  have hp : peer ∉ relayed h := hi.apart rf.uuid peer hfound
  have hne : c ≠ peer := by
    intro heq
    subst heq
    rw [hpc] at hwait
    cases hwait
  have hasked := hi.asked c _ rf hpc rfl
  have hasked' := hi.asked peer _ rf' hwait rfl
  have hrest : ∀ u x, s'.peers u = some x → x ≠ c ∧ x ≠ peer ∧ s.peers u = some x :=
    fun u x hx => hi.beside_found hpc hfound (hmap ▸ hx)
  constructor
  case once =>
    rw [hrel, List.nodup_append]
    refine ⟨hi.once, by simp [hne], ?_⟩
    intro a ha b hb heq
    subst heq
    rcases List.mem_pair.mp hb with rfl | rfl
    · exact hc ha
    · exact hp ha
  case waits =>
    intro u x hx
    obtain ⟨hxc, _, hx⟩ := hrest u x hx
    obtain ⟨rf'', since'', hpcx, hu''⟩ := hi.waits u x hx
    exact ⟨rf'', since'', by rw [hput, put_ne hxc]; exact hpcx, hu''⟩
  case apart =>
    intro u x hx
    obtain ⟨hxc, hxp, hx⟩ := hrest u x hx
    rw [hrel, List.mem_append, List.mem_pair]
    intro hmem
    rcases hmem with hmem | rfl | rfl
    · exact hi.apart u x hx hmem
    · exact hxc rfl
    · exact hxp rfl
  case spent =>
    intro x hx
    rw [hrel, List.mem_append, List.mem_pair] at hx
    by_cases hxc : x = c
    · subst hxc
      exact ⟨_, by rw [hput]; exact put_self .., rfl⟩
    · rcases hx with hx | rfl | rfl
      · obtain ⟨pc, hpcx, hown⟩ := hi.spent x hx
        exact ⟨pc, by rw [hput, put_ne hxc]; exact hpcx, hown⟩
      · exact absurd rfl hxc
      · exact ⟨_, by rw [hput, put_ne hxc]; exact hwait, rfl⟩
  case live =>
    intro a pc b ha hb
    rw [hpair, List.mem_append, List.mem_singleton]
    rcases pc_put_cases hput ha with ⟨rfl, rfl⟩ | ⟨_, ha⟩
    · obtain rfl := Option.some.inj hb
      exact .inr rfl
    · exact .inl (hi.live a pc b ha hb)
  case asked =>
    intro x pc rf hx hrf
    rcases pc_put_cases hput hx with ⟨rfl, rfl⟩ | ⟨_, hx⟩
    · obtain rfl := Option.some.inj hrf
      exact hasked.imp_left Presented.mono
    · exact (hi.asked x pc rf hx hrf).imp_left Presented.mono
  case agree =>
    intro a b hab
    rw [hpair, List.mem_append, List.mem_singleton] at hab
    rcases hab with hab | hab
    · obtain ⟨r, r', ha, hb, hrest⟩ := hi.agree a b hab
      exact ⟨r, r', ha.mono, hb.mono, hrest⟩
    · obtain ⟨rfl, rfl⟩ := Prod.mk.inj hab
      exact ⟨rf, rf', hasked.1.mono, hasked'.1.mono, hu.symm, hasked.2, hasked'.2⟩

theorem pairInv_step {o : Occ State Event Out} (hi : PairInv key h o.pre)
    (hst : makePair key o.pre o.ev = some (o.post, o.out)) : PairInv key (h ++ [o]) o.post := by
  obtain ⟨_, _, hstep⟩ := makePair_step hst
  cases hstep with
  | accept _ hpc hput hmap hout =>
      have hother := hi.elsewhere fun rf since hc => by rw [hpc] at hc; cases hc
      refine pairInv_silent hi hout hput (fun _ => hi.unused ?_) ?_
        nofun nofun
      · intro pc hc
        rw [hpc] at hc; cases hc
      · intro u x hx
        rw [hmap] at hx
        exact .inl (hother u x hx)
  | @move pc pc' hpc hmove hput =>
      -- unless it slept, the task that moves has nothing in the map
      have hother : (∀ rf since, pc ≠ .sleeping rf since) → ∀ u x, o.pre.peers u = some x →
          x ≠ o.ev.conn ∧ o.pre.peers u = some x := by
        intro hne u x hx
        refine hi.elsewhere ?_ u x hx
        intro rf since hc
        rw [hpc] at hc
        exact hne rf since (Option.some.inj hc)
      have hstay : o.post.peers = o.pre.peers → (∀ rf since, pc ≠ .sleeping rf since) →
          ∀ u x, o.post.peers u = some x → x ≠ o.ev.conn ∧ o.pre.peers u = some x := by
        intro hmap hne u x hx
        rw [hmap] at hx
        exact hother hne u x hx
      have hunused : pc.owns = true → o.ev.conn ∉ relayed h := by
        intro hown
        refine hi.unused ?_
        intro pc₀ hc
        rw [hpc] at hc
        exact Option.some.inj hc ▸ hown
      have hasked : ∀ rf, pc.rf = some rf → Presented (h ++ [o]) o.ev.conn rf ∧ Valid key rf :=
        fun rf hrf => (hi.asked _ pc rf hpc hrf).imp_left Presented.mono
      generalize hpeers : o.post.peers = peers at hmove hstay
      generalize hout : o.out = out at hmove
      generalize hact : o.ev.act = act at hmove
      cases hmove with
      | @request msg rf hacc =>
          obtain ⟨rfl, hvalid⟩ := accepted_some hacc
          refine pairInv_silent hi hout hput (fun _ => hunused rfl)
            (fun u x hx => .inl (hstay rfl nofun u x (hpeers ▸ hx))) nofun ?_
          intro rf' hrf
          obtain rfl := Option.some.inj hrf
          exact ⟨⟨o, List.mem_append_right _ (List.mem_singleton_self o), rfl, hact⟩, hvalid⟩
      | drop =>
          exact pairInv_silent hi hout hput nofun
            (fun u x hx => .inl (hstay rfl nofun u x (hpeers ▸ hx))) nofun nofun
      | found hfound => exact pairInv_found hi rfl hout hpc hput hpeers hfound
      | missed =>
          exact pairInv_silent hi hout hput (fun _ => hunused rfl)
            (fun u x hx => .inl (hstay rfl nofun u x (hpeers ▸ hx))) nofun hasked
      | @insert rf =>
          refine pairInv_silent hi hout hput nofun ?_ nofun hasked
          intro u x hx
          rw [hpeers] at hx
          rcases put_eq_some.mp hx with ⟨rfl, rfl⟩ | ⟨_, hx⟩
          · exact .inr ⟨rfl, hunused rfl, rf, _, rfl, rfl⟩
          · exact .inl (hother nofun u x hx)
      | @expire rf since =>
          refine pairInv_silent hi hout hput nofun ?_ nofun nofun
          intro u x hx
          rw [hpeers] at hx
          exact .inl (hi.beside_expired hpc hx)
      | usageInsert | usageUpdate | relayEnd =>
          exact pairInv_silent hi hout hput nofun
            (fun u x hx => .inl (hstay rfl nofun u x (hpeers ▸ hx)))
            (fun b hb => ⟨_, hpc, hb⟩) hasked
      | usageRemove =>
          exact pairInv_silent hi hout hput nofun
            (fun u x hx => .inl (hstay rfl nofun u x (hpeers ▸ hx))) nofun nofun

theorem pairInv_run (hr : Run (makePair key) .start h s) : PairInv key h s := by
  refine Run.inv ?_ (fun h s e s' o hi hst => pairInv_step (o := ⟨s, e, o, s'⟩) hi hst) hr
  exact ⟨List.nodup_nil, keyed_empty, nofun, nofun, nofun, nofun, nofun⟩

/-- Two members of a pair in a list without repetition differ. -/
theorem ne_of_pairing (hi : PairInv key h s) {a b : ConnId} (hab : (a, b) ∈ pairings h) :
    a ≠ b := by
  obtain ⟨ps, qs, hsplit⟩ := List.append_of_mem hab
  have hnodup := hi.once
  rw [relayed, hsplit, List.flatMap_append, List.flatMap_cons, List.nodup_append] at hnodup
  intro heq
  simp [heq] at hnodup

/-- **Pairing is safe**, over every interleaving of any number of connections. -/
theorem pairing_safe (hr : Run (makePair key) .start h s) : PairingSafe key h s := by
  have hi := pairInv_run hr
  exact ⟨hi.once, hi.apart, hi.live, fun a b => ne_of_pairing hi, hi.agree⟩

/-- A request for the uuid "u". -/
def askU : Act := .recv (some (.requestRelay ⟨"peer-1", "u", [], "secret"⟩))

/-- The first task leaves its stream, and the second finds it. -/
def pairTrace : List Event :=
  [⟨0, 0, .accept .unspecified⟩, ⟨0, 0, askU⟩, ⟨0, 0, .lookup⟩, ⟨0, 0, .insert⟩,
   ⟨1, 1, .accept .unspecified⟩, ⟨1, 1, askU⟩, ⟨1, 1, .lookup⟩, ⟨1, 1, .usageInsert⟩]

theorem pairing_safe_two :
    ∃ h s, Run (makePair "secret") .start h s ∧ h.map Occ.ev = pairTrace
      ∧ pairings h = [(1, 0)] ∧ PairingSafe "secret" h s := by
  obtain ⟨h, s, hr, hev, hp⟩ := @exists_run _ _ _ (makePair "secret") .start pairTrace
    (fun h _ => pairings h = [(1, 0)]) (by decide)
  exact ⟨h, s, hr, hev, decide_eq_true_iff.mp hp, pairing_safe hr⟩

/-- The task `c` looks for a stream under `u`. -/
def Looks (o : Occ State Event Out) (c : ConnId) (u : String) : Prop :=
  o.ev.conn = c ∧ o.ev.act = .lookup ∧ ∃ rf, o.pre.pc c = some (.lookup rf) ∧ rf.uuid = u

/-- The task `c` leaves its stream in `PEERS`. -/
def Leaves (o : Occ State Event Out) (c : ConnId) : Prop := o.ev.conn = c ∧ o.ev.act = .insert

/-- The task `a` takes the stream of `b` to relay with. -/
def Finds (h : List (Occ State Event Out)) (a b : ConnId) : Prop :=
  ∃ o ∈ h, o.ev.conn = a ∧ o.out = .paired b

/-- Of two tasks one finds the other, and is not found by it. -/
def OneFindsOther (h : List (Occ State Event Out)) (a b : ConnId) : Prop :=
  (Finds h a b ∧ ¬ Finds h b a) ∨ (Finds h b a ∧ ¬ Finds h a b)

/-- `a` has left its stream before `b` looks under `u`. -/
def LeavesBefore (h : List (Occ State Event Out)) (a b : ConnId) (u : String) : Prop :=
  ∃ h₁ i h₂ l h₃, h = h₁ ++ i :: (h₂ ++ l :: h₃) ∧ Leaves i a ∧ Looks l b u

/-! ## Order of a task's steps -/

/-- How far a task has come. Every move goes up, so the order of a task's steps can be read
off where it stands. -/
def rank : Option TaskPc → Nat
  | none => 0
  | some .recv => 1
  | some (.lookup _) => 2
  | some (.insert _) => 3
  | some (.sleeping _ _) => 4
  | some (.paired _ _) => 5
  | some (.relaying _ _) => 6
  | some (.ended _ _) => 7
  | some .done => 8

theorem Move.rank_le {peers peers' : String → Option ConnId} {now : Instant} {c : ConnId}
    {pc pc' : TaskPc} {act : Act} {o : Out} (h : Move key peers now c pc act pc' peers' o) :
    rank (some pc) ≤ rank (some pc') := by
  cases h <;> simp [rank]

theorem rank_step {e : Event} {o : Out} (hst : makePair key s e = some (s', o)) (c : ConnId) :
    rank (s.pc c) ≤ rank (s'.pc c) := by
  obtain ⟨_, _, hstep⟩ := makePair_step hst
  have hput : ∃ pc', s'.pc = put s.pc e.conn pc' ∧ rank (s.pc e.conn) ≤ rank (some pc') := by
    cases hstep with
    | accept _ hpc hput => exact ⟨_, hput, by rw [hpc]; exact Nat.zero_le _⟩
    | move hpc hmove hput => exact ⟨_, hput, by rw [hpc]; exact hmove.rank_le⟩
  obtain ⟨pc', hput, hle⟩ := hput
  rw [hput]
  by_cases hc : c = e.conn
  · subst hc; rw [put_self]; exact hle
  · exact Nat.le_of_eq (by rw [put_ne hc])

/-- Along a run neither the clock nor any task goes back. -/
theorem run_mono {s₀ : State} (hr : Run (makePair key) s₀ h s) :
    s₀.clock ≤ s.clock ∧ ∀ c, rank (s₀.pc c) ≤ rank (s.pc c) := by
  refine hr.keeps (Q := fun s => s₀.clock ≤ s.clock ∧ ∀ c, rank (s₀.pc c) ≤ rank (s.pc c))
    (fun s e s' o ⟨hclock, hrank⟩ hst => ?_) ⟨Nat.le_refl _, fun c => Nat.le_refl _⟩
  obtain ⟨hle, heq, _⟩ := makePair_step hst
  exact ⟨heq ▸ Nat.le_trans hclock hle, fun c => Nat.le_trans (hrank c) (rank_step hst c)⟩

/-- Of two steps of one task, the one that starts further on comes later. -/
theorem later_of_rank {x y : Occ State Event Out} {c : ConnId}
    (hr : Run (makePair key) .start h s) (hx : x ∈ h) (hy : y ∈ h)
    (hrank : rank (x.pre.pc c) < rank (y.pre.pc c)) : ∃ g, Run (makePair key) x.post g y.pre := by
  rcases hr.order hx hy with rfl | hxy | ⟨g, hyx⟩
  · exact absurd hrank (Nat.lt_irrefl _)
  · exact hxy
  · obtain ⟨_, _, _, _, hst, _⟩ := hr.mem hy
    have hle := Nat.le_trans (rank_step hst c) ((run_mono hyx).2 c)
    exact absurd hrank (Nat.not_lt.mpr hle)

/-- A task that moves on from where it stood does so once. -/
theorem step_unique {x y : Occ State Event Out} {c : ConnId}
    (hr : Run (makePair key) .start h s) (hx : x ∈ h) (hy : y ∈ h)
    (hrank : rank (x.pre.pc c) = rank (y.pre.pc c)) (hup : rank (x.pre.pc c) < rank (x.post.pc c))
    (hup' : rank (y.pre.pc c) < rank (y.post.pc c)) : x = y := by
  rcases hr.order hx hy with heq | ⟨g, hxy⟩ | ⟨g, hyx⟩
  · exact heq
  · have hle := (run_mono hxy).2 c
    omega
  · have hle := (run_mono hyx).2 c
    omega

/-! ## What looking, leaving and finding say about the task -/

theorem finds_move {o : Occ State Event Out} {b : ConnId}
    (hst : makePair key o.pre o.ev = some (o.post, o.out)) (hout : o.out = .paired b) :
    ∃ rf, o.ev.act = .lookup ∧ o.pre.pc o.ev.conn = some (.lookup rf)
      ∧ o.pre.peers rf.uuid = some b ∧ o.post.pc o.ev.conn = some (.paired rf b) := by
  obtain ⟨_, _, hstep⟩ := makePair_step hst
  cases hstep with
  | accept _ _ _ _ hsilent => rw [hout] at hsilent; cases hsilent
  | @move pc pc' hpc hmove hput =>
      rw [hout] at hmove
      generalize o.post.peers = peers at hmove
      generalize hact : o.ev.act = act at hmove
      cases hmove with
      | @found rf _ hfound => exact ⟨rf, rfl, hpc, hfound, by rw [hput]; exact put_self ..⟩

theorem leaves_move {o : Occ State Event Out}
    (hst : makePair key o.pre o.ev = some (o.post, o.out)) (hact : o.ev.act = .insert) :
    ∃ rf, o.pre.pc o.ev.conn = some (.insert rf)
      ∧ o.post.pc o.ev.conn = some (.sleeping rf o.ev.now)
      ∧ o.post.peers = put o.pre.peers rf.uuid o.ev.conn := by
  obtain ⟨_, _, hstep⟩ := makePair_step hst
  cases hstep with
  | accept hacc => rw [hact] at hacc; cases hacc
  | @move pc pc' hpc hmove hput =>
      rw [hact] at hmove
      generalize hpeers : o.post.peers = peers at hmove
      generalize o.out = out at hmove
      cases hmove with
      | @insert rf => exact ⟨rf, hpc, by rw [hput]; exact put_self .., rfl⟩

/-- A task that looks either takes what it finds or goes on to leave its stream. -/
theorem looks_move {o : Occ State Event Out} {c : ConnId} {u : String}
    (hst : makePair key o.pre o.ev = some (o.post, o.out)) (hl : Looks o c u) :
    ∃ rf, rf.uuid = u ∧ o.pre.pc c = some (.lookup rf) ∧
      ((∃ b, o.pre.peers u = some b ∧ o.out = .paired b ∧ o.post.pc c = some (.paired rf b)) ∨
        (o.pre.peers u = none ∧ o.post.pc c = some (.insert rf))) := by
  obtain ⟨rfl, hact, rf, hpc, rfl⟩ := hl
  refine ⟨rf, rfl, hpc, ?_⟩
  obtain ⟨_, _, hstep⟩ := makePair_step hst
  cases hstep with
  | accept hacc => rw [hact] at hacc; cases hacc
  | @move pc pc' hpc' hmove hput =>
      obtain rfl := Option.some.inj (hpc.symm.trans hpc')
      rw [hact] at hmove
      generalize o.post.peers = peers at hmove
      generalize o.out = out at hmove ⊢
      cases hmove with
      | found hfound => exact .inl ⟨_, hfound, rfl, by rw [hput]; exact put_self ..⟩
      | missed hnone => exact .inr ⟨hnone, by rw [hput]; exact put_self ..⟩

/-! ## Two tasks with one uuid -/

/-- Nobody but these two asks for `u`. -/
def OnlyTwo (h : List (Occ State Event Out)) (a b : ConnId) (u : String) : Prop :=
  ∀ o ∈ h, ∀ rf, o.ev.act = .recv (some (.requestRelay rf)) → rf.uuid = u →
    o.ev.conn = a ∨ o.ev.conn = b

/-- A task keeps the request it has accepted. -/
theorem rf_stays {s₀ : State} {c : ConnId} {pc₀ : TaskPc} {rf : RequestRelay}
    (hr : Run (makePair key) s₀ h s) (hpc : s₀.pc c = some pc₀) (hrf : pc₀.rf = some rf) :
    ∃ pc, s.pc c = some pc ∧ (pc = .done ∨ pc.rf = some rf) := by
  refine hr.keeps (Q := fun s => ∃ pc, s.pc c = some pc ∧ (pc = .done ∨ pc.rf = some rf))
    (fun s e s' o ⟨pc, hpc, hor⟩ hst => ?_) ⟨pc₀, hpc, .inr hrf⟩
  obtain ⟨_, _, hstep⟩ := makePair_step hst
  cases hstep with
  | accept _ hnone hput =>
      have hne : c ≠ e.conn := by intro heq; subst heq; rw [hpc] at hnone; cases hnone
      exact ⟨pc, by rw [hput, put_ne hne]; exact hpc, hor⟩
  | @move q q' hq hmove hput =>
      by_cases hc : c = e.conn
      · subst hc
        obtain rfl := Option.some.inj (hpc.symm.trans hq)
        refine ⟨q', by rw [hput]; exact put_self .., ?_⟩
        generalize e.act = act at hmove
        generalize s'.peers = peers at hmove
        rcases hor with rfl | hrf
        · cases hmove
        · cases hmove <;> first | exact .inl rfl | exact .inr hrf | cases hrf
      · exact ⟨pc, by rw [hput, put_ne hc]; exact hpc, hor⟩

/-- Whatever sits in `PEERS` was left there. -/
theorem left_of_peers (hr : Run (makePair key) .start h s) :
    ∀ u c, s.peers u = some c → ∃ i ∈ h, Leaves i c := by
  refine Run.inv (I := fun h s => ∀ u c, s.peers u = some c → ∃ i ∈ h, Leaves i c) nofun ?_ hr
  intro h s e s' o ih hst u c hc
  have hold : s.peers u = some c → ∃ i ∈ h ++ [⟨s, e, o, s'⟩], Leaves i c := by
    intro hc
    obtain ⟨i, hi, hl⟩ := ih u c hc
    exact ⟨i, List.mem_append_left _ hi, hl⟩
  obtain ⟨_, _, hstep⟩ := makePair_step hst
  cases hstep with
  | accept _ _ _ hmap => exact hold (hmap ▸ hc)
  | @move pc pc' _ hmove hput =>
      generalize hpeers : s'.peers = peers at hmove hc
      generalize hact : e.act = act at hmove
      cases hmove with
      | found => exact hold (free_eq_some.mp hc).2
      | expire => exact hold (free_eq_some.mp hc).2
      | insert =>
          rcases put_eq_some.mp hc with ⟨_, rfl⟩ | ⟨_, hc⟩
          · exact ⟨_, List.mem_append_right _ (List.mem_singleton_self _), rfl, hact⟩
          · exact hold hc
      | _ => exact hold hc

/-- While `a` sleeps under `u` and `b` has not looked, the stream of `a` stays where it is. -/
theorem waits_until {s₀ : State} {a b : ConnId} {u : String} {rf : RequestRelay}
    {since : Instant} (hr : Run (makePair key) s₀ h s)
    (hstay : ∀ o ∈ h, ∀ c pc rf, o.pre.pc c = some pc → pc.rf = some rf → rf.uuid = u →
      c = a ∨ c = b)
    (htime : ∀ o ∈ h, o.ev.now < since + ofSecs 30) (ha : s₀.pc a = some (.sleeping rf since))
    (hpeers : s₀.peers u = some a) :
    2 < rank (s.pc b) ∨ (s.pc a = some (.sleeping rf since) ∧ s.peers u = some a) := by
  refine Run.inv_of (C := fun s e => e.now < since + ofSecs 30 ∧
      ∀ c pc rf, s.pc c = some pc → pc.rf = some rf → rf.uuid = u → c = a ∨ c = b)
    (I := fun _ s => 2 < rank (s.pc b) ∨ (s.pc a = some (.sleeping rf since) ∧ s.peers u = some a))
    (.inr ⟨ha, hpeers⟩) ?_ hr fun o ho => ⟨htime o ho, hstay o ho⟩
  intro _ s e s' o hor hcond hst
  obtain ⟨htime, honly⟩ := hcond
  rcases hor with hlate | ⟨ha, hpeers⟩
  · exact .inl (Nat.lt_of_lt_of_le hlate (rank_step hst b))
  · obtain ⟨_, _, hstep⟩ := makePair_step hst
    cases hstep with
    | accept _ hnone hput hmap =>
        have hne : a ≠ e.conn := by intro heq; subst heq; rw [ha] at hnone; cases hnone
        exact .inr ⟨by rw [hput, put_ne hne]; exact ha, by rw [hmap]; exact hpeers⟩
    | @move pc pc' hpc hmove hput =>
        by_cases hca : e.conn = a
        · -- the sleeper itself can only wake, and it is too early
          rw [hca, ha] at hpc
          obtain rfl := Option.some.inj hpc
          generalize e.act = act at hmove
          generalize s'.peers = peers at hmove
          cases hmove with
          | expire hle => exact absurd htime (Nat.not_lt.mpr hle)
        · have ha' : s'.pc a = some (.sleeping rf since) := by
            rw [hput, put_ne (Ne.symm hca)]; exact ha
          -- a third task works under another uuid
          have hother : ∀ rf', pc.rf = some rf' → e.conn ≠ b → u ≠ rf'.uuid := by
            intro rf' hrf hcb hu'
            exact (honly _ pc rf' hpc hrf hu'.symm).elim hca hcb
          have hlate : e.conn = b → 2 < rank (some pc') → 2 < rank (s'.pc b) := by
            intro heq hlt
            subst heq
            rw [hput, put_self]; exact hlt
          by_cases hcb : e.conn = b
          · generalize e.act = act at hmove
            generalize hmap : s'.peers = peers at hmove
            cases hmove with
            | request => exact .inr ⟨ha', hpeers⟩
            | _ => exact .inl (hlate hcb (by simp [rank]))
          · refine .inr ⟨ha', ?_⟩
            generalize e.act = act at hmove
            generalize s'.peers = peers at hmove
            cases hmove with
            | found => rw [free_ne (hother _ rfl hcb)]; exact hpeers
            | insert => rw [put_ne (hother _ rfl hcb)]; exact hpeers
            | expire => rw [free_ne (hother _ rfl hcb)]; exact hpeers
            | _ => exact hpeers

/-- No third task works under `u` at any point of the run. -/
theorem onlyTwo_stay {a b : ConnId} {u : String} (hr : Run (makePair key) .start h s)
    (honly : OnlyTwo h a b u) : ∀ o ∈ h, ∀ c pc rf, o.pre.pc c = some pc → pc.rf = some rf →
      rf.uuid = u → c = a ∨ c = b := by
  intro o ho c pc rf hpc hrf hu
  obtain ⟨h₁, h₂, rfl, hr₁, _, _⟩ := hr.mem ho
  obtain ⟨⟨x, hx, rfl, hact⟩, _⟩ := (pairInv_run hr₁).asked c pc rf hpc hrf
  exact honly x (List.mem_append_left _ hx) rf hact hu

/-- A look moves its task on. -/
theorem looks_rank {o : Occ State Event Out} {c : ConnId} {u : String}
    (hst : makePair key o.pre o.ev = some (o.post, o.out)) (hl : Looks o c u) :
    rank (o.pre.pc c) = 2 ∧ 2 < rank (o.post.pc c) := by
  obtain ⟨rf, _, hpre, hpost⟩ := looks_move hst hl
  refine ⟨by rw [hpre]; rfl, ?_⟩
  rcases hpost with ⟨_, _, _, hpost⟩ | ⟨_, hpost⟩ <;> rw [hpost] <;> simp [rank]

/-- A task looks once. -/
theorem looks_once {x y : Occ State Event Out} {c : ConnId} {u u' : String}
    (hr : Run (makePair key) .start h s) (hx : x ∈ h) (hy : y ∈ h) (hxl : Looks x c u)
    (hyl : Looks y c u') : x = y := by
  obtain ⟨_, _, _, _, hxstep, _⟩ := hr.mem hx
  obtain ⟨_, _, _, _, hystep, _⟩ := hr.mem hy
  obtain ⟨hxpre, hxpost⟩ := looks_rank hxstep hxl
  obtain ⟨hypre, hypost⟩ := looks_rank hystep hyl
  refine step_unique hr hx hy (hxpre.trans hypre.symm) ?_ ?_
  · rw [hxpre]; exact hxpost
  · rw [hypre]; exact hypost

/-- A task that looked and left its stream found nothing, and left it under the same uuid. -/
theorem leaves_under {x i : Occ State Event Out} {a : ConnId} {u : String}
    (hr : Run (makePair key) .start h s) (hx : x ∈ h) (hi : i ∈ h) (hxl : Looks x a u)
    (hil : Leaves i a) : ∃ rf, i.post.pc a = some (.sleeping rf i.ev.now)
      ∧ i.post.peers u = some a ∧ x.ev.now ≤ i.ev.now := by
  obtain ⟨rfl, hact⟩ := hil
  obtain ⟨_, _, _, _, hxstep, _⟩ := hr.mem hx
  obtain ⟨_, _, _, _, histep, _⟩ := hr.mem hi
  obtain ⟨rf', hipre, hipost, himap⟩ := leaves_move histep hact
  obtain ⟨rf, rfl, hxpre, hxpost⟩ := looks_move hxstep hxl
  obtain ⟨g, hg⟩ := later_of_rank hr hx hi (by rw [hxpre, hipre]; simp [rank])
  have hmiss : x.post.pc i.ev.conn = some (.insert rf) := by
    rcases hxpost with ⟨b, _, _, hpaired⟩ | ⟨_, hmiss⟩
    · have hle := (run_mono hg).2 i.ev.conn
      rw [hpaired, hipre] at hle
      exact absurd hle (by simp [rank])
    · exact hmiss
  have hsame : rf' = rf := by
    obtain ⟨pc, hpc, hor⟩ := rf_stays hg hmiss rfl
    rw [hipre] at hpc
    obtain rfl := Option.some.inj hpc
    rcases hor with hdone | hrf
    · cases hdone
    · exact Option.some.inj hrf
  have hclock := (run_mono hg).1
  rw [(makePair_step hxstep).2.1] at hclock
  refine ⟨rf', hipost, ?_, Nat.le_trans hclock (makePair_step histep).1⟩
  rw [himap, hsame]
  exact put_self ..

/-- A task that leaves its stream has found nobody, and finds nobody any more. -/
theorem not_finds_of_leaves {i : Occ State Event Out} {a b : ConnId}
    (hr : Run (makePair key) .start h s) (hi : i ∈ h) (hil : Leaves i a) : ¬ Finds h a b := by
  intro hfinds
  obtain ⟨o, ho, rfl, hout⟩ := hfinds
  obtain ⟨hconn, hact⟩ := hil
  obtain ⟨_, _, _, _, hostep, _⟩ := hr.mem ho
  obtain ⟨_, _, _, _, histep, _⟩ := hr.mem hi
  obtain ⟨rf, hipre, _⟩ := leaves_move histep hact
  obtain ⟨q, _, hopre, _, hopost⟩ := finds_move hostep hout
  rw [hconn] at hipre
  obtain ⟨g, hg⟩ := later_of_rank hr ho hi (by rw [hopre, hipre]; simp [rank])
  have hle := (run_mono hg).2 o.ev.conn
  rw [hopost, hipre] at hle
  exact absurd hle (by simp [rank])

/-- **If `a` leaves its stream before `b` looks, `b` finds it and `a` does not find `b`.** -/
theorem finds_of_leavesBefore {a b : ConnId} {u : String} {x y : Occ State Event Out}
    (hr : Run (makePair key) .start h s) (honly : OnlyTwo h a b u) (hx : x ∈ h) (hy : y ∈ h)
    (hxl : Looks x a u) (hyl : Looks y b u) (htime : y.ev.now < x.ev.now + ofSecs 30)
    (hbefore : LeavesBefore h a b u) : Finds h b a ∧ ¬ Finds h a b := by
  obtain ⟨h₁, i, h₂, l, h₃, hsplit, hil, hll⟩ := hbefore
  have hi : i ∈ h := by rw [hsplit]; simp
  have hl : l ∈ h := by rw [hsplit]; simp
  have hstay := onlyTwo_stay hr honly
  obtain ⟨rf, hipost, himap, hxi⟩ := leaves_under hr hx hi hxl hil
  have hly : l = y := looks_once hr hl hy hll hyl
  have hri := hr
  rw [hsplit] at hri
  obtain ⟨_, _, hri⟩ := hri.at
  obtain ⟨hr₂, hlstep, _⟩ := hri.at
  -- everything between the two happens before the sleeper wakes
  have hearly : ∀ o ∈ h₂, o.ev.now < i.ev.now + ofSecs 30 := by
    intro o ho
    obtain ⟨_, _, _, _, hostep, hafter⟩ := hr₂.mem ho
    have hle := (run_mono hafter).1
    rw [(makePair_step hostep).2.1] at hle
    have hlnow := (makePair_step hlstep).1
    rw [hly] at hle hlnow
    exact Nat.lt_of_le_of_lt (Nat.le_trans hle hlnow)
      (Nat.lt_of_lt_of_le htime (Nat.add_le_add_right hxi _))
  have hwaits := waits_until (b := b) hr₂ (fun o ho => hstay o (by rw [hsplit]; simp [ho])) hearly
    hipost himap
  refine ⟨?_, not_finds_of_leaves hr hi hil⟩
  obtain ⟨_, _, hlpre, hlpost⟩ := looks_move hlstep hll
  rcases hwaits with hlate | ⟨_, hpeers⟩
  · rw [hlpre] at hlate
    exact absurd hlate (by simp [rank])
  · rcases hlpost with ⟨c, hc, hout, _⟩ | ⟨hnone, _⟩
    · obtain rfl := Option.some.inj (hpeers.symm.trans hc)
      exact ⟨l, hl, hll.1, hout⟩
    · rw [hpeers] at hnone; cases hnone

/-- Whoever finds `a` under `u` looked after `a` had left its stream. -/
theorem leavesBefore_of_finds {a b : ConnId} {u : String} {y : Occ State Event Out}
    (hr : Run (makePair key) .start h s) (hy : y ∈ h) (hyl : Looks y b u) (hf : Finds h b a) :
    LeavesBefore h a b u := by
  obtain ⟨o, ho, hob, hout⟩ := hf
  obtain ⟨h₁, h₂, hsplit, hr₁, hostep, _⟩ := hr.mem ho
  obtain ⟨q, hact, hopre, hpeers, hopost⟩ := finds_move hostep hout
  rw [hob] at hopre hopost
  obtain rfl : o = y := looks_once hr ho hy ⟨hob, hact, q, hopre, rfl⟩ hyl
  obtain ⟨i, hi, hleft⟩ := left_of_peers hr₁ q.uuid a hpeers
  obtain ⟨g₁, g₂, rfl⟩ := List.append_of_mem hi
  exact ⟨g₁, i, g₂, o, h₂, by rw [hsplit]; simp, hleft, hyl⟩

/--
**No lost pairing, exactly if one stream is there before the other task looks.** Two tasks
with one uuid look for each other less than thirty seconds apart, nobody else uses the
uuid: one finds the other if and only if one of them leaves its stream before the other
looks.
-/
theorem one_finds_other_iff {a b : ConnId} {u : String} {x y : Occ State Event Out}
    (hr : Run (makePair key) .start h s) (honly : OnlyTwo h a b u) (hx : x ∈ h) (hy : y ∈ h)
    (hxl : Looks x a u) (hyl : Looks y b u) (htime : y.ev.now < x.ev.now + ofSecs 30)
    (htime' : x.ev.now < y.ev.now + ofSecs 30) :
    OneFindsOther h a b ↔ LeavesBefore h a b u ∨ LeavesBefore h b a u := by
  have honly' : OnlyTwo h b a u := fun o ho rf hact hu => (honly o ho rf hact hu).symm
  constructor
  · intro hone
    rcases hone with ⟨hf, _⟩ | ⟨hf, _⟩
    · exact .inr (leavesBefore_of_finds hr hx hxl hf)
    · exact .inl (leavesBefore_of_finds hr hy hyl hf)
  · intro hbefore
    rcases hbefore with hb | hb
    · exact .inr (finds_of_leavesBefore hr honly hx hy hxl hyl htime hb)
    · exact .inl (finds_of_leavesBefore hr honly' hy hx hyl hxl htime' hb)

/-! ### On two connections -/

theorem onlyTwo_of_events {es : List Event} {a b : ConnId} {u : String} (hev : h.map Occ.ev = es)
    (hes : ∀ e ∈ es, e.conn = a ∨ e.conn = b) : OnlyTwo h a b u :=
  fun o ho _ _ _ => hes o.ev (hev ▸ List.mem_map_of_mem ho)

/-- The step of this event is there, and its task looks under "u". -/
def looksU (c : ConnId) (o : Occ State Event Out) : Bool :=
  o.ev.conn = c && o.ev.act = .lookup && o.ev.now < 5
    && o.pre.pc c = some (.lookup ⟨"peer-1", "u", [], "secret"⟩)

theorem looks_of_any {c : ConnId} (hany : h.any (looksU c) = true) :
    ∃ o ∈ h, Looks o c "u" ∧ o.ev.now < 5 := by
  obtain ⟨o, ho, hl⟩ := List.any_eq_true.mp hany
  simp only [looksU, Bool.and_eq_true, decide_eq_true_eq] at hl
  obtain ⟨⟨⟨hconn, hact⟩, hnow⟩, hpc⟩ := hl
  exact ⟨o, ho, ⟨hconn, hact, _, hpc, rfl⟩, hnow⟩

theorem soon {m n : Instant} (hm : m < 5) : m < n + ofSecs 30 :=
  Nat.lt_of_lt_of_le hm (Nat.le_trans (by decide) (Nat.le_add_left _ n))

theorem one_finds_other_two :
    ∃ h s, Run (makePair "secret") .start h s ∧ h.map Occ.ev = pairTrace
      ∧ (OneFindsOther h 0 1 ↔ LeavesBefore h 0 1 "u" ∨ LeavesBefore h 1 0 "u") := by
  obtain ⟨h, s, hr, hev, hp⟩ := @exists_run _ _ _ (makePair "secret") .start pairTrace
    (fun h _ => h.any (looksU 0) && h.any (looksU 1)) (by decide)
  obtain ⟨h0, h1⟩ := Bool.and_eq_true_iff.mp hp
  obtain ⟨x, hx, hxl, hxt⟩ := looks_of_any h0
  obtain ⟨y, hy, hyl, hyt⟩ := looks_of_any h1
  exact ⟨h, s, hr, hev, one_finds_other_iff hr (onlyTwo_of_events hev (by decide)) hx hy hxl hyl
    (soon hyt) (soon hxt)⟩

/-- Both look before either has left anything. -/
def lostPairTrace : List Event :=
  [⟨0, 0, .accept .unspecified⟩, ⟨0, 0, askU⟩, ⟨0, 1, .accept .unspecified⟩, ⟨0, 1, askU⟩,
   ⟨1, 0, .lookup⟩, ⟨1, 1, .lookup⟩, ⟨2, 0, .insert⟩, ⟨2, 1, .insert⟩]

/-- **A pairing lost**: both tasks wait, and neither has found the other. -/
theorem both_wait :
    ¬ ∀ h s, Run (makePair "secret") .start h s → ∀ a b u, OnlyTwo h a b u → ∀ x ∈ h, ∀ y ∈ h,
      Looks x a u → Looks y b u → y.ev.now < x.ev.now + ofSecs 30 →
      x.ev.now < y.ev.now + ofSecs 30 → OneFindsOther h a b := by
  intro hall
  obtain ⟨h, s, hr, hev, hp⟩ := @exists_run _ _ _ (makePair "secret") .start lostPairTrace
    (fun h _ => h.any (looksU 0) && h.any (looksU 1) && h.all fun o => o.out = .silent) (by decide)
  obtain ⟨hlooks, hsilent⟩ := Bool.and_eq_true_iff.mp hp
  obtain ⟨h0, h1⟩ := Bool.and_eq_true_iff.mp hlooks
  obtain ⟨x, hx, hxl, hxt⟩ := looks_of_any h0
  obtain ⟨y, hy, hyl, hyt⟩ := looks_of_any h1
  have hone := hall h s hr 0 1 "u" (onlyTwo_of_events hev (by decide)) x hx y hy hxl hyl
    (soon hyt) (soon hxt)
  -- nobody was paired at all
  have hnone : ∀ a b, ¬ Finds h a b := by
    intro a b hfinds
    obtain ⟨o, ho, _, hout⟩ := hfinds
    have hs := decide_eq_true_iff.mp (List.all_eq_true.mp hsilent o ho)
    rw [hout] at hs
    cases hs
  exact hone.elim (fun hc => hnone 0 1 hc.1) fun hc => hnone 1 0 hc.1

end KinBridge.Hbbr
