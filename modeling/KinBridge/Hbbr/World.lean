import Mathlib.Data.Finset.Erase
import KinBridge.Hbbr.Relay

/-!
# `hbbr` as a whole

Connections arrive (`handle_connection`), their tasks pair (`make_pair_`), the pairs relay
(`relay`), and an administrator edits the two lists meanwhile. The pairing machine of
`KinBridge.Hbbr.Pair` takes part as it is: `hbbr_pair` says that a step here is at most one
step there, and `hbbr_run` that what holds of its runs holds here.

`handle_connection` looks a connection up in `BLOCKLIST` by the plain form of its address,
`relay` by the address that its task got.
-/

namespace KinBridge.Hbbr

open KinBridge Runs Slots

/-- What becomes of a new connection. -/
inductive Admission where
  /-- A command from loopback, answered and closed. -/
  | command
  | blocked
  /-- `make_pair` is spawned. -/
  | spawned
deriving DecidableEq, Repr

/-- `handle_connection`. -/
def handleConnection (X : AddrOps) (lists : Lists) (addr : SocketAddr) (ws : Bool) : Admission :=
  let ip := (X.tryIntoV4 addr).ip
  if !ws && ip.isLoopback then .command
  else if ip.toString ∈ lists.blocklist then .blocked
  else .spawned

/-- One access of `check_cmd` to a list, under its lock. -/
inductive ListCmd where
  | add (ip : String)
  | remove (ip : String)
  | clear
deriving DecidableEq, Repr

def ListCmd.exec (list : Finset String) : ListCmd → Finset String
  | .add ip => insert ip list
  | .remove ip => list.erase ip
  | .clear => ∅

/-- The pairing tasks, the loops of those that relay, and the lists. -/
structure World where
  pair : State
  loops : ConnId → Option Loop
  lists : Lists

/-- `hbbr` with the lists it has read from their files. -/
def World.start (lists : Lists) : World := ⟨.start, fun _ => none, lists⟩

inductive WorldEvent where
  /-- A connection. A WebSocket handshake may put another address in its place. -/
  | accept (now : Instant) (conn : ConnId) (addr : SocketAddr) (header : Option SocketAddr)
      (ws : Bool)
  /-- A step of `make_pair_` up to its pairing, or past its relay. -/
  | task (e : Event)
  /-- The insert into `USAGE`, and `relay` begins; the settings come to this threshold. -/
  | relayStart (now : Instant) (conn : ConnId) (downgradeThreshold : Nat)
  /-- A turn of a relay; the lists are the world's. -/
  | turn (now : Instant) (conn : ConnId) (t : Turn)
  | blocklist (cmd : ListCmd)
  | blacklist (cmd : ListCmd)

inductive WorldOut where
  | admission (a : Admission)
  | pair (o : Out)
  | relay (acts : List RelayAct)
  | silent

/-- The steps that `task` covers. -/
def Act.ofTask : Act → Bool
  | .accept _ | .usageInsert | .usageUpdate _ | .relayEnd => false
  | _ => true

/-- What a turn leaves in `USAGE`. -/
def usageOf (acts : List RelayAct) : Option Usage :=
  acts.findSome? fun
    | .usage u => some u
    | _ => none

/-- The turn of a relay: it goes on, perhaps with an update of `USAGE`, or it ends. -/
def World.turn (key : String) (w : World) (now : Instant) (conn : ConnId) (l : Loop) (t : Turn) :
    Option (World × WorldOut) :=
  match relayTurn l { t with lists := w.lists } with
  | (l, acts, none) =>
    match usageOf acts with
    | none => some ({ w with loops := put w.loops conn l }, .relay acts)
    | some usage =>
      (makePair key w.pair ⟨now, conn, .usageUpdate usage⟩).map fun r =>
        ({ w with pair := r.1, loops := put w.loops conn l }, .relay acts)
  | (_, acts, some _) =>
    (makePair key w.pair ⟨now, conn, .relayEnd⟩).map fun r =>
      ({ w with pair := r.1, loops := free w.loops conn }, .relay acts)

/-- One step of `hbbr`. -/
def hbbr (X : AddrOps) (key : String) (w : World) : WorldEvent → Option (World × WorldOut)
  | .accept now conn addr header ws =>
    match handleConnection X w.lists addr ws with
    | .spawned =>
      let addr := if ws then header.getD addr else addr
      (makePair key w.pair ⟨now, conn, .accept addr⟩).map fun r =>
        ({ w with pair := r.1 }, .admission .spawned)
    | a => some (w, .admission a)
  | .task e =>
    if e.act.ofTask then (makePair key w.pair e).map fun r => ({ w with pair := r.1 }, .pair r.2)
    else none
  | .relayStart now conn downgradeThreshold =>
    match w.pair.tasks conn with
    | none => none
    | some task =>
      (makePair key w.pair ⟨now, conn, .usageInsert⟩).map fun r =>
        ({ w with
            pair := r.1
            loops := put w.loops conn (.start task.addr downgradeThreshold now) }, .pair r.2)
  | .turn now conn t =>
    match w.loops conn with
    | none => none
    | some l => w.turn key now conn l t
  | .blocklist cmd =>
    some ({ w with lists := { w.lists with blocklist := cmd.exec w.lists.blocklist } }, .silent)
  | .blacklist cmd =>
    some ({ w with lists := { w.lists with blacklist := cmd.exec w.lists.blacklist } }, .silent)

/-! ## The pairing machine inside -/

variable {X : AddrOps} {key : String} {w w' : World} {e : WorldEvent} {o : WorldOut}

/-- What a step does: nothing to the tasks, or one step of one task; and the loops are as before
but for at most that connection's. -/
inductive WorldStep (key : String) (w : World) : WorldEvent → World → WorldOut → Prop where
  | refused {now : Instant} {conn : ConnId} {addr : SocketAddr} {header : Option SocketAddr}
      {ws : Bool} {a : Admission} : a ≠ .spawned →
      WorldStep key w (.accept now conn addr header ws) w (.admission a)
  | accepted {now : Instant} {conn : ConnId} {addr : SocketAddr} {header : Option SocketAddr}
      {ws : Bool} {s : State} {o : Out} :
      makePair key w.pair ⟨now, conn, .accept (if ws then header.getD addr else addr)⟩
        = some (s, o) →
      WorldStep key w (.accept now conn addr header ws) { w with pair := s } (.admission .spawned)
  | task {e : Event} {s : State} {o : Out} : e.act.ofTask = true →
      makePair key w.pair e = some (s, o) → WorldStep key w (.task e) { w with pair := s } (.pair o)
  | relayStart {now : Instant} {conn : ConnId} {threshold : Nat} {task : Task} {s : State}
      {o : Out} : w.pair.tasks conn = some task →
      makePair key w.pair ⟨now, conn, .usageInsert⟩ = some (s, o) →
      WorldStep key w (.relayStart now conn threshold)
        { w with pair := s, loops := put w.loops conn (.start task.addr threshold now) } (.pair o)
  | turn {now : Instant} {conn : ConnId} {t : Turn} {l l' : Loop} {acts : List RelayAct}
      {s : State} : w.loops conn = some l →
      relayTurn l { t with lists := w.lists } = (l', acts, none) →
      (s = w.pair ∨ ∃ usage o, makePair key w.pair ⟨now, conn, .usageUpdate usage⟩ = some (s, o)) →
      WorldStep key w (.turn now conn t) { w with pair := s, loops := put w.loops conn l' }
        (.relay acts)
  | stopped {now : Instant} {conn : ConnId} {t : Turn} {l l' : Loop} {acts : List RelayAct}
      {why : Stop} {s : State} {o : Out} : w.loops conn = some l →
      relayTurn l { t with lists := w.lists } = (l', acts, some why) →
      makePair key w.pair ⟨now, conn, .relayEnd⟩ = some (s, o) →
      WorldStep key w (.turn now conn t) { w with pair := s, loops := free w.loops conn }
        (.relay acts)
  | blocklist {cmd : ListCmd} : WorldStep key w (.blocklist cmd)
      { w with lists := { w.lists with blocklist := cmd.exec w.lists.blocklist } } .silent
  | blacklist {cmd : ListCmd} : WorldStep key w (.blacklist cmd)
      { w with lists := { w.lists with blacklist := cmd.exec w.lists.blacklist } } .silent

theorem hbbr_step (h : hbbr X key w e = some (w', o)) : WorldStep key w e w' o := by
  cases e with
  | accept now conn addr header ws =>
      simp only [hbbr] at h
      split at h
      · obtain ⟨⟨s, o'⟩, hs, heq⟩ := Option.map_eq_some_iff.mp h
        obtain ⟨rfl, rfl⟩ := Prod.mk.inj heq
        exact .accepted hs
      · rename_i hne
        obtain ⟨rfl, rfl⟩ := Prod.mk.inj (Option.some.inj h)
        exact .refused hne
  | task e =>
      simp only [hbbr] at h
      split at h
      · rename_i hact
        obtain ⟨⟨s, o'⟩, hs, heq⟩ := Option.map_eq_some_iff.mp h
        obtain ⟨rfl, rfl⟩ := Prod.mk.inj heq
        exact .task hact hs
      · cases h
  | relayStart now conn threshold =>
      simp only [hbbr] at h
      split at h
      · cases h
      · rename_i task htask
        obtain ⟨⟨s, o'⟩, hs, heq⟩ := Option.map_eq_some_iff.mp h
        obtain ⟨rfl, rfl⟩ := Prod.mk.inj heq
        exact .relayStart htask hs
  | turn now conn t =>
      simp only [hbbr] at h
      split at h
      · cases h
      · rename_i l hl
        unfold World.turn at h
        split at h
        · rename_i l' acts hturn
          split at h
          · obtain ⟨rfl, rfl⟩ := Prod.mk.inj (Option.some.inj h)
            exact .turn hl hturn (.inl rfl)
          · obtain ⟨⟨s, o'⟩, hs, heq⟩ := Option.map_eq_some_iff.mp h
            obtain ⟨rfl, rfl⟩ := Prod.mk.inj heq
            exact .turn hl hturn (.inr ⟨_, _, hs⟩)
        · rename_i l' acts why hturn
          obtain ⟨⟨s, o'⟩, hs, heq⟩ := Option.map_eq_some_iff.mp h
          obtain ⟨rfl, rfl⟩ := Prod.mk.inj heq
          exact .stopped hl hturn hs
  | blocklist cmd =>
      obtain ⟨rfl, rfl⟩ := Prod.mk.inj (Option.some.inj h)
      exact .blocklist
  | blacklist cmd =>
      obtain ⟨rfl, rfl⟩ := Prod.mk.inj (Option.some.inj h)
      exact .blacklist

/-- A step is at most one step of the pairing machine. -/
theorem hbbr_pair (h : hbbr X key w e = some (w', o)) :
    w'.pair = w.pair ∨ ∃ e' o', makePair key w.pair e' = some (w'.pair, o') := by
  cases hbbr_step h with
  | refused => exact .inl rfl
  | accepted hs => exact .inr ⟨_, _, hs⟩
  | task _ hs => exact .inr ⟨_, _, hs⟩
  | relayStart _ hs => exact .inr ⟨_, _, hs⟩
  | turn _ _ hpair => exact hpair.imp id fun ⟨_, _, hs⟩ => ⟨_, _, hs⟩
  | stopped _ _ hs => exact .inr ⟨_, _, hs⟩
  | blocklist => exact .inl rfl
  | blacklist => exact .inl rfl

/-- The tasks of a run of `hbbr` have made a run of the pairing machine. -/
theorem hbbr_run {lists : Lists} {h : List (Occ World WorldEvent WorldOut)}
    (hr : Run (hbbr X key) (.start lists) h w) : ∃ g, Run (makePair key) .start g w.pair := by
  refine Run.inv (I := fun _ w => ∃ g, Run (makePair key) .start g w.pair) ⟨[], Run.nil⟩ ?_ hr
  intro h w e w' o hrun hst
  obtain ⟨g, hg⟩ := hrun
  rcases hbbr_pair hst with heq | ⟨e', o', hs⟩
  · rw [heq]
    exact ⟨g, hg⟩
  · exact ⟨_, hg.snoc hs⟩

/-- A relay can always take its turn, whatever becomes of it. -/
theorem turn_enabled {c d : ConnId} {l : Loop} {addr : SocketAddr} {rf : RequestRelay}
    {now : Instant} (hl : w.loops c = some l)
    (ht : w.pair.tasks c = some ⟨addr, .relaying rf d⟩) (hclock : w.pair.clock ≤ now) (t : Turn) :
    ∃ w' o, hbbr X key w (.turn now c t) = some (w', o) := by
  have hlate : ¬ now < w.pair.clock := Nat.not_lt.mpr hclock
  have hupdate : ∀ usage, ∃ r, makePair key w.pair ⟨now, c, .usageUpdate usage⟩ = some r := by
    intro usage
    simp [makePair, hlate, ht, taskStep]
  have hend : ∃ r, makePair key w.pair ⟨now, c, .relayEnd⟩ = some r := by
    simp [makePair, hlate, ht, taskStep]
  simp only [hbbr, hl]
  unfold World.turn
  split
  · split
    · exact ⟨_, _, rfl⟩
    · rename_i usage _
      obtain ⟨r, hr⟩ := hupdate usage
      rw [hr]
      exact ⟨_, _, rfl⟩
  · obtain ⟨r, hr⟩ := hend
    rw [hr]
    exact ⟨_, _, rfl⟩

/-- A run with a relay in it goes on. -/
theorem run_turn {w₀ : World} {h : List (Occ World WorldEvent WorldOut)} {c d : ConnId} {l : Loop}
    {addr : SocketAddr} {rf : RequestRelay} {n : Instant} (hr : Run (hbbr X key) w₀ h w)
    (hl : w.loops c = some l) (ht : w.pair.tasks c = some ⟨addr, .relaying rf d⟩)
    (hclock : w.pair.clock ≤ n) (t : Turn) :
    ∃ w' o, Run (hbbr X key) w₀ (h ++ [⟨w, .turn n c t, o, w'⟩]) w' := by
  obtain ⟨w', o, hst⟩ := @turn_enabled X key w c d l addr rf n hl ht hclock t
  exact ⟨w', o, hr.snoc hst⟩

end KinBridge.Hbbr
