import KinBridge.Lib.Runs
import KinBridge.Lib.Slots
import KinBridge.Net.Clock
import KinBridge.Net.Proto

/-!
# Pairing in `hbbr`

`make_pair_` of `relay_server.rs`, one task per connection. A task reads one message, takes
the stream that waits under its uuid out of `PEERS`, and relays between the two. If nobody
waits it leaves its own stream there, sleeps for thirty seconds, and takes out whatever is
then under the uuid.

Each access to `PEERS` or `USAGE` has the lock to itself, and the tasks interleave freely
in between. A stream is named by its connection. What the relay loop does with the bytes is
not part of this machine, only when it starts, reports and ends.
-/

namespace KinBridge.Hbbr

open KinBridge Runs Slots

/-- A connection, and the stream that came with it. -/
abbrev ConnId := Nat

/-- `(elapsed, total, highest_s, speed)`. -/
abbrev Usage := Nat × Nat × Nat × Nat

/-- Where `make_pair_` stands: before its first `recv`, before the `remove` on `PEERS`, before
the `insert`, asleep since then, before the `insert` on `USAGE`, in `relay`, before the
`remove` on `USAGE`, returned. -/
inductive TaskPc where
  | recv
  | lookup (rf : RequestRelay)
  | insert (rf : RequestRelay)
  | sleeping (rf : RequestRelay) (since : Instant)
  | paired (rf : RequestRelay) (peer : ConnId)
  | relaying (rf : RequestRelay) (peer : ConnId)
  | ended (rf : RequestRelay) (peer : ConnId)
  | done
deriving DecidableEq, Repr

structure Task where
  addr : SocketAddr
  pc : TaskPc
deriving DecidableEq, Repr

structure State where
  clock : Instant
  tasks : ConnId → Option Task
  /-- `PEERS`. -/
  peers : String → Option ConnId
  /-- `USAGE`. -/
  usage : String → Option Usage

def State.start : State := ⟨0, fun _ => none, fun _ => none, fun _ => none⟩

inductive Act where
  /-- `handle_connection` has spawned the task. -/
  | accept (addr : SocketAddr)
  /-- The first message, or none within its thirty seconds. -/
  | recv (msg : Option RendezvousMessage)
  | lookup
  | insert
  | expire
  | usageInsert
  | usageUpdate (usage : Usage)
  | relayEnd
  | usageRemove
deriving DecidableEq, Repr

/-- One step of one task, at this time. -/
structure Event where
  now : Instant
  conn : ConnId
  act : Act
deriving DecidableEq, Repr

inductive Out where
  | silent
  /-- The task has taken this stream to relay with. -/
  | paired (peer : ConnId)
deriving DecidableEq, Repr

/-- `format!("{}:{}", addr.ip(), addr.port())`. -/
def usageId (addr : SocketAddr) : String := addr.ip.toString ++ ":" ++ toString addr.port.toNat

/-- The checks on the first message: the request, if it is one to look up. -/
def accepted (key : String) : Option RendezvousMessage → Option RequestRelay
  | some (.requestRelay rf) =>
    if key ≠ "" ∧ rf.licenceKey ≠ key then none
    else if rf.uuid = "" then none
    else some rf
  | _ => none

/-- `c` goes on at `pc`. -/
def State.goto (s : State) (c : ConnId) (t : Task) (pc : TaskPc) : State :=
  { s with tasks := put s.tasks c { t with pc := pc } }

/-- The next step of the task of `c`. -/
def taskStep (key : String) (s : State) (c : ConnId) (t : Task) :
    TaskPc → Act → Option (State × Out)
  | .recv, .recv msg =>
    match accepted key msg with
    | some rf => some (s.goto c t (.lookup rf), .silent)
    | none => some (s.goto c t .done, .silent)
  | .lookup rf, .lookup =>
    let s' := { s with peers := free s.peers rf.uuid }
    match s.peers rf.uuid with
    | some peer => some (s'.goto c t (.paired rf peer), .paired peer)
    | none => some (s'.goto c t (.insert rf), .silent)
  | .insert rf, .insert =>
    some ({ s with peers := put s.peers rf.uuid c }.goto c t (.sleeping rf s.clock), .silent)
  | .sleeping rf since, .expire =>
    if since + ofSecs 30 ≤ s.clock then
      some ({ s with peers := free s.peers rf.uuid }.goto c t .done, .silent)
    else none
  | .paired rf peer, .usageInsert =>
    let s' := { s with usage := put s.usage (usageId t.addr) (0, 0, 0, 0) }
    some (s'.goto c t (.relaying rf peer), .silent)
  | .relaying _ _, .usageUpdate usage =>
    some ({ s with usage := put s.usage (usageId t.addr) usage }, .silent)
  | .relaying rf peer, .relayEnd => some (s.goto c t (.ended rf peer), .silent)
  | .ended _ _, .usageRemove =>
    some ({ s with usage := free s.usage (usageId t.addr) }.goto c t .done, .silent)
  | _, _ => none

/-- One step of any task. The clock does not run backwards. -/
def makePair (key : String) (s : State) (e : Event) : Option (State × Out) :=
  if e.now < s.clock then none
  else
    let s := { s with clock := e.now }
    match s.tasks e.conn, e.act with
    | none, .accept addr => some ({ s with tasks := put s.tasks e.conn ⟨addr, .recv⟩ }, .silent)
    | some t, act => taskStep key s e.conn t t.pc act
    | none, _ => none

/-! ## What one step can do -/

/-- Every step a task can take, and what it does to `PEERS`. -/
inductive Move (key : String) (peers : String → Option ConnId) (now : Instant) (c : ConnId) :
    TaskPc → Act → TaskPc → (String → Option ConnId) → Out → Prop where
  | request {msg : Option RendezvousMessage} {rf : RequestRelay} : accepted key msg = some rf →
      Move key peers now c .recv (.recv msg) (.lookup rf) peers .silent
  | drop {msg : Option RendezvousMessage} : accepted key msg = none →
      Move key peers now c .recv (.recv msg) .done peers .silent
  | found {rf : RequestRelay} {peer : ConnId} : peers rf.uuid = some peer →
      Move key peers now c (.lookup rf) .lookup (.paired rf peer) (free peers rf.uuid)
        (.paired peer)
  | missed {rf : RequestRelay} : peers rf.uuid = none →
      Move key peers now c (.lookup rf) .lookup (.insert rf) peers .silent
  | insert {rf : RequestRelay} :
      Move key peers now c (.insert rf) .insert (.sleeping rf now) (put peers rf.uuid c) .silent
  | expire {rf : RequestRelay} {since : Instant} : since + ofSecs 30 ≤ now →
      Move key peers now c (.sleeping rf since) .expire .done (free peers rf.uuid) .silent
  | usageInsert {rf : RequestRelay} {peer : ConnId} :
      Move key peers now c (.paired rf peer) .usageInsert (.relaying rf peer) peers .silent
  | usageUpdate {rf : RequestRelay} {peer : ConnId} {usage : Usage} :
      Move key peers now c (.relaying rf peer) (.usageUpdate usage) (.relaying rf peer) peers
        .silent
  | relayEnd {rf : RequestRelay} {peer : ConnId} :
      Move key peers now c (.relaying rf peer) .relayEnd (.ended rf peer) peers .silent
  | usageRemove {rf : RequestRelay} {peer : ConnId} :
      Move key peers now c (.ended rf peer) .usageRemove .done peers .silent

/-- Where the task of a connection stands. -/
def State.pc (s : State) (c : ConnId) : Option TaskPc := (s.tasks c).map Task.pc

/-- A step is one move of one task, or a new task. -/
inductive Step (key : String) (s : State) (e : Event) (s' : State) (o : Out) : Prop where
  | accept {addr : SocketAddr} : e.act = .accept addr → s.pc e.conn = none →
      s'.pc = put s.pc e.conn .recv → s'.peers = s.peers → o = .silent → Step key s e s' o
  | move {pc pc' : TaskPc} : s.pc e.conn = some pc →
      Move key s.peers e.now e.conn pc e.act pc' s'.peers o → s'.pc = put s.pc e.conn pc' →
      Step key s e s' o

theorem pc_put {s : State} {c : ConnId} {t : Task} :
    (fun c' => (put s.tasks c t c').map Task.pc) = put s.pc c t.pc := by
  funext c'
  by_cases hc : c' = c
  · subst hc; simp
  · rw [put_ne hc, put_ne hc]; rfl

/-- The task of `c` makes its move. -/
theorem taskStep_move {key : String} {s s' : State} {c : ConnId} {t : Task} {act : Act} {o : Out}
    (htask : s.tasks c = some t) (h : taskStep key s c t t.pc act = some (s', o)) :
    s'.clock = s.clock ∧ ∃ pc', Move key s.peers s.clock c t.pc act pc' s'.peers o
      ∧ s'.pc = put s.pc c pc' := by
  obtain ⟨addr, pc⟩ := t
  dsimp only at h ⊢
  unfold taskStep at h
  split at h
  · split at h <;> obtain ⟨rfl, rfl⟩ := Prod.mk.inj (Option.some.inj h)
    · exact ⟨rfl, _, .request ‹_›, pc_put⟩
    · exact ⟨rfl, _, .drop ‹_›, pc_put⟩
  · dsimp only at h
    split at h <;> obtain ⟨rfl, rfl⟩ := Prod.mk.inj (Option.some.inj h)
    · exact ⟨rfl, _, .found ‹_›, pc_put⟩
    · rename_i hnone
      refine ⟨rfl, _, ?_, pc_put⟩
      dsimp only [State.goto]
      rw [free_of_none hnone]
      exact .missed hnone
  · obtain ⟨rfl, rfl⟩ := Prod.mk.inj (Option.some.inj h)
    exact ⟨rfl, _, .insert, pc_put⟩
  · split at h
    · obtain ⟨rfl, rfl⟩ := Prod.mk.inj (Option.some.inj h)
      exact ⟨rfl, _, .expire ‹_›, pc_put⟩
    · cases h
  · obtain ⟨rfl, rfl⟩ := Prod.mk.inj (Option.some.inj h)
    exact ⟨rfl, _, .usageInsert, pc_put⟩
  · obtain ⟨rfl, rfl⟩ := Prod.mk.inj (Option.some.inj h)
    have hpc : s.pc c = some _ := congrArg (Option.map Task.pc) htask
    exact ⟨rfl, _, .usageUpdate, (put_of_some hpc).symm⟩
  · obtain ⟨rfl, rfl⟩ := Prod.mk.inj (Option.some.inj h)
    exact ⟨rfl, _, .relayEnd, pc_put⟩
  · obtain ⟨rfl, rfl⟩ := Prod.mk.inj (Option.some.inj h)
    exact ⟨rfl, _, .usageRemove, pc_put⟩
  · cases h

theorem makePair_step {key : String} {s s' : State} {e : Event} {o : Out}
    (h : makePair key s e = some (s', o)) :
    s.clock ≤ e.now ∧ s'.clock = e.now ∧ Step key s e s' o := by
  unfold makePair at h
  split at h
  · cases h
  · rename_i hlt
    refine ⟨Nat.not_lt.mp hlt, ?_⟩
    dsimp only at h
    cases htask : s.tasks e.conn with
    | none =>
        have hpc : s.pc e.conn = none := congrArg (Option.map Task.pc) htask
        rw [htask] at h
        cases hact : e.act with
        | accept addr =>
            rw [hact] at h
            obtain ⟨rfl, rfl⟩ := Prod.mk.inj (Option.some.inj h)
            exact ⟨rfl, .accept hact hpc pc_put rfl rfl⟩
        | _ => rw [hact] at h; cases h
    | some t =>
        have hpc : s.pc e.conn = some t.pc := congrArg (Option.map Task.pc) htask
        rw [htask] at h
        obtain ⟨hclock, pc', hmove, hput⟩ :=
          taskStep_move (s := { s with clock := e.now }) htask h
        exact ⟨hclock, .move hpc hmove hput⟩

/-! ## Addresses -/

/-- A task keeps its address. -/
theorem taskStep_addr {key : String} {s s' : State} {c : ConnId} {t : Task} {act : Act} {o : Out}
    (htask : s.tasks c = some t) (h : taskStep key s c t t.pc act = some (s', o)) :
    ∃ t', s'.tasks = put s.tasks c t' ∧ t'.addr = t.addr := by
  unfold taskStep at h
  split at h
  · split at h <;> obtain ⟨rfl, _⟩ := Prod.mk.inj (Option.some.inj h) <;> exact ⟨_, rfl, rfl⟩
  · dsimp only at h
    split at h <;> obtain ⟨rfl, _⟩ := Prod.mk.inj (Option.some.inj h) <;> exact ⟨_, rfl, rfl⟩
  · obtain ⟨rfl, _⟩ := Prod.mk.inj (Option.some.inj h)
    exact ⟨_, rfl, rfl⟩
  · split at h
    · obtain ⟨rfl, _⟩ := Prod.mk.inj (Option.some.inj h)
      exact ⟨_, rfl, rfl⟩
    · cases h
  · obtain ⟨rfl, _⟩ := Prod.mk.inj (Option.some.inj h)
    exact ⟨_, rfl, rfl⟩
  · obtain ⟨rfl, _⟩ := Prod.mk.inj (Option.some.inj h)
    exact ⟨t, (put_of_some htask).symm, rfl⟩
  · obtain ⟨rfl, _⟩ := Prod.mk.inj (Option.some.inj h)
    exact ⟨_, rfl, rfl⟩
  · obtain ⟨rfl, _⟩ := Prod.mk.inj (Option.some.inj h)
    exact ⟨_, rfl, rfl⟩
  · cases h

/-- A step keeps every task's address, and a new task has the one it was accepted with. -/
theorem makePair_addr {key : String} {s s' : State} {e : Event} {o : Out}
    (h : makePair key s e = some (s', o)) :
    (∀ c t, s.tasks c = some t → ∃ t', s'.tasks c = some t' ∧ t'.addr = t.addr)
      ∧ ∀ addr, e.act = .accept addr → ∃ t', s'.tasks e.conn = some t' ∧ t'.addr = addr := by
  unfold makePair at h
  split at h
  · cases h
  · dsimp only at h
    split at h
    · rename_i addr hnone hact
      obtain ⟨rfl, _⟩ := Prod.mk.inj (Option.some.inj h)
      constructor
      · intro c t ht
        have hne : c ≠ e.conn := by
          rintro rfl
          rw [hnone] at ht
          cases ht
        exact ⟨t, (put_ne hne).trans ht, rfl⟩
      · intro addr' hact'
        obtain rfl := Act.accept.inj (hact.symm.trans hact')
        exact ⟨_, put_self .., rfl⟩
    · rename_i t htask
      obtain ⟨t', hput, haddr⟩ := taskStep_addr (s := { s with clock := e.now }) htask h
      constructor
      · intro c t₀ ht₀
        by_cases hc : c = e.conn
        · subst hc
          obtain rfl := Option.some.inj (htask.symm.trans ht₀)
          exact ⟨t', by rw [hput, put_self], haddr⟩
        · exact ⟨t₀, by rw [hput, put_ne hc]; exact ht₀, rfl⟩
      · intro addr hact
        -- no task is accepted twice
        obtain ⟨_, _, hmove, _⟩ := taskStep_move (s := { s with clock := e.now }) htask h
        rw [hact] at hmove
        generalize t.pc = pc at hmove
        cases hmove
    · cases h

end KinBridge.Hbbr
