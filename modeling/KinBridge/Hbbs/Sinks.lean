import KinBridge.Hbbs.Dispatch

/-!
# Write sinks

The connections of `hbbs`, each with a handler of its own, around one server.

A TCP or WebSocket connection is split, and the half that writes is its sink. The handler
holds it in a local `Option`. A request moves it into `tcp_punch`, under the client's
address, where the peer's answer finds it: the answer comes in on another connection, and
that connection's handler takes the sink out and writes, or spawns a task that does.

`handleTcp` says what a message makes its handler do with sinks. Here these effects are
carried out one by one, and any other handler may go on in between. A sink is named by its
connection.
-/

namespace KinBridge.Sinks

open KinBridge Runs Slots

abbrev ConnId := Nat

/-- One connection and its handler. -/
structure Conn where
  /-- What `handle_listener_inner` takes for the client's address: for a WebSocket, whatever
  its header made of it. -/
  addr : SocketAddr
  ws : Bool
  /-- `sink.is_some()`. -/
  sink : Bool
  /-- What is left to do for the current message. -/
  todo : List TcpEffect
  /-- Whether to read on after that. -/
  keep : Bool
  /-- On whose behalf: the connection itself, or the one whose request a peer has answered. -/
  cause : ConnId
  running : Bool

/-- A spawned `send_to_sink`: whose sink, which message, on whose behalf. -/
structure Sending where
  sink : ConnId
  msg : RendezvousMessage
  cause : ConnId

structure State where
  server : Server
  conns : ConnId → Option Conn
  tcpPunch : SocketAddr → Option ConnId
  sending : List Sending
  /-- The `socket_addr` of every request passed on to a peer, and the connection it came from. -/
  forwarded : List (ConnId × Bytes)

def State.start (s : Server) : State := ⟨s, fun _ => none, fun _ => none, [], []⟩

inductive Event where
  | udp (io : Io) (addr : SocketAddr) (msg : Option RendezvousMessage)
  | accept (c : ConnId) (addr : SocketAddr) (ws : Bool)
  /-- The handler reads a message. `cause` is whose request it answers, if it is an answer. -/
  | recv (c : ConnId) (io : Io) (msg : Option RendezvousMessage) (cause : ConnId)
  /-- The handler carries out the next effect. -/
  | exec (c : ConnId)
  /-- The `n`th of the spawned tasks writes. -/
  | flush (n : Nat)
  /-- The handler returns: after a last message, a timeout or a close. -/
  | finish (c : ConnId)

inductive Out where
  | silent
  /-- A message is written to the sink of `c`, on behalf of `cause`. -/
  | written (c : ConnId) (msg : RendezvousMessage) (cause : ConnId)

/-- The message answers somebody's request. -/
def isAnswer : Option RendezvousMessage → Bool
  | some (.punchHoleSent _) | some (.localAddr _) | some (.relayResponse _) => true
  | _ => false

/-- The requester's address in an answer, as the peer gives it. -/
def answerAddr : Option RendezvousMessage → Option Bytes
  | some (.punchHoleSent phs) => some phs.socketAddr
  | some (.localAddr la) => some la.socketAddr
  | some (.relayResponse rr) => some rr.socketAddr
  | _ => none

/-- The requester's address in a request passed on to a peer. -/
def forwardAddr : RendezvousMessage → Option Bytes
  | .punchHole ph => some ph.socketAddr
  | .fetchLocalAddr fla => some fla.socketAddr
  | .requestRelay rf => some rf.socketAddr
  | _ => none

variable (X : Ext) (key : String)

/-- One effect of a handler, on sinks. -/
def execEffect (s : State) (c : ConnId) (cn : Conn) : TcpEffect → State × Out
  | .park addr =>
    if cn.sink then
      ({ s with
          conns := put s.conns c { cn with sink := false }
          tcpPunch := put s.tcpPunch (X.tryIntoV4 addr) c }, .silent)
    else (s, .silent)
  | .queue msg _ =>
    match forwardAddr msg with
    | some bytes => ({ s with forwarded := (c, bytes) :: s.forwarded }, .silent)
    | none => (s, .silent)
  | .sendToTcp msg addr =>
    match s.tcpPunch (X.tryIntoV4 addr) with
    | some a =>
      ({ s with
          tcpPunch := free s.tcpPunch (X.tryIntoV4 addr)
          sending := ⟨a, msg, cn.cause⟩ :: s.sending }, .silent)
    | none => (s, .silent)
  | .sendToTcpSync msg addr =>
    match s.tcpPunch (X.tryIntoV4 addr) with
    | some a =>
      ({ s with tcpPunch := free s.tcpPunch (X.tryIntoV4 addr) }, .written a msg cn.cause)
    | none => (s, .silent)
  | .sendToSink msg =>
    if cn.sink then (s, .written c msg cn.cause) else (s, .silent)

/-- One step of the server, of a handler or of a spawned task. -/
def sinks (s : State) : Event → Option (State × Out)
  | .udp io addr msg =>
    some ({ s with server := (handleUdp X key s.server io addr msg).1 }, .silent)
  | .accept c addr ws =>
    match s.conns c with
    | some _ => none
    | none => some ({ s with conns := put s.conns c ⟨addr, ws, true, [], true, c, true⟩ }, .silent)
  | .recv c io msg cause =>
    match s.conns c with
    | some cn =>
      if cn.running ∧ cn.keep ∧ cn.todo = [] then
        let (server, todo, keep) := handleTcp X key s.server io.toDbIo cn.addr cn.ws msg
        let cause := if isAnswer msg then cause else c
        some ({ s with
          server := server
          conns := put s.conns c { cn with todo := todo, keep := keep, cause := cause } }, .silent)
      else none
    | none => none
  | .exec c =>
    match s.conns c with
    | some cn =>
      match cn.todo with
      | effect :: todo =>
        let cn := { cn with todo := todo }
        some (execEffect X { s with conns := put s.conns c cn } c cn effect)
      | [] => none
    | none => none
  | .flush n =>
    match s.sending[n]? with
    | some t => some ({ s with sending := s.sending.eraseIdx n }, .written t.sink t.msg t.cause)
    | none => none
  | .finish c =>
    match s.conns c with
    | some cn =>
      if cn.running ∧ cn.todo = [] then
        some ({ s with
          conns := put s.conns c { cn with sink := false, running := false }
          tcpPunch :=
            if cn.sink then s.tcpPunch else free s.tcpPunch (X.tryIntoV4 cn.addr) }, .silent)
      else none
    | none => none

variable {X key}

/-! ## What one step can do -/

/-- What a message can make its handler do. An answer goes to the address it names; anything
else concerns the connection itself. -/
inductive Script (X : Ext) (addr : SocketAddr) :
    Option RendezvousMessage → List TcpEffect → Bool → Prop where
  | forward {m : Option RendezvousMessage} {msg : RendezvousMessage} {dest : SocketAddr} :
      isAnswer m = false → forwardAddr msg = some (X.encode addr) →
      Script X addr m [.park addr, .queue msg dest] true
  | refuse {m : Option RendezvousMessage} {msg : RendezvousMessage} : isAnswer m = false →
      Script X addr m [.park addr, .sendToTcpSync msg addr] true
  | park {m : Option RendezvousMessage} : isAnswer m = false → Script X addr m [.park addr] true
  | answerSync {m : Option RendezvousMessage} {msg : RendezvousMessage} {bytes : Bytes} :
      isAnswer m = true → answerAddr m = some bytes →
      Script X addr m [.sendToTcpSync msg (X.decode bytes)] false
  | answer {m : Option RendezvousMessage} {msg : RendezvousMessage} {bytes : Bytes} :
      isAnswer m = true → answerAddr m = some bytes →
      Script X addr m [.sendToTcp msg (X.decode bytes)] false
  | reply {m : Option RendezvousMessage} {msg : RendezvousMessage} : isAnswer m = false →
      Script X addr m [.sendToSink msg] false
  | nothing {m : Option RendezvousMessage} : isAnswer m = false → Script X addr m [] false

theorem forwardPunchHole_forwardAddr (s : Server) (now : Instant) (addr : SocketAddr)
    (ph : PunchHoleRequest) (ws : Bool) (peerAddr : SocketAddr) :
    forwardAddr (forwardPunchHole X s now addr ph ws peerAddr).2 = some (X.encode addr) := by
  unfold forwardPunchHole
  dsimp only
  split <;> rfl

/-- A request is passed on with the requester's address. -/
theorem handlePunchHoleRequest_forwardAddr {s s' : Server} {io : DbIo} {addr dest : SocketAddr}
    {ph : PunchHoleRequest} {ws : Bool} {msg : RendezvousMessage}
    (h : handlePunchHoleRequest X key s io addr ph ws = (s', msg, some dest)) :
    forwardAddr msg = some (X.encode addr) := by
  unfold handlePunchHoleRequest at h
  split at h
  · simp at h
  · split at h
    · simp at h
    · dsimp only at h
      split at h
      · simp at h
      · obtain ⟨_, hmsg⟩ := Prod.mk.inj h
        rw [← (Prod.mk.inj hmsg).1]
        exact forwardPunchHole_forwardAddr ..

theorem handleTcp_script (s : Server) (io : DbIo) (addr : SocketAddr) (ws : Bool)
    (m : Option RendezvousMessage) :
    Script X addr m (handleTcp X key s io addr ws m).2.1 (handleTcp X key s io addr ws m).2.2 := by
  unfold handleTcp
  split
  · split
    · rename_i heq
      exact .forward rfl (handlePunchHoleRequest_forwardAddr heq)
    · exact .refuse rfl
  · split
    · exact .forward rfl rfl
    · exact .park rfl
  · exact .answerSync rfl rfl
  · exact .answer rfl rfl
  · exact .answer rfl rfl
  · exact .reply rfl
  · exact .reply rfl
  · rename_i hph hrf hrr hphs hla hnat hpk
    refine .nothing ?_
    unfold isAnswer
    split
    · exact absurd rfl (hphs _)
    · exact absurd rfl (hla _)
    · exact absurd rfl (hrr _)
    · rfl

/-- Every step there is, and what it does to connections and sinks. -/
inductive Move (X : Ext) (s : State) : Event → State → Out → Prop where
  | udp {io : Io} {addr : SocketAddr} {msg : Option RendezvousMessage} {server : Server} :
      Move X s (.udp io addr msg) { s with server := server } .silent
  | accept {c : ConnId} {addr : SocketAddr} {ws : Bool} : s.conns c = none →
      Move X s (.accept c addr ws)
        { s with conns := put s.conns c ⟨addr, ws, true, [], true, c, true⟩ } .silent
  | recv {c cause : ConnId} {io : Io} {msg : Option RendezvousMessage} {cn : Conn}
      {server : Server} {todo : List TcpEffect} {keep : Bool} : s.conns c = some cn →
      cn.running = true → cn.keep = true → cn.todo = [] → Script X cn.addr msg todo keep →
      Move X s (.recv c io msg cause)
        { s with
          server := server
          conns := put s.conns c
            { cn with todo := todo, keep := keep, cause := if isAnswer msg then cause else c } }
        .silent
  /-- The effect finds nothing to act on. -/
  | skip {c : ConnId} {cn : Conn} {effect : TcpEffect} {todo : List TcpEffect} :
      s.conns c = some cn → cn.todo = effect :: todo →
      (∀ addr, effect = .park addr → cn.sink = false) →
      (∀ msg dest, effect = .queue msg dest → forwardAddr msg = none) →
      Move X s (.exec c) { s with conns := put s.conns c { cn with todo := todo } } .silent
  | park {c : ConnId} {cn : Conn} {addr : SocketAddr} {todo : List TcpEffect} :
      s.conns c = some cn → cn.todo = .park addr :: todo → cn.sink = true →
      Move X s (.exec c)
        { s with
          conns := put s.conns c { cn with todo := todo, sink := false }
          tcpPunch := put s.tcpPunch (X.tryIntoV4 addr) c } .silent
  | queue {c : ConnId} {cn : Conn} {msg : RendezvousMessage} {dest : SocketAddr}
      {todo : List TcpEffect} {bytes : Bytes} :
      s.conns c = some cn → cn.todo = .queue msg dest :: todo → forwardAddr msg = some bytes →
      Move X s (.exec c)
        { s with
          conns := put s.conns c { cn with todo := todo }
          forwarded := (c, bytes) :: s.forwarded } .silent
  | sendToTcp {c a : ConnId} {cn : Conn} {msg : RendezvousMessage} {addr : SocketAddr}
      {todo : List TcpEffect} : s.conns c = some cn → cn.todo = .sendToTcp msg addr :: todo →
      s.tcpPunch (X.tryIntoV4 addr) = some a →
      Move X s (.exec c)
        { s with
          conns := put s.conns c { cn with todo := todo }
          tcpPunch := free s.tcpPunch (X.tryIntoV4 addr)
          sending := ⟨a, msg, cn.cause⟩ :: s.sending } .silent
  | sendToTcpSync {c a : ConnId} {cn : Conn} {msg : RendezvousMessage} {addr : SocketAddr}
      {todo : List TcpEffect} : s.conns c = some cn → cn.todo = .sendToTcpSync msg addr :: todo →
      s.tcpPunch (X.tryIntoV4 addr) = some a →
      Move X s (.exec c)
        { s with
          conns := put s.conns c { cn with todo := todo }
          tcpPunch := free s.tcpPunch (X.tryIntoV4 addr) } (.written a msg cn.cause)
  | sendToSink {c : ConnId} {cn : Conn} {msg : RendezvousMessage} {todo : List TcpEffect} :
      s.conns c = some cn → cn.todo = .sendToSink msg :: todo → cn.sink = true →
      Move X s (.exec c) { s with conns := put s.conns c { cn with todo := todo } }
        (.written c msg cn.cause)
  | flush {n : Nat} {t : Sending} : s.sending[n]? = some t →
      Move X s (.flush n) { s with sending := s.sending.eraseIdx n } (.written t.sink t.msg t.cause)
  /-- The handler returns with its sink in hand. -/
  | drop {c : ConnId} {cn : Conn} : s.conns c = some cn → cn.running = true → cn.todo = [] →
      cn.sink = true →
      Move X s (.finish c)
        { s with conns := put s.conns c { cn with sink := false, running := false } } .silent
  /-- The handler returns after its sink has gone, and clears its key. -/
  | clear {c : ConnId} {cn : Conn} : s.conns c = some cn → cn.running = true → cn.todo = [] →
      cn.sink = false →
      Move X s (.finish c)
        { s with
          conns := put s.conns c { cn with sink := false, running := false }
          tcpPunch := free s.tcpPunch (X.tryIntoV4 cn.addr) } .silent

theorem execEffect_move {s s' : State} {c : ConnId} {cn : Conn} {effect : TcpEffect}
    {todo : List TcpEffect} {o : Out} (hcn : s.conns c = some cn) (htodo : cn.todo = effect :: todo)
    (h : execEffect X { s with conns := put s.conns c { cn with todo := todo } } c
      { cn with todo := todo } effect = (s', o)) : Move X s (.exec c) s' o := by
  cases effect with
  | park addr =>
      simp only [execEffect, put_put] at h
      split at h <;> obtain ⟨rfl, rfl⟩ := Prod.mk.inj h
      · exact .park hcn htodo ‹_›
      · rename_i hsink
        exact .skip hcn htodo (fun _ _ => Bool.eq_false_iff.mpr hsink) (by intros; contradiction)
  | queue msg dest =>
      simp only [execEffect] at h
      split at h <;> obtain ⟨rfl, rfl⟩ := Prod.mk.inj h
      · exact .queue hcn htodo ‹_›
      · rename_i hnone
        refine .skip hcn htodo (by intros; contradiction) ?_
        intro _ _ heq
        obtain ⟨rfl, _⟩ := TcpEffect.queue.inj heq
        exact hnone
  | sendToTcp msg addr =>
      simp only [execEffect] at h
      split at h <;> obtain ⟨rfl, rfl⟩ := Prod.mk.inj h
      · exact .sendToTcp hcn htodo ‹_›
      · exact .skip hcn htodo (by intros; contradiction) (by intros; contradiction)
  | sendToTcpSync msg addr =>
      simp only [execEffect] at h
      split at h <;> obtain ⟨rfl, rfl⟩ := Prod.mk.inj h
      · exact .sendToTcpSync hcn htodo ‹_›
      · exact .skip hcn htodo (by intros; contradiction) (by intros; contradiction)
  | sendToSink msg =>
      simp only [execEffect] at h
      split at h <;> obtain ⟨rfl, rfl⟩ := Prod.mk.inj h
      · exact .sendToSink hcn htodo ‹_›
      · exact .skip hcn htodo (by intros; contradiction) (by intros; contradiction)

theorem sinks_move {s s' : State} {e : Event} {o : Out} (h : sinks X key s e = some (s', o)) :
    Move X s e s' o := by
  cases e with
  | udp io addr msg =>
      obtain ⟨rfl, rfl⟩ := Prod.mk.inj (Option.some.inj h)
      exact .udp
  | accept c addr ws =>
      simp only [sinks] at h
      split at h
      · cases h
      · obtain ⟨rfl, rfl⟩ := Prod.mk.inj (Option.some.inj h)
        exact .accept ‹_›
  | recv c io msg cause =>
      simp only [sinks] at h
      split at h
      · rename_i cn hcn
        split at h
        · rename_i hc
          obtain ⟨rfl, rfl⟩ := Prod.mk.inj (Option.some.inj h)
          exact .recv hcn hc.1 hc.2.1 hc.2.2 (handleTcp_script ..)
        · cases h
      · cases h
  | exec c =>
      simp only [sinks] at h
      split at h
      · rename_i cn hcn
        split at h
        · rename_i effect todo htodo
          exact execEffect_move hcn htodo (Option.some.inj h)
        · cases h
      · cases h
  | flush n =>
      simp only [sinks] at h
      split at h
      · obtain ⟨rfl, rfl⟩ := Prod.mk.inj (Option.some.inj h)
        exact .flush ‹_›
      · cases h
  | finish c =>
      simp only [sinks] at h
      split at h
      · rename_i cn hcn
        split at h
        · rename_i hc
          obtain ⟨rfl, rfl⟩ := Prod.mk.inj (Option.some.inj h)
          cases hsink : cn.sink with
          | true => exact .drop hcn hc.1 hc.2 hsink
          | false => exact .clear hcn hc.1 hc.2 hsink
        · cases h
      · cases h

end KinBridge.Sinks
