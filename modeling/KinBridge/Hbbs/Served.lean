import KinBridge.Hbbs.Command
import KinBridge.Hbbs.Header
import KinBridge.Hbbs.Loop
import KinBridge.Hbbs.Online

/-!
# Who serves a connection

`handle_listener` and `handle_listener2` clone the server and serve the connection from the
clone, in a task. So does `handle_udp` with a punch-hole request whose peer is not in memory.
A clone shares the peer map, the channel and the process-wide tables with the server. The
relay lists, `rendezvous_servers` and `inner` are behind `Arc`s, which `io_loop` replaces and
does not write to: a clone has the ones that were in force when it was made.

`served` is `io_loop` with these tasks. With `live` it lends every task the server as it is
now, which is what the code would do if the fields were locked.

A message, a command or a lookup is handled in one piece: whoever looks an id up has read its
row and made the entry before anything else happens. In the code a lookup waits for its row,
and then writes over what came into memory meanwhile. That is taken apart in
`KinBridge.Store.Handles`, and no run of `served` shows it.
-/

namespace KinBridge

open Runs
open Hbbr (WsHeaders)

/-- The fields of which a clone keeps what it was made with. -/
structure Clone where
  relayServers : List String
  relayServers0 : List String
  rendezvousServers : List String
  inner : Inner

/-- `self.clone()`. -/
def Server.clone (s : Server) : Clone :=
  ⟨s.relayServers, s.relayServers0, s.rendezvousServers, s.inner⟩

/-- The server as a clone has it. -/
def Server.on (s : Server) (c : Clone) : Server :=
  { s with
    relayServers := c.relayServers
    relayServers0 := c.relayServers0
    rendezvousServers := c.rendezvousServers
    inner := c.inner }

/-- What of `inner` stays. -/
def Inner.unversioned (i : Inner) : Inner := { i with serial := 0 }

/-! ## Tasks -/

inductive TaskKind where
  /-- `handle_listener`, on `listener3` with `ws`. -/
  | tcp (addr : SocketAddr) (ws : Bool)
  /-- `handle_listener2`. -/
  | nat (addr : SocketAddr)
  /-- `handle_listener2`, from loopback. -/
  | command
  /-- `handle_udp` with a punch-hole request whose peer is not in memory. -/
  | punch (addr : SocketAddr) (ph : PunchHoleRequest)

/-- What `handle_listener2` looks for in a message. -/
inductive NatMessage where
  | testNatRequest (serial : Int)
  | onlineRequest (peers : List String)
  | other

inductive TaskInput where
  | message (io : Io) (msg : Option RendezvousMessage)
  | nat (now : Instant) (msg : Option NatMessage)
  | command (now : Instant) (conn : LoopbackConn)
  | lookup (io : Io)

inductive TaskOut where
  | effects (effects : List TcpEffect)
  | natResponse (res : TestNatResponse)
  | onlineResponse (states : Bytes)
  /-- The command that was executed, and the answer. -/
  | text (cmd res : String)
  | nothing

/-- A task's turn: the server after, what goes into the channel, what comes out, and whether
the task goes on. -/
structure TaskTurn where
  server : Server
  queued : List Data
  out : TaskOut
  keep : Bool

variable (X : Ext) (key : String) (iso : Nat → String)

/-- What a task does with what it reads, in one piece. -/
def TaskKind.turn (s : Server) : TaskKind → TaskInput → Option TaskTurn
  | .tcp addr ws, .message io msg =>
    let (s, effects, keep) := handleTcp X key s io.toDbIo addr ws msg
    some ⟨s, (Out.tcp effects keep).queued, .effects effects, keep⟩
  | .nat addr, .nat now msg =>
    match msg with
    -- no `cu` here, whatever the serial
    | some (.testNatRequest _) => some ⟨s, [], .natResponse ⟨addr.port, none⟩, false⟩
    | some (.onlineRequest peers) =>
      some ⟨s, [], .onlineResponse (handleOnlineRequest s now peers), false⟩
    | _ => some ⟨s, [], .nothing, false⟩
  | .command, .command now conn =>
    match handleLoopback iso s now conn with
    | some (data, out) => some ⟨out.server, out.queued, .text data out.res, false⟩
    | none => some ⟨s, [], .nothing, false⟩
  | .punch addr ph, .lookup io =>
    let (s, msg, toAddr) := handlePunchHoleRequest X key s io.toDbIo addr ph false
    let addr := toAddr.getD addr
    some ⟨s, [.msg msg addr], .effects [.queue msg addr], false⟩
  | _, _ => none

/-! ## The machine -/

structure Task where
  clone : Clone
  kind : TaskKind

/-- `io_loop`, and its tasks in the order in which they were spawned: `none` if done. -/
structure Served where
  loop : IoLoop
  tasks : List (Option Task)

def Served.start (cfg : Config) (db : Table) : Served := ⟨.start cfg db, []⟩

/-- `tokio::spawn`, with a clone. -/
def Served.spawn (st : Served) (kind : TaskKind) : Served :=
  { st with tasks := st.tasks ++ [some ⟨st.loop.server.clone, kind⟩] }

inductive ServedEvent where
  | tick
  | checked (i : Nat) (rs : List String)
  | recv
  | datagram (io : Io) (addr : SocketAddr) (msg : Option RendezvousMessage)
  /-- With the headers of the handshake, if it is a WebSocket. -/
  | accept (l : Listener) (addr : SocketAddr) (headers : Option WsHeaders)
  /-- The task at this place reads something. -/
  | read (i : Nat) (input : TaskInput)
  /-- The task at this place ends without another message. -/
  | close (i : Nat)

inductive ServedOut where
  | silent
  | udp (out : UdpOut)
  | task (out : TaskOut)

/-- What a listener starts. -/
def Listener.task (l : Listener) (addr : SocketAddr) (headers : Option WsHeaders) : TaskKind :=
  match l with
  | .listener => .tcp addr false
  | .listener2 => if (X.tryIntoV4 addr).ip.isLoopback then .command else .nat addr
  | .listener3 => .tcp (handleListenerAddr addr headers) true

/-- A punch-hole request that is not handled at once. -/
def spawnedPunch (s : Server) : Option RendezvousMessage → Option PunchHoleRequest
  | some (.punchHoleRequest ph) => if (s.pm.map ph.id).isSome then none else some ph
  | _ => none

/-- The clone that a task works with. -/
def Task.view (t : Task) (live : Bool) (s : Server) : Clone := if live then s.clone else t.clone

/-- The task is done. -/
def Served.finish (st : Served) (i : Nat) : Served := { st with tasks := st.tasks.set i none }

/-- After a task's turn: what it changed is shared, except for the fields of its clone. -/
def Served.after (st : Served) (i : Nat) (t : TaskTurn) : Served :=
  let st' : Served := { st with
    loop := { st.loop with
      server := t.server.on st.loop.server.clone
      queue := st.loop.queue ++ t.queued } }
  if t.keep then st' else st'.finish i

/-- One turn of `io_loop`, or one of its tasks, after the one before is over. -/
def served (live : Bool) (cfg : Config) (st : Served) : ServedEvent → Option (Served × ServedOut)
  | .tick => (ioLoop X key cfg st.loop .tick).map fun r => ({ st with loop := r.1 }, .silent)
  | .checked i rs =>
    (ioLoop X key cfg st.loop (.checked i rs)).map fun r => ({ st with loop := r.1 }, .silent)
  | .recv => (ioLoop X key cfg st.loop .recv).map fun r => ({ st with loop := r.1 }, .silent)
  | .datagram io addr msg =>
    match spawnedPunch st.loop.server msg with
    | some ph => some (st.spawn (.punch addr ph), .silent)
    | none =>
      let (s, out) := handleUdp X key st.loop.server io addr msg
      let queue := st.loop.queue ++ (Out.udp out).queued
      some ({ st with loop := { st.loop with server := s, queue := queue } }, .udp out)
  | .accept l addr headers => some (st.spawn (l.task X addr headers), .silent)
  | .read i input =>
    match st.tasks[i]? with
    | some (some t) =>
      let s := st.loop.server
      (t.kind.turn X key iso (s.on (t.view live s)) input).map fun r =>
        (st.after i r, .task r.out)
    | _ => none
  | .close i =>
    match st.tasks[i]? with
    | some (some _) => some (st.finish i, .silent)
    | _ => none

/-! ## What a step does -/

/-- The turns of `io_loop` that are no message. -/
def ServedEvent.loopEvent : ServedEvent → Option LoopEvent
  | .tick => some .tick
  | .checked i rs => some (.checked i rs)
  | .recv => some .recv
  | _ => none

/-- The loop's own turn, a datagram handled at once, a new task, or a turn or the end of one. -/
inductive ServedStep (live : Bool) (cfg : Config) (st : Served) :
    ServedEvent → Served → ServedOut → Prop where
  | loop {e : ServedEvent} {e' : LoopEvent} {l : IoLoop} : e.loopEvent = some e' →
      ioLoop X key cfg st.loop e' = some (l, ()) →
      ServedStep live cfg st e { st with loop := l } .silent
  | datagram {io : Io} {addr : SocketAddr} {msg : Option RendezvousMessage} {s : Server}
      {out : UdpOut} : spawnedPunch st.loop.server msg = none →
      handleUdp X key st.loop.server io addr msg = (s, out) →
      ServedStep live cfg st (.datagram io addr msg)
        { st with
          loop := { st.loop with server := s, queue := st.loop.queue ++ (Out.udp out).queued } }
        (.udp out)
  | punch {io : Io} {addr : SocketAddr} {msg : Option RendezvousMessage}
      {ph : PunchHoleRequest} : spawnedPunch st.loop.server msg = some ph →
      ServedStep live cfg st (.datagram io addr msg) (st.spawn (.punch addr ph)) .silent
  | accept {l : Listener} {addr : SocketAddr} {headers : Option WsHeaders} :
      ServedStep live cfg st (.accept l addr headers) (st.spawn (l.task X addr headers)) .silent
  | turn {i : Nat} {input : TaskInput} {t : Task} {r : TaskTurn} :
      st.tasks[i]? = some (some t) →
      t.kind.turn X key iso (st.loop.server.on (t.view live st.loop.server)) input = some r →
      ServedStep live cfg st (.read i input) (st.after i r) (.task r.out)
  | close {i : Nat} {t : Task} : st.tasks[i]? = some (some t) →
      ServedStep live cfg st (.close i) (st.finish i) .silent

variable {X key iso}

theorem served_step {live : Bool} {cfg : Config} {st st' : Served} {e : ServedEvent}
    {o : ServedOut} (h : served X key iso live cfg st e = some (st', o)) :
    ServedStep X key iso live cfg st e st' o := by
  cases e with
  | tick =>
      obtain ⟨⟨l, _⟩, hst, heq⟩ := Option.map_eq_some_iff.mp h
      obtain ⟨rfl, rfl⟩ := Prod.mk.inj heq
      exact .loop rfl hst
  | checked i rs =>
      obtain ⟨⟨l, _⟩, hst, heq⟩ := Option.map_eq_some_iff.mp h
      obtain ⟨rfl, rfl⟩ := Prod.mk.inj heq
      exact .loop rfl hst
  | recv =>
      obtain ⟨⟨l, _⟩, hst, heq⟩ := Option.map_eq_some_iff.mp h
      obtain ⟨rfl, rfl⟩ := Prod.mk.inj heq
      exact .loop rfl hst
  | datagram io addr msg =>
      rw [served] at h
      cases hp : spawnedPunch st.loop.server msg with
      | some ph =>
          rw [hp] at h
          obtain ⟨rfl, rfl⟩ := Prod.mk.inj (Option.some.inj h)
          exact .punch hp
      | none =>
          rw [hp] at h
          obtain ⟨rfl, rfl⟩ := Prod.mk.inj (Option.some.inj h)
          exact .datagram hp rfl
  | accept l addr headers =>
      obtain ⟨rfl, rfl⟩ := Prod.mk.inj (Option.some.inj h)
      exact .accept
  | read i input =>
      simp only [served] at h
      split at h
      · rename_i t ht
        obtain ⟨r, hr, heq⟩ := Option.map_eq_some_iff.mp h
        obtain ⟨rfl, rfl⟩ := Prod.mk.inj heq
        exact .turn ht hr
      · cases h
  | close i =>
      simp only [served] at h
      split at h
      · rename_i t ht
        obtain ⟨rfl, rfl⟩ := Prod.mk.inj (Option.some.inj h)
        exact .close ht
      · cases h

/-! ## What is sent -/

/-- The relay that a message to a client names. -/
def RendezvousMessage.relay : RendezvousMessage → Option String
  | .punchHole ph => some ph.relayServer
  | .fetchLocalAddr fla => some fla.relayServer
  | .punchHoleResponse phr => some phr.relayServer
  | .relayResponse rr => some rr.relayServer
  | _ => none

/-- The relay that a peer names in what it answers. -/
def RendezvousMessage.peerRelay : RendezvousMessage → Option String
  | .punchHoleSent phs => some phs.relayServer
  | .localAddr la => some la.relayServer
  | .relayResponse rr => some rr.relayServer
  | _ => none

/-- The `ConfigUpdate` in a message to a client. -/
def RendezvousMessage.update : RendezvousMessage → Option ConfigUpdate
  | .configureUpdate cu => some cu
  | .testNatResponse res => res.cu
  | _ => none

/-- What is announced with these fields. -/
def Clone.update (c : Clone) : ConfigUpdate := ⟨c.inner.serial, c.rendezvousServers⟩

/-- The message of an effect. -/
def TcpEffect.msg : TcpEffect → Option RendezvousMessage
  | .park _ => none
  | .queue msg _ | .sendToTcp msg _ | .sendToTcpSync msg _ | .sendToSink msg => some msg

/-- Every message that a step sends or puts into the channel. -/
def TaskOut.messages : TaskOut → List RendezvousMessage
  | .effects l => l.filterMap TcpEffect.msg
  | .natResponse res => [.testNatResponse res]
  | .onlineResponse _ | .text _ _ | .nothing => []

def ServedOut.messages : ServedOut → List RendezvousMessage
  | .silent => []
  | .udp out => (out.sends ++ out.queued).map Prod.fst
  | .task out => out.messages

end KinBridge
