import KinBridge.Lib.Runs
import KinBridge.Hbbs.Punch
import KinBridge.Hbbs.Register

/-!
# `hbbs` as a state machine

`handle_udp` and `handle_tcp` dispatch one message each. `hbbs` puts them together with
restarts into the step function whose runs the results quantify over.

A TCP or WebSocket handler touches `tcp_punch` in between its other work, under a lock
of its own each time. `handleTcp` therefore does not act on the sinks but returns what
it is going to do with them, in order, and `KinBridge.Hbbs.Sinks` interleaves these
effects between connections.
-/

namespace KinBridge

open Runs

variable (X : Ext) (key : String)

/-! ## UDP -/

/-- What a datagram makes `hbbs` send: on the socket, in order, and through the channel of
`io_loop` (`tx.send(Data::Msg(..))`). `ok` is whether `handle_udp` returns `Ok`. -/
structure UdpOut where
  sends : List (RendezvousMessage × SocketAddr)
  queued : List (RendezvousMessage × SocketAddr)
  ok : Bool

/-- A single `socket.send(..).await?`. -/
def UdpOut.send (io : Io) (msg : RendezvousMessage) (addr : SocketAddr) : UdpOut :=
  ⟨[(msg, addr)], [], io.sendOk addr⟩

def UdpOut.quiet : UdpOut := ⟨[], [], true⟩

def handleUdp (s : Server) (io : Io) (addr : SocketAddr) :
    Option RendezvousMessage → Server × UdpOut
  | some (.registerPeer rp) =>
    if rp.id = "" then (s, .quiet)
    else
      let (pm, requestPk) := updateAddr s.pm io.now rp.id addr
      let s := { s with pm := pm }
      let answer := (.registerPeerResponse requestPk, addr)
      if io.sendOk addr && s.inner.serial > rp.serial then
        let cu := .configureUpdate ⟨s.inner.serial, s.rendezvousServers⟩
        (s, ⟨[answer, (cu, addr)], [], io.sendOk addr⟩)
      else (s, ⟨[answer], [], io.sendOk addr⟩)
  | some (.registerPk rk) =>
    match handleRegisterPk X s io.toDbIo addr rk with
    | (s, none) => (s, .quiet)
    | (s, some r) => (s, .send io (.registerPkResponse r) addr)
  | some (.punchHoleRequest ph) =>
    let (s, msg, toAddr) := handlePunchHoleRequest X key s io.toDbIo addr ph false
    (s, ⟨[], [(msg, toAddr.getD addr)], true⟩)
  | some (.punchHoleSent phs) =>
    let (s, msg, addrA) := handleHoleSent X s io.toDbIo phs addr
    (s, .send io msg addrA)
  | some (.localAddr la) =>
    let (s, msg, addrA) := handleLocalAddr X s io.toDbIo la
    (s, .send io msg addrA)
  | some (.configureUpdate cu) =>
    if (X.tryIntoV4 addr).ip.isLoopback && cu.serial > s.inner.serial then
      ({ s with
          inner := { s.inner with serial := cu.serial }
          rendezvousServers := cu.rendezvousServers.filter fun x => x ≠ "" && X.validServer x },
        .quiet)
    else (s, .quiet)
  | some (.softwareUpdate url) =>
    if s.inner.version ≠ "" ∧ url ≠ s.inner.version then
      (s, .send io (.softwareUpdate s.inner.softwareUrl) addr)
    else (s, .quiet)
  | _ => (s, .quiet)

/-! ## TCP and WebSocket -/

/-- What a connection's handler does with write sinks, and what it queues for `io_loop`. -/
inductive TcpEffect where
  /-- `sink.take()`, and if it was there, `tcp_punch.insert(try_into_v4(addr), sink)`. -/
  | park (addr : SocketAddr)
  /-- `tx.send(Data::Msg(msg, addr))`. -/
  | queue (msg : RendezvousMessage) (addr : SocketAddr)
  /-- `send_to_tcp`: take the sink out, and write in a spawned task. -/
  | sendToTcp (msg : RendezvousMessage) (addr : SocketAddr)
  /-- `send_to_tcp_sync`: take the sink out and write. -/
  | sendToTcpSync (msg : RendezvousMessage) (addr : SocketAddr)
  /-- `send_to_sink` on the handler's own sink. -/
  | sendToSink (msg : RendezvousMessage)
deriving DecidableEq, Repr

/-- `handle_tcp`: the server after, the effects in order, and whether to keep reading. -/
def handleTcp (s : Server) (io : DbIo) (addr : SocketAddr) (ws : Bool) :
    Option RendezvousMessage → Server × List TcpEffect × Bool
  | some (.punchHoleRequest ph) =>
    match handlePunchHoleRequest X key s io addr ph ws with
    | (s, msg, some toAddr) => (s, [.park addr, .queue msg toAddr], true)
    | (s, msg, none) => (s, [.park addr, .sendToTcpSync msg addr], true)
  | some (.requestRelay rf) =>
    match s.pm.map rf.id with
    | some peer =>
      let msg := .requestRelay { rf with socketAddr := X.encode addr }
      (s, [.park addr, .queue msg peer.socketAddr], true)
    | none => (s, [.park addr], true)
  | some (.relayResponse rr) =>
    let (s, msg, addrB) := handleRelayResponse X s io rr
    (s, [.sendToTcpSync msg addrB], false)
  | some (.punchHoleSent phs) =>
    let (s, msg, addrA) := handleHoleSent X s io phs addr
    (s, [.sendToTcp msg addrA], false)
  | some (.localAddr la) =>
    let (s, msg, addrA) := handleLocalAddr X s io la
    (s, [.sendToTcp msg addrA], false)
  | some (.testNatRequest serial) =>
    let cu : Option ConfigUpdate :=
      if s.inner.serial > serial then some ⟨s.inner.serial, s.rendezvousServers⟩ else none
    (s, [.sendToSink (.testNatResponse ⟨addr.port, cu⟩)], false)
  | some (.registerPk _) => (s, [.sendToSink (.registerPkResponse .NOT_SUPPORT)], false)
  | _ => (s, [], false)

/-! ## The machine -/

inductive Event where
  | udp (io : Io) (addr : SocketAddr) (msg : Option RendezvousMessage)
  | tcp (io : Io) (addr : SocketAddr) (ws : Bool) (msg : Option RendezvousMessage)
  | restart

/-- What the handler of this event meets from outside. -/
def Event.io : Event → Option Io
  | .udp io _ _ => some io
  | .tcp io _ _ _ => some io
  | .restart => none

inductive Out where
  | udp (out : UdpOut)
  | tcp (effects : List TcpEffect) (keep : Bool)
  | restarted

/-- Every message that is sent to an address, at once or through a channel. -/
def Out.sent : Out → List (RendezvousMessage × SocketAddr)
  | .udp out => out.sends ++ out.queued
  | .tcp effects _ => effects.filterMap fun
    | .queue msg addr => some (msg, addr)
    | .sendToTcp msg addr => some (msg, addr)
    | .sendToTcpSync msg addr => some (msg, addr)
    | .park _ => none
    | .sendToSink _ => none
  | .restarted => []

/-- One message handled in one piece, with its lookups, or a restart over the same table. -/
def hbbs (cfg : Config) (s : Server) : Event → Option (Server × Out)
  | .udp io addr msg =>
    let (s, out) := handleUdp X key s io addr msg
    some (s, .udp out)
  | .tcp io addr ws msg =>
    let (s, effects, keep) := handleTcp X key s io.toDbIo addr ws msg
    some (s, .tcp effects keep)
  | .restart => some (Server.start cfg s.pm.db, .restarted)

/-- Everything an event can do to the peer map. -/
inductive PmStep (s : Server) : Event → PeerMap → Prop where
  | registerPk {io : Io} {addr : SocketAddr} {rk : RegisterPk} :
      PmStep s (.udp io addr (some (.registerPk rk)))
        (handleRegisterPk X s io.toDbIo addr rk).1.pm
  | registerPeer {io : Io} {addr : SocketAddr} {rp : RegisterPeer} : rp.id ≠ "" →
      PmStep s (.udp io addr (some (.registerPeer rp))) (updateAddr s.pm io.now rp.id addr).1
  | looked {e : Event} {io : Io} {pm' : PeerMap} : e.io = some io →
      Looked X io.toDbIo s.pm pm' → PmStep s e pm'
  | restart : PmStep s .restart ⟨fun _ => none, s.pm.db⟩

variable {X key}

theorem hbbs_udp {cfg : Config} {s s' : Server} {io : Io} {addr : SocketAddr}
    {msg : Option RendezvousMessage} {o : Out} :
    hbbs X key cfg s (.udp io addr msg) = some (s', o) ↔
      s' = (handleUdp X key s io addr msg).1 ∧ o = .udp (handleUdp X key s io addr msg).2 := by
  rw [hbbs, Option.some.injEq, Prod.mk.injEq, eq_comm, @eq_comm _ (Out.udp _)]

theorem hbbs_tcp {cfg : Config} {s s' : Server} {io : Io} {addr : SocketAddr} {ws : Bool}
    {msg : Option RendezvousMessage} {o : Out} :
    hbbs X key cfg s (.tcp io addr ws msg) = some (s', o) ↔
      s' = (handleTcp X key s io.toDbIo addr ws msg).1
        ∧ o = .tcp (handleTcp X key s io.toDbIo addr ws msg).2.1
          (handleTcp X key s io.toDbIo addr ws msg).2.2 := by
  rw [hbbs, Option.some.injEq, Prod.mk.injEq, eq_comm, @eq_comm _ (Out.tcp _ _)]

theorem handleUdp_registerPk (s : Server) (io : Io) (addr : SocketAddr) (rk : RegisterPk) :
    (handleUdp X key s io addr (some (.registerPk rk))).1
        = (handleRegisterPk X s io.toDbIo addr rk).1
      ∧ (handleUdp X key s io addr (some (.registerPk rk))).2.sends
        = ((handleRegisterPk X s io.toDbIo addr rk).2.map
            fun r => (.registerPkResponse r, addr)).toList := by
  unfold handleUdp
  dsimp only
  split <;> rename_i heq <;> rw [heq] <;> exact ⟨rfl, rfl⟩

/-- A heartbeat gets one answer, and the map is as `update_addr` leaves it. -/
theorem handleUdp_registerPeer {s : Server} {io : Io} {addr : SocketAddr} {rp : RegisterPeer}
    (hid : rp.id ≠ "") :
    (handleUdp X key s io addr (some (.registerPeer rp))).1.pm
        = (updateAddr s.pm io.now rp.id addr).1
      ∧ ∀ b, (.registerPeerResponse b, addr)
          ∈ (handleUdp X key s io addr (some (.registerPeer rp))).2.sends
        ↔ (updateAddr s.pm io.now rp.id addr).2 = b := by
  unfold handleUdp
  dsimp only
  rw [if_neg hid]
  split <;> simp [eq_comm]

/-- A heartbeat without an id is dropped. -/
theorem handleUdp_registerPeer_id {s : Server} {io : Io} {addr : SocketAddr} {rp : RegisterPeer}
    {b : Bool} (h : (.registerPeerResponse b, addr)
      ∈ (handleUdp X key s io addr (some (.registerPeer rp))).2.sends) : rp.id ≠ "" := by
  intro hid
  unfold handleUdp at h
  dsimp only at h
  rw [if_pos hid] at h
  exact absurd h List.not_mem_nil

theorem handleUdp_pm (s : Server) (io : Io) (addr : SocketAddr)
    (msg : Option RendezvousMessage) :
    PmStep X s (.udp io addr msg) (handleUdp X key s io addr msg).1.pm := by
  have hquiet : ∀ m, PmStep X s (.udp io addr m) s.pm :=
    fun _ => .looked rfl (.inl rfl)
  unfold handleUdp
  split
  · rename_i rp
    split
    · exact hquiet _
    · rename_i hid
      dsimp only
      split <;> exact .registerPeer hid
  · rename_i rk
    have hcase : PmStep X s (.udp io addr (some (.registerPk rk)))
        (handleRegisterPk X s io.toDbIo addr rk).1.pm := .registerPk
    split <;> rename_i heq <;> rw [heq] at hcase <;> exact hcase
  · exact .looked rfl (handlePunchHoleRequest_looked ..)
  · exact .looked rfl (handleHoleSent_looked s io.toDbIo _ addr)
  · exact .looked rfl (handleLocalAddr_looked ..)
  · split <;> exact hquiet _
  · split <;> exact hquiet _
  · exact hquiet _

theorem handleTcp_looked (s : Server) (io : DbIo) (addr : SocketAddr) (ws : Bool)
    (msg : Option RendezvousMessage) :
    Looked X io s.pm (handleTcp X key s io addr ws msg).1.pm := by
  unfold handleTcp
  split
  · have h := handlePunchHoleRequest_looked (X := X) key s io addr ‹_› ws
    split <;> rename_i heq <;> rw [heq] at h <;> exact h
  · split <;> exact .inl rfl
  · exact handleRelayResponse_looked ..
  · exact handleHoleSent_looked s io _ addr
  · exact handleLocalAddr_looked ..
  all_goals exact .inl rfl

theorem hbbs_pm {cfg : Config} {s s' : Server} {e : Event} {o : Out}
    (h : hbbs X key cfg s e = some (s', o)) : PmStep X s e s'.pm := by
  cases e with
  | restart =>
      obtain ⟨rfl, _⟩ := Prod.mk.inj (Option.some.inj h)
      exact .restart
  | tcp io addr ws msg =>
      rw [(hbbs_tcp.mp h).1]
      exact .looked rfl (handleTcp_looked ..)
  | udp io addr msg =>
      rw [(hbbs_udp.mp h).1]
      exact handleUdp_pm ..

/-! ## What a message changes -/

/-- Any message may load a peer and take its turn at the relays. Beyond that, only a
registration, a punch-hole request and a `ConfigUpdate` change anything, each something else. -/
inductive MsgMove (s : Server) : Option RendezvousMessage → Server → Prop where
  | looked {msg : Option RendezvousMessage} {pm : PeerMap} {rotation : Nat} :
      MsgMove s msg { s with pm := pm, rotation := rotation }
  | registerPk {rk : RegisterPk} {pm : PeerMap} {blocker : HashMap String IpBlockEntry}
      {changes : HashMap String (Instant × HashMap String Int)} :
      MsgMove s (some (.registerPk rk))
        { s with pm := pm, ipBlocker := blocker, ipChanges := changes }
  | punchHoleRequest {ph : PunchHoleRequest} {pm : PeerMap} {rotation : Nat}
      {reqs : List PunchReqEntry} :
      MsgMove s (some (.punchHoleRequest ph))
        { s with pm := pm, rotation := rotation, punchReqs := reqs }
  | configureUpdate {cu : ConfigUpdate} {inner : Inner} {servers : List String} :
      MsgMove s (some (.configureUpdate cu))
        { s with inner := inner, rendezvousServers := servers }

theorem MsgMove.refl {s : Server} {msg : Option RendezvousMessage} : MsgMove s msg s :=
  @MsgMove.looked s msg s.pm s.rotation

theorem MsgMove.ipBlocker {s s' : Server} {msg : Option RendezvousMessage} (h : MsgMove s msg s')
    (hmsg : ∀ rk, msg ≠ some (.registerPk rk)) : s'.ipBlocker = s.ipBlocker := by
  cases h with
  | registerPk => exact absurd rfl (hmsg _)
  | _ => rfl

theorem MsgMove.punchReqs {s s' : Server} {msg : Option RendezvousMessage} (h : MsgMove s msg s')
    (hmsg : ∀ ph, msg ≠ some (.punchHoleRequest ph)) : s'.punchReqs = s.punchReqs := by
  cases h with
  | punchHoleRequest => exact absurd rfl (hmsg _)
  | _ => rfl

theorem handleRegisterPk_move (s : Server) (io : DbIo) (addr : SocketAddr) (rk : RegisterPk) :
    MsgMove s (some (.registerPk rk)) (handleRegisterPk X s io addr rk).1 := by
  unfold handleRegisterPk
  split
  · exact .refl
  · dsimp only
    split
    · exact .refl
    · split
      · exact @MsgMove.registerPk s rk s.pm _ s.ipChanges
      · split
        · exact @MsgMove.registerPk s rk _ _ s.ipChanges
        · split
          · exact @MsgMove.registerPk s rk _ _ s.ipChanges
          · exact .registerPk

theorem getPk_move (s : Server) (io : DbIo) (version id : String)
    {msg : Option RendezvousMessage} : MsgMove s msg (getPk X s io version id).1 := by
  obtain ⟨pm, hpm⟩ := getPk_frame (X := X) s io version id
  rw [hpm]
  exact @MsgMove.looked s msg pm s.rotation

theorem handlePunchHoleRequest_move (s : Server) (io : DbIo) (addr : SocketAddr)
    (ph : PunchHoleRequest) (ws : Bool) : MsgMove s (some (.punchHoleRequest ph))
      (handlePunchHoleRequest X key s io addr ph ws).1 := by
  obtain ⟨pm, rotation, reqs, hframe⟩ := handlePunchHoleRequest_frame (X := X) key s io addr ph ws
  rw [hframe]
  exact .punchHoleRequest

theorem handleUdp_move (s : Server) (io : Io) (addr : SocketAddr)
    (msg : Option RendezvousMessage) : MsgMove s msg (handleUdp X key s io addr msg).1 := by
  unfold handleUdp
  split
  · split
    · exact .refl
    · dsimp only
      split <;> exact @MsgMove.looked s _ _ s.rotation
  · rename_i rk
    have hmove := handleRegisterPk_move (X := X) s io.toDbIo addr rk
    split <;> rename_i heq <;> rw [heq] at hmove <;> exact hmove
  · exact handlePunchHoleRequest_move ..
  · exact getPk_move ..
  · exact getPk_move ..
  · split
    · exact .configureUpdate
    · exact .refl
  · split <;> exact .refl
  · exact .refl

theorem handleTcp_move (s : Server) (io : DbIo) (addr : SocketAddr) (ws : Bool)
    (msg : Option RendezvousMessage) : MsgMove s msg (handleTcp X key s io addr ws msg).1 := by
  unfold handleTcp
  split
  · rename_i ph
    have hmove : MsgMove s (some (.punchHoleRequest ph))
        (handlePunchHoleRequest X key s io addr ph ws).1 := handlePunchHoleRequest_move ..
    split <;> rename_i heq <;> rw [heq] at hmove <;> exact hmove
  · split <;> exact .refl
  · rename_i rr
    dsimp only
    obtain ⟨pm, rotation, hframe⟩ := handleRelayResponse_frame (X := X) s io rr
    rw [hframe]
    exact .looked
  · exact getPk_move ..
  · exact getPk_move ..
  all_goals exact .refl

/-! ## Answers to `RegisterPk` -/

/-- In this step a `RegisterPk` was answered `r`. -/
def Answered (o : Occ Server Event Out) (io : Io) (addr : SocketAddr) (rk : RegisterPk)
    (r : RkResult) : Prop :=
  o.ev = .udp io addr (some (.registerPk rk)) ∧
    ∃ out, o.out = .udp out ∧ (.registerPkResponse r, addr) ∈ out.sends

/-- The answer on the wire is the one the handler computed. -/
theorem answered_iff {cfg : Config} {o : Occ Server Event Out} {io : Io} {addr : SocketAddr}
    {rk : RegisterPk} {r : RkResult} (hst : hbbs X key cfg o.pre o.ev = some (o.post, o.out)) :
    Answered o io addr rk r ↔ o.ev = .udp io addr (some (.registerPk rk))
      ∧ (handleRegisterPk X o.pre io.toDbIo addr rk).2 = some r := by
  unfold Answered
  refine and_congr_right ?_
  intro hev
  rw [hev] at hst
  rw [(hbbs_udp.mp hst).2]
  simp only [Out.udp.injEq, exists_eq_left', (handleUdp_registerPk ..).2, Option.mem_toList,
    Option.map_eq_some_iff, Prod.mk.injEq, RendezvousMessage.registerPkResponse.injEq,
    and_true, exists_eq_right]

end KinBridge
