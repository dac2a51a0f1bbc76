import KinBridge.Hbbs.Server

/-!
# Bringing two peers together

A requester names a peer by id, and `hbbs` passes the request on to the address it has
on record for that peer, if it thinks the peer is online. The peer's answer names the
requester's address, and `hbbs` passes it back with the peer's key signed.
-/

namespace KinBridge

variable (X : Ext)

/-! ## Signing keys -/

/-- `IdPk`: the message that `hbbs` signs. -/
structure IdPk where
  id : String
  pk : Bytes
deriving DecidableEq, Repr

/-- What `get_pk` signs, if it signs anything: the id and the key on record for it. -/
def signedIdPk (s : Server) (io : DbIo) (version id : String) : Option IdPk :=
  if version = "" ∨ s.inner.sk = none then none
  else (s.pm.get X.toInfoJson io id).2.map fun peer => ⟨id, peer.pk⟩

/-- `get_pk`: the lookup it makes may load the record. -/
def getPk (s : Server) (io : DbIo) (version id : String) : Server × Bytes :=
  match s.inner.sk with
  | none => (s, [])
  | some sk =>
    if version = "" then (s, [])
    else
      let (pm, _) := s.pm.get X.toInfoJson io id
      ({ s with pm := pm },
        match signedIdPk X s io version id with
        | some m => X.sign (X.idPkBytes m.id m.pk) sk
        | none => [])

/-! ## Relays and networks -/

/-- `is_lan`. -/
def isLan (inner : Inner) (addr : SocketAddr) : Bool :=
  match inner.mask with
  | none => false
  | some contains =>
    match addr.ip with
    | .v4 ip => contains ip
    | .v6 ip =>
      match ip.toIpv4 with
      | some v4 => contains v4
      | none => false

/-- `get_relay_server`; the counter moves only when there is a choice. -/
def getRelayServer (s : Server) : Server × String :=
  match s.relayServers with
  | [] => (s, "")
  | [r] => (s, r)
  | rs => ({ s with rotation := (s.rotation + 1) % 2 ^ 64 }, rs.getD (s.rotation % rs.length) "")

/-- `SocketAddr` of one family and the same IP. -/
def sameHost (a b : SocketAddr) : Bool :=
  match a.ip, b.ip with
  | .v4 x, .v4 y => x = y
  | .v6 x, .v6 y => x = y
  | _, _ => false

/-! ## Punch-hole requests -/

/-- The scan for a duplicate: the last thirty entries from the back, up to the first match. -/
def isDupReq (reqs : List PunchReqEntry) (now : Instant) (fromIp toId : String) : Bool :=
  match (reqs.reverse.take 30).find? fun e => e.fromIp = fromIp ∧ e.toId = toId with
  | some e => asSecs (elapsed now e.tm) < PUNCH_REQ_DEDUPE_SEC
  | none => false

/-- The `PUNCH_REQS` entry, unless it would be a duplicate. -/
def recordPunchReq (reqs : List PunchReqEntry) (now : Instant) (fromIp toIp toId : String) :
    List PunchReqEntry :=
  if isDupReq reqs now fromIp toId then reqs else reqs ++ [⟨now, fromIp, toIp, toId⟩]

/-- A `PunchHoleResponse` that only says why not. -/
def failureResponse (f : Failure) : RendezvousMessage :=
  .punchHoleResponse ⟨[], [], some f, "", none⟩

/-- The presence test: an age counted in a `u128` of milliseconds, narrowed to `i32`. -/
def isOffline (now : Instant) (peer : Peer) : Bool :=
  asI32 (asMillis (elapsed now peer.lastRegTime)) ≥ REG_TIMEOUT

/-- The part of `handle_punch_hole_request` behind the presence test. -/
def forwardPunchHole (s : Server) (now : Instant) (addr : SocketAddr) (ph : PunchHoleRequest)
    (ws : Bool) (peerAddr : SocketAddr) : Server × RendezvousMessage :=
  let fromIp := (X.tryIntoV4 addr).ip.toString
  let toIp := (X.tryIntoV4 peerAddr).ip.toString
  let s := { s with punchReqs := recordPunchReq s.punchReqs now fromIp toIp ph.id }
  let peerIsLan := isLan s.inner peerAddr
  let reqIsLan := isLan s.inner addr
  let (s, relayServer) := getRelayServer s
  let force := s.alwaysUseRelay || xor peerIsLan reqIsLan
  let relayServer := if force && peerIsLan then s.inner.localIp else relayServer
  let natType := if force then NatType.symmetric else ph.natType
  let sameIntranet := !ws && (peerIsLan && reqIsLan || sameHost peerAddr addr)
  let socketAddr := X.encode addr
  if sameIntranet then (s, .fetchLocalAddr ⟨socketAddr, relayServer⟩)
  else (s, .punchHole ⟨socketAddr, natType, relayServer⟩)

/-- `handle_punch_hole_request`: the message, and the peer's address if it goes there. -/
def handlePunchHoleRequest (key : String) (s : Server) (io : DbIo) (addr : SocketAddr)
    (ph : PunchHoleRequest) (ws : Bool) : Server × RendezvousMessage × Option SocketAddr :=
  if key ≠ "" ∧ ph.licenceKey ≠ key then (s, failureResponse .LICENSE_MISMATCH, none)
  else
    match s.pm.get X.toInfoJson io ph.id with
    | (pm, none) => ({ s with pm := pm }, failureResponse .ID_NOT_EXIST, none)
    | (pm, some peer) =>
      let s := { s with pm := pm }
      if isOffline io.now peer then (s, failureResponse .OFFLINE, none)
      else
        let (s, msg) := forwardPunchHole X s io.now addr ph ws peer.socketAddr
        (s, msg, some peer.socketAddr)

/-- The request carries the key, if one is asked for. -/
def Licensed (key : String) (ph : PunchHoleRequest) : Prop := key = "" ∨ ph.licenceKey = key

instance (key : String) (ph : PunchHoleRequest) : Decidable (Licensed key ph) :=
  inferInstanceAs (Decidable (_ ∨ _))

/-- The four ends of a punch-hole request. -/
inductive PunchOutcome (key : String) (s : Server) (io : DbIo) (addr : SocketAddr)
    (ph : PunchHoleRequest) (ws : Bool) :
    Server × RendezvousMessage × Option SocketAddr → Prop where
  | unlicensed : ¬ Licensed key ph →
      PunchOutcome key s io addr ph ws (s, failureResponse .LICENSE_MISMATCH, none)
  | unknown : Licensed key ph → (s.pm.get X.toInfoJson io ph.id).2 = none →
      PunchOutcome key s io addr ph ws
        ({ s with pm := (s.pm.get X.toInfoJson io ph.id).1 }, failureResponse .ID_NOT_EXIST, none)
  | offline {peer : Peer} : Licensed key ph → (s.pm.get X.toInfoJson io ph.id).2 = some peer →
      isOffline io.now peer = true →
      PunchOutcome key s io addr ph ws
        ({ s with pm := (s.pm.get X.toInfoJson io ph.id).1 }, failureResponse .OFFLINE, none)
  | forwarded {peer : Peer} : Licensed key ph →
      (s.pm.get X.toInfoJson io ph.id).2 = some peer → isOffline io.now peer = false →
      PunchOutcome key s io addr ph ws
        ((forwardPunchHole X { s with pm := (s.pm.get X.toInfoJson io ph.id).1 } io.now addr ph ws
            peer.socketAddr).1,
          (forwardPunchHole X { s with pm := (s.pm.get X.toInfoJson io ph.id).1 } io.now addr ph ws
            peer.socketAddr).2, some peer.socketAddr)

theorem handlePunchHoleRequest_cases (key : String) (s : Server) (io : DbIo)
    (addr : SocketAddr) (ph : PunchHoleRequest) (ws : Bool) :
    PunchOutcome X key s io addr ph ws (handlePunchHoleRequest X key s io addr ph ws) := by
  rw [handlePunchHoleRequest]
  split
  · rename_i hkey
    exact .unlicensed fun h => h.elim hkey.1 hkey.2
  · rename_i hkey
    rw [not_and_or, not_not, not_not] at hkey
    split
    · rename_i pm hg
      have hnone : (s.pm.get X.toInfoJson io ph.id).2 = none := by rw [hg]
      have hout : PunchOutcome X key s io addr ph ws _ := .unknown hkey hnone
      rwa [hg] at hout
    · rename_i pm peer hg
      have hpeer : (s.pm.get X.toInfoJson io ph.id).2 = some peer := by rw [hg]
      dsimp only
      cases hoff : isOffline io.now peer with
      | true =>
          have hout : PunchOutcome X key s io addr ph ws _ := .offline hkey hpeer hoff
          rwa [hg] at hout
      | false =>
          have hout : PunchOutcome X key s io addr ph ws _ := .forwarded hkey hpeer hoff
          rwa [hg] at hout

/-! ## The peer's answers -/

/-- `handle_hole_sent` up to the send: the response, and the requester's address. -/
def handleHoleSent (s : Server) (io : DbIo) (phs : PunchHoleSent) (addr : SocketAddr) :
    Server × RendezvousMessage × SocketAddr :=
  let addrA := X.decode phs.socketAddr
  let (s, pk) := getPk X s io phs.version phs.id
  let union :=
    match phs.natType with
    | .unrecognized _ => none
    | t => some (.inl t)
  (s, .punchHoleResponse ⟨X.encode addr, pk, none, phs.relayServer, union⟩, addrA)

/-- `handle_local_addr` up to the send. -/
def handleLocalAddr (s : Server) (io : DbIo) (la : LocalAddr) :
    Server × RendezvousMessage × SocketAddr :=
  let addrA := X.decode la.socketAddr
  let (s, pk) := getPk X s io la.version la.id
  (s, .punchHoleResponse ⟨la.localAddr, pk, none, la.relayServer, some (.inr true)⟩, addrA)

/-- The key of a `RelayResponse`: an id in the oneof is replaced by that id's signed key. -/
def relayResponsePk (s : Server) (io : DbIo) (rr : RelayResponse) : Server × RelayResponse :=
  if rr.id = "" then (s, rr)
  else
    let (s, pk) := getPk X s io rr.version rr.id
    (s, { rr with union := some (.pk pk) })

/-- The relay of a `RelayResponse`: the LAN address for a requester on the LAN, and a relay
from the list for one outside. -/
def relayResponseRelay (s : Server) (rr : RelayResponse) (addrB : SocketAddr) :
    Server × RelayResponse :=
  if rr.relayServer = "" then (s, rr)
  else if isLan s.inner addrB then (s, { rr with relayServer := s.inner.localIp })
  else if rr.relayServer = s.inner.localIp then
    let (s, r) := getRelayServer s
    (s, { rr with relayServer := r })
  else (s, rr)

/-- The `RelayResponse` arm of `handle_tcp` up to the send. -/
def handleRelayResponse (s : Server) (io : DbIo) (rr : RelayResponse) :
    Server × RendezvousMessage × SocketAddr :=
  let addrB := X.decode rr.socketAddr
  let (s, rr) := relayResponsePk X s io { rr with socketAddr := [] }
  let (s, rr) := relayResponseRelay s rr addrB
  (s, .relayResponse rr, addrB)

/-! ## What these leave alone -/

variable {X}

theorem getRelayServer_frame (s : Server) :
    ∃ rotation, (getRelayServer s).1 = { s with rotation := rotation } := by
  unfold getRelayServer
  split
  · exact ⟨s.rotation, rfl⟩
  · exact ⟨s.rotation, rfl⟩
  · exact ⟨_, rfl⟩

theorem getPk_frame (s : Server) (io : DbIo) (version id : String) :
    ∃ pm, (getPk X s io version id).1 = { s with pm := pm } := by
  unfold getPk
  split
  · exact ⟨s.pm, rfl⟩
  · split
    · exact ⟨s.pm, rfl⟩
    · exact ⟨_, rfl⟩

theorem relayResponsePk_frame (s : Server) (io : DbIo) (rr : RelayResponse) :
    ∃ pm, (relayResponsePk X s io rr).1 = { s with pm := pm } := by
  unfold relayResponsePk
  split
  · exact ⟨s.pm, rfl⟩
  · exact getPk_frame ..

theorem relayResponseRelay_frame (s : Server) (rr : RelayResponse) (addrB : SocketAddr) :
    ∃ rotation, (relayResponseRelay s rr addrB).1 = { s with rotation := rotation } := by
  unfold relayResponseRelay
  split
  · exact ⟨s.rotation, rfl⟩
  · split
    · exact ⟨s.rotation, rfl⟩
    · split
      · exact getRelayServer_frame s
      · exact ⟨s.rotation, rfl⟩

theorem handleRelayResponse_frame (s : Server) (io : DbIo) (rr : RelayResponse) :
    ∃ pm rotation,
      (handleRelayResponse X s io rr).1 = { s with pm := pm, rotation := rotation } := by
  unfold handleRelayResponse
  dsimp only
  obtain ⟨pm, hpm⟩ := relayResponsePk_frame (X := X) s io { rr with socketAddr := [] }
  obtain ⟨rotation, hrot⟩ := relayResponseRelay_frame
    (relayResponsePk X s io { rr with socketAddr := [] }).1
    (relayResponsePk X s io { rr with socketAddr := [] }).2 (X.decode rr.socketAddr)
  rw [hrot, hpm]
  exact ⟨pm, rotation, rfl⟩

/-- A request that is forwarded is put on record, and may take its turn at the relays. -/
theorem forwardPunchHole_frame (s : Server) (now : Instant) (addr : SocketAddr)
    (ph : PunchHoleRequest) (ws : Bool) (peerAddr : SocketAddr) :
    ∃ rotation, (forwardPunchHole X s now addr ph ws peerAddr).1 =
      { s with
        rotation := rotation
        punchReqs := recordPunchReq s.punchReqs now (X.tryIntoV4 addr).ip.toString
          (X.tryIntoV4 peerAddr).ip.toString ph.id } := by
  unfold forwardPunchHole
  dsimp only
  split <;> exact getRelayServer_frame { s with punchReqs := _ }

theorem handlePunchHoleRequest_frame (key : String) (s : Server) (io : DbIo) (addr : SocketAddr)
    (ph : PunchHoleRequest) (ws : Bool) :
    ∃ pm rotation reqs, (handlePunchHoleRequest X key s io addr ph ws).1 =
      { s with pm := pm, rotation := rotation, punchReqs := reqs } := by
  have hout := handlePunchHoleRequest_cases X key s io addr ph ws
  generalize handlePunchHoleRequest X key s io addr ph ws = r at hout ⊢
  cases hout with
  | unlicensed => exact ⟨s.pm, s.rotation, s.punchReqs, rfl⟩
  | unknown | offline => exact ⟨_, s.rotation, s.punchReqs, rfl⟩
  | @forwarded peer =>
      obtain ⟨rotation, hfwd⟩ := forwardPunchHole_frame (X := X)
        { s with pm := (s.pm.get X.toInfoJson io ph.id).1 } io.now addr ph ws peer.socketAddr
      exact ⟨_, rotation, _, hfwd⟩

theorem getRelayServer_pm (s : Server) : (getRelayServer s).1.pm = s.pm := by
  unfold getRelayServer; split <;> rfl

theorem forwardPunchHole_pm (s : Server) (now : Instant) (addr : SocketAddr)
    (ph : PunchHoleRequest) (ws : Bool) (peerAddr : SocketAddr) :
    (forwardPunchHole X s now addr ph ws peerAddr).1.pm = s.pm := by
  unfold forwardPunchHole
  dsimp only
  split <;> exact getRelayServer_pm _

theorem forwardPunchHole_isForward (s : Server) (now : Instant) (addr : SocketAddr)
    (ph : PunchHoleRequest) (ws : Bool) (peerAddr : SocketAddr) :
    (forwardPunchHole X s now addr ph ws peerAddr).2.isForward = true := by
  unfold forwardPunchHole
  dsimp only
  split <;> rfl

/-- The peer map either stays or gains what one lookup loads. -/
def Looked (X : Ext) (io : DbIo) (pm pm' : PeerMap) : Prop :=
  pm' = pm ∨ ∃ id, pm' = (pm.get X.toInfoJson io id).1

theorem getPk_looked (s : Server) (io : DbIo) (version id : String) :
    Looked X io s.pm (getPk X s io version id).1.pm := by
  unfold getPk
  split
  · exact .inl rfl
  · split
    · exact .inl rfl
    · exact .inr ⟨id, rfl⟩

theorem handlePunchHoleRequest_looked (key : String) (s : Server) (io : DbIo)
    (addr : SocketAddr) (ph : PunchHoleRequest) (ws : Bool) :
    Looked X io s.pm (handlePunchHoleRequest X key s io addr ph ws).1.pm := by
  unfold handlePunchHoleRequest
  split
  · exact .inl rfl
  · split
    · rename_i pm hg
      exact .inr ⟨ph.id, by rw [hg]⟩
    · rename_i pm peer hg
      dsimp only
      split
      · exact .inr ⟨ph.id, by rw [hg]⟩
      · exact .inr ⟨ph.id, by rw [hg]; exact forwardPunchHole_pm ..⟩

theorem handleHoleSent_looked (s : Server) (io : DbIo) (phs : PunchHoleSent)
    (addr : SocketAddr) : Looked X io s.pm (handleHoleSent X s io phs addr).1.pm :=
  getPk_looked s io phs.version phs.id

theorem handleLocalAddr_looked (s : Server) (io : DbIo) (la : LocalAddr) :
    Looked X io s.pm (handleLocalAddr X s io la).1.pm :=
  getPk_looked s io la.version la.id

theorem relayResponsePk_looked (s : Server) (io : DbIo) (rr : RelayResponse) :
    Looked X io s.pm (relayResponsePk X s io rr).1.pm := by
  unfold relayResponsePk
  split
  · exact .inl rfl
  · exact getPk_looked ..

theorem relayResponseRelay_pm (s : Server) (rr : RelayResponse) (addrB : SocketAddr) :
    (relayResponseRelay s rr addrB).1.pm = s.pm := by
  unfold relayResponseRelay
  split
  · rfl
  · split
    · rfl
    · split
      · exact getRelayServer_pm s
      · rfl

theorem handleRelayResponse_looked (s : Server) (io : DbIo) (rr : RelayResponse) :
    Looked X io s.pm (handleRelayResponse X s io rr).1.pm := by
  unfold handleRelayResponse
  dsimp only
  rw [relayResponseRelay_pm]
  exact relayResponsePk_looked ..

end KinBridge
