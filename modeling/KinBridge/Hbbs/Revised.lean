import KinBridge.Hbbs.Served

/-!
# What does not depend on the lists

The relay lists and the counter decide which relay a message names, and the serial and the
rendezvous servers what a `ConfigUpdate` says. The handlers do the same otherwise, whatever
these fields hold: to the rest of the server, and in the messages that they send.
-/

namespace KinBridge

variable {X : Ext} {key : String} {iso : Nat → String} {s : Server}

/-- Other values of these fields. -/
structure Revision where
  relayServers : List String
  relayServers0 : List String
  rotation : Nat
  rendezvousServers : List String
  serial : Int

def Server.revise (s : Server) (v : Revision) : Server :=
  { s with
    relayServers := v.relayServers
    relayServers0 := v.relayServers0
    rotation := v.rotation
    rendezvousServers := v.rendezvousServers
    inner := { s.inner with serial := v.serial } }

def Server.revision (s : Server) : Revision :=
  ⟨s.relayServers, s.relayServers0, s.rotation, s.rendezvousServers, s.inner.serial⟩

@[simp] theorem revise_revision : s.revise s.revision = s := rfl

@[simp] theorem revise_revise {v w : Revision} : (s.revise v).revise w = s.revise w := rfl

/-- The same with the counter at some value. -/
def Revision.turned (v : Revision) (n : Nat) : Revision := { v with rotation := n }

/-! ## Messages without the relay -/

/-- The message without what it says of relays and of the configuration. -/
def RendezvousMessage.plain : RendezvousMessage → RendezvousMessage
  | .punchHole ph => .punchHole { ph with relayServer := "" }
  | .fetchLocalAddr fla => .fetchLocalAddr { fla with relayServer := "" }
  | .relayResponse rr => .relayResponse { rr with relayServer := "" }
  | .testNatResponse res => .testNatResponse { res with cu := none }
  | m => m

def TcpEffect.plain : TcpEffect → TcpEffect
  | .park addr => .park addr
  | .queue msg addr => .queue msg.plain addr
  | .sendToTcp msg addr => .sendToTcp msg.plain addr
  | .sendToTcpSync msg addr => .sendToTcpSync msg.plain addr
  | .sendToSink msg => .sendToSink msg.plain

def Data.plain : Data → Data
  | .msg m addr => .msg m.plain addr
  | d => d

/-- What the effect puts on the loop's queue. -/
def TcpEffect.data? : TcpEffect → Option Data
  | .queue msg addr => some (.msg msg addr)
  | _ => none

theorem queued_tcp (effects : List TcpEffect) (keep : Bool) :
    (Out.tcp effects keep).queued = effects.filterMap TcpEffect.data? := by
  refine List.filterMap_congr fun e _ => ?_
  cases e <;> rfl

theorem queued_plain {effects effects' : List TcpEffect} (keep keep' : Bool)
    (h : effects'.map TcpEffect.plain = effects.map TcpEffect.plain) :
    (Out.tcp effects' keep').queued.map Data.plain
      = (Out.tcp effects keep).queued.map Data.plain := by
  have hone : ∀ e : TcpEffect, e.data?.map Data.plain = e.plain.data? := by
    intro e
    cases e <;> rfl
  have hall : ∀ l : List TcpEffect, (l.filterMap TcpEffect.data?).map Data.plain
      = (l.map TcpEffect.plain).filterMap TcpEffect.data? := by
    intro l
    rw [List.map_filterMap, List.filterMap_map]
    exact List.filterMap_congr fun e _ => hone e
  rw [queued_tcp, queued_tcp, hall, hall, h]

/-! ## Handlers -/

theorem getRelayServer_eq (s : Server) :
    ∃ n r, getRelayServer s = ({ s with rotation := n }, r) := by
  obtain ⟨n, hn⟩ := getRelayServer_frame s
  exact ⟨n, (getRelayServer s).2, Prod.ext hn rfl⟩

theorem getPk_revise {v : Revision} {io : DbIo} {version id : String} :
    getPk X (s.revise v) io version id
      = ((getPk X s io version id).1.revise v, (getPk X s io version id).2) := by
  unfold getPk signedIdPk
  dsimp only [Server.revise]
  split
  · rfl
  · split <;> rfl

theorem forwardPunchHole_revise {v : Revision} {now : Instant} {addr peerAddr : SocketAddr}
    {ph : PunchHoleRequest} {ws : Bool} :
    (∃ n, (forwardPunchHole X (s.revise v) now addr ph ws peerAddr).1
        = (forwardPunchHole X s now addr ph ws peerAddr).1.revise (v.turned n))
      ∧ (forwardPunchHole X (s.revise v) now addr ph ws peerAddr).2.plain
        = (forwardPunchHole X s now addr ph ws peerAddr).2.plain := by
  unfold forwardPunchHole
  dsimp only
  have hreqs : (s.revise v).punchReqs = s.punchReqs := rfl
  rw [hreqs]
  generalize recordPunchReq s.punchReqs now (X.tryIntoV4 addr).ip.toString
    (X.tryIntoV4 peerAddr).ip.toString ph.id = reqs
  obtain ⟨n, r, hn⟩ := getRelayServer_eq ({ s with punchReqs := reqs }.revise v)
  obtain ⟨m, r', hm⟩ := getRelayServer_eq { s with punchReqs := reqs }
  -- the questions about the two addresses have the same answers
  have hlan : ∀ a, isLan { s.inner with serial := v.serial } a = isLan s.inner a := fun _ => rfl
  dsimp only [Server.revise] at hn ⊢
  simp only [hn, hm, hlan]
  split <;> exact ⟨⟨n, rfl⟩, rfl⟩

theorem handlePunchHoleRequest_revise {v : Revision} {io : DbIo} {addr : SocketAddr}
    {ph : PunchHoleRequest} {ws : Bool} :
    (∃ n, (handlePunchHoleRequest X key (s.revise v) io addr ph ws).1
        = (handlePunchHoleRequest X key s io addr ph ws).1.revise (v.turned n))
      ∧ (handlePunchHoleRequest X key (s.revise v) io addr ph ws).2.1.plain
        = (handlePunchHoleRequest X key s io addr ph ws).2.1.plain
      ∧ (handlePunchHoleRequest X key (s.revise v) io addr ph ws).2.2
        = (handlePunchHoleRequest X key s io addr ph ws).2.2 := by
  unfold handlePunchHoleRequest
  split
  · exact ⟨⟨v.rotation, rfl⟩, rfl, rfl⟩
  · rw [show (s.revise v).pm = s.pm from rfl]
    split
    · exact ⟨⟨v.rotation, rfl⟩, rfl, rfl⟩
    · rename_i pm peer _
      dsimp only
      split
      · exact ⟨⟨v.rotation, rfl⟩, rfl, rfl⟩
      · have h := @forwardPunchHole_revise X { s with pm := pm } v io.now addr peer.socketAddr ph ws
        exact ⟨h.1, h.2, rfl⟩

theorem handleHoleSent_revise {v : Revision} {io : DbIo} {phs : PunchHoleSent}
    {addr : SocketAddr} : handleHoleSent X (s.revise v) io phs addr
      = ((handleHoleSent X s io phs addr).1.revise v, (handleHoleSent X s io phs addr).2) := by
  unfold handleHoleSent
  rw [getPk_revise]

theorem handleLocalAddr_revise {v : Revision} {io : DbIo} {la : LocalAddr} :
    handleLocalAddr X (s.revise v) io la
      = ((handleLocalAddr X s io la).1.revise v, (handleLocalAddr X s io la).2) := by
  unfold handleLocalAddr
  rw [getPk_revise]

theorem relayResponsePk_revise {v : Revision} {io : DbIo} {rr : RelayResponse} :
    relayResponsePk X (s.revise v) io rr
      = ((relayResponsePk X s io rr).1.revise v, (relayResponsePk X s io rr).2) := by
  unfold relayResponsePk
  rw [getPk_revise]
  split <;> rfl

theorem relayResponseRelay_revise {v : Revision} {rr : RelayResponse} {addrB : SocketAddr} :
    (∃ n, (relayResponseRelay (s.revise v) rr addrB).1
        = (relayResponseRelay s rr addrB).1.revise (v.turned n))
      ∧ { (relayResponseRelay (s.revise v) rr addrB).2 with relayServer := "" }
        = { (relayResponseRelay s rr addrB).2 with relayServer := "" } := by
  have hlan : isLan (s.revise v).inner addrB = isLan s.inner addrB := rfl
  have hip : (s.revise v).inner.localIp = s.inner.localIp := rfl
  unfold relayResponseRelay
  rw [hlan, hip]
  split
  · exact ⟨⟨v.rotation, rfl⟩, rfl⟩
  · split
    · exact ⟨⟨v.rotation, rfl⟩, rfl⟩
    · split
      · obtain ⟨n, r, hn⟩ := getRelayServer_eq (s.revise v)
        obtain ⟨m, r', hm⟩ := getRelayServer_eq s
        rw [hn, hm]
        exact ⟨⟨n, rfl⟩, rfl⟩
      · exact ⟨⟨v.rotation, rfl⟩, rfl⟩

theorem handleRelayResponse_revise {v : Revision} {io : DbIo} {rr : RelayResponse} :
    (∃ n, (handleRelayResponse X (s.revise v) io rr).1
        = (handleRelayResponse X s io rr).1.revise (v.turned n))
      ∧ (handleRelayResponse X (s.revise v) io rr).2.1.plain
        = (handleRelayResponse X s io rr).2.1.plain
      ∧ (handleRelayResponse X (s.revise v) io rr).2.2
        = (handleRelayResponse X s io rr).2.2 := by
  unfold handleRelayResponse
  rw [relayResponsePk_revise]
  dsimp only
  obtain ⟨hs, hrr⟩ := @relayResponseRelay_revise
    (relayResponsePk X s io { rr with socketAddr := [] }).1 v
    (relayResponsePk X s io { rr with socketAddr := [] }).2 (X.decode rr.socketAddr)
  exact ⟨hs, congrArg RendezvousMessage.relayResponse hrr, rfl⟩

theorem handleTcp_revise {v : Revision} {io : DbIo} {addr : SocketAddr} {ws : Bool}
    {msg : Option RendezvousMessage} :
    (∃ n, (handleTcp X key (s.revise v) io addr ws msg).1
        = (handleTcp X key s io addr ws msg).1.revise (v.turned n))
      ∧ (handleTcp X key (s.revise v) io addr ws msg).2.1.map TcpEffect.plain
        = (handleTcp X key s io addr ws msg).2.1.map TcpEffect.plain
      ∧ (handleTcp X key (s.revise v) io addr ws msg).2.2
        = (handleTcp X key s io addr ws msg).2.2 := by
  unfold handleTcp
  split
  · rename_i ph
    obtain ⟨⟨n, hs⟩, hmsg, hto⟩ := @handlePunchHoleRequest_revise X key s v io addr ph ws
    generalize handlePunchHoleRequest X key (s.revise v) io addr ph ws = r' at hs hmsg hto ⊢
    generalize handlePunchHoleRequest X key s io addr ph ws = r at hs hmsg hto ⊢
    obtain ⟨s', msg', dest'⟩ := r'
    obtain ⟨s₁, msg, dest⟩ := r
    dsimp only at hs hmsg hto
    subst hs hto
    cases dest' with
    | none => exact ⟨⟨n, rfl⟩, by simp [TcpEffect.plain, hmsg], rfl⟩
    | some toAddr => exact ⟨⟨n, rfl⟩, by simp [TcpEffect.plain, hmsg], rfl⟩
  · rw [show (s.revise v).pm = s.pm from rfl]
    split <;> exact ⟨⟨v.rotation, rfl⟩, rfl, rfl⟩
  · rename_i rr
    obtain ⟨hs, hmsg, hto⟩ := @handleRelayResponse_revise X s v io rr
    refine ⟨hs, ?_, rfl⟩
    dsimp only
    rw [hto]
    simp [TcpEffect.plain, hmsg]
  · rw [handleHoleSent_revise]
    exact ⟨⟨v.rotation, rfl⟩, rfl, rfl⟩
  · rw [handleLocalAddr_revise]
    exact ⟨⟨v.rotation, rfl⟩, rfl, rfl⟩
  · exact ⟨⟨v.rotation, rfl⟩, rfl, rfl⟩
  · exact ⟨⟨v.rotation, rfl⟩, rfl, rfl⟩
  · exact ⟨⟨v.rotation, rfl⟩, rfl, rfl⟩

/-! ## The loop's own handler -/

/-- The server with the counter at some value. -/
def Server.turned (s : Server) (n : Nat) : Server := { s with rotation := n }

@[simp] theorem turned_inner {n : Nat} : (s.turned n).inner = s.inner := rfl

@[simp] theorem turned_pm {n : Nat} : (s.turned n).pm = s.pm := rfl

@[simp] theorem turned_clone {n : Nat} : (s.turned n).clone = s.clone := rfl

theorem turned_eq (s : Server) (n : Nat) : s.turned n = s.revise (s.revision.turned n) := rfl

theorem handleRegisterPk_turned {n : Nat} {io : DbIo} {addr : SocketAddr} {rk : RegisterPk} :
    handleRegisterPk X (s.turned n) io addr rk
      = ((handleRegisterPk X s io addr rk).1.turned n, (handleRegisterPk X s io addr rk).2) := by
  unfold handleRegisterPk
  dsimp only [Server.turned]
  by_cases hempty : rk.uuid = [] ∨ rk.pk = []
  · simp only [if_pos hempty]
  · simp only [if_neg hempty]
    by_cases hlen : rk.id.utf8ByteSize < 6
    · simp only [if_pos hlen]
    · simp only [if_neg hlen]
      obtain ⟨blocker, passed⟩ := checkIpBlocker s.ipBlocker io.now addr.ip.toString rk.id
      cases passed with
      | false => rfl
      | true =>
          dsimp only
          generalize s.pm.getOr X.toInfoJson io rk.id = g
          cases rkChanged g.2 rk addr.ip.toString with
          | none => rfl
          | some changed =>
              cases rkLimit g.2.regPk io.now with
              | none => rfl
              | some reqPk => rfl

/-- What is sent on the socket is the same, and what is queued but for the relay. -/
def UdpOut.Alike (o o' : UdpOut) : Prop :=
  o'.sends = o.sends ∧ o'.ok = o.ok
    ∧ o'.queued.map (Prod.map RendezvousMessage.plain id)
      = o.queued.map (Prod.map RendezvousMessage.plain id)

theorem UdpOut.Alike.refl (o : UdpOut) : o.Alike o := ⟨rfl, rfl, rfl⟩

theorem UdpOut.Alike.queued {o o' : UdpOut} (h : o.Alike o') :
    (Out.udp o').queued.map Data.plain = (Out.udp o).queued.map Data.plain := by
  have hmap : ∀ o : UdpOut, (Out.udp o).queued.map Data.plain
      = (o.queued.map (Prod.map RendezvousMessage.plain id)).map fun m => .msg m.1 m.2 := by
    intro o
    simp [Out.queued, Data.plain]
  rw [hmap, hmap, h.2.2]

theorem handleUdp_turned (s : Server) (n : Nat) (io : Io) (addr : SocketAddr)
    (msg : Option RendezvousMessage) :
    (∃ m, (handleUdp X key (s.turned n) io addr msg).1
        = (handleUdp X key s io addr msg).1.turned m)
      ∧ (handleUdp X key s io addr msg).2.Alike (handleUdp X key (s.turned n) io addr msg).2 := by
  cases msg with
  | none => exact ⟨⟨n, rfl⟩, .refl _⟩
  | some msg =>
      cases msg with
      | registerPk rk =>
          simp only [handleUdp, handleRegisterPk_turned]
          generalize handleRegisterPk X s io.toDbIo addr rk = r
          obtain ⟨s, _ | r⟩ := r <;> exact ⟨⟨n, rfl⟩, .refl _⟩
      | registerPeer rp =>
          simp only [handleUdp, turned_inner, turned_pm]
          split
          · exact ⟨⟨n, rfl⟩, .refl _⟩
          · by_cases hserial : s.inner.serial > rp.serial
            · simp only [hserial, decide_true]
              cases io.sendOk addr <;> exact ⟨⟨n, rfl⟩, .refl _⟩
            · simp only [hserial, decide_false]
              cases io.sendOk addr <;> exact ⟨⟨n, rfl⟩, .refl _⟩
      | punchHoleRequest ph =>
          simp only [handleUdp, turned_eq]
          obtain ⟨⟨m, hs⟩, hmsg, hto⟩ := @handlePunchHoleRequest_revise X key s
            (s.revision.turned n) io.toDbIo addr ph false
          obtain ⟨pm, rotation, reqs, hframe⟩ :=
            handlePunchHoleRequest_frame (X := X) key s io.toDbIo addr ph false
          rw [hs, hframe]
          refine ⟨⟨m, rfl⟩, rfl, rfl, ?_⟩
          simp [hmsg, hto]
      | punchHoleSent phs =>
          simp only [handleUdp, turned_eq, handleHoleSent_revise]
          obtain ⟨pm, hpm⟩ := getPk_frame (X := X) s io.toDbIo phs.version phs.id
          have hframe : (handleHoleSent X s io.toDbIo phs addr).1 = { s with pm := pm } := hpm
          rw [hframe]
          exact ⟨⟨n, rfl⟩, .refl _⟩
      | localAddr la =>
          simp only [handleUdp, turned_eq, handleLocalAddr_revise]
          obtain ⟨pm, hpm⟩ := getPk_frame (X := X) s io.toDbIo la.version la.id
          have hframe : (handleLocalAddr X s io.toDbIo la).1 = { s with pm := pm } := hpm
          rw [hframe]
          exact ⟨⟨n, rfl⟩, .refl _⟩
      | configureUpdate cu =>
          simp only [handleUdp, turned_inner]
          by_cases hserial : cu.serial > s.inner.serial
          · simp only [hserial, decide_true]
            cases (X.tryIntoV4 addr).ip.isLoopback <;> exact ⟨⟨n, rfl⟩, .refl _⟩
          · simp only [hserial, decide_false]
            cases (X.tryIntoV4 addr).ip.isLoopback <;> exact ⟨⟨n, rfl⟩, .refl _⟩
      | softwareUpdate url =>
          simp only [handleUdp, turned_inner]
          by_cases hother : s.inner.version ≠ "" ∧ url ≠ s.inner.version
          · simp only [eq_true hother, if_true]
            exact ⟨⟨n, rfl⟩, .refl _⟩
          · simp only [eq_false hother, if_false]
            exact ⟨⟨n, rfl⟩, .refl _⟩
      | _ => exact ⟨⟨n, rfl⟩, .refl _⟩

/-! ## Tasks -/

/-- These two commands print relays. -/
def PrintsRelays (cmd : String) : Prop :=
  cmdWord cmd = some .relayServers ∨ cmdWord cmd = some .testGeo

theorem checkCmd_revise {v : Revision} {now : Instant} {cmd : String} :
    (∃ n, (checkCmd iso (s.revise v) now cmd).server
        = (checkCmd iso s now cmd).server.revise (v.turned n))
      ∧ (checkCmd iso (s.revise v) now cmd).queued = (checkCmd iso s now cmd).queued
      ∧ (PrintsRelays cmd
        ∨ (checkCmd iso (s.revise v) now cmd).res = (checkCmd iso s now cmd).res) := by
  unfold PrintsRelays checkCmd
  dsimp only
  generalize cmdWord cmd = w
  generalize cmdArgs cmd = args
  cases w with
  | none => exact ⟨⟨v.rotation, rfl⟩, rfl, .inr rfl⟩
  | some w =>
      cases w with
      | relayServers => cases args <;> exact ⟨⟨v.rotation, rfl⟩, rfl, .inl (.inl rfl)⟩
      | alwaysUseRelay => cases args <;> exact ⟨⟨v.rotation, rfl⟩, rfl, .inr rfl⟩
      | testGeo =>
          dsimp only [testGeoArm]
          obtain ⟨n, r, hn⟩ := getRelayServer_eq (s.revise v)
          obtain ⟨m, r', hm⟩ := getRelayServer_eq s
          rw [hn, hm]
          refine ⟨?_, ?_, .inl (.inr rfl)⟩
          · split
            · exact ⟨v.rotation, rfl⟩
            · split
              · exact ⟨n, rfl⟩
              · exact ⟨v.rotation, rfl⟩
            · split
              · exact ⟨n, rfl⟩
              · exact ⟨v.rotation, rfl⟩
          · split
            · rfl
            · split <;> rfl
            · split <;> rfl
      | _ => exact ⟨⟨v.rotation, rfl⟩, rfl, .inr rfl⟩

/-- The same but for relays and announcements. -/
def TaskOut.Alike : TaskOut → TaskOut → Prop
  | .effects l, .effects l' => l'.map TcpEffect.plain = l.map TcpEffect.plain
  | .text cmd res, .text cmd' res' => cmd' = cmd ∧ (PrintsRelays cmd ∨ res' = res)
  | o, o' => o' = o

theorem TaskOut.Alike.refl (o : TaskOut) : o.Alike o := by
  cases o with
  | effects => exact rfl
  | text => exact ⟨rfl, .inr rfl⟩
  | _ => exact rfl

/-- A turn from a server with other lists. -/
structure TaskTurn.Alike (v : Revision) (r r' : TaskTurn) : Prop where
  server : ∃ n, r'.server = r.server.revise (v.turned n)
  queued : r'.queued.map Data.plain = r.queued.map Data.plain
  out : r.out.Alike r'.out
  keep : r'.keep = r.keep

theorem turn_revise {v : Revision} {kind : TaskKind} {input : TaskInput} {r : TaskTurn}
    (h : kind.turn X key iso s input = some r) :
    ∃ r', kind.turn X key iso (s.revise v) input = some r' ∧ r.Alike v r' := by
  unfold TaskKind.turn at h ⊢
  split at h
  · rename_i addr ws io msg
    obtain rfl := Option.some.inj h
    obtain ⟨hs, heff, hkeep⟩ := @handleTcp_revise X key s v io.toDbIo addr ws msg
    exact ⟨_, rfl, hs, queued_plain true true heff, heff, hkeep⟩
  · rename_i addr now msg
    split at h <;> obtain rfl := Option.some.inj h
    · exact ⟨_, rfl, ⟨v.rotation, rfl⟩, rfl, .refl _, rfl⟩
    · exact ⟨_, rfl, ⟨v.rotation, rfl⟩, rfl, .refl _, rfl⟩
    · exact ⟨_, rfl, ⟨v.rotation, rfl⟩, rfl, .refl _, rfl⟩
  · rename_i now conn
    unfold handleLoopback LoopbackConn.execute at h ⊢
    cases hcmd : conn.command with
    | none =>
        rw [hcmd] at h
        obtain rfl := Option.some.inj h
        exact ⟨_, rfl, ⟨v.rotation, rfl⟩, rfl, .refl _, rfl⟩
    | some data =>
        rw [hcmd] at h
        obtain rfl := Option.some.inj h
        obtain ⟨hs, hq, hres⟩ := @checkCmd_revise iso s v now data
        exact ⟨_, rfl, hs, congrArg _ hq, ⟨rfl, hres⟩, rfl⟩
  · rename_i addr ph io
    obtain ⟨hs, hmsg, hto⟩ := @handlePunchHoleRequest_revise X key s v io.toDbIo addr ph false
    generalize handlePunchHoleRequest X key (s.revise v) io.toDbIo addr ph false = q'
      at hs hmsg hto ⊢
    generalize handlePunchHoleRequest X key s io.toDbIo addr ph false = q at h hs hmsg hto
    obtain rfl := Option.some.inj h
    refine ⟨_, rfl, hs, ?_, ?_, rfl⟩
    · simp only [List.map_cons, List.map_nil, Data.plain, hmsg, hto]
    · simp only [TaskOut.Alike, List.map_cons, List.map_nil, TcpEffect.plain, hmsg, hto]
  · cases h

end KinBridge
