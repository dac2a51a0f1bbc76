import KinBridge.Hbbs.Command

/-!
# `IP_CHANGES` on its own

A registration from a new address is noted in `IP_CHANGES`, and only `ip-changes` looks at
it. So the other handlers and commands do the same whatever the table holds.
-/

namespace KinBridge

variable {X : Ext} {key : String} {iso : Nat → String} {cfg : Config} {s : Server} {m : IpChanges}
  {now : Instant}

/-- The same server with another `IP_CHANGES`. -/
def withChanges (s : Server) (m : IpChanges) : Server := { s with ipChanges := m }

@[simp] theorem withChanges_self : withChanges s s.ipChanges = s := rfl

@[simp] theorem withChanges_inner : (withChanges s m).inner = s.inner := rfl

@[simp] theorem withChanges_relayServers0 :
    (withChanges s m).relayServers0 = s.relayServers0 := rfl

/-- What a handler does to the table at time `now`. -/
inductive Noting (now : Instant) : (IpChanges → IpChanges) → Prop where
  | nothing : Noting now fun m => m
  | change {id ip : String} : Noting now fun m => noteIpChange m now id ip

/-- `f` does the same to the rest of the server and returns the same, whatever the table. -/
def Notes {α : Type} (now : Instant) (f : Server → Server × α) (s : Server) : Prop :=
  ∃ note, Noting now note ∧ ∀ m, f (withChanges s m) = (withChanges (f s).1 (note m), (f s).2)

theorem notes_nothing {α : Type} {f : Server → Server × α}
    (h : ∀ m, f (withChanges s m) = (withChanges (f s).1 m, (f s).2)) : Notes now f s :=
  ⟨_, .nothing, h⟩

theorem getRelayServer_withChanges : getRelayServer (withChanges s m)
    = (withChanges (getRelayServer s).1 m, (getRelayServer s).2) := by
  unfold getRelayServer
  dsimp only [withChanges]
  split <;> rfl

theorem getPk_withChanges {io : DbIo} {version id : String} :
    getPk X (withChanges s m) io version id
      = (withChanges (getPk X s io version id).1 m, (getPk X s io version id).2) := by
  unfold getPk signedIdPk
  dsimp only [withChanges]
  split
  · rfl
  · split <;> rfl

theorem forwardPunchHole_withChanges {addr : SocketAddr} {ph : PunchHoleRequest} {ws : Bool}
    {peerAddr : SocketAddr} : forwardPunchHole X (withChanges s m) now addr ph ws peerAddr
      = (withChanges (forwardPunchHole X s now addr ph ws peerAddr).1 m,
        (forwardPunchHole X s now addr ph ws peerAddr).2) := by
  unfold forwardPunchHole
  have h := fun reqs => @getRelayServer_withChanges { s with punchReqs := reqs } m
  dsimp only [withChanges] at h ⊢
  rw [h]
  dsimp only
  split <;> rfl

theorem handlePunchHoleRequest_withChanges {io : DbIo} {addr : SocketAddr}
    {ph : PunchHoleRequest} {ws : Bool} :
    handlePunchHoleRequest X key (withChanges s m) io addr ph ws
      = (withChanges (handlePunchHoleRequest X key s io addr ph ws).1 m,
        (handlePunchHoleRequest X key s io addr ph ws).2) := by
  unfold handlePunchHoleRequest
  split
  · rfl
  · have hpm : (withChanges s m).pm = s.pm := rfl
    rw [hpm]
    split
    · rfl
    · dsimp only
      split
      · rfl
      · rename_i pm peer _ _
        have h := @forwardPunchHole_withChanges X { s with pm := pm } m io.now addr ph ws
          peer.socketAddr
        dsimp only [withChanges] at h ⊢
        rw [h]

theorem handleHoleSent_withChanges {io : DbIo} {phs : PunchHoleSent} {addr : SocketAddr} :
    handleHoleSent X (withChanges s m) io phs addr
      = (withChanges (handleHoleSent X s io phs addr).1 m,
        (handleHoleSent X s io phs addr).2) := by
  unfold handleHoleSent
  rw [getPk_withChanges]

theorem handleLocalAddr_withChanges {io : DbIo} {la : LocalAddr} :
    handleLocalAddr X (withChanges s m) io la
      = (withChanges (handleLocalAddr X s io la).1 m, (handleLocalAddr X s io la).2) := by
  unfold handleLocalAddr
  rw [getPk_withChanges]

theorem relayResponseRelay_withChanges {rr : RelayResponse} {addrB : SocketAddr} :
    relayResponseRelay (withChanges s m) rr addrB
      = (withChanges (relayResponseRelay s rr addrB).1 m,
        (relayResponseRelay s rr addrB).2) := by
  unfold relayResponseRelay
  rw [withChanges_inner, getRelayServer_withChanges]
  split
  · rfl
  · split
    · rfl
    · split <;> rfl

theorem handleRelayResponse_withChanges {io : DbIo} {rr : RelayResponse} :
    handleRelayResponse X (withChanges s m) io rr
      = (withChanges (handleRelayResponse X s io rr).1 m,
        (handleRelayResponse X s io rr).2) := by
  unfold handleRelayResponse relayResponsePk
  rw [getPk_withChanges]
  dsimp only
  split <;> rw [relayResponseRelay_withChanges]

theorem handleTcp_withChanges {io : DbIo} {addr : SocketAddr} {ws : Bool}
    {msg : Option RendezvousMessage} : handleTcp X key (withChanges s m) io addr ws msg
      = (withChanges (handleTcp X key s io addr ws msg).1 m,
        (handleTcp X key s io addr ws msg).2) := by
  unfold handleTcp
  split
  · rw [handlePunchHoleRequest_withChanges]
    generalize handlePunchHoleRequest X key s io addr _ ws = r
    obtain ⟨s, msg, _ | toAddr⟩ := r <;> rfl
  · dsimp only [withChanges]
    split <;> rfl
  · rw [handleRelayResponse_withChanges]
  · rw [handleHoleSent_withChanges]
  · rw [handleLocalAddr_withChanges]
  all_goals rfl

/-- The one handler that writes to the table. -/
theorem handleRegisterPk_notes (s : Server) (io : DbIo) (addr : SocketAddr) (rk : RegisterPk) :
    Notes io.now (fun s => handleRegisterPk X s io addr rk) s := by
  have hnothing : Noting io.now fun m => m := .nothing
  unfold Notes handleRegisterPk
  dsimp only [withChanges]
  by_cases hempty : rk.uuid = [] ∨ rk.pk = []
  · simp only [if_pos hempty]
    exact ⟨_, hnothing, fun _ => rfl⟩
  · simp only [if_neg hempty]
    by_cases hlen : rk.id.utf8ByteSize < 6
    · simp only [if_pos hlen]
      exact ⟨_, hnothing, fun _ => rfl⟩
    · simp only [if_neg hlen]
      obtain ⟨blocker, passed⟩ := checkIpBlocker s.ipBlocker io.now addr.ip.toString rk.id
      cases passed with
      | false => exact ⟨_, hnothing, fun _ => rfl⟩
      | true =>
          dsimp only
          generalize s.pm.getOr X.toInfoJson io rk.id = g
          cases rkChanged g.2 rk addr.ip.toString with
          | none => exact ⟨_, hnothing, fun _ => rfl⟩
          | some changed =>
              cases rkLimit g.2.regPk io.now with
              | none => exact ⟨_, hnothing, fun _ => rfl⟩
              | some reqPk =>
                  obtain ⟨changed, _ | _⟩ := changed
                  · exact ⟨_, hnothing, fun _ => rfl⟩
                  · exact ⟨_, .change, fun _ => rfl⟩

theorem handleUdp_notes (s : Server) (io : Io) (addr : SocketAddr)
    (msg : Option RendezvousMessage) :
    Notes io.now (fun s => handleUdp X key s io addr msg) s := by
  cases msg with
  | none => exact notes_nothing fun _ => rfl
  | some msg =>
      cases msg with
      | registerPk rk =>
          obtain ⟨note, hnote, hrun⟩ := handleRegisterPk_notes (X := X) s io.toDbIo addr rk
          refine ⟨note, hnote, fun m => ?_⟩
          unfold handleUdp
          dsimp only at hrun ⊢
          rw [hrun]
          generalize handleRegisterPk X s io.toDbIo addr rk = r
          obtain ⟨s, _ | r⟩ := r <;> rfl
      | registerPeer rp =>
          refine notes_nothing fun m => ?_
          unfold handleUdp
          dsimp only [withChanges]
          split
          · rfl
          · split <;> rfl
      | punchHoleRequest ph =>
          refine notes_nothing fun m => ?_
          unfold handleUdp
          dsimp only
          rw [handlePunchHoleRequest_withChanges]
      | punchHoleSent phs =>
          refine notes_nothing fun m => ?_
          unfold handleUdp
          dsimp only
          rw [handleHoleSent_withChanges]
      | localAddr la =>
          refine notes_nothing fun m => ?_
          unfold handleUdp
          dsimp only
          rw [handleLocalAddr_withChanges]
      | configureUpdate cu =>
          refine notes_nothing fun m => ?_
          unfold handleUdp
          dsimp only
          rw [withChanges_inner]
          split <;> rfl
      | softwareUpdate url =>
          refine notes_nothing fun m => ?_
          unfold handleUdp
          dsimp only
          rw [withChanges_inner]
          split <;> rfl
      | _ => exact notes_nothing fun _ => rfl

theorem hbbs_notes {e : Event} {s' : Server} {out : Out} (hne : e ≠ .restart)
    (hst : hbbs X key cfg s e = some (s', out)) :
    ∃ io note, e.io = some io ∧ Noting io.now note
      ∧ ∀ m, hbbs X key cfg (withChanges s m) e = some (withChanges s' (note m), out) := by
  cases e with
  | restart => exact absurd rfl hne
  | udp io addr msg =>
      obtain ⟨rfl, rfl⟩ := hbbs_udp.mp hst
      obtain ⟨note, hnote, hrun⟩ : Notes io.now (fun s => handleUdp X key s io addr msg) s :=
        handleUdp_notes s io addr msg
      refine ⟨io, note, rfl, hnote, fun m => hbbs_udp.mpr ?_⟩
      dsimp only at hrun
      rw [hrun]
      exact ⟨rfl, rfl⟩
  | tcp io addr ws msg =>
      obtain ⟨rfl, rfl⟩ := hbbs_tcp.mp hst
      refine ⟨io, _, rfl, .nothing, fun m => hbbs_tcp.mpr ?_⟩
      rw [handleTcp_withChanges]
      exact ⟨rfl, rfl⟩

theorem handleData_withChanges {d : Data} :
    handleData X (withChanges s m) d = withChanges (handleData X s d) m := by
  cases d <;> rfl

/-- What another command than `ip-changes` does. -/
theorem checkCmd_withChanges {cmd : String} (hw : cmdWord cmd ≠ some .ipChanges) :
    checkCmd iso (withChanges s m) now cmd
      = { checkCmd iso s now cmd with
          server := withChanges (checkCmd iso s now cmd).server m } := by
  unfold checkCmd
  dsimp only
  generalize cmdWord cmd = w at hw ⊢
  generalize cmdArgs cmd = args
  cases w with
  | none => rfl
  | some w =>
      cases w with
      | ipChanges => exact absurd rfl hw
      | relayServers => cases args <;> rfl
      | alwaysUseRelay => cases args <;> rfl
      | testGeo =>
          dsimp only [testGeoArm]
          rw [getRelayServer_withChanges]
          split
          · rfl
          · split <;> rfl
          · split <;> rfl
      | _ => rfl

theorem checkCmd_ipChanges {cmd : String} (hw : cmdWord cmd = some .ipChanges) :
    checkCmd iso s now cmd = ⟨withChanges s (ipChangesArm s.ipChanges now (cmdArgs cmd)).1,
      (ipChangesArm s.ipChanges now (cmdArgs cmd)).2, []⟩ := by
  unfold checkCmd
  rw [hw]
  rfl

end KinBridge
