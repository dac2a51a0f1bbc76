import KinBridge.Hbbs.Punch
import KinBridge.Hbbs.Register

/-!
# Relay advice to both ends

The peer learns its relay from the forwarded request, the requester from the peer's
`RelayResponse` that `hbbs` passes on. The two should meet at one machine.

Both handlers rewrite the relay where the LAN is involved, each by its own rule. An end on
the LAN is sent to `local_ip`, which names one machine; the other end is sent to whatever
relay has its turn. With one relay that is the same machine. With several, the two meet
only if the turn happens to be that machine's.
-/

namespace KinBridge.Proof

open KinBridge

variable {X : Ext} {key : String} {M : Type*} {machine : String → M}

/-- The requester's address and the relay, as a forwarded request gives them to the peer. -/
def relayGiven : RendezvousMessage → Option (Bytes × String)
  | .punchHole ph => some (ph.socketAddr, ph.relayServer)
  | .fetchLocalAddr fla => some (fla.socketAddr, fla.relayServer)
  | _ => none

/-- The relay that the requester gets when `hbbs` passes this response on. -/
def relayDelivered (X : Ext) (s : Server) (io : DbIo) (rr : RelayResponse) : String :=
  match (handleRelayResponse X s io rr).2.1 with
  | .relayResponse rr => rr.relayServer
  | _ => ""

/-- Two relay names mean one machine, or are both empty. -/
def SameMachine (machine : String → M) (r r' : String) : Prop :=
  (r = "" ∧ r' = "") ∨ (r ≠ "" ∧ r' ≠ "" ∧ machine r = machine r')

/-- The relay whose turn it is. -/
def turnOf (s : Server) : String := s.relayServers.getD (s.rotation % s.relayServers.length) ""

/-- `local_ip` names the machine of a listed relay without being listed itself, and no listed
name is empty (`get_servers` drops those). -/
structure LocalRelay (machine : String → M) (localIp : String) (relays : List String) : Prop where
  named : localIp ≠ ""
  listed : ∃ r ∈ relays, machine r = machine localIp
  apart : localIp ∉ relays
  names : ∀ r ∈ relays, r ≠ ""

/-! ## The two choices -/

theorem getRelayServer_turn (s : Server) : (getRelayServer s).2 = turnOf s := by
  unfold getRelayServer turnOf
  split
  · rename_i hnil; simp [hnil]
  · rename_i r hone; simp [hone, Nat.mod_one]
  · rfl

/-- A turn is some listed relay's, so it is neither empty nor `local_ip`. -/
theorem LocalRelay.turn_ne {s : Server} {localIp : String}
    (h : LocalRelay machine localIp s.relayServers) : turnOf s ≠ "" ∧ turnOf s ≠ localIp := by
  obtain ⟨r, hr, _⟩ := h.listed
  have hpos : 0 < s.relayServers.length := List.length_pos_of_mem hr
  have hlt : s.rotation % s.relayServers.length < s.relayServers.length := Nat.mod_lt _ hpos
  have hmem : turnOf s ∈ s.relayServers := by
    rw [turnOf, List.getD_eq_getElem?_getD, List.getElem?_eq_getElem hlt]
    exact List.getElem_mem hlt
  refine ⟨h.names _ hmem, ?_⟩
  intro heq
  exact h.apart (heq ▸ hmem)

/-- What the peer is told: `local_ip` if the relay is forced and the peer is on the LAN. -/
theorem forwardPunchHole_given (s : Server) (now : Instant) (addr : SocketAddr)
    (ph : PunchHoleRequest) (ws : Bool) (peerAddr : SocketAddr) :
    relayGiven (forwardPunchHole X s now addr ph ws peerAddr).2 = some (X.encode addr,
      if (s.alwaysUseRelay || xor (isLan s.inner peerAddr) (isLan s.inner addr))
          && isLan s.inner peerAddr then s.inner.localIp else turnOf s) := by
  have hkeep : ∀ s : Server, (getRelayServer s).1.alwaysUseRelay = s.alwaysUseRelay
      ∧ (getRelayServer s).1.inner = s.inner := by
    intro s
    unfold getRelayServer
    split <;> exact ⟨rfl, rfl⟩
  unfold forwardPunchHole
  dsimp only
  rw [(hkeep _).1, (hkeep _).2, getRelayServer_turn]
  split <;> rfl

theorem handlePunchHoleRequest_given {s : Server} {io : DbIo} {addr peerAddr : SocketAddr}
    {ph : PunchHoleRequest} {ws : Bool} {msg : RendezvousMessage}
    (h : (handlePunchHoleRequest X key s io addr ph ws).2 = (msg, some peerAddr)) :
    relayGiven msg = some (X.encode addr,
      if (s.alwaysUseRelay || xor (isLan s.inner peerAddr) (isLan s.inner addr))
          && isLan s.inner peerAddr then s.inner.localIp else turnOf s) := by
  unfold handlePunchHoleRequest at h
  split at h
  · cases h
  · split at h
    · cases h
    · dsimp only at h
      split at h
      · cases h
      · obtain ⟨rfl, hto⟩ := Prod.mk.inj h
        obtain rfl := Option.some.inj hto
        exact forwardPunchHole_given ..

theorem getPk_keeps (s : Server) (io : DbIo) (version id : String) :
    ∃ pm, (getPk X s io version id).1 = { s with pm := pm } := by
  unfold getPk
  split
  · exact ⟨s.pm, rfl⟩
  · split
    · exact ⟨s.pm, rfl⟩
    · exact ⟨_, rfl⟩

/-- Looking up the key of a response touches the peer map only. -/
theorem relayResponsePk_keeps (s : Server) (io : DbIo) (rr : RelayResponse) :
    ∃ pm, (relayResponsePk X s io rr).1 = { s with pm := pm }
      ∧ (relayResponsePk X s io rr).2.relayServer = rr.relayServer := by
  unfold relayResponsePk
  split
  · exact ⟨s.pm, rfl, rfl⟩
  · obtain ⟨pm, hpm⟩ := getPk_keeps (X := X) s io rr.version rr.id
    exact ⟨pm, hpm, rfl⟩

/-- What the requester is told. -/
theorem relayDelivered_eq (s : Server) (io : DbIo) (rr : RelayResponse) :
    relayDelivered X s io rr =
      if rr.relayServer = "" then ""
      else if isLan s.inner (X.decode rr.socketAddr) then s.inner.localIp
      else if rr.relayServer = s.inner.localIp then turnOf s else rr.relayServer := by
  obtain ⟨pm, hs, hrelay⟩ := relayResponsePk_keeps (X := X) s io { rr with socketAddr := [] }
  unfold relayDelivered handleRelayResponse
  dsimp only at hrelay ⊢
  unfold relayResponseRelay
  rw [hs, hrelay]
  split
  · rename_i hempty; rw [hrelay]; exact hempty
  · split
    · rfl
    · split
      · exact getRelayServer_turn { s with pm := pm }
      · exact hrelay

/-- The plain form of an address is on the LAN exactly if the address is. -/
theorem isLan_tryIntoV4 {inner : Inner} {a b : SocketAddr}
    (h : b = a ∨ ∃ ip v4, a.ip = .v6 ip ∧ ip.toIpv4 = some v4 ∧ b.ip = .v4 v4) :
    isLan inner b = isLan inner a := by
  rcases h with rfl | ⟨ip, v4, ha, hv4, hb⟩
  · rfl
  · simp [isLan, ha, hb, hv4]

/-! ## Agreement -/

/--
The turn falls right: it does not matter with both ends outside the LAN, nor with both inside
and the relay forced. Otherwise it must be on the machine of `local_ip`: the turn at the
request if the requester is on the LAN, the turn at the response if only the peer is.
-/
def TurnFits (machine : String → M) (s₁ s₂ : Server) (addr peerAddr : SocketAddr) : Prop :=
  match isLan s₁.inner addr, isLan s₁.inner peerAddr with
  | false, false => True
  | true, true => s₁.alwaysUseRelay = true ∨ machine (turnOf s₁) = machine s₁.inner.localIp
  | true, false => machine (turnOf s₁) = machine s₁.inner.localIp
  | false, true => machine (turnOf s₂) = machine s₁.inner.localIp

/--
**Both ends get one relay exactly if the turn falls right**: for every mask, relay list,
counter, `ALWAYS_USE_RELAY` and placement of the two ends.
-/
theorem relay_agreement_iff {s₁ s₂ : Server} {io₁ io₂ : DbIo} {addr peerAddr : SocketAddr}
    {ph : PunchHoleRequest} {ws : Bool} {msg : RendezvousMessage} {sock : Bytes} {r : String}
    {rr : RelayResponse} (hdecode : ∀ a, X.decode (X.encode a) = X.tryIntoV4 a)
    (hv4 : ∀ a, X.tryIntoV4 a = a ∨
      ∃ ip v4, a.ip = .v6 ip ∧ ip.toIpv4 = some v4 ∧ (X.tryIntoV4 a).ip = .v4 v4)
    (hlocal : LocalRelay machine s₁.inner.localIp s₁.relayServers)
    (hreq : (handlePunchHoleRequest X key s₁ io₁ addr ph ws).2 = (msg, some peerAddr))
    (hgiven : relayGiven msg = some (sock, r))
    (hlist : s₂.relayServers = s₁.relayServers) (hinner : s₂.inner = s₁.inner)
    (hsock : rr.socketAddr = sock) (hecho : rr.relayServer = r) :
    SameMachine machine r (relayDelivered X s₂ io₂ rr) ↔ TurnFits machine s₁ s₂ addr peerAddr := by
  rw [handlePunchHoleRequest_given hreq, Option.some.injEq, Prod.mk.injEq] at hgiven
  obtain ⟨rfl, rfl⟩ := hgiven
  obtain ⟨hturn, hne⟩ := hlocal.turn_ne
  obtain ⟨hturn₂, _⟩ := LocalRelay.turn_ne (s := s₂) (hlist ▸ hlocal)
  rw [relayDelivered_eq, hsock, hdecode, hinner, isLan_tryIntoV4 (hv4 addr), hecho]
  unfold TurnFits SameMachine
  -- four placements; in each, both advices are `local_ip` or a turn
  cases hreqLan : isLan s₁.inner addr with
  | false =>
      cases hpeerLan : isLan s₁.inner peerAddr with
      | false => simp [hturn, hne]
      | true => simp [hlocal.named, hturn₂, eq_comm]
  | true =>
      cases hpeerLan : isLan s₁.inner peerAddr with
      | false => simp [hturn, hlocal.named]
      | true =>
          cases halways : s₁.alwaysUseRelay with
          | false => simp [hturn, hlocal.named]
          | true => simp [hlocal.named]

/-! ### One relay, and two -/

/-- A LAN of `192.168.0.0/16`, with `hbbs` and one of the relays on `192.168.1.5`. -/
def lanConfig (relays : List String) : Config :=
  { Config.sample with
    inner := { Config.sample.inner with
      mask := some fun ip => ip.a = 192 && ip.b = 168
      localIp := "192.168.1.5" }
    relayServers := relays }

/-- A server on that LAN at which this peer has registered. -/
def lanServer (relays : List String) (peerAddr : SocketAddr) : Server :=
  (handleRegisterPk Ext.sample (.start (lanConfig relays) .empty) (Io.sample 0 1).toDbIo peerAddr
    ⟨"peer-1", [1], [2]⟩).1

def lanHost : SocketAddr := ⟨.v4 ⟨192, 168, 1, 7⟩, 40⟩

def wanHost : SocketAddr := ⟨.v4 ⟨5, 6, 7, 8⟩, 50⟩

/-- "relay-1" is the machine of `local_ip`. -/
def lanMachine (r : String) : Nat := if r = "relay-1" ∨ r = "192.168.1.5" then 1 else 2

theorem relay_agreement_one :
    ∃ msg sock, (handlePunchHoleRequest Ext.sample "" (lanServer ["relay-1"] lanHost)
          (Io.sample 1 1).toDbIo wanHost ⟨"peer-1", .symmetric, ""⟩ false).2 = (msg, some lanHost)
      ∧ relayGiven msg = some (sock, "192.168.1.5")
      ∧ SameMachine lanMachine "192.168.1.5" (relayDelivered Ext.sample
          (lanServer ["relay-1"] lanHost) (Io.sample 2 1).toDbIo
          ⟨sock, "192.168.1.5", none, ""⟩) := by
  have hlocal : LocalRelay lanMachine (lanServer ["relay-1"] lanHost).inner.localIp
      (lanServer ["relay-1"] lanHost).relayServers :=
    ⟨by decide, ⟨"relay-1", by decide, by decide⟩, by decide, by decide⟩
  have hreq : (handlePunchHoleRequest Ext.sample "" (lanServer ["relay-1"] lanHost)
      (Io.sample 1 1).toDbIo wanHost ⟨"peer-1", .symmetric, ""⟩ false).2 = (_, some lanHost) := rfl
  have hgiven := handlePunchHoleRequest_given hreq
  have hfits : TurnFits lanMachine (lanServer ["relay-1"] lanHost) (lanServer ["relay-1"] lanHost)
      wanHost lanHost := by
    show lanMachine _ = lanMachine _
    decide
  exact ⟨_, _, hreq, hgiven, (relay_agreement_iff sample_decode sample_plain hlocal hreq hgiven
    rfl rfl rfl rfl).mpr hfits⟩

/-- **Two relays, two advices**: a requester on the LAN is sent to `local_ip`, and the peer
outside to the relay whose turn it is. -/
theorem relay_disagreement :
    ¬ ∀ (machine : String → Nat) s₁ s₂ io₁ io₂ addr peerAddr ph ws msg sock r rr,
      LocalRelay machine s₁.inner.localIp s₁.relayServers →
      (handlePunchHoleRequest Ext.sample "" s₁ io₁ addr ph ws).2 = (msg, some peerAddr) →
      relayGiven msg = some (sock, r) → s₂.relayServers = s₁.relayServers → s₂.inner = s₁.inner →
      rr.socketAddr = sock → rr.relayServer = r →
      SameMachine machine r (relayDelivered Ext.sample s₂ io₂ rr) := by
  intro hall
  have hlocal : LocalRelay lanMachine (lanServer ["relay-2", "relay-1"] wanHost).inner.localIp
      (lanServer ["relay-2", "relay-1"] wanHost).relayServers :=
    ⟨by decide, ⟨"relay-1", by decide, by decide⟩, by decide, by decide⟩
  have hsame := hall _ _ _ (Io.sample 1 1).toDbIo (Io.sample 2 1).toDbIo lanHost wanHost
    ⟨"peer-1", .symmetric, ""⟩ false _ _ _ ⟨_, _, none, ""⟩ hlocal rfl rfl rfl rfl rfl rfl
  rcases hsame with hsame | hsame
  · exact absurd hsame.1 (by decide)
  · exact absurd hsame.2.2 (by decide)

end KinBridge.Proof
