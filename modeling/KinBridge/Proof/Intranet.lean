import KinBridge.Hbbs.Punch

/-!
# The same-intranet test

Two clients behind one router are told to fetch each other's local address instead of
punching a hole. `handle_punch_hole_request` takes them for such a pair if both are in the
LAN or if their IPs are equal, and makes that test last, on the addresses as they came in.

Last means after the relay was forced: the test does not look at `ALWAYS_USE_RELAY`. As they
came in means that it compares the variants of `SocketAddr`, where the log entry and `is_lan`
take the IPv4 address out of an IPv4-mapped one first.
-/

namespace KinBridge.Proof

open KinBridge Slots

variable {X : Ext} {key : String}

/-- Both ends are in the LAN, or show one IP in one family. -/
def SameIntranet (inner : Inner) (peerAddr addr : SocketAddr) : Prop :=
  (isLan inner peerAddr = true ∧ isLan inner addr = true) ∨ sameHost peerAddr addr = true

instance (inner : Inner) (peerAddr addr : SocketAddr) :
    Decidable (SameIntranet inner peerAddr addr) := inferInstanceAs (Decidable (_ ∨ _))

/-! ## The message to the peer -/

section Forward

variable {s : Server} {now : Instant} {addr peerAddr : SocketAddr} {ph : PunchHoleRequest}
  {ws : Bool}

/-- Whether the requester is to use the relay, whatever it asked for. -/
def relayForced (s : Server) (peerAddr addr : SocketAddr) : Bool :=
  s.alwaysUseRelay || xor (isLan s.inner peerAddr) (isLan s.inner addr)

/-- The relay that the peer is told. -/
def relayTold (s : Server) (peerAddr addr : SocketAddr) : String :=
  if relayForced s peerAddr addr && isLan s.inner peerAddr then s.inner.localIp
  else (getRelayServer s).2

/-- What the handler leaves and sends, by the questions it asks about the two addresses. -/
theorem forwardPunchHole_eq : forwardPunchHole X s now addr ph ws peerAddr =
    ({ (getRelayServer s).1 with
        punchReqs := recordPunchReq s.punchReqs now (X.tryIntoV4 addr).ip.toString
          (X.tryIntoV4 peerAddr).ip.toString ph.id },
      if !ws && (isLan s.inner peerAddr && isLan s.inner addr || sameHost peerAddr addr) then
        .fetchLocalAddr ⟨X.encode addr, relayTold s peerAddr addr⟩
      else .punchHole ⟨X.encode addr,
        if relayForced s peerAddr addr then .symmetric else ph.natType,
        relayTold s peerAddr addr⟩) := by
  obtain ⟨_, _, _, _, relays, _, _, _, _, _⟩ := s
  unfold forwardPunchHole relayTold relayForced getRelayServer
  cases relays with
  | nil => dsimp only; split <;> rfl
  | cons r rs => cases rs <;> dsimp only <;> split <;> rfl

/-- The peer map plays no part in it. -/
theorem forwardPunchHole_withPm (pm : PeerMap) :
    forwardPunchHole X { s with pm := pm } now addr ph ws peerAddr =
      ({ (forwardPunchHole X s now addr ph ws peerAddr).1 with pm := pm },
        (forwardPunchHole X s now addr ph ws peerAddr).2) := by
  rw [forwardPunchHole_eq, forwardPunchHole_eq]
  obtain ⟨_, _, _, _, relays, _, _, _, _, _⟩ := s
  unfold relayTold relayForced getRelayServer
  cases relays with
  | nil => rfl
  | cons r rs => cases rs <;> rfl

/-- Over UDP or TCP a request within one intranet makes the peer fetch its local address. -/
theorem forwardPunchHole_intranet (h : ws = false ∧ SameIntranet s.inner peerAddr addr) :
    (forwardPunchHole X s now addr ph ws peerAddr).2
      = .fetchLocalAddr ⟨X.encode addr, relayTold s peerAddr addr⟩ := by
  obtain ⟨rfl, hsame⟩ := h
  rw [forwardPunchHole_eq]
  refine if_pos ?_
  simpa [SameIntranet] using hsame

/-- Every other request goes on as a `PunchHole`. -/
theorem forwardPunchHole_punch (h : ¬ (ws = false ∧ SameIntranet s.inner peerAddr addr)) :
    (forwardPunchHole X s now addr ph ws peerAddr).2 = .punchHole ⟨X.encode addr,
      if relayForced s peerAddr addr then .symmetric else ph.natType,
      relayTold s peerAddr addr⟩ := by
  rw [forwardPunchHole_eq]
  refine if_neg ?_
  intro htest
  refine h ?_
  simpa [SameIntranet] using htest

end Forward

/-! ## Forced relays -/

/-- The message is a `PunchHole` whose NAT type rules out a direct connection. -/
def ForcesRelay (msg : RendezvousMessage) : Prop :=
  ∃ ph, msg = .punchHole ph ∧ ph.natType = .symmetric

/--
**With `ALWAYS_USE_RELAY` a request forces the relay exactly if it came over WebSocket or is
not within one intranet.**
-/
theorem forced_relay_iff {s : Server} {io : DbIo} {addr peerAddr : SocketAddr}
    {ph : PunchHoleRequest} {ws : Bool} (halways : s.alwaysUseRelay = true)
    (hfwd : (handlePunchHoleRequest X key s io addr ph ws).2.2 = some peerAddr) :
    ForcesRelay (handlePunchHoleRequest X key s io addr ph ws).2.1
      ↔ ws = true ∨ ¬ SameIntranet s.inner peerAddr addr := by
  have hout := handlePunchHoleRequest_cases X key s io addr ph ws
  generalize handlePunchHoleRequest X key s io addr ph ws = r at hout hfwd ⊢
  have hcond : (ws = true ∨ ¬ SameIntranet s.inner peerAddr addr)
      ↔ ¬ (ws = false ∧ SameIntranet s.inner peerAddr addr) := by
    rw [not_and_or, Bool.not_eq_false]
  rw [hcond]
  cases hout with
  | unlicensed | unknown | offline => cases hfwd
  | @forwarded peer _ _ _ =>
      obtain rfl := Option.some.inj hfwd
      rw [forwardPunchHole_withPm]
      by_cases hsame : ws = false ∧ SameIntranet s.inner peer.socketAddr addr
      · rw [forwardPunchHole_intranet hsame]
        refine iff_of_false ?_ (not_not.mpr hsame)
        rintro ⟨m, ⟨⟩, _⟩
      · rw [forwardPunchHole_punch hsame]
        refine iff_of_true ⟨_, rfl, ?_⟩ hsame
        simp [relayForced, halways]

/-- A server that always uses the relay, with one peer on record at `addr`. -/
def alwaysRelay (addr : SocketAddr) : Server :=
  { Server.start .sample .empty with
    alwaysUseRelay := true
    pm := ⟨put (fun _ => none) "peer-1" { Peer.default 0 with socketAddr := addr }, .empty⟩ }

/-- Two clients at different addresses. -/
theorem forced_relay_apart :
    ForcesRelay (handlePunchHoleRequest Ext.sample "" (alwaysRelay ⟨.v4 ⟨10, 0, 0, 1⟩, 4000⟩)
      (Io.sample (ofSecs 1) 1).toDbIo ⟨.v4 ⟨10, 0, 0, 2⟩, 4000⟩
      ⟨"peer-1", .other 1, ""⟩ false).2.1 :=
  (forced_relay_iff rfl rfl).mpr (.inr (by decide))

/-- **Two clients behind one address**: the peer is told to fetch its local address. -/
theorem relay_not_forced :
    ¬ ∀ (s : Server) (io : DbIo) (addr peerAddr : SocketAddr) (ph : PunchHoleRequest) (ws : Bool),
      s.alwaysUseRelay = true →
      (handlePunchHoleRequest Ext.sample "" s io addr ph ws).2.2 = some peerAddr →
      ForcesRelay (handlePunchHoleRequest Ext.sample "" s io addr ph ws).2.1 := by
  intro hall
  obtain ⟨m, hm, _⟩ := hall (alwaysRelay ⟨.v4 ⟨10, 0, 0, 1⟩, 4000⟩)
    (Io.sample (ofSecs 1) 1).toDbIo ⟨.v4 ⟨10, 0, 0, 1⟩, 4001⟩ ⟨.v4 ⟨10, 0, 0, 1⟩, 4000⟩
    ⟨"peer-1", .other 1, ""⟩ false rfl rfl
  cases hm

/-! ## The two spellings of an IPv4 address -/

/-- `::ffff:a.b.c.d`. -/
def toIpv6Mapped (x : Ipv4Addr) : Ipv6Addr :=
  ⟨0, 0, 0, 0, 0, 0xffff, u16OfBytes x.a x.b, u16OfBytes x.c x.d⟩

/-- `b` is `a`, or the IPv4-mapped spelling of `a`. -/
def Respelled (a b : SocketAddr) : Prop :=
  b = a ∨ ∃ x, a.ip = .v4 x ∧ b = ⟨.v6 (toIpv6Mapped x), a.port⟩

/-- The two addresses are of one family. -/
def sameFamily (a b : SocketAddr) : Bool :=
  match a.ip, b.ip with
  | .v4 _, .v4 _ => true
  | .v6 _, .v6 _ => true
  | _, _ => false

theorem u16OfBytes_toNat (hi lo : UInt8) :
    (u16OfBytes hi lo).toNat = hi.toNat * 256 + lo.toNat := by
  have hhi : hi.toNat < 256 := hi.toNat_lt
  have hlo : lo.toNat < 256 := lo.toNat_lt
  rw [u16OfBytes, UInt16.toNat_ofNat']
  omega

theorem low4_toIpv6Mapped (x : Ipv4Addr) : (toIpv6Mapped x).low4 = x := by
  have hbyte : ∀ hi lo : UInt8, (u16OfBytes hi lo >>> 8).toUInt8 = hi
      ∧ (u16OfBytes hi lo).toUInt8 = lo := by
    intro hi lo
    have hhi : hi.toNat < 256 := hi.toNat_lt
    have hlo : lo.toNat < 256 := lo.toNat_lt
    constructor
    · apply UInt8.toNat_inj.mp
      rw [UInt16.toNat_toUInt8, UInt16.toNat_shiftRight, u16OfBytes_toNat]
      simp [Nat.shiftRight_eq_div_pow]
      omega
    · apply UInt8.toNat_inj.mp
      rw [UInt16.toNat_toUInt8, u16OfBytes_toNat]
      omega
  obtain ⟨a, b, c, d⟩ := x
  simp [toIpv6Mapped, Ipv6Addr.low4, hbyte]

theorem toIpv4_toIpv6Mapped (x : Ipv4Addr) : (toIpv6Mapped x).toIpv4 = some x := by
  rw [Ipv6Addr.toIpv4, low4_toIpv6Mapped]
  exact if_pos ⟨rfl, .inr rfl⟩

theorem toIpv4Mapped_toIpv6Mapped (x : Ipv4Addr) : (toIpv6Mapped x).toIpv4Mapped = some x := by
  rw [Ipv6Addr.toIpv4Mapped, low4_toIpv6Mapped]
  exact if_pos rfl

/-- `is_lan` does not see the spelling. -/
theorem isLan_respelled {inner : Inner} {a b : SocketAddr} (h : Respelled a b) :
    isLan inner b = isLan inner a := by
  rcases h with rfl | ⟨x, hx, rfl⟩
  · rfl
  · unfold isLan
    rw [hx]
    simp only [toIpv4_toIpv6Mapped]

theorem plainV4_respelled {a b : SocketAddr} (h : Respelled a b) : plainV4 b = plainV4 a := by
  rcases h with rfl | ⟨x, hx, rfl⟩
  · rfl
  · obtain ⟨ip, port⟩ := a
    obtain rfl := hx
    simp [plainV4, toIpv4Mapped_toIpv6Mapped]

/-- A mapped address is the spelling of the address it holds. -/
theorem eq_toIpv6Mapped {x : Ipv6Addr} {v : Ipv4Addr} (h : x.toIpv4Mapped = some v) :
    x = toIpv6Mapped v := by
  have hword : ∀ w : UInt16, u16OfBytes (w >>> 8).toUInt8 w.toUInt8 = w := by
    intro w
    have hhigh : (w >>> 8).toUInt8 = UInt8.ofNat (w.toNat / 256) := by
      apply UInt8.toNat_inj.mp
      simp [Nat.shiftRight_eq_div_pow]
    rw [hhigh, u16OfBytes_bytesOfU16]
  simp only [Ipv6Addr.toIpv4Mapped, Option.ite_none_right_eq_some, Option.some.injEq] at h
  obtain ⟨hseg, rfl⟩ := h
  simp only [List.cons.injEq, and_true] at hseg
  obtain ⟨s0, s1, s2, s3, s4, s5, s6, s7⟩ := x
  obtain ⟨rfl, rfl, rfl, rfl, rfl, rfl⟩ := hseg
  simp [toIpv6Mapped, Ipv6Addr.low4, hword]

/-- `match (peer_addr, addr)` asks for one IP and for one family. -/
theorem sameHost_eq (a b : SocketAddr) :
    sameHost a b = (sameFamily a b && decide ((plainV4 a).ip = (plainV4 b).ip)) := by
  obtain ⟨ip, p⟩ := a
  obtain ⟨ip', q⟩ := b
  cases ip <;> cases ip'
  case v4.v4 x y => simp [sameHost, sameFamily, plainV4]
  case v4.v6 | v6.v4 => rfl
  case v6.v6 x y =>
    have hinj : (plainV4 ⟨.v6 x, p⟩).ip = (plainV4 ⟨.v6 y, q⟩).ip ↔ x = y := by
      constructor
      · intro heq
        cases hx : x.toIpv4Mapped with
        | none =>
            cases hy : y.toIpv4Mapped with
            | none => simpa [plainV4, hx, hy] using heq
            | some w => simp [plainV4, hx, hy] at heq
        | some v =>
            cases hy : y.toIpv4Mapped with
            | none => simp [plainV4, hx, hy] at heq
            | some w =>
                obtain rfl : v = w := by simpa [plainV4, hx, hy] using heq
                rw [eq_toIpv6Mapped hx, eq_toIpv6Mapped hy]
      · rintro rfl
        cases hx : x.toIpv4Mapped <;> simp [plainV4, hx]
    simp only [sameHost, sameFamily, Bool.true_and, hinj]

/-! ## One request, two spellings -/

/-- Why a request is not passed on, if it is not. -/
def refusal (X : Ext) (key : String) (s : Server) (io : DbIo) (ph : PunchHoleRequest) :
    Option Failure :=
  if Licensed key ph then
    match (s.pm.get X.toInfoJson io ph.id).2 with
    | none => some .ID_NOT_EXIST
    | some peer => if isOffline io.now peer then some .OFFLINE else none
  else some .LICENSE_MISMATCH

/-- The address of the record that a lookup yields: a loaded one has none. -/
def peerAddrOf (s : Server) (id : String) : SocketAddr :=
  match s.pm.map id with
  | some p => p.socketAddr
  | none => .unspecified

/-- The record in memory, if there is one, at another address. -/
def withPeerAddr (s : Server) (id : String) (a : SocketAddr) : Server :=
  match s.pm.map id with
  | some p => { s with pm := ⟨put s.pm.map id { p with socketAddr := a }, s.pm.db⟩ }
  | none => s

section TwoSpellings

variable {s : Server} {io : DbIo} {addr addr' a : SocketAddr} {ph : PunchHoleRequest} {ws : Bool}

theorem get_peerAddrOf {p : Peer} (hp : (s.pm.get X.toInfoJson io ph.id).2 = some p) :
    p.socketAddr = peerAddrOf s ph.id := by
  unfold peerAddrOf
  rcases (PeerMap.get_some hp).2 with hm | ⟨v, hm, _, _, rfl⟩
  · rw [hm]
  · rw [hm]
    rfl

/-- A request is refused for the reason given, or goes to the address on record. -/
theorem handlePunchHoleRequest_refusal :
    ∃ pm, handlePunchHoleRequest X key s io addr ph ws =
      match refusal X key s io ph with
      | some f => ({ s with pm := pm }, failureResponse f, none)
      | none =>
        ({ (forwardPunchHole X s io.now addr ph ws (peerAddrOf s ph.id)).1 with pm := pm },
          (forwardPunchHole X s io.now addr ph ws (peerAddrOf s ph.id)).2,
          some (peerAddrOf s ph.id)) := by
  have hout := handlePunchHoleRequest_cases X key s io addr ph ws
  generalize handlePunchHoleRequest X key s io addr ph ws = r at hout ⊢
  cases hout with
  | unlicensed hlic =>
      rw [refusal, if_neg hlic]
      exact ⟨s.pm, rfl⟩
  | unknown hlic hnone =>
      rw [refusal, if_pos hlic, hnone]
      exact ⟨_, rfl⟩
  | offline hlic hsome hoff =>
      rw [refusal, if_pos hlic, hsome]
      dsimp only
      rw [if_pos hoff]
      exact ⟨_, rfl⟩
  | @forwarded peer hlic hsome hon =>
      rw [refusal, if_pos hlic, hsome, forwardPunchHole_withPm, get_peerAddrOf hsome]
      dsimp only
      rw [hon]
      exact ⟨_, rfl⟩

/-- The other spelling of the peer's address changes no reason. -/
theorem refusal_withPeerAddr :
    refusal X key (withPeerAddr s ph.id a) io ph = refusal X key s io ph := by
  unfold refusal withPeerAddr
  cases hm : s.pm.map ph.id with
  | none => rfl
  | some p =>
      rw [PeerMap.get_of_memory hm, PeerMap.get_of_memory (put_self ..)]
      rfl

theorem peerAddrOf_withPeerAddr (h : Respelled (peerAddrOf s ph.id) a) :
    Respelled (peerAddrOf s ph.id) (peerAddrOf (withPeerAddr s ph.id a) ph.id) := by
  cases hm : s.pm.map ph.id with
  | none =>
      have hsame : withPeerAddr s ph.id a = s := by rw [withPeerAddr, hm]
      rw [hsame]
      exact .inl rfl
  | some p =>
      have hput : peerAddrOf (withPeerAddr s ph.id a) ph.id = a := by
        simp [peerAddrOf, withPeerAddr, hm]
      rwa [hput]

theorem withPeerAddr_eq (s : Server) (id : String) (a : SocketAddr) :
    ∃ pm, withPeerAddr s id a = { s with pm := pm } := by
  unfold withPeerAddr
  split
  · exact ⟨_, rfl⟩
  · exact ⟨s.pm, rfl⟩

/-- One answer, one log entry, and one turn of the relays. -/
structure SameResult (r r' : Server × RendezvousMessage × Option SocketAddr) : Prop where
  msg : r'.2.1 = r.2.1
  forwarded : r'.2.2.isSome = r.2.2.isSome
  punchReqs : r'.1.punchReqs = r.1.punchReqs
  rotation : r'.1.rotation = r.1.rotation

/-- Both spellings reach the same-intranet test alike, unless they change whether two equal
IPs are of one family. -/
theorem sameHost_respelled {p p' : SocketAddr} (hp : Respelled p p') (ha : Respelled addr addr') :
    sameHost p' addr' = sameHost p addr
      ↔ (plainV4 p).ip ≠ (plainV4 addr).ip ∨ sameFamily p' addr' = sameFamily p addr := by
  rw [sameHost_eq, sameHost_eq, plainV4_respelled hp, plainV4_respelled ha]
  by_cases heq : (plainV4 p).ip = (plainV4 addr).ip
  · simp [heq]
  · simp [heq]

/-- What the peer is sent differs by the outcome of the same-intranet test only. -/
theorem forwardPunchHole_respelled {now : Instant} {p p' : SocketAddr} (hp : Respelled p p')
    (ha : Respelled addr addr') (henc : X.encode addr' = X.encode addr) :
    (forwardPunchHole X s now addr' ph ws p').2 = (forwardPunchHole X s now addr ph ws p).2
      ↔ ws = true ∨ (isLan s.inner p = true ∧ isLan s.inner addr = true)
        ∨ sameHost p' addr' = sameHost p addr := by
  have hforced : relayForced s p' addr' = relayForced s p addr := by
    rw [relayForced, relayForced, isLan_respelled hp, isLan_respelled ha]
  have htold : relayTold s p' addr' = relayTold s p addr := by
    rw [relayTold, relayTold, hforced, isLan_respelled hp]
  rw [forwardPunchHole_eq, forwardPunchHole_eq, henc, hforced, htold, isLan_respelled hp,
    isLan_respelled ha]
  cases ws <;> cases isLan s.inner p <;> cases isLan s.inner addr <;>
    cases sameHost p' addr' <;> cases sameHost p addr <;> simp

/--
**The spelling of an address does not matter, except to the same-intranet test.** With the
requester's address or the peer's respelled, a request has the same result exactly if it is
refused, comes over WebSocket, stays within the LAN, is between different IPs, or leaves it
as it was whether the two addresses are of one family.
-/
theorem spelling_iff (hv4 : ∀ a b, Respelled a b → X.tryIntoV4 b = X.tryIntoV4 a)
    (henc : ∀ a b, Respelled a b → X.encode b = X.encode a) (haddr : Respelled addr addr')
    (hpeer : Respelled (peerAddrOf s ph.id) a) :
    SameResult (handlePunchHoleRequest X key s io addr ph ws)
        (handlePunchHoleRequest X key (withPeerAddr s ph.id a) io addr' ph ws)
      ↔ refusal X key s io ph ≠ none ∨ ws = true
        ∨ (isLan s.inner (peerAddrOf s ph.id) = true ∧ isLan s.inner addr = true)
        ∨ (plainV4 (peerAddrOf s ph.id)).ip ≠ (plainV4 addr).ip
        ∨ sameFamily (peerAddrOf (withPeerAddr s ph.id a) ph.id) addr'
          = sameFamily (peerAddrOf s ph.id) addr := by
  have hp := peerAddrOf_withPeerAddr hpeer
  obtain ⟨pm, hrun⟩ := @handlePunchHoleRequest_refusal X key s io addr ph ws
  obtain ⟨pm', hrun'⟩ :=
    @handlePunchHoleRequest_refusal X key (withPeerAddr s ph.id a) io addr' ph ws
  generalize peerAddrOf (withPeerAddr s ph.id a) ph.id = p' at hp hrun' ⊢
  rw [hrun, hrun', refusal_withPeerAddr]
  obtain ⟨pm₂, hs⟩ := withPeerAddr_eq s ph.id a
  rw [hs]
  cases refusal X key s io ph with
  | some f => exact iff_of_true ⟨rfl, rfl, rfl, rfl⟩ (.inl (by simp))
  | none =>
      dsimp only
      rw [forwardPunchHole_withPm pm₂, ← sameHost_respelled hp haddr,
        or_iff_right (not_not.mpr rfl),
        ← @forwardPunchHole_respelled X s addr addr' ph ws io.now _ _ hp haddr (henc _ _ haddr)]
      constructor
      · intro hsame
        exact hsame.msg
      · intro hmsg
        refine ⟨hmsg, rfl, ?_, ?_⟩
        · rw [forwardPunchHole_eq, forwardPunchHole_eq, hv4 _ _ hp, hv4 _ _ haddr]
        · rw [forwardPunchHole_eq, forwardPunchHole_eq]

/-! ### On concrete addresses -/

theorem sample_tryIntoV4_respelled (a b : SocketAddr) (h : Respelled a b) :
    Ext.sample.tryIntoV4 b = Ext.sample.tryIntoV4 a := plainV4_respelled h

theorem sample_encode_respelled (a b : SocketAddr) (h : Respelled a b) :
    Ext.sample.encode b = Ext.sample.encode a := by
  show bytesOfAddr b = bytesOfAddr a
  have hport : b.port = a.port := by
    rcases h with rfl | ⟨x, _, rfl⟩
    · rfl
    · rfl
  rw [bytesOfAddr, bytesOfAddr, plainV4_respelled h, hport]

/-- Two clients at different addresses, the requester over a dual-stack listener. -/
theorem spelling_apart :
    SameResult
      (handlePunchHoleRequest Ext.sample "" (alwaysRelay ⟨.v4 ⟨10, 0, 0, 1⟩, 4000⟩)
        (Io.sample (ofSecs 1) 1).toDbIo ⟨.v4 ⟨10, 0, 0, 2⟩, 4000⟩ ⟨"peer-1", .symmetric, ""⟩ false)
      (handlePunchHoleRequest Ext.sample ""
        (withPeerAddr (alwaysRelay ⟨.v4 ⟨10, 0, 0, 1⟩, 4000⟩) "peer-1" ⟨.v4 ⟨10, 0, 0, 1⟩, 4000⟩)
        (Io.sample (ofSecs 1) 1).toDbIo ⟨.v6 (toIpv6Mapped ⟨10, 0, 0, 2⟩), 4000⟩
        ⟨"peer-1", .symmetric, ""⟩ false) :=
  (spelling_iff sample_tryIntoV4_respelled sample_encode_respelled (.inr ⟨_, rfl, rfl⟩)
    (.inl rfl)).mpr (.inr (.inr (.inr (.inl (by decide)))))

/-- **One host in two spellings**: with the requester's address respelled, the answer is a
`PunchHole` instead of a `FetchLocalAddr`. -/
theorem spelling_matters :
    ¬ ∀ (s : Server) (io : DbIo) (addr addr' a : SocketAddr) (ph : PunchHoleRequest) (ws : Bool),
      Respelled addr addr' → Respelled (peerAddrOf s ph.id) a →
      SameResult (handlePunchHoleRequest Ext.sample "" s io addr ph ws)
        (handlePunchHoleRequest Ext.sample "" (withPeerAddr s ph.id a) io addr' ph ws) := by
  intro hall
  have hsame := hall (alwaysRelay ⟨.v4 ⟨10, 0, 0, 1⟩, 4000⟩) (Io.sample (ofSecs 1) 1).toDbIo
    ⟨.v4 ⟨10, 0, 0, 1⟩, 4001⟩ ⟨.v6 (toIpv6Mapped ⟨10, 0, 0, 1⟩), 4001⟩ ⟨.v4 ⟨10, 0, 0, 1⟩, 4000⟩
    ⟨"peer-1", .symmetric, ""⟩ false (.inr ⟨_, rfl, rfl⟩) (.inl rfl)
  exact absurd hsame.msg (by decide)

end TwoSpellings

end KinBridge.Proof
