import KinBridge.Proof.Registration

/-!
# Admission to a registered peer

With a server key set, a request should reach the peer it names only if it carries that
key and the peer has registered within the last thirty seconds.

Three handlers forward requests. The two for punch-hole requests share one body, which
checks both. The one for a TCP `RequestRelay` checks neither. Even the shared body judges
presence by `last_reg_time` alone: a record loaded from its row in the first hour after
boot carries the current time, and an age beyond `i32` comes out negative.
-/

namespace KinBridge.Proof

open KinBridge Runs Slots

variable {X : Ext} {key : String} {cfg : Config}

/-! ## What is sent, and for whom -/

/-- The event asks, at this time, for the peer of this id, with this licence key. -/
inductive AsksFor : Event → Instant → String → String → Prop where
  | udpPunch {io : Io} {addr : SocketAddr} {ph : PunchHoleRequest} :
      AsksFor (.udp io addr (some (.punchHoleRequest ph))) io.now ph.id ph.licenceKey
  | tcpPunch {io : Io} {addr : SocketAddr} {ws : Bool} {ph : PunchHoleRequest} :
      AsksFor (.tcp io addr ws (some (.punchHoleRequest ph))) io.now ph.id ph.licenceKey
  | relay {io : Io} {addr : SocketAddr} {ws : Bool} {rf : RequestRelay} :
      AsksFor (.tcp io addr ws (some (.requestRelay rf))) io.now rf.id rf.licenceKey

/-- When the step accepted a registration of `id`: a heartbeat that is not asked for its
key, or a key answered `OK`. -/
def regTime (id : String) (o : Occ Server Event Out) : Option Instant :=
  match o.ev, o.out with
  | .udp io addr (some (.registerPeer rp)), .udp out =>
    if rp.id = id ∧ (.registerPeerResponse false, addr) ∈ out.sends then some io.now else none
  | .udp io addr (some (.registerPk rk)), .udp out =>
    if rk.id = id ∧ (.registerPkResponse .OK, addr) ∈ out.sends then some io.now else none
  | _, _ => none

/-- The last registration of `id` that the running process accepted. -/
def lastReg (id : String) (h : List (Occ Server Event Out)) : Option Instant :=
  h.foldl (fun last o =>
    match o.ev with
    | .restart => none
    | _ => (regTime id o).or last) none

/-- The peer's last accepted registration is less than thirty seconds old. -/
def RecentlyRegistered (h : List (Occ Server Event Out)) (now : Instant) (id : String) : Prop :=
  ∃ t, lastReg id h = some t ∧ (asMillis (elapsed now t) : Int) < REG_TIMEOUT

/-- Whatever is forwarded goes to the recorded address of the peer asked for, on a request
with the server's key, and to a peer that has registered of late. -/
def Admission (key : String) (h : List (Occ Server Event Out)) : Prop :=
  ∀ h₁ o h₂, h = h₁ ++ o :: h₂ → ∀ msg addr, (msg, addr) ∈ o.out.sent → msg.isForward = true →
    ∃ now id licence, AsksFor o.ev now id licence
      ∧ (∃ p, o.post.pm.map id = some p ∧ p.socketAddr = addr)
      ∧ licence = key ∧ RecentlyRegistered h₁ now id

/-! ## When the code's own checks are enough -/

/-- The presence test can be trusted on this record: the peer has registered since the
server came up, and the recorded age fits in an `i32`. -/
def Trusted (h : List (Occ Server Event Out)) (now : Instant) (id : String) (p : Peer) : Prop :=
  (lastReg id h).isSome ∧ asMillis (elapsed now p.lastRegTime) < 2 ^ 31

/-- A punch-hole request that passes the checks does so on a record that can be trusted, and
a `RequestRelay` would pass them too. -/
def ChecksSuffice (X : Ext) (key : String) (h : List (Occ Server Event Out)) (s : Server) :
    Event → Prop
  | .udp io _ (some (.punchHoleRequest ph)) | .tcp io _ _ (some (.punchHoleRequest ph)) =>
    ∀ p, ph.licenceKey = key → (s.pm.get X.toInfoJson io.toDbIo ph.id).2 = some p →
      isOffline io.now p = false → Trusted h io.now ph.id p
  | .tcp io _ _ (some (.requestRelay rf)) =>
    ∀ p, s.pm.map rf.id = some p →
      rf.licenceKey = key ∧ isOffline io.now p = false ∧ Trusted h io.now rf.id p
  | _ => True

/-! ## Where forwarded messages come from -/

/-- A request that `handle_punch_hole_request` forwards has the key, and its peer passes the
presence test. -/
theorem handlePunchHoleRequest_forward {s : Server} {io : DbIo} {addr : SocketAddr}
    {ph : PunchHoleRequest} {ws : Bool} (hkey : key ≠ "")
    (h : (handlePunchHoleRequest X key s io addr ph ws).2.1.isForward = true) :
    ph.licenceKey = key ∧ ∃ p, (s.pm.get X.toInfoJson io ph.id).2 = some p
      ∧ isOffline io.now p = false
      ∧ (handlePunchHoleRequest X key s io addr ph ws).2.2 = some p.socketAddr
      ∧ (handlePunchHoleRequest X key s io addr ph ws).1.pm.map ph.id = some p := by
  unfold handlePunchHoleRequest at h ⊢
  split at h
  · cases h
  · rename_i hlic
    rw [not_and_not_right] at hlic
    refine ⟨hlic hkey, ?_⟩
    rw [if_neg fun hc => hc.2 (hlic hkey)]
    split at h
    · cases h
    · rename_i pm peer hget
      have hfound : (s.pm.get X.toInfoJson io ph.id).2 = some peer := by rw [hget]
      have hpm := PeerMap.get_some hfound
      dsimp only at h ⊢
      split at h
      · cases h
      · rename_i hoff
        rw [Bool.not_eq_true] at hoff
        rw [hget] at hpm ⊢
        dsimp only at hpm ⊢
        rw [if_neg (by rw [hoff]; exact Bool.false_ne_true)]
        refine ⟨peer, rfl, hoff, rfl, ?_⟩
        dsimp only
        rw [forwardPunchHole_pm, hpm.1]
        exact put_self ..

/-- The ways to the record of a peer: a punch-hole request that passed the checks, or a
`RequestRelay` that met none. -/
inductive Forward (X : Ext) (key : String) (s : Server) : Event → String → Peer → Prop where
  | udpPunch {io : Io} {addr : SocketAddr} {ph : PunchHoleRequest} {p : Peer} :
      ph.licenceKey = key → (s.pm.get X.toInfoJson io.toDbIo ph.id).2 = some p →
      isOffline io.now p = false →
      Forward X key s (.udp io addr (some (.punchHoleRequest ph))) ph.id p
  | tcpPunch {io : Io} {addr : SocketAddr} {ws : Bool} {ph : PunchHoleRequest} {p : Peer} :
      ph.licenceKey = key → (s.pm.get X.toInfoJson io.toDbIo ph.id).2 = some p →
      isOffline io.now p = false →
      Forward X key s (.tcp io addr ws (some (.punchHoleRequest ph))) ph.id p
  | relay {io : Io} {addr : SocketAddr} {ws : Bool} {rf : RequestRelay} {p : Peer} :
      s.pm.map rf.id = some p → Forward X key s (.tcp io addr ws (some (.requestRelay rf))) rf.id p

theorem forward_udp {s : Server} {io : Io} {a addr : SocketAddr} {m : Option RendezvousMessage}
    {msg : RendezvousMessage} (hkey : key ≠ "")
    (hsent : (msg, addr) ∈ (Out.udp (handleUdp X key s io a m).2).sent)
    (hfwd : msg.isForward = true) :
    ∃ id p, Forward X key s (.udp io a m) id p
      ∧ (handleUdp X key s io a m).1.pm.map id = some p ∧ p.socketAddr = addr := by
  rw [Out.sent, List.mem_append] at hsent
  unfold handleUdp at hsent ⊢
  split at hsent
  · split at hsent
    · simp [UdpOut.quiet] at hsent
    · dsimp only at hsent
      split at hsent
      · simp only [List.mem_cons, Prod.mk.injEq, List.not_mem_nil, or_false] at hsent
        rcases hsent with ⟨rfl, _⟩ | ⟨rfl, _⟩ <;> cases hfwd
      · simp only [List.mem_cons, Prod.mk.injEq, List.not_mem_nil, or_false] at hsent
        rw [hsent.1] at hfwd; cases hfwd
  · split at hsent
    · simp [UdpOut.quiet] at hsent
    · simp only [UdpOut.send, List.mem_cons, Prod.mk.injEq, List.not_mem_nil, or_false] at hsent
      rw [hsent.1] at hfwd; cases hfwd
  · rename_i ph
    simp only [List.mem_cons, Prod.mk.injEq, List.not_mem_nil, or_false, false_or] at hsent
    rw [hsent.1] at hfwd
    obtain ⟨hlic, p, hget, hoff, hto, hmap⟩ := handlePunchHoleRequest_forward hkey hfwd
    rw [hto] at hsent
    exact ⟨ph.id, p, .udpPunch hlic hget hoff, hmap, hsent.2.symm⟩
  · simp only [UdpOut.send, handleHoleSent, List.mem_cons, Prod.mk.injEq, List.not_mem_nil,
      or_false] at hsent
    rw [hsent.1] at hfwd; cases hfwd
  · simp only [UdpOut.send, handleLocalAddr, List.mem_cons, Prod.mk.injEq, List.not_mem_nil,
      or_false] at hsent
    rw [hsent.1] at hfwd; cases hfwd
  · split at hsent <;> simp [UdpOut.quiet] at hsent
  · split at hsent
    · simp only [UdpOut.send, List.mem_cons, Prod.mk.injEq, List.not_mem_nil, or_false] at hsent
      rw [hsent.1] at hfwd; cases hfwd
    · simp [UdpOut.quiet] at hsent
  · simp [UdpOut.quiet] at hsent

theorem forward_tcp {s : Server} {io : Io} {a addr : SocketAddr} {ws : Bool}
    {m : Option RendezvousMessage} {msg : RendezvousMessage} {keep : Bool} (hkey : key ≠ "")
    (hsent : (msg, addr) ∈ (Out.tcp (handleTcp X key s io.toDbIo a ws m).2.1 keep).sent)
    (hfwd : msg.isForward = true) :
    ∃ id p, Forward X key s (.tcp io a ws m) id p
      ∧ (handleTcp X key s io.toDbIo a ws m).1.pm.map id = some p ∧ p.socketAddr = addr := by
  unfold handleTcp at hsent ⊢
  split at hsent
  · rename_i ph
    have hforward := @handlePunchHoleRequest_forward X key s io.toDbIo a ph ws hkey
    split at hsent <;> rename_i heq <;> rw [heq] at hforward
    · simp only [Out.sent, List.filterMap_cons, List.filterMap_nil, List.mem_singleton,
        Prod.mk.injEq] at hsent
      rw [hsent.1] at hfwd
      obtain ⟨hlic, p, hget, hoff, hto, hmap⟩ := hforward hfwd
      refine ⟨ph.id, p, .tcpPunch hlic hget hoff, hmap, ?_⟩
      exact (Option.some.inj hto).symm.trans hsent.2.symm
    · simp only [Out.sent, List.filterMap_cons, List.filterMap_nil, List.mem_singleton,
        Prod.mk.injEq] at hsent
      rw [hsent.1] at hfwd
      obtain ⟨_, p, _, _, hto, _⟩ := hforward hfwd
      cases hto
  · rename_i rf
    split at hsent
    · rename_i peer hpeer
      simp only [Out.sent, List.filterMap_cons, List.filterMap_nil, List.mem_singleton,
        Prod.mk.injEq] at hsent
      exact ⟨rf.id, peer, .relay hpeer, hpeer, hsent.2.symm⟩
    · simp [Out.sent] at hsent
  · simp only [handleRelayResponse, Out.sent, List.filterMap_cons, List.filterMap_nil,
      List.mem_singleton, Prod.mk.injEq] at hsent
    rw [hsent.1] at hfwd; cases hfwd
  · simp only [handleHoleSent, Out.sent, List.filterMap_cons, List.filterMap_nil,
      List.mem_singleton, Prod.mk.injEq] at hsent
    rw [hsent.1] at hfwd; cases hfwd
  · simp only [handleLocalAddr, Out.sent, List.filterMap_cons, List.filterMap_nil,
      List.mem_singleton, Prod.mk.injEq] at hsent
    rw [hsent.1] at hfwd; cases hfwd
  all_goals simp [Out.sent] at hsent

/-- Every forwarded message goes to the record of a peer, by one of these ways. -/
theorem forward_cases {s s' : Server} {e : Event} {out : Out} {msg : RendezvousMessage}
    {addr : SocketAddr} (hkey : key ≠ "") (hst : hbbs X key cfg s e = some (s', out))
    (hsent : (msg, addr) ∈ out.sent) (hfwd : msg.isForward = true) :
    ∃ id p, Forward X key s e id p ∧ s'.pm.map id = some p ∧ p.socketAddr = addr := by
  cases e with
  | restart =>
      obtain ⟨_, rfl⟩ := Prod.mk.inj (Option.some.inj hst)
      cases hsent
  | udp io a m =>
      obtain ⟨rfl, rfl⟩ := hbbs_udp.mp hst
      exact forward_udp hkey hsent hfwd
  | tcp io a ws m =>
      obtain ⟨rfl, rfl⟩ := hbbs_tcp.mp hst
      exact forward_tcp hkey hsent hfwd

/-! ## Registrations and the recorded time -/

/-- The times of a run do not run backwards. -/
def Clocked (h : List (Occ Server Event Out)) : Prop :=
  (h.filterMap fun o => o.ev.io.map fun io => io.now).Pairwise (· ≤ ·)

theorem clocked_snoc {h : List (Occ Server Event Out)} {o : Occ Server Event Out}
    (hc : Clocked (h ++ [o])) :
    Clocked h ∧ ∀ x ∈ h, ∀ io io', x.ev.io = some io → o.ev.io = some io' → io.now ≤ io'.now := by
  unfold Clocked at hc
  rw [List.filterMap_append, List.pairwise_append] at hc
  refine ⟨hc.1, fun x hx io io' hio hio' => hc.2.2 _ ?_ _ ?_⟩
  · exact List.mem_filterMap.mpr ⟨x, hx, by rw [hio]; rfl⟩
  · exact List.mem_filterMap.mpr ⟨o, List.mem_singleton_self o, by rw [hio']; rfl⟩

theorem lastReg_snoc {id : String} {h : List (Occ Server Event Out)}
    {o : Occ Server Event Out} {t : Instant} (hl : lastReg id (h ++ [o]) = some t) :
    o.ev ≠ .restart ∧ (regTime id o = some t ∨ (regTime id o = none ∧ lastReg id h = some t)) := by
  unfold lastReg at hl ⊢
  rw [List.foldl_append] at hl
  dsimp only [List.foldl_cons, List.foldl_nil] at hl
  split at hl
  · cases hl
  · rename_i hne
    refine ⟨hne, ?_⟩
    cases hreg : regTime id o with
    | some t' => rw [hreg] at hl; exact .inl hl
    | none => rw [hreg] at hl; exact .inr ⟨rfl, hl⟩

/-- A lookup leaves the records in memory alone. -/
theorem looked_memory {io : DbIo} {pm pm' : PeerMap} {id : String} {p : Peer}
    (hl : Looked X io pm pm') (hp : pm.map id = some p) : pm'.map id = some p := by
  rcases hl with rfl | ⟨id', rfl⟩
  · exact hp
  · rcases PeerMap.get_cases pm io id' with ⟨q, hq⟩ | ⟨hm, hr, v, hv⟩ | ⟨hm, hr⟩
    · rw [PeerMap.get_of_memory hq]; exact hp
    · have hne : id ≠ id' := by intro heq; subst heq; rw [hm] at hp; cases hp
      rw [PeerMap.get_of_row hm hr hv]
      exact (put_ne hne).trans hp
    · rw [PeerMap.get_of_none hm hr]; exact hp

/-- The record that `get_or` hands out is the one in memory, or as old as it can be made. -/
theorem origin_lastRegTime {pm : PeerMap} {io : DbIo} {id : String} {peer : Peer}
    (h : PeerMap.Origin X.toInfoJson pm io id peer) :
    pm.map id = some peer ∨ peer.lastRegTime ≤ io.now := by
  cases h with
  | memory hp => exact .inl hp
  | row => exact .inr (getExpiredTime_le io.now)
  | blank => exact .inr (getExpiredTime_le io.now)

/-- After a `RegisterPk` a recorded time is what it was, or not later than now. -/
theorem lastRegTime_registerPk {s : Server} {io : DbIo} {addr : SocketAddr} {rk : RegisterPk}
    {id : String} {p' : Peer} (hp' : (handleRegisterPk X s io addr rk).1.pm.map id = some p') :
    (∃ p, s.pm.map id = some p ∧ p'.lastRegTime = p.lastRegTime) ∨ p'.lastRegTime ≤ io.now := by
  have hcase := handleRegisterPk_cases X s io addr rk
  have horig := origin_lastRegTime (PeerMap.getOr_origin X.toInfoJson s.pm io rk.id)
  generalize (handleRegisterPk X s io addr rk).1.pm = pm' at hcase hp'
  generalize (handleRegisterPk X s io addr rk).2 = r at hcase
  generalize (s.pm.getOr X.toInfoJson io rk.id).2 = peer at hcase horig
  -- a record with the time of the one handed out
  have hput : ∀ q : Peer, q.lastRegTime = peer.lastRegTime →
      put s.pm.map rk.id q id = some p' →
      (∃ p, s.pm.map id = some p ∧ p'.lastRegTime = p.lastRegTime) ∨ p'.lastRegTime ≤ io.now := by
    intro q hq hget
    rcases put_eq_some.mp hget with ⟨rfl, rfl⟩ | ⟨_, hp⟩
    · rw [hq]
      exact horig.imp_left fun hm => ⟨peer, hm, rfl⟩
    · exact .inl ⟨p', hp, rfl⟩
  cases hcase with
  | silent => exact .inl ⟨p', hp', rfl⟩
  | turnedAway => exact .inl ⟨p', hp', rfl⟩
  | refused => exact hput _ rfl hp'
  | @unchanged reqPk => exact hput { peer with regPk := reqPk } rfl hp'
  | stored _ _ _ hupd =>
      obtain ⟨g, hmap⟩ := stored_record hupd
      rw [hmap] at hp'
      rcases put_eq_some.mp hp' with ⟨rfl, rfl⟩ | ⟨_, hp⟩
      · exact .inr (Nat.le_refl _)
      · exact .inl ⟨p', hp, rfl⟩

/-- The same for every step. -/
theorem lastRegTime_step {s s' : Server} {e : Event} {out : Out} {id : String} {p' : Peer}
    (hst : hbbs X key cfg s e = some (s', out)) (hp' : s'.pm.map id = some p') :
    (∃ p, s.pm.map id = some p ∧ p'.lastRegTime = p.lastRegTime) ∨
      ∃ io, e.io = some io ∧ p'.lastRegTime ≤ io.now := by
  have hpm := hbbs_pm hst
  generalize s'.pm = pm' at hpm hp'
  cases hpm with
  | restart => cases hp'
  | @registerPk io => exact (lastRegTime_registerPk hp').imp_right fun hle => ⟨io, rfl, hle⟩
  | @registerPeer io addr rp =>
      rcases updateAddr_cases s.pm io.now rp.id addr with heq | ⟨_, _, heq⟩ <;> rw [heq] at hp'
      · exact .inl ⟨p', hp', rfl⟩
      · rcases put_eq_some.mp hp' with ⟨rfl, rfl⟩ | ⟨_, hp⟩
        · exact .inr ⟨io, rfl, Nat.le_refl _⟩
        · exact .inl ⟨p', hp, rfl⟩
  | @looked _ io _ hio hl =>
      rcases hl with rfl | ⟨id', rfl⟩
      · exact .inl ⟨p', hp', rfl⟩
      · rcases PeerMap.get_cases s.pm io.toDbIo id' with ⟨q, hq⟩ | ⟨hm, hr, v, hv⟩ | ⟨hm, hr⟩
        · rw [PeerMap.get_of_memory hq] at hp'
          exact .inl ⟨p', hp', rfl⟩
        · rw [PeerMap.get_of_row hm hr hv] at hp'
          rcases put_eq_some.mp hp' with ⟨rfl, rfl⟩ | ⟨_, hp⟩
          · exact .inr ⟨io, hio, getExpiredTime_le io.now⟩
          · exact .inl ⟨p', hp, rfl⟩
        · rw [PeerMap.get_of_none hm hr] at hp'
          exact .inl ⟨p', hp', rfl⟩

/-- A step that accepts a registration leaves a record. -/
theorem regTime_some {o : Occ Server Event Out} {id : String} {t : Instant}
    (hst : hbbs X key cfg o.pre o.ev = some (o.post, o.out)) (hreg : regTime id o = some t) :
    ∃ io, o.ev.io = some io ∧ io.now = t ∧ ∃ p, o.post.pm.map id = some p := by
  unfold regTime at hreg
  split at hreg
  · rename_i io addr rp out hev hout
    split at hreg
    · rename_i hc
      refine ⟨io, by rw [hev]; rfl, Option.some.inj hreg, ?_⟩
      rw [hev] at hst
      obtain ⟨hs, ho⟩ := hbbs_udp.mp hst
      obtain rfl := Out.udp.inj (hout.symm.trans ho)
      have hid := handleUdp_registerPeer_id hc.2
      obtain ⟨hmap, hsends⟩ := @handleUdp_registerPeer X key o.pre io addr rp hid
      have hfalse := (hsends false).mp hc.2
      rw [hs, hmap, ← hc.1]
      rcases updateAddr_cases o.pre.pm io.now rp.id addr with heq | ⟨_, _, heq⟩ <;>
        rw [heq] at hfalse ⊢
      · cases hfalse
      · exact ⟨_, put_self ..⟩
    · cases hreg
  · rename_i io addr rk out hev hout
    split at hreg
    · rename_i hc
      refine ⟨io, by rw [hev]; rfl, Option.some.inj hreg, ?_⟩
      have hans : Answered o io addr rk .OK := ⟨hev, out, hout, hc.2⟩
      obtain ⟨p, hp, _⟩ := (registrationLaw_step hst hev).afterOk hans
      exact ⟨p, by rw [← hc.1]; exact hp⟩
    · cases hreg
  · cases hreg

/-- A step that accepts no registration leaves the time of a record in memory alone. -/
theorem kept_of_regTime_none {o : Occ Server Event Out} {id : String} {p : Peer}
    (hst : hbbs X key cfg o.pre o.ev = some (o.post, o.out)) (hne : o.ev ≠ .restart)
    (hreg : regTime id o = none) (hp : o.pre.pm.map id = some p) :
    ∃ p', o.post.pm.map id = some p' ∧ p'.lastRegTime = p.lastRegTime := by
  by_cases hpk : ∃ io addr rk, o.ev = .udp io addr (some (.registerPk rk))
  · obtain ⟨io, addr, rk, hev⟩ := hpk
    have hlaw := registrationLaw_step hst hev
    by_cases hid : id = rk.id
    · subst hid
      have hno : ¬ Answered o io addr rk .OK := by
        intro hans
        obtain ⟨_, out, hout, hmem⟩ := hans
        simp [regTime, hev, hout, hmem] at hreg
      obtain ⟨p', hp', hsame⟩ := hlaw.onlyOk hno p hp
      exact ⟨p', hp', hsame.lastRegTime⟩
    · exact ⟨p, (hlaw.frame id hid).trans hp, rfl⟩
  · have hpm := hbbs_pm hst
    obtain ⟨s, e, out, s'⟩ := o
    dsimp only at *
    generalize hs' : s'.pm = pm' at hpm ⊢
    cases hpm with
    | restart => exact absurd rfl hne
    | registerPk => exact absurd ⟨_, _, _, rfl⟩ hpk
    | looked _ hl => exact ⟨p, looked_memory hl hp, rfl⟩
    | @registerPeer io addr rp hid =>
        obtain ⟨_, rfl⟩ := hbbs_udp.mp hst
        obtain ⟨_, hsends⟩ := @handleUdp_registerPeer X key s io addr rp hid
        rcases updateAddr_cases s.pm io.now rp.id addr with heq | ⟨old, hold, heq⟩
        · rw [heq]; exact ⟨p, hp, rfl⟩
        · by_cases heid : id = rp.id
          · subst heid
            have hmem := (hsends false).mpr (by rw [heq])
            simp [regTime, hmem] at hreg
          · rw [heq]; exact ⟨p, (put_ne heid).trans hp, rfl⟩

/-! ## Over runs -/

/-- What a run keeps about times: no record is ahead of the clock, and a peer whose
registration was accepted is in memory with a time no later than that. -/
structure PresenceInv (h : List (Occ Server Event Out)) (s : Server) : Prop where
  past : ∀ id p, s.pm.map id = some p → ∃ o ∈ h, ∃ io, o.ev.io = some io ∧ p.lastRegTime ≤ io.now
  reg : ∀ id t, lastReg id h = some t → ∃ p, s.pm.map id = some p ∧ p.lastRegTime ≤ t

theorem presenceInv_step {h : List (Occ Server Event Out)} {o : Occ Server Event Out}
    (hi : PresenceInv h o.pre) (hst : hbbs X key cfg o.pre o.ev = some (o.post, o.out))
    (hclock : ∀ x ∈ h, ∀ io io', x.ev.io = some io → o.ev.io = some io' → io.now ≤ io'.now) :
    PresenceInv (h ++ [o]) o.post := by
  constructor
  · intro id p' hp'
    rcases lastRegTime_step hst hp' with ⟨p, hp, heq⟩ | ⟨io, hio, hle⟩
    · obtain ⟨x, hx, io, hio, hle⟩ := hi.past id p hp
      exact ⟨x, List.mem_append_left _ hx, io, hio, heq ▸ hle⟩
    · exact ⟨o, List.mem_append_right _ (List.mem_singleton_self o), io, hio, hle⟩
  · intro id t hl
    obtain ⟨hne, hreg | ⟨hreg, hold⟩⟩ := lastReg_snoc hl
    · obtain ⟨io, hio, rfl, p', hp'⟩ := regTime_some hst hreg
      refine ⟨p', hp', ?_⟩
      rcases lastRegTime_step hst hp' with ⟨p, hp, heq⟩ | ⟨io', hio', hle⟩
      · -- the registration left the time alone, which was in the past
        obtain ⟨x, hx, io', hio', hle⟩ := hi.past id p hp
        rw [heq]
        exact Nat.le_trans hle (hclock x hx io' io hio' hio)
      · obtain rfl := Option.some.inj (hio.symm.trans hio')
        exact hle
    · obtain ⟨p, hp, hle⟩ := hi.reg id t hold
      obtain ⟨p', hp', heq⟩ := kept_of_regTime_none hst hne hreg hp
      exact ⟨p', hp', heq ▸ hle⟩

theorem presenceInv_run {db : Table} {s : Server} {h : List (Occ Server Event Out)}
    (hr : Run (hbbs X key cfg) (Server.start cfg db) h s) (hc : Clocked h) : PresenceInv h s := by
  refine Run.inv (I := fun h s => Clocked h → PresenceInv h s) ?_ ?_ hr hc
  · exact fun _ => ⟨fun _ _ hp => (by cases hp), fun _ _ hl => (by cases hl)⟩
  · intro h s e s' o ih hst hc
    obtain ⟨hch, hlast⟩ := clocked_snoc hc
    exact presenceInv_step (o := ⟨s, e, o, s'⟩) (ih hch) hst hlast

/-- A trusted record that passes the presence test has registered of late. -/
theorem recent_of_trusted {h : List (Occ Server Event Out)} {s : Server} {now : Instant}
    {id : String} {p : Peer} (hi : PresenceInv h s) (hp : s.pm.map id = some p)
    (htrust : Trusted h now id p) (hoff : isOffline now p = false) :
    RecentlyRegistered h now id := by
  obtain ⟨hsome, hlt⟩ := htrust
  obtain ⟨t, ht⟩ := Option.isSome_iff_exists.mp hsome
  obtain ⟨q, hq, hle⟩ := hi.reg id t ht
  obtain rfl : p = q := Option.some.inj (hp.symm.trans hq)
  refine ⟨t, ht, ?_⟩
  have hage : asMillis (elapsed now t) ≤ asMillis (elapsed now p.lastRegTime) :=
    Nat.div_le_div_right (elapsed_le hle)
  unfold isOffline at hoff
  rw [decide_eq_false_iff_not, asI32_of_lt hlt, not_le] at hoff
  exact lt_of_le_of_lt (Int.ofNat_le.mpr hage) hoff

/-- With a trusted record the record asked for is the one in memory. -/
theorem memory_of_trusted {h : List (Occ Server Event Out)} {s : Server} {io : DbIo}
    {now : Instant} {id : String} {p : Peer} (hi : PresenceInv h s)
    (hget : (s.pm.get X.toInfoJson io id).2 = some p) (htrust : Trusted h now id p) :
    s.pm.map id = some p := by
  obtain ⟨t, ht⟩ := Option.isSome_iff_exists.mp htrust.1
  obtain ⟨q, hq, _⟩ := hi.reg id t ht
  rw [PeerMap.get_of_memory hq] at hget
  rw [hq, ← hget]

/--
**Admission control**, over every run in which the code's own checks are enough: with a
server key set, whatever is forwarded to a peer came with that key, and the peer's last
accepted registration is less than thirty seconds old.
-/
theorem admission {db : Table} {s : Server} {h : List (Occ Server Event Out)} (hkey : key ≠ "")
    (hr : Run (hbbs X key cfg) (Server.start cfg db) h s) (hclock : Clocked h)
    (hcheck : ∀ h₁ o h₂, h = h₁ ++ o :: h₂ → ChecksSuffice X key h₁ o.pre o.ev) :
    Admission key h := by
  intro h₁ o h₂ heq msg addr hsent hfwd
  subst heq
  obtain ⟨hr₁, hst, _⟩ := hr.at
  have hi := presenceInv_run hr₁ (by
    unfold Clocked at hclock
    rw [List.filterMap_append, List.pairwise_append] at hclock
    exact hclock.1)
  have hcheck := hcheck h₁ o h₂ rfl
  obtain ⟨id, p, hf, hp, haddr⟩ := forward_cases hkey hst hsent hfwd
  obtain ⟨s, e, out, s'⟩ := o
  dsimp only at *
  cases hf with
  | udpPunch hlic hget hoff =>
      have htrust := hcheck p hlic hget hoff
      exact ⟨_, _, _, .udpPunch, ⟨p, hp, haddr⟩, hlic,
        recent_of_trusted hi (memory_of_trusted hi hget htrust) htrust hoff⟩
  | tcpPunch hlic hget hoff =>
      have htrust := hcheck p hlic hget hoff
      exact ⟨_, _, _, .tcpPunch, ⟨p, hp, haddr⟩, hlic,
        recent_of_trusted hi (memory_of_trusted hi hget htrust) htrust hoff⟩
  | relay hmap =>
      obtain ⟨hlic, hoff, htrust⟩ := hcheck p hmap
      exact ⟨_, _, _, .relay, ⟨p, hp, haddr⟩, hlic, recent_of_trusted hi hmap htrust hoff⟩

/-- A peer registers, and a request with the key reaches it a moment later. -/
def admittedTrace : List Event :=
  [.udp (.sample 0 1) .unspecified (some (.registerPk ⟨"peer-1", [1], [2]⟩)),
   .udp (.sample 1 1) .unspecified (some (.punchHoleRequest ⟨"peer-1", .symmetric, "secret"⟩))]

theorem pair_split {α : Type} {a b x : α} {l₁ l₂ : List α} (h : [a, b] = l₁ ++ x :: l₂) :
    (l₁ = [] ∧ x = a) ∨ (l₁ = [a] ∧ x = b) := by
  match l₁, h with
  | [], h => exact .inl ⟨rfl, (List.cons.inj h).1.symm⟩
  | [_], h =>
      obtain ⟨ha, htail⟩ := List.cons.inj h
      exact .inr ⟨by rw [ha], (List.cons.inj htail).1.symm⟩
  | _ :: _ :: _, h => simp at h

theorem admission_registered :
    ∃ h s, Run (hbbs Ext.sample "secret" Config.sample) (.start .sample .empty) h s
      ∧ h.map Occ.ev = admittedTrace ∧ (∃ o ∈ h, ∃ m ∈ o.out.sent, m.1.isForward = true)
      ∧ Admission "secret" h := by
  have hr : Run (hbbs Ext.sample "secret" Config.sample) (.start .sample .empty)
      ([] ++ [⟨_, _, _, _⟩] ++ [⟨_, _, _, _⟩]) _ :=
    Run.snoc (Run.snoc Run.nil (e := .udp (.sample 0 1) .unspecified
      (some (.registerPk ⟨"peer-1", [1], [2]⟩))) rfl) (e := .udp (.sample 1 1) .unspecified
      (some (.punchHoleRequest ⟨"peer-1", .symmetric, "secret"⟩))) rfl
  refine ⟨_, _, hr, rfl, ?_, admission (by decide) hr ?_ ?_⟩
  · exact ⟨_, List.mem_append_right _ (List.mem_singleton_self _), _, List.mem_singleton_self _,
      rfl⟩
  · exact List.pairwise_pair.mpr (by decide)
  · intro h₁ o h₂ hsplit
    rcases pair_split hsplit with ⟨rfl, rfl⟩ | ⟨rfl, rfl⟩
    · trivial
    · intro p _ _ _
      exact ⟨by decide, Nat.lt_of_le_of_lt (Nat.div_le_div_right (Nat.sub_le 1 _)) (by decide)⟩

/-- **The door beside the gate**: a TCP `RequestRelay` without the key reaches the peer. -/
theorem admission_bypassed :
    ¬ ∀ h s, Run (hbbs Ext.sample "secret" Config.sample) (.start .sample .empty) h s →
      Clocked h → Admission "secret" h := by
  intro hall
  have hr : Run (hbbs Ext.sample "secret" Config.sample) (.start .sample .empty)
      ([] ++ [⟨_, _, _, _⟩] ++ [⟨_, _, _, _⟩]) _ :=
    Run.snoc (Run.snoc Run.nil (e := .udp (.sample 0 1) .unspecified
      (some (.registerPk ⟨"peer-1", [1], [2]⟩))) rfl) (e := .tcp (.sample 1 1) .unspecified false
      (some (.requestRelay ⟨"peer-1", "u", [], ""⟩))) rfl
  obtain ⟨_, _, _, hask, _, hlic, _⟩ := hall _ _ hr (List.pairwise_pair.mpr (by decide))
    [_] _ [] rfl (.requestRelay ⟨"peer-1", "u", Ext.sample.encode .unspecified, ""⟩) .unspecified
    (by decide) rfl
  cases hask
  exact absurd hlic (by decide)

end KinBridge.Proof
