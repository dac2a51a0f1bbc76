import KinBridge.Lib.LastWrite
import KinBridge.Proof.Staleness

/-!
# Where a request goes

The peer map is a directory: under each id an address, and since when it is good. A request
goes to that address if it is not older than thirty seconds. Here is who writes to it, told
from what the clients can see. A heartbeat that is not asked for the key renews the entry, and
so does a key answered `OK`, unless the record holds all of what it says. The first lookup of
an id makes an entry without an address. Nothing else touches it but the end of the process.

This is so as long as messages are handled one after another, each with its lookup. A lookup
that waits for its row writes its entry over whatever came into memory meanwhile, which
`KinBridge.Store.Handles` is about.
-/

namespace KinBridge.Proof

open KinBridge Runs Slots

variable {X : Ext} {key : String} {cfg : Config}

/-- An address, and since when. -/
abbrev Lease := SocketAddr × Instant

def peerLease (p : Peer) : Lease := (p.socketAddr, p.lastRegTime)

def leaseOf (pm : PeerMap) (id : String) : Option Lease := (pm.map id).map peerLease

/-- An entry that a lookup makes: without an address, and as old as can be. -/
def noLease (now : Instant) : Lease := (.unspecified, getExpiredTime now)

/-- The record of the id holds what the message says. -/
def OnRecord (X : Ext) (s : Server) (io : DbIo) (addr : SocketAddr) (rk : RegisterPk) : Prop :=
  (s.pm.getOr X.toInfoJson io rk.id).2.uuid = rk.uuid
    ∧ (s.pm.getOr X.toInfoJson io rk.id).2.pk = rk.pk
    ∧ (s.pm.getOr X.toInfoJson io rk.id).2.info.ip = addr.ip.toString

instance (s : Server) (io : DbIo) (addr : SocketAddr) (rk : RegisterPk) :
    Decidable (OnRecord X s io addr rk) := inferInstanceAs (Decidable (_ ∧ _ ∧ _))

/-- The id came into memory in this step. -/
def met (id : String) (o : Occ Server Event Out) (now : Instant) : Option (Option Lease) :=
  if (o.pre.pm.map id).isNone ∧ (o.post.pm.map id).isSome then some (some (noLease now)) else none

def registrationOf : Option RendezvousMessage → Option RegisterPk
  | some (.registerPk rk) => some rk
  | _ => none

/-- A registration of what is on record. It is accepted, but nothing is written. -/
def Repeats (X : Ext) (s : Server) (io : DbIo) (addr : SocketAddr)
    (msg : Option RendezvousMessage) : Prop :=
  ∃ rk ∈ registrationOf msg, OnRecord X s io addr rk

instance (s : Server) (io : DbIo) (addr : SocketAddr) (msg : Option RendezvousMessage) :
    Decidable (Repeats X s io addr msg) :=
  inferInstanceAs (Decidable (∃ rk ∈ registrationOf msg, OnRecord X s io addr rk))

/-- What the step makes of the entry of `id`: `none` if it leaves it alone. -/
def leaseWritten (X : Ext) (id : String) (o : Occ Server Event Out) : Option (Option Lease) :=
  match o.ev with
  | .restart => some none
  | .udp io addr msg =>
    if (regTime id o).isSome ∧ ¬ Repeats X o.pre io.toDbIo addr msg then some (some (addr, io.now))
    else met id o io.now
  | .tcp io _ _ _ => met id o io.now

theorem leaseWritten_accepted {id : String} {o : Occ Server Event Out} {io : Io}
    {addr : SocketAddr} {msg : Option RendezvousMessage} (hev : o.ev = .udp io addr msg)
    (hreg : (regTime id o).isSome) (hnew : ¬ Repeats X o.pre io.toDbIo addr msg) :
    leaseWritten X id o = some (some (addr, io.now)) := by
  obtain ⟨s, e, out, s'⟩ := o
  dsimp only at hev
  subst hev
  exact if_pos ⟨hreg, hnew⟩

theorem leaseWritten_met {id : String} {o : Occ Server Event Out} {io : Io} {addr : SocketAddr}
    {msg : Option RendezvousMessage} (hev : o.ev = .udp io addr msg)
    (hno : ¬ ((regTime id o).isSome ∧ ¬ Repeats X o.pre io.toDbIo addr msg)) :
    leaseWritten X id o = met id o io.now := by
  obtain ⟨s, e, out, s'⟩ := o
  dsimp only at hev
  subst hev
  exact if_neg hno

theorem regTime_registerPeer {id : String} {s s' : Server} {io : Io} {addr : SocketAddr}
    {rp : RegisterPeer} {out : UdpOut} :
    (regTime id ⟨s, .udp io addr (some (.registerPeer rp)), .udp out, s'⟩).isSome
      ↔ rp.id = id ∧ (.registerPeerResponse false, addr) ∈ out.sends := by
  dsimp only [regTime]
  split
  · rename_i hacc
    exact iff_of_true rfl hacc
  · rename_i hno
    exact iff_of_false (by simp) hno

theorem regTime_registerPk {id : String} {s s' : Server} {io : Io} {addr : SocketAddr}
    {rk : RegisterPk} {out : UdpOut} :
    (regTime id ⟨s, .udp io addr (some (.registerPk rk)), .udp out, s'⟩).isSome
      ↔ rk.id = id ∧ (.registerPkResponse .OK, addr) ∈ out.sends := by
  dsimp only [regTime]
  split
  · rename_i hacc
    exact iff_of_true rfl hacc
  · rename_i hno
    exact iff_of_false (by simp) hno

/-! ## What a step writes -/

theorem leaseOf_put {pm : PeerMap} {db : Table} {id id' : String} {p : Peer} :
    leaseOf ⟨put pm.map id' p, db⟩ id = if id = id' then some (peerLease p) else leaseOf pm id := by
  unfold leaseOf
  split
  · rename_i heq
    rw [heq]
    dsimp only
    rw [put_self]
    rfl
  · rename_i hne
    dsimp only
    rw [put_ne hne]

/-- A lookup makes an entry for an id that is not in memory, or changes nothing. -/
theorem leaseOf_get {pm : PeerMap} {io : DbIo} {id id' : String} :
    leaseOf (pm.get X.toInfoJson io id').1 id =
      if (pm.map id).isNone ∧ ((pm.get X.toInfoJson io id').1.map id).isSome then
        some (noLease io.now)
      else leaseOf pm id := by
  rcases PeerMap.get_cases pm io id' with ⟨p, hp⟩ | ⟨hm, hr, v, hv⟩ | ⟨hm, hr⟩
  · rw [PeerMap.get_of_memory hp, if_neg]
    intro h
    rw [Option.isNone_iff_eq_none.mp h.1] at h
    exact absurd h.2 (by simp)
  · rw [PeerMap.get_of_row hm hr hv]
    by_cases heq : id = id'
    · subst heq
      rw [if_pos ⟨by rw [hm]; rfl, by simp [put_self]⟩, leaseOf_put, if_pos rfl]
      rfl
    · rw [if_neg, leaseOf_put, if_neg heq]
      intro h
      dsimp only at h
      rw [put_ne heq, Option.isNone_iff_eq_none.mp h.1] at h
      exact absurd h.2 (by simp)
  · rw [PeerMap.get_of_none hm hr, if_neg]
    intro h
    rw [Option.isNone_iff_eq_none.mp h.1] at h
    exact absurd h.2 (by simp)

theorem met_getD {id : String} {o : Occ Server Event Out} {io : DbIo}
    (hl : Looked X io o.pre.pm o.post.pm) :
    leaseOf o.post.pm id = (met id o io.now).getD (leaseOf o.pre.pm id) := by
  unfold met
  rcases hl with hsame | ⟨id', hget⟩
  · rw [hsame, if_neg]
    · rfl
    · intro h
      rw [Option.isNone_iff_eq_none.mp h.1] at h
      exact absurd h.2 (by simp)
  · rw [hget, leaseOf_get]
    split <;> rfl

/-- A step that leaves the entry as it was made none. -/
theorem met_of_same {id : String} {o : Occ Server Event Out} {now : Instant}
    (h : leaseOf o.post.pm id = leaseOf o.pre.pm id) : met id o now = none := by
  unfold met
  refine if_neg fun hmet => ?_
  have hnone := Option.isNone_iff_eq_none.mp hmet.1
  obtain ⟨p, hp⟩ := Option.isSome_iff_exists.mp hmet.2
  rw [leaseOf, leaseOf, hnone, hp] at h
  cases h

theorem leaseWritten_registerPeer {s : Server} {io : Io} {addr : SocketAddr} {rp : RegisterPeer}
    {id : String} : leaseOf (handleUdp X key s io addr (some (.registerPeer rp))).1.pm id =
      if rp.id = id ∧ (.registerPeerResponse false, addr)
          ∈ (handleUdp X key s io addr (some (.registerPeer rp))).2.sends then
        some (addr, io.now)
      else leaseOf s.pm id := by
  by_cases hid : rp.id = ""
  · -- a heartbeat without an id
    simp only [handleUdp, if_pos hid]
    rw [if_neg fun hc => absurd hc.2 List.not_mem_nil]
  · obtain ⟨hpm, hsends⟩ := @handleUdp_registerPeer X key s io addr rp hid
    simp only [hsends, hpm]
    rcases updateAddr_cases s.pm io.now rp.id addr with heq | ⟨old, hold, heq⟩
    · rw [heq, if_neg fun hc => Bool.noConfusion hc.2]
    · rw [heq, leaseOf_put]
      by_cases heid : rp.id = id
      · rw [if_pos heid.symm, if_pos ⟨heid, rfl⟩]
        rfl
      · rw [if_neg (Ne.symm heid), if_neg fun hc => heid hc.1]

theorem onRecord_iff {s : Server} {io : DbIo} {addr : SocketAddr} {rk : RegisterPk} {b c : Bool}
    (h : rkChanged (s.pm.getOr X.toInfoJson io rk.id).2 rk addr.ip.toString = some (c, b))
    (huuid : rk.uuid ≠ []) : OnRecord X s io addr rk ↔ c = false := by
  unfold OnRecord
  cases c with
  | false =>
      obtain ⟨_, hu, hpk, hip⟩ := rkChanged_false h
      exact iff_of_true ⟨hu, hpk, hip⟩ rfl
  | true =>
      refine iff_of_false ?_ (by decide)
      rintro ⟨hu, hpk, hip⟩
      rcases rkChanged_true h with hblank | ⟨_, hdiff | hdiff⟩
      · exact huuid (hu.symm.trans hblank)
      · exact hdiff hpk
      · exact hdiff hip

/-- The record that `get_or` hands out has the entry there was, or one without an address. -/
theorem lease_origin {pm : PeerMap} {io : DbIo} {id : String} {peer : Peer}
    (h : PeerMap.Origin X.toInfoJson pm io id peer) :
    some (peerLease peer) =
      if (pm.map id).isNone then some (noLease io.now) else leaseOf pm id := by
  cases h with
  | memory hp => simp [leaseOf, hp]
  | row hm => rw [hm]; rfl
  | blank hm => rw [hm]; rfl

theorem leaseWritten_registerPk {s : Server} {io : DbIo} {addr : SocketAddr} {rk : RegisterPk}
    {id : String} : leaseOf (handleRegisterPk X s io addr rk).1.pm id =
      if rk.id = id ∧ (handleRegisterPk X s io addr rk).2 = some .OK
          ∧ ¬ OnRecord X s io addr rk then some (addr, io.now)
      else if (s.pm.map id).isNone ∧ ((handleRegisterPk X s io addr rk).1.pm.map id).isSome then
        some (noLease io.now)
      else leaseOf s.pm id := by
  have hcase := handleRegisterPk_cases X s io addr rk
  have horig := lease_origin (PeerMap.getOr_origin X.toInfoJson s.pm io rk.id)
  have honrec := fun b c => @onRecord_iff X s io addr rk b c
  generalize (handleRegisterPk X s io addr rk).1.pm = pm' at hcase ⊢
  generalize (handleRegisterPk X s io addr rk).2 = r at hcase ⊢
  generalize (s.pm.getOr X.toInfoJson io rk.id).2 = peer at hcase horig honrec
  have hsame : ∀ pm : PeerMap, pm.map id = s.pm.map id →
      leaseOf pm id = if (s.pm.map id).isNone ∧ (pm.map id).isSome then some (noLease io.now)
        else leaseOf s.pm id := by
    intro pm hpm
    rw [leaseOf, hpm, if_neg]
    · rfl
    · intro h
      rw [Option.isNone_iff_eq_none.mp h.1] at h
      exact absurd h.2 (by simp)
  -- the record that was handed out is put back, with its lease
  have hback : ∀ (p : Peer) (db : Table), peerLease p = peerLease peer →
      leaseOf ⟨put s.pm.map rk.id p, db⟩ id =
        if (s.pm.map id).isNone ∧ (put s.pm.map rk.id p id).isSome then some (noLease io.now)
        else leaseOf s.pm id := by
    intro p db hp
    by_cases heq : id = rk.id
    · subst heq
      rw [leaseOf_put, if_pos rfl, hp, horig, put_self]
      simp
    · exact hsame ⟨put s.pm.map rk.id p, db⟩ (put_ne heq)
  cases hcase with
  | silent =>
      rw [if_neg fun h => absurd h.2.1 (by simp)]
      exact hsame _ rfl
  | turnedAway _ hno =>
      rw [if_neg fun h => hno (Option.some.inj h.2.1)]
      exact hsame _ rfl
  | refused _ hno =>
      rw [if_neg fun h => hno (Option.some.inj h.2.1)]
      exact hback _ _ rfl
  | unchanged hreach hch =>
      rw [if_neg fun h => h.2.2 ((honrec _ _ hch hreach.1).mpr rfl)]
      exact hback _ _ rfl
  | stored hreach hch _ hupd =>
      have hnot : ¬ OnRecord X s io addr rk := by
        rw [honrec _ _ hch hreach.1]
        decide
      obtain ⟨g, hmap⟩ := stored_record hupd
      obtain ⟨map', db'⟩ := pm'
      dsimp only at hmap
      subst hmap
      by_cases heq : rk.id = id
      · rw [if_pos ⟨heq, rfl, hnot⟩, leaseOf_put, if_pos heq.symm]
        rfl
      · rw [if_neg fun h => heq h.1]
        exact hsame _ (put_ne (Ne.symm heq))

/-- Beyond registrations and heartbeats there are lookups. -/
theorem looked_of_other {s : Server} {e : Event} {io : Io} {pm' : PeerMap}
    (h : PmStep X s e pm') (hio : e.io = some io)
    (hpk : ∀ addr rk, e ≠ .udp io addr (some (.registerPk rk)))
    (hpeer : ∀ addr rp, e ≠ .udp io addr (some (.registerPeer rp))) :
    Looked X io.toDbIo s.pm pm' := by
  cases h with
  | registerPk => obtain rfl := Option.some.inj hio; exact absurd rfl (hpk _ _)
  | registerPeer => obtain rfl := Option.some.inj hio; exact absurd rfl (hpeer _ _)
  | looked hio' hl => obtain rfl := Option.some.inj (hio.symm.trans hio'); exact hl
  | restart => cases hio

/-- **A step writes to the directory what can be told from it.** -/
theorem leaseWritten_step {o : Occ Server Event Out} (id : String)
    (hst : hbbs X key cfg o.pre o.ev = some (o.post, o.out)) :
    leaseOf o.post.pm id = (leaseWritten X id o).getD (leaseOf o.pre.pm id) := by
  obtain ⟨s, e, out, s'⟩ := o
  dsimp only at hst
  have hpm := hbbs_pm hst
  cases e with
  | restart =>
      obtain ⟨rfl, rfl⟩ := Prod.mk.inj (Option.some.inj hst)
      rfl
  | tcp io addr ws msg =>
      obtain ⟨_, rfl⟩ := hbbs_tcp.mp hst
      exact met_getD (looked_of_other hpm rfl (by simp) (by simp))
  | udp io addr msg =>
      obtain ⟨rfl, rfl⟩ := hbbs_udp.mp hst
      rcases msg with _ | m
      · exact met_getD (looked_of_other hpm rfl (by simp) (by simp))
      · cases m with
        | registerPeer rp =>
            have hlease := @leaseWritten_registerPeer X key s io addr rp id
            split at hlease
            · rename_i hacc
              have hnew : ¬ Repeats X s io.toDbIo addr (some (.registerPeer rp)) := by
                rintro ⟨_, hrk, _⟩
                cases hrk
              rw [leaseWritten_accepted rfl (regTime_registerPeer.mpr hacc) hnew]
              exact hlease
            · rename_i hno
              rw [leaseWritten_met rfl fun h => hno (regTime_registerPeer.mp h.1),
                met_of_same hlease]
              exact hlease
        | registerPk rk =>
            obtain ⟨hs, hsends⟩ := @handleUdp_registerPk X key s io addr rk
            have hok : (.registerPkResponse .OK, addr)
                ∈ (handleUdp X key s io addr (some (.registerPk rk))).2.sends
                ↔ (handleRegisterPk X s io.toDbIo addr rk).2 = some .OK := by
              rw [hsends]
              cases (handleRegisterPk X s io.toDbIo addr rk).2 with
              | none => simp
              | some r => simp [eq_comm]
            have hlease := @leaseWritten_registerPk X s io.toDbIo addr rk id
            rw [← hs] at hlease
            split at hlease
            · rename_i hacc
              have hnew : ¬ Repeats X s io.toDbIo addr (some (.registerPk rk)) := by
                rintro ⟨_, hrk, hon⟩
                obtain rfl := Option.some.inj hrk
                exact hacc.2.2 hon
              rw [leaseWritten_accepted rfl
                (regTime_registerPk.mpr ⟨hacc.1, hok.mpr hacc.2.1⟩) hnew]
              exact hlease
            · rename_i hno
              have hmet : ¬ ((regTime id ⟨s, .udp io addr (some (.registerPk rk)),
                  .udp (handleUdp X key s io addr (some (.registerPk rk))).2,
                  (handleUdp X key s io addr (some (.registerPk rk))).1⟩).isSome
                    ∧ ¬ Repeats X s io.toDbIo addr (some (.registerPk rk))) := by
                rintro ⟨hreg, hnew⟩
                obtain ⟨hid, hsent⟩ := regTime_registerPk.mp hreg
                exact hno ⟨hid, hok.mp hsent, fun hon => hnew ⟨rk, rfl, hon⟩⟩
              rw [leaseWritten_met rfl hmet, hlease]
              unfold met
              split <;> rfl
        | _ => exact met_getD (looked_of_other hpm rfl (by simp) (by simp))

/--
**The directory after any run is what was written to it last**, by a heartbeat, a registration or
a lookup, since the process came up, if each message was handled before the next.
-/
theorem directory {db : Table} {h : List (Occ Server Event Out)} {s : Server} (id : String)
    (hr : Run (hbbs X key cfg) (Server.start cfg db) h s) :
    leaseOf s.pm id = (lastWrite (leaseWritten X id) h).join := by
  have hlast : leaseOf s.pm id = (lastWrite (leaseWritten X id) h).getD none :=
    @Run.lastWrite _ _ _ _ (leaseWritten X id) _ _ _ _ (fun s => leaseOf s.pm id)
      (fun o hst => leaseWritten_step id hst) hr
  rw [hlast]
  cases lastWrite (leaseWritten X id) h <;> rfl

/-! ## Where requests go -/

theorem punch_forwarded {s : Server} {io : DbIo} {addr : SocketAddr} {ph : PunchHoleRequest}
    {ws : Bool} (h : (handlePunchHoleRequest X key s io addr ph ws).2.1.isForward = true) :
    ∃ p, (handlePunchHoleRequest X key s io addr ph ws).2.2 = some p.socketAddr
      ∧ isOffline io.now p = false
      ∧ (handlePunchHoleRequest X key s io addr ph ws).1.pm.map ph.id = some p := by
  have hout := handlePunchHoleRequest_cases X key s io addr ph ws
  generalize handlePunchHoleRequest X key s io addr ph ws = r at h hout ⊢
  cases hout with
  | unlicensed => cases h
  | unknown => cases h
  | offline => cases h
  | @forwarded p _ hget hoff =>
      refine ⟨p, rfl, hoff, ?_⟩
      dsimp only
      rw [forwardPunchHole_pm, (PeerMap.get_some hget).1]
      exact put_self ..

/-- The event asks for the peer of this id: by a `RequestRelay`, which nothing holds back, or by
a punch-hole request, for which the entry must pass as fresh. -/
inductive GoesTo (s' : Server) (dest : SocketAddr) : Event → String → Prop where
  | udp {io : Io} {addr : SocketAddr} {ph : PunchHoleRequest} {p : Peer} :
      s'.pm.map ph.id = some p → p.socketAddr = dest → isOffline io.now p = false →
      GoesTo s' dest (.udp io addr (some (.punchHoleRequest ph))) ph.id
  | tcp {io : Io} {addr : SocketAddr} {ws : Bool} {ph : PunchHoleRequest} {p : Peer} :
      s'.pm.map ph.id = some p → p.socketAddr = dest → isOffline io.now p = false →
      GoesTo s' dest (.tcp io addr ws (some (.punchHoleRequest ph))) ph.id
  | relay {io : Io} {addr : SocketAddr} {ws : Bool} {rf : RequestRelay} {p : Peer} :
      s'.pm.map rf.id = some p → p.socketAddr = dest →
      GoesTo s' dest (.tcp io addr ws (some (.requestRelay rf))) rf.id

theorem goesTo_udp {s : Server} {io : Io} {a dest : SocketAddr} {m : Option RendezvousMessage}
    {msg : RendezvousMessage} (hsent : (msg, dest) ∈ (Out.udp (handleUdp X key s io a m).2).sent)
    (hfwd : msg.isForward = true) :
    ∃ id, GoesTo (handleUdp X key s io a m).1 dest (.udp io a m) id := by
  have hsent' := List.mem_append.mp hsent
  unfold handleUdp at hsent' ⊢
  split at hsent'
  · split at hsent'
    · simp [UdpOut.quiet] at hsent'
    · dsimp only at hsent'
      split at hsent' <;> simp only [List.mem_cons, Prod.mk.injEq, List.not_mem_nil, or_false]
        at hsent'
      · rcases hsent' with ⟨rfl, _⟩ | ⟨rfl, _⟩ <;> cases hfwd
      · rw [hsent'.1] at hfwd; cases hfwd
  · split at hsent'
    · simp [UdpOut.quiet] at hsent'
    · simp only [UdpOut.send, List.mem_cons, Prod.mk.injEq, List.not_mem_nil, or_false] at hsent'
      rw [hsent'.1] at hfwd; cases hfwd
  · rename_i ph
    simp only [List.mem_cons, Prod.mk.injEq, List.not_mem_nil, or_false, false_or] at hsent'
    obtain ⟨rfl, hdest'⟩ := hsent'
    obtain ⟨p, hdest, hoff, hp⟩ := punch_forwarded hfwd
    rw [hdest] at hdest'
    exact ⟨ph.id, .udp hp hdest'.symm hoff⟩
  · simp only [UdpOut.send, handleHoleSent, List.mem_cons, Prod.mk.injEq, List.not_mem_nil,
      or_false] at hsent'
    rw [hsent'.1] at hfwd; cases hfwd
  · simp only [UdpOut.send, handleLocalAddr, List.mem_cons, Prod.mk.injEq, List.not_mem_nil,
      or_false] at hsent'
    rw [hsent'.1] at hfwd; cases hfwd
  · split at hsent' <;> simp [UdpOut.quiet] at hsent'
  · split at hsent'
    · simp only [UdpOut.send, List.mem_cons, Prod.mk.injEq, List.not_mem_nil, or_false] at hsent'
      rw [hsent'.1] at hfwd; cases hfwd
    · simp [UdpOut.quiet] at hsent'
  · simp [UdpOut.quiet] at hsent'

theorem goesTo_tcp {s : Server} {io : Io} {a dest : SocketAddr} {ws keep : Bool}
    {m : Option RendezvousMessage} {msg : RendezvousMessage}
    (hsent : (msg, dest) ∈ (Out.tcp (handleTcp X key s io.toDbIo a ws m).2.1 keep).sent)
    (hfwd : msg.isForward = true) :
    ∃ id, GoesTo (handleTcp X key s io.toDbIo a ws m).1 dest (.tcp io a ws m) id := by
  unfold handleTcp at hsent ⊢
  split at hsent
  · rename_i ph
    have hforward := @punch_forwarded X key s io.toDbIo a ph ws
    split at hsent <;> rename_i heq <;> rw [heq] at hforward
    · obtain ⟨rfl, rfl⟩ := Prod.mk.inj (List.mem_singleton.mp hsent)
      obtain ⟨p, hdest, hoff, hp⟩ := hforward hfwd
      exact ⟨ph.id, .tcp hp (Option.some.inj hdest).symm hoff⟩
    · obtain ⟨rfl, rfl⟩ := Prod.mk.inj (List.mem_singleton.mp hsent)
      obtain ⟨p, hdest, _⟩ := hforward hfwd
      cases hdest
  · rename_i rf
    split at hsent
    · rename_i peer hpeer
      obtain ⟨rfl, rfl⟩ := Prod.mk.inj (List.mem_singleton.mp hsent)
      exact ⟨rf.id, .relay hpeer rfl⟩
    · cases hsent
  · obtain ⟨rfl, rfl⟩ := Prod.mk.inj (List.mem_singleton.mp hsent)
    cases hfwd
  · obtain ⟨rfl, rfl⟩ := Prod.mk.inj (List.mem_singleton.mp hsent)
    cases hfwd
  · obtain ⟨rfl, rfl⟩ := Prod.mk.inj (List.mem_singleton.mp hsent)
    cases hfwd
  all_goals cases hsent

theorem goesTo_step {s s' : Server} {e : Event} {out : Out} {msg : RendezvousMessage}
    {dest : SocketAddr} (hst : hbbs X key cfg s e = some (s', out)) (hsent : (msg, dest) ∈ out.sent)
    (hfwd : msg.isForward = true) : ∃ id, GoesTo s' dest e id := by
  cases e with
  | restart =>
      obtain ⟨_, rfl⟩ := Prod.mk.inj (Option.some.inj hst)
      cases hsent
  | udp io a m =>
      obtain ⟨rfl, rfl⟩ := hbbs_udp.mp hst
      exact goesTo_udp hsent hfwd
  | tcp io a ws m =>
      obtain ⟨rfl, rfl⟩ := hbbs_tcp.mp hst
      exact goesTo_tcp hsent hfwd

/-- The handler looks at the age of the entry. -/
def LooksAtAge : Event → Prop
  | .tcp _ _ _ (some (.requestRelay _)) => False
  | _ => True

/--
**A request goes where the last lease says**: whatever is forwarded to a peer goes to the address
that was last written under the id asked for, and is not forwarded on a punch-hole request if that
was thirty seconds ago or more, as an `i32` has it. Messages are handled one after another.
-/
theorem forwarded_as_leased {db : Table} {h h₁ h₂ : List (Occ Server Event Out)} {s : Server}
    {o : Occ Server Event Out} (hr : Run (hbbs X key cfg) (Server.start cfg db) h s)
    (hh : h = h₁ ++ o :: h₂) :
    ∀ msg dest, (msg, dest) ∈ o.out.sent → msg.isForward = true →
      ∃ now id licence t, AsksFor o.ev now id licence
        ∧ lastWrite (leaseWritten X id) (h₁ ++ [o]) = some (some (dest, t))
        ∧ (LooksAtAge o.ev → ¬ LooksStale (asMillis (elapsed now t))) := by
  intro msg dest hsent hfwd
  subst hh
  obtain ⟨hpre, hst, _⟩ := hr.at
  have hupto := hpre.snoc hst
  obtain ⟨id, hgoes⟩ := goesTo_step hst hsent hfwd
  -- the entry that the handler found is the one that was written last
  have hwritten : ∀ p, o.post.pm.map id = some p →
      lastWrite (leaseWritten X id) (h₁ ++ [o]) = some (some (peerLease p)) := by
    intro p hp
    have hdir := directory id hupto
    rw [leaseOf, hp] at hdir
    exact Option.join_eq_some_iff.mp hdir.symm
  have hfresh : ∀ (p : Peer) (now : Instant), isOffline now p = false →
      ¬ LooksStale (asMillis (elapsed now p.lastRegTime)) := by
    intro p now hoff hstale
    rw [isOffline_iff.mpr hstale] at hoff
    cases hoff
  generalize o.ev = e at hgoes ⊢
  cases hgoes with
  | @udp _ _ _ p hp hdest hoff =>
      exact ⟨_, _, _, p.lastRegTime, .udpPunch, hdest ▸ hwritten p hp, fun _ => hfresh p _ hoff⟩
  | @tcp _ _ _ _ p hp hdest hoff =>
      exact ⟨_, _, _, p.lastRegTime, .tcpPunch, hdest ▸ hwritten p hp, fun _ => hfresh p _ hoff⟩
  | @relay _ _ _ _ p hp hdest =>
      exact ⟨_, _, _, p.lastRegTime, .relay, hdest ▸ hwritten p hp, fun hage => hage.elim⟩

/-! ## A peer that moves -/

def firstPlace : SocketAddr := ⟨.v4 ⟨8, 8, 8, 8⟩, 6000⟩

def secondPlace : SocketAddr := ⟨.v4 ⟨8, 8, 8, 8⟩, 7000⟩

/-- A peer registers, registers again with what is on record, and sends a heartbeat from another
port. Then somebody asks for it. -/
def movingEvents : List Event :=
  [.udp (.sample 0 1) firstPlace (some (.registerPk ⟨"123456", [1], [2]⟩)),
    .udp (.sample (ofSecs 1) 1) secondPlace (some (.registerPk ⟨"123456", [1], [2]⟩)),
    .udp (.sample (ofSecs 2) 1) secondPlace (some (.registerPeer ⟨"123456", 0⟩)),
    .udp (.sample (ofSecs 3) 1) .unspecified (some (.punchHoleRequest ⟨"123456", .symmetric, ""⟩))]

/-- Only the first and the third of these wrote anything. -/
theorem directory_moving : ∃ h s, Run (hbbs Ext.sample "" .sample) (.start .sample .empty) h s
    ∧ h.map (leaseWritten Ext.sample "123456")
        = [some (some (firstPlace, 0)), none, some (some (secondPlace, ofSecs 2)), none]
    ∧ leaseOf s.pm "123456" = (lastWrite (leaseWritten Ext.sample "123456") h).join := by
  obtain ⟨h, s, hr, _, hp⟩ := @exists_run _ _ _ (hbbs Ext.sample "" .sample)
    (.start .sample .empty) movingEvents
    (fun h _ => decide (h.map (leaseWritten Ext.sample "123456")
      = [some (some (firstPlace, 0)), none, some (some (secondPlace, ofSecs 2)), none]))
    (by decide +kernel)
  exact ⟨h, s, hr, of_decide_eq_true hp, directory "123456" hr⟩

/-- The id that a punch-hole request over UDP is about. -/
def punchId : Event → Option String
  | .udp _ _ (some (.punchHoleRequest ph)) => some ph.id
  | _ => none

theorem forwarded_as_leased_moving : ∃ h₁ o s t,
    Run (hbbs Ext.sample "" .sample) (.start .sample .empty) (h₁ ++ [o]) s
      ∧ lastWrite (leaseWritten Ext.sample "123456") (h₁ ++ [o])
        = some (some (secondPlace, t)) := by
  obtain ⟨h, s, hr, _, hp⟩ := @exists_run _ _ _ (hbbs Ext.sample "" .sample)
    (.start .sample .empty) movingEvents
    (fun h _ => h.getLast?.any fun o => o.out.sent.any fun m =>
      m.1.isForward && decide (m.2 = secondPlace)
        && decide (punchId o.ev = some "123456")) (by decide +kernel)
  obtain ⟨o, ho, hsent⟩ := (Option.any_eq_true _ _).mp hp
  obtain ⟨h₁, rfl⟩ := List.getLast?_eq_some_iff.mp ho
  obtain ⟨⟨msg, dest⟩, hmem, hmsg⟩ := List.any_eq_true.mp hsent
  simp only [Bool.and_eq_true, decide_eq_true_eq] at hmsg
  obtain ⟨⟨hfwd, rfl⟩, hev⟩ := hmsg
  obtain ⟨now, id, licence, t, hasks, hlast, _⟩ := forwarded_as_leased hr rfl _ _ hmem hfwd
  refine ⟨h₁, o, s, t, hr, ?_⟩
  generalize o.ev = e at hev hasks
  cases hasks with
  | udpPunch =>
      rw [← Option.some.inj hev]
      exact hlast
  | tcpPunch => cases hev
  | relay => cases hev

end KinBridge.Proof
