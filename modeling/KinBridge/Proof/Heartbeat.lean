import KinBridge.Proof.Registration

/-!
# What a heartbeat may move

A heartbeat carries an id and nothing else, so whoever knows the id can send one. It must
not be able to send the peer's traffic elsewhere.

`update_addr` compares the sender with the recorded address, or with `info.ip` when there
is no recorded port, and lets loopback pass. What makes this safe is an invariant between
the two fields: an address with a port is always at the host named by `info.ip`, unless it
is on loopback. A `RegisterPk` writes both together, a load or a blank record has no port,
and an accepted heartbeat stays at the host or moves to loopback.
-/

namespace KinBridge.Proof

open KinBridge Runs Slots

variable {X : Ext} {key : String} {cfg : Config}

/-- The recorded address is nowhere yet, at the host that `info.ip` names, or on loopback. -/
def Anchored (p : Peer) : Prop :=
  p.socketAddr.port = 0 ∨ p.socketAddr.ip.toString = p.info.ip ∨ p.socketAddr.ip.isLoopback = true

/-- Every record in memory is anchored. -/
def AllAnchored (pm : PeerMap) : Prop := ∀ id p, pm.map id = some p → Anchored p

theorem anchored_default (now : Instant) : Anchored (Peer.default now) := .inl rfl

theorem anchored_ofRow (J : InfoJson) (now : Instant) (v : Row) : Anchored (Peer.ofRow J now v) :=
  .inl rfl

theorem AllAnchored.put {pm : PeerMap} {db : Table} {id : String} {p : Peer}
    (h : AllAnchored pm) (hp : Anchored p) : AllAnchored ⟨put pm.map id p, db⟩ := by
  intro id' p' hp'
  rcases put_eq_some.mp hp' with ⟨_, rfl⟩ | ⟨_, hp'⟩
  · exact hp
  · exact h id' p' hp'

/-! ## Against an anchored record -/

/-- A host that is neither loopback nor the one on record counts as a change of address. -/
theorem ipChange_of_anchored {old : Peer} {addr : SocketAddr} (h : Anchored old)
    (hloop : addr.ip.isLoopback = false) (hip : addr.ip.toString ≠ old.info.ip) :
    ipChange old addr = true := by
  have hmoved : old.socketAddr.port ≠ 0 → addr.ip ≠ old.socketAddr.ip := by
    intro hport heq
    rcases h with h | h | h
    · exact hport h
    · exact hip (by rw [heq, h])
    · rw [heq, h] at hloop; cases hloop
  unfold ipChange
  split
  · rename_i hport
    simp [hmoved hport, hloop]
  · simp [hip, hloop]

/-- A heartbeat that counts as coming from the same place leaves the record anchored. -/
theorem anchored_of_not_ipChange {old : Peer} {addr : SocketAddr} {now : Instant}
    (h : Anchored old) (hsame : ipChange old addr = false) :
    Anchored { old with socketAddr := addr, lastRegTime := now } := by
  by_cases hloop : addr.ip.isLoopback = true
  · exact .inr (.inr hloop)
  · rw [Bool.not_eq_true] at hloop
    by_cases hip : addr.ip.toString = old.info.ip
    · exact .inr (.inl hip)
    · have hchange := ipChange_of_anchored h hloop hip
      rw [hsame] at hchange
      cases hchange

/-! ## Every step keeps records anchored -/

theorem anchored_updateAddr {pm : PeerMap} {now : Instant} {id : String} {addr : SocketAddr}
    (h : AllAnchored pm) : AllAnchored (updateAddr pm now id addr).1 := by
  unfold updateAddr
  split
  · exact h
  · rename_i old hold
    dsimp only
    split
    · exact h
    · rename_i hno
      rw [Bool.not_eq_true, Bool.or_eq_false_iff] at hno
      exact h.put (anchored_of_not_ipChange (h id old hold) hno.2)

theorem anchored_looked {io : DbIo} {pm pm' : PeerMap} (h : AllAnchored pm)
    (hl : Looked X io pm pm') : AllAnchored pm' := by
  rcases hl with rfl | ⟨id, rfl⟩
  · exact h
  · rcases PeerMap.get_cases pm io id with ⟨p, hp⟩ | ⟨hm, hr, v, hv⟩ | ⟨hm, hr⟩
    · rw [PeerMap.get_of_memory hp]; exact h
    · rw [PeerMap.get_of_row hm hr hv]
      exact h.put (anchored_ofRow _ io.now v)
    · rw [PeerMap.get_of_none hm hr]; exact h

/-- The record that `get_or` hands out is anchored, wherever it comes from. -/
theorem anchored_origin {pm : PeerMap} {io : DbIo} {id : String} {peer : Peer}
    (h : AllAnchored pm) (horig : PeerMap.Origin X.toInfoJson pm io id peer) : Anchored peer := by
  cases horig with
  | memory hp => exact h id peer hp
  | row => exact anchored_ofRow ..
  | blank => exact anchored_default io.now

theorem anchored_registerPk {s : Server} {io : DbIo} {addr : SocketAddr} {rk : RegisterPk}
    (h : AllAnchored s.pm) : AllAnchored (handleRegisterPk X s io addr rk).1.pm := by
  have hcase := handleRegisterPk_cases X s io addr rk
  have hpeer := anchored_origin h (PeerMap.getOr_origin X.toInfoJson s.pm io rk.id)
  generalize (handleRegisterPk X s io addr rk).1.pm = pm' at hcase ⊢
  generalize (handleRegisterPk X s io addr rk).2 = r at hcase
  generalize (s.pm.getOr X.toInfoJson io rk.id).2 = peer at hcase hpeer
  cases hcase with
  | silent => exact h
  | turnedAway => exact h
  | refused => exact h.put hpeer
  | unchanged => exact h.put hpeer
  | stored _ _ _ hupd =>
      -- whatever becomes of the write, memory holds address and text of one sender
      obtain ⟨g, hmap⟩ := stored_record hupd
      obtain ⟨map', db'⟩ := pm'
      dsimp only at hmap
      rw [hmap]
      exact h.put (.inr (.inl rfl))

theorem anchored_step {s s' : Server} {e : Event} {out : Out} (h : AllAnchored s.pm)
    (hst : hbbs X key cfg s e = some (s', out)) : AllAnchored s'.pm := by
  have hpm := hbbs_pm hst
  generalize s'.pm = pm' at hpm ⊢
  cases hpm with
  | registerPk => exact anchored_registerPk h
  | registerPeer => exact anchored_updateAddr h
  | looked _ hl => exact anchored_looked h hl
  | restart => exact fun _ _ hp => by cases hp

theorem anchored_run {db : Table} {s : Server} {h : List (Occ Server Event Out)}
    (hr : Run (hbbs X key cfg) (Server.start cfg db) h s) : AllAnchored s.pm :=
  hr.keeps (Q := fun s => AllAnchored s.pm) (fun _ _ _ _ hq hst => anchored_step hq hst)
    fun _ _ hp => by cases hp

/-! ## Strays -/

/-- There is no key on record for the id, or the sender is neither the host on record nor on
loopback. -/
def Stray (s : Server) (addr : SocketAddr) (rp : RegisterPeer) : Prop :=
  ∀ p, s.pm.map rp.id = some p →
    p.pk = [] ∨ (addr.ip.isLoopback = false ∧ addr.ip.toString ≠ p.info.ip)

theorem stray_updateAddr {s : Server} {now : Instant} {addr : SocketAddr} {rp : RegisterPeer}
    (h : AllAnchored s.pm) (hstray : Stray s addr rp) :
    (updateAddr s.pm now rp.id addr).1 = s.pm := by
  unfold updateAddr
  split
  · rfl
  · rename_i old hold
    have hask : (old.pk.isEmpty || ipChange old addr) = true := by
      rcases hstray old hold with hpk | ⟨hloop, hip⟩
      · simp [hpk]
      · simp [ipChange_of_anchored (h rp.id old hold) hloop hip]
    dsimp only
    rw [if_pos hask]

/--
**A heartbeat cannot redirect a peer**, in any state of any run: every record is anchored, and
a stray heartbeat leaves every record as it is.
-/
theorem heartbeat_cannot_redirect {db : Table} {s : Server} {h : List (Occ Server Event Out)}
    (hr : Run (hbbs X key cfg) (Server.start cfg db) h s) :
    (∀ id p, s.pm.map id = some p → Anchored p)
      ∧ ∀ io addr rp, Stray s addr rp →
        (handleUdp X key s io addr (some (.registerPeer rp))).1.pm = s.pm := by
  have hall := anchored_run hr
  refine ⟨hall, ?_⟩
  intro io addr rp hstray
  by_cases hid : rp.id = ""
  · simp [handleUdp, hid]
  · obtain ⟨hmap, _⟩ := @handleUdp_registerPeer X key s io addr rp hid
    rw [hmap]
    exact stray_updateAddr hall hstray

/-- A peer registers from one host, and another host sends a heartbeat for its id. -/
theorem heartbeat_cannot_redirect_registered :
    ∃ h s, Run (hbbs Ext.sample "" Config.sample) (.start .sample .empty) h s
      ∧ h.map Occ.ev = [.udp (.sample 0 1) driftedHost (some (.registerPk ⟨"peer-1", [1], [2]⟩))]
      ∧ (∃ p, s.pm.map "peer-1" = some p ∧ p.socketAddr = driftedHost)
      ∧ (handleUdp Ext.sample "" s (.sample 1 1) ⟨.v4 ⟨5, 6, 7, 8⟩, 9⟩
          (some (.registerPeer ⟨"peer-1", 0⟩))).1.pm = s.pm := by
  have hr : Run (hbbs Ext.sample "" Config.sample) (.start .sample .empty) [⟨_, _, _, _⟩] _ :=
    Run.snoc Run.nil (e := .udp (.sample 0 1) driftedHost
      (some (.registerPk ⟨"peer-1", [1], [2]⟩))) rfl
  refine ⟨_, _, hr, rfl, ⟨_, rfl, rfl⟩, (heartbeat_cannot_redirect hr).2 _ _ _ ?_⟩
  intro p hp
  obtain rfl := Option.some.inj hp
  exact .inr ⟨by decide, by decide⟩

end KinBridge.Proof
