import KinBridge.Hbbs.Dispatch

/-!
# What a registration may change

Two laws about the in-memory record.

The first is about `RegisterPk` alone and holds from any state at all, whatever the
database does: a record moves only in a step that is answered `OK`, it then says what
the message said, its uuid is fixed from the first key on, and a message that would
move both key and address is refused.

The second puts `RegisterPk` and the heartbeat together: after an accepted key the next
heartbeat from the same address should be content.
-/

namespace KinBridge.Proof

open KinBridge Runs Slots

variable {X : Ext} {key : String} {cfg : Config}

/-- Equal in everything a registration is about, the limiter's state aside. -/
structure SameRegistration (p p' : Peer) : Prop where
  uuid : p'.uuid = p.uuid
  pk : p'.pk = p.pk
  info : p'.info = p.info
  socketAddr : p'.socketAddr = p.socketAddr
  lastRegTime : p'.lastRegTime = p.lastRegTime

theorem SameRegistration.refl (p : Peer) : SameRegistration p p := ⟨rfl, rfl, rfl, rfl, rfl⟩

/--
The law of one `RegisterPk` step on the peer map. `peer` is the record the step works
on, the one that `get_or` hands out, and `ok` says that the step was answered `OK`.
-/
structure RegistrationLaw (X : Ext) (pre : PeerMap) (io : DbIo) (addr : SocketAddr)
    (rk : RegisterPk) (peer : Peer) (ok : Prop) (post : PeerMap) : Prop where
  /-- A record in memory is the one worked on. -/
  inMemory : ∀ p, pre.map rk.id = some p → peer = p
  /-- A record in memory changes only in a step answered `OK`. -/
  onlyOk : ¬ ok → ∀ p, pre.map rk.id = some p →
    ∃ p', post.map rk.id = some p' ∧ SameRegistration p p'
  /-- Otherwise a step at most loads the record from its row. -/
  loaded : ¬ ok → pre.map rk.id = none → ∀ p', post.map rk.id = some p' →
    ∃ v, pre.db.row rk.id = some v ∧ p' = Peer.ofRow X.toInfoJson io.now v
  /-- After `OK` the record says what the message said. -/
  afterOk : ok → ∃ p', post.map rk.id = some p' ∧ p'.uuid = rk.uuid ∧ p'.pk = rk.pk
    ∧ p'.info.ip = addr.ip.toString
  /-- A uuid, once there, stays. -/
  uuidFixed : ∀ p, pre.map rk.id = some p → p.uuid ≠ [] →
    ∃ p', post.map rk.id = some p' ∧ p'.uuid = p.uuid
  /-- An accepted message carries the uuid on record, if there is one, and moves at most one
  of key and address text. -/
  oneKept : ok → peer.uuid ≠ [] →
    ∃ p', post.map rk.id = some p' ∧ p'.uuid = peer.uuid ∧ (p'.pk = peer.pk ∨ p'.info = peer.info)
  /-- Nobody else's record is touched. -/
  frame : ∀ id ≠ rk.id, post.map id = pre.map id

/-- The record that an accepted message leaves. -/
theorem stored_record {pm pm' : PeerMap} {io : DbIo} {id : String} {w : Peer} {r : RkResult}
    (h : PeerMap.UpdatePk X.toInfoJson pm io id w (pm', r)) :
    ∃ g, pm'.map = put pm.map id { w with guid := g } := by
  cases h with
  | failed => exact ⟨w.guid, rfl⟩
  | inserted => exact ⟨io.guid.val, rfl⟩
  | updated => exact ⟨w.guid, rfl⟩

/-- A blank record is never refused, so a refused message worked on a known one. -/
theorem refused_not_blank {rk : RegisterPk} {ip : String} {now : Instant}
    (h : rkChanged (Peer.default now) rk ip = none ∨ rkLimit (Peer.default now).regPk now = none) :
    False := by
  rcases h with h | h
  · simp [rkChanged, Peer.default] at h
  · have hsome := rkLimit_default now
    rw [h] at hsome
    cases hsome

theorem registrationLaw_of_outcome {s : Server} {io : DbIo} {addr : SocketAddr}
    {rk : RegisterPk} {peer : Peer} {pm' : PeerMap} {r : Option RkResult}
    (horig : PeerMap.Origin X.toInfoJson s.pm io rk.id peer)
    (h : RkOutcome X s io addr rk peer (pm', r)) :
    RegistrationLaw X s.pm io addr rk peer (r = some .OK) pm' := by
  -- the record in memory, if there is one, is the one `get_or` hands out
  have hmem : ∀ p, s.pm.map rk.id = some p → peer = p := by
    intro p hp
    cases horig with
    | memory hq => rw [hp] at hq; exact (Option.some.inj hq).symm
    | row hn _ _ => rw [hp] at hn; cases hn
    | blank hn _ => rw [hp] at hn; cases hn
  have hself : ∀ p : Peer, put s.pm.map rk.id p rk.id = some p := fun p => put_self ..
  cases h with
  | silent =>
      exact ⟨hmem, fun _ p hp => ⟨p, hp, .refl p⟩,
        fun _ hn p' hp' => (by rw [hn] at hp'; cases hp'), fun hok => (by cases hok),
        fun p hp _ => ⟨p, hp, rfl⟩, fun hok => (by cases hok), fun _ _ => rfl⟩
  | turnedAway _ hne =>
      have hno : some _ ≠ some RkResult.OK := fun hok => hne (Option.some.inj hok)
      exact ⟨hmem, fun _ p hp => ⟨p, hp, .refl p⟩,
        fun _ hn p' hp' => (by rw [hn] at hp'; cases hp'), fun hok => absurd hok hno,
        fun p hp _ => ⟨p, hp, rfl⟩, fun hok => absurd hok hno, fun _ _ => rfl⟩
  | refused _ hne hcheck =>
      have hno : some _ ≠ some RkResult.OK := fun hok => hne (Option.some.inj hok)
      refine ⟨hmem, fun _ p hp => ⟨peer, hself _, hmem p hp ▸ .refl _⟩,
        ?_, fun hok => absurd hok hno,
        fun p hp _ => ⟨peer, hself _, by rw [hmem p hp]⟩, fun hok => absurd hok hno,
        fun id hid => put_ne hid⟩
      intro _ hn p' hp'
      obtain rfl : peer = p' := by simpa using hp'
      cases horig with
      | memory hq => rw [hn] at hq; cases hq
      | row _ _ hv => exact ⟨_, hv, rfl⟩
      | blank _ _ => exact (refused_not_blank hcheck).elim
  | unchanged _ hch _ =>
      obtain ⟨_, huuid, hpk, hip⟩ := rkChanged_false hch
      refine ⟨hmem, fun hok => absurd rfl hok, fun hok => absurd rfl hok,
        fun _ => ⟨_, hself _, huuid, hpk, hip⟩, fun p hp _ => ⟨_, hself _, ?_⟩,
        fun _ _ => ⟨_, hself _, rfl, .inl rfl⟩, fun id hid => put_ne hid⟩
      rw [hmem p hp]
  | stored _ hch _ hupd =>
      obtain ⟨g, hmap⟩ := stored_record hupd
      have hpost : ∃ p', pm'.map rk.id = some p' ∧ p'.uuid = rk.uuid ∧ p'.pk = rk.pk
          ∧ p'.info = ⟨addr.ip.toString⟩ := by
        rw [hmap]; exact ⟨_, hself _, rfl, rfl, rfl⟩
      obtain ⟨p', hp', huuid, hpk, hinfo⟩ := hpost
      have hkept : peer.uuid ≠ [] →
          p'.uuid = peer.uuid ∧ (p'.pk = peer.pk ∨ p'.info = peer.info) := by
        intro hne
        obtain ⟨hu, hone⟩ := (rkChanged_some hch).resolve_left hne
        refine ⟨huuid.trans hu.symm, hone.symm.imp (fun hk => hpk.trans hk.symm) ?_⟩
        intro hip
        rw [hinfo, ← hip]
      exact ⟨hmem, fun hok => absurd rfl hok, fun hok => absurd rfl hok,
        fun _ => ⟨p', hp', huuid, hpk, by rw [hinfo]⟩,
        fun p hp hne => ⟨p', hp', hmem p hp ▸ (hkept (hmem p hp ▸ hne)).1⟩,
        fun _ hne => ⟨p', hp', hkept hne⟩, fun id hid => by rw [hmap]; exact put_ne hid⟩

/-- **Every `RegisterPk` step obeys the law**, in any state. -/
theorem registrationLaw_step {o : Occ Server Event Out} {io : Io} {addr : SocketAddr}
    {rk : RegisterPk} (hst : hbbs X key cfg o.pre o.ev = some (o.post, o.out))
    (hev : o.ev = .udp io addr (some (.registerPk rk))) :
    RegistrationLaw X o.pre.pm io.toDbIo addr rk
      (o.pre.pm.getOr X.toInfoJson io.toDbIo rk.id).2 (Answered o io addr rk .OK) o.post.pm := by
  have hlaw := registrationLaw_of_outcome (PeerMap.getOr_origin X.toInfoJson _ _ _)
    (handleRegisterPk_cases X o.pre io.toDbIo addr rk)
  have hpost : o.post.pm = (handleRegisterPk X o.pre io.toDbIo addr rk).1.pm := by
    rw [hev] at hst
    rw [(hbbs_udp.mp hst).1, (handleUdp_registerPk ..).1]
  have hok : Answered o io addr rk .OK
      ↔ (handleRegisterPk X o.pre io.toDbIo addr rk).2 = some .OK := by
    rw [answered_iff hst]
    exact and_iff_right hev
  rw [hpost]
  rwa [propext hok]

/-- A run of `RegisterPk` messages only. -/
def OnlyRegisterPk (h : List (Occ Server Event Out)) : Prop :=
  ∀ o ∈ h, ∃ io addr rk, o.ev = .udp io addr (some (.registerPk rk))

/-- **The registration transition law**, over any run of `RegisterPk` messages from any state. -/
theorem registration_law {s₀ s : Server} {h : List (Occ Server Event Out)}
    (hr : Run (hbbs X key cfg) s₀ h s) (hpk : OnlyRegisterPk h) :
    (∀ o ∈ h, ∀ io addr rk, o.ev = .udp io addr (some (.registerPk rk)) →
      RegistrationLaw X o.pre.pm io.toDbIo addr rk
        (o.pre.pm.getOr X.toInfoJson io.toDbIo rk.id).2 (Answered o io addr rk .OK) o.post.pm)
    ∧ ∀ id p, s₀.pm.map id = some p → p.uuid ≠ [] →
      ∃ p', s.pm.map id = some p' ∧ p'.uuid = p.uuid := by
  refine ⟨?_, ?_⟩
  · intro o ho io addr rk hev
    obtain ⟨_, _, _, _, hst, _⟩ := hr.mem ho
    exact registrationLaw_step hst hev
  · intro id p hp hne
    induction hr with
    | nil => exact ⟨p, hp, rfl⟩
    | @snoc h s s' e out hrun hst ih =>
        obtain ⟨q, hq, hqu⟩ := ih fun o ho => hpk o (List.mem_append_left _ ho)
        obtain ⟨io, addr, rk, hev⟩ := hpk ⟨s, e, out, s'⟩ (by simp)
        have hlaw := registrationLaw_step (o := ⟨s, e, out, s'⟩) hst hev
        by_cases hid : id = rk.id
        · subst hid
          obtain ⟨p', hp', hpu⟩ := hlaw.uuidFixed q hq (by rw [hqu]; exact hne)
          exact ⟨p', hp', hpu.trans hqu⟩
        · exact ⟨q, (hlaw.frame id hid).trans hq, hqu⟩

/-- `peer-1` has registered with the uuid `[1]` and the key `[2]`. -/
def registered : Server :=
  (handleUdp Ext.sample "" (.start .sample .empty) (.sample 0 1) .unspecified
    (some (.registerPk ⟨"peer-1", [1], [2]⟩))).1

/-- Another id registers, `peer-1` registers another key, and somebody else the id of `peer-1`. -/
def registeringEvents : List Event :=
  [.udp (.sample (ofSecs 1) 2) .unspecified (some (.registerPk ⟨"peer-2", [5], [6]⟩)),
    .udp (.sample (ofSecs 2) 3) .unspecified (some (.registerPk ⟨"peer-1", [1], [3]⟩)),
    .udp (.sample (ofSecs 3) 4) .unspecified (some (.registerPk ⟨"peer-1", [9], [3]⟩))]

theorem registration_law_one :
    ∃ h s, Run (hbbs Ext.sample "" Config.sample) registered h s
      ∧ (h.flatMap fun o => o.out.sent.map Prod.fst)
        = [.registerPkResponse .OK, .registerPkResponse .OK, .registerPkResponse .UUID_MISMATCH]
      ∧ (∀ o ∈ h, ∃ io addr rk, o.ev = .udp io addr (some (.registerPk rk))
        ∧ RegistrationLaw Ext.sample o.pre.pm io.toDbIo addr rk
          (o.pre.pm.getOr Ext.sample.toInfoJson io.toDbIo rk.id).2 (Answered o io addr rk .OK)
          o.post.pm)
      ∧ ∃ p, s.pm.map "peer-1" = some p ∧ p.uuid = [1] := by
  obtain ⟨h, s, hr, hev, hp⟩ := @exists_run _ _ _ (hbbs Ext.sample "" .sample) registered
    registeringEvents
    (fun h _ => decide ((h.flatMap fun o => o.out.sent.map Prod.fst)
      = [.registerPkResponse .OK, .registerPkResponse .OK, .registerPkResponse .UUID_MISMATCH]))
    (by decide +kernel)
  have hpk : OnlyRegisterPk h := by
    intro o ho
    have hmem : o.ev ∈ registeringEvents := hev ▸ List.mem_map_of_mem ho
    rcases List.mem_cons.mp hmem with heq | hmem
    · exact ⟨_, _, _, heq⟩
    · rcases List.mem_pair.mp hmem with heq | heq <;> exact ⟨_, _, _, heq⟩
  obtain ⟨hlaw, hkept⟩ := registration_law hr hpk
  refine ⟨h, s, hr, of_decide_eq_true hp, ?_, ?_⟩
  · intro o ho
    obtain ⟨io, addr, rk, hevo⟩ := hpk o ho
    exact ⟨io, addr, rk, hevo, hlaw o ho io addr rk hevo⟩
  · obtain ⟨p, hpeer, huuid⟩ : ∃ p, registered.pm.map "peer-1" = some p ∧ p.uuid = [1] := by
      have huuid : (registered.pm.map "peer-1").map Peer.uuid = some [1] := by decide +kernel
      exact Option.map_eq_some_iff.mp huuid
    obtain ⟨p', hpeer', huuid'⟩ := hkept "peer-1" p hpeer (by rw [huuid]; decide)
    exact ⟨p', hpeer', huuid'.trans huuid⟩

/-! ## Key and heartbeat -/

/-- A heartbeat for `id` from `addr` is content: no key is asked for, and the record has
the address and the time. -/
def HeartbeatAccepted (X : Ext) (key : String) (s : Server) (io : Io) (addr : SocketAddr)
    (rp : RegisterPeer) : Prop :=
  let r := handleUdp X key s io addr (some (.registerPeer rp))
  (.registerPeerResponse false, addr) ∈ r.2.sends ∧
    ∃ p, r.1.pm.map rp.id = some p ∧ p.socketAddr = addr ∧ p.lastRegTime = io.now

/--
The record has drifted away from the sender: it says exactly what the message says, so
the message changes nothing, but its recorded address is another host's, and the sender
is not on loopback.
-/
def Drifted (peer : Peer) (addr : SocketAddr) (rk : RegisterPk) : Prop :=
  peer.uuid ≠ [] ∧ peer.pk = rk.pk ∧ peer.info.ip = addr.ip.toString
    ∧ peer.socketAddr.port ≠ 0 ∧ peer.socketAddr.ip ≠ addr.ip ∧ addr.ip.isLoopback = false

theorem heartbeatAccepted_iff {s : Server} {io : Io} {addr : SocketAddr} {rp : RegisterPeer}
    {old : Peer} (hid : rp.id ≠ "") (hold : s.pm.map rp.id = some old) (hpk : old.pk ≠ []) :
    HeartbeatAccepted X key s io addr rp ↔ ipChange old addr = false := by
  have hempty : old.pk.isEmpty = false := by simpa using hpk
  obtain ⟨hmap, hsends⟩ := @handleUdp_registerPeer X key s io addr rp hid
  unfold HeartbeatAccepted
  dsimp only
  rw [hsends false, hmap, updateAddr, hold]
  dsimp only
  rw [hempty, Bool.false_or]
  cases hchange : ipChange old addr with
  | true => simp
  | false => simp

/-- An id long enough to register is not empty. -/
theorem id_ne_of_length {id : String} (h : 6 ≤ id.utf8ByteSize) : id ≠ "" := by
  intro heq
  subst heq
  exact absurd h (by decide)

/--
**After an accepted key the heartbeat from the same address is content**, in any state,
exactly unless the record had drifted.
-/
theorem handshake_converges_iff {s : Server} {io : DbIo} {io' : Io} {addr : SocketAddr}
    {rk : RegisterPk} {serial : Int} (hok : (handleRegisterPk X s io addr rk).2 = some .OK) :
    HeartbeatAccepted X key (handleRegisterPk X s io addr rk).1 io' addr ⟨rk.id, serial⟩
      ↔ ¬ Drifted (s.pm.getOr X.toInfoJson io rk.id).2 addr rk := by
  have hcase := handleRegisterPk_cases X s io addr rk
  generalize (s.pm.getOr X.toInfoJson io rk.id).2 = peer at hcase ⊢
  generalize handleRegisterPk X s io addr rk = res at hok hcase ⊢
  obtain ⟨s', r⟩ := res
  dsimp only at hok hcase ⊢
  subst hok
  generalize hpm : s'.pm = pm' at hcase
  cases hcase with
  | turnedAway _ hne => exact absurd rfl hne
  | refused _ hne => exact absurd rfl hne
  | @unchanged reqPk _ hreach hch _ =>
      -- nothing moved: whether the address still fits is up to what was recorded
      obtain ⟨hu, _, hpk, hip⟩ := rkChanged_false hch
      have hold : s'.pm.map rk.id = some { peer with regPk := reqPk } := by
        rw [hpm]; exact put_self ..
      have hpk' : ({ peer with regPk := reqPk } : Peer).pk ≠ [] := by
        rw [hpk]; exact hreach.2.1
      rw [heartbeatAccepted_iff (id_ne_of_length hreach.2.2.1) hold hpk']
      rw [← Bool.not_eq_true, not_iff_not]
      refine (ipChange_iff hip).trans ⟨fun hc => ⟨hu, hpk, hip, hc⟩, fun hd => hd.2.2.2⟩
  | @stored reqPk _ _ _ hreach hch _ hupd =>
      obtain ⟨g, hmap⟩ := stored_record hupd
      have hold : s'.pm.map rk.id = some { ({ peer with regPk := reqPk } : Peer).setPk io.now addr
          rk.uuid rk.pk addr.ip.toString with guid := g } := by
        rw [hpm, hmap]; exact put_self ..
      rw [heartbeatAccepted_iff (id_ne_of_length hreach.2.2.1) hold hreach.2.1]
      refine iff_of_true (by simp [ipChange, Peer.setPk]) ?_
      intro hd
      rcases rkChanged_true hch with hu | ⟨_, hpk | hip⟩
      · exact hd.1 hu
      · exact hpk hd.2.1
      · exact hip hd.2.2.1

/-- Wherever the run accepted a key, the next heartbeat from that address is content. -/
def HandshakeConverges (X : Ext) (key : String) (h : List (Occ Server Event Out)) : Prop :=
  ∀ o ∈ h, ∀ io addr rk, Answered o io addr rk .OK →
    ∀ io' serial, HeartbeatAccepted X key o.post io' addr ⟨rk.id, serial⟩

/-- No key of the run was accepted on a record that had drifted away from its sender. -/
def NeverDrifted (X : Ext) (h : List (Occ Server Event Out)) : Prop :=
  ∀ o ∈ h, ∀ io addr rk, Answered o io addr rk .OK →
    ¬ Drifted (o.pre.pm.getOr X.toInfoJson io.toDbIo rk.id).2 addr rk

/-- **The handshake converges exactly unless a record drifts**, over every run. -/
theorem handshake_converges_run {db : Table} {s : Server} {h : List (Occ Server Event Out)}
    (hr : Run (hbbs X key cfg) (Server.start cfg db) h s) :
    HandshakeConverges X key h ↔ NeverDrifted X h := by
  refine forall₂_congr fun o ho => forall₃_congr fun io addr rk => forall_congr' ?_
  intro hans
  obtain ⟨_, _, _, _, hst, _⟩ := hr.mem ho
  obtain ⟨hev, hok⟩ := (answered_iff hst).mp hans
  have hpost : o.post = (handleRegisterPk X o.pre io.toDbIo addr rk).1 := by
    rw [hev] at hst
    rw [(hbbs_udp.mp hst).1, (handleUdp_registerPk ..).1]
  rw [hpost]
  have hiff : ∀ io' serial, HeartbeatAccepted X key (handleRegisterPk X o.pre io.toDbIo addr rk).1
      io' addr ⟨rk.id, serial⟩ ↔
      ¬ Drifted (o.pre.pm.getOr X.toInfoJson io.toDbIo rk.id).2 addr rk :=
    fun _ _ => handshake_converges_iff hok
  exact ⟨fun hall => (hiff io 0).mp (hall io 0), fun hd io' serial => (hiff io' serial).mpr hd⟩

/-- On a first registration nothing can have drifted. -/
theorem handshake_converges_fresh :
    ∃ h s, Run (hbbs Ext.sample "" Config.sample) (.start .sample .empty) h s
      ∧ h.map Occ.ev = [.udp (.sample 0 1) .unspecified (some (.registerPk ⟨"peer-1", [1], [2]⟩))]
      ∧ HandshakeConverges Ext.sample "" h := by
  have hr : Run (hbbs Ext.sample "" Config.sample) (.start .sample .empty) [⟨_, _, _, _⟩] _ :=
    Run.snoc Run.nil (e := .udp (.sample 0 1) .unspecified
      (some (.registerPk ⟨"peer-1", [1], [2]⟩))) rfl
  refine ⟨_, _, hr, rfl, (handshake_converges_run hr).mpr ?_⟩
  intro o ho io addr rk hans hd
  rw [List.mem_singleton.mp ho] at hans hd
  obtain ⟨rfl, rfl, hmsg⟩ := Event.udp.inj hans.1
  obtain rfl := RendezvousMessage.registerPk.inj (Option.some.inj hmsg)
  exact hd.1 rfl

/-- A peer at `1.2.3.4:5000`, whose id also beats from the server's own host. -/
def driftedHost : SocketAddr := ⟨.v4 ⟨1, 2, 3, 4⟩, 5000⟩

def driftTrace : List Event :=
  [.udp (.sample 0 1) driftedHost (some (.registerPk ⟨"peer-1", [1], [2]⟩)),
   .udp (.sample 1 1) ⟨.v4 ⟨127, 0, 0, 1⟩, 6000⟩ (some (.registerPeer ⟨"peer-1", 0⟩))]

/--
**The handshake can fail to converge**: after a heartbeat from loopback, the peer's key is
accepted again, changes nothing, and the next heartbeat is asked for the key again.
-/
theorem handshake_diverges :
    ¬ ∀ h s, Run (hbbs Ext.sample "" Config.sample) (.start .sample .empty) h s →
      HandshakeConverges Ext.sample "" h := by
  intro hall
  let again : Event := .udp (.sample 2 1) driftedHost (some (.registerPk ⟨"peer-1", [1], [2]⟩))
  obtain ⟨h, s, hr, _, hp⟩ := @exists_run _ _ _ (hbbs Ext.sample "" Config.sample)
    (.start .sample .empty) driftTrace
    (fun _ s =>
      let r := handleUdp Ext.sample "" s (.sample 2 1) driftedHost
        (some (.registerPk ⟨"peer-1", [1], [2]⟩))
      (.registerPkResponse .OK, driftedHost) ∈ r.2.sends
        ∧ (.registerPeerResponse false, driftedHost) ∉
          (handleUdp Ext.sample "" r.1 (.sample 3 1) driftedHost
            (some (.registerPeer ⟨"peer-1", 0⟩))).2.sends)
    (by decide)
  obtain ⟨hok, hno⟩ := decide_eq_true_iff.mp hp
  have hr' := Run.snoc hr (e := again) rfl
  have hall' := hall _ _ hr' _ (List.mem_append_right _ (List.mem_singleton_self _)) _ _ _
    ⟨rfl, _, rfl, hok⟩ (.sample 3 1) 0
  exact hno hall'.1

end KinBridge.Proof
