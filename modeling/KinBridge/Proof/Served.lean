import KinBridge.Lib.Snapshots
import KinBridge.Proof.Agreement
import KinBridge.Proof.Intranet
import KinBridge.Proof.Relays
import KinBridge.Hbbs.Served

/-!
# What old clones say

A connection is served with the lists and the serial that were in force when it was accepted.
Two things that clients hear depend on them. A `ConfigUpdate` may be an old one, but one
serial never stands for two lists. A relay may have been taken off the list since, but it was
on the list when the task was spawned.
-/

namespace KinBridge.Proof

open KinBridge Runs

variable {X : Ext} {key : String} {iso : Nat → String} {cfg : Config} {live : Bool}

/-- The serial that a client says it has. -/
def serialOf : RendezvousMessage → Option Int
  | .registerPeer rp => some rp.serial
  | .testNatRequest serial => some serial
  | _ => none

/-- A relay that a handler may name: none, the LAN's, a listed one, or what it was told. -/
def MayName (c : Clone) (msg : Option RendezvousMessage) (r : String) : Prop :=
  r = "" ∨ r = c.inner.localIp ∨ r ∈ c.relayServers
    ∨ msg.bind RendezvousMessage.peerRelay = some r

/-- What a handler with these fields says when this message comes in. -/
inductive Said (c : Clone) (msg : Option RendezvousMessage) : RendezvousMessage → Prop where
  | plain {m : RendezvousMessage} : m.update = none → m.relay = none → Said c msg m
  | update {m : RendezvousMessage} {serial : Int} : msg.bind serialOf = some serial →
      serial < c.inner.serial → m.update = some c.update → m.relay = none → Said c msg m
  | relay {m : RendezvousMessage} {r : String} : m.update = none → m.relay = some r →
      MayName c msg r → Said c msg m

/-! ## Handlers -/

theorem getRelayServer_listed (s : Server) :
    (getRelayServer s).2 = "" ∨ (getRelayServer s).2 ∈ s.relayServers := by
  rw [getRelayServer_turn]
  unfold turnOf
  rcases Nat.lt_or_ge (s.rotation % s.relayServers.length) s.relayServers.length with hlt | hge
  · rw [List.getD_eq_getElem?_getD, List.getElem?_eq_getElem hlt]
    exact .inr (List.getElem_mem hlt)
  · rw [List.getD_eq_getElem?_getD, List.getElem?_eq_none hge]
    exact .inl rfl

theorem getRelayServer_mayName {s : Server} {msg : Option RendezvousMessage} :
    MayName s.clone msg (getRelayServer s).2 :=
  (getRelayServer_listed s).imp_right fun h => .inr (.inl h)

theorem relayTold_mayName {s : Server} {peerAddr addr : SocketAddr}
    {msg : Option RendezvousMessage} : MayName s.clone msg (relayTold s peerAddr addr) := by
  unfold relayTold
  split
  · exact .inr (.inl rfl)
  · exact getRelayServer_mayName

theorem forwardPunchHole_said {s : Server} {now : Instant} {addr peerAddr : SocketAddr}
    {ph : PunchHoleRequest} {ws : Bool} {msg : Option RendezvousMessage} :
    Said s.clone msg (forwardPunchHole X s now addr ph ws peerAddr).2 := by
  rw [forwardPunchHole_eq]
  dsimp only
  split <;> exact .relay rfl rfl relayTold_mayName

theorem handlePunchHoleRequest_said {s : Server} {io : DbIo} {addr : SocketAddr}
    {ph : PunchHoleRequest} {ws : Bool} {msg : Option RendezvousMessage} :
    Said s.clone msg (handlePunchHoleRequest X key s io addr ph ws).2.1 := by
  have hout := handlePunchHoleRequest_cases X key s io addr ph ws
  generalize handlePunchHoleRequest X key s io addr ph ws = r at hout ⊢
  cases hout with
  | unlicensed => exact .relay rfl rfl (.inl rfl)
  | unknown => exact .relay rfl rfl (.inl rfl)
  | offline => exact .relay rfl rfl (.inl rfl)
  | @forwarded peer =>
      exact @forwardPunchHole_said X { s with pm := (s.pm.get X.toInfoJson io ph.id).1 } io.now addr
        peer.socketAddr ph ws msg

theorem handleRelayResponse_said {s : Server} {io : DbIo} {rr : RelayResponse} :
    Said s.clone (some (.relayResponse rr)) (handleRelayResponse X s io rr).2.1 := by
  refine .relay (r := relayDelivered X s io rr) rfl rfl ?_
  rw [relayDelivered_eq, ← getRelayServer_turn]
  split
  · exact .inl rfl
  · split
    · exact .inr (.inl rfl)
    · split
      · exact getRelayServer_mayName
      · exact .inr (.inr (.inr rfl))

theorem handleHoleSent_said {s : Server} {io : DbIo} {phs : PunchHoleSent} {addr : SocketAddr} :
    Said s.clone (some (.punchHoleSent phs)) (handleHoleSent X s io phs addr).2.1 :=
  .relay rfl rfl (.inr (.inr (.inr rfl)))

theorem handleLocalAddr_said {s : Server} {io : DbIo} {la : LocalAddr} :
    Said s.clone (some (.localAddr la)) (handleLocalAddr X s io la).2.1 :=
  .relay rfl rfl (.inr (.inr (.inr rfl)))

theorem handleTcp_said {s : Server} {io : DbIo} {addr : SocketAddr} {ws : Bool}
    {msg : Option RendezvousMessage} {m : RendezvousMessage}
    (hm : m ∈ (handleTcp X key s io addr ws msg).2.1.filterMap TcpEffect.msg) :
    Said s.clone msg m := by
  unfold handleTcp at hm
  split at hm
  · rename_i ph
    have hsaid : Said s.clone (some (.punchHoleRequest ph))
      (handlePunchHoleRequest X key s io addr ph ws).2.1 := handlePunchHoleRequest_said
    split at hm <;> rename_i heq <;> rw [heq] at hsaid
    · obtain rfl := List.mem_singleton.mp hm
      exact hsaid
    · obtain rfl := List.mem_singleton.mp hm
      exact hsaid
  · split at hm
    · obtain rfl := List.mem_singleton.mp hm
      exact .plain rfl rfl
    · simp [TcpEffect.msg] at hm
  · obtain rfl := List.mem_singleton.mp hm
    exact handleRelayResponse_said
  · obtain rfl := List.mem_singleton.mp hm
    exact handleHoleSent_said
  · obtain rfl := List.mem_singleton.mp hm
    exact handleLocalAddr_said
  · rename_i serial
    obtain rfl := List.mem_singleton.mp hm
    by_cases hlt : s.inner.serial > serial
    · refine .update rfl hlt ?_ rfl
      simp only [RendezvousMessage.update, if_pos hlt]
      rfl
    · exact .plain (by simp [RendezvousMessage.update, hlt]) rfl
  · obtain rfl := List.mem_singleton.mp hm
    exact .plain rfl rfl
  · simp at hm

theorem handleUdp_said {s : Server} {io : Io} {addr : SocketAddr}
    {msg : Option RendezvousMessage} {m : RendezvousMessage}
    (hm : m ∈ (ServedOut.udp (handleUdp X key s io addr msg).2).messages) :
    Said s.clone msg m := by
  unfold handleUdp at hm
  split at hm
  · rename_i rp
    split at hm
    · simp [ServedOut.messages, UdpOut.quiet] at hm
    · dsimp only at hm
      split at hm
      · rename_i hlt
        have hserial := (Bool.and_eq_true_iff.mp hlt).2
        rw [decide_eq_true_eq] at hserial
        rcases (show m = _ ∨ m = _ by simpa [ServedOut.messages] using hm) with rfl | rfl
        · exact .plain rfl rfl
        · exact .update rfl hserial rfl rfl
      · obtain rfl := List.mem_singleton.mp hm
        exact .plain rfl rfl
  · split at hm
    · simp [ServedOut.messages, UdpOut.quiet] at hm
    · obtain rfl := List.mem_singleton.mp hm
      exact .plain rfl rfl
  · obtain rfl := List.mem_singleton.mp hm
    exact handlePunchHoleRequest_said
  · obtain rfl := List.mem_singleton.mp hm
    exact handleHoleSent_said
  · obtain rfl := List.mem_singleton.mp hm
    exact handleLocalAddr_said
  · split at hm <;> simp [ServedOut.messages, UdpOut.quiet] at hm
  · split at hm
    · obtain rfl := List.mem_singleton.mp hm
      exact .plain rfl rfl
    · simp [ServedOut.messages, UdpOut.quiet] at hm
  · simp [ServedOut.messages, UdpOut.quiet] at hm

/-! ## Steps -/

/-- The message that a task reads, or the loop. -/
def incoming : ServedEvent → Option RendezvousMessage
  | .datagram _ _ msg => msg
  | .read _ (.message _ msg) => msg
  | _ => none

theorem turn_said {s : Server} {kind : TaskKind} {i : Nat} {input : TaskInput} {r : TaskTurn}
    (h : kind.turn X key iso s input = some r) :
    ∀ m ∈ r.out.messages, Said s.clone (incoming (.read i input)) m := by
  intro m hm
  unfold TaskKind.turn at h
  split at h
  · obtain rfl := Option.some.inj h
    exact handleTcp_said hm
  · split at h <;> obtain rfl := Option.some.inj h
    · obtain rfl := List.mem_singleton.mp hm
      exact .plain rfl rfl
    · cases hm
    · cases hm
  · split at h <;> obtain rfl := Option.some.inj h <;> cases hm
  · obtain rfl := Option.some.inj h
    obtain rfl := List.mem_singleton.mp hm
    exact handlePunchHoleRequest_said
  · cases h

/-- The fields with which a step handles what comes in. -/
def fieldsOf (live : Bool) (st : Served) : ServedEvent → Option Clone
  | .datagram _ _ _ => some st.loop.server.clone
  | .read i _ => (st.tasks[i]?.join).map fun t => t.view live st.loop.server
  | _ => none

theorem served_said {st st' : Served} {e : ServedEvent} {o : ServedOut}
    (hst : served X key iso live cfg st e = some (st', o)) :
    ∀ m ∈ o.messages, ∃ c, fieldsOf live st e = some c ∧ Said c (incoming e) m := by
  intro m hm
  cases served_step hst with
  | loop => cases hm
  | @datagram io addr msg s out _ hudp =>
      have hout : out = (handleUdp X key st.loop.server io addr msg).2 := by rw [hudp]
      subst hout
      exact ⟨_, rfl, handleUdp_said hm⟩
  | punch => cases hm
  | accept => cases hm
  | @turn i input t r ht hr =>
      refine ⟨t.view live st.loop.server, by simp [fieldsOf, ht], ?_⟩
      exact turn_said (i := i) hr m hm
  | close => cases hm

/-- What a datagram makes of the announcement: nothing, or one of a higher serial. -/
theorem handleUdp_raised (s : Server) (io : Io) (addr : SocketAddr)
    (msg : Option RendezvousMessage) :
    (handleUdp X key s io addr msg).1.clone.update = s.clone.update
      ∨ s.inner.serial < (handleUdp X key s io addr msg).1.inner.serial := by
  have hmove := @handleUdp_move X key s io addr msg
  cases msg with
  | none =>
      generalize (handleUdp X key s io addr none).1 = s' at hmove
      cases hmove
      exact .inl rfl
  | some m =>
      cases m with
      | configureUpdate cu =>
          simp only [handleUdp]
          split
          · rename_i hcu
            exact .inr (of_decide_eq_true (Bool.and_eq_true_iff.mp hcu).2)
          · exact .inl rfl
      | _ =>
          generalize (handleUdp X key s io addr _).1 = s' at hmove
          cases hmove <;> exact .inl rfl

/-- The loop's own turns change the relay lists only. -/
theorem ioLoop_own {l l' : IoLoop} {e : ServedEvent} {e' : LoopEvent} (he : e.loopEvent = some e')
    (hst : ioLoop X key cfg l e' = some (l', ())) :
    ∃ lists : List String × List String, l'.server =
      { l.server with relayServers := lists.1, relayServers0 := lists.2 } := by
  have hadmin : admin X key (fun _ => "") cfg l (.loop e') = some (l', none) := by
    rw [admin, hst]
    rfl
  have hmove := admin_move hadmin
  generalize l'.server = s' at hmove
  cases hmove with
  | message => cases e <;> cases he
  | quiet => exact ⟨(l.server.relayServers, l.server.relayServers0), rfl⟩
  | @data d =>
      cases d with
      | msg m addr => exact ⟨(l.server.relayServers, l.server.relayServers0), rfl⟩
      | relayServers0 rs => exact ⟨(getServers X rs, getServers X rs), rfl⟩
      | relayServers rs => exact ⟨(rs, l.server.relayServers0), rfl⟩

/-- The tasks after a step: those there were, or gone, and one more with the fields in force. -/
theorem served_tasks {st st' : Served} {e : ServedEvent} {o : ServedOut}
    (hst : served X key iso live cfg st e = some (st', o)) {i : Nat} {t : Task}
    (ht : st'.tasks[i]? = some (some t)) :
    st.tasks[i]? = some (some t)
      ∨ i = st.tasks.length ∧ st'.tasks.length = i + 1 ∧ t.clone = st.loop.server.clone := by
  have hspawn : ∀ kind, (st.spawn kind).tasks[i]? = some (some t) → st.tasks[i]? = some (some t)
      ∨ i = st.tasks.length ∧ (st.spawn kind).tasks.length = i + 1
        ∧ t.clone = st.loop.server.clone := by
    intro kind h
    rw [Served.spawn, List.getElem?_append] at h
    split at h
    · exact .inl h
    · obtain ⟨hlt, heq⟩ := List.getElem?_eq_some_iff.mp h
      rw [List.length_singleton] at hlt
      have hi : i = st.tasks.length := by omega
      refine .inr ⟨hi, by simp [Served.spawn, hi], ?_⟩
      simp only [List.getElem_singleton, Option.some.injEq] at heq
      rw [← heq]
  have hset : ∀ j, (st.tasks.set j none)[i]? = some (some t) → st.tasks[i]? = some (some t) := by
    intro j h
    rw [List.getElem?_set] at h
    split at h
    · split at h <;> cases h
    · exact h
  cases served_step hst with
  | loop => exact .inl ht
  | datagram => exact .inl ht
  | punch => exact hspawn _ ht
  | accept => exact hspawn _ ht
  | @turn j _ _ r =>
      unfold Served.after at ht
      dsimp only at ht
      split at ht
      · exact .inl ht
      · exact .inl (hset j ht)
  | close => exact .inl (hset _ ht)

/-! ## One serial, one list -/

/-- A task holds this announcement. -/
def TaskHolds (st : Served) (cu : ConfigUpdate) : Prop :=
  ∃ (i : Nat) (t : Task), st.tasks[i]? = some (some t) ∧ cu = t.clone.update

/-- A step announces this to somebody. -/
def Announces (o : ServedOut) (cu : ConfigUpdate) : Prop :=
  ∃ m ∈ o.messages, m.update = some cu

theorem said_update {c : Clone} {msg : Option RendezvousMessage} {m : RendezvousMessage}
    {cu : ConfigUpdate} (h : Said c msg m) (hcu : m.update = some cu) :
    cu = c.update ∧ ∃ serial, msg.bind serialOf = some serial ∧ serial < cu.serial := by
  cases h with
  | plain hnone => rw [hnone] at hcu; cases hcu
  | relay hnone => rw [hnone] at hcu; cases hcu
  | update hserial hlt hsome =>
      obtain rfl := Option.some.inj (hsome.symm.trans hcu)
      exact ⟨rfl, _, hserial, hlt⟩

/-- What is announced is in force, or a task holds it, and the client has a lower serial. -/
theorem served_announces {st st' : Served} {e : ServedEvent} {o : ServedOut} {cu : ConfigUpdate}
    (hst : served X key iso live cfg st e = some (st', o)) (h : Announces o cu) :
    (TaskHolds st cu ∨ cu = st.loop.server.clone.update)
      ∧ ∃ serial, (incoming e).bind serialOf = some serial ∧ serial < cu.serial := by
  obtain ⟨m, hm, hcu⟩ := h
  obtain ⟨c, hc, hsaid⟩ := served_said hst m hm
  obtain ⟨rfl, hserial⟩ := said_update hsaid hcu
  refine ⟨?_, hserial⟩
  cases e with
  | datagram => exact .inr (by rw [Option.some.inj hc])
  | read i input =>
      obtain ⟨t, ht, rfl⟩ := Option.map_eq_some_iff.mp hc
      have htask : st.tasks[i]? = some (some t) := Option.join_eq_some_iff.mp ht
      cases live with
      | true => exact .inr rfl
      | false => exact .inl ⟨i, t, htask, rfl⟩
  | _ => cases hc

theorem served_publishes : Publishes (served X key iso live cfg) ConfigUpdate.serial
    (fun st => st.loop.server.clone.update) TaskHolds Announces where
  raised := by
    intro st e st' o hst
    cases served_step hst with
    | loop he hl =>
        obtain ⟨lists, hlists⟩ := ioLoop_own he hl
        dsimp only
        rw [hlists]
        exact .inl rfl
    | @datagram io addr msg s out _ hudp =>
        have hs : s = (handleUdp X key st.loop.server io addr msg).1 := by rw [hudp]
        rw [hs]
        exact handleUdp_raised ..
    | punch => exact .inl rfl
    | accept => exact .inl rfl
    | @turn i _ _ r =>
        -- a task's server goes back with the fields of the loop
        left
        unfold Served.after
        dsimp only
        split <;> rfl
    | close => exact .inl rfl
  copied := by
    rintro st e st' o _ hst ⟨i, t, ht, rfl⟩
    rcases served_tasks hst ht with hold | ⟨_, _, hnew⟩
    · exact .inl ⟨i, t, hold, rfl⟩
    · exact .inr (by rw [hnew])
  shows := fun _ _ _ _ _ hst h => (served_announces hst h).1

theorem taskHolds_start {db : Table} {cu : ConfigUpdate} : ¬ TaskHolds (.start cfg db) cu := by
  rintro ⟨i, t, ht, _⟩
  cases ht

/--
**A serial stands for one list of rendezvous servers**, however old the clones that announce
it: two `ConfigUpdate`s with one serial are the same, wherever and whenever they are sent, and
each goes to a client that has a lower serial, from a server whose serial is as high or higher.
-/
theorem updates_agree {db : Table} {h : List (Occ Served ServedEvent ServedOut)} {st : Served}
    (hr : Run (served X key iso live cfg) (.start cfg db) h st) :
    (∀ o ∈ h, ∀ cu, Announces o.out cu →
      cu.serial ≤ o.pre.loop.server.inner.serial
        ∧ ∃ serial, (incoming o.ev).bind serialOf = some serial ∧ serial < cu.serial)
      ∧ ∀ o ∈ h, ∀ o' ∈ h, ∀ cu cu', Announces o.out cu → Announces o'.out cu' →
        cu.serial = cu'.serial → cu = cu' := by
  constructor
  · intro o ho cu hcu
    obtain ⟨h₁, h₂, rfl, hpre, hst, _⟩ := hr.mem ho
    obtain ⟨hfrom, hserial⟩ := served_announces hst hcu
    refine ⟨?_, hserial⟩
    obtain ⟨vs, hi⟩ := served_publishes.run (fun _ => taskHolds_start) hpre
    -- the value in force is the last of a list along which serials rise
    rcases hfrom with hold | rfl
    · obtain ⟨us, rfl⟩ := hi.last
      rcases List.mem_append.mp (hi.held cu hold) with hin | hin
      · exact ((rising_snoc.mp hi.rising).2 cu hin).le
      · rw [List.mem_singleton.mp hin]
        exact le_rfl
    · exact le_rfl
  · intro o ho o' ho' cu cu' hcu hcu' hserial
    exact served_publishes.agree (fun _ => taskHolds_start) hr ho ho' hcu hcu' hserial

/-- A connection is accepted, an update comes from loopback, and a second connection is accepted:
both are told a list, each with the serial it goes by. -/
def updatesEvents : List ServedEvent :=
  let addr : SocketAddr := ⟨.v4 ⟨9, 9, 9, 9⟩, 5000⟩
  let update (serial : Int) (server : String) : ServedEvent :=
    .datagram (.sample 0 1) ⟨.v4 ⟨127, 0, 0, 1⟩, 4000⟩ (some (.configureUpdate ⟨serial, [server]⟩))
  let ask (i : Nat) : ServedEvent := .read i (.message (.sample 0 1) (some (.testNatRequest 1)))
  [update 2 "old", .accept .listener addr none, update 3 "new", .accept .listener addr none,
    ask 0, ask 1, .datagram (.sample 0 1) addr (some (.registerPeer ⟨"123456", 2⟩))]

/-- The announcements of a run, in order. -/
def announced (h : List (Occ Served ServedEvent ServedOut)) : List ConfigUpdate :=
  h.flatMap fun o => o.out.messages.filterMap RendezvousMessage.update

theorem updates_agree_two : ∃ h st,
    Run (served Ext.sample "" (fun _ => "") false .sample) (.start .sample .empty) h st
      ∧ announced h = [⟨2, ["old"]⟩, ⟨3, ["new"]⟩, ⟨3, ["new"]⟩]
      ∧ ∀ o ∈ h, ∀ o' ∈ h, ∀ cu cu', Announces o.out cu → Announces o'.out cu' →
        cu.serial = cu'.serial → cu = cu' := by
  obtain ⟨h, st, hr, _, hp⟩ := @exists_run _ _ _
    (served Ext.sample "" (fun _ => "") false .sample) (.start .sample .empty) updatesEvents
    (fun h _ => decide (announced h = [⟨2, ["old"]⟩, ⟨3, ["new"]⟩, ⟨3, ["new"]⟩]))
    (by decide +kernel)
  exact ⟨h, st, hr, of_decide_eq_true hp, (updates_agree hr).2⟩

/-! ## A relay was listed -/

/-- The step spawned the task at this place. -/
def Spawns (x : Occ Served ServedEvent ServedOut) (i : Nat) : Prop :=
  x.pre.tasks.length = i ∧ x.post.tasks.length = i + 1

/-- Every task has the fields that were in force at the step that spawned it. -/
def TasksSpawned (h : List (Occ Served ServedEvent ServedOut)) (st : Served) : Prop :=
  ∀ (i : Nat) (t : Task), st.tasks[i]? = some (some t) →
    ∃ x ∈ h, Spawns x i ∧ t.clone = x.pre.loop.server.clone

theorem tasksSpawned_run {db : Table} {h : List (Occ Served ServedEvent ServedOut)} {st : Served}
    (hr : Run (served X key iso live cfg) (.start cfg db) h st) : TasksSpawned h st := by
  refine hr.inv (I := TasksSpawned) ?_ ?_
  · intro i t ht
    cases ht
  · intro h st e st' o hin hst i t ht
    rcases served_tasks hst ht with hold | ⟨hi, hlen, hclone⟩
    · obtain ⟨x, hx, hspawn⟩ := hin i t hold
      exact ⟨x, List.mem_append_left _ hx, hspawn⟩
    · refine ⟨⟨st, e, o, st'⟩, by simp, ⟨hi.symm, hlen⟩, hclone⟩

/-- Of `inner` only the serial ever changes. -/
def SameInner (cfg : Config) (c : Clone) : Prop := c.inner.unversioned = cfg.inner.unversioned

theorem handleUdp_inner (s : Server) (io : Io) (addr : SocketAddr)
    (msg : Option RendezvousMessage) :
    (handleUdp X key s io addr msg).1.inner.unversioned = s.inner.unversioned := by
  cases msg with
  | none => rfl
  | some m =>
      have hmove := @handleUdp_move X key s io addr (some m)
      cases m with
      | configureUpdate cu =>
          simp only [handleUdp]
          split <;> rfl
      | _ =>
          generalize (handleUdp X key s io addr _).1 = s' at hmove
          cases hmove <;> rfl

theorem sameInner_run {db : Table} {h : List (Occ Served ServedEvent ServedOut)} {st : Served}
    (hr : Run (served X key iso live cfg) (.start cfg db) h st) :
    SameInner cfg st.loop.server.clone := by
  have hstart : SameInner cfg (Served.start cfg db).loop.server.clone := rfl
  refine hr.keeps (Q := fun st => SameInner cfg st.loop.server.clone) ?_ hstart
  intro st e st' o hin hst
  refine Eq.trans ?_ hin
  cases served_step hst with
  | loop he hl =>
      obtain ⟨lists, hlists⟩ := ioLoop_own he hl
      dsimp only
      rw [hlists]
      rfl
  | @datagram io addr msg s out _ hudp =>
      have hs : s = (handleUdp X key st.loop.server io addr msg).1 := by rw [hudp]
      rw [hs]
      exact handleUdp_inner ..
  | punch => rfl
  | accept => rfl
  | @turn i _ _ r =>
      unfold Served.after
      dsimp only
      split <;> rfl
  | close => rfl

theorem sameInner_task {db : Table} {h : List (Occ Served ServedEvent ServedOut)} {st : Served}
    (hr : Run (served X key iso live cfg) (.start cfg db) h st) {i : Nat} {t : Task}
    (ht : st.tasks[i]? = some (some t)) : SameInner cfg t.clone := by
  obtain ⟨x, hx, _, hclone⟩ := tasksSpawned_run hr i t ht
  obtain ⟨_, _, _, hrx, _, _⟩ := hr.mem hx
  rw [hclone]
  exact sameInner_run hrx

theorem SameInner.localIp {c : Clone} (h : SameInner cfg c) :
    c.inner.localIp = cfg.inner.localIp := (congrArg Inner.localIp h : _)

/-- The relay was on the list: for the loop the list now in force, for a task the one that was
in force when it was spawned. -/
def WasListed (h : List (Occ Served ServedEvent ServedOut)) (st : Served) (r : String) :
    ServedEvent → Prop
  | .read i _ => ∃ x ∈ h, Spawns x i ∧ r ∈ x.pre.loop.server.relayServers
  | _ => r ∈ st.loop.server.relayServers

theorem said_relay {c : Clone} {msg : Option RendezvousMessage} {m : RendezvousMessage}
    {r : String} (h : Said c msg m) (hr : m.relay = some r) : MayName c msg r := by
  cases h with
  | plain _ hnone => rw [hnone] at hr; cases hr
  | update _ _ _ hnone => rw [hnone] at hr; cases hr
  | relay _ hsome hmay =>
      obtain rfl := Option.some.inj (hsome.symm.trans hr)
      exact hmay

/--
**A connection hands out the relays of the moment it was accepted**: whatever relay a message
names is none, the LAN's, the one that the peer named, or was on the list then.
-/
theorem relay_listed {db : Table} {h h₁ h₂ : List (Occ Served ServedEvent ServedOut)}
    {st : Served} {o : Occ Served ServedEvent ServedOut}
    (hr : Run (served X key iso false cfg) (.start cfg db) h st) (hh : h = h₁ ++ o :: h₂) :
    ∀ m ∈ o.out.messages, ∀ r, m.relay = some r →
      r = "" ∨ r = cfg.inner.localIp ∨ WasListed h₁ o.pre r o.ev
        ∨ (incoming o.ev).bind RendezvousMessage.peerRelay = some r := by
  intro m hm r hrelay
  subst hh
  obtain ⟨hpre, hst, _⟩ := hr.at
  obtain ⟨c, hc, hsaid⟩ := served_said hst m hm
  have hmay := said_relay hsaid hrelay
  generalize o.ev = e at hc hmay ⊢
  cases e with
  | datagram io addr msg =>
      obtain rfl := Option.some.inj hc
      rw [← (sameInner_run hpre).localIp]
      exact hmay
  | read i input =>
      obtain ⟨t, ht, rfl⟩ := Option.map_eq_some_iff.mp hc
      have htask := Option.join_eq_some_iff.mp ht
      obtain ⟨x, hx, hspawn, hclone⟩ := tasksSpawned_run hpre i t htask
      rw [← (sameInner_task hpre htask).localIp]
      rcases hmay with hnone | hlocal | hlisted | hown
      · exact .inl hnone
      · exact .inr (.inl hlocal)
      · refine .inr (.inr (.inl ⟨x, hx, hspawn, ?_⟩))
        rw [show t.view false o.pre.loop.server = x.pre.loop.server.clone from hclone] at hlisted
        exact hlisted
      · exact .inr (.inr (.inr hown))
  | _ => cases hc

/-- A connection is accepted while two relays are listed. Then a check finds one of them only, and
the connection asks for a peer. -/
def relayEvents : List ServedEvent :=
  let asker : SocketAddr := ⟨.v4 ⟨9, 9, 9, 9⟩, 5000⟩
  let peer : SocketAddr := ⟨.v4 ⟨8, 8, 8, 8⟩, 6000⟩
  [.datagram (.sample 0 1) peer (some (.registerPk ⟨"123456", [1], [2]⟩)),
    .accept .listener asker none, .tick, .checked 0 ["relay-2"], .recv,
    .read 0 (.message (.sample 0 1) (some (.punchHoleRequest ⟨"123456", .other 1, ""⟩)))]

/-- The step names `relay-1`, which is not on the list and which no peer named. -/
def namesOldRelay (o : Occ Served ServedEvent ServedOut) : Bool :=
  o.out.messages.any (fun m => m.relay = some "relay-1")
    && decide ("relay-1" ∉ o.pre.loop.server.relayServers)
    && decide ((incoming o.ev).bind RendezvousMessage.peerRelay = none)

theorem relay_listed_before : ∃ h₁ o st,
    Run (served Ext.sample "" (fun _ => "") false twoRelays) (.start twoRelays .empty)
        (h₁ ++ [o]) st
      ∧ "relay-1" ∉ o.pre.loop.server.relayServers ∧ WasListed h₁ o.pre "relay-1" o.ev := by
  obtain ⟨h, st, hr, _, hp⟩ := @exists_run _ _ _
    (served Ext.sample "" (fun _ => "") false twoRelays) (.start twoRelays .empty) relayEvents
    (fun h _ => h.getLast?.any namesOldRelay) (by decide +kernel)
  obtain ⟨o, ho, hnames⟩ := (Option.any_eq_true _ _).mp hp
  obtain ⟨h₁, rfl⟩ := List.getLast?_eq_some_iff.mp ho
  simp only [namesOldRelay, Bool.and_eq_true, List.any_eq_true, decide_eq_true_eq] at hnames
  obtain ⟨⟨⟨m, hm, hrelay⟩, hgone⟩, hown⟩ := hnames
  refine ⟨h₁, o, st, hr, hgone, ?_⟩
  rcases relay_listed hr rfl m hm _ hrelay with hnone | hlan | hlisted | htold
  · exact absurd hnone (by decide)
  · exact absurd hlan (by decide)
  · exact hlisted
  · rw [hown] at htold
    cases htold

end KinBridge.Proof
