import KinBridge.Lib.Refine
import KinBridge.Hbbs.Revised
import KinBridge.Proof.Commands
import KinBridge.Proof.Served

/-!
# Old clones do no other harm

Next to the server as it is, with its clones, we set one that lends every task its fields as
they are now. The two take the same steps. What they keep is the same up to the turn at the
relays, and what they send is the same up to the relays and the announcements in it.

The second one is the machine of the commands and messages, with nothing between a message
and the server's state. So what is shown of that machine holds of the server as it is, except
where relays and announcements are concerned. In both, the tasks take turns: a lookup that
another one overtakes is in neither (see `KinBridge.Store.Handles`).
-/

namespace KinBridge.Proof

open KinBridge Runs

variable {X : Ext} {key : String} {iso : Nat → String} {cfg : Config}

/-- The same but for the turn at the relays, and for the relays that queued messages name. -/
structure LoopBeside (l l' : IoLoop) : Prop where
  server : ∃ n, l'.server = l.server.turned n
  checks : l'.checks = l.checks
  queue : l'.queue.map Data.plain = l.queue.map Data.plain

structure Beside (st st' : Served) : Prop where
  loop : LoopBeside st.loop st'.loop
  tasks : st'.tasks = st.tasks

/-- The same but for relays, and on a connection for what is announced. -/
def OutBeside : ServedOut → ServedOut → Prop
  | .udp o, .udp o' => o.Alike o'
  | .task o, .task o' => o.Alike o'
  | o, o' => o' = o

/-! ## The loop's own turns -/

theorem handleData_turned {s : Server} {n : Nat} {d d' : Data} (h : d'.plain = d.plain) :
    ∃ m, handleData X (s.turned n) d' = (handleData X s d).turned m := by
  cases d with
  | msg m addr =>
      cases d' with
      | msg m' addr' => exact ⟨n, rfl⟩
      | relayServers0 rs => cases h
      | relayServers rs => cases h
  | relayServers0 rs =>
      cases d' with
      | msg m' addr' => cases h
      | relayServers0 rs' => cases h; exact ⟨n, rfl⟩
      | relayServers rs' => cases h
  | relayServers rs =>
      cases d' with
      | msg m' addr' => cases h
      | relayServers0 rs' => cases h
      | relayServers rs' => cases h; exact ⟨n, rfl⟩

theorem ioLoop_beside {l l' t : IoLoop} {e : ServedEvent} {e' : LoopEvent}
    (he : e.loopEvent = some e') (hrel : LoopBeside l l')
    (hst : ioLoop X key cfg l e' = some (t, ())) :
    ∃ t', ioLoop X key cfg l' e' = some (t', ()) ∧ LoopBeside t t' := by
  obtain ⟨⟨n, hs⟩, hchecks, hq⟩ := hrel
  have hlist : l'.server.relayServers0 = l.server.relayServers0 := by rw [hs]; rfl
  cases e with
  | tick =>
      obtain rfl := Option.some.inj he
      simp only [ioLoop, hlist, hchecks] at hst ⊢
      split at hst
      · rename_i hlong
        cases hst
        exact ⟨_, if_pos hlong, ⟨n, hs⟩, rfl, hq⟩
      · rename_i hlong
        cases hst
        exact ⟨_, if_neg hlong, ⟨n, hs⟩, hchecks, hq⟩
  | checked i rs =>
      obtain rfl := Option.some.inj he
      simp only [ioLoop, hchecks] at hst ⊢
      cases hi : l.checks[i]? with
      | none => rw [hi] at hst; cases hst
      | some rs0 =>
          rw [hi] at hst
          dsimp only at hst ⊢
          split at hst
          · rename_i hsub
            rw [if_pos hsub]
            split at hst
            · rename_i hnil
              cases hst
              exact ⟨_, if_pos hnil, ⟨n, hs⟩, rfl, hq⟩
            · rename_i hnil
              cases hst
              refine ⟨_, if_neg hnil, ⟨n, hs⟩, rfl, ?_⟩
              rw [List.map_append, List.map_append, hq]
          · cases hst
  | recv =>
      obtain rfl := Option.some.inj he
      cases hlq : l.queue with
      | nil => rw [ioLoop, hlq] at hst; cases hst
      | cons d queue =>
          rw [ioLoop, hlq] at hst
          cases hst
          rw [hlq] at hq
          obtain ⟨d', queue', hlq', hd, hrest⟩ := List.map_eq_cons_iff.mp hq
          obtain ⟨m, hm⟩ := @handleData_turned X l.server n _ _ hd
          refine ⟨⟨handleData X l'.server d', l'.checks, queue'⟩, ?_, ⟨m, ?_⟩, hchecks, hrest⟩
          · rw [ioLoop, hlq']
          · rw [hs]
            exact hm
  | _ => cases he

/-! ## Messages and tasks -/

theorem spawnedPunch_turned {s : Server} {n : Nat} {msg : Option RendezvousMessage} :
    spawnedPunch (s.turned n) msg = spawnedPunch s msg := rfl

/-- Another task of the same kind, with the fields of either server. -/
theorem Beside.spawn {st st' : Served} (h : Beside st st') (kind : TaskKind) :
    Beside (st.spawn kind) (st'.spawn kind) := by
  obtain ⟨n, hs⟩ := h.loop.server
  refine ⟨h.loop, ?_⟩
  show st'.tasks ++ [some ⟨st'.loop.server.clone, kind⟩] = _
  rw [h.tasks, hs, turned_clone]
  rfl

/-- A clone of this configuration is the server with other lists. -/
theorem on_eq_revise {s : Server} {c : Clone} (hs : SameInner cfg s.clone)
    (hc : SameInner cfg c) : s.on c = s.revise ⟨c.relayServers, c.relayServers0, s.rotation,
      c.rendezvousServers, c.inner.serial⟩ := by
  have hinner : c.inner = { s.inner with serial := c.inner.serial } := by
    have hsame : c.inner.unversioned = s.inner.unversioned := hc.trans hs.symm
    calc c.inner = { c.inner.unversioned with serial := c.inner.serial } := rfl
      _ = { s.inner.unversioned with serial := c.inner.serial } := by rw [hsame]
      _ = _ := rfl
  unfold Server.on Server.revise
  rw [← hinner]

/-- A task's turn from its clone, and the same turn with the fields in force. -/
theorem turn_live {s : Server} {c : Clone} {n : Nat} {kind : TaskKind} {input : TaskInput}
    {r : TaskTurn} (hs : SameInner cfg s.clone) (hc : SameInner cfg c)
    (h : kind.turn X key iso (s.on c) input = some r) :
    ∃ r', kind.turn X key iso (s.turned n) input = some r'
      ∧ (∃ m, r'.server.on s.clone = (r.server.on s.clone).turned m)
      ∧ r'.queued.map Data.plain = r.queued.map Data.plain ∧ r.out.Alike r'.out
      ∧ r'.keep = r.keep := by
  rw [on_eq_revise hs hc] at h
  obtain ⟨r', hr', hrel⟩ := turn_revise (v := s.revision.turned n) h
  rw [revise_revise, ← turned_eq] at hr'
  obtain ⟨m, hm⟩ := hrel.server
  exact ⟨r', hr', ⟨m, by rw [hm]; rfl⟩, hrel.queued, hrel.out, hrel.keep⟩

/-- Every step has one beside it. -/
theorem beside_step {db : Table} {h : List (Occ Served ServedEvent ServedOut)}
    {st st' t : Served} {e : ServedEvent} {o : ServedOut}
    (hr : Run (served X key iso false cfg) (.start cfg db) h st) (hrel : Beside st st')
    (hst : served X key iso false cfg st e = some (t, o)) :
    ∃ t' o', served X key iso true cfg st' e = some (t', o') ∧ Beside t t'
      ∧ OutBeside o o' := by
  obtain ⟨n, hs⟩ := hrel.loop.server
  cases served_step hst with
  | @loop e e' l he hl =>
      obtain ⟨l', hl', hbeside⟩ := ioLoop_beside he hrel.loop hl
      refine ⟨{ st' with loop := l' }, .silent, ?_, ⟨hbeside, hrel.tasks⟩, rfl⟩
      cases e with
      | tick => cases he; rw [served, hl']; rfl
      | checked i rs => cases he; rw [served, hl']; rfl
      | recv => cases he; rw [served, hl']; rfl
      | _ => cases he
  | @datagram io addr msg s out hnone hudp =>
      obtain ⟨⟨m, hserver⟩, hout⟩ := @handleUdp_turned X key st.loop.server n io addr msg
      rw [hudp] at hserver hout
      generalize hu : handleUdp X key (st.loop.server.turned n) io addr msg = u at hserver hout
      refine ⟨{ st' with
        loop := { st'.loop with
          server := u.1
          queue := st'.loop.queue ++ (Out.udp u.2).queued } }, .udp u.2, ?_, ?_, hout⟩
      · rw [served, hs, spawnedPunch_turned, hnone, hu]
      · refine ⟨⟨⟨m, hserver⟩, hrel.loop.checks, ?_⟩, hrel.tasks⟩
        dsimp only
        rw [List.map_append, List.map_append, hrel.loop.queue, hout.queued]
  | @punch io addr msg ph hsome =>
      refine ⟨_, .silent, ?_, hrel.spawn (.punch addr ph), rfl⟩
      rw [served, hs, spawnedPunch_turned, hsome]
  | @accept l addr headers => exact ⟨_, .silent, rfl, hrel.spawn _, rfl⟩
  | @turn i input t r ht hturn =>
      obtain ⟨r', hr', ⟨m, hserver⟩, hqueued, hout, hkeep⟩ :=
        turn_live (n := n) (sameInner_run hr) (sameInner_task hr ht) hturn
      refine ⟨st'.after i r', .task r'.out, ?_, ?_, hout⟩
      · rw [served, hrel.tasks, ht, hs]
        show ((t.kind.turn X key iso (st.loop.server.turned n) input).map _) = _
        rw [hr']
        rfl
      · have hloop : LoopBeside
            { st.loop with
              server := r.server.on st.loop.server.clone
              queue := st.loop.queue ++ r.queued }
            { st'.loop with
              server := r'.server.on st'.loop.server.clone
              queue := st'.loop.queue ++ r'.queued } := by
          refine ⟨⟨m, ?_⟩, hrel.loop.checks, ?_⟩
          · rw [hs, turned_clone]
            exact hserver
          · dsimp only
            rw [List.map_append, List.map_append, hrel.loop.queue, hqueued]
        unfold Served.after
        dsimp only
        rw [hkeep]
        split
        · exact ⟨hloop, hrel.tasks⟩
        · exact ⟨hloop, by simp only [Served.finish, hrel.tasks]⟩
  | @close i t ht =>
      refine ⟨st'.finish i, .silent, ?_, ⟨hrel.loop, ?_⟩, rfl⟩
      · rw [served, hrel.tasks, ht]
      · simp only [Served.finish, hrel.tasks]

theorem beside_start (cfg : Config) (db : Table) : Beside (.start cfg db) (.start cfg db) :=
  ⟨⟨⟨0, rfl⟩, rfl, rfl⟩, rfl⟩

/--
**Serving from old clones changes relays and announcements and nothing else**: beside every run
there is one on the same events in which every task works with the fields in force. Step by step
the two keep the same up to the turn at the relays, and send the same up to the relays and, on
connections, the `ConfigUpdate`s in it.
-/
theorem served_beside {db : Table} {h : List (Occ Served ServedEvent ServedOut)} {st : Served}
    (hr : Run (served X key iso false cfg) (.start cfg db) h st) :
    ∃ h' st', Run (served X key iso true cfg) (.start cfg db) h' st' ∧ Beside st st'
      ∧ List.Forall₂ (fun o o' => o'.ev = o.ev ∧ Beside o.pre o'.pre ∧ Beside o.post o'.post
        ∧ OutBeside o.out o'.out) h h' :=
  hr.beside (beside_start cfg db) fun _ _ _ _ _ _ hrun hrel hst => beside_step hrun hrel hst

/-- A connection that names a relay taken off the list, and one beside it that does not. -/
theorem served_beside_relay : ∃ h st h' st',
    Run (served Ext.sample "" (fun _ => "") false twoRelays) (.start twoRelays .empty) h st
      ∧ (h.getLast?.any namesOldRelay) = true
      ∧ Run (served Ext.sample "" (fun _ => "") true twoRelays) (.start twoRelays .empty) h' st'
      ∧ Beside st st' := by
  obtain ⟨h, st, hr, _, hp⟩ := @exists_run _ _ _
    (served Ext.sample "" (fun _ => "") false twoRelays) (.start twoRelays .empty) relayEvents
    (fun h _ => h.getLast?.any namesOldRelay) (by decide +kernel)
  obtain ⟨h', st', hr', hbeside, _⟩ := served_beside hr
  exact ⟨h, st, h', st', hr, hp, hr', hbeside⟩

/-! ## The machine of messages and commands -/

/-- What a task's turn is to that machine. -/
def taskEvent : TaskKind → TaskInput → Option AdminEvent
  | .tcp addr ws, .message io msg => some (.loop (.handle (.tcp io addr ws msg)))
  | .command, .command now conn => conn.command.map fun data => .command now data
  | .punch addr ph, .lookup io =>
    some (.loop (.handle (.udp io addr (some (.punchHoleRequest ph)))))
  | _, _ => none

/-- What a step is to that machine. A datagram whose punch-hole request waits for a lookup is
handled when its task is. -/
def adminEvent (st : Served) : ServedEvent → Option AdminEvent
  | .datagram io addr msg =>
    match spawnedPunch st.loop.server msg with
    | some _ => none
    | none => some (.loop (.handle (.udp io addr msg)))
  | .read i input => (st.tasks[i]?.join).bind fun t => taskEvent t.kind input
  | e => e.loopEvent.map .loop

theorem on_self {s s' : Server} (h : s'.clone = s.clone) : s'.on s.clone = s' := by
  rw [← h]
  rfl

theorem handleTcp_clone (s : Server) (io : DbIo) (addr : SocketAddr) (ws : Bool)
    (msg : Option RendezvousMessage) : (handleTcp X key s io addr ws msg).1.clone = s.clone := by
  have hmove := @handleTcp_move X key s io addr ws msg
  rcases msg with _ | m
  · rfl
  · cases m with
    | configureUpdate => rfl
    | _ =>
        generalize (handleTcp X key s io addr ws _).1 = s' at hmove
        cases hmove <;> rfl

theorem checkCmd_clone (s : Server) (now : Instant) (cmd : String) :
    (checkCmd iso s now cmd).server.clone = s.clone := by
  have hmove := @checkCmd_move iso s now cmd
  generalize (checkCmd iso s now cmd).server = s' at hmove
  generalize (checkCmd iso s now cmd).queued = queued at hmove
  generalize cmdWord cmd = w at hmove
  generalize cmdArgs cmd = args at hmove
  cases hmove <;> rfl

theorem after_loop (st : Served) (i : Nat) (r : TaskTurn) : (st.after i r).loop =
    { st.loop with
      server := r.server.on st.loop.server.clone
      queue := st.loop.queue ++ r.queued } := by
  unfold Served.after
  dsimp only
  split <;> rfl

/-- A turn with the fields in force is a step of that machine. -/
theorem turn_follows {l l' : IoLoop} {kind : TaskKind} {input : TaskInput} {r : TaskTurn}
    (h : kind.turn X key iso l.server input = some r)
    (hl : l' = { l with server := r.server.on l.server.clone, queue := l.queue ++ r.queued }) :
    Follows (admin X key iso cfg) l l' (taskEvent kind input) := by
  subst hl
  have hquiet : { l with server := l.server.on l.server.clone, queue := l.queue ++ [] } = l := by
    rw [on_self rfl, List.append_nil]
  unfold TaskKind.turn at h
  split at h
  · rename_i addr ws io msg
    have hclone := @handleTcp_clone X key l.server io.toDbIo addr ws msg
    generalize hq : handleTcp X key l.server io.toDbIo addr ws msg = q at h hclone
    obtain rfl := Option.some.inj h
    refine ⟨none, ?_⟩
    simp only [admin, ioLoop, hbbs, hq]
    rw [on_self hclone]
    rfl
  · -- neither answer of the NAT test touches the server
    split at h <;> obtain rfl := Option.some.inj h <;> exact hquiet
  · rename_i now conn
    unfold handleLoopback LoopbackConn.execute at h
    cases hcmd : conn.command with
    | none =>
        rw [hcmd] at h
        obtain rfl := Option.some.inj h
        simp only [taskEvent, hcmd, Option.map_none]
        exact hquiet
    | some data =>
        rw [hcmd] at h
        obtain rfl := Option.some.inj h
        simp only [taskEvent, hcmd, Option.map_some]
        refine ⟨some (checkCmd iso l.server now data).res, ?_⟩
        rw [on_self (checkCmd_clone l.server now data)]
        rfl
  · rename_i addr ph io
    obtain ⟨pm, rotation, reqs, hframe⟩ :=
      handlePunchHoleRequest_frame (X := X) key l.server io.toDbIo addr ph false
    refine ⟨none, ?_⟩
    simp only [admin, ioLoop, hbbs, handleUdp]
    generalize handlePunchHoleRequest X key l.server io.toDbIo addr ph false = q at h hframe ⊢
    obtain rfl := Option.some.inj h
    dsimp only
    rw [hframe]
    rfl
  · cases h

theorem live_follows {st st' : Served} {e : ServedEvent} {o : ServedOut}
    (hst : served X key iso true cfg st e = some (st', o)) :
    Follows (admin X key iso cfg) st.loop st'.loop (adminEvent st e) := by
  cases served_step hst with
  | @loop e e' l he hl =>
      have hevent : adminEvent st e = some (.loop e') := by
        cases e with
        | tick => cases he; rfl
        | checked i rs => cases he; rfl
        | recv => cases he; rfl
        | _ => cases he
      rw [hevent]
      exact ⟨none, by rw [admin, hl]; rfl⟩
  | @datagram io addr msg s out hnone hudp =>
      simp only [adminEvent, hnone]
      refine ⟨none, ?_⟩
      simp only [admin, ioLoop, hbbs, hudp]
      rfl
  | punch hsome =>
      simp only [adminEvent, hsome]
      exact rfl
  | accept => exact rfl
  | @turn i input t r ht hturn =>
      simp only [adminEvent, ht, Option.join_some, Option.bind_some]
      exact turn_follows hturn (after_loop st i r)
  | close => exact rfl

theorem adminEvent_beside {st st' : Served} (h : Beside st st') (e : ServedEvent) :
    adminEvent st' e = adminEvent st e := by
  obtain ⟨n, hs⟩ := h.loop.server
  cases e with
  | datagram => simp only [adminEvent, hs, spawnedPunch_turned]
  | read => simp only [adminEvent, h.tasks]
  | _ => rfl

/--
**What is shown of messages and commands one by one holds of the server with its tasks**, up to
relays and announcements, as long as no two of them overlap: beside every run in which messages,
commands and lookups are handled one after another there is one of `admin`, in which each message
is handled by the server as it is then.
-/
theorem served_refines {db : Table} {h : List (Occ Served ServedEvent ServedOut)} {st : Served}
    (hr : Run (served X key iso false cfg) (.start cfg db) h st) :
    ∃ g l, Run (admin X key iso cfg) (.start cfg db) g l ∧ LoopBeside st.loop l
      ∧ g.map Occ.ev = h.filterMap fun o => adminEvent o.pre o.ev := by
  obtain ⟨h', st', hr', hbeside, hall⟩ := served_beside hr
  obtain ⟨g, hg, hev⟩ : ∃ g, Run (admin X key iso cfg) (.start cfg db) g st'.loop
      ∧ g.map Occ.ev = h'.filterMap fun o => adminEvent o.pre o.ev :=
    hr'.part Served.loop fun _ _ _ _ hst => live_follows hst
  refine ⟨g, st'.loop, hg, hbeside.loop, hev.trans ?_⟩
  clear hr hr' hbeside hg hev
  induction hall with
  | nil => rfl
  | @cons o o' h h' hhead _ ih =>
      obtain ⟨hev, hpre, _, _⟩ := hhead
      rw [List.filterMap_cons, List.filterMap_cons, hev, adminEvent_beside hpre, ih]

/-- Of six steps the one that accepts is none of that machine's. -/
theorem served_refines_relay : ∃ h st g l,
    Run (served Ext.sample "" (fun _ => "") false twoRelays) (.start twoRelays .empty) h st
      ∧ Run (admin Ext.sample "" (fun _ => "") twoRelays) (.start twoRelays .empty) g l
      ∧ h.length = 6 ∧ g.length = 5 ∧ LoopBeside st.loop l := by
  obtain ⟨h, st, hr, hev, hp⟩ := @exists_run _ _ _
    (served Ext.sample "" (fun _ => "") false twoRelays) (.start twoRelays .empty) relayEvents
    (fun h _ => decide ((h.filterMap fun o => adminEvent o.pre o.ev).length = 5))
    (by decide +kernel)
  obtain ⟨g, l, hg, hbeside, hgev⟩ := served_refines hr
  have hlen : (h.map Occ.ev).length = 6 := by
    rw [hev]
    rfl
  have hglen : (g.map Occ.ev).length = 5 := by
    rw [hgev]
    exact of_decide_eq_true hp
  rw [List.length_map] at hlen hglen
  exact ⟨h, st, g, l, hr, hg, hlen, hglen, hbeside⟩

end KinBridge.Proof
