import KinBridge.Hbbs.Command

/-!
# What a command changes

Each command word has a table of its own, and what is said with `relay-servers` reaches the
relay lists through the channel. `always-use-relay` puts its argument into the channel too,
where it is read as a list of relay servers: `Y` is no server, so the lists are emptied.
-/

namespace KinBridge.Proof

open KinBridge Runs

variable {X : Ext} {key : String} {iso : Nat → String} {cfg : Config} {s : Server}
  {now : Instant} {cmd : String}

/-- Every table that differs is one that the command names. -/
structure NamedOnly (cmd : String) (s s' : Server) : Prop where
  relayServers : s'.relayServers ≠ s.relayServers ∨ s'.relayServers0 ≠ s.relayServers0 →
    cmdWord cmd = some .relayServers ∧ cmdArgs cmd ≠ []
  alwaysUseRelay : s'.alwaysUseRelay ≠ s.alwaysUseRelay → cmdWord cmd = some .alwaysUseRelay
  punchReqs : s'.punchReqs ≠ s.punchReqs → cmdWord cmd = some .punchRequests
  ipBlocker : s'.ipBlocker ≠ s.ipBlocker → cmdWord cmd = some .ipBlocker
  ipChanges : s'.ipChanges ≠ s.ipChanges → cmdWord cmd = some .ipChanges

/-- The lists that the argument of `always-use-relay` stands for are those in force. -/
def ReadsBack (X : Ext) (s : Server) (cmd : String) : Prop :=
  cmdWord cmd = some .alwaysUseRelay → ∀ rs ∈ (cmdArgs cmd).head?,
    getServers X rs = s.relayServers ∧ getServers X rs = s.relayServers0

/-- What a command does before `io_loop` gets to hear of it. -/
inductive CmdMove (s : Server) : Option CmdWord → List String → Server → List Data → Prop where
  /-- It only answers, and `test-geo` takes its turn at the relays. -/
  | answered {w : Option CmdWord} {args : List String} {rotation : Nat} :
      (w = some .relayServers ∨ w = some .alwaysUseRelay → args = []) →
      CmdMove s w args { s with rotation := rotation } []
  | relayServers {rs : String} {args : List String} :
      CmdMove s (some .relayServers) (rs :: args) s [.relayServers0 rs]
  | alwaysUseRelay {rs : String} {args : List String} {b : Bool} :
      CmdMove s (some .alwaysUseRelay) (rs :: args) { s with alwaysUseRelay := b }
        [.relayServers0 rs]
  | ipBlocker {args : List String} {m : IpBlocker} :
      CmdMove s (some .ipBlocker) args { s with ipBlocker := m } []
  | ipChanges {args : List String} {m : IpChanges} :
      CmdMove s (some .ipChanges) args { s with ipChanges := m } []
  | punchRequests {args : List String} {reqs : List PunchReqEntry} :
      CmdMove s (some .punchRequests) args { s with punchReqs := reqs } []

theorem checkCmd_move : CmdMove s (cmdWord cmd) (cmdArgs cmd) (checkCmd iso s now cmd).server
    (checkCmd iso s now cmd).queued := by
  have hquiet : ∀ w args, (w = some .relayServers ∨ w = some .alwaysUseRelay → args = []) →
      CmdMove s w args s [] := fun w args h => @CmdMove.answered s w args s.rotation h
  unfold checkCmd
  dsimp only
  generalize cmdArgs cmd = args
  cases cmdWord cmd with
  | none => exact hquiet _ _ (by simp)
  | some w =>
      cases w with
      | h => exact hquiet _ _ (by simp)
      | relayServers =>
          cases args with
          | nil => exact hquiet _ _ (by simp)
          | cons rs args => exact .relayServers
      | alwaysUseRelay =>
          cases args with
          | nil => exact hquiet _ _ (by simp)
          | cons rs args => exact .alwaysUseRelay
      | ipBlocker => exact .ipBlocker
      | ipChanges => exact .ipChanges
      | punchRequests => exact .punchRequests
      | testGeo =>
          obtain ⟨rotation, hrot⟩ := getRelayServer_frame s
          have htested : CmdMove s (some .testGeo) args (getRelayServer s).1 [] :=
            hrot ▸ .answered (by simp)
          dsimp only
          unfold testGeoArm
          dsimp only
          split
          · exact hquiet _ _ (by simp)
          · split
            · exact htested
            · exact hquiet _ _ (by simp)
          · split
            · exact htested
            · exact hquiet _ _ (by simp)

theorem readsBack_of_word {w : Option CmdWord} (hw : cmdWord cmd = w)
    (hne : w ≠ some .alwaysUseRelay) : ReadsBack X s cmd := by
  intro haur
  exact absurd (hw.symm.trans haur) hne

theorem SameRelays.elim {s' : Server} {P : Prop} (h : SameRelays s s')
    (hne : s'.relayServers ≠ s.relayServers ∨ s'.relayServers0 ≠ s.relayServers0) : P :=
  hne.elim (absurd h.1) (absurd h.2)

theorem CmdMove.namedOnly_iff {s' : Server} {queued : List Data}
    (h : CmdMove s (cmdWord cmd) (cmdArgs cmd) s' queued) :
    NamedOnly cmd s (queued.foldl (handleData X) s') ↔ ReadsBack X s cmd := by
  generalize hw : cmdWord cmd = w at h
  generalize hargs : cmdArgs cmd = args at h
  cases h with
  | answered hnil =>
      have hback : ReadsBack X s cmd := by
        intro haur rs hrs
        rw [hargs, hnil (.inr (hw.symm.trans haur))] at hrs
        cases hrs
      refine iff_of_true ⟨SameRelays.elim ⟨rfl, rfl⟩, ?_, ?_, ?_, ?_⟩ hback
      all_goals exact fun h => absurd rfl h
  | relayServers =>
      refine iff_of_true ⟨fun _ => ⟨hw, ?_⟩, ?_, ?_, ?_, ?_⟩ (readsBack_of_word hw (by decide))
      · rw [hargs]
        exact List.cons_ne_nil _ _
      all_goals exact fun h => absurd rfl h
  | @alwaysUseRelay rs args b =>
      constructor
      · intro h haur rs' hrs'
        rw [hargs] at hrs'
        obtain rfl := Option.some.inj hrs'
        by_contra hdiff
        rw [not_and_or] at hdiff
        obtain ⟨hrelay, _⟩ := h.relayServers hdiff
        cases hw.symm.trans hrelay
      · intro hback
        obtain ⟨hrs, hrs0⟩ := hback hw rs (by rw [hargs]; rfl)
        refine ⟨SameRelays.elim ⟨hrs, hrs0⟩, fun _ => hw, ?_, ?_, ?_⟩
        all_goals exact fun h => absurd rfl h
  | ipBlocker =>
      refine iff_of_true ⟨SameRelays.elim ⟨rfl, rfl⟩, ?_, ?_, fun _ => hw, ?_⟩
        (readsBack_of_word hw (by decide))
      all_goals exact fun h => absurd rfl h
  | ipChanges =>
      refine iff_of_true ⟨SameRelays.elim ⟨rfl, rfl⟩, ?_, ?_, ?_, fun _ => hw⟩
        (readsBack_of_word hw (by decide))
      all_goals exact fun h => absurd rfl h
  | punchRequests =>
      refine iff_of_true ⟨SameRelays.elim ⟨rfl, rfl⟩, ?_, fun _ => hw, ?_, ?_⟩
        (readsBack_of_word hw (by decide))
      all_goals exact fun h => absurd rfl h

/-- **A command changes only what it names**, exactly if it is not an `always-use-relay` whose
argument, read as a list of servers, is another than the lists in force. -/
theorem named_only_iff : NamedOnly cmd s (runCmd X iso s now cmd) ↔ ReadsBack X s cmd := by
  have hmove := @checkCmd_move iso s now cmd
  rw [runCmd]
  exact hmove.namedOnly_iff

/-- An outside in which the one relay server's name resolves and nothing else does. -/
def oneRelay : Ext := { Ext.sample with validServer := fun x => x = "relay-1" }

/-- A server that hands out that relay. -/
def relayServer : Server :=
  Server.start { Config.sample with relayServers := ["relay-1"] } .empty

/-- `always-use-relay Y` leaves a server without relays. -/
theorem relays_emptied :
    (runCmd oneRelay (fun _ => "") relayServer 0 "always-use-relay Y").relayServers = []
      ∧ ¬ NamedOnly "always-use-relay Y" relayServer
        (runCmd oneRelay (fun _ => "") relayServer 0 "always-use-relay Y") := by
  refine ⟨by decide +kernel, fun h => ?_⟩
  have hword := (h.relayServers (.inl (by decide +kernel))).1
  exact absurd hword (by decide +kernel)

/-! ## In `io_loop` -/

/-- As many turns as there are items in the channel. -/
theorem recv_run (l : IoLoop) : ∃ h, Run (admin X key iso cfg) l h
      { l with server := l.queue.foldl (handleData X) l.server, queue := [] }
    ∧ h.map Occ.ev = l.queue.map fun _ => .loop .recv := by
  generalize hq : l.queue = queue
  induction queue generalizing l with
  | nil =>
      obtain ⟨server, checks, queue⟩ := l
      obtain rfl : queue = [] := hq
      exact ⟨[], Run.nil, rfl⟩
  | cons d queue ih =>
      have hrecv : admin X key iso cfg l (.loop .recv)
          = some ({ l with server := handleData X l.server d, queue := queue }, none) := by
        simp only [admin, ioLoop, hq, Option.map_some]
      obtain ⟨h, hr, hev⟩ := ih { l with server := handleData X l.server d, queue := queue } rfl
      refine ⟨_, (Run.nil.snoc hrecv).trans hr, ?_⟩
      rw [List.map_append, hev]
      rfl

/-- `runCmd` is where `io_loop` comes to after a command, if its channel was empty. -/
theorem runCmd_run {l : IoLoop} (hq : l.queue = []) :
    ∃ h, Run (admin X key iso cfg) l h { l with server := runCmd X iso l.server now cmd }
      ∧ h.map Occ.ev = .command now cmd
        :: (checkCmd iso l.server now cmd).queued.map fun _ => .loop .recv := by
  obtain ⟨server, checks, queue⟩ := l
  obtain rfl : queue = [] := hq
  dsimp only [runCmd]
  have hcmd : admin X key iso cfg ⟨server, checks, []⟩ (.command now cmd)
      = some (IoLoop.answer ⟨server, checks, []⟩ (checkCmd iso server now cmd)) := by
    rw [admin]
  generalize checkCmd iso server now cmd = out at hcmd ⊢
  rw [IoLoop.answer, List.nil_append] at hcmd
  obtain ⟨h, hr, hev⟩ := @recv_run X key iso cfg ⟨out.server, checks, out.queued⟩
  exact ⟨_, (Run.nil.snoc hcmd).trans hr, by rw [List.map_append, hev]; rfl⟩

/-! ## The blocker of `hbbs` -/

/-- What a step tells the blocker. -/
def blockerEventOf : AdminEvent → Option BlockerEvent
  | .loop (.handle e) => (blockerCallOf e).map .call
  | .loop _ => none
  | .command now cmd =>
    if cmdWord cmd = some .ipBlocker then
      some (.command now (ipBlockerQuery (cmdArgs cmd)).removed)
    else none

theorem checkCmd_ipBlocker : Follows blockerStep s.ipBlocker
    (checkCmd iso s now cmd).server.ipBlocker (blockerEventOf (.command now cmd)) := by
  unfold blockerEventOf
  dsimp only
  by_cases hw : cmdWord cmd = some .ipBlocker
  · rw [if_pos hw]
    unfold checkCmd
    rw [hw]
    dsimp only
    rw [ipBlockerArm_fst]
    exact ⟨none, rfl⟩
  · have hmove := @checkCmd_move iso s now cmd
    rw [if_neg hw]
    generalize checkCmd iso s now cmd = out at hmove ⊢
    obtain ⟨s', res, queued⟩ := out
    generalize cmdWord cmd = w at hmove hw
    generalize cmdArgs cmd = args at hmove
    cases hmove with
    | ipBlocker => exact absurd rfl hw
    | _ => rfl

theorem admin_blocker {l l' : IoLoop} {e : AdminEvent} {o : Option String}
    (hst : admin X key iso cfg l e = some (l', o)) :
    Follows blockerStep l.server.ipBlocker l'.server.ipBlocker (blockerEventOf e) := by
  have hmove := admin_move hst
  generalize l'.server = s' at hmove ⊢
  cases hmove with
  | @message e s' out hne hb =>
      rw [hbbs_ipBlocker hne hb, blockerEventOf]
      cases blockerCallOf e with
      | none => rfl
      | some c => exact ⟨_, rfl⟩
  | @data d => cases d <;> rfl
  | @quiet e hne =>
      cases e with
      | handle e' => exact absurd rfl (hne e')
      | _ => rfl
  | @command now cmd out hout =>
      rw [← hout]
      exact checkCmd_ipBlocker

/-- **Calls and commands are all that `hbbs` does to the blocker**: what holds of every run of
`blockerStep` holds of `IP_BLOCKER`. -/
theorem admin_blocker_run {l₀ l : IoLoop} {h : List (Occ IoLoop AdminEvent (Option String))}
    (hr : Run (admin X key iso cfg) l₀ h l) :
    ∃ g, Run blockerStep l₀.server.ipBlocker g l.server.ipBlocker
      ∧ g.map Occ.ev = h.filterMap fun o => blockerEventOf o.ev := by
  have hpart := hr.part (fun l => l.server.ipBlocker) fun _ _ _ _ hst => admin_blocker hst
  exact hpart

end KinBridge.Proof
