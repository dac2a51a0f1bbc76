import KinBridge.Hbbr.World
import KinBridge.Hbbs.Server

/-!
# Who the lists reach

A client is tested against `BLOCKLIST` when it connects, and while it relays, once a second,
against `BLOCKLIST` and `BLACKLIST`. Two things keep the second test from covering what the
first does.

The two texts differ: the first is that of the plain form of the address, the second that of
the address itself. For a client behind an IPv4-mapped address they are never the same.

And a relay has two ends, but `relay` is given one address, that of the client that came
second. The one that waited in `PEERS` is not tested again.
-/

namespace KinBridge.Hbbr

open KinBridge Runs Slots

/-! ## One check -/

/-- The turn gets past its `select!`, and a second has passed since the last check. -/
def PeriodicCheck (l : Loop) (t : Turn) : Prop :=
  (relaySelect l t).2.2 = none ∧ 1000 ≤ l.sinceCheck t

/-- After this check the relay is slowed down for its volume, now or since earlier. -/
def Downgraded (l : Loop) (t : Turn) : Bool :=
  l.downgrade ||
    { (relaySelect l t).1 with elapsed := l.elapsed + l.sinceCheck t }.exceeds t.startCheck

theorem relaySelect_keeps (l : Loop) (t : Turn) :
    (relaySelect l t).1.ip = l.ip ∧ (relaySelect l t).1.tm = l.tm
      ∧ (relaySelect l t).1.downgrade = l.downgrade ∧ (relaySelect l t).1.elapsed = l.elapsed := by
  unfold relaySelect
  split
  · split
    · dsimp only
      split <;> exact ⟨rfl, rfl, rfl, rfl⟩
    · exact ⟨rfl, rfl, rfl, rfl⟩
    · exact ⟨rfl, rfl, rfl, rfl⟩
  · exact ⟨rfl, rfl, rfl, rfl⟩

theorem relayCheck_ip (l : Loop) (t : Turn) : (relayCheck l t).1.ip = l.ip := by
  unfold relayCheck
  dsimp only
  split
  · rfl
  · split <;> rfl

theorem relayTurn_ip (l : Loop) (t : Turn) : (relayTurn l t).1.ip = l.ip := by
  have hsel := (relaySelect_keeps l t).1
  unfold relayTurn
  generalize relaySelect l t = sel at hsel ⊢
  obtain ⟨l₁, acts, why⟩ := sel
  cases why with
  | some why => exact hsel
  | none => exact (relayCheck_ip l₁ t).trans hsel

/-- **A check** ends the relay exactly if its address text is blocklisted, and otherwise notes
whether it is blacklisted. -/
theorem relayTurn_check {l : Loop} {t : Turn} (h : PeriodicCheck l t) :
    ((relayTurn l t).2.2 = if l.ip ∈ t.lists.blocklist then some .blocked else none)
      ∧ (l.ip ∉ t.lists.blocklist → (relayTurn l t).1.blacked = decide (l.ip ∈ t.lists.blacklist)
        ∧ (relayTurn l t).1.downgrade = Downgraded l t) := by
  obtain ⟨hgo, hdue⟩ := h
  obtain ⟨hip, htm, hdown, helapsed⟩ := relaySelect_keeps l t
  have hsince : (relaySelect l t).1.sinceCheck t = l.sinceCheck t := by
    rw [Loop.sinceCheck, htm]
    rfl
  unfold relayTurn Downgraded
  generalize relaySelect l t = sel at hgo hip hdown helapsed hsince ⊢
  obtain ⟨l₁, acts, why⟩ := sel
  dsimp only at hgo hip hdown helapsed hsince ⊢
  subst hgo
  dsimp only
  unfold relayCheck
  dsimp only
  rw [hsince, if_neg (Nat.not_lt.mpr hdue), hip, hdown, helapsed]
  by_cases hblock : l.ip ∈ t.lists.blocklist
  · rw [if_pos hblock, if_pos hblock]
    exact ⟨rfl, fun hno => absurd hblock hno⟩
  · rw [if_neg hblock, if_neg hblock]
    exact ⟨rfl, fun _ => ⟨rfl, rfl⟩⟩

/-- The address text of a relay stays. -/
theorem relay_ip {l₀ l : Loop} {h : List (Occ RelayState Turn (List RelayAct))}
    (hr : Run relay (.running l₀) h (.running l)) : l.ip = l₀.ip := by
  have hkeep : ∀ s t s' acts, (∀ l, s = .running l → l.ip = l₀.ip) →
      relay s t = some (s', acts) → ∀ l, s' = .running l → l.ip = l₀.ip := by
    intro s t s' acts hs hst l' hl'
    cases s with
    | stopped why => cases hst
    | running l =>
        have hip := relayTurn_ip l t
        simp only [relay] at hst
        generalize relayTurn l t = r at hip hst
        obtain ⟨l₁, acts₁, why⟩ := r
        cases why with
        | some why =>
            obtain ⟨rfl, _⟩ := Prod.mk.inj (Option.some.inj hst)
            cases hl'
        | none =>
            obtain ⟨rfl, _⟩ := Prod.mk.inj (Option.some.inj hst)
            obtain rfl := RelayState.running.inj hl'
            exact hip.trans (hs l rfl)
  refine hr.keeps (Q := fun s => ∀ l, s = .running l → l.ip = l₀.ip) ?_ ?_ l rfl
  · intro s t s' acts hs hst
    exact hkeep s t s' acts hs hst
  · intro l hl
    rw [RelayState.running.inj hl]

/-! ## The two texts -/

variable {X : AddrOps} {key : String}

/--
In every relay run for a direct TCP client at this address, if such a client gets in at all, a
periodic check ends the relay exactly if the client would be refused at the door with the same
list, and otherwise treats it as blacklisted exactly if the text tested at the door is.
-/
def ChecksAgree (X : AddrOps) (addr : SocketAddr) : Prop :=
  handleConnection X ⟨∅, ∅⟩ addr false = .spawned →
  ∀ threshold now h l t, Run relay (.running (.start addr threshold now)) h (.running l) →
    PeriodicCheck l t →
    ((relayTurn l t).2.2 = some .blocked ↔ handleConnection X t.lists addr false = .blocked)
      ∧ ((relayTurn l t).2.2 = none →
        ((relayTurn l t).1.blacked = true
          ↔ (X.tryIntoV4 addr).ip.toString ∈ t.lists.blacklist))

theorem handleConnection_blocked {lists : Lists} {addr : SocketAddr} :
    handleConnection X lists addr false = .blocked ↔ (X.tryIntoV4 addr).ip.isLoopback = false
      ∧ (X.tryIntoV4 addr).ip.toString ∈ lists.blocklist := by
  unfold handleConnection
  dsimp only
  cases hloop : (X.tryIntoV4 addr).ip.isLoopback with
  | true => simp
  | false =>
      by_cases hin : (X.tryIntoV4 addr).ip.toString ∈ lists.blocklist
      · simp [hin]
      · simp [hin]

/-- With empty lists everybody gets in but loopback. -/
theorem handleConnection_spawned {addr : SocketAddr} :
    handleConnection X ⟨∅, ∅⟩ addr false = .spawned
      ↔ (X.tryIntoV4 addr).ip.isLoopback = false := by
  unfold handleConnection
  dsimp only
  cases hloop : (X.tryIntoV4 addr).ip.isLoopback with
  | true => simp
  | false => simp

/-- The plain form has the same text only if it is the same address. -/
theorem tryIntoV4_text {addr : SocketAddr}
    (hv4 : X.tryIntoV4 addr = addr ∨
      ∃ ip v4, addr.ip = .v6 ip ∧ ip.toIpv4 = some v4 ∧ (X.tryIntoV4 addr).ip = .v4 v4) :
    (X.tryIntoV4 addr).ip.toString = addr.ip.toString ↔ X.tryIntoV4 addr = addr := by
  constructor
  · intro htext
    rcases hv4 with hsame | ⟨ip, v4, hip, _, hplain⟩
    · exact hsame
    · rw [hip, hplain] at htext
      exact absurd htext (v4.toString_ne ip)
  · intro hsame
    rw [hsame]

/-- A turn one second after the start, with these lists. -/
def Turn.check (lists : Lists) : Turn where
  wake := .tick
  sendOk := true
  recvAt := ofSecs 1
  checkAt := ofSecs 1
  resetAt := ofSecs 1
  lists := lists
  startCheck := 1800000

theorem check_due (addr : SocketAddr) (lists : Lists) :
    PeriodicCheck (.start addr 0 0) (.check lists) := by
  constructor
  · have hquiet : ¬ asSecs (elapsed (ofSecs 1) 0) > 30 := by decide
    exact if_neg hquiet
  · show 1000 ≤ asMillis (elapsed (ofSecs 1) 0) % 2 ^ 64
    decide

/--
**The checks agree exactly for addresses that are their own plain form**: every IPv4 address,
and no IPv4-mapped one. Where the plain form is loopback there is no relay to check: the
connection is a command.
-/
theorem checksAgree_iff {addr : SocketAddr}
    (hv4 : X.tryIntoV4 addr = addr ∨
      ∃ ip v4, addr.ip = .v6 ip ∧ ip.toIpv4 = some v4 ∧ (X.tryIntoV4 addr).ip = .v4 v4) :
    ChecksAgree X addr ↔
      (X.tryIntoV4 addr).ip.isLoopback = true ∨ X.tryIntoV4 addr = addr := by
  constructor
  · intro hagree
    by_cases hloop : (X.tryIntoV4 addr).ip.isLoopback = true
    · exact .inl hloop
    · refine .inr ((tryIntoV4_text hv4).mp ?_)
      rw [Bool.not_eq_true] at hloop
      by_contra hne
      -- block the text that is tested at the door
      let lists : Lists := ⟨{(X.tryIntoV4 addr).ip.toString}, ∅⟩
      have hdoor : handleConnection X lists addr false = .blocked :=
        handleConnection_blocked.mpr ⟨hloop, Finset.mem_singleton_self _⟩
      have hcheck := check_due addr lists
      have hin := handleConnection_spawned.mpr hloop
      have hend := (hagree hin 0 0 [] _ _ Run.nil hcheck).1.mpr hdoor
      have hout : (Loop.start addr 0 0).ip ∉ (Turn.check lists).lists.blocklist :=
        fun hmem => hne (Finset.mem_singleton.mp hmem).symm
      rw [(relayTurn_check hcheck).1, if_neg hout] at hend
      cases hend
  · intro hcase hin threshold now h l t hr hcheck
    have hclient := handleConnection_spawned.mp hin
    have hsame := hcase.resolve_left (by rw [hclient]; decide)
    have hip : l.ip = (X.tryIntoV4 addr).ip.toString := by
      rw [hsame]
      exact relay_ip hr
    obtain ⟨hblock, hblack⟩ := relayTurn_check hcheck
    rw [handleConnection_blocked, hblock, ← hip]
    by_cases hin : l.ip ∈ t.lists.blocklist
    · rw [if_pos hin]
      exact ⟨iff_of_true rfl ⟨hclient, hin⟩, fun hnone => by cases hnone⟩
    · rw [if_neg hin]
      refine ⟨iff_of_false (by simp) fun hboth => hin hboth.2, fun _ => ?_⟩
      rw [(hblack hin).1, decide_eq_true_eq]

theorem checksAgree_v4 : ChecksAgree Ext.sample.toAddrOps ⟨.v4 ⟨1, 2, 3, 4⟩, 5⟩ :=
  (checksAgree_iff (.inl rfl)).mpr (.inr rfl)

/-- `1.2.3.4` as a dual-stack listener hands it over. -/
def mappedAddr : SocketAddr := ⟨.v6 ⟨0, 0, 0, 0, 0, 0xffff, 0x102, 0x304⟩, 5⟩

/-- **An IPv4-mapped client is refused at the door and not found in its relay**: the door
looks up `1.2.3.4`, the relay `::ffff:1.2.3.4`. -/
theorem checks_disagree : ¬ ∀ addr, ChecksAgree Ext.sample.toAddrOps addr := by
  intro hall
  let lists : Lists := ⟨{"1.2.3.4"}, ∅⟩
  have hdoor : handleConnection Ext.sample.toAddrOps lists mappedAddr false = .blocked := by decide
  have hcheck := check_due mappedAddr lists
  have hend := (hall mappedAddr (by decide) 0 0 [] _ _ Run.nil hcheck).1.mpr hdoor
  rw [(relayTurn_check hcheck).1] at hend
  exact absurd hend (by decide)

/-! ## The two ends -/

variable {lists : Lists} {w w' : World} {h : List (Occ World WorldEvent WorldOut)}

/-- The client has connected from this address by TCP, and got in. -/
def Client (h : List (Occ World WorldEvent WorldOut)) (c : ConnId) (addr : SocketAddr) : Prop :=
  ∃ o ∈ h, (∃ now header, o.ev = .accept now c addr header false) ∧ o.out = .admission .spawned

/-- Tasks have the addresses of their clients, and loops those of their tasks. -/
structure Addressed (h : List (Occ World WorldEvent WorldOut)) (w : World) : Prop where
  clients : ∀ c addr, Client h c addr → ∃ t, w.pair.tasks c = some t ∧ t.addr = addr
  loops : ∀ c l, w.loops c = some l → ∃ t, w.pair.tasks c = some t ∧ l.ip = t.addr.ip.toString

theorem addressed_start : Addressed [] (World.start lists) where
  clients := by
    intro c addr hc
    obtain ⟨o, ho, _⟩ := hc
    cases ho
  loops := by
    intro c l hl
    cases hl

/-- Whatever the step, the addresses of tasks stay. -/
theorem hbbr_addr {e : WorldEvent} {o : WorldOut} (h : hbbr X key w e = some (w', o))
    {c : ConnId} {t : Task} (ht : w.pair.tasks c = some t) :
    ∃ t', w'.pair.tasks c = some t' ∧ t'.addr = t.addr := by
  rcases hbbr_pair h with heq | ⟨e', o', hs⟩
  · rw [heq]
    exact ⟨t, ht, rfl⟩
  · exact (makePair_addr hs).1 c t ht

theorem addressed_step {e : WorldEvent} {o : WorldOut} (hi : Addressed h w)
    (hst : hbbr X key w e = some (w', o)) : Addressed (h ++ [⟨w, e, o, w'⟩]) w' := by
  constructor
  · intro c addr hc
    obtain ⟨x, hx, hev, hout⟩ := hc
    rcases List.mem_append.mp hx with hx | hx
    · obtain ⟨t, ht, haddr⟩ := hi.clients c addr ⟨x, hx, hev, hout⟩
      obtain ⟨t', ht', heq⟩ := hbbr_addr hst ht
      exact ⟨t', ht', heq.trans haddr⟩
    · rw [List.mem_singleton.mp hx] at hev hout
      obtain ⟨now, header, rfl⟩ := hev
      cases hbbr_step hst with
      | refused hne =>
          cases hout
          exact absurd rfl hne
      | accepted hs => exact (makePair_addr hs).2 addr rfl
  · intro c l hl
    -- a loop that was there keeps its text, and so does its task
    have hkept : ∀ l₀, w.loops c = some l₀ → l.ip = l₀.ip →
        ∃ t, w'.pair.tasks c = some t ∧ l.ip = t.addr.ip.toString := by
      intro l₀ hl₀ hip
      obtain ⟨t, ht, htext⟩ := hi.loops c l₀ hl₀
      obtain ⟨t', ht', heq⟩ := hbbr_addr hst ht
      exact ⟨t', ht', by rw [hip, htext, heq]⟩
    cases hbbr_step hst with
    | refused => exact hkept l hl rfl
    | accepted => exact hkept l hl rfl
    | task => exact hkept l hl rfl
    | @relayStart now conn threshold task s o htask hs =>
        rcases put_eq_some.mp hl with ⟨rfl, rfl⟩ | ⟨_, hl⟩
        · obtain ⟨t', ht', heq⟩ := (makePair_addr hs).1 c task htask
          exact ⟨t', ht', by rw [heq]; rfl⟩
        · exact hkept l hl rfl
    | @turn now conn t l₀ l' acts s hl₀ hturn _ =>
        rcases put_eq_some.mp hl with ⟨rfl, rfl⟩ | ⟨_, hl⟩
        · refine hkept l₀ hl₀ ?_
          have hip := relayTurn_ip l₀ { t with lists := w.lists }
          rw [hturn] at hip
          exact hip
        · exact hkept l hl rfl
    | stopped =>
        obtain ⟨_, hl⟩ := free_eq_some.mp hl
        exact hkept l hl rfl
    | blocklist => exact hkept l hl rfl
    | blacklist => exact hkept l hl rfl

theorem addressed_run (hr : Run (hbbr X key) (.start lists) h w) : Addressed h w :=
  Run.inv addressed_start (fun _ _ _ _ _ hi hst => addressed_step hi hst) hr

/--
A periodic check, in this turn, of the relay that the task of `c` runs with the stream of `d`:
`c` has connected from `a` and `d` from `b`.
-/
structure CheckOf (h : List (Occ World WorldEvent WorldOut)) (o : Occ World WorldEvent WorldOut)
    (c d : ConnId) (a b : SocketAddr) (l : Loop) (t : Turn) : Prop where
  turn : ∃ now, o.ev = .turn now c t
  loop : o.pre.loops c = some l
  pair : ∃ rf, o.pre.pair.pc c = some (.relaying rf d)
  due : PeriodicCheck l { t with lists := o.pre.lists }
  runs : Client h c a
  waited : Client h d b

/-- The loop works with the address of the client that runs it. -/
theorem check_ip (hr : Run (hbbr X key) (.start lists) h w) {o : Occ World WorldEvent WorldOut}
    (ho : o ∈ h) {c d : ConnId} {a b : SocketAddr} {l : Loop} {t : Turn}
    (hcheck : CheckOf h o c d a b l t) : l.ip = a.ip.toString := by
  obtain ⟨h₁, h₂, _, hpre, hst, hpost⟩ := hr.mem ho
  obtain ⟨task, htask, hip⟩ := (addressed_run hpre).loops c l hcheck.loop
  -- the task is still there at the end of the run, with the same address
  have hkept : ∃ t', w.pair.tasks c = some t' ∧ t'.addr = task.addr := by
    refine hpost.keeps (Q := fun w => ∃ t', w.pair.tasks c = some t' ∧ t'.addr = task.addr) ?_
      (hbbr_addr hst htask)
    intro w₁ e w₂ o' hq hstep
    obtain ⟨t₁, ht₁, haddr⟩ := hq
    obtain ⟨t₂, ht₂, heq⟩ := hbbr_addr hstep ht₁
    exact ⟨t₂, ht₂, heq.trans haddr⟩
  obtain ⟨t', ht', haddr⟩ := hkept
  obtain ⟨t₀, ht₀, hclient⟩ := (addressed_run hr).clients c a hcheck.runs
  obtain rfl := Option.some.inj (ht'.symm.trans ht₀)
  rw [hip, ← haddr, hclient]

/-- What a check of a relay leaves. -/
theorem check_outcome (hr : Run (hbbr X key) (.start lists) h w)
    {o : Occ World WorldEvent WorldOut} (ho : o ∈ h) {c d : ConnId} {a b : SocketAddr} {l : Loop}
    {t : Turn} (hcheck : CheckOf h o c d a b l t) :
    (a.ip.toString ∈ o.pre.lists.blocklist → o.post.loops c = none)
      ∧ (a.ip.toString ∉ o.pre.lists.blocklist → ∃ l', o.post.loops c = some l'
        ∧ (l'.limiter = .blacklist
          ↔ a.ip.toString ∈ o.pre.lists.blacklist ∨ Downgraded l t = true)) := by
  have hip := check_ip hr ho hcheck
  obtain ⟨hblock, hgoes⟩ := relayTurn_check hcheck.due
  have hdown : Downgraded l { t with lists := o.pre.lists } = Downgraded l t := rfl
  rw [hip] at hblock hgoes
  rw [hdown] at hgoes
  obtain ⟨_, _, _, _, hst, _⟩ := hr.mem ho
  obtain ⟨now, hev⟩ := hcheck.turn
  have hloop := hcheck.loop
  obtain ⟨pre, ev, out, post⟩ := o
  dsimp only at hst hev hloop hblock hgoes ⊢
  subst hev
  cases hbbr_step hst with
  | turn hl hturn _ =>
      -- the loop goes on, so its own text was not listed
      obtain rfl := Option.some.inj (hl.symm.trans hloop)
      rw [hturn] at hblock hgoes
      have hno : a.ip.toString ∉ pre.lists.blocklist := by
        intro hin
        rw [if_pos hin] at hblock
        cases hblock
      refine ⟨fun hin => absurd hin hno, fun _ => ⟨_, put_self .., ?_⟩⟩
      obtain ⟨hblack, hdowngrade⟩ := hgoes hno
      rw [Loop.limiter_eq_blacklist, hblack, hdowngrade, decide_eq_true_eq]
  | stopped hl hturn _ =>
      obtain rfl := Option.some.inj (hl.symm.trans hloop)
      rw [hturn] at hblock
      refine ⟨fun _ => free_self .., fun hno => ?_⟩
      rw [if_neg hno] at hblock
      cases hblock

/-- If either end is blocklisted the check ends the relay, and if either end is blacklisted the
relay has ended or goes on through the blacklist limiter. -/
def CoversBoth (o : Occ World WorldEvent WorldOut) (c : ConnId) (a b : SocketAddr) : Prop :=
  (a.ip.toString ∈ o.pre.lists.blocklist ∨ b.ip.toString ∈ o.pre.lists.blocklist →
      o.post.loops c = none)
    ∧ (a.ip.toString ∈ o.pre.lists.blacklist ∨ b.ip.toString ∈ o.pre.lists.blacklist →
      ∀ l, o.post.loops c = some l → l.limiter = .blacklist)

/--
**Blocking reaches the other end only through this one**: a check covers both ends exactly if
the client that waited is listed only where the client that runs the relay is listed too, or,
for the blacklist, if the relay is slowed down for its volume anyway.
-/
theorem coversBoth_iff (hr : Run (hbbr X key) (.start lists) h w)
    {o : Occ World WorldEvent WorldOut} (ho : o ∈ h) {c d : ConnId} {a b : SocketAddr} {l : Loop}
    {t : Turn} (hcheck : CheckOf h o c d a b l t) :
    CoversBoth o c a b ↔
      (b.ip.toString ∈ o.pre.lists.blocklist → a.ip.toString ∈ o.pre.lists.blocklist)
        ∧ (b.ip.toString ∈ o.pre.lists.blacklist →
          a.ip.toString ∈ o.pre.lists.blocklist ∨ a.ip.toString ∈ o.pre.lists.blacklist
            ∨ Downgraded l t = true) := by
  obtain ⟨hends, hgoes⟩ := check_outcome hr ho hcheck
  unfold CoversBoth
  by_cases hblock : a.ip.toString ∈ o.pre.lists.blocklist
  · have hend := hends hblock
    refine iff_of_true ⟨fun _ => hend, fun _ l' hl' => ?_⟩ ⟨fun _ => hblock, fun _ => .inl hblock⟩
    rw [hend] at hl'
    cases hl'
  · obtain ⟨l', hl', hlimit⟩ := hgoes hblock
    rw [hl']
    simp only [hblock, false_or, reduceCtorEq, imp_false, Option.some.injEq, forall_eq', hlimit]
    refine and_congr_right fun _ => ?_
    constructor
    · intro hcov hb
      exact hcov (.inr hb)
    · intro hcond hlisted
      rcases hlisted with ha | hb
      · exact .inl ha
      · exact hcond hb

/-! ### One listed, and the other -/

def firstAddr : SocketAddr := ⟨.v4 ⟨1, 1, 1, 1⟩, 10⟩

def secondAddr : SocketAddr := ⟨.v4 ⟨2, 2, 2, 2⟩, 20⟩

/-- Client 1 waits, client 2 comes and relays; then a text is blocklisted, and the relay makes
its next check. -/
theorem exists_check (ip : String) : ∃ h w o,
    Run (hbbr Ext.sample.toAddrOps "") (.start ⟨∅, ∅⟩) h w ∧ o ∈ h
      ∧ CheckOf h o 2 1 secondAddr firstAddr (.start secondAddr 0 0) (.check ⟨∅, ∅⟩)
      ∧ o.pre.lists = ⟨{ip}, ∅⟩ := by
  let rf : RequestRelay := ⟨"", "uuid-1", [], ""⟩
  have hr : Run (hbbr Ext.sample.toAddrOps "") (.start ⟨∅, ∅⟩)
      ([] ++ [⟨_, .accept 0 1 firstAddr none false, _, _⟩]
        ++ [⟨_, .accept 0 2 secondAddr none false, _, _⟩]
        ++ [⟨_, .task ⟨0, 1, .recv (some (.requestRelay rf))⟩, _, _⟩]
        ++ [⟨_, .task ⟨0, 2, .recv (some (.requestRelay rf))⟩, _, _⟩]
        ++ [⟨_, .task ⟨0, 1, .lookup⟩, _, _⟩] ++ [⟨_, .task ⟨0, 1, .insert⟩, _, _⟩]
        ++ [⟨_, .task ⟨0, 2, .lookup⟩, _, _⟩] ++ [⟨_, .relayStart 0 2 0, _, _⟩]
        ++ [⟨_, .blocklist (.add ip), _, _⟩]) _ :=
    Run.snoc (Run.snoc (Run.snoc (Run.snoc (Run.snoc (Run.snoc (Run.snoc (Run.snoc (Run.snoc
      Run.nil rfl) rfl) rfl) rfl) rfl) rfl) rfl) rfl) rfl
  obtain ⟨w', out, hr'⟩ := run_turn (c := 2) (n := ofSecs 1) (l := .start secondAddr 0 0) hr rfl rfl
    (Nat.zero_le _) (.check ⟨∅, ∅⟩)
  refine ⟨_, _, _, hr', List.mem_append_right _ (List.mem_singleton_self _), ?_, rfl⟩
  refine ⟨⟨_, rfl⟩, rfl, ⟨rf, rfl⟩, check_due secondAddr ⟨{ip}, ∅⟩, ?_, ?_⟩
  · exact ⟨_, List.mem_cons_of_mem _ List.mem_cons_self, ⟨0, none, rfl⟩, rfl⟩
  · exact ⟨_, List.mem_cons_self, ⟨0, none, rfl⟩, rfl⟩

/-- The client that came second is blocklisted, and the relay ends. -/
theorem coversBoth_second : ∃ h w o,
    Run (hbbr Ext.sample.toAddrOps "") (.start ⟨∅, ∅⟩) h w ∧ o ∈ h
      ∧ o.pre.lists.blocklist = {"2.2.2.2"} ∧ CoversBoth o 2 secondAddr firstAddr := by
  obtain ⟨h, w, o, hr, ho, hcheck, hlists⟩ := exists_check "2.2.2.2"
  refine ⟨h, w, o, hr, ho, by rw [hlists], (coversBoth_iff hr ho hcheck).mpr ?_⟩
  rw [hlists]
  exact ⟨by decide, by decide⟩

/-- **The client that came first is out of reach**: its address is blocklisted, the relay makes
its check, and goes on. -/
theorem first_not_covered : ¬ ∀ h w o c d a b l t,
    Run (hbbr Ext.sample.toAddrOps "") (.start ⟨∅, ∅⟩) h w → o ∈ h → CheckOf h o c d a b l t →
      CoversBoth o c a b := by
  intro hall
  obtain ⟨h, w, o, hr, ho, hcheck, hlists⟩ := exists_check "1.1.1.1"
  have hcovers := (hall h w o 2 1 secondAddr firstAddr _ _ hr ho hcheck).1
  have hgoes := (check_outcome hr ho hcheck).2
  rw [hlists] at hcovers hgoes
  obtain ⟨l', hl', _⟩ := hgoes (by decide)
  rw [hcovers (.inr (by decide))] at hl'
  cases hl'

end KinBridge.Hbbr
