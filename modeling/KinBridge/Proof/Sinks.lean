import KinBridge.Hbbs.Sinks

/-!
# Where a sink is

A connection's sink is in its handler's hands, or in `tcp_punch` under the client's own
address for as long as the handler runs, or with a task that is about to write, or gone.
It never comes back from the last two, so a connection is written to at most once.

Keys may collide: then a sink is dropped where its place is taken by another, or where
another handler clears the key. That loses an answer, but it leaves no sink in two places.
-/

namespace KinBridge.Sinks

open KinBridge Runs Slots

variable {X : Ext} {key : String} {s s' : State} {h : List (Occ State Event Out)}

/-! ## What a handler has left to do -/

/-- What can be left of the current message. `E a bytes` is what is known of an answer to
`a` that names the address `bytes`. -/
inductive Todo (X : Ext) (E : ConnId → Bytes → Prop) (c : ConnId) (cn : Conn) :
    List TcpEffect → Prop where
  | nothing : Todo X E c cn []
  | forward {msg : RendezvousMessage} {dest : SocketAddr} : cn.cause = c →
      forwardAddr msg = some (X.encode cn.addr) → Todo X E c cn [.park cn.addr, .queue msg dest]
  | refuse {msg : RendezvousMessage} : cn.cause = c →
      Todo X E c cn [.park cn.addr, .sendToTcpSync msg cn.addr]
  | park : cn.cause = c → Todo X E c cn [.park cn.addr]
  | queue {msg : RendezvousMessage} {dest : SocketAddr} : cn.cause = c → cn.sink = false →
      forwardAddr msg = some (X.encode cn.addr) → Todo X E c cn [.queue msg dest]
  | refused {msg : RendezvousMessage} : cn.cause = c → cn.sink = false →
      Todo X E c cn [.sendToTcpSync msg cn.addr]
  | answerSync {msg : RendezvousMessage} {bytes : Bytes} : E cn.cause bytes →
      Todo X E c cn [.sendToTcpSync msg (X.decode bytes)]
  | answer {msg : RendezvousMessage} {bytes : Bytes} : E cn.cause bytes →
      Todo X E c cn [.sendToTcp msg (X.decode bytes)]
  | reply {msg : RendezvousMessage} : cn.cause = c → cn.keep = false →
      Todo X E c cn [.sendToSink msg]

variable {E E' : ConnId → Bytes → Prop} {c : ConnId} {cn : Conn} {todo : List TcpEffect}

theorem Todo.mono (h : Todo X E c cn todo) (hE : ∀ a bytes, E a bytes → E' a bytes) :
    Todo X E' c cn todo := by
  cases h with
  | nothing => exact .nothing
  | forward hc hf => exact .forward hc hf
  | refuse hc => exact .refuse hc
  | park hc => exact .park hc
  | queue hc hs hf => exact .queue hc hs hf
  | refused hc hs => exact .refused hc hs
  | answerSync he => exact .answerSync (hE _ _ he)
  | answer he => exact .answer (hE _ _ he)
  | reply hc hk => exact .reply hc hk

/-- A message just read. -/
theorem Todo.of_script {m : Option RendezvousMessage} {cause : ConnId} {keep : Bool}
    (h : Script X cn.addr m todo keep)
    (hE : isAnswer m = true → ∀ bytes, answerAddr m = some bytes → E cause bytes) :
    Todo X E c
      { cn with todo := todo, keep := keep, cause := if isAnswer m then cause else c } todo := by
  cases h with
  | forward hm hf => exact .forward (by simp [hm]) hf
  | refuse hm => exact .refuse (by simp [hm])
  | park hm => exact .park (by simp [hm])
  | answerSync hm ha => exact .answerSync (by simpa [hm] using hE hm _ ha)
  | answer hm ha => exact .answer (by simpa [hm] using hE hm _ ha)
  | reply hm => exact .reply (by simp [hm]) rfl
  | nothing => exact .nothing

/-- Parking comes first, on the handler's own behalf, and what follows has no sink in hand. -/
theorem Todo.of_park {addr : SocketAddr} (h : Todo X E c cn (.park addr :: todo)) :
    addr = cn.addr ∧ cn.cause = c ∧
      ∀ cn' : Conn, cn'.addr = cn.addr → cn'.cause = cn.cause → cn'.sink = false →
        Todo X E c cn' todo := by
  cases h with
  | forward hc hf =>
      refine ⟨rfl, hc, fun cn' ha hcause hs => .queue (hcause.trans hc) hs ?_⟩
      rw [ha]; exact hf
  | refuse hc =>
      refine ⟨rfl, hc, ?_⟩
      intro cn' ha hcause hs
      rw [← ha]; exact .refused (hcause.trans hc) hs
  | park hc => exact ⟨rfl, hc, fun _ _ _ _ => .nothing⟩

/-- Every other effect is the last of its message. -/
theorem Todo.last {effect : TcpEffect} (h : Todo X E c cn (effect :: todo))
    (hne : ∀ addr, effect ≠ .park addr) : todo = [] := by
  cases h with
  | forward | refuse | park => exact absurd rfl (hne _)
  | _ => rfl

/-- Carrying out an effect leaves the handler with one of the known rests. -/
theorem Todo.tail {effect : TcpEffect} (h : Todo X E c cn (effect :: todo))
    (hpark : ∀ addr, effect = .park addr → cn.sink = false) :
    Todo X E c { cn with todo := todo } todo := by
  by_cases hp : ∃ addr, effect = .park addr
  · obtain ⟨addr, rfl⟩ := hp
    exact h.of_park.2.2 _ rfl rfl (hpark addr rfl)
  · rw [h.last fun addr heq => hp ⟨addr, heq⟩]
    exact .nothing

/-! ## One place -/

/-- What holds of connections, `tcp_punch` and spawned tasks in every run. -/
structure Owned (X : Ext) (conns : ConnId → Option Conn) (tcpPunch : SocketAddr → Option ConnId)
    (sending : List Sending) : Prop where
  hand : ∀ c cn, conns c = some cn → cn.sink = true → cn.running = true
  /-- Whatever is parked is parked under its own key, out of the hands of a running handler. -/
  parked : Keyed (fun k c => ∃ cn, conns c = some cn ∧ cn.running = true ∧ cn.sink = false
    ∧ k = X.tryIntoV4 cn.addr) tcpPunch
  taken : ∀ t ∈ sending, (∃ cn, conns t.sink = some cn ∧ cn.sink = false)
    ∧ ∀ k, tcpPunch k ≠ some t.sink
  once : (sending.map Sending.sink).Nodup

variable {conns : ConnId → Option Conn} {tcpPunch : SocketAddr → Option ConnId}
  {sending : List Sending}

/-- A sink is parked under one key at most. -/
theorem Owned.unique (ho : Owned X conns tcpPunch sending) {k k' : SocketAddr}
    (h1 : tcpPunch k = some c) (h2 : tcpPunch k' = some c) : k = k' := by
  refine ho.parked.unique ?_ h1 h2
  intro k k' c hkey hkey'
  obtain ⟨cn, hcn, _, _, rfl⟩ := hkey
  obtain ⟨cn', hcn', _, _, rfl⟩ := hkey'
  rw [hcn] at hcn'
  rw [Option.some.inj hcn']

/-- A sink in a handler's hands is nowhere else. -/
theorem Owned.inHand (ho : Owned X conns tcpPunch sending) (hcn : conns c = some cn)
    (hsink : cn.sink = true) : (∀ k, tcpPunch k ≠ some c) ∧ ∀ t ∈ sending, t.sink ≠ c := by
  have hno : ∀ cn', conns c = some cn' → cn'.sink ≠ false := by
    intro cn' hcn' hs
    rw [hcn] at hcn'
    rw [← Option.some.inj hcn', hsink] at hs
    cases hs
  constructor
  · intro k hk
    obtain ⟨cn', hcn', _, hs, _⟩ := ho.parked k c hk
    exact hno cn' hcn' hs
  · intro t ht heq
    subst heq
    obtain ⟨⟨cn', hcn', hs⟩, _⟩ := ho.taken t ht
    exact hno cn' hcn' hs

/-- With its own key cleared, a connection's sink is parked nowhere. -/
theorem Owned.cleared (ho : Owned X conns tcpPunch sending) (hcn : conns c = some cn) :
    ∀ k, free tcpPunch (X.tryIntoV4 cn.addr) k ≠ some c := by
  intro k hk
  obtain ⟨hne, hk⟩ := free_eq_some.mp hk
  obtain ⟨cn', hcn', _, _, hkey⟩ := ho.parked k c hk
  rw [hcn] at hcn'
  rw [← Option.some.inj hcn'] at hkey
  exact hne hkey

/-- A handler goes on, with its sink where it was. -/
theorem Owned.goOn {cn' : Conn} (ho : Owned X conns tcpPunch sending) (hcn : conns c = some cn)
    (haddr : cn'.addr = cn.addr) (hrun : cn'.running = cn.running) (hsink : cn'.sink = cn.sink) :
    Owned X (put conns c cn') tcpPunch sending := by
  have hmap : ∀ (x : ConnId) (y : Conn), conns x = some y → ∃ y', put conns c cn' x = some y'
      ∧ y'.addr = y.addr ∧ y'.running = y.running ∧ y'.sink = y.sink := by
    intro x y hy
    by_cases hx : x = c
    · subst hx
      obtain rfl := Option.some.inj (hcn.symm.trans hy)
      exact ⟨cn', put_self .., haddr, hrun, hsink⟩
    · exact ⟨y, (put_ne hx).trans hy, rfl, rfl, rfl⟩
  refine ⟨?_, ho.parked.mono ?_, ?_, ho.once⟩
  · intro x y hy hs
    rcases put_eq_some.mp hy with ⟨rfl, rfl⟩ | ⟨_, hy⟩
    · rw [hrun]; exact ho.hand x cn hcn (hsink ▸ hs)
    · exact ho.hand x y hy hs
  · intro k x _ hold
    obtain ⟨y, hy, hyr, hys, rfl⟩ := hold
    obtain ⟨y', hy', ha, hr, hs⟩ := hmap x y hy
    exact ⟨y', hy', hr.trans hyr, hs.trans hys, by rw [ha]⟩
  · intro t ht
    obtain ⟨⟨y, hy, hys⟩, hno⟩ := ho.taken t ht
    obtain ⟨y', hy', _, _, hs⟩ := hmap _ y hy
    exact ⟨⟨y', hy', hs.trans hys⟩, hno⟩

/-- A sink is removed from `tcp_punch`. -/
theorem Owned.free (ho : Owned X conns tcpPunch sending) (k : SocketAddr) :
    Owned X conns (free tcpPunch k) sending :=
  ⟨ho.hand, ho.parked.free k,
    fun t ht => ⟨(ho.taken t ht).1, fun k' hk' => (ho.taken t ht).2 k' (free_eq_some.mp hk').2⟩,
    ho.once⟩

/-- A sink is removed from `tcp_punch` and handed to a spawned task. -/
theorem Owned.send (ho : Owned X conns tcpPunch sending) {k : SocketAddr} {a : ConnId}
    (hk : tcpPunch k = some a) (msg : RendezvousMessage) (cause : ConnId) :
    Owned X conns (Slots.free tcpPunch k) (⟨a, msg, cause⟩ :: sending) := by
  refine ⟨ho.hand, ho.parked.free k, ?_, ?_⟩
  · intro t ht
    rcases List.mem_cons.mp ht with rfl | ht
    · obtain ⟨cn, hcn, _, hs, _⟩ := ho.parked k a hk
      exact ⟨⟨cn, hcn, hs⟩, fun _ => free_ne_some fun _ hk' => ho.unique hk' hk⟩
    · exact (ho.free k).taken t ht
  · rw [List.map_cons, List.nodup_cons]
    refine ⟨?_, ho.once⟩
    intro hmem
    obtain ⟨t, ht, heq⟩ := List.mem_map.mp hmem
    exact (ho.taken t ht).2 k (by rw [heq]; exact hk)

/-- A handler parks its sink. -/
theorem Owned.park {cn' : Conn} (ho : Owned X conns tcpPunch sending) (hcn : conns c = some cn)
    (hsink : cn.sink = true) (haddr : cn'.addr = cn.addr) (hrun : cn'.running = cn.running)
    (hsink' : cn'.sink = false) :
    Owned X (put conns c cn') (put tcpPunch (X.tryIntoV4 cn.addr) c) sending := by
  -- the sink in hand is neither parked nor with a task
  have hother : ∀ x y, conns x = some y → y.sink = false → x ≠ c := by
    intro x y hy hs heq
    subst heq
    rw [hcn] at hy
    rw [← Option.some.inj hy, hsink] at hs
    cases hs
  have hmine : put conns c cn' c = some cn' := put_self ..
  have hrunning := ho.hand c cn hcn hsink
  refine ⟨?_, ?_, ?_, ho.once⟩
  · intro x y hy hs
    rcases put_eq_some.mp hy with ⟨rfl, rfl⟩ | ⟨_, hy⟩
    · rw [hsink'] at hs; cases hs
    · exact ho.hand x y hy hs
  · refine Keyed.put (ho.parked.mono ?_)
      ⟨cn', hmine, hrun.trans hrunning, hsink', by rw [haddr]⟩
    intro k x _ hold
    obtain ⟨y, hy, hyr, hys, hk⟩ := hold
    exact ⟨y, (put_ne (hother x y hy hys)).trans hy, hyr, hys, hk⟩
  · intro t ht
    obtain ⟨⟨y, hy, hys⟩, hno⟩ := ho.taken t ht
    have hne := hother _ y hy hys
    refine ⟨⟨y, (put_ne hne).trans hy, hys⟩, ?_⟩
    intro k hk
    rcases put_eq_some.mp hk with ⟨_, heq⟩ | ⟨_, hk⟩
    · exact hne heq.symm
    · exact hno k hk

/-- A handler returns, and nothing of its own is parked any more. -/
theorem Owned.finish {cn' : Conn} (ho : Owned X conns tcpPunch sending) (hcn : conns c = some cn)
    (hno : ∀ k, tcpPunch k ≠ some c) (hsink : cn'.sink = false) :
    Owned X (put conns c cn') tcpPunch sending := by
  refine ⟨?_, ho.parked.mono ?_, ?_, ho.once⟩
  · intro x y hy hs
    rcases put_eq_some.mp hy with ⟨rfl, rfl⟩ | ⟨_, hy⟩
    · rw [hsink] at hs; cases hs
    · exact ho.hand x y hy hs
  · intro k x hx hold
    obtain ⟨y, hy, hrest⟩ := hold
    have hne : x ≠ c := by intro heq; subst heq; exact hno k hx
    exact ⟨y, (put_ne hne).trans hy, hrest⟩
  · intro t ht
    obtain ⟨⟨y, hy, hys⟩, hno'⟩ := ho.taken t ht
    by_cases hx : t.sink = c
    · exact ⟨⟨cn', by rw [hx]; exact put_self .., hsink⟩, hno'⟩
    · exact ⟨⟨y, (put_ne hx).trans hy, hys⟩, hno'⟩

/-- A new connection holds its sink. -/
theorem Owned.accept {cn' : Conn} (ho : Owned X conns tcpPunch sending) (hnone : conns c = none)
    (hrun : cn'.running = true) : Owned X (put conns c cn') tcpPunch sending := by
  have hold : ∀ x y, conns x = some y → put conns c cn' x = some y := by
    intro x y hy
    have hne : x ≠ c := by intro heq; subst heq; rw [hnone] at hy; cases hy
    exact (put_ne hne).trans hy
  refine ⟨?_, ho.parked.mono ?_, ?_, ho.once⟩
  · intro x y hy hs
    rcases put_eq_some.mp hy with ⟨rfl, rfl⟩ | ⟨_, hy⟩
    · exact hrun
    · exact ho.hand x y hy hs
  · intro k x _ hold
    obtain ⟨y, hy, hrest⟩ := hold
    exact ⟨y, hold x y hy, hrest⟩
  · intro t ht
    obtain ⟨⟨y, hy, hys⟩, hno⟩ := ho.taken t ht
    exact ⟨⟨y, hold _ y hy, hys⟩, hno⟩

/-- A spawned task writes. -/
theorem Owned.flush (ho : Owned X conns tcpPunch sending) (n : Nat) :
    Owned X conns tcpPunch (sending.eraseIdx n) := by
  have hsub := List.eraseIdx_sublist sending n
  exact ⟨ho.hand, ho.parked, fun t ht => ho.taken t (hsub.subset ht), ho.once.sublist (hsub.map _)⟩

/-- What every run keeps: sinks are owned, and every handler has a known rest to do. -/
structure SinkInv (X : Ext) (s : State) : Prop where
  owned : Owned X s.conns s.tcpPunch s.sending
  todo : ∀ c cn, s.conns c = some cn → Todo X (fun _ _ => True) c cn cn.todo

/-- One handler goes on with a known rest, and the others stay. -/
theorem todo_put {cn' : Conn} (hi : ∀ c cn, conns c = some cn → Todo X E c cn cn.todo)
    (hc : Todo X E c cn' cn'.todo) :
    ∀ x y, put conns c cn' x = some y → Todo X E x y y.todo := by
  intro x y hy
  rcases put_eq_some.mp hy with ⟨rfl, rfl⟩ | ⟨_, hy⟩
  · exact hc
  · exact hi x y hy

/-- What is left after an effect that is not parking. -/
theorem todo_tail {effect : TcpEffect} (h : Todo X E c cn cn.todo)
    (htodo : cn.todo = effect :: todo) (hpark : ∀ addr, effect = .park addr → cn.sink = false) :
    Todo X E c { cn with todo := todo } todo := by
  rw [htodo] at h
  exact h.tail hpark

theorem sinkInv_step {e : Event} {o : Out} (hi : SinkInv X s) (hm : Move X s e s' o) :
    SinkInv X s' := by
  have ho := hi.owned
  cases hm with
  | udp => exact ⟨ho, hi.todo⟩
  | accept hnone => exact ⟨ho.accept hnone rfl, todo_put hi.todo .nothing⟩
  | recv hcn _ _ _ hscript =>
      exact ⟨ho.goOn hcn rfl rfl rfl, todo_put hi.todo (.of_script hscript fun _ _ _ => trivial)⟩
  | skip hcn htodo hpark =>
      exact ⟨ho.goOn hcn rfl rfl rfl, todo_put hi.todo (todo_tail (hi.todo _ _ hcn) htodo hpark)⟩
  | park hcn htodo hsink =>
      have hc := hi.todo _ _ hcn
      rw [htodo] at hc
      obtain ⟨rfl, _, hrest⟩ := hc.of_park
      exact ⟨ho.park hcn hsink rfl rfl rfl, todo_put hi.todo (hrest _ rfl rfl rfl)⟩
  | queue hcn htodo =>
      exact ⟨ho.goOn hcn rfl rfl rfl,
        todo_put hi.todo (todo_tail (hi.todo _ _ hcn) htodo (by intros; contradiction))⟩
  | sendToTcp hcn htodo hk =>
      exact ⟨(ho.send hk _ _).goOn hcn rfl rfl rfl,
        todo_put hi.todo (todo_tail (hi.todo _ _ hcn) htodo (by intros; contradiction))⟩
  | sendToTcpSync hcn htodo =>
      exact ⟨(ho.free _).goOn hcn rfl rfl rfl,
        todo_put hi.todo (todo_tail (hi.todo _ _ hcn) htodo (by intros; contradiction))⟩
  | sendToSink hcn htodo =>
      exact ⟨ho.goOn hcn rfl rfl rfl,
        todo_put hi.todo (todo_tail (hi.todo _ _ hcn) htodo (by intros; contradiction))⟩
  | flush => exact ⟨ho.flush _, hi.todo⟩
  | drop hcn _ htodo hsink =>
      exact ⟨ho.finish hcn (ho.inHand hcn hsink).1 rfl,
        todo_put hi.todo (by rw [htodo]; exact .nothing)⟩
  | clear hcn _ htodo =>
      exact ⟨(ho.free _).finish hcn (ho.cleared hcn) rfl,
        todo_put hi.todo (by rw [htodo]; exact .nothing)⟩

theorem sinkInv_start (s₀ : Server) : SinkInv X (State.start s₀) :=
  ⟨⟨nofun, keyed_empty, nofun, List.nodup_nil⟩, nofun⟩

theorem sinkInv_run {s₀ : Server} (hr : Run (sinks X key) (State.start s₀) h s) : SinkInv X s :=
  hr.keeps (Q := SinkInv X) (fun _ _ _ _ hi hst => sinkInv_step hi (sinks_move hst))
    (sinkInv_start s₀)

/-! ## At most one write -/

/-- How many messages the run has written to this connection. -/
def writes (c : ConnId) (h : List (Occ State Event Out)) : Nat :=
  h.countP fun o =>
    match o.out with
    | .written c' _ _ => c' = c
    | .silent => false

/-- The connection's sink is out of every hand that could still write to it. -/
structure Spent (s : State) (c : ConnId) : Prop where
  hand : ∃ cn, s.conns c = some cn ∧ (cn.sink = true → cn.keep = false ∧ cn.todo = [])
  parked : ∀ k, s.tcpPunch k ≠ some c
  sending : ∀ t ∈ s.sending, t.sink ≠ c

/-- A step of some handler keeps a spent sink spent, if it does for its own connection. -/
theorem Spent.put {c' : ConnId} {cn' : Conn} (hs : Spent s c)
    (hown : c' = c → cn'.sink = true → cn'.keep = false ∧ cn'.todo = []) :
    ∃ cn, put s.conns c' cn' c = some cn ∧ (cn.sink = true → cn.keep = false ∧ cn.todo = []) := by
  by_cases hc : c = c'
  · subst hc
    exact ⟨cn', put_self .., hown rfl⟩
  · obtain ⟨cn, hcn, hrest⟩ := hs.hand
    exact ⟨cn, (put_ne hc).trans hcn, hrest⟩

/-- A handler of a spent sink that still has something to do or to read has no sink. -/
theorem Spent.noSink (hs : Spent s c) (hcn : s.conns c = some cn)
    (hbusy : cn.keep = true ∨ cn.todo ≠ []) : cn.sink = false := by
  obtain ⟨cn', hcn', hrest⟩ := hs.hand
  obtain rfl := Option.some.inj (hcn.symm.trans hcn')
  rw [← Bool.not_eq_true]
  intro hsink
  obtain ⟨hk, ht⟩ := hrest hsink
  rcases hbusy with hkeep | htodo
  · rw [hk] at hkeep; cases hkeep
  · exact htodo ht

theorem Spent.idle {c' : ConnId} {effect : TcpEffect} (hs : Spent s c)
    (hcn : s.conns c' = some cn) (htodo : cn.todo = effect :: todo) (heq : c' = c)
    (hsink : cn.sink = true) : False := by
  subst heq
  rw [hs.noSink hcn (.inr (by rw [htodo]; exact List.cons_ne_nil _ _))] at hsink
  cases hsink

theorem silent_ne (c : ConnId) (msg : RendezvousMessage) (cause : ConnId) :
    Out.silent ≠ .written c msg cause := by
  intro heq; cases heq

/-- A spent sink stays spent, and nothing is written to it. -/
theorem spent_step {e : Event} {o : Out} (hs : Spent s c) (hm : Move X s e s' o) :
    Spent s' c ∧ ∀ msg cause, o ≠ .written c msg cause := by
  cases hm with
  | udp => exact ⟨⟨hs.hand, hs.parked, hs.sending⟩, silent_ne c⟩
  | @accept c' _ _ hnone =>
      -- `c` is taken, so the fresh connection is another
      have hne : c' ≠ c := by
        intro heq
        subst heq
        obtain ⟨cn, hcn, _⟩ := hs.hand
        rw [hnone] at hcn
        cases hcn
      exact ⟨⟨hs.put fun heq => absurd heq hne, hs.parked, hs.sending⟩, silent_ne c⟩
  | recv hcn _ hkeep =>
      refine ⟨⟨hs.put ?_, hs.parked, hs.sending⟩, silent_ne c⟩
      intro heq hsink
      -- `c` has no sink left to hand on
      rw [hs.noSink (heq ▸ hcn) (.inl hkeep)] at hsink
      cases hsink
  | skip hcn htodo =>
      exact ⟨⟨hs.put fun heq hsink => (hs.idle hcn htodo heq hsink).elim, hs.parked, hs.sending⟩,
        silent_ne c⟩
  | @park c' cn _ _ hcn htodo hsink =>
      have hne : c' ≠ c := fun heq => hs.idle hcn htodo heq hsink
      refine ⟨⟨hs.put fun heq => absurd heq hne, ?_, hs.sending⟩, silent_ne c⟩
      intro k hk
      rcases put_eq_some.mp hk with ⟨_, heq⟩ | ⟨_, hk⟩
      · exact hne heq
      · exact hs.parked k hk
  | queue hcn htodo =>
      exact ⟨⟨hs.put fun heq hsink => (hs.idle hcn htodo heq hsink).elim, hs.parked, hs.sending⟩,
        silent_ne c⟩
  | sendToTcp hcn htodo hk =>
      -- the sink that is taken was parked, and that of `c` is not
      refine ⟨⟨hs.put fun heq hsink => (hs.idle hcn htodo heq hsink).elim,
        fun k' hk' => hs.parked k' (free_eq_some.mp hk').2, ?_⟩, silent_ne c⟩
      intro t ht
      rcases List.mem_cons.mp ht with rfl | ht
      · intro heq
        subst heq
        exact hs.parked _ hk
      · exact hs.sending t ht
  | sendToTcpSync hcn htodo hk =>
      refine ⟨⟨hs.put fun heq hsink => (hs.idle hcn htodo heq hsink).elim,
        fun k' hk' => hs.parked k' (free_eq_some.mp hk').2, hs.sending⟩, ?_⟩
      intro _ _ heq
      obtain ⟨rfl, _⟩ := Out.written.inj heq
      -- so it is another's that is written to
      exact hs.parked _ hk
  | @sendToSink c' cn _ _ hcn htodo hsink =>
      have hne : c' ≠ c := fun heq => hs.idle hcn htodo heq hsink
      refine ⟨⟨hs.put fun heq => absurd heq hne, hs.parked, hs.sending⟩, ?_⟩
      intro _ _ heq
      exact hne (Out.written.inj heq).1
  | flush ht =>
      refine ⟨⟨hs.hand, hs.parked, fun t ht => hs.sending t ?_⟩, ?_⟩
      · exact (List.eraseIdx_sublist ..).subset ht
      · intro _ _ heq
        exact hs.sending _ (List.mem_of_getElem? ht) (Out.written.inj heq).1
  | drop => exact ⟨⟨hs.put fun _ hsink => (by cases hsink), hs.parked, hs.sending⟩, silent_ne c⟩
  | clear =>
      exact ⟨⟨hs.put fun _ hsink => (by cases hsink),
        fun k hk => hs.parked k (free_eq_some.mp hk).2, hs.sending⟩, silent_ne c⟩

/-- What is written to is spent from then on. -/
theorem written_step {e : Event} {msg : RendezvousMessage} {cause : ConnId} (hi : SinkInv X s)
    (hm : Move X s e s' (.written c msg cause)) : Spent s' c := by
  have ho := hi.owned
  cases hm with
  | @sendToTcpSync c' _ cn' _ _ todo hcn' _ hk =>
      obtain ⟨cn, hcn, _, hs, _⟩ := ho.parked _ _ hk
      refine ⟨?_, fun _ => free_ne_some fun _ hk' => ho.unique hk' hk,
        fun t ht heq => (ho.taken t ht).2 _ (by rw [heq]; exact hk)⟩
      by_cases hc : c = c'
      · subst hc
        obtain rfl := Option.some.inj (hcn.symm.trans hcn')
        exact ⟨_, put_self .., fun hsink => by rw [hs] at hsink; cases hsink⟩
      · exact ⟨cn, (put_ne hc).trans hcn, fun hsink => by rw [hs] at hsink; cases hsink⟩
  | sendToSink hcn htodo hsink =>
      obtain ⟨hp, ht⟩ := ho.inHand hcn hsink
      have hrest := hi.todo _ _ hcn
      rw [htodo] at hrest
      cases hrest with
      | reply _ hkeep => exact ⟨⟨_, put_self .., fun _ => ⟨hkeep, rfl⟩⟩, hp, ht⟩
  | @flush n t ht =>
      obtain ⟨⟨cn, hcn, hs⟩, hp⟩ := ho.taken t (List.mem_of_getElem? ht)
      refine ⟨⟨cn, hcn, fun hsink => by rw [hs] at hsink; cases hsink⟩, hp, ?_⟩
      intro t' ht' heq
      -- no other task has this sink
      obtain ⟨hlt, hget⟩ := List.getElem?_eq_some_iff.mp ht
      have hnodup := ((List.getElem_cons_eraseIdx_perm hlt).map Sending.sink).nodup_iff.mpr ho.once
      rw [List.map_cons, List.nodup_cons, hget] at hnodup
      exact hnodup.1 (List.mem_map.mpr ⟨t', ht', heq⟩)

theorem writes_written {o : Occ State Event Out} {msg : RendezvousMessage} {cause : ConnId}
    (hout : o.out = .written c msg cause) : writes c (h ++ [o]) = writes c h + 1 := by
  simp [writes, List.countP_append, hout]

theorem writes_other {o : Occ State Event Out}
    (hout : ∀ msg cause, o.out ≠ .written c msg cause) : writes c (h ++ [o]) = writes c h := by
  rw [writes, List.countP_append, writes, Nat.add_eq_left, List.countP_singleton]
  cases ho : o.out with
  | silent => rfl
  | written c' msg cause =>
      have hne : c' ≠ c := by intro heq; subst heq; exact hout msg cause ho
      simp [hne]

/-- A connection that was written to is spent. -/
theorem writes_run {s₀ : Server} (hr : Run (sinks X key) (State.start s₀) h s) (c : ConnId) :
    writes c h = 0 ∨ (writes c h = 1 ∧ Spent s c) := by
  refine (Run.inv (I := fun h s => SinkInv X s ∧ (writes c h = 0 ∨ (writes c h = 1 ∧ Spent s c)))
    ⟨sinkInv_start s₀, .inl rfl⟩ ?_ hr).2
  intro h s e s' o ⟨hi, hw⟩ hst
  have hm := sinks_move hst
  refine ⟨sinkInv_step hi hm, ?_⟩
  rcases hw with hw | ⟨hw, hs⟩
  · by_cases hout : ∃ msg cause, o = .written c msg cause
    · obtain ⟨msg, cause, rfl⟩ := hout
      exact .inr ⟨by rw [writes_written rfl, hw], written_step hi hm⟩
    · exact .inl ((writes_other fun msg cause heq => hout ⟨msg, cause, heq⟩).trans hw)
  · obtain ⟨hs', hno⟩ := spent_step hs hm
    exact .inr ⟨(writes_other hno).trans hw, hs'⟩

/-! ## Sink ownership -/

inductive Where where
  /-- Local to its own handler. -/
  | inHand
  /-- In `tcp_punch` under this key. -/
  | parked (k : SocketAddr)
  /-- With a spawned task that is about to write. -/
  | sending
  /-- Written to and dropped, or dropped. -/
  | gone

def Place (s : State) (c : ConnId) : Where → Prop
  | .inHand => ∃ cn, s.conns c = some cn ∧ cn.running = true ∧ cn.sink = true
  | .parked k => s.tcpPunch k = some c
  | .sending => ∃ t ∈ s.sending, t.sink = c
  | .gone => (∀ cn, s.conns c = some cn → cn.sink = false) ∧ (∀ k, s.tcpPunch k ≠ some c)
    ∧ ∀ t ∈ s.sending, t.sink ≠ c

/-- **Sink ownership**, over every interleaving of handlers, answers and spawned tasks: every
connection's sink is in one place, what is parked belongs under its key to a handler that is
still running, and no connection is written to twice. -/
theorem sink_owned {s₀ : Server} (hr : Run (sinks X key) (State.start s₀) h s) :
    (∀ c cn, s.conns c = some cn → ∃! w, Place s c w)
      ∧ (∀ k c, s.tcpPunch k = some c →
        ∃ cn, s.conns c = some cn ∧ cn.running = true ∧ k = X.tryIntoV4 cn.addr)
      ∧ ∀ c, writes c h ≤ 1 := by
  have hi := sinkInv_run hr
  have ho := hi.owned
  refine ⟨?_, ?_, ?_⟩
  · intro c cn hcn
    have hwhole : ∀ cn', s.conns c = some cn' → cn' = cn :=
      fun cn' hcn' => (Option.some.inj (hcn.symm.trans hcn')).symm
    cases hsink : cn.sink with
    | true =>
        obtain ⟨hp, ht⟩ := ho.inHand hcn hsink
        refine ⟨.inHand, ⟨cn, hcn, ho.hand c cn hcn hsink, hsink⟩, ?_⟩
        intro w hw
        cases w with
        | inHand => rfl
        | parked k => exact absurd hw (hp k)
        | sending => obtain ⟨t, hmem, heq⟩ := hw; exact absurd heq (ht t hmem)
        | gone => rw [hw.1 cn hcn] at hsink; cases hsink
    | false =>
        have hhand : ¬ Place s c .inHand := by
          intro hplace
          obtain ⟨cn', hcn', _, hs⟩ := hplace
          rw [hwhole cn' hcn', hsink] at hs
          cases hs
        by_cases hpark : ∃ k, s.tcpPunch k = some c
        · obtain ⟨k, hk⟩ := hpark
          refine ⟨.parked k, hk, ?_⟩
          intro w hw
          cases w with
          | inHand => exact absurd hw hhand
          | parked k' => rw [ho.unique hw hk]
          | sending =>
              obtain ⟨t, hmem, heq⟩ := hw
              exact absurd (heq ▸ hk) ((ho.taken t hmem).2 k)
          | gone => exact absurd hk (hw.2.1 k)
        · by_cases hsend : ∃ t ∈ s.sending, t.sink = c
          · refine ⟨.sending, hsend, ?_⟩
            intro w hw
            cases w with
            | inHand => exact absurd hw hhand
            | parked k => exact absurd ⟨k, hw⟩ hpark
            | sending => rfl
            | gone => obtain ⟨t, hmem, heq⟩ := hsend; exact absurd heq (hw.2.2 t hmem)
          · refine ⟨.gone, ⟨fun cn' hcn' => by rw [hwhole cn' hcn', hsink],
              fun k hk => hpark ⟨k, hk⟩, fun t hmem heq => hsend ⟨t, hmem, heq⟩⟩, ?_⟩
            intro w hw
            cases w with
            | inHand => exact absurd hw hhand
            | parked k => exact absurd ⟨k, hw⟩ hpark
            | sending => exact absurd hw hsend
            | gone => rfl
  · intro k c hk
    obtain ⟨cn, hcn, hrun, _, hkey⟩ := ho.parked k c hk
    exact ⟨cn, hcn, hrun, hkey⟩
  · intro c
    rcases writes_run hr c with hw | ⟨hw, _⟩ <;> omega

/-- A request for nobody, refused on the spot. -/
def refusedTrace : List Event :=
  [.accept 0 .unspecified false,
   .recv 0 (.sample 0 1) (some (.punchHoleRequest ⟨"peer-1", .symmetric, ""⟩)) 0,
   .exec 0, .exec 0, .finish 0]

theorem sink_owned_refused :
    ∃ h s, Run (sinks Ext.sample "") (State.start (.start .sample .empty)) h s
      ∧ writes 0 h = 1 ∧ writes 0 h ≤ 1 := by
  obtain ⟨h, s, hr, _, hp⟩ := @exists_run _ _ _ (sinks Ext.sample "")
    (State.start (.start .sample .empty)) refusedTrace (fun h _ => writes 0 h = 1) (by decide)
  exact ⟨h, s, hr, decide_eq_true_iff.mp hp, (sink_owned hr).2.2 0⟩

end KinBridge.Sinks
