import KinBridge.Proof.Sinks

/-!
# Whose answer reaches whom

A peer's answer finds the requester's sink by address alone. That is enough as long as no
two connections that wait, or may still be answered, have the same address. Clients on
plain TCP differ in their ports. WebSocket clients behind a proxy are known by what the
proxy's header says, with port 0, and two clients of one proxy host look the same.

The condition is on one kind of step: when a handler parks its sink, no other connection
of that address is engaged. From there everything stays apart.
-/

namespace KinBridge.Sinks

open KinBridge Runs Slots

variable {X : Ext} {key : String} {s s' : State} {h : List (Occ State Event Out)}

/-- The connection has this key, and has given its sink away, or may still be answered. -/
def Engaged (X : Ext) (conns : ConnId → Option Conn) (forwarded : List (ConnId × Bytes))
    (c : ConnId) (k : SocketAddr) : Prop :=
  ∃ cn, conns c = some cn ∧ k = X.tryIntoV4 cn.addr ∧
    ((cn.running = true ∧ cn.sink = false) ∨ ∃ bytes, (c, bytes) ∈ forwarded)

/-- When a sink is parked, nobody else is engaged under its key. -/
def ParksAlone (X : Ext) (s : State) : Event → Prop
  | .exec c => ∀ cn addr todo, s.conns c = some cn → cn.todo = .park addr :: todo →
      cn.sink = true → ∀ c', Engaged X s.conns s.forwarded c' (X.tryIntoV4 cn.addr) → c' = c
  | _ => True

/-- A peer that answers names the address it was given with the request. -/
def Echoes (s : State) : Event → Prop
  | .recv _ _ msg cause => isAnswer msg = true → ∀ bytes, answerAddr msg = some bytes →
      (cause, bytes) ∈ s.forwarded
  | _ => True

instance (s : State) : (e : Event) → Decidable (Echoes s e)
  | .recv _ _ msg cause => inferInstanceAs (Decidable
      (isAnswer msg = true → ∀ bytes ∈ answerAddr msg, (cause, bytes) ∈ s.forwarded))
  | .udp .. | .accept .. | .exec _ | .flush _ | .finish _ => isTrue trivial

/-- On whose behalf a step is taken. -/
def actsFor (s : State) : Event → Option ConnId
  | .udp .. => none
  | .accept c _ _ | .recv c _ _ _ | .finish c => some c
  | .exec c => (s.conns c).map Conn.cause
  | .flush n => (s.sending[n]?).map Sending.cause

/-- What is written goes to the connection it is meant for, and a parked sink is overwritten
or removed only on behalf of its own connection. -/
def Isolated (h : List (Occ State Event Out)) : Prop :=
  ∀ o ∈ h, (∀ c msg cause, o.out = .written c msg cause → c = cause) ∧
    ∀ k a, o.pre.tcpPunch k = some a → o.post.tcpPunch k = some a ∨ actsFor o.pre o.ev = some a

/-! ## Engaged connections have keys of their own -/

def Alone (X : Ext) (conns : ConnId → Option Conn) (forwarded : List (ConnId × Bytes)) : Prop :=
  ∀ k c c', Engaged X conns forwarded c k → Engaged X conns forwarded c' k → c = c'

variable {conns : ConnId → Option Conn} {forwarded : List (ConnId × Bytes)} {c : ConnId}
  {cn cn' : Conn}

/-- A handler that goes on or returns is engaged afterwards only if it was before. -/
theorem engaged_put {k : SocketAddr} {x : ConnId} (hcn : conns c = some cn)
    (haddr : cn'.addr = cn.addr)
    (hgone : cn'.running = true → cn'.sink = false → cn.running = true ∧ cn.sink = false)
    (he : Engaged X (put conns c cn') forwarded x k) : Engaged X conns forwarded x k := by
  obtain ⟨y, hy, hk, hor⟩ := he
  rcases put_eq_some.mp hy with ⟨rfl, rfl⟩ | ⟨_, hy⟩
  · exact ⟨cn, hcn, by rw [← haddr]; exact hk, hor.imp_left fun hg => hgone hg.1 hg.2⟩
  · exact ⟨y, hy, hk, hor⟩

/-- What every run keeps whose parking is alone and whose answers echo. -/
structure IsoInv (X : Ext) (s : State) : Prop where
  owned : Owned X s.conns s.tcpPunch s.sending
  /-- Every answer in hand names the address of its request. -/
  todo : ∀ c cn, s.conns c = some cn →
    Todo X (fun a bytes => (a, bytes) ∈ s.forwarded) c cn cn.todo
  busy : ∀ c cn, s.conns c = some cn → cn.todo ≠ [] → cn.running = true
  /-- Requests are passed on with the requester's own address. -/
  forwarded : ∀ c bytes, (c, bytes) ∈ s.forwarded →
    ∃ cn, s.conns c = some cn ∧ bytes = X.encode cn.addr
  alone : Alone X s.conns s.forwarded
  sending : ∀ t ∈ s.sending, t.sink = t.cause

/-- A parked sink's connection is engaged under its key. -/
theorem Owned.engaged {tcpPunch : SocketAddr → Option ConnId} {sending : List Sending}
    (ho : Owned X conns tcpPunch sending) {k : SocketAddr} (hk : tcpPunch k = some c) :
    Engaged X conns forwarded c k := by
  obtain ⟨cn, hcn, hrun, hsink, rfl⟩ := ho.parked k c hk
  exact ⟨cn, hcn, rfl, .inl ⟨hrun, hsink⟩⟩

theorem IsoInv.running (hi : IsoInv X s) (hcn : s.conns c = some cn) {effect : TcpEffect}
    {todo : List TcpEffect} (htodo : cn.todo = effect :: todo) : cn.running = true :=
  hi.busy c cn hcn (by rw [htodo]; exact List.cons_ne_nil _ _)

/-- **Whoever is found under the address of an answer, or of a refusal, is the one it is
for.** -/
theorem IsoInv.found (hi : IsoInv X s) (hdecode : ∀ a, X.decode (X.encode a) = X.tryIntoV4 a)
    (hv4 : ∀ a, X.tryIntoV4 (X.tryIntoV4 a) = X.tryIntoV4 a) (hcn : s.conns c = some cn)
    {effect : TcpEffect} {todo : List TcpEffect} {msg : RendezvousMessage} {addr : SocketAddr}
    (htodo : cn.todo = effect :: todo)
    (heffect : effect = .sendToTcp msg addr ∨ effect = .sendToTcpSync msg addr) {a : ConnId}
    (hk : s.tcpPunch (X.tryIntoV4 addr) = some a) : a = cn.cause := by
  have hrest := hi.todo c cn hcn
  rw [htodo] at hrest
  have hparked : Engaged X s.conns s.forwarded a (X.tryIntoV4 addr) := hi.owned.engaged hk
  -- an answer to `cause` finds `cause`
  have hanswer : ∀ bytes, (cn.cause, bytes) ∈ s.forwarded → addr = X.decode bytes →
      a = cn.cause := by
    intro bytes hmem heq
    subst heq
    obtain ⟨cnA, hcnA, rfl⟩ := hi.forwarded _ _ hmem
    rw [hdecode, hv4] at hparked
    exact hi.alone _ _ _ hparked ⟨cnA, hcnA, rfl, .inr ⟨_, hmem⟩⟩
  rcases heffect with rfl | rfl
  · cases hrest with
    | answer hmem => exact hanswer _ hmem rfl
  · cases hrest with
    | answerSync hmem => exact hanswer _ hmem rfl
    | refused hcause hsink =>
        have hrun := hi.running hcn htodo
        rw [hcause]
        exact hi.alone _ _ _ hparked ⟨cn, hcn, rfl, .inl ⟨hrun, hsink⟩⟩

theorem busy_put (hbusy : ∀ x y, conns x = some y → y.todo ≠ [] → y.running = true)
    (hc : cn'.todo ≠ [] → cn'.running = true) :
    ∀ x y, put conns c cn' x = some y → y.todo ≠ [] → y.running = true := by
  intro x y hy ht
  rcases put_eq_some.mp hy with ⟨rfl, rfl⟩ | ⟨_, hy⟩
  · exact hc ht
  · exact hbusy x y hy ht

/-- A handler that goes on keeps the address that its requests were passed on with. -/
theorem forwarded_put (hfwd : ∀ x bytes, (x, bytes) ∈ forwarded →
      ∃ y, conns x = some y ∧ bytes = X.encode y.addr)
    (hcn : conns c = some cn) (haddr : cn'.addr = cn.addr) :
    ∀ x bytes, (x, bytes) ∈ forwarded →
      ∃ y, put conns c cn' x = some y ∧ bytes = X.encode y.addr := by
  intro x bytes hmem
  obtain ⟨y, hy, hb⟩ := hfwd x bytes hmem
  by_cases hx : x = c
  · subst hx
    obtain rfl := Option.some.inj (hcn.symm.trans hy)
    exact ⟨cn', put_self .., by rw [haddr]; exact hb⟩
  · exact ⟨y, (put_ne hx).trans hy, hb⟩

/-- The invariant after a step that changes one handler and leaves `forwarded` alone. -/
theorem IsoInv.of_put {server : Server} {tcpPunch : SocketAddr → Option ConnId}
    {sending : List Sending} (hi : IsoInv X s) (hcn : s.conns c = some cn)
    (haddr : cn'.addr = cn.addr)
    (hgone : cn'.running = true → cn'.sink = false → cn.running = true ∧ cn.sink = false)
    (hbusy : cn'.todo ≠ [] → cn'.running = true)
    (htodo : Todo X (fun a bytes => (a, bytes) ∈ s.forwarded) c cn' cn'.todo)
    (howned : Owned X (put s.conns c cn') tcpPunch sending)
    (hsending : ∀ t ∈ sending, t.sink = t.cause) :
    IsoInv X ⟨server, put s.conns c cn', tcpPunch, sending, s.forwarded⟩ where
  owned := howned
  todo := todo_put hi.todo htodo
  busy := busy_put hi.busy hbusy
  forwarded := forwarded_put hi.forwarded hcn haddr
  alone k x x' hx hx' :=
    hi.alone k x x' (engaged_put hcn haddr hgone hx) (engaged_put hcn haddr hgone hx')
  sending := hsending

/-- The rest of a message after an effect. -/
theorem IsoInv.tail (hi : IsoInv X s) (hcn : s.conns c = some cn) {effect : TcpEffect}
    {todo : List TcpEffect} (htodo : cn.todo = effect :: todo)
    (hpark : ∀ addr, effect = .park addr → cn.sink = false) :
    Todo X (fun a bytes => (a, bytes) ∈ s.forwarded) c { cn with todo := todo } todo :=
  todo_tail (hi.todo c cn hcn) htodo hpark

/-- A new connection has its sink, and nothing was passed on for it. -/
theorem IsoInv.accept (hi : IsoInv X s) (hnone : s.conns c = none) (addr : SocketAddr) (ws : Bool) :
    IsoInv X { s with conns := put s.conns c ⟨addr, ws, true, [], true, c, true⟩ } := by
  have hold : ∀ x y, s.conns x = some y → x ≠ c := by
    intro x y hy hx
    rw [hx, hnone] at hy; cases hy
  have heng : ∀ k x, Engaged X (put s.conns c ⟨addr, ws, true, [], true, c, true⟩)
      s.forwarded x k → Engaged X s.conns s.forwarded x k := by
    intro k x heng
    obtain ⟨y, hy, hk, hor⟩ := heng
    rcases put_eq_some.mp hy with ⟨rfl, rfl⟩ | ⟨_, hy⟩
    · rcases hor with ⟨_, hs⟩ | ⟨bytes, hmem⟩
      · cases hs
      · obtain ⟨z, hz, _⟩ := hi.forwarded x bytes hmem
        exact absurd rfl (hold x z hz)
    · exact ⟨y, hy, hk, hor⟩
  refine ⟨hi.owned.accept hnone rfl, todo_put hi.todo .nothing, busy_put hi.busy fun _ => rfl,
    ?_, ?_, hi.sending⟩
  · intro x bytes hmem
    obtain ⟨y, hy, hb⟩ := hi.forwarded x bytes hmem
    exact ⟨y, (put_ne (hold x y hy)).trans hy, hb⟩
  · intro k x x' hx hx'
    exact hi.alone k x x' (heng k x hx) (heng k x' hx')

/-- Parking engages one more connection, which is alone under its key. -/
theorem IsoInv.park (hi : IsoInv X s) (hcn : s.conns c = some cn) {todo : List TcpEffect}
    (htodo : cn.todo = .park cn.addr :: todo) (hsink : cn.sink = true)
    (hothers : ∀ c', Engaged X s.conns s.forwarded c' (X.tryIntoV4 cn.addr) → c' = c) :
    IsoInv X { s with
      conns := put s.conns c { cn with todo := todo, sink := false }
      tcpPunch := put s.tcpPunch (X.tryIntoV4 cn.addr) c } := by
  have hrun := hi.running hcn htodo
  have hrest := hi.todo c cn hcn
  rw [htodo] at hrest
  have heng : ∀ k x, Engaged X (put s.conns c { cn with todo := todo, sink := false })
      s.forwarded x k → Engaged X s.conns s.forwarded x k ∨ (x = c ∧ k = X.tryIntoV4 cn.addr) := by
    intro k x heng
    obtain ⟨y, hy, hk, hor⟩ := heng
    rcases put_eq_some.mp hy with ⟨rfl, rfl⟩ | ⟨_, hy⟩
    · exact .inr ⟨rfl, hk⟩
    · exact .inl ⟨y, hy, hk, hor⟩
  refine ⟨hi.owned.park hcn hsink rfl rfl rfl, todo_put hi.todo (hrest.of_park.2.2 _ rfl rfl rfl),
    busy_put hi.busy fun _ => hrun, forwarded_put hi.forwarded hcn rfl, ?_, hi.sending⟩
  intro k x x' hx hx'
  rcases heng k x hx with hold | ⟨hxc, hk⟩ <;> rcases heng k x' hx' with hold' | ⟨hxc', hk'⟩
  · exact hi.alone k x x' hold hold'
  · rw [hxc']; exact hothers x (hk' ▸ hold)
  · rw [hxc]; exact (hothers x' (hk ▸ hold')).symm
  · rw [hxc, hxc']

/-- Passing a request on engages nobody new, since the sink is gone already. -/
theorem IsoInv.queue (hi : IsoInv X s) (hcn : s.conns c = some cn) {msg : RendezvousMessage}
    {dest : SocketAddr} {todo : List TcpEffect} {bytes : Bytes}
    (htodo : cn.todo = .queue msg dest :: todo) (hbytes : forwardAddr msg = some bytes) :
    IsoInv X { s with
      conns := put s.conns c { cn with todo := todo }
      forwarded := (c, bytes) :: s.forwarded } := by
  have hrun := hi.running hcn htodo
  have hrest := hi.todo c cn hcn
  rw [htodo] at hrest
  cases hrest with
  | queue hcause hsink hfwd =>
      have heng : ∀ k x, Engaged X (put s.conns c { cn with todo := [] })
          ((c, bytes) :: s.forwarded) x k → Engaged X s.conns s.forwarded x k := by
        intro k x heng
        obtain ⟨y, hy, hk, hor⟩ := heng
        rcases put_eq_some.mp hy with ⟨rfl, rfl⟩ | ⟨hx, hy⟩
        · exact ⟨cn, hcn, hk, .inl ⟨hrun, hsink⟩⟩
        · refine ⟨y, hy, hk, hor.imp_right fun ⟨b, hb⟩ => ?_⟩
          rcases List.mem_cons.mp hb with heq | hb
          · exact absurd (Prod.mk.inj heq).1 hx
          · exact ⟨b, hb⟩
      have hmono : ∀ a b, (a, b) ∈ s.forwarded → (a, b) ∈ (c, bytes) :: s.forwarded :=
        fun _ _ => List.mem_cons_of_mem _
      refine ⟨hi.owned.goOn hcn rfl rfl rfl,
        todo_put (fun x y hy => (hi.todo x y hy).mono hmono) .nothing,
        busy_put hi.busy fun _ => hrun, ?_, ?_, hi.sending⟩
      · intro x b hmem
        rcases List.mem_cons.mp hmem with heq | hmem
        · obtain ⟨rfl, rfl⟩ := Prod.mk.inj heq
          exact ⟨_, put_self .., Option.some.inj (hbytes.symm.trans hfwd)⟩
        · refine forwarded_put hi.forwarded hcn ?_ x b hmem
          rfl
      · intro k x x' hx hx'
        exact hi.alone k x x' (heng k x hx) (heng k x' hx')

theorem isoInv_step {e : Event} {o : Out} (hdecode : ∀ a, X.decode (X.encode a) = X.tryIntoV4 a)
    (hv4 : ∀ a, X.tryIntoV4 (X.tryIntoV4 a) = X.tryIntoV4 a) (hi : IsoInv X s)
    (halone : ParksAlone X s e) (hecho : Echoes s e) (hm : Move X s e s' o) : IsoInv X s' := by
  have ho := hi.owned
  cases hm with
  | udp => exact ⟨ho, hi.todo, hi.busy, hi.forwarded, hi.alone, hi.sending⟩
  | accept hnone => exact hi.accept hnone _ _
  | recv hcn hrun _ _ hscript =>
      exact hi.of_put hcn rfl (fun hr hs => ⟨hr, hs⟩) (fun _ => hrun)
        (.of_script hscript hecho) (ho.goOn hcn rfl rfl rfl) hi.sending
  | skip hcn htodo hpark =>
      have hrun := hi.running hcn htodo
      exact hi.of_put hcn rfl (fun hr hs => ⟨hr, hs⟩) (fun _ => hrun)
        (hi.tail hcn htodo hpark) (ho.goOn hcn rfl rfl rfl) hi.sending
  | park hcn htodo hsink =>
      have hrest := hi.todo _ _ hcn
      rw [htodo] at hrest
      obtain ⟨rfl, _⟩ := hrest.of_park
      exact hi.park hcn htodo hsink (halone _ _ _ hcn htodo hsink)
  | queue hcn htodo hbytes => exact hi.queue hcn htodo hbytes
  | sendToTcp hcn htodo hk =>
      have hrun := hi.running hcn htodo
      refine hi.of_put hcn rfl (fun hr hs => ⟨hr, hs⟩) (fun _ => hrun)
        (hi.tail hcn htodo (by intros; contradiction)) ((ho.send hk _ _).goOn hcn rfl rfl rfl) ?_
      intro t ht
      rcases List.mem_cons.mp ht with rfl | ht
      · exact hi.found hdecode hv4 hcn htodo (.inl rfl) hk
      · exact hi.sending t ht
  | sendToTcpSync hcn htodo =>
      have hrun := hi.running hcn htodo
      exact hi.of_put hcn rfl (fun hr hs => ⟨hr, hs⟩) (fun _ => hrun)
        (hi.tail hcn htodo (by intros; contradiction)) ((ho.free _).goOn hcn rfl rfl rfl) hi.sending
  | sendToSink hcn htodo =>
      have hrun := hi.running hcn htodo
      exact hi.of_put hcn rfl (fun hr hs => ⟨hr, hs⟩) (fun _ => hrun)
        (hi.tail hcn htodo (by intros; contradiction)) (ho.goOn hcn rfl rfl rfl) hi.sending
  | flush =>
      refine ⟨ho.flush _, hi.todo, hi.busy, hi.forwarded, hi.alone, ?_⟩
      intro t ht
      exact hi.sending t ((List.eraseIdx_sublist ..).subset ht)
  | drop hcn _ htodo hsink =>
      exact hi.of_put hcn rfl (fun hr _ => by cases hr) (fun ht => absurd htodo ht)
        (by rw [htodo]; exact .nothing) (ho.finish hcn (ho.inHand hcn hsink).1 rfl) hi.sending
  | clear hcn _ htodo =>
      exact hi.of_put hcn rfl (fun hr _ => by cases hr) (fun ht => absurd htodo ht)
        (by rw [htodo]; exact .nothing) ((ho.free _).finish hcn (ho.cleared hcn) rfl) hi.sending

theorem isoInv_start (s₀ : Server) : IsoInv X (State.start s₀) where
  owned := (sinkInv_start s₀).owned
  todo := nofun
  busy := nofun
  forwarded := nofun
  alone k c c' heng := by
    obtain ⟨cn, hcn, _⟩ := heng
    cases hcn
  sending := nofun

/-! ## What one step may do -/

/-- What is written goes to the connection it is meant for. -/
theorem IsoInv.written (hi : IsoInv X s) (hdecode : ∀ a, X.decode (X.encode a) = X.tryIntoV4 a)
    (hv4 : ∀ a, X.tryIntoV4 (X.tryIntoV4 a) = X.tryIntoV4 a) {e : Event}
    {msg : RendezvousMessage} {cause : ConnId} (hm : Move X s e s' (.written c msg cause)) :
    c = cause := by
  cases hm with
  | sendToTcpSync hcn htodo hk => exact hi.found hdecode hv4 hcn htodo (.inr rfl) hk
  | sendToSink hcn htodo =>
      have hrest := hi.todo _ _ hcn
      rw [htodo] at hrest
      cases hrest with
      | reply hcause => exact hcause.symm
  | flush hget => exact hi.sending _ (List.mem_of_getElem? hget)

/-- A parked sink stays where it is unless the step is taken for its connection. -/
theorem IsoInv.kept (hi : IsoInv X s) (hdecode : ∀ a, X.decode (X.encode a) = X.tryIntoV4 a)
    (hv4 : ∀ a, X.tryIntoV4 (X.tryIntoV4 a) = X.tryIntoV4 a) {e : Event} {o : Out}
    (halone : ParksAlone X s e) (hm : Move X s e s' o) {k : SocketAddr} {a : ConnId}
    (hk : s.tcpPunch k = some a) : s'.tcpPunch k = some a ∨ actsFor s e = some a := by
  have hparked : Engaged X s.conns s.forwarded a k := hi.owned.engaged hk
  -- taking a sink out under the address an effect names
  have hsend : ∀ {c cn} {effect : TcpEffect} {todo msg addr}, s.conns c = some cn →
      cn.todo = effect :: todo → effect = .sendToTcp msg addr ∨ effect = .sendToTcpSync msg addr →
      free s.tcpPunch (X.tryIntoV4 addr) k = some a ∨ (s.conns c).map Conn.cause = some a := by
    intro c cn effect todo msg addr hcn htodo heffect
    by_cases hkey : k = X.tryIntoV4 addr
    · subst hkey
      right
      rw [hcn, hi.found hdecode hv4 hcn htodo heffect hk]
      rfl
    · exact .inl ((free_ne hkey).trans hk)
  cases hm with
  | udp | accept | recv | skip | queue | sendToSink | flush | drop => exact .inl hk
  | sendToTcp hcn htodo => exact hsend hcn htodo (.inl rfl)
  | sendToTcpSync hcn htodo => exact hsend hcn htodo (.inr rfl)
  | @park c cn addr todo hcn htodo hsink =>
      have hrest := hi.todo c cn hcn
      rw [htodo] at hrest
      obtain ⟨rfl, _⟩ := hrest.of_park
      by_cases hkey : k = X.tryIntoV4 cn.addr
      · -- only its own connection could be parked here, and that one has its sink in hand
        subst hkey
        obtain rfl := halone cn _ todo hcn htodo hsink a hparked
        exact absurd hk ((hi.owned.inHand hcn hsink).1 _)
      · exact .inl ((put_ne hkey).trans hk)
  | @clear c cn hcn hrun _ hsink =>
      by_cases hkey : k = X.tryIntoV4 cn.addr
      · have hmine : Engaged X s.conns s.forwarded c k := ⟨cn, hcn, hkey, .inl ⟨hrun, hsink⟩⟩
        exact .inr (congrArg some (hi.alone k c a hmine hparked))
      · exact .inl ((free_ne hkey).trans hk)

/-! ## Isolation -/

theorem isolated_nil : Isolated [] := by
  intro o ho; cases ho

/-- **Response isolation**, over every interleaving in which sinks are parked alone. -/
theorem isolated {s₀ : Server} (hdecode : ∀ a, X.decode (X.encode a) = X.tryIntoV4 a)
    (hv4 : ∀ a, X.tryIntoV4 (X.tryIntoV4 a) = X.tryIntoV4 a)
    (hr : Run (sinks X key) (State.start s₀) h s) (halone : ∀ o ∈ h, ParksAlone X o.pre o.ev)
    (hecho : ∀ o ∈ h, Echoes o.pre o.ev) : Isolated h := by
  refine (Run.inv_of (C := fun s e => ParksAlone X s e ∧ Echoes s e)
    (I := fun h s => IsoInv X s ∧ Isolated h) ⟨isoInv_start s₀, isolated_nil⟩ ?_ hr
    fun o ho => ⟨halone o ho, hecho o ho⟩).2
  intro h s e s' o hinv hcond hst
  obtain ⟨hi, hiso⟩ := hinv
  obtain ⟨ha, he⟩ := hcond
  have hm := sinks_move hst
  refine ⟨isoInv_step hdecode hv4 hi ha he hm, ?_⟩
  intro x hx
  rcases List.mem_append.mp hx with hx | hx
  · exact hiso x hx
  · obtain rfl := List.mem_singleton.mp hx
    refine ⟨?_, fun k a hk => hi.kept hdecode hv4 ha hm hk⟩
    intro c msg cause heq
    subst heq
    exact hi.written hdecode hv4 hm

/-! ### Connections whose addresses differ -/

/-- The connections there are have been accepted. -/
theorem conns_accepted {s₀ : Server} (hr : Run (sinks X key) (State.start s₀) h s)
    (hcn : s.conns c = some cn) : ∃ ws, .accept c cn.addr ws ∈ h.map Occ.ev := by
  refine Run.inv (I := fun h s => ∀ c cn, s.conns c = some cn →
    ∃ ws, Event.accept c cn.addr ws ∈ h.map Occ.ev) nofun ?_ hr c cn hcn
  intro h s e s' o hi hst c cn hcn
  rw [List.map_append]
  have hkeep : ∀ x y, s.conns x = some y →
      ∃ ws, Event.accept x y.addr ws ∈ h.map Occ.ev ++ [e] := by
    intro x y hy
    obtain ⟨ws, hmem⟩ := hi x y hy
    exact ⟨ws, List.mem_append_left _ hmem⟩
  -- a handler that goes on keeps its address
  have hput : ∀ {x : ConnId} {y y' : Conn}, s.conns x = some y → put s.conns x y' c = some cn →
      y'.addr = y.addr → ∃ ws, Event.accept c cn.addr ws ∈ h.map Occ.ev ++ [e] := by
    intro x y y' hy hc haddr
    rcases put_eq_some.mp hc with ⟨rfl, rfl⟩ | ⟨_, hc⟩
    · rw [haddr]; exact hkeep c y hy
    · exact hkeep c cn hc
  cases sinks_move hst with
  | udp | flush => exact hkeep c cn hcn
  | accept =>
      rcases put_eq_some.mp hcn with ⟨rfl, rfl⟩ | ⟨_, hcn⟩
      · exact ⟨_, List.mem_append_right _ List.mem_cons_self⟩
      · exact hkeep c cn hcn
  | recv hy | skip hy | park hy | queue hy | sendToTcp hy | sendToTcpSync hy | sendToSink hy
  | drop hy | clear hy => exact hput hy hcn rfl

/-- Where no two connections have the same address, every sink is parked alone. -/
theorem parksAlone_of_distinct {s₀ : Server} (hr : Run (sinks X key) (State.start s₀) h s)
    (hdistinct : ∀ c a ws c' a' ws', .accept c a ws ∈ h.map Occ.ev →
      .accept c' a' ws' ∈ h.map Occ.ev → X.tryIntoV4 a = X.tryIntoV4 a' → c' = c) :
    ∀ o ∈ h, ParksAlone X o.pre o.ev := by
  intro o ho
  obtain ⟨h₁, h₂, rfl, hpre, _, _⟩ := hr.mem ho
  cases hev : o.ev with
  | exec c =>
      intro cn addr todo hcn _ _ c' heng
      obtain ⟨cn', hcn', hkey, _⟩ := heng
      obtain ⟨ws, hmem⟩ := conns_accepted hpre hcn
      obtain ⟨ws', hmem'⟩ := conns_accepted hpre hcn'
      rw [List.map_append] at hdistinct
      exact hdistinct c _ ws c' _ ws' (List.mem_append_left _ hmem) (List.mem_append_left _ hmem')
        hkey
  | udp | accept | recv | flush | finish => trivial

def peerAddr : SocketAddr := ⟨.v4 ⟨10, 0, 0, 1⟩, 21116⟩

/-- A peer registers. -/
def peerRegisters : Event :=
  .udp (.sample 0 1) peerAddr (some (.registerPk ⟨"peer-1", [1], [2]⟩))

/-- Connection `c` asks for that peer. -/
def asksForPeer (c : ConnId) : Event :=
  .recv c (.sample 1 1) (some (.punchHoleRequest ⟨"peer-1", .symmetric, ""⟩)) c

/-- On connection `c` the peer answers the request of `cause`, at `addr`. -/
def peerAnswers (c cause : ConnId) (addr : SocketAddr) : Event :=
  .recv c (.sample 2 1)
    (some (.punchHoleSent ⟨Ext.sample.encode addr, "peer-1", "", .symmetric, ""⟩)) cause

/-- A request on plain TCP, and its answer. -/
def answeredTrace : List Event :=
  [peerRegisters, .accept 0 ⟨.v4 ⟨10, 0, 0, 7⟩, 5000⟩ false, asksForPeer 0, .exec 0, .exec 0,
   .accept 1 ⟨.v4 ⟨10, 0, 0, 1⟩, 6000⟩ false, peerAnswers 1 0 ⟨.v4 ⟨10, 0, 0, 7⟩, 5000⟩, .exec 1,
   .flush 0]

/-- A message meant for `cause` has been written to `c`. -/
def writtenFor (c cause : ConnId) (o : Occ State Event Out) : Bool :=
  match o.out with
  | .written c' _ cause' => c' = c && cause' = cause
  | .silent => false

theorem answeredTrace_accepts {a : SocketAddr} {ws : Bool}
    (hmem : .accept c a ws ∈ answeredTrace) :
    (c = 0 ∧ a = ⟨.v4 ⟨10, 0, 0, 7⟩, 5000⟩) ∨ (c = 1 ∧ a = ⟨.v4 ⟨10, 0, 0, 1⟩, 6000⟩) := by
  have hcases : (c = 0 ∧ a = ⟨.v4 ⟨10, 0, 0, 7⟩, 5000⟩ ∧ ws = false) ∨
      (c = 1 ∧ a = ⟨.v4 ⟨10, 0, 0, 1⟩, 6000⟩ ∧ ws = false) := by
    simpa [answeredTrace, peerRegisters, asksForPeer, peerAnswers] using hmem
  exact hcases.imp (fun h => ⟨h.1, h.2.1⟩) fun h => ⟨h.1, h.2.1⟩

theorem isolated_answered :
    ∃ h s, Run (sinks Ext.sample "") (State.start (.start .sample .empty)) h s
      ∧ h.map Occ.ev = answeredTrace ∧ h.any (writtenFor 0 0) ∧ Isolated h := by
  obtain ⟨h, s, hr, hev, hp⟩ := @exists_run _ _ _ (sinks Ext.sample "")
    (State.start (.start .sample .empty)) answeredTrace
    (fun h _ => h.any (writtenFor 0 0) && decide (∀ o ∈ h, Echoes o.pre o.ev)) (by decide)
  obtain ⟨hwritten, hecho⟩ := Bool.and_eq_true_iff.mp hp
  refine ⟨h, s, hr, hev, hwritten, isolated sample_decode sample_tryIntoV4 hr
    (parksAlone_of_distinct hr ?_) (of_decide_eq_true hecho)⟩
  rw [hev]
  intro c a ws c' a' ws' hmem hmem' hkey
  rcases answeredTrace_accepts hmem with ⟨rfl, rfl⟩ | ⟨rfl, rfl⟩ <;>
    rcases answeredTrace_accepts hmem' with ⟨rfl, rfl⟩ | ⟨rfl, rfl⟩
  · rfl
  · exact absurd hkey (by decide)
  · exact absurd hkey (by decide)
  · rfl

/-- Two WebSocket clients whom the proxy's header calls the same, with port 0, ask one after
the other, and then the first one's answer comes in. -/
def sameHeaderTrace : List Event :=
  [peerRegisters, .accept 0 ⟨.v4 ⟨10, 0, 0, 7⟩, 0⟩ true, .accept 1 ⟨.v4 ⟨10, 0, 0, 7⟩, 0⟩ true,
   asksForPeer 0, .exec 0, .exec 0, asksForPeer 1, .exec 1, .exec 1,
   .accept 2 ⟨.v4 ⟨10, 0, 0, 1⟩, 6000⟩ false, peerAnswers 2 0 ⟨.v4 ⟨10, 0, 0, 7⟩, 0⟩, .exec 2,
   .flush 0]

/-- **An answer to one client, written to another.** -/
theorem not_isolated :
    ¬ ∀ h s, Run (sinks Ext.sample "") (State.start (.start .sample .empty)) h s →
      (∀ o ∈ h, Echoes o.pre o.ev) → Isolated h := by
  intro hall
  obtain ⟨h, s, hr, _, hp⟩ := @exists_run _ _ _ (sinks Ext.sample "")
    (State.start (.start .sample .empty)) sameHeaderTrace
    (fun h _ => h.any (writtenFor 1 0) && decide (∀ o ∈ h, Echoes o.pre o.ev)) (by decide)
  obtain ⟨hwritten, hecho⟩ := Bool.and_eq_true_iff.mp hp
  obtain ⟨o, ho, hw⟩ := List.any_eq_true.mp hwritten
  have hiso := (hall h s hr (of_decide_eq_true hecho) o ho).1
  unfold writtenFor at hw
  split at hw
  · rename_i c msg cause hout
    have hsame := hiso c msg cause hout
    simp only [Bool.and_eq_true, decide_eq_true_eq] at hw
    obtain ⟨rfl, rfl⟩ := hw
    exact absurd hsame (by decide)
  · cases hw

end KinBridge.Sinks
