import KinBridge.Lib.Runs
import KinBridge.Api.Events

/-!
# Whether a subscriber outlives its socket

The route subscribes before it listens for the end of its socket, and both come after the wait
for the token. If the socket closes during the wait, nobody listens, and the subscriber that is
made afterwards stays. Otherwise sockets and subscribers come and go together, and a socket that
stays is sent whatever is published.
-/

namespace KinBridge.Api

open Slots Runs

variable {A : Service} {w w' : WsServer} {h : List (Occ WsServer WsEvent (List WsEffect))}
  {e : WsEvent} {out : List WsEffect} {k j : Nat} {fn : Subscriber} {send : Subscriber → Sent}

/-- The `close` event has been emitted. -/
def WsServer.Closed (w : WsServer) (k : Nat) : Prop :=
  ∃ c, w.sockets k = some c ∧ c.closed = true

/-- The socket is open, and its token is verified. -/
def WsServer.Verified (w : WsServer) (k : Nat) : Prop :=
  ∃ c claims, w.sockets k = some c ∧ c.closed = false ∧ c.handler = .connected claims

structure Served (w : WsServer) : Prop where
  closed : ∀ k, w.Closed k → w.hub.of k = []
  verified : ∀ k, w.Verified k → ∃ fn, w.hub.of k = [fn]

/-- The events that a subscriber is called with. -/
def received (fn : Subscriber) (out : List WsEffect) : List KinbridgeEvent :=
  out.filterMap fun
    | .called fn' ev _ => if fn' = fn then some ev else none
    | .closing .. => none

/-- The events that are published. -/
def published (h : List (Occ WsServer WsEvent (List WsEffect))) : List KinbridgeEvent :=
  h.filterMap fun o =>
    match o.ev with
    | .publish ev _ => some ev
    | _ => none

/-- From any point of the run on, the subscriber of a socket that is open and verified, and is
so at the end, is called once with each event. -/
def Delivered (A : Service) (h : List (Occ WsServer WsEvent (List WsEffect))) (w : WsServer) :
    Prop :=
  ∀ h₁ h₂ u, h = h₁ ++ h₂ → Run (wsStep A) .start h₁ u → Run (wsStep A) u h₂ w →
    ∀ k fn, u.Verified k → fn ∈ u.hub.of k → w.Verified k →
      received fn (h₂.flatMap Occ.out) = published h₂

/-- At each point of the run. -/
def SocketsServed (A : Service) (h : List (Occ WsServer WsEvent (List WsEffect))) : Prop :=
  ∀ h₁ h₂ w, h = h₁ ++ h₂ → Run (wsStep A) .start h₁ w → Served w ∧ Delivered A h₁ w

/-- No token is verified for a socket that has closed. -/
def InTime (A : Service) (w : WsServer) (e : WsEvent) : Prop :=
  ∀ k now c token, e = .settle k now → w.sockets k = some c → c.closed = true →
    c.handler = .verifying token → verifyKinbridgeToken A.jose A.env now token = none

/-! ## Sockets and subscribers -/

/-- The socket has a subscriber, which its `close` takes out. -/
def Attached (w : WsServer) (k : Nat) (fn : Subscriber) : Prop :=
  w.hub.of k = [fn] ∧ ∃ c claims, w.sockets k = some c ∧ c.closed = false
    ∧ c.handler = .connected claims ∧ c.onClose = [fn]

/-- It has none, and need not have one. -/
def Detached (w : WsServer) (k : Nat) : Prop :=
  w.hub.of k = [] ∧ ∀ c, w.sockets k = some c → c.closed = false →
    c.onClose = [] ∧ ∀ claims, c.handler ≠ .connected claims

def Tidy (w : WsServer) : Prop := ∀ k, Detached w k ∨ ∃ fn, Attached w k fn

/-- Nothing has changed for the socket. -/
def Same (w w' : WsServer) (k : Nat) : Prop :=
  w'.sockets k = w.sockets k ∧ w'.hub.of k = w.hub.of k

theorem Same.attached (hs : Same w w' k) : Attached w' k fn ↔ Attached w k fn := by
  unfold Attached
  rw [hs.1, hs.2]

theorem Same.detached (hs : Same w w' k) : Detached w' k ↔ Detached w k := by
  unfold Detached
  rw [hs.1, hs.2]

/-- It is enough to look at the socket that a step is about. -/
theorem Tidy.of_same (ht : Tidy w) (hs : ∀ j, j ≠ k → Same w w' j)
    (hk : Detached w' k ∨ ∃ fn, Attached w' k fn) : Tidy w' := by
  intro j
  by_cases hj : j = k
  · subst hj
    exact hk
  · rw [(hs j hj).detached]
    simp only [(hs j hj).attached]
    exact ht j

theorem Tidy.served (ht : Tidy w) : Served w := by
  constructor
  · rintro k ⟨c, hc, hclosed⟩
    rcases ht k with hdet | ⟨fn, -, c', claims, hc', hopen, -⟩
    · exact hdet.1
    · rw [hc] at hc'
      rw [Option.some.inj hc', hopen] at hclosed
      cases hclosed
  · rintro k ⟨c, claims, hc, hopen, hverified⟩
    rcases ht k with hdet | ⟨fn, hatt⟩
    · exact absurd hverified ((hdet.2 c hc hopen).2 claims)
    · exact ⟨fn, hatt.1⟩

theorem Attached.verified (ha : Attached w k fn) : w.Verified k := by
  obtain ⟨-, c, claims, hc, hopen, hverified, -⟩ := ha
  exact ⟨c, claims, hc, hopen, hverified⟩

theorem WsServer.Verified.not_closed (hv : w.Verified k) : ¬ w.Closed k := by
  obtain ⟨c, _, hc, hopen, -⟩ := hv
  rintro ⟨c', hc', hclosed⟩
  rw [hc] at hc'
  rw [← Option.some.inj hc', hopen] at hclosed
  cases hclosed

/-- A subscriber is its socket's only one. -/
theorem Tidy.attached (ht : Tidy w) (hfn : fn ∈ w.hub.of k) : Attached w k fn := by
  rcases ht k with hdet | ⟨fn', hatt⟩
  · rw [hdet.1] at hfn
    cases hfn
  · rw [hatt.1] at hfn
    rwa [List.mem_singleton.mp hfn]

/-! ## Closing -/

/-- The listeners of an open socket take its subscriber out, and no other. -/
theorem onClose_of (ht : Tidy w) {c : WsSocket} (hc : w.sockets k = some c)
    (hopen : c.closed = false) : (c.onClose.foldl EventHub.unsubscribe w.hub).of k = []
      ∧ ∀ j, j ≠ k → (c.onClose.foldl EventHub.unsubscribe w.hub).of j = w.hub.of j := by
  rcases ht k with hdet | ⟨fn, hof, c', _, hc', -, -, hlisten⟩
  · rw [(hdet.2 c hc hopen).1]
    exact ⟨hdet.1, fun j _ => rfl⟩
  · rw [hc] at hc'
    rw [Option.some.inj hc', hlisten, List.foldl_cons, List.foldl_nil]
    have hfn : fn.socket = k := (mem_of.mp (hof ▸ List.mem_singleton_self fn)).2
    constructor
    · rw [of_unsubscribe, hof]
      simp
    · exact fun j hj => of_unsubscribe_ne (hfn ▸ hj.symm)

theorem emitClose_tidy (ht : Tidy w) : (∀ j, j ≠ k → Same w (w.emitClose k) j)
    ∧ (w.emitClose k = w ∨ (w.emitClose k).Closed k ∧ Detached (w.emitClose k) k) := by
  rcases @emitClose_cases w k with heq | ⟨c, hc, hopen, heq⟩
  · rw [heq]
    exact ⟨fun j _ => ⟨rfl, rfl⟩, .inl rfl⟩
  · obtain ⟨hnone, hothers⟩ := onClose_of ht hc hopen
    rw [heq]
    refine ⟨fun j hj => ⟨put_ne hj, hothers j hj⟩,
      .inr ⟨⟨_, put_self .., rfl⟩, hnone, fun c' hc' hno => ?_⟩⟩
    obtain rfl := Option.some.inj ((put_self ..).symm.trans hc')
    cases hno

/-- A socket closes once and for all. -/
theorem WsServer.Closed.emitClose (hclosed : w.Closed k) (j : Nat) : (w.emitClose j).Closed k := by
  rcases @emitClose_cases w j with heq | ⟨c, hc, hopen, heq⟩
  · rwa [heq]
  · rw [heq]
    by_cases hj : k = j
    · subst hj
      exact ⟨_, put_self .., rfl⟩
    · obtain ⟨c', hc', hclosed'⟩ := hclosed
      exact ⟨c', (put_ne hj).trans hc', hclosed'⟩

/-- A socket with a subscriber keeps it until it closes. -/
def Held (w : WsServer) (k : Nat) (fn : Subscriber) : Prop := w.Closed k ∨ Attached w k fn

theorem Tidy.emitClose (ht : Tidy w) (k : Nat) : Tidy (w.emitClose k) := by
  obtain ⟨hsame, hself⟩ := emitClose_tidy (k := k) ht
  refine ht.of_same hsame ?_
  rcases hself with heq | ⟨-, hdet⟩
  · rw [heq]
    exact ht k
  · exact .inl hdet

theorem Held.of_same (hh : Held w k fn) (hs : Same w w' k) : Held w' k fn := by
  rcases hh with hclosed | hatt
  · left
    unfold WsServer.Closed
    rw [hs.1]
    exact hclosed
  · exact .inr (hs.attached.mpr hatt)

theorem Held.emitClose (hh : Held w k fn) (ht : Tidy w) (j : Nat) : Held (w.emitClose j) k fn := by
  obtain ⟨hsame, hself⟩ := emitClose_tidy (k := j) ht
  by_cases hj : k = j
  · subst hj
    rcases hself with heq | ⟨hclosed, -⟩
    · rw [heq]
      exact hh
    · exact .inl hclosed
  · exact hh.of_same (hsame k hj)

/-! ## Publishing -/

/-- What closing sockets keeps, publishing keeps. -/
theorem publish_keeps {P : WsServer → Prop} (hclose : ∀ k w, P w → P (w.emitClose k))
    (ev : KinbridgeEvent) (hP : P w) : P (w.publish ev send).1 := by
  refine Visit.visit_keeps (fun fn w hw => ?_) hP
  unfold WsServer.call
  generalize (send fn).closes = closes
  induction closes generalizing w with
  | nil => exact hw
  | cons k ks ih => exact ih _ (hclose k w hw)

theorem emitClose_subscribers {k : Nat} (hfn : fn ∉ w.hub.subscribers) :
    fn ∉ (w.emitClose k).hub.subscribers := by
  rcases @emitClose_cases w k with heq | ⟨c, -, -, heq⟩
  · rwa [heq]
  · rw [heq]
    dsimp only
    generalize w.hub = hub at hfn
    induction c.onClose generalizing hub with
    | nil => exact hfn
    | cons other fns ih => exact ih _ fun hmem => hfn (mem_unsubscribe hmem)

theorem call_subscribers (other : Subscriber) (w : WsServer) (hfn : fn ∉ w.hub.subscribers) :
    fn ∉ (w.call send other).hub.subscribers := by
  unfold WsServer.call
  generalize (send other).closes = closes
  induction closes generalizing w with
  | nil => exact hfn
  | cons k ks ih => exact ih _ (emitClose_subscribers hfn)

theorem received_called {fns : List Subscriber} {ev : KinbridgeEvent} :
    received fn (fns.map fun f => .called f ev (send f).throws)
      = List.replicate (fns.count fn) ev := by
  unfold received
  induction fns with
  | nil => rfl
  | cons f fns ih =>
      rw [List.map_cons, List.filterMap_cons]
      by_cases hf : f = fn
      · subst hf
        simp only [if_pos, ih, List.count_cons_self, List.replicate_succ]
      · simp only [if_neg hf, ih, List.count_cons_of_ne hf]

/-- **A subscriber that stays is called once**, whatever the others do. -/
theorem publish_received {ev : KinbridgeEvent} (hof : w.hub.of k = [fn])
    (hstays : (w.publish ev send).1.hub.of k = [fn]) :
    received fn (w.publish ev send).2 = [ev] := by
  -- the set holds it once, since its socket has no other
  have honce : w.hub.subscribers.count fn = 1 := by
    have hfn : fn.socket = k := (mem_of.mp (hof ▸ List.mem_singleton_self fn)).2
    have hcount : (w.hub.of k).count fn = w.hub.subscribers.count fn :=
      List.count_filter (decide_eq_true hfn)
    rw [← hcount, hof, List.count_singleton_self]
  have hthere : fn ∈ (w.publish ev send).1.hub.subscribers :=
    (mem_of.mp (hstays ▸ List.mem_singleton_self fn)).1
  have hcalled := Visit.visit_once call_subscribers honce hthere
  have hreceived := @received_called fn send
    (Visit.visit (fun w : WsServer => w.hub.subscribers) (WsServer.call send)
      w.hub.subscribers w).1 ev
  rw [hcalled] at hreceived
  exact hreceived

/-! ## What a step keeps -/

theorem settle_same {c : WsSocket} {res : Option KinbridgeTokenClaims} (hj : j ≠ k) :
    Same w (w.settle k c res).1 j := by
  cases res with
  | none => exact ⟨put_ne hj, rfl⟩
  | some claims => exact ⟨put_ne hj, of_subscribe_ne hj.symm⟩

/-- A token that is verified in time attaches its socket. -/
theorem settle_tidy (ht : Tidy w) {c : WsSocket} {token : String}
    (hc : w.sockets k = some c) (hwait : c.handler = .verifying token)
    {res : Option KinbridgeTokenClaims} (hin : c.closed = true → res = none) :
    Tidy (w.settle k c res).1 := by
  -- a socket that waits for its token is not attached
  have hdet : Detached w k := by
    rcases ht k with hdet | ⟨fn, -, c', claims, hc', -, hverified, -⟩
    · exact hdet
    · rw [hc] at hc'
      rw [← Option.some.inj hc', hwait] at hverified
      cases hverified
  refine ht.of_same (fun j hj => settle_same hj) ?_
  cases res with
  | none =>
      left
      refine ⟨hdet.1, fun c' hc' hopen => ?_⟩
      obtain rfl := Option.some.inj ((put_self ..).symm.trans hc')
      exact ⟨(hdet.2 c hc hopen).1, nofun⟩
  | some claims =>
      have hopen : c.closed = false := by
        cases hclosed : c.closed with
        | false => rfl
        | true => cases hin hclosed
      refine .inr ⟨⟨k, w.made⟩, of_subscribe_self hdet.1, _, claims, put_self .., hopen, rfl, ?_⟩
      rw [(hdet.2 c hc hopen).1]
      rfl

theorem tidy_step (ht : Tidy w) (hin : InTime A w e) (hst : wsStep A w e = some (w', out)) :
    Tidy w' := by
  cases e with
  | connect k authorization =>
      obtain ⟨hnew, handler, hhandler, rfl, -⟩ := connect_step hst
      refine ht.of_same (k := k) (fun j hj => ⟨put_ne hj, rfl⟩) (.inl ⟨?_, fun c hc _ => ?_⟩)
      · rcases ht k with hdet | ⟨fn, -, c, _, hc, -⟩
        · exact hdet.1
        · rw [hnew] at hc
          cases hc
      · obtain rfl := Option.some.inj ((put_self ..).symm.trans hc)
        exact ⟨rfl, hhandler⟩
  | settle k now =>
      obtain ⟨c, token, hc, hwait, heq⟩ := settle_step hst
      rw [(Prod.mk.inj heq).1]
      exact settle_tidy ht hc hwait fun hclosed => hin k now c token rfl hc hclosed hwait
  | close k =>
      obtain ⟨-, rfl, -⟩ := close_step hst
      exact ht.emitClose k
  | publish ev send =>
      rw [(Prod.mk.inj (publish_step hst)).1]
      exact publish_keeps (fun k w hw => hw.emitClose k) ev ht

theorem closed_step (hclosed : w.Closed k) (hst : wsStep A w e = some (w', out)) :
    w'.Closed k := by
  obtain ⟨c, hc, hyes⟩ := hclosed
  cases e with
  | connect j authorization =>
      obtain ⟨hnew, handler, -, rfl, -⟩ := connect_step hst
      have hne : k ≠ j := by
        rintro rfl
        rw [hnew] at hc
        cases hc
      exact ⟨c, (put_ne hne).trans hc, hyes⟩
  | settle j now =>
      obtain ⟨c', token, hc', -, heq⟩ := settle_step hst
      rw [(Prod.mk.inj heq).1]
      by_cases hj : k = j
      · subst hj
        obtain rfl := Option.some.inj (hc.symm.trans hc')
        cases verifyKinbridgeToken A.jose A.env now token with
        | none => exact ⟨_, put_self .., hyes⟩
        | some claims => exact ⟨_, put_self .., hyes⟩
      · exact ⟨c, (settle_same hj).1.trans hc, hyes⟩
  | close j =>
      obtain ⟨-, rfl, -⟩ := close_step hst
      exact .emitClose ⟨c, hc, hyes⟩ j
  | publish ev send =>
      rw [(Prod.mk.inj (publish_step hst)).1]
      exact publish_keeps (P := fun w => w.Closed k) (fun j w hw => hw.emitClose j) ev ⟨c, hc, hyes⟩

theorem attached_step (ht : Tidy w) (ha : Attached w k fn)
    (hst : wsStep A w e = some (w', out)) : Held w' k fn := by
  obtain ⟨-, c, claims, hc, -, hverified, -⟩ := id ha
  cases e with
  | connect j authorization =>
      obtain ⟨hnew, handler, -, rfl, -⟩ := connect_step hst
      have hne : k ≠ j := by
        rintro rfl
        rw [hnew] at hc
        cases hc
      exact .of_same (.inr ha) ⟨put_ne hne, rfl⟩
  | settle j now =>
      obtain ⟨c', token, hc', hwait, heq⟩ := settle_step hst
      have hne : k ≠ j := by
        rintro rfl
        obtain rfl := Option.some.inj (hc.symm.trans hc')
        rw [hwait] at hverified
        cases hverified
      rw [(Prod.mk.inj heq).1]
      exact .of_same (.inr ha) (settle_same hne)
  | close j =>
      obtain ⟨-, rfl, -⟩ := close_step hst
      exact Held.emitClose (.inr ha) ht j
  | publish ev send =>
      rw [(Prod.mk.inj (publish_step hst)).1]
      -- sockets close one by one while it is published, and each close needs the invariant
      have hboth : Tidy (w.publish ev send).1 ∧ Held (w.publish ev send).1 k fn :=
        publish_keeps (P := fun w => Tidy w ∧ Held w k fn)
          (fun j w hw => ⟨hw.1.emitClose j, hw.2.emitClose hw.1 j⟩) ev ⟨ht, .inr ha⟩
      exact hboth.2

theorem received_nil (hno : ∀ fn ev throws, .called fn ev throws ∉ out) : received fn out = [] := by
  unfold received
  rw [List.filterMap_eq_nil_iff]
  intro effect heffect
  cases effect with
  | closing j code reason => rfl
  | called fn' ev throws => exact absurd heffect (hno fn' ev throws)

/-- One step calls a subscriber that stays with what it publishes. -/
theorem received_step (ha : Attached w k fn) (ha' : Attached w' k fn)
    (hst : wsStep A w e = some (w', out)) : received fn out = published [⟨w, e, out, w'⟩] := by
  cases e with
  | connect j authorization =>
      obtain ⟨-, -, -, -, hno⟩ := connect_step hst
      exact received_nil hno
  | settle j now =>
      obtain ⟨c, token, -, -, heq⟩ := settle_step hst
      rw [(Prod.mk.inj heq).2]
      cases verifyKinbridgeToken A.jose A.env now token <;> rfl
  | close j =>
      obtain ⟨-, -, rfl⟩ := close_step hst
      rfl
  | publish ev send =>
      obtain ⟨rfl, rfl⟩ := Prod.mk.inj (publish_step hst)
      exact publish_received ha.1 ha'.1

/-! ## Runs -/

theorem tidy_start : Tidy .start := fun _ => .inl ⟨rfl, nofun⟩

theorem tidy_run (hr : Run (wsStep A) .start h w) (hin : ∀ o ∈ h, InTime A o.pre o.ev) : Tidy w :=
  hr.inv_of (C := InTime A) (I := fun _ w => Tidy w) tidy_start
    (fun _ _ _ _ _ ht hc hst => tidy_step ht hc hst) hin

/-- From a socket with a subscriber on, it closes or is sent everything. -/
theorem held_run {u : WsServer} (ht : Tidy u) (ha : Attached u k fn) (hr : Run (wsStep A) u h w)
    (hin : ∀ o ∈ h, InTime A o.pre o.ev) :
    Tidy w ∧ (w.Closed k ∨ (Attached w k fn ∧ received fn (h.flatMap Occ.out) = published h)) := by
  refine hr.inv_of (C := InTime A) (I := fun h w => Tidy w ∧ (w.Closed k ∨
    (Attached w k fn ∧ received fn (h.flatMap Occ.out) = published h))) ⟨ht, .inr ⟨ha, rfl⟩⟩ ?_ hin
  rintro h w e w' out ⟨ht, hheld⟩ hc hst
  refine ⟨tidy_step ht hc hst, ?_⟩
  rcases hheld with hclosed | ⟨hatt, hreceived⟩
  · exact .inl (closed_step hclosed hst)
  · rcases attached_step ht hatt hst with hclosed | hatt'
    · exact .inl hclosed
    · refine .inr ⟨hatt', ?_⟩
      have hstep := received_step hatt hatt' hst
      unfold received published at hreceived hstep ⊢
      rw [List.flatMap_append, List.filterMap_append, List.filterMap_append, hreceived, ← hstep,
        List.flatMap_singleton]

/-- A token that is verified too late leaves a subscriber of a closed socket. -/
theorem late_served (hst : wsStep A w e = some (w', out)) (hserved : Served w') : InTime A w e := by
  rintro k now c token rfl hc hclosed hwait
  obtain ⟨c', token', hc', hwait', heq⟩ := settle_step hst
  obtain rfl := Option.some.inj (hc.symm.trans hc')
  obtain rfl := WsHandler.verifying.inj (hwait.symm.trans hwait')
  cases hverify : verifyKinbridgeToken A.jose A.env now token with
  | none => rfl
  | some claims =>
      rw [hverify] at heq
      rw [(Prod.mk.inj heq).1] at hserved
      have hnone : (w.hub.subscribe ⟨k, w.made⟩).of k = [] :=
        hserved.closed k ⟨_, put_self .., hclosed⟩
      have hmem : (⟨k, w.made⟩ : Subscriber) ∈ (w.hub.subscribe ⟨k, w.made⟩).of k :=
        mem_of.mpr ⟨mem_subscribe, rfl⟩
      rw [hnone] at hmem
      cases hmem

/-- **No subscriber outlives its socket, and none that stays misses an event**, exactly if no
token is verified for a socket that has closed. -/
theorem sockets_served_iff (hr : Run (wsStep A) .start h w) :
    SocketsServed A h ↔ ∀ o ∈ h, InTime A o.pre o.ev := by
  constructor
  · intro hserved o ho
    obtain ⟨h₁, h₂, rfl, hpre, hst, -⟩ := hr.mem ho
    exact late_served hst (hserved (h₁ ++ [o]) h₂ o.post (by simp) (hpre.snoc hst)).1
  · rintro hin h₁ h₂ v rfl hr₁
    have hin₁ : ∀ o ∈ h₁, InTime A o.pre o.ev := fun o ho => hin o (List.mem_append_left _ ho)
    refine ⟨(tidy_run hr₁ hin₁).served, ?_⟩
    rintro g₁ g₂ u rfl hg₁ hg₂ k fn - hfn hverified
    have ht := tidy_run hg₁ fun o ho => hin₁ o (List.mem_append_left _ ho)
    obtain ⟨-, hheld⟩ := held_run ht (ht.attached hfn) hg₂
      fun o ho => hin₁ o (List.mem_append_right _ ho)
    exact (hheld.resolve_left hverified.not_closed).2

/-! ## Two runs -/

def eventsEnv : Env where
  kinbridgeServiceToken := "service"
  kinbridgeJwtSecret := "secret"
  kinbridgeJwtIssuer := "https://api.kinbridge.support"
  kinbridgeJwtAudience := "kinbridge-client"
  kinbridgeJwtTtlSeconds := 120
  kinbridgeRelayHost := "192.168.68.54"
  kinbridgeRelayPort := 21117
  kinbridgeRelayPubkey := ""
  kinbridgeStunUrls := ""

/-- One token has been minted, at second 1000. -/
def oneToken : Jose where
  sign _ _ := "token-1"
  jwtVerify token _ _ now :=
    if token = "token-1" ∧ now < 1120 then
      some (tokenPayload eventsEnv 1000 ⟨"session-1", "owner-1", "helper-1", "device-1", "key-1"⟩)
    else none

def eventsService : Service := ⟨eventsEnv, oneToken, fun _ => true⟩

def sampleEvent : KinbridgeEvent := ⟨.deviceOnline, "2025-01-01T00:00:00Z", ∅⟩

/-- Two sockets subscribe. The first one throws at an event and then closes, and there is another
event. -/
def twoSockets : List WsEvent :=
  [.connect 1 (some "Bearer token-1"), .connect 2 (some "Bearer token-1"), .settle 1 1001,
    .settle 2 1001, .publish sampleEvent fun fn => ⟨fn.socket = 1, []⟩, .close 1,
    .publish sampleEvent fun _ => ⟨false, []⟩]

/-- The socket closes before its token is verified. -/
def closedEarly : List WsEvent :=
  [.connect 7 (some "Bearer token-1"), .close 7, .settle 7 1001]

/-- The socket is open. -/
def inTimeAt (w : WsServer) : WsEvent → Bool
  | .settle k _ => (w.sockets k).all fun c => !c.closed
  | _ => true

theorem inTime_of_open (hopen : inTimeAt w e = true) : InTime A w e := by
  rintro k now c token rfl hc hclosed -
  rw [inTimeAt, hc, Option.all_some, hclosed] at hopen
  cases hopen

theorem sockets_served_two : ∃ h w, Run (wsStep eventsService) .start h w
    ∧ h.map Occ.ev = twoSockets ∧ (received ⟨2, 1⟩ (h.flatMap Occ.out)).length = 2
    ∧ SocketsServed eventsService h := by
  obtain ⟨h, w, hr, hev, hp⟩ := @exists_run _ _ _ (wsStep eventsService) .start twoSockets
    (fun h _ => h.all (fun o => inTimeAt o.pre o.ev)
      && (received ⟨2, 1⟩ (h.flatMap Occ.out)).length = 2) (by decide +kernel)
  obtain ⟨hopen, hreceived⟩ := Bool.and_eq_true_iff.mp hp
  exact ⟨h, w, hr, hev, of_decide_eq_true hreceived, (sockets_served_iff hr).mpr fun o ho =>
    inTime_of_open (List.all_eq_true.mp hopen o ho)⟩

/-- The subscriber is made for a socket that is gone. -/
theorem subscriber_outlives : ∃ h w, Run (wsStep eventsService) .start h w
    ∧ h.map Occ.ev = closedEarly ∧ w.Closed 7 ∧ w.hub.subscribers = [⟨7, 0⟩]
    ∧ ¬ SocketsServed eventsService h := by
  obtain ⟨h, w, hr, hev, hp⟩ := @exists_run _ _ _ (wsStep eventsService) .start closedEarly
    (fun _ w => (w.sockets 7).any (·.closed) && w.hub.subscribers = [⟨7, 0⟩])
    (by decide +kernel)
  obtain ⟨hany, hsubs⟩ := Bool.and_eq_true_iff.mp hp
  have hclosed : w.Closed 7 := (Option.any_eq_true ..).mp hany
  refine ⟨h, w, hr, hev, hclosed, of_decide_eq_true hsubs, fun hserved => ?_⟩
  have hnone := ((hserved h [] w (List.append_nil h).symm hr).1).closed 7 hclosed
  rw [EventHub.of, of_decide_eq_true hsubs] at hnone
  cases hnone

end KinBridge.Api
