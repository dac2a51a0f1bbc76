import KinBridge.Lib.Slots
import KinBridge.Lib.Visit
import KinBridge.Api.Sessions

/-!
# Realtime events

`GET /ws/events` of `ws-events.ts`: a client opens a socket with a session token, and once the
token is verified, what is published is sent to it. Between the two the route waits for
`verifyKinbridgeToken`, and anything may happen: other sockets open and close, events are
published, and the socket itself may close. What runs between two waits runs undisturbed.
-/

namespace KinBridge.Api

open Slots

inductive KinbridgeEventType where
  | deviceOnline
  | deviceOffline
  | helpRequested
  | sessionStarted
  | sessionEnded
deriving DecidableEq, Repr

structure KinbridgeEvent where
  type : KinbridgeEventType
  /-- `at`. -/
  time : String
  payload : JsonObject
deriving DecidableEq

/-- The function that the route hands to `subscribe`. Each time it is another function: `serial`
tells them apart. -/
structure Subscriber where
  socket : Nat
  serial : Nat
deriving DecidableEq, Repr

/-! ## `EventHub` -/

/-- The `Set`, in the order of insertion. -/
structure EventHub where
  subscribers : List Subscriber
deriving DecidableEq, Repr

def EventHub.subscribe (hub : EventHub) (fn : Subscriber) : EventHub :=
  if fn ∈ hub.subscribers then hub else ⟨hub.subscribers ++ [fn]⟩

/-- The function that `subscribe` returns. -/
def EventHub.unsubscribe (hub : EventHub) (fn : Subscriber) : EventHub :=
  ⟨hub.subscribers.filter (· ≠ fn)⟩

/-- The subscribers of a socket. -/
def EventHub.of (hub : EventHub) (k : Nat) : List Subscriber :=
  hub.subscribers.filter fun fn => fn.socket = k

/-! ## The sockets -/

/-- Where the handler of the route stands. -/
inductive WsHandler where
  | verifying (token : String)
  | connected (claims : KinbridgeTokenClaims)
  | refused
deriving DecidableEq, Repr

structure WsSocket where
  handler : WsHandler
  /-- Its `close` event has been emitted. -/
  closed : Bool
  /-- The listeners of `close`: each unsubscribes a subscriber. -/
  onClose : List Subscriber
deriving DecidableEq, Repr

structure WsServer where
  sockets : Nat → Option WsSocket
  hub : EventHub
  /-- How many functions have been made. -/
  made : Nat

def WsServer.start : WsServer := ⟨fun _ => none, ⟨[]⟩, 0⟩

/-- What comes of `socket.send(JSON.stringify(ev))`: it may throw, and sockets may close before it
is over. -/
structure Sent where
  throws : Bool
  closes : List Nat
deriving DecidableEq, Repr

inductive WsEvent where
  | connect (socket : Nat) (authorization : Option String)
  /-- The wait for `verifyKinbridgeToken` is over, which looked at the clock at `now`. -/
  | settle (socket : Nat) (now : Nat)
  | close (socket : Nat)
  | publish (ev : KinbridgeEvent) (send : Subscriber → Sent)

inductive WsEffect where
  /-- `socket.close(code, reason)`. -/
  | closing (socket : Nat) (code : Nat) (reason : String)
  | called (fn : Subscriber) (ev : KinbridgeEvent) (throws : Bool)
deriving DecidableEq

/-- The `close` event of a socket, if it is open: its listeners are called. -/
def WsServer.emitClose (w : WsServer) (k : Nat) : WsServer :=
  match w.sockets k with
  | none => w
  | some c =>
    if c.closed then w
    else { w with
      sockets := put w.sockets k { c with closed := true }
      hub := c.onClose.foldl EventHub.unsubscribe w.hub }

/-- A subscriber is called. -/
def WsServer.call (send : Subscriber → Sent) (fn : Subscriber) (w : WsServer) : WsServer :=
  (send fn).closes.foldl WsServer.emitClose w

/-- An exception of one subscriber is logged, and the loop goes on. -/
def WsServer.publish (w : WsServer) (ev : KinbridgeEvent) (send : Subscriber → Sent) :
    WsServer × List WsEffect :=
  let (called, w') := Visit.visit (fun w : WsServer => w.hub.subscribers) (WsServer.call send)
    w.hub.subscribers w
  (w', called.map fun fn => .called fn ev (send fn).throws)

/-- The route up to its wait. -/
def WsServer.connect (w : WsServer) (k : Nat) (authorization : Option String) :
    WsServer × List WsEffect :=
  match bearerToken authorization with
  | none => ({ w with sockets := put w.sockets k ⟨.refused, false, []⟩ },
      [.closing k 1008 "missing_bearer_token"])
  | some token => ({ w with sockets := put w.sockets k ⟨.verifying token, false, []⟩ }, [])

/-- The route after its wait. The socket subscribes, and then listens for its end. -/
def WsServer.settle (w : WsServer) (k : Nat) (c : WsSocket) :
    Option KinbridgeTokenClaims → WsServer × List WsEffect
  -- whether the socket has closed meanwhile is not looked at
  | some claims =>
    let fn : Subscriber := ⟨k, w.made⟩
    let c' : WsSocket := { c with handler := .connected claims, onClose := c.onClose ++ [fn] }
    (⟨put w.sockets k c', w.hub.subscribe fn, w.made + 1⟩, [])
  | none => ({ w with sockets := put w.sockets k { c with handler := .refused } },
      [.closing k 1008 "invalid_token"])

def wsStep (A : Service) (w : WsServer) : WsEvent → Option (WsServer × List WsEffect)
  | .connect k authorization =>
    match w.sockets k with
    | none => some (w.connect k authorization)
    | some _ => none
  | .settle k now =>
    match w.sockets k with
    | none => none
    | some c =>
      match c.handler with
      | .verifying token => some (w.settle k c (verifyKinbridgeToken A.jose A.env now token))
      | _ => none
  | .close k =>
    match w.sockets k with
    | none => none
    | some c => if c.closed then none else some (w.emitClose k, [])
  | .publish ev send => some (w.publish ev send)

/-! ## What a step does -/

variable {A : Service} {w w' : WsServer} {out : List WsEffect} {k j : Nat} {fn : Subscriber}

theorem connect_step {authorization : Option String}
    (h : wsStep A w (.connect k authorization) = some (w', out)) : w.sockets k = none ∧
      ∃ handler, (∀ claims, handler ≠ .connected claims)
        ∧ w' = { w with sockets := put w.sockets k ⟨handler, false, []⟩ }
        ∧ ∀ fn ev throws, .called fn ev throws ∉ out := by
  dsimp only [wsStep, WsServer.connect] at h
  cases hk : w.sockets k with
  | some c => rw [hk] at h; cases h
  | none =>
      rw [hk] at h
      cases htoken : bearerToken authorization with
      | none =>
          rw [htoken] at h
          obtain ⟨rfl, rfl⟩ := Prod.mk.inj (Option.some.inj h)
          exact ⟨rfl, .refused, nofun, rfl, by simp⟩
      | some token =>
          rw [htoken] at h
          obtain ⟨rfl, rfl⟩ := Prod.mk.inj (Option.some.inj h)
          exact ⟨rfl, .verifying token, nofun, rfl, by simp⟩

theorem settle_step {now : Nat} (h : wsStep A w (.settle k now) = some (w', out)) :
    ∃ c token, w.sockets k = some c ∧ c.handler = .verifying token
      ∧ (w', out) = w.settle k c (verifyKinbridgeToken A.jose A.env now token) := by
  dsimp only [wsStep] at h
  split at h
  · cases h
  · rename_i c hk
    split at h
    · rename_i token htoken
      exact ⟨c, token, hk, htoken, (Option.some.inj h).symm⟩
    · cases h

theorem close_step (h : wsStep A w (.close k) = some (w', out)) :
    (∃ c, w.sockets k = some c ∧ c.closed = false) ∧ w' = w.emitClose k ∧ out = [] := by
  dsimp only [wsStep] at h
  split at h
  · cases h
  · rename_i c hk
    split at h
    · cases h
    · rename_i hopen
      obtain ⟨rfl, rfl⟩ := Prod.mk.inj (Option.some.inj h)
      exact ⟨⟨c, hk, Bool.eq_false_iff.mpr hopen⟩, rfl, rfl⟩

theorem publish_step {ev : KinbridgeEvent} {send : Subscriber → Sent}
    (h : wsStep A w (.publish ev send) = some (w', out)) : (w', out) = w.publish ev send :=
  (Option.some.inj h).symm

/-- A `close` event does nothing if there is no such socket, or if it was there before. -/
theorem emitClose_cases : w.emitClose k = w ∨ ∃ c, w.sockets k = some c ∧ c.closed = false
    ∧ w.emitClose k = { w with
        sockets := put w.sockets k { c with closed := true }
        hub := c.onClose.foldl EventHub.unsubscribe w.hub } := by
  unfold WsServer.emitClose
  split
  · exact .inl rfl
  · rename_i c hk
    split
    · exact .inl rfl
    · rename_i hopen
      exact .inr ⟨c, hk, Bool.eq_false_iff.mpr hopen, rfl⟩

/-! ## The subscribers of a socket -/

variable {hub : EventHub}

theorem mem_of : fn ∈ hub.of k ↔ fn ∈ hub.subscribers ∧ fn.socket = k := by
  unfold EventHub.of
  rw [List.mem_filter, decide_eq_true_iff]

theorem of_unsubscribe : (hub.unsubscribe fn).of k = (hub.of k).filter (· ≠ fn) := by
  unfold EventHub.unsubscribe EventHub.of
  rw [List.filter_filter, List.filter_filter]
  exact List.filter_congr fun _ _ => Bool.and_comm ..

theorem of_unsubscribe_ne (h : fn.socket ≠ k) : (hub.unsubscribe fn).of k = hub.of k := by
  rw [of_unsubscribe, List.filter_eq_self]
  intro other hother
  have hne : other ≠ fn := fun heq => h (heq ▸ (mem_of.mp hother).2)
  exact decide_eq_true hne

theorem of_subscribe_self (h : hub.of fn.socket = []) : (hub.subscribe fn).of fn.socket = [fn] := by
  have hnew : fn ∉ hub.subscribers := fun hmem => by
    have hin := mem_of.mpr ⟨hmem, rfl⟩
    rw [h] at hin
    cases hin
  unfold EventHub.subscribe
  rw [if_neg hnew, EventHub.of, List.filter_append]
  unfold EventHub.of at h
  rw [h]
  simp

theorem of_subscribe_ne (h : fn.socket ≠ k) : (hub.subscribe fn).of k = hub.of k := by
  unfold EventHub.subscribe
  split
  · rfl
  · simp [EventHub.of, h]

theorem mem_subscribe : fn ∈ (hub.subscribe fn).subscribers := by
  unfold EventHub.subscribe
  split
  · assumption
  · exact List.mem_append_right _ (List.mem_singleton_self fn)

/-- No call puts a subscriber in. -/
theorem mem_unsubscribe {other : Subscriber} (h : other ∈ (hub.unsubscribe fn).subscribers) :
    other ∈ hub.subscribers :=
  List.mem_of_mem_filter h

end KinBridge.Api
