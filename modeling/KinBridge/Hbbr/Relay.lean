import Mathlib.Data.Finset.Insert
import KinBridge.Hbbr.Pair

/-!
# The relay loop

`relay` of `relay_server.rs`: one loop between the stream of the task that runs it and the
peer stream that waited in `PEERS`. A turn of the loop is one branch of its `select!`, and
then, once a second at most, a look at the lists and an account of the traffic.

What a turn meets from outside is in `Turn`: what woke it, whether the send goes through,
the clock at each of its readings, and the contents of the lists when it looks. `recv` is
cancellation-safe, so an end that was not selected loses nothing.
-/

namespace KinBridge.Hbbr

open KinBridge

/-- `peer` comes out of `PEERS`, `stream` is the task's own. -/
inductive Side where
  | peer
  | stream
deriving DecidableEq, Repr

def Side.other : Side → Side
  | .peer => .stream
  | .stream => .peer

@[simp] theorem Side.other_other (s : Side) : s.other.other = s := by cases s <;> rfl

/-- `None`, `Some(Err(_))` and `Some(Ok(x))`. -/
inductive Received (α : Type) where
  | closed
  | failed
  | got (x : α)
deriving DecidableEq, Repr

inductive WsMessage where
  | binary (bytes : Bytes)
  /-- Text, ping, pong or close. -/
  | other (bytes : Bytes)
deriving DecidableEq, Repr

/-- What `next()` yields, of a `FramedStream` or of a `WebSocketStream`. -/
inductive Incoming where
  | tcp (res : Received Bytes)
  | ws (res : Received WsMessage)
deriving DecidableEq, Repr

/-- `StreamTrait::recv`. -/
def recv : Incoming → Received Bytes
  | .tcp res => res
  | .ws .closed => .closed
  | .ws .failed => .failed
  | .ws (.got (.binary bytes)) => .got bytes
  | .ws (.got (.other _)) => .got []

inductive Limiter where
  | single
  | blacklist
  | total
deriving DecidableEq, Repr

/-- What a turn does to the outside, in order. -/
inductive RelayAct where
  | consume (limiter : Limiter) (nb : Nat)
  /-- `send_raw` on this end, and whether it returned `Ok`. -/
  | sendRaw (side : Side) (bytes : Bytes) (ok : Bool)
  /-- The insert into `USAGE`. -/
  | usage (usage : Usage)
deriving DecidableEq, Repr

/-- Why the loop stops. -/
inductive Stop where
  | closed
  | failed
  | sendFailed
  | timeout
  | blocked
deriving DecidableEq, Repr

/-- `BLOCKLIST` and `BLACKLIST`. -/
structure Lists where
  blocklist : Finset String
  blacklist : Finset String
deriving DecidableEq

/-- Which branch of `select!` is taken. -/
inductive Wake where
  | received (side : Side) (item : Incoming)
  | tick
deriving DecidableEq, Repr

structure Turn where
  wake : Wake
  sendOk : Bool
  /-- The clock in the branch taken, at `tm.elapsed()`, and where `tm` is set again. -/
  recvAt : Instant
  checkAt : Instant
  resetAt : Instant
  lists : Lists
  /-- `DOWNGRADE_START_CHECK`. -/
  startCheck : Nat

/-- The variables of `relay`. -/
structure Loop where
  ip : String
  downgradeThreshold : Nat
  tm : Instant
  elapsed : Nat
  total : Nat
  totalS : Nat
  highestS : Nat
  downgrade : Bool
  blacked : Bool
  lastRecvTime : Instant
deriving DecidableEq, Repr

/-- The loop for a task with this address. The threshold is what the settings come to. -/
def Loop.start (addr : SocketAddr) (downgradeThreshold : Nat) (now : Instant) : Loop where
  ip := addr.ip.toString
  downgradeThreshold := downgradeThreshold
  tm := now
  elapsed := 0
  total := 0
  totalS := 0
  highestS := 0
  downgrade := false
  blacked := false
  lastRecvTime := now

/-- The limiter that a chunk goes through before the total one. -/
def Loop.limiter (l : Loop) : Limiter := if l.blacked || l.downgrade then .blacklist else .single

theorem Loop.limiter_eq_blacklist {l : Loop} :
    l.limiter = .blacklist ↔ l.blacked = true ∨ l.downgrade = true := by
  unfold Loop.limiter
  cases l.blacked <;> cases l.downgrade <;> decide

/-- The `select!`. -/
def relaySelect (l : Loop) (t : Turn) : Loop × List RelayAct × Option Stop :=
  match t.wake with
  | .received side item =>
    match recv item with
    | .got bytes =>
      let nb := bytes.length * 8
      let acts := [.consume l.limiter nb, .consume .total nb]
      let l := { l with
        lastRecvTime := t.recvAt, total := l.total + nb, totalS := l.totalS + nb }
      if bytes = [] then (l, acts, none)
      else
        (l, acts ++ [.sendRaw side.other bytes t.sendOk],
          if t.sendOk then none else some .sendFailed)
    | .closed => (l, [], some .closed)
    | .failed => (l, [], some .failed)
  | .tick =>
    (l, [], if asSecs (KinBridge.elapsed t.recvAt l.lastRecvTime) > 30 then some .timeout else none)

/-- `tm.elapsed().as_millis() as usize`. -/
def Loop.sinceCheck (l : Loop) (t : Turn) : Nat :=
  asMillis (KinBridge.elapsed t.checkAt l.tm) % 2 ^ 64

/-- The volume so far passes the threshold; the product is a `usize`. -/
def Loop.exceeds (l : Loop) (startCheck : Nat) : Bool :=
  l.elapsed > startCheck && l.total > l.elapsed * l.downgradeThreshold % 2 ^ 64

/-- What follows the `select!`. -/
def relayCheck (l : Loop) (t : Turn) : Loop × List RelayAct × Option Stop :=
  let n := l.sinceCheck t
  if n < 1000 then (l, [], none)
  else if l.ip ∈ t.lists.blocklist then (l, [], some .blocked)
  else
    let speed := l.totalS / n
    let l := { l with
      blacked := l.ip ∈ t.lists.blacklist
      tm := t.resetAt
      highestS := if speed > l.highestS then speed else l.highestS
      elapsed := l.elapsed + n
      totalS := 0 }
    ({ l with downgrade := l.downgrade || l.exceeds t.startCheck },
      [.usage (l.elapsed, l.total, l.highestS, speed)], none)

/-- One turn of the loop. -/
def relayTurn (l : Loop) (t : Turn) : Loop × List RelayAct × Option Stop :=
  match relaySelect l t with
  | (l, acts, some why) => (l, acts, some why)
  | (l, acts, none) =>
    let (l, acts', why) := relayCheck l t
    (l, acts ++ acts', why)

inductive RelayState where
  | running (l : Loop)
  | stopped (why : Stop)
deriving DecidableEq, Repr

/-- `relay`, turn by turn. -/
def relay : RelayState → Turn → Option (RelayState × List RelayAct)
  | .running l, t =>
    match relayTurn l t with
    | (l, acts, none) => some (.running l, acts)
    | (_, acts, some why) => some (.stopped why, acts)
  | .stopped _, _ => none

/-! ## What a turn passes on -/

/-- The payload of an item; a WebSocket message that is not binary has none. -/
def Incoming.payload : Incoming → Bytes
  | .tcp (.got bytes) => bytes
  | .ws (.got (.binary bytes)) => bytes
  | _ => []

/-- The bytes that a turn takes in, and from which end. -/
def Turn.chunk (t : Turn) : Option (Side × Bytes) :=
  match t.wake with
  | .received side item => if item.payload = [] then none else some (side, item.payload)
  | .tick => none

/-- The sends among the acts of a turn. -/
def sends (acts : List RelayAct) : List (Side × Bytes × Bool) :=
  acts.filterMap fun
    | .sendRaw side bytes ok => some (side, bytes, ok)
    | _ => none

@[simp] theorem sends_append (acts acts' : List RelayAct) :
    sends (acts ++ acts') = sends acts ++ sends acts' := List.filterMap_append

theorem recv_payload (item : Incoming) :
    recv item = .got item.payload
      ∨ (item.payload = [] ∧ (recv item = .closed ∨ recv item = .failed)) := by
  cases item with
  | tcp res => cases res <;> simp [recv, Incoming.payload]
  | ws res =>
      cases res with
      | got msg => cases msg <;> simp [recv, Incoming.payload]
      | closed => simp [recv, Incoming.payload]
      | failed => simp [recv, Incoming.payload]

/-- A chunk is sent to the other end, and the turn fails if that does. -/
theorem relaySelect_sends (l : Loop) (t : Turn) :
    sends (relaySelect l t).2.1 = (t.chunk.map fun c => (c.1.other, c.2, t.sendOk)).toList
      ∧ ((relaySelect l t).2.2 = some .sendFailed ↔ t.chunk.isSome ∧ t.sendOk = false) := by
  unfold relaySelect Turn.chunk
  cases t.wake with
  | tick =>
      refine ⟨rfl, ?_⟩
      dsimp only
      split <;> simp
  | received side item =>
      dsimp only
      rcases recv_payload item with hgot | ⟨hnone, hstop | hstop⟩
      · rw [hgot]
        dsimp only
        by_cases hempty : item.payload = []
        · rw [if_pos hempty, if_pos hempty]
          exact ⟨rfl, by simp⟩
        · rw [if_neg hempty, if_neg hempty]
          refine ⟨rfl, ?_⟩
          cases t.sendOk <;> simp
      · rw [hstop, if_pos hnone]
        exact ⟨rfl, by simp⟩
      · rw [hstop, if_pos hnone]
        exact ⟨rfl, by simp⟩

/-- The check sends nothing. -/
theorem relayCheck_sends (l : Loop) (t : Turn) :
    sends (relayCheck l t).2.1 = [] ∧ (relayCheck l t).2.2 ≠ some .sendFailed := by
  unfold relayCheck
  dsimp only
  split
  · exact ⟨rfl, by simp⟩
  · split
    · exact ⟨rfl, by simp⟩
    · exact ⟨rfl, by simp⟩

/-- **What a turn passes on**: the chunk it took in, to the other end; and it stops with a
failed send exactly if that one failed. -/
theorem relay_sends {s s' : RelayState} {t : Turn} {acts : List RelayAct}
    (h : relay s t = some (s', acts)) :
    sends acts = (t.chunk.map fun c => (c.1.other, c.2, t.sendOk)).toList
      ∧ (s' = .stopped .sendFailed ↔ t.chunk.isSome ∧ t.sendOk = false) := by
  cases s with
  | stopped why => cases h
  | running l =>
      obtain ⟨hsends, hfail⟩ := relaySelect_sends l t
      simp only [relay, relayTurn] at h
      generalize relaySelect l t = sel at hsends hfail h
      obtain ⟨l₁, acts₁, why₁⟩ := sel
      cases why₁ with
      | some why =>
          obtain ⟨rfl, rfl⟩ := Prod.mk.inj (Option.some.inj h)
          exact ⟨hsends, by simpa using hfail⟩
      | none =>
          obtain ⟨hnone, hother⟩ := relayCheck_sends l₁ t
          dsimp only at h hsends hfail
          generalize relayCheck l₁ t = chk at hnone hother h
          obtain ⟨l₂, acts₂, why₂⟩ := chk
          dsimp only at hnone hother h
          cases why₂ with
          | none =>
              obtain ⟨rfl, rfl⟩ := Prod.mk.inj (Option.some.inj h)
              rw [sends_append, hsends, hnone, List.append_nil]
              exact ⟨rfl, by simpa using hfail⟩
          | some why =>
              obtain ⟨rfl, rfl⟩ := Prod.mk.inj (Option.some.inj h)
              rw [sends_append, hsends, hnone, List.append_nil]
              refine ⟨rfl, ?_⟩
              rw [← hfail]
              simpa using hother

end KinBridge.Hbbr
