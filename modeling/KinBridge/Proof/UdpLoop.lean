import KinBridge.Hbbs.Loop

/-!
# One datagram and the UDP loop

`handle_udp` answers most messages at their source. Two it answers elsewhere: a
`PunchHoleSent` and a `LocalAddr` say in their bytes whom they are for, and the response is
sent there from within the handler. Where `handle_udp_punch_hole_request` queues its
message, and `io_loop` only logs that it could not be sent, these two hand the error of the
send on, and `io_loop` takes it for a broken socket. `AddrMangle::decode` accepts any bytes,
so the sender picks the address.
-/

namespace KinBridge.Proof

open KinBridge

variable {X : Ext} {key : String}

/-- The address that a message has `handle_udp` send to, where the message chooses it. -/
def namedAddr (X : Ext) : Option RendezvousMessage → Option SocketAddr
  | some (.punchHoleSent phs) => some (X.decode phs.socketAddr)
  | some (.localAddr la) => some (X.decode la.socketAddr)
  | _ => none

/-- The message chooses no address, or one that a send reaches. -/
def NamedReached (X : Ext) (io : Io) (msg : Option RendezvousMessage) : Prop :=
  ∀ a, namedAddr X msg = some a → io.sendOk a = true

/-! ## One datagram -/

/-- With its source reachable, a message that chooses no address is handled without error. -/
theorem handleUdp_ok_of_unnamed {s : Server} {io : Io} {addr : SocketAddr}
    {msg : Option RendezvousMessage} (hown : io.sendOk addr = true)
    (hnone : namedAddr X msg = none) : (handleUdp X key s io addr msg).2.ok = true := by
  unfold handleUdp
  split
  · split
    · rfl
    · dsimp only
      split <;> exact hown
  · split
    · rfl
    · exact hown
  · rfl
  · cases hnone
  · cases hnone
  · split <;> rfl
  · split
    · exact hown
    · rfl
  · rfl

/-- A message that chooses an address is handled without error if it is reached. -/
theorem handleUdp_ok_of_named {s : Server} {io : Io} {addr a : SocketAddr}
    {msg : Option RendezvousMessage} (hnamed : namedAddr X msg = some a) :
    (handleUdp X key s io addr msg).2.ok = io.sendOk a := by
  unfold namedAddr at hnamed
  split at hnamed
  · exact congrArg io.sendOk (Option.some.inj hnamed)
  · exact congrArg io.sendOk (Option.some.inj hnamed)
  · cases hnamed

theorem handleUdp_ok_iff {s : Server} {io : Io} {addr : SocketAddr}
    {msg : Option RendezvousMessage} (hown : io.sendOk addr = true) :
    (handleUdp X key s io addr msg).2.ok = true ↔ NamedReached X io msg := by
  unfold NamedReached
  cases hnamed : namedAddr X msg with
  | none =>
      have hok : (handleUdp X key s io addr msg).2.ok = true := handleUdp_ok_of_unnamed hown hnamed
      exact iff_of_true hok (by intro a h; cases h)
  | some a =>
      rw [handleUdp_ok_of_named hnamed]
      constructor
      · rintro hok b ⟨⟩
        exact hok
      · intro hall
        exact hall a rfl

/-! ## The loop -/

/-- The UDP socket works in this turn, and whoever sent a datagram can be answered. -/
def SourceReached : Wake → Prop
  | .datagram io addr _ => io.sendOk addr = true
  | .socketFailed => False
  | _ => True

/-- A datagram that comes in chooses no address that a send does not reach. -/
def TurnReached (X : Ext) : Wake → Prop
  | .datagram io _ msg => NamedReached X io msg
  | _ => True

/-- One turn leaves the loop for the UDP socket only because of an address out of a message. -/
theorem loopTurn_iff {s : Server} {w : Wake} (hsrc : SourceReached w) :
    (loopTurn X key s w).2 = some .UdpSocket ↔ ¬ TurnReached X w := by
  cases w with
  | datagram io addr msg =>
      have hok : (handleUdp X key s io addr msg).2.ok = true ↔ NamedReached X io msg :=
        handleUdp_ok_iff hsrc
      show (if (handleUdp X key s io addr msg).2.ok then none else some LoopFailure.UdpSocket)
        = some .UdpSocket ↔ ¬ NamedReached X io msg
      rw [← hok]
      cases (handleUdp X key s io addr msg).2.ok <;> simp
  | accept l ok => cases l <;> cases ok <;> simp [loopTurn, TurnReached, Listener.failure]
  | socketFailed => exact hsrc.elim
  | tick | recv data | socketEmpty => simp [loopTurn, TurnReached]

/-- If every turn reaches what its message chooses, no sequence of turns leaves the loop for
the UDP socket. -/
theorem loopLeft_ne {turns : List (Server × Wake)} (hsrc : ∀ t ∈ turns, SourceReached t.2)
    (hnamed : ∀ t ∈ turns, TurnReached X t.2) : loopLeft X key turns ≠ some .UdpSocket := by
  intro hleft
  obtain ⟨t, ht, hturn⟩ := List.exists_of_findSome?_eq_some hleft
  exact (loopTurn_iff (hsrc t ht)).mp hturn (hnamed t ht)

/--
**A datagram stops the UDP loop exactly if its message chooses an address that cannot be sent
to.** Its source being reachable, `handle_udp` returns `Ok` on it if and only if the address
in a `PunchHoleSent` or a `LocalAddr` is reached, and `io_loop` goes on under the same
condition; while that holds of every datagram, no turn of the loop ends it.
-/
theorem udp_loop_survives_iff {s : Server} {io : Io} {addr : SocketAddr}
    {msg : Option RendezvousMessage} (hown : io.sendOk addr = true) :
    ((handleUdp X key s io addr msg).2.ok = true ↔ NamedReached X io msg)
      ∧ ((loopTurn X key s (.datagram io addr msg)).2 = some .UdpSocket
        ↔ ¬ NamedReached X io msg)
      ∧ ∀ turns : List (Server × Wake), (∀ t ∈ turns, SourceReached t.2) →
        (∀ t ∈ turns, TurnReached X t.2) → loopLeft X key turns ≠ some .UdpSocket :=
  ⟨handleUdp_ok_iff hown, loopTurn_iff (w := .datagram io addr msg) hown,
    fun _ hsrc hnamed => loopLeft_ne hsrc hnamed⟩

/-- Everything is reached but `0.0.0.0:0`. -/
def unspecifiedFails : Io := { Io.sample 0 1 with sendOk := fun a => a ≠ .unspecified }

/-- Six bytes that say `10.0.0.2:21116` are sent there. -/
theorem udp_loop_survives_sent :
    (handleUdp Ext.sample "" (.start .sample .empty) unspecifiedFails ⟨.v4 ⟨10, 0, 0, 1⟩, 4000⟩
      (some (.punchHoleSent ⟨[10, 0, 0, 2, 82, 124], "peer-1", "", .symmetric, ""⟩))).2.ok
      = true := by
  refine (udp_loop_survives_iff (by decide)).1.mpr ?_
  rintro a ⟨⟩
  decide

/-- **A `PunchHoleSent` without an address**: no bytes decode to `0.0.0.0:0`, and the loop is
left over it. -/
theorem udp_loop_stopped :
    ¬ ∀ (s : Server) (io : Io) (addr : SocketAddr) (msg : Option RendezvousMessage),
      io.sendOk addr = true → (handleUdp Ext.sample "" s io addr msg).2.ok = true
        ∧ (loopTurn Ext.sample "" s (.datagram io addr msg)).2 ≠ some .UdpSocket := by
  intro hall
  have hok := (hall (.start .sample .empty) unspecifiedFails ⟨.v4 ⟨10, 0, 0, 1⟩, 4000⟩
    (some (.punchHoleSent ⟨[], "peer-1", "", .symmetric, ""⟩)) (by decide)).1
  exact absurd hok (by decide)

end KinBridge.Proof
