import KinBridge.Hbbs.Relays

/-!
# What ends `io_loop`

`io_loop` serves every socket of the process from one `select!`, and returns when one of
them breaks: `start` then opens that socket anew. An error out of `handle_udp` counts as a
broken socket. An error of a send from the channel is logged and forgotten, and the
handlers of accepted connections run in tasks of their own.

Other tasks share the server's tables, so a turn says what they hold when it begins.
-/

namespace KinBridge

variable (X : Ext) (key : String)

inductive LoopFailure where
  | UdpSocket
  | Listener3
  | Listener2
  | Listener
deriving DecidableEq, Repr

/-- The three TCP sockets: `listener`, `listener2` for the NAT test, `listener3` for WebSocket. -/
inductive Listener where
  | listener
  | listener2
  | listener3
deriving DecidableEq, Repr

/-- What an error of `accept()` is reported as. -/
def Listener.failure : Listener → LoopFailure
  | .listener => .Listener
  | .listener2 => .Listener2
  | .listener3 => .Listener3

/-- What a turn of the loop wakes up to. -/
inductive Wake where
  /-- `timer_check_relay.tick()`. -/
  | tick
  /-- `rx.recv()`. -/
  | recv (data : Data)
  /-- `socket.next()` yields a datagram. -/
  | datagram (io : Io) (addr : SocketAddr) (msg : Option RendezvousMessage)
  /-- `socket.next()` yields an error. -/
  | socketFailed
  /-- `socket.next()` yields nothing. -/
  | socketEmpty
  /-- `accept()` on one of the listeners. -/
  | accept (l : Listener) (ok : Bool)

/-- One turn of `io_loop`: the server after, and why the loop is left, if it is. -/
def loopTurn (s : Server) : Wake → Server × Option LoopFailure
  | .tick => (s, none)
  | .recv data => (handleData X s data, none)
  | .datagram io addr msg =>
    let (s, out) := handleUdp X key s io addr msg
    (s, if out.ok then none else some .UdpSocket)
  | .socketFailed => (s, some .UdpSocket)
  | .socketEmpty => (s, none)
  | .accept l ok => (s, if ok then none else some l.failure)

/-- Why a sequence of turns leaves the loop: the first failure ends it. -/
def loopLeft (turns : List (Server × Wake)) : Option LoopFailure :=
  turns.findSome? fun t => (loopTurn X key t.1 t.2).2

end KinBridge
