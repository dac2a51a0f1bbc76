import KinBridge.Hbbr.Header

/-!
# The address of a WebSocket

`handle_listener_inner` has a callback of its own for the proxy's header, with the same lines as
the one of `make_pair`.
-/

namespace KinBridge

open Hbbr (WsHeaders)

/-- The address that `handle_tcp` gets with every message of the socket. -/
def handleListenerAddr (addr : SocketAddr) (headers : Option WsHeaders) : SocketAddr :=
  match headers.bind WsHeaders.realIp with
  | some ip =>
    if '.' ∈ ip.toList then (parseSocketAddr (ip ++ ":0")).getD addr
    else (parseSocketAddr ("[" ++ ip ++ "]:0")).getD addr
  | none => addr

/-- `hbbs` and `hbbr` see one address. -/
theorem handleListenerAddr_eq (addr : SocketAddr) (headers : Option WsHeaders) :
    handleListenerAddr addr headers = Hbbr.makePairAddr addr headers := by
  cases headers with
  | none => rfl
  | some headers =>
      unfold handleListenerAddr Hbbr.makePairAddr WsHeaders.addr
      rw [Option.bind_some]
      dsimp only
      cases headers.realIp with
      | none => rw [Option.bind_none, Option.getD_none]
      | some ip =>
          rw [Option.bind_some]
          dsimp only
          split <;> rfl

end KinBridge
