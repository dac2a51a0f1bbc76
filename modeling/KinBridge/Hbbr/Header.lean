import KinBridge.Net.Parse
import KinBridge.Hbbr.Pair

/-!
# Where a WebSocket comes from

`make_pair` takes the address of a WebSocket connection from a header that the proxy in front
sets. The header has no port, so the address gets port 0.
-/

namespace KinBridge.Hbbr

open KinBridge

/-- The two headers; a value counts if it is visible ASCII (`to_str`). -/
structure WsHeaders where
  xRealIp : Option (Option String)
  xForwardedFor : Option (Option String)
deriving DecidableEq, Repr

/-- `real_ip`: a header that is there is taken, readable or not. -/
def WsHeaders.realIp (headers : WsHeaders) : Option String :=
  (headers.xRealIp.or headers.xForwardedFor).join

/-- The address in the header, if it is one. -/
def WsHeaders.addr (headers : WsHeaders) : Option SocketAddr :=
  headers.realIp.bind fun ip =>
    if '.' ∈ ip.toList then parseSocketAddr (ip ++ ":0") else parseSocketAddr ("[" ++ ip ++ "]:0")

/-- The address that `make_pair_` gets. -/
def makePairAddr (addr : SocketAddr) : Option WsHeaders → SocketAddr
  | some headers => headers.addr.getD addr
  | none => addr

/-- Whatever port the proxy connects from, an IPv4 address in the header is the address. -/
theorem makePairAddr_realIp (addr : SocketAddr) (ip : Ipv4Addr) {headers : WsHeaders}
    (hip : headers.realIp = some ip.toString) :
    makePairAddr addr (some headers) = ⟨.v4 ip, 0⟩ := by
  have hdot : '.' ∈ ip.toString.toList := by simp [Ipv4Addr.toString]
  have hparse : parseSocketAddr (ip.toString ++ ":0") = some ⟨.v4 ip, 0⟩ :=
    parseSocketAddr_toString ip (by decide +kernel) (noDigit_cons (by decide))
  rw [makePairAddr, WsHeaders.addr, hip, Option.bind_some, if_pos hdot, hparse, Option.getD_some]

/-- So two connections from behind one address have one name in `USAGE`. -/
theorem usageId_realIp (addr addr' : SocketAddr) (ip : Ipv4Addr) {headers headers' : WsHeaders}
    (hip : headers.realIp = some ip.toString) (hip' : headers'.realIp = some ip.toString) :
    usageId (makePairAddr addr (some headers)) = usageId (makePairAddr addr' (some headers')) := by
  rw [makePairAddr_realIp addr ip hip, makePairAddr_realIp addr' ip hip']

end KinBridge.Hbbr
