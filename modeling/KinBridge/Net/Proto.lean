import KinBridge.Net.Addr

/-!
# Messages

The part of `rendezvous_proto` that the two servers read or write. A message arrives
already decoded: a datagram that does not decode is `none` where a handler takes
`Option RendezvousMessage`. Fields that no handler looks at are left out.
-/

namespace KinBridge

/-- `EnumOrUnknown<NatType>`: only `SYMMETRIC` is named by the servers; a number that
is no variant at all is `unrecognized`. -/
inductive NatType where
  | symmetric
  | other (n : Nat)
  | unrecognized (n : Int)
deriving DecidableEq, Repr

/-- `register_pk_response::Result`. -/
inductive RkResult where
  | OK
  | UUID_MISMATCH
  | TOO_FREQUENT
  | NOT_SUPPORT
  | SERVER_ERROR
deriving DecidableEq, Repr

/-- `punch_hole_response::Failure`. -/
inductive Failure where
  | ID_NOT_EXIST
  | OFFLINE
  | LICENSE_MISMATCH
deriving DecidableEq, Repr

structure RegisterPeer where
  id : String
  serial : Int
deriving DecidableEq, Repr

structure RegisterPk where
  id : String
  uuid : Bytes
  pk : Bytes
deriving DecidableEq, Repr

structure PunchHoleRequest where
  id : String
  natType : NatType
  licenceKey : String
deriving DecidableEq, Repr

structure PunchHole where
  socketAddr : Bytes
  natType : NatType
  relayServer : String
deriving DecidableEq, Repr

structure FetchLocalAddr where
  socketAddr : Bytes
  relayServer : String
deriving DecidableEq, Repr

structure PunchHoleSent where
  socketAddr : Bytes
  id : String
  relayServer : String
  natType : NatType
  version : String
deriving DecidableEq, Repr

structure LocalAddr where
  socketAddr : Bytes
  localAddr : Bytes
  relayServer : String
  id : String
  version : String
deriving DecidableEq, Repr

/-- The answer to a punch-hole request. `union` is the `nat_type`/`is_local` oneof, and
`failure` is `none` where the code leaves the field at its default. -/
structure PunchHoleResponse where
  socketAddr : Bytes
  pk : Bytes
  failure : Option Failure
  relayServer : String
  union : Option (NatType ⊕ Bool)
deriving DecidableEq, Repr

structure RequestRelay where
  id : String
  uuid : String
  socketAddr : Bytes
  licenceKey : String
deriving DecidableEq, Repr

/-- The `id`/`pk` oneof of a `RelayResponse`. -/
inductive RelayUnion where
  | id (id : String)
  | pk (pk : Bytes)
deriving DecidableEq, Repr

structure RelayResponse where
  socketAddr : Bytes
  relayServer : String
  union : Option RelayUnion
  version : String
deriving DecidableEq, Repr

/-- `rr.id()`: empty unless the oneof holds an id. -/
def RelayResponse.id (rr : RelayResponse) : String :=
  match rr.union with
  | some (.id id) => id
  | _ => ""

structure ConfigUpdate where
  serial : Int
  rendezvousServers : List String
deriving DecidableEq, Repr

structure TestNatResponse where
  port : UInt16
  cu : Option ConfigUpdate
deriving DecidableEq, Repr

inductive RendezvousMessage where
  | registerPeer (rp : RegisterPeer)
  | registerPeerResponse (requestPk : Bool)
  | registerPk (rk : RegisterPk)
  | registerPkResponse (result : RkResult)
  | punchHoleRequest (ph : PunchHoleRequest)
  | punchHole (ph : PunchHole)
  | fetchLocalAddr (fla : FetchLocalAddr)
  | punchHoleSent (phs : PunchHoleSent)
  | localAddr (la : LocalAddr)
  | punchHoleResponse (phr : PunchHoleResponse)
  | requestRelay (rf : RequestRelay)
  | relayResponse (rr : RelayResponse)
  | testNatRequest (serial : Int)
  | testNatResponse (res : TestNatResponse)
  | configureUpdate (cu : ConfigUpdate)
  | softwareUpdate (url : String)
  | other
deriving DecidableEq, Repr

/-- The messages by which `hbbs` brings a request to the peer it names. -/
def RendezvousMessage.isForward : RendezvousMessage → Bool
  | .punchHole _ | .fetchLocalAddr _ | .requestRelay _ => true
  | _ => false

end KinBridge
