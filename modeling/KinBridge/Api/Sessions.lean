import KinBridge.Lib.Percent
import KinBridge.Api.Token

/-!
# The session routes

`POST /api/sessions/start`, which the dashboard calls with its service token, and
`POST /v1/sessions/:id/resolve`, which a client calls with the session token that it found in
the connect URL. The service keeps nothing between requests: an answer depends on the
request, the environment, the clock, and on what Headscale says.

`z.string().uuid()` is the `zod` package's, so it is a parameter.
-/

namespace KinBridge.Api

/-! ## URLs -/

/-- What `encodeURIComponent` leaves as it is. -/
def unescaped (c : Char) : Bool := c.isAlphanum || "-_.!~*'()".toList.contains c

def keepsByte (b : UInt8) : Bool := unescaped (Char.ofNat b.toNat)

/-- The bytes of a string in UTF-8, as `Buffer.from` makes them. -/
def bytesOf (s : String) : List UInt8 := s.toUTF8.data.toList

def encodeURIComponent (s : String) : String :=
  String.ofList (Percent.escape keepsByte (bytesOf s))

/-- `decodeURIComponent`; `none` when it throws. -/
def decodeURIComponent (s : String) : Option String := do
  let bytes ← Percent.unescape s.toList
  String.fromUTF8? ⟨bytes.toArray⟩

/-- The query of a URL: from the first `?` to the fragment. -/
def queryOf (url : String) : List Char :=
  ((url.toList.dropWhile (· ≠ '?')).drop 1).takeWhile (· ≠ '#')

/-- The decoded value of a parameter of the query. -/
def queryParam (name url : String) : Option String := do
  let value ← ((queryOf url).splitOn '&').findSome? (List.dropPrefix? · (name.toList ++ ['=']))
  decodeURIComponent (String.ofList value)

def connectUrl (token : String) : String := "kinbridge://session?token=" ++ encodeURIComponent token

/-! ## Headers -/

/-- White space, as `\s` and `trim` have it. -/
def isSpace (c : Char) : Bool :=
  [0x09, 0x0A, 0x0B, 0x0C, 0x0D, 0x20, 0xA0, 0x1680, 0x2000, 0x2001, 0x2002, 0x2003, 0x2004, 0x2005,
    0x2006, 0x2007, 0x2008, 0x2009, 0x200A, 0x2028, 0x2029, 0x202F, 0x205F, 0x3000, 0xFEFF].contains
    c.toNat

/-- The group of `/^Bearer\s+(\S+)$/i`, in the header or in the empty string if there is none. -/
def bearerToken (authorization : Option String) : Option String :=
  let header := (authorization.getD "").toList
  let rest := header.drop 6
  let token := rest.dropWhile isSpace
  if (header.take 6).map Char.toLower = "bearer".toList ∧ rest.takeWhile isSpace ≠ []
      ∧ token ≠ [] ∧ token.all (fun c => !isSpace c) then
    some (String.ofList token)
  else none

/-- A header may be missing, or be there more than once. -/
inductive Header where
  | absent
  | one (value : String)
  | many (values : List String)

/-! ## Answers -/

inductive Body where
  | error (text : String)
  | started (sessionId connectUrl : String)
  | resolved (sessionId relayHost : String) (relayPort : Nat) (rendezvousToken : String)
      (iceServers : List String) (deviceFingerprint : String)
deriving DecidableEq, Repr

structure Reply where
  code : Nat
  body : Body
deriving DecidableEq, Repr

/-- The Headscale key that an answer carries. -/
def Body.hsKey : Body → Option String
  | .resolved _ _ _ rendezvousToken _ _ => some rendezvousToken
  | _ => none

/-! ## `POST /api/sessions/start` -/

/-- The service: its environment, and the packages it uses. -/
structure Service where
  env : Env
  jose : Jose
  /-- `z.string().uuid()`. -/
  uuid : String → Bool

/-- `requireServiceToken`: the answer that it sends instead of going on. -/
def requireServiceToken (env : Env) (header : Header) : Option Reply :=
  let presented := match header with
    | .absent => none
    | .one value => some value
    | .many values => values.head?
  match presented with
  | none => some ⟨401, .error "missing_service_token"⟩
  | some presented =>
    if presented = "" then some ⟨401, .error "missing_service_token"⟩
    else if bytesOf presented ≠ bytesOf env.kinbridgeServiceToken then
      some ⟨401, .error "invalid_service_token"⟩
    else none

structure StartSessionBody where
  dashboardSessionId : String
  deviceId : String
  helperId : String
  ownerId : String
deriving DecidableEq, Repr

/-- One field of the schema. -/
def uuidField (uuid : String → Bool) (o : JsonObject) (key : String) : Option String :=
  (asString (o.lookup key)).filter uuid

/-- `StartSessionBody.safeParse`: the four fields and no other. A body that is not an object is
`none`. -/
def parseStartSessionBody (uuid : String → Bool) (body : Option JsonObject) :
    Option StartSessionBody := do
  let o ← body
  if o.keys.all (["dashboard_session_id", "device_id", "helper_id", "owner_id"].contains ·) then
    let dashboardSessionId ← uuidField uuid o "dashboard_session_id"
    let deviceId ← uuidField uuid o "device_id"
    let helperId ← uuidField uuid o "helper_id"
    let ownerId ← uuidField uuid o "owner_id"
    some ⟨dashboardSessionId, deviceId, helperId, ownerId⟩
  else none

structure StartRequest where
  /-- Seconds since the epoch, here and in `ResolveRequest`. -/
  now : Nat
  serviceToken : Header
  body : Option JsonObject
  /-- What `mintHeadscalePreAuthKey` returns for a device; `none` when it throws. -/
  headscale : String → Option String

/-- The claims of the token for a parsed body. -/
def StartSessionBody.claims (data : StartSessionBody) (preAuthKey : String) :
    KinbridgeTokenClaims :=
  ⟨data.dashboardSessionId, data.ownerId, data.helperId, data.deviceId, preAuthKey⟩

def startSession (A : Service) (r : StartRequest) : Reply :=
  match requireServiceToken A.env r.serviceToken with
  | some reply => reply
  | none =>
    match parseStartSessionBody A.uuid r.body with
    | none => ⟨400, .error "bad_request"⟩
    | some data =>
      match r.headscale data.deviceId with
      | none => ⟨502, .error "headscale_unavailable"⟩
      | some preAuthKey =>
        let token := mintKinbridgeToken A.jose A.env r.now (data.claims preAuthKey)
        ⟨200, .started data.dashboardSessionId (connectUrl token)⟩

/-! ## `POST /v1/sessions/:id/resolve` -/

structure ResolveRequest where
  now : Nat
  authorization : Option String
  /-- The `:id` of the path. -/
  id : String

/-- `ice_servers`, from `KINBRIDGE_STUN_URLS`. -/
def iceServers (urls : String) : List String :=
  ((urls.toList.splitOn ',').map fun u =>
    ((u.dropWhile isSpace).reverse.dropWhile isSpace).reverse).filterMap fun u =>
      if u = [] then none else some (String.ofList u)

/-- The answer for claims that fit the session. -/
def resolvedBody (env : Env) (claims : KinbridgeTokenClaims) : Body :=
  .resolved claims.sid env.kinbridgeRelayHost env.kinbridgeRelayPort claims.hsKey
    (iceServers env.kinbridgeStunUrls) env.kinbridgeRelayPubkey

def resolveSession (A : Service) (r : ResolveRequest) : Reply :=
  match bearerToken r.authorization with
  | none => ⟨401, .error "missing_bearer_token"⟩
  | some token =>
    if A.uuid r.id then
      match verifyKinbridgeToken A.jose A.env r.now token with
      | none => ⟨401, .error "invalid_token"⟩
      | some claims =>
        if claims.sid ≠ r.id then ⟨403, .error "session_mismatch"⟩
        else ⟨200, resolvedBody A.env claims⟩
    else ⟨400, .error "bad_request"⟩

end KinBridge.Api
