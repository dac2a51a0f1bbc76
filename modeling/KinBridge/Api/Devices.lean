import KinBridge.Api.Sessions

/-!
# The device route

`POST /api/devices/:id/heartbeat`, which tells that a device is online. The service keeps
nothing of it: what counts is the line that it logs, with the device and the time.
-/

namespace KinBridge.Api

/-- `req.body`: any JSON, or none. -/
inductive JsonBody where
  | object (o : JsonObject)
  | array (items : List Json)
  /-- A string, a number, a boolean, `null`, or no body at all. -/
  | other

/-- An array has its indices for keys. -/
def indexed (items : List Json) : List (Sigma fun _ : String => Json) :=
  items.zipIdx.map fun x => ⟨toString x.2, x.1⟩

/-- `...(typeof req.body === "object" && req.body !== null ? req.body : {})`. -/
def JsonBody.spread : JsonBody → JsonObject
  | .object o => o
  | .array items => (indexed items).toAList
  | .other => ∅

/-- `HeartbeatBody`. -/
structure HeartbeatBody where
  deviceId : String
  /-- `at`, if it is there. -/
  atTime : Option String
deriving DecidableEq, Repr

/-- The packages that the route uses. -/
structure DeviceService extends Service where
  /-- `z.string().datetime()`. -/
  datetime : String → Bool

/-- `z.string().datetime().optional()`; `none` when it fails. -/
def datetimeField (datetime : String → Bool) (o : JsonObject) (key : String) :
    Option (Option String) :=
  match o.lookup key with
  | none => some none
  | some (.str s) => if datetime s then some (some s) else none
  | some _ => none

/-- `HeartbeatBody.safeParse`: the two fields and no other. -/
def parseHeartbeatBody (A : DeviceService) (o : JsonObject) : Option HeartbeatBody := do
  if o.keys.all (["device_id", "at"].contains ·) then
    let deviceId ← uuidField A.uuid o "device_id"
    let atTime ← datetimeField A.datetime o "at"
    some ⟨deviceId, atTime⟩
  else none

structure HeartbeatRequest where
  /-- `new Date().toISOString()`. -/
  now : String
  serviceToken : Header
  /-- The `:id` of the path. -/
  id : String
  body : JsonBody

inductive HeartbeatAnswer where
  | refused (reply : Reply)
  /-- Answered 204, after this went into the log. -/
  | recorded (deviceId atTime : String)
deriving DecidableEq, Repr

def HeartbeatAnswer.code : HeartbeatAnswer → Nat
  | .refused reply => reply.code
  | .recorded _ _ => 204

/-- `{ device_id: req.params.id, ...body }`: of two values for a key the later one counts. -/
def heartbeatObject (id : String) (body : JsonObject) : JsonObject :=
  body ∪ AList.singleton "device_id" (.str id)

def heartbeat (A : DeviceService) (r : HeartbeatRequest) : HeartbeatAnswer :=
  match requireServiceToken A.env r.serviceToken with
  | some reply => .refused reply
  | none =>
    match parseHeartbeatBody A (heartbeatObject r.id r.body.spread) with
    | none => .refused ⟨400, .error "bad_request"⟩
    | some data => .recorded data.deviceId (data.atTime.getD r.now)

end KinBridge.Api
