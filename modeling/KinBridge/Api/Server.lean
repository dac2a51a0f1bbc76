import KinBridge.Lib.Runs
import KinBridge.Api.Devices
import KinBridge.Api.Events
import KinBridge.Api.Headscale

/-!
# The service as it runs

One process serves all routes. `POST /api/sessions/start` asks Headscale for a key and waits for
it, and whatever else comes in is served meanwhile, another start call with the same body as
well. What the service keeps between two requests are those that wait, and the sockets of
`/ws/events`.
-/

namespace KinBridge.Api

open Runs Slots

/-! ## `mintHeadscalePreAuthKey` -/

/-- The body of the request. -/
structure PreAuthKeyBody where
  user : String
  reusable : Bool
  ephemeral : Bool
  /-- In milliseconds since the epoch. It is sent as `toISOString` writes it. -/
  expiration : Nat
  aclTags : List String
deriving DecidableEq, Repr

/-- `POST /api/v1/preauthkey`. -/
structure MintCall where
  url : String
  authorization : String
  body : PreAuthKeyBody
deriving DecidableEq, Repr

def mintCall (env : HeadscaleEnv) (now : Nat) (deviceId : String) (minutesValid : Option Nat) :
    MintCall where
  url := env.headscaleUrl ++ "/api/v1/preauthkey"
  authorization := authHeader env
  body :=
    { user := env.headscaleUser
      reusable := false
      ephemeral := true
      expiration := now + minutesValid.getD 10 * 60000
      aclTags := [deviceTag deviceId] }

/-- What `mintHeadscalePreAuthKey` returns: the key in the body, or `none` when it throws. -/
def mintedKey (reply : Fetched (Option String)) : Option String :=
  match reply with
  | .rejected => none
  | .response _ body => if reply.ok then body else none

/-! ## `POST /api/sessions/start`, before its wait and after it -/

/-- The request of a start call, or the answer if there is none. -/
def askHeadscale (A : Service) (env : HeadscaleEnv) (now : Nat) (serviceToken : Header)
    (body : Option JsonObject) : Reply ⊕ StartSessionBody × MintCall :=
  match requireServiceToken A.env serviceToken with
  | some reply => .inl reply
  | none =>
    match parseStartSessionBody A.uuid body with
    | none => .inl ⟨400, .error "bad_request"⟩
    | some data => .inr (data, mintCall env now data.deviceId none)

/-- The token that goes into the URL. `jose` counts in seconds. -/
def sessionToken (A : Service) (now : Nat) (data : StartSessionBody) (key : String) : String :=
  mintKinbridgeToken A.jose A.env (now / 1000) (data.claims key)

def answerStart (A : Service) (now : Nat) (data : StartSessionBody) (key : Option String) : Reply :=
  match key with
  | none => ⟨502, .error "headscale_unavailable"⟩
  | some key => ⟨200, .started data.dashboardSessionId (connectUrl (sessionToken A now data key))⟩

/-- The route as one step has the same answer. -/
theorem startSession_eq (A : Service) (env : HeadscaleEnv) (asked now : Nat) (r : StartRequest)
    (hnow : r.now = now / 1000) : startSession A r =
      match askHeadscale A env asked r.serviceToken r.body with
      | .inl reply => reply
      | .inr (data, _) => answerStart A now data (r.headscale data.deviceId) := by
  unfold startSession askHeadscale
  cases requireServiceToken A.env r.serviceToken with
  | some reply => rfl
  | none =>
      cases parseStartSessionBody A.uuid r.body with
      | none => rfl
      | some data =>
          dsimp only [answerStart, sessionToken]
          cases r.headscale data.deviceId with
          | none => rfl
          | some key => rw [hnow]

/-! ## `POST /api/sessions/:id/end` and `POST /api/help-requests` -/

inductive EndAnswer where
  | refused (reply : Reply)
  | ended (sessionId endedAt : String)
deriving DecidableEq, Repr

/-- `now` is `new Date().toISOString()`. -/
def endSession (A : Service) (now : String) (serviceToken : Header) (id : String) : EndAnswer :=
  match requireServiceToken A.env serviceToken with
  | some reply => .refused reply
  | none => if A.uuid id then .ended id now else .refused ⟨400, .error "bad_request"⟩

/-- `length` of a string: its code units in UTF-16. -/
def utf16Length (s : String) : Nat :=
  s.toList.foldl (fun n c => n + if 0x10000 ≤ c.toNat then 2 else 1) 0

structure HelpRequestBody where
  deviceId : String
  sessionId : Option String
  message : Option String
deriving DecidableEq, Repr

/-- A field that may be missing. -/
def optionalField (ok : String → Bool) (o : JsonObject) (key : String) : Option (Option String) :=
  match o.lookup key with
  | none => some none
  | some (.str s) => if ok s then some (some s) else none
  | some _ => none

/-- `HelpRequestBody.safeParse`: these fields and no other. -/
def parseHelpRequestBody (uuid : String → Bool) (body : JsonBody) : Option HelpRequestBody :=
  match body with
  | .object o =>
    if o.keys.all (["device_id", "session_id", "message"].contains ·) then do
      let deviceId ← uuidField uuid o "device_id"
      let sessionId ← optionalField uuid o "session_id"
      let message ← optionalField (utf16Length · ≤ 280) o "message"
      some ⟨deviceId, sessionId, message⟩
    else none
  | _ => none

inductive HelpAnswer where
  | refused (reply : Reply)
  /-- Answered 202, after this went into the log. -/
  | queued (deviceId : String) (sessionId : Option String) (hasMessage : Bool)
deriving DecidableEq, Repr

def helpRequest (A : Service) (serviceToken : Header) (body : JsonBody) : HelpAnswer :=
  match requireServiceToken A.env serviceToken with
  | some reply => .refused reply
  | none =>
    match parseHelpRequestBody A.uuid body with
    | none => .refused ⟨400, .error "bad_request"⟩
    | some data => .queued data.deviceId data.sessionId (data.message.any (· ≠ ""))

/-! ## All routes -/

structure ApiService extends DeviceService where
  headscale : HeadscaleEnv

/-- The start calls that wait for Headscale, and the sockets. -/
structure ServiceState where
  waiting : Nat → Option StartSessionBody
  ws : WsServer

def ServiceState.start : ServiceState := ⟨fun _ => none, .start⟩

/-- Something comes in. `now` is in milliseconds since the epoch. -/
inductive ApiEvent where
  | start (i now : Nat) (serviceToken : Header) (body : Option JsonObject)
  /-- The `fetch` of a start call is over. -/
  | minted (i now : Nat) (reply : Fetched (Option String))
  | resolve (now : Nat) (authorization : Option String) (id : String)
  | endSession (now : String) (serviceToken : Header) (id : String)
  | heartbeat (r : HeartbeatRequest)
  | help (serviceToken : Header) (body : JsonBody)
  | ws (e : WsEvent)

inductive ApiOut where
  | answer (reply : Reply)
  | fetch (call : MintCall)
  | ended (a : EndAnswer)
  | heartbeat (a : HeartbeatAnswer)
  | help (a : HelpAnswer)
  | ws (effects : List WsEffect)

def api (A : ApiService) (st : ServiceState) :
    ApiEvent → Option (ServiceState × ApiOut)
  | .start i now serviceToken body =>
    match st.waiting i with
    | some _ => none
    | none =>
      match askHeadscale A.toService A.headscale now serviceToken body with
      | .inl reply => some (st, .answer reply)
      | .inr (data, call) => some ({ st with waiting := put st.waiting i data }, .fetch call)
  | .minted i now reply =>
    match st.waiting i with
    | none => none
    | some data => some ({ st with waiting := free st.waiting i },
        .answer (answerStart A.toService now data (mintedKey reply)))
  | .resolve now authorization id =>
    some (st, .answer (resolveSession A.toService ⟨now / 1000, authorization, id⟩))
  | .endSession now serviceToken id =>
    some (st, .ended (endSession A.toService now serviceToken id))
  | .heartbeat r => some (st, .heartbeat (heartbeat A.toDeviceService r))
  | .help serviceToken body => some (st, .help (helpRequest A.toService serviceToken body))
  | .ws e => (wsStep A.toService st.ws e).map fun r => ({ st with ws := r.1 }, .ws r.2)

/-! ## What a step does -/

variable {A : ApiService} {st st' : ServiceState} {out : ApiOut}

theorem askHeadscale_inr {now : Nat} {serviceToken : Header} {body : Option JsonObject}
    {data : StartSessionBody} {call : MintCall}
    (h : askHeadscale A.toService A.headscale now serviceToken body = .inr (data, call)) :
    requireServiceToken A.env serviceToken = none
      ∧ parseStartSessionBody A.uuid body = some data
      ∧ call = mintCall A.headscale now data.deviceId none := by
  unfold askHeadscale at h
  split at h
  · cases h
  · rename_i hguard
    split at h
    · cases h
    · rename_i data' hdata
      obtain ⟨rfl, rfl⟩ := Prod.mk.inj (Sum.inr.inj h)
      exact ⟨hguard, hdata, rfl⟩

theorem requireServiceToken_error {env : Env} {header : Header} {reply : Reply}
    (h : requireServiceToken env header = some reply) : ∃ text, reply.body = .error text := by
  unfold requireServiceToken at h
  dsimp only at h
  split at h
  · obtain rfl := Option.some.inj h
    exact ⟨_, rfl⟩
  · split at h
    · obtain rfl := Option.some.inj h
      exact ⟨_, rfl⟩
    · split at h
      · obtain rfl := Option.some.inj h
        exact ⟨_, rfl⟩
      · cases h

/-- What is refused before the wait carries nothing. -/
theorem askHeadscale_inl {now : Nat} {serviceToken : Header} {body : Option JsonObject}
    {reply : Reply}
    (h : askHeadscale A.toService A.headscale now serviceToken body = .inl reply) :
    ∃ text, reply.body = .error text := by
  unfold askHeadscale at h
  split at h
  · rename_i hguard
    obtain rfl := Sum.inl.inj h
    exact requireServiceToken_error hguard
  · split at h
    · obtain rfl := Sum.inl.inj h
      exact ⟨_, rfl⟩
    · cases h

inductive ApiStep (A : ApiService) (st : ServiceState) :
    ApiEvent → ServiceState → ApiOut → Prop where
  | refused {i now code : Nat} {serviceToken : Header} {body : Option JsonObject} {text : String} :
      ApiStep A st (.start i now serviceToken body) st (.answer ⟨code, .error text⟩)
  | asked {i now : Nat} {serviceToken : Header} {body : Option JsonObject}
      {data : StartSessionBody} : requireServiceToken A.env serviceToken = none →
      parseStartSessionBody A.uuid body = some data →
      ApiStep A st (.start i now serviceToken body) { st with waiting := put st.waiting i data }
        (.fetch (mintCall A.headscale now data.deviceId none))
  | minted {i now : Nat} {reply : Fetched (Option String)} {data : StartSessionBody} :
      st.waiting i = some data →
      ApiStep A st (.minted i now reply) { st with waiting := free st.waiting i }
        (.answer (answerStart A.toService now data (mintedKey reply)))
  | resolve {now : Nat} {authorization : Option String} {id : String} :
      ApiStep A st (.resolve now authorization id) st
        (.answer (resolveSession A.toService ⟨now / 1000, authorization, id⟩))
  | endSession {now id : String} {serviceToken : Header} {a : EndAnswer} :
      ApiStep A st (.endSession now serviceToken id) st (.ended a)
  | heartbeat {r : HeartbeatRequest} {a : HeartbeatAnswer} :
      ApiStep A st (.heartbeat r) st (.heartbeat a)
  | help {serviceToken : Header} {body : JsonBody} {a : HelpAnswer} :
      ApiStep A st (.help serviceToken body) st (.help a)
  | ws {e : WsEvent} {w : WsServer} {effects : List WsEffect} :
      wsStep A.toService st.ws e = some (w, effects) →
      ApiStep A st (.ws e) { st with ws := w } (.ws effects)

theorem api_step {e : ApiEvent} (hst : api A st e = some (st', out)) : ApiStep A st e st' out := by
  cases e with
  | start i now serviceToken body =>
      dsimp only [api] at hst
      split at hst
      · cases hst
      · split at hst
        · rename_i reply hask
          obtain ⟨rfl, rfl⟩ := Prod.mk.inj (Option.some.inj hst)
          obtain ⟨text, htext⟩ := askHeadscale_inl hask
          obtain ⟨code, body⟩ := reply
          dsimp only at htext
          subst htext
          exact .refused
        · rename_i data call hask
          obtain ⟨rfl, rfl⟩ := Prod.mk.inj (Option.some.inj hst)
          obtain ⟨hguard, hdata, rfl⟩ := askHeadscale_inr hask
          exact .asked hguard hdata
  | minted i now reply =>
      dsimp only [api] at hst
      split at hst
      · cases hst
      · rename_i data hdata
        obtain ⟨rfl, rfl⟩ := Prod.mk.inj (Option.some.inj hst)
        exact .minted hdata
  | resolve now authorization id => cases hst; exact .resolve
  | endSession now serviceToken id => cases hst; exact .endSession
  | heartbeat r => cases hst; exact .heartbeat
  | help serviceToken body => cases hst; exact .help
  | ws e =>
      obtain ⟨⟨w, effects⟩, hw, heq⟩ := Option.map_eq_some_iff.mp hst
      obtain ⟨rfl, rfl⟩ := Prod.mk.inj heq
      exact .ws hw

end KinBridge.Api
