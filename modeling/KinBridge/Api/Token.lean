import Mathlib.Data.List.AList

/-!
# The session token

`POST /api/sessions/start` packs a session, its parties and a Headscale key into a JWT of two
minutes, and `POST /v1/sessions/:id/resolve` unpacks it. Signing and verifying are the `jose`
package's; what is modelled is what goes into the payload and what is asked of one that comes
out.
-/

namespace KinBridge.Api

/-- A JSON value as `typeof` sees it. Nothing here looks into an array or an object, so they are
`other`, as are `null`, the booleans, and the numbers that are not whole. -/
inductive Json where
  | str (s : String)
  | num (n : Nat)
  | other
deriving DecidableEq, Repr

/-- `typeof x === "string"`, of a property that may be missing. -/
def asString : Option Json → Option String
  | some (.str s) => some s
  | _ => none

/-- A JSON object. -/
abbrev JsonObject := AList fun _ : String => Json

/-- What the routes read of the environment. -/
structure Env where
  kinbridgeServiceToken : String
  kinbridgeJwtSecret : String
  kinbridgeJwtIssuer : String
  kinbridgeJwtAudience : String
  kinbridgeJwtTtlSeconds : Nat
  kinbridgeRelayHost : String
  kinbridgeRelayPort : Nat
  kinbridgeRelayPubkey : String
  kinbridgeStunUrls : String

/-- The options of `jwtVerify`. -/
structure VerifyOptions where
  issuer : String
  audience : String

/-- The `jose` package, as far as it is used. Times are in seconds. -/
structure Jose where
  /-- `new SignJWT(payload).setProtectedHeader({ alg: "HS256" }).sign(secret)`. -/
  sign : String → JsonObject → String
  /-- `jwtVerify(token, secret, options)` at a time; `none` when it throws. -/
  jwtVerify : String → String → VerifyOptions → Nat → Option JsonObject

structure KinbridgeTokenClaims where
  sid : String
  owner : String
  helper : String
  device : String
  hsKey : String
deriving DecidableEq, Repr

/-- `{ ...claims }`. -/
def KinbridgeTokenClaims.toObject (claims : KinbridgeTokenClaims) : JsonObject :=
  (((((∅ : JsonObject).insert "sid" (.str claims.sid)).insert "owner" (.str claims.owner)).insert
    "helper" (.str claims.helper)).insert "device" (.str claims.device)).insert
    "hs_key" (.str claims.hsKey)

/-- The payload that is signed: the claims, the issuer and audience, and the two times. -/
def tokenPayload (env : Env) (now : Nat) (claims : KinbridgeTokenClaims) : JsonObject :=
  (((claims.toObject.insert "iss" (.str env.kinbridgeJwtIssuer)).insert
    "aud" (.str env.kinbridgeJwtAudience)).insert "iat" (.num now)).insert
    "exp" (.num (now + env.kinbridgeJwtTtlSeconds))

def mintKinbridgeToken (J : Jose) (env : Env) (now : Nat) (claims : KinbridgeTokenClaims) :
    String :=
  J.sign env.kinbridgeJwtSecret (tokenPayload env now claims)

/-- The narrowing: every field has to be there, and a string. -/
def narrowClaims (payload : JsonObject) : Option KinbridgeTokenClaims := do
  let sid ← asString (payload.lookup "sid")
  let owner ← asString (payload.lookup "owner")
  let helper ← asString (payload.lookup "helper")
  let device ← asString (payload.lookup "device")
  let hsKey ← asString (payload.lookup "hs_key")
  some ⟨sid, owner, helper, device, hsKey⟩

/-- `verifyKinbridgeToken`; `none` when it throws. -/
def verifyKinbridgeToken (J : Jose) (env : Env) (now : Nat) (token : String) :
    Option KinbridgeTokenClaims := do
  let payload ← J.jwtVerify token env.kinbridgeJwtSecret
    ⟨env.kinbridgeJwtIssuer, env.kinbridgeJwtAudience⟩ now
  narrowClaims payload

/-! ## What comes out of what goes in -/

variable {env : Env} {now : Nat} {claims : KinbridgeTokenClaims}

theorem tokenPayload_exp : (tokenPayload env now claims).lookup "exp"
    = some (.num (now + env.kinbridgeJwtTtlSeconds)) :=
  AList.lookup_insert _

theorem tokenPayload_iat : (tokenPayload env now claims).lookup "iat" = some (.num now) := by
  simp [tokenPayload]

theorem tokenPayload_aud : (tokenPayload env now claims).lookup "aud"
    = some (.str env.kinbridgeJwtAudience) := by
  simp [tokenPayload]

theorem tokenPayload_iss : (tokenPayload env now claims).lookup "iss"
    = some (.str env.kinbridgeJwtIssuer) := by
  simp [tokenPayload]

theorem tokenPayload_nbf : (tokenPayload env now claims).lookup "nbf" = none := by
  simp [tokenPayload, KinbridgeTokenClaims.toObject, -AList.insert_empty]

/-- The claims come back as they were. -/
theorem narrowClaims_payload : narrowClaims (tokenPayload env now claims) = some claims := by
  simp [narrowClaims, tokenPayload, KinbridgeTokenClaims.toObject, asString,
    -AList.insert_empty]

/-- What the documentation of `jose` says of the two functions. -/
structure Jose.Documented (J : Jose) : Prop where
  /-- A token is not empty, and made of the base64url alphabet and dots. -/
  compact : ∀ secret p, J.sign secret p ≠ ""
    ∧ ∀ c ∈ (J.sign secret p).toList, c.isAlphanum ∨ c ∈ ['-', '_', '.']
  /-- Only what was signed with the secret verifies. -/
  signed : ∀ token secret options now p, J.jwtVerify token secret options now = some p →
    ∃ q, J.sign secret q = token
  /-- And it verifies as the payload that was signed, before its `exp`. -/
  payload : ∀ secret options now p q, J.jwtVerify (J.sign secret q) secret options now = some p →
    p = q ∧ ∀ exp, q.lookup "exp" = some (.num exp) → now < exp
  accepts : ∀ secret options now q iat exp, q.lookup "iss" = some (.str options.issuer) →
    q.lookup "aud" = some (.str options.audience) → q.lookup "iat" = some (.num iat) →
    q.lookup "nbf" = none → q.lookup "exp" = some (.num exp) → now < exp →
    J.jwtVerify (J.sign secret q) secret options now = some q

variable {J : Jose}

theorem verify_minted (hJ : J.Documented) {later : Nat}
    (h : later < now + env.kinbridgeJwtTtlSeconds) :
    verifyKinbridgeToken J env later (mintKinbridgeToken J env now claims) = some claims := by
  unfold verifyKinbridgeToken mintKinbridgeToken
  rw [hJ.accepts _ _ _ _ _ _ tokenPayload_iss tokenPayload_aud tokenPayload_iat tokenPayload_nbf
    tokenPayload_exp h, Option.bind_eq_bind, Option.bind_some, narrowClaims_payload]

/-- A token that the service minted verifies as the claims it was minted for, and only before it
expires. -/
theorem verify_minted_eq (hJ : J.Documented) {later : Nat} {claims' : KinbridgeTokenClaims}
    (h : verifyKinbridgeToken J env later (mintKinbridgeToken J env now claims) = some claims') :
    claims' = claims ∧ later < now + env.kinbridgeJwtTtlSeconds := by
  obtain ⟨p, hp, hclaims⟩ := Option.bind_eq_some_iff.mp h
  obtain ⟨rfl, hexp⟩ := hJ.payload _ _ _ _ _ hp
  rw [narrowClaims_payload] at hclaims
  exact ⟨(Option.some.inj hclaims).symm, hexp _ tokenPayload_exp⟩

theorem verify_signed (hJ : J.Documented) {token : String}
    (h : verifyKinbridgeToken J env now token = some claims) :
    ∃ q, J.sign env.kinbridgeJwtSecret q = token := by
  obtain ⟨p, hp, _⟩ := Option.bind_eq_some_iff.mp h
  exact hJ.signed _ _ _ _ _ hp

end KinBridge.Api
