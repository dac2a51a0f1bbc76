import Mathlib.Data.List.TakeWhile
import Mathlib.Logic.Encodable.Basic
import Mathlib.Logic.Equiv.List
import KinBridge.Api.Sessions

/-!
# A session token opens its own session

The service keeps no record of the tokens it hands out. What binds a token to its session is
the `sid` that it carries, which `resolve` compares with the id in the path, and that nobody
else signs with the service's secret.
-/

namespace KinBridge.Proof

open KinBridge Api

/-! ## Out of the connect URL -/

theorem keepsByte_plain : Percent.Plain keepsByte := by
  have hall : ∀ n < 256, unescaped (Char.ofNat n) = true → n < 128 ∧ n ≠ '%'.toNat := by
    decide +kernel
  exact fun b hb => hall b.toNat b.toNat_lt hb

theorem decode_encode (s : String) : decodeURIComponent (encodeURIComponent s) = some s := by
  unfold decodeURIComponent encodeURIComponent
  rw [String.toList_ofList, Percent.unescape_escape keepsByte_plain]
  exact dif_pos s.isValidUTF8

/-- No separator of a URL is left in an encoded component. -/
theorem not_mem_encode {c : Char} (hc : c ∈ ['#', '&']) (s : String) :
    c ∉ (encodeURIComponent s).toList := by
  unfold encodeURIComponent
  rw [String.toList_ofList]
  intro hmem
  rcases Percent.mem_escape hmem with rfl | hdigit | ⟨b, hkeep, rfl⟩
  · exact absurd hc (by decide)
  · have hsep : ['#', '&'].all (fun c => !Percent.hexDigits.contains c) = true := by
      decide +kernel
    simpa [hdigit] using List.all_eq_true.mp hsep c hc
  · have hsep : ['#', '&'].all (fun c => !unescaped c) = true := by decide +kernel
    rw [keepsByte] at hkeep
    simpa [hkeep] using List.all_eq_true.mp hsep _ hc

theorem toList_connectUrl (token : String) :
    (connectUrl token).toList = "kinbridge://session".toList
      ++ '?' :: ("token=".toList ++ (encodeURIComponent token).toList) := by
  have hlit : "kinbridge://session?token=".toList
      = "kinbridge://session".toList ++ '?' :: "token=".toList := by
    decide +kernel
  unfold connectUrl
  rw [String.toList_append, hlit, List.append_assoc, List.cons_append]

/-- The query is the parameter, whole. -/
theorem query_clean {c : Char} (hc : c ∈ ['#', '&']) (token : String) :
    c ∉ "token=".toList ++ (encodeURIComponent token).toList := by
  have hname : ['#', '&'].all (fun c => !"token=".toList.contains c) = true := by decide +kernel
  intro hmem
  rcases List.mem_append.mp hmem with hlit | henc
  · have hsep := List.all_eq_true.mp hname c hc
    rw [List.contains_iff_mem.mpr hlit] at hsep
    cases hsep
  · exact not_mem_encode hc token henc

theorem queryOf_connectUrl (token : String) :
    queryOf (connectUrl token) = "token=".toList ++ (encodeURIComponent token).toList := by
  have hscheme : "kinbridge://session".toList.all (fun c => c ≠ '?') = true := by decide +kernel
  unfold queryOf
  rw [toList_connectUrl, List.dropWhile_append_of_pos (List.all_eq_true.mp hscheme),
    List.dropWhile_cons_of_neg (by simp), List.drop_one, List.tail_cons,
    List.takeWhile_eq_self_iff]
  intro c hc
  exact decide_eq_true fun heq => query_clean (c := '#') (by simp) token (heq ▸ hc)

/-- The token that a client reads out of its connect URL is the one that was put in. -/
theorem queryParam_connectUrl (token : String) :
    queryParam "token" (connectUrl token) = some token := by
  have hname : "token".toList ++ ['='] = "token=".toList := by decide +kernel
  have hprefix : ("token=".toList ++ (encodeURIComponent token).toList).dropPrefix? "token=".toList
      = some (encodeURIComponent token).toList :=
    List.dropPrefix?_append_of_beq _ BEq.rfl
  unfold queryParam
  rw [queryOf_connectUrl, List.splitOn_eq_singleton (query_clean (by simp) token), hname,
    List.findSome?_cons, hprefix]
  dsimp only [Option.bind_eq_bind, Option.bind_some]
  rw [String.ofList_toList]
  exact decode_encode token

/-! ## In and out of the header -/

theorem bearerToken_of {token : String} (hne : token ≠ "")
    (hspace : ∀ c ∈ token.toList, isSpace c = false) :
    bearerToken (some ("Bearer " ++ token)) = some token := by
  have hlist : token.toList ≠ [] := fun heq => hne (String.toList_eq_nil_iff.mp heq)
  have hheader : ("Bearer " ++ token).toList = "Bearer".toList ++ ' ' :: token.toList := by
    have hlit : "Bearer ".toList = "Bearer".toList ++ [' '] := by decide +kernel
    rw [String.toList_append, hlit, List.append_assoc, List.singleton_append]
  have hlen : "Bearer".toList.length = 6 := by decide +kernel
  have hcase : "Bearer".toList.map Char.toLower = "bearer".toList := by decide +kernel
  have hkept : token.toList.dropWhile isSpace = token.toList := by
    rw [List.dropWhile_eq_self_iff]
    intro hpos
    rw [hspace _ (List.getElem_mem hpos)]
    exact Bool.false_ne_true
  have hall : token.toList.all (fun c => !isSpace c) = true := by
    rw [List.all_eq_true]
    intro c hc
    rw [hspace c hc]
    rfl
  unfold bearerToken
  rw [Option.getD_some, hheader]
  dsimp only
  rw [List.drop_left' hlen, List.take_left' hlen, List.dropWhile_cons_of_pos (by decide),
    List.takeWhile_cons_of_pos (by decide), hkept,
    if_pos ⟨hcase, List.cons_ne_nil _ _, hlist, hall⟩, String.ofList_toList]

theorem alphanum_range {c : Char} (hc : c.isAlphanum = true) : 48 ≤ c.toNat ∧ c.toNat ≤ 122 := by
  have hor : (c.isUpper || c.isLower || c.isDigit) = true := hc
  rw [Bool.or_eq_true, Bool.or_eq_true] at hor
  rcases hor with (hupper | hlower) | hdigit
  · have hrange : 65 ≤ c.toNat ∧ c.toNat ≤ 90 := of_decide_eq_true hupper
    omega
  · obtain ⟨hlo, hhi⟩ := Bool.and_eq_true_iff.mp hlower
    have hrange : 97 ≤ c.toNat ∧ c.toNat ≤ 122 := ⟨of_decide_eq_true hlo, of_decide_eq_true hhi⟩
    omega
  · obtain ⟨hlo, hhi⟩ := Bool.and_eq_true_iff.mp hdigit
    have hrange : 48 ≤ c.toNat ∧ c.toNat ≤ 57 := ⟨of_decide_eq_true hlo, of_decide_eq_true hhi⟩
    omega

/-- White space does not occur in a compact token. -/
theorem isSpace_compact {c : Char} (hc : c.isAlphanum ∨ c ∈ ['-', '_', '.']) :
    isSpace c = false := by
  rcases hc with hc | hc
  · have hrange := alphanum_range hc
    simp only [isSpace, List.contains_eq_mem, List.mem_cons, List.not_mem_nil, or_false,
      decide_eq_false_iff_not]
    omega
  · have hsep : ['-', '_', '.'].all (fun c => !isSpace c) = true := by decide
    simpa using List.all_eq_true.mp hsep c hc

variable {A : Service}

theorem bearerToken_signed (hJ : A.jose.Documented) {secret : String} {p : JsonObject} :
    bearerToken (some ("Bearer " ++ A.jose.sign secret p)) = some (A.jose.sign secret p) := by
  obtain ⟨hne, hchars⟩ := hJ.compact secret p
  exact bearerToken_of hne fun c hc => isSpace_compact (hchars c hc)

/-! ## The two routes -/

/-- A start call that was answered: its session, the token in its connect URL, the Headscale key
that it put into the token, and when the token expires. -/
def Started (A : Service) (r : StartRequest) (sid token key : String) (expires : Nat) : Prop :=
  ∃ data url, parseStartSessionBody A.uuid r.body = some data ∧ data.dashboardSessionId = sid
    ∧ r.headscale data.deviceId = some key ∧ startSession A r = ⟨200, .started sid url⟩
    ∧ queryParam "token" url = some token ∧ expires = r.now + A.env.kinbridgeJwtTtlSeconds

theorem uuidField_uuid {uuid : String → Bool} {o : JsonObject} {key v : String}
    (h : uuidField uuid o key = some v) : uuid v = true := by
  exact (Option.filter_eq_some_iff.mp h).2

theorem parseStartSessionBody_uuid {uuid : String → Bool} {body : Option JsonObject}
    {data : StartSessionBody} (h : parseStartSessionBody uuid body = some data) :
    uuid data.dashboardSessionId = true := by
  unfold parseStartSessionBody at h
  obtain ⟨o, _, h⟩ := Option.bind_eq_some_iff.mp h
  split at h
  · obtain ⟨sid, hsid, h⟩ := Option.bind_eq_some_iff.mp h
    obtain ⟨device, _, h⟩ := Option.bind_eq_some_iff.mp h
    obtain ⟨helper, _, h⟩ := Option.bind_eq_some_iff.mp h
    obtain ⟨owner, _, h⟩ := Option.bind_eq_some_iff.mp h
    obtain rfl := Option.some.inj h
    exact uuidField_uuid hsid
  · cases h

/-- The guard lets through or answers 401. -/
theorem requireServiceToken_code {env : Env} {header : Header} {reply : Reply}
    (h : requireServiceToken env header = some reply) : reply.code = 401 := by
  unfold requireServiceToken at h
  dsimp only at h
  split at h
  · obtain rfl := Option.some.inj h
    rfl
  · split at h
    · obtain rfl := Option.some.inj h
      rfl
    · split at h
      · obtain rfl := Option.some.inj h
        rfl
      · cases h

/-- What a started session's token is. -/
theorem started_token {r : StartRequest} {sid token key : String} {expires : Nat}
    (h : Started A r sid token key expires) : A.uuid sid = true
      ∧ ∃ claims : KinbridgeTokenClaims, claims.sid = sid ∧ claims.hsKey = key
        ∧ token = mintKinbridgeToken A.jose A.env r.now claims
        ∧ expires = r.now + A.env.kinbridgeJwtTtlSeconds := by
  obtain ⟨data, url, hdata, rfl, hkey, hreply, htoken, hexpires⟩ := h
  refine ⟨parseStartSessionBody_uuid hdata, data.claims key, rfl, rfl, ?_, hexpires⟩
  unfold startSession at hreply
  rw [hdata] at hreply
  dsimp only at hreply
  rw [hkey] at hreply
  split at hreply
  · rename_i reply hguard
    rw [hreply] at hguard
    cases requireServiceToken_code hguard
  · obtain ⟨_, rfl⟩ := Body.started.inj (Reply.mk.inj hreply).2
    rw [queryParam_connectUrl] at htoken
    exact (Option.some.inj htoken).symm

/-- Everything `resolve` answers. -/
theorem resolveSession_cases (A : Service) (r : ResolveRequest) :
    (resolveSession A r).body.hsKey = none ∧ (resolveSession A r).code ≠ 200
      ∨ ∃ token claims, bearerToken r.authorization = some token
        ∧ verifyKinbridgeToken A.jose A.env r.now token = some claims ∧ claims.sid = r.id
        ∧ resolveSession A r = ⟨200, resolvedBody A.env claims⟩ := by
  unfold resolveSession
  split
  · exact .inl ⟨rfl, by decide⟩
  · rename_i token hbearer
    split
    · split
      · exact .inl ⟨rfl, by decide⟩
      · rename_i claims hverify
        split
        · exact .inl ⟨rfl, by decide⟩
        · rename_i hsid
          exact .inr ⟨token, claims, hbearer, hverify, not_not.mp hsid, rfl⟩
    · exact .inl ⟨rfl, by decide⟩

/-! ## Over runs -/

/-- A request to one of the two routes. -/
inductive ApiRequest where
  | start (r : StartRequest)
  | resolve (r : ResolveRequest)

/-- The token was handed out by one of these requests. -/
def HandedOut (A : Service) (h : List ApiRequest) (token : String) : Prop :=
  ∃ r sid key expires, .start r ∈ h ∧ Started A r sid token key expires

/-- Nobody but the service signs with its secret: a token that somebody presents and that is
signed with it has been handed out before. -/
def OnlySigner (A : Service) (h : List ApiRequest) : Prop :=
  ∀ h₁ r h₂, h = h₁ ++ .resolve r :: h₂ → ∀ token p, bearerToken r.authorization = some token →
    A.jose.sign A.env.kinbridgeJwtSecret p = token → HandedOut A h₁ token

structure SessionBound (A : Service) (h : List ApiRequest) : Prop where
  /-- A key is the key of an earlier start call for the same session, whose token was presented
  in time. -/
  honest : ∀ h₁ r h₂, h = h₁ ++ .resolve r :: h₂ → (resolveSession A r).code = 200 →
    ∃ s token key expires, .start s ∈ h₁ ∧ Started A s r.id token key expires
      ∧ bearerToken r.authorization = some token ∧ r.now < expires
      ∧ (resolveSession A r).body.hsKey = some key
  noBearer : ∀ r, .resolve r ∈ h → bearerToken r.authorization = none →
    (resolveSession A r).body.hsKey = none
  forged : ∀ h₁ r h₂, h = h₁ ++ .resolve r :: h₂ → ∀ token,
    bearerToken r.authorization = some token → ¬ HandedOut A h₁ token →
    (resolveSession A r).body.hsKey = none
  /-- Whoever started it, and whenever: a token of another session, or an expired one. -/
  foreign : ∀ r, .resolve r ∈ h → ∀ s sid token key expires, Started A s sid token key expires →
    bearerToken r.authorization = some token → sid ≠ r.id ∨ expires ≤ r.now →
    (resolveSession A r).body.hsKey = none
  /-- A token presented as it was handed out, in time and for its session, gets the key. -/
  complete : ∀ s sid token key expires, .start s ∈ h → Started A s sid token key expires →
    ∀ r : ResolveRequest, r.authorization = some ("Bearer " ++ token) → r.id = sid →
    r.now < expires →
    (resolveSession A r).code = 200 ∧ (resolveSession A r).body.hsKey = some key

/-- **A session token opens its own session and no other.** -/
theorem session_bound (hJ : A.jose.Documented) {h : List ApiRequest} (hs : OnlySigner A h) :
    SessionBound A h := by
  constructor
  case honest =>
    intro h₁ r h₂ hsplit hcode
    rcases resolveSession_cases A r with ⟨_, hno⟩ | ⟨token, claims, hbearer, hverify, hsid, hreply⟩
    · exact absurd hcode hno
    · obtain ⟨p, hsigned⟩ := verify_signed hJ hverify
      obtain ⟨s, sid, key, expires, hs₁, hstarted⟩ := hs h₁ r h₂ hsplit token p hbearer hsigned
      obtain ⟨_, claims', hsid', hkey', rfl, hexpires⟩ := started_token hstarted
      obtain ⟨rfl, hfresh⟩ := verify_minted_eq hJ hverify
      obtain rfl : sid = r.id := hsid'.symm.trans hsid
      refine ⟨s, _, key, expires, hs₁, hstarted, hbearer, hexpires ▸ hfresh, ?_⟩
      rw [hreply, ← hkey']
      rfl
  case noBearer =>
    intro r _ hbearer
    rcases resolveSession_cases A r with ⟨hnone, _⟩ | ⟨token, _, hsome, _⟩
    · exact hnone
    · rw [hbearer] at hsome
      cases hsome
  case forged =>
    intro h₁ r h₂ hsplit token hbearer hforged
    rcases resolveSession_cases A r with ⟨hnone, _⟩ | ⟨token', _, hbearer', hverify, _⟩
    · exact hnone
    · obtain rfl := Option.some.inj (hbearer.symm.trans hbearer')
      obtain ⟨p, hsigned⟩ := verify_signed hJ hverify
      exact absurd (hs h₁ r h₂ hsplit token p hbearer hsigned) hforged
  case foreign =>
    intro r _ s sid token key expires hstarted hbearer hwrong
    rcases resolveSession_cases A r with ⟨hnone, _⟩ | ⟨token', claims, hbearer', hverify, hsid, _⟩
    · exact hnone
    · obtain rfl := Option.some.inj (hbearer.symm.trans hbearer')
      obtain ⟨_, claims', hsid', _, rfl, hexpires⟩ := started_token hstarted
      obtain ⟨rfl, hfresh⟩ := verify_minted_eq hJ hverify
      rcases hwrong with hother | hlate
      · exact absurd (hsid'.symm.trans hsid) hother
      · omega
  case complete =>
    intro s sid token key expires _ hstarted r hauth hid hfresh
    obtain ⟨huuid, claims, hsid, hkey, rfl, rfl⟩ := started_token hstarted
    have hbearer : bearerToken r.authorization
        = some (mintKinbridgeToken A.jose A.env s.now claims) := by
      rw [hauth]
      exact bearerToken_signed hJ
    have hreply : resolveSession A r = ⟨200, resolvedBody A.env claims⟩ := by
      unfold resolveSession
      rw [hbearer]
      dsimp only
      rw [if_pos (hid ▸ huuid), verify_minted hJ hfresh]
      exact if_neg (not_not.mpr (hsid.trans hid.symm))
    rw [hreply, ← hkey]
    exact ⟨rfl, rfl⟩

/-! ## One session -/

theorem started_of {r : StartRequest} {data : StartSessionBody} {key : String}
    (hguard : requireServiceToken A.env r.serviceToken = none)
    (hdata : parseStartSessionBody A.uuid r.body = some data)
    (hkey : r.headscale data.deviceId = some key) :
    Started A r data.dashboardSessionId
      (mintKinbridgeToken A.jose A.env r.now (data.claims key)) key
      (r.now + A.env.kinbridgeJwtTtlSeconds) := by
  refine ⟨data, _, hdata, rfl, hkey, ?_, queryParam_connectUrl _, rfl⟩
  unfold startSession
  rw [hguard, hdata]
  dsimp only
  rw [hkey]

/-! A signature scheme to try the service with: a token is the number of its secret and its
payload, in unary. -/

def jsonToSum : Json → String ⊕ ℕ ⊕ Unit
  | .str s => .inl s
  | .num n => .inr (.inl n)
  | .other => .inr (.inr ())

def jsonOfSum : String ⊕ ℕ ⊕ Unit → Json
  | .inl s => .str s
  | .inr (.inl n) => .num n
  | .inr (.inr ()) => .other

instance encodableChar : Encodable Char :=
  Encodable.ofLeftInverse Char.toNat Char.ofNat Char.ofNat_toNat

instance encodableString : Encodable String :=
  Encodable.ofLeftInverse String.toList String.ofList fun _ => String.ofList_toList

instance encodableJson : Encodable Json :=
  Encodable.ofLeftInverse jsonToSum jsonOfSum fun v => by cases v <;> rfl

instance encodableJsonObject : Encodable JsonObject :=
  Encodable.ofLeftInjection AList.entries
    (fun l => if h : l.keys.Nodup then some ⟨l, h⟩ else none) fun o => dif_pos o.nodupKeys

def unaryToken (secret : String) (p : JsonObject) : String :=
  String.ofList (List.replicate (Encodable.encode (secret, p) + 1) 'A')

/-- What the number of a token stands for. -/
def readToken (token : String) : Option (String × JsonObject) :=
  Encodable.decode (token.length - 1)

theorem readToken_unaryToken (secret : String) (p : JsonObject) :
    readToken (unaryToken secret p) = some (secret, p) := by
  unfold readToken unaryToken
  rw [String.length_ofList, List.length_replicate, Nat.add_sub_cancel, Encodable.encodek]

/-- The payload is what is asked for, and has not expired. -/
def passes (options : VerifyOptions) (now : Nat) (p : JsonObject) : Bool :=
  p.lookup "iss" = some (.str options.issuer) && p.lookup "aud" = some (.str options.audience)
    && match p.lookup "exp" with
      | some (.num exp) => now < exp
      | _ => true

def unaryJose : Jose where
  sign := unaryToken
  jwtVerify token secret options now :=
    (readToken token).bind fun r =>
      if unaryToken secret r.2 = token ∧ passes options now r.2 = true then some r.2 else none

theorem unaryJose_verify (secret : String) (q : JsonObject) (options : VerifyOptions) (now : Nat) :
    unaryJose.jwtVerify (unaryToken secret q) secret options now
      = if passes options now q = true then some q else none := by
  dsimp only [unaryJose]
  rw [readToken_unaryToken, Option.bind_some]
  simp only [true_and]

theorem unaryToken_compact (secret : String) (p : JsonObject) : unaryToken secret p ≠ ""
    ∧ ∀ c ∈ (unaryToken secret p).toList, c = 'A' := by
  unfold unaryToken
  generalize Encodable.encode (secret, p) = n
  refine ⟨fun heq => ?_, fun c hc => ?_⟩
  · have hlen := congrArg String.length heq
    rw [String.length_ofList, List.length_replicate] at hlen
    cases hlen
  · rw [String.toList_ofList] at hc
    exact List.eq_of_mem_replicate hc

theorem unaryJose_documented : unaryJose.Documented := by
  constructor
  case compact =>
    intro secret p
    obtain ⟨hne, hchars⟩ := unaryToken_compact secret p
    exact ⟨hne, fun c hc => .inl (hchars c hc ▸ by decide)⟩
  case signed =>
    intro token secret options now p h
    obtain ⟨r, _, h⟩ := Option.bind_eq_some_iff.mp h
    split at h
    · rename_i hc
      exact ⟨r.2, hc.1⟩
    · cases h
  case payload =>
    intro secret options now p q h
    rw [show unaryJose.sign = unaryToken from rfl, unaryJose_verify] at h
    split at h
    · rename_i hpass
      refine ⟨(Option.some.inj h).symm, fun exp hexp => ?_⟩
      rw [passes, hexp] at hpass
      simpa using (Bool.and_eq_true_iff.mp hpass).2
    · cases h
  case accepts =>
    intro secret options now q iat exp hiss haud _ _ hexp hnow
    rw [show unaryJose.sign = unaryToken from rfl, unaryJose_verify]
    refine if_pos ?_
    simp [passes, hiss, haud, hexp, hnow]

def sampleEnv : Env where
  kinbridgeServiceToken := "service"
  kinbridgeJwtSecret := "secret"
  kinbridgeJwtIssuer := "https://api.kinbridge.support"
  kinbridgeJwtAudience := "kinbridge-client"
  kinbridgeJwtTtlSeconds := 120
  kinbridgeRelayHost := "192.168.68.54"
  kinbridgeRelayPort := 21117
  kinbridgeRelayPubkey := "WqooDze2t33XwECZ7swZG+2xAk7JL0b9rGqj3I4vzcw="
  kinbridgeStunUrls := "stun:stun.l.google.com:19302"

def sampleService : Service := ⟨sampleEnv, unaryJose, fun s => s.length = 36⟩

/-- The dashboard starts a session. -/
def sampleStart : StartRequest where
  now := 1000
  serviceToken := .one "service"
  body := some (((((∅ : JsonObject).insert "dashboard_session_id"
    (.str "6f1d0c52-8c1e-4f0a-9a53-0d8f6f3a7b11")).insert "device_id"
    (.str "0b7c2a94-1e5d-4c38-8f62-7a9e4d1c5b22")).insert "helper_id"
    (.str "a3e8f701-5b2c-4d96-b1a4-2c6d8e0f9c33")).insert "owner_id"
    (.str "d94b6e15-7f3a-4e81-a0c7-9b5f1d2e8a44"))
  headscale := fun _ => some "hskey-auth-1"

def sampleBody : StartSessionBody :=
  ⟨"6f1d0c52-8c1e-4f0a-9a53-0d8f6f3a7b11", "0b7c2a94-1e5d-4c38-8f62-7a9e4d1c5b22",
    "a3e8f701-5b2c-4d96-b1a4-2c6d8e0f9c33", "d94b6e15-7f3a-4e81-a0c7-9b5f1d2e8a44"⟩

def sampleToken : String :=
  mintKinbridgeToken unaryJose sampleEnv 1000 (sampleBody.claims "hskey-auth-1")

theorem sampleStart_started : Started sampleService sampleStart
    "6f1d0c52-8c1e-4f0a-9a53-0d8f6f3a7b11" sampleToken "hskey-auth-1" 1120 :=
  @started_of sampleService sampleStart sampleBody _ (by decide +kernel) (by decide +kernel) rfl

/-- The client resolves it a minute later. -/
def sampleResolve : ResolveRequest :=
  ⟨1060, some ("Bearer " ++ sampleToken), "6f1d0c52-8c1e-4f0a-9a53-0d8f6f3a7b11"⟩

theorem session_bound_one :
    SessionBound sampleService [.start sampleStart, .resolve sampleResolve]
      ∧ (resolveSession sampleService sampleResolve).body.hsKey = some "hskey-auth-1" := by
  have honly : OnlySigner sampleService [.start sampleStart, .resolve sampleResolve] := by
    intro h₁ r h₂ hsplit token p hbearer _
    rcases h₁ with _ | ⟨e, _ | ⟨e', g⟩⟩
    · cases hsplit
    · obtain ⟨rfl, hrest⟩ := List.cons_eq_cons.mp hsplit
      obtain ⟨hres, _⟩ := List.cons_eq_cons.mp hrest
      obtain rfl := ApiRequest.resolve.inj hres
      have hpresented : bearerToken sampleResolve.authorization = some sampleToken :=
        @bearerToken_signed sampleService unaryJose_documented _ _
      obtain rfl := Option.some.inj (hpresented.symm.trans hbearer)
      exact ⟨sampleStart, _, _, _, List.mem_cons_self, sampleStart_started⟩
    · simp at hsplit
  have hbound := @session_bound sampleService unaryJose_documented _ honly
  exact ⟨hbound, (hbound.complete sampleStart _ _ _ _ List.mem_cons_self sampleStart_started
    sampleResolve rfl rfl (by decide)).2⟩

end KinBridge.Proof
