import KinBridge.Api.Server
import KinBridge.Proof.Events
import KinBridge.Proof.Sessions

/-!
# Who gets what from the service

Two things of value leave the service: keys of Headscale, and events. Each goes to who presents a
session token in time, and a session token comes of a start call that had the service token and
that Headscale gave a key for. This holds however requests fall between one another, and while
start calls and sockets wait.

It does not follow that the key still works. It is good for ten minutes from the moment that
Headscale was asked, and the token for as long as the environment says, from the moment that the
answer came.
-/

namespace KinBridge.Proof

open KinBridge KinBridge.Api Runs Slots

variable {A : ApiService} {st st' : ServiceState} {e : ApiEvent} {out : ApiOut}

abbrev ApiOcc := Occ ServiceState ApiEvent ApiOut

/-- A start call with the service token, for which Headscale is asked. -/
def Asked (A : ApiService) (data : StartSessionBody) (i asked : Nat) (o : ApiOcc) : Prop :=
  ∃ serviceToken body, o.ev = .start i asked serviceToken body
    ∧ requireServiceToken A.env serviceToken = none
    ∧ parseStartSessionBody A.uuid body = some data
    ∧ o.out = .fetch (mintCall A.headscale asked data.deviceId none)

/-- Headscale gives the key, and the call is answered with a token. -/
def Issued (A : ApiService) (data : StartSessionBody) (key : String) (i issued : Nat)
    (o : ApiOcc) : Prop :=
  ∃ reply, o.ev = .minted i issued reply ∧ mintedKey reply = some key
    ∧ o.out = .answer ⟨200, .started data.dashboardSessionId
        (connectUrl (sessionToken A.toService issued data key))⟩

/-- Headscale's answer to a call is there. -/
def Settles (i : Nat) (o : ApiOcc) : Prop := ∃ now reply, o.ev = .minted i now reply

/-- The call waits for Headscale. -/
def Waits (A : ApiService) (h : List ApiOcc) (data : StartSessionBody) (i asked : Nat) : Prop :=
  Since (Asked A data i asked) (Settles i) h

/-- A start call has come to its end. -/
def Opened (A : ApiService) (h : List ApiOcc) (data : StartSessionBody) (key : String)
    (asked issued : Nat) : Prop :=
  ∃ i h₁ o h₂, h = h₁ ++ o :: h₂ ∧ Waits A h₁ data i asked ∧ Issued A data key i issued o

/-- The answer has this token in its URL. -/
def TokenOut (o : ApiOcc) (token : String) : Prop :=
  ∃ sid url, o.out = .answer ⟨200, .started sid url⟩ ∧ queryParam "token" url = some token

def presented : ApiEvent → Option String
  | .resolve _ authorization _ => bearerToken authorization
  | .ws (.connect _ authorization) => bearerToken authorization
  | _ => none

/-- The secret stays with the service: whoever presents a token that is signed with it has it
from an answer. -/
def SecretKept (A : ApiService) (h : List ApiOcc) : Prop :=
  ∀ h₁ o h₂, h = h₁ ++ o :: h₂ → ∀ token p, presented o.ev = some token →
    A.jose.sign A.env.kinbridgeJwtSecret p = token → ∃ o' ∈ h₁, TokenOut o' token

/-- A start call before this was answered with the token, which had not expired. -/
def Entitled (A : ApiService) (h : List ApiOcc) (token : String) (claims : KinbridgeTokenClaims)
    (now : Nat) : Prop :=
  ∃ data key asked issued, Opened A h data key asked issued
    ∧ token = sessionToken A.toService issued data key ∧ claims = data.claims key
    ∧ now < issued / 1000 + A.env.kinbridgeJwtTtlSeconds

/-- The socket presented the token when it connected. -/
def Knocked (h : List ApiOcc) (k : Nat) (token : String) : Prop :=
  ∃ h₁ o h₂ authorization, h = h₁ ++ o :: h₂ ∧ o.ev = .ws (.connect k authorization)
    ∧ bearerToken authorization = some token

/-- The socket was let in: the token that it presented verified, and was that of such a call. -/
def LetIn (A : ApiService) (h : List ApiOcc) (k : Nat) : Prop :=
  ∃ h₁ o h₂ now token claims, h = h₁ ++ o :: h₂ ∧ o.ev = .ws (.settle k now)
    ∧ Knocked h₁ k token ∧ verifyKinbridgeToken A.jose A.env now token = some claims
    ∧ Entitled A h₁ token claims now

structure Accounted (A : ApiService) (h : List ApiOcc) : Prop where
  /-- Headscale is asked for who has the service token. -/
  asks : ∀ o ∈ h, ∀ call, o.out = .fetch call → ∃ data i asked, Asked A data i asked o
  tokens : ∀ h₁ o h₂, h = h₁ ++ o :: h₂ → ∀ token, TokenOut o token →
    ∃ data key asked issued, Opened A (h₁ ++ [o]) data key asked issued
      ∧ token = sessionToken A.toService issued data key
  /-- A key goes to who resolves the session it was minted for. -/
  keys : ∀ h₁ o h₂, h = h₁ ++ o :: h₂ → ∀ reply key, o.out = .answer reply →
    reply.body.hsKey = some key → ∃ now authorization token claims, claims.hsKey = key
      ∧ o.ev = .resolve now authorization claims.sid ∧ bearerToken authorization = some token
      ∧ Entitled A h₁ token claims (now / 1000)
  events : ∀ h₁ o h₂, h = h₁ ++ o :: h₂ → ∀ effects fn ev throws, o.out = .ws effects →
    .called fn ev throws ∈ effects → LetIn A h₁ fn.socket

/-- Headscale answers within so many milliseconds. -/
def Prompt (A : ApiService) (d : Nat) (h : List ApiOcc) : Prop :=
  ∀ h₁ o h₂, h = h₁ ++ o :: h₂ → ∀ i issued reply data asked, o.ev = .minted i issued reply →
    Waits A h₁ data i asked → issued ≤ asked + d

/-! ## Histories that grow -/

variable {h h' : List ApiOcc} {o : ApiOcc}

theorem Opened.mono {data : StartSessionBody} {key : String} {asked issued : Nat}
    (ho : Opened A h data key asked issued) : Opened A (h ++ h') data key asked issued := by
  obtain ⟨i, h₁, o, h₂, rfl, hwaits, hissued⟩ := ho
  exact ⟨i, h₁, o, h₂ ++ h', by simp, hwaits, hissued⟩

theorem Entitled.mono {token : String} {claims : KinbridgeTokenClaims} {now : Nat}
    (he : Entitled A h token claims now) : Entitled A (h ++ h') token claims now := by
  obtain ⟨data, key, asked, issued, hopened, hrest⟩ := he
  exact ⟨data, key, asked, issued, hopened.mono, hrest⟩

theorem Knocked.mono {k : Nat} {token : String} (hk : Knocked h k token) :
    Knocked (h ++ h') k token := by
  obtain ⟨h₁, o, h₂, authorization, rfl, hrest⟩ := hk
  exact ⟨h₁, o, h₂ ++ h', authorization, by simp, hrest⟩

theorem LetIn.mono {k : Nat} (hl : LetIn A h k) : LetIn A (h ++ h') k := by
  obtain ⟨h₁, o, h₂, now, token, claims, rfl, hrest⟩ := hl
  exact ⟨h₁, o, h₂ ++ h', now, token, claims, by simp, hrest⟩

theorem SecretKept.before (hs : SecretKept A (h ++ h')) : SecretKept A h := by
  intro h₁ o h₂ hsplit
  exact hs h₁ o (h₂ ++ h') (by rw [hsplit]; simp)

theorem SecretKept.nil : SecretKept A [] := by
  intro h₁ o h₂ hsplit
  simp at hsplit

/-- A step that presents no token, or one that was handed out. -/
theorem SecretKept.snoc (hs : SecretKept A h)
    (ho : ∀ token, presented o.ev = some token → ∃ o' ∈ h, TokenOut o' token) :
    SecretKept A (h ++ [o]) := by
  intro h₁ x h₂ hsplit token p hpresented hsigned
  rcases List.eq_nil_or_concat h₂ with rfl | ⟨g, y, rfl⟩
  · obtain ⟨rfl, hx⟩ := List.append_inj' hsplit rfl
    obtain rfl := List.singleton_inj.mp hx
    exact ho token hpresented
  · rw [List.concat_eq_append, ← List.cons_append, ← List.append_assoc] at hsplit
    obtain ⟨rfl, _⟩ := List.append_inj' hsplit rfl
    exact hs h₁ x g rfl token p hpresented hsigned

/-! ## Start calls -/

/-- Whoever waits has asked. -/
def WaitsAsked (A : ApiService) (h : List ApiOcc) (st : ServiceState) : Prop :=
  ∀ i data, st.waiting i = some data → ∃ asked, Waits A h data i asked

theorem waitsAsked_step (hw : WaitsAsked A h st) (hst : api A st e = some (st', out)) :
    WaitsAsked A (h ++ [⟨st, e, out, st'⟩]) st' := by
  have hold : ∀ i data, st.waiting i = some data → (∀ now reply, e ≠ .minted i now reply) →
      ∃ asked, Waits A (h ++ [⟨st, e, out, st'⟩]) data i asked := by
    intro i data hi hne
    obtain ⟨asked, hwaits⟩ := hw i data hi
    refine ⟨asked, since_snoc.mpr (.inr ⟨hwaits, ?_⟩)⟩
    rintro ⟨now, reply, hev⟩
    exact hne now reply hev
  intro j data hj
  cases api_step hst with
  | @asked i now serviceToken body data' hguard hdata =>
      rcases put_eq_some.mp hj with ⟨rfl, rfl⟩ | ⟨_, hj⟩
      · exact ⟨now, since_snoc.mpr (.inl ⟨serviceToken, body, rfl, hguard, hdata, rfl⟩)⟩
      · exact hold j data hj (by simp)
  | @minted i now reply data' hi =>
      obtain ⟨hne, hj⟩ := free_eq_some.mp hj
      refine hold j data hj ?_
      intro now' reply' heq
      exact hne (ApiEvent.minted.inj heq).1.symm
  | _ => exact hold j data hj (by simp)

theorem waitsAsked_run (hr : Run (api A) .start h st) : WaitsAsked A h st :=
  hr.inv (fun _ _ hi => by cases hi) fun _ _ _ _ _ hw hst => waitsAsked_step hw hst

/-! ## Tokens -/

/-- A token that goes out is the token of a start call that has come to its end. -/
theorem tokenOut_opened (hw : WaitsAsked A h st) (hst : api A st e = some (st', out))
    {token : String} (htoken : TokenOut ⟨st, e, out, st'⟩ token) :
    ∃ data key asked issued, Opened A (h ++ [⟨st, e, out, st'⟩]) data key asked issued
      ∧ token = sessionToken A.toService issued data key := by
  obtain ⟨sid, url, hout, hurl⟩ := htoken
  dsimp only at hout
  subst hout
  generalize hreply : (⟨200, .started sid url⟩ : Reply) = reply at hst
  cases api_step hst with
  | refused => cases hreply
  | @minted i now reply data hi =>
      obtain ⟨asked, hwaits⟩ := hw i data hi
      cases hkey : mintedKey reply with
      | none => rw [hkey] at hreply; cases hreply
      | some key =>
          rw [hkey] at hreply
          obtain ⟨rfl, rfl⟩ := Body.started.inj (Reply.mk.inj hreply).2
          rw [queryParam_connectUrl] at hurl
          exact ⟨data, key, asked, now, ⟨i, h, _, [], rfl, hwaits, reply, rfl, hkey, rfl⟩,
            (Option.some.inj hurl).symm⟩
  | @resolve now authorization id =>
      rcases resolveSession_cases A.toService ⟨now / 1000, authorization, id⟩ with
        ⟨_, hcode⟩ | ⟨_, _, _, _, _, hresolved⟩
      · exact absurd (congrArg Reply.code hreply).symm hcode
      · rw [hresolved] at hreply
        cases hreply

/-- Whoever presents a token that verifies is entitled to what it claims. -/
theorem presented_entitled (hJ : A.jose.Documented) (hr : Run (api A) .start h st)
    (hs : SecretKept A h) {h₁ h₂ : List ApiOcc} {o : ApiOcc} (hsplit : h = h₁ ++ o :: h₂)
    {token : String} (htoken : presented o.ev = some token) {now : Nat}
    {claims : KinbridgeTokenClaims}
    (hverify : verifyKinbridgeToken A.jose A.env now token = some claims) :
    Entitled A h₁ token claims now := by
  obtain ⟨p, hsigned⟩ := verify_signed hJ hverify
  obtain ⟨o', ho', hout⟩ := hs h₁ o h₂ hsplit token p htoken hsigned
  subst hsplit
  obtain ⟨g₁, g₂, rfl, hpre, hst, _⟩ := hr.at.1.mem ho'
  obtain ⟨data, key, asked, issued, hopened, rfl⟩ :=
    tokenOut_opened (waitsAsked_run hpre) hst hout
  obtain ⟨rfl, hfresh⟩ := verify_minted_eq hJ hverify
  refine ⟨data, key, asked, issued, ?_, rfl, rfl, hfresh⟩
  rw [List.append_cons]
  exact hopened.mono

/-! ## Sockets -/

/-- The sockets whose tokens are being verified, and the subscribers. -/
structure Doors (A : ApiService) (h : List ApiOcc) (w : WsServer) : Prop where
  verifying : ∀ k c token, w.sockets k = some c → c.handler = .verifying token →
    Knocked h k token
  subscribed : ∀ fn ∈ w.hub.subscribers, LetIn A h fn.socket

variable {w w' : WsServer}

theorem Doors.mono (hd : Doors A h w) : Doors A (h ++ h') w where
  verifying k c token hk hc := (hd.verifying k c token hk hc).mono
  subscribed fn hfn := (hd.subscribed fn hfn).mono

/-- A `close` event opens no door. -/
theorem Doors.emitClose (hd : Doors A h w) (k : Nat) : Doors A h (w.emitClose k) where
  verifying := by
    intro j c token hj hc
    rcases @emitClose_cases w k with heq | ⟨c', hk, _, heq⟩
    · rw [heq] at hj
      exact hd.verifying j c token hj hc
    · rw [heq] at hj
      rcases put_eq_some.mp hj with ⟨rfl, rfl⟩ | ⟨_, hj⟩
      · exact hd.verifying j c' token hk hc
      · exact hd.verifying j c token hj hc
  subscribed := by
    intro fn hfn
    by_contra hno
    exact emitClose_subscribers (fun hmem => hno (hd.subscribed fn hmem)) hfn

theorem publish_called {ev ev' : KinbridgeEvent} {send : Subscriber → Sent} {fn : Subscriber}
    {throws : Bool} (hc : .called fn ev throws ∈ (w.publish ev' send).2) :
    fn ∈ w.hub.subscribers := by
  obtain ⟨f, hf, heq⟩ := List.mem_map.mp hc
  obtain ⟨rfl, _⟩ := WsEffect.called.inj heq
  exact Visit.visit_sublist.subset hf

/-- Events go to subscribers only. -/
theorem called_subscribed {e : WsEvent} {effects : List WsEffect} {fn : Subscriber}
    {ev : KinbridgeEvent} {throws : Bool} (hst : wsStep A.toService w e = some (w', effects))
    (hc : .called fn ev throws ∈ effects) : fn ∈ w.hub.subscribers := by
  cases e with
  | connect k authorization =>
      obtain ⟨_, _, _, _, hno⟩ := connect_step hst
      exact absurd hc (hno fn ev throws)
  | settle k now =>
      obtain ⟨c, token, _, _, heq⟩ := settle_step hst
      obtain ⟨_, rfl⟩ := Prod.mk.inj heq
      dsimp only [WsServer.settle] at hc
      split at hc
      · cases hc
      · cases List.mem_singleton.mp hc
  | close k =>
      obtain ⟨_, _, rfl⟩ := close_step hst
      cases hc
  | publish ev' send =>
      obtain ⟨_, rfl⟩ := Prod.mk.inj (publish_step hst)
      exact publish_called hc

theorem doors_connect (hd : Doors A h st.ws) {k : Nat} {authorization : Option String}
    {effects : List WsEffect}
    (hst : wsStep A.toService st.ws (.connect k authorization) = some (w', effects)) :
    Doors A (h ++ [⟨st, .ws (.connect k authorization), out, st'⟩]) w' := by
  dsimp only [wsStep, WsServer.connect] at hst
  split at hst
  · cases htoken : bearerToken authorization with
    | none =>
        rw [htoken] at hst
        obtain ⟨rfl, _⟩ := Prod.mk.inj (Option.some.inj hst)
        refine ⟨?_, hd.mono.subscribed⟩
        intro j c token hj hc
        rcases put_eq_some.mp hj with ⟨rfl, rfl⟩ | ⟨_, hj⟩
        · cases hc
        · exact hd.mono.verifying j c token hj hc
    | some token' =>
        rw [htoken] at hst
        obtain ⟨rfl, _⟩ := Prod.mk.inj (Option.some.inj hst)
        refine ⟨?_, hd.mono.subscribed⟩
        intro j c token hj hc
        rcases put_eq_some.mp hj with ⟨rfl, rfl⟩ | ⟨_, hj⟩
        · obtain rfl := WsHandler.verifying.inj hc
          exact ⟨h, _, [], authorization, rfl, rfl, htoken⟩
        · exact hd.mono.verifying j c token hj hc
  · cases hst

theorem mem_subscribe_cases {hub : EventHub} {fn other : Subscriber}
    (hmem : other ∈ (hub.subscribe fn).subscribers) : other ∈ hub.subscribers ∨ other = fn := by
  unfold EventHub.subscribe at hmem
  split at hmem
  · exact .inl hmem
  · exact (List.mem_append.mp hmem).imp_right List.mem_singleton.mp

theorem doors_settle (hJ : A.jose.Documented) (hr : Run (api A) .start h st)
    (hs : SecretKept A h) (hd : Doors A h st.ws) {k now : Nat} {effects : List WsEffect}
    (hst : wsStep A.toService st.ws (.settle k now) = some (w', effects)) :
    Doors A (h ++ [⟨st, .ws (.settle k now), out, st'⟩]) w' := by
  obtain ⟨c, token, hk, hc, heq⟩ := settle_step hst
  have hw := (Prod.mk.inj heq).1
  cases hverify : verifyKinbridgeToken A.jose A.env now token with
  | none =>
      rw [hverify] at hw
      subst hw
      refine ⟨?_, hd.mono.subscribed⟩
      intro j c' token' hj hc'
      rcases put_eq_some.mp hj with ⟨rfl, rfl⟩ | ⟨_, hj⟩
      · cases hc'
      · exact hd.mono.verifying j c' token' hj hc'
  | some claims =>
      rw [hverify] at hw
      subst hw
      constructor
      case verifying =>
        intro j c' token' hj hc'
        rcases put_eq_some.mp hj with ⟨rfl, rfl⟩ | ⟨_, hj⟩
        · cases hc'
        · exact hd.mono.verifying j c' token' hj hc'
      case subscribed =>
        intro fn hfn
        rcases mem_subscribe_cases hfn with hold | rfl
        · exact hd.mono.subscribed fn hold
        · -- the token that is verified is the one that the socket presented
          have hknocked : Knocked h k token := hd.verifying k c token hk hc
          have hentitled : Entitled A h token claims now := by
            obtain ⟨h₁, o, h₂, authorization, rfl, hev, hbearer⟩ := hknocked
            have hpresented : presented o.ev = some token := by rw [hev]; exact hbearer
            exact (presented_entitled hJ hr hs rfl hpresented hverify).mono
          exact ⟨h, _, [], now, token, claims, rfl, rfl, hknocked, hverify, hentitled⟩

theorem doors_step (hJ : A.jose.Documented) (hr : Run (api A) .start h st)
    (hs : SecretKept A h) (hd : Doors A h st.ws) (hst : api A st e = some (st', out)) :
    Doors A (h ++ [⟨st, e, out, st'⟩]) st'.ws := by
  cases api_step hst with
  | @ws e w effects hw =>
      cases e with
      | connect k authorization => exact doors_connect hd hw
      | settle k now => exact doors_settle hJ hr hs hd hw
      | close k =>
          obtain ⟨_, rfl, _⟩ := close_step hw
          exact (hd.emitClose k).mono
      | publish ev send =>
          obtain ⟨rfl, _⟩ := Prod.mk.inj (publish_step hw)
          have hd' : Doors A h (st.ws.publish ev send).1 :=
            publish_keeps (P := fun w => Doors A h w) (fun k _ hd => hd.emitClose k) ev hd
          exact hd'.mono
  | _ => exact hd.mono

theorem doors_run (hJ : A.jose.Documented) (hr : Run (api A) .start h st)
    (hs : SecretKept A h) : Doors A h st.ws := by
  induction hr with
  | nil => exact ⟨fun k c token hk => (by cases hk), fun fn hfn => (by cases hfn)⟩
  | snoc hrun hst ih => exact doors_step hJ hrun hs.before (ih hs.before) hst

/-! ## What goes out -/

theorem key_entitled (hJ : A.jose.Documented) {h₁ h₂ : List ApiOcc}
    (hr : Run (api A) .start (h₁ ++ o :: h₂) st) (hs : SecretKept A (h₁ ++ o :: h₂))
    {reply : Reply} {key : String} (hout : o.out = .answer reply)
    (hkey : reply.body.hsKey = some key) :
    ∃ now authorization token claims, claims.hsKey = key
      ∧ o.ev = .resolve now authorization claims.sid ∧ bearerToken authorization = some token
      ∧ Entitled A h₁ token claims (now / 1000) := by
  obtain ⟨hpre, hst, _⟩ := hr.at
  have hpresented := fun token => @presented_entitled A st _ hJ hr hs h₁ h₂ o rfl token
  obtain ⟨st₁, e, out, st₂⟩ := o
  dsimp only at hst hout hpresented ⊢
  subst hout
  cases api_step hst with
  | refused => cases hkey
  | minted =>
      unfold answerStart at hkey
      split at hkey <;> cases hkey
  | @resolve now authorization id =>
      rcases resolveSession_cases A.toService ⟨now / 1000, authorization, id⟩ with
        ⟨hnone, _⟩ | ⟨token, claims, hbearer, hverify, rfl, hreply⟩
      · rw [hnone] at hkey
        cases hkey
      · rw [hreply] at hkey
        exact ⟨now, authorization, token, claims, Option.some.inj hkey, rfl, hbearer,
          hpresented token hbearer hverify⟩

theorem fetch_asked {call : MintCall} (hst : api A o.pre o.ev = some (o.post, o.out))
    (hout : o.out = .fetch call) : ∃ data i asked, Asked A data i asked o := by
  obtain ⟨st₁, e, out, st₂⟩ := o
  dsimp only at hst hout ⊢
  subst hout
  cases api_step hst with
  | @asked i now serviceToken body data hguard hdata =>
      exact ⟨data, i, now, serviceToken, body, rfl, hguard, hdata, rfl⟩

/--
**What the service gives away is accounted for**: in every run, Headscale is asked for nobody
without the service token, and every token, key and event goes back to a start call that had
it, the keys and events in time.
-/
theorem all_accounted (hJ : A.jose.Documented) (hr : Run (api A) .start h st)
    (hs : SecretKept A h) : Accounted A h := by
  constructor
  case asks =>
    intro o ho call hout
    obtain ⟨_, _, _, _, hst, _⟩ := hr.mem ho
    exact fetch_asked hst hout
  case tokens =>
    rintro h₁ o h₂ rfl token htoken
    obtain ⟨hpre, hst, _⟩ := hr.at
    exact tokenOut_opened (waitsAsked_run hpre) hst htoken
  case keys =>
    rintro h₁ o h₂ rfl reply key hout hkey
    exact key_entitled hJ hr hs hout hkey
  case events =>
    rintro h₁ o h₂ rfl effects fn ev throws hout hcalled
    obtain ⟨hpre, hst, _⟩ := hr.at
    have hdoors := doors_run hJ hpre hs.before
    obtain ⟨st₁, e, out, st₂⟩ := o
    dsimp only at hst hout hdoors
    subst hout
    cases api_step hst with
    | ws hw => exact hdoors.subscribed fn (called_subscribed hw hcalled)

/-! ## A session -/

/-- A token that was issued opens its session before it expires. -/
theorem resolve_issued (hJ : A.jose.Documented)
    {body : Option JsonObject} {data : StartSessionBody} {key : String} {issued now : Nat}
    (hdata : parseStartSessionBody A.uuid body = some data)
    (hnow : now / 1000 < issued / 1000 + A.env.kinbridgeJwtTtlSeconds) :
    resolveSession A.toService ⟨now / 1000,
      some ("Bearer " ++ sessionToken A.toService issued data key), data.dashboardSessionId⟩
      = ⟨200, resolvedBody A.env (data.claims key)⟩ := by
  have hbearer : bearerToken (some ("Bearer " ++ sessionToken A.toService issued data key))
      = some (sessionToken A.toService issued data key) := @bearerToken_signed A.toService hJ _ _
  unfold resolveSession
  dsimp only
  rw [hbearer]
  dsimp only
  rw [if_pos (parseStartSessionBody_uuid hdata), sessionToken, verify_minted hJ hnow]
  exact if_neg (not_not.mpr rfl)

section

variable (A) (serviceToken : Header) (body : Option JsonObject) (data : StartSessionBody)
  (key : String) (asked issued now : Nat)

/-- One call waits. -/
def oneWaits : ServiceState := ⟨put ServiceState.start.waiting 0 data, .start⟩

def nobodyWaits : ServiceState := ⟨free (oneWaits data).waiting 0, .start⟩

def asking : ApiOcc :=
  ⟨.start, .start 0 asked serviceToken body,
    .fetch (mintCall A.headscale asked data.deviceId none), oneWaits data⟩

def issuing : ApiOcc :=
  ⟨oneWaits data, .minted 0 issued (.response 200 (some key)),
    .answer (answerStart A.toService issued data (some key)), nobodyWaits data⟩

def resolving : ApiOcc :=
  let authorization := some ("Bearer " ++ sessionToken A.toService issued data key)
  ⟨nobodyWaits data, .resolve now authorization data.dashboardSessionId,
    .answer (resolveSession A.toService ⟨now / 1000, authorization, data.dashboardSessionId⟩),
    nobodyWaits data⟩

end

/-- Somebody starts a session, Headscale answers, and somebody resolves it. -/
def sessionRun (A : ApiService) (serviceToken : Header) (body : Option JsonObject)
    (data : StartSessionBody) (key : String) (asked issued now : Nat) : List ApiOcc :=
  [asking A serviceToken body data asked, issuing A data key issued,
    resolving A data key issued now]

section

variable {serviceToken : Header} {body : Option JsonObject} {data : StartSessionBody}
  {key : String} {asked issued now : Nat}

theorem sessionRun_run (hguard : requireServiceToken A.env serviceToken = none)
    (hdata : parseStartSessionBody A.uuid body = some data) :
    Run (api A) .start (sessionRun A serviceToken body data key asked issued now)
      (nobodyWaits data) := by
  have hask : api A .start (.start 0 asked serviceToken body)
      = some (oneWaits data, .fetch (mintCall A.headscale asked data.deviceId none)) := by
    dsimp only [api, ServiceState.start, askHeadscale]
    rw [hguard, hdata]
    rfl
  have hissue : api A (oneWaits data) (.minted 0 issued (.response 200 (some key)))
      = some (nobodyWaits data, .answer (answerStart A.toService issued data (some key))) := rfl
  exact ((Run.nil.snoc hask).snoc hissue).snoc rfl

theorem bearerToken_session (hJ : A.jose.Documented) :
    bearerToken (some ("Bearer " ++ sessionToken A.toService issued data key))
      = some (sessionToken A.toService issued data key) :=
  @bearerToken_signed A.toService hJ _ _

theorem issuing_tokenOut : TokenOut (issuing A data key issued)
    (sessionToken A.toService issued data key) :=
  ⟨_, _, rfl, queryParam_connectUrl _⟩

theorem sessionRun_secret (hJ : A.jose.Documented) :
    SecretKept A (sessionRun A serviceToken body data key asked issued now) := by
  have hask : SecretKept A ([] ++ [asking A serviceToken body data asked]) :=
    SecretKept.nil.snoc fun _ ht => by cases ht
  have hissue : SecretKept A
      ([asking A serviceToken body data asked] ++ [issuing A data key issued]) :=
    hask.snoc fun _ ht => by cases ht
  refine hissue.snoc fun token ht => ?_
  -- the third step presents what the second handed out
  obtain rfl := Option.some.inj ((bearerToken_session hJ).symm.trans ht)
  exact ⟨_, List.mem_append_right _ (List.mem_singleton_self _), issuing_tokenOut⟩

/-- When the key goes out, one session is open. -/
theorem sessionRun_opened {data' : StartSessionBody} {key' : String} {asked' issued' : Nat}
    (ho : Opened A [asking A serviceToken body data asked, issuing A data key issued]
      data' key' asked' issued') : asked' = asked := by
  obtain ⟨i, h₁, o, h₂, hsplit, ⟨g₁, o', g₂, rfl, hasked, _⟩, reply, hev, _⟩ := ho
  obtain ⟨serviceToken', body', hev', _⟩ := hasked
  rcases g₁ with _ | ⟨o₁, g⟩ <;>
    simp only [List.cons_append, List.nil_append, List.cons.injEq] at hsplit
  · obtain ⟨rfl, _⟩ := hsplit
    exact (ApiEvent.start.inj hev').2.1.symm
  · -- a second start call would be the issuing step
    obtain ⟨_, hsplit⟩ := hsplit
    have hlen := congrArg List.length hsplit
    simp at hlen
    omega

/-- Headscale takes `issued - asked` milliseconds. -/
theorem sessionRun_prompt {d : Nat} (hd : issued ≤ asked + d) :
    Prompt A d (sessionRun A serviceToken body data key asked issued now) := by
  intro h₁ o h₂ hsplit i issued' reply data' asked' hev hwaits
  obtain ⟨g₁, o', g₂, rfl, ⟨_, _, hev', _⟩, _⟩ := hwaits
  rcases g₁ with _ | ⟨o₁, _ | ⟨o₂, g⟩⟩ <;>
    simp only [sessionRun, List.cons_append, List.nil_append, List.cons.injEq] at hsplit
  · obtain ⟨rfl, hsplit⟩ := hsplit
    obtain rfl := (ApiEvent.start.inj hev').2.1
    rcases g₂ with _ | ⟨o₂, _ | ⟨o₃, g⟩⟩ <;>
      simp only [List.cons_append, List.nil_append, List.cons.injEq] at hsplit
    · obtain ⟨rfl, _⟩ := hsplit
      obtain ⟨_, rfl, _⟩ := ApiEvent.minted.inj hev
      exact hd
    · obtain ⟨_, rfl, _⟩ := hsplit
      cases hev
    · simp at hsplit
  · obtain ⟨_, rfl, _⟩ := hsplit
    cases hev'
  · have hlen := congrArg List.length hsplit.2.2
    simp at hlen
    omega

end

/-! ## A socket -/

section

variable (A) (data : StartSessionBody) (key : String) (issued now : Nat) (ev : KinbridgeEvent)

/-- A socket has presented the token of the session. -/
def knocked : ServiceState :=
  let c : WsSocket := ⟨.verifying (sessionToken A.toService issued data key), false, []⟩
  { nobodyWaits data with ws := { WsServer.start with sockets := put WsServer.start.sockets 0 c } }

def listening : ServiceState :=
  let c : WsSocket := ⟨.connected (data.claims key), false, [⟨0, 0⟩]⟩
  { nobodyWaits data with ws := ⟨put (knocked A data key issued).ws.sockets 0 c, ⟨[⟨0, 0⟩]⟩, 1⟩ }

def connecting : ApiOcc :=
  ⟨nobodyWaits data,
    .ws (.connect 0 (some ("Bearer " ++ sessionToken A.toService issued data key))), .ws [],
    knocked A data key issued⟩

def settling : ApiOcc :=
  ⟨knocked A data key issued, .ws (.settle 0 now), .ws [], listening A data key issued⟩

def hearing : ApiOcc :=
  ⟨listening A data key issued, .ws (.publish ev fun _ => ⟨false, []⟩),
    .ws [.called ⟨0, 0⟩ ev false], listening A data key issued⟩

end

section

variable {serviceToken : Header} {body : Option JsonObject} {data : StartSessionBody}
  {key : String} {asked issued now : Nat} {ev : KinbridgeEvent}

/-- After the session was resolved, somebody opens a socket with its token and is told of `ev`. -/
def socketRun (A : ApiService) (serviceToken : Header) (body : Option JsonObject)
    (data : StartSessionBody) (key : String) (asked issued now : Nat) (ev : KinbridgeEvent) :
    List ApiOcc :=
  sessionRun A serviceToken body data key asked issued now ++ [connecting A data key issued]
    ++ [settling A data key issued (now / 1000)] ++ [hearing A data key issued ev]

theorem socketRun_run (hJ : A.jose.Documented)
    (hguard : requireServiceToken A.env serviceToken = none)
    (hdata : parseStartSessionBody A.uuid body = some data)
    (hnow : now / 1000 < issued / 1000 + A.env.kinbridgeJwtTtlSeconds) :
    Run (api A) .start (socketRun A serviceToken body data key asked issued now ev)
      (listening A data key issued) := by
  have hconnect : api A (nobodyWaits data) (connecting A data key issued).ev
      = some (knocked A data key issued, .ws []) := by
    dsimp only [connecting, api, wsStep, nobodyWaits, WsServer.start, WsServer.connect]
    rw [bearerToken_session hJ]
    rfl
  have hverify : verifyKinbridgeToken A.jose A.env (now / 1000)
      (sessionToken A.toService issued data key) = some (data.claims key) := verify_minted hJ hnow
  have hsettle : api A (knocked A data key issued) (.ws (.settle 0 (now / 1000)))
      = some (listening A data key issued, .ws []) := by
    dsimp only [api, wsStep, knocked]
    rw [put_self]
    dsimp only
    rw [hverify]
    rfl
  exact (((sessionRun_run hguard hdata).snoc hconnect).snoc hsettle).snoc rfl

theorem socketRun_secret (hJ : A.jose.Documented) :
    SecretKept A (socketRun A serviceToken body data key asked issued now ev) := by
  have hconnect : SecretKept A (sessionRun A serviceToken body data key asked issued now
      ++ [connecting A data key issued]) := by
    refine (sessionRun_secret hJ).snoc fun token ht => ?_
    obtain rfl := Option.some.inj ((bearerToken_session hJ).symm.trans ht)
    exact ⟨_, List.mem_cons_of_mem _ List.mem_cons_self, issuing_tokenOut⟩
  exact (hconnect.snoc fun _ ht => by cases ht).snoc fun _ ht => by cases ht

end

/-! ## How long a key works -/

/-- A key that goes out has not expired. -/
def KeysInForce (A : ApiService) (h : List ApiOcc) : Prop :=
  ∀ h₁ o h₂, h = h₁ ++ o :: h₂ → ∀ now authorization id reply key,
    o.ev = .resolve now authorization id → o.out = .answer reply → reply.body.hsKey = some key →
    ∃ data asked issued, data.dashboardSessionId = id ∧ Opened A h₁ data key asked issued
      ∧ now < (mintCall A.headscale asked data.deviceId none).body.expiration

theorem Opened.prompt {d : Nat} {data : StartSessionBody} {key : String} {asked issued : Nat}
    (ho : Opened A h data key asked issued) (hp : Prompt A d (h ++ h')) : issued ≤ asked + d := by
  obtain ⟨i, h₁, o, h₂, rfl, hwaits, reply, hev, _⟩ := ho
  exact hp h₁ o (h₂ ++ h') (by simp) i issued reply data asked hev hwaits

theorem keys_in_force (hJ : A.jose.Documented) {d : Nat}
    (hd : 1000 * A.env.kinbridgeJwtTtlSeconds + d ≤ 600000)
    (hr : Run (api A) .start h st) (hs : SecretKept A h) (hp : Prompt A d h) :
    KeysInForce A h := by
  rintro h₁ o h₂ rfl now authorization id reply key hev hout hkey
  obtain ⟨now', _, token, claims, rfl, hev', _, hentitled⟩ := key_entitled hJ hr hs hout hkey
  obtain ⟨rfl, _, rfl⟩ := ApiEvent.resolve.inj (hev.symm.trans hev')
  obtain ⟨data, key, asked, issued, hopened, _, rfl, hfresh⟩ := hentitled
  refine ⟨data, asked, issued, rfl, hopened, ?_⟩
  have hdelay := hopened.prompt hp
  show now < asked + 10 * 60000
  omega

/--
**When keys are still good**: whatever Headscale takes, up to so many milliseconds, no key goes
out that has expired, exactly if the life of a token and this delay together are ten minutes or
less. The environment may allow a token an hour.
-/
theorem keys_in_force_iff (hJ : A.jose.Documented) {d : Nat} {serviceToken : Header}
    {body : Option JsonObject} {data : StartSessionBody}
    (hguard : requireServiceToken A.env serviceToken = none)
    (hdata : parseStartSessionBody A.uuid body = some data)
    (httl : 0 < A.env.kinbridgeJwtTtlSeconds) :
    (∀ h st, Run (api A) .start h st → SecretKept A h → Prompt A d h → KeysInForce A h)
      ↔ 1000 * A.env.kinbridgeJwtTtlSeconds + d ≤ 600000 := by
  constructor
  · intro hall
    -- the token is resolved in its last millisecond
    generalize httl' : A.env.kinbridgeJwtTtlSeconds = ttl at httl ⊢
    have hlast := hall _ _
      (@sessionRun_run A serviceToken body data "" (999 * d + 1000) (1000 * (d + 1))
        (1000 * (d + 1 + ttl) - 1) hguard hdata)
      (sessionRun_secret hJ) (sessionRun_prompt (by omega))
    have hnow : (1000 * (d + 1 + ttl) - 1) / 1000
        < 1000 * (d + 1) / 1000 + A.env.kinbridgeJwtTtlSeconds := by omega
    obtain ⟨data', asked, issued, _, hopened, hforce⟩ := hlast
      [asking A serviceToken body data (999 * d + 1000), issuing A data "" (1000 * (d + 1))] _ []
      rfl _ _ _ _ "" rfl rfl (by rw [resolve_issued hJ hdata hnow]; rfl)
    have hasked := sessionRun_opened hopened
    have hlt : 1000 * (d + 1 + ttl) - 1 < asked + 10 * 60000 := hforce
    omega
  · intro hd h st hr hs hp
    exact keys_in_force hJ hd hr hs hp

def sampleApi : ApiService :=
  { env := sampleEnv
    jose := unaryJose
    uuid := fun s => s.length = 36
    datetime := fun s => s.length = 24
    headscale := ⟨"http://127.0.0.1:8080", "kinbridge", "key-1"⟩ }

/-- A session of two minutes, and a key of ten. The session is resolved, and a socket listens. -/
theorem all_accounted_one : ∃ h st, Run (api sampleApi) .start h st ∧ Accounted sampleApi h
    ∧ (∃ o ∈ h, ∃ reply, o.out = .answer reply ∧ reply.body.hsKey = some "hskey-auth-1")
    ∧ ∃ o ∈ h, o.out = .ws [.called ⟨0, 0⟩ ⟨.helpRequested, "", ∅⟩ false] := by
  have hguard : requireServiceToken sampleApi.env (.one "service") = none := by decide +kernel
  have hdata : parseStartSessionBody sampleApi.uuid sampleStart.body = some sampleBody := by
    decide +kernel
  have hJ : sampleApi.jose.Documented := unaryJose_documented
  have hrun := @socketRun_run sampleApi _ _ _ "hskey-auth-1" 1000000 1000400 1060000
    ⟨.helpRequested, "", ∅⟩ hJ hguard hdata (by decide)
  refine ⟨_, _, hrun, all_accounted hJ hrun (socketRun_secret hJ), ⟨resolving sampleApi sampleBody
    "hskey-auth-1" 1000400 1060000, by simp [socketRun, sessionRun], _, rfl, ?_⟩, _,
    List.mem_append_right _ (List.mem_singleton_self _), rfl⟩
  rw [resolve_issued hJ hdata (by decide)]
  rfl

/-- With a token of two minutes Headscale may take eight. -/
theorem keys_in_force_default : sampleApi.env.kinbridgeJwtTtlSeconds = 120
    ∧ ∀ h st, Run (api sampleApi) .start h st → SecretKept sampleApi h →
      Prompt sampleApi 480000 h → KeysInForce sampleApi h := by
  have hguard : requireServiceToken sampleApi.env (.one "service") = none := by decide +kernel
  have hdata : parseStartSessionBody sampleApi.uuid sampleStart.body = some sampleBody := by
    decide +kernel
  have hJ : sampleApi.jose.Documented := unaryJose_documented
  exact ⟨rfl, (keys_in_force_iff hJ hguard hdata (by decide)).mpr (by decide)⟩

end KinBridge.Proof
