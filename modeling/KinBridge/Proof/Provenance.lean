import KinBridge.Hbbs.Sinks
import KinBridge.Proof.Registration

/-!
# Where a delivered key comes from

A peer answers a requester through `hbbs`, and the requester learns the peer's public key
from the answer. The key should be the one `hbbs` has on record, signed by `get_pk` for the
id that the answer names.

Two of the three answers are built anew around that value. A `RelayResponse` is edited in
place: if it holds an id, the id is replaced by the signed key. If it holds a key instead,
there is no id to replace, and the answer goes on as it came.
-/

namespace KinBridge.Proof

open KinBridge Runs

variable {X : Ext} {key : String} {s : Server} {io : DbIo}

/-- The key in an answer, empty if there is none. -/
def carriedPk : RendezvousMessage → Option Bytes
  | .punchHoleResponse r => some r.pk
  | .relayResponse rr =>
    match rr.union with
    | some (.pk pk) => some pk
    | _ => some []
  | _ => none

/-- The version and the id that a peer's answer names. -/
def namedId : Option RendezvousMessage → Option (String × String)
  | some (.punchHoleSent phs) => some (phs.version, phs.id)
  | some (.localAddr la) => some (la.version, la.id)
  | some (.relayResponse rr) =>
    match rr.union with
    | some (.id id) => some (rr.version, id)
    | _ => none
  | _ => none

/-- No key, or what `get_pk` says about the id named. -/
def FromRecord (X : Ext) (s : Server) (io : DbIo) (msg : Option RendezvousMessage)
    (pk : Bytes) : Prop :=
  pk = [] ∨ ∃ version id, namedId msg = some (version, id) ∧ pk = (getPk X s io version id).2

/-- The message holds a key where an answer holds an id. -/
def SuppliesKey : Option RendezvousMessage → Prop
  | some (.relayResponse rr) => ∃ pk, rr.union = some (.pk pk) ∧ pk ≠ []
  | _ => False

/-- What `get_pk` says: the signature on the id and the key recorded for it. -/
theorem getPk_signed (s : Server) (io : DbIo) (version id : String) :
    (getPk X s io version id).2 = [] ∨ ∃ sk p, s.inner.sk = some sk
      ∧ (s.pm.get X.toInfoJson io id).2 = some p
      ∧ (getPk X s io version id).2 = X.sign (X.idPkBytes id p.pk) sk := by
  unfold getPk
  split
  · exact .inl rfl
  · rename_i sk hsk
    split
    · exact .inl rfl
    · rename_i hver
      unfold signedIdPk
      rw [if_neg (by simp [hver, hsk])]
      cases hp : (s.pm.get X.toInfoJson io id).2 with
      | none => exact .inl rfl
      | some p => exact .inr ⟨sk, p, hsk, rfl, rfl⟩

/-! ## The handlers -/

theorem carriedPk_forward {msg : RendezvousMessage} (h : msg.isForward = true) :
    carriedPk msg = none := by
  unfold RendezvousMessage.isForward at h
  split at h
  · rfl
  · rfl
  · rfl
  · cases h

/-- The answer to a request of one's own holds no key. -/
theorem handlePunchHoleRequest_carried {addr : SocketAddr} {ph : PunchHoleRequest} {ws : Bool}
    {pk : Bytes}
    (h : carriedPk (handlePunchHoleRequest X key s io addr ph ws).2.1 = some pk) : pk = [] := by
  have hout := handlePunchHoleRequest_cases X key s io addr ph ws
  generalize handlePunchHoleRequest X key s io addr ph ws = r at hout h
  cases hout with
  | unlicensed | unknown | offline => exact (Option.some.inj h).symm
  | forwarded =>
      rw [carriedPk_forward (forwardPunchHole_isForward ..)] at h
      cases h

theorem relayResponseRelay_union (s : Server) (rr : RelayResponse) (addrB : SocketAddr) :
    (relayResponseRelay s rr addrB).2.union = rr.union := by
  unfold relayResponseRelay
  split
  · rfl
  · split
    · rfl
    · split <;> rfl

/-- An id is replaced by its signed key; without an id the answer keeps what it holds. -/
theorem handleRelayResponse_carried (rr : RelayResponse) :
    carriedPk (handleRelayResponse X s io rr).2.1 = some
      (if rr.id ≠ "" then (getPk X s io rr.version rr.id).2
      else match rr.union with
        | some (.pk pk) => pk
        | _ => []) := by
  unfold handleRelayResponse
  dsimp only [carriedPk]
  rw [relayResponseRelay_union]
  unfold relayResponsePk
  by_cases hid : rr.id = ""
  · have hid' : ({ rr with socketAddr := [] } : RelayResponse).id = "" := hid
    rw [if_pos hid', if_neg (not_not.mpr hid)]
    dsimp only
    split <;> rfl
  · have hid' : ¬ ({ rr with socketAddr := [] } : RelayResponse).id = "" := hid
    rw [if_neg hid', if_pos hid]
    rfl

/-- A passed-on `RelayResponse` holds the recorded key exactly if it came without one. -/
theorem handleRelayResponse_fromRecord (rr : RelayResponse) :
    (∀ pk, carriedPk (handleRelayResponse X s io rr).2.1 = some pk →
        FromRecord X s io (some (.relayResponse rr)) pk)
      ↔ ¬ SuppliesKey (some (.relayResponse rr)) := by
  rw [handleRelayResponse_carried]
  simp only [Option.some.injEq, forall_eq']
  obtain ⟨socketAddr, relayServer, union, version⟩ := rr
  rcases union with _ | id | pk
  · simp [RelayResponse.id, SuppliesKey, FromRecord]
  · refine iff_of_true ?_ (by simp [SuppliesKey])
    by_cases hid : id = ""
    · exact .inl (if_neg (not_not.mpr hid))
    · exact .inr ⟨version, id, rfl, if_pos hid⟩
  · simp [RelayResponse.id, SuppliesKey, FromRecord, namedId]

/-! ## One message handled -/

/-- The message of an effect. -/
def effectMsg : TcpEffect → Option RendezvousMessage
  | .park _ => none
  | .queue msg _ => some msg
  | .sendToTcp msg _ => some msg
  | .sendToTcpSync msg _ => some msg
  | .sendToSink msg => some msg

/-- Every message that a handler lets out, at once, through a channel or into a sink. -/
def outMsgs : Out → List RendezvousMessage
  | .udp out => (out.sends ++ out.queued).map Prod.fst
  | .tcp effects _ => effects.filterMap effectMsg
  | .restarted => []

@[simp]
theorem outMsgs_quiet : outMsgs (.udp .quiet) = [] := rfl

@[simp]
theorem outMsgs_send {io : Io} {msg : RendezvousMessage} {addr : SocketAddr} :
    outMsgs (.udp (.send io msg addr)) = [msg] := rfl

/-- The message holds no key of its sender's making. -/
def OwnKey (X : Ext) (s : Server) (io : DbIo) (msg : Option RendezvousMessage)
    (m : RendezvousMessage) : Prop :=
  ∀ pk, carriedPk m = some pk → FromRecord X s io msg pk

theorem ownKey_of_none {msg : Option RendezvousMessage} {m : RendezvousMessage}
    (h : carriedPk m = none) : OwnKey X s io msg m := by
  intro pk hpk
  rw [h] at hpk
  cases hpk

theorem ownKey_punch {addr : SocketAddr} {ph : PunchHoleRequest} {ws : Bool}
    {msg : Option RendezvousMessage} :
    OwnKey X s io msg (handlePunchHoleRequest X key s io addr ph ws).2.1 := by
  intro pk hpk
  exact .inl (handlePunchHoleRequest_carried hpk)

theorem ownKey_holeSent {addr : SocketAddr} {phs : PunchHoleSent} :
    OwnKey X s io (some (.punchHoleSent phs)) (handleHoleSent X s io phs addr).2.1 := by
  rintro pk ⟨⟩
  exact .inr ⟨phs.version, phs.id, rfl, rfl⟩

theorem ownKey_localAddr {la : LocalAddr} :
    OwnKey X s io (some (.localAddr la)) (handleLocalAddr X s io la).2.1 := by
  rintro pk ⟨⟩
  exact .inr ⟨la.version, la.id, rfl, rfl⟩

/-- Over UDP only `PunchHoleSent` and `LocalAddr` are passed on as answers. -/
theorem handleUdp_ownKey {io : Io} {addr : SocketAddr} {msg : Option RendezvousMessage}
    {m : RendezvousMessage} (hm : m ∈ outMsgs (.udp (handleUdp X key s io addr msg).2)) :
    OwnKey X s io.toDbIo msg m := by
  unfold handleUdp at hm
  split at hm
  · split at hm
    · simp at hm
    · dsimp only at hm
      -- the answer, and a `ConfigureUpdate` after it for a peer with an older serial
      split at hm
      · simp only [outMsgs, List.append_nil, List.map_cons, List.map_nil, List.mem_cons,
          List.not_mem_nil, or_false] at hm
        rcases hm with rfl | rfl
        · exact ownKey_of_none rfl
        · exact ownKey_of_none rfl
      · obtain rfl := List.mem_singleton.mp hm
        exact ownKey_of_none rfl
  · split at hm
    · simp at hm
    · rw [outMsgs_send, List.mem_singleton] at hm
      subst hm
      exact ownKey_of_none rfl
  · -- what `handle_udp_punch_hole_request` lets out goes through the channel
    obtain rfl := List.mem_singleton.mp hm
    exact ownKey_punch
  · rw [outMsgs_send, List.mem_singleton] at hm
    subst hm
    exact ownKey_holeSent
  · rw [outMsgs_send, List.mem_singleton] at hm
    subst hm
    exact ownKey_localAddr
  · split at hm <;> simp at hm
  · split at hm
    · rw [outMsgs_send, List.mem_singleton] at hm
      subst hm
      exact ownKey_of_none rfl
    · simp at hm
  · simp at hm

/-- Over TCP a `RelayResponse` is passed on as well, and that is where a key can come along. -/
theorem handleTcp_ownKey_iff {addr : SocketAddr} {ws : Bool} {msg : Option RendezvousMessage} :
    (∀ m ∈ (handleTcp X key s io addr ws msg).2.1.filterMap effectMsg, OwnKey X s io msg m)
      ↔ ¬ SuppliesKey msg := by
  have hone : ∀ {m : RendezvousMessage} {msg : Option RendezvousMessage}, OwnKey X s io msg m →
      ∀ m' ∈ [m], OwnKey X s io msg m' := by
    intro m msg hown
    rwa [List.forall_mem_singleton]
  unfold handleTcp
  split
  · rename_i ph
    refine iff_of_true ?_ (by simp [SuppliesKey])
    have hown : OwnKey X s io (some (.punchHoleRequest ph)) _ :=
      @ownKey_punch X key s io addr ph ws _
    generalize handlePunchHoleRequest X key s io addr ph ws = r at hown ⊢
    obtain ⟨s', m, dest⟩ := r
    cases dest with
    | none => exact hone hown
    | some toAddr => exact hone hown
  · refine iff_of_true ?_ (by simp [SuppliesKey])
    split
    · exact hone (ownKey_of_none rfl)
    · exact List.forall_mem_nil _
  · exact (List.forall_mem_singleton ..).trans (handleRelayResponse_fromRecord _)
  · exact iff_of_true (hone ownKey_holeSent) (by simp [SuppliesKey])
  · exact iff_of_true (hone ownKey_localAddr) (by simp [SuppliesKey])
  · exact iff_of_true (hone (ownKey_of_none rfl)) (by simp [SuppliesKey])
  · exact iff_of_true (hone (ownKey_of_none rfl)) (by simp [SuppliesKey])
  · rename_i hrr _ _ _ _
    refine iff_of_true (List.forall_mem_nil _) ?_
    unfold SuppliesKey
    split
    · exact absurd rfl (hrr _)
    · exact not_false

def eventMsg : Event → Option RendezvousMessage
  | .udp _ _ msg => msg
  | .tcp _ _ _ msg => msg
  | .restart => none

/-- A `RelayResponse` with a key comes in where it is passed on. -/
def EventSupplies : Event → Prop
  | .tcp _ _ _ msg => SuppliesKey msg
  | _ => False

/-- No message that this event makes `hbbs` send holds a key of its sender's making. -/
def KeysOwn (X : Ext) (s : Server) (e : Event) (out : Out) : Prop :=
  ∀ io, e.io = some io → ∀ m ∈ outMsgs out, OwnKey X s io.toDbIo (eventMsg e) m

theorem hbbs_keysOwn_iff {cfg : Config} {s' : Server} {e : Event} {out : Out}
    (hst : hbbs X key cfg s e = some (s', out)) : KeysOwn X s e out ↔ ¬ EventSupplies e := by
  cases e with
  | restart => exact iff_of_true (by rintro io ⟨⟩) not_false
  | udp io addr msg =>
      rw [(hbbs_udp.mp hst).2]
      refine iff_of_true ?_ not_false
      rintro _ ⟨⟩ m hm
      exact handleUdp_ownKey hm
  | tcp io addr ws msg =>
      rw [(hbbs_tcp.mp hst).2]
      refine Iff.trans ?_ (@handleTcp_ownKey_iff X key s io.toDbIo addr ws msg)
      constructor
      · intro hown
        exact hown io rfl
      · rintro hown _ ⟨⟩
        exact hown

end KinBridge.Proof

/-! ## Messages between connections -/

namespace KinBridge.Sinks

open KinBridge Runs Slots Proof

variable {X : Ext} {key : String} {s s' : State} {P : RendezvousMessage → Prop}

/-- Whatever is still to be written or queued has the property. -/
structure Pending (P : RendezvousMessage → Prop) (s : State) : Prop where
  todo : ∀ c cn, s.conns c = some cn → ∀ m ∈ cn.todo.filterMap effectMsg, P m
  sending : ∀ t ∈ s.sending, P t.msg

theorem Pending.put {c : ConnId} {cn : Conn} (h : Pending P s)
    (hcn : ∀ m ∈ cn.todo.filterMap effectMsg, P m) :
    ∀ c' cn', put s.conns c cn c' = some cn' → ∀ m ∈ cn'.todo.filterMap effectMsg, P m := by
  intro c' cn' hput
  rcases put_eq_some.mp hput with ⟨_, rfl⟩ | ⟨_, hold⟩
  · exact hcn
  · exact h.todo c' cn' hold

theorem Pending.tail {c : ConnId} {cn : Conn} {e : TcpEffect} {todo : List TcpEffect}
    (h : Pending P s) (hcn : s.conns c = some cn) (htodo : cn.todo = e :: todo) :
    ∀ m ∈ todo.filterMap effectMsg, P m := by
  intro m hm
  refine h.todo c cn hcn m ?_
  rw [htodo]
  exact ((List.sublist_cons_self e todo).filterMap effectMsg).subset hm

theorem Pending.head {c : ConnId} {cn : Conn} {e : TcpEffect} {todo : List TcpEffect}
    {m : RendezvousMessage} (h : Pending P s) (hcn : s.conns c = some cn)
    (htodo : cn.todo = e :: todo) (hm : effectMsg e = some m) : P m := by
  refine h.todo c cn hcn m ?_
  rw [htodo, List.filterMap_cons, hm]
  exact List.mem_cons_self

/-- Every step keeps the property, if a message read brings in nothing without it. -/
theorem pending_step {e : Event} {o : Out} (hm : Move X s e s' o) (h : Pending P s)
    (hrecv : ∀ c io msg cause, e = .recv c io msg cause → ∀ cn, s'.conns c = some cn →
      ∀ m ∈ cn.todo.filterMap effectMsg, P m) :
    Pending P s' ∧ ∀ c m cause, o = .written c m cause → P m := by
  cases hm with
  | udp => exact ⟨⟨h.todo, h.sending⟩, by rintro _ _ _ ⟨⟩⟩
  | accept => exact ⟨⟨h.put (List.forall_mem_nil _), h.sending⟩, by rintro _ _ _ ⟨⟩⟩
  | recv => exact ⟨⟨h.put (hrecv _ _ _ _ rfl _ (put_self ..)), h.sending⟩, by rintro _ _ _ ⟨⟩⟩
  | skip hcn htodo => exact ⟨⟨h.put (h.tail hcn htodo), h.sending⟩, by rintro _ _ _ ⟨⟩⟩
  | park hcn htodo => exact ⟨⟨h.put (h.tail hcn htodo), h.sending⟩, by rintro _ _ _ ⟨⟩⟩
  | queue hcn htodo => exact ⟨⟨h.put (h.tail hcn htodo), h.sending⟩, by rintro _ _ _ ⟨⟩⟩
  | sendToTcp hcn htodo =>
      refine ⟨⟨h.put (h.tail hcn htodo), ?_⟩, by rintro _ _ _ ⟨⟩⟩
      exact List.forall_mem_cons.mpr ⟨h.head hcn htodo rfl, h.sending⟩
  | sendToTcpSync hcn htodo =>
      refine ⟨⟨h.put (h.tail hcn htodo), h.sending⟩, ?_⟩
      rintro _ _ _ ⟨⟩
      exact h.head hcn htodo rfl
  | sendToSink hcn htodo =>
      refine ⟨⟨h.put (h.tail hcn htodo), h.sending⟩, ?_⟩
      rintro _ _ _ ⟨⟩
      exact h.head hcn htodo rfl
  | flush ht =>
      refine ⟨⟨h.todo, fun t hmem => h.sending t (List.mem_of_mem_eraseIdx hmem)⟩, ?_⟩
      rintro _ _ _ ⟨⟩
      exact h.sending _ (List.mem_of_getElem? ht)
  | drop hcn | clear hcn =>
      have hkept := h.todo _ _ hcn
      exact ⟨⟨h.put hkept, h.sending⟩, by rintro _ _ _ ⟨⟩⟩

/-- The message was let out by a handler of this run, with no key of its sender's making. -/
def OwnIn (X : Ext) (h : List (Occ State Event Out)) (m : RendezvousMessage) : Prop :=
  ∃ o ∈ h, ∃ c io msg cause, o.ev = .recv c io msg cause
    ∧ OwnKey X o.pre.server io.toDbIo msg m

theorem OwnIn.mono {h g : List (Occ State Event Out)} {m : RendezvousMessage}
    (hm : OwnIn X h m) : OwnIn X (h ++ g) m := by
  obtain ⟨o, ho, hown⟩ := hm
  exact ⟨o, List.mem_append_left _ ho, hown⟩

/-- The step brings in no `RelayResponse` with a key. -/
def BringsNoKey (_ : State) : Event → Prop
  | .recv _ _ msg _ => ¬ SuppliesKey msg
  | _ => True

/-- What a message read leaves to do is let out by that very step. -/
theorem recv_todo {c : ConnId} {io : Io} {msg : Option RendezvousMessage} {cause : ConnId} {o : Out}
    (hst : sinks X key s (.recv c io msg cause) = some (s', o)) {cn : Conn}
    (hcn : s'.conns c = some cn) : ∃ addr ws,
      cn.todo = (handleTcp X key s.server io.toDbIo addr ws msg).2.1 := by
  simp only [sinks] at hst
  split at hst
  · rename_i old hold
    split at hst
    · obtain ⟨rfl, _⟩ := Prod.mk.inj (Option.some.inj hst)
      simp only [put_self, Option.some.injEq] at hcn
      subst hcn
      exact ⟨old.addr, old.ws, rfl⟩
    · cases hst
  · cases hst

/-- Over a run that brings in no key, whatever is written was let out with the recorded key or
none, however the handlers' effects interleave. -/
theorem written_own {s₀ : Server} {h : List (Occ State Event Out)}
    (hr : Run (sinks X key) (State.start s₀) h s) (hno : ∀ o ∈ h, BringsNoKey o.pre o.ev) :
    ∀ o ∈ h, ∀ c m cause, o.out = .written c m cause → OwnIn X h m := by
  have hinv : Pending (OwnIn X h) s
      ∧ ∀ o ∈ h, ∀ c m cause, o.out = .written c m cause → OwnIn X h m := by
    refine Run.inv_of (C := BringsNoKey) (I := fun h s => Pending (OwnIn X h) s
      ∧ ∀ o ∈ h, ∀ c m cause, o.out = .written c m cause → OwnIn X h m) ?_ ?_ hr hno
    · refine ⟨⟨?_, ?_⟩, ?_⟩
      · intro c cn hcn
        cases hcn
      · intro t ht
        cases ht
      · intro o ho
        cases ho
    · intro h s e s' out ⟨hpend, hwritten⟩ hc hst
      have hmono : Pending (OwnIn X (h ++ [⟨s, e, out, s'⟩])) s :=
        ⟨fun c cn hcn m hm => (hpend.todo c cn hcn m hm).mono,
          fun t ht => (hpend.sending t ht).mono⟩
      obtain ⟨hpend', hout⟩ := pending_step (sinks_move hst) hmono (by
        rintro c io msg cause rfl cn hcn m hm
        obtain ⟨addr, ws, htodo⟩ := recv_todo hst hcn
        rw [htodo] at hm
        exact ⟨_, List.mem_append_right _ (List.mem_singleton_self _), c, io, msg, cause, rfl,
          handleTcp_ownKey_iff.mpr hc m hm⟩)
      refine ⟨hpend', ?_⟩
      intro o ho c m cause hw
      rcases List.mem_append.mp ho with ho | ho
      · exact (hwritten o ho c m cause hw).mono
      · rw [List.mem_singleton.mp ho] at hw
        exact hout c m cause hw
  exact hinv.2

end KinBridge.Sinks

namespace KinBridge.Proof

open KinBridge Runs

variable {X : Ext} {key : String} {cfg : Config}

/--
**Delivered keys are the recorded ones exactly where no `RelayResponse` brings one along.**
A message handled makes `hbbs` send keys out of `get_pk` only, unless it is such a response
over TCP or WebSocket; and over a run without one, whatever is written to a requester was let
out with the recorded key or none.
-/
theorem keys_own_iff :
    (∀ s e s' out, hbbs X key cfg s e = some (s', out) →
        (KeysOwn X s e out ↔ ¬ EventSupplies e))
      ∧ ∀ s₀ h s, Run (Sinks.sinks X key) (Sinks.State.start s₀) h s →
        (∀ o ∈ h, Sinks.BringsNoKey o.pre o.ev) →
        ∀ o ∈ h, ∀ c m cause, o.out = .written c m cause → Sinks.OwnIn X h m :=
  ⟨fun _ _ _ _ hst => hbbs_keysOwn_iff hst, fun _ _ _ hr hno => Sinks.written_own hr hno⟩

def requester : SocketAddr := ⟨.v4 ⟨9, 9, 9, 9⟩, 5000⟩

/-- A `RelayResponse` to the requester that names an id. -/
def namingResponse : RendezvousMessage :=
  .relayResponse ⟨bytesOfAddr requester, "", some (.id "peer-1"), "1"⟩

/-- What the requester gets: the id and the key, signed. -/
def signedResponse : RendezvousMessage :=
  .relayResponse ⟨[], "", some (.pk ("peer-1".toUTF8.toList ++ [2])), "1"⟩

/-- The requester asks for a relay, and the peer answers on a connection of its own. -/
def namingEvents : List Sinks.Event :=
  [.accept 0 requester false,
    .recv 0 (.sample 0 1) (some (.requestRelay ⟨"peer-1", "", [], ""⟩)) 0, .exec 0, .exec 0,
    .accept 1 .unspecified false, .recv 1 (.sample 0 1) (some namingResponse) 0, .exec 1]

/-- This is written on the requester's connection. -/
def writesSigned (o : Occ Sinks.State Sinks.Event Sinks.Out) : Bool :=
  match o.out with
  | .written c m _ => decide (c = 0 ∧ m = signedResponse)
  | .silent => false

theorem keys_own_named :
    (∃ s out, hbbs Ext.sample "" .sample registered
          (.tcp (.sample 0 1) .unspecified false (some namingResponse)) = some (s, out)
        ∧ outMsgs out = [signedResponse]
        ∧ KeysOwn Ext.sample registered
          (.tcp (.sample 0 1) .unspecified false (some namingResponse)) out)
      ∧ ∃ h s, Run (Sinks.sinks Ext.sample "") (Sinks.State.start registered) h s
        ∧ (h.any writesSigned) = true ∧ Sinks.OwnIn Ext.sample h signedResponse := by
  obtain ⟨hmessage, hrun⟩ := @keys_own_iff Ext.sample "" Config.sample
  constructor
  · refine ⟨_, _, rfl, by decide +kernel, (hmessage _ _ _ _ rfl).mpr ?_⟩
    rintro ⟨pk, ⟨⟩, _⟩
  · obtain ⟨h, s, hr, hev, hp⟩ := @exists_run _ _ _ (Sinks.sinks Ext.sample "")
      (Sinks.State.start registered) namingEvents (fun h _ => h.any writesSigned)
      (by decide +kernel)
    refine ⟨h, s, hr, hp, ?_⟩
    have hno : ∀ e ∈ namingEvents, ∀ st, Sinks.BringsNoKey st e := by
      simp [namingEvents, Sinks.BringsNoKey, SuppliesKey, namingResponse]
    obtain ⟨o, ho, hwritten⟩ := List.any_eq_true.mp hp
    unfold writesSigned at hwritten
    split at hwritten
    · rename_i c m cause hout
      obtain ⟨_, rfl⟩ := of_decide_eq_true hwritten
      refine hrun _ _ _ hr ?_ o ho c _ cause hout
      intro x hx
      exact hno x.ev (hev ▸ List.mem_map_of_mem hx) x.pre
    · cases hwritten

/-- **A key supplied by the sender**: three bytes of a `RelayResponse` reach the requester as the
peer's key. -/
theorem key_supplied :
    ¬ ∀ h s e s' out, Run (hbbs Ext.sample "" Config.sample) (.start .sample .empty) h s →
      hbbs Ext.sample "" Config.sample s e = some (s', out) → KeysOwn Ext.sample s e out := by
  intro hall
  have hown := hall [] _ (.tcp (.sample 0 1) .unspecified false
    (some (.relayResponse ⟨[], "", some (.pk [1, 2, 3]), "1"⟩))) _ _ Run.nil rfl
    (.sample 0 1) rfl (.relayResponse ⟨[], "", some (.pk [1, 2, 3]), "1"⟩)
    (List.mem_singleton_self _) [1, 2, 3] rfl
  rcases hown with hnone | ⟨version, id, hnamed, _⟩
  · cases hnone
  · cases hnamed

end KinBridge.Proof
