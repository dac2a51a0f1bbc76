import KinBridge.Lib.Recent
import KinBridge.Proof.Commands

/-!
# The log of punch-hole requests

`PUNCH_REQS` gets an entry for a forwarded request, unless one of the last thirty says the
same and is less than a minute old. The administrator can clear it. It is a machine of its own
here, and `admin_log_run` says that `hbbs` drives it with the requests that it forwards.
-/

namespace KinBridge.Proof

open KinBridge Runs Recent

/-- What happens to the log: a request that would be entered so, or `punch-requests -`. -/
inductive LogEvent where
  | forwarded (r : PunchReqEntry)
  | cleared
deriving DecidableEq, Repr

def logStep (reqs : List PunchReqEntry) : LogEvent → Option (List PunchReqEntry × Unit)
  | .forwarded r => some (recordPunchReq reqs r.tm r.fromIp r.toIp r.toId, ())
  | .cleared => some ([], ())

abbrev LogOcc := Occ (List PunchReqEntry) LogEvent Unit

variable {h : List LogOcc} {reqs : List PunchReqEntry}

def LogEvent.now : LogEvent → Option Instant
  | .forwarded r => some r.tm
  | .cleared => none

/-- The requests come in order of time. -/
def LogTimed (h : List LogOcc) : Prop := (h.filterMap fun o => o.ev.now).Pairwise (· ≤ ·)

theorem logTimed_snoc {o : LogOcc} (ht : LogTimed (h ++ [o])) :
    LogTimed h ∧ ∀ x ∈ h, ∀ t t', x.ev.now = some t → o.ev.now = some t' → t ≤ t' := by
  unfold LogTimed at ht
  rw [List.filterMap_append, List.pairwise_append] at ht
  refine ⟨ht.1, fun x hx t t' hxt hot => ht.2.2 _ ?_ _ ?_⟩
  · exact List.mem_filterMap.mpr ⟨x, hx, hxt⟩
  · exact List.mem_filterMap.mpr ⟨o, List.mem_singleton_self o, hot⟩

/-- What makes two entries the same request. -/
def punchKey (e : PunchReqEntry) : String × String := (e.fromIp, e.toId)

theorem recordPunchReq_eq (reqs : List PunchReqEntry) (r : PunchReqEntry) :
    recordPunchReq reqs r.tm r.fromIp r.toIp r.toId
      = record punchKey PunchReqEntry.tm 30 (ofSecs 60) reqs r.tm r := by
  have hnew : newest punchKey 30 reqs (punchKey r)
      = (reqs.reverse.take 30).find? fun e => e.fromIp = r.fromIp ∧ e.toId = r.toId := by
    simp [newest, punchKey]
  have hrecent : ∀ e : PunchReqEntry, asSecs (elapsed r.tm e.tm) < PUNCH_REQ_DEDUPE_SEC ↔
      r.tm - e.tm < ofSecs 60 := by
    intro e
    exact Nat.div_lt_iff_lt_mul (by decide)
  unfold recordPunchReq isDupReq record
  rw [hnew]
  split <;> rename_i heq <;> rw [heq] <;> simp [hrecent]

/-- The log is in order, and each entry has the time of a request. -/
structure LogInv (h : List LogOcc) (reqs : List PunchReqEntry) : Prop where
  sorted : Sorted PunchReqEntry.tm reqs
  spaced : Spaced punchKey PunchReqEntry.tm 30 (ofSecs 60) reqs
  dated : ∀ e ∈ reqs, ∃ o ∈ h, o.ev.now = some e.tm

theorem logInv_nil : LogInv h [] := ⟨List.Pairwise.nil, nofun, nofun⟩

theorem logInv_step {o : LogOcc} (hi : LogInv h o.pre) (ht : LogTimed (h ++ [o]))
    (hst : logStep o.pre o.ev = some (o.post, o.out)) : LogInv (h ++ [o]) o.post := by
  cases hev : o.ev with
  | cleared =>
      rw [hev] at hst
      obtain ⟨hpost, _⟩ := Prod.mk.inj (Option.some.inj hst)
      rw [← hpost]
      exact logInv_nil
  | forwarded r =>
      rw [hev] at hst
      obtain ⟨hpost, _⟩ := Prod.mk.inj (Option.some.inj hst)
      have hnow : o.ev.now = some r.tm := by rw [hev]; rfl
      -- every entry has the time of an earlier request
      have hpast : ∀ e ∈ o.pre, e.tm ≤ r.tm := by
        intro e he
        obtain ⟨x, hx, hxt⟩ := hi.dated e he
        exact (logTimed_snoc ht).2 x hx _ _ hxt hnow
      rw [← hpost, recordPunchReq_eq]
      refine ⟨sorted_record hi.sorted hpast, spaced_record hi.sorted hi.spaced hpast, ?_⟩
      intro e he
      have hor : e ∈ o.pre ∨ e = r := by
        rcases record_cases punchKey 30 (ofSecs 60) r.tm r hi.sorted with ⟨heq, _⟩ | ⟨heq, _⟩
        · exact .inl (heq ▸ he)
        · rw [heq] at he
          exact (List.mem_append.mp he).imp id List.mem_singleton.mp
      rcases hor with hold | rfl
      · obtain ⟨x, hx, hxt⟩ := hi.dated e hold
        exact ⟨x, List.mem_append_left _ hx, hxt⟩
      · exact ⟨o, by simp, hnow⟩

theorem logInv_run (hr : Run logStep [] h reqs) (ht : LogTimed h) : LogInv h reqs := by
  refine Run.inv (I := fun h reqs => LogTimed h → LogInv h reqs) (fun _ => logInv_nil) ?_ hr ht
  intro h s e s' o ih hst ht
  exact logInv_step (o := ⟨s, e, o, s'⟩) (ih (logTimed_snoc ht).1) ht hst

/-- The log says everything once. -/
structure LogKept (h : List LogOcc) (reqs : List PunchReqEntry) : Prop where
  sorted : reqs.Pairwise fun a b => a.tm ≤ b.tm
  /-- Two entries for one source and one target are far apart, or a minute apart. -/
  spaced : ∀ i j a b, i < j → reqs[i]? = some a → reqs[j]? = some b → a.fromIp = b.fromIp →
    a.toId = b.toId → 30 < j - i ∨ a.tm + ofSecs 60 ≤ b.tm
  /-- After each request there is an entry for it, less than a minute old. -/
  recorded : ∀ o ∈ h, ∀ r, o.ev = .forwarded r → ∃ e ∈ o.post, e.fromIp = r.fromIp
    ∧ e.toId = r.toId ∧ elapsed r.tm e.tm < ofSecs 60

theorem logKept_run (hr : Run logStep [] h reqs) (ht : LogTimed h) : LogKept h reqs := by
  have hi := logInv_run hr ht
  constructor
  case sorted => exact hi.sorted
  case spaced =>
    intro i j a b hij ha hb hfrom hto
    exact hi.spaced i j a b hij ha hb (Prod.ext hfrom hto)
  case recorded =>
    intro o ho r hev
    obtain ⟨h₁, h₂, rfl, hpre, hst, _⟩ := hr.mem ho
    have ht₁ : LogTimed h₁ := by
      unfold LogTimed at ht ⊢
      rw [List.filterMap_append, List.pairwise_append] at ht
      exact ht.1
    rw [hev] at hst
    obtain ⟨hpost, _⟩ := Prod.mk.inj (Option.some.inj hst)
    rw [recordPunchReq_eq] at hpost
    obtain ⟨e, he, hkey, hrecent⟩ := fresh_record punchKey 30 r
      (logInv_run hpre ht₁).sorted (show 0 < ofSecs 60 by decide)
    obtain ⟨hfrom, hto⟩ := Prod.mk.inj hkey
    exact ⟨e, hpost ▸ he, hfrom, hto, hrecent⟩

/-- **The log of punch-hole requests is deduplicated and complete.** -/
theorem punch_log (hr : Run logStep [] h reqs) (ht : LogTimed h) : LogKept h reqs :=
  logKept_run hr ht

/-- Three requests for one peer, the second within a minute of the first, and a clear. -/
def logTrace : List LogEvent :=
  [.forwarded ⟨ofSecs 0, "10.0.0.1", "10.0.0.9", "peer-9"⟩, .cleared,
    .forwarded ⟨ofSecs 1, "10.0.0.1", "10.0.0.9", "peer-9"⟩,
    .forwarded ⟨ofSecs 60, "10.0.0.1", "10.0.0.9", "peer-9"⟩,
    .forwarded ⟨ofSecs 61, "10.0.0.1", "10.0.0.9", "peer-9"⟩]

theorem punch_log_two : ∃ h reqs, Run logStep [] h reqs ∧ h.map Occ.ev = logTrace
    ∧ reqs.map PunchReqEntry.tm = [ofSecs 1, ofSecs 61] ∧ LogKept h reqs := by
  obtain ⟨h, reqs, hr, hev, hp⟩ := @exists_run _ _ _ logStep [] logTrace
    (fun _ reqs => reqs.map PunchReqEntry.tm = [ofSecs 1, ofSecs 61]) (by decide)
  have htimed : LogTimed h := by
    have htimes : h.filterMap (fun o => o.ev.now) = logTrace.filterMap LogEvent.now := by
      rw [← hev, List.filterMap_map]
      rfl
    rw [LogTimed, htimes]
    decide
  exact ⟨h, reqs, hr, hev, of_decide_eq_true hp, punch_log hr htimed⟩

/-! ## The log of `hbbs` -/

section Hbbs

variable {X : Ext} {key : String} {iso : Nat → String} {cfg : Config} {s s' : Server}

/-- The entry that a punch-hole request makes, if it is forwarded. -/
def forwarding (X : Ext) (key : String) (s : Server) (io : DbIo) (addr : SocketAddr)
    (ph : PunchHoleRequest) : Option PunchReqEntry :=
  if Licensed key ph then
    (s.pm.get X.toInfoJson io ph.id).2.bind fun peer =>
      if isOffline io.now peer then none
      else some ⟨io.now, (X.tryIntoV4 addr).ip.toString,
        (X.tryIntoV4 peer.socketAddr).ip.toString, ph.id⟩
  else none

def forwardedBy (X : Ext) (key : String) (s : Server) : Event → Option PunchReqEntry
  | .udp io addr (some (.punchHoleRequest ph)) => forwarding X key s io.toDbIo addr ph
  | .tcp io addr _ (some (.punchHoleRequest ph)) => forwarding X key s io.toDbIo addr ph
  | _ => none

def logAfter (reqs : List PunchReqEntry) : Option PunchReqEntry → List PunchReqEntry
  | none => reqs
  | some r => recordPunchReq reqs r.tm r.fromIp r.toIp r.toId

/-- A request goes to a peer exactly if it makes an entry, and that is all it does to the log. -/
theorem handlePunchHoleRequest_log (io : DbIo) (addr : SocketAddr) (ph : PunchHoleRequest)
    (ws : Bool) : (handlePunchHoleRequest X key s io addr ph ws).1.punchReqs
        = logAfter s.punchReqs (forwarding X key s io addr ph)
      ∧ ((handlePunchHoleRequest X key s io addr ph ws).2.2.isSome
        ↔ (forwarding X key s io addr ph).isSome) := by
  have hout := handlePunchHoleRequest_cases X key s io addr ph ws
  generalize handlePunchHoleRequest X key s io addr ph ws = r at hout ⊢
  unfold forwarding
  cases hout with
  | unlicensed hkey =>
      rw [if_neg hkey]
      exact ⟨rfl, Iff.rfl⟩
  | unknown hkey hnone =>
      rw [if_pos hkey, hnone]
      exact ⟨rfl, Iff.rfl⟩
  | offline hkey hpeer hoff =>
      rw [if_pos hkey, hpeer, Option.bind_some, if_pos hoff]
      exact ⟨rfl, Iff.rfl⟩
  | @forwarded peer hkey hpeer hoff =>
      rw [if_pos hkey, hpeer, Option.bind_some, if_neg (by simp [hoff])]
      obtain ⟨rotation, hfwd⟩ := forwardPunchHole_frame (X := X)
        { s with pm := (s.pm.get X.toInfoJson io ph.id).1 } io.now addr ph ws peer.socketAddr
      exact ⟨by rw [hfwd]; rfl, iff_of_true rfl rfl⟩

theorem handleUdp_punchReqs (s : Server) (io : Io) (addr : SocketAddr)
    (msg : Option RendezvousMessage) : (handleUdp X key s io addr msg).1.punchReqs
      = logAfter s.punchReqs (forwardedBy X key s (.udp io addr msg)) := by
  have hmove := @handleUdp_move X key s io addr msg
  cases msg with
  | none => exact hmove.punchReqs nofun
  | some m =>
      cases m with
      | punchHoleRequest ph => exact (handlePunchHoleRequest_log io.toDbIo addr ph false).1
      | _ => exact hmove.punchReqs nofun

theorem handleTcp_punchReqs (s : Server) (io : Io) (addr : SocketAddr) (ws : Bool)
    (msg : Option RendezvousMessage) : (handleTcp X key s io.toDbIo addr ws msg).1.punchReqs
      = logAfter s.punchReqs (forwardedBy X key s (.tcp io addr ws msg)) := by
  have hmove := @handleTcp_move X key s io.toDbIo addr ws msg
  cases msg with
  | none => exact hmove.punchReqs nofun
  | some m =>
      cases m with
      | punchHoleRequest ph =>
          have h := (@handlePunchHoleRequest_log X key s io.toDbIo addr ph ws).1
          unfold handleTcp
          dsimp only
          split <;> rename_i heq <;> rw [heq] at h <;> exact h
      | _ => exact hmove.punchReqs nofun

theorem hbbs_punchReqs {e : Event} {o : Out} (hne : e ≠ .restart)
    (hst : hbbs X key cfg s e = some (s', o)) :
    s'.punchReqs = logAfter s.punchReqs (forwardedBy X key s e) := by
  cases e with
  | restart => exact absurd rfl hne
  | udp io addr msg =>
      rw [(hbbs_udp.mp hst).1]
      exact handleUdp_punchReqs ..
  | tcp io addr ws msg =>
      rw [(hbbs_tcp.mp hst).1]
      exact handleTcp_punchReqs ..

/-! ### With an administrator -/

/-- The command is `punch-requests -`. -/
def ClearsLog (cmd : String) : Prop :=
  cmdWord cmd = some .punchRequests ∧ (cmdArgs cmd).head? = some "-"

instance (cmd : String) : Decidable (ClearsLog cmd) := inferInstanceAs (Decidable (_ ∧ _))

/-- What a step tells the log. -/
def logEventOf (X : Ext) (key : String) (l : IoLoop) : AdminEvent → Option LogEvent
  | .loop (.handle e) => (forwardedBy X key l.server e).map .forwarded
  | .loop _ => none
  | .command _ cmd => if ClearsLog cmd then some .cleared else none

theorem checkCmd_punchReqs {now : Instant} {cmd : String} :
    (checkCmd iso s now cmd).server.punchReqs = if ClearsLog cmd then [] else s.punchReqs := by
  by_cases hpr : cmdWord cmd = some .punchRequests
  · simp only [checkCmd, hpr, punchRequestsArm, ClearsLog, true_and]
    split <;> rfl
  · have hkept : ¬ ClearsLog cmd := fun hclear => hpr hclear.1
    have hmove := @checkCmd_move iso s now cmd
    rw [if_neg hkept]
    generalize checkCmd iso s now cmd = out at hmove ⊢
    obtain ⟨s', res, queued⟩ := out
    generalize cmdWord cmd = w at hmove hpr
    generalize cmdArgs cmd = args at hmove
    cases hmove with
    | punchRequests => exact absurd rfl hpr
    | _ => rfl

theorem admin_log {l l' : IoLoop} {e : AdminEvent} {o : Option String}
    (hst : admin X key iso cfg l e = some (l', o)) :
    Follows logStep l.server.punchReqs l'.server.punchReqs (logEventOf X key l e) := by
  have hmove := admin_move hst
  generalize l'.server = s' at hmove ⊢
  cases hmove with
  | message hne hb =>
      rw [hbbs_punchReqs hne hb, logEventOf]
      cases forwardedBy X key l.server _ with
      | none => rfl
      | some r => exact ⟨(), rfl⟩
  | @data d => cases d <;> rfl
  | @quiet e hne =>
      cases e with
      | handle e' => exact absurd rfl (hne e')
      | _ => rfl
  | @command now cmd out hout =>
      rw [logEventOf, ← hout, checkCmd_punchReqs]
      rcases Classical.em (ClearsLog cmd) with hclear | hclear
      · rw [if_pos hclear, if_pos hclear]
        exact ⟨(), rfl⟩
      · rw [if_neg hclear, if_neg hclear]
        rfl

/-- What a run told the log, in order. -/
def told (X : Ext) (key : String) (h : List (Occ IoLoop AdminEvent (Option String))) :
    List LogEvent := h.filterMap fun o => logEventOf X key o.pre o.ev

theorem admin_log_run {l₀ l : IoLoop} {h : List (Occ IoLoop AdminEvent (Option String))}
    (hr : Run (admin X key iso cfg) l₀ h l) :
    ∃ g, Run logStep l₀.server.punchReqs g l.server.punchReqs ∧ g.map Occ.ev = told X key h :=
  hr.part (fun l => l.server.punchReqs) fun _ _ _ _ hst => admin_log hst

/-- So the log of `hbbs` says everything once, as long as its clock does not run backwards. -/
theorem admin_logKept {db : Table} {h : List (Occ IoLoop AdminEvent (Option String))} {l : IoLoop}
    (hr : Run (admin X key iso cfg) (.start cfg db) h l)
    (hc : ((told X key h).filterMap LogEvent.now).Pairwise (· ≤ ·)) :
    ∃ g, g.map Occ.ev = told X key h ∧ LogKept g l.server.punchReqs := by
  obtain ⟨g, hg, hev⟩ := admin_log_run hr
  refine ⟨g, hev, logKept_run hg ?_⟩
  rw [← hev, List.filterMap_map] at hc
  exact hc

end Hbbs

end KinBridge.Proof
