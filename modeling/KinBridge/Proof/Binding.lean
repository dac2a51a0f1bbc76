import KinBridge.Proof.Backed

/-!
# Identity binding

The first accepted `RegisterPk` for an id should bind the id to its uuid for good, and
`get_pk` should sign only keys that came with that uuid.

The table keeps the binding: its row is never deleted and never changes uuid. Memory
follows the table as long as every record is backed by a row. That is lost in one place:
where `get_peer` fails and `get_or` makes up a blank record, the insert that follows
fails on the unique id, and the handler answers `OK` all the same.
-/

namespace KinBridge.Proof

open KinBridge Runs Slots

variable {X : Ext} {key : String} {cfg : Config}

/-- Writes fail on the table's own constraints only. -/
def WritesFailOnClash (h : List (Occ Server Event Out)) : Prop :=
  ∀ o ∈ h, ∀ io addr msg, o.ev = .udp io addr msg → io.writeOk = true

/-- `t` is one of the states the run went through. -/
def Visited (h : List (Occ Server Event Out)) (s t : Server) : Prop :=
  t = s ∨ ∃ o ∈ h, t = o.pre

/-- After an `OK` with one uuid there is none with another, and every key that `get_pk` signs
for the id was submitted with that uuid. -/
def IdentityBound (X : Ext) (h : List (Occ Server Event Out)) (s : Server) : Prop :=
  ∀ o ∈ h, ∀ io addr rk, Answered o io addr rk .OK →
    (∀ o' ∈ h, ∀ io' addr' rk', Answered o' io' addr' rk' .OK → rk'.id = rk.id →
      rk'.uuid = rk.uuid)
    ∧ ∀ t, Visited h s t → ∀ dbio version m, signedIdPk X t dbio version rk.id = some m →
      m.pk ≠ [] → ∃ o' ∈ h, ∃ io' addr' rk', o'.ev = .udp io' addr' (some (.registerPk rk'))
        ∧ rk'.id = rk.id ∧ rk'.pk = m.pk ∧ rk'.uuid = rk.uuid

/-- Where nothing is in memory, a failed read does not hide a row with another uuid, and a
first registration draws a guid that is not taken. -/
def ReadTells (s : Server) (io : DbIo) (addr : SocketAddr) (rk : RegisterPk) : Prop :=
  ReachesRecord s io.now addr rk → s.pm.map rk.id = none →
    (io.readOk = false → ∀ r, s.pm.db.row rk.id = some r → r.uuid = rk.uuid)
    ∧ (s.pm.db.row rk.id = none → ∀ r ∈ s.pm.db.rows, r.guid ≠ io.guid.val)

/-- Backed by a row, with no more asked of the two than uuid and guid. -/
abbrev Bound : PeerMap → Prop := Backed fun _ _ => True

theorem bound_loadable : Loadable X fun _ _ => True :=
  ⟨fun _ _ => trivial, fun _ _ _ _ _ _ => trivial, fun _ _ _ _ => trivial⟩

/-- The key was accepted for this id at some point of the history. -/
def Accepted (h : List (Occ Server Event Out)) (id : String) (pk : Bytes) : Prop :=
  ∃ o ∈ h, ∃ io addr rk, Answered o io addr rk .OK ∧ rk.id = id ∧ rk.pk = pk

theorem Accepted.mono {h g : List (Occ Server Event Out)} {id : String} {pk : Bytes}
    (ha : Accepted h id pk) : Accepted (h ++ g) id pk := by
  obtain ⟨o, ho, hrest⟩ := ha
  exact ⟨o, List.mem_append_left g ho, hrest⟩

/-- What a run keeps: memory is backed, every accepted uuid has its row, and every key in
memory or in the table was accepted. -/
structure BindingInv (h : List (Occ Server Event Out)) (s : Server) : Prop where
  bound : Bound s.pm
  row : ∀ o ∈ h, ∀ io addr rk, Answered o io addr rk .OK →
    ∃ r, s.pm.db.row rk.id = some r ∧ r.uuid = rk.uuid
  recPk : ∀ id p, s.pm.map id = some p → p.pk ≠ [] → Accepted h id p.pk
  rowPk : ∀ id r, s.pm.db.row id = some r → Accepted h id r.pk

theorem bindingInv_start : BindingInv [] (Server.start cfg .empty) where
  bound := backed_start
  row _ ho := absurd ho List.not_mem_nil
  recPk _ _ hp := by cases hp
  rowPk _ _ hr := by cases hr

/-! ## Steps that register nothing -/

/-- A record after such a step has the key of the record or of the row before it. -/
theorem pk_of_other {s : Server} {e : Event} {pm' : PeerMap} (hst : PmStep X s e pm')
    (hne : ∀ io addr rk, e ≠ .udp io addr (some (.registerPk rk))) {id : String} {p' : Peer}
    (hp' : pm'.map id = some p') :
    (∃ p, s.pm.map id = some p ∧ p.pk = p'.pk) ∨ ∃ r, s.pm.db.row id = some r ∧ r.pk = p'.pk := by
  cases hst with
  | registerPk => exact absurd rfl (hne _ _ _)
  | restart => cases hp'
  | @registerPeer io addr rp hid =>
      left
      rcases updateAddr_cases s.pm io.now rp.id addr with heq | ⟨old, hold, heq⟩ <;>
        rw [heq] at hp'
      · exact ⟨p', hp', rfl⟩
      · rcases put_eq_some.mp hp' with ⟨rfl, rfl⟩ | ⟨_, hp⟩
        · exact ⟨old, hold, rfl⟩
        · exact ⟨p', hp, rfl⟩
  | @looked _ io _ _ hl =>
      rcases hl with rfl | ⟨id', rfl⟩
      · exact .inl ⟨p', hp', rfl⟩
      · rcases PeerMap.get_cases s.pm io.toDbIo id' with ⟨q, hq⟩ | ⟨hm, hr, v, hv⟩ | ⟨hm, hr⟩
        · rw [PeerMap.get_of_memory hq] at hp'
          exact .inl ⟨p', hp', rfl⟩
        · rw [PeerMap.get_of_row hm hr hv] at hp'
          rcases put_eq_some.mp hp' with ⟨rfl, rfl⟩ | ⟨_, hp⟩
          · exact .inr ⟨v, hv, rfl⟩
          · exact .inl ⟨p', hp, rfl⟩
        · rw [PeerMap.get_of_none hm hr] at hp'
          exact .inl ⟨p', hp', rfl⟩

theorem bindingInv_other {h : List (Occ Server Event Out)} {s s' : Server} {e : Event} {out : Out}
    (hi : BindingInv h s) (hst : hbbs X key cfg s e = some (s', out))
    (hne : ∀ io addr rk, e ≠ .udp io addr (some (.registerPk rk))) :
    BindingInv (h ++ [⟨s, e, out, s'⟩]) s' := by
  have hpm := hbbs_pm hst
  obtain ⟨hbound, hdb⟩ := backed_other bound_loadable hi.bound hpm hne
  refine ⟨hbound, ?_, ?_, ?_⟩
  · intro o ho io addr rk hans
    rcases List.mem_append.mp ho with ho | ho
    · rw [hdb]; exact hi.row o ho io addr rk hans
    · rw [List.mem_singleton.mp ho] at hans
      exact absurd hans.1 (hne io addr rk)
  · intro id p' hp' hpk
    rcases pk_of_other hpm hne hp' with ⟨p, hp, heq⟩ | ⟨r, hr, heq⟩
    · rw [← heq] at hpk ⊢
      exact (hi.recPk id p hp hpk).mono
    · rw [← heq]
      exact (hi.rowPk id r hr).mono
  · intro id r hr
    rw [hdb] at hr
    exact (hi.rowPk id r hr).mono

/-! ## `RegisterPk` -/

/-- If the read tells, a message that reaches `update_pk` has its write go through, or finds
its own uuid in the table. -/
theorem write_or_bound {s : Server} {io : DbIo} {addr : SocketAddr} {rk : RegisterPk}
    (h : Bound s.pm) (hok : io.writeOk = true) (htell : ReadTells s io addr rk)
    (hst : Stores X s io addr rk) :
    WriteGoesThrough s.pm io rk.id (s.pm.getOr X.toInfoJson io rk.id).2
      ∨ ∃ r, s.pm.db.row rk.id = some r ∧ r.uuid = rk.uuid := by
  obtain ⟨hreach, ⟨b, hch⟩, _⟩ := hst
  have hsame := rkChanged_some hch
  rcases origin_backed (X := X) bound_loadable h
    (PeerMap.getOr_origin X.toInfoJson s.pm io rk.id) with ⟨hne, r, hr, hb⟩ | ⟨_, hm, hread⟩
  · exact .inr ⟨r, hr, hb.uuid.trans (hsame.resolve_left hne).1⟩
  · obtain ⟨hhidden, hfresh⟩ := htell hreach hm
    cases hr : s.pm.db.row rk.id with
    | none => exact .inl ⟨hok, fun _ => ⟨hr, hfresh hr⟩⟩
    | some r =>
        cases hrd : io.readOk with
        | true => rw [hread hrd] at hr; cases hr
        | false => exact .inr ⟨r, rfl, hhidden hrd r hr⟩

/-- One `RegisterPk`: memory stays backed, rows keep their uuid, and a row that is new or
changed carries the key of the message. -/
theorem bound_registerPk {s : Server} {io : DbIo} {addr : SocketAddr} {rk : RegisterPk}
    (h : Bound s.pm) (hok : io.writeOk = true) (htell : ReadTells s io addr rk) :
    Bound (handleRegisterPk X s io addr rk).1.pm
      ∧ (∀ id r, s.pm.db.row id = some r →
          ∃ r', (handleRegisterPk X s io addr rk).1.pm.db.row id = some r' ∧ r'.uuid = r.uuid)
      ∧ ∀ id r', (handleRegisterPk X s io addr rk).1.pm.db.row id = some r' →
          s.pm.db.row id = some r' ∨ (id = rk.id ∧ r'.pk = rk.pk ∧ Stores X s io addr rk) := by
  have hend := registerPk_end (X := X) bound_loadable io addr rk h
  generalize (handleRegisterPk X s io addr rk).1.pm = pm' at hend ⊢
  cases hend with
  | kept _ hdb hback =>
      rw [hdb]
      exact ⟨hback, fun id r hr => ⟨r, hr, rfl⟩, fun id r' hr' => .inl hr'⟩
  | @wrote pm' r hst _ hr hru hrk _ hsame hother hback =>
      refine ⟨hback, ?_, ?_⟩
      · intro id r₀ hr₀
        by_cases hid : id = rk.id
        · subst hid; exact ⟨r, hr, hru.trans (hsame r₀ hr₀).symm⟩
        · exact ⟨r₀, (hother id hid).trans hr₀, rfl⟩
      · intro id r' hr'
        by_cases hid : id = rk.id
        · subst hid
          obtain rfl : r = r' := Option.some.inj (hr.symm.trans hr')
          exact .inr ⟨rfl, hrk, hst⟩
        · exact .inl ((hother id hid).symm.trans hr')
  | lost hst hno hwu _ _ hwg =>
      obtain ⟨r, hr, hru⟩ := (write_or_bound h hok htell hst).resolve_left hno
      refine ⟨backed_lost bound_loadable h hr (hru.trans hwu.symm) hwg trivial, ?_, ?_⟩
      · exact fun id r hr => ⟨r, hr, rfl⟩
      · exact fun id r' hr' => .inl hr'

theorem bindingInv_registerPk {h : List (Occ Server Event Out)} {s s' : Server} {io : Io}
    {addr : SocketAddr} {rk : RegisterPk} {out : Out} (hi : BindingInv h s)
    (hst : hbbs X key cfg s (.udp io addr (some (.registerPk rk))) = some (s', out))
    (hok : io.writeOk = true) (htell : ReadTells s io.toDbIo addr rk) :
    BindingInv (h ++ [⟨s, .udp io addr (some (.registerPk rk)), out, s'⟩]) s' := by
  let o : Occ Server Event Out := ⟨s, .udp io addr (some (.registerPk rk)), out, s'⟩
  have hlaw := registrationLaw_step (o := o) hst rfl
  have hpost : s'.pm = (handleRegisterPk X s io.toDbIo addr rk).1.pm := by
    rw [(hbbs_udp.mp hst).1, (handleUdp_registerPk ..).1]
  obtain ⟨hbound, hkept, hnew⟩ := bound_registerPk (X := X) hi.bound hok htell
  rw [← hpost] at hbound hkept hnew
  have hlast : o ∈ h ++ [o] := List.mem_append_right h (List.mem_singleton_self o)
  refine ⟨hbound, ?_, ?_, ?_⟩
  · intro x hx io' addr' rk' hans
    rcases List.mem_append.mp hx with hx | hx
    · obtain ⟨r, hr, hru⟩ := hi.row x hx io' addr' rk' hans
      obtain ⟨r', hr', hru'⟩ := hkept rk'.id r hr
      exact ⟨r', hr', hru'.trans hru⟩
    · obtain rfl : x = o := List.mem_singleton.mp hx
      obtain ⟨rfl, rfl, hmsg⟩ := Event.udp.inj hans.1
      obtain rfl := RendezvousMessage.registerPk.inj (Option.some.inj hmsg)
      -- the record says what the message said, and it is backed
      obtain ⟨p', hp', hu, _, _⟩ := hlaw.afterOk hans
      obtain ⟨_, r, hr, hb⟩ := hbound.recs _ p' hp'
      exact ⟨r, hr, hb.uuid.trans hu⟩
  · intro id p' hp' hpk
    by_cases hid : id = rk.id
    · subst hid
      by_cases hans : Answered o io addr rk .OK
      · obtain ⟨q, hq, _, hqk, _⟩ := hlaw.afterOk hans
        obtain rfl : q = p' := Option.some.inj (hq.symm.trans hp')
        exact ⟨o, hlast, io, addr, rk, hans, rfl, hqk.symm⟩
      · cases hm : s.pm.map rk.id with
        | some p =>
            obtain ⟨q, hq, hsame⟩ := hlaw.onlyOk hans p hm
            obtain rfl : q = p' := Option.some.inj (hq.symm.trans hp')
            rw [hsame.pk] at hpk ⊢
            exact (hi.recPk _ p hm hpk).mono
        | none =>
            obtain ⟨v, hv, rfl⟩ := hlaw.loaded hans hm p' hp'
            exact (hi.rowPk _ v hv).mono
    · rw [hlaw.frame id hid] at hp'
      exact (hi.recPk id p' hp' hpk).mono
  · intro id r' hr'
    rcases hnew id r' hr' with hr | ⟨rfl, hrk, hstores⟩
    · exact (hi.rowPk id r' hr).mono
    · exact ⟨o, hlast, io, addr, rk, (answered_iff hst).mpr ⟨rfl, stores_ok hstores⟩, rfl, hrk.symm⟩

/-! ## Over runs -/

/-- What is signed was accepted. -/
theorem signed_accepted {h : List (Occ Server Event Out)} {s : Server} {io : DbIo}
    {version id : String} {m : IdPk} (hi : BindingInv h s)
    (hsig : signedIdPk X s io version id = some m) (hpk : m.pk ≠ []) : Accepted h id m.pk := by
  unfold signedIdPk at hsig
  split at hsig
  · cases hsig
  · obtain ⟨p, hp, rfl⟩ := Option.map_eq_some_iff.mp hsig
    rcases (PeerMap.get_some hp).2 with hm | ⟨v, _, _, hv, rfl⟩
    · exact hi.recPk id p hm hpk
    · exact hi.rowPk id v hv

/-- The invariant holds in every state of the run, with the history up to there. -/
theorem bindingInv_run {s : Server} {h : List (Occ Server Event Out)}
    (hr : Run (hbbs X key cfg) (Server.start cfg .empty) h s) (hw : WritesFailOnClash h)
    (htell : ∀ o ∈ h, ∀ io addr rk, o.ev = .udp io addr (some (.registerPk rk)) →
      ReadTells o.pre io.toDbIo addr rk) : BindingInv h s := by
  refine Run.inv_of (C := fun s e => ∀ io addr rk, e = .udp io addr (some (.registerPk rk)) →
    io.writeOk = true ∧ ReadTells s io.toDbIo addr rk) bindingInv_start ?_ hr
    fun o ho io addr rk hev => ⟨hw o ho io addr _ hev, htell o ho io addr rk hev⟩
  intro h s e s' out hi hc hst
  by_cases hev : ∃ io addr rk, e = .udp io addr (some (.registerPk rk))
  · obtain ⟨io, addr, rk, rfl⟩ := hev
    obtain ⟨hok, ht⟩ := hc io addr rk rfl
    exact bindingInv_registerPk hi hst hok ht
  · simp only [not_exists] at hev
    exact bindingInv_other hi hst hev

/--
**Identity binding**, over every run from an empty table in which no failed read hides the
row of another uuid: any messages in any order, any restarts, any other failed reads.
-/
theorem identity_bound {s : Server} {h : List (Occ Server Event Out)}
    (hr : Run (hbbs X key cfg) (Server.start cfg .empty) h s) (hw : WritesFailOnClash h)
    (htell : ∀ o ∈ h, ∀ io addr rk, o.ev = .udp io addr (some (.registerPk rk)) →
      ReadTells o.pre io.toDbIo addr rk) : IdentityBound X h s := by
  have hi := bindingInv_run hr hw htell
  -- two accepted uuids for one id name the same row
  have huuid : ∀ o ∈ h, ∀ io addr rk, Answered o io addr rk .OK → ∀ o' ∈ h, ∀ io' addr' rk',
      Answered o' io' addr' rk' .OK → rk'.id = rk.id → rk'.uuid = rk.uuid := by
    intro o ho io addr rk hans o' ho' io' addr' rk' hans' hid
    obtain ⟨r, hrow, hru⟩ := hi.row o ho io addr rk hans
    obtain ⟨r', hrow', hru'⟩ := hi.row o' ho' io' addr' rk' hans'
    rw [hid, hrow] at hrow'
    obtain rfl := Option.some.inj hrow'
    exact hru'.symm.trans hru
  refine fun o ho io addr rk hans => ⟨huuid o ho io addr rk hans, ?_⟩
  intro t ht dbio version m hsig hpk
  have hacc : Accepted h rk.id m.pk := by
    rcases ht with rfl | ⟨x, hx, rfl⟩
    · exact signed_accepted hi hsig hpk
    · obtain ⟨h₁, h₂, rfl, hr₁, _, _⟩ := hr.mem hx
      have hi₁ := bindingInv_run hr₁ (fun o ho => hw o (List.mem_append_left _ ho))
        fun o ho => htell o (List.mem_append_left _ ho)
      exact (signed_accepted hi₁ hsig hpk).mono
  obtain ⟨o', ho', io', addr', rk', hans', hid, hk⟩ := hacc
  exact ⟨o', ho', io', addr', rk', hans'.1, hid, hk,
    huuid o ho io addr rk hans o' ho' _ _ _ hans' hid⟩

/-- The server comes up again. The peer registers another key, and somebody else with its id. -/
def restartEvents : List Event :=
  [.udp (.sample 0 1) .unspecified (some (.registerPk ⟨"peer-1", [1], [2]⟩)), .restart,
    .udp (.sample (ofSecs 1) 2) .unspecified (some (.registerPk ⟨"peer-1", [1], [3]⟩)),
    .udp (.sample (ofSecs 2) 3) .unspecified (some (.registerPk ⟨"peer-1", [5], [6]⟩))]

/-- The id is in memory, or the read succeeds and finds its row, or no row has the guid. -/
def tells (o : Occ Server Event Out) : Bool :=
  match o.ev with
  | .udp io _ (some (.registerPk rk)) =>
    (o.pre.pm.map rk.id).isSome || io.readOk
      && ((o.pre.pm.db.row rk.id).isSome || o.pre.pm.db.rows.all fun r => r.guid ≠ io.guid.val)
  | _ => true

theorem readTells_of_tells {o : Occ Server Event Out} {io : Io} {addr : SocketAddr}
    {rk : RegisterPk} (h : tells o = true) (hev : o.ev = .udp io addr (some (.registerPk rk))) :
    ReadTells o.pre io.toDbIo addr rk := by
  simp only [tells, hev, Bool.and_eq_true, Bool.or_eq_true, List.all_eq_true,
    decide_eq_true_eq] at h
  intro _ hnone
  rcases h with hmemory | ⟨hread, hrow⟩
  · rw [hnone] at hmemory
    cases hmemory
  · refine ⟨fun hfail => ?_, fun hm => ?_⟩
    · rw [hread] at hfail
      cases hfail
    · rw [hm] at hrow
      exact hrow.resolve_left (by simp)

theorem identity_bound_restart :
    ∃ h s, Run (hbbs Ext.sample "" Config.sample) (.start .sample .empty) h s
      ∧ h.map Occ.ev = restartEvents
      ∧ (h.flatMap fun o => o.out.sent.map Prod.fst)
        = [.registerPkResponse .OK, .registerPkResponse .OK, .registerPkResponse .UUID_MISMATCH]
      ∧ IdentityBound Ext.sample h s := by
  obtain ⟨h, s, hr, hev, hp⟩ := @exists_run _ _ _ (hbbs Ext.sample "" .sample)
    (.start .sample .empty) restartEvents
    (fun h _ => h.all tells && decide ((h.flatMap fun o => o.out.sent.map Prod.fst)
      = [.registerPkResponse .OK, .registerPkResponse .OK, .registerPkResponse .UUID_MISMATCH]))
    (by decide +kernel)
  obtain ⟨htells, hsent⟩ := Bool.and_eq_true_iff.mp hp
  refine ⟨h, s, hr, hev, of_decide_eq_true hsent, identity_bound hr ?_ ?_⟩
  · intro o ho io addr msg hevo
    have hmem : o.ev ∈ restartEvents := hev ▸ List.mem_map_of_mem ho
    rw [hevo] at hmem
    simp only [restartEvents, List.mem_cons, List.not_mem_nil, or_false, Event.udp.injEq,
      reduceCtorEq, false_or] at hmem
    rcases hmem with ⟨rfl, _⟩ | ⟨rfl, _⟩ | ⟨rfl, _⟩ <;> rfl
  · intro o ho io addr rk hevo
    exact readTells_of_tells (List.all_eq_true.mp htells o ho) hevo

/-- `get_peer` fails. -/
def Io.blind (now : Instant) (n : UInt8) : Io := { Io.sample now n with readOk := false }

/-- **An id taken over**: after a restart, with one failed read, a second uuid is accepted. -/
theorem identity_taken_over :
    ¬ ∀ h s, Run (hbbs Ext.sample "" Config.sample) (.start .sample .empty) h s →
      WritesFailOnClash h → IdentityBound Ext.sample h s := by
  intro hall
  have hr : Run (hbbs Ext.sample "" Config.sample) (.start .sample .empty)
      ([] ++ [⟨_, _, _, _⟩] ++ [⟨_, _, _, _⟩] ++ [⟨_, _, _, _⟩]) _ :=
    Run.snoc (Run.snoc (Run.snoc Run.nil (e := .udp (.sample 0 1) .unspecified
      (some (.registerPk ⟨"peer-1", [1], [2]⟩))) rfl) (e := .restart) rfl)
      (e := .udp (Io.blind 9 2) .unspecified (some (.registerPk ⟨"peer-1", [5], [6]⟩))) rfl
  have hbound := hall _ _ hr (by
    intro o ho io addr msg hev
    rcases List.mem_cons.mp ho with rfl | ho
    · obtain ⟨rfl, _⟩ := Event.udp.inj hev; rfl
    · rcases List.mem_pair.mp ho with rfl | rfl
      · cases hev
      · obtain ⟨rfl, _⟩ := Event.udp.inj hev; rfl)
  have hfirst := hbound _ List.mem_cons_self (.sample 0 1) .unspecified
    ⟨"peer-1", [1], [2]⟩ ⟨rfl, _, rfl, by decide⟩
  have hsecond := hfirst.1 _ (List.mem_append_right _ (List.mem_singleton_self _))
    (Io.blind 9 2) .unspecified ⟨"peer-1", [5], [6]⟩ ⟨rfl, _, rfl, by decide⟩ rfl
  exact absurd hsecond (by decide)

end KinBridge.Proof
