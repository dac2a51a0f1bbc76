import KinBridge.Proof.Backed

/-!
# Acknowledged registrations and the table

An answer of `OK` should mean that the row is there. `update_pk` writes memory first and
reports a failed write to a handler that drops the report, so `OK` also follows a write
that never happened, and every later copy of the same message finds memory "unchanged"
and is answered `OK` again.

`acknowledged_durable_iff` says that this is the only way to lose a registration: over a
whole run, every `OK` is durable exactly if every write goes through.
-/

namespace KinBridge.Proof

open KinBridge Runs Slots

variable {X : Ext} {key : String} {cfg : Config}

/-- The table holds what the message said. -/
def Durable (X : Ext) (db : Table) (rk : RegisterPk) (addr : SocketAddr) : Prop :=
  ∃ r, db.row rk.id = some r ∧ r.uuid = rk.uuid ∧ r.pk = rk.pk
    ∧ (X.info r.info).ip = addr.ip.toString

/-- Every `RegisterPk` of the run answered `OK` is in the table right after. -/
def AcknowledgedDurable (X : Ext) (h : List (Occ Server Event Out)) : Prop :=
  ∀ o ∈ h, ∀ io addr rk, Answered o io addr rk .OK → Durable X o.post.pm.db rk addr

/-- The row is invisible to this step, since the read failed and nothing is in memory, but
it already says what the message says. -/
def Unseen (X : Ext) (s : Server) (io : DbIo) (addr : SocketAddr) (rk : RegisterPk) : Prop :=
  s.pm.map rk.id = none ∧ io.readOk = false ∧ Durable X s.pm.db rk addr

/-- A message that reaches `update_pk` gets its row written, or would only have written
what is there. -/
def WriteHappens (X : Ext) (s : Server) (io : DbIo) (addr : SocketAddr) (rk : RegisterPk) :
    Prop :=
  Stores X s io addr rk →
    WriteGoesThrough s.pm io rk.id (s.pm.getOr X.toInfoJson io rk.id).2 ∨ Unseen X s io addr rk

/-- Every write of the run goes through. -/
def WritesHappen (X : Ext) (h : List (Occ Server Event Out)) : Prop :=
  ∀ o ∈ h, ∀ io addr rk, o.ev = .udp io addr (some (.registerPk rk)) →
    WriteHappens X o.pre io.toDbIo addr rk

/-- Record and row agree on key and info. -/
def SameKeyInfo (X : Ext) (p : Peer) (r : Row) : Prop :=
  r.pk = p.pk ∧ X.info r.info = p.info

theorem sameKeyInfo_loadable (hjson : ∀ i, X.fromStr (X.toStr i) = some i) :
    Loadable X (SameKeyInfo X) where
  load _ _ := ⟨rfl, rfl⟩
  keep p p' r hk hi h := ⟨h.1.trans hk.symm, h.2.trans hi.symm⟩
  wrote p r hk hi := ⟨hk, by rw [hi, InfoJson.info, hjson, Option.getD_some]⟩

/-! ## One message -/

/-- A backed record that says what the message says makes the registration durable. -/
theorem durable_of_record {pm : PeerMap} {rk : RegisterPk} {addr : SocketAddr} {p : Peer}
    (h : Backed (SameKeyInfo X) pm) (hp : pm.map rk.id = some p) (hu : p.uuid = rk.uuid)
    (hk : p.pk = rk.pk) (hi : p.info.ip = addr.ip.toString) : Durable X pm.db rk addr := by
  obtain ⟨_, r, hr, hb⟩ := h.recs rk.id p hp
  exact ⟨r, hr, hb.uuid.trans hu, hb.rel.1.trans hk, by rw [hb.rel.2, hi]⟩

/-- If the row already says what a storing message says, the record that was worked on
cannot have come from that row. -/
theorem unseen_of_stores (hq : Loadable X (SameKeyInfo X)) {s : Server} {io : DbIo}
    {addr : SocketAddr} {rk : RegisterPk} (h : Backed (SameKeyInfo X) s.pm)
    (hst : Stores X s io addr rk) (hd : Durable X s.pm.db rk addr) : Unseen X s io addr rk := by
  obtain ⟨_, ⟨b, hch⟩, _⟩ := hst
  obtain ⟨r, hr, hru, hrk, hri⟩ := id hd
  rcases origin_backed hq h (PeerMap.getOr_origin X.toInfoJson s.pm io rk.id) with
    ⟨hne, r', hr', hb⟩ | ⟨_, hm, hread⟩
  · obtain rfl : r = r' := Option.some.inj (hr.symm.trans hr')
    rcases rkChanged_true hch with hu | ⟨_, hk | hi⟩
    · exact absurd hu hne
    · exact absurd (hb.rel.1.symm.trans hrk) hk
    · refine absurd ?_ hi
      rw [← hb.rel.2, hri]
  · refine ⟨hm, ?_, hd⟩
    cases hrd : io.readOk with
    | false => rfl
    | true => rw [hread hrd] at hr; cases hr

/-- **One `RegisterPk`**: from a backed state, `OK` is durable exactly if the write happens,
and then the state is backed again. -/
theorem durable_registerPk (hq : Loadable X (SameKeyInfo X)) {s : Server} (io : DbIo)
    (addr : SocketAddr) (rk : RegisterPk) (h : Backed (SameKeyInfo X) s.pm) :
    (((handleRegisterPk X s io addr rk).2 = some .OK →
        Durable X (handleRegisterPk X s io addr rk).1.pm.db rk addr)
      ↔ WriteHappens X s io addr rk)
    ∧ (WriteHappens X s io addr rk →
        Backed (SameKeyInfo X) (handleRegisterPk X s io addr rk).1.pm) := by
  have hend := registerPk_end hq io addr rk h
  have hlaw := registrationLaw_of_outcome (PeerMap.getOr_origin X.toInfoJson s.pm io rk.id)
    (handleRegisterPk_cases X s io addr rk)
  have hok := @stores_ok X s io addr rk
  generalize (handleRegisterPk X s io addr rk).1.pm = pm' at hend hlaw ⊢
  generalize (handleRegisterPk X s io addr rk).2 = res at hlaw hok ⊢
  cases hend with
  | kept hno hdb hback =>
      refine ⟨iff_of_true ?_ fun hst => absurd hst hno, fun _ => hback⟩
      intro hres
      obtain ⟨p, hp, hu, hk, hi⟩ := hlaw.afterOk hres
      exact durable_of_record hback hp hu hk hi
  | wrote hst hgo hr hru hrk hri _ _ hback =>
      refine ⟨iff_of_true ?_ fun _ => .inl hgo, fun _ => hback⟩
      intro hres
      obtain ⟨p, hp, hu, hk, hi⟩ := hlaw.afterOk hres
      exact durable_of_record hback hp hu hk hi
  | @lost w hst hno hwu hwk hwi hwg =>
      refine ⟨⟨fun hd _ => .inr (unseen_of_stores hq h hst (hd (hok hst))), ?_⟩, ?_⟩
      · intro hw _
        exact ((hw hst).resolve_left hno).2.2
      · intro hw
        obtain ⟨_, _, r, hr, hru, hrk, hri⟩ := (hw hst).resolve_left hno
        refine backed_lost hq h hr (hru.trans hwu.symm) hwg ⟨hrk.trans hwk.symm, ?_⟩
        rw [hwi, ← hri]

/-! ## Over runs -/

/-- The same for every step of the machine. -/
theorem durable_step (hq : Loadable X (SameKeyInfo X)) {o : Occ Server Event Out}
    (hst : hbbs X key cfg o.pre o.ev = some (o.post, o.out))
    (h : Backed (SameKeyInfo X) o.pre.pm) :
    (AcknowledgedDurable X [o] ↔ WritesHappen X [o])
      ∧ (WritesHappen X [o] → Backed (SameKeyInfo X) o.post.pm) := by
  unfold AcknowledgedDurable WritesHappen
  simp only [List.forall_mem_singleton]
  by_cases hev : ∃ io addr rk, o.ev = .udp io addr (some (.registerPk rk))
  · obtain ⟨io, addr, rk, hev⟩ := hev
    have hpost : o.post.pm = (handleRegisterPk X o.pre io.toDbIo addr rk).1.pm := by
      rw [hev] at hst
      rw [(hbbs_udp.mp hst).1, (handleUdp_registerPk ..).1]
    obtain ⟨hiff, hback⟩ := durable_registerPk hq io.toDbIo addr rk h
    rw [hpost]
    refine ⟨⟨?_, ?_⟩,
      fun hw => hback (hw io addr rk hev)⟩
    · intro hd io' addr' rk' hev'
      obtain ⟨rfl, rfl, hmsg⟩ := Event.udp.inj (hev.symm.trans hev')
      obtain rfl := RendezvousMessage.registerPk.inj (Option.some.inj hmsg)
      exact hiff.mp fun hres => hd io addr rk ((answered_iff hst).mpr ⟨hev, hres⟩)
    · intro hw io' addr' rk' hans
      obtain ⟨hev', hres⟩ := (answered_iff hst).mp hans
      obtain ⟨rfl, rfl, hmsg⟩ := Event.udp.inj (hev.symm.trans hev')
      obtain rfl := RendezvousMessage.registerPk.inj (Option.some.inj hmsg)
      exact hiff.mpr (hw io addr rk hev) hres
  · simp only [not_exists] at hev
    obtain ⟨hback, _⟩ := backed_other hq h (hbbs_pm hst) hev
    exact ⟨iff_of_true (fun io addr rk hans => absurd hans.1 (hev io addr rk))
      fun io addr rk he => absurd he (hev io addr rk), fun _ => hback⟩

/--
**Acknowledged registrations are durable exactly if every write goes through**, over any
run from an empty table: any messages in any order, any pattern of failing reads and
writes, any restarts.
-/
theorem acknowledged_durable_iff (hjson : ∀ i, X.fromStr (X.toStr i) = some i) {s : Server}
    {h : List (Occ Server Event Out)}
    (hr : Run (hbbs X key cfg) (Server.start cfg .empty) h s) :
    AcknowledgedDurable X h ↔ WritesHappen X h := by
  have hq := sameKeyInfo_loadable hjson
  refine (Run.inv (I := fun h s => (AcknowledgedDurable X h ↔ WritesHappen X h)
    ∧ (WritesHappen X h → Backed (SameKeyInfo X) s.pm)) ?_ ?_ hr).1
  · exact ⟨iff_of_true (fun o ho => absurd ho List.not_mem_nil)
      fun o ho => absurd ho List.not_mem_nil, fun _ => backed_start⟩
  · intro h s e s' o ih hst
    -- a run is durable, or written, if its first part and its last step are
    have hd : AcknowledgedDurable X (h ++ [⟨s, e, o, s'⟩])
        ↔ AcknowledgedDurable X h ∧ AcknowledgedDurable X [⟨s, e, o, s'⟩] :=
      List.forall_mem_append
    have hw : WritesHappen X (h ++ [⟨s, e, o, s'⟩])
        ↔ WritesHappen X h ∧ WritesHappen X [⟨s, e, o, s'⟩] := List.forall_mem_append
    have hone : WritesHappen X h → _ := fun hws =>
      durable_step (o := ⟨s, e, o, s'⟩) hq hst (ih.2 hws)
    rw [hd, hw, ih.1]
    exact ⟨and_congr_right fun hws => (hone hws).1, fun hws => (hone hws.1).2 hws.2⟩

/-- One message whose write goes through. -/
theorem acknowledged_durable_one :
    ∃ h s, Run (hbbs Ext.sample "" Config.sample) (.start .sample .empty) h s
      ∧ h.map Occ.ev = [.udp (.sample 0 1) .unspecified (some (.registerPk ⟨"peer-1", [1], [2]⟩))]
      ∧ AcknowledgedDurable Ext.sample h := by
  have hr : Run (hbbs Ext.sample "" Config.sample) (.start .sample .empty) [⟨_, _, _, _⟩] _ :=
    Run.snoc Run.nil (e := .udp (.sample 0 1) .unspecified
      (some (.registerPk ⟨"peer-1", [1], [2]⟩))) rfl
  refine ⟨_, _, hr, rfl, (acknowledged_durable_iff sample_json hr).mpr ?_⟩
  intro o ho io addr rk hev hst
  rw [List.mem_singleton.mp ho] at hev ⊢
  obtain ⟨rfl, rfl, hmsg⟩ := Event.udp.inj hev
  obtain rfl := RendezvousMessage.registerPk.inj (Option.some.inj hmsg)
  exact .inl ⟨rfl, fun _ => ⟨rfl, fun r hr => absurd hr List.not_mem_nil⟩⟩

/-- The write statement fails. -/
def Io.failing (now : Instant) (n : UInt8) : Io := { Io.sample now n with writeOk := false }

/-- **An `OK` with no row behind it**: the write fails and the answer is the same. -/
theorem acknowledged_not_durable :
    ¬ ∀ h s, Run (hbbs Ext.sample "" Config.sample) (.start .sample .empty) h s →
      AcknowledgedDurable Ext.sample h := by
  intro hall
  have hr : Run (hbbs Ext.sample "" Config.sample) (.start .sample .empty) [⟨_, _, _, _⟩] _ :=
    Run.snoc Run.nil (e := .udp (Io.failing 0 1) .unspecified
      (some (.registerPk ⟨"peer-1", [1], [2]⟩))) rfl
  obtain ⟨r, hrow, _⟩ := hall _ _ hr _ (List.mem_singleton_self _) (Io.failing 0 1) .unspecified
    ⟨"peer-1", [1], [2]⟩ ⟨rfl, _, rfl, by decide⟩
  exact absurd (Option.isSome_of_eq_some hrow) (by decide)

end KinBridge.Proof
