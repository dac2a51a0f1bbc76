import KinBridge.Lib.Refine
import KinBridge.Proof.Registry

/-!
# Restarts cannot be seen

A restart loses every record and keeps the table. Registration does not notice: over any
sequence of `RegisterPk` messages, with restarts anywhere in between, the answers and the
keys that `get_pk` looks up are those of the run without restarts.

Both runs refine the registry of `KinBridge.Proof.Registry`, for which a restart is no step
at all. Where the process starts does not matter either, as long as its table comes from a
run: `wellMade_run` says what such a table is like.
-/

namespace KinBridge.Proof

open KinBridge Runs Slots

variable {X : Ext} {key : String} {cfg : Config}

/-! ## The table a run leaves -/

/-- Rows are as `insert_peer` makes them. -/
def WellMade (db : Table) : Prop := ∀ r ∈ db.rows, r.uuid ≠ [] ∧ r.guid ≠ []

theorem wellMade_updatePk {J : InfoJson} {pm pm' : PeerMap} {io : DbIo} {id : String} {w : Peer}
    {res : RkResult} (h : WellMade pm.db) (hu : w.uuid ≠ [])
    (hupd : PeerMap.UpdatePk J pm io id w (pm', res)) : WellMade pm'.db := by
  cases hupd with
  | failed => exact h
  | inserted _ hw =>
      obtain ⟨_, hins⟩ := DbIo.write_eq_some.mp hw
      unfold Table.insertPeer at hins
      split at hins
      · obtain rfl := Option.some.inj hins
        intro r hr
        rcases List.mem_cons.mp hr with rfl | hr
        · exact ⟨hu, List.ne_nil_of_length_pos (by rw [io.guid.property]; decide)⟩
        · exact h r hr
      · cases hins
  | updated _ hw =>
      obtain ⟨_, hset⟩ := DbIo.write_eq_some.mp hw
      intro r hr
      dsimp only at hr
      rw [Table.rows_updatePk hset] at hr
      obtain ⟨r₀, hr₀, rfl⟩ := List.mem_map.mp hr
      rw [Row.setPk_guid, Row.setPk_uuid]
      exact h r₀ hr₀

theorem wellMade_registerPk {s : Server} {io : DbIo} {addr : SocketAddr} {rk : RegisterPk}
    (h : WellMade s.pm.db) : WellMade (handleRegisterPk X s io addr rk).1.pm.db := by
  have hcase := handleRegisterPk_cases X s io addr rk
  generalize (handleRegisterPk X s io addr rk).1.pm = pm' at hcase ⊢
  generalize (handleRegisterPk X s io addr rk).2 = res at hcase
  cases hcase with
  | silent => exact h
  | turnedAway => exact h
  | refused => exact h
  | unchanged => exact h
  | stored hreach _ _ hupd => exact wellMade_updatePk h hreach.1 hupd

theorem wellMade_step {s s' : Server} {e : Event} {o : Out} (h : WellMade s.pm.db)
    (hst : hbbs X key cfg s e = some (s', o)) : WellMade s'.pm.db := by
  by_cases hev : ∃ io addr rk, e = .udp io addr (some (.registerPk rk))
  · obtain ⟨io, addr, rk, rfl⟩ := hev
    rw [(hbbs_udp.mp hst).1, (handleUdp_registerPk ..).1]
    exact wellMade_registerPk h
  · simp only [not_exists] at hev
    rw [db_other (hbbs_pm hst) hev]
    exact h

/-- Any run from an empty table, whatever fails in it. -/
theorem wellMade_run {h : List (Occ Server Event Out)} {s : Server}
    (hr : Run (hbbs X key cfg) (.start cfg .empty) h s) : WellMade s.pm.db := by
  refine hr.keeps (Q := fun s => WellMade s.pm.db) ?_ ?_
  · intro s e s' o hw hst
    exact wellMade_step hw hst
  · intro r hr
    exact absurd hr List.not_mem_nil

/-! ## Messages and restarts -/

/-- The `RegisterPk` message of an event. -/
def registerPkOf : Event → Option (SocketAddr × RegisterPk)
  | .udp _ addr (some (.registerPk rk)) => some (addr, rk)
  | _ => none

/-- A restart, or a `RegisterPk` during which no database call fails and no limiter refuses. -/
def Undisturbed (X : Ext) (s : Server) : Event → Prop
  | .restart => True
  | .udp io addr (some (.registerPk rk)) => DbHolds s io.toDbIo rk.id
      ∧ (handleRegisterPk X s io.toDbIo addr rk).2 ≠ some .TOO_FREQUENT
  | _ => False

/-- The registry's answer as a message to the sender. -/
def Registry.reply (reg : Registry) (m : SocketAddr × RegisterPk) :
    Registry × List (RendezvousMessage × SocketAddr) :=
  let (reg, r) := reg.register m.2 m.1.ip.toString
  (reg, (r.map fun r => (.registerPkResponse r, m.1)).toList)

/-- The server stands for this registry. -/
def Stands (X : Ext) (s : Server) (reg : Registry) : Prop :=
  Tracks X s.pm ∧ registryOf X s.pm.db = reg

/-- The key that `get_pk` looks up. -/
def usedPk (X : Ext) (s : Server) (io : DbIo) (id : String) : Option Bytes :=
  (s.pm.get X.toInfoJson io id).2.map Peer.pk

/-- The same key for every id, whenever the lookups go through. -/
def SameKeys (X : Ext) (s s' : Server) : Prop :=
  ∀ id (io io' : DbIo), io.readOk = true → io'.readOk = true →
    usedPk X s io id = usedPk X s' io' id

theorem stands_start {db : Table} (h : WellMade db) :
    Stands X (.start cfg db) (registryOf X db) := by
  refine ⟨⟨⟨?_, fun _ _ hp => by cases hp⟩, fun _ _ hp => by cases hp⟩, rfl⟩
  intro id r hr
  exact h r (Table.row_eq_some.mp hr).1

/-- Nothing is sent but the answer. -/
theorem registerPk_sent (s : Server) (io : Io) (addr : SocketAddr) (rk : RegisterPk) :
    (Out.udp (handleUdp X key s io addr (some (.registerPk rk))).2).sent
      = ((handleRegisterPk X s io.toDbIo addr rk).2.map
          fun r => (.registerPkResponse r, addr)).toList := by
  rw [← (@handleUdp_registerPk X key s io addr rk).2]
  unfold Out.sent handleUdp
  dsimp only
  split <;> exact List.append_nil _

/-- `hbbs` refines the registry, and restarts are silent. -/
theorem hbbs_refines (hjson : ∀ i, X.fromStr (X.toStr i) = some i) :
    Refines (hbbs X key cfg) (Undisturbed X) Registry.reply registerPkOf Out.sent (Stands X) where
  silent := by
    intro s e s' o reg hstands hu hst hl
    obtain ⟨htracks, hreg⟩ := hstands
    unfold Undisturbed at hu
    split at hu
    · -- a restart: the records go, the table stays
      obtain ⟨rfl, _⟩ := Prod.mk.inj (Option.some.inj hst)
      exact ⟨⟨backed_restart htracks.backed, fun _ _ hp => by cases hp⟩, hreg⟩
    · cases hl
    · exact hu.elim
  answered := by
    intro s e s' o reg m hstands hu hst hl
    obtain ⟨htracks, rfl⟩ := hstands
    unfold Undisturbed at hu
    split at hu
    · cases hl
    · rename_i io addr rk
      obtain rfl := Option.some.inj hl
      obtain ⟨hdb, hlim⟩ := hu
      have hq := sameKeyInfo_loadable hjson
      obtain ⟨hpost, _⟩ := @handleUdp_registerPk X key s io addr rk
      obtain ⟨rfl, rfl⟩ := hbbs_udp.mp hst
      have hstep := register_refines hq htracks hdb hlim
      unfold Stands Registry.reply
      rw [hpost]
      dsimp only
      rw [hstep]
      exact ⟨⟨tracks_registerPk hq htracks hdb, rfl⟩, registerPk_sent s io addr rk⟩
    · exact hu.elim

/-- What `get_pk` looks up is what is registered. -/
theorem usedPk_registry (hjson : ∀ i, X.fromStr (X.toStr i) = some i) {s : Server} {io : DbIo}
    {id : String} {reg : Registry} (h : Stands X s reg) (hread : io.readOk = true) :
    usedPk X s io id = (reg id).map Entry.pk := by
  obtain ⟨htracks, rfl⟩ := h
  have hq := sameKeyInfo_loadable hjson
  have hrow : ∀ p, PeerMap.Origin X.toInfoJson s.pm io id p → p.uuid ≠ [] →
      (registryOf X s.pm.db id).map Entry.pk = some p.pk := by
    intro p horig hu
    rw [← origin_entry hq htracks.backed hread horig, entryOf, if_neg hu]
    rfl
  unfold usedPk
  rcases PeerMap.get_cases s.pm io id with ⟨p, hp⟩ | ⟨hm, hr, v, hv⟩ | ⟨hm, hr⟩
  · rw [PeerMap.get_of_memory hp, hrow p (.memory hp) (htracks.backed.recs id p hp).1]
    rfl
  · rw [PeerMap.get_of_row hm hr hv, hrow _ (.row hm hr hv) (htracks.backed.rows id v hv).1]
    rfl
  · rw [PeerMap.get_of_none hm hr, registryOf, hr hread]
    rfl

/-- Servers that stand for one registry use the same keys. -/
theorem usedPk_eq (hjson : ∀ i, X.fromStr (X.toStr i) = some i) {s s' : Server} {reg : Registry}
    (h : Stands X s reg) (h' : Stands X s' reg) : SameKeys X s s' := by
  intro id io io' hread hread'
  rw [usedPk_registry hjson h hread, usedPk_registry hjson h' hread']

/-! ## Two runs -/

theorem heard_eq_self {h : List (Occ Server Event Out)} (hnone : ∀ o ∈ h, o.ev ≠ .restart)
    (hu : ∀ o ∈ h, Undisturbed X o.pre o.ev) : heard registerPkOf h = h := by
  refine List.filter_eq_self.mpr ?_
  intro o ho
  have hstep := hu o ho
  unfold Undisturbed at hstep
  split at hstep
  · rename_i hev
    exact absurd hev (hnone o ho)
  · rename_i hev
    rw [hev]
    rfl
  · exact hstep.elim

/--
**Restarts cannot be seen by registrations**: over the table that any run has left, a run of
`RegisterPk` messages and one with restarts in between that gets the same messages give the
same answers and the same keys, if no database call fails and no limiter refuses. The restarts
themselves change no key.
-/
theorem restart_transparent (hjson : ∀ i, X.fromStr (X.toStr i) = some i)
    {h₀ h h' : List (Occ Server Event Out)} {s₀ s s' : Server}
    (hr₀ : Run (hbbs X key cfg) (.start cfg .empty) h₀ s₀)
    (hr : Run (hbbs X key cfg) (.start cfg s₀.pm.db) h s)
    (hr' : Run (hbbs X key cfg) (.start cfg s₀.pm.db) h' s')
    (hnone : ∀ o ∈ h, o.ev ≠ .restart) (hu : ∀ o ∈ h, Undisturbed X o.pre o.ev)
    (hu' : ∀ o ∈ h', Undisturbed X o.pre o.ev)
    (hmsg : messages registerPkOf h = messages registerPkOf h') :
    List.Forall₂ (fun o o' => o.out.sent = o'.out.sent ∧ SameKeys X o.post o'.post)
        h (heard registerPkOf h')
      ∧ ∀ o ∈ h', o.ev = .restart → SameKeys X o.pre o.post := by
  have hf := @hbbs_refines X key cfg hjson
  have hstart := @stands_start X cfg _ (wellMade_run hr₀)
  constructor
  · have hall := hf.same hstart hstart hr hr' hu hu' hmsg
    rw [heard_eq_self hnone hu] at hall
    refine hall.imp ?_
    intro o o' hboth
    obtain ⟨hsent, reg, hstands, hstands'⟩ := hboth
    exact ⟨hsent, usedPk_eq hjson hstands hstands'⟩
  · intro o ho hev
    obtain ⟨h₁, h₂, rfl, hpre, hst, _⟩ := hr'.mem ho
    obtain ⟨hstands, _⟩ := hf.run hstart hpre fun x hx => hu' x (List.mem_append_left _ hx)
    exact usedPk_eq hjson hstands (hf.silent _ _ _ _ _ hstands (hu' o ho) hst (by rw [hev]; rfl))

/-- A peer registers and then changes its key, with and without a restart in between. -/
theorem restart_transparent_once : ∃ h h' s s',
    Run (hbbs Ext.sample "" Config.sample) (.start .sample .empty) h s
      ∧ Run (hbbs Ext.sample "" Config.sample) (.start .sample .empty) h' s'
      ∧ h.length = 2 ∧ h'.length = 3
      ∧ List.Forall₂ (fun o o' => o.out.sent = o'.out.sent ∧ SameKeys Ext.sample o.post o'.post)
          h (heard registerPkOf h') := by
  let first : Event := .udp (.sample 0 1) .unspecified (some (.registerPk ⟨"peer-1", [1], [2]⟩))
  let second : Event :=
    .udp (.sample (ofSecs 1) 2) .unspecified (some (.registerPk ⟨"peer-1", [1], [3]⟩))
  have hone : Run (hbbs Ext.sample "" Config.sample) (.start .sample .empty) [⟨_, first, _, _⟩] _ :=
    Run.snoc Run.nil rfl
  have hr : Run (hbbs Ext.sample "" Config.sample) (.start .sample .empty)
      ([⟨_, first, _, _⟩] ++ [⟨_, second, _, _⟩]) _ := Run.snoc hone rfl
  have hr' : Run (hbbs Ext.sample "" Config.sample) (.start .sample .empty)
      ([⟨_, first, _, _⟩] ++ [⟨_, .restart, _, _⟩] ++ [⟨_, second, _, _⟩]) _ :=
    Run.snoc (Run.snoc hone rfl) rfl
  refine ⟨_, _, _, _, hr, hr', rfl, rfl, ?_⟩
  refine (restart_transparent sample_json Run.nil hr hr' ?_ ?_ ?_ rfl).1
  · intro o ho
    simp only [List.cons_append, List.nil_append, List.mem_cons, List.not_mem_nil, or_false] at ho
    rcases ho with rfl | rfl <;> exact fun hev => by cases hev
  · intro o ho
    simp only [List.cons_append, List.nil_append, List.mem_cons, List.not_mem_nil, or_false] at ho
    rcases ho with rfl | rfl
    · exact ⟨by decide, by decide⟩
    · exact ⟨by decide, by decide⟩
  · intro o ho
    simp only [List.cons_append, List.nil_append, List.mem_cons, List.not_mem_nil, or_false] at ho
    rcases ho with rfl | rfl | rfl
    · exact ⟨by decide, by decide⟩
    · trivial
    · exact ⟨by decide, by decide⟩

end KinBridge.Proof
