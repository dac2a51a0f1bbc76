import KinBridge.Proof.Registration

/-!
# Records backed by rows

The invariant that ties the peer map to the peer table: every record in memory has a
row with its uuid, and if the record remembers a guid it is that row's. What else a
record and its row have in common is the parameter `Q`, since identity binding and
durability need different things of it.

Everything but an accepted `RegisterPk` keeps such an invariant for free. For that one,
`updatePk_ends` says what the write does to the table.
-/

namespace KinBridge.Proof

open KinBridge Runs Slots

variable {X : Ext} {key : String} {cfg : Config} {Q : Peer → Row → Prop}

/-- What a record owes to the row under its id. -/
structure BackedBy (Q : Peer → Row → Prop) (p : Peer) (r : Row) : Prop where
  uuid : r.uuid = p.uuid
  guid : p.guid = [] ∨ p.guid = r.guid
  rel : Q p r

/-- Every record has its row, and rows are as `insert_peer` makes them. -/
structure Backed (Q : Peer → Row → Prop) (pm : PeerMap) : Prop where
  rows : ∀ id r, pm.db.row id = some r → r.uuid ≠ [] ∧ r.guid ≠ []
  recs : ∀ id p, pm.map id = some p →
    p.uuid ≠ [] ∧ ∃ r, pm.db.row id = some r ∧ BackedBy Q p r

/-- `Q` looks at key and info only, and holds of a record just loaded or just written. -/
structure Loadable (X : Ext) (Q : Peer → Row → Prop) : Prop where
  load : ∀ now r, Q (Peer.ofRow X.toInfoJson now r) r
  keep : ∀ p p' r, p'.pk = p.pk → p'.info = p.info → Q p r → Q p' r
  wrote : ∀ p r, r.pk = p.pk → r.info = X.toStr p.info → Q p r

theorem backed_start : Backed Q (Server.start cfg .empty).pm :=
  ⟨fun _ _ h => (by cases h), fun _ _ h => (by cases h)⟩

/-- A record that keeps uuid, guid, key and info is backed as before. -/
theorem BackedBy.keep (hq : Loadable X Q) {p p' : Peer} {r : Row} (h : BackedBy Q p r)
    (hu : p'.uuid = p.uuid) (hg : p'.guid = p.guid) (hk : p'.pk = p.pk) (hi : p'.info = p.info) :
    BackedBy Q p' r :=
  ⟨h.uuid.trans hu.symm, by rw [hg]; exact h.guid, hq.keep p p' r hk hi h.rel⟩

/-- Placing one backed record, over a table that otherwise looks the same. -/
theorem Backed.put {pm : PeerMap} {db' : Table} {id : String} {p : Peer} {r : Row}
    (h : Backed Q pm) (hother : ∀ id' ≠ id, db'.row id' = pm.db.row id')
    (hr : db'.row id = some r) (hne : r.uuid ≠ [] ∧ r.guid ≠ []) (hp : BackedBy Q p r) :
    Backed Q ⟨put pm.map id p, db'⟩ := by
  constructor
  · intro id' r' hr'
    by_cases hid : id' = id
    · subst hid
      obtain rfl : r = r' := Option.some.inj (hr.symm.trans hr')
      exact hne
    · exact h.rows id' r' ((hother id' hid).symm.trans hr')
  · intro id' p' hp'
    rcases put_eq_some.mp hp' with ⟨rfl, rfl⟩ | ⟨hid, hp'⟩
    · exact ⟨hp.uuid ▸ hne.1, r, hr, hp⟩
    · obtain ⟨hu, r', hr', hb⟩ := h.recs id' p' hp'
      exact ⟨hu, r', (hother id' hid).trans hr', hb⟩

/-! ## Lookups, heartbeats, restarts -/

theorem backedBy_ofRow (hq : Loadable X Q) (now : Instant) (v : Row) :
    BackedBy Q (Peer.ofRow X.toInfoJson now v) v :=
  ⟨rfl, .inr rfl, hq.load now v⟩

theorem backed_looked (hq : Loadable X Q) {io : DbIo} {pm pm' : PeerMap} (h : Backed Q pm)
    (hl : Looked X io pm pm') : Backed Q pm' := by
  rcases hl with rfl | ⟨id, rfl⟩
  · exact h
  · rcases PeerMap.get_cases pm io id with ⟨p, hp⟩ | ⟨hm, hr, v, hv⟩ | ⟨hm, hr⟩
    · rw [PeerMap.get_of_memory hp]; exact h
    · rw [PeerMap.get_of_row hm hr hv]
      exact h.put (fun _ _ => rfl) hv (h.rows id v hv) (backedBy_ofRow hq io.now v)
    · rw [PeerMap.get_of_none hm hr]; exact h

theorem backed_updateAddr (hq : Loadable X Q) {pm : PeerMap} {now : Instant} {id : String}
    {addr : SocketAddr} (h : Backed Q pm) : Backed Q (updateAddr pm now id addr).1 := by
  rcases updateAddr_cases pm now id addr with heq | ⟨old, hold, heq⟩ <;> rw [heq]
  · exact h
  · obtain ⟨_, r, hr, hb⟩ := h.recs id old hold
    exact h.put (fun _ _ => rfl) hr (h.rows id r hr) (hb.keep hq rfl rfl rfl rfl)

theorem backed_restart {pm : PeerMap} (h : Backed Q pm) : Backed Q ⟨fun _ => none, pm.db⟩ :=
  ⟨h.rows, fun _ _ hp => (by cases hp)⟩

/-! ## `RegisterPk` -/

section

variable {pm pm' : PeerMap} {io : DbIo} {id : String} {peer w : Peer} {res : RkResult}

/-- The record that `get_or` hands out is backed, or blank. -/
theorem origin_backed (hq : Loadable X Q) (h : Backed Q pm)
    (horig : PeerMap.Origin X.toInfoJson pm io id peer) :
    (peer.uuid ≠ [] ∧ ∃ r, pm.db.row id = some r ∧ BackedBy Q peer r) ∨
      (peer = Peer.default io.now ∧ pm.map id = none
        ∧ (io.readOk = true → pm.db.row id = none)) := by
  cases horig with
  | memory hp => exact .inl (h.recs id peer hp)
  | @row v _ _ hv => exact .inl ⟨(h.rows id v hv).1, v, hv, backedBy_ofRow hq io.now v⟩
  | blank hm hr => exact .inr ⟨rfl, hm, hr⟩

/-- The write of `update_pk` goes through: the statement does not fail by itself, and an
insert meets neither the id nor its guid in the table. -/
def WriteGoesThrough (pm : PeerMap) (io : DbIo) (id : String) (peer : Peer) : Prop :=
  io.writeOk = true ∧
    (peer.guid = [] → pm.db.row id = none ∧ ∀ r ∈ pm.db.rows, r.guid ≠ io.guid.val)

/-- **Both ends of `update_pk`.** Either the write goes through and the row says what the
record says, or it does not and only memory has changed. -/
theorem updatePk_ends (hq : Loadable X Q) (h : Backed Q pm)
    (horig : PeerMap.Origin X.toInfoJson pm io id peer)
    (hupd : PeerMap.UpdatePk X.toInfoJson pm io id w (pm', res)) (hg : w.guid = peer.guid)
    (hu : peer.uuid = [] ∨ peer.uuid = w.uuid) :
    (WriteGoesThrough pm io id peer ∧ ∃ r, pm'.db.row id = some r ∧ r.uuid = w.uuid
        ∧ r.pk = w.pk ∧ r.info = X.toStr w.info ∧ r.guid ≠ []
        ∧ pm'.map = put pm.map id { w with guid := r.guid }
        ∧ ∀ id' ≠ id, pm'.db.row id' = pm.db.row id') ∨
      (¬ WriteGoesThrough pm io id peer ∧ pm' = ⟨put pm.map id w, pm.db⟩) := by
  have hback := origin_backed hq h horig
  -- a record with a guid is backed, and the guid is its row's
  have hrow : peer.guid ≠ [] → ∃ r, pm.db.row id = some r ∧ r.uuid = w.uuid ∧ w.guid = r.guid := by
    intro hne
    rcases hback with ⟨hpu, r, hr, hb⟩ | ⟨rfl, _, _⟩
    · exact ⟨r, hr, hb.uuid.trans (hu.resolve_left hpu), hg.trans (hb.guid.resolve_left hne)⟩
    · exact absurd rfl hne
  cases hupd with
  | failed hins hupd =>
      refine .inr ⟨fun ⟨hok, hfree⟩ => ?_, rfl⟩
      by_cases hpg : peer.guid = []
      · have hnone := DbIo.write_eq_none.mp (hins (hg.trans hpg)) hok
        have hsome : (pm.db.insertPeer io.guid id w.uuid w.pk (X.toStr w.info)).isSome :=
          Table.insertPeer_isSome.mpr (hfree hpg)
        rw [hnone] at hsome
        cases hsome
      · obtain ⟨r, hr, _, hwg⟩ := hrow hpg
        have hnone := DbIo.write_eq_none.mp (hupd (by rw [hg]; exact hpg)) hok
        have hsome : (pm.db.updatePk w.guid id w.pk (X.toStr w.info)).isSome := by
          rw [hwg]; exact Table.updatePk_isSome hr
        rw [hnone] at hsome
        cases hsome
  | @inserted db hwg hw =>
      obtain ⟨hok, hins⟩ := DbIo.write_eq_some.mp hw
      obtain ⟨hr, hother⟩ := Table.row_insertPeer hins
      refine .inl ⟨⟨hok, fun _ => Table.insertPeer_isSome.mp (by rw [hins]; rfl)⟩,
        _, hr, rfl, rfl, rfl, ?_, rfl, hother⟩
      exact List.ne_nil_of_length_pos (by rw [io.guid.property]; decide)
  | @updated db hwg hw =>
      obtain ⟨hok, hset⟩ := DbIo.write_eq_some.mp hw
      have hpg : peer.guid ≠ [] := hg ▸ hwg
      obtain ⟨r, hr, hru, hrg⟩ := hrow hpg
      rw [hrg] at hset
      obtain ⟨hr', hother⟩ := Table.row_updatePk hr hset
      refine .inl ⟨⟨hok, fun he => absurd he hpg⟩, _, hr', hru, rfl, rfl, (h.rows id r hr).2,
        ?_, hother⟩
      dsimp only
      rw [← hrg]

end

/-- The message reaches `update_pk`: it passes every check and the record does not yet say
what it says. -/
def Stores (X : Ext) (s : Server) (io : DbIo) (addr : SocketAddr) (rk : RegisterPk) : Prop :=
  let peer := (s.pm.getOr X.toInfoJson io rk.id).2
  ReachesRecord s io.now addr rk
    ∧ (∃ b, rkChanged peer rk addr.ip.toString = some (true, b))
    ∧ (rkLimit peer.regPk io.now).isSome

/-- A message that reaches `update_pk` is answered `OK`, whatever `update_pk` says. -/
theorem stores_ok {s : Server} {io : DbIo} {addr : SocketAddr} {rk : RegisterPk}
    (h : Stores X s io addr rk) : (handleRegisterPk X s io addr rk).2 = some .OK := by
  obtain ⟨hreach, ⟨b, hch⟩, hlim⟩ := h
  have hcase := handleRegisterPk_cases X s io addr rk
  generalize (handleRegisterPk X s io addr rk).1.pm = pm' at hcase
  generalize (handleRegisterPk X s io addr rk).2 = r at hcase ⊢
  cases hcase with
  | silent hno => exact absurd hreach hno
  | turnedAway hno => exact absurd hreach hno
  | refused _ _ hcheck =>
      rcases hcheck with hc | hc
      · rw [hc] at hch; cases hch
      · rw [hc] at hlim; cases hlim
  | unchanged => rfl
  | stored => rfl

/-- The three ends of a `RegisterPk` as the table sees them. -/
inductive RkEnd (Q : Peer → Row → Prop) (X : Ext) (s : Server) (io : DbIo) (addr : SocketAddr)
    (rk : RegisterPk) : PeerMap → Prop where
  /-- No write was tried. -/
  | kept {pm' : PeerMap} : ¬ Stores X s io addr rk → pm'.db = s.pm.db → Backed Q pm' →
      RkEnd Q X s io addr rk pm'
  /-- The row now says what the message said; a row that was there had its uuid already. -/
  | wrote {pm' : PeerMap} {r : Row} : Stores X s io addr rk →
      WriteGoesThrough s.pm io rk.id (s.pm.getOr X.toInfoJson io rk.id).2 →
      pm'.db.row rk.id = some r → r.uuid = rk.uuid → r.pk = rk.pk →
      r.info = X.toStr ⟨addr.ip.toString⟩ →
      (∀ r₀, s.pm.db.row rk.id = some r₀ → r₀.uuid = rk.uuid) →
      (∀ id ≠ rk.id, pm'.db.row id = s.pm.db.row id) → Backed Q pm' →
      RkEnd Q X s io addr rk pm'
  /-- The write failed, and the record has run ahead of the table. -/
  | lost {w : Peer} : Stores X s io addr rk →
      ¬ WriteGoesThrough s.pm io rk.id (s.pm.getOr X.toInfoJson io rk.id).2 →
      w.uuid = rk.uuid → w.pk = rk.pk → w.info = ⟨addr.ip.toString⟩ →
      w.guid = (s.pm.getOr X.toInfoJson io rk.id).2.guid →
      RkEnd Q X s io addr rk ⟨put s.pm.map rk.id w, s.pm.db⟩

theorem registerPk_end (hq : Loadable X Q) {s : Server} (io : DbIo) (addr : SocketAddr)
    (rk : RegisterPk) (h : Backed Q s.pm) :
    RkEnd Q X s io addr rk (handleRegisterPk X s io addr rk).1.pm := by
  have hcase := handleRegisterPk_cases X s io addr rk
  have horig := PeerMap.getOr_origin X.toInfoJson s.pm io rk.id
  have hback := origin_backed hq h horig
  -- a record that was refused or found unchanged is not blank, so it is backed
  have hkept : ∀ p : Peer, (s.pm.getOr X.toInfoJson io rk.id).2 ≠ Peer.default io.now →
      p.uuid = (s.pm.getOr X.toInfoJson io rk.id).2.uuid →
      p.guid = (s.pm.getOr X.toInfoJson io rk.id).2.guid →
      p.pk = (s.pm.getOr X.toInfoJson io rk.id).2.pk →
      p.info = (s.pm.getOr X.toInfoJson io rk.id).2.info →
      Backed Q ⟨put s.pm.map rk.id p, s.pm.db⟩ := by
    intro p hnb hu hg hk hi
    obtain ⟨_, r, hr, hb⟩ := hback.resolve_right fun hc => hnb hc.1
    exact h.put (fun _ _ => rfl) hr (h.rows _ _ hr) (hb.keep hq hu hg hk hi)
  generalize (handleRegisterPk X s io addr rk).1.pm = pm' at hcase ⊢
  generalize (handleRegisterPk X s io addr rk).2 = res at hcase
  cases hcase with
  | silent hno => exact .kept (fun hst => hno hst.1) rfl h
  | turnedAway hno => exact .kept (fun hst => hno hst.1) rfl h
  | refused hreach _ hcheck =>
      refine .kept ?_ rfl (hkept _ ?_ rfl rfl rfl rfl)
      · intro hst
        obtain ⟨_, ⟨b, hch⟩, hlim⟩ := hst
        rcases hcheck with hc | hc
        · rw [hc] at hch; cases hch
        · rw [hc] at hlim; cases hlim
      · intro hb
        rw [hb] at hcheck
        exact refused_not_blank hcheck
  | unchanged hreach hch _ =>
      refine .kept ?_ rfl (hkept _ ?_ rfl rfl rfl rfl)
      · intro hst
        obtain ⟨_, ⟨b, hch'⟩, _⟩ := hst
        rw [hch] at hch'
        cases hch'
      · intro hb
        rw [hb] at hch
        exact (rkChanged_false hch).1 rfl
  | @stored reqPk b _ _ hreach hch hlim hupd =>
      have hst : Stores X s io addr rk := ⟨hreach, ⟨b, hch⟩, by rw [hlim]; rfl⟩
      have hu := (rkChanged_some hch).imp_right And.left
      rcases updatePk_ends hq h horig hupd rfl hu with
        ⟨hgo, r, hr, hru, hrk, hri, hrg, hmap, hother⟩ | ⟨hno, rfl⟩
      · refine .wrote hst hgo hr hru hrk hri ?_ hother ?_
        · intro r₀ hr₀
          rcases hback with ⟨hpu, r₁, hr₁, hb⟩ | ⟨hb, _, _⟩
          · obtain rfl : r₀ = r₁ := Option.some.inj (hr₀.symm.trans hr₁)
            exact hb.uuid.trans (hu.resolve_left hpu)
          · have hnone := (hgo.2 (by rw [hb]; rfl)).1
            rw [hr₀] at hnone
            cases hnone
        · have hne : r.uuid ≠ [] ∧ r.guid ≠ [] := ⟨by rw [hru]; exact hreach.1, hrg⟩
          obtain ⟨map', db'⟩ := pm'
          dsimp only at hmap
          rw [hmap]
          exact h.put hother hr hne ⟨hru, .inr rfl, hq.wrote _ _ hrk hri⟩
      · exact .lost hst hno rfl rfl rfl rfl

/-- A record that ran ahead is still backed if the row already said as much. -/
theorem backed_lost (hq : Loadable X Q) {s : Server} {io : DbIo} {rk : RegisterPk} {w : Peer}
    {r : Row} (h : Backed Q s.pm) (hr : s.pm.db.row rk.id = some r) (hru : r.uuid = w.uuid)
    (hg : w.guid = (s.pm.getOr X.toInfoJson io rk.id).2.guid) (hrel : Q w r) :
    Backed Q ⟨put s.pm.map rk.id w, s.pm.db⟩ := by
  refine h.put (fun _ _ => rfl) hr (h.rows _ _ hr) ⟨hru, ?_, hrel⟩
  rcases origin_backed hq h (PeerMap.getOr_origin X.toInfoJson s.pm io rk.id) with
    ⟨_, r', hr', hb⟩ | ⟨hb, _, _⟩
  · obtain rfl : r = r' := Option.some.inj (hr.symm.trans hr')
    rw [hg]; exact hb.guid
  · left; rw [hg, hb]; rfl

/-- Nothing but a `RegisterPk` writes to the table. -/
theorem db_other {s : Server} {e : Event} {pm' : PeerMap} (hst : PmStep X s e pm')
    (hne : ∀ io addr rk, e ≠ .udp io addr (some (.registerPk rk))) : pm'.db = s.pm.db := by
  cases hst with
  | registerPk => exact absurd rfl (hne _ _ _)
  | registerPeer => rcases updateAddr_cases .. with heq | ⟨_, _, heq⟩ <;> rw [heq]
  | @looked _ io _ _ hl =>
      rcases hl with rfl | ⟨id, rfl⟩
      · rfl
      · cases hget : (s.pm.get X.toInfoJson io.toDbIo id).2 with
        | none => rw [(PeerMap.get_none hget).1]
        | some p => rw [(PeerMap.get_some hget).1]
  | restart => rfl

/-- Everything but a `RegisterPk` keeps the invariant and every row. -/
theorem backed_other (hq : Loadable X Q) {s : Server} {e : Event} {pm' : PeerMap}
    (h : Backed Q s.pm) (hst : PmStep X s e pm')
    (hne : ∀ io addr rk, e ≠ .udp io addr (some (.registerPk rk))) :
    Backed Q pm' ∧ pm'.db = s.pm.db := by
  refine ⟨?_, db_other hst hne⟩
  cases hst with
  | registerPk => exact absurd rfl (hne _ _ _)
  | registerPeer => exact backed_updateAddr hq h
  | looked _ hl => exact backed_looked hq h hl
  | restart => exact backed_restart h

end KinBridge.Proof
