import KinBridge.Proof.Durable

/-!
# What registration is for

`hbbs` is a registry: the first `RegisterPk` for an id fixes its uuid, and later ones with
that uuid may move key or address, one at a time. The registry has no memory, no limiter and
no database to fail.

As long as no database call fails and no limiter refuses, `handleRegisterPk` is that
registry, read off the peer table. What is in memory makes no difference, because it agrees
with the table and remembers its guids, so that the right one of the two statements runs.
-/

namespace KinBridge.Proof

open KinBridge Slots

variable {X : Ext}

/-- One registered peer. -/
structure Entry where
  uuid : Bytes
  pk : Bytes
  ip : String
deriving DecidableEq, Repr

abbrev Registry := String → Option Entry

/-- The message fits what is registered under its id, if anything is. -/
def Admits (e : Option Entry) (rk : RegisterPk) (ip : String) : Prop :=
  ∀ x ∈ e, x.uuid = rk.uuid ∧ (x.ip = ip ∨ x.pk = rk.pk)

instance (e : Option Entry) (rk : RegisterPk) (ip : String) : Decidable (Admits e rk ip) :=
  match e with
  | none => isTrue (by intro x hx; cases hx)
  | some x => decidable_of_iff (x.uuid = rk.uuid ∧ (x.ip = ip ∨ x.pk = rk.pk)) (by simp [Admits])

/-- One message from this host, and its answer. -/
def Registry.register (reg : Registry) (rk : RegisterPk) (ip : String) :
    Registry × Option RkResult :=
  if rk.uuid = [] ∨ rk.pk = [] then (reg, none)
  else if rk.id.utf8ByteSize < 6 then (reg, some .UUID_MISMATCH)
  else if Admits (reg rk.id) rk ip then (put reg rk.id ⟨rk.uuid, rk.pk, ip⟩, some .OK)
  else (reg, some .UUID_MISMATCH)

/-- The peer table as a registry. -/
def registryOf (X : Ext) (db : Table) : Registry :=
  fun id => (db.row id).map fun r => ⟨r.uuid, r.pk, (X.info r.info).ip⟩

/-- A record as an entry; a blank one is none. -/
def entryOf (p : Peer) : Option Entry :=
  if p.uuid = [] then none else some ⟨p.uuid, p.pk, p.info.ip⟩

/-- No database call of this message fails: the read, the write, and the index on `guid` if a
guid is drawn. -/
def DbHolds (s : Server) (io : DbIo) (id : String) : Prop :=
  io.readOk = true ∧ io.writeOk = true
    ∧ (s.pm.db.row id = none → ∀ r ∈ s.pm.db.rows, r.guid ≠ io.guid.val)

instance (s : Server) (io : DbIo) (id : String) : Decidable (DbHolds s io id) :=
  inferInstanceAs (Decidable (_ ∧ _))

/-- Records agree with their rows and remember their guids. -/
structure Tracks (X : Ext) (pm : PeerMap) : Prop where
  backed : Backed (SameKeyInfo X) pm
  guids : ∀ id p, pm.map id = some p → p.guid ≠ []

/-! ## The record that is worked on -/

section

variable {s : Server} {io : DbIo} {addr : SocketAddr} {rk : RegisterPk} {peer : Peer}

/-- It is what the table has, wherever it comes from. -/
theorem origin_entry (hq : Loadable X (SameKeyInfo X)) {pm : PeerMap} {id : String}
    (h : Backed (SameKeyInfo X) pm) (hread : io.readOk = true)
    (horig : PeerMap.Origin X.toInfoJson pm io id peer) : entryOf peer = registryOf X pm.db id := by
  unfold entryOf registryOf
  rcases origin_backed hq h horig with ⟨hu, r, hr, hb⟩ | ⟨rfl, _, hnone⟩
  · rw [if_neg hu, hr, ← hb.uuid, ← hb.rel.1, ← hb.rel.2]
    rfl
  · have hblank : (Peer.default io.now).uuid = [] := rfl
    rw [if_pos hblank, hnone hread]
    rfl

/-- It remembers its guid, or there is no row. -/
theorem origin_guid {pm : PeerMap} {id : String} (h : Tracks X pm) (hread : io.readOk = true)
    (horig : PeerMap.Origin X.toInfoJson pm io id peer) :
    peer.guid ≠ [] ∨ (peer = Peer.default io.now ∧ pm.db.row id = none) := by
  cases horig with
  | memory hp => exact .inl (h.guids id peer hp)
  | @row v _ _ hv => exact .inl (h.backed.rows id v hv).2
  | blank _ hr => exact .inr ⟨rfl, hr hread⟩

theorem rkChanged_admits {ip : String} :
    (rkChanged peer rk ip).isSome ↔ Admits (entryOf peer) rk ip := by
  unfold rkChanged entryOf Admits
  by_cases hu : peer.uuid = []
  · simp [hu]
  · rw [if_neg hu, if_neg hu]
    by_cases he : peer.uuid = rk.uuid
    · rw [if_pos he]
      by_cases hi : peer.info.ip = ip
      · simp [he, hi]
      · by_cases hk : peer.pk = rk.pk
        · simp [he, hi, hk]
        · simp [hi, hk]
    · simp [he]

end

/-! ## One message -/

section

variable {s : Server} {io : DbIo} {addr : SocketAddr} {rk : RegisterPk}

/-- Without a limiter's refusal the answer is up to the message and the record. -/
theorem handleRegisterPk_answer (h : (handleRegisterPk X s io addr rk).2 ≠ some .TOO_FREQUENT) :
    (handleRegisterPk X s io addr rk).2 =
      if rk.uuid = [] ∨ rk.pk = [] then none
      else if rk.id.utf8ByteSize < 6 then some .UUID_MISMATCH
      else if (rkChanged (s.pm.getOr X.toInfoJson io rk.id).2 rk addr.ip.toString).isSome then
        some .OK
      else some .UUID_MISMATCH := by
  unfold handleRegisterPk at h ⊢
  split
  · rfl
  · rename_i hne
    rw [if_neg hne] at h
    dsimp only at h ⊢
    split
    · rfl
    · rename_i hlen
      rw [if_neg hlen] at h
      split
      · -- `check_ip_blocker` refuses
        rename_i blocker hb
        rw [hb] at h
        exact absurd rfl h
      · rename_i blocker hb
        rw [hb] at h
        dsimp only at h
        split
        · rename_i hch
          rw [hch]
          rfl
        · rename_i changed ipChanged hch
          rw [hch] at h ⊢
          dsimp only at h
          split
          · -- `reg_pk` refuses
            rename_i hlim
            rw [hlim] at h
            exact absurd rfl h
          · rfl

/-- With the database at hand, every write goes through. -/
theorem writeGoesThrough (h : Tracks X s.pm) (hdb : DbHolds s io rk.id) :
    WriteGoesThrough s.pm io rk.id (s.pm.getOr X.toInfoJson io rk.id).2 := by
  obtain ⟨hread, hwrite, hfresh⟩ := hdb
  refine ⟨hwrite, ?_⟩
  intro hg
  rcases origin_guid h hread (PeerMap.getOr_origin X.toInfoJson s.pm io rk.id) with hne | ⟨_, hrow⟩
  · exact absurd hg hne
  · exact ⟨hrow, hfresh hrow⟩

theorem tracks_registerPk (hq : Loadable X (SameKeyInfo X)) (h : Tracks X s.pm)
    (hdb : DbHolds s io rk.id) : Tracks X (handleRegisterPk X s io addr rk).1.pm := by
  have hgo := writeGoesThrough h hdb
  refine ⟨(durable_registerPk hq io addr rk h.backed).2 fun _ => .inl hgo, ?_⟩
  have hcase := handleRegisterPk_cases X s io addr rk
  have horig := PeerMap.getOr_origin X.toInfoJson s.pm io rk.id
  have hguid := origin_guid h hdb.1 horig
  -- putting a record that remembers its guid
  have hput : ∀ p : Peer, p.guid ≠ [] →
      ∀ id q, put s.pm.map rk.id p id = some q → q.guid ≠ [] := by
    intro p hp id q hq
    rcases put_eq_some.mp hq with ⟨_, rfl⟩ | ⟨_, hq⟩
    · exact hp
    · exact h.guids id q hq
  generalize (handleRegisterPk X s io addr rk).1.pm = pm' at hcase ⊢
  generalize (handleRegisterPk X s io addr rk).2 = res at hcase
  generalize (s.pm.getOr X.toInfoJson io rk.id).2 = peer at hcase horig hguid hgo
  cases hcase with
  | silent => exact h.guids
  | turnedAway => exact h.guids
  | refused _ _ hcheck =>
      refine hput peer (hguid.resolve_right fun hblank => ?_)
      rw [hblank.1] at hcheck
      exact refused_not_blank hcheck
  | unchanged _ hch _ =>
      refine hput _ (hguid.resolve_right fun hblank => ?_)
      rw [hblank.1] at hch
      exact (rkChanged_false hch).1 rfl
  | stored _ hch _ hupd =>
      have hu := (rkChanged_some hch).imp_right And.left
      rcases updatePk_ends hq h.backed horig hupd rfl hu with
        ⟨_, r, _, _, _, _, hrg, hmap, _⟩ | ⟨hno, _⟩
      · rw [hmap]
        exact hput _ hrg
      · exact absurd hgo hno

/-- A message that stores is one the registry accepts. -/
theorem register_of_stores {reg : Registry} {s : Server} (hst : Stores X s io addr rk)
    (hentry : entryOf (s.pm.getOr X.toInfoJson io rk.id).2 = reg rk.id) :
    reg.register rk addr.ip.toString
      = (put reg rk.id ⟨rk.uuid, rk.pk, addr.ip.toString⟩, some .OK) := by
  obtain ⟨⟨hu, hk, hlen, _⟩, ⟨b, hch⟩, _⟩ := hst
  have hadm : Admits (reg rk.id) rk addr.ip.toString := by
    rw [← hentry, ← rkChanged_admits, hch]
    rfl
  unfold Registry.register
  rw [if_neg (by simp [hu, hk]), if_neg (Nat.not_lt.mpr hlen), if_pos hadm]

/-- A table that says what the message says is a registry that took it. -/
theorem registryOf_durable {db : Table} (h : Durable X db rk addr) :
    registryOf X db rk.id = some ⟨rk.uuid, rk.pk, addr.ip.toString⟩ := by
  obtain ⟨r, hr, hu, hk, hi⟩ := h
  unfold registryOf
  rw [hr, Option.map_some, hu, hk, hi]

/-- **One `RegisterPk` is one step of the registry**, if no database call fails and no limiter
refuses. -/
theorem register_refines (hq : Loadable X (SameKeyInfo X)) (h : Tracks X s.pm)
    (hdb : DbHolds s io rk.id) (hlim : (handleRegisterPk X s io addr rk).2 ≠ some .TOO_FREQUENT) :
    (registryOf X s.pm.db).register rk addr.ip.toString
      = (registryOf X (handleRegisterPk X s io addr rk).1.pm.db,
        (handleRegisterPk X s io addr rk).2) := by
  have horig := PeerMap.getOr_origin X.toInfoJson s.pm io rk.id
  have hentry := origin_entry hq h.backed hdb.1 horig
  have hans := handleRegisterPk_answer hlim
  have hlaw := registrationLaw_of_outcome horig (handleRegisterPk_cases X s io addr rk)
  have hend := registerPk_end hq io addr rk h.backed
  have hok := @stores_ok X s io addr rk
  generalize (handleRegisterPk X s io addr rk).1.pm = pm' at hlaw hend ⊢
  generalize (handleRegisterPk X s io addr rk).2 = res at hans hlaw hok ⊢
  cases hend with
  | kept _ hsame hback =>
      -- the table has not changed: the message was refused, or says what is there already
      rw [hsame]
      unfold Registry.register
      rw [← hentry, hans]
      split
      · rfl
      · split
        · rfl
        · split
          · rename_i hempty hlen hadm
            have hsome := rkChanged_admits.mpr hadm
            rw [if_neg hempty, if_neg hlen, if_pos hsome] at hans
            obtain ⟨p, hp, hu, hk, hi⟩ := hlaw.afterOk hans
            have hdur := durable_of_record hback hp hu hk hi
            rw [hsame] at hdur
            rw [put_of_some (registryOf_durable hdur), if_pos hsome]
          · rename_i hadm
            rw [if_neg fun hsome => hadm (rkChanged_admits.mp hsome)]
  | wrote hst _ _ _ _ _ _ hother hback =>
      -- the row of this id says what the message says, and the others are as before
      rw [register_of_stores hst hentry, hok hst]
      obtain ⟨p, hp, hu, hk, hi⟩ := hlaw.afterOk (hok hst)
      refine congrArg (·, some RkResult.OK) (funext fun id => ?_)
      by_cases hid : id = rk.id
      · subst hid
        rw [put_self, registryOf_durable (durable_of_record hback hp hu hk hi)]
      · rw [put_ne hid]
        unfold registryOf
        rw [hother id hid]
  | lost _ hno => exact absurd (writeGoesThrough h hdb) hno

end

end KinBridge.Proof
