import KinBridge.Hbbs.Server

/-!
# Registration

The two messages by which a peer makes itself known. `RegisterPk` brings the key: it
passes the blocker, the identity checks and the per-peer limiter, each under a lock of
its own, and only then writes. `RegisterPeer` is the heartbeat: it moves the address of
a record that already has a key, or asks for the key.
-/

namespace KinBridge

open Slots

/-! ## The IP blocker -/

/-- `check_ip_blocker`: the rate part, then the distinct-id part. An entry is written in place. -/
def checkIpBlocker (blocker : HashMap String IpBlockEntry) (now : Instant) (ip id : String) :
    HashMap String IpBlockEntry × Bool :=
  match blocker.lookup ip with
  | none => (blocker.insert ip ⟨(0, now), (∅, now)⟩, true)
  | some old =>
    let stale := asSecs (elapsed now old.counter.2) > IP_BLOCK_DUR
    if ¬ stale ∧ old.counter.1 > 30 then (blocker, false)
    else
      let counter := (if stale then 1 else old.counter.1 + 1, now)
      -- newness is read before the day window is cleared
      let isNew : Bool := id ∉ old.ids.1
      let insertIfNew (s : Finset String) := if isNew then insert id s else s
      if asSecs (elapsed now old.ids.2) > DAY_SECONDS then
        (blocker.replace ip ⟨counter, (insertIfNew ∅, now)⟩, true)
      else if old.ids.1.card > 300 then (blocker.replace ip ⟨counter, old.ids⟩, !isNew)
      else (blocker.replace ip ⟨counter, (insertIfNew old.ids.1, now)⟩, true)

/-! ## `RegisterPk` -/

/-- The block under the record's read lock: `(changed, ip_changed)`, or `none` where the
handler answers `UUID_MISMATCH`. -/
def rkChanged (peer : Peer) (rk : RegisterPk) (ip : String) : Option (Bool × Bool) :=
  if peer.uuid = [] then some (true, false)
  else if peer.uuid = rk.uuid then
    if peer.info.ip ≠ ip ∧ peer.pk ≠ rk.pk then none
    else
      let ipChanged : Bool := peer.info.ip ≠ ip
      some (peer.uuid ≠ rk.uuid || peer.pk ≠ rk.pk || ipChanged, ipChanged)
  else none

/-- The per-peer limiter: the new `reg_pk`, or `none` where the handler answers
`TOO_FREQUENT`. -/
def rkLimit (reqPk : Nat × Instant) (now : Instant) : Option (Nat × Instant) :=
  if asSecs (elapsed now reqPk.2) > 6 then some (1, now)
  else if reqPk.1 > 2 then none
  else some (reqPk.1 + 1, now)

/-- The `IP_CHANGES` update. What is there already stays where it is. -/
def noteIpChange (changes : HashMap String (Instant × HashMap String Int)) (now : Instant)
    (id ip : String) : HashMap String (Instant × HashMap String Int) :=
  match changes.lookup id with
  | some (tm, ips) =>
    if asSecs (elapsed now tm) > IP_CHANGE_DUR then
      changes.replace id (now, (∅ : HashMap String Int).insert ip 1)
    else
      match ips.lookup ip with
      | some v => changes.replace id (tm, ips.replace ip (v + 1))
      | none => changes.replace id (tm, ips.insert ip 1)
  | none => changes.insert id (now, (∅ : HashMap String Int).insert ip 1)

/--
The `RegisterPk` arm of `handle_udp`: the server after, and the answer.

The result of `update_pk` is dropped: whatever became of the write, the answer is `OK`.
-/
def handleRegisterPk (X : Ext) (s : Server) (io : DbIo) (addr : SocketAddr) (rk : RegisterPk) :
    Server × Option RkResult :=
  if rk.uuid = [] ∨ rk.pk = [] then (s, none)
  else
    let ip := addr.ip.toString
    if rk.id.utf8ByteSize < 6 then (s, some .UUID_MISMATCH)
    else
      match checkIpBlocker s.ipBlocker io.now ip rk.id with
      | (blocker, false) => ({ s with ipBlocker := blocker }, some .TOO_FREQUENT)
      | (blocker, true) =>
        let (pm, peer) := s.pm.getOr X.toInfoJson io rk.id
        let s := { s with ipBlocker := blocker, pm := pm }
        match rkChanged peer rk ip with
        | none => (s, some .UUID_MISMATCH)
        | some (changed, ipChanged) =>
          match rkLimit peer.regPk io.now with
          | none => (s, some .TOO_FREQUENT)
          | some reqPk =>
            let peer := { peer with regPk := reqPk }
            let pm := { pm with map := put pm.map rk.id peer }
            let changes :=
              if ipChanged then noteIpChange s.ipChanges io.now rk.id ip else s.ipChanges
            let pm :=
              if changed then
                (pm.updatePk X.toInfoJson io rk.id peer addr rk.uuid rk.pk ip).1
              else pm
            ({ s with pm := pm, ipChanges := changes }, some .OK)

/-- The message gets past the checks that look at no record. -/
def ReachesRecord (s : Server) (now : Instant) (addr : SocketAddr) (rk : RegisterPk) : Prop :=
  rk.uuid ≠ [] ∧ rk.pk ≠ [] ∧ 6 ≤ rk.id.utf8ByteSize
    ∧ (checkIpBlocker s.ipBlocker now addr.ip.toString rk.id).2 = true

/--
Everything a `RegisterPk` can do to the peer map, and the answer that goes with it.

`peer` is the record that `get_or` hands out; in the last two cases the limiter has
let the message pass.
-/
inductive RkOutcome (X : Ext) (s : Server) (io : DbIo) (addr : SocketAddr) (rk : RegisterPk)
    (peer : Peer) : PeerMap × Option RkResult → Prop where
  | silent : ¬ ReachesRecord s io.now addr rk → RkOutcome X s io addr rk peer (s.pm, none)
  | turnedAway {r : RkResult} : ¬ ReachesRecord s io.now addr rk → r ≠ .OK →
      RkOutcome X s io addr rk peer (s.pm, some r)
  | refused {r : RkResult} : ReachesRecord s io.now addr rk → r ≠ .OK →
      (rkChanged peer rk addr.ip.toString = none ∨ rkLimit peer.regPk io.now = none) →
      RkOutcome X s io addr rk peer (⟨put s.pm.map rk.id peer, s.pm.db⟩, some r)
  | unchanged {reqPk : Nat × Instant} {b : Bool} : ReachesRecord s io.now addr rk →
      rkChanged peer rk addr.ip.toString = some (false, b) →
      rkLimit peer.regPk io.now = some reqPk →
      RkOutcome X s io addr rk peer
        (⟨put s.pm.map rk.id { peer with regPk := reqPk }, s.pm.db⟩, some .OK)
  | stored {reqPk : Nat × Instant} {b : Bool} {pm' : PeerMap} {r : RkResult} :
      ReachesRecord s io.now addr rk →
      rkChanged peer rk addr.ip.toString = some (true, b) →
      rkLimit peer.regPk io.now = some reqPk →
      PeerMap.UpdatePk X.toInfoJson s.pm io rk.id
        (({ peer with regPk := reqPk } : Peer).setPk io.now addr rk.uuid rk.pk addr.ip.toString)
        (pm', r) →
      RkOutcome X s io addr rk peer (pm', some .OK)

theorem handleRegisterPk_cases (X : Ext) (s : Server) (io : DbIo) (addr : SocketAddr)
    (rk : RegisterPk) :
    RkOutcome X s io addr rk (s.pm.getOr X.toInfoJson io rk.id).2
      ((handleRegisterPk X s io addr rk).1.pm, (handleRegisterPk X s io addr rk).2) := by
  rw [handleRegisterPk]
  split
  · rename_i hempty
    exact .silent fun h => hempty.elim h.1 h.2.1
  · rename_i hne
    rw [not_or] at hne
    dsimp only
    split
    · rename_i hlen
      exact .turnedAway (fun h => absurd h.2.2.1 (Nat.not_le.mpr hlen)) (by decide)
    · rename_i hlen
      split
      · rename_i blocker hb
        refine .turnedAway ?_ (by decide)
        intro h
        have hpass := h.2.2.2
        rw [hb] at hpass
        cases hpass
      · rename_i blocker hb
        have hreach : ReachesRecord s io.now addr rk :=
          ⟨hne.1, hne.2, Nat.not_lt.mp hlen, by rw [hb]⟩
        have hfst := PeerMap.getOr_fst X.toInfoJson s.pm io rk.id
        generalize (s.pm.getOr X.toInfoJson io rk.id) = g at hfst ⊢
        obtain ⟨pm, peer⟩ := g
        dsimp only at hfst ⊢
        subst hfst
        split
        · rename_i hch
          exact .refused hreach (by decide) (.inl hch)
        · rename_i changed ipChanged hch
          split
          · rename_i hlim
            exact .refused hreach (by decide) (.inr hlim)
          · rename_i reqPk hlim
            dsimp only
            rw [put_put, PeerMap.updatePk_put]
            cases changed with
            | false => exact .unchanged hreach hch hlim
            | true => exact .stored hreach hch hlim (PeerMap.updatePk_cases ..)

/-! ### What `changed` means -/

variable {peer : Peer} {rk : RegisterPk} {ip : String} {b c : Bool}

/-- An accepted message on a record with a uuid carries that uuid and moves at most one
of key and address text. -/
theorem rkChanged_some (h : rkChanged peer rk ip = some (c, b)) :
    peer.uuid = [] ∨ (peer.uuid = rk.uuid ∧ (peer.info.ip = ip ∨ peer.pk = rk.pk)) := by
  unfold rkChanged at h
  split at h
  · rename_i hu; exact .inl hu
  · split at h
    · rename_i hu
      split at h
      · cases h
      · rename_i hne
        rw [not_and_or, not_not, not_not] at hne
        exact .inr ⟨hu, hne⟩
    · cases h

/-- `changed` is false exactly if the record already holds what the message says. -/
theorem rkChanged_false (h : rkChanged peer rk ip = some (false, b)) :
    peer.uuid ≠ [] ∧ peer.uuid = rk.uuid ∧ peer.pk = rk.pk ∧ peer.info.ip = ip := by
  unfold rkChanged at h
  split at h
  · simp at h
  · rename_i hne
    split at h
    · rename_i hu
      split at h
      · cases h
      · simp only [Option.some.injEq, Prod.mk.injEq, Bool.or_eq_false_iff,
          decide_eq_false_iff_not, ne_eq, not_not] at h
        exact ⟨hne, hu, h.1.1.2, h.1.2⟩
    · cases h

/-- On a record with a uuid, `changed` is true only if key or address text differ. -/
theorem rkChanged_true (h : rkChanged peer rk ip = some (true, b)) :
    peer.uuid = [] ∨ (peer.uuid = rk.uuid ∧ (peer.pk ≠ rk.pk ∨ peer.info.ip ≠ ip)) := by
  rcases rkChanged_some h with hu | ⟨hu, _⟩
  · exact .inl hu
  · by_cases he : peer.uuid = []
    · exact .inl he
    · refine .inr ⟨hu, ?_⟩
      unfold rkChanged at h
      rw [if_neg he, if_pos hu] at h
      split at h
      · cases h
      · simp only [Option.some.injEq, Prod.mk.injEq, Bool.or_eq_true, decide_eq_true_eq,
          ne_eq, hu, not_true_eq_false, false_or] at h
        exact h.1

/-- A blank record passes the limiter at any time. -/
theorem rkLimit_default (now : Instant) : (rkLimit (Peer.default now).regPk now).isSome := by
  unfold rkLimit
  split
  · rfl
  · simp [Peer.default]

/-! ## `RegisterPeer` -/

/-- Whether a heartbeat from `addr` counts as coming from another place than recorded. -/
def ipChange (old : Peer) (addr : SocketAddr) : Bool :=
  (if old.socketAddr.port ≠ 0 then addr.ip ≠ old.socketAddr.ip
    else addr.ip.toString ≠ old.info.ip) && !addr.ip.isLoopback

/-- `update_addr`: the map after, and `request_pk`. -/
def updateAddr (pm : PeerMap) (now : Instant) (id : String) (addr : SocketAddr) :
    PeerMap × Bool :=
  match pm.map id with
  | none => (pm, true)
  | some old =>
    let requestPk := old.pk.isEmpty || ipChange old addr
    if requestPk then (pm, true)
    else
      ({ pm with map := put pm.map id { old with socketAddr := addr, lastRegTime := now } }, false)

/-- A heartbeat either changes nothing and asks for the key, or moves address and time of a
record. -/
theorem updateAddr_cases (pm : PeerMap) (now : Instant) (id : String) (addr : SocketAddr) :
    updateAddr pm now id addr = (pm, true) ∨
      ∃ old, pm.map id = some old ∧ updateAddr pm now id addr =
        ({ pm with map := put pm.map id { old with socketAddr := addr, lastRegTime := now } },
          false) := by
  unfold updateAddr
  split
  · exact .inl rfl
  · rename_i old hold
    dsimp only
    split
    · exact .inl rfl
    · exact .inr ⟨old, hold, rfl⟩

/-- When the recorded text fits the sender, only a recorded address can still differ. -/
theorem ipChange_iff {old : Peer} {addr : SocketAddr} (hip : old.info.ip = addr.ip.toString) :
    ipChange old addr = true ↔
      old.socketAddr.port ≠ 0 ∧ old.socketAddr.ip ≠ addr.ip ∧ addr.ip.isLoopback = false := by
  unfold ipChange
  rw [Bool.and_eq_true, Bool.not_eq_true', ← and_assoc]
  refine and_congr_left ?_
  intro _
  split
  · rename_i hport
    rw [decide_eq_true_eq, and_iff_right hport, ne_comm]
  · rename_i hport
    simp only [hport, hip, false_and, ne_eq, not_true_eq_false, decide_false,
      Bool.false_eq_true]

end KinBridge
