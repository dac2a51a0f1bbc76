import KinBridge.Proof.Staleness

/-!
# Two answers to "is it online?"

`handle_online_request` asks memory; `handle_punch_hole_request` asks `get`, which loads
the record from the table where memory has none. A loaded record counts as registered at
`get_expired_time`, an hour ago, so that it is offline. In the first hour of the clock there
is no hour ago, `checked_sub` fails, and the loaded record counts as registered now.
-/

namespace KinBridge.Proof

open KinBridge Bits

variable {X : Ext} {key : String}

/-- The answer to a punch-hole request is neither `ID_NOT_EXIST` nor `OFFLINE`. -/
def PunchFinds (X : Ext) (key : String) (s : Server) (io : DbIo) (addr : SocketAddr)
    (ph : PunchHoleRequest) (ws : Bool) : Prop :=
  (handlePunchHoleRequest X key s io addr ph ws).2.1 ≠ failureResponse .ID_NOT_EXIST
    ∧ (handlePunchHoleRequest X key s io addr ph ws).2.1 ≠ failureResponse .OFFLINE

/-- The age in milliseconds that a record made up at `t₀` shows at `now`. -/
def blankAge (t₀ now : Instant) : Nat :=
  asMillis (elapsed now t₀) + if ofSecs 3600 ≤ t₀ then 3600000 else 0

/-! ## Records without a registration -/

theorem asMillis_expired {t₀ now : Nat} (hle : t₀ ≤ now) :
    asMillis (elapsed now (getExpiredTime t₀)) = blankAge t₀ now := by
  unfold blankAge getExpiredTime
  by_cases hhour : ofSecs 3600 ≤ t₀
  · rw [if_pos hhour, if_pos hhour]
    unfold asMillis elapsed ofSecs at *
    omega
  · rw [if_neg hhour, if_neg hhour, Nat.add_zero]

/-- A record that was just loaded is offline if the clock has an hour to go back. -/
theorem isOffline_ofRow {X : Ext} {now : Instant} {v : Row} :
    isOffline now (Peer.ofRow X.toInfoJson now v) = true ↔ ofSecs 3600 ≤ now := by
  have hage : asMillis (elapsed now (Peer.ofRow X.toInfoJson now v).lastRegTime)
      = blankAge now now := asMillis_expired (Nat.le_refl _)
  rw [isOffline_iff, hage]
  unfold LooksStale blankAge asMillis elapsed
  split <;> omega

theorem isOffline_default {t₀ now : Instant} (hle : t₀ ≤ now) :
    isOffline now (Peer.default t₀) = true ↔ LooksStale (blankAge t₀ now) := by
  rw [isOffline_iff, ← asMillis_expired hle]
  rfl

/-! ## What the two handlers answer -/

theorem ne_failureResponse {msg : RendezvousMessage} {f : Failure} (h : msg.isForward = true) :
    msg ≠ failureResponse f := by
  rintro rfl
  cases h

variable {s : Server} {io : DbIo} {addr : SocketAddr} {ph : PunchHoleRequest} {ws : Bool}

/-- A request is passed on exactly if the lookup yields a record that is not offline. -/
theorem punchFinds_iff (hkey : Licensed key ph) : PunchFinds X key s io addr ph ws ↔
    ∃ p, (s.pm.get X.toInfoJson io ph.id).2 = some p ∧ isOffline io.now p = false := by
  unfold PunchFinds
  have hout := handlePunchHoleRequest_cases X key s io addr ph ws
  generalize handlePunchHoleRequest X key s io addr ph ws = r at hout ⊢
  cases hout with
  | unlicensed hlic => exact absurd hkey hlic
  | unknown _ hnone => simp [hnone]
  | offline _ hsome hoff => simp [hsome, hoff]
  | @forwarded peer _ hsome hon =>
      have hfwd := forwardPunchHole_isForward (X := X)
        { s with pm := (s.pm.get X.toInfoJson io ph.id).1 } io.now addr ph ws peer.socketAddr
      exact iff_of_true ⟨ne_failureResponse hfwd, ne_failureResponse hfwd⟩ ⟨peer, hsome, hon⟩

theorem seenOnline_iff {now : Instant} {id : String} :
    seenOnline s now id = true ↔ ∃ p, s.pm.map id = some p ∧ isOffline now p = false := by
  cases hp : s.pm.map id with
  | some p => simp [seenOnline_of_memory hp]
  | none => simp [seenOnline, hp]

/-- Without a record in memory no bit is set. -/
theorem queryOffline_of_none {now : Instant} {id : String} (hm : s.pm.map id = none) :
    QueryOffline s now id := by
  intro peers i hi
  rw [handleOnlineRequest_bit hi, seenOnline, hm]

/-- The two agree on every id in memory and on every id nobody knows, and on the others once
the clock has an hour to go back. -/
theorem agree_iff (hread : io.readOk = true) (hkey : Licensed key ph) :
    (seenOnline s io.now ph.id = true ↔ PunchFinds X key s io addr ph ws)
      ↔ s.pm.map ph.id ≠ none ∨ s.pm.db.row ph.id = none ∨ ofSecs 3600 ≤ io.now := by
  rw [punchFinds_iff hkey, seenOnline_iff]
  rcases PeerMap.get_cases s.pm io ph.id with ⟨p, hp⟩ | ⟨hm, hr, v, hv⟩ | ⟨hm, hr⟩
  · rw [PeerMap.get_of_memory hp, hp]
    simp
  · rw [PeerMap.get_of_row hm hr hv, hm, hv]
    simp [← isOffline_ofRow (X := X) (v := v)]
  · rw [PeerMap.get_of_none hm hr, hm, hr hread]
    simp

/-- A peer that only the table knows. -/
theorem rowOnly_offline_iff {id : String} (hread : io.readOk = true) (hm : s.pm.map id = none)
    (hrow : s.pm.db.row id ≠ none) :
    PunchOffline X key s io id ∧ QueryOffline s io.now id ↔ ofSecs 3600 ≤ io.now := by
  obtain ⟨v, hv⟩ := Option.ne_none_iff_exists'.mp hrow
  rw [and_iff_left (queryOffline_of_none hm),
    punchOffline_get_iff (by rw [PeerMap.get_of_row hm hread hv]), isOffline_ofRow]

/-- A peer whose record in memory is blank. -/
theorem blank_offline_iff {id : String} {t₀ : Instant} (hle : t₀ ≤ io.now)
    (hm : s.pm.map id = some (Peer.default t₀)) :
    PunchOffline X key s io id ∧ QueryOffline s io.now id
      ↔ LooksStale (blankAge t₀ io.now) := by
  rw [punchOffline_iff hm, queryOffline_iff hm, and_self, isOffline_default hle]

/--
**The two agree exactly if memory knows the peer, or the table does not, or the clock has an
hour to go back.** A peer in the table only is offline for both under the last condition, and
a blank record under the condition that its age looks stale.
-/
theorem presence_agreement_iff {peers : List String} {i : Nat} (hread : io.readOk = true)
    (hkey : Licensed key ph) (hi : peers[i]? = some ph.id) :
    ((bitAt (handleOnlineRequest s io.now peers) i = true ↔ PunchFinds X key s io addr ph ws)
        ↔ s.pm.map ph.id ≠ none ∨ s.pm.db.row ph.id = none ∨ ofSecs 3600 ≤ io.now)
      ∧ (s.pm.map ph.id = none → s.pm.db.row ph.id ≠ none →
        (PunchOffline X key s io ph.id ∧ QueryOffline s io.now ph.id ↔ ofSecs 3600 ≤ io.now))
      ∧ ∀ t₀ ≤ io.now, s.pm.map ph.id = some (Peer.default t₀) →
        (PunchOffline X key s io ph.id ∧ QueryOffline s io.now ph.id
          ↔ LooksStale (blankAge t₀ io.now)) := by
  refine ⟨?_, rowOnly_offline_iff hread, fun _ hle hm => blank_offline_iff hle hm⟩
  rw [handleOnlineRequest_bit hi]
  exact agree_iff hread hkey

/-- One row, and nothing in memory. -/
def restarted : Server :=
  .start .sample ⟨[⟨List.replicate 16 1, "peer-1", [1], [2], ""⟩], .cons .nil (by simp),
    .cons .nil (by simp)⟩

/-- An hour after boot the peer is offline for both. -/
theorem presence_agreement_hour :
    ¬ PunchFinds Ext.sample "" restarted (Io.sample (ofSecs 3600) 1).toDbIo .unspecified
        ⟨"peer-1", .symmetric, ""⟩ false
      ∧ PunchOffline Ext.sample "" restarted (Io.sample (ofSecs 3600) 1).toDbIo "peer-1" := by
  obtain ⟨hagree, honly, _⟩ := @presence_agreement_iff Ext.sample "" restarted
    (Io.sample (ofSecs 3600) 1).toDbIo .unspecified ⟨"peer-1", .symmetric, ""⟩ false ["peer-1"] 0
    rfl (.inl rfl) rfl
  have hbit := hagree.mpr (.inr (.inr (by decide)))
  exact ⟨fun hfinds => absurd (hbit.mpr hfinds) (by decide),
    ((honly rfl (by decide)).mpr (by decide)).1⟩

/-- **Online for one, offline for the other**: a minute after boot, the peer is in the table
only. -/
theorem presence_disagreement :
    ¬ ∀ (s : Server) (io : DbIo) (addr : SocketAddr) (ph : PunchHoleRequest) (ws : Bool)
      (peers : List String) (i : Nat), io.readOk = true → Licensed "" ph → peers[i]? = some ph.id →
      (bitAt (handleOnlineRequest s io.now peers) i = true
        ↔ PunchFinds Ext.sample "" s io addr ph ws) := by
  intro hall
  have hiff := hall restarted (Io.sample (ofSecs 60) 1).toDbIo .unspecified
    ⟨"peer-1", .symmetric, ""⟩ false ["peer-1"] 0 rfl (.inl rfl) rfl
  have hfinds : PunchFinds Ext.sample "" restarted (Io.sample (ofSecs 60) 1).toDbIo .unspecified
      ⟨"peer-1", .symmetric, ""⟩ false := (punchFinds_iff (.inl rfl)).mpr ⟨_, rfl, by decide⟩
  exact absurd (hiff.mpr hfinds) (by decide)

/-! ## The bitmap -/

/-- **The bitmap says of each peer in the request whether it is online**, and nothing else. No
index is out of bounds on the way. -/
theorem online_bitmap (s : Server) (now : Instant) (peers : List String) :
    ∃ states, handleOnlineRequest? s now peers = some states
      ∧ Encodes states (peers.map (seenOnline s now)) :=
  ⟨handleOnlineRequest s now peers, handleOnlineRequest?_eq, encodes_marks _ peers⟩

end KinBridge.Proof
