import KinBridge.Hbbs.Online
import KinBridge.Proof.Admission

/-!
# Staying offline

A peer that has not registered for thirty seconds is offline, and without a registration it
should stay so. Both handlers that make the test narrow the age to an `i32` first. From
`2^31` milliseconds on, about twenty-five days, the narrowed age is negative, and the peer
is online again for as long; after that it comes and goes with every `2^32` milliseconds.

The recorded time itself is not at fault: `lastRegTime_run` says that nothing but an
accepted registration moves it.
-/

namespace KinBridge.Proof

open KinBridge Runs Slots Bits

variable {X : Ext} {key : String} {cfg : Config}

/-- A punch-hole request for the peer that carries the key is answered `OFFLINE`. -/
def PunchOffline (X : Ext) (key : String) (s : Server) (io : DbIo) (id : String) : Prop :=
  ∀ addr ph ws, ph.id = id → (key ≠ "" → ph.licenceKey = key) →
    (handlePunchHoleRequest X key s io addr ph ws).2 = (failureResponse .OFFLINE, none)

/-- Wherever an online request names the peer, its bit is clear. -/
def QueryOffline (s : Server) (now : Instant) (id : String) : Prop :=
  ∀ (peers : List String) (i : Nat), peers[i]? = some id →
    bitAt (handleOnlineRequest s now peers) i = false

/-! ## Both handlers make one test -/

/-- What decides is the record that the lookup yields. -/
theorem punchOffline_get_iff {s : Server} {io : DbIo} {id : String} {p : Peer}
    (hp : (s.pm.get X.toInfoJson io id).2 = some p) :
    PunchOffline X key s io id ↔ isOffline io.now p = true := by
  have hanswer : ∀ addr ph ws, ph.id = id → (key ≠ "" → ph.licenceKey = key) →
      ((handlePunchHoleRequest X key s io addr ph ws).2 = (failureResponse .OFFLINE, none)
        ↔ isOffline io.now p = true) := by
    rintro addr ph ws rfl hkey
    have hout := handlePunchHoleRequest_cases X key s io addr ph ws
    generalize handlePunchHoleRequest X key s io addr ph ws = r at hout ⊢
    cases hout with
    | unlicensed hlic => exact absurd (or_iff_not_imp_left.mpr hkey) hlic
    | unknown _ hnone => rw [hp] at hnone; cases hnone
    | offline _ hsome hoff =>
        obtain rfl := Option.some.inj (hp.symm.trans hsome)
        exact iff_of_true rfl hoff
    | forwarded _ hsome hon =>
        obtain rfl := Option.some.inj (hp.symm.trans hsome)
        rw [hon]
        simp
  constructor
  · intro hall
    have hask := hall .unspecified ⟨id, .symmetric, key⟩ false rfl fun _ => rfl
    exact (hanswer _ _ _ rfl fun _ => rfl).mp hask
  · intro hoff addr ph ws hid hkey
    exact (hanswer addr ph ws hid hkey).mpr hoff

theorem punchOffline_iff {s : Server} {io : DbIo} {id : String} {p : Peer}
    (hp : s.pm.map id = some p) : PunchOffline X key s io id ↔ isOffline io.now p = true :=
  punchOffline_get_iff (by rw [PeerMap.get_of_memory hp])

theorem queryOffline_iff {s : Server} {now : Instant} {id : String} {p : Peer}
    (hp : s.pm.map id = some p) : QueryOffline s now id ↔ isOffline now p = true := by
  have hbit : ∀ (peers : List String) (i : Nat), peers[i]? = some id →
      (bitAt (handleOnlineRequest s now peers) i = false ↔ isOffline now p = true) := by
    intro peers i hi
    rw [handleOnlineRequest_bit hi, seenOnline_of_memory hp, Bool.not_eq_false']
  constructor
  · intro hall
    exact (hbit [id] 0 rfl).mp (hall [id] 0 rfl)
  · intro hoff peers i hi
    exact (hbit peers i hi).mpr hoff

/-! ## The narrowed age -/

/-- The age looks like thirty seconds or more in an `i32`. -/
def LooksStale (age : Nat) : Prop := 30000 ≤ age % 2 ^ 32 ∧ age % 2 ^ 32 < 2 ^ 31

/-- The age fits an `i32`, or has come round to where it looks stale again. -/
def StillFits (age : Nat) : Prop := age < 2 ^ 31 ∨ LooksStale age

theorem le_asI32 {n : Nat} : REG_TIMEOUT ≤ asI32 n ↔ LooksStale n := by
  unfold asI32 REG_TIMEOUT LooksStale
  split <;> omega

theorem isOffline_iff {now : Instant} {p : Peer} :
    isOffline now p = true ↔ LooksStale (asMillis (elapsed now p.lastRegTime)) := by
  rw [isOffline, decide_eq_true_eq, ge_iff_le, le_asI32]

/-- An age that looks stale is at least thirty seconds, and so is every later one. -/
theorem looksStale_of_fits {age age' : Nat} (hle : age ≤ age') (hst : LooksStale age)
    (hfits : StillFits age') : LooksStale age' := by
  rcases hfits with hlt | hst'
  · have hmod : age' % 2 ^ 32 = age' := Nat.mod_eq_of_lt (by omega)
    have hbig : 30000 ≤ age := Nat.le_trans hst.1 (Nat.mod_le _ _)
    exact ⟨by omega, by omega⟩
  · exact hst'

/-! ## Over runs -/

/-- No registration of the peer is accepted, and the process stays up. -/
def NoRegistration (id : String) (h : List (Occ Server Event Out)) : Prop :=
  ∀ o ∈ h, o.ev ≠ .restart ∧ regTime id o = none

/-- Without an accepted registration a record keeps its time. -/
theorem lastRegTime_run {s₁ s₂ : Server} {h : List (Occ Server Event Out)} {id : String} {p : Peer}
    (hr : Run (hbbs X key cfg) s₁ h s₂) (hno : NoRegistration id h)
    (hp : s₁.pm.map id = some p) :
    ∃ p', s₂.pm.map id = some p' ∧ p'.lastRegTime = p.lastRegTime := by
  induction hr with
  | nil => exact ⟨p, hp, rfl⟩
  | @snoc h s s' e o _ hst ih =>
      obtain ⟨q, hq, hqt⟩ := ih fun x hx => hno x (List.mem_append_left _ hx)
      obtain ⟨hne, hreg⟩ := hno ⟨s, e, o, s'⟩ (by simp)
      obtain ⟨p', hp', hpt⟩ := kept_of_regTime_none (o := ⟨s, e, o, s'⟩) hst hne hreg hq
      exact ⟨p', hp', hpt.trans hqt⟩

/--
**Offline stays offline exactly while the age fits an `i32`**: over any run in which the peer
does not register, a peer offline for one of the handlers at its start is offline for both
at its end, unless its age has outgrown the cast and does not look stale in it.
-/
theorem staleness_permanent_iff {s₁ s₂ : Server} {h : List (Occ Server Event Out)} {id : String}
    {p : Peer} {io₁ io₂ : DbIo} (hr : Run (hbbs X key cfg) s₁ h s₂) (hno : NoRegistration id h)
    (hp : s₁.pm.map id = some p) (hle : io₁.now ≤ io₂.now) :
    (PunchOffline X key s₁ io₁ id ∨ QueryOffline s₁ io₁.now id →
        PunchOffline X key s₂ io₂ id ∧ QueryOffline s₂ io₂.now id)
      ↔ (LooksStale (asMillis (elapsed io₁.now p.lastRegTime)) →
        StillFits (asMillis (elapsed io₂.now p.lastRegTime))) := by
  obtain ⟨p', hp', htime⟩ := lastRegTime_run hr hno hp
  rw [punchOffline_iff hp, queryOffline_iff hp, or_self, punchOffline_iff hp',
    queryOffline_iff hp', and_self, isOffline_iff, isOffline_iff, htime]
  have hage : asMillis (elapsed io₁.now p.lastRegTime) ≤ asMillis (elapsed io₂.now p.lastRegTime) :=
    Nat.div_le_div_right (Nat.sub_le_sub_right hle _)
  constructor
  · intro hstay hst
    exact .inr (hstay hst)
  · intro hfits hst
    exact looksStale_of_fits hage hst (hfits hst)

/-- Half a minute and then a whole minute after the peer registered, with a heartbeat for an
unknown id in between. -/
theorem staleness_permanent_minute :
    ∃ h s₁ s₂, Run (hbbs Ext.sample "" Config.sample) s₁ h s₂ ∧ h ≠ []
      ∧ QueryOffline s₁ (ofSecs 30) "peer-1"
      ∧ PunchOffline Ext.sample "" s₂ (Io.sample (ofSecs 60) 1).toDbIo "peer-1"
      ∧ QueryOffline s₂ (ofSecs 60) "peer-1" := by
  let s₁ := (handleUdp Ext.sample "" (.start .sample .empty) (.sample 0 1) .unspecified
    (some (.registerPk ⟨"peer-1", [1], [2]⟩))).1
  have hr : Run (hbbs Ext.sample "" Config.sample) s₁ [⟨_, _, _, _⟩] _ :=
    Run.snoc Run.nil (e := .udp (.sample (ofSecs 31) 1) .unspecified
      (some (.registerPeer ⟨"peer-2", 0⟩))) rfl
  obtain ⟨p, hp⟩ : ∃ p, s₁.pm.map "peer-1" = some p ∧ p.lastRegTime = 0 := ⟨_, rfl, rfl⟩
  have hquery : QueryOffline s₁ (ofSecs 30) "peer-1" := by
    rw [queryOffline_iff hp.1, isOffline_iff, hp.2]
    exact ⟨by decide, by decide⟩
  let io₁ := (Io.sample (ofSecs 30) 1).toDbIo
  let io₂ := (Io.sample (ofSecs 60) 1).toDbIo
  have hle : io₁.now ≤ io₂.now := by decide
  have hfits : StillFits (asMillis (elapsed io₂.now p.lastRegTime)) := by
    rw [hp.2]
    exact .inl (by decide)
  refine ⟨_, s₁, _, hr, List.cons_ne_nil _ _, hquery, ?_⟩
  refine (staleness_permanent_iff hr ?_ hp.1 hle).mpr (fun _ => hfits) (.inr hquery)
  intro o ho
  rw [List.mem_singleton.mp ho]
  exact ⟨by simp, rfl⟩

/-- **A peer back from the dead**: offline after thirty seconds, and online again `2^31`
milliseconds after it registered. -/
theorem staleness_wraps :
    ¬ ∀ g s₁ h s₂ id p io₁ io₂,
      Run (hbbs Ext.sample "" Config.sample) (.start .sample .empty) g s₁ →
      Run (hbbs Ext.sample "" Config.sample) s₁ h s₂ → NoRegistration id h →
      s₁.pm.map id = some p → io₁.now ≤ io₂.now →
      PunchOffline Ext.sample "" s₁ io₁ id ∨ QueryOffline s₁ io₁.now id →
      PunchOffline Ext.sample "" s₂ io₂ id ∧ QueryOffline s₂ io₂.now id := by
  intro hall
  have hr : Run (hbbs Ext.sample "" Config.sample) (.start .sample .empty) [⟨_, _, _, _⟩] _ :=
    Run.snoc Run.nil (e := .udp (.sample 0 1) .unspecified
      (some (.registerPk ⟨"peer-1", [1], [2]⟩))) rfl
  have hstay := hall _ _ [] _ "peer-1" _ (Io.sample (ofSecs 30) 1).toDbIo
    (Io.sample (2 ^ 31 * 1000000) 1).toDbIo hr Run.nil (by intro o ho; cases ho) rfl (by decide)
  rw [queryOffline_iff rfl, queryOffline_iff rfl, isOffline_iff, isOffline_iff] at hstay
  obtain ⟨_, hst⟩ := hstay (.inr ⟨by decide, by decide⟩)
  exact absurd hst.2 (by decide)

end KinBridge.Proof
