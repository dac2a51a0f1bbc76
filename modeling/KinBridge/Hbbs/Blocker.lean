import KinBridge.Lib.Burst
import KinBridge.Lib.Refine
import KinBridge.Hbbs.Dispatch

/-!
# The IP blocker on its own

`check_ip_blocker` keeps one entry for each IP: a count of requests, lazily started over
after a minute of quiet, and a set of ids, lazily cleared after a day. Its calls and the
administrator's `ip-blocker` command are a machine of their own: nothing else touches
`IP_BLOCKER`.
-/

namespace KinBridge

open Runs Burst

deriving instance DecidableEq for IpBlockEntry

/-- `IP_BLOCKER`. -/
abbrev IpBlocker := HashMap String IpBlockEntry

/-- One call of `check_ip_blocker`. -/
structure BlockerCall where
  now : Instant
  ip : String
  id : String
deriving DecidableEq, Repr

def callBlocker (m : IpBlocker) (c : BlockerCall) : IpBlocker × Bool :=
  checkIpBlocker m c.now c.ip c.id

/-- `HashMap::retain`, by a test on the values. -/
def retain (m : IpBlocker) (keep : IpBlockEntry → Bool) : IpBlocker :=
  ⟨m.entries.filter fun e => keep e.2, List.NodupKeys.sublist List.filter_sublist m.nodupKeys⟩

theorem lookup_retain {m : IpBlocker} {keep : IpBlockEntry → Bool} {ip : String} :
    (retain m keep).lookup ip = (m.lookup ip).filter keep :=
  HashMap.lookup_retain

/-- One of the two windows of the entry has not passed. -/
def StillCounts (e : IpBlockEntry) (now : Instant) : Prop :=
  asSecs (elapsed now e.counter.2) ≤ IP_BLOCK_DUR ∨ asSecs (elapsed now e.ids.2) ≤ DAY_SECONDS

instance (e : IpBlockEntry) (now : Instant) : Decidable (StillCounts e now) :=
  inferInstanceAs (Decidable (_ ∨ _))

/-- `ip-blocker [<ip>] [-]`: it drops every entry whose windows have passed, and the one it is
told to remove. What it prints is in `ipBlockerArm`. -/
def ipBlockerCmd (m : IpBlocker) (now : Instant) (removed : Option String) : IpBlocker :=
  let m := retain m fun e => StillCounts e now
  match removed with
  | some ip => m.erase ip
  | none => m

inductive BlockerEvent where
  | call (c : BlockerCall)
  | command (now : Instant) (removed : Option String)
deriving DecidableEq, Repr

def BlockerEvent.now : BlockerEvent → Instant
  | .call c => c.now
  | .command now _ => now

/-- Calls and commands as a machine; a call puts out its answer. -/
def blockerStep (m : IpBlocker) : BlockerEvent → Option (IpBlocker × Option Bool)
  | .call c => some ((callBlocker m c).1, some (callBlocker m c).2)
  | .command now removed => some (ipBlockerCmd m now removed, none)

/-- Fewer than 61 seconds since the last request that counted, and 31 counted. -/
def RateRefuses (e : IpBlockEntry) (now : Instant) : Prop :=
  ¬ asSecs (elapsed now e.counter.2) > IP_BLOCK_DUR ∧ e.counter.1 > 30

/-- More than a day since the set last changed. -/
def DayOver (ids : Finset String × Instant) (now : Instant) : Prop :=
  asSecs (elapsed now ids.2) > DAY_SECONDS

instance (ids : Finset String × Instant) (now : Instant) : Decidable (DayOver ids now) :=
  inferInstanceAs (Decidable (_ > _))

/-- The rate part is a burst limiter: 31 at a time, 61 seconds apart. -/
theorem attempt_counter (e : IpBlockEntry) (now : Instant) :
    attempt (ofSecs 61) 31 e.counter now =
      if ¬ asSecs (elapsed now e.counter.2) > IP_BLOCK_DUR ∧ e.counter.1 > 30 then none
      else some
        (if asSecs (elapsed now e.counter.2) > IP_BLOCK_DUR then 1 else e.counter.1 + 1, now) := by
  have hquiet : asSecs (elapsed now e.counter.2) > IP_BLOCK_DUR ↔
      ofSecs 61 ≤ now - e.counter.2 := by
    unfold asSecs elapsed ofSecs IP_BLOCK_DUR
    omega
  unfold attempt
  by_cases hgap : ofSecs 61 ≤ now - e.counter.2
  · simp [hquiet, hgap]
  · by_cases hfull : e.counter.1 < 31
    · simp [hquiet, hgap, hfull, Nat.not_lt.mpr (Nat.lt_succ_iff.mp hfull)]
    · simp [hquiet, hgap, hfull, Nat.lt_of_succ_le (Nat.not_lt.mp hfull)]

theorem rateRefuses_iff {e : IpBlockEntry} {now : Instant} :
    RateRefuses e now ↔ attempt (ofSecs 61) 31 e.counter now = none := by
  rw [attempt_counter]
  unfold RateRefuses
  split <;> simp_all

/-- What the distinct-id part makes of the set, and what it answers. -/
inductive IdsMove (ids : Finset String × Instant) (now : Instant) (id : String) :
    Finset String × Instant → Bool → Prop where
  /-- The set is cleared, and the id goes in if it was not there before. -/
  | day : DayOver ids now → IdsMove ids now id (if id ∈ ids.1 then ∅ else {id}, now) true
  /-- Not even the time changes. -/
  | full : ¬ DayOver ids now → 300 < ids.1.card → IdsMove ids now id ids (decide (id ∈ ids.1))
  | listed : ¬ DayOver ids now → ids.1.card ≤ 300 →
      IdsMove ids now id (insert id ids.1, now) true

/-- Everything a call can do. -/
inductive BlockerMove (m : IpBlocker) (c : BlockerCall) : IpBlocker × Bool → Prop where
  /-- The first call for an IP makes its entry, and does not look at the id. -/
  | first : m.lookup c.ip = none → BlockerMove m c (m.insert c.ip ⟨(0, c.now), (∅, c.now)⟩, true)
  | rate {old : IpBlockEntry} : m.lookup c.ip = some old → RateRefuses old c.now →
      BlockerMove m c (m, false)
  | counted {old : IpBlockEntry} {n : Nat × Instant} {ids : Finset String × Instant} {b : Bool} :
      m.lookup c.ip = some old → attempt (ofSecs 61) 31 old.counter c.now = some n →
      IdsMove old.ids c.now c.id ids b → BlockerMove m c (m.replace c.ip ⟨n, ids⟩, b)

theorem callBlocker_move (m : IpBlocker) (c : BlockerCall) :
    BlockerMove m c (callBlocker m c) := by
  unfold callBlocker checkIpBlocker
  split
  · rename_i hnone
    exact .first hnone
  · rename_i old hold
    dsimp only
    split
    · rename_i href
      exact .rate hold href
    · rename_i hpass
      have hcount := (attempt_counter old c.now).trans (if_neg hpass)
      generalize (if asSecs (elapsed c.now old.counter.2) > IP_BLOCK_DUR then 1
        else old.counter.1 + 1, c.now) = n at hcount ⊢
      split
      · rename_i hday
        have hset : (if decide (c.id ∉ old.ids.1) = true then insert c.id ∅ else ∅ : Finset String)
            = if c.id ∈ old.ids.1 then ∅ else {c.id} := by
          by_cases hid : c.id ∈ old.ids.1 <;> simp [hid]
        rw [hset]
        exact .counted hold hcount (.day hday)
      · rename_i hday
        split
        · rename_i hfull
          have hout : (!decide (c.id ∉ old.ids.1)) = decide (c.id ∈ old.ids.1) := by
            by_cases hid : c.id ∈ old.ids.1 <;> simp [hid]
          rw [hout]
          exact .counted hold hcount (.full hday hfull)
        · rename_i hfull
          have hset : (if decide (c.id ∉ old.ids.1) = true then insert c.id old.ids.1
              else old.ids.1) = insert c.id old.ids.1 := by
            by_cases hid : c.id ∈ old.ids.1 <;> simp [hid]
          rw [hset]
          exact .counted hold hcount (.listed hday (Nat.not_lt.mp hfull))

/-- A set that is no larger than the limit allows stays so. -/
theorem IdsMove.card_le {ids ids' : Finset String × Instant} {now : Instant} {id : String}
    {b : Bool} (h : IdsMove ids now id ids' b) (hcard : ids.1.card ≤ 301) : ids'.1.card ≤ 301 := by
  cases h with
  | day =>
      dsimp only
      split
      · exact Nat.zero_le _
      · rw [Finset.card_singleton]
        omega
  | full => exact hcard
  | listed _ hroom =>
      have hle := Finset.card_insert_le id ids.1
      dsimp only
      omega

/-- What the command leaves of an entry. -/
theorem lookup_ipBlockerCmd {m : IpBlocker} {now : Instant} {removed : Option String}
    {ip : String} : (ipBlockerCmd m now removed).lookup ip =
      if removed = some ip then none else (m.lookup ip).filter fun e => StillCounts e now := by
  unfold ipBlockerCmd
  cases removed with
  | none => rw [if_neg (by simp), ← lookup_retain]
  | some ip' =>
      by_cases hip : ip = ip'
      · subst hip
        rw [if_pos rfl]
        exact AList.lookup_erase ..
      · rw [if_neg fun hc => hip (Option.some.inj hc).symm, ← lookup_retain]
        exact AList.lookup_erase_ne hip

theorem blockerStep_call {m m' : IpBlocker} {c : BlockerCall} {out : Option Bool}
    (h : blockerStep m (.call c) = some (m', out)) :
    m' = (callBlocker m c).1 ∧ out = some (callBlocker m c).2 := by
  obtain ⟨rfl, rfl⟩ := Prod.mk.inj (Option.some.inj h)
  exact ⟨rfl, rfl⟩

/-- A call that finds an entry. -/
theorem callBlocker_entry {m : IpBlocker} {c : BlockerCall} {e : IpBlockEntry}
    (he : m.lookup c.ip = some e) :
    (RateRefuses e c.now ∧ callBlocker m c = (m, false))
      ∨ ∃ n ids b, attempt (ofSecs 61) 31 e.counter c.now = some n
        ∧ IdsMove e.ids c.now c.id ids b ∧ callBlocker m c = (m.replace c.ip ⟨n, ids⟩, b) := by
  have hmove := callBlocker_move m c
  generalize callBlocker m c = r at hmove ⊢
  cases hmove with
  | first hnone => rw [he] at hnone; cases hnone
  | rate hold href =>
      obtain rfl := Option.some.inj (he.symm.trans hold)
      exact .inl ⟨href, rfl⟩
  | counted hold hcount hids =>
      obtain rfl := Option.some.inj (he.symm.trans hold)
      exact .inr ⟨_, _, _, hcount, hids, rfl⟩

theorem rate_passed {e : IpBlockEntry} {now : Instant} {n : Nat × Instant}
    (hcount : attempt (ofSecs 61) 31 e.counter now = some n) : ¬ RateRefuses e now := by
  rw [rateRefuses_iff, hcount]
  exact Option.some_ne_none n

/-- What the rate part refuses is refused before anything is written. -/
theorem callBlocker_rate {m : IpBlocker} {c : BlockerCall} {e : IpBlockEntry}
    (he : m.lookup c.ip = some e) (href : RateRefuses e c.now) :
    callBlocker m c = (m, false) := by
  rcases callBlocker_entry he with ⟨_, hcall⟩ | ⟨_, _, _, hcount, _⟩
  · exact hcall
  · exact absurd href (rate_passed hcount)

/-- No call touches another IP's entry. -/
theorem callBlocker_frame {m : IpBlocker} {c : BlockerCall} {ip : String} (hip : ip ≠ c.ip) :
    (callBlocker m c).1.lookup ip = m.lookup ip := by
  have hmove := callBlocker_move m c
  generalize callBlocker m c = r at hmove ⊢
  cases hmove with
  | first => exact AList.lookup_insert_ne hip
  | rate => rfl
  | counted => exact HashMap.lookup_replace_ne hip

/-! ## In `hbbs` -/

variable {X : Ext} {key : String}

/-- The call that the handler of this event makes. -/
def blockerCallOf : Event → Option BlockerCall
  | .udp io addr (some (.registerPk rk)) =>
    if rk.uuid = [] ∨ rk.pk = [] then none
    else if rk.id.utf8ByteSize < 6 then none
    else some ⟨io.now, addr.ip.toString, rk.id⟩
  | _ => none

/-- What a handler makes of the blocker with the call it makes, if it makes one. -/
def blockerAfter (m : IpBlocker) (call : Option BlockerCall) : IpBlocker :=
  match call with
  | none => m
  | some c => (callBlocker m c).1

theorem handleRegisterPk_ipBlocker (s : Server) (io : Io) (addr : SocketAddr) (rk : RegisterPk) :
    (handleRegisterPk X s io.toDbIo addr rk).1.ipBlocker
      = blockerAfter s.ipBlocker (blockerCallOf (.udp io addr (some (.registerPk rk)))) := by
  unfold handleRegisterPk
  rw [blockerCallOf]
  by_cases hempty : rk.uuid = [] ∨ rk.pk = []
  · rw [if_pos hempty, if_pos hempty]
    rfl
  · rw [if_neg hempty, if_neg hempty]
    dsimp only
    by_cases hlen : rk.id.utf8ByteSize < 6
    · rw [if_pos hlen, if_pos hlen]
      rfl
    · rw [if_neg hlen, if_neg hlen]
      dsimp only [blockerAfter, callBlocker]
      split
      · rename_i heq
        rw [heq]
      · rename_i heq
        rw [heq]
        split
        · rfl
        · split <;> rfl

theorem handleUdp_ipBlocker (s : Server) (io : Io) (addr : SocketAddr)
    (msg : Option RendezvousMessage) : (handleUdp X key s io addr msg).1.ipBlocker
      = blockerAfter s.ipBlocker (blockerCallOf (.udp io addr msg)) := by
  have hmove := @handleUdp_move X key s io addr msg
  cases msg with
  | none => exact hmove.ipBlocker nofun
  | some m =>
      cases m with
      | registerPk rk => rw [(handleUdp_registerPk ..).1, handleRegisterPk_ipBlocker]
      | _ => exact hmove.ipBlocker nofun

/-- Over TCP a registration is refused, so nothing does. -/
theorem handleTcp_ipBlocker (s : Server) (io : DbIo) (addr : SocketAddr) (ws : Bool)
    (msg : Option RendezvousMessage) :
    (handleTcp X key s io addr ws msg).1.ipBlocker = s.ipBlocker := by
  have hmove := @handleTcp_move X key s io addr ws msg
  cases msg with
  | none => exact hmove.ipBlocker nofun
  | some m =>
      cases m with
      | registerPk rk => rfl
      | _ => exact hmove.ipBlocker nofun

/-- `hbbs` changes the blocker by calling it, and by restarting. -/
theorem hbbs_ipBlocker {cfg : Config} {s s' : Server} {e : Event} {o : Out} (hne : e ≠ .restart)
    (hst : hbbs X key cfg s e = some (s', o)) :
    s'.ipBlocker = blockerAfter s.ipBlocker (blockerCallOf e) := by
  cases e with
  | restart => exact absurd rfl hne
  | tcp io addr ws msg =>
      rw [(hbbs_tcp.mp hst).1]
      exact handleTcp_ipBlocker ..
  | udp io addr msg =>
      rw [(hbbs_udp.mp hst).1]
      exact handleUdp_ipBlocker ..

end KinBridge
