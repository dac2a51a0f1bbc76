import Mathlib.Algebra.Ring.Nat
import KinBridge.Hbbr.World

/-!
# What a relay accounts for

A relay counts what it receives. Once a second or more it closes a window, takes the speed of
the window, and enters time, volume, highest speed and speed into `USAGE`. The volume is the
sum of the windows' volumes, and no window's volume comes to more than its length times the
highest speed, rounded up; so the average is no more than the highest speed either.
-/

namespace KinBridge.Proof

open KinBridge Runs Slots Hbbr

abbrev RelayOcc := Occ RelayState Turn (List RelayAct)

variable {l l' : Loop} {t : Turn} {acts : List RelayAct} {s : RelayState} {h : List RelayOcc}
  {addr : SocketAddr} {threshold : Nat} {now : Instant}

/-- The bytes that a turn receives, from either end. -/
def bytesIn (t : Turn) : Nat := (t.chunk.map fun c => c.2.length).getD 0

/-- The bytes received so far. -/
def received (h : List RelayOcc) : Nat := (h.map fun o => bytesIn o.ev).sum

theorem received_snoc {o : RelayOcc} : received (h ++ [o]) = received h + bytesIn o.ev := by
  simp [received]

/-! ## One turn -/

/-- The loop after a chunk of so many bytes. -/
def counted (l : Loop) (recvAt : Instant) (n : Nat) : Loop :=
  { l with lastRecvTime := recvAt, total := l.total + n * 8, totalS := l.totalS + n * 8 }

theorem relaySelect_counted (l : Loop) (t : Turn) :
    (∃ recvAt, (relaySelect l t).1 = counted l recvAt (bytesIn t))
      ∧ ∀ u, .usage u ∉ (relaySelect l t).2.1 := by
  unfold relaySelect bytesIn Turn.chunk
  cases t.wake with
  | tick => exact ⟨⟨l.lastRecvTime, rfl⟩, fun _ => List.not_mem_nil⟩
  | received side item =>
      dsimp only
      rcases recv_payload item with hgot | ⟨hnone, hstop⟩
      · rw [hgot]
        dsimp only
        by_cases hempty : item.payload = []
        · rw [if_pos hempty, if_pos hempty, hempty]
          exact ⟨⟨_, rfl⟩, by simp⟩
        · rw [if_neg hempty, if_neg hempty]
          exact ⟨⟨_, rfl⟩, by simp⟩
      · rw [if_pos hnone]
        rcases hstop with hstop | hstop <;> rw [hstop] <;>
          exact ⟨⟨l.lastRecvTime, rfl⟩, fun _ => List.not_mem_nil⟩

/-- Everything a turn does to the account. -/
inductive AccountMove (l : Loop) (n : Nat) : RelayState → List RelayAct → Prop where
  | stopped {why : Stop} {acts : List RelayAct} : (∀ u, .usage u ∉ acts) →
      AccountMove l n (.stopped why) acts
  | quiet {recvAt : Instant} {acts : List RelayAct} : (∀ u, .usage u ∉ acts) →
      AccountMove l n (.running (counted l recvAt n)) acts
  /-- A window of `len` milliseconds is closed. -/
  | window {len : Nat} {l' : Loop} {acts : List RelayAct} : 1000 ≤ len →
      l'.elapsed = l.elapsed + len → l'.total = l.total + n * 8 → l'.totalS = 0 →
      l'.highestS = max l.highestS ((l.totalS + n * 8) / len) →
      (l.downgrade = true → l'.downgrade = true) →
      (∀ u, .usage u ∈ acts →
        u = (l'.elapsed, l'.total, l'.highestS, (l.totalS + n * 8) / len)) →
      AccountMove l n (.running l') acts

theorem relayCheck_blocked {why : Stop} {acts : List RelayAct}
    (hchk : relayCheck l t = (l', acts, some why)) : acts = [] := by
  unfold relayCheck at hchk
  dsimp only at hchk
  split at hchk
  · cases (Prod.mk.inj (Prod.mk.inj hchk).2).2
  · split at hchk
    · exact (Prod.mk.inj (Prod.mk.inj hchk).2).1.symm
    · cases (Prod.mk.inj (Prod.mk.inj hchk).2).2

/-- The window that a check closes, if it closes one and goes on. -/
theorem relayCheck_window {acts : List RelayAct} (hchk : relayCheck l t = (l', acts, none)) :
    (l' = l ∧ acts = []) ∨ (1000 ≤ l.sinceCheck t ∧ l'.tm = t.resetAt
      ∧ l'.elapsed = l.elapsed + l.sinceCheck t
      ∧ l'.total = l.total ∧ l'.totalS = 0
      ∧ l'.highestS = max l.highestS (l.totalS / l.sinceCheck t)
      ∧ l'.downgradeThreshold = l.downgradeThreshold
      ∧ l'.downgrade = (l.downgrade || l'.exceeds t.startCheck)
      ∧ acts = [.usage (l'.elapsed, l'.total, l'.highestS, l.totalS / l.sinceCheck t)]) := by
  unfold relayCheck at hchk
  dsimp only at hchk
  split at hchk
  · -- the window stays open
    obtain ⟨rfl, rfl, _⟩ := by simpa only [Prod.mk.injEq] using hchk
    exact .inl ⟨rfl, rfl⟩
  · rename_i hlen
    split at hchk
    · cases (Prod.mk.inj (Prod.mk.inj hchk).2).2
    · obtain ⟨rfl, rfl, _⟩ := by simpa only [Prod.mk.injEq] using hchk
      refine .inr ⟨Nat.not_lt.mp hlen, rfl, rfl, rfl, rfl, ?_, rfl, rfl, rfl⟩
      dsimp only
      split <;> omega

theorem relay_account (hst : relay (.running l) t = some (s, acts)) :
    AccountMove l (bytesIn t) s acts := by
  obtain ⟨⟨recvAt, hcount⟩, hquiet⟩ := relaySelect_counted l t
  simp only [relay, relayTurn] at hst
  generalize relaySelect l t = sel at hcount hquiet hst
  obtain ⟨l₁, acts₁, why₁⟩ := sel
  dsimp only at hcount hquiet hst
  subst hcount
  cases why₁ with
  | some why =>
      obtain ⟨rfl, rfl⟩ := Prod.mk.inj (Option.some.inj hst)
      exact .stopped hquiet
  | none =>
      dsimp only at hst
      generalize hchk : relayCheck (counted l recvAt (bytesIn t)) t = chk at hst
      obtain ⟨l₂, acts₂, why₂⟩ := chk
      cases why₂ with
      | some why =>
          obtain ⟨rfl, rfl⟩ := Prod.mk.inj (Option.some.inj hst)
          rw [relayCheck_blocked hchk, List.append_nil]
          exact .stopped hquiet
      | none =>
          obtain ⟨rfl, rfl⟩ := Prod.mk.inj (Option.some.inj hst)
          rcases relayCheck_window hchk with ⟨rfl, rfl⟩ | ⟨hlen, _, he, ht, hs, hh, _, hd, rfl⟩
          · rw [List.append_nil]
            exact .quiet hquiet
          · have hkept : l.downgrade = true → l₂.downgrade = true := by
              intro hdown
              rw [hd]
              exact Bool.or_eq_true_iff.mpr (.inl hdown)
            refine .window hlen he ht hs hh hkept fun u hu => ?_
            rcases List.mem_append.mp hu with hold | hnew
            · exact absurd hold (hquiet u)
            · exact RelayAct.usage.inj (List.mem_singleton.mp hnew)

/-! ## Runs -/

/-- Not past what has been counted. -/
def UpTo (u : Usage) (l : Loop) : Prop :=
  u.1 ≤ l.elapsed ∧ u.2.1 ≤ l.total ∧ u.2.2.1 ≤ l.highestS

/-- The account of a loop, after its history. What lies before the open window is less than
the time times the highest speed plus one. -/
structure AccountInv (h : List RelayOcc) (l : Loop) : Prop where
  total : l.total = 8 * received h
  bound : l.total ≤ l.totalS ∨ l.total < l.totalS + l.elapsed * (l.highestS + 1)
  past : ∀ o ∈ h, ∀ u, .usage u ∈ o.out → UpTo u l

theorem accountInv_start : AccountInv [] (.start addr threshold now) where
  total := rfl
  bound := .inl (Nat.le_refl 0)
  past _ ho := absurd ho List.not_mem_nil

/-- A window's volume, and what was there before, against the new highest speed. -/
theorem window_bound {total totalS elapsed highest len : Nat} (hlen : 1000 ≤ len)
    (h : total ≤ totalS ∨ total < totalS + elapsed * (highest + 1)) :
    total < (elapsed + len) * (max highest (totalS / len) + 1) := by
  have hwindow : totalS < len * (max highest (totalS / len) + 1) :=
    Nat.lt_of_lt_of_le (Nat.lt_mul_div_succ totalS (by omega))
      (Nat.mul_le_mul_left len (Nat.succ_le_succ (Nat.le_max_right ..)))
  have hbefore : elapsed * (highest + 1) ≤ elapsed * (max highest (totalS / len) + 1) :=
    Nat.mul_le_mul_left elapsed (Nat.succ_le_succ (Nat.le_max_left ..))
  rw [Nat.add_mul]
  omega

theorem accountInv_step {o : RelayOcc} (hi : AccountInv h l) (hpre : o.pre = .running l)
    (hst : relay o.pre o.ev = some (o.post, o.out)) :
    ∀ l', o.post = .running l' → AccountInv (h ++ [o]) l' := by
  rw [hpre] at hst
  have hmove := relay_account hst
  obtain ⟨pre, t, acts, post⟩ := o
  dsimp only at hmove ⊢
  rintro l' rfl
  have hin : received (h ++ [⟨pre, t, acts, .running l'⟩]) = received h + bytesIn t := received_snoc
  cases hmove with
  | quiet hquiet =>
      refine ⟨?_, ?_, ?_⟩
      · rw [hin]
        dsimp only [counted]
        have htotal := hi.total
        omega
      · have hbound := hi.bound
        dsimp only [counted]
        omega
      · intro o ho u hu
        rcases List.mem_append.mp ho with hold | hnew
        · obtain ⟨he, ht, hh⟩ := hi.past o hold u hu
          exact ⟨he, Nat.le_add_right_of_le ht, hh⟩
        · obtain rfl := List.mem_singleton.mp hnew
          exact absurd hu (hquiet u)
  | @window len _ _ hlen he ht hs hh hd hacts =>
      refine ⟨?_, ?_, ?_⟩
      · rw [hin, ht, hi.total]
        omega
      · -- the window that closes is now part of what lies before
        have hbound := hi.bound
        rw [he, ht, hs, hh, Nat.zero_add]
        exact .inr (window_bound hlen (by omega))
      · intro o ho u hu
        rcases List.mem_append.mp ho with hold | hnew
        · obtain ⟨hue, hut, huh⟩ := hi.past o hold u hu
          exact ⟨by omega, by omega, by omega⟩
        · obtain rfl := List.mem_singleton.mp hnew
          rw [hacts u hu]
          exact ⟨Nat.le_refl _, Nat.le_refl _, Nat.le_refl _⟩

theorem accountInv_run (hr : Run relay (.running (.start addr threshold now)) h s) :
    ∀ l, s = .running l → AccountInv h l := by
  refine Run.inv (I := fun h s => ∀ l, s = .running l → AccountInv h l) ?_ ?_ hr
  · rintro l hl
    obtain rfl := RelayState.running.inj hl
    exact accountInv_start
  · intro h s t s' acts ih hst
    cases s with
    | stopped why => cases hst
    | running l => exact accountInv_step (o := ⟨_, t, acts, s'⟩) (ih l rfl) rfl hst

/-- What the relay enters into `USAGE` in the last step of a history. -/
structure Entered (h : List RelayOcc) (o : RelayOcc) (u : Usage) : Prop where
  elapsed : 1000 ≤ u.1
  total : u.2.1 = 8 * received (h ++ [o])
  speed : u.2.2.2 ≤ u.2.2.1
  average : u.2.1 / u.1 ≤ u.2.2.1
  growing : ∀ o' ∈ h, ∀ u', .usage u' ∈ o'.out →
    u'.1 ≤ u.1 ∧ u'.2.1 ≤ u.2.1 ∧ u'.2.2.1 ≤ u.2.2.1

theorem entered_step {o : RelayOcc} {u : Usage} (hi : AccountInv h l) (hpre : o.pre = .running l)
    (hst : relay o.pre o.ev = some (o.post, o.out)) (hu : .usage u ∈ o.out) : Entered h o u := by
  have hmove := relay_account (hpre ▸ hst)
  have hafter := accountInv_step hi hpre hst
  generalize hpost : o.post = s at hmove hafter
  generalize hout : o.out = acts at hmove hu
  cases hmove with
  -- only a window that closes is entered
  | stopped hquiet => exact absurd hu (hquiet u)
  | quiet hquiet => exact absurd hu (hquiet u)
  | @window len l' _ hlen he ht hs hh hd hacts =>
      have hi' := hafter l' rfl
      have hpos : 0 < l'.elapsed := by omega
      have hbound : l'.total < l'.elapsed * (l'.highestS + 1) := by
        have hbound := hi'.bound
        rw [hs, Nat.zero_add] at hbound
        rcases hbound with hzero | hlt
        · rw [Nat.le_zero.mp hzero]
          exact Nat.mul_pos hpos (Nat.succ_pos _)
        · exact hlt
      rw [hacts u hu]
      constructor
      case elapsed =>
        dsimp only
        omega
      case total => exact hi'.total
      case speed =>
        dsimp only
        rw [hh]
        exact Nat.le_max_right ..
      case average => exact Nat.le_of_lt_succ (Nat.div_lt_of_lt_mul hbound)
      case growing =>
        intro o' ho' u' hu'
        exact hi'.past o' (List.mem_append_left _ ho') u' hu'

/-- If it still runs, it is downgraded. -/
def Downgraded (s : RelayState) : Prop := ∀ l, s = .running l → l.downgrade = true

theorem downgraded_step {s' : RelayState} (hd : Downgraded s)
    (hst : relay s t = some (s', acts)) : Downgraded s' := by
  cases s with
  | stopped why => cases hst
  | running l =>
      have hdown := hd l rfl
      cases relay_account hst with
      | stopped => exact fun _ h => by cases h
      | quiet => exact fun _ h => RelayState.running.inj h ▸ hdown
      | window _ _ _ _ _ hkept => exact fun _ h => RelayState.running.inj h ▸ hkept hdown

/-- **What a relay enters into `USAGE`**, at every step of every run; and once it is downgraded it
stays so. -/
theorem relay_accounting (hr : Run relay (.running (.start addr threshold now)) h s) :
    (∀ h₁ o h₂ u, h = h₁ ++ o :: h₂ → .usage u ∈ o.out → Entered h₁ o u)
      ∧ ∀ o ∈ h, Downgraded o.post → Downgraded s := by
  constructor
  · rintro h₁ o h₂ u rfl hu
    obtain ⟨hr₁, hst, _⟩ := hr.at
    cases hpre : o.pre with
    | stopped why => rw [hpre] at hst; cases hst
    | running l => exact entered_step (accountInv_run hr₁ l hpre) hpre hst hu
  · intro o ho hd
    obtain ⟨_, _, _, _, _, hafter⟩ := hr.mem ho
    exact hafter.keeps (fun _ _ _ _ hq hst => downgraded_step hq hst) hd

/-- A turn that receives `n` bytes, the clock standing at `at`. -/
def chunkTurn (side : Side) (n : Nat) (clock : Instant) : Turn where
  wake := .received side (.tcp (.got (List.replicate n 7)))
  sendOk := true
  recvAt := clock
  checkAt := clock
  resetAt := clock
  lists := ⟨∅, ∅⟩
  startCheck := 0

/-- Two chunks in the first second, one in the next. -/
def chunkTrace : List Turn :=
  [chunkTurn .peer 200 (ofSecs 1 / 2), chunkTurn .stream 50 (ofSecs 1),
    chunkTurn .peer 125 (ofSecs 2)]

theorem relay_accounting_two : ∃ h s,
    Run relay (.running (.start .unspecified 0 0)) h s ∧ h.map Occ.ev = chunkTrace
      ∧ (h.map fun o => usageOf o.out) = [none, some (1000, 2000, 2, 2), some (2000, 3000, 2, 1)]
      ∧ (∀ h₁ o h₂ u, h = h₁ ++ o :: h₂ → .usage u ∈ o.out → Entered h₁ o u)
      ∧ ∀ o ∈ h, Downgraded o.post → Downgraded s := by
  obtain ⟨h, s, hr, hev, hp⟩ := @exists_run _ _ _ relay (.running (.start .unspecified 0 0))
    chunkTrace (fun h _ => (h.map fun o => usageOf o.out)
      = [none, some (1000, 2000, 2, 2), some (2000, 3000, 2, 1)]) (by decide +kernel)
  obtain ⟨hentered, hdowngrade⟩ := relay_accounting hr
  exact ⟨h, s, hr, hev, of_decide_eq_true hp, hentered, hdowngrade⟩

/-! ## In `hbbr` -/

section World

variable {X : AddrOps} {key : String} {lists : Lists} {w : World}
  {g : List (Occ World WorldEvent WorldOut)}

/-- The loop of a connection has come where it is by turns of `relay`. -/
def Fresh (l : Loop) : Prop :=
  ∃ addr threshold now h, Run relay (.running (.start addr threshold now)) h (.running l)

theorem fresh_turn (hl : Fresh l) (hturn : relayTurn l t = (l', acts, none)) : Fresh l' := by
  obtain ⟨addr, threshold, now, h, hr⟩ := hl
  exact ⟨addr, threshold, now, _, hr.snoc (e := t) (o := acts) (by rw [relay, hturn])⟩

theorem loops_fresh (hr : Run (hbbr X key) (.start lists) g w) :
    ∀ c l, w.loops c = some l → Fresh l := by
  refine Run.inv (I := fun _ w => ∀ c l, w.loops c = some l → Fresh l) (fun _ _ h => by cases h)
    ?_ hr
  intro h w e w' o ih hst c l hl
  cases hbbr_step hst with
  | refused | accepted | task | blocklist | blacklist => exact ih c l hl
  | @relayStart now conn threshold task =>
      rcases put_eq_some.mp hl with ⟨rfl, rfl⟩ | ⟨_, hold⟩
      · exact ⟨_, _, _, [], Run.nil⟩
      · exact ih c l hold
  | @turn now conn t l₀ l' acts s hl₀ hturn =>
      rcases put_eq_some.mp hl with ⟨rfl, rfl⟩ | ⟨_, hold⟩
      · exact fresh_turn (ih _ _ hl₀) hturn
      · exact ih c l hold
  | stopped => exact ih c l (free_eq_some.mp hl).2

/-- No time that `hbbr` enters into `USAGE` is zero, and no average above the highest speed. -/
theorem world_usage (hr : Run (hbbr X key) (.start lists) g w)
    {o : Occ World WorldEvent WorldOut} (ho : o ∈ g) (hout : o.out = .relay acts) {u : Usage}
    (hu : .usage u ∈ acts) : 1000 ≤ u.1 ∧ u.2.2.2 ≤ u.2.2.1 ∧ u.2.1 / u.1 ≤ u.2.2.1 := by
  obtain ⟨g₁, _, rfl, hr₁, hst, _⟩ := hr.mem ho
  have hentered : ∀ l t s, Fresh l → relay (.running l) t = some (s, acts) →
      1000 ≤ u.1 ∧ u.2.2.2 ≤ u.2.2.1 ∧ u.2.1 / u.1 ≤ u.2.2.1 := by
    rintro l t s ⟨addr, threshold, now, h, hrun⟩ hturn
    have hin := entered_step (o := ⟨_, t, acts, s⟩) (accountInv_run hrun l rfl) rfl hturn hu
    exact ⟨hin.elapsed, hin.speed, hin.average⟩
  generalize o.ev = e at hst
  generalize o.pre = w₀ at hr₁ hst
  generalize o.post = w₁ at hst
  rw [hout] at hst
  cases hbbr_step hst with
  | turn hl hturn => exact hentered _ _ _ (loops_fresh hr₁ _ _ hl) (by rw [relay, hturn])
  | stopped hl hturn => exact hentered _ _ _ (loops_fresh hr₁ _ _ hl) (by rw [relay, hturn])

end World

end KinBridge.Proof
