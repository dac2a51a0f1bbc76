import KinBridge.Hbbr.Params
import KinBridge.Proof.Accounting
import KinBridge.Proof.Truncation

/-!
# Products that do not fit

Two products in the downgrade logic are taken without a check. Seconds become milliseconds when
`DOWNGRADE_START_CHECK` is set, and a relay multiplies its time by its threshold. In a release
build they wrap: a number of seconds that is too large comes back as another, and a relay that
has run too long for its threshold is downgraded for next to nothing.
-/

namespace KinBridge.Proof

open KinBridge Runs Hbbr

/-! ## The seconds -/

variable {F : CmdOps}

abbrev ParamsOcc := Occ Settings ParamsEvent String

/-- What nothing sets stays. -/
theorem startCheck_kept {s₀ s : Settings} {h : List ParamsOcc} (hr : Run (params F) s₀ h s)
    (hq : ∀ o ∈ h, o.ev.seconds = none) : s .downgradeStartCheck = s₀ .downgradeStartCheck := by
  refine Run.inv_of (C := fun _ e => e.seconds = none)
    (I := fun _ s => s .downgradeStartCheck = s₀ .downgradeStartCheck) rfl ?_ hr hq
  intro h s e s' res hkept hnone hst
  rw [params_startCheck hst, hnone]
  exact hkept

/-- The last seconds that were set, in milliseconds. -/
theorem startCheck_last {s₀ s : Settings} {h₁ h₂ : List ParamsOcc} {x : ParamsOcc} {v : Nat}
    (hr : Run (params F) s₀ (h₁ ++ x :: h₂) s) (hset : x.ev.seconds = some v)
    (hq : ∀ o ∈ h₂, o.ev.seconds = none) : s .downgradeStartCheck = v * 1000 % 2 ^ 64 := by
  obtain ⟨_, hst, hafter⟩ := hr.at
  rw [startCheck_kept hafter hq, params_startCheck hst, hset]
  rfl

theorem millis_fit (v : Nat) : v * 1000 % 2 ^ 64 = v * 1000 ↔ v ≤ 18446744073709551 := by
  omega

theorem seconds_back (v : Nat) : v * 1000 % 2 ^ 64 / 1000 = v ↔ v ≤ 18446744073709551 := by
  omega

/-! ## The threshold -/

variable {l l' : Loop} {t : Hbbr.Turn} {acts : List RelayAct} {s : RelayState} {h : List RelayOcc}
  {addr : SocketAddr} {threshold : Nat} {now : Instant}

/-- A turn that nothing stops. -/
theorem relay_running_iff : relay (.running l) t = some (.running l', acts) ↔
    ∃ l₁ acts₁ acts₂, relaySelect l t = (l₁, acts₁, none)
      ∧ relayCheck l₁ t = (l', acts₂, none) ∧ acts₁ ++ acts₂ = acts := by
  constructor
  · intro hst
    simp only [relay, relayTurn] at hst
    generalize relaySelect l t = sel at hst ⊢
    obtain ⟨l₁, acts₁, why₁⟩ := sel
    cases why₁ with
    | some why => cases hst
    | none =>
        dsimp only at hst
        generalize hcheck : relayCheck l₁ t = chk at hst
        obtain ⟨l₂, acts₂, why₂⟩ := chk
        cases why₂ with
        | some why => cases hst
        | none =>
            obtain ⟨hrun, rfl⟩ := Prod.mk.inj (Option.some.inj hst)
            obtain rfl := RelayState.running.inj hrun
            exact ⟨l₁, acts₁, acts₂, rfl, hcheck, rfl⟩
  · rintro ⟨l₁, acts₁, acts₂, hselect, hcheck, rfl⟩
    rw [relay, relayTurn, hselect]
    dsimp only
    rw [hcheck]

/-- What a turn does to the threshold, the time and the downgrade. -/
inductive DowngradeMove (l : Loop) (t : Hbbr.Turn) (l' : Loop) : Prop where
  | quiet : l'.downgradeThreshold = l.downgradeThreshold → l'.downgrade = l.downgrade →
      l'.elapsed = l.elapsed → l'.tm = l.tm → DowngradeMove l t l'
  | window : l'.downgradeThreshold = l.downgradeThreshold →
      l'.downgrade = (l.downgrade || l'.exceeds t.startCheck) → 1000 ≤ l.sinceCheck t →
      l'.elapsed = l.elapsed + l.sinceCheck t → l'.tm = t.resetAt → DowngradeMove l t l'

theorem relay_downgrade (hst : relay (.running l) t = some (.running l', acts)) :
    DowngradeMove l t l' := by
  obtain ⟨⟨recvAt, hcount⟩, _⟩ := relaySelect_counted l t
  obtain ⟨l₁, acts₁, acts₂, hselect, hcheck, _⟩ := relay_running_iff.mp hst
  rw [hselect] at hcount
  dsimp only at hcount
  subst hcount
  rcases relayCheck_window hcheck with ⟨rfl, _⟩ | ⟨hlen, htm, he, _, _, _, hkept, hdown, _⟩
  · exact .quiet rfl rfl rfl rfl
  · exact .window hkept hdown hlen he htm

/-- The clock does not run backwards in the turn, and the relay began no more than so many
milliseconds before. -/
def InTime (now : Instant) (limit : Nat) (t : Hbbr.Turn) : Prop :=
  t.checkAt ≤ t.resetAt ∧ asMillis (KinBridge.elapsed t.checkAt now) ≤ limit

/-- The threshold is the relay's, and the time that it accounts for has passed. -/
structure TimeInv (threshold : Nat) (now : Instant) (limit : Nat) (l : Loop) : Prop where
  threshold : l.downgradeThreshold = threshold
  began : now ≤ l.tm
  past : l.elapsed * 1000000 ≤ KinBridge.elapsed l.tm now
  elapsed : l.elapsed ≤ limit

theorem sinceCheck_le : l.sinceCheck t * 1000000 ≤ KinBridge.elapsed t.checkAt l.tm :=
  (Nat.mul_le_mul_right _ (Nat.mod_le ..)).trans (Nat.div_mul_le_self ..)

/-- The time since the last check comes on top of the time up to it. -/
theorem elapsed_add {e n now tm checkAt : Nat} (hn : 0 < n) (hbegan : now ≤ tm)
    (hpast : e * 1000000 ≤ KinBridge.elapsed tm now)
    (hround : n * 1000000 ≤ KinBridge.elapsed checkAt tm) :
    now ≤ checkAt ∧ (e + n) * 1000000 ≤ KinBridge.elapsed checkAt now := by
  unfold KinBridge.elapsed at hpast hround ⊢
  omega

theorem timeInv_step {limit : Nat} (hi : TimeInv threshold now limit l) (ht : InTime now limit t)
    (hst : relay (.running l) t = some (.running l', acts)) : TimeInv threshold now limit l' := by
  obtain ⟨hclock, htime⟩ := ht
  obtain ⟨hthreshold, hbegan, hpast, helapsed⟩ := hi
  cases relay_downgrade hst with
  | quiet hkept _ he htm =>
      exact ⟨hkept.trans hthreshold, htm ▸ hbegan, by rw [he, htm]; exact hpast, he ▸ helapsed⟩
  | window hkept _ hlen he htm =>
      have hlen : 0 < l.sinceCheck t := Nat.lt_of_lt_of_le (by decide) hlen
      obtain ⟨hafter, hadded⟩ := elapsed_add hlen hbegan hpast sinceCheck_le
      rw [← he] at hadded
      refine ⟨hkept.trans hthreshold, ?_, ?_, ?_⟩
      · rw [htm]
        exact hafter.trans hclock
      · rw [htm]
        exact hadded.trans (Nat.sub_le_sub_right hclock now)
      · exact ((Nat.le_div_iff_mul_le (by decide)).mpr hadded).trans htime

theorem timeInv_run {limit : Nat} (hr : Run relay (.running (.start addr threshold now)) h s)
    (ht : ∀ o ∈ h, InTime now limit o.ev) :
    ∀ l, s = .running l → TimeInv threshold now limit l := by
  refine Run.inv_of (C := fun _ t => InTime now limit t)
    (I := fun _ s => ∀ l, s = .running l → TimeInv threshold now limit l) ?_ ?_ hr ht
  · rintro l hl
    obtain rfl := RelayState.running.inj hl
    exact ⟨rfl, Nat.le_refl _, by simp [Loop.start], Nat.zero_le _⟩
  · rintro h s t s' acts hi ht hst l' rfl
    cases s with
    | stopped why => cases hst
    | running l => exact timeInv_step (hi l rfl) ht hst

/-- At every turn the product fits, and what is downgraded has received more than it comes to. -/
def Honest (threshold : Nat) (h : List RelayOcc) : Prop :=
  ∀ h₁ o h₂ l l', h = h₁ ++ o :: h₂ → o.pre = .running l → o.post = .running l' →
    l'.elapsed * threshold < 2 ^ 64
      ∧ (l.downgrade = false → l'.downgrade = true →
        l'.elapsed * threshold < 8 * received (h₁ ++ [o]))

theorem honest_of_fits {limit : Nat} (hfits : limit * threshold < 2 ^ 64)
    (hr : Run relay (.running (.start addr threshold now)) h s)
    (ht : ∀ o ∈ h, InTime now limit o.ev) : Honest threshold h := by
  rintro h₁ o h₂ l l' rfl hpre hpost
  obtain ⟨hr₁, hst, _⟩ := hr.at
  have hupto := hr₁.snoc hst
  have htimes : ∀ x ∈ h₁ ++ [o], InTime now limit x.ev := by
    intro x hx
    rw [List.append_cons] at ht
    exact ht x (List.mem_append_left _ hx)
  obtain ⟨hthreshold, _, _, hlimit⟩ := timeInv_run hupto htimes l' hpost
  have hproduct : l'.elapsed * threshold < 2 ^ 64 :=
    Nat.lt_of_le_of_lt (Nat.mul_le_mul_right threshold hlimit) hfits
  refine ⟨hproduct, ?_⟩
  intro hno hyes
  have htotal := (accountInv_run hupto l' hpost).total
  rw [hpre, hpost] at hst
  cases relay_downgrade hst with
  | quiet _ hsame =>
      rw [hsame, hno] at hyes
      cases hyes
  | window _ hset =>
      rw [hset, hno, Bool.false_or] at hyes
      obtain ⟨_, hmore⟩ := Bool.and_eq_true_iff.mp hyes
      have hmore := of_decide_eq_true hmore
      -- what is computed is the true product
      rw [hthreshold, Nat.mod_eq_of_lt hproduct, htotal] at hmore
      exact hmore

/-! ## A relay that is downgraded for too little -/

theorem bytesIn_received {side : Side} {item : Incoming} (h : t.wake = .received side item) :
    bytesIn t = item.payload.length := by
  unfold bytesIn Turn.chunk
  rw [h]
  dsimp only
  split
  · rename_i hnil
    rw [hnil]
    rfl
  · rfl

theorem bytesIn_chunkTurn (side : Side) (n : Nat) (clock : Instant) :
    bytesIn (chunkTurn side n clock) = n := by
  rw [bytesIn_received rfl]
  exact List.length_replicate

theorem received_chunkTurn (side : Side) (n : Nat) (clock : Instant) (pre post : RelayState) :
    received [⟨pre, chunkTurn side n clock, acts, post⟩] = n := by
  simp [received, bytesIn_chunkTurn]

theorem relaySelect_chunkTurn {n : Nat} {clock : Instant} (hn : 0 < n) :
    relaySelect l (chunkTurn .peer n clock) = (counted l clock n,
      [.consume l.limiter (n * 8), .consume .total (n * 8),
        .sendRaw .stream (List.replicate n 7) true], none) := by
  have hbytes : List.replicate n (7 : UInt8) ≠ [] := by simp; omega
  simp only [relaySelect, chunkTurn, recv, hbytes, if_false, List.length_replicate, counted]
  rfl

theorem sinceCheck_chunkTurn {limit n : Nat} (hms : limit < 2 ^ 64) :
    (counted (.start addr threshold 0) (limit * 1000000) n).sinceCheck
      (chunkTurn .peer n (limit * 1000000)) = limit := by
  simp only [Loop.sinceCheck, counted, Loop.start, chunkTurn, asMillis, KinBridge.elapsed]
  omega

/-- The first chunk comes when the time is already too long. -/
theorem relayCheck_chunkTurn {limit n : Nat} (hlimit : 1000 ≤ limit) (hms : limit < 2 ^ 64)
    (hmore : limit * threshold % 2 ^ 64 < n * 8) : ∃ l acts,
    relayCheck (counted (.start addr threshold 0) (limit * 1000000) n)
        (chunkTurn .peer n (limit * 1000000)) = (l, acts, none)
      ∧ l.elapsed = limit ∧ l.downgrade = true := by
  unfold relayCheck
  rw [sinceCheck_chunkTurn hms]
  dsimp only
  rw [if_neg (Nat.not_lt.mpr hlimit), if_neg (by simp [chunkTurn])]
  refine ⟨_, _, rfl, Nat.zero_add limit, ?_⟩
  have htime : 0 < limit := by omega
  simpa [Loop.exceeds, counted, Loop.start, chunkTurn, htime] using hmore

theorem relay_chunkTurn {limit n : Nat} (hlimit : 1000 ≤ limit) (hms : limit < 2 ^ 64)
    (hn : 0 < n) (hmore : limit * threshold % 2 ^ 64 < n * 8) : ∃ l acts,
    relay (.running (.start addr threshold 0)) (chunkTurn .peer n (limit * 1000000))
        = some (.running l, acts)
      ∧ l.elapsed = limit ∧ l.downgrade = true := by
  obtain ⟨l, acts, hcheck, helapsed, hdown⟩ :=
    @relayCheck_chunkTurn addr threshold limit n hlimit hms hmore
  have hst := relay_running_iff.mpr ⟨_, _, _, relaySelect_chunkTurn hn, hcheck, rfl⟩
  exact ⟨l, _, hst, helapsed, hdown⟩

/-- If the product of a time and a threshold does not fit, a chunk whose volume is larger than
what is left of it, and no larger than the product, is enough. -/
theorem fits_of_honest {limit : Nat} (hlimit : 1000 ≤ limit) (hms : limit < 2 ^ 64)
    (hall : ∀ addr now h s, Run relay (.running (.start addr threshold now)) h s →
      (∀ o ∈ h, InTime now limit o.ev) → Honest threshold h) : limit * threshold < 2 ^ 64 := by
  by_contra hover
  -- just more than what is left of the product; that is no more than the product itself
  generalize hn : limit * threshold % 2 ^ 64 / 8 + 1 = n
  have hmore : limit * threshold % 2 ^ 64 < n * 8 := by omega
  have hless : 8 * n ≤ limit * threshold := by omega
  obtain ⟨l, acts, hst, helapsed, hdown⟩ :=
    @relay_chunkTurn .unspecified threshold limit n hlimit hms (by omega) hmore
  have hr := Run.nil.snoc hst
  have hintime : InTime 0 limit (chunkTurn .peer n (limit * 1000000)) :=
    ⟨Nat.le_refl _, Nat.le_of_eq (Nat.mul_div_cancel limit (by decide))⟩
  obtain ⟨_, hhonest⟩ := hall _ 0 _ _ hr (fun o ho => List.mem_singleton.mp ho ▸ hintime)
    [] _ [] _ l rfl rfl rfl
  have hmuch := hhonest rfl hdown
  rw [helapsed, List.nil_append, received_chunkTurn] at hmuch
  omega

/-! ## Both products -/

/--
**The seconds come back** exactly if their milliseconds fit, whatever else has been set since.
**A relay is honest** in every run up to some time exactly if the product of that time and its
threshold fits.
-/
theorem downgrade_products_iff (F : CmdOps) :
    (∀ (s₀ s s' : Settings) (h₁ h₂ : List ParamsOcc) x v lists usage cmd res,
      Run (params F) s₀ (h₁ ++ x :: h₂) s → x.ev.seconds = some v →
      (∀ o ∈ h₂, o.ev.seconds = none) → AsksSeconds cmd →
      params F s (.command lists usage cmd) = some (s', res) →
        (s .downgradeStartCheck = v * 1000 ∧ res = toString v ++ "s\n"
          ↔ v ≤ 18446744073709551))
    ∧ ∀ threshold limit, 1000 ≤ limit → limit < 2 ^ 64 →
      ((∀ addr now h s, Run relay (.running (.start addr threshold now)) h s →
          (∀ o ∈ h, InTime now limit o.ev) → Honest threshold h)
        ↔ limit * threshold < 2 ^ 64) := by
  constructor
  · intro s₀ s s' h₁ h₂ x v lists usage cmd res hr hset hq hask hst
    have hlast := startCheck_last hr hset hq
    -- the milliseconds in force are those of `x`, wrapped or not
    rw [params_asked hask hst, hlast, millis_fit]
    constructor
    · exact fun hboth => hboth.1
    · intro hfits
      exact ⟨hfits, by rw [(seconds_back v).mpr hfits]⟩
  · intro threshold limit hlimit hms
    constructor
    · exact fits_of_honest hlimit hms
    · exact fun hfits addr now h s hr ht => honest_of_fits hfits hr ht

/-- The command `t <seconds>`. -/
def setSeconds (cmd : String) : ParamsEvent := .command ⟨∅, ∅⟩ [] cmd

theorem asksSeconds_t : AsksSeconds "t" := by
  refine ⟨?_, ?_⟩ <;> decide +kernel

/-- Half an hour, and a threshold of 100 bit/ms over five seconds. -/
theorem downgrade_products_half_hour : ∃ h s s' res,
    Run (params sampleOps) .initial h s ∧ h.map (fun o => o.ev.seconds) = [some 1800]
      ∧ params sampleOps s (.command ⟨∅, ∅⟩ [] "t") = some (s', res)
      ∧ s .downgradeStartCheck = 1800 * 1000 ∧ res = toString 1800 ++ "s\n"
      ∧ ∀ addr now g t, Run relay (.running (.start addr 100 now)) g t →
        (∀ o ∈ g, InTime now 5000 o.ev) → Honest 100 g := by
  obtain ⟨hseconds, hrelay⟩ := downgrade_products_iff sampleOps
  obtain ⟨h, s, hr, hev, hp⟩ := @exists_run _ _ _ (params sampleOps) .initial
    [setSeconds "t 1800"] (fun h _ => h.map (fun o => o.ev.seconds) = [some 1800])
    (by decide +kernel)
  have hset := of_decide_eq_true hp
  obtain ⟨x, rfl⟩ : ∃ x, h = [x] := by
    refine List.length_eq_one_iff.mp ?_
    rw [← List.length_map (f := Occ.ev), hev]
    rfl
  obtain ⟨s', res, hst⟩ : ∃ s' res, params sampleOps s (.command ⟨∅, ∅⟩ [] "t") = some (s', res) :=
    ⟨_, _, rfl⟩
  obtain ⟨hmillis, hanswer⟩ := (hseconds .initial s s' [] [] x 1800 _ _ "t" res hr
    (by simpa using hset) (fun _ ho => absurd ho List.not_mem_nil) asksSeconds_t hst).mpr
      (by decide)
  exact ⟨[x], s, s', res, hr, hset, hst, hmillis, hanswer,
    (hrelay 100 5000 (by decide) (by decide)).mpr (by decide)⟩

/-- **Both wrap**: so many seconds come back as none at all, and a relay with a large threshold is
downgraded for one byte. -/
theorem downgrade_products_wrap :
    (∃ h s s', Run (params sampleOps) .initial h s
      ∧ h.map (fun o => o.ev.seconds) = [some 18446744073709552]
      ∧ params sampleOps s (.command ⟨∅, ∅⟩ [] "t") = some (s', "0s\n"))
    ∧ ∃ h s l, Run relay (.running (.start .unspecified (2 ^ 63) 0)) h s
      ∧ h.map Occ.ev = [chunkTurn .peer 1 (ofSecs 2)] ∧ s = .running l ∧ l.downgrade = true
      ∧ ¬ l.elapsed * 2 ^ 63 < 8 * received h := by
  constructor
  · obtain ⟨h, s, hr, _, hp⟩ := @exists_run _ _ _ (params sampleOps) .initial
      [setSeconds "t 18446744073709552"]
      (fun h s => h.map (fun o => o.ev.seconds) = [some 18446744073709552]
        ∧ (params sampleOps s (.command ⟨∅, ∅⟩ [] "t")).map Prod.snd = some "0s\n")
      (by decide +kernel)
    obtain ⟨hset, hanswer⟩ := of_decide_eq_true hp
    obtain ⟨⟨s', res⟩, hst, rfl⟩ := Option.map_eq_some_iff.mp hanswer
    exact ⟨h, s, s', hr, hset, hst⟩
  · obtain ⟨l, acts, hst, helapsed, hdown⟩ :=
      @relay_chunkTurn .unspecified (2 ^ 63) 2000 1 (by decide) (by decide) (by decide) (by decide)
    refine ⟨_, _, l, Run.nil.snoc hst, rfl, rfl, hdown, ?_⟩
    rw [helapsed, List.nil_append, received_chunkTurn]
    decide

end KinBridge.Proof
