import KinBridge.Proof.Blocker

/-!
# How long an accepted id stays accepted

The distinct-id part of `check_ip_blocker` accepts an id that is already in the set, however
full the set is. So an id that was accepted should stay accepted for the day, and it does if it
went into the set. On two paths a call passes and leaves its id out of the set: the first call
for an IP, and the call that finds the day over and its id in the old set, which is then
cleared. And a call that passes because its id is in a full set does not move the set's time, so
the day that ends is counted from an earlier call.
-/

namespace KinBridge.Proof

open KinBridge Runs Burst

variable {h : Calls} {m m₀ : IpBlocker} {ip id : String}

/-- The id is in the set of the IP. -/
def Holds (m : IpBlocker) (ip id : String) : Prop :=
  ∃ e, m.lookup ip = some e ∧ id ∈ e.ids.1

theorem holds_some {e : IpBlockEntry} (he : m.lookup ip = some e) :
    Holds m ip id ↔ id ∈ e.ids.1 := by
  simp [Holds, he]

/-- The call leaves its id in the set. -/
def Records (m : IpBlocker) (c : BlockerCall) : Prop :=
  ∃ e, m.lookup c.ip = some e ∧ ¬ RateRefuses e c.now
    ∧ if DayOver e.ids c.now then c.id ∉ e.ids.1 else 300 < e.ids.1.card → c.id ∈ e.ids.1

/-- The step throws away the set of the IP: a call that finds the day over, or the
administrator. -/
def Clears (m : IpBlocker) (ip : String) : BlockerEvent → Prop
  | .call c => c.ip = ip ∧ ∃ e, m.lookup ip = some e ∧ ¬ RateRefuses e c.now ∧ DayOver e.ids c.now
  | .command now removed => ∃ e, m.lookup ip = some e ∧ (removed = some ip ∨ ¬ StillCounts e now)

/-- The call finds no room in the set. -/
def NoRoom (m : IpBlocker) (c : BlockerCall) : Prop :=
  ∃ e, m.lookup c.ip = some e ∧ ¬ RateRefuses e c.now ∧ ¬ DayOver e.ids c.now ∧ 300 < e.ids.1.card

/-! ## One call -/

/-- What goes into the set and what stays. -/
theorem idsMove_mem_iff {ids ids' : Finset String × Instant} {now : Instant} {id' : String}
    {b : Bool} (hmove : IdsMove ids now id' ids' b) : id ∈ ids'.1 ↔
      (id' = id ∧ if DayOver ids now then id' ∉ ids.1 else 300 < ids.1.card → id' ∈ ids.1)
        ∨ (id ∈ ids.1 ∧ ¬ DayOver ids now) := by
  cases hmove with
  | day hday =>
      rw [if_pos hday]
      by_cases hold : id' ∈ ids.1
      · simp [hold, hday]
      · simp [hold, hday, eq_comm]
  | full hday hfull =>
      rw [if_neg hday]
      constructor
      · exact fun hid => .inr ⟨hid, hday⟩
      · rintro (⟨rfl, hid⟩ | ⟨hid, _⟩)
        · exact hid hfull
        · exact hid
  | listed hday hroom =>
      rw [if_neg hday, Finset.mem_insert]
      constructor
      · rintro (rfl | hid)
        · exact .inl ⟨rfl, fun hfull => absurd hfull (Nat.not_lt.mpr hroom)⟩
        · exact .inr ⟨hid, hday⟩
      · rintro (⟨rfl, _⟩ | ⟨hid, _⟩)
        · exact .inl rfl
        · exact .inr hid

/-- A call is refused by the rate part, or because the set is full and its id is not there. -/
theorem callBlocker_refuses {c : BlockerCall} : (callBlocker m c).2 = false ↔
    (∃ e, m.lookup c.ip = some e ∧ RateRefuses e c.now)
      ∨ (NoRoom m c ∧ ¬ Holds m c.ip c.id) := by
  have hmove := callBlocker_move m c
  unfold NoRoom
  generalize callBlocker m c = r at hmove ⊢
  cases hmove with
  | first hnone => simp [hnone]
  | rate hold href => simp [hold, href]
  | counted hold hcount hids =>
      have hpass := rate_passed hcount
      rw [holds_some hold]
      cases hids with
      | day hday => simp [hold, hpass, hday]
      | full hday hfull => simp [hold, hpass, hday, hfull]
      | listed hday hroom => simp [hold, hpass, Nat.not_lt.mpr hroom]

theorem holds_call {c : BlockerCall} : Holds (callBlocker m c).1 c.ip id ↔
    (c.id = id ∧ Records m c) ∨ (Holds m c.ip id ∧ ¬ Clears m c.ip (.call c)) := by
  have hmove := callBlocker_move m c
  unfold Records Clears
  generalize callBlocker m c = r at hmove ⊢
  cases hmove with
  | first hnone => simp [Holds, hnone]
  | rate hold href => simp [Holds, hold, href]
  | counted hold hcount hids =>
      have hpass := rate_passed hcount
      rw [holds_some (HashMap.lookup_replace_self hold), holds_some hold, idsMove_mem_iff hids]
      simp [hold, hpass]

theorem holds_command {now : Instant} {removed : Option String} :
    Holds (ipBlockerCmd m now removed) ip id ↔
      Holds m ip id ∧ ¬ Clears m ip (.command now removed) := by
  unfold Holds Clears
  rw [lookup_ipBlockerCmd]
  cases he : m.lookup ip with
  | none => simp
  | some e =>
      by_cases hrem : removed = some ip
      · simp [hrem]
      · simp [hrem, and_comm]

/-! ## Over runs -/

/-- The step is a call that leaves `id` in the set of `ip`. -/
def RecordedBy (ip id : String) (o : BlockerOcc) : Prop :=
  ∃ c, o.ev = .call c ∧ c.ip = ip ∧ c.id = id ∧ Records o.pre c

def ClearedBy (ip : String) (o : BlockerOcc) : Prop := Clears o.pre ip o.ev

theorem holds_step {o : BlockerOcc} (hst : blockerStep o.pre o.ev = some (o.post, o.out)) :
    Holds o.post ip id ↔ RecordedBy ip id o ∨ (Holds o.pre ip id ∧ ¬ ClearedBy ip o) := by
  unfold RecordedBy ClearedBy
  cases hev : o.ev with
  | command now removed =>
      rw [hev] at hst
      obtain ⟨hpost, _⟩ := Prod.mk.inj (Option.some.inj hst)
      rw [← hpost, holds_command]
      simp
  | call c =>
      obtain ⟨hpost, _⟩ := blockerStep_call (hev ▸ hst)
      by_cases hip : c.ip = ip
      · subst hip
        rw [hpost, holds_call]
        simp
      · have hframe : Holds o.post ip id ↔ Holds o.pre ip id := by
          rw [Holds, Holds, hpost, callBlocker_frame fun hc => hip hc.symm]
        rw [hframe]
        simp [Clears, hip]

/-- The set after a run: what a call recorded and nothing has cleared since. -/
theorem holds_run (hr : Run blockerStep m₀ h m) : Holds m ip id ↔
    Since (RecordedBy ip id) (ClearedBy ip) h
      ∨ (Holds m₀ ip id ∧ ∀ o ∈ h, ¬ ClearedBy ip o) :=
  Run.since (Q := fun m => Holds m ip id) (fun _ hst => holds_step hst) hr

/-- A call that passes with its id in the set records it, unless the day is over. -/
theorem recorded_of_holds {c : BlockerCall} (hpass : (callBlocker m c).2 = true)
    (hold : Holds m c.ip c.id) (hclear : ¬ Clears m c.ip (.call c)) : Records m c := by
  obtain ⟨e, he, hid⟩ := hold
  have hrate : ¬ RateRefuses e c.now := fun hc => by
    rw [callBlocker_rate he hc] at hpass
    cases hpass
  have hday : ¬ DayOver e.ids c.now := fun hc => hclear ⟨rfl, e, he, hrate, hc⟩
  refine ⟨e, he, hrate, ?_⟩
  rw [if_neg hday]
  exact fun _ => hid

/-- Two calls of a run with the same IP and id, at most a day apart, of which the first passed;
the administrator has not removed the entry between them. -/
structure Again (h : Calls) (h₁ : Calls) (o₁ : BlockerOcc) (c₁ : BlockerCall) (h₂ : Calls)
    (o₂ : BlockerOcc) (c₂ : BlockerCall) : Prop where
  split : ∃ h₃, h = h₁ ++ o₁ :: (h₂ ++ o₂ :: h₃)
  first : o₁.ev = .call c₁
  second : o₂.ev = .call c₂
  ip : c₂.ip = c₁.ip
  id : c₂.id = c₁.id
  passed : o₁.out = some true
  day : c₂.now ≤ c₁.now + ofSecs DAY_SECONDS
  unremoved : ∀ o ∈ h₂, ∀ now, o.ev ≠ .command now (some c₁.ip)

/-- Once an id has passed, only the rate part refuses it for a day. -/
def AcceptedStays (h : Calls) : Prop :=
  ∀ h₁ o₁ c₁ h₂ o₂ c₂, Again h h₁ o₁ c₁ h₂ o₂ c₂ → o₂.out = some false →
    ∃ e, o₂.pre.lookup c₂.ip = some e ∧ RateRefuses e c₂.now

/-- The two calls, and the run between them. -/
theorem Again.runs {h₁ h₂ : Calls} {o₁ o₂ : BlockerOcc} {c₁ c₂ : BlockerCall}
    (hr : Run blockerStep m₀ h m) (ha : Again h h₁ o₁ c₁ h₂ o₂ c₂) :
    blockerStep o₁.pre o₁.ev = some (o₁.post, o₁.out)
      ∧ o₁.post = (callBlocker o₁.pre c₁).1 ∧ (callBlocker o₁.pre c₁).2 = true
      ∧ Run blockerStep o₁.post h₂ o₂.pre ∧ o₂.out = some (callBlocker o₂.pre c₂).2 := by
  obtain ⟨h₃, rfl⟩ := ha.split
  obtain ⟨_, hst₁, hr₁⟩ := hr.at
  obtain ⟨hr₂, hst₂, _⟩ := hr₁.at
  obtain ⟨hpost₁, hout₁⟩ := blockerStep_call (ha.first ▸ hst₁)
  obtain ⟨_, hout₂⟩ := blockerStep_call (ha.second ▸ hst₂)
  exact ⟨hst₁, hpost₁, Option.some.inj (hout₁.symm.trans ha.passed), hr₂, hout₂⟩

/-- Where the second call of such a pair finds its id, it was recorded and not cleared since. -/
theorem again_holds {h₁ h₂ : Calls} {o₁ o₂ : BlockerOcc} {c₁ c₂ : BlockerCall}
    (hr : Run blockerStep m₀ h m) (ha : Again h h₁ o₁ c₁ h₂ o₂ c₂) :
    Holds o₂.pre c₂.ip c₂.id ↔ Since (RecordedBy c₁.ip c₁.id) (ClearedBy c₁.ip) (o₁ :: h₂) := by
  obtain ⟨hst₁, _, hpass, hr₂, _⟩ := ha.runs hr
  have hrun : Run blockerStep o₁.pre (o₁ :: h₂) o₂.pre :=
    (Run.snoc Run.nil hst₁ : Run blockerStep o₁.pre [o₁] o₁.post).trans hr₂
  rw [ha.ip, ha.id, holds_run hrun, or_iff_left_of_imp]
  -- what was there before the first call, that call itself recorded
  rintro ⟨hold, hkept⟩
  have hclear : ¬ Clears o₁.pre c₁.ip (.call c₁) := by
    have hfirst := hkept o₁ List.mem_cons_self
    rwa [ClearedBy, ha.first] at hfirst
  exact ⟨[], o₁, h₂, rfl, ⟨c₁, ha.first, rfl, rfl, recorded_of_holds hpass hold hclear⟩,
    fun x hx => hkept x (List.mem_cons_of_mem _ hx)⟩

/-- For one such pair: the id has been recorded and not cleared since, or there is room. -/
theorem again_iff {h₁ h₂ : Calls} {o₁ o₂ : BlockerOcc} {c₁ c₂ : BlockerCall}
    (hr : Run blockerStep m₀ h m) (ha : Again h h₁ o₁ c₁ h₂ o₂ c₂) :
    (o₂.out = some false → ∃ e, o₂.pre.lookup c₂.ip = some e ∧ RateRefuses e c₂.now) ↔
      Since (RecordedBy c₁.ip c₁.id) (ClearedBy c₁.ip) (o₁ :: h₂) ∨ ¬ NoRoom o₂.pre c₂ := by
  obtain ⟨_, _, _, _, hout₂⟩ := ha.runs hr
  rw [hout₂, Option.some_inj, callBlocker_refuses, again_holds hr ha]
  constructor
  · intro hrate
    by_contra hno
    obtain ⟨hlost, hfull⟩ := not_or.mp hno
    obtain ⟨e, he, href⟩ := hrate (.inr ⟨not_not.mp hfull, hlost⟩)
    obtain ⟨e', he', hpass', _⟩ := not_not.mp hfull
    exact hpass' (Option.some.inj (he.symm.trans he') ▸ href)
  · rintro hkept (hrate | ⟨hfull, hlost⟩)
    · exact hrate
    · exact absurd hkept (not_or.mpr ⟨hlost, not_not.mpr hfull⟩)

/-- **An accepted id stays accepted exactly if it stays recorded**: in every run, the property
holds if and only if between any two calls at most a day apart, the first accepted, some call
(the first or a later one) leaves the id in the set and nothing clears the set after it, or the
second call finds room. -/
theorem accepted_stays_iff (hr : Run blockerStep m₀ h m) : AcceptedStays h ↔
    ∀ h₁ o₁ c₁ h₂ o₂ c₂, Again h h₁ o₁ c₁ h₂ o₂ c₂ →
      Since (RecordedBy c₁.ip c₁.id) (ClearedBy c₁.ip) (o₁ :: h₂) ∨ ¬ NoRoom o₂.pre c₂ := by
  constructor
  · intro hstays h₁ o₁ c₁ h₂ o₂ c₂ ha
    exact (again_iff hr ha).mp (hstays h₁ o₁ c₁ h₂ o₂ c₂ ha)
  · intro hkept h₁ o₁ c₁ h₂ o₂ c₂ ha
    exact (again_iff hr ha).mpr (hkept h₁ o₁ c₁ h₂ o₂ c₂ ha)

/-! ## Three hundred and one others -/

theorem asSecs_elapsed_le {t t' now k : Nat} (htime : t ≤ t') (hnow : now ≤ t + ofSecs k) :
    asSecs (elapsed now t') ≤ k := by
  unfold asSecs elapsed
  unfold ofSecs at hnow
  omega

theorem within_day {ids : Finset String × Instant} {t now : Instant} (htime : t ≤ ids.2)
    (hday : now ≤ t + ofSecs DAY_SECONDS) : ¬ DayOver ids now :=
  Nat.not_lt.mpr (asSecs_elapsed_le htime hday)

theorem callBlocker_listed {c : BlockerCall} {e : IpBlockEntry} {n : Nat × Instant}
    (he : m.lookup c.ip = some e) (hcount : attempt (ofSecs 61) 31 e.counter c.now = some n)
    (hday : ¬ DayOver e.ids c.now) (hroom : e.ids.1.card ≤ 300) :
    callBlocker m c = (m.replace c.ip ⟨n, (insert c.id e.ids.1, c.now)⟩, true) := by
  rcases callBlocker_entry he with ⟨href, _⟩ | ⟨n', ids, b, hcount', hids, hcall⟩
  · exact absurd href (rate_passed hcount)
  · obtain rfl := Option.some.inj (hcount.symm.trans hcount')
    rw [hcall]
    cases hids with
    | day hover => exact absurd hover hday
    | full _ hfull => omega
    | listed => rfl

/-- Ids of six letters and more, no two the same. -/
def peerName (n : Nat) : String := String.ofList (List.replicate (6 + n) 'a')

theorem peerName_inj : Function.Injective peerName := by
  intro n k h
  have hlen := congrArg List.length (String.ofList_injective h)
  simpa using hlen

/-- A call for the `n`-th id, a minute and a second after the one before. -/
def nthCall (n : Nat) : BlockerCall := ⟨ofSecs (61 * n), "10.0.0.1", peerName n⟩

/-- What `k` such calls after the first make of the entry. -/
def filled (k : Nat) : IpBlockEntry :=
  ⟨(min k 1, ofSecs (61 * k)),
    ((Finset.range k).image fun n => peerName (n + 1), ofSecs (61 * k))⟩

theorem filled_card (k : Nat) : (filled k).ids.1.card = k := by
  rw [filled, Finset.card_image_of_injective _ fun _ _ h => Nat.succ_injective (peerName_inj h),
    Finset.card_range]

theorem filled_succ (k : Nat) : filled (k + 1) = ⟨(1, ofSecs (61 * (k + 1))),
    (insert (peerName (k + 1)) (filled k).ids.1, ofSecs (61 * (k + 1)))⟩ := by
  simp only [filled]
  rw [Finset.range_add_one, Finset.image_insert, Nat.min_eq_right (Nat.succ_pos k)]

/-- The entry lets the next call pass its rate part. -/
theorem filled_attempt (k : Nat) : attempt (ofSecs 61) 31 (filled k).counter (ofSecs (61 * (k + 1)))
    = some (1, ofSecs (61 * (k + 1))) := by
  have hgap : ofSecs 61 ≤ ofSecs (61 * (k + 1)) - ofSecs (61 * k) := by
    unfold ofSecs
    omega
  exact if_pos hgap

theorem filled_day (k : Nat) : ¬ DayOver (filled k).ids (ofSecs (61 * (k + 1))) := by
  refine within_day (Nat.le_refl _) ?_
  have hnext : 61 * (k + 1) * 1000000000 ≤ 61 * k * 1000000000 + 86400 * 1000000000 := by omega
  exact hnext

theorem filled_room {k : Nat} (hk : k ≤ 300) {c : BlockerCall} (hip : c.ip = "10.0.0.1")
    (hm : m.lookup "10.0.0.1" = some (filled k)) : ¬ NoRoom m c := by
  rintro ⟨e, he, _, _, hfull⟩
  rw [hip, hm] at he
  obtain rfl := Option.some.inj he
  rw [filled_card] at hfull
  omega

theorem filled_run {k : Nat} (hk : k ≤ 301) (h0 : m.lookup "10.0.0.1" = some (filled 0)) :
    ∃ h m', Run blockerStep m h m' ∧ m'.lookup "10.0.0.1" = some (filled k)
      ∧ (∀ o ∈ h, ∃ j < k, o.pre.lookup "10.0.0.1" = some (filled j))
      ∧ h.map Occ.ev = (List.range k).map fun n => .call (nthCall (n + 1)) := by
  induction k with
  | zero => exact ⟨[], m, Run.nil, h0, List.forall_mem_nil _, rfl⟩
  | succ k ih =>
      obtain ⟨h, m', hr, hm', hpre, hev⟩ := ih (Nat.le_of_succ_le hk)
      have hcall := @callBlocker_listed m' (nthCall (k + 1)) _ _ hm' (filled_attempt k)
        (filled_day k) (by rw [filled_card]; omega)
      refine ⟨_, _, Run.snoc (e := .call (nthCall (k + 1))) hr rfl, ?_, ?_, ?_⟩
      · rw [hcall, filled_succ]
        exact HashMap.lookup_replace_self hm'
      · intro o ho
        rcases List.mem_append.mp ho with ho | ho
        · obtain ⟨j, hj, hlookup⟩ := hpre o ho
          exact ⟨j, Nat.lt_succ_of_lt hj, hlookup⟩
        · rw [List.mem_singleton.mp ho]
          exact ⟨k, Nat.lt_succ_self k, hm'⟩
      · rw [List.map_append, hev, List.range_succ, List.map_append]
        rfl

def lastCall : BlockerCall := ⟨ofSecs (61 * 302), "10.0.0.1", peerName 0⟩

/-- The first id, three hundred and one others, and the first again, five hours later. -/
def crowdTrace : List BlockerEvent :=
  .call (nthCall 0) :: ((List.range 301).map fun n => .call (nthCall (n + 1)))
    ++ [.call lastCall]

theorem crowdTrace_times :
    crowdTrace.map BlockerEvent.now = (List.range 303).map fun n => ofSecs (61 * n) := by
  rw [List.range_succ, List.range_succ_eq_map, crowdTrace]
  simp only [List.map_append, List.map_cons, List.map_map, List.map_nil]
  rfl

/-- The set is full, and the first id never went in. -/
theorem lastCall_refused (hm : m.lookup "10.0.0.1" = some (filled 301)) :
    NoRoom m lastCall ∧ (callBlocker m lastCall).2 = false := by
  have hroom : NoRoom m lastCall :=
    ⟨_, hm, rate_passed (filled_attempt 301), filled_day 301, by rw [filled_card]; omega⟩
  refine ⟨hroom, callBlocker_refuses.mpr (.inr ⟨hroom, ?_⟩)⟩
  rw [show lastCall.ip = "10.0.0.1" from rfl, holds_some hm]
  intro hmem
  obtain ⟨n, _, hn⟩ := Finset.mem_image.mp hmem
  cases peerName_inj hn

theorem crowd_run : ∃ o₁ g o₂, Run blockerStep ∅ (o₁ :: (g ++ [o₂])) o₂.post
    ∧ (o₁ :: (g ++ [o₂])).map Occ.ev = crowdTrace ∧ o₁.out = some true
    ∧ NoRoom o₂.pre lastCall ∧ o₂.out = some false := by
  have hfirst : blockerStep ∅ (.call (nthCall 0))
      = some ((∅ : IpBlocker).insert "10.0.0.1" (filled 0), some true) := rfl
  obtain ⟨g, m, hr, hm, _, hev⟩ := @filled_run ((∅ : IpBlocker).insert "10.0.0.1" (filled 0)) _
    (Nat.le_refl 301) (AList.lookup_insert _)
  obtain ⟨hroom, hout⟩ := lastCall_refused hm
  have hlast : blockerStep m (.call lastCall) = some ((callBlocker m lastCall).1, some false) :=
    hout ▸ rfl
  refine ⟨⟨∅, .call (nthCall 0), some true, _⟩, g, ⟨m, .call lastCall, some false, _⟩,
    (Run.snoc Run.nil hfirst).trans (Run.snoc hr hlast), ?_, rfl, hroom, rfl⟩
  rw [List.map_cons, List.map_append, hev]
  rfl

theorem accepted_id_refused : ∃ h m, Run blockerStep ∅ h m ∧ h.map Occ.ev = crowdTrace
    ∧ Timed h ∧ ¬ AcceptedStays h := by
  obtain ⟨o₁, g, o₂, hr, hev, hout₁, ⟨e, he, hpass, _⟩, hout₂⟩ := crowd_run
  refine ⟨_, _, hr, hev, ?_, ?_⟩
  · have hmap := congrArg (List.map BlockerEvent.now) hev
    rw [List.map_map, crowdTrace_times] at hmap
    unfold Timed
    rw [show (o₁ :: (g ++ [o₂])).map (fun o => o.ev.now) = _ from hmap, List.pairwise_map]
    refine List.Pairwise.imp ?_ List.pairwise_le_range
    intro n k hle
    exact Nat.mul_le_mul_right _ (Nat.mul_le_mul_left 61 hle)
  · intro hstays
    obtain ⟨hev₁, hrest⟩ := List.cons_eq_cons.mp hev
    rw [List.map_append] at hrest
    obtain ⟨hothers, hev₂⟩ := List.append_inj' hrest rfl
    have ha : Again (o₁ :: (g ++ [o₂])) [] o₁ (nthCall 0) g o₂ lastCall := by
      refine ⟨⟨[], rfl⟩, hev₁, List.singleton_inj.mp hev₂, rfl, rfl, hout₁, by decide, ?_⟩
      intro o ho now hcmd
      have hmem := List.mem_map_of_mem (f := Occ.ev) ho
      rw [hothers, hcmd] at hmem
      obtain ⟨n, _, hn⟩ := List.mem_map.mp hmem
      cases hn
    obtain ⟨e', he', href⟩ := hstays _ _ _ _ _ _ ha hout₂
    exact hpass (Option.some.inj (he'.symm.trans he) ▸ href)

/-! ## Two runs in which they stay -/

/-- Three calls for two ids, and the first of them again. -/
def repeatTrace : List BlockerEvent :=
  [(0, "peer-1"), (1, "peer-2"), (2, "peer-1"), (3, "peer-1")].map fun r =>
    .call ⟨ofSecs r.1, "10.0.0.1", r.2⟩

/-- Nothing fills up. -/
theorem repeat_stays :
    ∃ h m, Run blockerStep ∅ h m ∧ h.map Occ.ev = repeatTrace ∧ ∀ o ∈ h, ∀ c, o.ev = .call c →
      ¬ NoRoom o.pre c := by
  obtain ⟨h, m, hr, hev, hp⟩ := @exists_run _ _ _ blockerStep ∅ repeatTrace
    (fun h _ => h.all fun o => ((o.pre.lookup "10.0.0.1").all fun e => e.ids.1.card ≤ 300))
    (by decide +kernel)
  refine ⟨h, m, hr, hev, ?_⟩
  rintro o ho c hc ⟨e, he, _, _, hfull⟩
  have hip : c.ip = "10.0.0.1" := by
    have hmem := List.mem_map_of_mem (f := Occ.ev) ho
    rw [hev, hc] at hmem
    obtain ⟨r, _, hr⟩ := List.mem_map.mp hmem
    exact (congrArg BlockerCall.ip (BlockerEvent.call.inj hr)).symm
  have hroom := List.all_eq_true.mp hp o ho
  rw [← hip, he, Option.all_some, decide_eq_true_iff] at hroom
  omega

/-- The second id again, which did go in. -/
def recordedCall : BlockerCall := ⟨ofSecs (61 * 302), "10.0.0.1", peerName 1⟩

/-- The crowd, and then the second id. -/
def recordedTrace : List BlockerEvent :=
  .call (nthCall 0) :: ((List.range 301).map fun n => .call (nthCall (n + 1)))
    ++ [.call recordedCall]

/-- The set is full, and the second id is in it. -/
theorem recordedCall_passes (hm : m.lookup "10.0.0.1" = some (filled 301)) :
    NoRoom m recordedCall ∧ Holds m "10.0.0.1" (peerName 1)
      ∧ (callBlocker m recordedCall).2 = true := by
  have hpass : ¬ RateRefuses (filled 301) recordedCall.now := rate_passed (filled_attempt 301)
  have hholds : Holds m "10.0.0.1" (peerName 1) :=
    (holds_some hm).mpr (Finset.mem_image.mpr ⟨0, Finset.mem_range.mpr (by omega), rfl⟩)
  refine ⟨⟨_, hm, hpass, filled_day 301, by rw [filled_card]; omega⟩, hholds, ?_⟩
  refine eq_true_of_ne_false fun hout => ?_
  rcases callBlocker_refuses.mp hout with ⟨e, he, href⟩ | ⟨_, hlost⟩
  · exact hpass (Option.some.inj (hm.symm.trans he) ▸ href)
  · exact hlost hholds

/-- The crowd, in which there is room, and the second id after it, which is in the set. -/
theorem recorded_run : ∃ o₁ g o₂ m, Run blockerStep ∅ (o₁ :: (g ++ [o₂])) m
    ∧ (o₁ :: (g ++ [o₂])).map Occ.ev = recordedTrace
    ∧ (∀ o ∈ o₁ :: g, ∀ c, o.ev = .call c → ¬ NoRoom o.pre c)
    ∧ NoRoom o₂.pre recordedCall ∧ Holds o₂.pre "10.0.0.1" (peerName 1)
    ∧ o₂.ev = .call recordedCall ∧ o₂.out = some true := by
  have hfirst : blockerStep ∅ (.call (nthCall 0))
      = some ((∅ : IpBlocker).insert "10.0.0.1" (filled 0), some true) := rfl
  obtain ⟨g, m, hr, hm, hpre, hev⟩ := @filled_run ((∅ : IpBlocker).insert "10.0.0.1" (filled 0)) _
    (Nat.le_refl 301) (AList.lookup_insert _)
  obtain ⟨hfull, hholds, hout⟩ := recordedCall_passes hm
  have hlast : blockerStep m (.call recordedCall)
      = some ((callBlocker m recordedCall).1, some true) := hout ▸ rfl
  refine ⟨⟨∅, .call (nthCall 0), some true, _⟩, g, ⟨m, .call recordedCall, some true, _⟩, _,
    (Run.snoc Run.nil hfirst).trans (Run.snoc hr hlast), ?_, ?_, hfull, hholds, rfl, rfl⟩
  · rw [List.map_cons, List.map_append, hev]
    rfl
  · intro o ho c hc
    rcases List.mem_cons.mp ho with rfl | ho
    · -- the first call of all finds no entry
      rintro ⟨e, he, _⟩
      cases he
    · obtain ⟨k, hk, hlookup⟩ := hpre o ho
      refine filled_room (Nat.le_of_lt_succ hk) ?_ hlookup
      have hmem := List.mem_map_of_mem (f := Occ.ev) ho
      rw [hev, hc] at hmem
      obtain ⟨n, _, hn⟩ := List.mem_map.mp hmem
      exact (congrArg BlockerCall.ip (BlockerEvent.call.inj hn)).symm

/-- Among few ids there is room, and in the crowd the id that comes again is on record. -/
theorem accepted_stays_repeated :
    (∃ h m, Run blockerStep ∅ h m ∧ h.map Occ.ev = repeatTrace ∧ AcceptedStays h)
      ∧ ∃ h m, Run blockerStep ∅ h m ∧ h.map Occ.ev = recordedTrace ∧ AcceptedStays h
        ∧ ∃ o ∈ h, o.ev = .call recordedCall ∧ NoRoom o.pre recordedCall ∧ o.out = some true := by
  constructor
  · obtain ⟨h, m, hr, hev, hroom⟩ := repeat_stays
    refine ⟨h, m, hr, hev, (accepted_stays_iff hr).mpr ?_⟩
    intro h₁ o₁ c₁ h₂ o₂ c₂ ha
    obtain ⟨h₃, rfl⟩ := ha.split
    exact .inr (hroom o₂ (by simp) c₂ ha.second)
  · obtain ⟨o, g, last, m, hr, hev, hroom, hfull, hholds, hlast, hout⟩ := recorded_run
    refine ⟨_, m, hr, hev, (accepted_stays_iff hr).mpr ?_, last, by simp, hlast, hfull, hout⟩
    intro h₁ o₁ c₁ h₂ o₂ c₂ ha
    have ho₂ : o₂ ∈ (o :: g) ++ [last] := by
      obtain ⟨h₃, hsplit⟩ := ha.split
      rw [List.cons_append, hsplit]
      simp
    rcases List.mem_append.mp ho₂ with hearly | hlate
    · exact .inr (hroom o₂ hearly c₂ ha.second)
    · refine .inl ((again_holds hr ha).mp ?_)
      obtain rfl := List.mem_singleton.mp hlate
      obtain rfl := BlockerEvent.call.inj (hlast.symm.trans ha.second)
      exact hholds

/-! ## The ids that do stay -/

/-- The call puts its id in the set and moves the set's time. -/
def Enters (m : IpBlocker) (c : BlockerCall) : Prop :=
  ∃ e, m.lookup c.ip = some e ∧ ¬ RateRefuses e c.now
    ∧ if DayOver e.ids c.now then c.id ∉ e.ids.1 else e.ids.1.card ≤ 300

/-- The id is in the set, and the set's time is not before `t`. -/
def FreshId (m : IpBlocker) (ip id : String) (t : Instant) : Prop :=
  ∃ e, m.lookup ip = some e ∧ id ∈ e.ids.1 ∧ t ≤ e.ids.2

theorem freshId_of_enters {c : BlockerCall} (hc : Enters m c) :
    FreshId (callBlocker m c).1 c.ip c.id c.now := by
  obtain ⟨e, he, hpass, henter⟩ := hc
  rcases callBlocker_entry he with ⟨href, _⟩ | ⟨n, ids, b, _, hids, hcall⟩
  · exact absurd href hpass
  · rw [hcall]
    refine ⟨_, HashMap.lookup_replace_self he, ?_⟩
    cases hids with
    | day hday =>
        rw [if_pos hday] at henter
        simp [henter]
    | full hday hfull =>
        rw [if_neg hday] at henter
        omega
    | listed hday hroom => simp

/-- Within the day no call clears the set. -/
theorem freshId_call {c : BlockerCall} {t : Instant} (hf : FreshId m ip id t)
    (hafter : t ≤ c.now) (hday : c.now ≤ t + ofSecs DAY_SECONDS) :
    FreshId (callBlocker m c).1 ip id t := by
  by_cases hip : ip = c.ip
  · subst hip
    obtain ⟨e, he, hid, htime⟩ := hf
    have hnot := within_day htime hday
    rcases callBlocker_entry he with ⟨_, hcall⟩ | ⟨n, ids, b, _, hids, hcall⟩
    · rw [hcall]
      exact ⟨e, he, hid, htime⟩
    · rw [hcall]
      refine ⟨_, HashMap.lookup_replace_self he, ?_⟩
      cases hids with
      | day hover => exact absurd hover hnot
      | full => exact ⟨hid, htime⟩
      | listed => exact ⟨Finset.mem_insert_of_mem hid, hafter⟩
  · rw [FreshId, callBlocker_frame hip]
    exact hf

theorem freshId_command {now t : Instant} {removed : Option String} (hf : FreshId m ip id t)
    (hday : now ≤ t + ofSecs DAY_SECONDS) (hkeep : removed ≠ some ip) :
    FreshId (ipBlockerCmd m now removed) ip id t := by
  obtain ⟨e, he, hid, htime⟩ := hf
  have hcounts : StillCounts e now := .inr (Nat.not_lt.mp (within_day htime hday))
  refine ⟨e, ?_, hid, htime⟩
  rw [lookup_ipBlockerCmd, if_neg hkeep, he]
  simp [hcounts]

theorem freshId_run {t : Instant} (hr : Run blockerStep m₀ h m) (hf : FreshId m₀ ip id t)
    (htimes : ∀ o ∈ h, t ≤ o.ev.now ∧ o.ev.now ≤ t + ofSecs DAY_SECONDS)
    (hkeep : ∀ o ∈ h, ∀ now, o.ev ≠ .command now (some ip)) : FreshId m ip id t := by
  refine Run.inv_of (C := fun _ ev => (t ≤ ev.now ∧ ev.now ≤ t + ofSecs DAY_SECONDS)
    ∧ ∀ now, ev ≠ .command now (some ip)) (I := fun _ m => FreshId m ip id t) hf ?_ hr
    fun o ho => ⟨htimes o ho, hkeep o ho⟩
  rintro _ m (c | ⟨now, removed⟩) m' out hf ⟨⟨hafter, hday⟩, hne⟩ hst
  · rw [(blockerStep_call hst).1]
    exact freshId_call hf hafter hday
  · obtain ⟨rfl, _⟩ := Prod.mk.inj (Option.some.inj hst)
    exact freshId_command hf hday fun hrem => hne now (hrem ▸ rfl)

/-- What happens between two calls happens at a time between theirs. -/
theorem timed_between {h₁ h₂ h₃ : Calls} {o₁ o₂ : BlockerOcc}
    (ht : Timed (h₁ ++ o₁ :: (h₂ ++ o₂ :: h₃))) {x : BlockerOcc} (hx : x ∈ h₂) :
    o₁.ev.now ≤ x.ev.now ∧ x.ev.now ≤ o₂.ev.now := by
  unfold Timed at ht
  rw [List.map_append, List.map_cons, List.map_append, List.map_cons] at ht
  obtain ⟨hfirst, hrest⟩ := List.pairwise_cons.mp (List.pairwise_append.mp ht).2.1
  have hmem := List.mem_map_of_mem (f := fun o : BlockerOcc => o.ev.now) hx
  exact ⟨hfirst _ (List.mem_append_left _ hmem),
    (List.pairwise_append.mp hrest).2.2 _ hmem _ List.mem_cons_self⟩

/-- An id that entered the set stays accepted for a day. -/
theorem entered_stays {h₁ h₂ : Calls} {o₁ o₂ : BlockerOcc} {c₁ c₂ : BlockerCall}
    (hr : Run blockerStep m₀ h m) (ht : Timed h) (ha : Again h h₁ o₁ c₁ h₂ o₂ c₂)
    (henter : Enters o₁.pre c₁) (hout : o₂.out = some false) :
    ∃ e, o₂.pre.lookup c₂.ip = some e ∧ RateRefuses e c₂.now := by
  obtain ⟨_, hpost₁, _, hr₂, hout₂⟩ := ha.runs hr
  have hf : FreshId o₁.post c₁.ip c₁.id c₁.now := by
    rw [hpost₁]
    exact freshId_of_enters henter
  have htimes : ∀ x ∈ h₂, c₁.now ≤ x.ev.now ∧ x.ev.now ≤ c₂.now := by
    intro x hx
    obtain ⟨h₃, rfl⟩ := ha.split
    have hbetween := timed_between ht hx
    rwa [ha.first, ha.second] at hbetween
  obtain ⟨e, he, hid, _⟩ := freshId_run hr₂ hf
    (fun x hx => ⟨(htimes x hx).1, (htimes x hx).2.trans ha.day⟩) ha.unremoved
  rcases callBlocker_refuses.mp (Option.some.inj (hout₂.symm.trans hout)) with hrate | ⟨_, hlost⟩
  · exact hrate
  · rw [ha.ip, ha.id] at hlost
    exact absurd ⟨e, he, hid⟩ hlost

/-- So the property holds of every run whose accepted calls all enter. -/
theorem accepted_stays_of_enters (hr : Run blockerStep m₀ h m) (ht : Timed h)
    (henters : ∀ o ∈ h, ∀ c, o.ev = .call c → o.out = some true → Enters o.pre c) :
    AcceptedStays h := by
  intro h₁ o₁ c₁ h₂ o₂ c₂ ha
  obtain ⟨h₃, hsplit⟩ := ha.split
  exact entered_stays hr ht ha (henters o₁ (by simp [hsplit]) c₁ ha.first ha.passed)

end KinBridge.Proof
