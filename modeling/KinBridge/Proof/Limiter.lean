import KinBridge.Lib.Burst
import KinBridge.Proof.Admission

/-!
# How often a peer may send its key

Every record carries a limiter, `reg_pk`: a count, and the time of the last `RegisterPk`
that was let pass. Seven seconds of quiet start the count over; a fourth message without
such a pause is refused. The test is on whole seconds, `> 6`, and it moves the time with
every message that passes, so three messages spread over almost fourteen seconds fill it.

A record comes into memory with a count of zero, and nothing but an accepted `RegisterPk`
changes it, until a restart forgets it.
-/

namespace KinBridge.Proof

open KinBridge Runs Slots Burst

variable {X : Ext} {key : String} {cfg : Config}

/-- The limiter is a burst limiter: three at a time, seven seconds apart. -/
theorem rkLimit_eq (reqPk : Nat × Instant) (now : Instant) :
    rkLimit reqPk now = attempt (ofSecs 7) 3 reqPk now := by
  have hquiet : asSecs (elapsed now reqPk.2) > 6 ↔ ofSecs 7 ≤ now - reqPk.2 := by
    unfold asSecs elapsed ofSecs
    omega
  unfold rkLimit attempt
  by_cases hgap : ofSecs 7 ≤ now - reqPk.2
  · rw [if_pos (hquiet.mpr hgap), if_pos hgap]
  · rw [if_neg (fun hc => hgap (hquiet.mp hc)), if_neg hgap]
    by_cases hfull : reqPk.1 > 2
    · rw [if_pos hfull, if_neg (by omega)]
    · rw [if_neg hfull, if_pos (by omega)]

/-- The time at which the step accepted a key for `id`. -/
def acceptedAt (id : String) (o : Occ Server Event Out) : Option Instant :=
  match o.ev, o.out with
  | .udp io addr (some (.registerPk rk)), .udp out =>
    if rk.id = id ∧ out.sends.contains (.registerPkResponse .OK, addr) then some io.now else none
  | _, _ => none

/-- When the running process accepted keys for `id`, newest first. -/
def acceptedTimes (id : String) (h : List (Occ Server Event Out)) : List Instant :=
  h.foldl (fun acc o =>
    match o.ev with
    | .restart => []
    | _ => (acceptedAt id o).toList ++ acc) []

theorem acceptedTimes_restart {id : String} {h : List (Occ Server Event Out)}
    {o : Occ Server Event Out} (hev : o.ev = .restart) : acceptedTimes id (h ++ [o]) = [] := by
  rw [acceptedTimes, List.foldl_append]
  simp [hev]

theorem acceptedTimes_snoc {id : String} {h : List (Occ Server Event Out)}
    {o : Occ Server Event Out} (hev : o.ev ≠ .restart) :
    acceptedTimes id (h ++ [o]) = (acceptedAt id o).toList ++ acceptedTimes id h := by
  rw [acceptedTimes, List.foldl_append]
  dsimp only [List.foldl_cons, List.foldl_nil]
  split
  · exact absurd ‹_› hev
  · rfl

theorem acceptedAt_eq_some {id : String} {o : Occ Server Event Out} {t : Instant} :
    acceptedAt id o = some t ↔
      ∃ io addr rk, rk.id = id ∧ io.now = t ∧ Answered o io addr rk .OK := by
  unfold acceptedAt Answered
  constructor
  · intro hacc
    split at hacc
    · rename_i io addr rk out hev hout
      split at hacc
      · rename_i hc
        exact ⟨io, addr, rk, hc.1, Option.some.inj hacc, hev, out, hout,
          List.contains_iff_mem.mp hc.2⟩
      · cases hacc
    · cases hacc
  · rintro ⟨io, addr, rk, rfl, rfl, hev, out, hout, hmem⟩
    rw [hev, hout]
    exact if_pos ⟨rfl, List.contains_iff_mem.mpr hmem⟩

/-- An accepted key is accepted at the time of its step. -/
theorem acceptedTimes_past {id : String} {t : Instant} : ∀ {h : List (Occ Server Event Out)},
    t ∈ acceptedTimes id h → ∃ o ∈ h, ∃ io, o.ev.io = some io ∧ io.now = t := by
  intro h
  induction h using List.reverseRecOn with
  | nil => intro ht; cases ht
  | append_singleton h o ih =>
      intro ht
      by_cases hev : o.ev = .restart
      · rw [acceptedTimes_restart hev] at ht
        cases ht
      · rw [acceptedTimes_snoc hev] at ht
        rcases List.mem_append.mp ht with ht | ht
        · obtain ⟨io, addr, rk, _, hnow, hev', _⟩ :=
            acceptedAt_eq_some.mp (Option.mem_toList.mp ht)
          exact ⟨o, by simp, io, by rw [hev']; rfl, hnow⟩
        · obtain ⟨x, hx, hrest⟩ := ih ht
          exact ⟨x, List.mem_append_left _ hx, hrest⟩

/-! ## The limiter of a record -/

/-- The limiter of `id`, counting nothing where there is no record. -/
def limiterOf (pm : PeerMap) (id : String) : Nat × Instant :=
  match pm.map id with
  | some p => p.regPk
  | none => (0, 0)

/-- The same limiter, or two that count nothing. -/
def SameLimit (st st' : Nat × Instant) : Prop := st' = st ∨ (st.1 = 0 ∧ st'.1 = 0)

theorem SameLimit.tracks {gap : Nat} {st st' : Nat × Instant} {acc : List Nat}
    (hs : SameLimit st st') (h : Tracks gap st acc) : Tracks gap st' acc := by
  rcases hs with rfl | ⟨hzero, hzero'⟩
  · exact h
  · have hnone : streak gap acc = 0 := h.count.symm.trans hzero
    cases acc with
    | nil => exact tracks_nil hzero'
    | cons t ts =>
        have hpos := streak_pos gap t ts
        omega

theorem limiterOf_some {pm : PeerMap} {id : String} {p : Peer} (h : pm.map id = some p) :
    limiterOf pm id = p.regPk := by
  rw [limiterOf, h]

theorem limiterOf_put {pm : PeerMap} {db : Table} {id : String} {p : Peer} :
    limiterOf ⟨put pm.map id p, db⟩ id = p.regPk :=
  limiterOf_some (put_self ..)

theorem limiterOf_none {pm : PeerMap} {id : String} (h : pm.map id = none) :
    (limiterOf pm id).1 = 0 := by
  rw [limiterOf, h]

theorem limiterOf_congr {pm pm' : PeerMap} {id : String} (h : pm'.map id = pm.map id) :
    limiterOf pm' id = limiterOf pm id := by
  rw [limiterOf, limiterOf, h]

/-- The record that `get_or` hands out has the limiter in memory, or a fresh one. -/
theorem sameLimit_getOr {pm : PeerMap} {io : DbIo} {id : String} :
    SameLimit (limiterOf pm id) (pm.getOr X.toInfoJson io id).2.regPk := by
  have horig := PeerMap.getOr_origin X.toInfoJson pm io id
  generalize (pm.getOr X.toInfoJson io id).2 = peer at horig
  cases horig with
  | memory hp => exact .inl (limiterOf_some hp).symm
  | row hm => exact .inr ⟨limiterOf_none hm, rfl⟩
  | blank hm => exact .inr ⟨limiterOf_none hm, rfl⟩

theorem sameLimit_looked {pm pm' : PeerMap} {io : DbIo} {id : String}
    (hl : Looked X io pm pm') : SameLimit (limiterOf pm id) (limiterOf pm' id) := by
  cases hm : pm.map id with
  | some p => exact .inl (limiterOf_congr ((looked_memory hl hm).trans hm.symm))
  | none =>
      refine .inr ⟨limiterOf_none hm, ?_⟩
      rcases hl with rfl | ⟨id', rfl⟩
      · exact limiterOf_none hm
      · rcases PeerMap.get_cases pm io id' with ⟨q, hq⟩ | ⟨hm', hr, v, hv⟩ | ⟨hm', hr⟩
        · rw [PeerMap.get_of_memory hq]
          exact limiterOf_none hm
        · rw [PeerMap.get_of_row hm' hr hv]
          by_cases hid : id = id'
          · subst hid
            rw [limiterOf_put]
            rfl
          · exact limiterOf_none ((put_ne hid).trans hm)
        · rw [PeerMap.get_of_none hm' hr]
          exact limiterOf_none hm

theorem sameLimit_updateAddr {pm : PeerMap} {now : Instant} {id id' : String}
    {addr : SocketAddr} : limiterOf (updateAddr pm now id' addr).1 id = limiterOf pm id := by
  rcases updateAddr_cases pm now id' addr with heq | ⟨old, hold, heq⟩
  · rw [heq]
  · rw [heq]
    by_cases hid : id = id'
    · subst hid
      rw [limiterOf_put, limiterOf_some hold]
    · exact limiterOf_congr (put_ne hid)

/-! ## One step -/

/-- What one `RegisterPk` for `id` does to the limiter: an accepted one is an admission, any
other leaves it. -/
theorem limiter_registerPk {s : Server} {io : DbIo} {addr : SocketAddr} {rk : RegisterPk} :
    ((handleRegisterPk X s io addr rk).2 = some .OK ∧
        rkLimit (s.pm.getOr X.toInfoJson io rk.id).2.regPk io.now
          = some (limiterOf (handleRegisterPk X s io addr rk).1.pm rk.id))
      ∨ ((handleRegisterPk X s io addr rk).2 ≠ some .OK ∧
        SameLimit (limiterOf s.pm rk.id)
          (limiterOf (handleRegisterPk X s io addr rk).1.pm rk.id)) := by
  have hout := handleRegisterPk_cases X s io addr rk
  generalize hpm : (handleRegisterPk X s io addr rk).1.pm = pm' at hout ⊢
  generalize (handleRegisterPk X s io addr rk).2 = r at hout ⊢
  cases hout with
  | silent => exact .inr ⟨nofun, .inl rfl⟩
  | turnedAway _ hne => exact .inr ⟨fun heq => hne (Option.some.inj heq), .inl rfl⟩
  | refused _ hne =>
      refine .inr ⟨fun heq => hne (Option.some.inj heq), ?_⟩
      rw [limiterOf_put]
      exact sameLimit_getOr
  | unchanged _ _ hlim =>
      refine .inl ⟨rfl, ?_⟩
      rw [limiterOf_put]
      exact hlim
  | stored _ _ hlim hupd =>
      refine .inl ⟨rfl, ?_⟩
      obtain ⟨g, hmap⟩ := stored_record hupd
      rw [limiterOf_some (by rw [hmap, put_self])]
      exact hlim

theorem handleRegisterPk_frame {s : Server} {io : DbIo} {addr : SocketAddr} {rk : RegisterPk}
    {id : String} (hid : id ≠ rk.id) :
    (handleRegisterPk X s io addr rk).1.pm.map id = s.pm.map id := by
  have hout := handleRegisterPk_cases X s io addr rk
  generalize (handleRegisterPk X s io addr rk).1.pm = pm' at hout ⊢
  generalize (handleRegisterPk X s io addr rk).2 = r at hout
  cases hout with
  | silent => rfl
  | turnedAway => rfl
  | refused => exact put_ne hid
  | unchanged => exact put_ne hid
  | stored _ _ _ hupd =>
      obtain ⟨g, hmap⟩ := stored_record hupd
      rw [hmap, put_ne hid]

/-- Every step but a restart either accepts a key, as the limiter allows, or leaves the limiter. -/
theorem limiter_step {o : Occ Server Event Out} (id : String) (hne : o.ev ≠ .restart)
    (hst : hbbs X key cfg o.pre o.ev = some (o.post, o.out)) :
    (∃ t st, acceptedAt id o = some t ∧ SameLimit (limiterOf o.pre.pm id) st
        ∧ rkLimit st t = some (limiterOf o.post.pm id) ∧ ∃ io, o.ev.io = some io ∧ io.now = t)
      ∨ (acceptedAt id o = none ∧ SameLimit (limiterOf o.pre.pm id) (limiterOf o.post.pm id)) := by
  cases hacc : acceptedAt id o with
  | some t =>
      obtain ⟨io, addr, rk, rfl, rfl, hans⟩ := acceptedAt_eq_some.mp hacc
      obtain ⟨hev, hok⟩ := (answered_iff hst).mp hans
      have hpost : o.post = (handleRegisterPk X o.pre io.toDbIo addr rk).1 := by
        rw [hev] at hst
        rw [(hbbs_udp.mp hst).1, (handleUdp_registerPk ..).1]
      rcases @limiter_registerPk X o.pre io.toDbIo addr rk with ⟨_, hlim⟩ | ⟨hno, _⟩
      · rw [← hpost] at hlim
        exact .inl ⟨_, _, rfl, sameLimit_getOr, hlim, io, by rw [hev]; rfl, rfl⟩
      · exact absurd hok hno
  | none =>
      refine .inr ⟨rfl, ?_⟩
      have hpm := hbbs_pm hst
      generalize hev : o.ev = e at hpm hne
      generalize hpost : o.post.pm = pm' at hpm ⊢
      cases hpm with
      | registerPeer => exact .inl sameLimit_updateAddr
      | looked _ hl => exact sameLimit_looked hl
      | restart => exact absurd rfl hne
      | @registerPk io addr rk =>
          by_cases hid : id = rk.id
          · subst hid
            rcases @limiter_registerPk X o.pre io.toDbIo addr rk with ⟨hok, _⟩ | ⟨_, hsame⟩
            · have hans := (answered_iff (o := o) hst).mpr ⟨hev, hok⟩
              have hsome := acceptedAt_eq_some.mpr ⟨io, addr, rk, rfl, rfl, hans⟩
              rw [hacc] at hsome
              cases hsome
            · exact hsame
          · exact .inl (limiterOf_congr (handleRegisterPk_frame hid))

/-! ## Over runs -/

/-- The message gets as far as the limiter: past the blocker, the uuid and the key checks. -/
def ReachesLimiter (X : Ext) (s : Server) (io : DbIo) (addr : SocketAddr) (rk : RegisterPk) :
    Prop :=
  ReachesRecord s io.now addr rk
    ∧ rkChanged (s.pm.getOr X.toInfoJson io rk.id).2 rk addr.ip.toString ≠ none

/-- There the limiter alone decides. -/
theorem limiter_decides {s : Server} {io : DbIo} {addr : SocketAddr} {rk : RegisterPk}
    (hreach : ReachesLimiter X s io addr rk) :
    (handleRegisterPk X s io addr rk).2 = some .TOO_FREQUENT
      ↔ rkLimit (s.pm.getOr X.toInfoJson io rk.id).2.regPk io.now = none := by
  obtain ⟨⟨huuid, hpk, hlen, hblock⟩, hch⟩ := hreach
  rw [handleRegisterPk, if_neg (not_or.mpr ⟨huuid, hpk⟩)]
  dsimp only
  rw [if_neg (Nat.not_lt.mpr hlen)]
  generalize checkIpBlocker s.ipBlocker io.now addr.ip.toString rk.id = r at hblock ⊢
  obtain ⟨blocker, b⟩ := r
  obtain rfl := hblock
  dsimp only
  split
  · exact absurd ‹_› hch
  · split
    · rename_i hlim
      exact iff_of_true rfl hlim
    · rename_i hlim
      exact iff_of_false (by simp) (by simp [hlim])

/-- What the limiter of `id` and the history of accepted keys have to do with each other. -/
structure LimitInv (id : String) (h : List (Occ Server Event Out)) (s : Server) : Prop where
  tracks : Tracks (ofSecs 7) (limiterOf s.pm id) (acceptedTimes id h)
  paced : Paced (ofSecs 7) 3 (acceptedTimes id h)

theorem limitInv_step {id : String} {h : List (Occ Server Event Out)}
    {o : Occ Server Event Out} (hi : LimitInv id h o.pre) (hc : Clocked (h ++ [o]))
    (hst : hbbs X key cfg o.pre o.ev = some (o.post, o.out)) :
    LimitInv id (h ++ [o]) o.post := by
  by_cases hne : o.ev = .restart
  · rw [hne] at hst
    obtain ⟨hpost, _⟩ := Prod.mk.inj (Option.some.inj hst)
    have hnone : o.post.pm.map id = none := by rw [← hpost]; rfl
    have hzero := limiterOf_none hnone
    exact ⟨acceptedTimes_restart hne ▸ tracks_nil hzero, acceptedTimes_restart hne ▸ trivial⟩
  · have hsnoc : acceptedTimes id (h ++ [o]) = (acceptedAt id o).toList ++ acceptedTimes id h :=
      acceptedTimes_snoc hne
    rcases limiter_step id hne hst with ⟨t, st, hacc, hsame, hlim, io, hio, hnow⟩ | ⟨hacc, hsame⟩
    · rw [hacc, Option.toList_some, List.singleton_append] at hsnoc
      rw [rkLimit_eq] at hlim
      have htracks := hsame.tracks hi.tracks
      constructor
      · rw [hsnoc]
        exact htracks.admit hlim
      · rw [hsnoc]
        refine ⟨?_, ?_, hi.paced⟩
        · -- what was accepted before was accepted in an earlier step
          intro x hx
          obtain ⟨y, hy, io', hio', rfl⟩ := acceptedTimes_past hx
          exact hnow ▸ (clocked_snoc hc).2 y hy io' io hio' hio
        · rw [← attempt_eq_none htracks (by decide), hlim]
          simp
    · rw [hacc, Option.toList_none, List.nil_append] at hsnoc
      exact ⟨hsnoc ▸ hsame.tracks hi.tracks, hsnoc ▸ hi.paced⟩

theorem limitInv_run (id : String) {s₀ s : Server} {h : List (Occ Server Event Out)}
    (hr : Run (hbbs X key cfg) s₀ h s) (hc : Clocked h) (h0 : (limiterOf s₀.pm id).1 = 0) :
    LimitInv id h s := by
  refine Run.inv (I := fun h s => Clocked h → LimitInv id h s) ?_ ?_ hr hc
  · exact fun _ => ⟨tracks_nil h0, trivial⟩
  · intro h s e s' o ih hst hc
    exact limitInv_step (o := ⟨s, e, o, s'⟩) (ih (clocked_snoc hc).1) hc hst

/-- A full streak of three, spelled out. -/
theorem full_three {gap now : Nat} {acc : List Nat} (hpaced : Paced gap 3 acc)
    (hpast : ∀ t ∈ acc, t ≤ now) : Full gap 3 acc now ↔
      ∃ a b c older, acc = c :: b :: a :: older ∧ a ≤ b ∧ b ≤ c ∧ c ≤ now
        ∧ b - a < gap ∧ c - b < gap ∧ now - c < gap := by
  constructor
  · rintro ⟨hlong, c, ts, rfl, hnow⟩
    match ts, hlong, hpaced with
    | [], hlong, _ => exact absurd hlong (by simp [streak])
    | [b], hlong, _ =>
        rw [streak] at hlong
        split at hlong <;> simp [streak] at hlong
    | b :: a :: older, hlong, hpaced =>
        have hcb := hpaced.1 b List.mem_cons_self
        have hba := hpaced.2.2.1 a List.mem_cons_self
        rw [streak, streak] at hlong
        split at hlong
        · split at hlong
          · exact ⟨a, b, c, older, rfl, hba, hcb, hpast c List.mem_cons_self, ‹_›, ‹_›, hnow⟩
          · omega
        · omega
  · rintro ⟨a, b, c, older, rfl, _, _, _, hba, hcb, hnow⟩
    have hpos := streak_pos gap a older
    refine ⟨?_, c, _, rfl, hnow⟩
    rw [streak, if_pos hcb, streak, if_pos hba]
    omega

structure LimiterExact (X : Ext) (h : List (Occ Server Event Out)) : Prop where
  /-- A key that gets as far as the limiter is refused exactly if the last three accepted ones,
  and this one after them, are less than seven seconds apart each. -/
  refusal : ∀ h₁ o h₂, h = h₁ ++ o :: h₂ → ∀ io addr rk,
    o.ev = .udp io addr (some (.registerPk rk)) → ReachesLimiter X o.pre io.toDbIo addr rk →
    (Answered o io addr rk .TOO_FREQUENT ↔
      ∃ a b c older, acceptedTimes rk.id h₁ = c :: b :: a :: older ∧ a ≤ b ∧ b ≤ c ∧ c ≤ io.now
        ∧ b - a < ofSecs 7 ∧ c - b < ofSecs 7 ∧ io.now - c < ofSecs 7)
  /-- No window shorter than seven seconds holds four accepted keys. -/
  window : ∀ id w d, d < ofSecs 7 →
    (acceptedTimes id h).countP (fun t => w ≤ t ∧ t ≤ w + d) ≤ 3
  /-- A refusal leaves the limiter as it was. -/
  kept : ∀ o ∈ h, ∀ io addr rk, Answered o io addr rk .TOO_FREQUENT →
    SameLimit (limiterOf o.pre.pm rk.id) (limiterOf o.post.pm rk.id)

/-- **The limiter, exactly**: over every run of `hbbs` that begins with fresh limiters. -/
theorem limiter_exact {s₀ s : Server} {h : List (Occ Server Event Out)}
    (hr : Run (hbbs X key cfg) s₀ h s) (hc : Clocked h)
    (h0 : ∀ id, (limiterOf s₀.pm id).1 = 0) : LimiterExact X h := by
  constructor
  case refusal =>
    intro h₁ o h₂ hsplit io addr rk hev hreach
    rw [hsplit] at hr hc
    obtain ⟨hr₁, hst, _⟩ := hr.at
    rw [List.append_cons] at hc
    obtain ⟨hc₁, hlast⟩ := clocked_snoc (List.pairwise_append.mp (by
      rwa [Clocked, List.filterMap_append] at hc)).1
    have hi := limitInv_run rk.id hr₁ hc₁ (h0 rk.id)
    have hpast : ∀ t ∈ acceptedTimes rk.id h₁, t ≤ io.now := by
      intro t ht
      obtain ⟨x, hx, io', hio', rfl⟩ := acceptedTimes_past ht
      exact hlast x hx io' io hio' (by rw [hev]; rfl)
    rw [answered_iff hst, and_iff_right hev, limiter_decides hreach, rkLimit_eq,
      attempt_eq_none (sameLimit_getOr.tracks hi.tracks) (by decide), full_three hi.paced hpast]
  case window =>
    intro id w d hd
    exact (limitInv_run id hr hc (h0 id)).paced.window (by decide) hd
  case kept =>
    intro o ho io addr rk hans
    obtain ⟨_, _, _, _, hst, _⟩ := hr.mem ho
    obtain ⟨hev, hanswer⟩ := (answered_iff hst).mp hans
    have hpost : o.post = (handleRegisterPk X o.pre io.toDbIo addr rk).1 := by
      rw [hev] at hst
      rw [(hbbs_udp.mp hst).1, (handleUdp_registerPk ..).1]
    rw [hpost]
    rcases @limiter_registerPk X o.pre io.toDbIo addr rk with ⟨hok, _⟩ | ⟨_, hsame⟩
    · rw [hok] at hanswer
      cases hanswer
    · exact hsame

/-- One key, four times within six seconds. -/
def burstTrace : List Event :=
  [0, 2, 4, 6].map fun n => .udp (.sample (ofSecs n) 1) ⟨.v4 ⟨10, 0, 0, 1⟩, 4000⟩
    (some (.registerPk ⟨"peer-1", [1], [2]⟩))

theorem limiter_exact_four :
    ∃ h s, Run (hbbs Ext.sample "" Config.sample) (.start .sample .empty) h s
      ∧ h.map Occ.ev = burstTrace ∧ acceptedTimes "peer-1" h = [ofSecs 4, ofSecs 2, ofSecs 0]
      ∧ LimiterExact Ext.sample h := by
  obtain ⟨h, s, hr, hev, hp⟩ := @exists_run _ _ _ (hbbs Ext.sample "" Config.sample)
    (.start .sample .empty) burstTrace
    (fun h _ => acceptedTimes "peer-1" h = [ofSecs 4, ofSecs 2, ofSecs 0]) (by decide)
  have hclock : Clocked h := by
    have htimes : h.filterMap (fun o => o.ev.io.map fun io => io.now)
        = burstTrace.filterMap fun e => e.io.map fun io => io.now := by
      rw [← hev, List.filterMap_map]
      rfl
    rw [Clocked, htimes]
    decide
  exact ⟨h, s, hr, hev, decide_eq_true_iff.mp hp, limiter_exact hr hclock fun _ => rfl⟩

end KinBridge.Proof
