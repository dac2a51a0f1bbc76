import KinBridge.Hbbs.Blocker
import KinBridge.Proof.Admission

/-!
# How much one IP gets through

The rate part of `check_ip_blocker` lets 31 requests pass without a minute's pause, and one
more: the very first call for an IP makes the entry with a count of zero and is not counted.
So a window in which the count never starts over holds at most 32 calls that pass. The id
set grows by one at a time while it is not full.
-/

namespace KinBridge.Proof

open KinBridge Runs Burst

abbrev BlockerOcc := Occ IpBlocker BlockerEvent (Option Bool)

/-- A history of calls, and of the administrator's commands. -/
abbrev Calls := List BlockerOcc

variable {h : Calls} {m : IpBlocker} {ip : String} {b : Bool}

/-- The times do not run backwards. -/
def Timed (h : Calls) : Prop := (h.map fun o => o.ev.now).Pairwise (· ≤ ·)

theorem timed_snoc {o : BlockerOcc} (ht : Timed (h ++ [o])) :
    Timed h ∧ ∀ x ∈ h, x.ev.now ≤ o.ev.now := by
  unfold Timed at ht
  rw [List.map_append, List.pairwise_append] at ht
  exact ⟨ht.1, fun x hx => ht.2.2 _ (List.mem_map_of_mem hx) _ (List.mem_singleton_self _)⟩

/-- The administrator's commands leave the entry of `ip`. -/
def Spared (ip : String) (h : Calls) : Prop :=
  ∀ o ∈ h, ∀ now removed, o.ev = .command now removed → o.post.lookup ip = o.pre.lookup ip

/-- The time of the step, if it is a call for `ip` that returns true. -/
def passedAt (ip : String) (o : BlockerOcc) : Option Instant :=
  match o.ev with
  | .call c => if c.ip = ip ∧ o.out = some true then some c.now else none
  | .command _ _ => none

/-- When calls for this IP returned true, newest first. -/
def passedTimes (ip : String) (h : Calls) : List Instant := (h.filterMap (passedAt ip)).reverse

theorem passedTimes_snoc {o : BlockerOcc} :
    passedTimes ip (h ++ [o]) = (passedAt ip o).toList ++ passedTimes ip h := by
  unfold passedTimes
  rw [List.filterMap_append, List.reverse_append]
  cases hpass : passedAt ip o <;> simp [hpass]

theorem passedAt_call {c : BlockerCall} {o : BlockerOcc}
    (hev : o.ev = .call c) :
    passedAt ip o = if c.ip = ip ∧ o.out = some true then some c.now else none := by
  rw [passedAt, hev]

/-- What an entry has to do with the calls so far: `acc` are those that its counter counted, and
one more may have passed, the first. -/
def EntryInv (ip : String) (h : Calls) (e : IpBlockEntry) : Prop :=
  e.ids.1.card ≤ 301 ∧ ∃ acc t₀, Tracks (ofSecs 61) e.counter acc ∧ Paced (ofSecs 61) 31 acc
    ∧ (∀ t ∈ acc, ∃ o ∈ h, o.ev.now = t) ∧ (passedTimes ip h).Sublist (acc ++ [t₀])

/-- The entry of an IP, or that it has none because no call passed. -/
def BlockerInv (ip : String) (h : Calls) (m : IpBlocker) : Prop :=
  match m.lookup ip with
  | none => passedTimes ip h = []
  | some e => EntryInv ip h e

theorem blockerInv_none (hm : m.lookup ip = none) :
    BlockerInv ip h m ↔ passedTimes ip h = [] := by
  rw [BlockerInv, hm]

theorem blockerInv_some {e : IpBlockEntry} (hm : m.lookup ip = some e) :
    BlockerInv ip h m ↔ EntryInv ip h e := by
  rw [BlockerInv, hm]

/-- A step that neither touches the entry nor passes keeps the account. -/
theorem BlockerInv.kept {m' : IpBlocker} {o : BlockerOcc}
    (hi : BlockerInv ip h m) (hm : m'.lookup ip = m.lookup ip) (hout : passedAt ip o = none) :
    BlockerInv ip (h ++ [o]) m' := by
  have hsame : passedTimes ip (h ++ [o]) = passedTimes ip h := by
    rw [passedTimes_snoc, hout, Option.toList_none, List.nil_append]
  cases he : m.lookup ip with
  | none =>
      rw [blockerInv_none (hm.trans he), hsame]
      exact (blockerInv_none he).mp hi
  | some e =>
      rw [blockerInv_some (hm.trans he)]
      obtain ⟨hcard, acc, t₀, htracks, hpaced, hpast, hsub⟩ := (blockerInv_some he).mp hi
      refine ⟨hcard, acc, t₀, htracks, hpaced, ?_, hsame ▸ hsub⟩
      intro t ht
      obtain ⟨x, hx, hnow⟩ := hpast t ht
      exact ⟨x, List.mem_append_left _ hx, hnow⟩

/-- A call for the IP itself, whatever it answers. -/
theorem blockerInv_call {c : BlockerCall} {o : BlockerOcc}
    (hi : BlockerInv c.ip h o.pre) (ht : Timed (h ++ [o])) (hev : o.ev = .call c)
    (hcall : callBlocker o.pre c = (m, b)) (hout : o.out = some b) :
    BlockerInv c.ip (h ++ [o]) m := by
  have hnow : o.ev.now = c.now := by rw [hev]; rfl
  have hpass : passedAt c.ip o = if c.ip = c.ip ∧ o.out = some true then some c.now else none :=
    passedAt_call hev
  have hmove := callBlocker_move o.pre c
  rw [hcall] at hmove
  cases hmove with
  | first hnone =>
      have hempty := (blockerInv_none hnone).mp hi
      rw [blockerInv_some (AList.lookup_insert _)]
      refine ⟨Nat.zero_le _, [], c.now, tracks_nil rfl, trivial, nofun, ?_⟩
      rw [passedTimes_snoc, hempty, hpass, if_pos ⟨rfl, hout⟩]
      exact List.Sublist.refl _
  | rate => exact hi.kept rfl (by rw [hpass, if_neg (by simp [hout])])
  | counted hold hcount hids =>
      obtain ⟨hcard, acc, t₀, htracks, hpaced, hpast, hsub⟩ := (blockerInv_some hold).mp hi
      rw [blockerInv_some (HashMap.lookup_replace_self hold)]
      refine ⟨hids.card_le hcard, c.now :: acc, t₀, htracks.admit hcount, ?_, ?_, ?_⟩
      · refine ⟨?_, ?_, hpaced⟩
        · intro t hacc
          obtain ⟨x, hx, rfl⟩ := hpast t hacc
          exact hnow ▸ (timed_snoc ht).2 x hx
        · rw [← attempt_eq_none htracks (by decide), hcount]
          simp
      · intro t hacc
        rcases List.mem_cons.mp hacc with rfl | hacc
        · exact ⟨o, by simp, hnow⟩
        · obtain ⟨x, hx, hnow⟩ := hpast t hacc
          exact ⟨x, List.mem_append_left _ hx, hnow⟩
      · rw [passedTimes_snoc, hpass]
        split
        · exact hsub.cons_cons _
        · exact hsub.cons _

theorem blockerInv_step {o : BlockerOcc}
    (hi : BlockerInv ip h o.pre) (ht : Timed (h ++ [o])) (hs : Spared ip (h ++ [o]))
    (hst : blockerStep o.pre o.ev = some (o.post, o.out)) : BlockerInv ip (h ++ [o]) o.post := by
  cases hev : o.ev with
  | command now removed =>
      exact hi.kept (hs o (by simp) now removed hev) (by rw [passedAt, hev])
  | call c =>
      obtain ⟨hpost, hout⟩ := blockerStep_call (hev ▸ hst)
      by_cases hip : c.ip = ip
      · subst hip
        exact blockerInv_call hi ht hev (Prod.ext hpost.symm rfl) hout
      · refine hi.kept ?_ (by rw [passedAt_call hev, if_neg fun hc => hip hc.1])
        rw [hpost]
        exact callBlocker_frame fun hc => hip hc.symm

theorem blockerInv_run (hr : Run blockerStep ∅ h m) (ht : Timed h) (hs : Spared ip h) :
    BlockerInv ip h m := by
  refine Run.inv (I := fun h m => Timed h → Spared ip h → BlockerInv ip h m) ?_ ?_ hr ht hs
  · exact fun _ _ => (blockerInv_none (AList.lookup_empty _)).mpr rfl
  · intro h s e s' o ih hst ht hs
    have hs₁ : Spared ip h := fun x hx => hs x (List.mem_append_left _ hx)
    exact blockerInv_step (o := ⟨s, e, o, s'⟩) (ih (timed_snoc ht).1 hs₁) ht hs hst

/-- What the blocker promises to one IP. -/
structure BlockerBounds (ip : String) (h : Calls) (m : IpBlocker) : Prop where
  counter : ∀ e, m.lookup ip = some e → e.counter.1 ≤ 31
  ids : ∀ e, m.lookup ip = some e → e.ids.1.card ≤ 301
  /-- No window shorter than 61 seconds holds 33 calls that passed. -/
  window : ∀ w d, d < ofSecs 61 →
    (passedTimes ip h).countP (fun t => w ≤ t ∧ t ≤ w + d) ≤ 32
  /-- What the rate part refuses changes nothing. -/
  rate : ∀ o ∈ h, ∀ c e, o.ev = .call c → c.ip = ip → o.pre.lookup ip = some e →
    RateRefuses e c.now → o.out = some false ∧ o.post = o.pre
  frame : ∀ o ∈ h, ∀ c, o.ev = .call c → c.ip ≠ ip → o.post.lookup ip = o.pre.lookup ip

theorem blockerBounds_run (hr : Run blockerStep ∅ h m) (ht : Timed h) (hs : Spared ip h) :
    BlockerBounds ip h m := by
  have hi := blockerInv_run hr ht hs
  constructor
  case counter =>
    intro e he
    obtain ⟨_, acc, t₀, htracks, hpaced, _⟩ := (blockerInv_some he).mp hi
    rw [htracks.count]
    exact hpaced.streak_le (by decide)
  case ids =>
    intro e he
    exact ((blockerInv_some he).mp hi).1
  case window =>
    intro w d hd
    cases he : m.lookup ip with
    | none =>
        rw [(blockerInv_none he).mp hi]
        exact Nat.zero_le _
    | some e =>
        obtain ⟨_, acc, t₀, _, hpaced, _, hsub⟩ := (blockerInv_some he).mp hi
        have hacc := hpaced.window (w := w) (by decide) hd
        have hone := List.countP_le_length (p := fun t => decide (w ≤ t ∧ t ≤ w + d)) (l := [t₀])
        have hall := hsub.countP_le (p := fun t => decide (w ≤ t ∧ t ≤ w + d))
        rw [List.countP_append] at hall
        rw [List.length_singleton] at hone
        omega
  case rate =>
    intro o ho c e hev hip he href
    obtain ⟨_, _, _, _, hst, _⟩ := hr.mem ho
    obtain ⟨hpost, hout⟩ := blockerStep_call (hev ▸ hst)
    have hcall := callBlocker_rate (hip ▸ he) href
    rw [hpost, hout, hcall]
    exact ⟨rfl, rfl⟩
  case frame =>
    intro o ho c hev hip
    obtain ⟨_, _, _, _, hst, _⟩ := hr.mem ho
    obtain ⟨hpost, _⟩ := blockerStep_call (hev ▸ hst)
    rw [hpost]
    exact callBlocker_frame fun hc => hip hc.symm

/-- **The blocker's bounds**, over every sequence of calls that begins with no entries. The
administrator may prune and remove the entries of other IPs meanwhile. -/
theorem blocker_bounds (hr : Run blockerStep ∅ h m) (ht : Timed h) (hs : Spared ip h) :
    BlockerBounds ip h m :=
  blockerBounds_run hr ht hs

/-- Two calls for one IP and one for another, which the administrator then removes. -/
def callTrace : List BlockerEvent :=
  [.call ⟨ofSecs 0, "10.0.0.1", "peer-1"⟩, .call ⟨ofSecs 1, "10.0.0.2", "peer-2"⟩,
    .call ⟨ofSecs 2, "10.0.0.1", "peer-3"⟩, .command (ofSecs 3) (some "10.0.0.2")]

theorem blocker_bounds_two : ∃ h m, Run blockerStep ∅ h m ∧ h.map Occ.ev = callTrace
    ∧ m.lookup "10.0.0.1" = some ⟨(1, ofSecs 2), ({"peer-3"}, ofSecs 2)⟩
    ∧ m.lookup "10.0.0.2" = none ∧ BlockerBounds "10.0.0.1" h m := by
  obtain ⟨h, m, hr, hev, hp⟩ := @exists_run _ _ _ blockerStep ∅ callTrace
    (fun h m => decide (m.lookup "10.0.0.1" = some ⟨(1, ofSecs 2), ({"peer-3"}, ofSecs 2)⟩
      ∧ m.lookup "10.0.0.2" = none) && h.all fun o => match o.ev with
        | .call _ => true
        | .command _ _ => decide (o.post.lookup "10.0.0.1" = o.pre.lookup "10.0.0.1"))
    (by decide +kernel)
  obtain ⟨hend, hall⟩ := Bool.and_eq_true_iff.mp hp
  have htimed : Timed h := by
    have htimes : h.map (fun o => o.ev.now) = callTrace.map BlockerEvent.now := by
      rw [← hev, List.map_map]
      rfl
    rw [Timed, htimes]
    decide
  have hspared : Spared "10.0.0.1" h := by
    intro o ho now removed hcmd
    have hkept := List.all_eq_true.mp hall o ho
    rw [hcmd] at hkept
    exact decide_eq_true_iff.mp hkept
  obtain ⟨hone, htwo⟩ := decide_eq_true_iff.mp hend
  exact ⟨h, m, hr, hev, hone, htwo, blocker_bounds hr htimed hspared⟩

/-! ## The blocker of `hbbs` -/

variable {X : Ext} {key : String} {cfg : Config}

/-- One call, as a step of its own. -/
def callSpec (m : IpBlocker) (c : BlockerCall) : IpBlocker × Unit := ((callBlocker m c).1, ())

/-- Between two restarts `hbbs` goes along the calls that its messages make. -/
theorem hbbs_calls_refine : Refines (hbbs X key cfg) (fun _ e => e ≠ .restart) callSpec
    blockerCallOf (fun _ => ()) (fun s m => s.ipBlocker = m) := by
  constructor
  case silent =>
    rintro s e s' o _ rfl hne hst hnone
    rw [hbbs_ipBlocker hne hst, hnone]
    rfl
  case answered =>
    rintro s e s' o _ c rfl hne hst hcall
    rw [hbbs_ipBlocker hne hst, hcall]
    exact ⟨rfl, rfl⟩

/-- Every list of calls is a run of the blocker. -/
theorem calls_run (m₀ : IpBlocker) (cs : List BlockerCall) :
    ∃ g, Run blockerStep m₀ g (after callSpec m₀ cs) ∧ g.map Occ.ev = cs.map BlockerEvent.call := by
  induction cs using List.reverseRecOn with
  | nil => exact ⟨[], Run.nil, rfl⟩
  | append_singleton cs c ih =>
      obtain ⟨g, hr, hev⟩ := ih
      rw [after_snoc]
      refine ⟨_, Run.snoc (e := BlockerEvent.call c) hr rfl, ?_⟩
      rw [List.map_append, hev, List.map_append]
      rfl

theorem blockerCallOf_now {e : Event} {c : BlockerCall} (h : blockerCallOf e = some c) :
    e.io.map (fun io => io.now) = some c.now := by
  unfold blockerCallOf at h
  split at h
  · split at h
    · cases h
    · split at h
      · cases h
      · obtain rfl := Option.some.inj h
        rfl
  · cases h

/-- The calls of a run happen in the order of its clock. -/
theorem calls_timed {h : List (Occ Server Event Out)} (hc : Clocked h) :
    ((messages blockerCallOf h).map BlockerCall.now).Pairwise (· ≤ ·) := by
  unfold Clocked at hc
  unfold messages
  rw [List.pairwise_filterMap] at hc
  rw [List.pairwise_map, List.pairwise_filterMap]
  refine hc.imp ?_
  intro o o' hle c hcall c' hcall'
  exact hle c.now (blockerCallOf_now hcall) c'.now (blockerCallOf_now hcall')

/-- So the bounds hold of the blocker of every `hbbs` that comes up with none of its entries. -/
theorem hbbs_blockerBounds {s₀ s : Server} {h : List (Occ Server Event Out)}
    (hr : Run (hbbs X key cfg) s₀ h s) (hc : Clocked h) (hne : ∀ o ∈ h, o.ev ≠ .restart)
    (h0 : s₀.ipBlocker = ∅) : ∃ g, g.map Occ.ev = (messages blockerCallOf h).map BlockerEvent.call
      ∧ ∀ ip, BlockerBounds ip g s.ipBlocker := by
  obtain ⟨hend, _⟩ := hbbs_calls_refine.run h0 hr hne
  obtain ⟨g, hg, hev⟩ := calls_run ∅ (messages blockerCallOf h)
  refine ⟨g, hev, fun ip => blockerBounds_run (hend ▸ hg) ?_ ?_⟩
  · have hnow := congrArg (List.map BlockerEvent.now) hev
    rw [List.map_map, List.map_map] at hnow
    unfold Timed
    rw [show g.map (fun o => o.ev.now) = _ from hnow]
    exact calls_timed hc
  · intro o ho now removed hcmd
    have hmem := List.mem_map_of_mem (f := Occ.ev) ho
    rw [hev, hcmd] at hmem
    obtain ⟨c, _, hc⟩ := List.mem_map.mp hmem
    cases hc

end KinBridge.Proof
