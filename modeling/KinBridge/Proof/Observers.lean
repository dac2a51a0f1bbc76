import KinBridge.Lib.Refine
import KinBridge.Lib.Thin
import KinBridge.Hbbs.Changes

/-!
# Whether a query is seen

`ip-blocker` and `ip-changes` drop entries before they answer, also without the `-` that
removes one. Of a table that the query leaves as it is nobody can tell. An entry of
`IP_CHANGES` that is dropped does not matter either, if its window is over: it is not shown
again, and the next change starts anew, entry or not.
-/

namespace KinBridge.Proof

open KinBridge Runs Thin Burst

variable {X : Ext} {key : String} {iso : Nat → String} {cfg : Config} {s : Server} {l l' : IoLoop}
  {now t : Instant} {cmd : String}

/-- One of the two commands, without the trailing `-`. -/
def IsQuery (cmd : String) : Prop :=
  (cmdWord cmd = some .ipBlocker ∨ cmdWord cmd = some .ipChanges)
    ∧ (cmdArgs cmd)[1]? ≠ some "-"

instance (cmd : String) : Decidable (IsQuery cmd) := inferInstanceAs (Decidable (_ ∧ _))

/-- What the query drops from the table does not matter: nothing of `IP_BLOCKER`, and of
`IP_CHANGES` no entry with a single IP whose window is not over. -/
structure DropsUnseen (s : Server) (now : Instant) (cmd : String) : Prop where
  blocker : cmdWord cmd = some .ipBlocker →
    ∀ ip e, s.ipBlocker.lookup ip = some e → StillCounts e now
  changes : cmdWord cmd = some .ipChanges →
    ∀ id v, s.ipChanges.lookup id = some v → v.2.entries.length ≤ 1 →
      IP_CHANGE_DUR < asSecs (elapsed now v.1)

/-! ## What is to be seen -/

abbrev AdminOcc := Occ IoLoop AdminEvent (Option String)

/-- The times since `now`. -/
def times (now : Instant) (h : List AdminOcc) : List Instant :=
  now :: h.filterMap fun o => o.ev.time

/-- The clock does not run backwards. -/
def Onward (now : Instant) (h : List AdminOcc) : Prop := (times now h).Pairwise (· ≤ ·)

/-- What the event asks of `check_ip_blocker`, and the answer. -/
def verdict (s : Server) (e : AdminEvent) : Option Bool :=
  match e with
  | .loop (.handle e) => (blockerCallOf e).map fun c => (callBlocker s.ipBlocker c).2
  | _ => none

/-- The same time, and the same IPs with the same counts. -/
def SameEntry (v w : Instant × HashMap String Int) : Prop :=
  v.1 = w.1 ∧ ∀ ip, v.2.lookup ip = w.2.lookup ip

/-- The same table, in another order. -/
def Reordered (a b : IpChanges) : Prop := ∀ id, Option.Rel SameEntry (a.lookup id) (b.lookup id)

/-- What an event may put out. In which order `IP_CHANGES` lists its entries, and an entry its IPs,
is left open: a report may be made of any order of what `ip-changes` leaves in the table. -/
def Answers (iso : Nat → String) (s : Server) : AdminEvent → Option String → Prop
  | .loop _, r => r = none
  | .command now cmd, r => ∃ m, Reordered (s.ipChanges.retain fun v => Shown now v) m
      ∧ r = some (checkCmd iso (withChanges s m) now cmd).res

theorem Reordered.refl (a : IpChanges) : Reordered a a := by
  intro id
  cases a.lookup id with
  | none => exact .none
  | some v => exact .some ⟨rfl, fun _ => rfl⟩

/-- The command itself drops first what it does not show. -/
theorem checkCmd_retained (cmd : String) :
    (checkCmd iso (withChanges s (s.ipChanges.retain fun v => Shown now v)) now cmd).res
      = (checkCmd iso s now cmd).res := by
  by_cases hw : cmdWord cmd = some .ipChanges
  · have htwice : (s.ipChanges.retain fun v => Shown now v).retain (fun v => Shown now v)
        = s.ipChanges.retain fun v => Shown now v := by
      refine AList.ext ?_
      simp only [HashMap.retain, List.filter_filter, Bool.and_self]
    rw [checkCmd_ipChanges hw, checkCmd_ipChanges hw]
    unfold ipChangesArm tableCmd
    dsimp only [withChanges]
    rw [htwice]
  · rw [checkCmd_withChanges hw]

/-- What is put out is among what may be. -/
theorem answers_out {l₁ : IoLoop} {e : AdminEvent} {o : Option String}
    (hst : admin X key iso cfg l e = some (l₁, o)) : Answers iso l.server e o := by
  cases e with
  | loop e =>
      obtain ⟨_, _, heq⟩ := Option.map_eq_some_iff.mp hst
      exact (Prod.mk.inj heq).2.symm
  | command now cmd =>
      rw [admin] at hst
      refine ⟨_, .refl _, ?_⟩
      rw [checkCmd_retained]
      generalize checkCmd iso l.server now cmd = out at hst ⊢
      exact (Prod.mk.inj (Option.some.inj hst)).2.symm

/-! ## What does not matter -/

/-- An entry of `IP_CHANGES` that is not shown, and whose window is over. -/
def Passed (t : Instant) (v : Instant × HashMap String Int) : Prop :=
  ¬ Shown t v ∧ IP_CHANGE_DUR < asSecs (elapsed t v.1)

theorem passed_mono {t t' : Instant} {v : Instant × HashMap String Int} (hle : t ≤ t')
    (h : Passed t v) : Passed t' v := by
  have hold : asSecs (elapsed t v.1) ≤ asSecs (elapsed t' v.1) :=
    Nat.div_le_div_right (Nat.sub_le_sub_right hle _)
  refine ⟨fun hshown => h.1 ⟨?_, hshown.2⟩, Nat.lt_of_lt_of_le h.2 hold⟩
  exact Nat.lt_of_le_of_lt hold hshown.1

/-- The entry of an id after its change to this IP. -/
def noted (now : Instant) (ip : String) :
    Option (Instant × HashMap String Int) → Instant × HashMap String Int
  | some (tm, ips) =>
    if asSecs (elapsed now tm) > IP_CHANGE_DUR then (now, (∅ : HashMap String Int).insert ip 1)
    else
      match ips.lookup ip with
      | some v => (tm, ips.replace ip (v + 1))
      | none => (tm, ips.insert ip 1)
  | none => (now, (∅ : HashMap String Int).insert ip 1)

theorem noteIpChange_self {m : IpChanges} {id ip : String} :
    (noteIpChange m now id ip).lookup id = some (noted now ip (m.lookup id)) := by
  unfold noteIpChange noted
  cases hold : m.lookup id with
  | none => exact AList.lookup_insert ..
  | some v =>
      obtain ⟨tm, ips⟩ := v
      dsimp only
      by_cases hover : asSecs (elapsed now tm) > IP_CHANGE_DUR
      · rw [if_pos hover, if_pos hover]
        exact HashMap.lookup_replace_self hold
      · rw [if_neg hover, if_neg hover]
        cases ips.lookup ip <;> exact HashMap.lookup_replace_self hold

theorem noteIpChange_ne {m : IpChanges} {id id' ip : String} (hne : id' ≠ id) :
    (noteIpChange m now id ip).lookup id' = m.lookup id' := by
  unfold noteIpChange
  cases m.lookup id with
  | none => exact AList.lookup_insert_ne hne
  | some v =>
      dsimp only
      split
      · exact HashMap.lookup_replace_ne hne
      · split <;> exact HashMap.lookup_replace_ne hne

theorem noteIpChange_thinned {a b : IpChanges} {id ip : String} (h : Thinned (Passed t) a b) :
    Thinned (Passed t) (noteIpChange a t id ip) (noteIpChange b t id ip) := by
  refine h.write (fun _ => noteIpChange_ne) (fun _ => noteIpChange_ne) ?_
  rw [noteIpChange_self, noteIpChange_self]
  rcases h id with heq | ⟨hnone, v, hsome, hpass⟩
  · rw [heq]
  · -- the window of what is lost is over, so it begins anew in both tables
    rw [hnone, hsome]
    unfold noted
    dsimp only
    rw [if_pos hpass.2]

theorem noting_thinned {a b : IpChanges} {note : IpChanges → IpChanges} (hnote : Noting t note)
    (h : Thinned (Passed t) a b) : Thinned (Passed t) (note a) (note b) := by
  cases hnote with
  | nothing => exact h
  | change => exact noteIpChange_thinned h

theorem retain_thinned {a b : IpChanges} (h : Thinned (Passed t) a b) (id : String) :
    (b.retain fun v => Shown t v).lookup id = (a.retain fun v => Shown t v).lookup id := by
  rw [HashMap.lookup_retain, HashMap.lookup_retain]
  exact h.filter_eq (fun _ hpass => decide_eq_false hpass.1) id

/-- After the command the tables have the same. -/
theorem ipChangesArm_thinned {a b : IpChanges} (args : List String)
    (h : Thinned (Passed t) a b) (id : String) :
    (ipChangesArm b t args).1.lookup id = (ipChangesArm a t args).1.lookup id := by
  unfold ipChangesArm tableCmd
  dsimp only
  cases (ipChangesQuery args).removed with
  | none => exact retain_thinned h id
  | some k =>
      dsimp only
      by_cases hid : id = k
      · subst hid
        rw [AList.lookup_erase, AList.lookup_erase]
      · rw [AList.lookup_erase_ne hid, AList.lookup_erase_ne hid]
        exact retain_thinned h id

/-! ## What a step makes of it -/

/-- The same loop, but for entries of `IP_CHANGES` that do not matter at `t`. -/
def Unnoticed (t : Instant) (l l' : IoLoop) : Prop :=
  ∃ m, l' = { l with server := withChanges l.server m } ∧ Thinned (Passed t) l.server.ipChanges m

/-- A handler does the same, and what it notes it notes in both tables. -/
theorem hbbs_unnoticed {s s' : Server} {m : IpChanges} {e : Event} {out : Out} (hne : e ≠ .restart)
    (htime : ∀ io, e.io = some io → io.now = t) (hthin : Thinned (Passed t) s.ipChanges m)
    (hst : hbbs X key cfg s e = some (s', out)) :
    ∃ m', hbbs X key cfg (withChanges s m) e = some (withChanges s' m', out)
      ∧ Thinned (Passed t) s'.ipChanges m' := by
  obtain ⟨io, note, hio, hnote, hrun⟩ := hbbs_notes hne hst
  -- the same holds of its own table, which says what it has noted there
  have hself := hrun s.ipChanges
  rw [withChanges_self, hst] at hself
  have hnoted : s'.ipChanges = note s.ipChanges := by
    conv_lhs => rw [(Prod.mk.inj (Option.some.inj hself)).1]
    rfl
  refine ⟨note m, hrun m, ?_⟩
  rw [hnoted]
  exact noting_thinned (htime io hio ▸ hnote) hthin

theorem ioLoop_unnoticed {l₁ : IoLoop} {e : LoopEvent}
    (h : Unnoticed t l l') (htime : ∀ u ∈ (AdminEvent.loop e).time, u = t)
    (hst : ioLoop X key cfg l e = some (l₁, ())) :
    ∃ l₁', ioLoop X key cfg l' e = some (l₁', ()) ∧ Unnoticed t l₁ l₁' := by
  obtain ⟨m, rfl, hthin⟩ := h
  cases e with
  | tick =>
      simp only [ioLoop, withChanges_relayServers0] at hst ⊢
      split at hst <;> cases hst
      · rename_i hlen
        exact ⟨_, if_pos hlen, m, rfl, hthin⟩
      · rename_i hlen
        exact ⟨_, if_neg hlen, m, rfl, hthin⟩
  | update rs =>
      cases hst
      exact ⟨_, rfl, m, rfl, hthin⟩
  | recv =>
      cases hq : l.queue with
      | nil => rw [ioLoop, hq] at hst; cases hst
      | cons d queue =>
          rw [ioLoop, hq] at hst
          cases hst
          refine ⟨{ l with server := withChanges (handleData X l.server d) m, queue := queue },
            ?_, m, rfl, ?_⟩
          · simp only [ioLoop, handleData_withChanges]
          · cases d <;> exact hthin
  | checked i rs =>
      simp only [ioLoop] at hst ⊢
      split at hst
      · cases hst
      · split at hst
        · rename_i hsub
          rw [if_pos hsub]
          split at hst <;> cases hst
          · rename_i hnil
            exact ⟨_, if_pos hnil, m, rfl, hthin⟩
          · rename_i hsome
            exact ⟨_, if_neg hsome, m, rfl, hthin⟩
        · cases hst
  | handle e =>
      by_cases hre : e = .restart
      · subst hre; cases hst
      · cases hb : hbbs X key cfg l.server e with
        | none => simp only [ioLoop, hb] at hst; cases hst
        | some r =>
            obtain ⟨s, out⟩ := r
            simp only [ioLoop, hb] at hst
            cases hst
            have hnow : ∀ io, e.io = some io → io.now = t :=
              fun io hio => htime _ (by rw [AdminEvent.time, hio]; rfl)
            obtain ⟨m', hrun, hthin'⟩ := hbbs_unnoticed hre hnow hthin hb
            exact ⟨_, by simp only [ioLoop, hrun], m', rfl, hthin'⟩

/-- A command leaves the same, whatever it answers. -/
theorem answer_unnoticed (h : Unnoticed t l l') (cmd : String) :
    Unnoticed t (l.answer (checkCmd iso l.server t cmd)).1
      (l'.answer (checkCmd iso l'.server t cmd)).1 := by
  obtain ⟨m, rfl, hthin⟩ := h
  dsimp only
  by_cases hw : cmdWord cmd = some .ipChanges
  · -- this one looks at the table, and drops first what makes the difference
    rw [checkCmd_ipChanges hw, checkCmd_ipChanges hw]
    exact ⟨_, rfl, .of_eq (ipChangesArm_thinned (cmdArgs cmd) hthin)⟩
  · have hkept : (checkCmd iso l.server t cmd).server.ipChanges = l.server.ipChanges := by
      have hself := @checkCmd_withChanges iso l.server l.server.ipChanges t cmd hw
      rw [withChanges_self] at hself
      generalize checkCmd iso l.server t cmd = out at hself ⊢
      rw [hself]
      rfl
    rw [checkCmd_withChanges hw]
    generalize checkCmd iso l.server t cmd = out at hkept ⊢
    refine ⟨m, rfl, ?_⟩
    rw [IoLoop.answer]
    exact hkept ▸ hthin

/-- And it may answer the same. -/
theorem answers_unnoticed {e : AdminEvent} (h : Unnoticed t l l') (htime : ∀ u ∈ e.time, u = t)
    (r : Option String) : Answers iso l'.server e r ↔ Answers iso l.server e r := by
  cases e with
  | loop => exact Iff.rfl
  | command u cmd =>
      obtain rfl : u = t := htime u rfl
      obtain ⟨m, rfl, hthin⟩ := h
      have hsame : ∀ m', Reordered (m.retain fun v => Shown u v) m'
          ↔ Reordered (l.server.ipChanges.retain fun v => Shown u v) m' := by
        intro m'
        refine forall_congr' fun id => ?_
        rw [retain_thinned hthin]
      exact exists_congr fun m' => and_congr_left' (hsame m')

theorem admin_unnoticed {l₁ : IoLoop} {e : AdminEvent} {o : Option String}
    (h : Unnoticed t l l') (htime : ∀ u ∈ e.time, u = t)
    (hst : admin X key iso cfg l e = some (l₁, o)) :
    ∃ l₁' o', admin X key iso cfg l' e = some (l₁', o') ∧ Unnoticed t l₁ l₁' := by
  cases e with
  | loop e =>
      obtain ⟨⟨l₂, _⟩, hloop, heq⟩ := Option.map_eq_some_iff.mp hst
      obtain ⟨rfl, rfl⟩ := Prod.mk.inj heq
      obtain ⟨l₁', hloop', hrel⟩ := ioLoop_unnoticed h htime hloop
      exact ⟨l₁', none, by rw [admin, hloop', Option.map_some], hrel⟩
  | command u cmd =>
      obtain rfl : u = t := htime u rfl
      rw [admin] at hst
      have hrel : Unnoticed u (l.answer (checkCmd iso l.server u cmd)).1
          (l'.answer (checkCmd iso l'.server u cmd)).1 := answer_unnoticed h cmd
      generalize l.answer (checkCmd iso l.server u cmd) = r at hst hrel
      obtain rfl := Option.some.inj hst
      exact ⟨_, _, rfl, hrel⟩

/-! ## A run after a query -/

/-- The time of the last step that reads the clock, or `now`. -/
def lastTime (now : Instant) (h : List AdminOcc) : Instant :=
  h.foldl (fun t o => o.ev.time.getD t) now

theorem lastTime_mem (now : Instant) (h : List AdminOcc) : lastTime now h ∈ times now h := by
  induction h using List.reverseRecOn with
  | nil => exact List.mem_cons_self
  | append_singleton h o ih =>
      unfold lastTime times at *
      rw [List.foldl_append, List.filterMap_append]
      cases ht : o.ev.time with
      | none => simpa [ht] using ih
      | some u => simp [ht]

theorem onward_snoc {h : List AdminOcc} {o : AdminOcc} (ht : Onward now (h ++ [o])) :
    Onward now h ∧ ∀ u ∈ o.ev.time, lastTime now h ≤ u := by
  unfold Onward times at ht
  rw [List.filterMap_append, ← List.cons_append, List.pairwise_append] at ht
  refine ⟨ht.1, fun u hu => ht.2.2 _ (lastTime_mem now h) u ?_⟩
  exact List.mem_filterMap.mpr ⟨o, List.mem_singleton_self o, hu⟩

theorem Unnoticed.mono (h : Unnoticed t l l') {t' : Instant} (hle : t ≤ t') :
    Unnoticed t' l l' := by
  obtain ⟨m, rfl, hthin⟩ := h
  exact ⟨m, rfl, hthin.mono fun v hv => passed_mono hle hv⟩

theorem Unnoticed.verdict_eq (h : Unnoticed t l l') (e : AdminEvent) :
    verdict l'.server e = verdict l.server e := by
  obtain ⟨m, rfl, _⟩ := h
  rfl

/-- What a step reads back is the same in both runs. -/
structure SameStep (iso : Nat → String) (o o' : AdminOcc) : Prop where
  ev : o'.ev = o.ev
  /-- The answers that the command may give, reports among them, and of those it gives one. -/
  answers : ∀ r, Answers iso o'.pre.server o'.ev r ↔ Answers iso o.pre.server o.ev r
  out : Answers iso o.pre.server o.ev o'.out
  verdict : verdict o'.pre.server o'.ev = verdict o.pre.server o.ev

theorem unnoticed_step {h : List AdminOcc} {l₁ : IoLoop} {e : AdminEvent} {o : Option String}
    (hrel : Unnoticed (lastTime now h) l l') (ht : Onward now (h ++ [⟨l, e, o, l₁⟩]))
    (hst : admin X key iso cfg l e = some (l₁, o)) :
    ∃ l₁' o', admin X key iso cfg l' e = some (l₁', o')
      ∧ Unnoticed (lastTime now (h ++ [⟨l, e, o, l₁⟩])) l₁ l₁'
      ∧ SameStep iso ⟨l, e, o, l₁⟩ ⟨l', e, o', l₁'⟩ := by
  have hlast : lastTime now (h ++ [⟨l, e, o, l₁⟩]) = e.time.getD (lastTime now h) := by
    rw [lastTime, List.foldl_append]
    rfl
  have hle : lastTime now h ≤ lastTime now (h ++ [⟨l, e, o, l₁⟩]) := by
    rw [hlast]
    cases htime : e.time with
    | none => exact Nat.le_refl _
    | some u => exact (onward_snoc ht).2 u htime
  have hnow : ∀ u ∈ e.time, u = lastTime now (h ++ [⟨l, e, o, l₁⟩]) := by
    intro u hu
    rw [hlast, hu]
    rfl
  obtain ⟨l₁', o', hst', hrel'⟩ := admin_unnoticed (hrel.mono hle) hnow hst
  have hsame : ∀ r, Answers iso l'.server e r ↔ Answers iso l.server e r :=
    answers_unnoticed (hrel.mono hle) hnow
  exact ⟨l₁', o', hst', hrel', rfl, hsame, (hsame o').mp (answers_out hst'), hrel.verdict_eq e⟩

theorem unnoticed_run {h : List AdminOcc} {lₑ : IoLoop} (hrel : Unnoticed now l l')
    (hr : Run (admin X key iso cfg) l h lₑ) (ht : Onward now h) :
    ∃ h' lₑ', Run (admin X key iso cfg) l' h' lₑ' ∧ List.Forall₂ (SameStep iso) h h' := by
  obtain ⟨h', lₑ', hr', _, hall⟩ := Run.lockstep (P := Onward now)
    (R := fun h l l' => Unnoticed (lastTime now h) l l') (Q := SameStep iso)
    (fun _ _ hp => (onward_snoc hp).1) hrel (fun _ _ _ _ _ _ => unnoticed_step) hr ht
  exact ⟨h', lₑ', hr', hall⟩

/-! ## A query -/

theorem tableQuery_removed {isKey : Int → Bool} {args : List String} (h : args[1]? ≠ some "-") :
    (tableQuery isKey args).removed = none := by
  cases args with
  | nil => rfl
  | cons arg args =>
      have hmark : args.head? ≠ some "-" := by
        rw [List.head?_eq_getElem?]
        exact h
      unfold tableQuery
      dsimp only
      rw [if_neg hmark]
      split <;> rfl

/-- Without a `-`, all that a command does to its table is to drop entries. -/
theorem tableCmd_query {ν : Type} {m : HashMap String ν} {keep : ν → Bool} {q : TableQuery}
    {line : ν → String} (h : q.removed = none) : (tableCmd m keep q line).1 = m.retain keep := by
  unfold tableCmd
  rw [h]

theorem retain_all {ν : Type} {m : HashMap String ν} {keep : ν → Bool}
    (h : ∀ k v, m.lookup k = some v → keep v = true) : m.retain keep = m :=
  AList.ext (List.filter_eq_self.mpr fun e he => h e.1 e.2 (AList.mem_lookup_iff.mpr he))

theorem dropped_passed {v : Instant × HashMap String Int} (hdrop : ¬ Shown t v)
    (hover : v.2.entries.length ≤ 1 → IP_CHANGE_DUR < asSecs (elapsed t v.1)) : Passed t v := by
  refine ⟨hdrop, ?_⟩
  by_cases hone : v.2.entries.length ≤ 1
  · exact hover hone
  · have hold : IP_CHANGE_DUR_X2 ≤ asSecs (elapsed t v.1) :=
      Nat.not_lt.mp fun hnew => hdrop ⟨hnew, Nat.not_le.mp hone⟩
    exact Nat.lt_of_lt_of_le (by decide) hold

/-- What the query drops is not noticed at that moment. -/
theorem query_unnoticed (hq : IsQuery cmd) (hu : DropsUnseen l.server now cmd) :
    Unnoticed now l (l.answer (checkCmd iso l.server now cmd)).1 := by
  obtain ⟨hword, hmark⟩ := hq
  rcases hword with hw | hw
  · have hkept : (ipBlockerArm l.server.ipBlocker now (cmdArgs cmd)).1 = l.server.ipBlocker := by
      rw [ipBlockerArm, ipBlockerQuery, tableCmd_query (tableQuery_removed hmark)]
      exact retain_all fun ip e he => decide_eq_true (hu.blocker hw ip e he)
    refine ⟨l.server.ipChanges, ?_, Thinned.refl _ _⟩
    unfold checkCmd
    rw [hw]
    dsimp only [IoLoop.answer]
    rw [hkept, List.append_nil]
    rfl
  · -- what is left is the table without the entries that are not shown
    rw [checkCmd_ipChanges hw]
    refine ⟨(ipChangesArm l.server.ipChanges now (cmdArgs cmd)).1, ?_,
      thinned_filter (fun v => Shown now v) ?_ ?_⟩
    · dsimp only [IoLoop.answer]
      rw [List.append_nil]
    · intro id
      rw [ipChangesArm, ipChangesQuery, tableCmd_query (tableQuery_removed hmark)]
      exact HashMap.lookup_retain
    · intro id v hv hdrop
      exact dropped_passed (of_decide_eq_false hdrop) (hu.changes hw id v hv)

/-- **A query is not seen** in any later run, if what it drops does not matter: the later calls
are answered the same, and the later reports are the same up to the order of the map. -/
theorem query_unseen {h : List AdminOcc} {lₑ : IoLoop} (hq : IsQuery cmd)
    (hu : DropsUnseen l.server now cmd) (hr : Run (admin X key iso cfg) l h lₑ)
    (ht : Onward now h) :
    ∃ h' lₑ', Run (admin X key iso cfg) (l.answer (checkCmd iso l.server now cmd)).1 h' lₑ'
      ∧ List.Forall₂ (SameStep iso) h h' :=
  unnoticed_run (query_unnoticed hq hu) hr ht

/-- A client that registers, and then registers from another IP. -/
def registration (now : Instant) (ip : Ipv4Addr) : AdminEvent :=
  .loop (.handle (.udp (.sample now 1) ⟨.v4 ip, 5000⟩ (some (.registerPk ⟨"peer-1", [1], [2]⟩))))

/-- A change of IP at one second. -/
def oneChange : IpChanges :=
  (∅ : IpChanges).insert "peer-1" (ofSecs 1, (∅ : HashMap String Int).insert "10.0.0.2" 1)

def changedLoop : IoLoop :=
  { IoLoop.start Config.sample .empty with
    server := withChanges (Server.start Config.sample .empty) oneChange }

abbrev sampleAdmin := admin Ext.sample "" (fun _ => "") Config.sample

/-- Two registrations and a report. -/
def laterTrace : List AdminEvent :=
  [registration (ofSecs 301) ⟨10, 0, 0, 1⟩, registration (ofSecs 302) ⟨10, 0, 0, 3⟩,
    .command (ofSecs 303) "ic"]

/-- Five minutes later the change does not matter. -/
theorem query_unseen_later : ∃ h l h' l', Run sampleAdmin changedLoop h l
    ∧ h.map Occ.ev = laterTrace
    ∧ Run sampleAdmin (changedLoop.answer
      (checkCmd (fun _ => "") changedLoop.server (ofSecs 300) "ic")).1 h' l'
    ∧ List.Forall₂ (SameStep fun _ => "") h h' := by
  obtain ⟨h, l, hr, hev, _⟩ := @exists_run _ _ _ sampleAdmin changedLoop laterTrace
    (fun _ _ => true) (by decide +kernel)
  have hq : IsQuery "ic" := by decide +kernel
  have hword : cmdWord "ic" ≠ some .ipBlocker := by decide +kernel
  have hu : DropsUnseen changedLoop.server (ofSecs 300) "ic" := by
    refine ⟨fun hw => absurd hw hword, fun _ id v hv _ => ?_⟩
    have hfound : oneChange.lookup id = some v := hv
    by_cases hid : id = "peer-1"
    · subst hid
      rw [oneChange, AList.lookup_insert] at hfound
      obtain rfl := Option.some.inj hfound
      decide
    · rw [oneChange, AList.lookup_insert_ne hid] at hfound
      cases hfound
  have htimed : Onward (ofSecs 300) h := by
    have htimes : times (ofSecs 300) h
        = ofSecs 300 :: (h.map Occ.ev).filterMap AdminEvent.time := by
      rw [List.filterMap_map]
      rfl
    rw [Onward, htimes, hev]
    decide
  obtain ⟨h', l', hr', hall⟩ := query_unseen hq hu hr htimed
  exact ⟨h, l, h', l', hr, hev, hr', hall⟩

/-- Two changes of IP, and a report. -/
def plainTrace : List AdminEvent :=
  [registration 0 ⟨10, 0, 0, 1⟩, registration (ofSecs 1) ⟨10, 0, 0, 2⟩,
    registration (ofSecs 20) ⟨10, 0, 0, 3⟩, .command (ofSecs 21) "ic"]

/-- The same, with a query between the changes. -/
def queriedTrace : List AdminEvent :=
  [registration 0 ⟨10, 0, 0, 1⟩, registration (ofSecs 1) ⟨10, 0, 0, 2⟩,
    .command (ofSecs 10) "ic",
    registration (ofSecs 20) ⟨10, 0, 0, 3⟩, .command (ofSecs 21) "ic"]

/-- The report is another with the query than without it. -/
theorem query_seen : IsQuery "ic" ∧ ∃ h t h' t',
    Run sampleAdmin (.start Config.sample .empty) h t
    ∧ Run sampleAdmin (.start Config.sample .empty) h' t'
    ∧ h.map Occ.ev = plainTrace ∧ h'.map Occ.ev = queriedTrace
    ∧ h.getLast?.map Occ.out
      = some (some "1\npeer-1: 20s \x7b\"10.0.0.3\": 1, \"10.0.0.2\": 1\x7d\n")
    ∧ h'.getLast?.map Occ.out = some (some "0\n") := by
  obtain ⟨h, t, hr, hev, hp⟩ := @exists_run _ _ _ sampleAdmin (.start Config.sample .empty)
    plainTrace (fun h _ => h.getLast?.map Occ.out
      = some (some "1\npeer-1: 20s \x7b\"10.0.0.3\": 1, \"10.0.0.2\": 1\x7d\n"))
    (by decide +kernel)
  obtain ⟨h', t', hr', hev', hp'⟩ := @exists_run _ _ _ sampleAdmin (.start Config.sample .empty)
    queriedTrace (fun h _ => h.getLast?.map Occ.out = some (some "0\n")) (by decide +kernel)
  exact ⟨by decide +kernel, h, t, h', t', hr, hr', hev, hev', of_decide_eq_true hp,
    of_decide_eq_true hp'⟩

/-! ## What else is dropped is seen -/

/-- Calls at one instant, one after the other. -/
def callsAt (m : IpBlocker) (c : BlockerCall) (n : Nat) : IpBlocker :=
  (List.replicate n c).foldl (fun m c => (callBlocker m c).1) m

theorem callsAt_succ {m : IpBlocker} {c : BlockerCall} {n : Nat} :
    callsAt m c (n + 1) = (callBlocker (callsAt m c n) c).1 := by
  unfold callsAt
  rw [List.replicate_succ', List.foldl_append]
  rfl

/-- The entry has counted `n` calls, all of them now, and holds at most the one id. -/
def Counted (m : IpBlocker) (c : BlockerCall) (n : Nat) : Prop :=
  ∃ ids, m.lookup c.ip = some ⟨(n, c.now), (ids, c.now)⟩ ∧ ids ⊆ {c.id}

theorem counted_next {m : IpBlocker} {c : BlockerCall} {n : Nat} (h : Counted m c n)
    (hn : n ≤ 30) : (callBlocker m c).2 = true ∧ Counted (callBlocker m c).1 c (n + 1) := by
  obtain ⟨ids, he, hids⟩ := h
  have hcard : ids.card ≤ 1 := Finset.card_le_card hids
  rcases callBlocker_entry he with ⟨href, _⟩ | ⟨st, ids', b, hcount, hmove, hcall⟩
  · exact absurd href.2 (Nat.not_lt.mpr hn)
  · have hst : st = (n + 1, c.now) := by
      rw [attempt, if_neg (by simp [ofSecs]), if_pos (Nat.lt_succ_of_le hn)] at hcount
      exact (Option.some.inj hcount).symm
    rw [hcall, hst]
    cases hmove with
    | day hday => simp [DayOver, elapsed, asSecs] at hday
    | full _ hfull => exact absurd hcard (by dsimp only at hfull; omega)
    | listed =>
        refine ⟨rfl, insert c.id ids, HashMap.lookup_replace_self he, ?_⟩
        exact Finset.insert_subset (Finset.mem_singleton_self _) hids

theorem counted_run {m : IpBlocker} {c : BlockerCall} {k n : Nat}
    (h : Counted (callsAt m c 1) c k) (hn : k + n ≤ 31) :
    Counted (callsAt m c (n + 1)) c (k + n) := by
  induction n with
  | zero => exact h
  | succ n ih =>
      rw [callsAt_succ, ← Nat.add_assoc]
      exact (counted_next (ih (by omega)) (by omega)).2

theorem counted_new {m : IpBlocker} {c : BlockerCall} (h : m.lookup c.ip = none) :
    Counted (callsAt m c 1) c 0 := by
  have hmove := callBlocker_move m c
  rw [callsAt_succ]
  change Counted (callBlocker m c).1 c 0
  generalize callBlocker m c = r at hmove ⊢
  cases hmove with
  | first => exact ⟨∅, AList.lookup_insert .., Finset.empty_subset _⟩
  | rate hold => rw [h] at hold; cases hold
  | counted hold => rw [h] at hold; cases hold

theorem counted_anew {m : IpBlocker} {c : BlockerCall} {e : IpBlockEntry}
    (he : m.lookup c.ip = some e) (hover : ¬ StillCounts e c.now) :
    Counted (callsAt m c 1) c 1 := by
  obtain ⟨hquiet, hday⟩ := not_or.mp hover
  rw [callsAt_succ]
  change Counted (callBlocker m c).1 c 1
  rcases callBlocker_entry he with ⟨href, _⟩ | ⟨st, ids', b, hcount, hmove, hcall⟩
  · exact absurd (Nat.not_le.mp hquiet) href.1
  · have hst : st = (1, c.now) := by
      rw [attempt_counter, if_neg fun h => h.1 (Nat.not_le.mp hquiet),
        if_pos (Nat.not_le.mp hquiet)] at hcount
      exact (Option.some.inj hcount).symm
    rw [hcall, hst]
    cases hmove with
    | day =>
        refine ⟨_, HashMap.lookup_replace_self he, ?_⟩
        split
        · exact Finset.empty_subset _
        · exact Finset.Subset.refl _
    | full hnot => exact absurd (Nat.not_le.mp hday) hnot
    | listed hnot => exact absurd (Nat.not_le.mp hday) hnot

/-- An entry that `ip-blocker` drops makes a difference to the next minute: with it the first call
counts, and without it not, so that one call more passes. -/
theorem pruned_seen {m : IpBlocker} {c : BlockerCall} {e : IpBlockEntry}
    (he : m.lookup c.ip = some e) (hover : ¬ StillCounts e c.now) :
    (callBlocker (callsAt m c 31) c).2 = false
      ∧ (callBlocker (callsAt (m.retain fun e => StillCounts e c.now) c 31) c).2 = true := by
  constructor
  · obtain ⟨ids, hfull, _⟩ := counted_run (n := 30) (counted_anew he hover) (Nat.le_refl _)
    rw [callBlocker_rate hfull ⟨by simp [elapsed, asSecs], Nat.lt_add_one 30⟩]
  · have hnone : (m.retain fun e => StillCounts e c.now).lookup c.ip = none := by
      rw [HashMap.lookup_retain, he]
      exact Option.filter_eq_none_iff.mpr (by simpa using hover)
    exact (counted_next (counted_run (n := 30) (counted_new hnone) (by decide)) (by decide)).1

/-- So does an entry of `IP_CHANGES` with one IP that `ip-changes` drops before its window is over:
if another IP follows, it is shown with it, and not without. -/
theorem dropped_seen {m : IpChanges} {id ip : String} {v : Instant × HashMap String Int}
    (hv : m.lookup id = some v) (hone : v.2.entries.length = 1) (hnew : v.2.lookup ip = none)
    (hopen : asSecs (elapsed now v.1) ≤ IP_CHANGE_DUR) :
    (∃ v', (noteIpChange m now id ip).lookup id = some v' ∧ Shown now v')
      ∧ ∃ v', (noteIpChange (m.retain fun v => Shown now v) now id ip).lookup id = some v'
        ∧ ¬ Shown now v' := by
  obtain ⟨tm, ips⟩ := v
  constructor
  · refine ⟨(tm, ips.insert ip 1), ?_, Nat.lt_of_le_of_lt hopen (by decide), ?_⟩
    · rw [noteIpChange_self, hv]
      unfold noted
      dsimp only at hopen hnew ⊢
      rw [if_neg (Nat.not_lt.mpr hopen), hnew]
    · dsimp only at hnew hone ⊢
      rw [AList.entries_insert_of_notMem (AList.lookup_eq_none.mp hnew), List.length_cons, hone]
      decide
  · have hnone : (m.retain fun v => Shown now v).lookup id = none := by
      rw [HashMap.lookup_retain, hv]
      refine Option.filter_eq_none_iff.mpr fun v hfound hshown => ?_
      obtain rfl := Option.some.inj hfound
      have hmany := (of_decide_eq_true hshown).2
      rw [hone] at hmany
      exact absurd hmany (Nat.lt_irrefl 1)
    refine ⟨(now, (∅ : HashMap String Int).insert ip 1), ?_, fun h => absurd h.2 (by simp)⟩
    rw [noteIpChange_self, hnone]
    rfl

end KinBridge.Proof
