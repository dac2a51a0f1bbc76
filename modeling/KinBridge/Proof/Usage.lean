import KinBridge.Hbbr.Header

/-!
# Who is listed in `USAGE`

A relay enters itself under the text of its address when it begins, and takes out what is
under that text when it ends. As long as no two relays have one text at a time, `USAGE` lists
the relays. WebSocket connections from behind one address all have the same text.
-/

namespace KinBridge.Hbbr

open KinBridge Runs Slots

variable {key : String} {s s' : State} {e : Event} {o : Out} {c c' : ConnId} {id : String}

abbrev PairOcc := Occ State Event Out

/-- From the insert into `USAGE` to the remove. -/
def TaskPc.listed : TaskPc → Bool
  | .relaying _ _ | .ended _ _ => true
  | _ => false

/-- The relay of this connection is live, and its entry is the one under `id`. -/
def Live (s : State) (c : ConnId) (id : String) : Prop :=
  ∃ t, s.tasks c = some t ∧ t.pc.listed = true ∧ usageId t.addr = id

/-- The step is one of this connection, whose entry is the one under `id`. -/
def StepOf (o : PairOcc) (c : ConnId) (id : String) : Prop :=
  o.ev.conn = c ∧ ∃ t, o.pre.tasks c = some t ∧ usageId t.addr = id

/-- An insert or update of the entry. -/
def Writes (o : PairOcc) (c : ConnId) (id : String) : Prop :=
  StepOf o c id ∧ (o.ev.act = .usageInsert ∨ ∃ u, o.ev.act = .usageUpdate u)

/-- That, or a remove. -/
def Touches (o : PairOcc) (c : ConnId) (id : String) : Prop :=
  Writes o c id ∨ (StepOf o c id ∧ o.ev.act = .usageRemove)

/-- `USAGE` lists the live relays. -/
structure UsageExact (h : List PairOcc) (s : State) : Prop where
  listed : ∀ id, (s.usage id).isSome ↔ ∃ c, Live s c id
  alone : ∀ c c' id, Live s c id → Live s c' id → c = c'
  /-- The relay wrote its entry, and no other has touched it since. -/
  written : ∀ c id, Live s c id →
    Since (fun o => Writes o c id) (fun o => ∃ c', c' ≠ c ∧ Touches o c' id) h

/-- A relay that begins finds nothing under the text of its address. -/
def EntersFree (s : State) (e : Event) : Prop :=
  e.act = .usageInsert → ∀ t ∈ s.tasks e.conn, s.usage (usageId t.addr) = none

instance (s : State) (e : Event) : Decidable (EntersFree s e) :=
  inferInstanceAs (Decidable (_ → ∀ t ∈ s.tasks e.conn, _))

/-! ## One step -/

theorem live_put {t : Task} (htasks : s'.tasks = put s.tasks c t) :
    Live s' c' id ↔ (c' = c ∧ t.pc.listed = true ∧ usageId t.addr = id)
      ∨ (c' ≠ c ∧ Live s c' id) := by
  unfold Live
  rw [htasks]
  by_cases hc : c' = c
  · subst hc
    simp
  · simp [hc]

/-- What a step does to `USAGE` and to who is live. -/
inductive UsageStep (s : State) (e : Event) (s' : State) : Prop where
  | idle : s'.usage = s.usage → (∀ c id, Live s' c id ↔ Live s c id) →
      (e.act ≠ .usageInsert ∧ (∀ u, e.act ≠ .usageUpdate u) ∧ e.act ≠ .usageRemove) →
      UsageStep s e s'
  | insert {t : Task} : e.act = .usageInsert → s.tasks e.conn = some t → t.pc.listed = false →
      s'.usage = put s.usage (usageId t.addr) (0, 0, 0, 0) →
      (∀ c id, Live s' c id ↔ (c = e.conn ∧ usageId t.addr = id) ∨ Live s c id) →
      UsageStep s e s'
  | update {t : Task} {u : Usage} : e.act = .usageUpdate u → s.tasks e.conn = some t →
      t.pc.listed = true → s'.usage = put s.usage (usageId t.addr) u →
      (∀ c id, Live s' c id ↔ Live s c id) → UsageStep s e s'
  | remove {t : Task} : e.act = .usageRemove → s.tasks e.conn = some t → t.pc.listed = true →
      s'.usage = free s.usage (usageId t.addr) →
      (∀ c id, Live s' c id ↔ c ≠ e.conn ∧ Live s c id) → UsageStep s e s'

/-- A task that goes from one place to another, both before its insert or both after it. -/
theorem live_goto {t : Task} {pc : TaskPc} (htask : s.tasks c = some t)
    (hsame : pc.listed = t.pc.listed) (htasks : s'.tasks = put s.tasks c { t with pc := pc }) :
    ∀ c' id, Live s' c' id ↔ Live s c' id := by
  intro c' id
  rw [live_put htasks]
  by_cases hc : c' = c
  · subst hc
    simp [Live, htask, hsame]
  · simp [hc]

theorem makePair_usage (h : makePair key s e = some (s', o)) : UsageStep s e s' := by
  unfold makePair at h
  split at h
  · cases h
  · dsimp only at h
    split at h
    · rename_i addr hnone hact
      obtain ⟨rfl, rfl⟩ := Prod.mk.inj (Option.some.inj h)
      refine .idle rfl (fun c id => ?_) ?_
      · rw [live_put rfl]
        by_cases hc : c = e.conn
        · subst hc
          simp [Live, hnone, TaskPc.listed]
        · simp [hc, Live]
      · rw [hact]
        simp
    · rename_i t htask
      obtain ⟨addr, pc⟩ := t
      dsimp only at h
      have hstay : ∀ {pc' : TaskPc}, s'.tasks = put s.tasks e.conn ⟨addr, pc'⟩ →
          pc'.listed = pc.listed → s'.usage = s.usage →
          (e.act ≠ .usageInsert ∧ (∀ u, e.act ≠ .usageUpdate u) ∧ e.act ≠ .usageRemove) →
          UsageStep s e s' :=
        fun htasks hlisted husage hact => .idle husage (live_goto htask hlisted htasks) hact
      generalize hact : e.act = act at h hstay
      unfold taskStep at h
      split at h
      · split at h <;> obtain ⟨rfl, _⟩ := Prod.mk.inj (Option.some.inj h)
        · exact hstay rfl rfl rfl (by simp)
        · exact hstay rfl rfl rfl (by simp)
      · dsimp only at h
        split at h <;> obtain ⟨rfl, _⟩ := Prod.mk.inj (Option.some.inj h)
        · exact hstay rfl rfl rfl (by simp)
        · exact hstay rfl rfl rfl (by simp)
      · obtain ⟨rfl, _⟩ := Prod.mk.inj (Option.some.inj h)
        exact hstay rfl rfl rfl (by simp)
      · split at h
        · obtain ⟨rfl, _⟩ := Prod.mk.inj (Option.some.inj h)
          exact hstay rfl rfl rfl (by simp)
        · cases h
      · obtain ⟨rfl, _⟩ := Prod.mk.inj (Option.some.inj h)
        refine .insert hact htask rfl rfl fun c id => ?_
        rw [live_put rfl]
        by_cases hc : c = e.conn
        · subst hc
          simp [Live, htask, TaskPc.listed]
        · simp [hc, Live]
      · obtain ⟨rfl, _⟩ := Prod.mk.inj (Option.some.inj h)
        exact .update hact htask rfl rfl fun _ _ => Iff.rfl
      · obtain ⟨rfl, _⟩ := Prod.mk.inj (Option.some.inj h)
        exact hstay rfl rfl rfl (by simp)
      · obtain ⟨rfl, _⟩ := Prod.mk.inj (Option.some.inj h)
        refine .remove hact htask rfl rfl fun c id => ?_
        rw [live_put rfl]
        simp [TaskPc.listed, Live]
      · cases h
    · cases h

/-! ## Runs -/

variable {h : List PairOcc} {x : PairOcc}

theorem stepOf_task {t : Task} (htask : x.pre.tasks x.ev.conn = some t) (hs : StepOf x c id) :
    c = x.ev.conn ∧ id = usageId t.addr := by
  obtain ⟨rfl, t', ht', rfl⟩ := hs
  obtain rfl := Option.some.inj (htask.symm.trans ht')
  exact ⟨rfl, rfl⟩

theorem Touches.stepOf (ht : Touches x c id) : StepOf x c id := ht.elim And.left And.left

/-- A step of another relay, whose text is another, leaves the entry as last written. -/
theorem written_kept {t : Task} (htask : x.pre.tasks x.ev.conn = some t)
    (hne : id ≠ usageId t.addr)
    (hw : Since (fun o => Writes o c id) (fun o => ∃ c', c' ≠ c ∧ Touches o c' id) h) :
    Since (fun o => Writes o c id) (fun o => ∃ c', c' ≠ c ∧ Touches o c' id) (h ++ [x]) := by
  refine since_snoc.mpr (.inr ⟨hw, ?_⟩)
  rintro ⟨c', _, ht⟩
  exact hne (stepOf_task htask ht.stepOf).2

/-- Where `USAGE` lists the live relays, nothing is under a text that none of them has. -/
theorem UsageExact.none_iff (hi : UsageExact h s) : s.usage id = none ↔ ∀ c, ¬ Live s c id := by
  rw [← Option.not_isSome_iff_eq_none, hi.listed, not_exists]

/-- A step that is none of the three on `USAGE`. -/
theorem usageExact_idle (hi : UsageExact h x.pre) (husage : x.post.usage = x.pre.usage)
    (hlive : ∀ c id, Live x.post c id ↔ Live x.pre c id)
    (hact : x.ev.act ≠ .usageInsert ∧ (∀ u, x.ev.act ≠ .usageUpdate u)
      ∧ x.ev.act ≠ .usageRemove) : UsageExact (h ++ [x]) x.post := by
  constructor
  case listed =>
    intro id
    rw [husage, hi.listed]
    simp only [hlive]
  case alone =>
    intro c c' id hc hc'
    exact hi.alone c c' id ((hlive c id).mp hc) ((hlive c' id).mp hc')
  case written =>
    intro c id hc
    refine since_snoc.mpr (.inr ⟨hi.written c id ((hlive c id).mp hc), ?_⟩)
    rintro ⟨c', _, (⟨_, hins | ⟨u, hupd⟩⟩ | ⟨_, hrem⟩)⟩
    · exact hact.1 hins
    · exact hact.2.1 u hupd
    · exact hact.2.2 hrem

section

variable {t : Task} (htask : x.pre.tasks x.ev.conn = some t)

include htask

/-- A relay begins, and is the only one of its text. -/
theorem usageExact_insert (hi : UsageExact h x.pre) (hfree : EntersFree x.pre x.ev)
    (hact : x.ev.act = .usageInsert)
    (husage : x.post.usage = put x.pre.usage (usageId t.addr) (0, 0, 0, 0))
    (hlive : ∀ c id, Live x.post c id ↔ (c = x.ev.conn ∧ usageId t.addr = id) ∨ Live x.pre c id) :
    UsageExact (h ++ [x]) x.post := by
  -- no entry, so no relay of this text
  have hnew := hi.none_iff.mp (hfree hact t htask)
  constructor
  case listed =>
    intro id
    rw [husage]
    by_cases hid : id = usageId t.addr
    · subst hid
      rw [put_self]
      exact iff_of_true rfl ⟨_, (hlive _ _).mpr (.inl ⟨rfl, rfl⟩)⟩
    · rw [put_ne hid, hi.listed]
      refine exists_congr fun c => ?_
      rw [hlive]
      exact ⟨.inr, fun h => h.elim (fun h => absurd h.2.symm hid) fun h => h⟩
  case alone =>
    intro c c' id hc hc'
    rcases (hlive c id).mp hc with ⟨rfl, rfl⟩ | hold <;>
      rcases (hlive c' _).mp hc' with ⟨rfl, heq⟩ | hold'
    · rfl
    · exact absurd hold' (hnew c')
    · exact absurd (heq ▸ hold) (hnew c)
    · exact hi.alone c c' id hold hold'
  case written =>
    intro c id hc
    rcases (hlive c id).mp hc with ⟨rfl, rfl⟩ | hold
    · exact since_snoc.mpr (.inl ⟨⟨rfl, t, htask, rfl⟩, .inl hact⟩)
    · refine written_kept htask ?_ (hi.written c id hold)
      rintro rfl
      exact hnew c hold

/-- A relay enters its volume and speed. -/
theorem usageExact_update {u : Usage} (hi : UsageExact h x.pre)
    (hact : x.ev.act = .usageUpdate u) (hlisted : t.pc.listed = true)
    (husage : x.post.usage = put x.pre.usage (usageId t.addr) u)
    (hlive : ∀ c id, Live x.post c id ↔ Live x.pre c id) : UsageExact (h ++ [x]) x.post := by
  have hself : Live x.pre x.ev.conn (usageId t.addr) := ⟨t, htask, hlisted, rfl⟩
  constructor
  case listed =>
    intro id
    simp only [husage, hlive]
    by_cases hid : id = usageId t.addr
    · subst hid
      rw [put_self]
      exact iff_of_true rfl ⟨_, hself⟩
    · rw [put_ne hid]
      exact hi.listed id
  case alone =>
    intro c c' id hc hc'
    exact hi.alone c c' id ((hlive c id).mp hc) ((hlive c' id).mp hc')
  case written =>
    intro c id hc
    have hold := (hlive c id).mp hc
    by_cases hid : id = usageId t.addr
    · -- the one relay of this text is the one that writes
      subst hid
      obtain rfl := hi.alone _ _ _ hold hself
      exact since_snoc.mpr (.inl ⟨⟨rfl, t, htask, rfl⟩, .inr ⟨u, hact⟩⟩)
    · exact written_kept htask hid (hi.written c id hold)

/-- A relay ends. -/
theorem usageExact_remove (hi : UsageExact h x.pre) (hlisted : t.pc.listed = true)
    (husage : x.post.usage = free x.pre.usage (usageId t.addr))
    (hlive : ∀ c id, Live x.post c id ↔ c ≠ x.ev.conn ∧ Live x.pre c id) :
    UsageExact (h ++ [x]) x.post := by
  have hself : Live x.pre x.ev.conn (usageId t.addr) := ⟨t, htask, hlisted, rfl⟩
  have hother : ∀ c id, c ≠ x.ev.conn → Live x.pre c id → id ≠ usageId t.addr := by
    rintro c id hne hold rfl
    exact hne (hi.alone _ _ _ hold hself)
  constructor
  case listed =>
    intro id
    simp only [husage, hlive]
    by_cases hid : id = usageId t.addr
    · subst hid
      rw [free_self]
      refine iff_of_false (by simp) ?_
      rintro ⟨c, hne, hold⟩
      exact hother c _ hne hold rfl
    · rw [free_ne hid, hi.listed]
      refine exists_congr fun c => ⟨fun hold => ⟨?_, hold⟩, And.right⟩
      rintro rfl
      obtain ⟨t', ht', _, rfl⟩ := hold
      obtain rfl := Option.some.inj (htask.symm.trans ht')
      exact hid rfl
  case alone =>
    intro c c' id hc hc'
    exact hi.alone c c' id ((hlive c id).mp hc).2 ((hlive c' id).mp hc').2
  case written =>
    intro c id hc
    obtain ⟨hne, hold⟩ := (hlive c id).mp hc
    exact written_kept htask (hother c id hne hold) (hi.written c id hold)

end

theorem usageExact_step (hi : UsageExact h x.pre) (hfree : EntersFree x.pre x.ev)
    (hst : makePair key x.pre x.ev = some (x.post, x.out)) : UsageExact (h ++ [x]) x.post := by
  cases makePair_usage hst with
  | idle husage hlive hact => exact usageExact_idle hi husage hlive hact
  | insert hact htask _ husage hlive => exact usageExact_insert htask hi hfree hact husage hlive
  | update hact htask hlisted husage hlive =>
      exact usageExact_update htask hi hact hlisted husage hlive
  | remove _ htask hlisted husage hlive => exact usageExact_remove htask hi hlisted husage hlive

theorem usageExact_start : UsageExact [] .start := by
  have hnone : ∀ c id, ¬ Live .start c id := by
    rintro c id ⟨t, ht, _⟩
    cases ht
  refine ⟨fun id => iff_of_false (by simp [State.start]) ?_, ?_, ?_⟩
  · rintro ⟨c, hc⟩
    exact hnone c id hc
  · intro c c' id hc
    exact absurd hc (hnone c id)
  · intro c id hc
    exact absurd hc (hnone c id)

/-- A relay that enters itself over another's entry is not alone under its text. -/
theorem entersFree_of_exact (hst : makePair key x.pre x.ev = some (x.post, x.out))
    (hi : UsageExact h x.pre) (hafter : UsageExact (h ++ [x]) x.post) :
    EntersFree x.pre x.ev := by
  intro hact t htask
  refine hi.none_iff.mpr fun c hc => ?_
  cases makePair_usage hst with
  | idle _ _ hnot => exact hnot.1 hact
  | update hact' => cases hact.symm.trans hact'
  | remove hact' => cases hact.symm.trans hact'
  | @insert t' _ htask' hnot _ hlive =>
      obtain rfl := Option.some.inj (htask.symm.trans htask')
      have hself := (hlive x.ev.conn (usageId t.addr)).mpr (.inl ⟨rfl, rfl⟩)
      obtain rfl := hafter.alone _ _ _ ((hlive c _).mpr (.inr hc)) hself
      obtain ⟨t', ht', hlisted, _⟩ := hc
      obtain rfl := Option.some.inj (htask.symm.trans ht')
      rw [hnot] at hlisted
      cases hlisted

/-- **`USAGE` lists exactly the live relays** after every step of a run, exactly if every relay
that begins finds nothing under the text of its address. -/
theorem usage_exact_iff (hr : Run (makePair key) .start h s) :
    (∀ h₁ h₂ s₁, h = h₁ ++ h₂ → Run (makePair key) .start h₁ s₁ → UsageExact h₁ s₁) ↔
      ∀ o ∈ h, EntersFree o.pre o.ev := by
  constructor
  · intro hall o ho
    obtain ⟨h₁, h₂, rfl, hr₁, hst, _⟩ := hr.mem ho
    refine entersFree_of_exact hst (hall h₁ (o :: h₂) o.pre rfl hr₁) ?_
    exact hall (h₁ ++ [o]) h₂ o.post (by simp) (hr₁.snoc hst)
  · rintro hfree h₁ h₂ s₁ rfl hr₁
    refine Run.inv_of (C := EntersFree) usageExact_start ?_ hr₁ fun o ho =>
      hfree o (List.mem_append_left _ ho)
    intro h s e s' o hi hc hst
    exact usageExact_step (x := ⟨s, e, o, s'⟩) hi hc hst

/-- The first connection waits, the second pairs with it and begins to relay. -/
def relayTrace (uuid : String) (c c' : ConnId) (addr addr' : SocketAddr) : List Event :=
  let msg := some (.requestRelay ⟨"peer-1", uuid, [], "secret"⟩)
  [⟨0, c, .accept addr⟩, ⟨0, c, .recv msg⟩, ⟨0, c, .lookup⟩, ⟨0, c, .insert⟩,
    ⟨0, c', .accept addr'⟩, ⟨0, c', .recv msg⟩, ⟨0, c', .lookup⟩, ⟨0, c', .usageInsert⟩]

/-- Two relays over TCP from one machine, an update, and the first ends. -/
def tcpTrace : List Event :=
  relayTrace "one" 1 2 ⟨.v4 ⟨10, 0, 0, 1⟩, 5001⟩ ⟨.v4 ⟨10, 0, 0, 2⟩, 5002⟩
    ++ relayTrace "two" 3 4 ⟨.v4 ⟨10, 0, 0, 1⟩, 5003⟩ ⟨.v4 ⟨10, 0, 0, 2⟩, 5004⟩
    ++ [⟨1, 4, .usageUpdate (1000, 8, 0, 0)⟩, ⟨1, 2, .relayEnd⟩, ⟨1, 2, .usageRemove⟩]

theorem usage_exact_tcp : ∃ h s, Run (makePair "secret") .start h s ∧ h.map Occ.ev = tcpTrace
    ∧ s.usage "10.0.0.2:5002" = none ∧ s.usage "10.0.0.2:5004" = some (1000, 8, 0, 0)
    ∧ ∀ h₁ h₂ s₁, h = h₁ ++ h₂ → Run (makePair "secret") .start h₁ s₁ → UsageExact h₁ s₁ := by
  obtain ⟨h, s, hr, hev, hp⟩ := @exists_run _ _ _ (makePair "secret") .start tcpTrace
    (fun h s => decide (s.usage "10.0.0.2:5002" = none
        ∧ s.usage "10.0.0.2:5004" = some (1000, 8, 0, 0))
      && h.all fun o => EntersFree o.pre o.ev) (by decide +kernel)
  obtain ⟨hlast, hfree⟩ := Bool.and_eq_true_iff.mp hp
  obtain ⟨hfirst, hsecond⟩ := of_decide_eq_true hlast
  refine ⟨h, s, hr, hev, hfirst, hsecond, (usage_exact_iff hr).mpr fun o ho => ?_⟩
  exact of_decide_eq_true (List.all_eq_true.mp hfree o ho)

/-- A connection through the proxy, from a client at `10.0.0.9`. -/
def proxied (port : UInt16) : SocketAddr :=
  makePairAddr ⟨.v4 ⟨127, 0, 0, 1⟩, port⟩ (some ⟨some (some "10.0.0.9"), none⟩)

/-- Two relays over WebSocket from one client, and the first ends. -/
def wsTrace : List Event :=
  relayTrace "one" 1 2 (proxied 5001) (proxied 5002)
    ++ relayTrace "two" 3 4 (proxied 5003) (proxied 5004)
    ++ [⟨1, 2, .relayEnd⟩, ⟨1, 2, .usageRemove⟩]

/-- The second relay goes on, and is not listed. -/
theorem usage_lost : ∃ h s, Run (makePair "secret") .start h s ∧ h.map Occ.ev = wsTrace
    ∧ Live s 4 "10.0.0.9:0" ∧ s.usage "10.0.0.9:0" = none ∧ ¬ UsageExact h s := by
  obtain ⟨h, s, hr, hev, hp⟩ := @exists_run _ _ _ (makePair "secret") .start wsTrace
    (fun _ s => decide (s.tasks 4
        = some ⟨proxied 5004, .relaying ⟨"peer-1", "two", [], "secret"⟩ 3⟩
      ∧ s.usage "10.0.0.9:0" = none)) (by decide +kernel)
  obtain ⟨htask, hnone⟩ := of_decide_eq_true hp
  have hlive : Live s 4 "10.0.0.9:0" := ⟨_, htask, rfl, by decide +kernel⟩
  exact ⟨h, s, hr, hev, hlive, hnone, fun hex => hex.none_iff.mp hnone 4 hlive⟩

end KinBridge.Hbbr
