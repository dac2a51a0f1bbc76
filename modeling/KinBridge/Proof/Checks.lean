import KinBridge.Hbbs.Checks
import KinBridge.Proof.Relays

/-!
# What a check comes to

The futures of a check run in any order, beside the loop. Two things follow of what they leave.
`ioLoop`, which lets a check end with any selection of its servers in any order, has just the
behaviours that the futures have. And while the network stays as it is, a check finds every
server that is up, so the list to hand out is one that was configured, or all that is up of one.
-/

namespace KinBridge.Proof

open KinBridge Runs Gather

variable {X : Ext} {key : String} {relayPort : Nat} {cfg : Config} {st st' : Checking}

/-! ## The loop behind the futures -/

/-- A turn of the loop that is not about checks leaves them alone. -/
theorem checks_of_turn {e : LoopEvent} {l l' : IoLoop} (he : e.ofCheck = false)
    (h : ioLoop X key cfg l e = some (l', ())) : l'.checks = l.checks := by
  cases e with
  | tick => cases he
  | checked i rs => cases he
  | update rs => cases h; rfl
  | recv =>
      dsimp only [ioLoop] at h
      split at h
      · cases h
      · cases h; rfl
  | handle e =>
      by_cases hre : e = .restart
      · subst hre
        cases h
      · cases hb : hbbs X key cfg l.server e with
        | none => simp only [ioLoop, hb] at h; cases h
        | some r => simp only [ioLoop, hb] at h; cases h; rfl

theorem checking_follows {e : CheckingEvent} {o : Unit}
    (h : checking X key relayPort cfg st e = some (st', o)) :
    Follows (ioLoop X key cfg) st.view st'.view (st.told e) := by
  cases checking_step h with
  | start hlong =>
      refine ⟨(), ?_⟩
      dsimp only [ioLoop, Checking.view]
      rw [if_pos hlong, List.map_append, List.map_singleton, items_start]
  | idle hshort => exact ⟨(), if_neg hshort⟩
  | answer hc hm =>
      exact congrArg (IoLoop.mk st.server · st.queue) (map_set_same Batch.items hc hm.items)
  | push hc hm =>
      exact congrArg (IoLoop.mk st.server · st.queue) (map_set_same Batch.items hc hm.items)
  | @silent k c hc hj hnil =>
      rw [show st.told (.joined k) = some (.checked k c.found) by rw [Checking.told, hc]; rfl]
      refine ⟨(), ?_⟩
      have hitems : st.view.checks[k]? = some c.items := by
        rw [Checking.view, List.getElem?_map, hc, Option.map_some]
      dsimp only [ioLoop]
      rw [hitems]
      dsimp only
      rw [if_pos c.found_subperm, if_pos hnil, Checking.view, Checking.view]
      dsimp only
      rw [List.eraseIdx_map]
  | @reported k c hc hj hne =>
      rw [show st.told (.joined k) = some (.checked k c.found) by rw [Checking.told, hc]; rfl]
      refine ⟨(), ?_⟩
      have hitems : st.view.checks[k]? = some c.items := by
        rw [Checking.view, List.getElem?_map, hc, Option.map_some]
      dsimp only [ioLoop]
      rw [hitems]
      dsimp only
      rw [if_pos c.found_subperm, if_neg hne, Checking.view, Checking.view]
      dsimp only
      rw [List.eraseIdx_map]
  | @turn e l he hl =>
      have hsame : Checking.view ⟨l.server, st.checks, l.queue⟩ = l :=
        congrArg (IoLoop.mk l.server · l.queue) (checks_of_turn he hl).symm
      exact ⟨(), hsame ▸ hl⟩

/-! ## The futures behind the loop -/

/-- No future of a check has an answer yet. -/
def Unanswered (st : Checking) : Prop := ∀ c ∈ st.checks, c = .start c.items

/-- What one check can do alone it can do beside the others, unseen by the loop. -/
theorem run_in_check {k : Nat} {c c' : Check} {g : List (Occ Check (Advance String) Unit)}
    (hc : st.checks[k]? = some c) (hr : Run Gather.step c g c') :
    ∃ h, Run (checking X key relayPort cfg) st h { st with checks := st.checks.set k c' }
      ∧ h.filterMap (fun o => o.pre.told o.ev) = [] := by
  obtain ⟨hlt, hget⟩ := List.getElem?_eq_some_iff.mp hc
  induction hr with
  | nil =>
      refine ⟨[], ?_, rfl⟩
      have hsame : st.checks.set k c = st.checks := by rw [← hget, List.set_getElem_self]
      rw [hsame]
      exact Run.nil
  | @snoc g c₁ c₂ m o _ hst ih =>
      obtain ⟨h, hrun, htold⟩ := ih
      have hc₁ : (st.checks.set k c₁)[k]? = some c₁ := List.getElem?_set_self hlt
      cases step_iff.mp hst with
      | @answer i ok x hx =>
          -- one host is asked about, so the network may as well answer the same for all
          have hmove : checking X key relayPort cfg { st with checks := st.checks.set k c₁ }
              (.answer k i fun _ => ok x)
                = some ({ st with checks := st.checks.set k (c₁.answered i x (ok x) hx) }, ()) := by
            dsimp only [checking, Checking.move]
            rw [hc₁]
            dsimp only
            rw [step_iff.mpr (.answer hx : Advanced c₁ (.answer i fun _ => ok x) _),
              Option.map_some, List.set_set]
          exact ⟨_, hrun.snoc hmove, by rw [List.filterMap_append, htold]; rfl⟩
      | @push i x hx =>
          have hmove : checking X key relayPort cfg { st with checks := st.checks.set k c₁ }
              (.push k i) = some ({ st with checks := st.checks.set k (c₁.push i x hx) }, ()) := by
            dsimp only [checking, Checking.move]
            rw [hc₁]
            dsimp only
            rw [step_iff.mpr (Advanced.push hx), Option.map_some, List.set_set]
          exact ⟨_, hrun.snoc hmove, by rw [List.filterMap_append, htold]; rfl⟩

/-- A check that ends with these servers has futures that push them in this order. -/
theorem checked_matched {l' : IoLoop} {k : Nat} {rs : List String} (hfresh : Unanswered st)
    (h : ioLoop X key cfg st.view (.checked k rs) = some (l', ())) :
    ∃ g st', Run (checking X key relayPort cfg) st g st' ∧ st'.view = l' ∧ Unanswered st'
      ∧ g.filterMap (fun o => o.pre.told o.ev) = [.checked k rs] := by
  dsimp only [ioLoop] at h
  split at h
  · cases h
  · rename_i rs0 hk
    split at h
    · rename_i hsub
      obtain ⟨c, hc, rfl⟩ := Option.map_eq_some_iff.mp ((List.getElem?_map ..).symm.trans hk)
      obtain ⟨hlt, _⟩ := List.getElem?_eq_some_iff.mp hc
      obtain ⟨g, c', hrun, hj, hfound, _⟩ := found_iff.mpr hsub
      rw [← hfresh c (List.mem_of_getElem? hc)] at hrun
      obtain ⟨h₁, hr₁, htold⟩ := @run_in_check X key relayPort cfg st k c c' g hc hrun
      have hc' : (st.checks.set k c')[k]? = some c' := List.getElem?_set_self hlt
      -- the check is over: the loop's own step is the last one
      have hjoin : checking X key relayPort cfg { st with checks := st.checks.set k c' }
          (.joined k) = some (⟨l'.server, st.checks.eraseIdx k, l'.queue⟩, ()) := by
        dsimp only [checking]
        rw [hc']
        dsimp only
        rw [if_pos hj, List.eraseIdx_set_eq, hfound]
        split at h
        · rename_i hnil
          cases h
          exact if_pos hnil
        · rename_i hne
          cases h
          exact if_neg hne
      refine ⟨_, _, hr₁.snoc hjoin, ?_, fun c hc => hfresh c (List.mem_of_mem_eraseIdx hc), ?_⟩
      · split at h <;> cases h <;> dsimp only [Checking.view] <;> rw [List.eraseIdx_map]
      · rw [List.filterMap_append, htold]
        simp [Checking.told, hc', hfound]
    · cases h

theorem ioLoop_matched {l l' : IoLoop} {e : LoopEvent} (hview : st.view = l)
    (hfresh : Unanswered st) (h : ioLoop X key cfg l e = some (l', ())) :
    ∃ g st', Run (checking X key relayPort cfg) st g st' ∧ st'.view = l' ∧ Unanswered st'
      ∧ g.filterMap (fun o => o.pre.told o.ev) = [e] := by
  subst hview
  by_cases he : e.ofCheck = false
  · -- a turn of the loop itself
    have hturn : checking X key relayPort cfg st (.turn e)
        = some (⟨l'.server, st.checks, l'.queue⟩, ()) := by
      dsimp only [checking]
      rw [if_neg (by simp [he]), h, Option.map_some]
    have hview : Checking.view ⟨l'.server, st.checks, l'.queue⟩ = l' :=
      congrArg (IoLoop.mk l'.server · l'.queue) (checks_of_turn he h).symm
    exact ⟨_, _, Run.nil.snoc hturn, hview, hfresh, rfl⟩
  · cases e with
    | tick =>
        dsimp only [ioLoop] at h
        split at h
        · rename_i hlong
          cases h
          have hstart : checking X key relayPort cfg st .tick = some ({ st with
              checks := st.checks ++ [.start st.server.relayServers0] }, ()) := if_pos hlong
          refine ⟨_, _, Run.nil.snoc hstart, ?_, ?_, rfl⟩
          · dsimp only [Checking.view]
            rw [List.map_append, List.map_singleton, items_start]
          · intro c hc
            rcases List.mem_append.mp hc with hc | hc
            · exact hfresh c hc
            · rw [List.mem_singleton.mp hc, items_start]
        · rename_i hshort
          cases h
          have hidle : checking X key relayPort cfg st .tick = some (st, ()) := if_neg hshort
          exact ⟨_, _, Run.nil.snoc hidle, rfl, hfresh, rfl⟩
    | checked k rs => exact checked_matched hfresh h
    | update rs => exact absurd rfl he
    | recv => exact absurd rfl he
    | handle e => exact absurd rfl he

/--
**`ioLoop` leaves open what the futures leave open**: the turns that it can take are those that
the loop takes beside its futures, whatever these do.
-/
theorem checks_exact {db : Table} {l : IoLoop} {es : List LoopEvent} :
    (∃ h, Run (ioLoop X key cfg) (.start cfg db) h l ∧ h.map Occ.ev = es) ↔
      ∃ g st, Run (checking X key relayPort cfg) (.start cfg db) g st ∧ st.view = l
        ∧ g.filterMap (fun o => o.pre.told o.ev) = es := by
  constructor
  · rintro ⟨h, hr, rfl⟩
    have hall : ∃ g st, Run (checking X key relayPort cfg) (.start cfg db) g st ∧ st.view = l
        ∧ Unanswered st ∧ g.filterMap (fun o => o.pre.told o.ev) = h.map Occ.ev := by
      induction hr with
      | nil => exact ⟨[], .start cfg db, Run.nil, rfl, fun _ hc => (List.not_mem_nil hc).elim, rfl⟩
      | snoc _ hst ih =>
          obtain ⟨g, st, hr, hview, hfresh, htold⟩ := ih
          obtain ⟨g', st', hr', hview', hfresh', htold'⟩ := ioLoop_matched hview hfresh hst
          refine ⟨g ++ g', st', hr.trans hr', hview', hfresh', ?_⟩
          rw [List.filterMap_append, htold, htold', List.map_append]
          rfl
    obtain ⟨g, st, hr, hview, _, htold⟩ := hall
    exact ⟨g, st, hr, hview, htold⟩
  · rintro ⟨g, st, hr, rfl, rfl⟩
    obtain ⟨h, hrun, hev⟩ := hr.part Checking.view fun _ _ _ _ hst => checking_follows hst
    exact ⟨h, hrun, hev⟩

/-! ## While the network stays as it is -/

/-- The list that an administrator sends. -/
def CheckingEvent.update? : CheckingEvent → Option String
  | .turn (.update rs) => some rs
  | _ => none

def listTold (X : Ext) (o : Occ Checking CheckingEvent Unit) : Option (List String) :=
  (CheckingEvent.update? o.ev).map (getServers X)

/-- The lists that have been configured, in force or on their way. -/
def listsTold (X : Ext) (cfg : Config) (h : List (Occ Checking CheckingEvent Unit)) :
    List (List String) :=
  cfg.relayServers :: h.filterMap (listTold X)

/-- The loop takes what a check has found. -/
def TakesResult (o : Occ Checking CheckingEvent Unit) : Prop :=
  o.ev = .turn .recv ∧ ∃ rs, o.pre.queue.head? = some (.relayServers rs)

/-- The loop takes a new list. -/
def TakesList (o : Occ Checking CheckingEvent Unit) : Prop :=
  o.ev = .turn .recv ∧ ∃ rs, o.pre.queue.head? = some (.relayServers0 rs)

/-- Some server is up, and these are all of them, in whatever order. -/
def AllUp (relayPort : Nat) (up : String → Bool) (configured rs : List String) : Prop :=
  rs ≠ [] ∧ rs.Perm (configured.filter fun x => up (relayHost relayPort x))

/-- What is handed out is a configured list, or since a check all that is up of one. -/
def HandsOut (X : Ext) (relayPort : Nat) (up : String → Bool) (cfg : Config)
    (h : List (Occ Checking CheckingEvent Unit)) (st : Checking) : Prop :=
  ∃ L ∈ listsTold X cfg h,
    (Since TakesResult TakesList h → AllUp relayPort up L st.server.relayServers)
      ∧ (¬ Since TakesResult TakesList h → st.server.relayServers = L)

/-- What may lie in the channel. -/
def Expected (X : Ext) (relayPort : Nat) (up : String → Bool) (Ls : List (List String)) :
    Data → Prop
  | .msg _ _ => True
  | .relayServers0 rs => getServers X rs ∈ Ls
  | .relayServers rs => ∃ L ∈ Ls, AllUp relayPort up L rs

structure Steady (X : Ext) (relayPort : Nat) (up : String → Bool) (Ls : List (List String))
    (st : Checking) : Prop where
  relays0 : st.server.relayServers0 ∈ Ls
  checks : ∀ c ∈ st.checks, c.items ∈ Ls ∧ Told (fun x => up (relayHost relayPort x)) c
  queue : ∀ d ∈ st.queue, Expected X relayPort up Ls d

variable {up : String → Bool} {Ls Ls' : List (List String)}
  {h : List (Occ Checking CheckingEvent Unit)} {o : Occ Checking CheckingEvent Unit}

theorem Expected.mono {d : Data} (hd : Expected X relayPort up Ls d) (hLs : Ls ⊆ Ls') :
    Expected X relayPort up Ls' d := by
  cases d with
  | msg m addr => trivial
  | relayServers0 rs => exact hLs hd
  | relayServers rs =>
      obtain ⟨L, hL, hall⟩ := hd
      exact ⟨L, hLs hL, hall⟩

theorem Steady.mono (hs : Steady X relayPort up Ls st) (hLs : Ls ⊆ Ls') :
    Steady X relayPort up Ls' st where
  relays0 := hLs hs.relays0
  checks c hc := ⟨hLs (hs.checks c hc).1, (hs.checks c hc).2⟩
  queue d hd := (hs.queue d hd).mono hLs

theorem steady_start {db : Table} :
    Steady X relayPort up (listsTold X cfg []) (.start cfg db) where
  relays0 := List.mem_cons_self
  checks := by intro c hc; cases hc
  queue := by intro d hd; cases hd

theorem handsOut_start {db : Table} : HandsOut X relayPort up cfg [] (.start cfg db) := by
  refine ⟨cfg.relayServers, List.mem_cons_self, ?_, fun _ => rfl⟩
  rintro ⟨h₁, o, h₂, heq, _⟩
  simp at heq

theorem listsTold_snoc :
    listsTold X cfg (h ++ [o]) = listsTold X cfg h ++ (listTold X o).toList := by
  unfold listsTold
  rw [List.filterMap_append, List.cons_append]
  cases hl : listTold X o <;> simp [hl]

theorem listsTold_subset : listsTold X cfg h ⊆ listsTold X cfg (h ++ [o]) := by
  rw [listsTold_snoc]
  exact List.subset_append_left ..

/-- A check that is over has found all that is up. -/
theorem Steady.found (hs : Steady X relayPort up Ls st) {k : Nat} {c : Check}
    (hc : st.checks[k]? = some c) (hj : c.joined = true) (hne : c.found ≠ []) :
    Expected X relayPort up Ls (.relayServers c.found) := by
  obtain ⟨hitems, htold⟩ := hs.checks c (List.mem_of_getElem? hc)
  exact ⟨c.items, hitems, hne, htold.found hj⟩

/-- One of the futures of a check moves on. -/
theorem Steady.moved (hs : Steady X relayPort up Ls st) {k : Nat} {c c' : Check}
    {m : Advance String} (hc : st.checks[k]? = some c) (hm : Advanced c m c')
    (hok : ∀ i ok, m = .answer i ok → ok = fun x => up (relayHost relayPort x)) :
    Steady X relayPort up Ls { st with checks := st.checks.set k c' } where
  relays0 := hs.relays0
  checks := by
    intro d hd
    rcases List.mem_or_eq_of_mem_set hd with hold | rfl
    · exact hs.checks d hold
    · obtain ⟨hitems, htold⟩ := hs.checks c (List.mem_of_getElem? hc)
      exact ⟨hm.items ▸ hitems, htold.moved hm hok⟩
  queue := hs.queue

theorem Steady.turn (hs : Steady X relayPort up Ls st) {e : LoopEvent} {l : IoLoop}
    (he : e.ofCheck = false) (hl : Turn X st.view e l) :
    Steady X relayPort up (Ls ++ (listTold X ⟨st, .turn e, (), st'⟩).toList)
      ⟨l.server, st.checks, l.queue⟩ := by
  have hs' := hs.mono (List.subset_append_left Ls (listTold X ⟨st, .turn e, (), st'⟩).toList)
  cases hl with
  | quiet _ hsame hmore =>
      obtain ⟨more, hq, hmsg⟩ := hmore
      refine ⟨hsame.2 ▸ hs'.relays0, hs'.checks, ?_⟩
      intro d hd
      rw [hq] at hd
      rcases List.mem_append.mp hd with hold | hnew
      · exact hs'.queue d hold
      · obtain ⟨m, addr, rfl⟩ := hmsg d hnew
        trivial
  | checked => cases he
  | @update rs _ hserver hq =>
      refine ⟨hserver ▸ hs'.relays0, hs'.checks, ?_⟩
      intro d hd
      rw [hq] at hd
      rcases List.mem_append.mp hd with hold | hnew
      · exact hs'.queue d hold
      · obtain rfl := List.mem_singleton.mp hnew
        exact List.mem_append_right _ (List.mem_singleton_self _)
  | @recv d _ hq hserver =>
      have hqueue : st.queue = d :: l.queue := hq
      have hd := hs'.queue d (hqueue ▸ List.mem_cons_self)
      refine ⟨?_, hs'.checks, fun d' hd' => hs'.queue d' (hqueue ▸ List.mem_cons_of_mem _ hd')⟩
      rw [hserver]
      cases d with
      | msg m addr => exact hs'.relays0
      | relayServers0 rs => exact hd
      | relayServers rs => exact hs'.relays0

theorem steady_step (hs : Steady X relayPort up Ls o.pre)
    (hup : ∀ k i net, o.ev = .answer k i net → net = up)
    (hst : checking X key relayPort cfg o.pre o.ev = some (o.post, ())) :
    Steady X relayPort up (Ls ++ (listTold X o).toList) o.post := by
  obtain ⟨st, e, _, st'⟩ := o
  dsimp only at hs hup hst ⊢
  cases checking_step hst with
  | start hlong =>
      rw [show listTold X ⟨st, .tick, (), _⟩ = none from rfl, Option.toList_none, List.append_nil]
      refine ⟨hs.relays0, ?_, hs.queue⟩
      intro c hc
      rcases List.mem_append.mp hc with hold | hnew
      · exact hs.checks c hold
      · rw [List.mem_singleton.mp hnew]
        exact ⟨items_start ▸ hs.relays0, told_start⟩
  | idle hshort => exact hs.mono (List.subset_append_left ..)
  | @answer k i net c c' hc hm =>
      refine (hs.moved hc hm ?_).mono (List.subset_append_left ..)
      intro j ok hok
      obtain ⟨_, rfl⟩ := Advance.answer.inj hok
      rw [hup k i net rfl]
  | push hc hm =>
      refine (hs.moved hc hm ?_).mono (List.subset_append_left ..)
      intro j ok hok
      cases hok
  | silent hc hj hnil =>
      refine Steady.mono ⟨hs.relays0, ?_, hs.queue⟩ (List.subset_append_left ..)
      exact fun c hc => hs.checks c (List.mem_of_mem_eraseIdx hc)
  | reported hc hj hne =>
      refine Steady.mono ⟨hs.relays0, ?_, ?_⟩ (List.subset_append_left ..)
      · exact fun c hc => hs.checks c (List.mem_of_mem_eraseIdx hc)
      · intro d hd
        rcases List.mem_append.mp hd with hold | hnew
        · exact hs.queue d hold
        · rw [List.mem_singleton.mp hnew]
          exact hs.found hc hj hne
  | turn he hl => exact hs.turn he (ioLoop_turn hl)

/-! ## What is handed out -/

theorem not_takes (h : o.ev ≠ .turn .recv) : ¬ TakesList o ∧ ¬ TakesResult o :=
  ⟨fun ht => h ht.1, fun ht => h ht.1⟩

/-- The list to hand out changes when the loop takes a list or a result, and then only. -/
theorem relayServers_step (hst : checking X key relayPort cfg o.pre o.ev = some (o.post, ())) :
    (∃ rs, o.pre.queue.head? = some (.relayServers0 rs) ∧ TakesList o
        ∧ o.post.server.relayServers = getServers X rs)
      ∨ (∃ rs, o.pre.queue.head? = some (.relayServers rs) ∧ TakesResult o
        ∧ o.post.server.relayServers = rs)
      ∨ (¬ TakesList o ∧ ¬ TakesResult o)
        ∧ o.post.server.relayServers = o.pre.server.relayServers := by
  obtain ⟨st, e, _, st'⟩ := o
  dsimp only at hst ⊢
  cases checking_step hst with
  | @turn e l he hl =>
      cases e with
      | tick => cases he
      | checked i rs => cases he
      | update rs => cases hl; exact .inr (.inr ⟨not_takes (by simp), rfl⟩)
      | handle e =>
          cases ioLoop_turn hl with
          | quiet _ hsame => exact .inr (.inr ⟨not_takes (by simp), hsame.1⟩)
      | recv =>
          cases hq : st.queue with
          | nil => rw [ioLoop, Checking.view, hq] at hl; cases hl
          | cons d queue =>
              rw [ioLoop, Checking.view, hq] at hl
              cases hl
              cases d with
              | relayServers0 rs => exact .inl ⟨rs, rfl, ⟨rfl, rs, by rw [hq]; rfl⟩, rfl⟩
              | relayServers rs => exact .inr (.inl ⟨rs, rfl, ⟨rfl, rs, by rw [hq]; rfl⟩, rfl⟩)
              | msg m addr =>
                  refine .inr (.inr ⟨⟨?_, ?_⟩, rfl⟩) <;> rintro ⟨_, rs, hrs⟩ <;> rw [hq] at hrs <;>
                    cases hrs
  | _ => exact .inr (.inr ⟨not_takes (by simp), rfl⟩)

theorem takesList_ne {rs : String} (hq : o.pre.queue.head? = some (.relayServers0 rs)) :
    ¬ TakesResult o := by
  rintro ⟨_, rs', hq'⟩
  rw [hq] at hq'
  cases hq'

theorem handsOut_step (hset : HandsOut X relayPort up cfg h o.pre)
    (hs : Steady X relayPort up (listsTold X cfg h) o.pre)
    (hst : checking X key relayPort cfg o.pre o.ev = some (o.post, ())) :
    HandsOut X relayPort up cfg (h ++ [o]) o.post := by
  unfold HandsOut
  rcases relayServers_step hst with ⟨rs, hq, hlist, hrs⟩ | ⟨rs, hq, hres, hrs⟩ | ⟨⟨hl, hr⟩, hrs⟩
  · -- a new list is in force
    have hexp : getServers X rs ∈ listsTold X cfg h := hs.queue _ (List.mem_of_head? hq)
    refine ⟨getServers X rs, listsTold_subset hexp, ?_, fun _ => hrs⟩
    rw [since_snoc]
    rintro (hres | ⟨_, hno⟩)
    · exact absurd hres (takesList_ne hq)
    · exact absurd hlist hno
  · -- a check has come to an end
    obtain ⟨L, hL, hall⟩ := hs.queue _ (List.mem_of_head? hq)
    refine ⟨L, listsTold_subset hL, fun _ => hrs ▸ hall, ?_⟩
    rw [since_snoc]
    exact fun hno => absurd (.inl hres) hno
  · obtain ⟨L, hL, hafter, hbefore⟩ := hset
    have hsince : Since TakesResult TakesList (h ++ [o]) ↔ Since TakesResult TakesList h := by
      rw [since_snoc]
      exact ⟨fun hc => hc.elim (absurd · hr) And.left, fun hc => .inr ⟨hc, hl⟩⟩
    refine ⟨L, listsTold_subset hL, ?_, ?_⟩ <;> rw [hsince, hrs]
    · exact hafter
    · exact hbefore

/--
**While the network stays as it is, a check finds all that is up**: however its futures and the
loop's turns fall, the relays to hand out are a list that was configured, or, from the first
result on that was taken since, every server of such a list that can be connected to, as often as
it is on the list.
-/
theorem checks_settle {db : Table}
    (hr : Run (checking X key relayPort cfg) (.start cfg db) h st)
    (hup : ∀ o ∈ h, ∀ k i net, o.ev = .answer k i net → net = up) :
    HandsOut X relayPort up cfg h st := by
  have hinv : HandsOut X relayPort up cfg h st ∧ Steady X relayPort up (listsTold X cfg h) st := by
    refine Run.inv_of (C := fun _ e => ∀ k i net, e = .answer k i net → net = up)
      (I := fun h st => HandsOut X relayPort up cfg h st
        ∧ Steady X relayPort up (listsTold X cfg h) st) ⟨handsOut_start, steady_start⟩ ?_ hr hup
    · intro h st e st' _ hin hnet hst
      refine ⟨@handsOut_step X key relayPort cfg up h ⟨st, e, (), st'⟩ hin.1 hin.2 hst, ?_⟩
      rw [listsTold_snoc]
      exact @steady_step X key relayPort cfg up _ ⟨st, e, (), st'⟩ hin.2 hnet hst
  exact hinv.1

/-- Of two relays the second is up. Its future is the first to be done. -/
def secondUp (host : String) : Bool := host = "relay-2:21117"

def secondUpEvents : List CheckingEvent :=
  [.tick, .answer 0 1 secondUp, .push 0 1, .answer 0 0 secondUp, .joined 0, .turn .recv]

theorem checks_settle_two : ∃ h st,
    Run (checking Ext.sample "" 21117 twoRelays) (.start twoRelays .empty) h st
      ∧ st.server.relayServers = ["relay-2"]
      ∧ HandsOut Ext.sample 21117 secondUp twoRelays h st := by
  obtain ⟨h, st, hr, hev, hp⟩ := @exists_run _ _ _ (checking Ext.sample "" 21117 twoRelays)
    (.start twoRelays .empty) secondUpEvents
    (fun _ st => decide (st.server.relayServers = ["relay-2"])) (by decide +kernel)
  have hup : ∀ o ∈ h, ∀ k i net, o.ev = .answer k i net → net = secondUp := by
    intro o ho k i net hans
    have hmem : o.ev ∈ secondUpEvents := hev ▸ List.mem_map_of_mem ho
    rw [hans] at hmem
    simp only [secondUpEvents, List.mem_cons, CheckingEvent.answer.injEq, List.not_mem_nil,
      reduceCtorEq, false_or, or_false] at hmem
    rcases hmem with ⟨_, _, rfl⟩ | ⟨_, _, rfl⟩ <;> rfl
  exact ⟨h, st, hr, of_decide_eq_true hp, checks_settle hr hup⟩

end KinBridge.Proof
