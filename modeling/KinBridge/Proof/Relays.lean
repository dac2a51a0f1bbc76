import KinBridge.Hbbs.Relays

/-!
# Health checks and the configured list

A check works on the list as it was when the check began, and what it found replaces
`relay_servers` without a look at `relay_servers0`. So a result that is put in the channel
behind an administrator's new list brings removed servers back.

Seen from the channel, nothing else can go wrong: the items are taken in order, so a result
meets the list that was the newest when the result was put in.
-/

namespace KinBridge.Proof

open KinBridge Runs

variable {X : Ext} {key : String} {cfg : Config}

/-- Every relay to hand out is configured. -/
def Configured (l : IoLoop) : Prop := ∀ x ∈ l.server.relayServers, x ∈ l.server.relayServers0

/-- The administrator's newest list: the last in the channel, or else the one in force. -/
def newestList (X : Ext) (cur : List String) : List Data → List String
  | [] => cur
  | .relayServers0 rs :: queue => newestList X (getServers X rs) queue
  | .relayServers _ :: queue => newestList X cur queue
  | .msg _ _ :: queue => newestList X cur queue

/-- Whenever a check is over, the servers that answered are all in the newest list. -/
def CheckFits (X : Ext) (l : IoLoop) : LoopEvent → Prop
  | .checked _ rs => ∀ x ∈ rs, x ∈ newestList X l.server.relayServers0 l.queue
  | _ => True

instance (l : IoLoop) : (e : LoopEvent) → Decidable (CheckFits X l e)
  | .checked _ rs =>
    inferInstanceAs (Decidable (∀ x ∈ rs, x ∈ newestList X l.server.relayServers0 l.queue))
  | .tick => isTrue trivial
  | .update _ => isTrue trivial
  | .recv => isTrue trivial
  | .handle _ => isTrue trivial

instance (l : IoLoop) : Decidable (Configured l) :=
  inferInstanceAs (Decidable (∀ x ∈ l.server.relayServers, x ∈ l.server.relayServers0))

/-- Each result in the channel will find its servers configured. -/
def QueueFits (X : Ext) (cur : List String) : List Data → Prop
  | [] => True
  | .relayServers0 rs :: queue => QueueFits X (getServers X rs) queue
  | .relayServers rs :: queue => (∀ x ∈ rs, x ∈ cur) ∧ QueueFits X cur queue
  | .msg _ _ :: queue => QueueFits X cur queue

/-! ## What goes into the channel -/

/-- What the newest list asks of one more item. -/
def DataFits (cur : List String) : Data → Prop
  | .relayServers rs => ∀ x ∈ rs, x ∈ cur
  | _ => True

theorem queueFits_snoc {d : Data} {cur : List String} {queue : List Data} :
    QueueFits X cur (queue ++ [d]) ↔
      QueueFits X cur queue ∧ DataFits (newestList X cur queue) d := by
  induction queue generalizing cur with
  | nil => cases d <;> simp [QueueFits, DataFits, newestList]
  | cons c queue ih =>
      cases c with
      | relayServers0 rs => simp only [List.cons_append, QueueFits, newestList, ih]
      | relayServers rs => simp only [List.cons_append, QueueFits, newestList, ih, and_assoc]
      | msg m a => simp only [List.cons_append, QueueFits, newestList, ih]

theorem queueFits_append {cur : List String} {queue more : List Data}
    (h : ∀ d ∈ more, ∃ m a, d = .msg m a) :
    QueueFits X cur (queue ++ more) ↔ QueueFits X cur queue := by
  induction more generalizing queue with
  | nil => rw [List.append_nil]
  | cons d more ih =>
      obtain ⟨m, a, rfl⟩ := h d List.mem_cons_self
      have hrest : ∀ d ∈ more, ∃ m a, d = .msg m a :=
        fun d hd => h d (List.mem_cons_of_mem _ hd)
      rw [List.append_cons, ih hrest, queueFits_snoc]
      exact and_iff_left trivial

/-- Handlers put nothing but messages in the channel. -/
theorem queued_msg {o : Out} {d : Data} (h : d ∈ o.queued) : ∃ m a, d = .msg m a := by
  cases o with
  | udp out =>
      obtain ⟨m, _, rfl⟩ := List.mem_map.mp h
      exact ⟨_, _, rfl⟩
  | tcp effects keep =>
      obtain ⟨e, _, he⟩ := List.mem_filterMap.mp h
      cases e with
      | queue msg addr => exact ⟨_, _, (Option.some.inj he).symm⟩
      | park => cases he
      | sendToTcp => cases he
      | sendToTcpSync => cases he
      | sendToSink => cases he
  | restarted => cases h

/-! ## One turn of the loop -/

/-- Both lists and the channel are in order. -/
def InOrder (X : Ext) (l : IoLoop) : Prop :=
  Configured l ∧ QueueFits X l.server.relayServers0 l.queue

/-- What one turn does to the lists and the channel. -/
inductive Turn (X : Ext) (l : IoLoop) : LoopEvent → IoLoop → Prop where
  | quiet {e : LoopEvent} {l' : IoLoop} : (∀ i rs, e = .checked i rs → rs = []) →
      SameRelays l.server l'.server →
      (∃ more, l'.queue = l.queue ++ more ∧ ∀ d ∈ more, ∃ m a, d = .msg m a) → Turn X l e l'
  | checked {i : Nat} {rs : List String} {l' : IoLoop} : l'.server = l.server →
      l'.queue = l.queue ++ [.relayServers rs] → Turn X l (.checked i rs) l'
  | update {rs : String} {l' : IoLoop} : l'.server = l.server →
      l'.queue = l.queue ++ [.relayServers0 rs] → Turn X l (.update rs) l'
  | recv {d : Data} {l' : IoLoop} : l.queue = d :: l'.queue →
      l'.server = handleData X l.server d → Turn X l .recv l'

theorem ioLoop_turn {l l' : IoLoop} {e : LoopEvent}
    (h : ioLoop X key cfg l e = some (l', ())) : Turn X l e l' := by
  have hsame : ∀ s : Server, SameRelays s s := fun s => ⟨rfl, rfl⟩
  have hnone : ∃ more, l.queue = l.queue ++ more ∧ ∀ d ∈ more, ∃ m a, d = Data.msg m a :=
    ⟨[], (List.append_nil _).symm, fun d hd => by cases hd⟩
  cases e with
  | tick =>
      simp only [ioLoop] at h
      split at h <;> cases h <;> exact .quiet (fun _ _ he => by cases he) (hsame _) hnone
  | update rs =>
      cases h
      exact .update rfl rfl
  | recv =>
      cases hq : l.queue with
      | nil => rw [ioLoop, hq] at h; cases h
      | cons d queue =>
          rw [ioLoop, hq] at h
          cases h
          exact .recv hq rfl
  | checked i rs =>
      simp only [ioLoop] at h
      split at h
      · cases h
      · split at h
        · split at h
          · rename_i hempty
            cases h
            refine .quiet ?_ (hsame _) hnone
            intro _ _ he
            cases he
            exact hempty
          · cases h
            exact .checked rfl rfl
        · cases h
  | handle e =>
      by_cases hre : e = .restart
      · subst hre; cases h
      · cases hb : hbbs X key cfg l.server e with
        | none => simp only [ioLoop, hb] at h; cases h
        | some r =>
            obtain ⟨s, out⟩ := r
            simp only [ioLoop, hb] at h
            cases h
            exact .quiet (fun _ _ he => by cases he) (hbbs_relays hb hre)
              ⟨out.queued, rfl, fun _ hd => queued_msg hd⟩

/-- What the loop takes from the channel leaves the rest in order. -/
theorem inOrder_recv {l l' : IoLoop} {d : Data} (h : InOrder X l)
    (hq : l.queue = d :: l'.queue) (hs : l'.server = handleData X l.server d) : InOrder X l' := by
  obtain ⟨hconf, hfits⟩ := h
  rw [hq] at hfits
  unfold InOrder Configured
  rw [hs]
  cases d with
  | msg m a => exact ⟨hconf, hfits⟩
  | relayServers0 rs => exact ⟨fun _ hx => hx, hfits⟩
  | relayServers rs => exact hfits

theorem inOrder_step {l l' : IoLoop} {e : LoopEvent} (h : InOrder X l) (hc : CheckFits X l e)
    (hst : ioLoop X key cfg l e = some (l', ())) : InOrder X l' := by
  obtain ⟨hconf, hfits⟩ := h
  cases ioLoop_turn hst with
  | quiet _ hsame hmore =>
      obtain ⟨more, hq, hmsg⟩ := hmore
      unfold InOrder Configured
      rw [hsame.1, hsame.2, hq, queueFits_append hmsg]
      exact ⟨hconf, hfits⟩
  | checked hs hq =>
      unfold InOrder Configured
      rw [hs, hq, queueFits_snoc]
      exact ⟨hconf, hfits, hc⟩
  | update hs hq =>
      unfold InOrder Configured
      rw [hs, hq, queueFits_snoc]
      exact ⟨hconf, hfits, trivial⟩
  | recv hq hs => exact inOrder_recv ⟨hconf, hfits⟩ hq hs

theorem inOrder_start (db : Table) : InOrder X (.start cfg db) := ⟨fun _ hx => hx, trivial⟩

theorem inOrder_run {db : Table} {h : List (Occ IoLoop LoopEvent Unit)} {l : IoLoop}
    (hr : Run (ioLoop X key cfg) (.start cfg db) h l)
    (hc : ∀ o ∈ h, CheckFits X o.pre o.ev) : InOrder X l :=
  Run.inv_of (I := fun _ l => InOrder X l) (inOrder_start db)
    (fun _ _ _ _ _ hin hfits hst => inOrder_step hin hfits hst) hr hc

def twoRelays : Config := { Config.sample with relayServers := ["relay-1", "relay-2"] }

/--
**Only configured relays are handed out** as long as every check that gets done finds the
servers that answered in the newest list.
-/
theorem relays_configured {db : Table} {h : List (Occ IoLoop LoopEvent Unit)} {l : IoLoop}
    (hr : Run (ioLoop X key cfg) (.start cfg db) h l)
    (hc : ∀ o ∈ h, CheckFits X o.pre o.ev) : Configured l :=
  (inOrder_run hr hc).1

/-- Two relays, of which one answers after a new list that keeps both. -/
theorem relays_configured_two : ∃ h l,
    Run (ioLoop Ext.sample "" twoRelays) (.start twoRelays .empty) h l
      ∧ l.server.relayServers = ["relay-2"] ∧ Configured l := by
  obtain ⟨h, l, hr, _, hp⟩ := @exists_run _ _ _ (ioLoop Ext.sample "" twoRelays)
    (.start twoRelays .empty)
    [.tick, .update "relay-2,relay-1,relay-3", .recv, .checked 0 ["relay-2"], .recv]
    (fun h l => decide (∀ o ∈ h, CheckFits Ext.sample o.pre o.ev)
      && decide (l.server.relayServers = ["relay-2"])) (by decide)
  obtain ⟨hfits, hlist⟩ := Bool.and_eq_true_iff.mp hp
  exact ⟨h, l, hr, of_decide_eq_true hlist, relays_configured hr (of_decide_eq_true hfits)⟩

/-- **A removed relay comes back**: the new list arrives while a check is under way, and the
check's result replaces it. -/
theorem relays_stale :
    ¬ ∀ h l, Run (ioLoop Ext.sample "" twoRelays) (.start twoRelays .empty) h l → Configured l := by
  intro hall
  obtain ⟨h, l, hr, _, hp⟩ := @exists_run _ _ _ (ioLoop Ext.sample "" twoRelays)
    (.start twoRelays .empty) [.tick, .update "relay-3", .recv, .checked 0 ["relay-1"], .recv]
    (fun _ l => decide (¬ Configured l)) (by decide)
  exact of_decide_eq_true hp (hall h l hr)

/-! ## Nothing less will do -/

theorem checkFits_of_nil {l : IoLoop} {e : LoopEvent} (h : ∀ i rs, e = .checked i rs → rs = []) :
    CheckFits X l e := by
  cases e with
  | checked i rs =>
      rw [h i rs rfl]
      exact fun _ hx => absurd hx List.not_mem_nil
  | tick => trivial
  | update rs => trivial
  | recv => trivial
  | handle e => trivial

/-- A result that does not fit goes into the channel. -/
theorem misfit_made {l l' : IoLoop} {e : LoopEvent} (hst : ioLoop X key cfg l e = some (l', ()))
    (hmis : ¬ CheckFits X l e) : ¬ QueueFits X l'.server.relayServers0 l'.queue := by
  cases ioLoop_turn hst with
  | quiet hnil => exact absurd (checkFits_of_nil hnil) hmis
  | checked hs hq =>
      rw [hs, hq, queueFits_snoc]
      exact fun hall => hmis hall.2
  | update => exact absurd trivial hmis
  | recv => exact absurd trivial hmis

/-- It stays there until it does its damage. -/
theorem misfit_step {l l' : IoLoop} {e : LoopEvent} (hst : ioLoop X key cfg l e = some (l', ()))
    (hwait : ¬ QueueFits X l.server.relayServers0 l.queue) :
    ¬ QueueFits X l'.server.relayServers0 l'.queue ∨ ¬ Configured l' := by
  cases ioLoop_turn hst with
  | quiet _ hsame hmore =>
      obtain ⟨more, hq, hmsg⟩ := hmore
      rw [hsame.2, hq, queueFits_append hmsg]
      exact .inl hwait
  | checked hs hq =>
      rw [hs, hq, queueFits_snoc]
      exact .inl fun hall => hwait hall.1
  | update hs hq =>
      rw [hs, hq, queueFits_snoc]
      exact .inl fun hall => hwait hall.1
  | @recv d _ hq hs =>
      rw [hq] at hwait
      cases d with
      | msg m a => rw [hs]; exact .inl hwait
      | relayServers0 rs => rw [hs]; exact .inl hwait
      | relayServers rs =>
          by_cases hrs : ∀ x ∈ rs, x ∈ l.server.relayServers0
          · rw [hs]
            exact .inl fun hall => hwait ⟨hrs, hall⟩
          · right
            show ¬ ∀ x ∈ l'.server.relayServers, x ∈ l'.server.relayServers0
            rw [hs]
            exact hrs

theorem misfit_run {db : Table} {h : List (Occ IoLoop LoopEvent Unit)} {l : IoLoop}
    (hr : Run (ioLoop X key cfg) (.start cfg db) h l)
    (hmis : ∃ o ∈ h, ¬ CheckFits X o.pre o.ev) :
    ¬ QueueFits X l.server.relayServers0 l.queue ∨ ∃ o ∈ h, ¬ Configured o.post := by
  induction hr with
  | nil => obtain ⟨o, ho, _⟩ := hmis; cases ho
  | @snoc h l l' e o hrun hst ih =>
      obtain ⟨x, hx, hxfit⟩ := hmis
      rcases List.mem_append.mp hx with hx | hx
      · rcases ih ⟨x, hx, hxfit⟩ with hwait | ⟨y, hy, hconf⟩
        · refine (misfit_step hst hwait).imp_right fun hconf => ?_
          exact ⟨_, List.mem_append_right _ (List.mem_singleton_self _), hconf⟩
        · exact .inr ⟨y, List.mem_append_left _ hy, hconf⟩
      · rw [List.mem_singleton.mp hx] at hxfit
        exact .inl (misfit_made hst hxfit)

/-- Once the channel is empty, the checks have all fitted exactly if only configured relays
were handed out in between. -/
theorem checkFits_iff_configured {db : Table} {h : List (Occ IoLoop LoopEvent Unit)} {l : IoLoop}
    (hr : Run (ioLoop X key cfg) (.start cfg db) h l) (hq : l.queue = []) :
    (∀ o ∈ h, CheckFits X o.pre o.ev) ↔ ∀ o ∈ h, Configured o.post := by
  constructor
  · intro hfits o ho
    obtain ⟨h₁, h₂, rfl, hpre, hst, _⟩ := hr.mem ho
    have hupto := Run.snoc hpre hst
    refine (inOrder_run hupto ?_).1
    intro x hx
    rcases List.mem_append.mp hx with hx | hx
    · exact hfits x (List.mem_append_left _ hx)
    · rw [List.mem_singleton.mp hx]
      exact hfits o ho
  · intro hconf
    by_contra hmis
    have hsome : ∃ o ∈ h, ¬ CheckFits X o.pre o.ev := by simpa using hmis
    rcases misfit_run hr hsome with hwait | ⟨o, ho, hbad⟩
    · rw [hq] at hwait
      exact hwait trivial
    · exact hbad (hconf o ho)

end KinBridge.Proof
