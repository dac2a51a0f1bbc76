import KinBridge.Hbbs.Rotation
import KinBridge.Proof.Relays

/-!
# Every relay equally often

The calls of `get_relay_server`, in the order in which it is decided what they return, go through
the list round by round. They need not return in that order: what a run returns, with what is
decided at its end and still to be returned, is what was to be returned at its beginning and the
rounds.

No relay in the list has an empty name, so the empty string says that there is none.
-/

namespace KinBridge.Proof

open KinBridge Runs

variable {rs : List String} {s s' : Callers} {e : CallEvent} {o : CallOut} {h : List CallOcc}

/-! ## The counter -/

def counterOf (s : Callers) : Tickets.Counter Nat := ⟨s.rotation, s.fetched⟩

/-- What a step has to do with the counter. -/
def onCounter : Callers → CallEvent → Option (Tickets.Event Nat)
  | _, .enter _ => none
  | _, .fetchAdd task => some (.draw task)
  | _, .index task ticket => some (.back task ticket)

theorem call_follows (hst : callStep rs s e = some (s', o)) :
    Follows (Tickets.step (2 ^ 64)) (counterOf s) (counterOf s') (onCounter s e) := by
  cases call_move hst with
  | empty | only | tested => exact rfl
  | fetched => exact ⟨(), rfl⟩
  | returned hmem | panicked hmem => exact ⟨(), if_pos hmem⟩

/-- With more than one relay a call is decided when it draws, and returns what it drew. -/
theorem call_many (hmany : 1 < rs.length) (hst : callStep rs s e = some (s', o)) :
    e.decides rs = ((onCounter s e).map Tickets.Event.isDraw).getD false
      ∧ o.position = ((onCounter s e).bind Tickets.Event.ticket).map (· % rs.length) := by
  have hnone : decide (rs.length ≤ 1) = false := decide_eq_false (by omega)
  cases call_move hst with
  | empty hrs => subst hrs; cases hmany
  | only hrs => subst hrs; exact absurd hmany (by simp)
  | tested => exact ⟨hnone, rfl⟩
  | fetched => exact ⟨decide_eq_true hmany, rfl⟩
  | returned => exact ⟨rfl, rfl⟩
  | panicked _ hrs => subst hrs; cases hmany

theorem run_many (hmany : 1 < rs.length) (hr : Run (callStep rs) s h s') :
    decided rs h = Tickets.draws (h.filterMap fun o => onCounter o.pre o.ev)
      ∧ returns h = (Tickets.backs (h.filterMap fun o => onCounter o.pre o.ev)).map
        (· % rs.length) := by
  have hst : ∀ o ∈ h, callStep rs o.pre o.ev = some (o.post, o.out) := by
    intro o ho
    obtain ⟨_, _, _, _, hst, _⟩ := hr.mem ho
    exact hst
  constructor
  · rw [decided, Tickets.draws, List.countP_filterMap]
    exact List.countP_congr fun o ho => by rw [(call_many hmany (hst o ho)).1]
  · rw [returns, Tickets.backs, List.filterMap_filterMap, List.map_filterMap]
    exact List.filterMap_congr fun o ho => (call_many hmany (hst o ho)).2

/-! ## One relay, or none -/

/-- A call is over where it begins, and the only position is the first. -/
theorem call_one (hone : rs.length = 1) (hs : Settled rs s)
    (hst : callStep rs s e = some (s', o)) : e.decides rs = true ∧ o.position = some 0 := by
  obtain ⟨htested, hfetched⟩ := hs (by omega)
  cases call_move hst with
  | empty hrs => subst hrs; cases hone
  | only => exact ⟨decide_eq_true (by omega), rfl⟩
  | tested hmany => omega
  | fetched hmem => rw [htested] at hmem; cases hmem
  | returned hmem | panicked hmem => rw [hfetched] at hmem; cases hmem

theorem run_one (hone : rs.length = 1) (hs : Settled rs s) (hr : Run (callStep rs) s h s') :
    returns h = List.replicate (decided rs h) 0 := by
  induction hr with
  | nil => rfl
  | @snoc h t t' e o hrun hst ih =>
      -- with one relay nothing is ever under way
      have ht : Settled rs t := hrun.keeps (fun _ _ _ _ hq hst => settled_step hq hst) hs
      obtain ⟨hdecides, hposition⟩ := call_one hone ht hst
      have hdecided : decided rs (h ++ [⟨t, e, o, t'⟩]) = decided rs h + 1 := by
        simp [decided, hdecides]
      have hreturns : returns (h ++ [⟨t, e, o, t'⟩]) = returns h ++ [0] := by
        simp [returns, hposition]
      rw [hdecided, hreturns, ih, List.replicate_succ']

/-! ## What a call returns -/

/-- Nothing yet, a relay of the list, or the empty string if there is none. -/
def FromList (rs : List String) : CallOut → Prop
  | .silent => True
  | .returned (some i) r => rs[i]? = some r
  | .returned none r => rs = [] ∧ r = ""
  | .panicked => False

theorem call_out (hs : Settled rs s) (hst : callStep rs s e = some (s', o)) : FromList rs o := by
  cases call_move hst with
  | empty hrs => exact ⟨hrs, rfl⟩
  | only hrs => rw [hrs]; rfl
  | tested | fetched => trivial
  | returned _ hi => exact hi
  | panicked hmem hrs =>
      have hnone := (hs (by simp [hrs])).2
      rw [hnone] at hmem
      cases hmem

theorem run_out (hs : Settled rs s) (hr : Run (callStep rs) s h s') :
    ∀ o ∈ h, FromList rs o.out := by
  intro o ho
  obtain ⟨_, _, _, hpre, hst, _⟩ := hr.mem ho
  exact call_out (hpre.keeps (fun _ _ _ _ hq hst => settled_step hq hst) hs) hst

/-! ## Rounds -/

/-- Each position is decided `k` times: it is returned, or owed at the end, as often as it was
owed at the beginning and `k` times more. -/
def Share (rs : List String) (s : Callers) (h : List CallOcc) (s' : Callers) (k : Nat) : Prop :=
  ∀ i < rs.length, (returns h).count i + (s'.owed rs).count i = (s.owed rs).count i + k

theorem run_share (hs : Settled rs s) (hr : Run (callStep rs) s h s') {k : Nat}
    (hcalls : decided rs h = k * rs.length) (hwrap : s.rotation + k * rs.length < 2 ^ 64) :
    Share rs s h s' k := by
  intro i hi
  by_cases hmany : 1 < rs.length
  · -- the counter decides, and what comes back from it is what is returned
    obtain ⟨g, hg, hev⟩ := hr.part counterOf fun _ _ _ _ hst => call_follows hst
    obtain ⟨hdecided, hreturns⟩ := run_many hmany hr
    rw [← hev] at hdecided hreturns
    rw [hreturns]
    exact Tickets.run_fair hg (Nat.lt_of_le_of_lt (Nat.le_add_right ..) hwrap) hi
      (hdecided.symm.trans hcalls) (Nat.le_of_lt hwrap)
  · -- the counter is not asked, and there is but one position
    have hone : rs.length = 1 := by omega
    have hs' : Settled rs s' := hr.keeps (fun _ _ _ _ hq hst => settled_step hq hst) hs
    obtain rfl : i = 0 := by omega
    rw [run_one hone hs hr, hcalls, hone, Callers.owed, Callers.owed, (hs (by omega)).2,
      (hs' (by omega)).2]
    simp

/-! ## The names in the lists -/

/-- No name is empty. -/
def Named (rs : List String) : Prop := ∀ r ∈ rs, r ≠ ""

variable {X : Ext} {key : String} {cfg : Config}

theorem getServers_named (text : String) : Named (getServers X text) := by
  intro r hr
  have hkept := (List.mem_filter.mp hr).2
  exact of_decide_eq_true (Bool.and_eq_true_iff.mp hkept).1

/-- Nor in the lists that the tasks and the channel hold. -/
structure AllNamed (l : IoLoop) : Prop where
  relays : Named l.server.relayServers
  configured : Named l.server.relayServers0
  checks : ∀ rs ∈ l.checks, Named rs
  queue : ∀ rs, .relayServers rs ∈ l.queue → Named rs

/-- A turn begins a check of the configured list at most, and ends one with a part of its list. -/
theorem ioLoop_checks {l l' : IoLoop} {e : LoopEvent}
    (hst : ioLoop X key cfg l e = some (l', ())) :
    (∀ rs ∈ l'.checks, rs ∈ l.checks ∨ rs = l.server.relayServers0)
      ∧ ∀ i rs, e = .checked i rs → ∃ rs₀ ∈ l.checks, rs ⊆ rs₀ := by
  cases e with
  | tick =>
      refine ⟨?_, fun _ _ he => by cases he⟩
      simp only [ioLoop] at hst
      split at hst
      · cases hst
        intro rs hrs
        rcases List.mem_append.mp hrs with hold | hnew
        · exact .inl hold
        · exact .inr (List.mem_singleton.mp hnew)
      · cases hst
        exact fun rs hrs => .inl hrs
  | update text => cases hst; exact ⟨fun rs hrs => .inl hrs, fun _ _ he => by cases he⟩
  | recv =>
      cases hq : l.queue with
      | nil => rw [ioLoop, hq] at hst; cases hst
      | cons d queue =>
          rw [ioLoop, hq] at hst
          cases hst
          exact ⟨fun rs hrs => .inl hrs, fun _ _ he => by cases he⟩
  | checked i rs =>
      simp only [ioLoop] at hst
      split at hst
      · cases hst
      · rename_i rs₀ hcheck
        split at hst
        · rename_i hpart
          have hchecks : l'.checks = l.checks.eraseIdx i := by
            split at hst <;> cases hst <;> rfl
          refine ⟨fun rs hrs => .inl (List.mem_of_mem_eraseIdx (hchecks ▸ hrs)), ?_⟩
          intro _ _ he
          cases he
          exact ⟨rs₀, List.mem_of_getElem? hcheck, hpart.subset⟩
        · cases hst
  | handle e =>
      by_cases hre : e = .restart
      · subst hre; cases hst
      · cases hb : hbbs X key cfg l.server e with
        | none => simp only [ioLoop, hb] at hst; cases hst
        | some r =>
            obtain ⟨s, out⟩ := r
            simp only [ioLoop, hb] at hst
            cases hst
            exact ⟨fun rs hrs => .inl hrs, fun _ _ he => by cases he⟩

theorem named_snoc {queue : List Data} {d : Data}
    (h : ∀ rs, .relayServers rs ∈ queue → Named rs) (hd : ∀ rs, d = .relayServers rs → Named rs) :
    ∀ rs, .relayServers rs ∈ queue ++ [d] → Named rs := by
  intro rs hrs
  rcases List.mem_append.mp hrs with hold | hnew
  · exact h rs hold
  · exact hd rs (List.mem_singleton.mp hnew).symm

theorem allNamed_step {l l' : IoLoop} {e : LoopEvent} (h : AllNamed l)
    (hst : ioLoop X key cfg l e = some (l', ())) : AllNamed l' := by
  obtain ⟨hbegun, hended⟩ := ioLoop_checks hst
  have hchecks : ∀ rs ∈ l'.checks, Named rs := by
    intro rs hrs
    rcases hbegun rs hrs with hold | rfl
    · exact h.checks rs hold
    · exact h.configured
  cases ioLoop_turn hst with
  | quiet _ hsame hmore =>
      obtain ⟨more, hq, hmsg⟩ := hmore
      refine ⟨hsame.1 ▸ h.relays, hsame.2 ▸ h.configured, hchecks, ?_⟩
      intro rs hrs
      rw [hq] at hrs
      rcases List.mem_append.mp hrs with hold | hnew
      · exact h.queue rs hold
      · obtain ⟨_, _, hdata⟩ := hmsg _ hnew
        cases hdata
  | @checked i rs _ hs hq =>
      -- those that answered are some of those that were asked
      obtain ⟨rs₀, hmem, hpart⟩ := hended i rs rfl
      refine ⟨hs ▸ h.relays, hs ▸ h.configured, hchecks, hq ▸ named_snoc h.queue ?_⟩
      rintro _ ⟨⟩
      exact fun r hr => h.checks rs₀ hmem r (hpart hr)
  | update hs hq =>
      exact ⟨hs ▸ h.relays, hs ▸ h.configured, hchecks, hq ▸ named_snoc h.queue nofun⟩
  | @recv d _ hq hs =>
      have hqueue : ∀ rs, .relayServers rs ∈ l'.queue → Named rs :=
        fun rs hrs => h.queue rs (hq ▸ List.mem_cons_of_mem _ hrs)
      cases d with
      | msg m a => exact ⟨hs ▸ h.relays, hs ▸ h.configured, hchecks, hqueue⟩
      | relayServers0 text =>
          exact ⟨hs ▸ getServers_named text, hs ▸ getServers_named text, hchecks, hqueue⟩
      | relayServers rs =>
          exact ⟨hs ▸ h.queue rs (hq ▸ List.mem_cons_self), hs ▸ h.configured, hchecks, hqueue⟩

/-- `parse_relay_servers` makes the list that the server starts with. -/
theorem allNamed_run {db : Table} {g : List (Occ IoLoop LoopEvent Unit)} {l : IoLoop}
    {text : String} (hcfg : cfg.relayServers = getServers X text)
    (hr : Run (ioLoop X key cfg) (.start cfg db) g l) : AllNamed l := by
  have hstart : Named cfg.relayServers := hcfg ▸ getServers_named text
  exact hr.keeps (fun _ _ _ _ h hst => allNamed_step h hst)
    ⟨hstart, hstart, fun _ h => absurd h List.not_mem_nil, fun _ h => absurd h List.not_mem_nil⟩

/-- The calls of two tasks, of which one is slow, when another has just drawn. -/
def slowCalls : List CallEvent :=
  [.enter 1, .enter 2, .fetchAdd 2, .index 2 6, .fetchAdd 1, .enter 2, .fetchAdd 2, .index 9 5,
    .index 2 8, .enter 2, .fetchAdd 2, .index 1 7]

/--
**Relay rotation is fair.** Whatever calls are under way when a run begins: if it decides `k`
rounds' worth of calls and the counter does not start over, each position comes up `k` times. No
call indexes out of bounds, and of a list that the server can hold none returns the empty string,
unless it is empty.
-/
theorem getRelayServer_fair {c : Nat} {g : List CallOcc} (hg : Run (callStep rs) (.start c) g s)
    (hr : Run (callStep rs) s h s') :
    (∀ k, decided rs h = k * rs.length → s.rotation + k * rs.length < 2 ^ 64 → Share rs s h s' k)
      ∧ (∀ o ∈ h, FromList rs o.out)
      ∧ ∀ (X : Ext) key (cfg : Config) db text trace l,
        cfg.relayServers = getServers X text → Run (ioLoop X key cfg) (.start cfg db) trace l →
          l.server.relayServers = rs → ∀ o ∈ h, ∀ i, o.out = .returned i "" → rs = [] := by
  have hs : Settled rs s :=
    hg.keeps (fun _ _ _ _ hq hst => settled_step hq hst) (settled_start c)
  have hout := run_out hs hr
  refine ⟨fun k hcalls hwrap => run_share hs hr hcalls hwrap, hout, ?_⟩
  intro X key cfg db text trace l hcfg hl hrs o ho i hempty
  have hfrom := hout o ho
  rw [hempty] at hfrom
  cases i with
  | none => exact hfrom.1
  | some i =>
      -- a name from the list is not empty
      have hnamed := (allNamed_run hcfg hl).relays
      rw [hrs] at hnamed
      exact absurd rfl (hnamed "" (List.mem_of_getElem? hfrom))

/-- Two rounds of two. -/
theorem getRelayServer_fair_slow : ∃ g h s',
    Run (callStep ["relay-1", "relay-2"]) (.start 5) g ⟨6, [], [(9, 5)]⟩
      ∧ Run (callStep ["relay-1", "relay-2"]) ⟨6, [], [(9, 5)]⟩ h s' ∧ h.map Occ.ev = slowCalls
      ∧ returns h = [0, 1, 0, 1]
      ∧ Share ["relay-1", "relay-2"] ⟨6, [], [(9, 5)]⟩ h s' 2
      ∧ (∀ o ∈ h, FromList ["relay-1", "relay-2"] o.out)
      ∧ ∀ o ∈ h, ∀ i, o.out ≠ .returned i "" := by
  obtain ⟨g, s, hg, _, hp⟩ := @exists_run _ _ _ (callStep ["relay-1", "relay-2"]) (.start 5)
    [.enter 9, .fetchAdd 9] (fun _ s => s = ⟨6, [], [(9, 5)]⟩) (by decide +kernel)
  obtain rfl := of_decide_eq_true hp
  obtain ⟨h, s', hr, hev, hp⟩ := @exists_run _ _ _ (callStep ["relay-1", "relay-2"])
    ⟨6, [], [(9, 5)]⟩ slowCalls
    (fun h _ => decided ["relay-1", "relay-2"] h = 4 ∧ returns h = [0, 1, 0, 1]) (by decide +kernel)
  obtain ⟨hcalls, hreturns⟩ := of_decide_eq_true hp
  obtain ⟨hshare, hfrom, hempty⟩ := getRelayServer_fair hg hr
  refine ⟨g, h, s', hg, hr, hev, hreturns, hshare 2 hcalls (by decide), hfrom, ?_⟩
  intro o ho i hout
  have hnil := hempty Ext.sample "" twoRelays .empty "relay-1,relay-2" [] _ (by decide) Run.nil rfl
    o ho i hout
  cases hnil

end KinBridge.Proof
