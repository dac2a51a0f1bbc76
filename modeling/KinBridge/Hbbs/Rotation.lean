import KinBridge.Lib.Refine
import KinBridge.Lib.Tickets
import KinBridge.Hbbs.Punch

/-!
# Calls of `get_relay_server` in tasks

`getRelayServer` is a call with nothing in between. Handlers and commands run in tasks, on
several threads, and all of them share `ROTATION_RELAY_SERVER`: here a call tests the length of
its list, draws from the counter, and then indexes the list, and other tasks come in between.
The list is behind an `Arc`, so a call that has begun sees one list.
-/

namespace KinBridge

open Runs

/-- The calls under way. -/
structure Callers where
  /-- `ROTATION_RELAY_SERVER`. -/
  rotation : Nat
  /-- The tasks that are past the two tests. -/
  tested : List Nat
  /-- The tasks that are past `fetch_add`, with what it returned. -/
  fetched : List (Nat × Nat)
deriving DecidableEq, Repr

def Callers.start (rotation : Nat) : Callers := ⟨rotation, [], []⟩

inductive CallEvent where
  | enter (task : Nat)
  | fetchAdd (task : Nat)
  | index (task ticket : Nat)
deriving DecidableEq, Repr

inductive CallOut where
  | silent
  /-- The relay, and its position in the list if it comes from there. -/
  | returned (i : Option Nat) (relay : String)
  /-- The index is out of bounds. -/
  | panicked
deriving DecidableEq, Repr

/-- A step of one of the calls, all of which see the list `rs`. -/
def callStep (rs : List String) (s : Callers) : CallEvent → Option (Callers × CallOut)
  | .enter task =>
    match rs with
    | [] => some (s, .returned none "")
    | [r] => some (s, .returned (some 0) r)
    | _ => some ({ s with tested := task :: s.tested }, .silent)
  | .fetchAdd task =>
    if task ∈ s.tested then
      some (⟨(s.rotation + 1) % 2 ^ 64, s.tested.erase task, s.fetched ++ [(task, s.rotation)]⟩,
        .silent)
    else none
  | .index task ticket =>
    if (task, ticket) ∈ s.fetched then
      let i := ticket % rs.length
      some ({ s with fetched := s.fetched.erase (task, ticket) },
        match rs[i]? with
        | some r => .returned (some i) r
        | none => .panicked)
    else none

/-- The position that a call returns. -/
def CallOut.position : CallOut → Option Nat
  | .returned i _ => i
  | _ => none

/-- The step in which it is decided what a call returns. -/
def CallEvent.decides (rs : List String) : CallEvent → Bool
  | .enter _ => rs.length ≤ 1
  | .fetchAdd _ => 1 < rs.length
  | .index _ _ => false

abbrev CallOcc := Occ Callers CallEvent CallOut

/-- How many calls a run decides. -/
def decided (rs : List String) (h : List CallOcc) : Nat := h.countP fun o => o.ev.decides rs

/-- The positions that the calls of a run return. -/
def returns (h : List CallOcc) : List Nat := h.filterMap fun o => o.out.position

/-- The positions that are decided and not yet returned. -/
def Callers.owed (rs : List String) (s : Callers) : List Nat :=
  (s.fetched.map Prod.snd).map (· % rs.length)

/-! ## What a step does -/

variable {rs : List String} {s s' : Callers} {e : CallEvent} {o : CallOut} {task ticket : Nat}

theorem callStep_enter (h : 1 < rs.length) : callStep rs s (.enter task)
    = some ({ s with tested := task :: s.tested }, .silent) := by
  match rs, h with
  | _ :: _ :: _, _ => rfl

theorem callStep_fetchAdd (h : task ∈ s.tested) : callStep rs s (.fetchAdd task)
    = some (⟨(s.rotation + 1) % 2 ^ 64, s.tested.erase task, s.fetched ++ [(task, s.rotation)]⟩,
      .silent) :=
  if_pos h

theorem callStep_index {r : String} (h : (task, ticket) ∈ s.fetched)
    (hi : rs[ticket % rs.length]? = some r) : callStep rs s (.index task ticket)
      = some ({ s with fetched := s.fetched.erase (task, ticket) },
        .returned (some (ticket % rs.length)) r) := by
  rw [callStep, if_pos h]
  dsimp only
  rw [hi]

inductive CallMove (rs : List String) (s : Callers) : CallEvent → Callers → CallOut → Prop where
  | empty {task : Nat} : rs = [] → CallMove rs s (.enter task) s (.returned none "")
  | only {task : Nat} {r : String} : rs = [r] →
      CallMove rs s (.enter task) s (.returned (some 0) r)
  | tested {task : Nat} : 1 < rs.length →
      CallMove rs s (.enter task) { s with tested := task :: s.tested } .silent
  | fetched {task : Nat} : task ∈ s.tested → CallMove rs s (.fetchAdd task)
      ⟨(s.rotation + 1) % 2 ^ 64, s.tested.erase task, s.fetched ++ [(task, s.rotation)]⟩ .silent
  | returned {task ticket : Nat} {r : String} : (task, ticket) ∈ s.fetched →
      rs[ticket % rs.length]? = some r → CallMove rs s (.index task ticket)
        { s with fetched := s.fetched.erase (task, ticket) }
        (.returned (some (ticket % rs.length)) r)
  | panicked {task ticket : Nat} : (task, ticket) ∈ s.fetched → rs = [] →
      CallMove rs s (.index task ticket) { s with fetched := s.fetched.erase (task, ticket) }
        .panicked

theorem call_move (h : callStep rs s e = some (s', o)) : CallMove rs s e s' o := by
  cases e with
  | enter task =>
      match rs, h with
      | [], h => cases h; exact .empty rfl
      | [r], h => cases h; exact .only rfl
      | _ :: _ :: _, h => cases h; exact .tested (by simp)
  | fetchAdd task =>
      simp only [callStep] at h
      split at h
      · rename_i hmem
        cases h
        exact .fetched hmem
      · cases h
  | index task ticket =>
      simp only [callStep] at h
      split at h
      · rename_i hmem
        obtain ⟨rfl, rfl⟩ := Prod.mk.inj (Option.some.inj h)
        cases hi : rs[ticket % rs.length]? with
        | some r => exact .returned hmem hi
        | none =>
            refine .panicked hmem ?_
            -- a residue is an index, if there is anything to index
            by_contra hne
            have hlt := Nat.mod_lt ticket (List.length_pos_of_ne_nil hne)
            rw [List.getElem?_eq_getElem hlt] at hi
            cases hi
      · cases h

/-- With a list of one, or none, a call is over where it begins. -/
def Settled (rs : List String) (s : Callers) : Prop :=
  rs.length ≤ 1 → s.tested = [] ∧ s.fetched = []

theorem settled_start (rotation : Nat) : Settled rs (.start rotation) := fun _ => ⟨rfl, rfl⟩

theorem settled_step (hs : Settled rs s) (h : callStep rs s e = some (s', o)) : Settled rs s' := by
  intro hone
  obtain ⟨htested, hfetched⟩ := hs hone
  cases call_move h with
  | empty | only => exact ⟨htested, hfetched⟩
  | tested hmany => omega
  | fetched hmem => rw [htested] at hmem; cases hmem
  | returned hmem | panicked hmem => rw [hfetched] at hmem; cases hmem

/-! ## A call with nothing in between -/

theorem getRelayServer_many {s : Server} (h : 1 < s.relayServers.length) : getRelayServer s
    = ({ s with rotation := (s.rotation + 1) % 2 ^ 64 },
      s.relayServers.getD (s.rotation % s.relayServers.length) "") := by
  unfold getRelayServer
  split
  · rename_i hnil; rw [hnil] at h; cases h
  · rename_i hone; rw [hone] at h; exact absurd h (by simp)
  · rfl

/-- It is the three steps, or the first of them. -/
theorem getRelayServer_calls (s : Server) : ∃ h : List CallOcc,
    Run (callStep s.relayServers) (.start s.rotation) h (.start (getRelayServer s).1.rotation)
      ∧ ∃ o ∈ h, ∃ i, o.out = .returned i (getRelayServer s).2 := by
  by_cases hmany : 1 < s.relayServers.length
  · have hlt : s.rotation % s.relayServers.length < s.relayServers.length :=
      Nat.mod_lt _ (by omega)
    have hi := List.getElem?_eq_getElem hlt
    -- a task that is alone makes the three steps
    have henter : Run (callStep s.relayServers) (.start s.rotation) _ _ :=
      Run.nil.snoc ((@callStep_enter _ _ 0 hmany))
    have hfetch := henter.snoc (callStep_fetchAdd (List.mem_singleton_self 0))
    have hindex := hfetch.snoc (callStep_index (List.mem_singleton_self _) hi)
    simp only [Callers.start, List.erase_cons_head, List.nil_append] at hindex
    rw [getRelayServer_many hmany]
    dsimp only
    rw [List.getD_eq_getElem?_getD, hi]
    exact ⟨_, hindex, _, List.mem_append_right _ (List.mem_singleton_self _), _, rfl⟩
  · -- the first step is the last
    unfold getRelayServer
    match s.relayServers, hmany with
    | [], _ => exact ⟨_, Run.nil.snoc (e := .enter 0) rfl, _, List.mem_singleton_self _, none, rfl⟩
    | [r], _ =>
        exact ⟨_, Run.nil.snoc (e := .enter 0) rfl, _, List.mem_singleton_self _, some 0, rfl⟩
    | _ :: _ :: _, hmany => exact absurd (by simp) hmany

end KinBridge
