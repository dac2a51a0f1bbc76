import KinBridge.Lib.Gather
import KinBridge.Lib.Refine
import KinBridge.Hbbs.Relays

/-!
# The futures of `check_relay_servers`

A check is a task with a future for each server on the list. A future connects, and pushes the
server's name if it can. When all of them are done the names go into the channel. `ioLoop`
leaves this open: there a check comes to an end with any of its servers, in any order. Here the
futures run one by one, in any order, and the network says which hosts can be connected to.
-/

namespace KinBridge

open Runs Gather

variable (X : Ext) (key : String) (relayPort : Nat)

/-- The host that a future connects to, on `RELAY_PORT` if the entry names no port. -/
def relayHost (x : String) : String :=
  if ':' ∈ x.toList then x else x ++ ":" ++ toString relayPort

/-- A task of `check_relay_servers`. -/
abbrev Check := Gather.Batch String

/-- `io_loop` with the tasks that it has started. -/
structure Checking where
  server : Server
  checks : List Check
  queue : List Data

def Checking.start (cfg : Config) (db : Table) : Checking := ⟨.start cfg db, [], []⟩

/-- Without the futures. -/
def Checking.view (st : Checking) : IoLoop := ⟨st.server, st.checks.map Batch.items, st.queue⟩

inductive CheckingEvent where
  /-- `timer_check_relay.tick()`. -/
  | tick
  /-- `FramedStream::new` comes back in one of the futures of a check. -/
  | answer (k i : Nat) (up : String → Bool)
  /-- A future whose host is up gets the lock. -/
  | push (k i : Nat)
  /-- `join_all(futs)` comes back. -/
  | joined (k : Nat)
  /-- A turn of the loop that has nothing to do with checks. -/
  | turn (e : LoopEvent)

def LoopEvent.ofCheck : LoopEvent → Bool
  | .tick | .checked _ _ => true
  | .update _ | .recv | .handle _ => false

/-- One of the futures of a check moves on. -/
def Checking.move (st : Checking) (k : Nat) (m : Advance String) : Option (Checking × Unit) :=
  match st.checks[k]? with
  | none => none
  | some c => (Gather.step c m).map fun r => ({ st with checks := st.checks.set k r.1 }, ())

def checking (cfg : Config) (st : Checking) : CheckingEvent → Option (Checking × Unit)
  | .tick =>
    if st.server.relayServers0.length > 1 then
      some ({ st with checks := st.checks ++ [.start st.server.relayServers0] }, ())
    else some (st, ())
  | .answer k i up => st.move k (.answer i fun x => up (relayHost relayPort x))
  | .push k i => st.move k (.push i)
  | .joined k =>
    match st.checks[k]? with
    | none => none
    | some c =>
      if c.joined then
        let st := { st with checks := st.checks.eraseIdx k }
        if c.found = [] then some (st, ())
        else some ({ st with queue := st.queue ++ [.relayServers c.found] }, ())
      else none
  | .turn e =>
    if e.ofCheck then none
    else (ioLoop X key cfg st.view e).map fun r =>
      ({ st with server := r.1.server, queue := r.1.queue }, ())

/-- What `ioLoop` is told of an event. -/
def Checking.told (st : Checking) : CheckingEvent → Option LoopEvent
  | .tick => some .tick
  | .answer _ _ _ | .push _ _ => none
  | .joined k => st.checks[k]?.map fun c => .checked k c.found
  | .turn e => some e

/-! ## What an event does -/

variable {X key relayPort} {cfg : Config} {st st' : Checking}

inductive CheckingStep (X : Ext) (key : String) (relayPort : Nat) (cfg : Config) (st : Checking) :
    CheckingEvent → Checking → Prop where
  | start : st.server.relayServers0.length > 1 → CheckingStep X key relayPort cfg st .tick
      { st with checks := st.checks ++ [.start st.server.relayServers0] }
  | idle : ¬ st.server.relayServers0.length > 1 → CheckingStep X key relayPort cfg st .tick st
  | answer {k i : Nat} {up : String → Bool} {c c' : Check} : st.checks[k]? = some c →
      Advanced c (.answer i fun x => up (relayHost relayPort x)) c' →
      CheckingStep X key relayPort cfg st (.answer k i up)
        { st with checks := st.checks.set k c' }
  | push {k i : Nat} {c c' : Check} : st.checks[k]? = some c → Advanced c (.push i) c' →
      CheckingStep X key relayPort cfg st (.push k i) { st with checks := st.checks.set k c' }
  | silent {k : Nat} {c : Check} : st.checks[k]? = some c → c.joined = true → c.found = [] →
      CheckingStep X key relayPort cfg st (.joined k)
        { st with checks := st.checks.eraseIdx k }
  | reported {k : Nat} {c : Check} : st.checks[k]? = some c → c.joined = true → c.found ≠ [] →
      CheckingStep X key relayPort cfg st (.joined k)
        ⟨st.server, st.checks.eraseIdx k, st.queue ++ [.relayServers c.found]⟩
  | turn {e : LoopEvent} {l : IoLoop} : e.ofCheck = false →
      ioLoop X key cfg st.view e = some (l, ()) →
      CheckingStep X key relayPort cfg st (.turn e) ⟨l.server, st.checks, l.queue⟩

theorem move_eq_some {k : Nat} {m : Advance String} (h : st.move k m = some (st', ())) :
    ∃ c c', st.checks[k]? = some c ∧ Advanced c m c'
      ∧ st' = { st with checks := st.checks.set k c' } := by
  unfold Checking.move at h
  split at h
  · cases h
  · rename_i c hc
    obtain ⟨⟨c', _⟩, hst, heq⟩ := Option.map_eq_some_iff.mp h
    exact ⟨c, c', hc, step_iff.mp hst, (Prod.mk.inj heq).1.symm⟩

theorem checking_step {e : CheckingEvent}
    (h : checking X key relayPort cfg st e = some (st', ())) :
    CheckingStep X key relayPort cfg st e st' := by
  cases e with
  | tick =>
      dsimp only [checking] at h
      split at h
      · rename_i hlong
        cases h
        exact .start hlong
      · rename_i hshort
        cases h
        exact .idle hshort
  | answer k i up =>
      obtain ⟨c, c', hc, hmoved, rfl⟩ := move_eq_some h
      exact .answer hc hmoved
  | push k i =>
      obtain ⟨c, c', hc, hmoved, rfl⟩ := move_eq_some h
      exact .push hc hmoved
  | joined k =>
      dsimp only [checking] at h
      split at h
      · cases h
      · rename_i c hc
        split at h
        · rename_i hj
          split at h
          · rename_i hnil
            cases h
            exact .silent hc hj hnil
          · rename_i hne
            cases h
            exact .reported hc hj hne
        · cases h
  | turn e =>
      dsimp only [checking] at h
      split at h
      · cases h
      · rename_i hof
        obtain ⟨⟨l, _⟩, hst, heq⟩ := Option.map_eq_some_iff.mp h
        obtain rfl := (Prod.mk.inj heq).1
        exact .turn (Bool.eq_false_iff.mpr hof) hst

end KinBridge
