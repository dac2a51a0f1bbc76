import Mathlib.Data.List.Perm.Subperm
import KinBridge.Hbbs.Dispatch

/-!
# The relay lists in `io_loop`

`io_loop` keeps two lists: `relay_servers0` as configured, and `relay_servers`, the ones to
hand out. Every three seconds it starts a task that tries the configured servers, given the
list as it is then. The task takes seconds, and puts what answered into the channel of the
loop, where an administrator's new list arrives as well. The loop takes the channel's items
one by one, between the messages it handles.
-/

namespace KinBridge

open Runs

variable (X : Ext) (key : String)

/-- `get_servers` (`common.rs`): the entries that are not empty and resolve. -/
def getServers (s : String) : List String :=
  ((s.toList.splitOn ',').map String.ofList).filter fun x => x ≠ "" && X.validServer x

/-- `parse_relay_servers`. -/
def parseRelayServers (s : Server) (relayServers : String) : Server :=
  let rs := getServers X relayServers
  { s with relayServers0 := rs, relayServers := rs }

example : getServers Ext.sample "relay-1,,relay-2:21117" = ["relay-1", "relay-2:21117"] := by decide

/-- What goes through the channel. -/
inductive Data where
  | msg (msg : RendezvousMessage) (addr : SocketAddr)
  | relayServers0 (rs : String)
  | relayServers (rs : List String)
deriving DecidableEq, Repr

/-- The loop's server, the lists given to the `check_relay_servers` tasks that still run, and
the channel, oldest item first. -/
structure IoLoop where
  server : Server
  checks : List (List String)
  queue : List Data

def IoLoop.start (cfg : Config) (db : Table) : IoLoop := ⟨.start cfg db, [], []⟩

inductive LoopEvent where
  /-- `timer_check_relay.tick()`. -/
  | tick
  /-- The check at this place of the list is over; these servers answered, in this order. -/
  | checked (i : Nat) (rs : List String)
  /-- `check_cmd` sends `Data::RelayServers0`. -/
  | update (rs : String)
  /-- `rx.recv()`. -/
  | recv
  /-- A message comes in, on whichever socket. -/
  | handle (e : Event)

/-- What a handler sends through the channel. -/
def Out.queued : Out → List Data
  | .udp out => out.queued.map fun m => .msg m.1 m.2
  | .tcp effects _ => effects.filterMap fun
    | .queue msg addr => some (.msg msg addr)
    | _ => none
  | .restarted => []

/-- The branch of `rx.recv()`. -/
def handleData (s : Server) : Data → Server
  | .msg _ _ => s
  | .relayServers0 rs => parseRelayServers X s rs
  | .relayServers rs => { s with relayServers := rs }

/-- One turn of `io_loop`, or one of its tasks getting done. -/
def ioLoop (cfg : Config) (l : IoLoop) : LoopEvent → Option (IoLoop × Unit)
  | .tick =>
    if l.server.relayServers0.length > 1 then
      some ({ l with checks := l.checks ++ [l.server.relayServers0] }, ())
    else some (l, ())
  | .checked i rs =>
    match l.checks[i]? with
    | none => none
    | some rs0 =>
      if rs.Subperm rs0 then
        let l := { l with checks := l.checks.eraseIdx i }
        -- nothing is sent if nobody answered
        if rs = [] then some (l, ())
        else some ({ l with queue := l.queue ++ [.relayServers rs] }, ())
      else none
  | .update rs => some ({ l with queue := l.queue ++ [.relayServers0 rs] }, ())
  | .recv =>
    match l.queue with
    | [] => none
    | d :: queue => some ({ l with server := handleData X l.server d, queue := queue }, ())
  | .handle .restart => none
  | .handle e =>
    match hbbs X key cfg l.server e with
    | some (s, out) => some ({ l with server := s, queue := l.queue ++ out.queued }, ())
    | none => none

/-! ## Handlers and the lists -/

/-- Both lists are the same. -/
def SameRelays (s s' : Server) : Prop :=
  s'.relayServers = s.relayServers ∧ s'.relayServers0 = s.relayServers0

variable {X key}

theorem MsgMove.relays {s s' : Server} {msg : Option RendezvousMessage} (h : MsgMove s msg s') :
    SameRelays s s' := by
  cases h <;> exact ⟨rfl, rfl⟩

/-- No message changes the lists. -/
theorem hbbs_relays {cfg : Config} {s s' : Server} {e : Event} {o : Out}
    (h : hbbs X key cfg s e = some (s', o)) (hne : e ≠ .restart) : SameRelays s s' := by
  cases e with
  | restart => exact absurd rfl hne
  | udp io addr msg =>
      rw [(hbbs_udp.mp h).1]
      exact (handleUdp_move ..).relays
  | tcp io addr ws msg =>
      rw [(hbbs_tcp.mp h).1]
      exact (handleTcp_move ..).relays

end KinBridge
