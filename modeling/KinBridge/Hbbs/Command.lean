import KinBridge.Net.Parse
import KinBridge.Net.Loopback
import KinBridge.Hbbs.Blocker
import KinBridge.Hbbs.Relays

/-!
# The administrator's commands

`check_cmd` of `rendezvous_server.rs`: a line of text from loopback, a command word and its
arguments, answered with text. Some commands act on the tables at once. What concerns the
relay lists goes through the channel of `io_loop`, which reads it as a list of servers.

`ip-blocker` and `ip-changes` are one command on two tables: drop what is over, say how many
entries are left, and show one entry or ten.
-/

namespace KinBridge

open Keys (trim)

/-- `IP_CHANGES`. -/
abbrev IpChanges := HashMap String (Instant × HashMap String Int)

def IP_CHANGE_DUR_X2 : Nat := IP_CHANGE_DUR * 2

inductive CmdWord where
  | h
  | relayServers
  | ipBlocker
  | ipChanges
  | punchRequests
  | alwaysUseRelay
  | testGeo
deriving DecidableEq, Repr

/-- The words, and their short forms. -/
def CmdWord.ofText (w : String) : Option CmdWord :=
  if w = "h" then some .h
  else if w = "relay-servers" ∨ w = "rs" then some .relayServers
  else if w = "ip-blocker" ∨ w = "ib" then some .ipBlocker
  else if w = "ip-changes" ∨ w = "ic" then some .ipChanges
  else if w = "punch-requests" ∨ w = "pr" then some .punchRequests
  else if w = "always-use-relay" ∨ w = "aur" then some .alwaysUseRelay
  else if w = "test-geo" ∨ w = "tg" then some .testGeo
  else none

/-- `cmd.trim().split(' ')`. -/
@[irreducible]
def cmdFields (cmd : String) : List String := ((trim cmd).toList.splitOn ' ').map String.ofList

/-- What the command word stands for. -/
def cmdWord (cmd : String) : Option CmdWord := (cmdFields cmd).head?.bind CmdWord.ofText

def cmdArgs (cmd : String) : List String := (cmdFields cmd).tail

example : cmdWord " ib 10.0.0.1 -\n" = some .ipBlocker
    ∧ cmdArgs " ib 10.0.0.1 -\n" = ["10.0.0.1", "-"] := by decide +kernel

/-- `writeln!`, once for each line. -/
def unlines (l : List String) : String := String.join (l.map (· ++ "\n"))

/-- A text between quotes. Nothing that is printed so has a character to escape. -/
def debugStr (s : String) : String := "\"" ++ s ++ "\""

/-- `{:?}` of a map. -/
def debugMap (m : HashMap String Int) : String :=
  "\x7b" ++ ", ".intercalate (m.entries.map fun e => debugStr e.1 ++ ": " ++ toString e.2) ++ "\x7d"

/-! ## The commands on a table -/

section Table

variable {ν : Type}

/-- `for i in 0..(start + 10)`, the first `start` passed over. The bound is an `i32`. -/
def page {α : Type} (start : Int) (l : List α) : List α :=
  if start + 10 < 2 ^ 31 then (l.drop start.toNat).take 10 else []

/-- The arguments `[<key>|<number>] [-]`: the key to show, the key to remove, and the number from
which to list, which is negative if there is none. -/
structure TableQuery where
  key : Option String
  removed : Option String
  start : Int
deriving DecidableEq, Repr

/-- An argument that is not a number counts as `-1`; `isKey` says which numbers are keys. -/
def tableQuery (isKey : Int → Bool) : List String → TableQuery
  | [] => ⟨none, none, 0⟩
  | arg :: args =>
    let start := (parseI32 arg).getD (-1)
    if isKey start then ⟨some arg, if args.head? = some "-" then some arg else none, start⟩
    else ⟨none, none, start⟩

/-- The command on a table, with what it prints of an entry. -/
def tableCmd (m : HashMap String ν) (keep : ν → Bool) (q : TableQuery) (line : ν → String) :
    HashMap String ν × String :=
  -- before it looks at the arguments: a query without `-` drops entries, too
  let m := m.retain keep
  let count := toString m.entries.length ++ "\n"
  let one := q.key.bind fun key => (m.lookup key).map line
  let m := match q.removed with
    | some key => m.erase key
    | none => m
  let ten := (page q.start m.entries).map fun e => e.1 ++ ": " ++ line e.2
  (m, count ++ unlines one.toList ++ if 0 ≤ q.start then unlines ten else "")

end Table

/-- `a.0/a.1s b.0.len()/b.1s`. -/
def blockerLine (now : Instant) (e : IpBlockEntry) : String :=
  toString e.counter.1 ++ "/" ++ toString (asSecs (elapsed now e.counter.2)) ++ "s "
    ++ toString e.ids.1.card ++ "/" ++ toString (asSecs (elapsed now e.ids.2)) ++ "s"

def ipBlockerQuery (args : List String) : TableQuery := tableQuery (· < 0) args

/-- `ip-blocker`. -/
def ipBlockerArm (m : IpBlocker) (now : Instant) (args : List String) : IpBlocker × String :=
  tableCmd m (fun e => StillCounts e now) (ipBlockerQuery args) (blockerLine now)

/-- It does to the table what it does to the blocker on its own. -/
theorem ipBlockerArm_fst (m : IpBlocker) (now : Instant) (args : List String) :
    (ipBlockerArm m now args).1 = ipBlockerCmd m now (ipBlockerQuery args).removed := by
  unfold ipBlockerArm tableCmd ipBlockerCmd
  cases (ipBlockerQuery args).removed <;> rfl

/-- The entry is shown: not too old, and with more than one IP. -/
def Shown (now : Instant) (v : Instant × HashMap String Int) : Prop :=
  asSecs (elapsed now v.1) < IP_CHANGE_DUR_X2 ∧ 1 < v.2.entries.length

instance (now : Instant) (v : Instant × HashMap String Int) : Decidable (Shown now v) :=
  inferInstanceAs (Decidable (_ ∧ _))

def changesLine (now : Instant) (v : Instant × HashMap String Int) : String :=
  toString (asSecs (elapsed now v.1)) ++ "s " ++ debugMap v.2

/-- An id may look like a number, so a large one is taken for an id. -/
def ipChangesQuery (args : List String) : TableQuery :=
  tableQuery (fun start => ¬ (0 ≤ start ∧ start ≤ 10000000)) args

/-- `ip-changes`. -/
def ipChangesArm (m : IpChanges) (now : Instant) (args : List String) : IpChanges × String :=
  tableCmd m (fun v => Shown now v) (ipChangesQuery args) (changesLine now)

/-! ## `check_cmd` -/

/-- The server after, the answer, and what goes into the channel of `io_loop`. -/
structure CmdOut where
  server : Server
  res : String
  queued : List Data

def helpText : String :=
  unlines ["relay-servers(rs) <separated by ,>", "reload-geo(rg)",
    "ip-blocker(ib) [<ip>|<number>] [-]", "ip-changes(ic) [<id>|<number>] [-]",
    "punch-requests(pr) [<number>] [-]", "always-use-relay(aur)", "test-geo(tg) <ip1> <ip2>"]

/-- `relay-servers`. -/
def relayServersArm (s : Server) : List String → CmdOut
  -- the lists are as they were until `io_loop` takes this out
  | rs :: _ => ⟨s, "", [.relayServers0 rs]⟩
  | [] => ⟨s, unlines s.relayServers, []⟩

/-- `punch-requests`. The text of a time so long ago comes from `chrono`. -/
def punchRequestsArm (iso : Nat → String) (reqs : List PunchReqEntry) (now : Instant)
    (args : List String) : List PunchReqEntry × String :=
  if args.head? = some "-" then ([], "")
  else
    let start := (args.head?.bind parseUsize).getD 0
    let pageSize := (args.tail.head?.bind parseUsize).getD 10
    let pageSize := if pageSize = 0 then 10 else pageSize
    (reqs, unlines (((reqs.drop start).take pageSize).map fun e =>
      iso (elapsed now e.tm) ++ " " ++ e.fromIp ++ " -> " ++ e.toId ++ "@" ++ e.toIp))

/-- `always-use-relay`. The argument goes into the channel as well. -/
def alwaysUseRelayArm (s : Server) : List String → CmdOut
  | rs :: _ =>
    -- no other text becomes `Y` in upper case
    ⟨{ s with alwaysUseRelay := rs = "Y" ∨ rs = "y" }, "", [.relayServers0 rs]⟩
  | [] => ⟨s, "ALWAYS_USE_RELAY: " ++ toString s.alwaysUseRelay ++ "\n", []⟩

/-- `test-geo`: which relay two IPs would get, and the counter moves on. -/
def testGeoArm (s : Server) (args : List String) : CmdOut :=
  let (s', r) := getRelayServer s
  let tested : CmdOut := ⟨s', debugStr r, []⟩
  match args with
  | [] => ⟨s, "", []⟩
  | [a] => if (parseIpAddr a).isSome then tested else ⟨s, "", []⟩
  | a :: b :: _ =>
    -- the addresses are parsed, and then not looked at
    if (parseIpAddr a).isSome ∧ (parseIpAddr b).isSome then tested else ⟨s, "", []⟩

/-- `check_cmd`. -/
def checkCmd (iso : Nat → String) (s : Server) (now : Instant) (cmd : String) : CmdOut :=
  let args := cmdArgs cmd
  match cmdWord cmd with
  | some .h => ⟨s, helpText, []⟩
  | some .relayServers => relayServersArm s args
  | some .ipBlocker =>
    let (m, res) := ipBlockerArm s.ipBlocker now args
    ⟨{ s with ipBlocker := m }, res, []⟩
  | some .ipChanges =>
    let (m, res) := ipChangesArm s.ipChanges now args
    ⟨{ s with ipChanges := m }, res, []⟩
  | some .punchRequests =>
    let (reqs, res) := punchRequestsArm iso s.punchReqs now args
    ⟨{ s with punchReqs := reqs }, res, []⟩
  | some .alwaysUseRelay => alwaysUseRelayArm s args
  | some .testGeo => testGeoArm s args
  | none => ⟨s, "", []⟩

/-- The loopback branch of `handle_listener2`. -/
def handleLoopback (iso : Nat → String) (s : Server) (now : Instant) (c : LoopbackConn) :
    Option (String × CmdOut) := c.execute (checkCmd iso s now)

/-- A command, and `io_loop` at everything that it put into the channel. -/
def runCmd (X : Ext) (iso : Nat → String) (s : Server) (now : Instant) (cmd : String) : Server :=
  let out := checkCmd iso s now cmd
  out.queued.foldl (handleData X) out.server

/-! ## With an administrator -/

inductive AdminEvent where
  | loop (e : LoopEvent)
  | command (now : Instant) (cmd : String)

/-- When the handler or the command reads the clock. -/
def AdminEvent.time : AdminEvent → Option Instant
  | .loop (.handle e) => e.io.map fun io => io.now
  | .loop _ => none
  | .command now _ => some now

/-- The loop after a command, and the answer. -/
def IoLoop.answer (l : IoLoop) (out : CmdOut) : IoLoop × Option String :=
  ({ l with server := out.server, queue := l.queue ++ out.queued }, some out.res)

/-- `io_loop` and its tasks, and commands in between. A command puts out its answer. -/
def admin (X : Ext) (key : String) (iso : Nat → String) (cfg : Config) (l : IoLoop) :
    AdminEvent → Option (IoLoop × Option String)
  | .loop e => (ioLoop X key cfg l e).map fun r => (r.1, none)
  | .command now cmd => some (l.answer (checkCmd iso l.server now cmd))

/-- What a step does to the server: a message or a command, an item of the channel, or nothing. -/
inductive AdminMove (X : Ext) (key : String) (iso : Nat → String) (cfg : Config) (s : Server) :
    AdminEvent → Server → Option String → Prop where
  | message {e : Event} {s' : Server} {out : Out} : e ≠ .restart →
      hbbs X key cfg s e = some (s', out) → AdminMove X key iso cfg s (.loop (.handle e)) s' none
  | data {d : Data} : AdminMove X key iso cfg s (.loop .recv) (handleData X s d) none
  | quiet {e : LoopEvent} : (∀ e', e ≠ .handle e') → AdminMove X key iso cfg s (.loop e) s none
  | command {now : Instant} {cmd : String} {out : CmdOut} : checkCmd iso s now cmd = out →
      AdminMove X key iso cfg s (.command now cmd) out.server (some out.res)

theorem admin_move {X : Ext} {key : String} {iso : Nat → String} {cfg : Config} {l l' : IoLoop}
    {e : AdminEvent} {o : Option String} (h : admin X key iso cfg l e = some (l', o)) :
    AdminMove X key iso cfg l.server e l'.server o := by
  cases e with
  | command now cmd =>
      rw [admin] at h
      generalize hout : checkCmd iso l.server now cmd = out at h
      obtain ⟨rfl, rfl⟩ := Prod.mk.inj (Option.some.inj h)
      exact .command hout
  | loop e =>
      obtain ⟨⟨l'', _⟩, hst, heq⟩ := Option.map_eq_some_iff.mp h
      obtain ⟨rfl, rfl⟩ := Prod.mk.inj heq
      cases e with
      | tick =>
          simp only [ioLoop] at hst
          split at hst <;> cases hst <;> exact .quiet fun _ he => by cases he
      | update rs =>
          cases hst
          exact .quiet fun _ he => by cases he
      | recv =>
          cases hq : l.queue with
          | nil => rw [ioLoop, hq] at hst; cases hst
          | cons d queue =>
              rw [ioLoop, hq] at hst
              cases hst
              exact .data
      | checked i rs =>
          simp only [ioLoop] at hst
          split at hst
          · cases hst
          · split at hst
            · split at hst <;> cases hst <;> exact .quiet fun _ he => by cases he
            · cases hst
      | handle e =>
          -- a restart ends the process, and with it `io_loop`
          by_cases hre : e = .restart
          · subst hre; cases hst
          · cases hb : hbbs X key cfg l.server e with
            | none => simp only [ioLoop, hb] at hst; cases hst
            | some r =>
                obtain ⟨s, out⟩ := r
                simp only [ioLoop, hb] at hst
                cases hst
                exact .message hre hb

end KinBridge
