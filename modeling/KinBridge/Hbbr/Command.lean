import KinBridge.Net.Loopback
import KinBridge.Hbbr.World
import KinBridge.Hbbs.Command

/-!
# The administrator's commands to `hbbr`

`check_cmd` of `relay_server.rs`. A command edits one of the two lists, shows or changes a
setting, or reports the traffic. What it does to the lists it does entry by entry, under a
lock of its own each time, so `checkCmd` returns the accesses and `World` takes them as events.

The settings are read as `f64`, and printed through `f64`; what comes of that is a parameter,
as is the order in which a set is listed.
-/

namespace KinBridge.Hbbr

open KinBridge

inductive Listing where
  | blacklist
  | blocklist
deriving DecidableEq, Repr

/-- The `AtomicUsize`s. -/
inductive Setting where
  /-- `DOWNGRADE_THRESHOLD_100`. -/
  | downgradeThreshold
  /-- `DOWNGRADE_START_CHECK`, in ms. -/
  | downgradeStartCheck
  /-- `LIMIT_SPEED`, `TOTAL_BANDWIDTH` and `SINGLE_BANDWIDTH`, in bit/s. -/
  | limitSpeed
  | totalBandwidth
  | singleBandwidth
deriving DecidableEq, Repr

inductive CmdWord where
  | h
  | add (list : Listing)
  | remove (list : Listing)
  | print (list : Listing)
  | setting (which : Setting)
  | usage
deriving DecidableEq, Repr

/-- The words, and their short forms. -/
def CmdWord.ofText (w : String) : Option CmdWord :=
  if w = "h" then some .h
  else if w = "blacklist-add" ∨ w = "ba" then some (.add .blacklist)
  else if w = "blacklist-remove" ∨ w = "br" then some (.remove .blacklist)
  else if w = "blacklist" ∨ w = "b" then some (.print .blacklist)
  else if w = "blocklist-add" ∨ w = "Ba" then some (.add .blocklist)
  else if w = "blocklist-remove" ∨ w = "Br" then some (.remove .blocklist)
  else if w = "blocklist" ∨ w = "B" then some (.print .blocklist)
  else if w = "downgrade-threshold" ∨ w = "dt" then some (.setting .downgradeThreshold)
  else if w = "downgrade-start-check" ∨ w = "t" then some (.setting .downgradeStartCheck)
  else if w = "limit-speed" ∨ w = "ls" then some (.setting .limitSpeed)
  else if w = "total-bandwidth" ∨ w = "tb" then some (.setting .totalBandwidth)
  else if w = "single-bandwidth" ∨ w = "sb" then some (.setting .singleBandwidth)
  else if w = "usage" ∨ w = "u" then some .usage
  else none

/-- What `f64` makes of texts and numbers, and the order of a `HashSet`. -/
structure CmdOps where
  /-- `v * 100.` of a positive number, as `usize`. -/
  hundredths : String → Option Nat
  /-- `v * 1024. * 1024.` of a positive number, as `usize`. -/
  megabits : String → Option Nat
  /-- `n as f64 / 100.`. -/
  ofHundredths : Nat → String
  /-- `n as f64 / 1024. / 1024.`. -/
  ofMegabits : Nat → String
  /-- `{:.2}` of `n as f64 / 1024. / 1024. / 8.`. -/
  ofBits : Nat → String
  /-- What an iteration over the set yields: each entry once, in some order. -/
  order : Finset String → List String
  order_nodup : ∀ entries, (order entries).Nodup
  mem_order : ∀ entries ip, ip ∈ order entries ↔ ip ∈ entries

/-- What a command reads. -/
structure CmdState where
  lists : Lists
  settings : Setting → Nat
  /-- `USAGE`, in the order of its iteration. -/
  usage : List (String × Usage)

/-- What a command does, in order. -/
inductive CmdAct where
  | list (which : Listing) (cmd : ListCmd)
  | store (which : Setting) (value : Nat)
  /-- `limiter.set_speed_limit`. -/
  | setSpeedLimit (value : Nat)
deriving DecidableEq, Repr

def Lists.get (lists : Lists) : Listing → Finset String
  | .blacklist => lists.blacklist
  | .blocklist => lists.blocklist

/-- `str::split('|')`. -/
def splitBar (s : String) : List String := (s.toList.splitOn '|').map String.ofList

/-! ## The arms -/

/-- `blacklist-add` and `blocklist-add`. -/
def addArm (list : Listing) : List String → List CmdAct × String
  | ips :: _ => ((splitBar ips).map fun ip => .list list (.add ip), "")
  | [] => ([], "")

/-- `blacklist-remove` and `blocklist-remove`. -/
def removeArm (list : Listing) : List String → List CmdAct × String
  | ips :: _ =>
    if ips = "all" then ([.list list .clear], "")
    else ((splitBar ips).map fun ip => .list list (.remove ip), "")
  | [] => ([], "")

/-- `blacklist` and `blocklist`. -/
def printArm (order : Finset String → List String) (list : Finset String) : List String → String
  | ip :: _ => toString (decide (ip ∈ list)) ++ "\n"
  | [] => unlines (order list)

/-- What the argument of a setting's command stands for; what is not positive is ignored. -/
def Setting.parse (F : CmdOps) (v : String) : Setting → Option Nat
  | .downgradeThreshold => F.hundredths v
  | .downgradeStartCheck =>
    (parseUsize v).bind fun n => if 0 < n then some (n * 1000 % 2 ^ 64) else none
  | .limitSpeed | .totalBandwidth | .singleBandwidth => F.megabits v

def Setting.text (F : CmdOps) (value : Nat) : Setting → String
  | .downgradeThreshold => F.ofHundredths value ++ "\n"
  | .downgradeStartCheck => toString (value / 1000) ++ "s\n"
  | .limitSpeed | .totalBandwidth | .singleBandwidth => F.ofMegabits value ++ "Mb/s\n"

/-- The commands for the settings. Only `total-bandwidth` has an effect on what runs already. -/
def settingArm (F : CmdOps) (value : Nat) (which : Setting) : List String → List CmdAct × String
  | v :: _ =>
    match which.parse F v with
    | none => ([], "")
    | some n =>
      -- the limiter of all relays is there already; the others are made from the setting
      (.store which n :: if which = .totalBandwidth then [.setSpeedLimit n] else [], "")
  | [] => ([], which.text F value)

/-- A line of `usage`; the average is a division by the time. -/
def usageLine (F : CmdOps) (ip : String) : Usage → Option String
  | (elapsed, total, highest, speed) =>
    if elapsed = 0 then none
    else some (ip ++ ": " ++ toString (elapsed / 1000) ++ "s " ++ F.ofBits total ++ "MB "
      ++ toString highest ++ "kb/s " ++ toString (total / elapsed) ++ "kb/s "
      ++ toString speed ++ "kb/s")

/-- `usage`: the largest volume first. -/
def usageArm (F : CmdOps) (usage : List (String × Usage)) : String :=
  unlines ((usage.mergeSort fun a b => b.2.2.1 ≤ a.2.2.1).filterMap fun e => usageLine F e.1 e.2)

def helpText : String :=
  unlines ["blacklist-add(ba) <ip>", "blacklist-remove(br) <ip>", "blacklist(b) <ip>",
    "blocklist-add(Ba) <ip>", "blocklist-remove(Br) <ip>", "blocklist(B) <ip>",
    "downgrade-threshold(dt) [value]", "downgrade-start-check(t) [value(second)]",
    "limit-speed(ls) [value(Mb/s)]", "total-bandwidth(tb) [value(Mb/s)]",
    "single-bandwidth(sb) [value(Mb/s)]", "usage(u)"]

/-- `check_cmd`: what it does, and the answer. -/
def checkCmd (F : CmdOps) (s : CmdState) (cmd : String) : List CmdAct × String :=
  let args := cmdArgs cmd
  match (cmdFields cmd).head?.bind CmdWord.ofText with
  | some .h => ([], helpText)
  | some (.add list) => addArm list args
  | some (.remove list) => removeArm list args
  | some (.print list) => ([], printArm F.order (s.lists.get list) args)
  | some (.setting which) => settingArm F (s.settings which) which args
  | some .usage => ([], usageArm F s.usage)
  | none => ([], "")

/-- The loopback branch of `handle_connection`. -/
def handleLoopback (F : CmdOps) (s : CmdState) (c : LoopbackConn) :
    Option (String × List CmdAct × String) := c.execute (checkCmd F s)

/-! ## What becomes of the lists -/

/-- The access to a list, as an event of `hbbr`. -/
def CmdAct.event : CmdAct → Option WorldEvent
  | .list .blacklist cmd => some (.blacklist cmd)
  | .list .blocklist cmd => some (.blocklist cmd)
  | _ => none

def Lists.apply (lists : Lists) : CmdAct → Lists
  | .list .blacklist cmd => { lists with blacklist := cmd.exec lists.blacklist }
  | .list .blocklist cmd => { lists with blocklist := cmd.exec lists.blocklist }
  | _ => lists

open Runs in
/-- A command is a run of `hbbr`, if nothing comes in between. -/
theorem acts_run {X : AddrOps} {key : String} (w : World) (acts : List CmdAct) :
    ∃ h, Run (hbbr X key) w h { w with lists := acts.foldl Lists.apply w.lists }
      ∧ h.map Occ.ev = acts.filterMap CmdAct.event := by
  induction acts generalizing w with
  | nil => exact ⟨[], Run.nil, rfl⟩
  | cons act acts ih =>
      obtain ⟨h, hr, hev⟩ := ih { w with lists := w.lists.apply act }
      have hlist : ∀ e, act.event = some e →
          hbbr X key w e = some ({ w with lists := w.lists.apply act }, .silent) := by
        intro e he
        cases act with
        | list which cmd => cases which <;> cases he <;> rfl
        | store | setSpeedLimit => cases he
      cases he : act.event with
      | none =>
          -- a setting: the lists stay, and `hbbr` has no event for it
          have hsame : w.lists.apply act = w.lists := by
            cases act with
            | list which cmd => cases which <;> cases he
            | store | setSpeedLimit => rfl
          rw [List.filterMap_cons_none he, List.foldl_cons, hsame]
          rw [hsame] at hr
          exact ⟨h, hr, hev⟩
      | some e =>
          rw [List.filterMap_cons_some he, List.foldl_cons, ← hev]
          exact ⟨_, (Run.nil.snoc (hlist e he)).trans hr, rfl⟩

end KinBridge.Hbbr
