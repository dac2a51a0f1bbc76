import Mathlib.Algebra.Ring.Nat
import Mathlib.Logic.Function.Basic
import KinBridge.Hbbr.Command

/-!
# The settings

The atomics that the relays read: `check_params` sets them from the environment whenever
`io_loop` begins, and commands set them after that.
-/

namespace KinBridge.Hbbr

open KinBridge

abbrev Settings := Setting → Nat

/-- What the statics begin with. -/
def Settings.initial : Settings
  | .downgradeThreshold => 66
  | .downgradeStartCheck => 1800000
  | .limitSpeed => 32 * 1024 * 1024
  | .totalBandwidth => 1024 * 1024 * 1024
  | .singleBandwidth => 128 * 1024 * 1024

/-- The environment variable of a setting. -/
def Setting.variable : Setting → String
  | .downgradeThreshold => "DOWNGRADE_THRESHOLD"
  | .downgradeStartCheck => "DOWNGRADE_START_CHECK"
  | .limitSpeed => "LIMIT_SPEED"
  | .totalBandwidth => "TOTAL_BANDWIDTH"
  | .singleBandwidth => "SINGLE_BANDWIDTH"

/-- `check_params`: a variable is read as the argument of the command is. -/
def checkParams (F : CmdOps) (env : String → Option String) (settings : Settings) : Settings :=
  fun which => ((env which.variable).bind fun v => which.parse F v).getD (settings which)

def Settings.apply (settings : Settings) : CmdAct → Settings
  | .store which value => Function.update settings which value
  | _ => settings

inductive ParamsEvent where
  /-- `io_loop` begins. -/
  | ioLoop (env : String → Option String)
  /-- A command, and what it finds apart from the settings. -/
  | command (lists : Lists) (usage : List (String × Usage)) (cmd : String)

/-- The settings after, and the answer. -/
def params (F : CmdOps) (settings : Settings) : ParamsEvent → Option (Settings × String)
  | .ioLoop env => some (checkParams F env settings, "")
  | .command lists usage cmd =>
    let (acts, res) := checkCmd F ⟨lists, settings, usage⟩ cmd
    some (acts.foldl Settings.apply settings, res)

/-! ## `DOWNGRADE_START_CHECK` -/

/-- The word of a command. -/
def wordOf (cmd : String) : Option CmdWord := (cmdFields cmd).head?.bind CmdWord.ofText

/-- A positive `usize`. -/
def positive (v : String) : Option Nat := (parseUsize v).filter (0 < ·)

/-- The seconds that an event sets, if it sets any. -/
def ParamsEvent.seconds : ParamsEvent → Option Nat
  | .ioLoop env => (env "DOWNGRADE_START_CHECK").bind positive
  | .command _ _ cmd =>
    if wordOf cmd = some (.setting .downgradeStartCheck) then (cmdArgs cmd).head?.bind positive
    else none

/-- The question for the seconds. -/
def AsksSeconds (cmd : String) : Prop :=
  wordOf cmd = some (.setting .downgradeStartCheck) ∧ cmdArgs cmd = []

variable {F : CmdOps} {settings settings' : Settings} {e : ParamsEvent} {res : String}

theorem parse_startCheck (v : String) : Setting.downgradeStartCheck.parse F v
    = (positive v).map fun n => n * 1000 % 2 ^ 64 := by
  unfold positive
  dsimp only [Setting.parse]
  cases parseUsize v with
  | none => rfl
  | some n =>
      by_cases hpos : 0 < n
      · simp [hpos]
      · simp [Option.filter, hpos]

/-- A setting's command stores in no other setting. -/
theorem settingArm_apply {which which' : Setting} (value : Nat) (args : List String)
    (hne : which' ≠ which) :
    ((settingArm F value which args).1.foldl Settings.apply settings) which' = settings which' := by
  unfold settingArm
  split
  · split
    · rfl
    · rename_i n _
      split
      · exact Function.update_of_ne hne n settings
      · exact Function.update_of_ne hne n settings
  · rfl

/-- The commands for the lists store nothing. -/
theorem foldl_apply_list (acts : List CmdAct) (h : ∀ a ∈ acts, ∃ which cmd, a = .list which cmd) :
    acts.foldl Settings.apply settings = settings := by
  induction acts with
  | nil => rfl
  | cons a acts ih =>
      obtain ⟨which, cmd, rfl⟩ := h a List.mem_cons_self
      exact ih fun a ha => h a (List.mem_cons_of_mem _ ha)

theorem addArm_apply (list : Listing) (args : List String) :
    (addArm list args).1.foldl Settings.apply settings = settings := by
  refine foldl_apply_list _ fun a ha => ?_
  cases args with
  | nil => cases ha
  | cons ips args =>
      obtain ⟨ip, _, rfl⟩ := List.mem_map.mp ha
      exact ⟨_, _, rfl⟩

theorem removeArm_apply (list : Listing) (args : List String) :
    (removeArm list args).1.foldl Settings.apply settings = settings := by
  refine foldl_apply_list _ fun a ha => ?_
  cases args with
  | nil => cases ha
  | cons ips args =>
      simp only [removeArm] at ha
      split at ha
      · obtain rfl := List.mem_singleton.mp ha
        exact ⟨_, _, rfl⟩
      · obtain ⟨ip, _, rfl⟩ := List.mem_map.mp ha
        exact ⟨_, _, rfl⟩

/-- The start check's command. -/
theorem settingArm_startCheck (value : Nat) (args : List String) :
    ((settingArm F value .downgradeStartCheck args).1.foldl Settings.apply settings)
      .downgradeStartCheck
      = ((args.head?.bind positive).map fun n => n * 1000 % 2 ^ 64).getD
        (settings .downgradeStartCheck) := by
  cases args with
  | nil => rfl
  | cons v args =>
      unfold settingArm
      dsimp only
      rw [parse_startCheck, List.head?_cons, Option.bind_some]
      cases positive v with
      | none => rfl
      | some n =>
          rw [Option.map_some]
          dsimp only
          rw [if_neg (by decide)]
          exact Function.update_self Setting.downgradeStartCheck (n * 1000 % 2 ^ 64) settings

/-- **What an event does to the start check**: it sets it to so many milliseconds, or leaves it. -/
theorem params_startCheck (h : params F settings e = some (settings', res)) :
    settings' .downgradeStartCheck
      = (e.seconds.map fun n => n * 1000 % 2 ^ 64).getD (settings .downgradeStartCheck) := by
  cases e with
  | ioLoop env =>
      obtain ⟨rfl, _⟩ := Prod.mk.inj (Option.some.inj h)
      unfold checkParams ParamsEvent.seconds
      dsimp only [Setting.variable]
      cases env "DOWNGRADE_START_CHECK" with
      | none => rfl
      | some v => rw [Option.bind_some, Option.bind_some, parse_startCheck]
  | command lists usage cmd =>
      obtain ⟨rfl, _⟩ := Prod.mk.inj (Option.some.inj h)
      unfold ParamsEvent.seconds
      dsimp only
      rw [← wordOf]
      generalize cmdArgs cmd = args
      cases hword : wordOf cmd with
      | none => rfl
      | some w =>
          cases w with
          | h | print list | usage => rfl
          | add list => exact congrFun (addArm_apply list args) _
          | remove list => exact congrFun (removeArm_apply list args) _
          | setting which =>
              dsimp only
              by_cases hwhich : which = .downgradeStartCheck
              · subst hwhich
                rw [if_pos rfl]
                exact settingArm_startCheck _ _
              · rw [if_neg (by simpa using hwhich), settingArm_apply _ _ (Ne.symm hwhich)]
                rfl

/-- The answer to the question. -/
theorem params_asked {lists : Lists} {usage : List (String × Usage)} {cmd : String}
    (hask : AsksSeconds cmd)
    (h : params F settings (.command lists usage cmd) = some (settings', res)) :
    res = toString (settings .downgradeStartCheck / 1000) ++ "s\n" := by
  obtain ⟨hword, hargs⟩ := hask
  obtain ⟨_, rfl⟩ := Prod.mk.inj (Option.some.inj h)
  rw [← wordOf, hword, hargs]
  rfl

end KinBridge.Hbbr
