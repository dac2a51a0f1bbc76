import KinBridge.Hbbr.Params

/-!
# `hbbr` and its administrators

`start` reads the two lists from their files and then calls `io_loop` again and again: each
takes the settings from the environment, makes the limiter of all relays, and accepts until
an accept fails. Tasks, relays and commands outlive the `io_loop` that began them.

A command runs in a task of its own. It begins `check_cmd` with what its one `read` has
returned, and takes the lock of a list once for every entry, so its accesses are steps and
anything may happen between two of them, accesses of other commands as well. A question has
one access only. Nothing depends on when its text was read, so that is put into the same step.
-/

namespace KinBridge.Hbbr

open KinBridge Runs Slots

/-! ## The files -/

/-- `contents.split('\n')`. -/
def fileLines (contents : String) : List String := (contents.toList.splitOn '\n').map String.ofList

/-- `x.trim().split(' ').next()`. An empty line is the entry of an empty text. -/
def lineEntry (x : String) : Option String := (cmdFields x).head?

/-- What `start` makes of `blacklist.txt` or `blocklist.txt`: nothing, if there is no such file or
it is no text. -/
def readList (file : Option Bytes) : Finset String :=
  match file.bind Keys.ofUtf8 with
  | none => ∅
  | some contents =>
    (fileLines contents).foldl (fun list x => (lineEntry x).elim list fun ip => insert ip list) ∅

theorem mem_insert_lines {lines : List String} {list : Finset String} {ip : String} :
    ip ∈ lines.foldl (fun list x => (lineEntry x).elim list fun ip => insert ip list) list ↔
      ip ∈ list ∨ ∃ x ∈ lines, lineEntry x = some ip := by
  induction lines generalizing list with
  | nil => simp
  | cons x lines ih =>
      rw [List.foldl_cons, ih]
      cases hx : lineEntry x with
      | none => simp [hx]
      | some ip' =>
          rw [Option.elim_some, Finset.mem_insert]
          simp only [List.mem_cons, exists_eq_or_imp, hx, Option.some.injEq]
          tauto

/-- An entry of a list is the beginning of a line of its file. -/
theorem mem_readList {file : Option Bytes} {ip : String} : ip ∈ readList file ↔
    ∃ contents, file.bind Keys.ofUtf8 = some contents
      ∧ ∃ x ∈ fileLines contents, lineEntry x = some ip := by
  unfold readList
  cases file.bind Keys.ofUtf8 with
  | none => simp
  | some contents => simp [mem_insert_lines]

/-! ## The service -/

/-- The task of a connection from loopback; it has a handle on the limiter of the `io_loop` that
accepted it. -/
inductive CmdTask where
  | reading (limiter : Nat)
  /-- In `check_cmd`, with these accesses to come and then this answer. -/
  | running (limiter : Nat) (cmd : String) (acts : List CmdAct) (res : String)
  | done
deriving DecidableEq, Repr

/-- The task after its `read`, with what came of `check_cmd` if there was anything to execute. -/
def CmdTask.begin (limiter : Nat) : Option (String × List CmdAct × String) → CmdTask
  | some (cmd, acts, res) => .running limiter cmd acts res
  | none => .done

structure RelayService where
  world : World
  settings : Settings
  /-- The speeds of the limiters, one for every `io_loop` so far. -/
  limiters : List Nat
  commands : ConnId → Option CmdTask

/-- `start`, before its first `io_loop`. -/
def RelayService.start (blacklistFile blocklistFile : Option Bytes) : RelayService where
  world := .start ⟨readList blocklistFile, readList blacklistFile⟩
  settings := .initial
  limiters := []
  commands := fun _ => none

inductive ServiceEvent where
  /-- `io_loop` begins, in this environment. -/
  | ioLoop (env : String → Option String)
  /-- A connection, or a step of a task or of a relay. -/
  | world (e : WorldEvent)
  /-- The `read` of a command's connection is over, and so is the access of a question; `usage` is
  what an iteration over `USAGE` yields. -/
  | command (conn : ConnId) (c : LoopbackConn) (usage : List (String × Usage))
  /-- The next access of a command. -/
  | access (conn : ConnId)
  /-- `TOTAL_BANDWIDTH.load`, for the limiter. -/
  | load (conn : ConnId)
  /-- The answer is written. -/
  | answer (conn : ConnId)

inductive ServiceOut where
  | world (o : WorldOut)
  | answer (res : String)
  | silent

/-- The lists change through commands only, and only while `io_loop` runs is anything accepted. -/
def RelayService.takes (s : RelayService) : WorldEvent → Bool
  | .blocklist _ | .blacklist _ => false
  | .accept _ conn _ _ _ => s.limiters ≠ [] && (s.commands conn).isNone
  | _ => true

/-- A relay looks at `DOWNGRADE_START_CHECK` in every check. -/
def WorldEvent.under (settings : Settings) : WorldEvent → WorldEvent
  | .turn now conn t => .turn now conn { t with startCheck := settings .downgradeStartCheck }
  | e => e

/-- The tasks of commands after a step of the rest: a connection from loopback gets one. -/
def RelayService.arrive (s : RelayService) : WorldEvent → WorldOut → ConnId → Option CmdTask
  | .accept _ conn _ _ _, .admission .command =>
    put s.commands conn (.reading (s.limiters.length - 1))
  | _, _ => s.commands

/-- The command of `conn` goes on so. -/
def RelayService.goto (s : RelayService) (conn : ConnId) (task : CmdTask) : RelayService :=
  { s with commands := put s.commands conn task }

/-- An access of a command that has this limiter. -/
def RelayService.access (s : RelayService) (limiter : Nat) : CmdAct → RelayService
  | .setSpeedLimit value => { s with limiters := s.limiters.set limiter value }
  | act => { s with
      world := { s.world with lists := s.world.lists.apply act }
      settings := s.settings.apply act }

/-- One step of `hbbr`, of the one or the other of its tasks. -/
def service (X : AddrOps) (key : String) (F : CmdOps) (s : RelayService) :
    ServiceEvent → Option (RelayService × ServiceOut)
  | .ioLoop env =>
    let settings := checkParams F env s.settings
    some ({ s with settings, limiters := s.limiters ++ [settings .totalBandwidth] }, .silent)
  | .world e =>
    if s.takes e then
      (hbbr X key s.world (e.under s.settings)).map fun r =>
        ({ s with world := r.1, commands := s.arrive e r.2 }, .world r.2)
    else none
  | .command conn c usage =>
    match s.commands conn with
    | some (.reading limiter) =>
      -- what a question is about is read in one access, which is this step
      let out := handleLoopback F ⟨s.world.lists, s.settings, usage⟩ c
      some (s.goto conn (.begin limiter out), .silent)
    | _ => none
  | .access conn =>
    match s.commands conn with
    | some (.running limiter cmd (act :: acts) res) =>
      some ((s.access limiter act).goto conn (.running limiter cmd acts res), .silent)
    | _ => none
  | .load conn =>
    match s.commands conn with
    | some (.running limiter cmd (.setSpeedLimit _ :: acts) res) =>
      -- before this step the value is the one that the command itself has stored
      let act := .setSpeedLimit (s.settings .totalBandwidth)
      some (s.goto conn (.running limiter cmd (act :: acts) res), .silent)
    | _ => none
  | .answer conn =>
    match s.commands conn with
    | some (.running _ _ [] res) =>
      some (s.goto conn .done, .answer res)
    | _ => none

/-! ## What one step can do -/

variable {X : AddrOps} {key : String} {F : CmdOps} {s s' : RelayService} {e : ServiceEvent}
  {o : ServiceOut}

inductive ServiceStep (X : AddrOps) (key : String) (F : CmdOps) (s : RelayService) :
    ServiceEvent → RelayService → ServiceOut → Prop where
  | ioLoop {env : String → Option String} : ServiceStep X key F s (.ioLoop env)
      { s with
        settings := checkParams F env s.settings
        limiters := s.limiters ++ [checkParams F env s.settings .totalBandwidth] } .silent
  | world {e : WorldEvent} {w : World} {o : WorldOut} : s.takes e = true →
      hbbr X key s.world (e.under s.settings) = some (w, o) →
      ServiceStep X key F s (.world e) { s with world := w, commands := s.arrive e o } (.world o)
  | command {conn : ConnId} {c : LoopbackConn} {usage : List (String × Usage)} {limiter : Nat}
      {cmd : String} : s.commands conn = some (.reading limiter) → c.command = some cmd →
      ServiceStep X key F s (.command conn c usage)
        (s.goto conn (.running limiter cmd
          (checkCmd F ⟨s.world.lists, s.settings, usage⟩ cmd).1
          (checkCmd F ⟨s.world.lists, s.settings, usage⟩ cmd).2)) .silent
  | unread {conn : ConnId} {c : LoopbackConn} {usage : List (String × Usage)} {limiter : Nat} :
      s.commands conn = some (.reading limiter) → c.command = none →
      ServiceStep X key F s (.command conn c usage) (s.goto conn .done) .silent
  | access {conn : ConnId} {limiter : Nat} {cmd res : String} {act : CmdAct}
      {acts : List CmdAct} : s.commands conn = some (.running limiter cmd (act :: acts) res) →
      ServiceStep X key F s (.access conn)
        ((s.access limiter act).goto conn (.running limiter cmd acts res)) .silent
  | load {conn : ConnId} {limiter value : Nat} {cmd res : String} {acts : List CmdAct} :
      s.commands conn = some (.running limiter cmd (.setSpeedLimit value :: acts) res) →
      ServiceStep X key F s (.load conn)
        (s.goto conn
          (.running limiter cmd (.setSpeedLimit (s.settings .totalBandwidth) :: acts) res)) .silent
  | answer {conn : ConnId} {limiter : Nat} {cmd res : String} :
      s.commands conn = some (.running limiter cmd [] res) →
      ServiceStep X key F s (.answer conn) (s.goto conn .done) (.answer res)

theorem service_step (h : service X key F s e = some (s', o)) : ServiceStep X key F s e s' o := by
  cases e with
  | ioLoop env =>
      obtain ⟨rfl, rfl⟩ := Prod.mk.inj (Option.some.inj h)
      exact .ioLoop
  | world e =>
      simp only [service] at h
      split at h
      · rename_i htakes
        obtain ⟨⟨w, o'⟩, hs, heq⟩ := Option.map_eq_some_iff.mp h
        obtain ⟨rfl, rfl⟩ := Prod.mk.inj heq
        exact .world htakes hs
      · cases h
  | command conn c usage =>
      simp only [service] at h
      split at h
      · rename_i limiter hconn
        obtain ⟨rfl, rfl⟩ := Prod.mk.inj (Option.some.inj h)
        cases hcmd : c.command with
        | none =>
            rw [handleLoopback, LoopbackConn.execute, hcmd]
            exact .unread hconn hcmd
        | some cmd =>
            rw [handleLoopback, LoopbackConn.execute, hcmd]
            exact .command hconn hcmd
      · cases h
  | access conn =>
      simp only [service] at h
      split at h
      · rename_i hconn
        obtain ⟨rfl, rfl⟩ := Prod.mk.inj (Option.some.inj h)
        exact .access hconn
      · cases h
  | load conn =>
      simp only [service] at h
      split at h
      · rename_i hconn
        obtain ⟨rfl, rfl⟩ := Prod.mk.inj (Option.some.inj h)
        exact .load hconn
      · cases h
  | answer conn =>
      simp only [service] at h
      split at h
      · rename_i hconn
        obtain ⟨rfl, rfl⟩ := Prod.mk.inj (Option.some.inj h)
        exact .answer hconn
      · cases h

/-! ## One command -/

@[simp] theorem goto_self (conn : ConnId) (task : CmdTask) :
    (s.goto conn task).commands conn = some task := put_self ..

theorem goto_ne {conn conn' : ConnId} {task : CmdTask} (hne : conn ≠ conn') :
    (s.goto conn' task).commands conn = s.commands conn := put_ne hne

@[simp] theorem access_commands (limiter : Nat) (act : CmdAct) :
    (s.access limiter act).commands = s.commands := by cases act <;> rfl

/-- What an event does to the task of `conn`: its own steps take it on, all others leave it. -/
inductive TaskMove (e : ServiceEvent) (conn : ConnId) : CmdTask → CmdTask → Prop where
  | stays {task : CmdTask} : TaskMove e conn task task
  | command {c : LoopbackConn} {usage : List (String × Usage)} {limiter : Nat}
      {out : Option (String × List CmdAct × String)} : e = .command conn c usage →
      TaskMove e conn (.reading limiter) (.begin limiter out)
  | access {limiter : Nat} {cmd res : String} {act : CmdAct} {acts : List CmdAct} :
      e = .access conn →
      TaskMove e conn (.running limiter cmd (act :: acts) res) (.running limiter cmd acts res)
  | load {limiter value value' : Nat} {cmd res : String} {acts : List CmdAct} : e = .load conn →
      TaskMove e conn (.running limiter cmd (.setSpeedLimit value :: acts) res)
        (.running limiter cmd (.setSpeedLimit value' :: acts) res)
  | answer {limiter : Nat} {cmd res : String} : e = .answer conn →
      TaskMove e conn (.running limiter cmd [] res) .done

theorem task_step {conn : ConnId} {task : CmdTask} (hconn : s.commands conn = some task)
    (hst : service X key F s e = some (s', o)) :
    ∃ task', s'.commands conn = some task' ∧ TaskMove e conn task task' := by
  have hsame : s'.commands conn = s.commands conn →
      ∃ task', s'.commands conn = some task' ∧ TaskMove e conn task task' :=
    fun heq => ⟨task, heq.trans hconn, .stays⟩
  cases service_step hst with
  | ioLoop => exact hsame rfl
  | @world e w o htakes _ =>
      refine hsame ?_
      dsimp only [RelayService.arrive]
      split
      · rename_i conn' _ _ _ _
        have hfree : s.commands conn' = none := by
          simpa [RelayService.takes] using (Bool.and_eq_true_iff.mp htakes).2
        refine put_ne ?_
        rintro rfl
        rw [hfree] at hconn
        cases hconn
      · rfl
  | @command conn' c usage limiter cmd hreading _ =>
      by_cases hc : conn' = conn
      · subst hc
        obtain rfl := Option.some.inj (hreading.symm.trans hconn)
        have hmove := @TaskMove.command (.command conn' c usage) conn' c usage limiter
          (some (cmd, checkCmd F ⟨s.world.lists, s.settings, usage⟩ cmd)) rfl
        exact ⟨_, goto_self .., hmove⟩
      · exact hsame (goto_ne (Ne.symm hc))
  | @unread conn' c usage limiter hreading _ =>
      by_cases hc : conn' = conn
      · subst hc
        obtain rfl := Option.some.inj (hreading.symm.trans hconn)
        exact ⟨_, goto_self .., @TaskMove.command _ _ c usage limiter none rfl⟩
      · exact hsame (goto_ne (Ne.symm hc))
  | @access conn' limiter cmd res act acts hrun =>
      by_cases hc : conn' = conn
      · subst hc
        obtain rfl := Option.some.inj (hrun.symm.trans hconn)
        exact ⟨_, goto_self .., .access rfl⟩
      · exact hsame ((goto_ne (Ne.symm hc)).trans (congrFun (access_commands limiter act) conn))
  | @load conn' limiter value cmd res acts hrun =>
      by_cases hc : conn' = conn
      · subst hc
        obtain rfl := Option.some.inj (hrun.symm.trans hconn)
        exact ⟨_, goto_self .., .load rfl⟩
      · exact hsame (goto_ne (Ne.symm hc))
  | @answer conn' limiter cmd res hrun =>
      by_cases hc : conn' = conn
      · subst hc
        obtain rfl := Option.some.inj (hrun.symm.trans hconn)
        exact ⟨_, goto_self .., .answer rfl⟩
      · exact hsame (goto_ne (Ne.symm hc))

/-- What is answered has made all its accesses. -/
theorem answer_step {conn : ConnId}
    (hst : service X key F s (.answer conn) = some (s', o)) :
    ∃ limiter cmd res, s.commands conn = some (.running limiter cmd [] res)
      ∧ o = .answer res := by
  cases service_step hst with
  | answer hdone => exact ⟨_, _, _, hdone, rfl⟩

/-! ## What commands have left to do -/

/-- Every access that is to come is like this, by the text of its command. -/
def RelayService.Left (P : String → CmdAct → Prop) (s : RelayService) : Prop :=
  ∀ conn limiter cmd acts res, s.commands conn = some (.running limiter cmd acts res) →
    ∀ act ∈ acts, P cmd act

variable {P : String → CmdAct → Prop}

theorem left_goto {conn : ConnId} {task : CmdTask} (hi : s.Left P)
    (hnew : ∀ limiter cmd acts res, task = .running limiter cmd acts res →
      ∀ act ∈ acts, P cmd act) :
    (s.goto conn task).Left P := by
  intro conn' limiter cmd acts res hconn
  rcases put_eq_some.mp hconn with ⟨_, htask⟩ | ⟨_, hconn⟩
  · exact hnew limiter cmd acts res htask
  · exact hi conn' limiter cmd acts res hconn

/-- What holds of all accesses of every command holds of those that are left. -/
theorem left_step (hcheck : ∀ st cmd, ∀ act ∈ (checkCmd F st cmd).1, P cmd act)
    (hlimit : ∀ cmd value, P cmd (.setSpeedLimit value)) (hi : s.Left P)
    (hst : service X key F s e = some (s', o)) : s'.Left P := by
  cases service_step hst with
  | ioLoop => exact hi
  | @world e w o _ _ =>
      intro conn limiter cmd acts res hconn
      refine hi conn limiter cmd acts res ?_
      revert hconn
      dsimp only [RelayService.arrive]
      split
      · intro hconn
        rcases put_eq_some.mp hconn with ⟨_, htask⟩ | ⟨_, hconn⟩
        · cases htask
        · exact hconn
      · exact id
  | command _ _ =>
      refine left_goto hi ?_
      rintro limiter cmd acts res hrun
      cases hrun
      exact hcheck _ _
  | unread | answer => exact left_goto hi (by rintro _ _ _ _ ⟨⟩)
  | @access conn limiter cmd res act acts hconn =>
      refine left_goto (s := s.access limiter act) ?_ ?_
      · cases act <;> exact hi
      · rintro _ _ _ _ ⟨⟩ a ha
        exact hi conn limiter cmd _ res hconn a (List.mem_cons_of_mem _ ha)
  | @load conn limiter value cmd res acts hconn =>
      refine left_goto hi ?_
      rintro _ _ _ _ ⟨⟩ a ha
      rcases List.mem_cons.mp ha with rfl | ha
      · exact hlimit cmd _
      · exact hi conn limiter cmd _ res hconn a (List.mem_cons_of_mem _ ha)

theorem left_start {blacklistFile blocklistFile : Option Bytes} :
    (RelayService.start blacklistFile blocklistFile).Left P := by
  intro conn limiter cmd acts res hconn
  cases hconn

/-! ## `hbbr` inside -/

@[simp] theorem access_setSpeedLimit (limiter value : Nat) :
    s.access limiter (.setSpeedLimit value)
      = { s with limiters := s.limiters.set limiter value } := rfl

/-- An access changes the world as the event of its list does, or not at all. -/
theorem access_world (X : AddrOps) (key : String) (limiter : Nat) (act : CmdAct) :
    (s.access limiter act).world = s.world ∨ ∃ e, act.event = some e
      ∧ hbbr X key s.world e = some ((s.access limiter act).world, .silent) := by
  cases act with
  | list which cmd => cases which <;> exact .inr ⟨_, rfl, rfl⟩
  | store which value => exact .inl rfl
  | setSpeedLimit value => exact .inl rfl

/-- A step is at most one step of `hbbr`. -/
theorem service_hbbr (h : service X key F s e = some (s', o)) :
    s'.world = s.world ∨ ∃ e' o', hbbr X key s.world e' = some (s'.world, o') := by
  cases service_step h with
  | world _ hs => exact .inr ⟨_, _, hs⟩
  | @access conn limiter cmd res act acts =>
      rcases access_world X key limiter act with hsame | ⟨e', _, hs⟩
      · exact .inl hsame
      · exact .inr ⟨e', _, hs⟩
  | ioLoop | command | unread | load | answer => exact .inl rfl

/-- **The service is a run of `hbbr`**: with its administrators it does nothing to connections,
tasks, relays and lists that `hbbr` does not do by itself and at single accesses. -/
theorem service_run {blacklistFile blocklistFile : Option Bytes}
    {h : List (Occ RelayService ServiceEvent ServiceOut)}
    (hr : Run (service X key F) (.start blacklistFile blocklistFile) h s) :
    ∃ g, Run (hbbr X key) (.start ⟨readList blocklistFile, readList blacklistFile⟩) g s.world := by
  refine Run.inv (I := fun _ s => ∃ g, Run (hbbr X key) (.start _) g s.world) ⟨[], Run.nil⟩ ?_ hr
  intro h s e s' o hrun hst
  obtain ⟨g, hg⟩ := hrun
  rcases service_hbbr hst with heq | ⟨e', o', hs⟩
  · rw [heq]
    exact ⟨g, hg⟩
  · exact ⟨_, hg.snoc hs⟩

end KinBridge.Hbbr
