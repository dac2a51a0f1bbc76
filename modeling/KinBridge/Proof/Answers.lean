import KinBridge.Proof.Listed

/-!
# What the administrators are told

A question is one access, whenever its task comes to it, and the answer is written later. It
is the answer to what was so at that access.
-/

namespace KinBridge.Hbbr

open KinBridge Runs Slots

variable {X : AddrOps} {key : String} {F : CmdOps} {s s' : RelayService} {e : ServiceEvent}
  {out : ServiceOut} {o : ServiceOcc} {h : List ServiceOcc} {which : Setting} {cmd : String}
  {conn : ConnId} {blacklistFile blocklistFile : Option Bytes}

/-! ## The settings -/

/-- The value that a command, as it is written, gives a setting. -/
def cmdSets (F : CmdOps) (which : Setting) (cmd : String) : Option Nat :=
  if wordOf cmd = some (.setting which) then (cmdArgs cmd).head?.bind fun v => which.parse F v
  else none

/-- The value that a task is about to store in a setting. -/
def CmdTask.sets (F : CmdOps) (which : Setting) : CmdTask → Option Nat
  | .running _ cmd (.store _ _ :: _) _ => cmdSets F which cmd
  | _ => none

/-- The value that a step gives a setting: from the environment, as `io_loop` begins, or from a
command. -/
def sets (F : CmdOps) (which : Setting) (o : ServiceOcc) : Option Nat :=
  match o.ev with
  | .ioLoop env => (env which.variable).bind fun v => which.parse F v
  | .access conn => (o.pre.commands conn).bind (CmdTask.sets F which)
  | _ => none

theorem cmdSets_ne {which' : Setting} {v : Nat} (hset : cmdSets F which' cmd = some v)
    (hne : which' ≠ which) : cmdSets F which cmd = none := by
  unfold cmdSets at hset ⊢
  split at hset
  · rename_i hword
    rw [hword, if_neg]
    intro heq
    exact hne (CmdWord.setting.inj (Option.some.inj heq))
  · cases hset

/-- A command stores what its text gives the setting. -/
theorem cmdSets_of_store {st : CmdState} {v : Nat}
    (ha : CmdAct.store which v ∈ (checkCmd F st cmd).1) : cmdSets F which cmd = some v := by
  unfold checkCmd at ha
  rw [← wordOf] at ha
  unfold cmdSets
  dsimp only at ha
  generalize cmdArgs cmd = args at ha ⊢
  cases hword : wordOf cmd with
  | none => rw [hword] at ha; cases ha
  | some w =>
      rw [hword] at ha
      cases w with
      | h | print | usage => cases ha
      | add list =>
          cases args with
          | nil => cases ha
          | cons ips args =>
              obtain ⟨_, _, heq⟩ := List.mem_map.mp ha
              cases heq
      | remove list =>
          cases args with
          | nil => cases ha
          | cons ips args =>
              dsimp only [removeArm] at ha
              split at ha
              · cases List.mem_singleton.mp ha
              · obtain ⟨_, _, heq⟩ := List.mem_map.mp ha
                cases heq
      | setting which' =>
          cases args with
          | nil => cases ha
          | cons v' args =>
              dsimp only [settingArm] at ha
              split at ha
              · cases ha
              · rename_i n hparse
                rcases List.mem_cons.mp ha with heq | ha
                · obtain ⟨rfl, rfl⟩ := CmdAct.store.inj heq
                  rw [if_pos rfl]
                  exact hparse
                · split at ha
                  · cases List.mem_singleton.mp ha
                  · cases ha

/-- What commands have still to store is what their texts give. -/
def Stores (F : CmdOps) (s : RelayService) : Prop :=
  s.Left fun cmd act => ∀ which v, act = .store which v → cmdSets F which cmd = some v

theorem stores_run (hr : Run (service X key F) (.start blacklistFile blocklistFile) h s) :
    Stores F s := by
  refine hr.keeps (fun s e s' out hi hst => ?_) left_start
  refine left_step ?_ (fun _ _ _ _ heq => by cases heq) hi hst
  rintro st cmd act ha which v rfl
  exact cmdSets_of_store ha

/-- A step sets a setting to what it gives it, or leaves it alone. -/
theorem settings_step (hi : Stores F o.pre)
    (hst : service X key F o.pre o.ev = some (o.post, o.out)) :
    o.post.settings which = (sets F which o).getD (o.pre.settings which) := by
  obtain ⟨pre, ev, out, post⟩ := o
  dsimp only at hst hi ⊢
  cases service_step hst with
  | ioLoop | world | command | unread | load | answer => rfl
  | @access conn limiter cmd res act acts hconn =>
      dsimp only [sets]
      rw [hconn, Option.bind_some]
      cases act with
      | list | setSpeedLimit => rfl
      | store which' v =>
          have hset := hi conn limiter cmd _ res hconn _ List.mem_cons_self which' v rfl
          show Function.update pre.settings which' v which
            = (cmdSets F which cmd).getD (pre.settings which)
          by_cases hwhich : which' = which
          · subst hwhich
            rw [hset, Function.update_self]
            rfl
          · rw [cmdSets_ne hset hwhich, Function.update_of_ne (Ne.symm hwhich)]
            rfl

/-- **A setting is what it was last given**, by a command or by the environment. -/
theorem settings_last (hr : Run (service X key F) (.start blacklistFile blocklistFile) h s) :
    s.settings which = (lastWrite (sets F which) h).getD (Settings.initial which) := by
  have hlast := @Run.lastWrite_of _ _ _ _ (sets F which) h _ _ _ _ (fun s => s.settings which)
    (fun _ _ hrun => stores_run hrun) (fun _ hi hst => settings_step hi hst) hr
  exact hlast

/-! ## The answers -/

/-- The answer that a task will give, from when its command has been read. -/
def Answering (conn : ConnId) (res : String) (s : RelayService) : Prop :=
  (∃ limiter cmd acts, s.commands conn = some (.running limiter cmd acts res))
    ∨ s.commands conn = some .done

theorem answering_step {res : String} (hi : Answering conn res s)
    (hst : service X key F s e = some (s', out)) : Answering conn res s' := by
  rcases hi with ⟨limiter, cmd, acts, hconn⟩ | hdone
  · obtain ⟨task, htask, hmove⟩ := task_step hconn hst
    cases hmove with
    | stays | access | load => exact .inl ⟨_, _, _, htask⟩
    | answer => exact .inr htask
  · obtain ⟨task, htask, hmove⟩ := task_step hdone hst
    cases hmove with
    | stays => exact .inr htask

/-- A question will be answered by what `check_cmd` says to the state that its access finds. -/
theorem command_answering {c : LoopbackConn} {usage : List (String × Usage)}
    (hst : service X key F s (.command conn c usage) = some (s', out))
    (hcmd : c.command = some cmd) :
    Answering conn (checkCmd F ⟨s.world.lists, s.settings, usage⟩ cmd).2 s' := by
  cases service_step hst with
  | command _ hread =>
      obtain rfl := Option.some.inj (hcmd.symm.trans hread)
      exact .inl ⟨_, _, _, goto_self ..⟩
  | unread _ hread => cases hread.symm.trans hcmd

/-- The answer to a question that had its access here and was answered there. -/
theorem answer_eq {h₁ h₂ h₃ : List ServiceOcc} {x y : ServiceOcc}
    (hr : Run (service X key F) (.start blacklistFile blocklistFile)
      (h₁ ++ x :: (h₂ ++ y :: h₃)) s)
    {c : LoopbackConn} {usage : List (String × Usage)} (hread : x.ev = .command conn c usage)
    (hanswer : y.ev = .answer conn) (hcmd : c.command = some cmd) :
    y.out = .answer (checkCmd F ⟨x.pre.world.lists, x.pre.settings, usage⟩ cmd).2 := by
  obtain ⟨_, hst, hrest⟩ := hr.at
  rw [hread] at hst
  obtain ⟨hbefore, hans, _⟩ := hrest.at
  rw [hanswer] at hans
  obtain ⟨limiter, cmd', res, hdone, hout⟩ := answer_step hans
  rcases hbefore.keeps (fun _ _ _ _ hi hst => answering_step hi hst) (command_answering hst hcmd)
    with ⟨_, _, _, hconn⟩ | hover
  · cases hdone.symm.trans hconn
    exact hout
  · cases hdone.symm.trans hover

/--
**What the administrators are told is so**: the question for an entry is answered with whether
it was listed, the question for a list with its entries, each on one line, and the question for a
setting with what it was last given; all of them as of the access of the question, whatever was
done until then by commands that were not yet through.
-/
theorem answered_truly {h₁ h₂ h₃ : List ServiceOcc} {x y : ServiceOcc}
    (hr : Run (service X key F) (.start blacklistFile blocklistFile)
      (h₁ ++ x :: (h₂ ++ y :: h₃)) s)
    {c : LoopbackConn} {usage : List (String × Usage)} (hread : x.ev = .command conn c usage)
    (hanswer : y.ev = .answer conn) (hcmd : c.command = some cmd) :
    (∀ list ip args, wordOf cmd = some (.print list) → cmdArgs cmd = ip :: args →
        ∃ listed : Bool, y.out = .answer (toString listed ++ "\n")
          ∧ (listed = true ↔ Listed list (list.file blacklistFile blocklistFile) ip h₁))
      ∧ (∀ list, wordOf cmd = some (.print list) → cmdArgs cmd = [] →
        ∃ entries, y.out = .answer (unlines (F.order entries)) ∧ (F.order entries).Nodup
          ∧ ∀ ip, ip ∈ F.order entries
            ↔ Listed list (list.file blacklistFile blocklistFile) ip h₁)
      ∧ ∀ which, wordOf cmd = some (.setting which) → cmdArgs cmd = [] →
        y.out = .answer
          (which.text F ((lastWrite (sets F which) h₁).getD (Settings.initial which))) := by
  have hout := answer_eq hr hread hanswer hcmd
  obtain ⟨hpre, _, _⟩ := hr.at
  unfold checkCmd at hout
  rw [← wordOf] at hout
  dsimp only at hout
  refine ⟨?_, ?_, ?_⟩
  · intro list ip args hword hargs
    rw [hword, hargs] at hout
    exact ⟨_, hout, decide_eq_true_iff.trans (mem_lists_iff hpre)⟩
  · intro list hword hargs
    rw [hword, hargs] at hout
    exact ⟨_, hout, F.order_nodup _, fun ip => (F.mem_order _ ip).trans (mem_lists_iff hpre)⟩
  · intro which hword hargs
    rw [hword, hargs] at hout
    rw [← settings_last hpre]
    exact hout

/-! ### One question -/

def askCommand : LoopbackConn := onePiece "B 1.2.3.4" (by decide +kernel)

theorem askCommand_text : askCommand.command = some "B 1.2.3.4" :=
  onePiece_command (by decide +kernel)

theorem checkCmd_ask (st : CmdState) : checkCmd F st "B 1.2.3.4"
    = ([], toString (decide ("1.2.3.4" ∈ st.lists.blocklist)) ++ "\n") := by
  have hword : wordOf "B 1.2.3.4" = some (.print .blocklist) := by decide +kernel
  have hargs : cmdArgs "B 1.2.3.4" = ["1.2.3.4"] := by decide +kernel
  unfold checkCmd
  rw [← wordOf, hword, hargs]
  rfl

theorem read_ask {limiter : Nat} (hconn : s.commands conn = some (.reading limiter))
    (hin : "1.2.3.4" ∈ s.world.lists.blocklist) : service X key F s (.command conn askCommand [])
      = some (s.goto conn (.running limiter "B 1.2.3.4" [] "true\n"), .silent) := by
  refine read_command hconn askCommand_text ?_
  rw [checkCmd_ask, decide_eq_true hin]
  rfl

/-- A connection from loopback is taken for a command. -/
theorem admit_command (hloop : s.limiters ≠ []) (hfree : s.commands conn = none)
    (hcommand : handleConnection X s.world.lists loopbackAddr false = .command) :
    service X key F s (.world (.accept 0 conn loopbackAddr none false))
      = some (s.goto conn (.reading (s.limiters.length - 1)), .world (.admission .command)) := by
  have htakes : s.takes (.accept 0 conn loopbackAddr none false) = true := by
    simp [RelayService.takes, hloop, hfree]
  simp only [service, htakes, if_true, WorldEvent.under, hbbr, hcommand, Option.map_some]
  rfl

theorem write_answer {limiter : Nat} {res : String}
    (hconn : s.commands conn = some (.running limiter cmd [] res)) :
    service X key F s (.answer conn) = some (s.goto conn .done, .answer res) := by
  simp only [service, hconn]

def clearCommand : LoopbackConn := onePiece "Br all" (by decide +kernel)

theorem clearCommand_text : clearCommand.command = some "Br all" :=
  onePiece_command (by decide +kernel)

theorem checkCmd_clear (st : CmdState) :
    checkCmd F st "Br all" = ([.list .blocklist .clear], "") := by
  have hword : wordOf "Br all" = some (.remove .blocklist) := by decide +kernel
  have hargs : cmdArgs "Br all" = ["all"] := by decide +kernel
  rw [checkCmd_remove hword hargs]
  rfl

theorem read_clear {limiter : Nat} (hconn : s.commands conn = some (.reading limiter)) :
    service X key F s (.command conn clearCommand [])
      = some (s.goto conn (.running limiter "Br all" [.list .blocklist .clear] ""), .silent) :=
  read_command hconn clearCommand_text (checkCmd_clear _)

theorem make_access {limiter : Nat} {act : CmdAct} {acts : List CmdAct} {res : String}
    (hconn : s.commands conn = some (.running limiter cmd (act :: acts) res)) :
    service X key F s (.access conn)
      = some ((s.access limiter act).goto conn (.running limiter cmd acts res), .silent) := by
  simp only [service, hconn]

/-- The administrator asks for the address that has been blocked. Before the answer is written,
another one clears the list. -/
theorem answered_listed : ∃ h₁ x h₂ y s, Run (service Ext.sample.toAddrOps "" Proof.sampleOps)
      (.start none none) (h₁ ++ x :: (h₂ ++ [y])) s ∧ s.world.lists.blocklist = ∅
    ∧ y.out = .answer "true\n" ∧ Listed .blocklist none "1.2.3.4" h₁ := by
  obtain ⟨_, _, _, _, s, hr, _, _, _, _, hloop, hfree, hlist⟩ := block_run
  have hin : "1.2.3.4" ∈ s.world.lists.blocklist := by
    rw [hlist]
    exact Finset.mem_singleton_self _
  have hadmit := hr.snoc (admit_command hloop (hfree 2 List.mem_cons_self) rfl)
  have hadmit' := hadmit.snoc (admit_command hloop ((goto_ne (by decide)).trans
    (hfree 7 (List.mem_cons_of_mem _ List.mem_cons_self))) rfl)
  have hread := hadmit'.snoc (read_ask ((goto_ne (by decide)).trans (goto_self ..)) hin)
  have hclear := hread.snoc (read_clear ((goto_ne (by decide)).trans (goto_self ..)))
  have haccess := hclear.snoc (make_access (goto_self ..))
  -- the answer is the one that was found before that
  have hanswer := haccess.snoc (write_answer ((goto_ne (by decide)).trans
    ((congrFun (access_commands ..) 2).trans ((goto_ne (by decide)).trans (goto_self ..)))))
  rw [List.append_assoc, List.append_assoc, List.append_assoc] at hanswer
  have hrun : Run _ _ (_ ++ _ :: ([_, _] ++ [_])) _ := hanswer
  obtain ⟨listed, hout, hiff⟩ := (answered_truly hrun rfl rfl askCommand_text).1 .blocklist
    "1.2.3.4" [] (by decide +kernel) (by decide +kernel)
  refine ⟨_, _, [_, _], _, _, hrun, rfl, rfl, hiff.mp ?_⟩
  cases listed with
  | true => rfl
  | false =>
      have hne : "true\n" = toString false ++ "\n" := ServiceOut.answer.inj hout
      exact absurd hne (by decide)

end KinBridge.Hbbr
