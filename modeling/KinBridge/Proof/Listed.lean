import KinBridge.Hbbr.Service
import KinBridge.Lib.LastWrite
import KinBridge.Proof.Truncation

/-!
# What the administrators have said

A command for a list is many accesses, and other commands' accesses come in between. For one
address that does not matter: what counts is the last access that concerns it, and that access
says what the text of its command says.
-/

namespace KinBridge.Hbbr

open KinBridge Runs Slots

abbrev ServiceOcc := Occ RelayService ServiceEvent ServiceOut

variable {X : AddrOps} {key : String} {F : CmdOps} {s s' : RelayService} {e : ServiceEvent}
  {out : ServiceOut} {o : ServiceOcc} {h : List ServiceOcc} {list : Listing} {ip cmd : String}
  {b : Bool} {conn : ConnId}

/-! ## What commands say -/

/-- Whether an access lists the text or removes it, if it concerns it. -/
def ListCmd.tells (ip : String) : ListCmd → Option Bool
  | .add ip' => if ip' = ip then some true else none
  | .remove ip' => if ip' = ip then some false else none
  | .clear => some false

def CmdAct.tells (list : Listing) (ip : String) : CmdAct → Option Bool
  | .list list' cmd => if list' = list then cmd.tells ip else none
  | .store _ _ | .setSpeedLimit _ => none

/-- The same, for a command as the administrator writes it. -/
def cmdTells (list : Listing) (ip cmd : String) : Option Bool :=
  match wordOf cmd, (cmdArgs cmd).head? with
  | some (.add list'), some ips => if list' = list ∧ ip ∈ splitBar ips then some true else none
  | some (.remove list'), some ips =>
    if list' = list ∧ (ips = "all" ∨ ip ∈ splitBar ips) then some false else none
  | _, _ => none

example : cmdTells .blocklist "10.0.0.2" "Ba 10.0.0.1|10.0.0.2\n" = some true
    ∧ cmdTells .blocklist "10.0.0.2" "blocklist-remove all" = some false
    ∧ cmdTells .blacklist "10.0.0.2" "blocklist 10.0.0.2" = none := by decide +kernel

/-- An access leaves a text listed if it lists it, or if it was listed and is not removed. -/
theorem mem_exec {entries : Finset String} {c : ListCmd} : ip ∈ c.exec entries ↔
    c.tells ip = some true ∨ (ip ∈ entries ∧ c.tells ip ≠ some false) := by
  cases c with
  | add ip' =>
      by_cases hip : ip' = ip
      · simp [ListCmd.exec, ListCmd.tells, hip]
      · simp [ListCmd.exec, ListCmd.tells, hip, Ne.symm hip]
  | remove ip' =>
      by_cases hip : ip' = ip
      · simp [ListCmd.exec, ListCmd.tells, hip]
      · simp [ListCmd.exec, ListCmd.tells, hip, Ne.symm hip]
  | clear => simp [ListCmd.exec, ListCmd.tells]

theorem mem_apply {lists : Lists} {act : CmdAct} : ip ∈ (lists.apply act).get list ↔
    act.tells list ip = some true ∨ (ip ∈ lists.get list ∧ act.tells list ip ≠ some false) := by
  cases act with
  | store | setSpeedLimit => simp [Lists.apply, CmdAct.tells]
  | list list' c =>
      by_cases hlist : list' = list
      · subst hlist
        simp only [CmdAct.tells, if_true]
        cases list' <;> exact mem_exec
      · have hother : (lists.apply (.list list' c)).get list = lists.get list := by
          cases list <;> cases list' <;> first | rfl | exact absurd rfl hlist
        simp [CmdAct.tells, hlist, hother]

/-- The entries of an argument, all added or all removed. -/
theorem tells_of_mem_map {list' : Listing} {entries : List String} {f : String → ListCmd}
    {act : CmdAct} {v : Bool} (hf : ∀ x, (f x).tells ip = if x = ip then some v else none)
    (ha : act ∈ entries.map fun x => CmdAct.list list' (f x))
    (hb : act.tells list ip = some b) : b = v ∧ list' = list ∧ ip ∈ entries := by
  obtain ⟨x, hx, rfl⟩ := List.mem_map.mp ha
  unfold CmdAct.tells at hb
  dsimp only at hb
  rw [hf] at hb
  by_cases hlist : list' = list
  · by_cases hip : x = ip
    · rw [if_pos hlist, if_pos hip] at hb
      exact ⟨(Option.some.inj hb).symm, hlist, hip ▸ hx⟩
    · rw [if_pos hlist, if_neg hip] at hb
      cases hb
  · rw [if_neg hlist] at hb
    cases hb

/-- The accesses of a command say nothing that its text does not say. -/
theorem cmdTells_of_tells {st : CmdState} {act : CmdAct} (ha : act ∈ (checkCmd F st cmd).1)
    (hb : act.tells list ip = some b) : cmdTells list ip cmd = some b := by
  unfold checkCmd at ha
  rw [← wordOf] at ha
  unfold cmdTells
  dsimp only at ha
  generalize cmdArgs cmd = args at ha ⊢
  cases hword : wordOf cmd with
  | none => rw [hword] at ha; cases ha
  | some w =>
      rw [hword] at ha
      cases w with
      | h | print | usage => cases ha
      | setting which =>
          -- its accesses are stores
          exfalso
          cases args with
          | nil => cases ha
          | cons v args =>
              dsimp only [settingArm] at ha
              split at ha
              · cases ha
              · rcases List.mem_cons.mp ha with rfl | ha
                · cases hb
                · split at ha
                  · rw [List.mem_singleton.mp ha] at hb
                    cases hb
                  · cases ha
      | add list' =>
          cases args with
          | nil => cases ha
          | cons ips args =>
              obtain ⟨rfl, hlist, hip⟩ := tells_of_mem_map (fun _ => rfl) ha hb
              exact if_pos ⟨hlist, hip⟩
      | remove list' =>
          cases args with
          | nil => cases ha
          | cons ips args =>
              dsimp only [removeArm] at ha
              by_cases hall : ips = "all"
              · rw [if_pos hall] at ha
                rw [List.mem_singleton.mp ha] at hb
                unfold CmdAct.tells at hb
                dsimp only at hb
                by_cases hlist : list' = list
                · rw [if_pos hlist] at hb
                  exact (if_pos ⟨hlist, .inl hall⟩).trans hb
                · rw [if_neg hlist] at hb
                  cases hb
              · rw [if_neg hall] at ha
                obtain ⟨rfl, hlist, hip⟩ := tells_of_mem_map (fun _ => rfl) ha hb
                exact if_pos ⟨hlist, .inr hip⟩

/-- And of what its text says there is an access. -/
theorem exists_tells {st : CmdState} (htells : cmdTells list ip cmd = some b) :
    ∃ act ∈ (checkCmd F st cmd).1, act.tells list ip = some b := by
  unfold cmdTells at htells
  unfold checkCmd
  rw [← wordOf]
  dsimp only
  generalize cmdArgs cmd = args at htells ⊢
  cases hword : wordOf cmd with
  | none => rw [hword] at htells; cases htells
  | some w =>
      rw [hword] at htells
      cases args with
      | nil => cases w <;> cases htells
      | cons ips args =>
          cases w with
          | h | print | usage | setting => cases htells
          | add list' =>
              dsimp only [List.head?_cons] at htells
              split at htells
              · rename_i hin
                obtain ⟨rfl, hip⟩ := hin
                refine ⟨_, List.mem_map.mpr ⟨ip, hip, rfl⟩, ?_⟩
                simpa [CmdAct.tells, ListCmd.tells] using htells
              · cases htells
          | remove list' =>
              dsimp only [List.head?_cons] at htells
              split at htells
              · rename_i hin
                obtain ⟨rfl, hip⟩ := hin
                dsimp only [removeArm]
                by_cases hall : ips = "all"
                · rw [if_pos hall]
                  refine ⟨_, List.mem_singleton_self _, ?_⟩
                  simpa [CmdAct.tells, ListCmd.tells] using htells
                · rw [if_neg hall]
                  refine ⟨_, List.mem_map.mpr ⟨ip, hip.resolve_left hall, rfl⟩, ?_⟩
                  simpa [CmdAct.tells, ListCmd.tells] using htells
              · cases htells

/-! ## The lists over a run -/

/-- This step is the access of a command to the entry: its text tells so, and nothing is done to
the entry before the access. -/
def Tells (list : Listing) (ip : String) (b : Bool) (o : ServiceOcc) : Prop :=
  ∃ conn limiter cmd act acts res, o.ev = .access conn
    ∧ o.pre.commands conn = some (.running limiter cmd (act :: acts) res)
    ∧ act.tells list ip = some b ∧ cmdTells list ip cmd = some b

/-- The text is listed by what was said: a command has added it and none has removed it since, or
it stood in the file and none has removed it. -/
def Listed (list : Listing) (file : Option Bytes) (ip : String) (h : List ServiceOcc) : Prop :=
  Since (Tells list ip true) (Tells list ip false) h
    ∨ (ip ∈ readList file ∧ ∀ o ∈ h, ¬ Tells list ip false o)

/-- What is left of a command are accesses that its text tells of. -/
def Sound (s : RelayService) : Prop :=
  s.Left fun cmd act => ∀ list ip b, act.tells list ip = some b → cmdTells list ip cmd = some b

theorem sound_step (hi : Sound s) (hst : service X key F s e = some (s', out)) : Sound s' :=
  left_step (fun _ _ _ ha _ _ _ hb => cmdTells_of_tells ha hb) (fun _ _ _ _ _ hb => by cases hb)
    hi hst

theorem sound_run {blacklistFile blocklistFile : Option Bytes}
    (hr : Run (service X key F) (.start blacklistFile blocklistFile) h s) : Sound s :=
  hr.keeps (fun _ _ _ _ hi hst => sound_step hi hst) left_start

/-- Without its two events `hbbr` leaves the lists alone. -/
theorem hbbr_lists {w w' : World} {e : WorldEvent} {o : WorldOut} (htakes : s.takes e = true)
    (h : hbbr X key w (e.under s.settings) = some (w', o)) : w'.lists = w.lists := by
  cases e with
  | blocklist | blacklist => cases htakes
  | accept | task | relayStart | turn => cases hbbr_step h <;> rfl

theorem tells_iff {limiter : Nat} {res : String} {act : CmdAct} {acts : List CmdAct}
    (hi : Sound o.pre) (hev : o.ev = .access conn)
    (hconn : o.pre.commands conn = some (.running limiter cmd (act :: acts) res)) :
    Tells list ip b o ↔ act.tells list ip = some b := by
  constructor
  · rintro ⟨conn', limiter', cmd', act', acts', res', hev', hconn', hact, _⟩
    obtain rfl := ServiceEvent.access.inj (hev.symm.trans hev')
    cases hconn.symm.trans hconn'
    exact hact
  · intro hact
    have htext := hi conn limiter cmd _ res hconn act List.mem_cons_self list ip b hact
    exact ⟨conn, limiter, cmd, act, acts, res, hev, hconn, hact, htext⟩

/-- **Only an access changes the lists**, and it changes them as it tells. -/
theorem mem_lists_step (hi : Sound o.pre)
    (hst : service X key F o.pre o.ev = some (o.post, o.out)) :
    ip ∈ o.post.world.lists.get list ↔ Tells list ip true o
      ∨ (ip ∈ o.pre.world.lists.get list ∧ ¬ Tells list ip false o) := by
  have hother : (∀ conn, o.ev ≠ .access conn) → o.post.world.lists = o.pre.world.lists →
      (ip ∈ o.post.world.lists.get list ↔ Tells list ip true o
        ∨ (ip ∈ o.pre.world.lists.get list ∧ ¬ Tells list ip false o)) := by
    intro hne hlists
    have hnone : ∀ b, ¬ Tells list ip b o := by
      rintro b ⟨conn, _, _, _, _, _, hev, _⟩
      exact hne conn hev
    rw [hlists]
    exact ⟨fun hin => .inr ⟨hin, hnone false⟩, fun hor => (hor.resolve_left (hnone true)).1⟩
  obtain ⟨pre, ev, out, post⟩ := o
  dsimp only at hst hi hother ⊢
  cases service_step hst with
  | @access conn limiter cmd res act acts hconn =>
      rw [tells_iff hi rfl hconn, tells_iff hi rfl hconn]
      have hact : ((pre.access limiter act).goto conn (.running limiter cmd acts res)).world.lists
          = pre.world.lists.apply act := by cases act <;> rfl
      rw [hact]
      exact mem_apply
  | world htakes hs =>
      exact hother (fun conn hev => by cases hev) (hbbr_lists htakes hs)
  | ioLoop | command | unread | load | answer => exact hother (fun conn hev => by cases hev) rfl

variable {blacklistFile blocklistFile : Option Bytes}

/-- The file that a list is read from. -/
def Listing.file (blacklistFile blocklistFile : Option Bytes) : Listing → Option Bytes
  | .blacklist => blacklistFile
  | .blocklist => blocklistFile

/-- **A list is what was last said of each entry**, whatever else happens in between. -/
theorem mem_lists_iff (hr : Run (service X key F) (.start blacklistFile blocklistFile) h s) :
    ip ∈ s.world.lists.get list ↔ Listed list (list.file blacklistFile blocklistFile) ip h := by
  have hstart : ip ∈ (RelayService.start blacklistFile blocklistFile).world.lists.get list
      ↔ ip ∈ readList (list.file blacklistFile blocklistFile) := by cases list <;> rfl
  rw [Listed, ← hstart]
  exact Run.since_of (Q := fun s => ip ∈ s.world.lists.get list) (fun _ _ hrun => sound_run hrun)
    (fun _ hi hst => mem_lists_step hi hst) hr

/-! ## At the door -/

theorem handleConnection_eq_blocked {lists : Lists} {addr : SocketAddr} {ws : Bool} :
    handleConnection X lists addr ws = .blocked ↔
      (ws = true ∨ (X.tryIntoV4 addr).ip.isLoopback = false)
        ∧ (X.tryIntoV4 addr).ip.toString ∈ lists.get .blocklist := by
  unfold handleConnection
  dsimp only [Lists.get]
  by_cases hin : (X.tryIntoV4 addr).ip.toString ∈ lists.blocklist
  · cases ws <;> cases (X.tryIntoV4 addr).ip.isLoopback <;> simp [hin]
  · cases ws <;> cases (X.tryIntoV4 addr).ip.isLoopback <;> simp [hin]

/-- What becomes of a connection is what `handle_connection` makes of the list as it is. -/
theorem accept_out {now : Instant} {addr : SocketAddr} {header : Option SocketAddr} {ws : Bool}
    (hst : service X key F s (.world (.accept now conn addr header ws)) = some (s', out)) :
    out = .world (.admission (handleConnection X s.world.lists addr ws)) := by
  cases service_step hst with
  | world _ hs =>
      dsimp only [WorldEvent.under, hbbr] at hs
      split at hs
      · rename_i hspawned
        obtain ⟨_, _, heq⟩ := Option.map_eq_some_iff.mp hs
        obtain ⟨_, rfl⟩ := Prod.mk.inj heq
        rw [hspawned]
      · obtain ⟨_, rfl⟩ := Prod.mk.inj (Option.some.inj hs)
        rfl

/--
**Who is refused at the door**: exactly who brings no command and has an address that is
listed, by the file or by a command, and that no later command has removed. That commands
run side by side, and between connections and relays, makes no difference.
-/
theorem refused_iff {h₁ h₂ : List ServiceOcc}
    (hr : Run (service X key F) (.start blacklistFile blocklistFile) (h₁ ++ o :: h₂) s)
    {now : Instant} {addr : SocketAddr} {header : Option SocketAddr} {ws : Bool}
    (hev : o.ev = .world (.accept now conn addr header ws)) :
    o.out = .world (.admission .blocked) ↔
      (ws = true ∨ (X.tryIntoV4 addr).ip.isLoopback = false)
        ∧ Listed .blocklist blocklistFile (X.tryIntoV4 addr).ip.toString h₁ := by
  obtain ⟨hpre, hst, _⟩ := hr.at
  rw [hev] at hst
  have hlisted : (X.tryIntoV4 addr).ip.toString ∈ o.pre.world.lists.get .blocklist
      ↔ Listed .blocklist blocklistFile (X.tryIntoV4 addr).ip.toString h₁ := mem_lists_iff hpre
  rw [accept_out hst, ← hlisted, ← handleConnection_eq_blocked]
  constructor
  · intro hout
    exact WorldOut.admission.inj (ServiceOut.world.inj hout)
  · intro hblocked
    rw [hblocked]

/-! ## What has been answered -/

/-- The access is still to come, or the list is as the command tells. -/
def Carried (conn : ConnId) (cmd : String) (list : Listing) (ip : String) (b : Bool)
    (s : RelayService) : Prop :=
  (∃ limiter acts res act, s.commands conn = some (.running limiter cmd acts res)
      ∧ act ∈ acts ∧ act.tells list ip = some b)
    ∨ (ip ∈ s.world.lists.get list ↔ b = true)

/-- A step that does not tell the opposite keeps the list as it is told, and so does one that
tells it. -/
theorem told_step (hi : Sound o.pre) (hst : service X key F o.pre o.ev = some (o.post, o.out))
    (hno : ¬ Tells list ip (!b) o)
    (htold : Tells list ip b o ∨ (ip ∈ o.pre.world.lists.get list ↔ b = true)) :
    ip ∈ o.post.world.lists.get list ↔ b = true := by
  rw [mem_lists_step hi hst]
  cases b with
  | true =>
      simp only [Bool.not_true, iff_true] at hno htold ⊢
      tauto
  | false =>
      simp only [Bool.not_false, Bool.false_eq_true, iff_false] at hno htold ⊢
      tauto

theorem told_run {s₀ : RelayService} (hi : Sound s₀)
    (htold : ip ∈ s₀.world.lists.get list ↔ b = true) (hr : Run (service X key F) s₀ h s)
    (hno : ∀ x ∈ h, ¬ Tells list ip (!b) x) :
    Sound s ∧ (ip ∈ s.world.lists.get list ↔ b = true) := by
  induction hr with
  | nil => exact ⟨hi, htold⟩
  | @snoc h s s' e out hr hst ih =>
      obtain ⟨hsound, hpre⟩ := ih fun x hx => hno x (List.mem_append_left _ hx)
      have hlast := hno _ (List.mem_append_right _ (List.mem_singleton_self _))
      exact ⟨sound_step hsound hst, told_step (o := ⟨s, e, out, s'⟩) hsound hst hlast (.inr hpre)⟩

theorem carried_step (hi : Sound o.pre) (hst : service X key F o.pre o.ev = some (o.post, o.out))
    (hno : ¬ Tells list ip (!b) o) (hcarried : Carried conn cmd list ip b o.pre) :
    Carried conn cmd list ip b o.post := by
  rcases hcarried with ⟨limiter, acts, res, act, hconn, hact, htells⟩ | htold
  · obtain ⟨task, htask, hmove⟩ := task_step hconn hst
    cases hmove with
    | stays => exact .inl ⟨limiter, acts, res, act, htask, hact, htells⟩
    | @access limiter cmd res act' acts' hev =>
        rcases List.mem_cons.mp hact with rfl | hact
        · exact .inr (told_step hi hst hno (.inl ((tells_iff hi hev hconn).mpr htells)))
        · exact .inl ⟨limiter, acts', res, act, htask, hact, htells⟩
    | load hev =>
        rcases List.mem_cons.mp hact with rfl | hact
        · cases htells
        · exact .inl ⟨limiter, _, res, act, htask, List.mem_cons_of_mem _ hact, htells⟩
    | answer hev => cases hact
  · exact .inr (told_step hi hst hno (.inr htold))

theorem carried_run {s₀ : RelayService} (hi : Sound s₀) (hcarried : Carried conn cmd list ip b s₀)
    (hr : Run (service X key F) s₀ h s) (hno : ∀ x ∈ h, ¬ Tells list ip (!b) x) :
    Sound s ∧ Carried conn cmd list ip b s := by
  induction hr with
  | nil => exact ⟨hi, hcarried⟩
  | @snoc h s s' e out hr hst ih =>
      obtain ⟨hsound, hpre⟩ := ih fun x hx => hno x (List.mem_append_left _ hx)
      have hlast := hno _ (List.mem_append_right _ (List.mem_singleton_self _))
      exact ⟨sound_step hsound hst, carried_step (o := ⟨s, e, out, s'⟩) hsound hst hlast hpre⟩

/-- A command that has been read has all its accesses before it. -/
theorem carried_start {c : LoopbackConn} {usage : List (String × Usage)}
    (hst : service X key F s (.command conn c usage) = some (s', out))
    (hcmd : c.command = some cmd) (htells : cmdTells list ip cmd = some b) :
    Carried conn cmd list ip b s' := by
  cases service_step hst with
  | @command _ _ _ limiter cmd' _ hread =>
      obtain rfl := Option.some.inj (hcmd.symm.trans hread)
      obtain ⟨act, hact, ha⟩ := @exists_tells F list ip cmd b ⟨s.world.lists, s.settings, usage⟩
        htells
      exact .inl ⟨limiter, _, _, act, goto_self .., hact, ha⟩
  | unread _ hread => cases hread.symm.trans hcmd

/--
**A command that has been answered is in force**: from its answer on the entry is listed, or is
not, as its text tells, as long as no access since the command was read has told the opposite.
Nothing that other connections, relays and commands do in the meantime can undo or delay it.
-/
theorem answered_in_force {h₁ h₂ h₃ : List ServiceOcc} {x y : ServiceOcc}
    (hr : Run (service X key F) (.start blacklistFile blocklistFile)
      (h₁ ++ x :: (h₂ ++ y :: h₃)) s)
    {c : LoopbackConn} {usage : List (String × Usage)} (hread : x.ev = .command conn c usage)
    (hanswer : y.ev = .answer conn) (hcmd : c.command = some cmd)
    (htells : cmdTells list ip cmd = some b)
    (hno : ∀ z ∈ h₂ ++ y :: h₃, ¬ Tells list ip (!b) z) :
    ip ∈ s.world.lists.get list ↔ b = true := by
  obtain ⟨hpre, hst, hrest⟩ := hr.at
  rw [hread] at hst
  have hsound := sound_step (sound_run hpre) hst
  obtain ⟨hbefore, hans, hafter⟩ := hrest.at
  have hno₂ := fun z hz => hno z (List.mem_append_left _ hz)
  have hno₃ := fun z hz => hno z (List.mem_append_right _ hz)
  obtain ⟨hsound₂, hcarried⟩ := carried_run hsound (carried_start hst hcmd htells) hbefore hno₂
  -- nothing is left to do when the answer is written, so the list is as told by then
  have htold : ip ∈ y.pre.world.lists.get list ↔ b = true := by
    refine hcarried.resolve_left ?_
    rintro ⟨limiter, acts, res, act, hconn, hact, _⟩
    rw [hanswer] at hans
    obtain ⟨_, _, _, hdone, _⟩ := answer_step hans
    cases hdone.symm.trans hconn
    cases hact
  have hpost := told_step hsound₂ hans (hno₃ y List.mem_cons_self) (.inr htold)
  exact (told_run (sound_step hsound₂ hans) hpost hafter
    fun z hz => hno₃ z (List.mem_cons_of_mem _ hz)).2

/-! ### One command -/

/-- A text that comes in one piece. -/
def onePiece (text : String) (hne : Keys.asBytes text ≠ []) : LoopbackConn where
  text := text
  segments := [Keys.asBytes text]
  segments_ne := by
    intro bytes hbytes
    rw [List.mem_singleton.mp hbytes]
    exact hne
  segments_text := List.append_nil _
  readEnd := .ready 0

theorem onePiece_command {text : String} {hne : Keys.asBytes text ≠ []}
    (hshort : text.utf8ByteSize ≤ 1024) : (onePiece text hne).command = some text := by
  have hread : (onePiece text hne).execute (fun _ => ()) = some (text, ()) :=
    Proof.execute_part rfl rfl hshort
  obtain ⟨cmd, hcmd, heq⟩ := Option.map_eq_some_iff.mp hread
  rw [hcmd, (Prod.mk.inj heq).1]

def loopbackAddr : SocketAddr := ⟨.v4 ⟨127, 0, 0, 1⟩, 40000⟩

def blockedAddr : SocketAddr := ⟨.v4 ⟨1, 2, 3, 4⟩, 50000⟩

def allowedAddr : SocketAddr := ⟨.v4 ⟨5, 6, 7, 8⟩, 50000⟩

theorem checkCmd_add {st : CmdState} {args : List String} (hword : wordOf cmd = some (.add list))
    (hargs : cmdArgs cmd = args) : checkCmd F st cmd = addArm list args := by
  unfold checkCmd
  rw [← wordOf, hword, hargs]

theorem checkCmd_remove {st : CmdState} {args : List String}
    (hword : wordOf cmd = some (.remove list)) (hargs : cmdArgs cmd = args) :
    checkCmd F st cmd = removeArm list args := by
  unfold checkCmd
  rw [← wordOf, hword, hargs]

theorem checkCmd_block (st : CmdState) :
    checkCmd F st "Ba 1.2.3.4" = ([.list .blocklist (.add "1.2.3.4")], "") := by
  have hword : wordOf "Ba 1.2.3.4" = some (.add .blocklist) := by decide +kernel
  have hargs : cmdArgs "Ba 1.2.3.4" = ["1.2.3.4"] := by decide +kernel
  rw [checkCmd_add hword hargs]
  decide +kernel

theorem checkCmd_unblock (st : CmdState) :
    checkCmd F st "Br 5.6.7.8" = ([.list .blocklist (.remove "5.6.7.8")], "") := by
  have hword : wordOf "Br 5.6.7.8" = some (.remove .blocklist) := by decide +kernel
  have hargs : cmdArgs "Br 5.6.7.8" = ["5.6.7.8"] := by decide +kernel
  rw [checkCmd_remove hword hargs]
  decide +kernel

/-- The service reads a command. -/
theorem read_command {c : LoopbackConn} {usage : List (String × Usage)} {limiter : Nat}
    {acts : List CmdAct} {res : String} (hconn : s.commands conn = some (.reading limiter))
    (hcmd : c.command = some cmd)
    (hcheck : checkCmd F ⟨s.world.lists, s.settings, usage⟩ cmd = (acts, res)) :
    service X key F s (.command conn c usage)
      = some (s.goto conn (.running limiter cmd acts res), .silent) := by
  simp only [service, hconn, handleLoopback, LoopbackConn.execute, hcmd, Option.map_some, hcheck,
    CmdTask.begin]

def blockCommand : LoopbackConn := onePiece "Ba 1.2.3.4" (by decide +kernel)

theorem blockCommand_text : blockCommand.command = some "Ba 1.2.3.4" :=
  onePiece_command (by decide +kernel)

/-- A connection that the list refuses. -/
theorem refuse {now : Instant} {addr : SocketAddr} {header : Option SocketAddr} {ws : Bool}
    (htakes : s.takes (.accept now conn addr header ws) = true)
    (hblocked : handleConnection X s.world.lists addr ws = .blocked) :
    service X key F s (.world (.accept now conn addr header ws))
      = some (s, .world (.admission .blocked)) := by
  simp only [service, htakes, if_true, WorldEvent.under, hbbr, hblocked, Option.map_some]
  rfl

def unblockCommand : LoopbackConn := onePiece "Br 5.6.7.8" (by decide +kernel)

theorem unblockCommand_text : unblockCommand.command = some "Br 5.6.7.8" :=
  onePiece_command (by decide +kernel)

/-- The administrator blocks `1.2.3.4`. Before the answer another command has its access to the
same list, and a client is let in. -/
theorem block_run : ∃ h₁ x h₂ y s, Run (service Ext.sample.toAddrOps "" Proof.sampleOps)
      (.start none none) (h₁ ++ x :: (h₂ ++ [y])) s
    ∧ h₂.map Occ.ev = [.access 5, .world (.accept 0 6 allowedAddr none false), .access 1,
      .answer 5]
    ∧ x.ev = .command 1 blockCommand [] ∧ y.ev = .answer 1
    ∧ (∀ o ∈ h₂ ++ [y], ¬ Tells .blocklist "1.2.3.4" false o)
    ∧ s.limiters ≠ [] ∧ (∀ conn ∈ [2, 7], s.commands conn = none)
    ∧ s.world.lists.blocklist = {"1.2.3.4"} := by
  have hr : Run (service Ext.sample.toAddrOps "" Proof.sampleOps) (.start none none)
      ([] ++ [⟨_, .ioLoop fun _ => none, _, _⟩]
        ++ [⟨_, .world (.accept 0 1 loopbackAddr none false), _, _⟩]
        ++ [⟨_, .world (.accept 0 5 loopbackAddr none false), _, _⟩]
        ++ [⟨_, .command 5 unblockCommand [], _, _⟩]
        ++ [⟨_, .command 1 blockCommand [], _, _⟩] ++ [⟨_, .access 5, _, _⟩]
        ++ [⟨_, .world (.accept 0 6 allowedAddr none false), _, _⟩]
        ++ [⟨_, .access 1, _, _⟩] ++ [⟨_, .answer 5, _, _⟩] ++ [⟨_, .answer 1, _, _⟩]) _ :=
    Run.snoc (Run.snoc (Run.snoc (Run.snoc (Run.snoc (Run.snoc (Run.snoc (Run.snoc (Run.snoc
      (Run.snoc Run.nil rfl) rfl) rfl) (read_command rfl unblockCommand_text (checkCmd_unblock _)))
      (read_command rfl blockCommand_text (checkCmd_block _))) rfl) rfl) rfl) rfl) rfl
  refine ⟨[_, _, _, _], _, [_, _, _, _], _, _, hr, rfl, rfl, rfl, ?_,
    by simp [RelayService.goto, RelayService.access], ?_, rfl⟩
  case refine_2 =>
    intro conn hconn
    rcases List.mem_pair.mp hconn with rfl | rfl <;> rfl
  rintro o ho ⟨conn, _, _, _, _, _, hev, hconn, htells, _⟩
  rcases List.mem_append.mp ho with ho | ho
  · simp only [List.mem_cons, List.not_mem_nil, or_false] at ho
    rcases ho with rfl | rfl | rfl | rfl
    · obtain rfl := ServiceEvent.access.inj hev
      cases hconn
      cases htells
    · cases hev
    · obtain rfl := ServiceEvent.access.inj hev
      cases hconn
      cases htells
    · cases hev
  · rw [List.mem_singleton.mp ho] at hev
    cases hev

/-- A client from there is refused. -/
theorem refused_after_block : ∃ h o s, Run (service Ext.sample.toAddrOps "" Proof.sampleOps)
      (.start none none) (h ++ [o]) s ∧ o.ev = .world (.accept 0 2 blockedAddr none false)
    ∧ o.out = .world (.admission .blocked) ∧ Listed .blocklist none "1.2.3.4" h := by
  obtain ⟨h₁, x, h₂, y, s, hr, _, _, _, _, hloop, hfree, hlist⟩ := block_run
  have hblocked : handleConnection Ext.sample.toAddrOps s.world.lists blockedAddr false
      = .blocked := by
    refine handleConnection_eq_blocked.mpr ⟨.inr (by decide +kernel), ?_⟩
    rw [Lists.get, hlist]
    decide +kernel
  have htakes : s.takes (.accept 0 2 blockedAddr none false) = true := by
    simp [RelayService.takes, hloop, hfree 2 List.mem_cons_self]
  have hrun := hr.snoc (refuse htakes hblocked)
  exact ⟨_, _, _, hrun, rfl, rfl, ((refused_iff hrun rfl).mp rfl).2⟩

/-- And the address stays listed. -/
theorem answered_block : ∃ h₁ x h₂ y s, Run (service Ext.sample.toAddrOps "" Proof.sampleOps)
      (.start none none) (h₁ ++ x :: (h₂ ++ [y])) s
    ∧ h₂.map Occ.ev = [.access 5, .world (.accept 0 6 allowedAddr none false), .access 1,
      .answer 5]
    ∧ x.ev = .command 1 blockCommand [] ∧ y.ev = .answer 1
    ∧ "1.2.3.4" ∈ s.world.lists.get .blocklist := by
  obtain ⟨h₁, x, h₂, y, s, hr, hbetween, hread, hanswer, hno, _⟩ := block_run
  have htext : cmdTells .blocklist "1.2.3.4" "Ba 1.2.3.4" = some true := by decide +kernel
  exact ⟨h₁, x, h₂, y, s, hr, hbetween, hread, hanswer,
    (answered_in_force hr hread hanswer blockCommand_text htext hno).mpr rfl⟩

end KinBridge.Hbbr
