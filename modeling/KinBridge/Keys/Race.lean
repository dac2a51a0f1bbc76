import KinBridge.Keys.GenSk
import KinBridge.Lib.Runs

/-!
# `hbbs` and `hbbr` at the same files

Both programs call `gen_sk` when they come up, in one directory, and nothing locks the two
files. Here each call goes one file operation at a time, the other program's in between, and
every operation succeeds. `hbbr` tests for `id_ed25519` first and waits a little if it is not
there; how long says nothing about what `hbbs` does meanwhile.

`alone` connects this with `genSk`: a program that runs undisturbed does what `genSk` says.
-/

namespace KinBridge.Keys

open KinBridge Runs

inductive Program where
  | hbbs
  | hbbr
deriving DecidableEq, Repr

def Program.other : Program → Program
  | .hbbs => .hbbr
  | .hbbr => .hbbs

@[simp] theorem Program.other_other (p : Program) : p.other.other = p := by
  cases p <;> rfl

theorem Program.eq_or_other (p q : Program) : q = p ∨ q = p.other := by
  cases p <;> cases q <;> decide

/-- Where `gen_sk` stands: before its `exists`, in the sleep, before `open`, `read_to_string`, the
two `create`s and the two `write_all`s, and at its end. -/
inductive Pc where
  | test
  | sleep
  | opening
  | read
  | createPub (kp : Keypair)
  | writePub (kp : Keypair)
  | createSk (kp : Keypair)
  | writeSk (kp : Keypair)
  | ended (res : GenResult)

/-- `gen_sk(0)` and `gen_sk(300)`. -/
def Program.start : Program → Pc
  | .hbbs => .opening
  | .hbbr => .test

structure Race where
  files : Files
  pc : Program → Pc

def Race.start (f : Files) : Race := ⟨f, Program.start⟩

/-- An operation of a program, and the key pairs that it would draw. -/
structure FileEvent where
  program : Program
  draw : Nat → Keypair

variable (B : Codec)

/-- One operation of `gen_sk`, as it succeeds. A file that was opened stays. -/
def fileStep (draw : Nat → Keypair) (f : Files) : Pc → Option (Files × Pc)
  | .test => some (f, if f.sk.isSome then .opening else .sleep)
  | .sleep => some (f, .opening)
  | .opening =>
    match f.sk with
    | some _ => some (f, .read)
    | none => some (f, .createPub (drawKey B draw 300 0))
  | .read =>
    match f.sk with
    | some bytes => some (f, .ended (readKey B bytes))
    | none => none
  | .createPub kp => some ({ f with pub := some [] }, .writePub kp)
  | .writePub kp =>
    some ({ f with pub := some (overwrite (asBytes (B.encode kp.pk)) (f.pub.getD [])) },
      .createSk kp)
  | .createSk kp => some ({ f with sk := some [] }, .writeSk kp)
  | .writeSk kp =>
    some ({ f with sk := some (overwrite (asBytes (B.encode kp.sk.val)) (f.sk.getD [])) },
      .ended (.returned (B.encode kp.pk) (some kp.sk)))
  | .ended _ => none

/-- The other program's place is not touched. -/
def Race.goto (w : Race) (p : Program) (f : Files) (pc : Pc) : Race :=
  ⟨f, Function.update w.pc p pc⟩

def race (w : Race) (e : FileEvent) : Option (Race × Unit) :=
  (fileStep B e.draw w.files (w.pc e.program)).map fun r => (w.goto e.program r.1 r.2, ())

variable {B}

@[simp] theorem goto_self (w : Race) (p : Program) (f : Files) (pc : Pc) :
    (w.goto p f pc).pc p = pc := Function.update_self ..

@[simp] theorem goto_other (w : Race) (p : Program) (f : Files) (pc : Pc) :
    (w.goto p f pc).pc p.other = w.pc p.other :=
  Function.update_of_ne (by cases p <;> decide) ..

@[simp] theorem goto_files (w : Race) (p : Program) (f : Files) (pc : Pc) :
    (w.goto p f pc).files = f := rfl

theorem race_step {w w' : Race} {e : FileEvent} (h : race B w e = some (w', ())) :
    ∃ f pc, fileStep B e.draw w.files (w.pc e.program) = some (f, pc)
      ∧ w' = w.goto e.program f pc := by
  obtain ⟨⟨f, pc⟩, hstep, heq⟩ := Option.map_eq_some_iff.mp h
  exact ⟨f, pc, hstep, (Prod.mk.inj heq).1.symm⟩

theorem goto_goto (w : Race) (p : Program) (f f' : Files) (pc pc' : Pc) :
    (w.goto p f pc).goto p f' pc' = w.goto p f' pc' := by
  unfold Race.goto
  rw [Function.update_idem]

/-! ## A program on its own -/

/-- `w'` comes after `w` by steps of `p` alone. -/
def Alone (B : Codec) (p : Program) (w w' : Race) : Prop :=
  ∃ g, Run (race B) w g w' ∧ ∀ o ∈ g, o.ev.program = p

theorem Alone.trans {p : Program} {w w' w'' : Race} (h : Alone B p w w') (h' : Alone B p w' w'') :
    Alone B p w w'' := by
  obtain ⟨g, hr, hg⟩ := h
  obtain ⟨g', hr', hg'⟩ := h'
  exact ⟨g ++ g', hr.trans hr', fun o ho => (List.mem_append.mp ho).elim (hg o) (hg' o)⟩

theorem Alone.first {w : Race} {p : Program} {pc pc' : Pc} {f' : Files} (draw : Nat → Keypair)
    (hpc : w.pc p = pc) (h : fileStep B draw w.files pc = some (f', pc')) :
    Alone B p w (w.goto p f' pc') := by
  have hst : race B w ⟨p, draw⟩ = some (w.goto p f' pc', ()) := by
    unfold race
    rw [hpc, h]
    rfl
  refine ⟨[] ++ [⟨w, ⟨p, draw⟩, (), w.goto p f' pc'⟩], Run.snoc Run.nil hst, ?_⟩
  intro o ho
  rw [List.mem_singleton.mp ho]

theorem Alone.next {w w' : Race} {p : Program} {pc pc' : Pc} {f f' : Files} (draw : Nat → Keypair)
    (h : Alone B p w (w'.goto p f pc)) (hstep : fileStep B draw f pc = some (f', pc')) :
    Alone B p w (w'.goto p f' pc') := by
  rw [← goto_goto w' p f f' pc pc']
  exact h.trans (Alone.first draw (goto_self ..) hstep)

/-- With every operation succeeding. -/
def GenIo.good (draw : Nat → Keypair) : GenIo := ⟨true, true, true, none, true, none, draw⟩

/-- From the `open` on. -/
theorem alone_opening {w : Race} {p : Program} (draw : Nat → Keypair) (h : w.pc p = .opening) :
    Alone B p w (w.goto p (genSk B w.files (.good draw)).1
      (.ended (genSk B w.files (.good draw)).2)) := by
  obtain ⟨⟨sk, pub⟩, pc⟩ := w
  cases sk with
  | some bytes => exact ((Alone.first draw h rfl).next draw rfl)
  | none =>
      have hmade := (Alone.first (B := B) (w := ⟨⟨none, pub⟩, pc⟩) draw h rfl).next draw rfl
      exact ((hmade.next draw rfl).next draw rfl).next draw rfl

/-- From the test on: with the file there is no sleep. -/
theorem alone_test {w : Race} {p : Program} (draw : Nat → Keypair) (h : w.pc p = .test) :
    Alone B p w (w.goto p (genSk B w.files (.good draw)).1
      (.ended (genSk B w.files (.good draw)).2)) := by
  have htest : Alone B p w (w.goto p w.files .opening) := by
    cases hsk : w.files.sk with
    | some bytes => exact Alone.first draw h (by simp [fileStep, hsk])
    | none =>
        have hsleep : Alone B p w (w.goto p w.files .sleep) :=
          Alone.first draw h (by simp [fileStep, hsk])
        exact hsleep.next draw rfl
  have hrest := alone_opening (B := B) draw (goto_self w p w.files .opening)
  rw [goto_goto] at hrest
  exact htest.trans hrest

/-- **A program that nobody disturbs does what `genSk` says**, its test and its sleep included. -/
theorem alone (f : Files) (p : Program) (draw : Nat → Keypair) :
    Alone B p (.start f) ((Race.start f).goto p (genSk B f (.good draw)).1
      (.ended (genSk B f (.good draw)).2)) := by
  cases p with
  | hbbs => exact alone_opening draw rfl
  | hbbr => exact alone_test draw rfl

end KinBridge.Keys
