import KinBridge.Keys.Race
import KinBridge.Proof.Keys

/-!
# Two programs, one key

`hbbs` and `hbbr` come up together and are to agree on the key. Nothing but a sleep keeps them
apart, so they need not: an `open` that fails while the other program is on its way to create
`id_ed25519` makes a second pair of keys, and a read between the `create` and the write finds an
empty file and ends the process. `Orderly` leaves these two out. The invariant is where the
two may stand together, `Stage`.

With `-` or `_` the key of a program is the one that its `gen_sk` returns: `hbbsServerSk_dash`,
`hbbrServerSk_dash`.
-/

namespace KinBridge.Keys

open KinBridge Runs

/-- The public half of a secret key, as text. -/
def publicHalf (B : Codec) (sk : SecretKey) : String := B.encode (sk.val.drop 32)

/-- The files hold this key: `id_ed25519` reads as it, `id_ed25519.pub` is its public half. -/
structure Holds (B : Codec) (f : Files) (sk : SecretKey) : Prop where
  secret : ∃ bytes, f.sk = some bytes ∧ readKey B bytes = .returned (publicHalf B sk) (some sk)
  text : f.pub = some (asBytes (publicHalf B sk))

/-- Past an `open` that failed, and before `id_ed25519` is there. -/
def Pc.generating : Pc → Prop
  | .createPub _ | .writePub _ | .createSk _ => True
  | _ => False

/-- `id_ed25519` is created and not written. -/
def Pc.storing : Pc → Prop
  | .writeSk _ => True
  | _ => False

/-- Nobody opens an absent `id_ed25519` that the other one is about to create, nor reads one that
the other one is about to write. -/
def Orderly (w : Race) (e : FileEvent) : Prop :=
  (w.pc e.program = .opening → w.files.sk = none → ¬ (w.pc e.program.other).generating)
    ∧ (w.pc e.program = .read → ¬ (w.pc e.program.other).storing)

/-- At the end, with this key. -/
def Pc.got (B : Codec) (sk : SecretKey) : Pc := .ended (.returned (publicHalf B sk) (some sk))

def Pc.isOver : Pc → Prop
  | .ended _ => True
  | _ => False

/-- What `hbbs` and `hbbr` are to agree on, at any moment. -/
structure Agree (B : Codec) (w : Race) : Prop where
  /-- Nobody is sent away with a malformed key. -/
  stays : ∀ p, w.pc p ≠ .ended .exited
  /-- Whoever has a key has the one that the files hold. -/
  holds : ∀ p pk sk, w.pc p = .ended (.returned pk sk) →
    ∃ sk', Holds B w.files sk' ∧ pk = publicHalf B sk' ∧ sk = some sk'
  /-- Both have the same. -/
  same : ∀ pk pk' sk sk', w.pc .hbbs = .ended (.returned pk sk) →
    w.pc .hbbr = .ended (.returned pk' sk') → pk = pk'

variable {B : Codec}

/-! ## The stages -/

/-- Before the `open`: has not touched the files. -/
inductive Waits : Pc → Prop where
  | test : Waits .test
  | sleep : Waits .sleep
  | opening : Waits .opening

/-- The key is stored: still coming, about to read it, or at the end with it. -/
inductive Takes (B : Codec) (sk : SecretKey) : Pc → Prop where
  | waits {pc : Pc} : Waits pc → Takes B sk pc
  | read : Takes B sk .read
  | got : Takes B sk (.got B sk)

/-- The files, a program that makes the key if one does, and the other program. -/
inductive Stage (B : Codec) : Files → Pc → Pc → Prop where
  | fresh {pub : Option Bytes} {a b : Pc} : Waits a → Waits b → Stage B ⟨none, pub⟩ a b
  | createPub {pub : Option Bytes} {b : Pc} (kp : Keypair) :
      Waits b → Stage B ⟨none, pub⟩ (.createPub kp) b
  | writePub {b : Pc} (kp : Keypair) : Waits b → Stage B ⟨none, some []⟩ (.writePub kp) b
  | createSk {b : Pc} (kp : Keypair) : Waits b →
      Stage B ⟨none, some (asBytes (B.encode kp.pk))⟩ (.createSk kp) b
  | writeSk {b : Pc} (kp : Keypair) : Waits b ∨ b = .read →
      Stage B ⟨some [], some (asBytes (B.encode kp.pk))⟩ (.writeSk kp) b
  | stored {f : Files} {a b : Pc} (sk : SecretKey) :
      Holds B f sk → Takes B sk a → Takes B sk b → Stage B f a b

theorem Pc.got_eq (kp : Keypair) :
    Pc.got B kp.sk = .ended (.returned (B.encode kp.pk) (some kp.sk)) := by
  unfold Pc.got publicHalf
  rw [kp.half]

/-- A pair that was stored is held. -/
theorem holds_written (hB : B.Lawful) (kp : Keypair) :
    Holds B ⟨some (asBytes (B.encode kp.sk.val)), some (asBytes (B.encode kp.pk))⟩ kp.sk where
  secret := ⟨_, rfl, readKey_encode hB kp.sk⟩
  text := by
    unfold publicHalf
    rw [kp.half]

/-- A program that waits leaves the files alone, and gets to its `read`, or to making a key
if there is no file. -/
theorem waits_step {draw : Nat → Keypair} {f f' : Files} {pc pc' : Pc} (h : Waits pc)
    (hst : fileStep B draw f pc = some (f', pc')) :
    f' = f ∧ (Waits pc' ∨ (f.sk.isSome ∧ pc' = .read)
      ∨ (pc = .opening ∧ f.sk = none ∧ ∃ kp, pc' = .createPub kp)) := by
  cases h with
  | test =>
      obtain ⟨rfl, rfl⟩ := Prod.mk.inj (Option.some.inj hst)
      refine ⟨rfl, .inl ?_⟩
      split
      · exact .opening
      · exact .sleep
  | sleep =>
      obtain ⟨rfl, rfl⟩ := Prod.mk.inj (Option.some.inj hst)
      exact ⟨rfl, .inl .opening⟩
  | opening =>
      unfold fileStep at hst
      cases hsk : f.sk with
      | some bytes =>
          rw [hsk] at hst
          obtain ⟨rfl, rfl⟩ := Prod.mk.inj (Option.some.inj hst)
          exact ⟨rfl, .inr (.inl ⟨rfl, rfl⟩)⟩
      | none =>
          rw [hsk] at hst
          obtain ⟨rfl, rfl⟩ := Prod.mk.inj (Option.some.inj hst)
          exact ⟨rfl, .inr (.inr ⟨rfl, rfl, _, rfl⟩)⟩

/-- Once the key is stored nobody touches the files. -/
theorem takes_step {draw : Nat → Keypair} {f f' : Files} {sk : SecretKey} {pc pc' : Pc}
    (hf : Holds B f sk) (h : Takes B sk pc) (hst : fileStep B draw f pc = some (f', pc')) :
    f' = f ∧ Takes B sk pc' := by
  obtain ⟨bytes, hsk, hread⟩ := hf.secret
  cases h with
  | waits h =>
      obtain ⟨rfl, hw | ⟨_, rfl⟩ | ⟨_, hnone, _⟩⟩ := waits_step h hst
      · exact ⟨rfl, .waits hw⟩
      · exact ⟨rfl, .read⟩
      · rw [hsk] at hnone
        cases hnone
  | read =>
      unfold fileStep at hst
      rw [hsk] at hst
      obtain ⟨rfl, rfl⟩ := Prod.mk.inj (Option.some.inj hst)
      rw [hread]
      exact ⟨rfl, .got⟩
  | got => cases hst

/-- The first of the two goes on. -/
theorem stage_first (hB : B.Lawful) {draw : Nat → Keypair} {f f' : Files} {a a' b : Pc}
    (h : Stage B f a b) (hst : fileStep B draw f a = some (f', a')) : Stage B f' a' b := by
  cases h with
  | fresh ha hb =>
      obtain ⟨rfl, hw | ⟨hsome, _⟩ | ⟨_, _, kp, rfl⟩⟩ := waits_step ha hst
      · exact .fresh hw hb
      · cases hsome
      · exact .createPub kp hb
  | createPub kp hb =>
      obtain ⟨rfl, rfl⟩ := Prod.mk.inj (Option.some.inj hst)
      exact .writePub kp hb
  | writePub kp hb =>
      obtain ⟨rfl, rfl⟩ := Prod.mk.inj (Option.some.inj hst)
      simpa using Stage.createSk kp hb
  | createSk kp hb =>
      obtain ⟨rfl, rfl⟩ := Prod.mk.inj (Option.some.inj hst)
      exact .writeSk kp (.inl hb)
  | writeSk kp hb =>
      obtain ⟨rfl, rfl⟩ := Prod.mk.inj (Option.some.inj hst)
      rw [← Pc.got_eq, Option.getD_some, overwrite_nil]
      refine .stored kp.sk (holds_written hB kp) .got ?_
      rcases hb with hb | rfl
      · exact .waits hb
      · exact .read
  | stored sk hf ha hb =>
      obtain ⟨rfl, ha'⟩ := takes_step hf ha hst
      exact .stored sk hf ha' hb

/-- As long as the other one is about to create `id_ed25519`, waiting goes on. -/
theorem waits_behind {draw : Nat → Keypair} {f f' : Files} {pc pc' : Pc} (h : Waits pc)
    (hsk : f.sk = none) (hopen : pc ≠ .opening) (hst : fileStep B draw f pc = some (f', pc')) :
    f' = f ∧ Waits pc' := by
  obtain ⟨rfl, hw | ⟨hsome, _⟩ | ⟨hpc, _⟩⟩ := waits_step h hst
  · exact ⟨rfl, hw⟩
  · rw [hsk] at hsome
    cases hsome
  · exact absurd hpc hopen

/-- The second of the two goes on, and may become the one that makes the key. -/
theorem stage_second {draw : Nat → Keypair} {f f' : Files} {a b b' : Pc} (h : Stage B f a b)
    (hopen : b = .opening → f.sk = none → ¬ a.generating) (hread : b = .read → ¬ a.storing)
    (hst : fileStep B draw f b = some (f', b')) : Stage B f' a b' ∨ Stage B f' b' a := by
  cases h with
  | fresh ha hb =>
      obtain ⟨rfl, hw | ⟨hsome, _⟩ | ⟨_, _, kp, rfl⟩⟩ := waits_step hb hst
      · exact .inl (.fresh ha hw)
      · cases hsome
      · -- from here on it is the one that makes the key
        exact .inr (.createPub kp ha)
  | createPub kp hb =>
      obtain ⟨rfl, hw⟩ := waits_behind hb rfl (fun hpc => hopen hpc rfl trivial) hst
      exact .inl (.createPub kp hw)
  | writePub kp hb =>
      obtain ⟨rfl, hw⟩ := waits_behind hb rfl (fun hpc => hopen hpc rfl trivial) hst
      exact .inl (.writePub kp hw)
  | createSk kp hb =>
      obtain ⟨rfl, hw⟩ := waits_behind hb rfl (fun hpc => hopen hpc rfl trivial) hst
      exact .inl (.createSk kp hw)
  | writeSk kp hb =>
      -- the file is there and empty: opening it is in order, reading it is not
      rcases hb with hb | rfl
      · obtain ⟨rfl, hw | ⟨_, rfl⟩ | ⟨_, hnone, _⟩⟩ := waits_step hb hst
        · exact .inl (.writeSk kp (.inl hw))
        · exact .inl (.writeSk kp (.inr rfl))
        · cases hnone
      · exact absurd trivial (hread rfl)
  | stored sk hf ha hb =>
      obtain ⟨rfl, hb'⟩ := takes_step hf hb hst
      exact .inl (.stored sk hf ha hb')

/-- The two stand in a stage, one way round or the other. -/
def Staged (B : Codec) (w : Race) : Prop := ∃ p : Program, Stage B w.files (w.pc p) (w.pc p.other)

theorem staged_start {f : Files} (h : f.sk = none ∨ ∃ sk, Holds B f sk) :
    Staged B (.start f) := by
  refine ⟨.hbbs, ?_⟩
  obtain ⟨sk, pub⟩ := f
  rcases h with rfl | ⟨sk', hf⟩
  · exact .fresh .opening .test
  · exact .stored sk' hf (.waits .opening) (.waits .test)

theorem staged_step (hB : B.Lawful) {w w' : Race} {e : FileEvent} (h : Staged B w)
    (ho : Orderly w e) (hst : race B w e = some (w', ())) : Staged B w' := by
  obtain ⟨p, hp⟩ := h
  obtain ⟨f, pc, hfile, rfl⟩ := race_step hst
  obtain ⟨q, draw⟩ := e
  obtain ⟨hopen, hread⟩ := ho
  dsimp only at hfile hopen hread ⊢
  rcases Program.eq_or_other p q with rfl | rfl
  · refine ⟨q, ?_⟩
    rw [goto_self, goto_other]
    exact stage_first hB hp hfile
  · rw [Program.other_other] at hopen hread
    have hstay := goto_other w p.other f pc
    rw [Program.other_other] at hstay
    rcases stage_second hp hopen hread hfile with hnext | hnext
    · refine ⟨p, ?_⟩
      rw [goto_self, hstay]
      exact hnext
    · refine ⟨p.other, ?_⟩
      rw [goto_self, Program.other_other, hstay]
      exact hnext

theorem staged_run (hB : B.Lawful) {f : Files} (hf : f.sk = none ∨ ∃ sk, Holds B f sk)
    {h : List (Occ Race FileEvent Unit)} {w : Race} (hr : Run (race B) (.start f) h w)
    (ho : ∀ o ∈ h, Orderly o.pre o.ev) : Staged B w :=
  Run.inv_of (C := Orderly) (I := fun _ w => Staged B w) (staged_start hf)
    (fun _ _ _ _ _ hw ho hst => staged_step hB hw ho hst) hr ho

/-! ## At the end -/

theorem takes_over {sk : SecretKey} {res : GenResult} (h : Takes B sk (.ended res)) :
    res = .returned (publicHalf B sk) (some sk) := by
  generalize hpc : Pc.ended res = pc at h
  cases h with
  | waits h => subst hpc; cases h
  | read => cases hpc
  | got => exact Pc.ended.inj hpc

/-- A program at its end has the key stored, and both take it. -/
theorem stage_over {f : Files} {a b : Pc} (h : Stage B f a b)
    (hover : (∃ res, a = .ended res) ∨ ∃ res, b = .ended res) :
    ∃ sk, Holds B f sk ∧ Takes B sk a ∧ Takes B sk b := by
  have hwaits : ∀ {pc}, Waits pc → ¬ ∃ res, pc = .ended res := by
    rintro pc hw ⟨res, rfl⟩
    cases hw
  cases h with
  | fresh ha hb => exact absurd hover (by simp [hwaits ha, hwaits hb])
  | createPub kp hb => exact absurd hover (by simp [hwaits hb])
  | writePub kp hb => exact absurd hover (by simp [hwaits hb])
  | createSk kp hb => exact absurd hover (by simp [hwaits hb])
  | writeSk kp hb =>
      rcases hb with hb | rfl
      · exact absurd hover (by simp [hwaits hb])
      · exact absurd hover (by simp)
  | stored sk hf ha hb => exact ⟨sk, hf, ha, hb⟩

theorem staged_over {w : Race} {p : Program} {res : GenResult} (h : Staged B w)
    (hover : w.pc p = .ended res) :
    ∃ sk, Holds B w.files sk ∧ ∀ q, Takes B sk (w.pc q) := by
  obtain ⟨q, hq⟩ := h
  have hends : (∃ res, w.pc q = .ended res) ∨ ∃ res, w.pc q.other = .ended res := by
    rcases Program.eq_or_other q p with rfl | rfl
    · exact .inl ⟨res, hover⟩
    · exact .inr ⟨res, hover⟩
  obtain ⟨sk, hf, hself, hother⟩ := stage_over hq hends
  refine ⟨sk, hf, fun r => ?_⟩
  rcases Program.eq_or_other q r with rfl | rfl
  · exact hself
  · exact hother

theorem staged_agree {w : Race} (h : Staged B w) : Agree B w where
  stays := by
    intro p hover
    obtain ⟨sk, _, htakes⟩ := staged_over h hover
    cases takes_over (hover ▸ htakes p)
  holds := by
    intro p pk sk hover
    obtain ⟨sk', hf, htakes⟩ := staged_over h hover
    obtain ⟨rfl, rfl⟩ := GenResult.returned.inj (takes_over (hover ▸ htakes p))
    exact ⟨sk', hf, rfl, rfl⟩
  same := by
    intro pk pk' sk sk' hover hover'
    obtain ⟨sk₀, _, htakes⟩ := staged_over h hover
    have hbbs : pk = publicHalf B sk₀ :=
      (GenResult.returned.inj (takes_over (hover ▸ htakes .hbbs))).1
    have hbbr : pk' = publicHalf B sk₀ :=
      (GenResult.returned.inj (takes_over (hover' ▸ htakes .hbbr))).1
    rw [hbbs, hbbr]

/-! ## Going on -/

/-- The most operations that are left. -/
def Pc.left : Pc → Nat
  | .test => 7
  | .sleep => 6
  | .opening => 5
  | .createPub _ => 4
  | .writePub _ => 3
  | .createSk _ => 2
  | .read | .writeSk _ => 1
  | .ended _ => 0

theorem fileStep_left {draw : Nat → Keypair} {f f' : Files} {pc pc' : Pc}
    (h : fileStep B draw f pc = some (f', pc')) : pc'.left < pc.left := by
  cases pc with
  | test =>
      obtain ⟨_, rfl⟩ := Prod.mk.inj (Option.some.inj h)
      cases f.sk <;> simp [Pc.left]
  | opening =>
      dsimp only [fileStep] at h
      split at h <;> cases h <;> simp [Pc.left]
  | read =>
      dsimp only [fileStep] at h
      split at h <;> cases h
      simp [Pc.left]
  | ended res => cases h
  | sleep | createPub kp | writePub kp | createSk kp | writeSk kp =>
      obtain ⟨_, rfl⟩ := Prod.mk.inj (Option.some.inj h)
      simp [Pc.left]

/-- Every step uses one up. -/
theorem race_left {w w' : Race} {e : FileEvent} (h : race B w e = some (w', ())) :
    (w'.pc .hbbs).left + (w'.pc .hbbr).left < (w.pc .hbbs).left + (w.pc .hbbr).left := by
  obtain ⟨f, pc, hfile, rfl⟩ := race_step h
  obtain ⟨p, draw⟩ := e
  have hless := fileStep_left hfile
  have hself := goto_self w p f pc
  have hother := goto_other w p f pc
  cases p with
  | hbbs =>
      rw [Program.other] at hother
      rw [hself, hother]
      exact Nat.add_lt_add_right hless _
  | hbbr =>
      rw [Program.other] at hother
      rw [hself, hother]
      exact Nat.add_lt_add_left hless _

theorem race_length {f : Files} {h : List (Occ Race FileEvent Unit)} {w : Race}
    (hr : Run (race B) (.start f) h w) :
    h.length + (w.pc .hbbs).left + (w.pc .hbbr).left ≤ 12 := by
  refine Run.inv (I := fun h w => h.length + (w.pc .hbbs).left + (w.pc .hbbr).left ≤ 12)
    (Nat.le_refl 12) ?_ hr
  intro h w e w' _ hle hst
  have hless := race_left hst
  rw [List.length_append, List.length_singleton]
  omega

/-- A program is not at its end, and its next operation is in order. -/
structure Ready (B : Codec) (draw : Nat → Keypair) (f : Files) (a b : Pc) : Prop where
  step : (fileStep B draw f a).isSome
  opens : a = .opening → f.sk = none → ¬ b.generating
  reads : a = .read → ¬ b.storing

theorem waits_quiet {pc : Pc} (h : Waits pc) : ¬ pc.generating ∧ ¬ pc.storing ∧ pc ≠ .read := by
  cases h <;> exact ⟨id, id, by simp⟩

theorem waits_enabled {draw : Nat → Keypair} {f : Files} {pc : Pc} (h : Waits pc) :
    (fileStep B draw f pc).isSome := by
  cases h with
  | test | sleep => rfl
  | opening =>
      dsimp only [fileStep]
      split <;> rfl

theorem takes_quiet {sk : SecretKey} {pc : Pc} (h : Takes B sk pc) : ¬ pc.storing := by
  cases h with
  | waits h => exact (waits_quiet h).2.1
  | read => exact id
  | got => exact id

/-- With the key stored, whoever is not at its end can go on. -/
theorem takes_ready {draw : Nat → Keypair} {f : Files} {sk : SecretKey} {a b : Pc}
    (hf : Holds B f sk) (ha : Takes B sk a) (hb : Takes B sk b) (hover : ¬ a.isOver) :
    Ready B draw f a b := by
  obtain ⟨bytes, hsk, _⟩ := hf.secret
  refine ⟨?_, fun _ hnone => ?_, fun _ => takes_quiet hb⟩
  · cases ha with
    | waits ha => exact waits_enabled ha
    | read =>
        unfold fileStep
        rw [hsk]
        rfl
    | got => exact absurd trivial hover
  · rw [hsk] at hnone
    cases hnone

/-- In every stage one of the two can go on, until both are at their ends. -/
theorem stage_ready (draw : Nat → Keypair) {f : Files} {a b : Pc} (h : Stage B f a b)
    (hover : ¬ (a.isOver ∧ b.isOver)) : Ready B draw f a b ∨ Ready B draw f b a := by
  cases h with
  | fresh ha hb =>
      refine .inl ⟨waits_enabled ha, fun _ _ => (waits_quiet hb).1, fun hread => ?_⟩
      exact absurd hread (waits_quiet ha).2.2
  | createPub | writePub | createSk | writeSk =>
      exact .inl ⟨rfl, fun hpc => Pc.noConfusion hpc, fun hpc => Pc.noConfusion hpc⟩
  | stored sk hf ha hb =>
      by_cases ha' : a.isOver
      · exact .inr (takes_ready hf hb ha fun hb' => hover ⟨ha', hb'⟩)
      · exact .inl (takes_ready hf ha hb ha')

theorem ready_step {w : Race} {p : Program} {draw : Nat → Keypair}
    (h : Ready B draw w.files (w.pc p) (w.pc p.other)) :
    Orderly w ⟨p, draw⟩ ∧ ∃ w', race B w ⟨p, draw⟩ = some (w', ()) := by
  refine ⟨⟨h.opens, h.reads⟩, ?_⟩
  obtain ⟨r, hr⟩ := Option.isSome_iff_exists.mp h.step
  exact ⟨w.goto p r.1 r.2, by simp [race, hr]⟩

theorem staged_goes_on (draw : Nat → Keypair) {w : Race} (h : Staged B w)
    (hover : ¬ ∀ p, (w.pc p).isOver) :
    ∃ p, Orderly w ⟨p, draw⟩ ∧ ∃ w', race B w ⟨p, draw⟩ = some (w', ()) := by
  obtain ⟨p, hp⟩ := h
  have hends : ¬ ((w.pc p).isOver ∧ (w.pc p.other).isOver) := by
    rintro ⟨hself, hother⟩
    refine hover fun q => ?_
    rcases Program.eq_or_other p q with rfl | rfl
    · exact hself
    · exact hother
  rcases stage_ready draw hp hends with hready | hready
  · exact ⟨p, ready_step hready⟩
  · refine ⟨p.other, ready_step ?_⟩
    rw [Program.other_other]
    exact hready

/-- A program that goes on alone is in order if the other one does not stand in the middle. -/
theorem alone_orderly {p : Program} {w w' : Race} {g : List (Occ Race FileEvent Unit)}
    (hr : Run (race B) w g w') (hg : ∀ o ∈ g, o.ev.program = p)
    (hquiet : ¬ (w.pc p.other).generating ∧ ¬ (w.pc p.other).storing) :
    ∀ o ∈ g, Orderly o.pre o.ev := by
  intro o ho
  obtain ⟨h₁, h₂, rfl, hpre, _⟩ := hr.mem ho
  have hstay : o.pre.pc p.other = w.pc p.other :=
    Run.inv_of (C := fun _ e => e.program = p) (I := fun _ u => u.pc p.other = w.pc p.other) rfl
      (fun _ _ e _ _ hu he hst => by
        obtain ⟨f, pc, _, rfl⟩ := race_step hst
        rw [← he] at hu ⊢
        rw [goto_other, hu])
      hpre fun x hx => hg x (List.mem_append_left _ hx)
  unfold Orderly
  rw [hg o ho, hstay]
  exact ⟨fun _ _ => hquiet.1, fun _ => hquiet.2⟩

/--
**`hbbs` and `hbbr` agree on the key as long as they keep order**: in every run from no
`id_ed25519`, or from one that `id_ed25519.pub` belongs to, nobody exits and whoever comes to the
end has the key that the files hold. Such a run can go on in order until both are there, and
that takes twelve operations at most.
-/
theorem keys_agree (hB : B.Lawful) {f : Files} (hf : f.sk = none ∨ ∃ sk, Holds B f sk)
    {h : List (Occ Race FileEvent Unit)} {w : Race} (hr : Run (race B) (.start f) h w)
    (ho : ∀ o ∈ h, Orderly o.pre o.ev) :
    Agree B w ∧ h.length ≤ 12 ∧ ((∀ p, (w.pc p).isOver) ∨
      ∀ draw, ∃ p, Orderly w ⟨p, draw⟩ ∧ ∃ w', race B w ⟨p, draw⟩ = some (w', ())) := by
  have hstaged := staged_run hB hf hr ho
  refine ⟨staged_agree hstaged, ?_, ?_⟩
  · have hlen := race_length hr
    omega
  · by_cases hover : ∀ p, (w.pc p).isOver
    · exact .inl hover
    · exact .inr fun draw => staged_goes_on draw hstaged hover

/-- `hbbs` first and `hbbr` after it: both come to the end, and agree. -/
theorem keys_agree_in_turn :
    ∃ h w, Run (race .sample) (.start ⟨none, none⟩) h w ∧ (∀ p, (w.pc p).isOver)
      ∧ Agree .sample w := by
  obtain ⟨g, hg, hbbs⟩ := alone (B := .sample) ⟨none, none⟩ .hbbs fun _ => .sample 7
  obtain ⟨g', hg', hbbr⟩ := alone_test (B := .sample) (p := .hbbr) (fun _ => .sample 9)
    (goto_other (Race.start ⟨none, none⟩) .hbbs _ _)
  have hr := hg.trans hg'
  refine ⟨_, _, hr, fun p => by cases p <;> trivial, (keys_agree sample_lawful (.inl rfl) hr ?_).1⟩
  intro o ho
  rcases List.mem_append.mp ho with ho | ho
  · exact alone_orderly hg hbbs ⟨id, id⟩ o ho
  · exact alone_orderly hg' hbbr ⟨id, id⟩ o ho

/-! ## Out of order -/

/-- Whoever reads while the other one stores the key reads an empty file. -/
theorem stage_storing {f : Files} {a b : Pc} (h : Stage B f a b) :
    (a = .read → ¬ b.storing) ∧ (b = .read → a.storing → f.sk = some []) := by
  cases h with
  | fresh ha hb => exact ⟨fun h => absurd h (waits_quiet ha).2.2, fun h => by subst h; cases hb⟩
  | createPub | writePub | createSk => exact ⟨fun h => (Pc.noConfusion h), fun _ h => h.elim⟩
  | writeSk => exact ⟨fun h => (Pc.noConfusion h), fun _ _ => rfl⟩
  | stored sk _ ha hb => exact ⟨fun _ => takes_quiet hb, fun _ h => absurd h (takes_quiet ha)⟩

/-- **A read between the `create` and the write ends the process.** -/
theorem storing_exits (hB : B.Lawful) {w w' : Race} {e : FileEvent} (h : Staged B w)
    (hread : w.pc e.program = .read) (hstoring : (w.pc e.program.other).storing)
    (hst : race B w e = some (w', ())) : w'.pc e.program = .ended .exited := by
  have hempty : w.files.sk = some [] := by
    obtain ⟨p, hp⟩ := h
    rcases Program.eq_or_other p e.program with heq | heq
    · rw [heq] at hread hstoring
      exact absurd hstoring ((stage_storing hp).1 hread)
    · rw [heq, Program.other_other] at hstoring
      rw [heq] at hread
      exact (stage_storing hp).2 hread hstoring
  obtain ⟨f, pc, hfile, rfl⟩ := race_step hst
  rw [hread] at hfile
  dsimp only [fileStep] at hfile
  rw [hempty] at hfile
  obtain ⟨_, rfl⟩ := Prod.mk.inj (Option.some.inj hfile)
  rw [goto_self, readKey_nil hB]

/-- A program that makes this key, and at its end has it. -/
inductive Makes (B : Codec) (kp : Keypair) : Pc → Prop where
  | createPub : Makes B kp (.createPub kp)
  | writePub : Makes B kp (.writePub kp)
  | createSk : Makes B kp (.createSk kp)
  | writeSk : Makes B kp (.writeSk kp)
  | ended : Makes B kp (.ended (.returned (B.encode kp.pk) (some kp.sk)))

theorem makes_step {draw : Nat → Keypair} {f f' : Files} {kp : Keypair} {pc pc' : Pc}
    (h : Makes B kp pc) (hst : fileStep B draw f pc = some (f', pc')) : Makes B kp pc' := by
  cases h with
  | createPub => cases hst; exact .writePub
  | writePub => cases hst; exact .createSk
  | createSk => cases hst; exact .writeSk
  | writeSk => cases hst; exact .ended
  | ended => cases hst

theorem makes_run {w w' : Race} {h : List (Occ Race FileEvent Unit)} {p : Program} {kp : Keypair}
    (hr : Run (race B) w h w') (hp : Makes B kp (w.pc p)) : Makes B kp (w'.pc p) := by
  refine hr.keeps (Q := fun w => Makes B kp (w.pc p)) (fun w e w' _ hp hst => ?_) hp
  obtain ⟨f, pc, hfile, rfl⟩ := race_step hst
  rcases Program.eq_or_other e.program p with heq | heq
  · rw [heq, goto_self]
    rw [heq] at hp
    exact makes_step hp hfile
  · rw [heq, goto_other, ← heq]
    exact hp

theorem makes_over {kp : Keypair} {pc : Pc} (h : Makes B kp pc) (hover : pc.isOver) :
    pc = .ended (.returned (B.encode kp.pk) (some kp.sk)) := by
  cases h with
  | ended => rfl
  | createPub | writePub | createSk | writeSk => exact hover.elim

/-- **Two programs that both make a key never agree**, unless they drew the same one. -/
theorem two_makers {w w' : Race} {h : List (Occ Race FileEvent Unit)} {kp kp' : Keypair}
    (hr : Run (race B) w h w') (hbbs : Makes B kp (w.pc .hbbs)) (hbbr : Makes B kp' (w.pc .hbbr))
    (hne : B.encode kp.pk ≠ B.encode kp'.pk) (hover : ∀ p, (w'.pc p).isOver) : ¬ Agree B w' := by
  intro hagree
  exact hne (hagree.same _ _ _ _ (makes_over (makes_run hr hbbs) (hover .hbbs))
    (makes_over (makes_run hr hbbr) (hover .hbbr)))

/-- **`hbbr` reads what `hbbs` has created and not written**, and exits. -/
theorem keys_disagree :
    ¬ ∀ f h w, f.sk = none ∨ (∃ sk, Holds .sample f sk) →
      Run (race .sample) (.start f) h w → Agree .sample w := by
  intro hall
  -- `hbbs` comes as far as the `create` of `id_ed25519`
  obtain ⟨w, ⟨hsk, htest⟩, g, hg, _⟩ : ∃ w, (w.files.sk = some [] ∧ w.pc .hbbr = .test)
      ∧ Alone .sample .hbbs (.start ⟨none, none⟩) w := by
    have hpub := (Alone.first (B := .sample) (w := .start ⟨none, none⟩) (p := .hbbs)
      (fun _ => .sample 7) rfl rfl).next (fun _ => .sample 7) rfl
    exact ⟨_, ⟨rfl, rfl⟩, (hpub.next (fun _ => .sample 7) rfl).next (fun _ => .sample 7) rfl⟩
  have hopen : Alone .sample .hbbr w (w.goto .hbbr w.files .opening) :=
    Alone.first (fun _ => .sample 9) htest (by simp [fileStep, hsk])
  have hread : Alone .sample .hbbr w (w.goto .hbbr w.files .read) :=
    hopen.next (fun _ => .sample 9) (by simp [fileStep, hsk])
  obtain ⟨g', hg', _⟩ : Alone .sample .hbbr w
      (w.goto .hbbr w.files (.ended (readKey .sample []))) :=
    hread.next (fun _ => .sample 9) (by simp [fileStep, hsk])
  refine (hall _ _ _ (.inl rfl) (hg.trans hg')).stays .hbbr ?_
  rw [goto_self, readKey_nil sample_lawful]

end KinBridge.Keys
