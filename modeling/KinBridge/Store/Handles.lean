import KinBridge.Lib.Runs
import KinBridge.Store.PeerMap

/-!
# The peer map, one lock at a time

What callers share is not a record but a `LockPeer`, an `Arc` around one. Here a
`LockPeer` is an index into a heap of records, and `get`, `get_or` and `update_pk` are cut
at every point where they wait: for the map lock, for the database, for the record.

Any number of spawned tasks run `get`. The main loop handles one message at a time: it
runs `get_or`, and may then run `update_pk` on the record it was given.
-/

namespace KinBridge.Handles

open KinBridge Runs Slots

/-- `Arc<RwLock<Peer>>`, as an index into the heap. -/
abbrev LockPeer := Nat

structure Shared where
  heap : LockPeer → Peer
  next : LockPeer
  map : String → Option LockPeer
  db : Table

/-- A new record, put under `id` whatever is there. -/
def Shared.insert (s : Shared) (id : String) (p : Peer) : Shared :=
  { s with heap := Function.update s.heap s.next p, next := s.next + 1, map := put s.map id s.next }

/-! ## The functions, cut at their waits -/

/-- Where a call of `get` stands: before its map read, its database read, its map write
(with the row it has read), or at its end. -/
inductive GetPc where
  | mapRead
  | dbRead
  | mapWrite (v : Row)
  | done (r : Option LockPeer)
deriving DecidableEq, Repr

variable (J : InfoJson)

/-- The next step of `get(id)`. The map write does not look again. -/
def getStep (s : Shared) (now : Instant) (id : String) : GetPc → Option (Shared × GetPc)
  | .mapRead =>
    match s.map id with
    | some r => some (s, .done (some r))
    | none => some (s, .dbRead)
  | .dbRead =>
    match s.db.row id with
    | some v => some (s, .mapWrite v)
    | none => some (s, .done none)
  | .mapWrite v => some (s.insert id (Peer.ofRow J now v), .done (some s.next))
  | .done _ => none

/-- The end of `get_or`, under the write lock. -/
def orInsert (s : Shared) (now : Instant) (id : String) : Shared × LockPeer :=
  match s.map id with
  | some r => (s, r)
  | none => (s.insert id (Peer.default now), s.next)

/-- The first block of `update_pk`, under the record's lock. -/
def Shared.write (s : Shared) (r : LockPeer) (p : Peer) : Shared :=
  { s with heap := Function.update s.heap r p }

/-- The database part of `update_pk`, on the values it has cloned. -/
def persist (s : Shared) (guid : Guid) (id : String) (w : Peer) : Option Shared :=
  (if w.guid = [] then s.db.insertPeer guid id w.uuid w.pk (J.toStr w.info)
    else s.db.updatePk w.guid id w.pk (J.toStr w.info)).map fun db => { s with db := db }

/-! ## All together -/

/-- Where the main loop stands. -/
inductive MainPc where
  | idle
  | get (id : String) (pc : GetPc)
  | orInsert (id : String)
  | holding (id : String) (r : LockPeer)
  | persist (id : String) (r : LockPeer) (w : Peer)
  | setGuid (id : String) (r : LockPeer) (guid : Guid)

structure Sys where
  shared : Shared
  tasks : Nat → Option (String × GetPc)
  main : MainPc

def Sys.start (db : Table) : Sys where
  shared := ⟨fun _ => Peer.default 0, 0, fun _ => none, db⟩
  tasks _ := none
  main := .idle

inductive Event where
  /-- A task is spawned that looks `id` up. -/
  | spawn (t : Nat) (id : String)
  | task (t : Nat) (now : Instant)
  /-- The main loop takes a message about `id`. -/
  | getOr (id : String)
  | main (now : Instant) (guid : Guid)
  | update (now : Instant) (addr : SocketAddr) (uuid pk : Bytes) (ip : String)
  /-- The main loop is done with the message without an update. -/
  | release

inductive Out where
  | silent
  | returned (id : String) (r : LockPeer)
  | completed (id : String) (r : LockPeer)
deriving DecidableEq, Repr

/-- What a call of `get(id)` hands its caller, once it has come to an end. -/
def GetPc.out (id : String) : GetPc → Out
  | .done (some r) => .returned id r
  | _ => .silent

/-- How the main loop goes on from its `get`. -/
def GetPc.main (id : String) : GetPc → MainPc
  | .done (some r) => .holding id r
  | .done none => .orInsert id
  | pc => .get id pc

/-- One atomic step. Database statements do not fail; where one would break an index, the
step is not enabled. -/
def handles (s : Sys) : Event → Option (Sys × Out)
  | .spawn t id =>
    match s.tasks t with
    | some _ => none
    | none => some ({ s with tasks := put s.tasks t (id, .mapRead) }, .silent)
  | .task t now =>
    match s.tasks t with
    | some (id, pc) =>
      (getStep J s.shared now id pc).map fun (sh, pc) =>
        ({ s with shared := sh, tasks := put s.tasks t (id, pc) }, pc.out id)
    | none => none
  | .getOr id =>
    match s.main with
    | .idle => some ({ s with main := .get id .mapRead }, .silent)
    | _ => none
  | .main now guid =>
    match s.main with
    | .get id pc =>
      (getStep J s.shared now id pc).map fun (sh, pc) =>
        ({ s with shared := sh, main := pc.main id }, pc.out id)
    | .orInsert id =>
      let (sh, r) := orInsert s.shared now id
      some ({ s with shared := sh, main := .holding id r }, .returned id r)
    | .persist id r w =>
      (persist J s.shared guid id w).map fun sh =>
        if w.guid = [] then ({ s with shared := sh, main := .setGuid id r guid }, .silent)
        else ({ s with shared := sh, main := .idle }, .completed id r)
    | .setGuid id r guid =>
      let sh := s.shared.write r { s.shared.heap r with guid := guid.val }
      some ({ s with shared := sh, main := .idle }, .completed id r)
    | _ => none
  | .update now addr uuid pk ip =>
    match s.main with
    | .holding id r =>
      let w := (s.shared.heap r).setPk now addr uuid pk ip
      some ({ s with shared := s.shared.write r w, main := .persist id r w }, .silent)
    | _ => none
  | .release =>
    match s.main with
    | .holding _ _ => some ({ s with main := .idle }, .silent)
    | _ => none

variable {J}

/-! ## What one step can do -/

/-- The five steps of `get`. -/
inductive GetStep (J : InfoJson) (s : Shared) (now : Instant) (id : String) :
    GetPc → Shared → GetPc → Prop where
  | hit {r : LockPeer} : s.map id = some r → GetStep J s now id .mapRead s (.done (some r))
  | miss : s.map id = none → GetStep J s now id .mapRead s .dbRead
  | row {v : Row} : s.db.row id = some v → GetStep J s now id .dbRead s (.mapWrite v)
  | absent : s.db.row id = none → GetStep J s now id .dbRead s (.done none)
  | insert {v : Row} : GetStep J s now id (.mapWrite v) (s.insert id (Peer.ofRow J now v))
      (.done (some s.next))

theorem getStep_cases {s s' : Shared} {now : Instant} {id : String} {pc pc' : GetPc}
    (h : getStep J s now id pc = some (s', pc')) : GetStep J s now id pc s' pc' := by
  cases pc with
  | mapRead =>
      simp only [getStep] at h
      split at h <;> obtain ⟨rfl, rfl⟩ := Prod.mk.inj (Option.some.inj h)
      · exact .hit ‹_›
      · exact .miss ‹_›
  | dbRead =>
      simp only [getStep] at h
      split at h <;> obtain ⟨rfl, rfl⟩ := Prod.mk.inj (Option.some.inj h)
      · exact .row ‹_›
      · exact .absent ‹_›
  | mapWrite v =>
      obtain ⟨rfl, rfl⟩ := Prod.mk.inj (Option.some.inj h)
      exact .insert
  | done r => cases h

/-- The record the main loop has in hand, and its id. -/
def MainPc.holds : MainPc → Option (String × LockPeer)
  | .holding id r | .persist id r _ | .setGuid id r _ => some (id, r)
  | _ => none

/-- The step writes the map under `id`. -/
def Inserts (s : Sys) (id : String) : Event → Prop
  | .task t _ => ∃ v, s.tasks t = some (id, .mapWrite v)
  | .main _ _ =>
    (∃ v, s.main = .get id (.mapWrite v)) ∨ (s.main = .orInsert id ∧ s.shared.map id = none)
  | _ => False

/-- The step is the part of `update_pk` that writes the record `r`. -/
def Writes (s : Sys) (r : LockPeer) : Event → Prop
  | .update .. => ∃ id, s.main = .holding id r
  | .main _ _ => ∃ id g, s.main = .setGuid id r g
  | _ => False

/-- A step either leaves the map alone and returns only what is there, or puts a new record
under an id and returns that. -/
inductive MapStep (s : Sys) (e : Event) (s' : Sys) (o : Out) : Prop where
  | kept : s'.shared.map = s.shared.map → s'.shared.next = s.shared.next →
      (∀ id r, o = .returned id r → s.shared.map id = some r) → MapStep s e s' o
  | inserted {id : String} : Inserts s id e →
      s'.shared.map = put s.shared.map id s.shared.next → s'.shared.next = s.shared.next + 1 →
      o = .returned id s.shared.next → MapStep s e s' o

structure Effect (s : Sys) (e : Event) (s' : Sys) (o : Out) : Prop where
  map : MapStep s e s' o
  /-- The main loop works on what it was given. -/
  holds : ∀ id r, s'.main.holds = some (id, r) → s.main.holds = some (id, r) ∨ o = .returned id r
  completed : ∀ id r, o = .completed id r → s.main.holds = some (id, r)
  /-- Only `update_pk` writes a record that is there. -/
  heap : ∀ r < s.shared.next, ¬ Writes s r e → s'.shared.heap r = s.shared.heap r

theorem insert_heap {s : Shared} {id : String} {p : Peer} {r : LockPeer} (h : r < s.next) :
    (s.insert id p).heap r = s.heap r :=
  Function.update_of_ne (Nat.ne_of_lt h) ..

section Effects

variable {s s' : Sys} {e : Event} {id : String} {r : LockPeer}

/-- A step that gives nothing back and leaves the map alone. -/
theorem Effect.silent (hmap : s'.shared.map = s.shared.map) (hnext : s'.shared.next = s.shared.next)
    (hheap : ∀ r < s.shared.next, ¬ Writes s r e → s'.shared.heap r = s.shared.heap r)
    (hholds : s'.main.holds = none ∨ s'.main.holds = s.main.holds) : Effect s e s' .silent where
  map := .kept hmap hnext fun _ _ ho => by cases ho
  holds id r hr := by
    rcases hholds with hnone | hsame
    · rw [hnone] at hr; cases hr
    · exact .inl (hsame ▸ hr)
  completed id r ho := by cases ho
  heap := hheap

/-- A step that finds a record in the map. -/
theorem Effect.found (hr : s.shared.map id = some r) (hshared : s'.shared = s.shared)
    (hholds : s'.main.holds = some (id, r) ∨ s'.main.holds = s.main.holds) :
    Effect s e s' (.returned id r) where
  map := by
    refine .kept (by rw [hshared]) (by rw [hshared]) ?_
    intro id' r' ho
    obtain ⟨rfl, rfl⟩ := Out.returned.inj ho
    exact hr
  holds id' r' hr' := by
    rcases hholds with hnew | hsame
    · rw [hnew] at hr'
      obtain ⟨rfl, rfl⟩ := Prod.mk.inj (Option.some.inj hr')
      exact .inr rfl
    · exact .inl (hsame ▸ hr')
  completed id' r' ho := by cases ho
  heap r' _ _ := by rw [hshared]

/-- A step that puts a new record into the map. -/
theorem Effect.inserted {p : Peer} (hins : Inserts s id e)
    (hshared : s'.shared = s.shared.insert id p)
    (hholds : s'.main.holds = some (id, s.shared.next) ∨ s'.main.holds = s.main.holds) :
    Effect s e s' (.returned id s.shared.next) where
  map := .inserted hins (by rw [hshared]; rfl) (by rw [hshared]; rfl) rfl
  holds id' r' hr' := by
    rcases hholds with hnew | hsame
    · rw [hnew] at hr'
      obtain ⟨rfl, rfl⟩ := Prod.mk.inj (Option.some.inj hr')
      exact .inr rfl
    · exact .inl (hsame ▸ hr')
  completed id' r' ho := by cases ho
  heap r' hr' _ := by rw [hshared]; exact insert_heap hr'

/-- The main loop is done with a record it had in hand. -/
theorem Effect.done (hr : s.main.holds = some (id, r)) (hmap : s'.shared.map = s.shared.map)
    (hnext : s'.shared.next = s.shared.next)
    (hheap : ∀ r < s.shared.next, ¬ Writes s r e → s'.shared.heap r = s.shared.heap r)
    (hholds : s'.main.holds = none) : Effect s e s' (.completed id r) where
  map := .kept hmap hnext fun _ _ ho => by cases ho
  holds id' r' hr' := by rw [hholds] at hr'; cases hr'
  completed id' r' ho := by
    obtain ⟨rfl, rfl⟩ := Out.completed.inj ho
    exact hr
  heap := hheap

end Effects

theorem handles_effect {s s' : Sys} {e : Event} {o : Out}
    (h : handles J s e = some (s', o)) : Effect s e s' o := by
  cases e with
  | spawn t id =>
      simp only [handles] at h
      split at h
      · cases h
      · obtain ⟨rfl, rfl⟩ := Prod.mk.inj (Option.some.inj h)
        exact .silent rfl rfl (fun _ _ _ => rfl) (.inr rfl)
  | task t now =>
      simp only [handles] at h
      split at h
      · rename_i id pc htask
        obtain ⟨⟨sh, pc'⟩, hget, heq⟩ := Option.map_eq_some_iff.mp h
        obtain ⟨rfl, rfl⟩ := Prod.mk.inj heq
        cases getStep_cases hget with
        | hit hr => exact .found hr rfl (.inr rfl)
        | miss | row | absent => exact .silent rfl rfl (fun _ _ _ => rfl) (.inr rfl)
        | insert => exact .inserted ⟨_, htask⟩ rfl (.inr rfl)
      · cases h
  | getOr id =>
      simp only [handles] at h
      split at h
      · obtain ⟨rfl, rfl⟩ := Prod.mk.inj (Option.some.inj h)
        exact .silent rfl rfl (fun _ _ _ => rfl) (.inl rfl)
      · cases h
  | update now addr uuid pk ip =>
      simp only [handles] at h
      split at h
      · rename_i id r hmain
        obtain ⟨rfl, rfl⟩ := Prod.mk.inj (Option.some.inj h)
        refine .silent rfl rfl ?_ (.inr (by rw [hmain]; rfl))
        intro r' _ hw
        have hne : r' ≠ r := fun hr => hw ⟨id, hr ▸ hmain⟩
        exact Function.update_of_ne hne ..
      · cases h
  | release =>
      simp only [handles] at h
      split at h
      · obtain ⟨rfl, rfl⟩ := Prod.mk.inj (Option.some.inj h)
        exact .silent rfl rfl (fun _ _ _ => rfl) (.inl rfl)
      · cases h
  | main now guid =>
      simp only [handles] at h
      split at h
      · rename_i id pc hmain
        obtain ⟨⟨sh, pc'⟩, hget, heq⟩ := Option.map_eq_some_iff.mp h
        obtain ⟨rfl, rfl⟩ := Prod.mk.inj heq
        cases getStep_cases hget with
        | hit hr => exact .found hr rfl (.inl rfl)
        | miss | row | absent => exact .silent rfl rfl (fun _ _ _ => rfl) (.inl rfl)
        | insert => exact .inserted (.inl ⟨_, hmain⟩) rfl (.inl rfl)
      · rename_i id hmain
        obtain ⟨rfl, rfl⟩ := Prod.mk.inj (Option.some.inj h)
        unfold orInsert
        split
        · exact .found ‹_› rfl (.inl rfl)
        · exact .inserted (.inr ⟨hmain, ‹_›⟩) rfl (.inl rfl)
      · rename_i id r w hmain
        obtain ⟨sh, hper, heq⟩ := Option.map_eq_some_iff.mp h
        obtain ⟨db, _, rfl⟩ := Option.map_eq_some_iff.mp hper
        split at heq <;> obtain ⟨rfl, rfl⟩ := Prod.mk.inj heq
        · exact .silent rfl rfl (fun _ _ _ => rfl) (.inr (by rw [hmain]; rfl))
        · exact .done (by rw [hmain]; rfl) rfl rfl (fun _ _ _ => rfl) rfl
      · rename_i id r g hmain
        obtain ⟨rfl, rfl⟩ := Prod.mk.inj (Option.some.inj h)
        refine .done (by rw [hmain]; rfl) rfl rfl ?_ rfl
        intro r' _ hw
        have hne : r' ≠ r := fun hr => hw ⟨id, g, hr ▸ hmain⟩
        exact Function.update_of_ne hne ..
      · cases h

theorem MapStep.next_le {s s' : Sys} {e : Event} {o : Out} (h : MapStep s e s' o) :
    s.shared.next ≤ s'.shared.next := by
  cases h with
  | kept _ hnext => exact Nat.le_of_eq hnext.symm
  | inserted _ _ hnext => rw [hnext]; exact Nat.le_succ _

/-- Whoever writes the map hands out the record just made. -/
theorem inserts_out {s s' : Sys} {e : Event} {o : Out} {id : String}
    (h : handles J s e = some (s', o)) (hins : Inserts s id e) :
    o = .returned id s.shared.next := by
  cases e with
  | task t now =>
      obtain ⟨v, htask⟩ := hins
      simp only [handles, htask, getStep, Option.map_some] at h
      exact (Prod.mk.inj (Option.some.inj h)).2.symm
  | main now guid =>
      rcases hins with ⟨v, hmain⟩ | ⟨hmain, hnone⟩
      · simp only [handles, hmain, getStep, Option.map_some] at h
        exact (Prod.mk.inj (Option.some.inj h)).2.symm
      · simp only [handles, hmain, orInsert, hnone] at h
        exact (Prod.mk.inj (Option.some.inj h)).2.symm
  | spawn => cases hins
  | getOr => cases hins
  | update => cases hins
  | release => cases hins

/-! ## Run alone, they are the functions of the peer map -/

/-- The peer map as one sees it through the handles. -/
def Shared.pm (s : Shared) : PeerMap := ⟨fun id => (s.map id).map s.heap, s.db⟩

/-- Records in the map exist, and no two ids share one. -/
structure Tidy (s : Shared) : Prop where
  lt : ∀ id r, s.map id = some r → r < s.next
  inj : ∀ id id' r, s.map id = some r → s.map id' = some r → id = id'

/-- A call of `get(id)` that nobody interrupts, from `pc` to its end. -/
inductive GetAlone (J : InfoJson) (now : Instant) (id : String) :
    Shared → GetPc → Shared → Option LockPeer → Prop where
  | done {s : Shared} {r : Option LockPeer} : GetAlone J now id s (.done r) s r
  | step {s s' s'' : Shared} {pc pc' : GetPc} {r : Option LockPeer} :
      getStep J s now id pc = some (s', pc') → GetAlone J now id s' pc' s'' r →
      GetAlone J now id s pc s'' r

theorem pm_insert {s : Shared} (hs : Tidy s) (id : String) (p : Peer) :
    (s.insert id p).pm = { s.pm with map := put s.pm.map id p } := by
  unfold Shared.pm Shared.insert
  simp only [PeerMap.mk.injEq, and_true]
  funext id'
  by_cases hid : id' = id
  · subst hid; simp
  · rw [put_ne hid, put_ne hid]
    cases hm : s.map id' with
    | none => rfl
    | some r =>
        have hne : r ≠ s.next := Nat.ne_of_lt (hs.lt id' r hm)
        exact congrArg some (Function.update_of_ne hne ..)

/-- **Alone, `get` is `PeerMap.get`.** -/
theorem get_alone {s : Shared} (hs : Tidy s) (io : DbIo) (hio : io.readOk = true) (id : String) :
    ∃ s' r, GetAlone J io.now id s .mapRead s' r ∧ s'.pm = (s.pm.get J io id).1
      ∧ r.map s'.heap = (s.pm.get J io id).2 := by
  cases hm : s.map id with
  | some r =>
      have hp : s.pm.map id = some (s.heap r) := congrArg (Option.map s.heap) hm
      refine ⟨s, some r, .step (by rw [getStep, hm]) .done, ?_⟩
      rw [PeerMap.get_of_memory hp]
      exact ⟨rfl, rfl⟩
  | none =>
      have hp : s.pm.map id = none := congrArg (Option.map s.heap) hm
      cases hv : s.db.row id with
      | none =>
          refine ⟨s, none, .step (by rw [getStep, hm]) (.step (by rw [getStep, hv]) .done), ?_⟩
          rw [PeerMap.get_of_none hp fun _ => hv]
          exact ⟨rfl, rfl⟩
      | some v =>
          refine ⟨_, _, .step (by rw [getStep, hm]) (.step (by rw [getStep, hv])
            (.step rfl .done)), ?_⟩
          rw [PeerMap.get_of_row hp hio hv]
          exact ⟨pm_insert hs id _, congrArg some (Function.update_self ..)⟩

theorem pm_write {s : Shared} (hs : Tidy s) {id : String} {r : LockPeer} (hr : s.map id = some r)
    (p : Peer) : (s.write r p).pm = { s.pm with map := put s.pm.map id p } := by
  unfold Shared.pm Shared.write
  simp only [PeerMap.mk.injEq, and_true]
  funext id'
  by_cases hid : id' = id
  · subst hid; simp [hr]
  · rw [put_ne hid]
    cases hm : s.map id' with
    | none => rfl
    | some r' =>
        have hne : r' ≠ r := by intro heq; subst heq; exact hid (hs.inj id' id _ hm hr)
        exact congrArg some (Function.update_of_ne hne ..)

/-- **Alone, `update_pk` is `PeerMap.updatePk`**, as long as the database does not fail. -/
theorem update_alone {s s₁ : Shared} (hs : Tidy s) {io : DbIo} (hio : io.writeOk = true)
    {id : String} {r : LockPeer} (hr : s.map id = some r) (addr : SocketAddr) (uuid pk : Bytes)
    (ip : String)
    (hp : persist J (s.write r ((s.heap r).setPk io.now addr uuid pk ip)) io.guid id
      ((s.heap r).setPk io.now addr uuid pk ip) = some s₁) :
    ((if (s.heap r).guid = [] then s₁.write r { s₁.heap r with guid := io.guid.val } else s₁).pm,
      RkResult.OK) = s.pm.updatePk J io id (s.heap r) addr uuid pk ip := by
  have hguid : ((s.heap r).setPk io.now addr uuid pk ip).guid = (s.heap r).guid := rfl
  have huuid : ((s.heap r).setPk io.now addr uuid pk ip).uuid = uuid := rfl
  have hpk : ((s.heap r).setPk io.now addr uuid pk ip).pk = pk := rfl
  rw [PeerMap.updatePk]
  generalize (s.heap r).setPk io.now addr uuid pk ip = w at hp hguid huuid hpk ⊢
  dsimp only
  obtain ⟨db, hdb, rfl⟩ := Option.map_eq_some_iff.mp hp
  rw [huuid, hpk] at hdb
  -- the statements run on the table as it was, under a map with the record written
  have hpm : ∀ p : Peer, Shared.pm { (s.write r p) with db := db }
      = ⟨put s.pm.map id p, db⟩ := by
    intro p
    have hw := congrArg PeerMap.map (pm_write hs hr p)
    exact congrArg (fun m => PeerMap.mk m db) hw
  rw [← hguid]
  split
  · rename_i hg
    rw [if_pos hg] at hdb
    have hins : io.write (s.pm.db.insertPeer io.guid id uuid pk (J.toStr w.info)) = some db :=
      DbIo.write_eq_some.mpr ⟨hio, hdb⟩
    rw [hins]
    simp only [Shared.write, Function.update_self, Function.update_idem, put_put]
    exact congrArg (·, RkResult.OK) (hpm _)
  · rename_i hg
    rw [if_neg hg] at hdb
    have hupd : io.write (s.pm.db.updatePk w.guid id pk (J.toStr w.info)) = some db :=
      DbIo.write_eq_some.mpr ⟨hio, hdb⟩
    rw [hupd]
    exact congrArg (·, RkResult.OK) (hpm _)

end KinBridge.Handles
