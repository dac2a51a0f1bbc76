import KinBridge.Lib.Slots
import KinBridge.Net.Clock
import KinBridge.Net.Proto
import KinBridge.Store.Database

/-!
# The peer map

`peer.rs`: the in-memory records, and the table behind them. A record is loaded from
its row the first time somebody asks for its id (`get`), `get_or` makes up a blank one
when there is nothing to load, and `update_pk` writes memory first and the table
second.

The functions here run one at a time; `KinBridge.Store.Handles` takes them apart at
every lock. What the code does not decide (the clock, whether a statement fails, the
guid that `new_v4` draws) is in `DbIo`.
-/

namespace KinBridge

open Slots

structure PeerInfo where
  ip : String
deriving DecidableEq, Repr

/-- One peer's record. `regPk` is the per-peer limiter: how many, and since when. -/
structure Peer where
  socketAddr : SocketAddr
  lastRegTime : Instant
  guid : Bytes
  uuid : Bytes
  pk : Bytes
  info : PeerInfo
  regPk : Nat × Instant
deriving DecidableEq, Repr

/-- `Peer::default()` at `now`. -/
def Peer.default (now : Instant) : Peer where
  socketAddr := .unspecified
  lastRegTime := getExpiredTime now
  guid := []
  uuid := []
  pk := []
  info := ⟨""⟩
  regPk := (0, getExpiredTime now)

/-- `serde_json` on a `PeerInfo`: `to_string(..).unwrap_or_default()` and `from_str`. -/
structure InfoJson where
  toStr : PeerInfo → String
  fromStr : String → Option PeerInfo

/-- `serde_json::from_str::<PeerInfo>(&v.info).unwrap_or_default()`. -/
def InfoJson.info (J : InfoJson) (s : String) : PeerInfo := (J.fromStr s).getD ⟨""⟩

/-- What one handler call meets from outside: the time, whether `get_peer` and the write
statement go through, and the guid that `Uuid::new_v4` draws. -/
structure DbIo where
  now : Instant
  readOk : Bool
  writeOk : Bool
  guid : Guid

/-- A statement that may fail for reasons of its own. -/
def DbIo.write {α : Type} (io : DbIo) (r : Option α) : Option α := if io.writeOk then r else none

structure PeerMap where
  map : String → Option Peer
  db : Table

variable (J : InfoJson)

/-- The record built from a row: no address, no registration in this process. -/
def Peer.ofRow (now : Instant) (v : Row) : Peer :=
  { Peer.default now with guid := v.guid, uuid := v.uuid, pk := v.pk, info := J.info v.info }

/-- The record as `update_pk` leaves it in memory. -/
def Peer.setPk (p : Peer) (now : Instant) (addr : SocketAddr) (uuid pk : Bytes)
    (ip : String) : Peer :=
  { p with socketAddr := addr, uuid := uuid, pk := pk, lastRegTime := now, info := ⟨ip⟩ }

namespace PeerMap

def get (pm : PeerMap) (io : DbIo) (id : String) : PeerMap × Option Peer :=
  match pm.map id with
  | some p => (pm, some p)
  | none =>
    match io.readOk, pm.db.row id with
    | true, some v =>
      let peer := Peer.ofRow J io.now v
      ({ pm with map := put pm.map id peer }, some peer)
    | _, _ => (pm, none)

def getOr (pm : PeerMap) (io : DbIo) (id : String) : PeerMap × Peer :=
  match pm.get J io id with
  | (pm, some p) => (pm, p)
  | (pm, none) =>
    match pm.map id with
    | some p => (pm, p)
    | none => ({ pm with map := put pm.map id (Peer.default io.now) }, Peer.default io.now)

def updatePk (pm : PeerMap) (io : DbIo) (id : String) (peer : Peer) (addr : SocketAddr)
    (uuid pk : Bytes) (ip : String) : PeerMap × RkResult :=
  let w := peer.setPk io.now addr uuid pk ip
  let pm := { pm with map := put pm.map id w }
  if w.guid = [] then
    match io.write (pm.db.insertPeer io.guid id uuid pk (J.toStr w.info)) with
    | none => (pm, .SERVER_ERROR)
    | some db => (⟨put pm.map id { w with guid := io.guid.val }, db⟩, .OK)
  else
    match io.write (pm.db.updatePk w.guid id pk (J.toStr w.info)) with
    | none => (pm, .SERVER_ERROR)
    | some db => ({ pm with db := db }, .OK)

/-! ## What a lookup yields -/

variable {J} {pm : PeerMap} {io : DbIo} {id : String}

/-- Where the record that `get_or` hands out comes from. -/
inductive Origin (J : InfoJson) (pm : PeerMap) (io : DbIo) (id : String) : Peer → Prop where
  | memory {p : Peer} : pm.map id = some p → Origin J pm io id p
  | row {v : Row} : pm.map id = none → io.readOk = true → pm.db.row id = some v →
      Origin J pm io id (Peer.ofRow J io.now v)
  | blank : pm.map id = none → (io.readOk = true → pm.db.row id = none) →
      Origin J pm io id (Peer.default io.now)

theorem get_of_memory {p : Peer} (h : pm.map id = some p) : pm.get J io id = (pm, some p) := by
  rw [get, h]

theorem get_of_row {v : Row} (h : pm.map id = none) (hr : io.readOk = true)
    (hv : pm.db.row id = some v) :
    pm.get J io id = ({ pm with map := put pm.map id (Peer.ofRow J io.now v) },
      some (Peer.ofRow J io.now v)) := by
  rw [get, h, hr, hv]

theorem get_of_none (h : pm.map id = none) (hr : io.readOk = true → pm.db.row id = none) :
    pm.get J io id = (pm, none) := by
  rw [get, h]
  cases hb : io.readOk with
  | false => rfl
  | true => rw [hr hb]

/-- Every lookup is one of three: a hit, a load, or nothing (a failed read included). -/
theorem get_cases (pm : PeerMap) (io : DbIo) (id : String) :
    (∃ p, pm.map id = some p) ∨
    (pm.map id = none ∧ io.readOk = true ∧ ∃ v, pm.db.row id = some v) ∨
    (pm.map id = none ∧ (io.readOk = true → pm.db.row id = none)) := by
  cases hm : pm.map id with
  | some p => exact .inl ⟨p, rfl⟩
  | none =>
      cases hb : io.readOk with
      | false => exact .inr (.inr ⟨rfl, fun h => by cases h⟩)
      | true =>
          cases hv : pm.db.row id with
          | none => exact .inr (.inr ⟨rfl, fun _ => rfl⟩)
          | some v => exact .inr (.inl ⟨rfl, rfl, v, rfl⟩)

/-- `get` hands out only what then sits in the map, and touches nothing else. -/
theorem get_some {p : Peer} (h : (pm.get J io id).2 = some p) :
    (pm.get J io id).1 = { pm with map := put pm.map id p } ∧
      (pm.map id = some p ∨ ∃ v, pm.map id = none ∧ io.readOk = true ∧ pm.db.row id = some v
        ∧ p = Peer.ofRow J io.now v) := by
  rcases get_cases pm io id with ⟨q, hq⟩ | ⟨hm, hr, v, hv⟩ | ⟨hm, hr⟩
  · rw [get_of_memory hq] at h ⊢
    obtain rfl := Option.some.inj h
    exact ⟨by rw [put_of_some hq], .inl hq⟩
  · rw [get_of_row hm hr hv] at h ⊢
    obtain rfl := Option.some.inj h
    exact ⟨rfl, .inr ⟨v, hm, hr, hv, rfl⟩⟩
  · rw [get_of_none hm hr] at h; cases h

theorem get_none (h : (pm.get J io id).2 = none) :
    (pm.get J io id).1 = pm ∧ pm.map id = none ∧ (io.readOk = true → pm.db.row id = none) := by
  rcases get_cases pm io id with ⟨q, hq⟩ | ⟨hm, hr, v, hv⟩ | ⟨hm, hr⟩
  · rw [get_of_memory hq] at h; cases h
  · rw [get_of_row hm hr hv] at h; cases h
  · rw [get_of_none hm hr]; exact ⟨rfl, hm, hr⟩

theorem getOr_origin (J : InfoJson) (pm : PeerMap) (io : DbIo) (id : String) :
    Origin J pm io id (pm.getOr J io id).2 := by
  rcases get_cases pm io id with ⟨q, hq⟩ | ⟨hm, hr, v, hv⟩ | ⟨hm, hr⟩
  · rw [getOr, get_of_memory hq]; exact .memory hq
  · rw [getOr, get_of_row hm hr hv]; exact .row hm hr hv
  · rw [getOr, get_of_none hm hr]
    dsimp only
    rw [hm]
    exact .blank hm hr

/-- `get_or` puts the record it hands out under the id and touches nothing else. -/
theorem getOr_fst (J : InfoJson) (pm : PeerMap) (io : DbIo) (id : String) :
    (pm.getOr J io id).1 = { pm with map := put pm.map id (pm.getOr J io id).2 } := by
  rcases get_cases pm io id with ⟨q, hq⟩ | ⟨hm, hr, v, hv⟩ | ⟨hm, hr⟩
  · rw [getOr, get_of_memory hq]; dsimp only; rw [put_of_some hq]
  · rw [getOr, get_of_row hm hr hv]
  · rw [getOr, get_of_none hm hr]
    dsimp only
    rw [hm]

/-! ## What `update_pk` does -/

/-- `update_pk` overwrites the record it is given, whatever sat there. -/
theorem updatePk_put (J : InfoJson) (pm : PeerMap) (io : DbIo) (id : String) (q peer : Peer)
    (addr : SocketAddr) (uuid pk : Bytes) (ip : String) :
    PeerMap.updatePk J { pm with map := put pm.map id q } io id peer addr uuid pk ip
      = pm.updatePk J io id peer addr uuid pk ip := by
  simp only [updatePk, put_put]

/-- The three ends of `update_pk`: the write fails and only memory has changed, a row is
inserted and its guid remembered, or the row under the record's guid is updated. -/
inductive UpdatePk (J : InfoJson) (pm : PeerMap) (io : DbIo) (id : String) (w : Peer) :
    PeerMap × RkResult → Prop where
  | failed (hins : w.guid = [] →
        io.write (pm.db.insertPeer io.guid id w.uuid w.pk (J.toStr w.info)) = none)
      (hupd : w.guid ≠ [] → io.write (pm.db.updatePk w.guid id w.pk (J.toStr w.info)) = none) :
      UpdatePk J pm io id w (⟨put pm.map id w, pm.db⟩, .SERVER_ERROR)
  | inserted {db : Table} : w.guid = [] →
      io.write (pm.db.insertPeer io.guid id w.uuid w.pk (J.toStr w.info)) = some db →
      UpdatePk J pm io id w (⟨put pm.map id { w with guid := io.guid.val }, db⟩, .OK)
  | updated {db : Table} : w.guid ≠ [] →
      io.write (pm.db.updatePk w.guid id w.pk (J.toStr w.info)) = some db →
      UpdatePk J pm io id w (⟨put pm.map id w, db⟩, .OK)

theorem updatePk_cases (J : InfoJson) (pm : PeerMap) (io : DbIo) (id : String) (peer : Peer)
    (addr : SocketAddr) (uuid pk : Bytes) (ip : String) :
    UpdatePk J pm io id (peer.setPk io.now addr uuid pk ip)
      (pm.updatePk J io id peer addr uuid pk ip) := by
  have huuid : (peer.setPk io.now addr uuid pk ip).uuid = uuid := rfl
  have hpk : (peer.setPk io.now addr uuid pk ip).pk = pk := rfl
  rw [updatePk]
  generalize peer.setPk io.now addr uuid pk ip = w at huuid hpk ⊢
  subst huuid hpk
  dsimp only
  by_cases hg : w.guid = []
  · rw [if_pos hg]
    cases hw : io.write (pm.db.insertPeer io.guid id w.uuid w.pk (J.toStr w.info)) with
    | none => exact .failed (fun _ => hw) fun h => absurd hg h
    | some db =>
        dsimp only
        rw [put_put]
        exact .inserted hg hw
  · rw [if_neg hg]
    cases hw : io.write (pm.db.updatePk w.guid id w.pk (J.toStr w.info)) with
    | none => exact .failed (fun h => absurd h hg) fun _ => hw
    | some db => exact .updated hg hw

end PeerMap

/-- A write that went through did so because the statement did. -/
theorem DbIo.write_eq_some {α : Type} {io : DbIo} {r : Option α} {x : α} :
    io.write r = some x ↔ io.writeOk = true ∧ r = some x := by
  unfold DbIo.write; split <;> simp_all

theorem DbIo.write_eq_none {α : Type} {io : DbIo} {r : Option α} :
    io.write r = none ↔ (io.writeOk = true → r = none) := by
  unfold DbIo.write; split <;> simp_all

end KinBridge
