import KinBridge.Lib.Rows
import KinBridge.Net.Addr

/-!
# The peer table

`database.rs`: one table, primary key `guid`, unique index on `id`. Both indices are
fields of `Table`, so a table that breaks one cannot be built and a write that would
break one has nothing to return. Rows are never deleted, and `update_pk` does not
write the `uuid` column: once a row is there, its `uuid` stays.
-/

namespace KinBridge

open Rows

/-- The columns that `hbbs` reads back; `created_at`, `user`, `status` and `note` have
no effect on it. -/
structure Row where
  guid : Bytes
  id : String
  uuid : Bytes
  pk : Bytes
  info : String
deriving DecidableEq, Repr

structure Table where
  rows : List Row
  /-- `guid blob primary key`. -/
  guids : Unique Row.guid rows
  /-- `create unique index index_peer_id on peer (id)`. -/
  ids : Unique Row.id rows

def Table.empty : Table := ⟨[], Unique.nil, Unique.nil⟩

/-- `select … from peer where id = ?`. -/
def Table.row (t : Table) (id : String) : Option Row := seek Row.id t.rows id

/-- A drawn `Uuid::new_v4().as_bytes()`. -/
abbrev Guid := { g : Bytes // g.length = 16 }

/-- `insert into peer(guid, id, uuid, pk, info)`, unless a unique index forbids it. -/
def Table.insertPeer (t : Table) (guid : Guid) (id : String) (uuid pk : Bytes) (info : String) :
    Option Table :=
  if h : (∀ r ∈ t.rows, r.guid ≠ guid.val) ∧ ∀ r ∈ t.rows, r.id ≠ id then
    some ⟨⟨guid.val, id, uuid, pk, info⟩ :: t.rows, t.guids.cons h.1, t.ids.cons h.2⟩
  else none

/-- What `update peer set id=?, pk=?, info=? where guid=?` does to one row. -/
def Row.setPk (guid : Bytes) (id : String) (pk : Bytes) (info : String) (r : Row) : Row :=
  if r.guid = guid then { r with id := id, pk := pk, info := info } else r

@[simp] theorem Row.setPk_guid {guid pk : Bytes} {id info : String} (r : Row) :
    (r.setPk guid id pk info).guid = r.guid := by
  unfold Row.setPk; split <;> rfl

@[simp] theorem Row.setPk_uuid {guid pk : Bytes} {id info : String} (r : Row) :
    (r.setPk guid id pk info).uuid = r.uuid := by
  unfold Row.setPk; split <;> rfl

/-- The `update` breaks the index on `id` if it hits a row while another row has that id. -/
def Table.UpdateClash (t : Table) (guid : Bytes) (id : String) : Prop :=
  (∃ r ∈ t.rows, r.guid = guid) ∧ ∃ r ∈ t.rows, r.id = id ∧ r.guid ≠ guid

instance (t : Table) (guid : Bytes) (id : String) : Decidable (t.UpdateClash guid id) :=
  inferInstanceAs (Decidable (_ ∧ _))

theorem Table.ids_setPk {t : Table} {guid pk : Bytes} {id info : String}
    (h : ¬ t.UpdateClash guid id) : Unique Row.id (t.rows.map (Row.setPk guid id pk info)) := by
  -- a row that is hit can only meet another row on `id`, and that other row would clash
  have hclash : ∀ x ∈ t.rows, ∀ y ∈ t.rows, x.guid = guid → y.guid ≠ guid → id ≠ y.id :=
    fun x hx y hy hxg hyg heq => h ⟨⟨x, hx, hxg⟩, y, hy, heq.symm, hyg⟩
  refine t.ids.map ?_
  intro x hx y hy heq
  unfold Row.setPk at heq
  split at heq <;> split at heq
  · rename_i hxg hyg; rw [t.guids.eq hx hy (hxg.trans hyg.symm)]
  · rename_i hxg hyg; exact absurd heq (hclash x hx y hy hxg hyg)
  · rename_i hxg hyg; exact absurd heq.symm (hclash y hy x hx hyg hxg)
  · exact heq

/-- `update peer set id=?, pk=?, info=? where guid=?`, unless the index on `id` forbids it.
No row may match, which is no error. -/
def Table.updatePk (t : Table) (guid : Bytes) (id : String) (pk : Bytes) (info : String) :
    Option Table :=
  if h : t.UpdateClash guid id then none
  else
    some ⟨t.rows.map (Row.setPk guid id pk info),
      t.guids.map fun x _ y _ heq => by simpa using heq, Table.ids_setPk h⟩

/-! ## What the statements do to a lookup -/

theorem Table.row_eq_some {t : Table} {id : String} {r : Row} :
    t.row id = some r ↔ r ∈ t.rows ∧ r.id = id := t.ids.seek_eq_some

theorem Table.row_eq_none {t : Table} {id : String} :
    t.row id = none ↔ ∀ r ∈ t.rows, r.id ≠ id := seek_eq_none

/-- An insert succeeds exactly if neither the id nor the drawn guid is taken. -/
theorem Table.insertPeer_isSome {t : Table} {guid : Guid} {id info : String} {uuid pk : Bytes} :
    (t.insertPeer guid id uuid pk info).isSome ↔
      t.row id = none ∧ ∀ r ∈ t.rows, r.guid ≠ guid.val := by
  rw [Table.row_eq_none, and_comm]
  unfold Table.insertPeer
  split
  · rename_i h; exact iff_of_true rfl h
  · rename_i h; exact iff_of_false (by simp) h

theorem Table.row_insertPeer {t t' : Table} {guid : Guid} {id info : String} {uuid pk : Bytes}
    (h : t.insertPeer guid id uuid pk info = some t') :
    t'.row id = some ⟨guid.val, id, uuid, pk, info⟩ ∧ ∀ id' ≠ id, t'.row id' = t.row id' := by
  unfold Table.insertPeer at h
  split at h
  · obtain rfl := Option.some.inj h
    refine ⟨Table.row_eq_some.mpr ⟨List.mem_cons_self, rfl⟩, ?_⟩
    intro id' hne
    exact seek_cons_ne hne.symm
  · cases h

theorem Table.rows_updatePk {t t' : Table} {guid pk : Bytes} {id info : String}
    (h : t.updatePk guid id pk info = some t') :
    t'.rows = t.rows.map (Row.setPk guid id pk info) := by
  unfold Table.updatePk at h
  split at h
  · cases h
  · obtain rfl := Option.some.inj h; rfl

/-- Updating the row of `id` under its own guid cannot clash. -/
theorem Table.updatePk_isSome {t : Table} {r : Row} {id info : String} {pk : Bytes}
    (hr : t.row id = some r) : (t.updatePk r.guid id pk info).isSome := by
  obtain ⟨hmem, hid⟩ := Table.row_eq_some.mp hr
  unfold Table.updatePk
  split
  · rename_i hc
    obtain ⟨_, y, hy, hyid, hyg⟩ := hc
    exact absurd (congrArg Row.guid (t.ids.eq hy hmem (hyid.trans hid.symm))) hyg
  · rfl

theorem Table.row_updatePk {t t' : Table} {r : Row} {id info : String} {pk : Bytes}
    (hr : t.row id = some r) (h : t.updatePk r.guid id pk info = some t') :
    t'.row id = some { r with pk := pk, info := info }
      ∧ ∀ id' ≠ id, t'.row id' = t.row id' := by
  obtain ⟨hmem, hid⟩ := Table.row_eq_some.mp hr
  have hrows := Table.rows_updatePk h
  have hself : r.setPk r.guid id pk info = { r with pk := pk, info := info } := by
    rw [Row.setPk, if_pos rfl, hid]
  -- every other row keeps its guid, so it is left alone
  have hother : ∀ x ∈ t.rows, x.id ≠ id → x.setPk r.guid id pk info = x := by
    intro x hx hne
    refine if_neg fun hg => hne ?_
    rw [t.guids.eq hx hmem hg, hid]
  refine ⟨Table.row_eq_some.mpr ⟨?_, hid⟩, ?_⟩
  · rw [hrows, ← hself]; exact List.mem_map_of_mem hmem
  · intro id' hne
    refine Option.ext ?_
    intro x
    rw [Table.row_eq_some, Table.row_eq_some, hrows]
    constructor
    · intro hrow
      obtain ⟨hx, hxid⟩ := hrow
      obtain ⟨y, hy, rfl⟩ := List.mem_map.mp hx
      by_cases hyid : y.id = id
      · have hyr : y = r := t.ids.eq hy hmem (hyid.trans hid.symm)
        rw [hyr, hself] at hxid
        exact absurd (hxid.symm.trans hid) hne
      · rw [hother y hy hyid] at hxid ⊢
        exact ⟨hy, hxid⟩
    · intro hrow
      obtain ⟨hx, hxid⟩ := hrow
      refine ⟨List.mem_map.mpr ⟨x, hx, ?_⟩, hxid⟩
      exact hother x hx (hxid ▸ hne)

end KinBridge
