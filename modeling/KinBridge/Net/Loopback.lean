import KinBridge.Keys.GenSk

/-!
# Commands from loopback

`handle_listener2` of `hbbs` and `handle_connection` of `hbbr` do the same for a connection
from loopback: one `read` into 1024 bytes, within a second, and if what it returns is UTF-8
it goes to `check_cmd`. TCP keeps no boundaries: a `read` returns what has arrived.
-/

namespace KinBridge

open Keys

/-! ## Parts of a text -/

theorem length_asBytes (s : String) : (asBytes s).length = s.utf8ByteSize := by
  simp [asBytes]

theorem ofUtf8_eq_none {bytes : Bytes} :
    ofUtf8 bytes = none ↔ ¬ ByteArray.IsValidUTF8 ⟨bytes.toArray⟩ := by
  unfold ofUtf8 String.fromUTF8?
  split
  · rename_i h
    exact iff_of_false (Option.some_ne_none _) (not_not_intro h)
  · rename_i h
    exact iff_of_true rfl h

theorem asBytes_ofUtf8 {bytes : Bytes} {s : String} (h : ofUtf8 bytes = some s) :
    asBytes s = bytes := by
  unfold ofUtf8 String.fromUTF8? at h
  split at h
  · rw [← Option.some.inj h]
    rfl
  · cases h

/-- The first bytes of a text are a text unless they end within a character. -/
theorem ofUtf8_take {s : String} {n : Nat} :
    ofUtf8 ((asBytes s).take n) = none ↔
      n < s.utf8ByteSize ∧ ¬ (String.Pos.Raw.mk n).IsValid s := by
  rcases Nat.lt_or_ge n s.utf8ByteSize with hlt | hge
  · have hbytes : (⟨((asBytes s).take n).toArray⟩ : ByteArray) = s.toByteArray.extract 0 n := by
      apply ByteArray.ext
      rw [ByteArray.data_extract]
      apply Array.ext'
      simp [asBytes]
    have hle : String.Pos.Raw.mk n ≤ s.rawEndPos := Nat.le_of_lt hlt
    rw [ofUtf8_eq_none, hbytes, String.Pos.Raw.isValid_iff_isValidUTF8_extract_zero,
      and_iff_right hlt, and_iff_right hle]
  · rw [List.take_of_length_le (by rwa [length_asBytes]), ofUtf8_asBytes]
    exact iff_of_false (Option.some_ne_none _) fun h => absurd h.1 (Nat.not_lt.mpr hge)

/-! ## The connection -/

/-- How the `read` ends. -/
inductive ReadEnd where
  | timedOut
  | failed
  /-- A segment has arrived, and so many behind it. -/
  | ready (behind : Nat)
deriving DecidableEq, Repr

/-- A connection on which the administrator sends `text`, as TCP delivers it. -/
structure LoopbackConn where
  text : String
  segments : List Bytes
  /-- No segment is empty, and together they are the text. -/
  segments_ne : ∀ b ∈ segments, b ≠ []
  segments_text : segments.flatten = asBytes text
  readEnd : ReadEnd

namespace LoopbackConn

/-- How much of the text has arrived with so many segments behind the first. -/
def arrived (c : LoopbackConn) (behind : Nat) : Bytes := (c.segments.take (behind + 1)).flatten

/-- `timeout(1000, stream.read(&mut buffer[..]))`. -/
def read (c : LoopbackConn) : Option Bytes :=
  match c.readEnd with
  -- once, whether more is to come or not
  | .ready behind => some ((c.arrived behind).take 1024)
  | _ => none

/-- The text that goes to `check_cmd`. -/
def command (c : LoopbackConn) : Option String := c.read.bind ofUtf8

/-- The task for the connection: the text that it executes, and what comes of it. -/
def execute {α : Type} (c : LoopbackConn) (check : String → α) : Option (String × α) :=
  c.command.map fun data => (data, check data)

/-- How many bytes of the text the `read` takes. -/
def cut (c : LoopbackConn) (behind : Nat) : Nat := min 1024 (c.arrived behind).length

/-- If the `read` returns, then with all of the text, or with a part of it that ends within a
character. -/
def Undivided (c : LoopbackConn) : Prop :=
  ∀ behind, c.readEnd = .ready behind →
    c.text.utf8ByteSize ≤ c.cut behind ∨ ¬ (String.Pos.Raw.mk (c.cut behind)).IsValid c.text

variable {c : LoopbackConn}

/-- What has arrived is the beginning of the text. -/
theorem arrived_prefix (c : LoopbackConn) (behind : Nat) :
    c.arrived behind <+: asBytes c.text := by
  rw [← c.segments_text]
  refine ⟨(c.segments.drop (behind + 1)).flatten, ?_⟩
  rw [arrived, ← List.flatten_append, List.take_append_drop]

theorem read_eq {behind : Nat} (h : c.readEnd = .ready behind) :
    c.read = some ((asBytes c.text).take (c.cut behind)) := by
  have harrived := List.prefix_iff_eq_take.mp (c.arrived_prefix behind)
  unfold read
  rw [h]
  dsimp only
  conv_lhs => rw [harrived, List.take_take]
  rfl

/-- A part of the text is left aside exactly if its end is within a character. -/
theorem command_eq_none {behind : Nat} (h : c.readEnd = .ready behind) :
    c.command = none ↔ c.cut behind < c.text.utf8ByteSize
      ∧ ¬ (String.Pos.Raw.mk (c.cut behind)).IsValid c.text := by
  rw [command, read_eq h]
  exact ofUtf8_take

/-- What is executed is the text exactly if it is as long. -/
theorem command_eq_text {behind : Nat} {data : String} (h : c.readEnd = .ready behind)
    (hcmd : c.command = some data) : data = c.text ↔ c.text.utf8ByteSize ≤ c.cut behind := by
  rw [command, read_eq h] at hcmd
  have hbytes : asBytes data = (asBytes c.text).take (c.cut behind) := asBytes_ofUtf8 hcmd
  constructor
  · rintro rfl
    have hlen := congrArg List.length hbytes
    rw [List.length_take, length_asBytes] at hlen
    omega
  · intro hle
    rw [List.take_of_length_le (by rwa [length_asBytes])] at hbytes
    have hsame := congrArg ofUtf8 hbytes
    rw [ofUtf8_asBytes, ofUtf8_asBytes] at hsame
    exact Option.some.inj hsame

/-- **The command is executed whole or not at all** exactly if the `read` leaves no text behind
at the end of a character. -/
theorem execute_whole_iff {α : Type} {check : String → α} :
    (∀ r, c.execute check = some r → r.1 = c.text) ↔ c.Undivided := by
  have hexec : (∀ r, c.execute check = some r → r.1 = c.text) ↔
      ∀ data, c.command = some data → data = c.text := by
    simp [execute]
  rw [hexec]
  constructor
  · intro hwhole behind h
    by_cases hle : c.text.utf8ByteSize ≤ c.cut behind
    · exact .inl hle
    · -- a part that is a text would be executed, so it would have to be all of it
      refine .inr fun hvalid => ?_
      cases hcmd : c.command with
      | none => exact ((command_eq_none h).mp hcmd).2 hvalid
      | some data => exact hle ((command_eq_text h hcmd).mp (hwhole data hcmd))
  · intro hun data hcmd
    cases h : c.readEnd with
    | timedOut => rw [command, read, h] at hcmd; cases hcmd
    | failed => rw [command, read, h] at hcmd; cases hcmd
    | ready behind =>
        rcases hun behind h with hle | hinner
        · exact (command_eq_text h hcmd).mpr hle
        · by_contra hne
          have hlt := Nat.not_le.mp (mt (command_eq_text h hcmd).mpr hne)
          rw [(command_eq_none h).mpr ⟨hlt, hinner⟩] at hcmd
          cases hcmd

end LoopbackConn

end KinBridge
