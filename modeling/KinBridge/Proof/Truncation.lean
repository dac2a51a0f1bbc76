import Mathlib.Data.Finset.Sort
import Mathlib.Data.String.Basic
import KinBridge.Hbbr.Command

/-!
# Commands cut short

What goes to `check_cmd` is what one `read` returns: the beginning of what was sent, up to the
end of a segment or of the buffer. Half a command is a command, too.
-/

namespace KinBridge.Proof

open KinBridge Keys

variable {c : LoopbackConn} {iso : Nat → String} {s : Server} {now : Instant} {F : Hbbr.CmdOps}
  {a : Hbbr.CmdState}

/-- Only a beginning of the text is ever executed. -/
theorem executed_prefix {data : String} (h : c.command = some data) :
    asBytes data <+: asBytes c.text := by
  obtain ⟨bytes, hread, hdata⟩ := Option.bind_eq_some_iff.mp h
  cases hend : c.readEnd with
  | timedOut => rw [LoopbackConn.read, hend] at hread; cases hread
  | failed => rw [LoopbackConn.read, hend] at hread; cases hread
  | ready behind =>
      rw [c.read_eq hend] at hread
      rw [asBytes_ofUtf8 hdata, ← Option.some.inj hread]
      exact List.take_prefix ..

/-- **Both servers execute a command whole or not at all** exactly if the `read` leaves no text
behind at the end of a character. -/
theorem commands_whole_iff :
    ((∀ r, handleLoopback iso s now c = some r → r.1 = c.text) ↔ c.Undivided)
      ∧ ((∀ r, Hbbr.handleLoopback F a c = some r → r.1 = c.text) ↔ c.Undivided) :=
  ⟨LoopbackConn.execute_whole_iff, LoopbackConn.execute_whole_iff⟩

/-- A text of which the beginning `part` has arrived. -/
theorem execute_part {α : Type} {check : String → α} {part : String} {rest : List Bytes}
    (hsegments : c.segments = asBytes part :: rest) (hready : c.readEnd = .ready 0)
    (hshort : part.utf8ByteSize ≤ 1024) : c.execute check = some (part, check part) := by
  have hread : c.read = some (asBytes part) := by
    rw [LoopbackConn.read, hready]
    simp [LoopbackConn.arrived, hsegments, length_asBytes, hshort]
  rw [LoopbackConn.execute, LoopbackConn.command, hread, Option.bind_some, ofUtf8_asBytes,
    Option.map_some]

/-- An address that is sent in two segments, of which one has arrived. -/
def splitAddress : LoopbackConn where
  text := "ba 10.0.0.12"
  segments := [asBytes "ba 10.0.0.1", asBytes "2"]
  segments_ne := by decide +kernel
  segments_text := by decide +kernel
  readEnd := .ready 0

/-- And a list of relay servers. -/
def splitRelays : LoopbackConn where
  text := "rs relay-1,relay-10"
  segments := [asBytes "rs relay-1,relay-1", asBytes "0"]
  segments_ne := by decide +kernel
  segments_text := by decide +kernel
  readEnd := .ready 0

/-- Without settings, and with sets in alphabetical order. -/
def sampleOps : Hbbr.CmdOps where
  hundredths _ := none
  megabits _ := none
  ofHundredths := toString
  ofMegabits := toString
  ofBits := toString
  order entries := entries.sort
  order_nodup _ := Finset.sort_nodup _ _
  mem_order _ _ := Finset.mem_sort _

def sampleCmdState : Hbbr.CmdState := ⟨⟨∅, ∅⟩, fun _ => 0, []⟩

/-- Another address is blacklisted than the administrator says, and another relay is used. -/
theorem commands_cut_short :
    (∃ r, Hbbr.handleLoopback sampleOps sampleCmdState splitAddress = some r
      ∧ r = ("ba 10.0.0.1", [.list .blacklist (.add "10.0.0.1")], "")
      ∧ r.1 ≠ splitAddress.text)
    ∧ ∃ r, handleLoopback (fun _ => "") (Server.start Config.sample .empty) 0 splitRelays = some r
      ∧ r.1 = "rs relay-1,relay-1" ∧ r.2.queued = [.relayServers0 "relay-1,relay-1"]
      ∧ r.1 ≠ splitRelays.text := by
  refine ⟨⟨_, execute_part rfl rfl (by decide +kernel), ?_, by decide⟩,
    ⟨_, execute_part rfl rfl (by decide +kernel), rfl, ?_, by decide⟩⟩
  · decide +kernel
  · decide +kernel

end KinBridge.Proof
