import KinBridge.Lib.Bits
import KinBridge.Hbbs.Punch

/-!
# Who is online

`handle_online_request`: a client names peers and gets one bit for each. The bit looks at
memory only, and makes the presence test of `handle_punch_hole_request` a second time, in
the other direction.
-/

namespace KinBridge

open Bits

/-- The test on one peer: `get_in_memory`, and then `elapsed < REG_TIMEOUT`. -/
def seenOnline (s : Server) (now : Instant) (id : String) : Bool :=
  match s.pm.map id with
  | some peer => asI32 (asMillis (elapsed now peer.lastRegTime)) < REG_TIMEOUT
  | none => false

/-- `handle_online_request` up to the send: the `states` of the response. -/
def handleOnlineRequest (s : Server) (now : Instant) (peers : List String) : Bytes :=
  peers.zipIdx.foldl (fun states x => if seenOnline s now x.1 then setBit states x.2 else states)
    (List.replicate ((peers.length + 7) / 8) 0)

/-- The same with the bounds of `states[states_idx]` checked: nothing if one is exceeded. -/
def handleOnlineRequest? (s : Server) (now : Instant) (peers : List String) : Option Bytes :=
  peers.zipIdx.foldlM
    (fun states x => if seenOnline s now x.1 then setBit? states x.2 else some states)
    (List.replicate ((peers.length + 7) / 8) 0)

/-- Bit `i` is the test on the peer named at `i`. -/
theorem handleOnlineRequest_bit {s : Server} {now : Instant} {peers : List String} {i : Nat}
    {id : String} (hid : peers[i]? = some id) :
    bitAt (handleOnlineRequest s now peers) i = seenOnline s now id :=
  bitAt_marks_zipIdx (by omega) hid

/-- No index is out of bounds. -/
theorem handleOnlineRequest?_eq {s : Server} {now : Instant} {peers : List String} :
    handleOnlineRequest? s now peers = some (handleOnlineRequest s now peers) := by
  refine marks?_eq ?_
  rintro ⟨id, i⟩ hid
  have hlt := (List.getElem?_eq_some_iff.mp (List.mk_mem_zipIdx_iff_getElem?.mp hid)).1
  rw [List.length_replicate]
  show i / 8 < (peers.length + 7) / 8
  omega

/-- On a record in memory the two tests are each other's opposite. -/
theorem seenOnline_of_memory {s : Server} {now : Instant} {id : String} {p : Peer}
    (hp : s.pm.map id = some p) : seenOnline s now id = !isOffline now p := by
  rw [seenOnline, hp, isOffline, ← decide_not]
  simp only [ge_iff_le, Int.not_le]

example :
    let p : Peer := { Peer.default 0 with lastRegTime := ofSecs 9 }
    let s : Server := { Server.start .sample .empty with
      pm := ⟨fun id => if id = "b" then some p else none, .empty⟩ }
    handleOnlineRequest s (ofSecs 10) ["a", "b", "c"] = [0x40] := by decide

end KinBridge
