import Mathlib.Algebra.Group.Int.Defs
import Mathlib.Algebra.Group.Nat.Defs

/-!
# Instants

`std::time::Instant` is a count of nanoseconds since boot. `elapsed` saturates at
zero, `as_secs` and `as_millis` round down, and `checked_sub` fails below zero.
-/

namespace KinBridge

/-- Nanoseconds since boot. -/
abbrev Instant := Nat

/-- `t.elapsed()`, read at `now`. -/
def elapsed (now t : Instant) : Nat := now - t

/-- `Duration::from_secs`. -/
def ofSecs (n : Nat) : Nat := n * 1000000000

/-- `Duration::as_secs`. -/
def asSecs (d : Nat) : Nat := d / 1000000000

/-- `Duration::as_millis`. -/
def asMillis (d : Nat) : Nat := d / 1000000

/-- The narrowing cast `as i32`: the low 32 bits, in two's complement. -/
def asI32 (n : Nat) : Int :=
  if n % 2 ^ 32 < 2 ^ 31 then ((n % 2 ^ 32 : Nat) : Int) else ((n % 2 ^ 32 : Nat) : Int) - 2 ^ 32

/-- `get_expired_time` (`common.rs`): an hour ago, or now when there is no hour ago. -/
def getExpiredTime (now : Instant) : Instant :=
  if ofSecs 3600 ≤ now then now - ofSecs 3600 else now

theorem getExpiredTime_le (now : Instant) : getExpiredTime now ≤ now := by
  unfold getExpiredTime
  split
  · exact Nat.sub_le _ _
  · exact Nat.le_refl _

/-- A later instant is no older. -/
theorem elapsed_le {now t t' : Instant} (h : t ≤ t') : elapsed now t' ≤ elapsed now t :=
  Nat.sub_le_sub_left h now

/-- Below `2^31` the cast keeps the value. -/
theorem asI32_of_lt {n : Nat} (h : n < 2 ^ 31) : asI32 n = n := by
  have h32 : n % 2 ^ 32 = n := Nat.mod_eq_of_lt (Nat.lt_trans h (by decide))
  rw [asI32, h32, if_pos h]

/-- From `2^31` on it does not: half of all ages come out negative. -/
example : asI32 (2 ^ 31) = -2147483648 := by decide

end KinBridge
