import Mathlib.Algebra.Group.Int.Defs
import Mathlib.Algebra.Group.Nat.Defs
import Mathlib.Data.List.Basic

/-! # Machine words and clock readings

Unsigned words are natural numbers; a narrowing cast is an explicit remainder and a
subtraction that must not wrap is partial. A clock reading is a number of nanoseconds
since an arbitrary origin, so a duration is a number of nanoseconds.
-/

namespace NodeWebrtc

/-! ## Words -/

/-- `x as u16`. -/
def asU16 (x : Nat) : Nat := x % 2 ^ 16

/-- `x as u32`. -/
def asU32 (x : Nat) : Nat := x % 2 ^ 32

/-- `x as u64`. -/
def asU64 (x : Nat) : Nat := x % 2 ^ 64

/-- `u64::MAX`. -/
def u64Max : Nat := 2 ^ 64 - 1

/-- `a - b` on unsigned words: `none` is the underflow. -/
def checkedSub (a b : Nat) : Option Nat := if b ≤ a then some (a - b) else none

theorem asU32_of_lt {x : Nat} (h : x < 2 ^ 32) : asU32 x = x := Nat.mod_eq_of_lt h

theorem asU64_of_lt {x : Nat} (h : x < 2 ^ 64) : asU64 x = x := Nat.mod_eq_of_lt h

@[simp] theorem checkedSub_of_le {a b : Nat} (h : b ≤ a) : checkedSub a b = some (a - b) :=
  if_pos h

/-- `a.div_ceil(b)`. -/
def divCeil (a b : Nat) : Nat := (a + b - 1) / b

/-- `a.saturating_add(b)` on `u32`. -/
def saturatingAddU32 (a b : UInt32) : UInt32 :=
  UInt32.ofNat (min (a.toNat + b.toNat) (2 ^ 32 - 1))

/-- `a.saturating_sub(b)` on `u32`. -/
def saturatingSubU32 (a b : UInt32) : UInt32 := UInt32.ofNat (a.toNat - b.toNat)

/-- `a.min(b)` on `u32`. -/
def minU32 (a b : UInt32) : UInt32 := if a ≤ b then a else b

@[simp] theorem minU32_toNat (a b : UInt32) : (minU32 a b).toNat = min a.toNat b.toNat := by
  unfold minU32
  split
  · next hle => rw [Nat.min_eq_left (UInt32.le_iff_toNat_le.mp hle)]
  · next hlt =>
    rw [UInt32.le_iff_toNat_le] at hlt
    rw [Nat.min_eq_right (by omega)]

@[simp] theorem saturatingAddU32_toNat (a b : UInt32) :
    (saturatingAddU32 a b).toNat = min (a.toNat + b.toNat) (2 ^ 32 - 1) := by
  unfold saturatingAddU32
  rw [UInt32.toNat_ofNat']
  omega

@[simp] theorem saturatingSubU32_toNat (a b : UInt32) :
    (saturatingSubU32 a b).toNat = a.toNat - b.toNat := by
  have ha := a.toNat_lt
  unfold saturatingSubU32
  rw [UInt32.toNat_ofNat']
  omega

/-! ## Clock readings -/

/-- A reading of the monotonic clock, in nanoseconds. -/
abbrev Instant := Nat

/-- A length of time, in nanoseconds. -/
abbrev Duration := Nat

/-- `Duration::from_millis`. -/
def fromMillis (ms : Nat) : Duration := ms * 1000000

/-- `Duration::as_micros`. -/
def asMicros (d : Duration) : Nat := d / 1000

/-- `Duration::as_millis`. -/
def asMillis (d : Duration) : Nat := d / 1000000

/-- `now.saturating_duration_since(earlier)`. -/
def saturatingDurationSince (now earlier : Instant) : Duration := now - earlier

end NodeWebrtc
