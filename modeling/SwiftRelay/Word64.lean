/-
**Saturating and checked arithmetic on 64-bit words.**

Clock readings and expiry times are unsigned 64-bit words, and the code adds to them and subtracts
from them with the saturating operations, never with the wrapping ones.  This module gives the two
saturating operations and the checked subtraction, each with its meaning in `ℕ`, which is where
every argument about clocks takes place.

Main definitions:

* `Word64.satAdd`, `Word64.satSub` — sum and difference clamped to the range of the type;
* `Word64.checkedSub` — the difference, or nothing when it would be negative.

Main results:

* `Word64.toNat_satAdd`, `Word64.checkedSub_eq_some_iff` — the meaning of the operations;
* `Word64.toNat_max` — the later of two times.
-/

import Mathlib.Algebra.Ring.Nat
import Mathlib.Data.Nat.Basic
import Mathlib.Tactic.Common

set_option autoImplicit false

namespace Word64

/-- The largest 64-bit word. -/
def maxValue : UInt64 := 18446744073709551615

/-- The sum, or the largest word when the sum does not fit. -/
def satAdd (a b : UInt64) : UInt64 :=
  if a.toNat + b.toNat < 2 ^ 64 then a + b else maxValue

/-- The difference, or zero when it would be negative. -/
def satSub (a b : UInt64) : UInt64 := if b ≤ a then a - b else 0

/-- The difference, or nothing when it would be negative. -/
def checkedSub (a b : UInt64) : Option UInt64 := if b ≤ a then some (a - b) else none

theorem toNat_lt (a : UInt64) : a.toNat < 2 ^ 64 := UInt64.toNat_lt a

theorem toNat_satAdd (a b : UInt64) :
    (satAdd a b).toNat = min (a.toNat + b.toNat) (2 ^ 64 - 1) := by
  unfold satAdd
  split
  · next h =>
      rw [UInt64.toNat_add, Nat.mod_eq_of_lt h]
      omega
  · next h =>
      have : maxValue.toNat = 2 ^ 64 - 1 := rfl
      omega

theorem toNat_sub_of_le {a b : UInt64} (h : b ≤ a) : (a - b).toNat = a.toNat - b.toNat :=
  UInt64.toNat_sub_of_le a b h

theorem toNat_max (a b : UInt64) : (max a b).toNat = max a.toNat b.toNat := by
  change (if a ≤ b then b else a).toNat = _
  split
  · next h =>
      rw [UInt64.le_iff_toNat_le] at h
      omega
  · next h =>
      rw [UInt64.le_iff_toNat_le] at h
      omega

theorem checkedSub_eq_some_iff {a b d : UInt64} :
    checkedSub a b = some d ↔ b ≤ a ∧ d = a - b := by
  unfold checkedSub
  split
  · next h => simp [h, eq_comm]
  · next h => simp [h]

end Word64
