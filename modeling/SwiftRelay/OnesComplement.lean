/-
**End-around carry.**

Checksums that are built from digits of base `b` add the carry out of the highest digit back in at
the lowest one, until none is left.  That is arithmetic modulo `b - 1` in which zero has two
representations, `0` and `b - 1`: only the sum of nothing but zeros comes out as `0`.  A sum of
digits verifies when it comes out as `b - 1`, all ones in base two.

Main definitions:

* `OnesComplement.fold` — the carry is added back once;
* `OnesComplement.wrap` — the carry is added back until there is none;
* `OnesComplement.Verifies` — the sum is the second zero.

Main results:

* `OnesComplement.wrap_eq_fold_fold` — two rounds are enough for sums of two digits;
* `OnesComplement.verifies_iff` — what it means that a sum verifies;
* `OnesComplement.verifies_add_complement` — a sum and the complement of what it comes out as.
-/

import Mathlib.Data.Nat.ModEq
import Mathlib.Tactic.Common

set_option autoImplicit false

namespace OnesComplement

variable {b m n : ℕ}

/-! ### Adding the carry back -/

/-- The carry out of the lowest digit is added back to it. -/
def fold (b n : ℕ) : ℕ := n % b + n / b

theorem fold_of_lt (h : n < b) : fold b n = n := by
  rw [fold, Nat.mod_eq_of_lt h, Nat.div_eq_of_lt h, Nat.add_zero]

/-- What is lost is the carry times `b - 1`. -/
theorem fold_add_carry (hb : 0 < b) : fold b n + (b - 1) * (n / b) = n := by
  have hsplit := Nat.mod_add_div n b
  have hmul : b * (n / b) = n / b + (b - 1) * (n / b) := by
    rw [Nat.sub_one_mul]
    have := Nat.le_mul_of_pos_left (n / b) hb
    omega
  rw [fold]
  omega

theorem fold_lt (hb : 1 < b) (h : b ≤ n) : fold b n < n := by
  have hcarry : 0 < (b - 1) * (n / b) :=
    Nat.mul_pos (by omega) (Nat.div_pos h (by omega))
  have := fold_add_carry (n := n) (Nat.lt_of_succ_lt hb)
  omega

theorem fold_modEq (hb : 0 < b) : fold b n ≡ n [MOD b - 1] := by
  rw [Nat.ModEq]
  conv_rhs => rw [← fold_add_carry (n := n) hb]
  rw [Nat.add_mul_mod_self_left]

theorem fold_pos (hb : 0 < b) (h : 0 < n) : 0 < fold b n := by
  rcases Nat.lt_or_ge n b with hlt | hge
  · rwa [fold_of_lt hlt]
  · exact Nat.add_pos_right _ (Nat.div_pos hge hb)

/-! ### Until there is none -/

/-- The carry is added back until there is none. -/
def wrap (b n : ℕ) : ℕ := if _ : 1 < b ∧ b ≤ n then wrap b (fold b n) else n
termination_by n
decreasing_by
  next h => exact fold_lt h.1 h.2

theorem wrap_of_lt (h : n < b) : wrap b n = n := by
  rw [wrap, dif_neg (by omega)]

theorem wrap_of_le (hb : 1 < b) (h : b ≤ n) : wrap b n = wrap b (fold b n) := by
  rw [wrap, dif_pos ⟨hb, h⟩]

/-- A property that adding the carry back keeps, and that holds of every digit. -/
theorem wrap_induction {P : ℕ → ℕ → Prop} (hb : 1 < b) (hdigit : ∀ n < b, P n n)
    (hfold : ∀ n m, b ≤ n → P (fold b n) m → P n m) (n : ℕ) : P n (wrap b n) := by
  induction n using Nat.strong_induction_on with
  | _ n ih =>
      rcases Nat.lt_or_ge n b with hlt | hge
      · rw [wrap_of_lt hlt]
        exact hdigit n hlt
      · rw [wrap_of_le hb hge]
        exact hfold n _ hge (ih _ (fold_lt hb hge))

theorem wrap_lt (hb : 1 < b) (n : ℕ) : wrap b n < b :=
  wrap_induction (P := fun _ m => m < b) hb (fun _ h => h) (fun _ _ _ h => h) n

theorem wrap_modEq (hb : 1 < b) (n : ℕ) : wrap b n ≡ n [MOD b - 1] :=
  wrap_induction (P := fun n m => m ≡ n [MOD b - 1]) hb (fun _ _ => rfl)
    (fun _ _ _ h => h.trans (fold_modEq (by omega))) n

theorem wrap_pos (hb : 1 < b) (h : 0 < n) : 0 < wrap b n :=
  wrap_induction (P := fun n m => 0 < n → 0 < m) hb (fun _ _ h => h)
    (fun _ _ _ h hn => h (fold_pos (by omega) hn)) n h

/-- The sum of two digits and the carries of such sums have one carry at most, so that two rounds
are enough for a number of two digits. -/
theorem wrap_eq_fold_fold (hb : 1 < b) (h : n < b * b) : wrap b n = fold b (fold b n) := by
  have hcarry : n / b < b := Nat.div_lt_of_lt_mul h
  have hdigit : n % b < b := Nat.mod_lt n (by omega)
  -- after the first round there is at most one carry, and it does not reach the next digit
  have hsecond : fold b (fold b n) < b := by
    rcases Nat.lt_or_ge (fold b n) b with hlt | hge
    · rwa [fold_of_lt hlt]
    · have hsum : fold b n ≤ 2 * b - 2 := by
        rw [fold]
        omega
      have hone : fold b n / b = 1 := Nat.div_eq_of_lt_le (by omega) (by omega)
      have hsplit := fold_add_carry (b := b) (n := fold b n) (by omega)
      rw [hone, Nat.mul_one] at hsplit
      omega
  have hround (m : ℕ) : wrap b m = wrap b (fold b m) := by
    rcases Nat.lt_or_ge m b with hlt | hge
    · rw [fold_of_lt hlt]
    · exact wrap_of_le hb hge
  rw [hround n, hround (fold b n), wrap_of_lt hsecond]

/-! ### Sums that verify -/

/-- The sum comes out as the second zero. -/
def Verifies (b n : ℕ) : Prop := wrap b n = b - 1

theorem verifies_iff (hb : 1 < b) : Verifies b n ↔ 0 < n ∧ b - 1 ∣ n := by
  have hmod := wrap_modEq hb n
  rw [Verifies]
  constructor
  · intro h
    rw [h] at hmod
    refine ⟨Nat.pos_of_ne_zero ?_, (Nat.modEq_zero_iff_dvd).1 ?_⟩
    · rintro rfl
      rw [wrap_of_lt (by omega)] at h
      omega
    · exact hmod.symm.trans ((Nat.modEq_zero_iff_dvd).2 (Nat.dvd_refl _))
  · rintro ⟨hpos, hdvd⟩
    have hle := wrap_lt hb n
    have hdvd' : b - 1 ∣ wrap b n :=
      (Nat.modEq_zero_iff_dvd).1 (hmod.trans ((Nat.modEq_zero_iff_dvd).2 hdvd))
    have := Nat.le_of_dvd (wrap_pos hb hpos) hdvd'
    omega

/-- **A sum and the complement of what it comes out as verify.** -/
theorem verifies_add_complement (hb : 1 < b) (n : ℕ) : Verifies b (n + (b - 1 - wrap b n)) := by
  have hlt := wrap_lt hb n
  have hmod := wrap_modEq hb n
  refine (verifies_iff hb).2 ⟨?_, (Nat.modEq_zero_iff_dvd).1 ?_⟩
  · rcases Nat.eq_zero_or_pos n with rfl | hpos
    · rw [wrap_of_lt (by omega)]
      omega
    · omega
  · calc n + (b - 1 - wrap b n) ≡ wrap b n + (b - 1 - wrap b n) [MOD b - 1] :=
          hmod.symm.add_right _
      _ = b - 1 := by omega
      _ ≡ 0 [MOD b - 1] := (Nat.modEq_zero_iff_dvd).2 (Nat.dvd_refl _)

/-- Sums that differ by a multiple of `b - 1` verify alike. -/
theorem Verifies.of_modEq (hb : 1 < b) (h : Verifies b m) (hn : 0 < n) (hmod : n ≡ m [MOD b - 1]) :
    Verifies b n :=
  (verifies_iff hb).2 ⟨hn, (Nat.modEq_zero_iff_dvd).1
    (hmod.trans ((Nat.modEq_zero_iff_dvd).2 ((verifies_iff hb).1 h).2))⟩

end OnesComplement
