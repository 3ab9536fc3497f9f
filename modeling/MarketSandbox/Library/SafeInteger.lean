/-
This file develops integers held in double-precision numbers. An integer with
at most 53 significant bits is held exactly; any other is rounded to the
nearest such integer, ties to the even significand.
-/

import Mathlib.Algebra.Group.Int.Defs
import Mathlib.Algebra.Group.Nat.Defs
import Mathlib.Data.Int.Order.Basic
import Mathlib.Data.Nat.Log

namespace SafeInteger

/-- The integer held by the double nearest to an integer. -/
def toNumber (value : Int) : Int :=
  let shift := value.natAbs.log2 - 52
  let significand := value.natAbs / 2 ^ shift
  let dropped := value.natAbs % 2 ^ shift
  let rounded :=
    if 2 * dropped < 2 ^ shift ∨ (2 * dropped = 2 ^ shift ∧ significand % 2 = 0) then significand
    else significand + 1
  value.sign * (rounded * 2 ^ shift : Nat)

/-- Subtraction of numbers. -/
def sub (first second : Int) : Int := toNumber (first - second)

/-- An integer below 2^53 in magnitude is held exactly. -/
theorem toNumber_eq {value : Int} (safe : value.natAbs < 2 ^ 53) : toNumber value = value := by
  have noShift : value.natAbs.log2 - 52 = 0 := by
    rcases Nat.eq_zero_or_pos value.natAbs with zero | positive
    · rw [zero]
      rfl
    · have bits := (Nat.log2_lt positive.ne').mpr safe
      omega
  have held := Int.sign_mul_natAbs value
  simpa [toNumber, noShift, Nat.mod_one] using held

theorem toNumber_of_nonneg {value : Int} (nonneg : 0 ≤ value) (safe : value < 2 ^ 53) :
    toNumber value = value :=
  toNumber_eq (by omega)

/-! ### Rounding is monotone -/

/-- The bits of a natural number that do not fit in 53. -/
def excess (value : Nat) : Nat := value.log2 - 52

/-- Half of the last bit that fits is not reached, or is met with an even significand. -/
def RoundsDown (value : Nat) : Prop :=
  2 * (value % 2 ^ excess value) < 2 ^ excess value ∨
    (2 * (value % 2 ^ excess value) = 2 ^ excess value ∧ value / 2 ^ excess value % 2 = 0)

instance (value : Nat) : Decidable (RoundsDown value) := inferInstanceAs (Decidable (_ ∨ _))

/-- The rounded significand of a natural number. -/
def significand (value : Nat) : Nat :=
  if RoundsDown value then value / 2 ^ excess value else value / 2 ^ excess value + 1

theorem toNumber_natCast (value : Nat) :
    toNumber value = (significand value * 2 ^ excess value : Nat) := by
  rcases Nat.eq_zero_or_pos value with rfl | positive
  · rfl
  · have sign : ((value : Nat) : Int).sign = 1 := Int.sign_eq_one_of_pos (by omega)
    simp only [toNumber, Int.natAbs_natCast, sign, Int.one_mul]
    rfl

theorem div_le_significand (value : Nat) : value / 2 ^ excess value ≤ significand value := by
  unfold significand
  split_ifs <;> omega

theorem significand_le (value : Nat) : significand value ≤ value / 2 ^ excess value + 1 := by
  unfold significand
  split_ifs <;> omega

/-- Among numbers with the same excess, the significand is monotone. -/
theorem significand_mono {first second : Nat} (le : first ≤ second)
    (same : excess first = excess second) : significand first ≤ significand second := by
  have parts : first / 2 ^ excess first ≤ second / 2 ^ excess second := by
    rw [same]
    exact Nat.div_le_div_right le
  rcases parts.lt_or_eq with less | equal
  · calc significand first ≤ first / 2 ^ excess first + 1 := significand_le first
      _ ≤ second / 2 ^ excess second := less
      _ ≤ significand second := div_le_significand second
  · have dropped : first % 2 ^ excess first ≤ second % 2 ^ excess second := by
      have one := Nat.div_add_mod first (2 ^ excess first)
      have other := Nat.div_add_mod second (2 ^ excess second)
      rw [equal] at one
      rw [same] at one ⊢
      omega
    have down : RoundsDown second → RoundsDown first := by
      unfold RoundsDown
      rw [equal]
      rw [same] at dropped ⊢
      omega
    unfold significand
    rw [equal]
    split_ifs with one other other
    · exact le_rfl
    · omega
    · exact absurd (down other) one
    · exact le_rfl

theorem log2_mono {first second : Nat} (le : first ≤ second) : first.log2 ≤ second.log2 := by
  rcases eq_or_ne first 0 with rfl | nonzero
  · exact Nat.zero_le _
  · exact (Nat.le_log2 (by omega)).mpr ((Nat.log2_self_le nonzero).trans le)

theorem excess_mono {first second : Nat} (le : first ≤ second) : excess first ≤ excess second :=
  Nat.sub_le_sub_right (log2_mono le) 52

/-- Rounding is monotone. -/
theorem toNumber_mono {first second : Nat} (le : first ≤ second) :
    toNumber first ≤ toNumber second := by
  rw [toNumber_natCast, toNumber_natCast]
  refine Int.ofNat_le.mpr ?_
  rcases (excess_mono le).lt_or_eq with less | same
  · have large : 52 < second.log2 := by
      unfold excess at less
      omega
    have positive : second ≠ 0 := by
      rintro rfl
      cases large
    have short : first / 2 ^ excess first < 2 ^ 53 := by
      rw [Nat.div_lt_iff_lt_mul (Nat.two_pow_pos _), ← Nat.pow_add]
      have bits := @Nat.lt_log2_self first
      refine bits.trans_le (Nat.pow_le_pow_right (by decide) ?_)
      unfold excess
      omega
    calc significand first * 2 ^ excess first
        ≤ 2 ^ 53 * 2 ^ excess first :=
          Nat.mul_le_mul_right _ ((significand_le first).trans short)
      _ = 2 ^ (53 + excess first) := (Nat.pow_add 2 53 _).symm
      _ ≤ 2 ^ second.log2 := Nat.pow_le_pow_right (by decide) (by
          unfold excess at less ⊢
          omega)
      _ = 2 ^ 52 * 2 ^ excess second := by
          rw [← Nat.pow_add]
          congr 1
          unfold excess
          omega
      _ ≤ second / 2 ^ excess second * 2 ^ excess second := by
          refine Nat.mul_le_mul_right _ ((Nat.le_div_iff_mul_le (Nat.two_pow_pos _)).mpr ?_)
          rw [← Nat.pow_add]
          refine le_trans (Nat.pow_le_pow_right (by decide) ?_) (Nat.log2_self_le positive)
          unfold excess
          omega
      _ ≤ significand second * 2 ^ excess second :=
          Nat.mul_le_mul_right _ (div_le_significand second)
  · have digits := significand_mono le same
    rw [same]
    exact Nat.mul_le_mul_right _ digits

example : toNumber (2 ^ 53 + 1) = 2 ^ 53 := by decide

end SafeInteger
