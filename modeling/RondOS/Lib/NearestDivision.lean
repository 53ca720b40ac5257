import Mathlib.Algebra.Order.Field.Rat
import Mathlib.Tactic.Linarith
import Mathlib.Tactic.Ring

/-!
# Division to the nearest integer

Adding half the divisor before a truncating division rounds to the nearest quotient. Halving the
divisor truncates as well, which matters for odd divisors only and never enough to miss the nearest
integer.
-/

namespace NearestDivision

set_option autoImplicit false

def nearestDiv (dividend divisor : Nat) : Nat := (dividend + divisor / 2) / divisor

variable {dividend divisor : Nat}

theorem nearest_div_lower (positive : 0 < divisor) :
    nearestDiv dividend divisor * divisor ≤ dividend + divisor / 2 :=
  (Nat.le_div_iff_mul_le positive).mp (Nat.le_refl _)

theorem nearest_div_upper (positive : 0 < divisor) :
    dividend + divisor / 2 < nearestDiv dividend divisor * divisor + divisor := by
  have below := (Nat.div_lt_iff_lt_mul positive).mp (Nat.lt_succ_self (nearestDiv dividend divisor))
  rwa [Nat.succ_mul] at below

theorem nearest_div_error (positive : 0 < divisor) :
    |(nearestDiv dividend divisor : ℚ) * divisor - dividend| ≤ divisor / 2 := by
  have lower : nearestDiv dividend divisor * divisor ≤ dividend + divisor / 2 :=
    nearest_div_lower positive
  have upper : dividend + divisor / 2 < nearestDiv dividend divisor * divisor + divisor :=
    nearest_div_upper positive
  generalize nearestDiv dividend divisor = count at lower upper
  have doubledLower : 2 * (count * divisor) ≤ 2 * dividend + divisor := by omega
  have doubledUpper : 2 * dividend ≤ 2 * (count * divisor) + divisor := by omega
  have lowerRat : 2 * ((count : ℚ) * divisor) ≤ 2 * dividend + divisor := by
    exact_mod_cast doubledLower
  have upperRat : 2 * (dividend : ℚ) ≤ 2 * (count * divisor) + divisor := by
    exact_mod_cast doubledUpper
  rw [abs_le]
  constructor <;> linarith

theorem nearest_div_antitone {larger : Nat} (positive : 0 < divisor) (ordered : divisor ≤ larger) :
    nearestDiv dividend larger ≤ nearestDiv dividend divisor := by
  have lower : nearestDiv dividend larger * larger ≤ dividend + larger / 2 :=
    nearest_div_lower (Nat.lt_of_lt_of_le positive ordered)
  generalize nearestDiv dividend larger = count at lower
  apply (Nat.le_div_iff_mul_le positive).mpr
  cases count with
  | zero => omega
  | succ count =>
      -- with one half moved to the left, the bound is monotone in the divisor
      have scaled : (2 * count + 1) * divisor ≤ (2 * count + 1) * larger :=
        Nat.mul_le_mul_left _ ordered
      have expand : ∀ value, (2 * count + 1) * value = 2 * (count * value) + value := by
        intro value
        ring
      rw [expand, expand] at scaled
      rw [Nat.succ_mul] at lower ⊢
      omega

theorem nearest_div_eq_one_iff (positive : 0 < divisor) :
    nearestDiv dividend divisor = 1 ↔
      divisor ≤ dividend + divisor / 2 ∧ dividend + divisor / 2 < 2 * divisor := by
  unfold nearestDiv
  rw [Nat.div_eq_iff positive]
  omega

end NearestDivision
