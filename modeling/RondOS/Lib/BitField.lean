import Mathlib.Algebra.Ring.Nat

/-!
# Bit fields of fixed-width words

The field `start..stop` of a word, read and replaced by shifts alone. Everything is stated bit by
bit first; the laws of reading and replacing follow from that.
-/

namespace BitField

set_option autoImplicit false

variable {width : Nat}

/-- Shifting away what lies above the field and then what lies below. -/
def extract (word : BitVec width) (start stop : Nat) : BitVec width :=
  word <<< (width - stop) >>> (width - stop) >>> start

def mask (width start stop : Nat) : BitVec width :=
  ~~~(0 : BitVec width) <<< (width - stop) >>> (width - stop) >>> start <<< start

def replace (word : BitVec width) (start stop : Nat) (value : BitVec width) : BitVec width :=
  word &&& ~~~(mask width start stop) ||| value <<< start

variable {start stop : Nat}

theorem low_bits (word : BitVec width) {count : Nat} (within : count ≤ width) (index : Nat) :
    (word <<< (width - count) >>> (width - count)).getLsbD index =
      (decide (index < count) && word.getLsbD index) := by
  rw [BitVec.getLsbD_ushiftRight, BitVec.getLsbD_shiftLeft]
  have distance : width - count + index - (width - count) = index := by omega
  have upper : decide (width - count + index < width) = decide (index < count) := by
    rw [decide_eq_decide]
    omega
  have lower : decide (width - count + index < width - count) = false :=
    decide_eq_false (by omega)
  rw [distance, upper, lower, Bool.not_false, Bool.and_true]

theorem extract_bit (word : BitVec width) (within : stop ≤ width) (index : Nat) :
    (extract word start stop).getLsbD index =
      (decide (start + index < stop) && word.getLsbD (start + index)) := by
  rw [extract, BitVec.getLsbD_ushiftRight, low_bits word within]

theorem mask_bit (within : stop ≤ width) {index : Nat} (inside : index < width) :
    (mask width start stop).getLsbD index = decide (start ≤ index ∧ index < stop) := by
  rw [mask, BitVec.getLsbD_shiftLeft, BitVec.getLsbD_ushiftRight, low_bits _ within,
    BitVec.getLsbD_not]
  by_cases above : start ≤ index
  · have position : start + (index - start) = index := Nat.add_sub_cancel' above
    simp [position, inside, above]
  · simp [above, Nat.not_le.mp above]

theorem high_bit_clear {value : BitVec width} {count index : Nat} (small : value.toNat < 2 ^ count)
    (above : count ≤ index) : value.getLsbD index = false := by
  rw [← BitVec.testBit_toNat]
  apply Nat.testBit_lt_two_pow
  exact Nat.lt_of_lt_of_le small (Nat.pow_le_pow_right (by decide) above)

theorem fits_iff (value : BitVec width) {count : Nat} (within : count ≤ width) :
    value <<< (width - count) >>> (width - count) = value ↔ value.toNat < 2 ^ count := by
  constructor
  · intro kept
    apply Nat.lt_pow_two_of_testBit
    intro index above
    rw [BitVec.testBit_toNat, ← kept, low_bits value within, decide_eq_false (by omega),
      Bool.false_and]
  · intro small
    apply BitVec.eq_of_getLsbD_eq
    intro index _
    rw [low_bits value within]
    by_cases below : index < count
    · rw [decide_eq_true below, Bool.true_and]
    · rw [decide_eq_false below, Bool.false_and, high_bit_clear small (Nat.not_lt.mp below)]

theorem replace_bit (word value : BitVec width) (within : stop ≤ width)
    (fits : value.toNat < 2 ^ (stop - start)) {index : Nat} (inside : index < width) :
    (replace word start stop value).getLsbD index =
      if start ≤ index ∧ index < stop then value.getLsbD (index - start)
      else word.getLsbD index := by
  rw [replace, BitVec.getLsbD_or, BitVec.getLsbD_and, BitVec.getLsbD_not, mask_bit within inside,
    BitVec.getLsbD_shiftLeft]
  split_ifs with field
  · simp [field, inside, Nat.not_lt.mpr field.1]
  · have shifted : (decide (index < width) && !decide (index < start) &&
        value.getLsbD (index - start)) = false := by
      by_cases above : start ≤ index
      · -- past the field the value has no bits left
        rw [high_bit_clear fits (by omega), Bool.and_false]
      · simp [Nat.not_le.mp above]
    rw [shifted]
    simp [field, inside]

theorem extract_to_nat (word : BitVec width) (within : stop ≤ width) :
    (extract word start stop).toNat = word.toNat / 2 ^ start % 2 ^ (stop - start) := by
  apply Nat.eq_of_testBit_eq
  intro index
  have below : decide (start + index < stop) = decide (index < stop - start) := by
    rw [decide_eq_decide]
    omega
  rw [BitVec.testBit_toNat, extract_bit word within, Nat.testBit_mod_two_pow,
    Nat.testBit_div_two_pow, BitVec.testBit_toNat, below, Nat.add_comm index start]

theorem extract_lt (word : BitVec width) (within : stop ≤ width) :
    (extract word start stop).toNat < 2 ^ (stop - start) := by
  rw [extract_to_nat word within]
  exact Nat.mod_lt _ (Nat.two_pow_pos _)

theorem extract_replace (word value : BitVec width) (within : stop ≤ width)
    (fits : value.toNat < 2 ^ (stop - start)) :
    extract (replace word start stop value) start stop = value := by
  apply BitVec.eq_of_getLsbD_eq
  intro index _
  rw [extract_bit _ within]
  by_cases field : start + index < stop
  · rw [replace_bit word value within fits (by omega), if_pos ⟨by omega, field⟩,
      decide_eq_true field, Bool.true_and, Nat.add_sub_cancel_left]
  · rw [decide_eq_false field, Bool.false_and, high_bit_clear fits (by omega)]

theorem replace_extract (word : BitVec width) (within : stop ≤ width) :
    replace word start stop (extract word start stop) = word := by
  apply BitVec.eq_of_getLsbD_eq
  intro index inside
  rw [replace_bit word _ within (extract_lt word within) inside]
  split_ifs with field
  · have position : start + (index - start) = index := Nat.add_sub_cancel' field.1
    rw [extract_bit word within, position, decide_eq_true field.2, Bool.true_and]
  · rfl

/-- Fields that share no bit can be replaced in either order. -/
theorem replace_comm (word first second : BitVec width) {otherStart otherStop : Nat}
    (within : stop ≤ width) (otherWithin : otherStop ≤ width)
    (fits : first.toNat < 2 ^ (stop - start))
    (otherFits : second.toNat < 2 ^ (otherStop - otherStart))
    (disjoint : stop ≤ otherStart ∨ otherStop ≤ start) :
    replace (replace word start stop first) otherStart otherStop second =
      replace (replace word otherStart otherStop second) start stop first := by
  apply BitVec.eq_of_getLsbD_eq
  intro index inside
  rw [replace_bit _ _ otherWithin otherFits inside, replace_bit _ _ within fits inside,
    replace_bit _ _ within fits inside, replace_bit _ _ otherWithin otherFits inside]
  split_ifs with other field
  · omega
  · rfl
  · rfl
  · rfl

end BitField
