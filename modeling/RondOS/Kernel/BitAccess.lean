import RondOS.Lib.BitField
import RondOS.Lib.RustWord

/-!
# Bit fields of machine words

`BitAccess` for `u8`, `u16` and `u32`. A failed assertion is `none`, and so are a sum and a shift
that overflow in a debug build. Behind the assertions no shift overflows, and the two accessors are
the field operations of the library, whatever form the range was given in. One range escapes the
assertions: in a release build a start bound `Excluded(usize::MAX)` wraps to bit 0.
-/

namespace RondOS.BitAccess

open RustWord

set_option autoImplicit false

inductive Bound where
  | included (value : Nat)
  | excluded (value : Nat)
  | unbounded
  deriving DecidableEq

structure RangeBounds where
  startBound : Bound
  endBound : Bound
  deriving DecidableEq

/-- `a..=b` -/
def RangeBounds.inclusive (first last : Nat) : RangeBounds where
  startBound := .included first
  endBound := .included last

/-- `start..end` of a range in any form. -/
def toRegularRange (prof : Profile) (range : RangeBounds) (bitLength : Nat) :
    Option (Nat × Nat) := do
  let start ← match range.startBound with
    | .excluded value => prof.addNat 32 value 1
    | .included value => some value
    | .unbounded => some 0
  let stop ← match range.endBound with
    | .excluded value => some value
    | .included value => prof.addNat 32 value 1
    | .unbounded => some bitLength
  some (start, stop)

section Words

variable {width : Nat}

def getBit (word : BitVec width) (bit : Nat) : Option Bool :=
  if bit < width then some (word &&& (1 : BitVec width) <<< bit != 0) else none

def setBit (word : BitVec width) (bit : Nat) (value : Bool) : Option (BitVec width) :=
  if bit < width then
    if value then some (word ||| (1 : BitVec width) <<< bit)
    else some (word &&& ~~~((1 : BitVec width) <<< bit))
  else none

/-- `get_bits` with the sums of one build and the shifts of another: `get_bits` itself has both from
one build, and with the shifts of a debug build an amount of `width` or more aborts. -/
def getBitsWith (prof shifts : Profile) (word : BitVec width) (range : RangeBounds) :
    Option (BitVec width) := do
  let (start, stop) ← toRegularRange prof range width
  if start < width ∧ stop ≤ width ∧ start < stop then
    -- shift away high bits
    let bits ← shifts.shl word (width - stop)
    let bits ← shifts.shr bits (width - stop)
    -- shift away low bits
    shifts.shr bits start
  else none

def getBits (prof : Profile) (word : BitVec width) (range : RangeBounds) : Option (BitVec width) :=
  getBitsWith prof prof word range

def setBitsWith (prof shifts : Profile) (word : BitVec width) (range : RangeBounds)
    (value : BitVec width) : Option (BitVec width) := do
  let (start, stop) ← toRegularRange prof range width
  if start < width ∧ stop ≤ width ∧ start < stop then
    let high ← shifts.shl value (width - (stop - start))
    let back ← shifts.shr high (width - (stop - start))
    if back = value then
      let ones ← shifts.shl (~~~(0 : BitVec width)) (width - stop)
      let ones ← shifts.shr ones (width - stop)
      let ones ← shifts.shr ones start
      let bitmask := ~~~(← shifts.shl ones start)
      some (word &&& bitmask ||| (← shifts.shl value start))
    else none
  else none

def setBits (prof : Profile) (word : BitVec width) (range : RangeBounds) (value : BitVec width) :
    Option (BitVec width) :=
  setBitsWith prof prof word range value

end Words

def Bound.Typed : Bound → Prop
  | .included value => value < 0x100000000
  | .excluded value => value < 0x100000000
  | .unbounded => True

structure RangeBounds.Typed (range : RangeBounds) : Prop where
  startBound : range.startBound.Typed
  endBound : range.endBound.Typed

/-- The first bit of the normalised range, as a number. -/
def rangeStart (range : RangeBounds) : Nat :=
  match range.startBound with
  | .excluded value => value + 1
  | .included value => value
  | .unbounded => 0

def rangeStop (width : Nat) (range : RangeBounds) : Nat :=
  match range.endBound with
  | .excluded value => value
  | .included value => value + 1
  | .unbounded => width

/-- `start < end <= L` for the normalised range. -/
def Proper (width : Nat) (range : RangeBounds) : Prop :=
  rangeStart range < rangeStop width range ∧ rangeStop width range ≤ width

instance (width : Nat) (range : RangeBounds) : Decidable (Proper width range) :=
  inferInstanceAs (Decidable (_ ∧ _))

/-- The start bound wraps to bit 0, which the assertions let pass. -/
def StartWraps (prof : Profile) (width : Nat) (range : RangeBounds) : Prop :=
  prof = .release ∧ range.startBound = .excluded 0xffffffff ∧
    0 < rangeStop width range ∧ rangeStop width range ≤ width

theorem included_start_kept (prof : Profile) (width first : Nat) (endBound : Bound) :
    ¬StartWraps prof width ⟨.included first, endBound⟩ := by
  intro wraps
  cases wraps.2.1

section Normalised

variable {width : Nat} (prof : Profile) {range : RangeBounds}

theorem add_one_cases {value : Nat} (typed : value < 0x100000000) :
    prof.addNat 32 value 1 = some (value + 1) ∨
      (value = 0xffffffff ∧ prof.addNat 32 value 1 =
        match prof with
        | .debug => none
        | .release => some 0) := by
  by_cases fits : value + 1 < 0x100000000
  · exact Or.inl (add_nat_exact prof fits)
  · have largest : value = 0xffffffff := by omega
    subst largest
    cases prof with
    | debug => exact Or.inr ⟨rfl, by decide⟩
    | release => exact Or.inr ⟨rfl, by decide⟩

def checkedBound (prof : Profile) (adds : Bool) (value : Nat) : Option Nat :=
  if adds then prof.addNat 32 value 1 else some value

def exactBound (adds : Bool) (value : Nat) : Nat :=
  if adds then value + 1 else value

theorem checked_bound_cases (adds : Bool) {value : Nat} (typed : value < 0x100000000) :
    checkedBound prof adds value = some (exactBound adds value) ∨
      (adds = true ∧ value = 0xffffffff ∧ checkedBound prof adds value =
        match prof with
        | .debug => none
        | .release => some 0) := by
  cases adds with
  | true =>
      rcases add_one_cases prof typed with plain | ⟨largest, wrapped⟩
      · exact Or.inl plain
      · exact Or.inr ⟨rfl, largest, wrapped⟩
  | false => exact Or.inl rfl

theorem ends_as_bounds (word : width < 0x100000000) (typed : range.Typed) :
    ∃ startAdds stopAdds start stop, start < 0x100000000 ∧ stop < 0x100000000 ∧
      (startAdds = true → range.startBound = .excluded start) ∧
      rangeStart range = exactBound startAdds start ∧
      rangeStop width range = exactBound stopAdds stop ∧
      toRegularRange prof range width =
        (checkedBound prof startAdds start).bind fun first =>
          (checkedBound prof stopAdds stop).bind fun last => some (first, last) := by
  obtain ⟨startBound, endBound⟩ := range
  obtain ⟨startTyped, stopTyped⟩ := typed
  cases startBound <;> cases endBound
  · exact ⟨false, true, _, _, startTyped, stopTyped, nofun, rfl, rfl, rfl⟩
  · exact ⟨false, false, _, _, startTyped, stopTyped, nofun, rfl, rfl, rfl⟩
  · exact ⟨false, false, _, _, startTyped, word, nofun, rfl, rfl, rfl⟩
  · exact ⟨true, true, _, _, startTyped, stopTyped, fun _ => rfl, rfl, rfl, rfl⟩
  · exact ⟨true, false, _, _, startTyped, stopTyped, fun _ => rfl, rfl, rfl, rfl⟩
  · exact ⟨true, false, _, _, startTyped, word, fun _ => rfl, rfl, rfl, rfl⟩
  · exact ⟨false, true, 0, _, by decide, stopTyped, nofun, rfl, rfl, rfl⟩
  · exact ⟨false, false, 0, _, by decide, stopTyped, nofun, rfl, rfl, rfl⟩
  · exact ⟨false, false, 0, _, by decide, word, nofun, rfl, rfl, rfl⟩

/-- The normalisation returns the range, or the range is not proper and the assertions do not let
pass what comes back instead. -/
theorem to_regular_range_cases (word : width < 0x100000000) (typed : range.Typed)
    (kept : ¬StartWraps prof width range) :
    toRegularRange prof range width = some (rangeStart range, rangeStop width range) ∨
      (¬Proper width range ∧ ∀ start stop, toRegularRange prof range width = some (start, stop) →
        ¬(start < width ∧ stop ≤ width ∧ start < stop)) := by
  obtain ⟨startAdds, stopAdds, start, stop, startWord, stopWord, wraps, first, last, opened⟩ :=
    ends_as_bounds prof word typed
  unfold Proper
  rcases checked_bound_cases prof startAdds startWord with started | ⟨adds, largest, started⟩
  · rcases checked_bound_cases prof stopAdds stopWord with stopped | ⟨adds, largest, stopped⟩
    · left
      rw [opened, started, Option.bind_some, stopped, Option.bind_some, first, last]
    · right
      rw [opened, started, Option.bind_some, stopped, last, adds, largest]
      refine ⟨fun proper => absurd (Nat.lt_of_le_of_lt proper.2 word) (by decide), ?_⟩
      cases prof with
      | debug => exact nofun
      | release =>
          intro start stop returned passed
          cases returned
          exact absurd passed.2.2 (Nat.not_lt_zero _)
  · right
    have beyond : rangeStart range = 0x100000000 := by
      rw [first, adds, largest]
      rfl
    refine ⟨fun proper => by omega, ?_⟩
    rw [opened, started]
    cases prof with
    | debug => exact nofun
    | release =>
        have bound := wraps adds
        rw [largest] at bound
        intro begin finish returned passed
        rw [Option.bind_some] at returned
        rcases checked_bound_cases .release stopAdds stopWord with stopped | ⟨_, _, stopped⟩
        · rw [stopped, ← last] at returned
          cases returned
          exact kept ⟨rfl, bound, passed.2.2, passed.2.1⟩
        · rw [stopped] at returned
          cases returned
          exact absurd passed.2.2 (Nat.lt_irrefl 0)

theorem get_bits_with_eq (shifts : Profile) (bitLength : width < 0x100000000) (typed : range.Typed)
    (kept : ¬StartWraps prof width range) (word : BitVec width) :
    getBitsWith prof shifts word range =
      if Proper width range then
        some (BitField.extract word (rangeStart range) (rangeStop width range))
      else none := by
  unfold getBitsWith
  rcases to_regular_range_cases prof bitLength typed kept with normal | ⟨improper, stopped⟩
  · rw [normal, Option.bind_eq_bind, Option.bind_some]
    by_cases proper : Proper width range
    · obtain ⟨ordered, within⟩ := proper
      rw [if_pos ⟨ordered, within⟩]
      simp only
      rw [if_pos ⟨by omega, within, ordered⟩, shl_exact _ _ (by omega), Option.bind_eq_bind,
        Option.bind_some, shr_exact _ _ (by omega), Option.bind_some, shr_exact _ _ (by omega)]
      rfl
    · rw [if_neg proper]
      exact if_neg fun passed => proper ⟨passed.2.2, passed.2.1⟩
  · rw [if_neg improper]
    cases returned : toRegularRange prof range width with
    | none => rfl
    | some ends => exact if_neg (stopped ends.1 ends.2 returned)

theorem set_bits_with_eq (shifts : Profile) (bitLength : width < 0x100000000) (typed : range.Typed)
    (kept : ¬StartWraps prof width range) (word value : BitVec width) :
    setBitsWith prof shifts word range value =
      if Proper width range ∧ value.toNat < 2 ^ (rangeStop width range - rangeStart range) then
        some (BitField.replace word (rangeStart range) (rangeStop width range) value)
      else none := by
  unfold setBitsWith
  rcases to_regular_range_cases prof bitLength typed kept with normal | ⟨improper, stopped⟩
  · rw [normal, Option.bind_eq_bind, Option.bind_some]
    by_cases proper : Proper width range
    · obtain ⟨ordered, within⟩ := proper
      have fits := BitField.fits_iff value
        (Nat.le_trans (Nat.sub_le (rangeStop width range) (rangeStart range)) within)
      simp only
      rw [if_pos ⟨by omega, within, ordered⟩, shl_exact _ _ (by omega), Option.bind_eq_bind,
        Option.bind_some, shr_exact _ _ (by omega), Option.bind_some]
      by_cases small : value.toNat < 2 ^ (rangeStop width range - rangeStart range)
      · rw [if_pos (fits.mpr small), if_pos ⟨⟨ordered, within⟩, small⟩, shl_exact _ _ (by omega),
          Option.bind_some, shr_exact _ _ (by omega), Option.bind_some, shr_exact _ _ (by omega),
          Option.bind_some, shl_exact _ _ (by omega), Option.bind_some, shl_exact _ _ (by omega),
          Option.bind_some]
        rfl
      · rw [if_neg (fun passed => small (fits.mp passed)), if_neg (fun passed => small passed.2)]
    · rw [if_neg (fun passed => proper passed.1)]
      exact if_neg fun passed => proper ⟨passed.2.2, passed.2.1⟩
  · rw [if_neg (fun passed => improper passed.1)]
    cases returned : toRegularRange prof range width with
    | none => rfl
    | some ends => exact if_neg (stopped ends.1 ends.2 returned)

theorem get_bits_eq (bitLength : width < 0x100000000) (typed : range.Typed)
    (kept : ¬StartWraps prof width range) (word : BitVec width) :
    getBits prof word range =
      if Proper width range then
        some (BitField.extract word (rangeStart range) (rangeStop width range))
      else none :=
  get_bits_with_eq prof prof bitLength typed kept word

theorem set_bits_eq (bitLength : width < 0x100000000) (typed : range.Typed)
    (kept : ¬StartWraps prof width range) (word value : BitVec width) :
    setBits prof word range value =
      if Proper width range ∧ value.toNat < 2 ^ (rangeStop width range - rangeStart range) then
        some (BitField.replace word (rangeStart range) (rangeStop width range) value)
      else none :=
  set_bits_with_eq prof prof bitLength typed kept word value

end Normalised

def RangesDisjoint (width : Nat) (first second : RangeBounds) : Prop :=
  ∀ index, ¬((rangeStart first ≤ index ∧ index < rangeStop width first) ∧
    rangeStart second ≤ index ∧ index < rangeStop width second)

theorem set_bits_comm {width : Nat} (prof : Profile) {first second : RangeBounds}
    (bitLength : width < 0x100000000) (typed : first.Typed) (otherTyped : second.Typed)
    (kept : ¬StartWraps prof width first) (otherKept : ¬StartWraps prof width second)
    (disjoint : RangesDisjoint width first second) (word value other : BitVec width) :
    (setBits prof word first value).bind (fun after => setBits prof after second other) =
      (setBits prof word second other).bind fun after => setBits prof after first value := by
  simp only [set_bits_eq prof bitLength typed kept, set_bits_eq prof bitLength otherTyped otherKept]
  by_cases proper : Proper width first ∧
      value.toNat < 2 ^ (rangeStop width first - rangeStart first)
  · by_cases otherProper : Proper width second ∧
        other.toNat < 2 ^ (rangeStop width second - rangeStart second)
    · have apart : rangeStop width first ≤ rangeStart second ∨
          rangeStop width second ≤ rangeStart first := by
        have ordered := proper.1.1
        have otherOrdered := otherProper.1.1
        have free := disjoint (max (rangeStart first) (rangeStart second))
        omega
      simp only [if_pos proper, if_pos otherProper, Option.bind_some]
      rw [BitField.replace_comm word value other proper.1.2 otherProper.1.2 proper.2
        otherProper.2 apart]
    · simp only [if_neg otherProper, Option.bind_none, Option.bind_fun_none]
  · simp only [if_neg proper, Option.bind_none, Option.bind_fun_none]

/-- For each word size and every form of range whose start does not wrap: the accessors panic
exactly on an improper range or an oversized value, they are the same with every shift amount
checked, reading is division with remainder, and writing changes the field alone. -/
theorem bit_fields_lawful {width : Nat} (widths : width = 8 ∨ width = 16 ∨ width = 32)
    (prof : Profile) (range : RangeBounds) (typed : range.Typed)
    (kept : ¬StartWraps prof width range) (word value : BitVec width) :
    (getBits prof word range = none ↔
      ¬(rangeStart range < rangeStop width range ∧ rangeStop width range ≤ width)) ∧
    (setBits prof word range value = none ↔
      ¬(rangeStart range < rangeStop width range ∧ rangeStop width range ≤ width) ∨
      2 ^ (rangeStop width range - rangeStart range) ≤ value.toNat) ∧
    (getBitsWith prof .debug word range = getBits prof word range ∧
      setBitsWith prof .debug word range value = setBits prof word range value) ∧
    (∀ bits, getBits prof word range = some bits →
      bits.toNat = word.toNat / 2 ^ rangeStart range %
        2 ^ (rangeStop width range - rangeStart range)) ∧
    (∀ after, setBits prof word range value = some after →
      getBits prof after range = some value ∧
      ∀ index, index < width →
        ¬(rangeStart range ≤ index ∧ index < rangeStop width range) →
        after.getLsbD index = word.getLsbD index) ∧
    (∀ other otherValue, other.Typed → ¬StartWraps prof width other →
      RangesDisjoint width range other →
      (setBits prof word range value).bind (fun after => setBits prof after other otherValue) =
        (setBits prof word other otherValue).bind fun after => setBits prof after range value) ∧
    (∀ bits, getBits prof word range = some bits → setBits prof word range bits = some word) := by
  have bitLength : width < 0x100000000 := by omega
  refine ⟨?_, ?_, ?_, ?_, ?_, ?_, ?_⟩
  · rw [get_bits_eq prof bitLength typed kept, ite_eq_right_iff]
    simp [Proper]
  · rw [set_bits_eq prof bitLength typed kept, ite_eq_right_iff]
    simp only [reduceCtorEq, imp_false, not_and_or, Nat.not_lt, Proper]
  · rw [get_bits_with_eq prof .debug bitLength typed kept, get_bits_eq prof bitLength typed kept,
      set_bits_with_eq prof .debug bitLength typed kept, set_bits_eq prof bitLength typed kept]
    exact ⟨rfl, rfl⟩
  · intro bits read
    rw [get_bits_eq prof bitLength typed kept] at read
    split_ifs at read with proper
    cases read
    exact BitField.extract_to_nat word proper.2
  · intro after written
    rw [set_bits_eq prof bitLength typed kept] at written
    split_ifs at written with passed
    cases written
    obtain ⟨proper, fits⟩ := passed
    constructor
    · rw [get_bits_eq prof bitLength typed kept, if_pos proper,
        BitField.extract_replace word value proper.2 fits]
    · intro index inside away
      rw [BitField.replace_bit word value proper.2 fits inside, if_neg away]
  · intro other otherValue otherTyped otherKept disjoint
    exact set_bits_comm prof bitLength typed otherTyped kept otherKept disjoint word value otherValue
  · intro bits read
    rw [get_bits_eq prof bitLength typed kept] at read
    split_ifs at read with proper
    cases read
    rw [set_bits_eq prof bitLength typed kept,
      if_pos ⟨proper, BitField.extract_lt word proper.2⟩, BitField.replace_extract word proper.2]

theorem address_field_rewritten :
    getBits .release (0xabcde067 : BitVec 32) (.inclusive 12 31) = some 0xabcde ∧
      setBits .release (0xabcde067 : BitVec 32) (.inclusive 12 31) 0xabcde =
        some 0xabcde067 := by
  have typed : (RangeBounds.inclusive 12 31).Typed := by
    constructor <;> change _ < _ <;> decide
  have kept := included_start_kept .release 32 12 (.included 31)
  have read : getBits .release (0xabcde067 : BitVec 32) (.inclusive 12 31) = some 0xabcde := by
    decide
  obtain ⟨_, _, _, _, _, _, rewritten⟩ :=
    bit_fields_lawful (by decide) .release (.inclusive 12 31) typed kept (0xabcde067 : BitVec 32) 0
  exact ⟨read, rewritten 0xabcde read⟩

/-- `(Excluded(usize::MAX), Unbounded)` starts past every bit, and reads the whole byte. -/
theorem excluded_max_reads_word :
    ¬∀ (prof : Profile) (range : RangeBounds) (word : BitVec 8), range.Typed →
      (getBits prof word range = none ↔
        ¬(rangeStart range < rangeStop 8 range ∧ rangeStop 8 range ≤ 8)) := by
  intro claimed
  have typed : RangeBounds.Typed ⟨.excluded 0xffffffff, .unbounded⟩ :=
    ⟨show 0xffffffff < 0x100000000 by decide, trivial⟩
  have read : getBits .release (0xa5 : BitVec 8) ⟨.excluded 0xffffffff, .unbounded⟩ = some 0xa5 := by
    decide
  have panics := (claimed .release ⟨.excluded 0xffffffff, .unbounded⟩ 0xa5 typed).mpr (by decide)
  cases read.symm.trans panics

end RondOS.BitAccess
