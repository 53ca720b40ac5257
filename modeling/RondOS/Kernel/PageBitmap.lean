import RondOS.Lib.ByteMemory
import RondOS.Lib.Footprint
import RondOS.Lib.RustWord
import Mathlib.Logic.Function.Basic

/-!
# The packed page bitmap

`BitMap` is a raw byte pointer and a bit count. Every access is a volatile read, or a read and a
write, of the byte that holds the bit, behind an assertion on the index. The specification view is
`BitMap.bit`: one boolean per index, whatever the memory holds. Memory is the kernel's linear
address space, and pointer arithmetic wraps at 32 bits.
-/

namespace RondOS.PageBitmap

open ByteMemory RustWord Footprint

set_option autoImplicit false

structure BitMap where
  dataPtr : Usize
  size : Usize
  deriving DecidableEq

def BitMap.byteAddr (bits : BitMap) (index : Nat) : Nat :=
  (bits.dataPtr.toNat + index) % 0x100000000

/-- `ptr.write_bytes(value, len)` -/
def memset (mem : Memory) (ptr : Usize) (value : Byte) (len : Nat) : Memory :=
  fun target =>
    if target < 0x100000000 ∧ (target + 0x100000000 - ptr.toNat) % 0x100000000 < len then value
    else mem target

def BitMap.new (prof : Profile) (dataPtr size : Usize) (mem : Memory) :
    Option (BitMap × Memory) := do
  let len := (← prof.add size 7) / 8
  some ({ dataPtr, size }, memset mem dataPtr 0 len.toNat)

/-- `1 << (idx % 8)` -/
def bitMask (idx : Usize) : Byte := 1 <<< (idx.toNat % 8)

def BitMap.test (bits : BitMap) (mem : Memory) (idx : Usize) : Option Bool :=
  if idx < bits.size then
    some (mem (bits.byteAddr (idx.toNat / 8)) &&& bitMask idx != 0)
  else none

/-- The common body of `clear`, `mark` and `flip`. -/
def BitMap.modify (combine : Byte → Byte → Byte) (bits : BitMap) (idx : Usize) (mem : Memory) :
    Option Memory :=
  if idx < bits.size then
    let val := mem (bits.byteAddr (idx.toNat / 8))
    some (Function.update mem (bits.byteAddr (idx.toNat / 8)) (combine val (bitMask idx)))
  else none

def BitMap.clear : BitMap → Usize → Memory → Option Memory :=
  BitMap.modify fun val mask => val &&& ~~~mask

def BitMap.mark : BitMap → Usize → Memory → Option Memory :=
  BitMap.modify fun val mask => val ||| mask

def BitMap.flip : BitMap → Usize → Memory → Option Memory :=
  BitMap.modify fun val mask => val ^^^ mask

/-- `for i in 0..len { act(idx + i) }`, the common body of `flips` and `sets`. -/
def forEachBit (prof : Profile) (act : Usize → Memory → Option Memory) (idx len : Usize)
    (mem : Memory) : Option Memory :=
  (wordRange 0 len).foldlM (fun current i => do act (← prof.add idx i) current) mem

def BitMap.flips (prof : Profile) (bits : BitMap) : Usize → Usize → Memory → Option Memory :=
  forEachBit prof bits.flip

def BitMap.set (bits : BitMap) (val : Bool) (idx : Usize) (mem : Memory) : Option Memory :=
  if idx < bits.size then
    if val then bits.mark idx mem else bits.clear idx mem
  else none

def BitMap.sets (prof : Profile) (bits : BitMap) (idx len : Usize) (val : Bool) :
    Memory → Option Memory :=
  forEachBit prof (bits.set val) idx len

/-- The same loop with the memory it leaves behind when an assertion stops it: a trip asserts
before it writes. -/
def forEachBitAt (prof : Profile) (act : Usize → Memory → Option Memory) (idx len : Usize) :
    Memory → Except Memory Memory :=
  attemptEach (fun i current => do act (← prof.add idx i) current) (wordRange 0 len)

def BitMap.flipsAt (prof : Profile) (bits : BitMap) :
    Usize → Usize → Memory → Except Memory Memory :=
  forEachBitAt prof bits.flip

def BitMap.setsAt (prof : Profile) (bits : BitMap) (idx len : Usize) (val : Bool) :
    Memory → Except Memory Memory :=
  forEachBitAt prof (bits.set val) idx len

theorem for_each_bit_at_eq_ok_iff (prof : Profile) (act : Usize → Memory → Option Memory)
    (idx len : Usize) (mem after : Memory) :
    forEachBitAt prof act idx len mem = .ok after ↔
      forEachBit prof act idx len mem = some after :=
  attempt_each_eq_ok_iff _ _ _ _

/-- The condition of `contains` at trip `i`. -/
def BitMap.probe (prof : Profile) (bits : BitMap) (mem : Memory) (start : Usize) (val : Bool)
    (i : Usize) : Option Bool := do
  let bit ← bits.test mem (← prof.add start i)
  some (bit == val)

/-- The early return makes this `some true` as soon as one bit equals `val`; an index out of range
before that is a failed assertion. -/
def BitMap.contains (prof : Profile) (bits : BitMap) (mem : Memory) (start len : Usize)
    (val : Bool) : Option Bool :=
  (wordRange 0 len).anyM (bits.probe prof mem start val)

def BitMap.find (prof : Profile) (bits : BitMap) (mem : Memory) (start len : Usize) (val : Bool) :
    Option (Option Usize) :=
  (wordRange start bits.size).findM? fun i => do
    let other ← bits.contains prof mem i len (!val)
    some (!other)

def BitMap.all (prof : Profile) (bits : BitMap) (mem : Memory) (start len : Usize) : Option Bool :=
  (bits.contains prof mem start len false).map (!·)

def BitMap.any (prof : Profile) (bits : BitMap) (mem : Memory) (start len : Usize) : Option Bool :=
  bits.contains prof mem start len true

def BitMap.bit (bits : BitMap) (mem : Memory) (index : Nat) : Bool :=
  (mem (bits.byteAddr (index / 8))).getLsbD (index % 8)

theorem byte_addr_inj (bits : BitMap) {first second : Nat} (firstWord : first < 0x100000000)
    (secondWord : second < 0x100000000) (same : bits.byteAddr first = bits.byteAddr second) :
    first = second := by
  unfold BitMap.byteAddr at same
  omega

theorem test_eq (bits : BitMap) (mem : Memory) (idx : Usize) (inside : idx < bits.size) :
    bits.test mem idx = some (bits.bit mem idx.toNat) := by
  have mask : bitMask idx = BitVec.twoPow 8 (idx.toNat % 8) := rfl
  have nonzero : BitVec.twoPow 8 (idx.toNat % 8) ≠ 0 := by
    intro zero
    have set := congrArg (fun byte => byte.getLsbD (idx.toNat % 8)) zero
    simp [BitVec.getLsbD_twoPow] at set
    omega
  rw [BitMap.test, if_pos inside, mask, BitVec.and_twoPow, BitMap.bit]
  cases (mem (bits.byteAddr (idx.toNat / 8))).getLsbD (idx.toNat % 8) with
  | true => simpa using nonzero
  | false => simp

/-- `after` differs from `before` only in the bits of a range, each passed through `change`. -/
structure BitsChanged (bits : BitMap) (change : Bool → Bool) (start len : Nat)
    (before after : Memory) : Prop where
  inside : ∀ index, start ≤ index → index < start + len →
    bits.bit after index = change (bits.bit before index)
  outside : ∀ index, index < 0x100000000 → ¬(start ≤ index ∧ index < start + len) →
    bits.bit after index = bits.bit before index
  frame : ∀ addr, (∀ index, start ≤ index → index < start + len →
    addr ≠ bits.byteAddr (index / 8)) → after addr = before addr

theorem BitsChanged.refl (bits : BitMap) (change : Bool → Bool) (start : Nat) (mem : Memory) :
    BitsChanged bits change start 0 mem mem where
  inside := by
    intro index lower upper
    omega
  outside := fun _ _ _ => rfl
  frame := fun _ _ => rfl

theorem BitsChanged.extend {bits : BitMap} {change : Bool → Bool} {start len : Nat}
    {before middle after : Memory} (word : start + len < 0x100000000)
    (done : BitsChanged bits change start len before middle)
    (one : BitsChanged bits change (start + len) 1 middle after) :
    BitsChanged bits change start (len + 1) before after where
  inside := by
    intro index lower upper
    by_cases last : index = start + len
    · subst last
      rw [one.inside _ (by omega) (by omega), done.outside _ word (by omega)]
    · rw [one.outside _ (by omega) (by omega), done.inside _ lower (by omega)]
  outside := by
    intro index bounded away
    rw [one.outside _ bounded (by omega), done.outside _ bounded (by omega)]
  frame := by
    intro addr away
    rw [one.frame addr (fun index lower upper => away index (by omega) (by omega)),
      done.frame addr (fun index lower upper => away index lower (by omega))]

def ActsOnBit (combine : Byte → Byte → Byte) (change : Bool → Bool) : Prop :=
  ∀ (val : Byte) (position other : Nat), position < 8 → other < 8 →
    (combine val (BitVec.twoPow 8 position)).getLsbD other =
      if other = position then change (val.getLsbD other) else val.getLsbD other

theorem flip_acts : ActsOnBit (fun val mask => val ^^^ mask) (fun bit => !bit) := by
  intro val position other inByte _
  by_cases same : other = position
  · simp [same, inByte]
  · simp [same, Ne.symm same]

theorem mark_acts : ActsOnBit (fun val mask => val ||| mask) (fun _ => true) := by
  intro val position other inByte _
  by_cases same : other = position
  · simp [same, inByte]
  · simp [same, Ne.symm same]

theorem clear_acts : ActsOnBit (fun val mask => val &&& ~~~mask) (fun _ => false) := by
  intro val position other inByte otherInByte
  by_cases same : other = position
  · simp [same, inByte]
  · simp [same, otherInByte]

theorem modify_spec {combine : Byte → Byte → Byte} {change : Bool → Bool}
    (acts : ActsOnBit combine change) (bits : BitMap) (idx : Usize) (mem : Memory)
    (inside : idx < bits.size) :
    ∃ after, BitMap.modify combine bits idx mem = some after ∧
      BitsChanged bits change idx.toNat 1 mem after := by
  have word := idx.isLt
  have mask : bitMask idx = BitVec.twoPow 8 (idx.toNat % 8) := rfl
  refine ⟨_, if_pos inside, ?_, ?_, ?_⟩
  · intro index lower upper
    have same : index = idx.toNat := by omega
    subst same
    rw [BitMap.bit, Function.update_self, mask,
      acts _ _ _ (Nat.mod_lt _ (by decide)) (Nat.mod_lt _ (by decide)), if_pos rfl]
    rfl
  · intro index bounded away
    unfold BitMap.bit
    by_cases shared : index / 8 = idx.toNat / 8
    · have position : index % 8 ≠ idx.toNat % 8 := by omega
      rw [shared, Function.update_self, mask,
        acts _ _ _ (Nat.mod_lt _ (by decide)) (Nat.mod_lt _ (by decide)), if_neg position]
    · have apart : bits.byteAddr (index / 8) ≠ bits.byteAddr (idx.toNat / 8) :=
        fun same => shared (byte_addr_inj bits (by omega) (by omega) same)
      rw [Function.update_of_ne apart]
  · intro addr away
    rw [Function.update_of_ne (away idx.toNat (by omega) (by omega))]

/-- A loop of single-bit changes over a range inside the bitmap never aborts and changes exactly
the range. -/
theorem for_each_bit_spec {change : Bool → Bool} {bits : BitMap}
    {act : Usize → Memory → Option Memory}
    (single : ∀ idx mem, idx < bits.size →
      ∃ after, act idx mem = some after ∧ BitsChanged bits change idx.toNat 1 mem after)
    (prof : Profile) (idx len : Usize) (mem : Memory)
    (inside : idx.toNat + len.toNat ≤ bits.size.toNat) :
    ∃ after, forEachBit prof act idx len mem = some after ∧
      BitsChanged bits change idx.toNat len.toNat mem after := by
  have word := bits.size.isLt
  apply foldlM_word_range _ (fun count current =>
    BitsChanged bits change idx.toNat count mem current)
  · exact BitsChanged.refl bits change idx.toNat mem
  · intro i current bound done
    have unwrapped : (idx + i).toNat = idx.toNat + i.toNat := BitVec.toNat_add_of_lt (by omega)
    obtain ⟨next, stepped, changed⟩ := single (idx + i) current
      (BitVec.lt_def.mpr (by omega))
    rw [unwrapped] at changed
    refine ⟨next, ?_, done.extend (by omega) changed⟩
    rw [add_exact prof idx i (by omega)]
    exact stepped

theorem flips_spec (prof : Profile) (bits : BitMap) (idx len : Usize) (mem : Memory)
    (inside : idx.toNat + len.toNat ≤ bits.size.toNat) :
    ∃ after, bits.flips prof idx len mem = some after ∧
      BitsChanged bits (fun bit => !bit) idx.toNat len.toNat mem after :=
  for_each_bit_spec (modify_spec flip_acts bits) prof idx len mem inside

theorem set_spec (bits : BitMap) (val : Bool) (idx : Usize) (mem : Memory)
    (inside : idx < bits.size) :
    ∃ after, bits.set val idx mem = some after ∧
      BitsChanged bits (fun _ => val) idx.toNat 1 mem after := by
  rw [BitMap.set, if_pos inside]
  cases val with
  | true => exact modify_spec mark_acts bits idx mem inside
  | false => exact modify_spec clear_acts bits idx mem inside

theorem sets_spec (prof : Profile) (bits : BitMap) (idx len : Usize) (val : Bool) (mem : Memory)
    (inside : idx.toNat + len.toNat ≤ bits.size.toNat) :
    ∃ after, bits.sets prof idx len val mem = some after ∧
      BitsChanged bits (fun _ => val) idx.toNat len.toNat mem after :=
  for_each_bit_spec (set_spec bits val) prof idx len mem inside

theorem probe_inside {prof : Profile} {bits : BitMap} {mem : Memory} {start i : Usize} (val : Bool)
    (inside : start.toNat + i.toNat < bits.size.toNat) :
    bits.probe prof mem start val i = some (bits.bit mem (start.toNat + i.toNat) == val) := by
  have word := bits.size.isLt
  have unwrapped : (start + i).toNat = start.toNat + i.toNat := BitVec.toNat_add_of_lt (by omega)
  have tested := test_eq bits mem (start + i) (BitVec.lt_def.mpr (by omega))
  simp only [BitMap.probe, add_exact prof start i (by omega), Option.bind_eq_bind,
    Option.bind_some, tested, unwrapped]

theorem probe_past_end {prof : Profile} {bits : BitMap} {mem : Memory} {start i : Usize}
    (val : Bool) (outside : bits.size.toNat ≤ start.toNat + i.toNat)
    (word : start.toNat + i.toNat < 0x100000000) :
    bits.probe prof mem start val i = none := by
  have unwrapped : (start + i).toNat = start.toNat + i.toNat := BitVec.toNat_add_of_lt (by omega)
  have failed : ¬start + i < bits.size := by
    rw [BitVec.lt_def]
    omega
  simp only [BitMap.probe, add_exact prof start i (by omega), Option.bind_eq_bind,
    Option.bind_some, BitMap.test, if_neg failed, Option.bind_none]

theorem contains_eq_false_iff (prof : Profile) (bits : BitMap) (mem : Memory) (start len : Usize)
    (val : Bool) :
    bits.contains prof mem start len val = some false ↔
      ∀ i, i < len.toNat → start.toNat + i < bits.size.toNat ∧
        bits.bit mem (start.toNat + i) = !val := by
  have sizeWord := bits.size.isLt
  have startWord := start.isLt
  have lenWord := len.isLt
  rw [BitMap.contains, anyM_eq_some_false_iff]
  constructor
  · intro missed i bound
    have trip : ∀ offset, offset < len.toNat →
        bits.probe prof mem start val (BitVec.ofNat 32 offset) = some false := by
      intro offset within
      apply missed
      rw [mem_word_range, BitVec.toNat_ofNat, Nat.mod_eq_of_lt (by omega)]
      exact ⟨Nat.zero_le _, within⟩
    have value : ∀ offset, offset < len.toNat → (BitVec.ofNat 32 offset).toNat = offset := by
      intro offset within
      rw [BitVec.toNat_ofNat, Nat.mod_eq_of_lt (by omega)]
    have inside : start.toNat + i < bits.size.toNat := by
      -- otherwise some trip up to `i` probes index `size`, or `start` itself is past the end
      by_contra past
      have first : bits.size.toNat - start.toNat < len.toNat := by omega
      have ran := trip _ first
      rw [probe_past_end val (by rw [value _ first]; omega) (by rw [value _ first]; omega)] at ran
      cases ran
    have ran := trip i bound
    rw [probe_inside val (by rw [value i bound]; exact inside), value i bound] at ran
    refine ⟨inside, ?_⟩
    cases bit : bits.bit mem (start.toNat + i) <;> cases val <;> simp_all
  · intro free i member
    obtain ⟨inside, bit⟩ := free i.toNat (mem_word_range.mp member).2
    rw [probe_inside val inside, bit]
    cases val <;> rfl

/-- `contains` answers yes exactly when the value occurs in the part of the range inside the
bitmap: the scan meets it before it can run past the end. -/
theorem contains_eq_true_iff (prof : Profile) (bits : BitMap) (mem : Memory) (start len : Usize)
    (val : Bool) :
    bits.contains prof mem start len val = some true ↔
      ∃ i, i < len.toNat ∧ start.toNat + i < bits.size.toNat ∧
        bits.bit mem (start.toNat + i) = val := by
  have sizeWord := bits.size.isLt
  have startWord := start.isLt
  have lenWord := len.isLt
  rw [BitMap.contains, anyM_word_range_iff]
  constructor
  · intro first
    rcases first with ⟨i, _, bound, missed, hit⟩
    have inside : start.toNat + i.toNat < bits.size.toNat := by
      -- otherwise the trip that probes index `size`, or the very first one, has aborted before
      by_contra past
      by_cases reached : bits.size.toNat - start.toNat < i.toNat
      · have value : (BitVec.ofNat 32 (bits.size.toNat - start.toNat)).toNat =
            bits.size.toNat - start.toNat := by
          rw [BitVec.toNat_ofNat, Nat.mod_eq_of_lt (by omega)]
        have ran := missed (BitVec.ofNat 32 (bits.size.toNat - start.toNat)) (Nat.zero_le _)
          (by omega)
        rw [probe_past_end val (by omega) (by omega)] at ran
        cases ran
      · rw [probe_past_end val (by omega) (by omega)] at hit
        cases hit
    rw [probe_inside val inside, Option.some.injEq, beq_iff_eq] at hit
    exact ⟨i.toNat, bound, inside, hit⟩
  · intro occurs
    have least := Nat.find_spec occurs
    generalize position : Nat.find occurs = i at least
    obtain ⟨bound, inside, bit⟩ := least
    have value : (BitVec.ofNat 32 i).toNat = i := by
      rw [BitVec.toNat_ofNat, Nat.mod_eq_of_lt (by omega)]
    refine ⟨BitVec.ofNat 32 i, Nat.zero_le _, by omega, ?_, ?_⟩
    · intro other _ below
      have earlier : other.toNat < Nat.find occurs := by omega
      have differs := Nat.find_min occurs earlier
      rw [probe_inside val (by omega), Option.some.injEq, beq_eq_false_iff_ne]
      intro same
      exact differs ⟨by omega, by omega, same⟩
    · rw [probe_inside val (by omega), value, bit, beq_self_eq_true]

theorem all_eq_true_iff (prof : Profile) (bits : BitMap) (mem : Memory) (start len : Usize) :
    bits.all prof mem start len = some true ↔
      ∀ i, i < len.toNat → start.toNat + i < bits.size.toNat ∧
        bits.bit mem (start.toNat + i) = true := by
  have absent := contains_eq_false_iff prof bits mem start len false
  rw [Bool.not_false] at absent
  rw [← absent, BitMap.all]
  cases bits.contains prof mem start len false with
  | none => simp
  | some found => cases found <;> simp

theorem find_eq_some {prof : Profile} {bits : BitMap} {mem : Memory} {start len idx : Usize}
    {val : Bool} (found : bits.find prof mem start len val = some (some idx)) :
    start.toNat ≤ idx.toNat ∧ idx.toNat < bits.size.toNat ∧
      ∀ i, i < len.toNat → idx.toNat + i < bits.size.toNat ∧
        bits.bit mem (idx.toNat + i) = val := by
  obtain ⟨lower, upper, _, hit⟩ := (findM?_word_range_iff _ _ _ _).mp found
  have absent : bits.contains prof mem idx len (!val) = some false := by
    cases other : bits.contains prof mem idx len (!val) with
    | none => simp [other] at hit
    | some answer => simpa [other] using hit
  rw [contains_eq_false_iff, Bool.not_not] at absent
  exact ⟨lower, upper, absent⟩

theorem find_eq_start (prof : Profile) (bits : BitMap) (mem : Memory) (start len : Usize)
    (val : Bool) (nonempty : start.toNat < bits.size.toNat)
    (fits : ∀ i, i < len.toNat → start.toNat + i < bits.size.toNat ∧
      bits.bit mem (start.toNat + i) = val) :
    bits.find prof mem start len val = some (some start) := by
  have absent : bits.contains prof mem start len (!val) = some false := by
    rw [contains_eq_false_iff, Bool.not_not]
    exact fits
  apply (findM?_word_range_iff _ _ _ _).mpr
  refine ⟨Nat.le_refl _, nonempty, ?_, by simp [absent]⟩
  intro other above below
  omega

structure BitMap.IsRun (bits : BitMap) (mem : Memory) (val : Bool) (len start : Nat) : Prop where
  inside : start + len ≤ bits.size.toNat
  uniform : ∀ index, start ≤ index → index < start + len → bits.bit mem index = val

theorem contains_eq_false_of_run (prof : Profile) {bits : BitMap} {mem : Memory}
    {start len : Usize} {val : Bool} (run : bits.IsRun mem val len.toNat start.toNat) :
    bits.contains prof mem start len (!val) = some false := by
  rw [contains_eq_false_iff, Bool.not_not]
  intro i bound
  have inside := run.inside
  exact ⟨by omega, run.uniform _ (by omega) (by omega)⟩

theorem contains_eq_true_of_not_run (prof : Profile) {bits : BitMap} {mem : Memory}
    {start len : Usize} {val : Bool} (inside : start.toNat + len.toNat ≤ bits.size.toNat)
    (broken : ¬bits.IsRun mem val len.toNat start.toNat) :
    bits.contains prof mem start len (!val) = some true := by
  rw [contains_eq_true_iff]
  by_contra absent
  apply broken
  refine ⟨inside, ?_⟩
  intro index lower upper
  by_contra differs
  apply absent
  refine ⟨index - start.toNat, by omega, by omega, ?_⟩
  rw [Nat.add_sub_cancel' lower]
  exact Bool.eq_not.mpr differs

/-- First fit: no position before the least run makes the scan leave the bitmap, so the search
returns that run. -/
theorem find_eq_least (prof : Profile) {bits : BitMap} {mem : Memory} {start len idx : Usize}
    {val : Bool} (nonempty : 1 ≤ len.toNat) (behind : start.toNat ≤ idx.toNat)
    (run : bits.IsRun mem val len.toNat idx.toNat)
    (least : ∀ earlier, start.toNat ≤ earlier → earlier < idx.toNat →
      ¬bits.IsRun mem val len.toNat earlier) :
    bits.find prof mem start len val = some (some idx) := by
  have inside := run.inside
  apply (findM?_word_range_iff _ _ _ _).mpr
  refine ⟨behind, by omega, ?_, ?_⟩
  · intro other above below
    have broken := contains_eq_true_of_not_run prof (by omega) (least other.toNat above below)
    simp [broken]
  · simp [contains_eq_false_of_run prof run]

theorem new_spec (prof : Profile) (dataPtr size : Usize) (mem : Memory)
    (fits : size.toNat + 7 < 0x100000000) :
    BitMap.new prof dataPtr size mem =
      some ({ dataPtr, size }, memset mem dataPtr 0 ((size.toNat + 7) / 8)) := by
  have sum : (size + 7).toNat = size.toNat + 7 := BitVec.toNat_add_of_lt fits
  have len : ((size + 7) / 8).toNat = (size.toNat + 7) / 8 := by
    rw [BitVec.toNat_udiv, sum]
    rfl
  simp only [BitMap.new, add_exact prof size 7 fits, Option.bind_eq_bind, Option.bind_some, len]

theorem memset_bit (bits : BitMap) (mem : Memory) (len index : Nat) (inside : index < 8 * len)
    (word : index < 0x100000000) :
    bits.bit (memset mem bits.dataPtr 0 len) index = false := by
  have ptrWord := bits.dataPtr.isLt
  have hit : bits.byteAddr (index / 8) < 0x100000000 ∧
      (bits.byteAddr (index / 8) + 0x100000000 - bits.dataPtr.toNat) % 0x100000000 < len := by
    unfold BitMap.byteAddr
    omega
  rw [BitMap.bit, memset, if_pos hit]
  simp

end RondOS.PageBitmap
