import RondOS.Kernel.PageBitmap

/-!
# The page bitmap as an array of booleans

A caller of `BitMap` thinks of `size` booleans. The packed bytes refine that array: each operation
changes the elements it names, and neither the padding bits of the last byte nor any byte outside
the bitmap. The only operation whose arithmetic can leave the word is the rounding in `new`.
-/

namespace RondOS.BitArray

open ByteMemory RustWord PageBitmap

set_option autoImplicit false

def onRange {size : Nat} (change : Bool → Bool) (start len : Nat) (cells : Fin size → Bool) :
    Fin size → Bool :=
  fun idx => if start ≤ idx.val ∧ idx.val < start + len then change (cells idx) else cells idx

def cells (bits : BitMap) (mem : Memory) : Fin bits.size.toNat → Bool :=
  fun idx => bits.bit mem idx.val

def byteCount (bits : BitMap) : Nat := (bits.size.toNat + 7) / 8

/-- Nothing but the array itself differs: the padding bits and the bytes around the bitmap are the
old ones. -/
structure KeepsRest (bits : BitMap) (before after : Memory) : Prop where
  padding : ∀ index, bits.size.toNat ≤ index → index < 8 * byteCount bits →
    bits.bit after index = bits.bit before index
  outside : ∀ addr, (∀ index, index < byteCount bits → addr ≠ bits.byteAddr index) →
    after addr = before addr

/-- A call returns and has the effect of `step` on the array, and no other effect. -/
def Performs (bits : BitMap) (call : Memory → Option Memory)
    (step : (Fin bits.size.toNat → Bool) → Fin bits.size.toNat → Bool) : Prop :=
  ∀ mem, ∃ after, call mem = some after ∧ cells bits after = step (cells bits mem) ∧
    KeepsRest bits mem after

/-- What it means that the bitmap made of a pointer and a size is an array of booleans. -/
structure RefinesArray (prof : Profile) (dataPtr size : Usize) : Prop where
  test : ∀ mem (idx : Usize) (inside : idx < size),
    BitMap.test ⟨dataPtr, size⟩ mem idx =
      some (cells ⟨dataPtr, size⟩ mem ⟨idx.toNat, BitVec.lt_def.mp inside⟩)
  mark : ∀ idx : Usize, idx < size →
    Performs ⟨dataPtr, size⟩ (BitMap.mark ⟨dataPtr, size⟩ idx)
      (onRange (fun _ => true) idx.toNat 1)
  clear : ∀ idx : Usize, idx < size →
    Performs ⟨dataPtr, size⟩ (BitMap.clear ⟨dataPtr, size⟩ idx)
      (onRange (fun _ => false) idx.toNat 1)
  set : ∀ (idx : Usize) val, idx < size →
    Performs ⟨dataPtr, size⟩ (BitMap.set ⟨dataPtr, size⟩ val idx)
      (onRange (fun _ => val) idx.toNat 1)
  flip : ∀ idx : Usize, idx < size →
    Performs ⟨dataPtr, size⟩ (BitMap.flip ⟨dataPtr, size⟩ idx)
      (onRange (fun bit => !bit) idx.toNat 1)
  sets : ∀ (idx len : Usize) val, idx.toNat + len.toNat ≤ size.toNat →
    Performs ⟨dataPtr, size⟩ (BitMap.sets prof ⟨dataPtr, size⟩ idx len val)
      (onRange (fun _ => val) idx.toNat len.toNat)
  flips : ∀ idx len : Usize, idx.toNat + len.toNat ≤ size.toNat →
    Performs ⟨dataPtr, size⟩ (BitMap.flips prof ⟨dataPtr, size⟩ idx len)
      (onRange (fun bit => !bit) idx.toNat len.toNat)
  flipsTwice : ∀ (idx len : Usize) mem, idx.toNat + len.toNat ≤ size.toNat →
    (BitMap.flips prof ⟨dataPtr, size⟩ idx len mem).bind
      (BitMap.flips prof ⟨dataPtr, size⟩ idx len) = some mem
  setsTwice : ∀ (idx len : Usize) val mem, idx.toNat + len.toNat ≤ size.toNat →
    (BitMap.sets prof ⟨dataPtr, size⟩ idx len val mem).bind
      (BitMap.sets prof ⟨dataPtr, size⟩ idx len val) =
        BitMap.sets prof ⟨dataPtr, size⟩ idx len val mem
  new : ∀ mem, ∃ after, BitMap.new prof dataPtr size mem = some (⟨dataPtr, size⟩, after) ∧
    (∀ idx, cells ⟨dataPtr, size⟩ after idx = false) ∧
    ∀ addr, (∀ index, index < byteCount ⟨dataPtr, size⟩ →
      addr ≠ BitMap.byteAddr ⟨dataPtr, size⟩ index) → after addr = mem addr

theorem keeps_rest_of_changed {bits : BitMap} {change : Bool → Bool} {start len : Nat}
    {before after : Memory} (inside : start + len ≤ bits.size.toNat)
    (changed : BitsChanged bits change start len before after) : KeepsRest bits before after where
  padding := by
    intro index above stored
    have word := bits.size.isLt
    unfold byteCount at stored
    exact changed.outside index (by omega) (by omega)
  outside := by
    intro addr away
    apply changed.frame
    intro index lower upper
    apply away
    unfold byteCount
    omega

theorem cells_of_changed {bits : BitMap} {change : Bool → Bool} {start len : Nat}
    {before after : Memory} (changed : BitsChanged bits change start len before after) :
    cells bits after = onRange change start len (cells bits before) := by
  funext idx
  have word := bits.size.isLt
  have bound := idx.isLt
  unfold cells onRange
  split_ifs with within
  · exact changed.inside idx.val within.1 within.2
  · exact changed.outside idx.val (by omega) within

theorem performs_of_spec {bits : BitMap} {call : Memory → Option Memory} {change : Bool → Bool}
    {start len : Nat} (inside : start + len ≤ bits.size.toNat)
    (spec : ∀ mem, ∃ after, call mem = some after ∧
      BitsChanged bits change start len mem after) :
    Performs bits call (onRange change start len) := by
  intro mem
  obtain ⟨after, ran, changed⟩ := spec mem
  exact ⟨after, ran, cells_of_changed changed, keeps_rest_of_changed inside changed⟩

theorem memory_ext (bits : BitMap) {first second : Memory}
    (stored : ∀ index, index < 8 * byteCount bits → bits.bit first index = bits.bit second index)
    (outside : ∀ addr, (∀ index, index < byteCount bits → addr ≠ bits.byteAddr index) →
      first addr = second addr) : first = second := by
  funext addr
  by_cases owned : ∃ index, index < byteCount bits ∧ addr = bits.byteAddr index
  · rcases owned with ⟨index, within, rfl⟩
    apply BitVec.eq_of_getLsbD_eq
    intro position inByte
    have bit := stored (8 * index + position) (by omega)
    have byte : (8 * index + position) / 8 = index := by omega
    have slot : (8 * index + position) % 8 = position := by omega
    unfold BitMap.bit at bit
    rwa [byte, slot] at bit
  · apply outside
    intro index within same
    exact owned ⟨index, within, same⟩

theorem changed_twice {bits : BitMap} {first second both : Bool → Bool} {start len : Nat}
    {mem middle after direct : Memory} (inside : start + len ≤ bits.size.toNat)
    (composed : ∀ bit, second (first bit) = both bit)
    (early : BitsChanged bits first start len mem middle)
    (late : BitsChanged bits second start len middle after)
    (whole : BitsChanged bits both start len mem direct) : after = direct := by
  have word := bits.size.isLt
  have earlyRest := keeps_rest_of_changed inside early
  have lateRest := keeps_rest_of_changed inside late
  have wholeRest := keeps_rest_of_changed inside whole
  apply memory_ext bits
  · intro index stored
    unfold byteCount at stored
    by_cases within : start ≤ index ∧ index < start + len
    · rw [late.inside index within.1 within.2, early.inside index within.1 within.2, composed,
        whole.inside index within.1 within.2]
    · rw [late.outside index (by omega) within, early.outside index (by omega) within,
        whole.outside index (by omega) within]
  · intro addr away
    rw [lateRest.outside addr away, earlyRest.outside addr away, wholeRest.outside addr away]

theorem unchanged (bits : BitMap) (start len : Nat) (mem : Memory) :
    BitsChanged bits (fun bit => bit) start len mem mem where
  inside := fun _ _ _ => rfl
  outside := fun _ _ _ => rfl
  frame := fun _ _ => rfl

theorem flips_twice (prof : Profile) (bits : BitMap) (idx len : Usize) (mem : Memory)
    (inside : idx.toNat + len.toNat ≤ bits.size.toNat) :
    (bits.flips prof idx len mem).bind (bits.flips prof idx len) = some mem := by
  obtain ⟨middle, ran, early⟩ := flips_spec prof bits idx len mem inside
  obtain ⟨after, again, late⟩ := flips_spec prof bits idx len middle inside
  have same : after = mem :=
    changed_twice inside Bool.not_not early late (unchanged bits idx.toNat len.toNat mem)
  rw [ran, Option.bind_some, again, same]

theorem sets_twice (prof : Profile) (bits : BitMap) (idx len : Usize) (val : Bool) (mem : Memory)
    (inside : idx.toNat + len.toNat ≤ bits.size.toNat) :
    (bits.sets prof idx len val mem).bind (bits.sets prof idx len val) =
      bits.sets prof idx len val mem := by
  obtain ⟨middle, ran, early⟩ := sets_spec prof bits idx len val mem inside
  obtain ⟨after, again, late⟩ := sets_spec prof bits idx len val middle inside
  have same : after = middle := changed_twice inside (fun _ => rfl) early late early
  rw [ran, Option.bind_some, again, same]

theorem new_clears (prof : Profile) (dataPtr size : Usize) (mem : Memory)
    (fits : size.toNat + 7 < 0x100000000) :
    ∃ after, BitMap.new prof dataPtr size mem = some (⟨dataPtr, size⟩, after) ∧
      (∀ idx, cells ⟨dataPtr, size⟩ after idx = false) ∧
      ∀ addr, (∀ index, index < byteCount ⟨dataPtr, size⟩ →
        addr ≠ BitMap.byteAddr ⟨dataPtr, size⟩ index) → after addr = mem addr := by
  have pointer := dataPtr.isLt
  refine ⟨_, new_spec prof dataPtr size mem fits, ?_, ?_⟩
  · intro idx
    have bound : idx.val < size.toNat := idx.isLt
    exact memset_bit ⟨dataPtr, size⟩ mem _ idx.val (by omega) (by omega)
  · intro addr away
    apply if_neg
    intro hit
    apply away _ hit.2
    change addr = (dataPtr.toNat + _) % 0x100000000
    omega

/-- In the last seven sizes the rounding leaves the word: a debug build aborts, a release build
clears nothing. -/
theorem new_overflows (prof : Profile) (dataPtr size : Usize) (mem : Memory)
    (large : 0x100000000 ≤ size.toNat + 7) :
    BitMap.new prof dataPtr size mem = none ∨
      BitMap.new prof dataPtr size mem = some (⟨dataPtr, size⟩, mem) := by
  have word := size.isLt
  cases prof with
  | debug =>
      left
      have overflow : Profile.debug.add size 7 = none := if_pos ⟨rfl, large⟩
      rw [BitMap.new, overflow]
      rfl
  | release =>
      right
      have wrapped : Profile.release.add size 7 = some (size + 7) :=
        if_neg fun debug => Profile.noConfusion debug.1
      have len : ((size + 7) / 8).toNat = 0 := by
        rw [BitVec.toNat_udiv, BitVec.toNat_add]
        change (size.toNat + 7) % 0x100000000 / 8 = 0
        omega
      have nothing : memset mem dataPtr 0 0 = mem := by
        funext addr
        exact if_neg fun hit => absurd hit.2 (Nat.not_lt_zero _)
      simp only [BitMap.new, wrapped, Option.bind_eq_bind, Option.bind_some, len, nothing]

theorem not_refines_of_large (prof : Profile) (dataPtr size : Usize)
    (large : 0x100000000 ≤ size.toNat + 7) : ¬RefinesArray prof dataPtr size := by
  intro refines
  obtain ⟨after, made, clear, _⟩ := refines.new fun _ => 0xff
  rcases new_overflows prof dataPtr size (fun _ => 0xff) large with aborted | skipped
  · rw [aborted] at made
    cases made
  · rw [skipped] at made
    cases made
    have nonempty : 0 < size.toNat := by omega
    exact absurd (clear ⟨0, nonempty⟩) (by simp [cells, BitMap.bit])

theorem refines_array_iff (prof : Profile) (dataPtr size : Usize) :
    RefinesArray prof dataPtr size ↔ size.toNat + 7 < 0x100000000 := by
  constructor
  · intro refines
    by_contra large
    exact not_refines_of_large prof dataPtr size (by omega) refines
  · intro fits
    have single : ∀ idx : Usize, idx < size → idx.toNat + 1 ≤ size.toNat :=
      fun idx inside => BitVec.lt_def.mp inside
    constructor
    · intro mem idx inside
      exact test_eq ⟨dataPtr, size⟩ mem idx inside
    · intro idx inside
      exact performs_of_spec (single idx inside) fun mem =>
        modify_spec mark_acts ⟨dataPtr, size⟩ idx mem inside
    · intro idx inside
      exact performs_of_spec (single idx inside) fun mem =>
        modify_spec clear_acts ⟨dataPtr, size⟩ idx mem inside
    · intro idx val inside
      exact performs_of_spec (single idx inside) fun mem =>
        set_spec ⟨dataPtr, size⟩ val idx mem inside
    · intro idx inside
      exact performs_of_spec (single idx inside) fun mem =>
        modify_spec flip_acts ⟨dataPtr, size⟩ idx mem inside
    · intro idx len val inside
      exact performs_of_spec inside fun mem =>
        sets_spec prof ⟨dataPtr, size⟩ idx len val mem inside
    · intro idx len inside
      exact performs_of_spec inside fun mem => flips_spec prof ⟨dataPtr, size⟩ idx len mem inside
    · intro idx len mem inside
      exact flips_twice prof ⟨dataPtr, size⟩ idx len mem inside
    · intro idx len val mem inside
      exact sets_twice prof ⟨dataPtr, size⟩ idx len val mem inside
    · intro mem
      exact new_clears prof dataPtr size mem fits

/-- Thirteen pages: the second byte has three padding bits. -/
theorem thirteen_bits_refine_array : RefinesArray .debug 0xc0100000 13 :=
  (refines_array_iff .debug 0xc0100000 13).mpr (by decide)

theorem full_word_size_not_cleared :
    ¬∀ (prof : Profile) (dataPtr size : Usize), RefinesArray prof dataPtr size := by
  intro refines
  exact not_refines_of_large .release 0xc0100000 0xffffffff (by decide)
    (refines .release 0xc0100000 0xffffffff)

end RondOS.BitArray
