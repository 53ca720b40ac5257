import RondOS.Lib.Protected
import RondOS.Loader.KernelImage
import Mathlib.Tactic.IntervalCases

/-!
# The switch to protected mode

`set_pde` turns paging and protection on in one write to `cr0`, between two instructions of the boot
sector, and `protect_entry` reloads every segment register. `Handover` takes it for granted that
addresses mean the same afterwards. This module executes the switch with its descriptors, and with
the bits that the processor sets in them and in the page tables, and shows that they do.
-/

namespace RondOS.ProtectedMode

open ByteMemory I386 Paging Protected Image DiskRead DetectMem PageTables Handover KernelImage

set_option autoImplicit false

def cr0Pe : Nat := 0x00000001
def cr0Pg : Nat := 0x80000000
def cr0Wp : Nat := 0x00010000

def gdtKcseg : Nat := 0x00cf9a000000ffff
def gdtKdseg : Nat := 0x00cf92000000ffff

def selectorCodeSeg : Nat := 0x08
def selectorDataSeg : Nat := 0x10

def gdtTable (kcseg kdseg : Nat) : List Byte := leBytes 8 0 ++ leBytes 8 kcseg ++ leBytes 8 kdseg

def gdtBytes : List Byte := gdtTable gdtKcseg gdtKdseg

def gdtdescBytes (gdt : Nat) : List Byte :=
  leBytes 2 (gdtBytes.length - 1) ++ leBytes 4 (gdt + loaderLoadAddr)

structure Labels (boot : BootBlock) where
  gdt : Nat
  aligned : gdt % 8 = 0
  inside : gdt + 30 ≤ 510
  placed : ∀ index, index < 30 →
    boot.byte (gdt + index) = (gdtBytes ++ gdtdescBytes gdt).getD index 0

def Labels.gdtdesc {boot : BootBlock} (labels : Labels boot) : Nat := labels.gdt + 24

def onLowWord (f : Nat → Nat) (value : Nat) : Nat :=
  value / 0x10000 * 0x10000 + f (value % 0x10000) % 0x10000

structure Switched where
  gdtr : TablePointer
  code : Descriptor
  data : Descriptor
  stack : Descriptor
  cr0 : Nat
  cr4 : Nat
  esp : Nat
  eip : Nat
  mem : Memory

/-- What the write to `cr0` needs of bits that the loader does not decide. It faults with NW set and
CD clear, and with PAE, for which the directory is no table of pointers; SMEP and SMAP would fault
the kernel's first use of its user pages. -/
def plainControl (cr0 cr4 : Nat) : Bool :=
  (!cr0.testBit 29 || cr0.testBit 30) && !cr4.testBit 5 && !cr4.testBit 20 && !cr4.testBit 21

/-- `set_pde`, `protect_entry` and `enable_sse`. The segment loads already go through the new page
tables; `ds`, `es`, `fs` and `gs` all get the same selector. -/
def setPde {boot : BootBlock} (labels : Labels boot) (imageEnd cr0 cr4 : Nat) (mem : Memory) :
    Option Switched := do
  let gdtr := lgdt16 mem (linear (loaderLoadAddr >>> 4) labels.gdtdesc)
  if plainControl cr0 cr4 then
    let (code, mem) ← loadCode 0 selectorCodeSeg mem pagingTableAddr gdtr
    let (data, mem) ← loadData 0 selectorDataSeg mem pagingTableAddr gdtr
    let (stack, mem) ← loadStack 0 selectorDataSeg mem pagingTableAddr gdtr
    let target ← data.linear (kernelBase + loaderLoadAddr + kernelSize)
    let mem ← store mem pagingTableAddr target 4 imageEnd
    let source ← data.linear (kernelBase + 0x21018)
    let (entry, mem) ← load mem pagingTableAddr source 4
    some
      { gdtr
        code
        data
        stack
        cr0 := onLowWord (fun ax => ax &&& 0xfffb ||| 2) (cr0 ||| (cr0Pe ||| cr0Pg ||| cr0Wp))
        cr4 := onLowWord (fun ax => ax ||| 3 <<< 9) cr4
        esp := 0xf000 + kernelBase
        eip := entry
        mem }
  else none

/-- `next_part` and everything behind it. -/
def enterKernel {boot : BootBlock} (labels : Labels boot) (imageEnd cr0 cr4 : Nat)
    (responses : List E820Response) (mem : Memory) : Option Switched := do
  setPde labels imageEnd cr0 cr4 (pagingSetup (← nextPart responses mem))

def gdtPointer (gdt : Nat) : TablePointer where
  limit := 23
  base := loaderLoadAddr + gdt

def GdtStored (gdt : Nat) (mem : Memory) : Prop :=
  ∀ index, index < 30 →
    mem (loaderLoadAddr + gdt + index) = (gdtBytes ++ gdtdescBytes gdt).getD index 0

/-- The table alone; the loads of the segment registers change its two descriptors. -/
def TableStored (kcseg kdseg gdt : Nat) (mem : Memory) : Prop :=
  ∀ index, index < 24 → mem (loaderLoadAddr + gdt + index) = (gdtTable kcseg kdseg).getD index 0

def loadedKcseg : Nat := gdtKcseg ||| 2 ^ 40
def loadedKdseg : Nat := gdtKdseg ||| 2 ^ 40

theorem GdtStored.table {gdt : Nat} {mem : Memory} (stored : GdtStored gdt mem) :
    TableStored gdtKcseg gdtKdseg gdt mem := by
  intro index inside
  rw [stored index (by omega), gdtBytes, List.getD_append]
  exact inside

theorem stored_pointer {gdt : Nat} {mem : Memory} (stored : GdtStored gdt mem)
    (inside : gdt + 30 ≤ 510) : lgdt16 mem (loaderLoadAddr + gdt + 24) = gdtPointer gdt := by
  have field : ∀ offset width (bytes : List Byte), bytes.length = width → offset + width ≤ 30 →
      (∀ index, index < width →
        (gdtBytes ++ gdtdescBytes gdt).getD (offset + index) 0 = bytes.getD index 0) →
      readLE mem (loaderLoadAddr + gdt + offset) width = leValue bytes := by
    intro offset width bytes size fits listed
    apply (read_le_eq_iff mem _ width bytes size).mpr
    intro index bound
    rw [Nat.add_assoc, stored (offset + index) (by omega), listed index bound]
  have limit : readLE mem (loaderLoadAddr + gdt + 24) 2 = 23 := by
    rw [field 24 2 (leBytes 2 23) rfl (by decide)]
    · decide
    · intro index bound
      interval_cases index <;> rfl
  have base : readLE mem (loaderLoadAddr + gdt + 24 + 2) 4 = gdt + loaderLoadAddr := by
    rw [Nat.add_assoc, field 26 4 (leBytes 4 (gdt + loaderLoadAddr)) rfl (by decide)]
    · rw [le_value_le_bytes]
      unfold loaderLoadAddr
      omega
    · intro index bound
      interval_cases index <;> rfl
  have small : (gdt + loaderLoadAddr) % 0x1000000 = loaderLoadAddr + gdt := by
    unfold loaderLoadAddr
    omega
  rw [lgdt16, limit, base, small, gdtPointer]

section Table

variable {kcseg kdseg gdt : Nat} {mem after : Memory} (stored : TableStored kcseg kdseg gdt mem)
include stored

theorem stored_descriptors (kcsegWord : kcseg < 2 ^ 64) (kdsegWord : kdseg < 2 ^ 64) :
    readLE mem (loaderLoadAddr + gdt + 8) 8 = kcseg ∧
      readLE mem (loaderLoadAddr + gdt + 16) 8 = kdseg := by
  have size : (256 : Nat) ^ 8 = 2 ^ 64 := by decide
  constructor
  · rw [(read_le_eq_iff mem _ 8 (leBytes 8 kcseg) rfl).mpr, le_value_le_bytes, size,
      Nat.mod_eq_of_lt kcsegWord]
    intro index bound
    rw [Nat.add_assoc, stored (8 + index) (by omega)]
    interval_cases index <;> rfl
  · rw [(read_le_eq_iff mem _ 8 (leBytes 8 kdseg) rfl).mpr, le_value_le_bytes, size,
      Nat.mod_eq_of_lt kdsegWord]
    intro index bound
    rw [Nat.add_assoc, stored (16 + index) (by omega)]
    interval_cases index <;> rfl

theorem TableStored.store_byte {kcseg' kdseg' place value : Nat} (inside : place < 24)
    (marked : Marked pageEntries (writeLE mem (loaderLoadAddr + gdt + place) 1 value) after)
    (changed : (gdtTable kcseg' kdseg').getD place 0 = BitVec.ofNat 8 value)
    (others : ∀ index, index < 24 → index ≠ place →
      (gdtTable kcseg' kdseg').getD index 0 = (gdtTable kcseg kdseg).getD index 0) :
    TableStored kcseg' kdseg' gdt after := by
  intro index bound
  have outside : ¬pageEntries (loaderLoadAddr + gdt + index) := by
    rw [Nat.add_assoc]
    exact image_not_entry _
  rw [(marked _).eq outside]
  by_cases hit : index = place
  · subst hit
    rw [changed]
    exact write_bytes_inside mem _ 0 [BitVec.ofNat 8 value] Nat.zero_lt_one
  · rw [write_le_outside _ _ _ _ _ (by omega), stored index bound, others index bound hit]

end Table

theorem tables_of_store {mem after : Memory} (tables : TablesMarked mem) {addr width value : Nat}
    (above : 0x20000 ≤ addr) (marked : Marked pageEntries (writeLE mem addr width value) after) :
    TablesMarked after := by
  apply tables.congr
  intro target _ upper
  have same := marked target
  rw [MarkedAt, write_le_outside _ _ _ _ _ (by omega)] at same
  exact same

def kernelCode : Descriptor := decodeDescriptor gdtKcseg
def kernelData : Descriptor := decodeDescriptor gdtKdseg

theorem kernel_code_flat : kernelCode.Flat := ⟨by decide, by decide, by decide⟩

theorem kernel_data_flat : kernelData.Flat := ⟨by decide, by decide, by decide⟩

theorem on_low_word_bit (f : Nat → Nat) (value index : Nat) :
    (onLowWord f value).testBit index =
      if index < 16 then (f (value % 0x10000)).testBit index else value.testBit index := by
  have low : f (value % 0x10000) % 2 ^ 16 < 2 ^ 16 := Nat.mod_lt _ (by decide)
  have split : onLowWord f value = 2 ^ 16 * (value / 2 ^ 16) + f (value % 0x10000) % 2 ^ 16 := by
    rw [onLowWord, Nat.mul_comm]
    rfl
  rw [split, Nat.testBit_two_pow_mul_add _ low]
  by_cases inLow : index < 16
  · rw [if_pos inLow, if_pos inLow, Nat.testBit_mod_two_pow, decide_eq_true inLow, Bool.true_and]
  · have moved : index - 16 + 16 = index := by omega
    rw [if_neg inLow, if_neg inLow, Nat.testBit_div_two_pow, moved]

/-- The bits of `cr0` that the loader decides: protection, monitoring, emulation, write protection
and paging. -/
structure ControlBits (cr0 : Nat) : Prop where
  pe : cr0.testBit 0 = true
  mp : cr0.testBit 1 = true
  em : cr0.testBit 2 = false
  wp : cr0.testBit 16 = true
  pg : cr0.testBit 31 = true

theorem control_bits (cr0 : Nat) :
    ControlBits (onLowWord (fun ax => ax &&& 0xfffb ||| 2)
      (cr0 ||| (cr0Pe ||| cr0Pg ||| cr0Wp))) := by
  have low : ∀ index, index < 16 →
      (onLowWord (fun ax => ax &&& 0xfffb ||| 2) (cr0 ||| (cr0Pe ||| cr0Pg ||| cr0Wp))).testBit index =
        ((cr0.testBit index || (cr0Pe ||| cr0Pg ||| cr0Wp).testBit index) &&
          (0xfffb : Nat).testBit index || (2 : Nat).testBit index) := by
    intro index small
    have taken := Nat.testBit_mod_two_pow (cr0 ||| (cr0Pe ||| cr0Pg ||| cr0Wp)) 16 index
    rw [decide_eq_true small, Bool.true_and] at taken
    rw [on_low_word_bit, if_pos small, Nat.testBit_or, Nat.testBit_and, ← Nat.testBit_or, ← taken]
  have high : ∀ index, ¬index < 16 →
      (onLowWord (fun ax => ax &&& 0xfffb ||| 2) (cr0 ||| (cr0Pe ||| cr0Pg ||| cr0Wp))).testBit index =
        (cr0.testBit index || (cr0Pe ||| cr0Pg ||| cr0Wp).testBit index) := by
    intro index large
    rw [on_low_word_bit, if_neg large, Nat.testBit_or]
  have pe : (cr0Pe ||| cr0Pg ||| cr0Wp).testBit 0 = true ∧ (0xfffb : Nat).testBit 0 = true := by
    decide
  have mp : (2 : Nat).testBit 1 = true := by decide
  have em : (0xfffb : Nat).testBit 2 = false ∧ (2 : Nat).testBit 2 = false := by decide
  have wp : (cr0Pe ||| cr0Pg ||| cr0Wp).testBit 16 = true := by decide
  have pg : (cr0Pe ||| cr0Pg ||| cr0Wp).testBit 31 = true := by decide
  refine ⟨?_, ?_, ?_, ?_, ?_⟩
  · rw [low 0 (by decide), pe.1, pe.2, Bool.or_true, Bool.true_and, Bool.true_or]
  · rw [low 1 (by decide), mp, Bool.or_true]
  · rw [low 2 (by decide), em.1, em.2, Bool.and_false, Bool.or_false]
  · rw [high 16 (by decide), wp, Bool.or_true]
  · rw [high 31 (by decide), pg, Bool.or_true]

def switchedOver (gdt cr0 cr4 : Nat) (mem : Memory) : Switched where
  gdtr := gdtPointer gdt
  code := kernelCode
  data := kernelData
  stack := kernelData
  cr0 := onLowWord (fun ax => ax &&& 0xfffb ||| 2) (cr0 ||| (cr0Pe ||| cr0Pg ||| cr0Wp))
  cr4 := onLowWord (fun ax => ax ||| 3 <<< 9) cr4
  esp := 0xf000 + kernelBase
  eip := readLE mem 0x21018 4
  mem

/-- What the switch changes of the memory that is handed over: the accessed bits of the two
descriptors, and marks. -/
structure SwitchedFrom (gdt : Nat) (handed after : Memory) : Prop where
  tables : TablesMarked after
  segments : TableStored loadedKcseg loadedKdseg gdt after
  others : ∀ target, target ≠ loaderLoadAddr + gdt + 13 → target ≠ loaderLoadAddr + gdt + 21 →
    MarkedAt pageEntries handed after target

section Switch

variable {boot : BootBlock} (labels : Labels boot)

theorem segments_loaded {gdt : Nat} {mem : Memory} (tables : TablesMarked mem)
    (stored : TableStored gdtKcseg gdtKdseg gdt mem) (inside : gdt + 30 ≤ 510) :
    ∃ first second third,
      loadCode 0 selectorCodeSeg mem pagingTableAddr (gdtPointer gdt) = some (kernelCode, first) ∧
      loadData 0 selectorDataSeg first pagingTableAddr (gdtPointer gdt) =
        some (kernelData, second) ∧
      loadStack 0 selectorDataSeg second pagingTableAddr (gdtPointer gdt) =
        some (kernelData, third) ∧ SwitchedFrom gdt mem third := by
  have code : descriptorAddr (gdtPointer gdt) selectorCodeSeg = some (loaderLoadAddr + gdt + 8) :=
    rfl
  have data : descriptorAddr (gdtPointer gdt) selectorDataSeg = some (loaderLoadAddr + gdt + 16) :=
    rfl
  have clear : ∀ offset index, ¬pageEntries (loaderLoadAddr + gdt + offset - 0 + index) := by
    intro offset index
    rw [Nat.sub_zero, Nat.add_assoc, Nat.add_assoc]
    exact image_not_entry _
  have fits : ∀ offset, offset ≤ 16 → loaderLoadAddr + gdt + offset + 8 ≤ 0 + windowSize := by
    intro offset small
    unfold loaderLoadAddr windowSize
    omega
  have place : ∀ offset, 0x20000 ≤ loaderLoadAddr + gdt + offset := by
    intro offset
    unfold loaderLoadAddr
    omega
  obtain ⟨kcseg, _⟩ := stored_descriptors stored (by decide) (by decide)
  obtain ⟨first, loadedFirst, markedFirst⟩ :=
    load_segment_run (tables.window_mapped (Or.inl rfl)) code (Nat.zero_le _)
      (fits 8 (by decide)) (fun index _ => clear 8 index) kcseg
      (show codeAllowed 0 selectorCodeSeg (decodeDescriptor gdtKcseg) = true by decide)
  change Marked pageEntries (writeLE mem (loaderLoadAddr + gdt + 13) 1 0x9b) first at markedFirst
  have tablesFirst := tables_of_store tables (place 13) markedFirst
  have storedFirst : TableStored loadedKcseg gdtKdseg gdt first :=
    stored.store_byte (by decide) markedFirst (by decide) (by decide)
  obtain ⟨_, kdseg⟩ := stored_descriptors storedFirst (by decide) (by decide)
  obtain ⟨second, loadedSecond, markedSecond⟩ :=
    load_segment_run (tablesFirst.window_mapped (Or.inl rfl)) data (Nat.zero_le _)
      (fits 16 (by decide)) (fun index _ => clear 16 index) kdseg
      (show dataAllowed 0 selectorDataSeg (decodeDescriptor gdtKdseg) = true by decide)
  change Marked pageEntries (writeLE first (loaderLoadAddr + gdt + 21) 1 0x93) second
    at markedSecond
  have tablesSecond := tables_of_store tablesFirst (place 21) markedSecond
  have storedSecond : TableStored loadedKcseg loadedKdseg gdt second :=
    storedFirst.store_byte (by decide) markedSecond (by decide) (by decide)
  obtain ⟨_, accessed⟩ := stored_descriptors storedSecond (by decide) (by decide)
  obtain ⟨third, loadedThird, markedThird⟩ :=
    load_segment_run (tablesSecond.window_mapped (Or.inl rfl)) data (Nat.zero_le _)
      (fits 16 (by decide)) (fun index _ => clear 16 index) accessed
      (show stackAllowed 0 selectorDataSeg (decodeDescriptor loadedKdseg) = true by decide)
  change Marked pageEntries second third at markedThird
  refine ⟨first, second, third, loadedFirst, loadedSecond, loadedThird,
    tablesSecond.congr fun target _ _ => markedThird target, ?_, ?_⟩
  · intro index bound
    rw [← storedSecond index bound]
    exact (markedThird _).eq (clear index 0)
  · intro target notCode notData
    have front := markedFirst target
    have back := markedSecond target
    rw [MarkedAt, write_le_outside _ _ _ _ _ (by omega)] at front back
    exact (MarkedAt.trans front back).trans (markedThird target)

theorem set_pde_run {mem : Memory} (tables : TablesMarked mem)
    (stored : GdtStored labels.gdt mem) (imageEnd : Nat) {cr0 cr4 : Nat}
    (plain : plainControl cr0 cr4 = true) :
    ∃ after, setPde labels imageEnd cr0 cr4 mem = some (switchedOver labels.gdt cr0 cr4 after) ∧
      SwitchedFrom labels.gdt (writeLE mem 0x20200 4 imageEnd) after := by
  have inside := labels.inside
  have pointer : lgdt16 mem (linear (loaderLoadAddr >>> 4) labels.gdtdesc) =
      gdtPointer labels.gdt := by
    have address : linear (loaderLoadAddr >>> 4) labels.gdtdesc =
        loaderLoadAddr + labels.gdt + 24 := by
      rw [record_address, Labels.gdtdesc, loaderLoadAddr]
      omega
    rw [address, stored_pointer stored inside]
  obtain ⟨first, second, third, code, data, stack, loaded⟩ :=
    segments_loaded tables stored.table inside
  have target := kernel_data_flat.linear_eq
    (show kernelBase + loaderLoadAddr + kernelSize < 0x100000000 by decide)
  have source := kernel_data_flat.linear_eq (show kernelBase + 0x21018 < 0x100000000 by decide)
  obtain ⟨sized, store, markedSize⟩ := store_run (loaded.tables.window_mapped (Or.inr rfl)) imageEnd
    (show kernelBase ≤ kernelBase + loaderLoadAddr + kernelSize by decide)
    (show kernelBase + loaderLoadAddr + kernelSize + 4 ≤ kernelBase + windowSize by decide)
  change Marked pageEntries (writeLE third 0x20200 4 imageEnd) sized at markedSize
  have tablesSized := tables_of_store loaded.tables (by decide) markedSize
  obtain ⟨after, entry, markedEntry⟩ := load_run (tablesSized.window_mapped (Or.inr rfl))
    (show kernelBase ≤ kernelBase + 0x21018 by decide)
    (show kernelBase + 0x21018 + 4 ≤ kernelBase + windowSize by decide)
    fun index _ => not_page_entry (Or.inr (by rw [Nat.add_sub_cancel_left]; omega))
  have clear : ∀ index, index < 4 → ¬pageEntries (0x21018 + index) :=
    fun index _ => not_page_entry (Or.inr (by omega))
  rw [Nat.add_sub_cancel_left, ← markedEntry.read_le clear] at entry
  refine ⟨after, ?_, tablesSized.congr fun target _ _ => markedEntry target, ?_, ?_⟩
  · -- One bind at a time: after a `simp` the kernel would compare two binds by evaluating both.
    rw [setPde, pointer, if_pos plain, code, Option.bind_eq_bind, Option.bind_some]
    dsimp only
    rw [data, Option.bind_eq_bind, Option.bind_some]
    dsimp only
    rw [stack, Option.bind_eq_bind, Option.bind_some]
    dsimp only
    rw [target, Option.bind_eq_bind, Option.bind_some, store, Option.bind_some, source,
      Option.bind_some, entry, Option.bind_some, switchedOver]
  · intro index bound
    have place : loaderLoadAddr + labels.gdt + index < 0x20200 ∧
        0x20000 ≤ loaderLoadAddr + labels.gdt + index := by
      unfold loaderLoadAddr
      omega
    have outside := not_page_entry (Or.inr place.2)
    rw [(markedEntry _).eq outside, (markedSize _).eq outside,
      write_le_outside _ _ _ _ _ (Or.inl place.1), loaded.segments index bound]
  · intro target notCode notData
    have moved := (loaded.others target notCode notData).write 0x20200 4 imageEnd
    exact (moved.trans (markedSize target)).trans (markedEntry target)

/-- The whole way of an accepted image into the kernel. The boot sector stays where the image has
put it. -/
theorem enter_kernel_run {kernel : List Byte} {int13 : Int13} {responses : List E820Response}
    {mem : Memory} {state : LoaderState} {cr0 cr4 : Nat} (plain : plainControl cr0 cr4 = true)
    (transfers : Transfers (diskByte boot kernel) int13)
    (bounded : loaderEnd kernel + 4 ≤ 0x80000)
    (accepted : loadImage int13 (loaderEnd kernel) mem = .ok state)
    (whole : complete responses = true) (fits : recordsEnd responses ≤ 0x10000) :
    ∃ handed after, handover (loaderEnd kernel) responses state.mem = some handed ∧
      enterKernel labels (loaderEnd kernel) cr0 cr4 responses state.mem =
        some (switchedOver labels.gdt cr0 cr4 after) ∧
      SwitchedFrom labels.gdt handed after ∧
      ∀ offset, offset < 0x200 → handed (loaderLoadAddr + offset) = boot.byte offset := by
  have records : recordsEnd responses = 0x208 + 20 * (storedRecords responses).length := rfl
  have nonempty : 0x1000 ≤ loaderEnd kernel := Nat.le_add_right _ _
  obtain ⟨final, read⟩ := image_read transfers bounded mem
  obtain ⟨same, _⟩ := (read.outcome state).mp accepted
  subst same
  have sector : ∀ offset, offset < 0x200 → state.mem (loaderLoadAddr + offset) = boot.byte offset := by
    intro offset inside
    have time := loader_disk_time_eq (loaderEnd kernel)
    rw [image_read_byte read (by omega) (by omega), disk_byte_image _ _ _ (by omega), imageByte,
      if_pos (by omega)]
  obtain ⟨detected, run, _, _, untouched⟩ := next_part_run responses state.mem whole (by omega)
  obtain ⟨handed, entered, built, kept⟩ :=
    handover_run (loaderEnd kernel) responses state.mem detected run
  have stored : GdtStored labels.gdt (pagingSetup detected) := by
    have inside := labels.inside
    intro index bound
    have target : loaderLoadAddr + labels.gdt + index < 0x20204 ∧
        0x20000 ≤ loaderLoadAddr + labels.gdt + index := by
      unfold loaderLoadAddr
      omega
    rw [paging_setup_frame _ _ (Or.inr target.2), untouched _ (Or.inl target.1), Nat.add_assoc,
      sector _ (by omega), labels.placed index bound]
  have memory : handed = writeLE (pagingSetup detected) 0x20200 4 (loaderEnd kernel) := by
    rw [handover, run] at entered
    exact Option.some.inj (entered.symm.trans (protect_entry_run _ detected))
  obtain ⟨after, switches, switched⟩ :=
    set_pde_run labels (tables_built detected).marked stored (loaderEnd kernel) plain
  rw [← memory] at switched
  refine ⟨handed, after, entered, ?_, switched, ?_⟩
  · rw [enterKernel, run, Option.bind_eq_bind, Option.bind_some, switches]
  · intro offset inside
    have low : 0x20000 ≤ loaderLoadAddr + offset := Nat.le_add_right _ _
    have target : loaderLoadAddr + offset < 0x20200 := by
      unfold loaderLoadAddr
      omega
    rw [kept _ low (Or.inl target), untouched _ (Or.inl (by omega)), sector offset inside]

end Switch

def residentByte {boot : BootBlock} (labels : Labels boot) (offset : Nat) : Byte :=
  if offset = labels.gdt + 13 ∨ offset = labels.gdt + 21 then boot.byte offset ||| 1
  else boot.byte offset

theorem switched_resident {boot : BootBlock} (labels : Labels boot) {handed after : Memory}
    (switched : SwitchedFrom labels.gdt handed after)
    (sector : ∀ offset, offset < 0x200 → handed (loaderLoadAddr + offset) = boot.byte offset)
    {offset : Nat} (inside : offset < 0x200) :
    after (loaderLoadAddr + offset) = residentByte labels offset := by
  have accessed : ∀ index, index < 24 →
      (gdtTable loadedKcseg loadedKdseg).getD index 0 = gdtBytes.getD index 0 ||| 1 →
      after (loaderLoadAddr + (labels.gdt + index)) = boot.byte (labels.gdt + index) ||| 1 := by
    intro index bound same
    rw [labels.placed index (by omega), List.getD_append _ _ _ _ bound, ← same, ← Nat.add_assoc]
    exact switched.segments index bound
  unfold residentByte
  split_ifs with descriptor
  · rcases descriptor with rfl | rfl
    · exact accessed 13 (by decide) (by decide)
    · exact accessed 21 (by decide) (by decide)
  · rw [(switched.others _ (by omega) (by omega)).eq (image_not_entry offset),
      sector offset inside]

/-- Between the write to `cr0` and the kernel no address changes its meaning. With ordinary control
bits the switch itself never faults: its segments are flat, the image and all of low memory are found
at their old addresses and in the kernel window, whatever marks later accesses set, and the boot
sector goes on executing. The kernel gets the memory that `handover` describes, up to marks and the
accessed bits of the two descriptors. -/
theorem switch_keeps_addresses (boot : BootBlock) (labels : Labels boot) (kernel : List Byte)
    (int13 : Int13) (responses : List E820Response) (mem : Memory) (state : LoaderState)
    (cr0 cr4 : Nat) (plain : plainControl cr0 cr4 = true)
    (transfers : Transfers (diskByte boot kernel) int13)
    (bounded : loaderEnd kernel + 4 ≤ 0x80000)
    (accepted : loadImage int13 (loaderEnd kernel) mem = .ok state)
    (whole : complete responses = true) (fits : recordsEnd responses ≤ 0x10000) :
    ∃ handed switched, handover (loaderEnd kernel) responses state.mem = some handed ∧
      enterKernel labels (loaderEnd kernel) cr0 cr4 responses state.mem = some switched ∧
      (∀ target, target ≠ loaderLoadAddr + labels.gdt + 13 →
        target ≠ loaderLoadAddr + labels.gdt + 21 →
          MarkedAt pageEntries handed switched.mem target) ∧
      (∀ offset, offset < 0x200 →
        switched.mem (loaderLoadAddr + offset) = residentByte labels offset) ∧
      (∀ offset, offset < 0x100000000 → switched.code.linear offset = some offset ∧
        switched.data.linear offset = some offset ∧ switched.stack.linear offset = some offset) ∧
      (∀ later, Marked pageEntries switched.mem later →
        loadLE later pagingTableAddr (kernelBase + 0x21018) 4 = some switched.eip ∧
          ∀ addr, addr < windowSize →
            loadByte later pagingTableAddr addr = some (later addr) ∧
              loadByte later pagingTableAddr (kernelBase + addr) = some (later addr)) ∧
      ControlBits switched.cr0 := by
  obtain ⟨handed, after, entered, executed, switches, sector⟩ :=
    enter_kernel_run labels plain transfers bounded accepted whole fits
  refine ⟨handed, switchedOver labels.gdt cr0 cr4 after, entered, executed, switches.others,
    fun offset inside => switched_resident labels switches sector inside,
    fun offset word => ⟨kernel_code_flat.linear_eq word, kernel_data_flat.linear_eq word,
      kernel_data_flat.linear_eq word⟩, ?_, control_bits cr0⟩
  intro later marked
  have tables : TablesMarked later := switches.tables.congr fun target _ _ => marked target
  constructor
  · have entry := load_le_kernel tables (show kernelBase ≤ kernelBase + 0x21018 by decide)
      (show kernelBase + 0x21018 + 4 ≤ kernelBase + windowSize by decide)
    have clear : ∀ index, index < 4 → ¬pageEntries (0x21018 + index) :=
      fun index _ => not_page_entry (Or.inr (by omega))
    rw [Nat.add_sub_cancel_left, marked.read_le clear] at entry
    exact entry
  · intro addr inside
    obtain ⟨found, walked, phys, _⟩ := tables.walk_low inside
    have high := load_byte_kernel tables (Nat.le_add_right kernelBase addr) (by omega)
    rw [Nat.add_sub_cancel_left] at high
    refine ⟨?_, high⟩
    rw [loadByte, walked, Option.map_some, phys]

/-- A boot sector with nothing in it but the first opcode and the table, at offset 0x1a0. -/
def tableByte (offset : Nat) : Byte :=
  if offset = 0 then 0xb8 else if offset < 0x1a0 then 0
  else (gdtBytes ++ gdtdescBytes 0x1a0).getD (offset - 0x1a0) 0

theorem table_byte_blank (offset : Nat) (lower : 0x200 ≤ offset) : tableByte offset = 0 := by
  have length : (gdtBytes ++ gdtdescBytes 0x1a0).length = 30 := rfl
  rw [tableByte, if_neg (by omega), if_neg (by omega)]
  exact List.getD_eq_default _ _ (by omega)

def tableBoot : BootBlock where
  byte := tableByte
  opens := rfl
  blank := fun offset lower _ => table_byte_blank offset lower

def tableLabels : Labels tableBoot where
  gdt := 0x1a0
  aligned := by decide
  inside := by decide
  placed := by
    intro index _
    change tableByte (0x1a0 + index) = _
    rw [tableByte, if_neg (by omega), if_neg (by omega), Nat.add_sub_cancel_left]

/-- A minimal kernel is entered, and its code segment is accessed. -/
theorem sample_switch :
    ∃ state switched,
      loadImage (exactInt13 (diskByte tableBoot (sampleElf 0x54))) (loaderEnd (sampleElf 0x54))
        (fun _ => 0xff) = .ok state ∧
      enterKernel tableLabels (loaderEnd (sampleElf 0x54)) 0x10 0 singleResponse state.mem =
        some switched ∧
      loadByte switched.mem pagingTableAddr 0xc0020000 = some 0xb8 ∧
      loadByte switched.mem pagingTableAddr 0x201ad = some 0x9b := by
  have transfers := exact_int13_transfers (diskByte tableBoot (sampleElf 0x54))
  obtain ⟨state, loaded, _⟩ := entered_run transfers (by decide) (by decide) singleResponse
    (by decide) (fun _ => 0xff)
  obtain ⟨_, switched, _, entered, _, resident, _, windows, _⟩ :=
    switch_keeps_addresses tableBoot tableLabels (sampleElf 0x54) _ singleResponse (fun _ => 0xff)
      state 0x10 0 (by decide) transfers (by decide) loaded (by decide) (by decide)
  obtain ⟨_, reads⟩ := windows switched.mem (.refl _)
  have first := (reads 0x20000 (by decide)).2
  have opcode : switched.mem 0x20000 = 0xb8 := resident 0 (by decide)
  have segment := (reads 0x201ad (by decide)).1
  have accessed : switched.mem 0x201ad = 0x9b := resident 0x1ad (by decide)
  rw [opcode] at first
  rw [accessed] at segment
  exact ⟨state, switched, loaded, entered, first, segment⟩

end RondOS.ProtectedMode
