import RondOS.Kernel.Idt
import RondOS.Loader.ProtectedMode

/-!
# Delivery of interrupts

A delivery goes through everything the boot has set up: the gate in `INTR_TABLE`, the code segment
in the boot sector, the page tables, and the stack below them. This module runs the processor on
these bytes. Code that is interrupted resumes as it was, to any depth of nesting, and nothing from
outside gets into a handler; an access that faults for want of a page directory entry faults for
ever. What the processor itself leaves behind is told apart: marks in the page tables, and RF.
-/

namespace RondOS.Delivery

open ByteMemory RustWord I386 Paging Protected Image PageTables Handover ProtectedMode Idt

set_option autoImplicit false

inductive HandlerType where
  | handlerFunc
  | handlerFuncErrCode
  | divergingHandlerFunc
  | divergingHandlerFuncErrCode
  deriving DecidableEq

def HandlerType.takesErrorCode : HandlerType → Bool
  | .handlerFunc => false
  | .handlerFuncErrCode => true
  | .divergingHandlerFunc => false
  | .divergingHandlerFuncErrCode => true

/-- The type parameter of each field of `InterruptDescriptorTable`. -/
def handlerTypeOf : Field → HandlerType
  | .divideError => .handlerFunc
  | .debug => .handlerFunc
  | .nonMaskableInterrupt => .handlerFunc
  | .breakpoint => .handlerFunc
  | .overflow => .handlerFunc
  | .boundRangeExceeded => .handlerFunc
  | .invalidOpcode => .handlerFunc
  | .deviceNotAvailable => .handlerFunc
  | .doubleFault => .divergingHandlerFuncErrCode
  | .coprocessorSegmentOverrun => .handlerFunc
  | .invalidTss => .handlerFuncErrCode
  | .segmentNotPresent => .handlerFuncErrCode
  | .stackSegmentFault => .handlerFuncErrCode
  | .generalProtectionFault => .handlerFuncErrCode
  | .pageFault => .handlerFuncErrCode
  | .reserved1 => .handlerFunc
  | .x87FloatingPoint => .handlerFunc
  | .alignmentCheck => .handlerFuncErrCode
  | .machineCheck => .divergingHandlerFunc
  | .simdFloatingPoint => .handlerFunc
  | .virtualization => .handlerFunc
  | .securityException => .handlerFuncErrCode
  | .reserved3 => .handlerFunc

/-- What the compiler lets `set_handle_fn` install: `Index` hands out entries for `HandlerFunc`. -/
def handlerType : Install → HandlerType
  | .byField name _ => handlerTypeOf name
  | .byIndex _ _ => .handlerFunc

def pushesErrorCode (v : Nat) : Bool :=
  decide (v = 8 ∨ (10 ≤ v ∧ v ≤ 14) ∨ v = 17 ∨ v = 21 ∨ v = 29 ∨ v = 30)

theorem error_code_agrees (install : Install) (accepted : install.place.isSome = true) :
    (handlerType install).takesErrorCode = pushesErrorCode install.vector := by
  cases install with
  | byField name address => cases name <;> rfl
  | byIndex index address =>
      have found : ∃ place, indexMut index = .ok place := by
        cases result : indexMut index with
        | ok place => exact ⟨place, rfl⟩
        | error panic => simp [Install.place, result, Except.toOption] at accepted
      obtain ⟨place, found⟩ := found
      unfold indexMut at found
      split at found
      all_goals first
        | rfl
        | split_ifs at found with inside
          have others : ¬(index = 8 ∨ (10 ≤ index ∧ index ≤ 14) ∨ index = 17 ∨ index = 21 ∨
              index = 29 ∨ index = 30) := by omega
          exact (decide_eq_false others).symm

def fetchGate (pointer : DescriptorTablePointer) (mem : Memory) (v : Nat) :
    Option (List Byte × Memory) :=
  if 8 * v + 7 ≤ pointer.limit.toNat then
    fetchBytes mem pagingTableAddr (pointer.base.toNat + 8 * v) 8
  else none

def gateAt (pointer : DescriptorTablePointer) (mem : Memory) (v : Nat) :
    Option (Entry × Memory) := do
  let (bytes, fetched) ← fetchGate pointer mem v
  let gate := decodeGate bytes
  if gate.present && gate.system == 0 && (gate.kind == 0xe || gate.kind == 0xf) then
    some ({ offset := gate.offset, selector := gate.selector, trap := gate.kind == 0xf }, fetched)
  else none

structure Placed (base : BitVec 32) : Prop where
  above : kernelBase + 0x20000 ≤ base.toNat
  below : base.toNat + 2048 ≤ kernelBase + windowSize

def IdtStored (base : BitVec 32) (table : InterruptDescriptorTable) (mem : Memory) : Prop :=
  ∀ index, index < 2048 → mem (base.toNat - kernelBase + index) = table.bytes.getD index 0

/-- What interrupts rely on: the tables with any marks, and the segments as the loader's loads have
left them. -/
structure Intact (gdt : Nat) (base : BitVec 32) (table : InterruptDescriptorTable) (mem : Memory) :
    Prop where
  tables : TablesMarked mem
  segments : TableStored loadedKcseg loadedKdseg gdt mem
  gates : IdtStored base table mem

section Gates

variable {gdt : Nat} {base : BitVec 32} {table : InterruptDescriptorTable} {mem : Memory}

theorem gate_bytes_stored (placed : Placed base) (intact : Intact gdt base table mem) {v : Nat}
    (bound : v < 256) :
    readBytes mem (base.toNat + 8 * v - kernelBase) 8 = gateBytes table.bytes v := by
  have above := placed.above
  have size := table_bytes_length table
  apply List.ext_getElem
  · rw [read_bytes_length, gateBytes, List.length_take, List.length_drop, size]
    omega
  · intro index inside listed
    rw [read_bytes_length] at inside
    have address : base.toNat + 8 * v - kernelBase + index =
        base.toNat - kernelBase + (8 * v + index) := by omega
    have entry := intact.gates (8 * v + index) (by omega)
    rw [List.getD_eq_getElem _ _ (by omega)] at entry
    simp only [readBytes, List.getElem_map, List.getElem_range, address, entry, gateBytes,
      List.getElem_take, List.getElem_drop]

theorem fetch_gate_recorded {last : Nat → Option Usize} (placed : Placed base)
    (recorded : Recorded (BitVec.ofNat 16 selectorCodeSeg) last table)
    (intact : Intact gdt base table mem) {v : Nat} (bound : v < 256) :
    ∃ fetched, fetchGate (table.update base) mem v =
        some ((gateFor (BitVec.ofNat 16 selectorCodeSeg) (last v)).bytes, fetched) ∧
      Marked pageEntries mem fetched := by
  have limit := update_limit table base
  have located : (table.update base).base = base := rfl
  have above : kernelBase + 0x20000 ≤ base.toNat + 8 * v := Nat.le_add_right_of_le placed.above
  have below := placed.below
  have gate : gateBytes table.bytes v =
      (gateFor (BitVec.ofNat 16 selectorCodeSeg) (last v)).bytes := by
    rw [gate_bytes_gate, recorded v bound]
    rfl
  obtain ⟨fetched, read, marked⟩ := fetch_bytes_run (intact.tables.window_mapped (Or.inr rfl))
    (Nat.le_trans (Nat.le_add_right _ _) above)
    (show base.toNat + 8 * v + 8 ≤ kernelBase + windowSize by omega)
    fun index inside => not_page_entry (Or.inr (by omega))
  refine ⟨fetched, ?_, marked⟩
  rw [fetchGate, if_pos (by omega), located, read, gate_bytes_stored placed intact bound, gate]

theorem gate_at_installed {last : Nat → Option Usize} (placed : Placed base)
    (recorded : Recorded (BitVec.ofNat 16 selectorCodeSeg) last table)
    (intact : Intact gdt base table mem) {v : Nat} {address : Usize} (bound : v < 256)
    (installed : last v = some address) :
    ∃ fetched, gateAt (table.update base) mem v =
        some ({ offset := address.toNat, selector := selectorCodeSeg, trap := false }, fetched) ∧
      Marked pageEntries mem fetched := by
  obtain ⟨fetched, read, marked⟩ := fetch_gate_recorded placed recorded intact bound
  refine ⟨fetched, ?_, marked⟩
  rw [installed] at read
  simp only [gateAt, read, Option.bind_eq_bind, Option.bind_some, decode_installed]
  rfl

theorem gate_at_absent {last : Nat → Option Usize} (placed : Placed base)
    (recorded : Recorded (BitVec.ofNat 16 selectorCodeSeg) last table)
    (intact : Intact gdt base table mem) {v : Nat} (absent : v < 256 → last v = none) :
    gateAt (table.update base) mem v = none := by
  by_cases bound : v < 256
  · obtain ⟨fetched, read, _⟩ := fetch_gate_recorded placed recorded intact bound
    rw [absent bound] at read
    simp only [gateAt, read, Option.bind_eq_bind, Option.bind_some, decode_blank, Bool.false_and,
      Bool.false_eq_true, if_false]
  · have limit := update_limit table base
    rw [gateAt, fetchGate, if_neg (by omega)]
    rfl

end Gates

/-- The stack below the page tables, down to `KERNEL_STACK_PADDR`, and the code segment. -/
def kernelPlatform (gdt : Nat) (inside : gdt + 30 ≤ 510) (base : BitVec 32) (placed : Placed base)
    (table : InterruptDescriptorTable) : Platform pagingTableAddr (gdtPointer gdt) where
  low := kernelBase + 0x7c00
  high := kernelBase + 0xf000
  shift := kernelBase
  selector := selectorCodeSeg
  code := kernelCode
  entries := pageEntries
  Intact := Intact gdt base table
  shifted := Nat.le_add_right _ _
  word := by decide
  mapped := fun mem intact =>
    (intact.tables.window_mapped (Or.inr rfl)).narrow (Nat.le_add_right _ _) (by decide)
  apart := by
    intro target _ below
    rw [Nat.add_sub_cancel_left] at below
    exact not_page_entry (Or.inl below)
  stable := by
    intro before after intact same
    rw [Nat.add_sub_cancel_left, Nat.add_sub_cancel_left] at same
    have above := placed.above
    refine ⟨?_, ?_, ?_⟩
    · apply intact.tables.congr
      intro addr lower _
      exact same addr (Or.inr lower)
    · intro index bound
      have upper : 0x20000 ≤ loaderLoadAddr + gdt + index := by
        unfold loaderLoadAddr
        omega
      rw [(same _ (Or.inr (by omega))).eq (not_page_entry (Or.inr upper)),
        intact.segments index bound]
    · intro index bound
      have upper : 0x20000 ≤ base.toNat - kernelBase + index := by omega
      rw [(same _ (Or.inr (by omega))).eq (not_page_entry (Or.inr upper)), intact.gates index bound]
  short := by decide
  privileged := by decide
  described := by
    intro mem intact
    have window := intact.tables.window_mapped (Or.inl rfl)
    obtain ⟨kcseg, _⟩ := stored_descriptors intact.segments (by decide) (by decide)
    have place : 0x20000 ≤ loaderLoadAddr + gdt + 8 ∧
        loaderLoadAddr + gdt + 8 + 8 ≤ 0 + windowSize := by
      unfold loaderLoadAddr windowSize
      omega
    obtain ⟨read, loaded, marked⟩ := load_run window (Nat.zero_le _) place.2
      fun index _ => not_page_entry (Or.inr (by omega))
    refine ⟨read, marked, ?_⟩
    intro allowed passes
    have accessed : loadedKcseg.testBit 40 = true := by decide
    have address : descriptorAddr (gdtPointer gdt) selectorCodeSeg =
        some (loaderLoadAddr + gdt + 8) := rfl
    change allowed (decodeDescriptor loadedKcseg) = true at passes
    rw [Nat.sub_zero, kcseg] at loaded
    rw [loadSegment, address, Option.bind_eq_bind, Option.bind_some, loaded, Option.bind_eq_bind,
      Option.bind_some]
    dsimp only
    rw [if_pos passes, if_pos accessed]
    rfl
  flat := kernel_code_flat
  kind := by decide
  dpl := by decide

structure ExceptionStackFrame where
  instructionPointer : Nat
  codeSegment : Nat
  cpuFlags : Nat
  stackPointer : Nat
  stackSegment : Nat
  deriving DecidableEq

/-- The parameter of a handler, laid out by `repr(C)`. -/
def readFrame (mem : Memory) (addr : Nat) : Option ExceptionStackFrame := do
  some
    { instructionPointer := ← loadLE mem pagingTableAddr addr 4
      codeSegment := ← loadLE mem pagingTableAddr (addr + 4) 2
      cpuFlags := ← loadLE mem pagingTableAddr (addr + 8) 4
      stackPointer := ← loadLE mem pagingTableAddr (addr + 12) 4
      stackSegment := ← loadLE mem pagingTableAddr (addr + 16) 2 }

/-- The frame that a delivery to `cpu` shows its handler, in memory `mem`. Nothing is pushed for the
last two fields: they are what lies on top of the interrupted code's stack. -/
def frameOf (resume : Bool) (cpu : Cpu) (mem : Memory) : ExceptionStackFrame where
  instructionPointer := cpu.eip
  codeSegment := cpu.cs
  cpuFlags := savedFlags resume cpu.eflags
  stackPointer := readLE mem (cpu.esp - kernelBase) 4
  stackSegment := readLE mem (cpu.esp - kernelBase + 4) 2

section Entering

variable {gdt : Nat} {inside : gdt + 30 ≤ 510} {base : BitVec 32} {placed : Placed base}
  {table : InterruptDescriptorTable}

theorem load_le_high {mem : Memory} (marked : TablesMarked mem) {phys width : Nat}
    (fits : phys + width ≤ windowSize) :
    loadLE mem pagingTableAddr (kernelBase + phys) width = some (readLE mem phys width) := by
  rw [load_le_kernel marked (Nat.le_add_right _ _) (by omega), Nat.add_sub_cancel_left]

theorem frame_read {cpu entered : Cpu} {entry : Entry} {error : Option Nat} {resume : Bool}
    (runs : (kernelPlatform gdt inside base placed table).Runs cpu)
    (room : kernelBase + 0x7c00 + 16 ≤ cpu.esp)
    (enter : (kernelPlatform gdt inside base placed table).Entered cpu entry error resume entered) :
    readFrame entered.mem (cpu.esp - 12) = some (frameOf resume cpu entered.mem) := by
  have below : cpu.esp ≤ kernelBase + 0xf000 := runs.below
  have tables : TablesMarked entered.mem := enter.runs.intact.tables
  have eip : readLE entered.mem (cpu.esp - 12 - kernelBase) 4 = cpu.eip := enter.framed.eip
  have cs : readLE entered.mem (cpu.esp - 8 - kernelBase) 4 = cpu.cs := enter.framed.cs
  have eflags : readLE entered.mem (cpu.esp - 4 - kernelBase) 4 = savedFlags resume cpu.eflags :=
    enter.framed.eflags
  have selector : cpu.cs = 8 := runs.cs
  obtain ⟨top, esp⟩ : ∃ top, cpu.esp = kernelBase + top := ⟨cpu.esp - kernelBase, by
    unfold kernelBase at room ⊢
    omega⟩
  rw [esp] at below room
  have low : 0x7c10 ≤ top := by
    unfold kernelBase at room
    omega
  have high : top ≤ 0xf000 := Nat.le_of_add_le_add_left below
  have down : ∀ offset, offset ≤ 12 →
      kernelBase + top - offset = kernelBase + (top - offset) := by
    intro offset least
    exact Nat.add_sub_assoc (by omega) kernelBase
  rw [esp, down 12 (by omega), Nat.add_sub_cancel_left] at eip
  rw [esp, down 8 (by omega), Nat.add_sub_cancel_left] at cs
  rw [esp, down 4 (by omega), Nat.add_sub_cancel_left] at eflags
  have window : top + 0x1000 ≤ windowSize := by
    unfold windowSize
    omega
  have word : readLE entered.mem (top - 8) 2 = 8 := by
    have split := read_le_add entered.mem (top - 8) 2 2
    have small : readLE entered.mem (top - 8) 2 < 256 ^ 2 := by
      have bound := le_value_lt (readBytes entered.mem (top - 8) 2)
      rwa [read_bytes_length] at bound
    rw [cs, selector] at split
    omega
  have fields : ∀ phys width, phys ≤ top + 4 → width ≤ 4 →
      loadLE entered.mem pagingTableAddr (kernelBase + phys) width =
        some (readLE entered.mem phys width) := by
    intro phys width near narrow
    exact load_le_high tables (by omega)
  have steps : top - 12 + 4 = top - 8 ∧ top - 12 + 8 = top - 4 ∧ top - 12 + 12 = top ∧
      top - 12 + 16 = top + 4 := by omega
  obtain ⟨second, third, fourth, fifth⟩ := steps
  rw [esp, down 12 (by omega), readFrame]
  simp only [Nat.add_assoc, second, third, fourth, fifth]
  rw [fields _ 4 (by omega) (by omega), fields _ 2 (by omega) (by omega),
    fields _ 4 (by omega) (by omega), fields top 4 (by omega) (by omega),
    fields _ 2 (by omega) (by omega), eip, word, eflags]
  simp only [Option.bind_eq_bind, Option.bind_some, frameOf, esp, selector, Nat.add_sub_cancel_left]

theorem error_read {cpu entered : Cpu} {entry : Entry} {error : Option Nat} {resume : Bool}
    {value : Nat}
    (enter : (kernelPlatform gdt inside base placed table).Entered cpu entry error resume entered)
    (pushed : error = some value) :
    loadLE entered.mem pagingTableAddr entered.esp 4 = some (value % 0x100000000) := by
  have tables : TablesMarked entered.mem := enter.runs.intact.tables
  have above : kernelBase + 0x7c00 ≤ entered.esp := enter.runs.above
  have below : entered.esp ≤ kernelBase + 0xf000 := enter.runs.below
  have top : entered.esp + 4 ≤ kernelBase + windowSize := by
    unfold windowSize
    omega
  have stored : readLE entered.mem (entered.esp - kernelBase) 4 = value % 0x100000000 :=
    enter.code value pushed
  rw [load_le_kernel tables (Nat.le_trans (Nat.le_add_right _ _) above) top, stored]

end Entering

theorem vector_bound {installs : List Install} (accepted : AllAccepted installs) {v : Nat}
    {address : Usize} (last : lastInstalled installs v = some address) : v < 256 := by
  by_contra beyond
  have others : ∀ install ∈ installs, install.vector ≠ v := by
    intro install member same
    obtain ⟨place, found⟩ := Option.isSome_iff_exists.mp (accepted install member)
    have position := install_place found
    cases place with
    | field name =>
        have small : name.vector < 32 := by cases name <;> decide
        change name.vector = install.vector at position
        omega
    | interrupts number =>
        have small := number.isLt
        change 32 + number.val = install.vector at position
        omega
  rw [last_installed_none others] at last
  cases last

section Running

variable {prof : Profile} {installs : List Install} {gdt : Nat} {inside : gdt + 30 ≤ 510}
  {base : BitVec 32} {placed : Placed base} {table : InterruptDescriptorTable}

theorem installs_recorded (accepted : AllAccepted installs)
    (created : installAll prof (BitVec.ofNat 16 selectorCodeSeg) installs = some table) :
    Recorded (BitVec.ofNat 16 selectorCodeSeg) (lastInstalled installs) table := by
  obtain ⟨same, again, recorded⟩ :=
    install_all_recorded prof (BitVec.ofNat 16 selectorCodeSeg) accepted
  cases created.symm.trans again
  exact recorded

theorem kernel_gated {last : Nat → Option Usize}
    (recorded : Recorded (BitVec.ofNat 16 selectorCodeSeg) last table) :
    Gated (gateAt (table.update base)) (kernelPlatform gdt inside base placed table) := by
  intro mem v entry fetched intact gate
  by_cases absent : v < 256 → last v = none
  · rw [gate_at_absent placed recorded intact absent] at gate
    cases gate
  · obtain ⟨bound, listed⟩ := Classical.not_imp.mp absent
    obtain ⟨address, installed⟩ := Option.ne_none_iff_exists'.mp listed
    obtain ⟨read, found, marked⟩ := gate_at_installed placed recorded intact bound installed
    cases found.symm.trans gate
    exact ⟨marked, rfl, address.isLt, rfl⟩

end Running

def sampleMemory (table : InterruptDescriptorTable) : Memory :=
  writeBytes (pagingSetup (writeBytes (fun _ => 0) (loaderLoadAddr + 0x1a0)
    (gdtTable loadedKcseg loadedKdseg))) 0x22000 table.bytes

theorem sample_placed : Placed 0xc0022000 := ⟨by decide, by decide⟩

theorem sample_gates (mem : Memory) (table : InterruptDescriptorTable) :
    IdtStored 0xc0022000 table (writeBytes mem 0x22000 table.bytes) := by
  intro index bound
  have inside : index < table.bytes.length := by
    rw [table_bytes_length]
    exact bound
  have address : (0xc0022000 : BitVec 32).toNat - kernelBase = 0x22000 := by decide
  rw [address, write_bytes_inside _ _ _ _ inside, List.getD_eq_getElem _ _ inside]
  rfl

theorem sample_intact (table : InterruptDescriptorTable) :
    Intact 0x1a0 0xc0022000 table (sampleMemory table) where
  tables := by
    apply (tables_built (writeBytes (fun _ => 0) (loaderLoadAddr + 0x1a0)
      (gdtTable loadedKcseg loadedKdseg))).marked.congr
    intro addr _ upper
    exact Or.inl (write_bytes_outside _ _ _ _ (Or.inl (by omega)))
  segments := by
    intro index bound
    have address : loaderLoadAddr + 0x1a0 + index < 0x22000 := by
      unfold loaderLoadAddr
      omega
    have inside : index < (gdtTable loadedKcseg loadedKdseg).length := bound
    rw [sampleMemory, write_bytes_outside _ _ _ _ (Or.inl address),
      paging_setup_frame _ _ (by unfold loaderLoadAddr; omega), write_bytes_inside _ _ _ _ inside,
      List.getD_eq_getElem _ _ inside]
    rfl
  gates := sample_gates _ table

def sampleCpu (table : InterruptDescriptorTable) : Cpu where
  eip := 0xc0022900
  cs := 8
  eflags := 0x202
  esp := 0xc000e000
  mem := sampleMemory table

theorem sample_runs (table : InterruptDescriptorTable) :
    (kernelPlatform 0x1a0 (by decide) 0xc0022000 sample_placed table).Runs (sampleCpu table) where
  intact := sample_intact table
  cs := rfl
  above := show kernelBase + 0x7c00 ≤ 0xc000e000 by decide
  below := show 0xc000e000 ≤ kernelBase + 0xf000 by decide
  eip := show 0xc0022900 < 0x100000000 by decide
  eflags := show 0x202 < 0x100000000 by decide
  protectedMode := show virtualMode 0x202 = false by decide

def sampleInstalls : List Install := [.byField .breakpoint 0xc0022400, .byField .pageFault 0xc0022500]

theorem sample_installs_accepted : AllAccepted sampleInstalls := by
  unfold AllAccepted
  decide

theorem sample_handled {prof : Profile} {table : InterruptDescriptorTable} {v : Nat}
    {address : Usize} (error : Option Nat) (resume : Bool)
    (created : installAll prof (BitVec.ofNat 16 selectorCodeSeg) sampleInstalls = some table)
    (last : lastInstalled sampleInstalls v = some address) :
    ∃ resumed, Handled (gateAt (table.update 0xc0022000))
      (kernelPlatform 0x1a0 (by decide) 0xc0022000 sample_placed table) v error resume
      (sampleCpu table) [] resumed := by
  have recorded := installs_recorded sample_installs_accepted created
  obtain ⟨fetched, gate, marked⟩ := gate_at_installed sample_placed recorded (sample_intact table)
    (vector_bound sample_installs_accepted last) last
  have room : kernelBase + 0x7c00 + 16 ≤ (sampleCpu table).esp :=
    show kernelBase + 0x7c00 + 16 ≤ 0xc000e000 by decide
  obtain ⟨entered, delivered, enter⟩ :=
    deliver_run error resume (sample_runs table) gate marked rfl address.isLt room
  obtain ⟨after, returned, _⟩ := leave_run (sample_runs table) room enter
    (Kept.refl enter.runs (Nat.le_refl _)) rfl
  exact ⟨_, entered, entered, delivered, .done, rfl, returned⟩

/-- A vector is delivered exactly if a handler is installed for it. The handler installed last is
entered with interrupts off, and finds its frame and, where its type has one, the error code. All
other memory is as it was, but for marks in the page tables. -/
theorem installed_vector_enters_handler (prof : Profile) (installs : List Install)
    (accepted : AllAccepted installs) (gdt : Nat) (inside : gdt + 30 ≤ 510) (base : BitVec 32)
    (placed : Placed base) :
    ∃ table, installAll prof (BitVec.ofNat 16 selectorCodeSeg) installs = some table ∧
      ∀ (cpu : Cpu) (v : Nat) (error : Option Nat) (resume : Bool),
        (kernelPlatform gdt inside base placed table).Runs cpu →
        kernelBase + 0x7c00 + 16 ≤ cpu.esp → error.isSome = pushesErrorCode v →
        match lastInstalled installs v with
        | none =>
            deliver pagingTableAddr (gdtPointer gdt) (gateAt (table.update base)) v error resume
              cpu = none
        | some address =>
            ∃ entered, deliver pagingTableAddr (gdtPointer gdt) (gateAt (table.update base)) v error
                resume cpu = some entered ∧
              entered.eip = address.toNat ∧ entered.cs = selectorCodeSeg ∧
              interruptFlag entered.eflags = false ∧
              OnlyBetween pageEntries (entered.esp - kernelBase) (cpu.esp - kernelBase) cpu.mem
                entered.mem ∧
              (∀ code, error = some code →
                loadLE entered.mem pagingTableAddr entered.esp 4 = some (code % 0x100000000)) ∧
              ∀ install ∈ installs, install.vector = v →
                readFrame entered.mem
                  (entered.esp + if (handlerType install).takesErrorCode then 4 else 0) =
                    some (frameOf resume cpu entered.mem) := by
  obtain ⟨table, created, recorded⟩ :=
    install_all_recorded prof (BitVec.ofNat 16 selectorCodeSeg) accepted
  refine ⟨table, created, ?_⟩
  intro cpu v error resume runs room agrees
  cases last : lastInstalled installs v with
  | none =>
      have gate := gate_at_absent placed recorded runs.intact fun _ => last
      simp only [deliver, gate, Option.bind_eq_bind, Option.bind_none]
  | some address =>
      obtain ⟨fetched, gate, marked⟩ :=
        gate_at_installed placed recorded runs.intact (vector_bound accepted last) last
      obtain ⟨entered, delivered, enter⟩ :=
        deliver_run error resume runs gate marked rfl address.isLt room
      refine ⟨entered, delivered, enter.eip, enter.runs.cs, ?_, enter.pushed, ?_, ?_⟩
      · rw [enter.eflags]
        exact interrupt_gate_masks cpu.eflags
      · intro code pushed
        exact error_read enter pushed
      · intro install member same
        have esp := enter.esp
        have size : errorSize error =
            if (handlerType install).takesErrorCode then 4 else 0 := by
          rw [error_code_agrees install (accepted install member), same, ← agrees]
          cases error <;> rfl
        have frame : entered.esp + errorSize error = cpu.esp - 12 := by
          have small := error_size_le error
          unfold kernelBase at room
          omega
        rw [← size, frame]
        exact frame_read runs room enter

/-- A write to an unmapped page enters the handler for page faults, which sees RF set. -/
theorem page_fault_delivered :
    ∃ table, installAll .debug (BitVec.ofNat 16 selectorCodeSeg) sampleInstalls = some table ∧
      ∃ entered, deliver pagingTableAddr (gdtPointer 0x1a0) (gateAt (table.update 0xc0022000)) 14
          (some 2) true (sampleCpu table) = some entered ∧ entered.eip = 0xc0022500 ∧
        ∃ frame, readFrame entered.mem (entered.esp + 4) = some frame ∧ frame.cpuFlags = 0x10202 := by
  obtain ⟨table, created, delivers⟩ := installed_vector_enters_handler .debug sampleInstalls
    sample_installs_accepted 0x1a0 (by decide) 0xc0022000 sample_placed
  obtain ⟨entered, delivered, eip, _, _, _, _, frames⟩ := delivers (sampleCpu table) 14 (some 2) true
    (sample_runs table) (show kernelBase + 0x7c00 + 16 ≤ 0xc000e000 by decide) (by decide)
  have frame := frames (.byField .pageFault 0xc0022500)
    (List.mem_cons_of_mem _ List.mem_cons_self) rfl
  have flags : savedFlags true 0x202 = 0x10202 := by decide
  exact ⟨table, created, entered, delivered, eip, _, frame, flags⟩

/-- Interrupted code never notices. Whatever is delivered, and whatever faults in the handlers are
delivered on top of it to any depth, the return restores all registers but RF, which the next
instruction clears, and the stack above; and no external interrupt gets in before it. -/
theorem interrupted_code_resumes (prof : Profile) (installs : List Install)
    (accepted : AllAccepted installs) (gdt : Nat) (inside : gdt + 30 ≤ 510) (base : BitVec 32)
    (placed : Placed base) (table : InterruptDescriptorTable) (cpu resumed : Cpu) (v : Nat)
    (error : Option Nat) (resume : Bool) (trace : List (Nat × Bool))
    (created : installAll prof (BitVec.ofNat 16 selectorCodeSeg) installs = some table)
    (runs : (kernelPlatform gdt inside base placed table).Runs cpu)
    (room : kernelBase + 0x7c00 + 16 ≤ cpu.esp)
    (handled : Handled (gateAt (table.update base)) (kernelPlatform gdt inside base placed table) v
      error resume cpu trace resumed) :
    resumed = { cpu with eflags := savedFlags resume cpu.eflags, mem := resumed.mem } ∧
      Intact gdt base table resumed.mem ∧
      (∀ phys, cpu.esp - kernelBase ≤ phys → phys < 0xf000 → resumed.mem phys = cpu.mem phys) ∧
      ∀ step ∈ trace, step.2 = false := by
  have gated : Gated (gateAt (table.update base)) (kernelPlatform gdt inside base placed table) :=
    kernel_gated (installs_recorded accepted created)
  obtain ⟨registers, intact, same, internal⟩ := handled_restores gated runs room handled
  refine ⟨registers, intact, ?_, internal⟩
  intro phys above below
  have top : phys < kernelBase + 0xf000 - kernelBase := by
    rw [Nat.add_sub_cancel_left]
    exact below
  exact same phys above top

/-- A breakpoint returns behind itself. -/
theorem breakpoint_resumes :
    ∃ table resumed, installAll .debug (BitVec.ofNat 16 selectorCodeSeg) sampleInstalls = some table ∧
      Handled (gateAt (table.update 0xc0022000))
        (kernelPlatform 0x1a0 (by decide) 0xc0022000 sample_placed table) 3 none false
        (sampleCpu table) [] resumed ∧ resumed = { sampleCpu table with mem := resumed.mem } := by
  obtain ⟨table, created, _⟩ := install_all_recorded .debug (BitVec.ofNat 16 selectorCodeSeg)
    sample_installs_accepted
  have last : lastInstalled sampleInstalls 3 = some 0xc0022400 := by decide
  obtain ⟨resumed, handled⟩ := sample_handled none false created last
  have resumes := interrupted_code_resumes .debug sampleInstalls sample_installs_accepted 0x1a0
    (by decide) 0xc0022000 sample_placed table (sampleCpu table) resumed 3 none false [] created
    (sample_runs table) (show kernelBase + 0x7c00 + 16 ≤ 0xc000e000 by decide) handled
  exact ⟨table, resumed, created, handled, resumes.1⟩

structure NoDirectoryEntry (va : Nat) : Prop where
  word : va < 0x100000000
  low : ¬va / 0x400000 < 0x40
  high : ¬(768 ≤ va / 0x400000 ∧ va / 0x400000 < 832)

theorem absent_walk_none {mem : Memory} (tables : TablesMarked mem) {va : Nat}
    (absent : NoDirectoryEntry va) : walk mem pagingTableAddr va = none := by
  have word := absent.word
  have root : entryFrame pagingTableAddr = 0xf000 := by decide
  have index : va / 0x400000 % 0x400 = va / 0x400000 := by omega
  have item : directoryItem (va / 0x400000) = 0 := by
    rw [directoryItem, if_neg absent.low, if_neg absent.high]
  have directory := tables.directory (va / 0x400000) (by omega)
  rw [item, ← index, ← root] at directory
  have blank : unmarked (readLE mem (entryFrame pagingTableAddr + 4 * (va / 0x400000 % 0x400)) 4) =
      unmarked 0 := directory
  exact walk_eq_none_of_directory rfl (entry_bits_unmarked blank).1

/-- `count` times the access faults, the handler returns, and the instruction starts again. -/
inductive FaultRounds {gdtr : TablePointer} (gates : Memory → Nat → Option (Entry × Memory))
    (platform : Platform pagingTableAddr gdtr) (va error : Nat) : Nat → Cpu → Cpu → Prop where
  | none {cpu : Cpu} : FaultRounds gates platform va error 0 cpu cpu
  | again {count : Nat} {cpu next final : Cpu} {trace : List (Nat × Bool)}
      (faults : walk cpu.mem pagingTableAddr va = Option.none)
      (handled : Handled gates platform 14 (some error) true cpu trace next)
      (rest : FaultRounds gates platform va error count next final) :
      FaultRounds gates platform va error (count + 1) cpu final

theorem fault_rounds_restore {gdtr : TablePointer} {gates : Memory → Nat → Option (Entry × Memory)}
    {platform : Platform pagingTableAddr gdtr} {va error count : Nat} {cpu final : Cpu}
    (gated : Gated gates platform) (runs : platform.Runs cpu)
    (room : platform.low + 16 ≤ cpu.esp)
    (rounds : FaultRounds gates platform va error count cpu final) :
    final = { cpu with eflags := savedFlags (decide (0 < count)) cpu.eflags, mem := final.mem } ∧
      platform.Intact final.mem := by
  induction rounds with
  | none => exact ⟨rfl, runs.intact⟩
  | @again count cpu next final trace faults handled rest ih =>
      obtain ⟨registers, intact, _⟩ := handled_restores gated runs room handled
      have back : platform.Runs next := by
        rw [registers]
        exact runs.returned true intact
      have same : next.esp = cpu.esp := by rw [registers]
      obtain ⟨last, kept⟩ := ih back (by rw [same]; exact room)
      refine ⟨?_, kept⟩
      have set : savedFlags (decide (0 < count + 1)) cpu.eflags = savedFlags true cpu.eflags := by
        rw [decide_eq_true (Nat.succ_pos count)]
      rw [set, ← saved_flags_again (decide (0 < count)) cpu.eflags]
      rw [last, registers]

/-- `page_fault_handler` maps nothing and returns to the access, so an access without a page
directory entry never completes: after any number of returns the processor stands before the same
instruction with the same registers, RF aside, and it faults into the handler again. -/
theorem fault_without_entry_repeats (prof : Profile) (installs : List Install)
    (accepted : AllAccepted installs) (gdt : Nat) (inside : gdt + 30 ≤ 510) (base : BitVec 32)
    (placed : Placed base) (table : InterruptDescriptorTable) (address : Usize) (va error count : Nat)
    (cpu final : Cpu)
    (created : installAll prof (BitVec.ofNat 16 selectorCodeSeg) installs = some table)
    (last : lastInstalled installs 14 = some address) (absent : NoDirectoryEntry va)
    (runs : (kernelPlatform gdt inside base placed table).Runs cpu)
    (room : kernelBase + 0x7c00 + 16 ≤ cpu.esp)
    (rounds : FaultRounds (gateAt (table.update base)) (kernelPlatform gdt inside base placed table)
      va error count cpu final) :
    final = { cpu with eflags := savedFlags (decide (0 < count)) cpu.eflags, mem := final.mem } ∧
      walk final.mem pagingTableAddr va = none ∧
      ∃ entered, deliver pagingTableAddr (gdtPointer gdt) (gateAt (table.update base)) 14
        (some error) true final = some entered ∧ entered.eip = address.toNat := by
  have recorded := installs_recorded accepted created
  have gated : Gated (gateAt (table.update base)) (kernelPlatform gdt inside base placed table) :=
    kernel_gated recorded
  obtain ⟨registers, intact⟩ := fault_rounds_restore gated runs room rounds
  have tables : Intact gdt base table final.mem := intact
  have again : (kernelPlatform gdt inside base placed table).Runs final := by
    rw [registers]
    exact runs.returned (decide (0 < count)) intact
  obtain ⟨fetched, gate, marked⟩ := gate_at_installed placed recorded tables (by decide) last
  have same : final.esp = cpu.esp := by rw [registers]
  obtain ⟨entered, delivered, enter⟩ := deliver_run (some error) true again gate marked rfl
    address.isLt (by rw [same]; exact room)
  exact ⟨registers, absent_walk_none tables.tables absent, entered, delivered, enter.eip⟩

/-- Behind the kernel window there is nothing to read, also at the second attempt. -/
theorem fault_at_unmapped_address :
    ∃ table final, installAll .debug (BitVec.ofNat 16 selectorCodeSeg) sampleInstalls = some table ∧
      FaultRounds (gateAt (table.update 0xc0022000))
        (kernelPlatform 0x1a0 (by decide) 0xc0022000 sample_placed table) 0xe0000000 0 1
        (sampleCpu table) final ∧
      final = { sampleCpu table with eflags := 0x10202, mem := final.mem } ∧
      walk final.mem pagingTableAddr 0xe0000000 = none := by
  obtain ⟨table, created, _⟩ := install_all_recorded .debug (BitVec.ofNat 16 selectorCodeSeg)
    sample_installs_accepted
  have last : lastInstalled sampleInstalls 14 = some 0xc0022500 := by decide
  have absent : NoDirectoryEntry 0xe0000000 := ⟨by decide, by decide, by decide⟩
  obtain ⟨final, handled⟩ := sample_handled (some 0) true created last
  have faults : walk (sampleCpu table).mem pagingTableAddr 0xe0000000 = none :=
    absent_walk_none (sample_intact table).tables absent
  have rounds : FaultRounds (gateAt (table.update 0xc0022000))
      (kernelPlatform 0x1a0 (by decide) 0xc0022000 sample_placed table) 0xe0000000 0 1
      (sampleCpu table) final := .again faults handled .none
  have repeats := fault_without_entry_repeats .debug sampleInstalls sample_installs_accepted 0x1a0
    (by decide) 0xc0022000 sample_placed table 0xc0022500 0xe0000000 0 1 (sampleCpu table) final
    created last absent (sample_runs table) (show kernelBase + 0x7c00 + 16 ≤ 0xc000e000 by decide)
    rounds
  have flags : savedFlags (decide (0 < 1)) (sampleCpu table).eflags = 0x10202 :=
    show savedFlags (decide (0 < 1)) 0x202 = 0x10202 by decide
  rw [flags] at repeats
  exact ⟨table, final, created, rounds, repeats.1, repeats.2.1⟩

end RondOS.Delivery
