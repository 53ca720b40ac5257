import RondOS.Lib.Paging

/-!
# Protected mode

Segment descriptors, and interrupts that stay on the privilege level they interrupt: the frame of
three dwords, an error code below it for some exceptions, and `iret`. A `Platform` is what such a
system has to provide for that (a mapped stack and the descriptor of its code), and the result is
that interrupted code does not notice: handlers may be interrupted in turn, to any depth. All that
changes are the marks of the processor in page table entries and its resume flag.
-/

namespace Protected

open ByteMemory I386 Paging

set_option autoImplicit false

structure Descriptor where
  base : Nat
  limit : Nat
  /-- Conforming for code, expand-down for data. -/
  direction : Bool
  /-- Readable for code, writable for data. -/
  access : Bool
  executable : Bool
  codeOrData : Bool
  dpl : Nat
  present : Bool
  big : Bool
  deriving DecidableEq

def decodeDescriptor (raw : Nat) : Descriptor where
  base := raw / 2 ^ 16 % 2 ^ 24 + 2 ^ 24 * (raw / 2 ^ 56 % 2 ^ 8)
  limit :=
    let units := raw % 2 ^ 16 + 2 ^ 16 * (raw / 2 ^ 48 % 2 ^ 4)
    if raw.testBit 55 then 0x1000 * units + 0xfff else units
  direction := raw.testBit 42
  access := raw.testBit 41
  executable := raw.testBit 43
  codeOrData := raw.testBit 44
  dpl := raw / 2 ^ 45 % 4
  present := raw.testBit 47
  big := raw.testBit 54

structure TablePointer where
  limit : Nat
  base : Nat
  deriving DecidableEq

/-- `lgdt` with 16-bit operands takes 24 bits of the base. -/
def lgdt16 (mem : Memory) (addr : Nat) : TablePointer where
  limit := readLE mem addr 2
  base := readLE mem (addr + 2) 4 % 0x1000000

/-- The null selector has no descriptor, and there is no local table. -/
def descriptorAddr (gdtr : TablePointer) (selector : Nat) : Option Nat :=
  if selector / 8 = 0 ∨ selector / 4 % 2 = 1 ∨ gdtr.limit < 8 * (selector / 8) + 7 then none
  else some (gdtr.base + 8 * (selector / 8))

def fetchDescriptor (mem : Memory) (cr3 : Nat) (gdtr : TablePointer) (selector : Nat) :
    Option Descriptor := do
  let addr ← descriptorAddr gdtr selector
  (loadLE mem cr3 addr 8).map decodeDescriptor

/-- A load of a segment register checks the descriptor and sets its accessed bit, bit 40. -/
def loadSegment (allowed : Descriptor → Bool) (mem : Memory) (cr3 : Nat) (gdtr : TablePointer)
    (selector : Nat) : Option (Descriptor × Memory) := do
  let addr ← descriptorAddr gdtr selector
  let (raw, read) ← load mem cr3 addr 8
  if allowed (decodeDescriptor raw) then
    if raw.testBit 40 then some (decodeDescriptor raw, read)
    else some (decodeDescriptor raw, ← store read cr3 (addr + 5) 1 (raw / 2 ^ 40 % 2 ^ 8 ||| 1))
  else none

def codeAllowed (cpl selector : Nat) (code : Descriptor) : Bool :=
  code.codeOrData && code.executable && code.present &&
    (if code.direction then decide (code.dpl ≤ cpl)
      else decide (selector % 4 ≤ cpl) && decide (code.dpl = cpl))

def dataAllowed (cpl selector : Nat) (data : Descriptor) : Bool :=
  data.codeOrData && (!data.executable || data.access) && data.present &&
    (data.executable && data.direction || decide (max cpl (selector % 4) ≤ data.dpl))

def stackAllowed (cpl selector : Nat) (data : Descriptor) : Bool :=
  data.codeOrData && !data.executable && data.access && data.present &&
    decide (selector % 4 = cpl) && decide (data.dpl = cpl)

def loadCode (cpl selector : Nat) (mem : Memory) (cr3 : Nat) (gdtr : TablePointer) :
    Option (Descriptor × Memory) :=
  loadSegment (codeAllowed cpl selector) mem cr3 gdtr selector

def loadData (cpl selector : Nat) (mem : Memory) (cr3 : Nat) (gdtr : TablePointer) :
    Option (Descriptor × Memory) :=
  loadSegment (dataAllowed cpl selector) mem cr3 gdtr selector

def loadStack (cpl selector : Nat) (mem : Memory) (cr3 : Nat) (gdtr : TablePointer) :
    Option (Descriptor × Memory) :=
  loadSegment (stackAllowed cpl selector) mem cr3 gdtr selector

theorem load_segment_run {entries : Nat → Prop} {mem : Memory} {cr3 first last shift : Nat}
    (mapped : Mapped entries mem cr3 first last shift) {gdtr : TablePointer}
    {selector addr raw : Nat} {allowed : Descriptor → Bool}
    (found : descriptorAddr gdtr selector = some addr) (above : first ≤ addr)
    (below : addr + 8 ≤ last) (clear : ∀ index, index < 8 → ¬entries (addr - shift + index))
    (value : readLE mem (addr - shift) 8 = raw) (passes : allowed (decodeDescriptor raw) = true) :
    ∃ after, loadSegment allowed mem cr3 gdtr selector = some (decodeDescriptor raw, after) ∧
      Marked entries (if raw.testBit 40 then mem
        else writeLE mem (addr - shift + 5) 1 (raw / 2 ^ 40 % 2 ^ 8 ||| 1)) after := by
  have shifted := mapped.shifted
  obtain ⟨read, loaded, marked⟩ := load_run mapped above below clear
  rw [value] at loaded
  cases accessed : raw.testBit 40 with
  | true =>
      refine ⟨read, ?_, marked⟩
      simp only [loadSegment, found, loaded, passes, accessed, Option.bind_eq_bind,
        Option.bind_some, if_true]
  | false =>
      obtain ⟨after, stored, marks⟩ := store_run (mapped.marked marked)
        (raw / 2 ^ 40 % 2 ^ 8 ||| 1) (show first ≤ addr + 5 by omega)
        (show addr + 5 + 1 ≤ last by omega)
      have place : addr + 5 - shift = addr - shift + 5 := by omega
      rw [place] at marks
      refine ⟨after, ?_, (marked.write _ _ _).trans marks⟩
      simp only [loadSegment, found, loaded, passes, accessed, stored, Option.bind_eq_bind,
        Option.bind_some, if_true, Bool.false_eq_true, if_false]

structure Descriptor.Flat (segment : Descriptor) : Prop where
  base : segment.base = 0
  limit : segment.limit = 0xffffffff
  upward : segment.direction = false

def Descriptor.linear (segment : Descriptor) (offset : Nat) : Option Nat :=
  if (if segment.direction && !segment.executable then segment.limit < offset
      else offset ≤ segment.limit) then
    some ((segment.base + offset) % 0x100000000)
  else none

theorem Descriptor.Flat.linear_eq {segment : Descriptor} (flat : segment.Flat) {offset : Nat}
    (word : offset < 0x100000000) : segment.linear offset = some offset := by
  have inside : offset ≤ segment.limit := by
    rw [flat.limit]
    omega
  have whole : (segment.base + offset) % 0x100000000 = offset := by
    rw [flat.base]
    omega
  simp only [Descriptor.linear, flat.upward, Bool.false_and, Bool.false_eq_true, if_false, inside,
    if_true, whole]

structure Cpu where
  eip : Nat
  cs : Nat
  eflags : Nat
  esp : Nat
  mem : Memory

def push (cr3 value : Nat) (cpu : Cpu) : Option Cpu := do
  let esp := (cpu.esp + 0xfffffffc) % 0x100000000
  some { cpu with esp, mem := ← store cpu.mem cr3 esp 4 value }

def pushAll (cr3 : Nat) : List Nat → Cpu → Option Cpu
  | [], cpu => some cpu
  | value :: rest, cpu => do pushAll cr3 rest (← push cr3 value cpu)

def pop (cr3 : Nat) (cpu : Cpu) : Option (Nat × Cpu) := do
  let (value, mem) ← load cpu.mem cr3 cpu.esp 4
  some (value, { cpu with esp := (cpu.esp + 4) % 0x100000000, mem })

/-- What the processor takes from a gate. -/
structure Entry where
  offset : Nat
  selector : Nat
  trap : Bool
  deriving DecidableEq

def interruptFlag (eflags : Nat) : Bool := eflags.testBit 9
def nestedTask (eflags : Nat) : Bool := eflags.testBit 14
def virtualMode (eflags : Nat) : Bool := eflags.testBit 17

/-- TF, NT, RF and VM are cleared, and IF by an interrupt gate. -/
def entryFlags (trap : Bool) (eflags : Nat) : Nat :=
  eflags &&& if trap then 0xfffcbeff else 0xfffcbcff

/-- The image of the flags in a frame. RF is set in it when the interrupted instruction is to start
again: always for a fault, and for others between the iterations of a string instruction. -/
def savedFlags (resume : Bool) (eflags : Nat) : Nat :=
  if resume then eflags ||| 0x10000 else eflags

section Interrupts

variable (cr3 : Nat) (gdtr : TablePointer) (gates : Memory → Nat → Option (Entry × Memory))

/-- Delivery of vector `v` without a change of privilege level; one with a change would need a task
state segment. -/
def deliver (v : Nat) (error : Option Nat) (resume : Bool) (cpu : Cpu) : Option Cpu := do
  let (entry, fetched) ← gates cpu.mem v
  let (_, mem) ← loadSegment (fun code => code.codeOrData && code.executable && code.present &&
    decide (code.dpl = cpu.cs % 4) && decide (entry.offset ≤ code.limit)) fetched cr3 gdtr
    entry.selector
  let pushed ← pushAll cr3 ([savedFlags resume cpu.eflags, cpu.cs, cpu.eip] ++ error.toList)
    { cpu with mem }
  some
    { pushed with
      eip := entry.offset
      cs := entry.selector / 4 * 4 + cpu.cs % 4
      eflags := entryFlags entry.trap cpu.eflags }

def iret (cpu : Cpu) : Option Cpu := do
  let (eip, popped) ← pop cr3 cpu
  let (cs, popped) ← pop cr3 popped
  let (eflags, popped) ← pop cr3 popped
  let (code, mem) ← loadCode (cpu.cs % 4) (cs % 0x10000) popped.mem cr3 gdtr
  if nestedTask cpu.eflags || virtualMode eflags || decide (cs % 4 ≠ cpu.cs % 4) ||
      decide (code.limit < eip) then none
  else some { popped with eip, cs := cs % 0x10000, eflags, mem }

def errorSize (error : Option Nat) : Nat := 4 * error.toList.length

/-- The way back from a handler: the error code goes, and `iret`. -/
def leave (error : Option Nat) (left : Cpu) : Option Cpu :=
  iret cr3 gdtr { left with esp := left.esp + errorSize error }

/-- A stack and a code segment that interrupts can rely on. `Intact` is what the running code has to
leave alone: tables and the like, none of it on the stack, and in `entries` up to marks. The code
segment has been loaded before. -/
structure Platform where
  low : Nat
  high : Nat
  shift : Nat
  selector : Nat
  code : Descriptor
  entries : Nat → Prop
  Intact : Memory → Prop
  shifted : shift ≤ low
  word : high < 0x100000000
  mapped : ∀ mem, Intact mem → Mapped entries mem cr3 low high shift
  apart : ∀ target, low - shift ≤ target → target < high - shift → ¬entries target
  stable : ∀ before after, Intact before →
    OnlyBetween entries (low - shift) (high - shift) before after → Intact after
  short : selector < 0x10000
  privileged : selector % 4 = 0
  described : ∀ mem, Intact mem → ∃ read, Marked entries mem read ∧
    ∀ allowed : Descriptor → Bool, allowed code = true →
      loadSegment allowed mem cr3 gdtr selector = some (code, read)
  flat : code.Flat
  kind : (code.codeOrData && code.executable && code.present) = true
  dpl : code.dpl = 0

variable {cr3 gdtr} (platform : Platform cr3 gdtr)

structure Platform.Runs (cpu : Cpu) : Prop where
  intact : platform.Intact cpu.mem
  cs : cpu.cs = platform.selector
  above : platform.low ≤ cpu.esp
  below : cpu.esp ≤ platform.high
  eip : cpu.eip < 0x100000000
  eflags : cpu.eflags < 0x100000000
  protectedMode : virtualMode cpu.eflags = false

def Platform.SameAbove (esp : Nat) (before after : Memory) : Prop :=
  ∀ target, esp - platform.shift ≤ target → target < platform.high - platform.shift →
    after target = before target

structure Platform.Framed (resume : Bool) (cpu : Cpu) (mem : Memory) : Prop where
  eip : readLE mem (cpu.esp - 12 - platform.shift) 4 = cpu.eip
  cs : readLE mem (cpu.esp - 8 - platform.shift) 4 = cpu.cs
  eflags : readLE mem (cpu.esp - 4 - platform.shift) 4 = savedFlags resume cpu.eflags

structure Platform.Entered (cpu : Cpu) (entry : Entry) (error : Option Nat) (resume : Bool)
    (entered : Cpu) : Prop where
  runs : platform.Runs entered
  eip : entered.eip = entry.offset
  eflags : entered.eflags = entryFlags entry.trap cpu.eflags
  esp : entered.esp = cpu.esp - 12 - errorSize error
  framed : platform.Framed resume cpu entered.mem
  code : ∀ value, error = some value →
    readLE entered.mem (entered.esp - platform.shift) 4 = value % 0x100000000
  pushed : OnlyBetween platform.entries (entered.esp - platform.shift)
    (cpu.esp - platform.shift) cpu.mem entered.mem

end Interrupts

theorem saved_flags_bit (resume : Bool) (eflags : Nat) {bit : Nat} (other : bit ≠ 16) :
    (savedFlags resume eflags).testBit bit = eflags.testBit bit := by
  cases resume with
  | false => rfl
  | true =>
      have mask : (0x10000 : Nat) = 2 ^ 16 := rfl
      simp only [savedFlags, if_true, Nat.testBit_or, mask, Nat.testBit_two_pow,
        decide_eq_false other.symm, Bool.or_false]

theorem saved_flags_lt (resume : Bool) {eflags : Nat} (word : eflags < 0x100000000) :
    savedFlags resume eflags < 0x100000000 := by
  cases resume with
  | false => exact word
  | true => exact @Nat.or_lt_two_pow eflags 0x10000 32 word (by decide)

theorem saved_flags_again (resume : Bool) (eflags : Nat) :
    savedFlags resume (savedFlags true eflags) = savedFlags true eflags := by
  cases resume with
  | false => rfl
  | true => simp only [savedFlags, if_true, Nat.or_assoc, Nat.or_self]

theorem entry_flags_clear (trap : Bool) (eflags : Nat) :
    nestedTask (entryFlags trap eflags) = false ∧ virtualMode (entryFlags trap eflags) = false ∧
      entryFlags trap eflags < 0x100000000 := by
  have bounded : ∀ mask, mask < 0x100000000 → eflags &&& mask < 0x100000000 :=
    fun mask small => Nat.lt_of_le_of_lt Nat.and_le_right small
  cases trap with
  | false =>
      have nested : (0xfffcbcff : Nat).testBit 14 = false := by decide
      have virtual : (0xfffcbcff : Nat).testBit 17 = false := by decide
      simp only [nestedTask, virtualMode, entryFlags, Bool.false_eq_true, if_false,
        Nat.testBit_and, nested, virtual, Bool.and_false, true_and]
      exact bounded _ (by decide)
  | true =>
      have nested : (0xfffcbeff : Nat).testBit 14 = false := by decide
      have virtual : (0xfffcbeff : Nat).testBit 17 = false := by decide
      simp only [nestedTask, virtualMode, entryFlags, if_true, Nat.testBit_and, nested, virtual,
        Bool.and_false, true_and]
      exact bounded _ (by decide)

theorem interrupt_gate_masks (eflags : Nat) : interruptFlag (entryFlags false eflags) = false := by
  have clear : (0xfffcbcff : Nat).testBit 9 = false := by decide
  simp only [interruptFlag, entryFlags, Bool.false_eq_true, if_false, Nat.testBit_and, clear,
    Bool.and_false]

section Frames

variable {cr3 : Nat} {gdtr : TablePointer} {gates : Memory → Nat → Option (Entry × Memory)}
  {platform : Platform cr3 gdtr}

theorem Platform.intact_marked {before after : Memory} (intact : platform.Intact before)
    (marked : Marked platform.entries before after) : platform.Intact after :=
  platform.stable before after intact (marked.between _ _)

theorem Platform.read_kept {before after : Memory} {first last addr width : Nat}
    (between : OnlyBetween platform.entries first last before after)
    (outside : addr + width ≤ first ∨ last ≤ addr) (lower : platform.low - platform.shift ≤ addr)
    (upper : addr + width ≤ platform.high - platform.shift) :
    readLE after addr width = readLE before addr width := by
  apply read_le_congr
  intro index bound
  exact (between (addr + index) (by omega)).eq (platform.apart _ (by omega) (by omega))

theorem Platform.same_above_marked {before after : Memory} {esp : Nat}
    (marked : Marked platform.entries before after) (above : platform.low ≤ esp) :
    platform.SameAbove esp before after :=
  fun target lower upper => (marked target).eq (platform.apart target (by omega) upper)

theorem push_stack (cpu : Cpu) (value : Nat) (intact : platform.Intact cpu.mem)
    (room : platform.low + 4 ≤ cpu.esp) (below : cpu.esp ≤ platform.high) :
    ∃ after, push cr3 value cpu = some { cpu with esp := cpu.esp - 4, mem := after } ∧
      platform.Intact after ∧
      readLE after (cpu.esp - 4 - platform.shift) 4 = value % 0x100000000 ∧
      OnlyBetween platform.entries (cpu.esp - 4 - platform.shift) (cpu.esp - platform.shift) cpu.mem
        after := by
  have word := platform.word
  have shifted := platform.shifted
  have moved : (cpu.esp + 0xfffffffc) % 0x100000000 = cpu.esp - 4 := by omega
  obtain ⟨after, stored, marked⟩ := store_run (platform.mapped cpu.mem intact) value
    (show platform.low ≤ cpu.esp - 4 by omega) (show cpu.esp - 4 + 4 ≤ platform.high by omega)
  have between : OnlyBetween platform.entries (cpu.esp - 4 - platform.shift)
      (cpu.esp - platform.shift) cpu.mem after := by
    intro target outside
    exact (write_between cpu.mem _ 4 value target (by omega)).trans (marked target)
  refine ⟨after, ?_, ?_, ?_, between⟩
  · simp only [push, moved, stored, Option.bind_eq_bind, Option.bind_some]
  · apply platform.stable cpu.mem after intact
    intro target outside
    exact between target (by omega)
  · rw [marked.read_le fun index bound => platform.apart _ (by omega) (by omega)]
    exact read_le_write_same _ _ 4 _

/-- By induction on the values: each lies below the one before, and none is touched again. -/
theorem push_all_run (values : List Nat) (cpu : Cpu) (intact : platform.Intact cpu.mem)
    (room : platform.low + 4 * values.length ≤ cpu.esp) (below : cpu.esp ≤ platform.high) :
    ∃ after, pushAll cr3 values cpu =
        some { cpu with esp := cpu.esp - 4 * values.length, mem := after } ∧
      platform.Intact after ∧
      (∀ index, index < values.length →
        readLE after (cpu.esp - 4 * (index + 1) - platform.shift) 4 =
          values.getD index 0 % 0x100000000) ∧
      OnlyBetween platform.entries (cpu.esp - 4 * values.length - platform.shift)
        (cpu.esp - platform.shift) cpu.mem after := by
  have shifted := platform.shifted
  induction values generalizing cpu with
  | nil =>
      refine ⟨cpu.mem, rfl, intact, ?_, fun _ _ => MarkedAt.refl⟩
      intro index inside
      cases inside
  | cons value rest ih =>
      rw [List.length_cons] at room
      obtain ⟨middle, first, kept, stored, near⟩ := push_stack cpu value intact (by omega) below
      obtain ⟨after, others, remains, listed, far⟩ :=
        ih { cpu with esp := cpu.esp - 4, mem := middle } kept (by dsimp only; omega)
          (by dsimp only; omega)
      dsimp only at listed far
      have top : cpu.esp - 4 - 4 * rest.length = cpu.esp - 4 * (value :: rest).length := by
        rw [List.length_cons]
        omega
      refine ⟨after, ?_, remains, ?_, ?_⟩
      · rw [pushAll, first, Option.bind_eq_bind, Option.bind_some, others]
        dsimp only
        rw [top]
      · intro index inside
        cases index with
        | zero =>
            rw [List.getD_cons_zero, ← stored]
            exact platform.read_kept far (by omega) (by omega) (by omega)
        | succ index =>
            rw [List.getD_cons_succ, ← listed index (Nat.lt_of_succ_lt_succ inside)]
            have place : cpu.esp - 4 * (index + 1 + 1) = cpu.esp - 4 - 4 * (index + 1) := by omega
            rw [place]
      · intro target outside
        rw [← top] at outside
        exact (near target (by omega)).trans (far target (by omega))

theorem pop_stack (cpu : Cpu) (intact : platform.Intact cpu.mem) (above : platform.low ≤ cpu.esp)
    (below : cpu.esp + 4 ≤ platform.high) :
    ∃ after, pop cr3 cpu = some (readLE cpu.mem (cpu.esp - platform.shift) 4,
        { cpu with esp := cpu.esp + 4, mem := after }) ∧
      Marked platform.entries cpu.mem after := by
  have word := platform.word
  have shifted := platform.shifted
  have whole : (cpu.esp + 4) % 0x100000000 = cpu.esp + 4 := by omega
  obtain ⟨after, loaded, marked⟩ := load_run (platform.mapped cpu.mem intact) above below
    fun index bound => platform.apart _ (by omega) (by omega)
  refine ⟨after, ?_, marked⟩
  simp only [pop, loaded, whole, Option.bind_eq_bind, Option.bind_some]

theorem Platform.Framed.congr {resume : Bool} {cpu : Cpu} {before after : Memory}
    (framed : platform.Framed resume cpu before) (runs : platform.Runs cpu)
    (room : platform.low + 12 ≤ cpu.esp) (same : platform.SameAbove (cpu.esp - 12) before after) :
    platform.Framed resume cpu after := by
  have shifted := platform.shifted
  have below := runs.below
  have reads : ∀ offset, 4 ≤ offset → offset ≤ 12 →
      readLE after (cpu.esp - offset - platform.shift) 4 =
        readLE before (cpu.esp - offset - platform.shift) 4 := by
    intro offset least most
    apply read_le_congr
    intro index bound
    exact same _ (by omega) (by omega)
  exact ⟨(reads 12 (by omega) (by omega)).trans framed.eip,
    (reads 8 (by omega) (by omega)).trans framed.cs,
    (reads 4 (by omega) (by omega)).trans framed.eflags⟩

theorem Platform.SameAbove.trans {upper lower : Nat} {first second third : Memory}
    (left : platform.SameAbove upper first second) (right : platform.SameAbove lower second third)
    (ordered : lower ≤ upper) : platform.SameAbove upper first third := by
  intro target above below
  have weaker : lower - platform.shift ≤ target := by omega
  rw [right target weaker below, left target above below]

theorem error_size_le (error : Option Nat) : errorSize error ≤ 4 := by
  cases error with
  | none => exact Nat.zero_le 4
  | some code => exact Nat.le_refl 4

theorem deliver_run {cpu : Cpu} {v : Nat} {entry : Entry} {fetched : Memory} (error : Option Nat)
    (resume : Bool) (runs : platform.Runs cpu) (gate : gates cpu.mem v = some (entry, fetched))
    (marked : Marked platform.entries cpu.mem fetched)
    (selector : entry.selector = platform.selector) (offset : entry.offset < 0x100000000)
    (room : platform.low + 16 ≤ cpu.esp) :
    ∃ entered, deliver cr3 gdtr gates v error resume cpu = some entered ∧
      platform.Entered cpu entry error resume entered := by
  have below := runs.below
  have privileged := platform.privileged
  have short := platform.short
  have eip := runs.eip
  have saved := saved_flags_lt resume runs.eflags
  have ring : cpu.cs % 4 = 0 := by rw [runs.cs, privileged]
  have same : platform.selector / 4 * 4 + 0 = platform.selector := by omega
  have inside : entry.offset ≤ platform.code.limit := by
    rw [platform.flat.limit]
    omega
  obtain ⟨read, loaded, segment⟩ :=
    platform.described fetched (platform.intact_marked runs.intact marked)
  have allowed : (platform.code.codeOrData && platform.code.executable && platform.code.present &&
      decide (platform.code.dpl = cpu.cs % 4) && decide (entry.offset ≤ platform.code.limit)) =
        true := by
    simp only [platform.kind, platform.dpl, ring, inside, decide_true, Bool.and_self]
  have untouched := marked.trans loaded
  have small := error_size_le error
  have length : 4 * ([savedFlags resume cpu.eflags, cpu.cs, cpu.eip] ++ error.toList).length =
      12 + errorSize error := by
    rw [List.length_append, errorSize]
    simp only [List.length_cons, List.length_nil]
    omega
  obtain ⟨mem, pushes, intact, listed, between⟩ :=
    push_all_run ([savedFlags resume cpu.eflags, cpu.cs, cpu.eip] ++ error.toList)
      { cpu with mem := read } (platform.intact_marked runs.intact untouched)
      (by rw [length]; dsimp only; omega) below
  rw [length] at pushes between
  dsimp only at pushes listed between
  have esp : cpu.esp - (12 + errorSize error) = cpu.esp - 12 - errorSize error := by omega
  rw [esp] at pushes between
  have frame : ∀ index, index < 3 → index <
      ([savedFlags resume cpu.eflags, cpu.cs, cpu.eip] ++ error.toList).length := by
    intro index few
    rw [List.length_append]
    simp only [List.length_cons, List.length_nil]
    omega
  have word : cpu.cs < 0x100000000 := by
    rw [runs.cs]
    omega
  obtain ⟨_, clear, bounded⟩ := entry_flags_clear entry.trap cpu.eflags
  refine ⟨{ eip := entry.offset, cs := platform.selector, eflags := entryFlags entry.trap cpu.eflags,
            esp := cpu.esp - 12 - errorSize error, mem }, ?_, ?_⟩
  · rw [deliver, gate, Option.bind_eq_bind, Option.bind_some]
    dsimp only
    rw [selector, segment _ allowed, Option.bind_eq_bind, Option.bind_some, pushes,
      Option.bind_eq_bind, Option.bind_some, ring, same]
  · refine ⟨⟨intact, rfl, ?_, ?_, offset, bounded, clear⟩, rfl, rfl, rfl, ⟨?_, ?_, ?_⟩, ?_, ?_⟩
    · change platform.low ≤ cpu.esp - 12 - errorSize error
      omega
    · change cpu.esp - 12 - errorSize error ≤ platform.high
      omega
    · exact (listed 2 (frame 2 (by decide))).trans (Nat.mod_eq_of_lt eip)
    · exact (listed 1 (frame 1 (by decide))).trans (Nat.mod_eq_of_lt word)
    · exact (listed 0 (frame 0 (by decide))).trans (Nat.mod_eq_of_lt saved)
    · intro value given
      subst given
      exact listed 3 (show 3 < 4 by decide)
    · intro target outside
      exact (untouched target).trans (between target outside)

theorem iret_run {resume : Bool} {cpu left : Cpu} (runs : platform.Runs cpu)
    (room : platform.low + 12 ≤ cpu.esp) (framed : platform.Framed resume cpu left.mem)
    (intact : platform.Intact left.mem) (cs : left.cs = platform.selector)
    (esp : left.esp = cpu.esp - 12) (ended : nestedTask left.eflags = false) :
    ∃ after, iret cr3 gdtr left =
        some { cpu with eflags := savedFlags resume cpu.eflags, mem := after } ∧
      Marked platform.entries left.mem after := by
  have below := runs.below
  have shifted := platform.shifted
  have privileged := platform.privileged
  have short := platform.short
  obtain ⟨first, popped, marked⟩ := pop_stack left intact (by omega) (by omega)
  have firstIntact := platform.intact_marked intact marked
  obtain ⟨second, poppedNext, markedNext⟩ :=
    pop_stack { left with esp := left.esp + 4, mem := first } firstIntact (by dsimp only; omega)
      (by dsimp only; omega)
  have secondIntact := platform.intact_marked firstIntact markedNext
  obtain ⟨third, poppedLast, markedLast⟩ :=
    pop_stack { left with esp := left.esp + 4 + 4, mem := second } secondIntact
      (by dsimp only; omega) (by dsimp only; omega)
  obtain ⟨after, loaded, segment⟩ :=
    platform.described third (platform.intact_marked secondIntact markedLast)
  have clear : ∀ offset, 4 ≤ offset → offset ≤ 12 → ∀ index, index < 4 →
      ¬platform.entries (cpu.esp - offset - platform.shift + index) :=
    fun offset least most index bound => platform.apart _ (by omega) (by omega)
  have middle : left.esp + 4 = cpu.esp - 8 := by omega
  have last : cpu.esp - 8 + 4 = cpu.esp - 4 := by omega
  have top : cpu.esp - 4 + 4 = cpu.esp := by omega
  dsimp only at markedNext markedLast
  simp only [middle, last, top] at popped poppedNext poppedLast
  rw [esp, framed.eip] at popped
  rw [marked.read_le (clear 8 (by decide) (by decide)), framed.cs] at poppedNext
  rw [(marked.trans markedNext).read_le (clear 4 (by decide) (by decide)), framed.eflags]
    at poppedLast
  have selector : platform.selector % 0x10000 = platform.selector := Nat.mod_eq_of_lt short
  have code : loadCode 0 platform.selector third cr3 gdtr = some (platform.code, after) := by
    apply segment
    simp only [codeAllowed, platform.kind, platform.flat.upward, platform.dpl, privileged,
      Bool.false_eq_true, if_false, Nat.le_refl, decide_true, Bool.and_self]
  have inside : ¬platform.code.limit < cpu.eip := by
    have eip := runs.eip
    rw [platform.flat.limit]
    omega
  have real : virtualMode (savedFlags resume cpu.eflags) = false :=
    (saved_flags_bit resume cpu.eflags (by decide)).trans runs.protectedMode
  refine ⟨after, ?_, marked.trans (markedNext.trans (markedLast.trans loaded))⟩
  simp only [iret, popped, poppedNext, poppedLast, Option.bind_eq_bind, Option.bind_some]
  simp only [runs.cs, cs, selector, privileged, code, ended, real, inside, Option.bind_some,
    Bool.or_self, ne_eq, not_true_eq_false, decide_false, Bool.false_eq_true, if_false]

end Frames

section Nesting

variable {cr3 : Nat} {gdtr : TablePointer} (gates : Memory → Nat → Option (Entry × Memory))
  (platform : Platform cr3 gdtr)

/-- What compiled code does between two deliveries. It works on the stack below `top` and leaves
the frames above, the intact part and the system flags alone. -/
structure Works (top : Nat) (cpu next : Cpu) : Prop where
  runs : platform.Runs next
  below : next.esp ≤ top
  same : platform.SameAbove top cpu.mem next.mem
  interrupts : interruptFlag next.eflags = interruptFlag cpu.eflags
  task : nestedTask next.eflags = nestedTask cpu.eflags

/-- Code below `top` with all deliveries to it, to any depth: vectors, and whether they came from
outside, which needs the interrupt flag. -/
inductive Body : Nat → Cpu → List (Nat × Bool) → Cpu → Prop where
  | done {top : Nat} {cpu : Cpu} : Body top cpu [] cpu
  | work {top : Nat} {cpu next final : Cpu} {trace : List (Nat × Bool)}
      (worked : Works platform top cpu next) (rest : Body top next trace final) :
      Body top cpu trace final
  | interrupted {top v : Nat} {cpu entered left resumed final : Cpu} {error : Option Nat}
      {resume external : Bool} {nested trace : List (Nat × Bool)}
      (room : platform.low + 16 ≤ cpu.esp)
      (allowed : external = true → interruptFlag cpu.eflags = true)
      (delivered : deliver cr3 gdtr gates v error resume cpu = some entered)
      (handler : Body entered.esp entered nested left)
      (unwound : left.esp = entered.esp)
      (returned : leave cr3 gdtr error left = some resumed)
      (rest : Body top resumed trace final) :
      Body top cpu ((v, external) :: (nested ++ trace)) final

def Gated : Prop :=
  ∀ mem v entry fetched, platform.Intact mem → gates mem v = some (entry, fetched) →
    Marked platform.entries mem fetched ∧ entry.selector = platform.selector ∧
      entry.offset < 0x100000000 ∧ entry.trap = false

/-- What holds of the code below `top` from `cpu` on: it ends up in a sane state, keeps the frames
above and the system flags, and with the flag off nothing comes from outside. -/
structure Kept (top : Nat) (cpu : Cpu) (trace : List (Nat × Bool)) (final : Cpu) : Prop where
  runs : platform.Runs final
  below : final.esp ≤ top
  same : platform.SameAbove top cpu.mem final.mem
  interrupts : interruptFlag final.eflags = interruptFlag cpu.eflags
  task : nestedTask final.eflags = nestedTask cpu.eflags
  internal : interruptFlag cpu.eflags = false → ∀ step ∈ trace, step.2 = false

variable {gates platform}

theorem leave_run {cpu entered left : Cpu} {entry : Entry} {error : Option Nat} {resume : Bool}
    {nested : List (Nat × Bool)} (runs : platform.Runs cpu) (room : platform.low + 16 ≤ cpu.esp)
    (enter : platform.Entered cpu entry error resume entered)
    (kept : Kept platform entered.esp entered nested left) (unwound : left.esp = entered.esp) :
    ∃ after, leave cr3 gdtr error left =
        some { cpu with eflags := savedFlags resume cpu.eflags, mem := after } ∧
      Marked platform.entries left.mem after := by
  have small := error_size_le error
  have esp := enter.esp
  have same : platform.SameAbove (cpu.esp - 12) entered.mem left.mem := by
    intro target above below
    exact kept.same target (by omega) below
  have framed := enter.framed.congr runs (by omega) same
  have ended : nestedTask left.eflags = false := by
    rw [kept.task, enter.eflags]
    exact (entry_flags_clear entry.trap cpu.eflags).1
  exact @iret_run cr3 gdtr platform resume cpu { left with esp := left.esp + errorSize error } runs
    (by omega) framed kept.runs.intact kept.runs.cs
    (by change left.esp + errorSize error = _; omega) ended

theorem Kept.refl {top : Nat} {cpu : Cpu} (runs : platform.Runs cpu) (below : cpu.esp ≤ top) :
    Kept platform top cpu [] cpu :=
  ⟨runs, below, fun _ _ _ => rfl, rfl, rfl, fun _ _ member => nomatch member⟩

theorem Kept.trans {top : Nat} {cpu middle final : Cpu} {front back : List (Nat × Bool)}
    (first : Kept platform top cpu front middle) (second : Kept platform top middle back final) :
    Kept platform top cpu (front ++ back) final where
  runs := second.runs
  below := second.below
  same := first.same.trans second.same (Nat.le_refl _)
  interrupts := second.interrupts.trans first.interrupts
  task := second.task.trans first.task
  internal := by
    intro off step member
    rcases List.mem_append.mp member with inner | outer
    · exact first.internal off step inner
    · exact second.internal (first.interrupts.trans off) step outer

theorem Works.kept {top : Nat} {cpu next : Cpu} (worked : Works platform top cpu next) :
    Kept platform top cpu [] next :=
  ⟨worked.runs, worked.below, worked.same, worked.interrupts, worked.task,
    fun _ _ member => nomatch member⟩

theorem Platform.Runs.returned {cpu : Cpu} {after : Memory} (runs : platform.Runs cpu)
    (resume : Bool) (intact : platform.Intact after) :
    platform.Runs { cpu with eflags := savedFlags resume cpu.eflags, mem := after } where
  intact := intact
  cs := runs.cs
  above := runs.above
  below := runs.below
  eip := runs.eip
  eflags := saved_flags_lt resume runs.eflags
  protectedMode := (saved_flags_bit resume cpu.eflags (by decide)).trans runs.protectedMode

theorem kept_of_return {top : Nat} {cpu entered left : Cpu} {after : Memory}
    {nested : List (Nat × Bool)} (resume : Bool) (runs : platform.Runs cpu) (below : cpu.esp ≤ top)
    (lower : entered.esp ≤ cpu.esp)
    (pushed : OnlyBetween platform.entries (entered.esp - platform.shift)
      (cpu.esp - platform.shift) cpu.mem entered.mem)
    (kept : Kept platform entered.esp entered nested left)
    (marked : Marked platform.entries left.mem after) :
    Kept platform top cpu []
      { cpu with eflags := savedFlags resume cpu.eflags, mem := after } where
  runs := runs.returned resume (platform.intact_marked kept.runs.intact marked)
  below := below
  same := by
    have above := runs.above
    intro target high inside
    change after target = _
    rw [platform.same_above_marked marked above target (by omega) inside,
      kept.same target (by omega) inside]
    exact (pushed target (by omega)).eq (platform.apart target (by omega) inside)
  interrupts := saved_flags_bit resume cpu.eflags (by decide)
  task := saved_flags_bit resume cpu.eflags (by decide)
  internal := fun _ _ member => nomatch member

/-- Deliveries to any depth leave the code below `top` as they found it. -/
theorem body_kept {top : Nat} {cpu final : Cpu} {trace : List (Nat × Bool)}
    (gated : Gated gates platform) (body : Body gates platform top cpu trace final)
    (runs : platform.Runs cpu) (below : cpu.esp ≤ top) : Kept platform top cpu trace final := by
  induction body with
  | done => exact Kept.refl runs below
  | work worked rest ih => exact worked.kept.trans (ih worked.runs worked.below)
  | @interrupted top v cpu entered left resumed final error resume external nested trace room allowed
      delivered handler unwound returned rest handlerKept restKept =>
      obtain ⟨⟨entry, fetched⟩, gate, _⟩ := Option.bind_eq_some_iff.mp delivered
      obtain ⟨marked, selector, offset, interrupt⟩ := gated cpu.mem v entry fetched runs.intact gate
      obtain ⟨reached, same, enter⟩ :=
        deliver_run error resume runs gate marked selector offset room
      cases same.symm.trans delivered
      have nestedKept := handlerKept enter.runs (Nat.le_refl _)
      obtain ⟨after, left, marks⟩ := leave_run runs room enter nestedKept unwound
      cases left.symm.trans returned
      have lower : entered.esp ≤ cpu.esp := by
        rw [enter.esp]
        omega
      have back := kept_of_return resume runs below lower enter.pushed nestedKept marks
      have kept := back.trans (restKept back.runs below)
      refine { kept with internal := ?_ }
      intro off step member
      rcases List.mem_cons.mp member with rfl | later
      · cases external with
        | false => rfl
        | true => exact absurd (allowed rfl) (by rw [off]; exact Bool.false_ne_true)
      · rcases List.mem_append.mp later with inner | outer
        · have masked : interruptFlag entered.eflags = false := by
            rw [enter.eflags, interrupt]
            exact interrupt_gate_masks cpu.eflags
          exact nestedKept.internal masked step inner
        · exact kept.internal off step outer

variable (gates platform)

/-- One delivery to `cpu` up to the return, with the deliveries to its handler. -/
def Handled (v : Nat) (error : Option Nat) (resume : Bool) (cpu : Cpu) (trace : List (Nat × Bool))
    (resumed : Cpu) : Prop :=
  ∃ entered left, deliver cr3 gdtr gates v error resume cpu = some entered ∧
    Body gates platform entered.esp entered trace left ∧ left.esp = entered.esp ∧
    leave cr3 gdtr error left = some resumed

variable {gates platform}

theorem handled_restores {v : Nat} {error : Option Nat} {resume : Bool} {cpu resumed : Cpu}
    {trace : List (Nat × Bool)} (gated : Gated gates platform) (runs : platform.Runs cpu)
    (room : platform.low + 16 ≤ cpu.esp)
    (handled : Handled gates platform v error resume cpu trace resumed) :
    resumed = { cpu with eflags := savedFlags resume cpu.eflags, mem := resumed.mem } ∧
      platform.Intact resumed.mem ∧ platform.SameAbove cpu.esp cpu.mem resumed.mem ∧
      ∀ step ∈ trace, step.2 = false := by
  obtain ⟨entered, left, delivered, body, unwound, returned⟩ := handled
  obtain ⟨⟨entry, fetched⟩, gate, _⟩ := Option.bind_eq_some_iff.mp delivered
  obtain ⟨marked, selector, offset, interrupt⟩ := gated cpu.mem v entry fetched runs.intact gate
  obtain ⟨reached, same, enter⟩ := deliver_run error resume runs gate marked selector offset room
  cases same.symm.trans delivered
  have kept := body_kept gated body enter.runs (Nat.le_refl _)
  obtain ⟨after, left, marks⟩ := leave_run runs room enter kept unwound
  cases left.symm.trans returned
  have lower : entered.esp ≤ cpu.esp := by
    rw [enter.esp]
    omega
  have masked : interruptFlag entered.eflags = false := by
    rw [enter.eflags, interrupt]
    exact interrupt_gate_masks cpu.eflags
  have back := kept_of_return resume runs (Nat.le_refl _) lower enter.pushed kept marks
  exact ⟨rfl, back.runs.intact, back.same, kept.internal masked⟩

end Nesting

end Protected
