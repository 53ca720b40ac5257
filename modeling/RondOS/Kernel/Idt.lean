import RondOS.Kernel.BitAccess
import RondOS.Lib.ByteMemory
import Mathlib.Data.List.FinRange

/-!
# The interrupt descriptor table

`InterruptDescriptorTable` is a `repr(C)` record of packed 8-byte entries, so its bytes are those of
its fields one after the other. The processor knows nothing of the fields: it finds the gate of
vector `v` at offset `8 * v`. Handlers are installed through a field or through `IndexMut`, and both
ways have to agree with that offset.
-/

namespace RondOS.Idt

open ByteMemory RustWord BitAccess

set_option autoImplicit false

inductive PrivilegeLevel where
  | ring0
  | ring1
  | ring2
  | ring3
  deriving DecidableEq

abbrev InterruptOption := BitVec 16

def InterruptOption.setTrap (option : InterruptOption) (val : Bool) : Option InterruptOption :=
  setBit option 8 val

def InterruptOption.setPrivilegeLevel (prof : Profile) (option : InterruptOption)
    (val : BitVec 16) : Option InterruptOption :=
  setBits prof option (.inclusive 13 14) val

def InterruptOption.setPresent (option : InterruptOption) (val : Bool) : Option InterruptOption :=
  setBit option 15 val

def InterruptOption.new (prof : Profile) (isTrap : Bool) (privilegeLevel : PrivilegeLevel)
    (isPresent : Bool) : Option InterruptOption := do
  let option ← InterruptOption.setTrap 0b0000111000000000 isTrap
  let option ← option.setPrivilegeLevel prof (BitVec.ofNat 16 privilegeLevel.ctorIdx)
  option.setPresent isPresent

/-- An entry; the handler's type is a phantom parameter and has no bytes. -/
structure InterruptEntry where
  pointerLow : BitVec 16
  gdtSelector : BitVec 16
  options : InterruptOption
  pointerMiddle : BitVec 16
  deriving DecidableEq

def InterruptEntry.default (prof : Profile) : Option InterruptEntry := do
  some
    { pointerLow := 0
      gdtSelector := 0
      options := ← InterruptOption.new prof false .ring0 false
      pointerMiddle := 0 }

def InterruptEntry.pointer (entry : InterruptEntry) : Usize :=
  entry.pointerMiddle.setWidth 32 <<< 16 ||| entry.pointerLow.setWidth 32

/-- `cs` is what `get_cs` reads. -/
def InterruptEntry.setHandleAddr (prof : Profile) (cs : BitVec 16) (pointer : Usize)
    (entry : InterruptEntry) : Option InterruptEntry := do
  some
    { entry with
      pointerLow := (pointer &&& 0xffff).setWidth 16
      pointerMiddle := (pointer >>> 16).setWidth 16
      gdtSelector := cs
      options := ← InterruptOption.new prof false .ring0 true }

/-- The fields in the order of the source. -/
structure InterruptDescriptorTable where
  divideError : InterruptEntry
  debug : InterruptEntry
  nonMaskableInterrupt : InterruptEntry
  breakpoint : InterruptEntry
  overflow : InterruptEntry
  boundRangeExceeded : InterruptEntry
  invalidOpcode : InterruptEntry
  deviceNotAvailable : InterruptEntry
  doubleFault : InterruptEntry
  coprocessorSegmentOverrun : InterruptEntry
  invalidTss : InterruptEntry
  segmentNotPresent : InterruptEntry
  stackSegmentFault : InterruptEntry
  generalProtectionFault : InterruptEntry
  pageFault : InterruptEntry
  reserved1 : InterruptEntry
  x87FloatingPoint : InterruptEntry
  alignmentCheck : InterruptEntry
  machineCheck : InterruptEntry
  simdFloatingPoint : InterruptEntry
  virtualization : InterruptEntry
  reserved2 : Fin 9 → InterruptEntry
  securityException : InterruptEntry
  reserved3 : InterruptEntry
  interrupts : Fin 224 → InterruptEntry

def InterruptDescriptorTable.filled (entry : InterruptEntry) : InterruptDescriptorTable where
  divideError := entry
  debug := entry
  nonMaskableInterrupt := entry
  breakpoint := entry
  overflow := entry
  boundRangeExceeded := entry
  invalidOpcode := entry
  deviceNotAvailable := entry
  doubleFault := entry
  coprocessorSegmentOverrun := entry
  invalidTss := entry
  segmentNotPresent := entry
  stackSegmentFault := entry
  generalProtectionFault := entry
  pageFault := entry
  reserved1 := entry
  x87FloatingPoint := entry
  alignmentCheck := entry
  machineCheck := entry
  simdFloatingPoint := entry
  virtualization := entry
  reserved2 := fun _ => entry
  securityException := entry
  reserved3 := entry
  interrupts := fun _ => entry

def InterruptDescriptorTable.new (prof : Profile) : Option InterruptDescriptorTable := do
  some (InterruptDescriptorTable.filled (← InterruptEntry.default prof))

inductive Field where
  | divideError
  | debug
  | nonMaskableInterrupt
  | breakpoint
  | overflow
  | boundRangeExceeded
  | invalidOpcode
  | deviceNotAvailable
  | doubleFault
  | coprocessorSegmentOverrun
  | invalidTss
  | segmentNotPresent
  | stackSegmentFault
  | generalProtectionFault
  | pageFault
  | reserved1
  | x87FloatingPoint
  | alignmentCheck
  | machineCheck
  | simdFloatingPoint
  | virtualization
  | securityException
  | reserved3
  deriving DecidableEq

/-- The vector number of each exception, as the documentation of the fields has it. -/
def Field.vector : Field → Nat
  | .divideError => 0
  | .debug => 1
  | .nonMaskableInterrupt => 2
  | .breakpoint => 3
  | .overflow => 4
  | .boundRangeExceeded => 5
  | .invalidOpcode => 6
  | .deviceNotAvailable => 7
  | .doubleFault => 8
  | .coprocessorSegmentOverrun => 9
  | .invalidTss => 10
  | .segmentNotPresent => 11
  | .stackSegmentFault => 12
  | .generalProtectionFault => 13
  | .pageFault => 14
  | .reserved1 => 15
  | .x87FloatingPoint => 16
  | .alignmentCheck => 17
  | .machineCheck => 18
  | .simdFloatingPoint => 19
  | .virtualization => 20
  | .securityException => 30
  | .reserved3 => 31

/-- What `IndexMut` hands out: a field, or an element of `interrupts`. -/
inductive Place where
  | field (name : Field)
  | interrupts (number : Fin 224)
  deriving DecidableEq

/-- The panics of `index_mut`: a reserved entry, an exception with an error code, a diverging
exception, no entry with this index. -/
inductive IndexPanic where
  | reserved (index : Nat)
  | errorCode (index : Nat)
  | diverging (index : Nat)
  | noEntry (index : Nat)
  deriving DecidableEq

/-- The arms of `index` and `index_mut`, which are the same. -/
def indexMut (index : Nat) : Except IndexPanic Place :=
  match index with
  | 0 => .ok (.field .divideError)
  | 1 => .ok (.field .debug)
  | 2 => .ok (.field .nonMaskableInterrupt)
  | 3 => .ok (.field .breakpoint)
  | 4 => .ok (.field .overflow)
  | 5 => .ok (.field .boundRangeExceeded)
  | 6 => .ok (.field .invalidOpcode)
  | 7 => .ok (.field .deviceNotAvailable)
  | 9 => .ok (.field .coprocessorSegmentOverrun)
  | 16 => .ok (.field .x87FloatingPoint)
  | 19 => .ok (.field .simdFloatingPoint)
  | 20 => .ok (.field .virtualization)
  | i =>
      if inside : 32 ≤ i ∧ i ≤ 255 then .ok (.interrupts ⟨i - 32, by omega⟩)
      else if i = 15 ∨ i = 31 ∨ (21 ≤ i ∧ i ≤ 29) then .error (.reserved i)
      else if i = 8 ∨ (10 ≤ i ∧ i ≤ 14) ∨ i = 17 ∨ i = 30 then .error (.errorCode i)
      else if i = 18 then .error (.diverging i)
      else .error (.noEntry i)

def InterruptDescriptorTable.entry (table : InterruptDescriptorTable) : Place → InterruptEntry
  | .field .divideError => table.divideError
  | .field .debug => table.debug
  | .field .nonMaskableInterrupt => table.nonMaskableInterrupt
  | .field .breakpoint => table.breakpoint
  | .field .overflow => table.overflow
  | .field .boundRangeExceeded => table.boundRangeExceeded
  | .field .invalidOpcode => table.invalidOpcode
  | .field .deviceNotAvailable => table.deviceNotAvailable
  | .field .doubleFault => table.doubleFault
  | .field .coprocessorSegmentOverrun => table.coprocessorSegmentOverrun
  | .field .invalidTss => table.invalidTss
  | .field .segmentNotPresent => table.segmentNotPresent
  | .field .stackSegmentFault => table.stackSegmentFault
  | .field .generalProtectionFault => table.generalProtectionFault
  | .field .pageFault => table.pageFault
  | .field .reserved1 => table.reserved1
  | .field .x87FloatingPoint => table.x87FloatingPoint
  | .field .alignmentCheck => table.alignmentCheck
  | .field .machineCheck => table.machineCheck
  | .field .simdFloatingPoint => table.simdFloatingPoint
  | .field .virtualization => table.virtualization
  | .field .securityException => table.securityException
  | .field .reserved3 => table.reserved3
  | .interrupts number => table.interrupts number

def InterruptDescriptorTable.setEntry (table : InterruptDescriptorTable) (value : InterruptEntry) :
    Place → InterruptDescriptorTable
  | .field .divideError => { table with divideError := value }
  | .field .debug => { table with debug := value }
  | .field .nonMaskableInterrupt => { table with nonMaskableInterrupt := value }
  | .field .breakpoint => { table with breakpoint := value }
  | .field .overflow => { table with overflow := value }
  | .field .boundRangeExceeded => { table with boundRangeExceeded := value }
  | .field .invalidOpcode => { table with invalidOpcode := value }
  | .field .deviceNotAvailable => { table with deviceNotAvailable := value }
  | .field .doubleFault => { table with doubleFault := value }
  | .field .coprocessorSegmentOverrun => { table with coprocessorSegmentOverrun := value }
  | .field .invalidTss => { table with invalidTss := value }
  | .field .segmentNotPresent => { table with segmentNotPresent := value }
  | .field .stackSegmentFault => { table with stackSegmentFault := value }
  | .field .generalProtectionFault => { table with generalProtectionFault := value }
  | .field .pageFault => { table with pageFault := value }
  | .field .reserved1 => { table with reserved1 := value }
  | .field .x87FloatingPoint => { table with x87FloatingPoint := value }
  | .field .alignmentCheck => { table with alignmentCheck := value }
  | .field .machineCheck => { table with machineCheck := value }
  | .field .simdFloatingPoint => { table with simdFloatingPoint := value }
  | .field .virtualization => { table with virtualization := value }
  | .field .securityException => { table with securityException := value }
  | .field .reserved3 => { table with reserved3 := value }
  | .interrupts number =>
      { table with interrupts := Function.update table.interrupts number value }

def InterruptDescriptorTable.gates (table : InterruptDescriptorTable) : List InterruptEntry :=
  [table.divideError, table.debug, table.nonMaskableInterrupt, table.breakpoint, table.overflow,
    table.boundRangeExceeded, table.invalidOpcode, table.deviceNotAvailable, table.doubleFault,
    table.coprocessorSegmentOverrun, table.invalidTss, table.segmentNotPresent,
    table.stackSegmentFault, table.generalProtectionFault, table.pageFault, table.reserved1,
    table.x87FloatingPoint, table.alignmentCheck, table.machineCheck, table.simdFloatingPoint,
    table.virtualization] ++
    (List.ofFn table.reserved2 ++
      ([table.securityException, table.reserved3] ++ List.ofFn table.interrupts))

def InterruptEntry.bytes (entry : InterruptEntry) : List Byte :=
  leBytes 2 entry.pointerLow.toNat ++ (leBytes 2 entry.gdtSelector.toNat ++
    (leBytes 2 entry.options.toNat ++ leBytes 2 entry.pointerMiddle.toNat))

def InterruptDescriptorTable.bytes (table : InterruptDescriptorTable) : List Byte :=
  table.gates.flatMap InterruptEntry.bytes

structure DescriptorTablePointer where
  limit : BitVec 16
  base : BitVec 32

/-- What `update` loads into the IDT register, for a table at `address`. -/
def InterruptDescriptorTable.update (table : InterruptDescriptorTable) (address : BitVec 32) :
    DescriptorTablePointer where
  limit := BitVec.ofNat 16 (table.bytes.length - 1)
  base := address

structure Gate where
  offset : Nat
  selector : Nat
  kind : Nat
  system : Nat
  dpl : Nat
  present : Bool
  deriving DecidableEq

def decodeGate (bytes : List Byte) : Gate where
  offset := leValue (bytes.take 2) + 0x10000 * leValue (bytes.drop 6)
  selector := leValue ((bytes.drop 2).take 2)
  kind := leValue ((bytes.drop 4).take 2) / 0x100 % 16
  system := leValue ((bytes.drop 4).take 2) / 0x1000 % 2
  dpl := leValue ((bytes.drop 4).take 2) / 0x2000 % 4
  present := leValue ((bytes.drop 4).take 2) / 0x8000 % 2 = 1

def gateBytes (bytes : List Byte) (v : Nat) : List Byte := (bytes.drop (8 * v)).take 8

def readGate (pointer : DescriptorTablePointer) (bytes : List Byte) (v : Nat) : Option Gate :=
  if 8 * v + 7 ≤ pointer.limit.toNat then some (decodeGate (gateBytes bytes v)) else none

/-- An installation: `table.field.set_handle_fn(f)` or `table[index].set_handle_fn(f)`. -/
inductive Install where
  | byField (name : Field) (address : Usize)
  | byIndex (index : Nat) (address : Usize)
  deriving DecidableEq

def Install.address : Install → Usize
  | .byField _ address => address
  | .byIndex _ address => address

def Install.vector : Install → Nat
  | .byField name _ => name.vector
  | .byIndex index _ => index

def Install.place : Install → Option Place
  | .byField name _ => some (.field name)
  | .byIndex index _ => (indexMut index).toOption

def Install.run (prof : Profile) (cs : BitVec 16) (table : InterruptDescriptorTable)
    (install : Install) : Option InterruptDescriptorTable := do
  let place ← install.place
  let entry ← (table.entry place).setHandleAddr prof cs install.address
  some (table.setEntry entry place)

def installAll (prof : Profile) (cs : BitVec 16) (installs : List Install) :
    Option InterruptDescriptorTable := do
  installs.foldlM (Install.run prof cs) (← InterruptDescriptorTable.new prof)

def lastInstalled (installs : List Install) (v : Nat) : Option Usize :=
  installs.foldl (fun last install => if install.vector = v then some install.address else last)
    none

theorem last_installed_none {installs : List Install} {v : Nat}
    (others : ∀ install ∈ installs, install.vector ≠ v) : lastInstalled installs v = none := by
  induction installs with
  | nil => rfl
  | cons install installs ih =>
      rw [lastInstalled, List.foldl_cons, if_neg (others install List.mem_cons_self)]
      exact ih fun later member => others later (List.mem_cons_of_mem install member)

def Place.position : Place → Nat
  | .field name => name.vector
  | .interrupts number => 32 + number.val

theorem default_entry (prof : Profile) :
    InterruptEntry.default prof = some ⟨0, 0, 0x0e00, 0⟩ := by
  cases prof <;> decide

def installedEntry (cs : BitVec 16) (pointer : Usize) : InterruptEntry where
  pointerLow := (pointer &&& 0xffff).setWidth 16
  gdtSelector := cs
  options := 0x8e00
  pointerMiddle := (pointer >>> 16).setWidth 16

theorem set_handle_addr_eq (prof : Profile) (cs : BitVec 16) (pointer : Usize)
    (entry : InterruptEntry) :
    entry.setHandleAddr prof cs pointer = some (installedEntry cs pointer) := by
  have option : InterruptOption.new prof false .ring0 true = some 0x8e00 := by
    cases prof <;> decide
  simp only [InterruptEntry.setHandleAddr, option, Option.bind_eq_bind, Option.bind_some,
    installedEntry]

theorem index_mut_position {index : Nat} {place : Place} (accepted : indexMut index = .ok place) :
    place.position = index := by
  unfold indexMut at accepted
  split at accepted
  all_goals first
    | (cases accepted; rfl)
    | skip
  split_ifs at accepted
  cases accepted
  simp only [Place.position]
  omega

theorem install_place {install : Install} {place : Place} (found : install.place = some place) :
    place.position = install.vector := by
  cases install with
  | byField name address =>
      cases found
      rfl
  | byIndex index address =>
      apply index_mut_position
      simp only [Install.place] at found
      cases accepted : indexMut index with
      | error panic =>
          rw [accepted] at found
          cases found
      | ok other =>
          rw [accepted] at found
          cases found
          exact accepted

theorem of_fn_update {Item : Type} {n : Nat} (items : Fin n → Item) (number : Fin n)
    (value : Item) :
    List.ofFn (Function.update items number value) = (List.ofFn items).set number.val value := by
  apply List.ext_getElem
  · simp
  · intro index left right
    rw [List.getElem_set]
    by_cases hit : number.val = index
    · subst hit
      simp
    · have apart : (⟨index, by simpa using left⟩ : Fin n) ≠ number := by
        intro same
        exact hit (congrArg Fin.val same).symm
      simp [hit, apart]

theorem gates_length (table : InterruptDescriptorTable) : table.gates.length = 256 := by
  simp only [InterruptDescriptorTable.gates, List.length_append, List.length_cons,
    List.length_nil, List.length_ofFn]

theorem set_behind {Item : Type} {front back : List Item} (count : Nat) {index : Nat}
    {value : Item} (length : front.length = count) :
    (front ++ back).set (count + index) value = front ++ back.set index value := by
  subst length
  rw [List.set_append_right _ _ (Nat.le_add_right _ _), Nat.add_sub_cancel_left]

theorem gates_set_entry (table : InterruptDescriptorTable) (value : InterruptEntry)
    (place : Place) :
    (table.setEntry value place).gates = table.gates.set place.position value := by
  cases place with
  | field name => cases name <;> rfl
  | interrupts number =>
      simp only [InterruptDescriptorTable.setEntry, InterruptDescriptorTable.gates, of_fn_update,
        Place.position]
      have position : 32 + number.val = 21 + (9 + (2 + number.val)) := by omega
      rw [position, set_behind 21 rfl, set_behind 9 List.length_ofFn, set_behind 2 rfl]

theorem entry_bytes_length (entry : InterruptEntry) : entry.bytes.length = 8 := by
  simp [InterruptEntry.bytes]

theorem gate_bytes_flat_map (entries : List InterruptEntry) (v : Nat) :
    gateBytes (entries.flatMap InterruptEntry.bytes) v =
      (entries[v]?.map InterruptEntry.bytes).getD [] := by
  induction entries generalizing v with
  | nil => simp [gateBytes]
  | cons entry entries ih =>
      have length := entry_bytes_length entry
      cases v with
      | zero =>
          rw [gateBytes, List.flatMap_cons, Nat.mul_zero, List.drop_zero, ← length,
            List.take_left]
          rfl
      | succ v =>
          have offset : 8 * (v + 1) = entry.bytes.length + 8 * v := by omega
          rw [gateBytes, List.flatMap_cons, offset, List.drop_length_add_append,
            List.getElem?_cons_succ, ← ih v, gateBytes]

theorem table_bytes_length (table : InterruptDescriptorTable) : table.bytes.length = 2048 := by
  have flat : ∀ entries : List InterruptEntry,
      (entries.flatMap InterruptEntry.bytes).length = 8 * entries.length := by
    intro entries
    induction entries with
    | nil => rfl
    | cons entry entries ih =>
        rw [List.flatMap_cons, List.length_append, ih, entry_bytes_length, List.length_cons]
        omega
  rw [InterruptDescriptorTable.bytes, flat, gates_length]

theorem update_limit (table : InterruptDescriptorTable) (address : BitVec 32) :
    (table.update address).limit.toNat = 2047 := by
  rw [InterruptDescriptorTable.update, table_bytes_length]
  rfl

theorem decode_entry (entry : InterruptEntry) :
    decodeGate entry.bytes =
      { offset := entry.pointerLow.toNat + 0x10000 * entry.pointerMiddle.toNat
        selector := entry.gdtSelector.toNat
        kind := entry.options.toNat / 0x100 % 16
        system := entry.options.toNat / 0x1000 % 2
        dpl := entry.options.toNat / 0x2000 % 4
        present := entry.options.toNat / 0x8000 % 2 = 1 } := by
  have word : ∀ value : BitVec 16, leValue (leBytes 2 value.toNat) = value.toNat := by
    intro value
    rw [le_value_le_bytes, Nat.mod_eq_of_lt (show value.toNat < 256 ^ 2 from value.isLt)]
  have low : entry.bytes.take 2 = leBytes 2 entry.pointerLow.toNat := rfl
  have selector : (entry.bytes.drop 2).take 2 = leBytes 2 entry.gdtSelector.toNat := rfl
  have options : (entry.bytes.drop 4).take 2 = leBytes 2 entry.options.toNat := rfl
  have middle : entry.bytes.drop 6 = leBytes 2 entry.pointerMiddle.toNat := rfl
  simp only [decodeGate, low, selector, options, middle, word]

theorem installed_offset (cs : BitVec 16) (pointer : Usize) :
    (installedEntry cs pointer).pointerLow.toNat +
      0x10000 * (installedEntry cs pointer).pointerMiddle.toNat = pointer.toNat := by
  have bound := pointer.isLt
  have low : (pointer &&& 0xffff).toNat = pointer.toNat % 0x10000 := by
    rw [BitVec.toNat_and]
    exact Nat.and_two_pow_sub_one_eq_mod pointer.toNat 16
  simp only [installedEntry, BitVec.toNat_setWidth, low, BitVec.toNat_ushiftRight,
    Nat.shiftRight_eq_div_pow]
  omega

theorem installed_pointer (cs : BitVec 16) (pointer : Usize) :
    (installedEntry cs pointer).pointer = pointer := by
  have offset := installed_offset cs pointer
  have bound := pointer.isLt
  generalize installedEntry cs pointer = entry at offset
  have lowBound : entry.pointerLow.toNat < 2 ^ 16 := entry.pointerLow.isLt
  have middleBound : entry.pointerMiddle.toNat < 2 ^ 16 := entry.pointerMiddle.isLt
  apply BitVec.eq_of_toNat_eq
  rw [InterruptEntry.pointer, BitVec.toNat_or, BitVec.toNat_shiftLeft, BitVec.toNat_setWidth,
    BitVec.toNat_setWidth, Nat.mod_eq_of_lt (by omega), Nat.shiftLeft_eq,
    Nat.mod_eq_of_lt (by omega), Nat.mod_eq_of_lt (by omega), ← Nat.shiftLeft_eq,
    ← Nat.shiftLeft_add_eq_or_of_lt lowBound, Nat.shiftLeft_eq]
  omega

/-- The entry that a vector should have, by the address installed last. -/
def gateFor (cs : BitVec 16) : Option Usize → InterruptEntry
  | none => ⟨0, 0, 0x0e00, 0⟩
  | some address => installedEntry cs address

theorem decode_blank (cs : BitVec 16) :
    decodeGate (gateFor cs none).bytes =
      { offset := 0, selector := 0, kind := 0xe, system := 0, dpl := 0, present := false } := by
  change decodeGate (InterruptEntry.bytes ⟨0, 0, 0x0e00, 0⟩) = _
  decide

theorem decode_installed (cs : BitVec 16) (address : Usize) :
    decodeGate (gateFor cs (some address)).bytes =
      { offset := address.toNat, selector := cs.toNat, kind := 0xe, system := 0, dpl := 0,
        present := true } := by
  have options : (installedEntry cs address).options.toNat = 0x8e00 := by
    change (0x8e00 : BitVec 16).toNat = 0x8e00
    decide
  have selector : (installedEntry cs address).gdtSelector = cs := rfl
  rw [gateFor, decode_entry, installed_offset, options, selector]
  simp

def Recorded (cs : BitVec 16) (last : Nat → Option Usize) (table : InterruptDescriptorTable) :
    Prop :=
  ∀ v, v < 256 → table.gates[v]? = some (gateFor cs (last v))

theorem gates_filled (entry : InterruptEntry) :
    (InterruptDescriptorTable.filled entry).gates = List.replicate 256 entry := by
  change List.replicate 21 entry ++ (List.ofFn (fun _ : Fin 9 => entry) ++
    (List.replicate 2 entry ++ List.ofFn fun _ : Fin 224 => entry)) = _
  rw [List.ofFn_const, List.ofFn_const, List.replicate_append_replicate,
    List.replicate_append_replicate, List.replicate_append_replicate]

theorem new_recorded (prof : Profile) (cs : BitVec 16) :
    ∃ table, InterruptDescriptorTable.new prof = some table ∧ Recorded cs (fun _ => none) table := by
  simp only [InterruptDescriptorTable.new, default_entry, Option.bind_eq_bind, Option.bind_some]
  refine ⟨_, rfl, ?_⟩
  intro v bound
  rw [gates_filled, List.getElem?_replicate, if_pos bound]
  rfl

/-- One installation: the gate of its vector becomes the installed one, every other gate keeps its
bytes. -/
theorem install_step (prof : Profile) (cs : BitVec 16) (table : InterruptDescriptorTable)
    {install : Install} {place : Place} (found : install.place = some place) :
    ∃ next, install.run prof cs table = some next ∧
      next.gates = table.gates.set install.vector (installedEntry cs install.address) := by
  refine ⟨table.setEntry (installedEntry cs install.address) place, ?_, ?_⟩
  · simp only [Install.run, found, set_handle_addr_eq, Option.bind_eq_bind, Option.bind_some]
  · rw [gates_set_entry, install_place found]

theorem gate_bytes_gate (table : InterruptDescriptorTable) (v : Nat) :
    gateBytes table.bytes v = (table.gates[v]?.map InterruptEntry.bytes).getD [] :=
  gate_bytes_flat_map table.gates v

def recordInstall (last : Nat → Option Usize) (install : Install) : Nat → Option Usize :=
  fun v => if install.vector = v then some install.address else last v

theorem recorded_step {cs : BitVec 16} {last : Nat → Option Usize}
    {table next : InterruptDescriptorTable} {install : Install} (recorded : Recorded cs last table)
    (changed : next.gates = table.gates.set install.vector (installedEntry cs install.address)) :
    Recorded cs (recordInstall last install) next := by
  intro v bound
  have length := gates_length table
  rw [changed, recordInstall]
  by_cases hit : install.vector = v
  · rw [if_pos hit, hit, List.getElem?_set_self (by omega)]
    rfl
  · rw [if_neg hit, List.getElem?_set_ne hit]
    exact recorded v bound

def AllAccepted (installs : List Install) : Prop :=
  ∀ install ∈ installs, install.place.isSome = true

theorem install_run (prof : Profile) (cs : BitVec 16) (installs : List Install)
    (last : Nat → Option Usize) (table : InterruptDescriptorTable)
    (accepted : AllAccepted installs) (recorded : Recorded cs last table) :
    ∃ final, installs.foldlM (Install.run prof cs) table = some final ∧
      Recorded cs (installs.foldl recordInstall last) final := by
  induction installs generalizing last table with
  | nil => exact ⟨table, rfl, recorded⟩
  | cons install installs ih =>
      obtain ⟨place, found⟩ := Option.isSome_iff_exists.mp (accepted install List.mem_cons_self)
      obtain ⟨next, ran, changed⟩ := install_step prof cs table found
      obtain ⟨final, run, kept⟩ := ih (recordInstall last install) next
        (fun later member => accepted later (List.mem_cons_of_mem install member))
        (recorded_step recorded changed)
      refine ⟨final, ?_, kept⟩
      rw [List.foldlM_cons, ran]
      exact run

theorem foldl_record_install (installs : List Install) (last : Nat → Option Usize) (v : Nat) :
    installs.foldl recordInstall last v =
      installs.foldl (fun address install =>
        if install.vector = v then some install.address else address) (last v) := by
  induction installs generalizing last with
  | nil => rfl
  | cons install installs ih => exact ih (recordInstall last install)

theorem install_all_recorded (prof : Profile) (cs : BitVec 16) {installs : List Install}
    (accepted : AllAccepted installs) :
    ∃ table, installAll prof cs installs = some table ∧
      Recorded cs (lastInstalled installs) table := by
  obtain ⟨start, created, blank⟩ := new_recorded prof cs
  obtain ⟨table, run, recorded⟩ := install_run prof cs installs _ start accepted blank
  refine ⟨table, ?_, ?_⟩
  · simp only [installAll, created, Option.bind_eq_bind, Option.bind_some, run]
  · intro v bound
    rw [recorded v bound, foldl_record_install]
    rfl

theorem read_recorded {cs : BitVec 16} {last : Nat → Option Usize}
    {table : InterruptDescriptorTable} (recorded : Recorded cs last table) (base : BitVec 32)
    {v : Nat} (bound : v < 256) :
    readGate (table.update base) table.bytes v = some (decodeGate (gateFor cs (last v)).bytes) := by
  have limit := update_limit table base
  rw [readGate, if_pos (by omega), gate_bytes_gate, recorded v bound]
  rfl

/-- For every history of accepted installations, as the processor reads the table: all 256 gates lie
within the limit; a vector with an installation has a present 32-bit interrupt gate of privilege 0
to the address installed last, on the code segment; the others have no present gate; and one more
installation changes no byte of another gate. -/
theorem idt_history (prof : Profile) (cs : BitVec 16) (installs : List Install)
    (accepted : AllAccepted installs) :
    ∃ table, installAll prof cs installs = some table ∧
      (∀ base v, v < 256 → ∃ gate, readGate (table.update base) table.bytes v = some gate ∧
        match lastInstalled installs v with
        | some address =>
            gate = { offset := address.toNat, selector := cs.toNat, kind := 0xe, system := 0,
                     dpl := 0, present := true } ∧
              ∃ entry, table.gates[v]? = some entry ∧ entry.pointer = address
        | none => gate.present = false) ∧
      ∀ (install : Install) (next : InterruptDescriptorTable),
        install.run prof cs table = some next → ∀ v, v ≠ install.vector →
          gateBytes next.bytes v = gateBytes table.bytes v := by
  obtain ⟨table, created, recorded⟩ := install_all_recorded prof cs accepted
  refine ⟨table, created, ?_, ?_⟩
  · intro base v bound
    refine ⟨_, read_recorded recorded base bound, ?_⟩
    have entry := recorded v bound
    cases last : lastInstalled installs v with
    | none => exact congrArg Gate.present (decode_blank cs)
    | some address =>
        rw [last] at entry
        exact ⟨decode_installed cs address, installedEntry cs address, entry,
          installed_pointer cs address⟩
  · intro install next ran v other
    obtain ⟨place, found⟩ : ∃ place, install.place = some place := by
      cases found : install.place with
      | none => simp [Install.run, found] at ran
      | some place => exact ⟨place, rfl⟩
    obtain ⟨again, ranAgain, changed⟩ := install_step prof cs table found
    rw [ran] at ranAgain
    cases ranAgain
    rw [gate_bytes_gate, gate_bytes_gate, changed, List.getElem?_set_ne other.symm]

theorem sample_idt_history :
    AllAccepted [.byIndex 0x20 0xc0008000, .byField .doubleFault 0xc0009001] ∧
      ∃ table, installAll .debug 8 [.byIndex 0x20 0xc0008000, .byField .doubleFault 0xc0009001] =
          some table ∧
        ∃ gate, readGate (table.update 0) table.bytes 8 = some gate ∧ gate.offset = 0xc0009001 := by
  have accepted : AllAccepted [.byIndex 0x20 0xc0008000, .byField .doubleFault 0xc0009001] := by
    unfold AllAccepted
    decide
  obtain ⟨table, installed, gates, _⟩ := idt_history .debug 8 _ accepted
  obtain ⟨gate, read, decoded, _⟩ := gates 0 8 (by decide)
  exact ⟨accepted, table, installed, gate, read, by rw [decoded]; rfl⟩

end RondOS.Idt
