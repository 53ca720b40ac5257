import RondOS.Lib.ByteMemory

/-!
# The i386 features a boot loader relies on

Real-mode segment arithmetic with the A20 line enabled, dword string stores, the `loop`
instruction, and the two-level page walk with 4 KiB pages. Linear and physical addresses are
natural numbers; 16-bit and 32-bit register arithmetic wraps explicitly.
-/

namespace I386

open ByteMemory

set_option autoImplicit false

/-- Real-mode address formation. With A20 enabled the sum is not truncated to 20 bits. -/
def linear (segment offset : Nat) : Nat := 16 * segment + offset

/-- A dword operand must end inside the 64 KiB segment, otherwise the access faults. -/
def loadSegDword (mem : Memory) (segment offset : Nat) : Option Nat :=
  if offset + 4 ≤ 0x10000 then some (readLE mem (linear segment offset) 4) else none

structure StoreRegs where
  eax : Nat
  di : Nat
  mem : Memory

/-- `stosd` with the direction flag clear. -/
def stosd (es : Nat) (regs : StoreRegs) : StoreRegs :=
  { regs with
    di := (regs.di + 4) % 0x10000
    mem := writeLE regs.mem (linear es regs.di) 4 regs.eax }

def repStosd (es cx : Nat) (regs : StoreRegs) : StoreRegs := (stosd es)^[cx] regs

/-- `loop` decrements `cx` after the body and repeats while it is nonzero, so a body that leaves
`cx` alone runs `cx` times, and a full 65536 times when `cx` starts at zero. -/
def loopInstr (body : StoreRegs → StoreRegs) (cx : Nat) (regs : StoreRegs) : StoreRegs :=
  body^[if cx = 0 then 0x10000 else cx] regs

def entryFrame (entry : Nat) : Nat := entry / 0x1000 * 0x1000

def entryPresent (entry : Nat) : Bool := entry.testBit 0
def entryWritable (entry : Nat) : Bool := entry.testBit 1
def entryUser (entry : Nat) : Bool := entry.testBit 2

structure PageWalk where
  pde : Nat
  pte : Nat
  phys : Nat
  deriving DecidableEq

/-- The hardware walk: directory index from bits 22..31, table index from bits 12..21. A clear
present bit at either level is a page fault. -/
def walk (mem : Memory) (cr3 va : Nat) : Option PageWalk :=
  let pde := readLE mem (entryFrame cr3 + 4 * (va / 0x400000 % 0x400)) 4
  if entryPresent pde then
    let pte := readLE mem (entryFrame pde + 4 * (va / 0x1000 % 0x400)) 4
    if entryPresent pte then some { pde, pte, phys := entryFrame pte + va % 0x1000 } else none
  else none

def loadByte (mem : Memory) (cr3 va : Nat) : Option Byte :=
  (walk mem cr3 va).map fun translated => mem translated.phys

def loadBytes (mem : Memory) (cr3 va count : Nat) : Option (List Byte) :=
  (List.range count).mapM fun index => loadByte mem cr3 ((va + index) % 0x100000000)

def loadLE (mem : Memory) (cr3 va width : Nat) : Option Nat :=
  (loadBytes mem cr3 va width).map leValue

/-- A supervisor dword store under `CR0.WP`, for operands that do not cross a page. -/
def storeDword (mem : Memory) (cr3 va value : Nat) : Option Memory :=
  match walk mem cr3 va with
  | none => none
  | some translated =>
      if entryWritable translated.pde && entryWritable translated.pte &&
          decide (va % 0x1000 + 4 ≤ 0x1000) then
        some (writeLE mem translated.phys 4 value)
      else none

theorem loop_instr_nonzero (body : StoreRegs → StoreRegs) (cx : Nat) (regs : StoreRegs)
    (nonzero : cx ≠ 0) : loopInstr body cx regs = body^[cx] regs := by
  rw [loopInstr, if_neg nonzero]

theorem entry_present_iff (entry : Nat) : entryPresent entry = true ↔ entry % 2 = 1 := by
  simp [entryPresent, Nat.testBit_zero]

theorem walk_eq_some {mem : Memory} {cr3 va pde pte : Nat}
    (directory : readLE mem (entryFrame cr3 + 4 * (va / 0x400000 % 0x400)) 4 = pde)
    (table : readLE mem (entryFrame pde + 4 * (va / 0x1000 % 0x400)) 4 = pte)
    (directoryPresent : entryPresent pde = true) (tablePresent : entryPresent pte = true) :
    walk mem cr3 va = some { pde, pte, phys := entryFrame pte + va % 0x1000 } := by
  simp [walk, directory, table, directoryPresent, tablePresent]

theorem walk_eq_none_of_directory {mem : Memory} {cr3 va pde : Nat}
    (directory : readLE mem (entryFrame cr3 + 4 * (va / 0x400000 % 0x400)) 4 = pde)
    (absent : entryPresent pde = false) : walk mem cr3 va = none := by
  simp [walk, directory, absent]

theorem walk_eq_none_iff {mem : Memory} {cr3 va pde : Nat}
    (directory : readLE mem (entryFrame cr3 + 4 * (va / 0x400000 % 0x400)) 4 = pde)
    (present : entryPresent pde = true) :
    walk mem cr3 va = none ↔
      (mem (entryFrame pde + 4 * (va / 0x1000 % 0x400))).toNat % 2 = 0 := by
  have parity : readLE mem (entryFrame pde + 4 * (va / 0x1000 % 0x400)) 4 % 2 = _ :=
    read_le_mod_two mem _ 3
  have bit := entry_present_iff (readLE mem (entryFrame pde + 4 * (va / 0x1000 % 0x400)) 4)
  simp only [walk, directory, present, if_true]
  split_ifs with set
  · have odd := bit.mp set
    simp only [false_iff]
    omega
  · have notOdd : ¬readLE mem (entryFrame pde + 4 * (va / 0x1000 % 0x400)) 4 % 2 = 1 :=
      fun odd => set (bit.mpr odd)
    simp only [true_iff]
    omega

theorem store_dword_mapped {mem : Memory} {cr3 va : Nat} {found : PageWalk} (value : Nat)
    (walked : walk mem cr3 va = some found) (pdeWritable : entryWritable found.pde = true)
    (pteWritable : entryWritable found.pte = true) (inPage : va % 0x1000 + 4 ≤ 0x1000) :
    storeDword mem cr3 va value = some (writeLE mem found.phys 4 value) := by
  simp [storeDword, walked, pdeWritable, pteWritable, inPage]

theorem mapM_eq_some {Item Result : Type*} (items : List Item) (f : Item → Option Result)
    (g : Item → Result) (succeeds : ∀ item ∈ items, f item = some (g item)) :
    items.mapM f = some (items.map g) := by
  induction items with
  | nil => rfl
  | cons item rest ih =>
      have head := succeeds item (by simp)
      have tail := ih (by intro other member; exact succeeds other (by simp [member]))
      simp [List.mapM_cons, head, tail]

theorem mapM_range_eq_some {Item Result : Type*} (items : List Item) (f : Nat → Option Result)
    (g : Item → Result)
    (succeeds : ∀ index (inside : index < items.length),
      f index = some (g (items.get ⟨index, inside⟩))) :
    (List.range items.length).mapM f = some (items.map g) := by
  induction items generalizing f with
  | nil => rfl
  | cons item rest ih =>
      have head := succeeds 0 (by simp)
      have tail := ih (fun index => f (index + 1))
        (fun index inside => succeeds (index + 1) (by simpa using inside))
      rw [List.length_cons, List.range_succ_eq_map, List.mapM_cons, head, List.mapM_map]
      simp only [Function.comp_def, tail]
      rfl

theorem load_bytes_mapped (mem : Memory) (cr3 va base count : Nat)
    (mapped : ∀ index, index < count →
      loadByte mem cr3 ((va + index) % 0x100000000) = some (mem (base + index))) :
    loadBytes mem cr3 va count = some (readBytes mem base count) := by
  apply mapM_eq_some
  intro index member
  exact mapped index (List.mem_range.mp member)

theorem load_le_mapped (mem : Memory) (cr3 va base width : Nat)
    (mapped : ∀ index, index < width →
      loadByte mem cr3 ((va + index) % 0x100000000) = some (mem (base + index))) :
    loadLE mem cr3 va width = some (readLE mem base width) := by
  rw [loadLE, load_bytes_mapped mem cr3 va base width mapped]
  rfl

/-- A store loop whose body writes the dwords `stores index` at trip `index` and steps `eax`
and `di` by constants is the left-to-right execution of all its stores. -/
theorem iterate_stores (body : StoreRegs → StoreRegs) (stores : Nat → List (Nat × Nat))
    (regs : StoreRegs) (trips stride increment : Nat)
    (step : ∀ index mem, index < trips →
      body { eax := (regs.eax + increment * index) % 0x100000000
             di := (regs.di + stride * index) % 0x10000, mem } =
        { eax := (regs.eax + increment * (index + 1)) % 0x100000000
          di := (regs.di + stride * (index + 1)) % 0x10000
          mem := storeDwords (stores index) mem })
    (eaxWord : regs.eax < 0x100000000) (diWord : regs.di < 0x10000) :
    body^[trips] regs =
      { eax := (regs.eax + increment * trips) % 0x100000000
        di := (regs.di + stride * trips) % 0x10000
        mem := storeDwords ((List.range trips).flatMap stores) regs.mem } := by
  induction trips with
  | zero =>
      have eaxSame : regs.eax % 0x100000000 = regs.eax := Nat.mod_eq_of_lt eaxWord
      have diSame : regs.di % 0x10000 = regs.di := Nat.mod_eq_of_lt diWord
      simp only [Function.iterate_zero, id_eq, Nat.mul_zero, Nat.add_zero, eaxSame, diSame]
      rfl
  | succ trips ih =>
      have before := ih (fun index mem bound => step index mem (by omega))
      rw [Function.iterate_succ_apply', before, step trips _ (by omega), List.range_succ,
        List.flatMap_append, store_dwords_append]
      simp

end I386
