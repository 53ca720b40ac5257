import RondOS.Kernel.Heap
import RondOS.Loader.KernelImage

/-!
# What the kernel reports

`main` prints the size of its own image, the memory map and the first heap block. Everything it
prints has come from the disk or from the firmware, through the loader page and the page tables.
-/

namespace RondOS.Boot

open ByteMemory RustWord I386 Paging Image DiskRead DetectMem PageTables Handover KernelImage
open MemLayoutView AvailableMem PageBitmap PageAlloc PageFootprint PageContract Heap

set_option autoImplicit false

def getKernelSize (mem : Memory) : Option Nat := loadLE mem pagingTableAddr 0xc0020200 4

def memlayoutEntries (mem : Memory) : Option (List MemLayout) := do
  (← getMemlayout mem).entries mem

def pgRoundDown (addr : Usize) : Usize := addr &&& ~~~(((1 : Usize) <<< 12) - 1)

def lowerHex (value : Nat) : String := String.ofList (Nat.toDigits 16 value)

def kindName : MemLayoutKind → String
  | .usable => "Usable"
  | .reserved => "Reserved"
  | .acpiReclaimableMemory => "ACPIReclaimableMemory"
  | .acpiNvsMemory => "ACPINVSMemory"
  | .badMemory => "BadMemory"

/-- `Debug for MemLayout`. -/
def fmtMemLayout (mem : MemLayout) : String :=
  "MemLayout \x7b addr: 0x" ++ lowerHex mem.addr.toNat ++ ", len: 0x" ++ lowerHex mem.len.toNat ++
    ", kind: " ++ kindName mem.kind ++ " \x7d"

/-- Memory as the kernel addresses it, in its window. -/
def windowed (mem : Memory) : Memory := fun addr => mem (addr - kernelBase)

/-- `Box::new` as the first use of `PAGE_ALLOC`. -/
def boxNew (prof : Profile) (map : List MemLayout) (value : BitVec 32) (mem : Memory) :
    Option (Usize × Memory) := do
  let (pageAlloc, mem) ← PageAllocator.default prof map mem
  let (ptr, mem) ← Allocator.alloc prof pageAlloc { size := 4, align := 4 } mem
  some (ptr, writeLE mem ptr.toNat 4 value.toNat)

/-- The lines on the screen, and the block with the memory around it unless its allocation
panicked. -/
structure Reported where
  lines : List String
  block : Option (Usize × Memory)

/-- What `main` prints, without the set-up of the interrupts in between. -/
def main (prof : Profile) (esp : Usize) (mem : Memory) : Option Reported := do
  let size ← getKernelSize mem
  let map ← memlayoutEntries mem
  let available ← availableMemSize prof map
  let lines :=
    ["HELLO RondOS", "Kernel Size " ++ toString (size / 1024) ++ " KiB",
      "Available Memory Size " ++ toString (available.toNat / 1024) ++ " KiB"] ++
    map.map fmtMemLayout ++ ["esp page: " ++ lowerHex (pgRoundDown esp).toNat]
  match boxNew prof map 42 (windowed mem) with
  | none => some { lines, block := none }
  | some (ptr, after) =>
      let value := (BitVec.ofNat 32 (readLE after ptr.toNat 4)).toInt
      some
        { lines := lines ++ [toString value ++ " at 0x" ++ lowerHex ptr.toNat]
          block := some (ptr, after) }

section FirstBlock

variable {prof : Profile} {map : List MemLayout} {reported : BitVec 64}
  (size : availableMemSize prof map = some reported) (value : BitVec 32) (mem : Memory)
include size

end FirstBlock

structure HandedOver (imageEnd : Nat) (records : List E820Record) (mem : Memory) : Prop where
  tables : TablesMarked mem
  size : readLE mem 0x20200 4 = imageEnd
  count : readMemlayoutlen mem = records.length
  stored : readBytes mem 0x20208 (20 * records.length) = records.flatMap E820Record.bytes

theorem HandedOver.congr {imageEnd : Nat} {records : List E820Record} {mem now : Memory}
    (handed : HandedOver imageEnd records mem) (short : records.length ≤ 178)
    (same : ∀ addr, 0xf000 ≤ addr → addr < 0x21000 → MarkedAt pageEntries mem now addr) :
    HandedOver imageEnd records now where
  tables := handed.tables.congr fun addr lower upper => same addr lower (by omega)
  size := by
    rw [← handed.size]
    apply read_le_congr
    intro index inside
    exact (same _ (by omega) (by omega)).eq (not_page_entry (by omega))
  count := by
    rw [← handed.count]
    apply read_le_congr
    intro index inside
    rw [memlayoutlen_address]
    exact (same _ (by omega) (by omega)).eq (not_page_entry (by omega))
  stored := by
    rw [← handed.stored]
    apply read_bytes_congr
    intro index inside
    exact (same _ (by omega) (by omega)).eq (not_page_entry (by omega))

end RondOS.Boot
