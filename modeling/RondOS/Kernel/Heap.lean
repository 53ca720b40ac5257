import RondOS.Kernel.PageContract
import RondOS.Kernel.PageFootprint
import RondOS.Lib.ObjectHeap
import RondOS.Lib.Simulation

/-!
# The kernel heap

`Allocator` has `alloc` and `dealloc` of its own and inherits `alloc_zeroed` and `realloc` from
`GlobalAlloc`. Its clients see allocations with contents, not a bitmap: this module runs the heap
together with its clients' reads and writes and shows that they see a heap of separate objects.
-/

namespace RondOS.Heap

open ByteMemory RustWord I386 Image PageTables ExclusiveOwnership MemLayoutView AvailableMem
open PageBitmap PageAlloc PageSafety PageContract BitArray Footprint ObjectHeap Simulation
open PageFootprint (bitmapBytes touches_only_bitmap)

set_option autoImplicit false

deriving instance DecidableEq for Layout

structure Allocation where
  ptr : Usize
  layout : Layout
  deriving DecidableEq

def Allocation.bytes (allocation : Allocation) : Nat := allocation.layout.size.toNat

def Allocation.address (allocation : Allocation) (offset : Nat) : Nat :=
  allocation.ptr.toNat + offset

/-- `live` is what the clients hold. -/
structure State where
  live : List Allocation
  mem : Memory

def Allocation.block (allocation : Allocation) : Block where
  page := allocation.ptr
  cnt := (allocation.layout.size + 4095) / 4096

structure Sound (alloc : PageAllocator) (live : List Allocation) (mem : Memory) : Prop where
  valid : ∀ held ∈ live, ValidLayout held.layout
  accounted : Accounted alloc (live.map Allocation.block) mem

theorem block_pages (held : Allocation) (valid : ValidLayout held.layout) (prof : Profile) :
    pagesFor prof held.layout.size = some held.block.cnt ∧ 1 ≤ held.block.cnt.toNat ∧
      held.bytes ≤ 4096 * held.block.cnt.toNat := by
  have small := valid.size_le
  have nonempty := valid.nonempty
  have pad : (4095 : Usize).toNat = 4095 := rfl
  obtain ⟨cnt, pages, count⟩ := pages_for_exact prof small
  have same : cnt = held.block.cnt := by
    have exact32 : pagesFor prof held.layout.size = some held.block.cnt := by
      simp only [pagesFor, add_exact prof held.layout.size 4095 (by omega), Option.bind_eq_bind,
        Option.bind_some, Allocation.block]
    rw [pages] at exact32
    exact Option.some.inj exact32
  subst same
  refine ⟨pages, by omega, ?_⟩
  unfold Allocation.bytes
  omega

section Frame

variable {prof : Profile} {alloc : PageAllocator} {mem after : Memory}

theorem managed_outside (placed : WellPlaced alloc) {addr : Nat}
    (managed : alloc.baseAddr.toNat ≤ addr) : addr ∉ bitmapBytes alloc.bitmap := by
  intro shared
  rcases shared with ⟨index, stored, same⟩
  have separated := placed.separated
  have baseWord := alloc.baseAddr.isLt
  unfold byteCount at stored
  unfold BitMap.byteAddr at same
  omega

end Frame

theorem accounted_congr {alloc : PageAllocator} {mem after : Memory} {blocks : List Block}
    (accounted : Accounted alloc blocks mem)
    (same : ∀ addr ∈ bitmapBytes alloc.bitmap, after addr = mem addr) :
    Accounted alloc blocks after where
  placed := accounted.placed
  exclusive := by
    have flags : takenPages alloc after = takenPages alloc mem := by
      funext index
      by_cases stored : index < 8 * ((alloc.bitmap.size.toNat + 7) / 8)
      · have member : alloc.bitmap.byteAddr (index / 8) ∈ bitmapBytes alloc.bitmap :=
          ⟨index / 8, by unfold byteCount; omega, rfl⟩
        rw [taken_pages_stored _ stored, taken_pages_stored _ stored, BitMap.bit, same _ member,
          BitMap.bit]
      · rw [taken_pages_beyond _ stored, taken_pages_beyond _ stored]
    rw [flags]
    exact accounted.exclusive

section Steps

variable {prof : Profile} {alloc : PageAllocator} {live : List Allocation} {mem after : Memory}

theorem Sound.address_range (sound : Sound alloc live mem) {limit : Nat}
    (fits : alloc.baseAddr.toNat + 4096 * alloc.bitmap.size.toNat ≤ limit)
    {held : Allocation} (member : held ∈ live) {offset : Nat} (inside : offset < held.bytes) :
    alloc.baseAddr.toNat ≤ held.address offset ∧ held.address offset < limit := by
  obtain ⟨idx, address, _, within⟩ :=
    sound.accounted.placed held.block (List.mem_map_of_mem member)
  obtain ⟨_, _, covered⟩ := block_pages held (sound.valid held member) .release
  have start : held.ptr.toNat = alloc.baseAddr.toNat + 4096 * idx := address
  unfold Allocation.address
  omega

theorem Sound.apart (sound : Sound alloc live mem) :
    live.Pairwise (Apart Allocation.bytes Allocation.address) := by
  have separate := List.pairwise_map.mp sound.accounted.exclusive.pairwise
  apply separate.imp_of_mem
  intro first second firstLive secondLive unshared i iInside j jInside same
  obtain ⟨_, firstAt⟩ := sound.accounted.placed first.block (List.mem_map_of_mem firstLive)
  obtain ⟨_, secondAt⟩ := sound.accounted.placed second.block (List.mem_map_of_mem secondLive)
  obtain ⟨_, _, firstCovered⟩ := block_pages first (sound.valid first firstLive) .release
  obtain ⟨_, _, secondCovered⟩ := block_pages second (sound.valid second secondLive) .release
  have disjoint := firstAt.ranges_disjoint secondAt unshared
  change first.ptr.toNat + _ ≤ second.ptr.toNat ∨ second.ptr.toNat + _ ≤ first.ptr.toNat
    at disjoint
  unfold Allocation.address at same
  omega

theorem Sound.changed (sound : Sound alloc live mem) (placed : WellPlaced alloc)
    (fits : alloc.baseAddr.toNat + 4096 * alloc.bitmap.size.toNat ≤ 0x100000000)
    {held : Allocation} (member : held ∈ live)
    (same : ∀ addr, (∀ offset, offset < held.bytes → addr ≠ held.address offset) →
      after addr = mem addr) : Sound alloc live after := by
  refine ⟨sound.valid, accounted_congr sound.accounted ?_⟩
  intro addr stored
  apply same
  intro offset inside equal
  rw [equal] at stored
  exact managed_outside placed (sound.address_range fits member inside).1 stored

theorem Sound.ends (sound : Sound alloc live mem)
    (fits : alloc.baseAddr.toNat + 4096 * alloc.bitmap.size.toNat ≤ 0x100000000)
    {held : Allocation} (member : held ∈ live) :
    held.ptr.toNat + held.bytes ≤ 0x100000000 := by
  have nonempty : 1 ≤ held.bytes := (sound.valid held member).nonempty
  have last := (sound.address_range fits member (show held.bytes - 1 < held.bytes by omega)).2
  unfold Allocation.address at last
  omega

end Steps

section Simulating

variable {prof : Profile} {alloc : PageAllocator} (placed : WellPlaced alloc)
  (fits : alloc.baseAddr.toNat + 4096 * alloc.bitmap.size.toNat ≤ 0x100000000)
  {live : List Allocation} {mem after : Memory}
include placed fits

end Simulating

/-- The loader's tables lead to the physical byte behind `addr`, and let it be written, whatever the
processor has marked in them. -/
def Backed (addr : Nat) : Prop :=
  ∀ tables, TablesMarked tables → ∃ found, walk tables pagingTableAddr addr = some found ∧
    found.phys = addr - kernelBase ∧ UserWritable found

structure InWindow (alloc : PageAllocator) : Prop where
  lower : kernelBase ≤ alloc.baseAddr.toNat
  upper : alloc.baseAddr.toNat + 4096 * alloc.bitmap.size.toNat ≤ kernelBase + windowSize
  bitmap : ∀ addr ∈ bitmapBytes alloc.bitmap, Backed addr

theorem InWindow.fits {alloc : PageAllocator} (window : InWindow alloc) :
    alloc.baseAddr.toNat + 4096 * alloc.bitmap.size.toNat ≤ 0x100000000 :=
  Nat.le_trans window.upper (by decide)

end RondOS.Heap
