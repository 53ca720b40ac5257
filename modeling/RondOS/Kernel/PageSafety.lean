import RondOS.Kernel.PageAlloc

/-!
# Which physical memory the page allocator hands out

The allocator takes the reported total for one contiguous stretch from 1 MiB on and trusts that
the kernel window reaches its end. Both assumptions are about the machine, and this module finds
the machines they hold on. Since a fresh allocator can hand out all its pages in one call, every
managed page counts.
-/

namespace RondOS.PageSafety

open ByteMemory RustWord I386 Image PageTables MemLayoutView AvailableMem PageBitmap PageAlloc

set_option autoImplicit false

/-- Calls with arbitrary arguments, legal or not. -/
inductive Call where
  | getPage (cnt : Usize)
  | freePage (page cnt : Usize)
  | alloc (layout : Layout)
  | dealloc (ptr : Usize) (layout : Layout)

def Call.run (prof : Profile) (alloc : PageAllocator) : Call → Memory → Option Memory
  | .getPage cnt, mem => (alloc.getPage prof cnt mem).map Prod.snd
  | .freePage page cnt, mem => alloc.freePage prof page cnt mem
  | .alloc layout, mem => (Allocator.alloc prof alloc layout mem).map Prod.snd
  | .dealloc ptr layout, mem => Allocator.dealloc prof alloc ptr layout mem

inductive Reachable (prof : Profile) (alloc : PageAllocator) (start : Memory) : Memory → Prop
  | created : Reachable prof alloc start start
  | called {mem after : Memory} (call : Call) :
      Reachable prof alloc start mem → call.run prof alloc mem = some after →
      Reachable prof alloc start after

/-- Each returned block lies in the linearly mapped kernel window, its address was computed
without wrapping, and the loader's page tables translate it to `va - 0xc0000000`. -/
def PagesInWindow (prof : Profile) (alloc : PageAllocator) (start : Memory) : Prop :=
  ∀ mem, Reachable prof alloc start mem → ∀ cnt page after,
    alloc.getPage prof cnt mem = some (some page, after) →
      kernelBase ≤ page.toNat ∧
      page.toNat + cnt.toNat * 4096 ≤ kernelBase + windowSize ∧
      (∃ avlPage : Usize, alloc.bitmap.find prof mem 0 cnt false = some (some avlPage) ∧
        page.toNat = alloc.baseAddr.toNat + avlPage.toNat * 4096) ∧
      ∀ loaded va, page.toNat ≤ va → va < page.toNat + cnt.toNat * 4096 →
        ∃ found, walk (pagingSetup loaded) pagingTableAddr va = some found ∧
          found.phys = va - kernelBase

theorem all_pages_at_once (prof : Profile) (pages : Nat) (bounded : pages < 0x100000)
    (nonempty : bitmapPages pages < pages) (mem : Memory) :
    ∃ cnt after, (placedAllocator pages).getPage prof cnt (freshMemory pages mem) =
      some (some (placedAllocator pages).baseAddr, after) ∧
      cnt.toNat = pages - bitmapPages pages := by
  have value : (BitVec.ofNat 32 (pages - bitmapPages pages)).toNat = pages - bitmapPages pages := by
    rw [BitVec.toNat_ofNat]
    omega
  obtain ⟨after, completed⟩ := get_page_fresh prof pages bounded mem
    (BitVec.ofNat 32 (pages - bitmapPages pages)) (by omega) (by omega)
  exact ⟨_, after, completed, value⟩

theorem placed_pages_in_window_iff (prof : Profile) (pages : Nat) (bounded : pages < 0x100000)
    (mem : Memory) :
    PagesInWindow prof (placedAllocator pages) (freshMemory pages mem) ↔ pages ≤ 16128 := by
  have size := placed_size pages bounded
  have base := placed_base pages bounded
  have reserved := bitmap_pages_le pages
  constructor
  · intro inWindow
    by_contra many
    have few := bitmap_pages_few bounded
    obtain ⟨cnt, after, completed, count⟩ :=
      all_pages_at_once prof pages bounded (by omega) mem
    have top := (inWindow _ Reachable.created _ _ _ completed).2.1
    unfold kernelBase windowSize at top
    omega
  · intro small current _ cnt page after completed
    obtain ⟨idx, found, _, rfl⟩ := get_page_some completed
    obtain ⟨start, inside, _⟩ := found_run found
    have address := page_address_exact (placedAllocator pages) (by omega) start
    have lower : kernelBase ≤ ((placedAllocator pages).baseAddr + idx * 4096).toNat := by
      unfold kernelBase
      omega
    have upper : ((placedAllocator pages).baseAddr + idx * 4096).toNat + cnt.toNat * 4096 ≤
        kernelBase + windowSize := by
      unfold kernelBase windowSize
      omega
    refine ⟨lower, upper, ⟨idx, found, by omega⟩, ?_⟩
    intro loaded va above below
    obtain ⟨walked, translated, phys, _⟩ := (tables_built loaded).marked.walk_kernel
      (Nat.le_trans lower above) (Nat.lt_of_lt_of_le below upper)
    exact ⟨walked, translated, phys⟩

/-- The allocator stays inside the mapped window exactly on machines whose size, cut to 32 bits,
has at most the 16128 pages between 1 MiB and 64 MiB. -/
theorem pages_in_window_iff (prof : Profile) (map : List MemLayout) (initial start : Memory)
    (alloc : PageAllocator) (memsize : BitVec 64)
    (reported : availableMemSize prof map = some memsize)
    (created : PageAllocator.default prof map initial = some (alloc, start)) :
    PagesInWindow prof alloc start ↔ memsize.toNat % 0x100000000 / 4096 ≤ 16128 := by
  rw [default_eq reported] at created
  cases created
  exact placed_pages_in_window_iff prof _ (total_pages_lt memsize) initial

theorem sample_pages_in_window :
    availableMemSize .release sampleMap = some 0x1f00000 ∧
      PagesInWindow .release (placedAllocator 7936) (freshMemory 7936 fun _ => 0) :=
  ⟨by decide, (pages_in_window_iff .release sampleMap (fun _ => 0) _ _ 0x1f00000 (by decide)
    (sample_default .release _)).mpr (by decide)⟩

def largeMap : List MemLayout :=
  [{ addr := 0, len := 0x9fc00, kind := .usable },
    { addr := 0x9fc00, len := 0x400, kind := .reserved },
    { addr := 0xf0000, len := 0x10000, kind := .reserved },
    { addr := 0x100000, len := 0x7ee0000, kind := .usable },
    { addr := 0x7fe0000, len := 0x20000, kind := .reserved },
    { addr := 0xfffc0000, len := 0x40000, kind := .reserved }]

theorem large_machine_leaves_window :
    ¬∀ (prof : Profile) (map : List MemLayout) (initial start : Memory) (alloc : PageAllocator),
      PageAllocator.default prof map initial = some (alloc, start) →
        PagesInWindow prof alloc start := by
  intro inWindow
  have reported : availableMemSize .release largeMap = some 0x7ee0000 := by decide
  have pages := (placed_pages_in_window_iff .release (totalPages 0x7ee0000) (by decide)
    (fun _ => 0)).mp (inWindow .release largeMap _ _ _ (default_eq reported _))
  exact absurd pages (by decide)

/-- Every page of a returned block, at its 32-bit address, lies in the kernel half and its frame
consists of usable bytes. -/
def UsableFramesOnly (prof : Profile) (map : List MemLayout) (alloc : PageAllocator)
    (start : Memory) : Prop :=
  ∀ mem, Reachable prof alloc start mem → ∀ cnt page after,
    alloc.getPage prof cnt mem = some (some page, after) →
      ∀ number, number < cnt.toNat →
        kernelBase ≤ (page.toNat + 4096 * number) % 0x100000000 ∧
        ∀ offset, offset < 4096 →
          UsableAt map ((page.toNat + 4096 * number) % 0x100000000 - kernelBase + offset)

theorem stretch_of_usable (prof : Profile) (map : List MemLayout) (pages : Nat)
    (bounded : pages < 0x100000) (mem : Memory) (nonempty : bitmapPages pages < pages)
    (usable : UsableFramesOnly prof map (placedAllocator pages) (freshMemory pages mem)) :
    4096 * pages ≤ 0x3ff00000 ∧ ∀ addr, 0x100000 + 4096 * bitmapPages pages ≤ addr →
      addr < 0x100000 + 4096 * pages → UsableAt map addr := by
  have base := placed_base pages bounded
  have few := bitmap_pages_few bounded
  obtain ⟨cnt, after, completed, count⟩ := all_pages_at_once prof pages bounded nonempty mem
  have frames := usable _ Reachable.created _ _ _ completed
  have small : 4096 * pages ≤ 0x3ff00000 := by
    -- otherwise some page of the block starts at address zero
    by_contra large
    have top : (placedAllocator pages).baseAddr.toNat + 4096 * (0x3ff00 - bitmapPages pages) =
        0x100000000 := by omega
    have wrapped := (frames (0x3ff00 - bitmapPages pages) (by omega)).1
    rw [top] at wrapped
    exact absurd wrapped (by decide)
  refine ⟨small, ?_⟩
  intro addr lower upper
  have number : (addr - (0x100000 + 4096 * bitmapPages pages)) / 4096 < cnt.toNat := by omega
  have frame := (frames _ number).2 ((addr - (0x100000 + 4096 * bitmapPages pages)) % 4096)
    (Nat.mod_lt _ (by decide))
  have byte : ((placedAllocator pages).baseAddr.toNat +
      4096 * ((addr - (0x100000 + 4096 * bitmapPages pages)) / 4096)) % 0x100000000 -
      kernelBase + (addr - (0x100000 + 4096 * bitmapPages pages)) % 4096 = addr := by
    unfold kernelBase
    omega
  rwa [byte] at frame

theorem usable_of_stretch (prof : Profile) (map : List MemLayout) (pages : Nat)
    (bounded : pages < 0x100000) (mem : Memory) (small : 4096 * pages ≤ 0x3ff00000)
    (stretch : ∀ addr, 0x100000 + 4096 * bitmapPages pages ≤ addr →
      addr < 0x100000 + 4096 * pages → UsableAt map addr) :
    UsableFramesOnly prof map (placedAllocator pages) (freshMemory pages mem) := by
  intro current _ cnt page after completed number within
  have size := placed_size pages bounded
  have base := placed_base pages bounded
  have reserved := bitmap_pages_le pages
  obtain ⟨idx, found, _, rfl⟩ := get_page_some completed
  obtain ⟨start, inside, _⟩ := found_run found
  have address := page_address_exact (placedAllocator pages) (by omega) start
  have exact32 : (((placedAllocator pages).baseAddr + idx * 4096).toNat + 4096 * number) %
      0x100000000 = 0xc0100000 + 4096 * bitmapPages pages + 4096 * (idx.toNat + number) := by
    omega
  rw [exact32]
  unfold kernelBase
  refine ⟨by omega, ?_⟩
  intro offset inFrame
  exact stretch _ (by omega) (by omega)

theorem placed_usable_frames_iff (prof : Profile) (map : List MemLayout) (sorted : SortedMap map)
    (pages : Nat) (bounded : pages < 0x100000) (mem : Memory) :
    UsableFramesOnly prof map (placedAllocator pages) (freshMemory pages mem) ↔
      4096 * pages ≤ 0x3ff00000 ∧
        0x100000 + 4096 * pages ≤ coveredUpTo (0x100000 + 4096 * bitmapPages pages) map := by
  have reserved := bitmap_pages_le pages
  have few := bitmap_pages_few bounded
  rw [← usable_stretch_iff sorted]
  constructor
  · intro usable
    by_cases nonempty : bitmapPages pages < pages
    · exact stretch_of_usable prof map pages bounded mem nonempty usable
    · refine ⟨by omega, ?_⟩
      intro addr lower upper
      omega
  · intro condition
    exact usable_of_stretch prof map pages bounded mem condition.1 condition.2

/-- On a sorted map only usable frames are handed out exactly when the summed size fits the kernel
half of the address space and the usable memory is contiguous from the bitmap's end up to that
size. A hole, a late first region or a truncated total breaks one of the two. -/
theorem usable_frames_iff (prof : Profile) (map : List MemLayout) (initial start : Memory)
    (alloc : PageAllocator) (sorted : SortedMap map)
    (created : PageAllocator.default prof map initial = some (alloc, start)) :
    UsableFramesOnly prof map alloc start ↔
      4096 * (usableTotal map % 0x100000000 / 4096) ≤ 0x3ff00000 ∧
        0x100000 + 4096 * (usableTotal map % 0x100000000 / 4096) ≤
          coveredUpTo (0x100000 + 4096 * bitmapPages (usableTotal map % 0x100000000 / 4096)) map := by
  obtain ⟨reported, size, total⟩ := available_mem_size_sorted prof sorted
  rw [default_eq size] at created
  cases created
  rw [placed_usable_frames_iff prof map sorted _ (total_pages_lt reported) initial, totalPages,
    total]

theorem sample_map_sorted : SortedMap sampleMap where
  ordered := by decide
  noOverflow := by decide

theorem sample_frames_usable :
    SortedMap sampleMap ∧
      UsableFramesOnly .debug sampleMap (placedAllocator 7936) (freshMemory 7936 fun _ => 0xff) :=
  ⟨sample_map_sorted, (usable_frames_iff .debug sampleMap _ _ _ sample_map_sorted
    (sample_default .debug _)).mpr (by decide)⟩

def holeMap : List MemLayout :=
  [{ addr := 0x100000, len := 0x100000, kind := .usable },
    { addr := 0x200000, len := 0x100000, kind := .reserved },
    { addr := 0x300000, len := 0x100000, kind := .usable }]

theorem reserved_hole_handed_out :
    ¬∀ (prof : Profile) (map : List MemLayout) (initial start : Memory) (alloc : PageAllocator),
      SortedMap map → PageAllocator.default prof map initial = some (alloc, start) →
        UsableFramesOnly prof map alloc start := by
  intro usable
  have sorted : SortedMap holeMap := ⟨by decide, by decide⟩
  have reported : availableMemSize .debug holeMap = some 0x200000 := by decide
  have covered := (placed_usable_frames_iff .debug holeMap sorted (totalPages 0x200000) (by decide)
    (fun _ => 0)).mp (usable .debug holeMap _ _ _ sorted (default_eq reported _))
  exact absurd covered (by decide)

end RondOS.PageSafety
