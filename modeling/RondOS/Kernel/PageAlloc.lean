import RondOS.Kernel.AvailableMem
import RondOS.Kernel.PageBitmap
import RondOS.Lib.Ownership

/-!
# The page allocator

`PageAllocator` has no record of its blocks besides the bitmap: `get_page` flips a run of clear
bits, `free_page` checks a run of set bits and flips it back. The ghost list of live blocks of a
legal run is the abstract state, and the bitmap is exact for it.
-/

namespace RondOS.PageAlloc

open ByteMemory RustWord ExclusiveOwnership MemLayoutView AvailableMem PageBitmap

set_option autoImplicit false

structure PageAllocator where
  bitmap : BitMap
  baseAddr : Usize
  deriving DecidableEq

def PageAllocator.ofMemsize (prof : Profile) (memsize : Usize) (mem : Memory) :
    Option (PageAllocator × Memory) := do
  let pagecnt := memsize / 4096
  let bitmapSize := (← prof.add pagecnt 7) / 8
  let bitmapPages := (← prof.add bitmapSize 4095) / 4096
  let avlPages ← prof.sub pagecnt bitmapPages
  let (bitmap, mem) ← BitMap.new prof 0xc0100000 avlPages mem
  let baseAddr ← prof.add 0xc0100000 (← prof.mul bitmapPages 4096)
  some ({ bitmap, baseAddr }, mem)

/-- `available_mem_size() as usize` keeps the low 32 bits. -/
def PageAllocator.default (prof : Profile) (map : List MemLayout) (mem : Memory) :
    Option (PageAllocator × Memory) := do
  let reported ← availableMemSize prof map
  PageAllocator.ofMemsize prof (reported.setWidth 32) mem

def PageAllocator.getPage (prof : Profile) (alloc : PageAllocator) (cnt : Usize) (mem : Memory) :
    Option (Option Usize × Memory) := do
  match ← alloc.bitmap.find prof mem 0 cnt false with
  | none => some (none, mem)
  | some avlPage =>
      let mem ← alloc.bitmap.flips prof avlPage cnt mem
      let page ← prof.add alloc.baseAddr (← prof.mul avlPage 4096)
      some (some page, mem)

def PageAllocator.freePage (prof : Profile) (alloc : PageAllocator) (page cnt : Usize)
    (mem : Memory) : Option Memory :=
  if page % 4096 = 0 then do
    let pidx := (← prof.sub page alloc.baseAddr) / 4096
    if ← alloc.bitmap.all prof mem pidx cnt then alloc.bitmap.flips prof pidx cnt mem else none
  else none

structure Layout where
  size : Usize
  align : Usize

/-- The layouts that exist: `Layout` cannot be built with other values. `0x7fffffff` is
`isize::MAX`. -/
structure ValidLayout (layout : Layout) : Prop where
  nonempty : 1 ≤ layout.size.toNat
  powerOfTwo : ∃ exponent, layout.align.toNat = 2 ^ exponent
  rounded : (layout.size.toNat + layout.align.toNat - 1) / layout.align.toNat *
    layout.align.toNat ≤ 0x7fffffff

/-- `(reqsize + 4095) / 4096` -/
def pagesFor (prof : Profile) (reqsize : Usize) : Option Usize := do
  some ((← prof.add reqsize 4095) / 4096)

theorem ValidLayout.size_le {layout : Layout} (valid : ValidLayout layout) :
    layout.size.toNat ≤ 0x7fffffff := by
  have nonempty := valid.nonempty
  have rounded := valid.rounded
  obtain ⟨exponent, power⟩ := valid.powerOfTwo
  have positive : 0 < layout.align.toNat := by
    rw [power]
    exact Nat.two_pow_pos exponent
  have covered := Nat.lt_div_mul_add positive (a := layout.size.toNat + layout.align.toNat - 1)
  omega

theorem pages_for_exact (prof : Profile) {reqsize : Usize} (small : reqsize.toNat ≤ 0x7fffffff) :
    ∃ cnt, pagesFor prof reqsize = some cnt ∧ cnt.toNat = (reqsize.toNat + 4095) / 4096 := by
  have pad : (4095 : Usize).toNat = 4095 := rfl
  have sum : (reqsize + 4095).toNat = reqsize.toNat + 4095 := BitVec.toNat_add_of_lt (by omega)
  refine ⟨(reqsize + 4095) / 4096, ?_, ?_⟩
  · simp only [pagesFor, add_exact prof reqsize 4095 (by omega), Option.bind_eq_bind,
      Option.bind_some]
  · rw [BitVec.toNat_udiv, sum]
    rfl

/-- `GlobalAlloc::alloc` on the global page allocator; `unwrap` aborts when no run is free. -/
def Allocator.alloc (prof : Profile) (pageAlloc : PageAllocator) (layout : Layout) (mem : Memory) :
    Option (Usize × Memory) := do
  let (page, mem) ← pageAlloc.getPage prof (← pagesFor prof layout.size) mem
  some (← page, mem)

def Allocator.dealloc (prof : Profile) (pageAlloc : PageAllocator) (ptr : Usize) (layout : Layout)
    (mem : Memory) : Option Memory := do
  pageAlloc.freePage prof ptr (← pagesFor prof layout.size) mem

def totalPages (reported : BitVec 64) : Nat := reported.toNat % 0x100000000 / 4096

def bitmapPages (pages : Nat) : Nat := ((pages + 7) / 8 + 4095) / 4096

def placedAllocator (pages : Nat) : PageAllocator where
  bitmap :=
    { dataPtr := 0xc0100000
      size := BitVec.ofNat 32 (pages - bitmapPages pages) }
  baseAddr := BitVec.ofNat 32 (0xc0100000 + 4096 * bitmapPages pages)

def freshMemory (pages : Nat) (mem : Memory) : Memory :=
  memset mem 0xc0100000 0 ((pages - bitmapPages pages + 7) / 8)

theorem bitmap_pages_le (pages : Nat) : bitmapPages pages ≤ pages := by
  unfold bitmapPages
  omega

theorem bitmap_pages_few {pages : Nat} (bounded : pages < 0x100000) : bitmapPages pages ≤ 32 := by
  unfold bitmapPages
  omega

theorem total_pages_lt (reported : BitVec 64) : totalPages reported < 0x100000 := by
  unfold totalPages
  omega

theorem placed_size (pages : Nat) (bounded : pages < 0x100000) :
    (placedAllocator pages).bitmap.size.toNat = pages - bitmapPages pages := by
  simp only [placedAllocator, BitVec.toNat_ofNat]
  omega

theorem placed_base (pages : Nat) (bounded : pages < 0x100000) :
    (placedAllocator pages).baseAddr.toNat = 0xc0100000 + 4096 * bitmapPages pages := by
  have few := bitmap_pages_few bounded
  simp only [placedAllocator, BitVec.toNat_ofNat]
  omega

theorem of_memsize_eq (prof : Profile) (memsize : Usize) (mem : Memory) :
    PageAllocator.ofMemsize prof memsize mem =
      some (placedAllocator (memsize.toNat / 4096), freshMemory (memsize.toNat / 4096) mem) := by
  have word := memsize.isLt
  generalize total : memsize.toNat / 4096 = pages
  have bounded : pages < 0x100000 := by omega
  have reserved := bitmap_pages_le pages
  have few := bitmap_pages_few bounded
  have pagecnt : memsize / 4096#32 = BitVec.ofNat 32 pages := by
    apply BitVec.eq_of_toNat_eq
    rw [BitVec.toNat_udiv, BitVec.toNat_ofNat, BitVec.toNat_ofNat, Nat.mod_eq_of_lt (by omega),
      Nat.mod_eq_of_lt (by omega), total]
  have bitmapSize : (BitVec.ofNat 32 (pages + 7)) / 8#32 = BitVec.ofNat 32 ((pages + 7) / 8) :=
    div_of_nat (by omega) (by omega)
  have bitmapPagecnt : BitVec.ofNat 32 ((pages + 7) / 8 + 4095) / 4096#32 =
      BitVec.ofNat 32 (bitmapPages pages) :=
    div_of_nat (by omega) (by omega)
  have padPages : prof.add (BitVec.ofNat 32 pages) 7#32 = some (BitVec.ofNat 32 (pages + 7)) :=
    add_of_nat prof (by omega)
  have padBytes : prof.add (BitVec.ofNat 32 ((pages + 7) / 8)) 4095#32 =
      some (BitVec.ofNat 32 ((pages + 7) / 8 + 4095)) :=
    add_of_nat prof (by omega)
  have avlPages : prof.sub (BitVec.ofNat 32 pages) (BitVec.ofNat 32 (bitmapPages pages)) =
      some (BitVec.ofNat 32 (pages - bitmapPages pages)) :=
    sub_of_nat prof reserved (by omega)
  have reservedBytes : prof.mul (BitVec.ofNat 32 (bitmapPages pages)) 4096#32 =
      some (BitVec.ofNat 32 (bitmapPages pages * 4096)) :=
    mul_of_nat prof (by omega) (by omega) (by omega)
  have baseAddr : prof.add 0xc0100000#32 (BitVec.ofNat 32 (bitmapPages pages * 4096)) =
      some (BitVec.ofNat 32 (0xc0100000 + bitmapPages pages * 4096)) :=
    add_of_nat prof (by omega)
  have size : (BitVec.ofNat 32 (pages - bitmapPages pages)).toNat = pages - bitmapPages pages := by
    rw [BitVec.toNat_ofNat, Nat.mod_eq_of_lt (by omega)]
  have bitmap := new_spec prof 0xc0100000#32 (BitVec.ofNat 32 (pages - bitmapPages pages)) mem
    (by omega)
  rw [size] at bitmap
  simp only [PageAllocator.ofMemsize, pagecnt, BitVec.ofNat_eq_ofNat, padPages, bitmapSize,
    padBytes, bitmapPagecnt, avlPages, bitmap, reservedBytes, baseAddr, Option.bind_eq_bind,
    Option.bind_some]
  rw [placedAllocator, freshMemory, Nat.mul_comm]
  rfl

theorem default_eq {prof : Profile} {map : List MemLayout} {reported : BitVec 64}
    (size : availableMemSize prof map = some reported) (mem : Memory) :
    PageAllocator.default prof map mem =
      some (placedAllocator (totalPages reported), freshMemory (totalPages reported) mem) := by
  have truncated : (reported.setWidth 32).toNat = reported.toNat % 0x100000000 :=
    BitVec.toNat_setWidth 32 reported
  simp only [PageAllocator.default, size, Option.bind_eq_bind, Option.bind_some, of_memsize_eq,
    truncated]
  rfl

theorem default_eq_some {prof : Profile} {map : List MemLayout} {mem start : Memory}
    {alloc : PageAllocator} (created : PageAllocator.default prof map mem = some (alloc, start)) :
    ∃ reported, availableMemSize prof map = some reported ∧
      alloc = placedAllocator (totalPages reported) ∧
      start = freshMemory (totalPages reported) mem := by
  cases size : availableMemSize prof map with
  | none => simp [PageAllocator.default, size] at created
  | some reported =>
      rw [default_eq size] at created
      cases created
      exact ⟨reported, rfl, rfl, rfl⟩

/-- Everything a completed `get_page` can have done: nothing, or flipping a run that the search
found, with the address computed in machine words. -/
theorem get_page_cases {prof : Profile} {alloc : PageAllocator} {cnt : Usize}
    {result : Option Usize} {mem after : Memory}
    (completed : alloc.getPage prof cnt mem = some (result, after)) :
    (result = none ∧ after = mem) ∨
      ∃ idx : Usize, alloc.bitmap.find prof mem 0 cnt false = some (some idx) ∧
        alloc.bitmap.flips prof idx cnt mem = some after ∧
        result = some (alloc.baseAddr + idx * 4096) := by
  unfold PageAllocator.getPage at completed
  cases found : alloc.bitmap.find prof mem 0 cnt false with
  | none =>
      simp only [found, Option.bind_eq_bind, Option.bind_none, reduceCtorEq] at completed
  | some position =>
      cases position with
      | none =>
          simp only [found, Option.bind_eq_bind, Option.bind_some, Option.some.injEq,
            Prod.mk.injEq] at completed
          exact Or.inl ⟨completed.1.symm, completed.2.symm⟩
      | some idx =>
          simp only [found, Option.bind_eq_bind, Option.bind_some, Option.bind_eq_some_iff,
            Option.some.injEq, Prod.mk.injEq] at completed
          obtain ⟨flipped, flips, offset, scaled, page, added, rfl, rfl⟩ := completed
          rw [eq_mul_of_some scaled] at added
          exact Or.inr ⟨idx, rfl, flips, congrArg some (eq_add_of_some added)⟩

theorem get_page_some {prof : Profile} {alloc : PageAllocator} {cnt page : Usize}
    {mem after : Memory} (completed : alloc.getPage prof cnt mem = some (some page, after)) :
    ∃ idx : Usize, alloc.bitmap.find prof mem 0 cnt false = some (some idx) ∧
      alloc.bitmap.flips prof idx cnt mem = some after ∧ page = alloc.baseAddr + idx * 4096 := by
  rcases get_page_cases completed with ⟨absurdity, _⟩ | ⟨idx, found, flips, result⟩
  · cases absurdity
  · exact ⟨idx, found, flips, Option.some.inj result⟩

theorem found_run {prof : Profile} {bits : BitMap} {mem : Memory} {cnt idx : Usize}
    (found : bits.find prof mem 0 cnt false = some (some idx)) :
    idx.toNat < bits.size.toNat ∧ idx.toNat + cnt.toNat ≤ bits.size.toNat ∧
      ∀ index, idx.toNat ≤ index → index < idx.toNat + cnt.toNat → bits.bit mem index = false := by
  obtain ⟨_, start, run⟩ := find_eq_some found
  refine ⟨start, ?_, ?_⟩
  · by_cases empty : cnt.toNat = 0
    · omega
    · have last := (run (cnt.toNat - 1) (by omega)).1
      omega
  · intro index lower upper
    have clear := (run (index - idx.toNat) (by omega)).2
    rwa [Nat.add_sub_cancel' lower] at clear

theorem page_address_exact (alloc : PageAllocator) {idx : Usize}
    (fits : alloc.baseAddr.toNat + 4096 * alloc.bitmap.size.toNat ≤ 0x100000000)
    (inside : idx.toNat < alloc.bitmap.size.toNat) :
    (alloc.baseAddr + idx * 4096).toNat = alloc.baseAddr.toNat + 4096 * idx.toNat := by
  have scaled : (idx * 4096).toNat = idx.toNat * 4096 := by
    rw [BitVec.toNat_mul]
    exact Nat.mod_eq_of_lt (by change idx.toNat * 4096 < 2 ^ 32; omega)
  rw [BitVec.toNat_add_of_lt (by omega), scaled, Nat.mul_comm]

structure Block where
  page : Usize
  cnt : Usize
  deriving DecidableEq

/-- Page `index` of the allocator starts inside the block's address range, in exact arithmetic. -/
def holdsPage (alloc : PageAllocator) (block : Block) (index : Nat) : Bool :=
  decide (block.page.toNat ≤ alloc.baseAddr.toNat + 4096 * index ∧
    alloc.baseAddr.toNat + 4096 * index < block.page.toNat + 4096 * block.cnt.toNat)

/-- The flags of all bits in the bitmap's bytes, padding included. -/
def takenPages (alloc : PageAllocator) (mem : Memory) (index : Nat) : Bool :=
  decide (index < 8 * ((alloc.bitmap.size.toNat + 7) / 8)) && alloc.bitmap.bit mem index

theorem taken_pages_stored {alloc : PageAllocator} (mem : Memory) {index : Nat}
    (stored : index < 8 * ((alloc.bitmap.size.toNat + 7) / 8)) :
    takenPages alloc mem index = alloc.bitmap.bit mem index := by
  rw [takenPages, decide_eq_true stored, Bool.true_and]

theorem taken_pages_beyond {alloc : PageAllocator} (mem : Memory) {index : Nat}
    (beyond : ¬index < 8 * ((alloc.bitmap.size.toNat + 7) / 8)) :
    takenPages alloc mem index = false := by
  rw [takenPages, decide_eq_false beyond, Bool.false_and]

structure BlockAt (alloc : PageAllocator) (block : Block) (idx : Nat) : Prop where
  address : block.page.toNat = alloc.baseAddr.toNat + 4096 * idx
  nonempty : 1 ≤ block.cnt.toNat
  inside : idx + block.cnt.toNat ≤ alloc.bitmap.size.toNat

theorem BlockAt.holds_iff {alloc : PageAllocator} {block : Block} {idx : Nat}
    (spans : BlockAt alloc block idx) (index : Nat) :
    holdsPage alloc block index = true ↔ idx ≤ index ∧ index < idx + block.cnt.toNat := by
  have address := spans.address
  rw [holdsPage, decide_eq_true_eq, address]
  omega

theorem BlockAt.taken_after_flips {alloc : PageAllocator} {block : Block} {idx : Nat}
    {mem after : Memory} (spans : BlockAt alloc block idx)
    (changed : BitsChanged alloc.bitmap (fun bit => !bit) idx block.cnt.toNat mem after) :
    takenPages alloc after = toggled (holdsPage alloc) (takenPages alloc mem) block := by
  have sizeWord := alloc.bitmap.size.isLt
  have inside := spans.inside
  funext index
  have held := spans.holds_iff index
  unfold toggled
  by_cases within : idx ≤ index ∧ index < idx + block.cnt.toNat
  · have stored : index < 8 * ((alloc.bitmap.size.toNat + 7) / 8) := by omega
    rw [taken_pages_stored after stored, taken_pages_stored mem stored, held.mpr within,
      changed.inside index within.1 within.2, Bool.xor_true]
  · have free : holdsPage alloc block index = false := Bool.eq_false_iff.mpr (mt held.mp within)
    rw [free, Bool.xor_false]
    by_cases stored : index < 8 * ((alloc.bitmap.size.toNat + 7) / 8)
    · rw [taken_pages_stored after stored, taken_pages_stored mem stored,
        changed.outside index (by omega) within]
    · rw [taken_pages_beyond after stored, taken_pages_beyond mem stored]

structure WellPlaced (alloc : PageAllocator) : Prop where
  aligned : alloc.baseAddr.toNat % 4096 = 0
  separated : alloc.bitmap.dataPtr.toNat + (alloc.bitmap.size.toNat + 7) / 8 ≤
    alloc.baseAddr.toNat

theorem placed_well (pages : Nat) (bounded : pages < 0x100000) :
    WellPlaced (placedAllocator pages) where
  aligned := by
    rw [placed_base pages bounded]
    omega
  separated := by
    have pointer : (placedAllocator pages).bitmap.dataPtr.toNat = 0xc0100000 := rfl
    rw [placed_base pages bounded, placed_size pages bounded, pointer, bitmapPages]
    omega

theorem free_page_at (prof : Profile) {alloc : PageAllocator} {block : Block} {idx : Nat}
    {mem : Memory} (placed : WellPlaced alloc) (spans : BlockAt alloc block idx)
    (set : ∀ index, idx ≤ index → index < idx + block.cnt.toNat →
      alloc.bitmap.bit mem index = true) :
    ∃ after, alloc.freePage prof block.page block.cnt mem = some after ∧
      BitsChanged alloc.bitmap (fun bit => !bit) idx block.cnt.toNat mem after := by
  have pageWord := block.page.isLt
  have aligned := placed.aligned
  obtain ⟨address, nonempty, inside⟩ := spans
  have pageAligned : block.page % 4096 = 0 := by
    apply BitVec.eq_of_toNat_eq
    rw [BitVec.toNat_umod]
    change block.page.toNat % 4096 = 0
    omega
  have difference : (block.page - alloc.baseAddr).toNat = 4096 * idx := by
    rw [BitVec.toNat_sub_of_le (BitVec.le_def.mpr (by omega))]
    omega
  have pidx : ((block.page - alloc.baseAddr) / 4096).toNat = idx := by
    rw [BitVec.toNat_udiv, difference]
    exact Nat.mul_div_cancel_left idx (by decide)
  have owned : alloc.bitmap.all prof mem ((block.page - alloc.baseAddr) / 4096) block.cnt =
      some true := by
    rw [all_eq_true_iff, pidx]
    intro i bound
    exact ⟨by omega, set _ (by omega) (by omega)⟩
  obtain ⟨after, flips, changed⟩ := flips_spec prof alloc.bitmap
    ((block.page - alloc.baseAddr) / 4096) block.cnt mem (by rw [pidx]; exact inside)
  rw [pidx] at changed
  refine ⟨after, ?_, changed⟩
  simp only [PageAllocator.freePage, if_pos pageAligned,
    sub_exact prof block.page alloc.baseAddr (by omega), Option.bind_eq_bind, Option.bind_some,
    owned, if_true, flips]

/-- A completed sequence of legal calls with the blocks live after it. Blocks may be freed in any
order, through either interface, and their owners may write to them in between. -/
inductive LegalRun (prof : Profile) (alloc : PageAllocator) (start : Memory) :
    List Block → Memory → Prop
  | created : LegalRun prof alloc start [] start
  | getPage {live : List Block} {mem after : Memory} {cnt page : Usize} :
      LegalRun prof alloc start live mem → 1 ≤ cnt.toNat →
      alloc.getPage prof cnt mem = some (some page, after) →
      LegalRun prof alloc start ({ page, cnt } :: live) after
  | outOfPages {live : List Block} {mem after : Memory} {cnt : Usize} :
      LegalRun prof alloc start live mem → alloc.getPage prof cnt mem = some (none, after) →
      LegalRun prof alloc start live after
  | freePage {live : List Block} {mem after : Memory} {block : Block} :
      LegalRun prof alloc start live mem → block ∈ live →
      alloc.freePage prof block.page block.cnt mem = some after →
      LegalRun prof alloc start (live.erase block) after
  | alloc {live : List Block} {mem after : Memory} {layout : Layout} {cnt page : Usize} :
      LegalRun prof alloc start live mem → ValidLayout layout →
      pagesFor prof layout.size = some cnt →
      Allocator.alloc prof alloc layout mem = some (page, after) →
      LegalRun prof alloc start ({ page, cnt } :: live) after
  | dealloc {live : List Block} {mem after : Memory} {block : Block} {layout : Layout} :
      LegalRun prof alloc start live mem → block ∈ live →
      pagesFor prof layout.size = some block.cnt →
      Allocator.dealloc prof alloc block.page layout mem = some after →
      LegalRun prof alloc start (live.erase block) after
  | ownerWrite {live : List Block} {mem : Memory} {block : Block} {target : Nat} {value : Byte} :
      LegalRun prof alloc start live mem → block ∈ live → block.page.toNat ≤ target →
      target < block.page.toNat + 4096 * block.cnt.toNat →
      LegalRun prof alloc start live (Function.update mem target value)

/-- The bitmap is exact for the live blocks, and these are runs of managed pages. -/
structure Accounted (alloc : PageAllocator) (live : List Block) (mem : Memory) : Prop where
  placed : ∀ block ∈ live, ∃ idx, BlockAt alloc block idx
  exclusive : Exclusive (holdsPage alloc) (takenPages alloc mem) live

section Steps

variable {prof : Profile} {alloc : PageAllocator} {live : List Block} {mem after : Memory}

theorem Accounted.get_page {cnt page : Usize} (accounted : Accounted alloc live mem)
    (fits : alloc.baseAddr.toNat + 4096 * alloc.bitmap.size.toNat ≤ 0x100000000)
    (nonempty : 1 ≤ cnt.toNat) (completed : alloc.getPage prof cnt mem = some (some page, after)) :
    Accounted alloc ({ page, cnt } :: live) after := by
  obtain ⟨idx, found, flips, rfl⟩ := get_page_some completed
  obtain ⟨start, inside, clear⟩ := found_run found
  have spans : BlockAt alloc { page := alloc.baseAddr + idx * 4096, cnt } idx.toNat :=
    ⟨page_address_exact alloc fits start, nonempty, inside⟩
  obtain ⟨flipped, ran, changed⟩ := flips_spec prof alloc.bitmap idx cnt mem inside
  rw [flips] at ran
  cases ran
  constructor
  · intro block member
    rcases List.mem_cons.mp member with rfl | member
    · exact ⟨idx.toNat, spans⟩
    · exact accounted.placed block member
  · rw [spans.taken_after_flips changed]
    apply accounted.exclusive.acquire
    intro index held
    have range := (spans.holds_iff index).mp held
    simp [takenPages, clear index range.1 range.2]

/-- The pages of a live block are marked, so its release passes the assertion. -/
theorem Accounted.free_page {block : Block} (prof : Profile) (accounted : Accounted alloc live mem)
    (placed : WellPlaced alloc) (member : block ∈ live) :
    ∃ released, alloc.freePage prof block.page block.cnt mem = some released ∧
      Accounted alloc (live.erase block) released := by
  obtain ⟨idx, spans⟩ := accounted.placed block member
  obtain ⟨released, freed, changed⟩ := free_page_at prof placed spans (by
    intro index lower upper
    have taken := accounted.exclusive.taken_of_held member ((spans.holds_iff index).mpr ⟨lower, upper⟩)
    exact (Bool.and_eq_true_iff.mp taken).2)
  refine ⟨released, freed, ?_, ?_⟩
  · intro other remaining
    exact accounted.placed other (List.mem_of_mem_erase remaining)
  · rw [spans.taken_after_flips changed]
    exact accounted.exclusive.release member

theorem Accounted.freed {block : Block} (accounted : Accounted alloc live mem)
    (placed : WellPlaced alloc) (member : block ∈ live)
    (completed : alloc.freePage prof block.page block.cnt mem = some after) :
    Accounted alloc (live.erase block) after := by
  obtain ⟨released, freed, kept⟩ := accounted.free_page prof placed member
  rw [completed] at freed
  cases freed
  exact kept

theorem Accounted.owner_write {block : Block} {target : Nat} {value : Byte}
    (accounted : Accounted alloc live mem) (placed : WellPlaced alloc) (member : block ∈ live)
    (lower : block.page.toNat ≤ target) :
    Accounted alloc live (Function.update mem target value) := by
  obtain ⟨idx, spans⟩ := accounted.placed block member
  have address := spans.address
  have separated := placed.separated
  have baseWord := alloc.baseAddr.isLt
  have same : takenPages alloc (Function.update mem target value) = takenPages alloc mem := by
    funext index
    by_cases stored : index < 8 * ((alloc.bitmap.size.toNat + 7) / 8)
    · have elsewhere : alloc.bitmap.byteAddr (index / 8) ≠ target := by
        unfold BitMap.byteAddr
        omega
      rw [taken_pages_stored _ stored, taken_pages_stored _ stored, BitMap.bit,
        Function.update_of_ne elsewhere, BitMap.bit]
    · rw [taken_pages_beyond _ stored, taken_pages_beyond _ stored]
  exact ⟨accounted.placed, by rw [same]; exact accounted.exclusive⟩

theorem alloc_eq_some {layout : Layout} {cnt page : Usize}
    (pages : pagesFor prof layout.size = some cnt)
    (completed : Allocator.alloc prof alloc layout mem = some (page, after)) :
    alloc.getPage prof cnt mem = some (some page, after) := by
  simp only [Allocator.alloc, pages, Option.bind_eq_bind, Option.bind_some,
    Option.bind_eq_some_iff, Option.some.injEq, Prod.mk.injEq, Prod.exists] at completed
  obtain ⟨result, _, got, ptr, rfl, rfl, rfl⟩ := completed
  exact got

theorem dealloc_eq {layout : Layout} {cnt ptr : Usize}
    (pages : pagesFor prof layout.size = some cnt) :
    Allocator.dealloc prof alloc ptr layout mem = alloc.freePage prof ptr cnt mem := by
  simp only [Allocator.dealloc, pages, Option.bind_eq_bind, Option.bind_some]

end Steps

theorem LegalRun.accounted {prof : Profile} {alloc : PageAllocator} {start mem : Memory}
    {live : List Block} (placed : WellPlaced alloc)
    (fits : alloc.baseAddr.toNat + 4096 * alloc.bitmap.size.toNat ≤ 0x100000000)
    (fresh : ∀ index, takenPages alloc start index = false)
    (run : LegalRun prof alloc start live mem) : Accounted alloc live mem := by
  induction run with
  | created =>
      refine ⟨?_, exclusive_nil_iff.mpr fresh⟩
      intro block member
      cases member
  | getPage _ nonempty completed ih => exact ih.get_page fits nonempty completed
  | outOfPages _ completed ih =>
      rcases get_page_cases completed with ⟨_, same⟩ | ⟨_, _, _, absurdity⟩
      · rw [same]
        exact ih
      · cases absurdity
  | freePage _ member completed ih => exact ih.freed placed member completed
  | @alloc live mem after layout cnt page _ valid pages completed ih =>
      obtain ⟨count, counted, rounded⟩ := pages_for_exact prof valid.size_le
      have filled := valid.nonempty
      have same : count = cnt := Option.some.inj (counted.symm.trans pages)
      have nonempty : 1 ≤ cnt.toNat := by
        rw [← same, rounded]
        omega
      exact ih.get_page fits nonempty (alloc_eq_some pages completed)
  | dealloc _ member pages completed ih =>
      rw [dealloc_eq pages] at completed
      exact ih.freed placed member completed
  | ownerWrite _ member lower _ ih => exact ih.owner_write placed member lower

theorem fresh_taken (pages : Nat) (bounded : pages < 0x100000) (mem : Memory) (index : Nat) :
    takenPages (placedAllocator pages) (freshMemory pages mem) index = false := by
  have size := placed_size pages bounded
  by_cases stored : index < 8 * (((placedAllocator pages).bitmap.size.toNat + 7) / 8)
  · rw [taken_pages_stored _ stored]
    exact memset_bit (placedAllocator pages).bitmap mem ((pages - bitmapPages pages + 7) / 8) index
      (by omega) (by omega)
  · exact taken_pages_beyond _ stored

theorem Accounted.all_zero {alloc : PageAllocator} {mem : Memory}
    (accounted : Accounted alloc [] mem) (index : Nat)
    (stored : index < (alloc.bitmap.size.toNat + 7) / 8) :
    mem (alloc.bitmap.byteAddr index) = 0 := by
  have vacant := exclusive_nil_iff.mp accounted.exclusive
  apply BitVec.eq_of_getLsbD_eq
  intro position inByte
  have flag := vacant (8 * index + position)
  have within : 8 * index + position < 8 * ((alloc.bitmap.size.toNat + 7) / 8) := by omega
  have byte : (8 * index + position) / 8 = index := by omega
  have bit : (8 * index + position) % 8 = position := by omega
  rw [taken_pages_stored mem within, BitMap.bit, byte, bit] at flag
  rw [flag, BitVec.ofNat_eq_ofNat, BitVec.getLsbD_zero]

theorem BlockAt.ranges_disjoint {alloc : PageAllocator} {first second : Block} {i j : Nat}
    (firstAt : BlockAt alloc first i) (secondAt : BlockAt alloc second j)
    (apart : ∀ index,
      ¬(holdsPage alloc first index = true ∧ holdsPage alloc second index = true)) :
    first.page.toNat + 4096 * first.cnt.toNat ≤ second.page.toNat ∨
      second.page.toNat + 4096 * second.cnt.toNat ≤ first.page.toNat := by
  have firstAddress := firstAt.address
  have secondAddress := secondAt.address
  have firstNonempty := firstAt.nonempty
  have secondNonempty := secondAt.nonempty
  have shared := apart (max i j)
  rw [firstAt.holds_iff, secondAt.holds_iff] at shared
  omega

/-- In every completed run of legal calls the bitmap marks exactly the pages of live blocks, live
blocks are disjoint ranges of managed memory, every legal release succeeds, and an empty heap has
an all-zero bitmap again. -/
theorem legal_run_keeps_bitmap_exact (prof : Profile) (map : List MemLayout)
    (initial start mem : Memory) (alloc : PageAllocator) (live : List Block)
    (created : PageAllocator.default prof map initial = some (alloc, start))
    (fits : alloc.baseAddr.toNat + alloc.bitmap.size.toNat * 4096 ≤ 0x100000000)
    (run : LegalRun prof alloc start live mem) :
    (∀ index, index < alloc.bitmap.size.toNat →
      (alloc.bitmap.bit mem index = true ↔ holders (holdsPage alloc) live index = 1)) ∧
    (live.Pairwise fun first second =>
      first.page.toNat + 4096 * first.cnt.toNat ≤ second.page.toNat ∨
        second.page.toNat + 4096 * second.cnt.toNat ≤ first.page.toNat) ∧
    (∀ block ∈ live, alloc.baseAddr.toNat ≤ block.page.toNat ∧
      block.page.toNat + 4096 * block.cnt.toNat ≤
        alloc.baseAddr.toNat + 4096 * alloc.bitmap.size.toNat) ∧
    (∀ block ∈ live, (alloc.freePage prof block.page block.cnt mem).isSome ∧
      ∀ layout, pagesFor prof layout.size = some block.cnt →
        (Allocator.dealloc prof alloc block.page layout mem).isSome) ∧
    (live = [] → ∀ index, index < (alloc.bitmap.size.toNat + 7) / 8 →
      mem (alloc.bitmap.byteAddr index) = 0) := by
  obtain ⟨reported, _, rfl, rfl⟩ := default_eq_some created
  have bounded := total_pages_lt reported
  have placed := placed_well _ bounded
  have accounted := run.accounted placed (by omega) (fresh_taken _ bounded initial)
  refine ⟨?_, ?_, ?_, ?_, ?_⟩
  · intro index inside
    have stored : index < 8 * (((placedAllocator (totalPages reported)).bitmap.size.toNat + 7) / 8) :=
      by omega
    have taken := accounted.exclusive.taken_iff index
    rwa [taken_pages_stored mem stored] at taken
  · apply accounted.exclusive.pairwise.imp_of_mem
    intro first second firstLive secondLive apart
    obtain ⟨i, firstAt⟩ := accounted.placed first firstLive
    obtain ⟨j, secondAt⟩ := accounted.placed second secondLive
    exact firstAt.ranges_disjoint secondAt apart
  · intro block member
    obtain ⟨idx, address, _, inside⟩ := accounted.placed block member
    omega
  · intro block member
    obtain ⟨released, freed, _⟩ := accounted.free_page prof placed member
    refine ⟨by rw [freed]; rfl, ?_⟩
    intro layout pages
    rw [dealloc_eq pages, freed]
    rfl
  · intro empty index stored
    subst empty
    exact accounted.all_zero index stored

theorem get_page_fresh (prof : Profile) (pages : Nat) (bounded : pages < 0x100000) (mem : Memory)
    (cnt : Usize) (nonempty : 1 ≤ cnt.toNat) (within : cnt.toNat ≤ pages - bitmapPages pages) :
    ∃ after, (placedAllocator pages).getPage prof cnt (freshMemory pages mem) =
      some (some (placedAllocator pages).baseAddr, after) := by
  have size := placed_size pages bounded
  have zero : (0 : Usize).toNat = 0 := rfl
  have clear : ∀ index, index < pages - bitmapPages pages →
      (placedAllocator pages).bitmap.bit (freshMemory pages mem) index = false := by
    intro index inside
    have stored : index < 8 * (((placedAllocator pages).bitmap.size.toNat + 7) / 8) := by omega
    have vacant := fresh_taken pages bounded mem index
    rwa [taken_pages_stored _ stored] at vacant
  have found : (placedAllocator pages).bitmap.find prof (freshMemory pages mem) 0 cnt false =
      some (some 0) := by
    apply find_eq_start
    · omega
    · intro i bound
      rw [zero, Nat.zero_add]
      exact ⟨by omega, clear i (by omega)⟩
  obtain ⟨after, flips, _⟩ := flips_spec prof (placedAllocator pages).bitmap 0 cnt
    (freshMemory pages mem) (by omega)
  have offset : prof.mul (0 : Usize) 4096 = some 0 := mul_exact prof 0 4096 (by decide)
  have address : prof.add (placedAllocator pages).baseAddr 0 =
      some (placedAllocator pages).baseAddr := by
    rw [add_exact prof _ _ (by omega), BitVec.ofNat_eq_ofNat, BitVec.add_zero]
  refine ⟨after, ?_⟩
  simp only [PageAllocator.getPage, found, Option.bind_eq_bind, Option.bind_some, flips, offset,
    address]

def sampleMap : List MemLayout := sampleResponses.map fun response => layoutOf response.record

theorem sample_default (prof : Profile) (mem : Memory) :
    PageAllocator.default prof sampleMap mem =
      some (placedAllocator 7936, freshMemory 7936 mem) := by
  have reported : availableMemSize prof sampleMap = some 0x1f00000 := by cases prof <;> decide
  exact default_eq reported mem

theorem sample_bitmap_exact_after_get_page :
    ∃ mem, LegalRun .debug (placedAllocator 7936) (freshMemory 7936 fun _ => 0xff)
        [{ page := (placedAllocator 7936).baseAddr, cnt := 3 }] mem ∧
      ∀ index, index < (placedAllocator 7936).bitmap.size.toNat →
        ((placedAllocator 7936).bitmap.bit mem index = true ↔
          holders (holdsPage (placedAllocator 7936))
            [{ page := (placedAllocator 7936).baseAddr, cnt := 3 }] index = 1) := by
  obtain ⟨mem, completed⟩ := get_page_fresh .debug 7936 (by decide) (fun _ => 0xff) 3
    (by decide) (by decide)
  have run := LegalRun.getPage LegalRun.created (by decide : 1 ≤ (3 : Usize).toNat) completed
  exact ⟨mem, run, (legal_run_keeps_bitmap_exact .debug sampleMap (fun _ => 0xff) _ mem _ _
    (sample_default .debug _) (by decide) run).1⟩

end RondOS.PageAlloc
