import RondOS.Kernel.PageSafety
import Mathlib.Order.Bounds.Basic

/-!
# First fit, exhaustion and the allocation contract

The search is exact whenever it has something to find: the scan from a position before the first
fit ends inside the bitmap. With nothing to find it is the free tail of the bitmap that decides,
because the scan then probes the index behind the last bit.
-/

namespace RondOS.PageContract

open ByteMemory RustWord PageBitmap PageAlloc PageSafety AvailableMem MemLayoutView

set_option autoImplicit false

def runs (bits : BitMap) (mem : Memory) (val : Bool) (start len : Nat) : Set Nat :=
  { first | start ≤ first ∧ bits.IsRun mem val len first }

def freeRuns (alloc : PageAllocator) (mem : Memory) (cnt : Nat) : Set Nat :=
  runs alloc.bitmap mem false 0 cnt

theorem mem_free_runs {alloc : PageAllocator} {mem : Memory} {cnt first : Nat} :
    first ∈ freeRuns alloc mem cnt ↔ alloc.bitmap.IsRun mem false cnt first :=
  and_iff_right (Nat.zero_le first)

theorem exists_least_run {bits : BitMap} {mem : Memory} {val : Bool} {start len : Nat}
    (inhabited : (runs bits mem val start len).Nonempty) :
    ∃ idx : Usize, IsLeast (runs bits mem val start len) idx.toNat := by
  classical
  have word := bits.size.isLt
  have found := Nat.find_spec inhabited
  have inside := found.2.inside
  refine ⟨BitVec.ofNat 32 (Nat.find inhabited), ?_⟩
  rw [BitVec.toNat_ofNat, Nat.mod_eq_of_lt (by omega)]
  exact ⟨found, fun first member => Nat.find_min' inhabited member⟩

theorem find_of_least (prof : Profile) {bits : BitMap} {mem : Memory} {start len idx : Usize}
    {val : Bool} (nonempty : 1 ≤ len.toNat)
    (least : IsLeast (runs bits mem val start.toNat len.toNat) idx.toNat) :
    bits.find prof mem start len val = some (some idx) := by
  apply find_eq_least prof nonempty least.1.1 least.1.2
  intro earlier above below run
  exact absurd (least.2 ⟨above, run⟩) (Nat.not_le.mpr below)

theorem get_page_of_least (prof : Profile) (alloc : PageAllocator) {mem : Memory} {cnt idx : Usize}
    (nonempty : 1 ≤ cnt.toNat) (least : IsLeast (freeRuns alloc mem cnt.toNat) idx.toNat)
    (word : alloc.baseAddr.toNat + 4096 * idx.toNat < 0x100000000) :
    ∃ page after, alloc.getPage prof cnt mem = some (some page, after) ∧
      page.toNat = alloc.baseAddr.toNat + 4096 * idx.toNat ∧
      BitsChanged alloc.bitmap (fun bit => !bit) idx.toNat cnt.toNat mem after := by
  have found : alloc.bitmap.find prof mem 0 cnt false = some (some idx) :=
    find_of_least prof nonempty least
  obtain ⟨after, flips, changed⟩ :=
    flips_spec prof alloc.bitmap idx cnt mem (mem_free_runs.mp least.1).inside
  have page : (4096 : Usize).toNat = 4096 := rfl
  have scaled : (idx * 4096).toNat = idx.toNat * 4096 := by
    rw [BitVec.toNat_mul, page, Nat.mod_eq_of_lt (by omega)]
  refine ⟨alloc.baseAddr + idx * 4096, after, ?_, ?_, changed⟩
  · simp only [PageAllocator.getPage, found, Option.bind_eq_bind, Option.bind_some, flips,
      mul_exact prof idx 4096 (by rw [page]; omega),
      add_exact prof alloc.baseAddr (idx * 4096) (by omega)]
  · rw [BitVec.toNat_add_of_lt (by omega), scaled, Nat.mul_comm]

/-- The search returns the least run whenever there is one, and `get_page` takes exactly its pages,
in debug and release builds, for every content of the bitmap. -/
theorem first_fit_is_least (prof : Profile) (bits : BitMap) (mem : Memory) :
    (∀ (start len : Usize) (val : Bool), 1 ≤ len.toNat →
      (∃ first, start.toNat ≤ first ∧ first + len.toNat ≤ bits.size.toNat ∧
        ∀ index, first ≤ index → index < first + len.toNat → bits.bit mem index = val) →
      ∃ idx : Usize, bits.find prof mem start len val = some (some idx) ∧
        IsLeast (runs bits mem val start.toNat len.toNat) idx.toNat) ∧
    (∀ baseAddr cnt : Usize, 1 ≤ cnt.toNat →
      (∃ first, first + cnt.toNat ≤ bits.size.toNat ∧
        ∀ index, first ≤ index → index < first + cnt.toNat → bits.bit mem index = false) →
      baseAddr.toNat + 4096 * bits.size.toNat ≤ 0x100000000 →
      ∃ first page after, IsLeast (runs bits mem false 0 cnt.toNat) first ∧
        PageAllocator.getPage prof { bitmap := bits, baseAddr } cnt mem =
          some (some page, after) ∧
        page.toNat = baseAddr.toNat + 4096 * first ∧
        (∀ index, first ≤ index → index < first + cnt.toNat →
          bits.bit mem index = false ∧ bits.bit after index = true) ∧
        (∀ index, index < 0x100000000 → ¬(first ≤ index ∧ index < first + cnt.toNat) →
          bits.bit after index = bits.bit mem index) ∧
        ∀ addr, (∀ index, first ≤ index → index < first + cnt.toNat →
          addr ≠ bits.byteAddr (index / 8)) → after addr = mem addr) := by
  constructor
  · intro start len val nonempty available
    obtain ⟨first, above, inside, uniform⟩ := available
    obtain ⟨idx, least⟩ := exists_least_run ⟨first, above, inside, uniform⟩
    exact ⟨idx, find_of_least prof nonempty least, least⟩
  · intro baseAddr cnt nonempty available fits
    obtain ⟨first, inside, uniform⟩ := available
    obtain ⟨idx, least⟩ := exists_least_run ⟨first, Nat.zero_le first, inside, uniform⟩
    have run := least.1.2
    have bound := run.inside
    obtain ⟨page, after, got, address, changed⟩ :=
      get_page_of_least prof { bitmap := bits, baseAddr } nonempty least (by dsimp only; omega)
    refine ⟨idx.toNat, page, after, least, got, address, ?_, changed.outside, changed.frame⟩
    intro index lower upper
    have clear := run.uniform index lower upper
    rw [changed.inside index lower upper, clear]
    exact ⟨rfl, rfl⟩

def threePages : BitMap where
  dataPtr := 0xc0100000
  size := 3

theorem first_fit_skips_taken_page :
    (∃ idx : Usize, threePages.find .debug (fun _ => 1) 0 2 false = some (some idx) ∧
      IsLeast (runs threePages (fun _ => 1) false 0 2) idx.toNat) ∧
    ∃ first page after, IsLeast (runs threePages (fun _ => 1) false 0 2) first ∧
      PageAllocator.getPage .debug { bitmap := threePages, baseAddr := 0xc0101000 } 2
        (fun _ => 1) = some (some page, after) ∧ page.toNat = 0xc0101000 + 4096 * first := by
  have clear : ∀ index, 1 ≤ index → index < 1 + 2 →
      threePages.bit (fun _ => 1) index = false := by
    intro index lower upper
    have choices : index = 1 ∨ index = 2 := by omega
    rcases choices with rfl | rfl
    · decide
    · decide
  obtain ⟨search, take⟩ := first_fit_is_least .debug threePages fun _ => 1
  have taken := take 0xc0101000 2 (by decide) ⟨1, by decide, clear⟩ (by decide)
  obtain ⟨first, page, after, least, got, address, _⟩ := taken
  exact ⟨search 0 2 false (by decide) ⟨1, by decide, by decide, clear⟩,
    first, page, after, least, got, address⟩

section Exhausted

variable (prof : Profile) {bits : BitMap} {mem : Memory} {len : Usize} {val : Bool}

theorem find_no_position (nonempty : 1 ≤ len.toNat)
    (missing : ∀ first, ¬bits.IsRun mem val len.toNat first) {idx : Usize} :
    bits.find prof mem 0 len val ≠ some (some idx) := by
  intro searched
  obtain ⟨_, _, run⟩ := find_eq_some searched
  have top := (run (len.toNat - 1) (by omega)).1
  apply missing idx.toNat
  refine ⟨by omega, ?_⟩
  intro index lower upper
  have bit := (run (index - idx.toNat) (by omega)).2
  rwa [Nat.add_sub_cancel' lower] at bit

theorem find_stopped (missing : ∀ first, ¬bits.IsRun mem val len.toNat first)
    (stopped : bits.size.toNat = 0 ∨ bits.bit mem (bits.size.toNat - 1) = !val) :
    bits.find prof mem 0 len val = some none := by
  apply (findM?_eq_some_none_iff _ _).mpr
  intro start listed
  have bound := (mem_word_range.mp listed).2
  have answer : bits.contains prof mem start len (!val) = some true := by
    by_cases inside : start.toNat + len.toNat ≤ bits.size.toNat
    · exact contains_eq_true_of_not_run prof inside (missing start.toNat)
    · have last : start.toNat + (bits.size.toNat - 1 - start.toNat) = bits.size.toNat - 1 := by
        omega
      rw [contains_eq_true_iff]
      refine ⟨bits.size.toNat - 1 - start.toNat, by omega, by omega, ?_⟩
      rw [last]
      exact stopped.resolve_left (by omega)
  simp [answer]

theorem stopped_of_find {prof : Profile} (searched : bits.find prof mem 0 len val = some none) :
    bits.size.toNat = 0 ∨ bits.bit mem (bits.size.toNat - 1) = !val := by
  have sizeWord := bits.size.isLt
  by_cases empty : bits.size.toNat = 0
  · exact Or.inl empty
  have value : (BitVec.ofNat 32 (bits.size.toNat - 1)).toNat = bits.size.toNat - 1 := by
    rw [BitVec.toNat_ofNat, Nat.mod_eq_of_lt (by omega)]
  have scanned := (findM?_eq_some_none_iff _ _).mp searched (BitVec.ofNat 32 (bits.size.toNat - 1))
    (mem_word_range.mpr ⟨Nat.zero_le _, by omega⟩)
  have hit : bits.contains prof mem (BitVec.ofNat 32 (bits.size.toNat - 1)) len (!val) =
      some true := by
    cases answer : bits.contains prof mem (BitVec.ofNat 32 (bits.size.toNat - 1)) len (!val) with
    | none => simp [answer] at scanned
    | some other => simpa [answer] using scanned
  obtain ⟨i, _, inside, bit⟩ := (contains_eq_true_iff ..).mp hit
  rw [value] at inside bit
  have first : i = 0 := by omega
  subst first
  exact Or.inr bit

/-- With no run to find the search comes back empty-handed only if the last bit stops every scan. -/
theorem find_exhausted (nonempty : 1 ≤ len.toNat)
    (missing : ∀ first, ¬bits.IsRun mem val len.toNat first) :
    bits.find prof mem 0 len val =
      if bits.size.toNat = 0 ∨ bits.bit mem (bits.size.toNat - 1) = !val then some none else none := by
  split_ifs with stopped
  · exact find_stopped prof missing stopped
  · cases searched : bits.find prof mem 0 len val with
    | none => rfl
    | some result =>
        cases result with
        | none => exact absurd (stopped_of_find searched) stopped
        | some idx => exact absurd searched (find_no_position prof nonempty missing)

end Exhausted

theorem get_page_exhausted (prof : Profile) {alloc : PageAllocator} {mem : Memory} {cnt : Usize}
    (nonempty : 1 ≤ cnt.toNat)
    (missing : ∀ first, ¬alloc.bitmap.IsRun mem false cnt.toNat first) :
    alloc.getPage prof cnt mem =
      if alloc.bitmap.size.toNat = 0 ∨
          alloc.bitmap.bit mem (alloc.bitmap.size.toNat - 1) = true then some (none, mem)
      else none := by
  have searched := find_exhausted prof nonempty missing
  rw [Bool.not_false] at searched
  split_ifs with stopped
  · simp only [PageAllocator.getPage, searched, if_pos stopped, Option.bind_eq_bind,
      Option.bind_some]
  · simp only [PageAllocator.getPage, searched, if_neg stopped, Option.bind_eq_bind,
      Option.bind_none]

/-- An exhausted allocator answers `None` exactly when the last managed page is taken, or there is
no managed page. In every other exhausted state the search fails an assertion. -/
theorem exhausted_get_page_none_iff (prof : Profile) (alloc : PageAllocator) (mem : Memory)
    (cnt : Usize) (nonempty : 1 ≤ cnt.toNat)
    (exhausted : ¬∃ first, first + cnt.toNat ≤ alloc.bitmap.size.toNat ∧
      ∀ index, first ≤ index → index < first + cnt.toNat → alloc.bitmap.bit mem index = false) :
    alloc.getPage prof cnt mem = some (none, mem) ↔
      alloc.bitmap.size.toNat = 0 ∨
        alloc.bitmap.bit mem (alloc.bitmap.size.toNat - 1) = true := by
  rw [get_page_exhausted prof nonempty fun first run =>
    exhausted ⟨first, run.inside, run.uniform⟩]
  split_ifs with stopped
  · exact iff_of_true rfl stopped
  · exact iff_of_false (by simp) stopped

theorem exhausted_with_last_page_taken :
    (¬∃ first, first + 3 ≤ threePages.size.toNat ∧
      ∀ index, first ≤ index → index < first + 3 → threePages.bit (fun _ => 4) index = false) ∧
    PageAllocator.getPage .debug { bitmap := threePages, baseAddr := 0xc0101000 } 3
      (fun _ => 4) = some (none, fun _ => 4) := by
  have exhausted : ¬∃ first, first + 3 ≤ threePages.size.toNat ∧
      ∀ index, first ≤ index → index < first + 3 →
        threePages.bit (fun _ => 4) index = false := by
    intro run
    rcases run with ⟨first, inside, clear⟩
    have size : threePages.size.toNat = 3 := rfl
    exact absurd (clear 2 (by omega) (by omega)) (by decide)
  exact ⟨exhausted, (exhausted_get_page_none_iff .debug
    { bitmap := threePages, baseAddr := 0xc0101000 } (fun _ => 4) 3 (by decide)
    exhausted).mpr (Or.inr (by decide))⟩

theorem oversized_request_aborts :
    ¬∀ (prof : Profile) (alloc : PageAllocator) (mem : Memory) (cnt : Usize), 1 ≤ cnt.toNat →
      (¬∃ first, first + cnt.toNat ≤ alloc.bitmap.size.toNat ∧
        ∀ index, first ≤ index → index < first + cnt.toNat →
          alloc.bitmap.bit mem index = false) →
      alloc.getPage prof cnt mem = some (none, mem) := by
  intro answers
  have exhausted : ∀ first, ¬threePages.IsRun (fun _ => 0) false (4 : Usize).toNat first := by
    intro first run
    have inside := run.inside
    have size : threePages.size.toNat = 3 := rfl
    have count : (4 : Usize).toNat = 4 := rfl
    omega
  have answered := answers .release { bitmap := threePages, baseAddr := 0xc0101000 } (fun _ => 0) 4
    (by decide) fun run => by
      rcases run with ⟨first, inside, clear⟩
      exact exhausted first ⟨inside, clear⟩
  rw [get_page_exhausted .release (by decide) exhausted, if_neg (by decide)] at answered
  cases answered

/-- Consecutive managed pages from `ptr` on, free in `mem` and below the end of the address space,
of `size` bytes or more. -/
def StartsFreeBlock (alloc : PageAllocator) (mem : Memory) (ptr size : Nat) : Prop :=
  ∃ first cnt, ptr = alloc.baseAddr.toNat + 4096 * first ∧ size ≤ 4096 * cnt ∧
    alloc.bitmap.IsRun mem false cnt first ∧
    alloc.baseAddr.toNat + 4096 * (first + cnt) ≤ 0x100000000

/-- What `GlobalAlloc` asks of one call of `alloc`, with the page count computed exactly. -/
def AllocContract (prof : Profile) (alloc : PageAllocator) (layout : Layout) (mem : Memory) :
    Prop :=
  layout.size.toNat + 4095 < 0x100000000 ∧
    ∃ ptr after, Allocator.alloc prof alloc layout mem = some (ptr, after) ∧
      ((ptr = 0 ∧ after = mem) ∨
        (layout.align.toNat ∣ ptr.toNat ∧
          StartsFreeBlock alloc mem ptr.toNat layout.size.toNat))

def FitsFirst (alloc : PageAllocator) (layout : Layout) (mem : Memory) : Prop :=
  ∃ first, IsLeast (freeRuns alloc mem ((layout.size.toNat + 4095) / 4096)) first ∧
    alloc.baseAddr.toNat + 4096 * (first + (layout.size.toNat + 4095) / 4096) ≤ 0x100000000 ∧
    layout.align.toNat ∣ alloc.baseAddr.toNat + 4096 * first

theorem get_page_changes {prof : Profile} {alloc : PageAllocator} {mem : Memory}
    {cnt page : Usize} (nonempty : 1 ≤ cnt.toNat) :
    alloc.getPage prof cnt mem ≠ some (some page, mem) := by
  intro got
  obtain ⟨idx, found, flips, _⟩ := get_page_some got
  obtain ⟨_, inside, _⟩ := found_run found
  obtain ⟨after, ran, changed⟩ := flips_spec prof alloc.bitmap idx cnt mem inside
  rw [flips] at ran
  cases ran
  have bit := changed.inside idx.toNat (Nat.le_refl _) (by omega)
  cases value : alloc.bitmap.bit mem idx.toNat <;> simp [value] at bit

theorem fits_first_of_contract {prof : Profile} {alloc : PageAllocator} {layout : Layout}
    {mem : Memory} {cnt : Usize} (pages : pagesFor prof layout.size = some cnt)
    (count : cnt.toNat = (layout.size.toNat + 4095) / 4096) (nonempty : 1 ≤ cnt.toNat)
    (contract : AllocContract prof alloc layout mem) : FitsFirst alloc layout mem := by
  obtain ⟨_, ptr, after, completed, result⟩ := contract
  have got := alloc_eq_some pages completed
  rcases result with ⟨_, same⟩ | ⟨aligned, first, wide, address, enough, run, top⟩
  · subst same
    exact absurd got (get_page_changes nonempty)
  · -- the block is the first fit: the returned address names its first page
    have narrowed : first ∈ freeRuns alloc mem cnt.toNat := by
      have inside := run.inside
      exact mem_free_runs.mpr ⟨by omega,
        fun index lower upper => run.uniform index lower (by omega)⟩
    obtain ⟨idx, least⟩ := exists_least_run ⟨first, narrowed⟩
    have before := least.2 narrowed
    obtain ⟨page, taken, again, exactAddress, _⟩ :=
      get_page_of_least prof alloc nonempty least (by omega)
    rw [got] at again
    cases again
    have same : first = idx.toNat := by omega
    subst same
    refine ⟨idx.toNat, by rwa [← count], by omega, ?_⟩
    rwa [← address]

theorem contract_of_fits_first (prof : Profile) {alloc : PageAllocator} {layout : Layout}
    {mem : Memory} {cnt : Usize} (pages : pagesFor prof layout.size = some cnt)
    (count : cnt.toNat = (layout.size.toNat + 4095) / 4096) (nonempty : 1 ≤ cnt.toNat)
    (small : layout.size.toNat ≤ 0x7fffffff) (fits : FitsFirst alloc layout mem) :
    AllocContract prof alloc layout mem := by
  obtain ⟨first, least, top, aligned⟩ := fits
  rw [← count] at least top
  have run := mem_free_runs.mp least.1
  obtain ⟨idx, leastIdx⟩ := exists_least_run ⟨first, least.1⟩
  have same : idx.toNat = first := leastIdx.unique least
  subst same
  obtain ⟨page, after, got, address, _⟩ := get_page_of_least prof alloc nonempty least (by omega)
  refine ⟨by omega, page, after, ?_, Or.inr ⟨by rwa [address], idx.toNat, cnt.toNat, address,
    by omega, run, top⟩⟩
  simp only [Allocator.alloc, pages, got, Option.bind_eq_bind, Option.bind_some]

/-- In every state of every allocator, reachable ones included, and for every valid layout `alloc`
keeps the contract exactly when a first fit exists, lies below 4 GiB and happens to be aligned. -/
theorem alloc_contract_iff (prof : Profile) (alloc : PageAllocator) (mem : Memory)
    (layout : Layout) (valid : ValidLayout layout) :
    AllocContract prof alloc layout mem ↔ FitsFirst alloc layout mem := by
  have small := valid.size_le
  have positive := valid.nonempty
  obtain ⟨cnt, pages, count⟩ := pages_for_exact prof small
  have nonempty : 1 ≤ cnt.toNat := by omega
  exact ⟨fits_first_of_contract pages count nonempty,
    contract_of_fits_first prof pages count nonempty small⟩

theorem fresh_first_page (mem : Memory) :
    IsLeast (freeRuns (placedAllocator 7936) (freshMemory 7936 mem) 1) 0 := by
  refine ⟨mem_free_runs.mpr ⟨by decide, ?_⟩, fun first _ => Nat.zero_le first⟩
  intro index _ upper
  have vacant := fresh_taken 7936 (by decide) mem index
  have size : (placedAllocator 7936).bitmap.size.toNat = 7935 := by decide
  rwa [taken_pages_stored _ (by omega)] at vacant

theorem word_layout_meets_contract :
    ValidLayout { size := 4, align := 4 } ∧
      AllocContract .release (placedAllocator 7936) { size := 4, align := 4 }
        (freshMemory 7936 fun _ => 0) := by
  have valid : ValidLayout { size := 4, align := 4 } := ⟨by decide, ⟨2, by decide⟩, by decide⟩
  exact ⟨valid, (alloc_contract_iff .release (placedAllocator 7936) _ _ valid).mpr
    ⟨0, fresh_first_page _, by decide, by decide⟩⟩

/-- The managed pages of a fresh 32 MiB machine start at an odd page, so two-page alignment fails. -/
theorem page_aligned_only :
    ¬∀ (prof : Profile) (map : List MemLayout) (initial start mem : Memory)
      (alloc : PageAllocator), PageAllocator.default prof map initial = some (alloc, start) →
      Reachable prof alloc start mem → ∀ layout, ValidLayout layout →
        AllocContract prof alloc layout mem := by
  intro keeps
  have valid : ValidLayout { size := 1, align := 8192 } := ⟨by decide, ⟨13, by decide⟩, by decide⟩
  have contract := keeps .release sampleMap (fun _ => 0) _ _ _ (sample_default .release _)
    Reachable.created _ valid
  obtain ⟨cnt, pages, count⟩ := pages_for_exact .release valid.size_le
  obtain ⟨first, least, _, aligned⟩ := fits_first_of_contract pages count
    (by rw [count]; decide) contract
  have zero : first = 0 := least.unique (fresh_first_page _)
  subst zero
  exact absurd aligned (by decide)

end RondOS.PageContract
