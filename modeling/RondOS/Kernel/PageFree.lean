import RondOS.Kernel.PageFootprint

/-!
# Releasing pages is all or nothing

`free_page` checks a run of bits and then flips it, in two loops with their own bound assertions.
The index comes from a subtraction that wraps in a release build. To see that a failed call leaves
no half-cleared run behind, the call is modelled with the memory that an abort leaves.
-/

namespace RondOS.PageFree

open ByteMemory RustWord Footprint MemLayoutView PageBitmap BitArray PageAlloc PageFootprint

set_option autoImplicit false

/-- `free_page`, stopped by an assertion or an overflow check or run to its end. -/
def freePageAt (prof : Profile) (alloc : PageAllocator) (page cnt : Usize) (mem : Memory) :
    Except Memory Memory :=
  if page % 4096 = 0 then
    match prof.sub page alloc.baseAddr with
    | none => .error mem
    | some offset =>
        match alloc.bitmap.all prof mem (offset / 4096) cnt with
        | some true => alloc.bitmap.flipsAt prof (offset / 4096) cnt mem
        | _ => .error mem
  else .error mem

theorem free_page_at_eq_ok_iff (prof : Profile) (alloc : PageAllocator) (page cnt : Usize)
    (mem after : Memory) :
    freePageAt prof alloc page cnt mem = .ok after ↔
      alloc.freePage prof page cnt mem = some after := by
  unfold freePageAt PageAllocator.freePage
  split_ifs with aligned
  · cases prof.sub page alloc.baseAddr with
    | none => simp
    | some offset =>
        simp only [Option.bind_eq_bind, Option.bind_some]
        cases alloc.bitmap.all prof mem (offset / 4096) cnt with
        | none => simp
        | some owned =>
            cases owned with
            | false => simp
            | true => exact for_each_bit_at_eq_ok_iff prof _ _ _ _ _
  · simp

def pageIndex (alloc : PageAllocator) (page : Usize) : Nat :=
  (page - alloc.baseAddr).toNat / 4096

/-- The pointer is a page boundary in the managed range, and the pages from it on are all taken. -/
structure Releasable (prof : Profile) (alloc : PageAllocator) (page cnt : Usize) (mem : Memory) :
    Prop where
  aligned : page.toNat % 4096 = 0
  above : prof = .debug → alloc.baseAddr.toNat ≤ page.toNat
  taken : alloc.bitmap.IsRun mem true cnt.toNat (pageIndex alloc page)

structure Released (alloc : PageAllocator) (page cnt : Usize) (before after : Memory) : Prop where
  address : (alloc.baseAddr.toNat + 4096 * pageIndex alloc page) % 0x100000000 = page.toNat
  managed : pageIndex alloc page + cnt.toNat ≤ alloc.bitmap.size.toNat
  wasSet : ∀ index, pageIndex alloc page ≤ index → index < pageIndex alloc page + cnt.toNat →
    alloc.bitmap.bit before index = true
  nowClear : ∀ index, pageIndex alloc page ≤ index → index < pageIndex alloc page + cnt.toNat →
    alloc.bitmap.bit after index = false
  otherBits : ∀ index, index < 8 * byteCount alloc.bitmap →
    ¬(pageIndex alloc page ≤ index ∧ index < pageIndex alloc page + cnt.toNat) →
    alloc.bitmap.bit after index = alloc.bitmap.bit before index
  otherBytes : ∀ addr, addr ∉ bitmapBytes alloc.bitmap → after addr = before addr

section Call

variable (prof : Profile) (alloc : PageAllocator) (page cnt : Usize) (mem : Memory)

theorem page_aligned_iff : page % 4096 = 0 ↔ page.toNat % 4096 = 0 := by
  rw [← BitVec.toNat_inj, BitVec.toNat_umod]
  rfl

theorem index_value :
    ((page - alloc.baseAddr) / 4096).toNat = pageIndex alloc page := by
  rw [BitVec.toNat_udiv, pageIndex]
  rfl

theorem all_iff_run (nonempty : 1 ≤ cnt.toNat) :
    alloc.bitmap.all prof mem ((page - alloc.baseAddr) / 4096) cnt = some true ↔
      alloc.bitmap.IsRun mem true cnt.toNat (pageIndex alloc page) := by
  rw [all_eq_true_iff, index_value]
  constructor
  · intro accepted
    constructor
    · have last := (accepted (cnt.toNat - 1) (by omega)).1
      omega
    · intro index lower upper
      have bit := (accepted (index - pageIndex alloc page) (by omega)).2
      rwa [Nat.add_sub_cancel' lower] at bit
  · intro run i bound
    have inside := run.inside
    exact ⟨by omega, run.uniform _ (by omega) (by omega)⟩

theorem flips_at_of_run (run : alloc.bitmap.IsRun mem true cnt.toNat (pageIndex alloc page)) :
    ∃ after, alloc.bitmap.flipsAt prof ((page - alloc.baseAddr) / 4096) cnt mem = .ok after ∧
      BitsChanged alloc.bitmap (fun bit => !bit) (pageIndex alloc page) cnt.toNat mem after := by
  have value := index_value alloc page
  obtain ⟨after, flips, changed⟩ := flips_spec prof alloc.bitmap
    ((page - alloc.baseAddr) / 4096) cnt mem (by rw [value]; exact run.inside)
  rw [value] at changed
  exact ⟨after, (for_each_bit_at_eq_ok_iff prof _ _ _ _ _).mpr flips, changed⟩

/-- Everything the call can do: stop before the first write, or flip a run of set bits. -/
theorem free_page_at_cases (nonempty : 1 ≤ cnt.toNat) :
    (¬Releasable prof alloc page cnt mem ∧ freePageAt prof alloc page cnt mem = .error mem) ∨
      (Releasable prof alloc page cnt mem ∧
        ∃ after, freePageAt prof alloc page cnt mem = .ok after ∧
          BitsChanged alloc.bitmap (fun bit => !bit) (pageIndex alloc page) cnt.toNat mem
            after) := by
  have accepts := all_iff_run prof alloc page cnt mem nonempty
  by_cases aligned : page % 4096 = 0
  · by_cases below : prof = .debug ∧ page.toNat < alloc.baseAddr.toNat
    · have underflow : prof.sub page alloc.baseAddr = none := if_pos below
      left
      constructor
      · intro releasable
        exact absurd (releasable.above below.1) (Nat.not_le.mpr below.2)
      · rw [freePageAt, if_pos aligned, underflow]
    · have offset : prof.sub page alloc.baseAddr = some (page - alloc.baseAddr) := if_neg below
      have opened : freePageAt prof alloc page cnt mem =
          match alloc.bitmap.all prof mem ((page - alloc.baseAddr) / 4096) cnt with
          | some true => alloc.bitmap.flipsAt prof ((page - alloc.baseAddr) / 4096) cnt mem
          | _ => .error mem := by
        rw [freePageAt, if_pos aligned, offset]
      by_cases run : alloc.bitmap.IsRun mem true cnt.toNat (pageIndex alloc page)
      · obtain ⟨after, flips, changed⟩ := flips_at_of_run prof alloc page cnt mem run
        rw [accepts.mpr run] at opened
        right
        refine ⟨⟨(page_aligned_iff page).mp aligned, ?_, run⟩, after, opened.trans flips, changed⟩
        intro debug
        exact Nat.not_lt.mp fun lower => below ⟨debug, lower⟩
      · left
        refine ⟨fun releasable => run releasable.taken, ?_⟩
        rw [opened]
        split
        · rename_i accepted
          exact absurd (accepts.mp accepted) run
        · rfl
  · left
    constructor
    · intro releasable
      exact aligned ((page_aligned_iff page).mpr releasable.aligned)
    · rw [freePageAt, if_neg aligned]

end Call

theorem index_address {alloc : PageAllocator} {page : Usize}
    (baseAligned : alloc.baseAddr.toNat % 4096 = 0) (aligned : page.toNat % 4096 = 0) :
    (alloc.baseAddr.toNat + 4096 * pageIndex alloc page) % 0x100000000 = page.toNat := by
  have baseWord := alloc.baseAddr.isLt
  have pageWord := page.isLt
  rw [pageIndex, BitVec.toNat_sub]
  omega

theorem released_of_changed {prof : Profile} {alloc : PageAllocator} {page cnt : Usize}
    {mem after : Memory} (baseAligned : alloc.baseAddr.toNat % 4096 = 0)
    (releasable : Releasable prof alloc page cnt mem)
    (changed : BitsChanged alloc.bitmap (fun bit => !bit) (pageIndex alloc page) cnt.toNat mem
      after) :
    Released alloc page cnt mem after where
  address := index_address baseAligned releasable.aligned
  managed := releasable.taken.inside
  wasSet := releasable.taken.uniform
  nowClear := by
    intro index lower upper
    rw [changed.inside index lower upper, releasable.taken.uniform index lower upper, Bool.not_true]
  otherBits := by
    intro index stored away
    have word := alloc.bitmap.size.isLt
    unfold byteCount at stored
    exact changed.outside index (by omega) away
  otherBytes := by
    intro addr outside
    apply (keeps_rest_of_changed releasable.taken.inside changed).outside
    intro index stored same
    exact outside ⟨index, stored, same⟩

theorem Released.not_again {prof : Profile} {alloc : PageAllocator} {page cnt : Usize}
    {mem after : Memory} (nonempty : 1 ≤ cnt.toNat)
    (released : Released alloc page cnt mem after) : ¬Releasable prof alloc page cnt after := by
  intro releasable
  have set := releasable.taken.uniform _ (Nat.le_refl _) (by omega)
  rw [released.nowClear _ (Nat.le_refl _) (by omega)] at set
  cases set

/-- Whatever the bitmap holds and whatever pointer comes in: an aborted release has changed
nothing, a completed one has cleared exactly the named run of set bits, the update cannot fail after
the check, and the same release again aborts. -/
theorem free_page_all_or_nothing (prof : Profile) (map : List MemLayout) (initial start : Memory)
    (alloc : PageAllocator) (created : PageAllocator.default prof map initial = some (alloc, start))
    (mem : Memory) (page cnt : Usize) (nonempty : 1 ≤ cnt.toNat) :
    (∀ final, freePageAt prof alloc page cnt mem = .error final →
      final = mem ∧ ¬Releasable prof alloc page cnt mem) ∧
    (∀ after, freePageAt prof alloc page cnt mem = .ok after →
      Releasable prof alloc page cnt mem ∧ Released alloc page cnt mem after ∧
        freePageAt prof alloc page cnt after = .error after) ∧
    (∀ pidx, alloc.bitmap.all prof mem pidx cnt = some true →
      ∃ after, alloc.bitmap.flipsAt prof pidx cnt mem = .ok after) ∧
    (Releasable prof alloc page cnt mem →
      ∃ after, freePageAt prof alloc page cnt mem = .ok after) := by
  obtain ⟨reported, _, rfl, _⟩ := default_eq_some created
  have baseAligned := (placed_well _ (total_pages_lt reported)).aligned
  generalize placedAllocator (totalPages reported) = alloc at baseAligned
  have cases := free_page_at_cases prof alloc page cnt mem nonempty
  refine ⟨?_, ?_, ?_, ?_⟩
  · intro final aborted
    rcases cases with ⟨refused, stopped⟩ | ⟨_, after, completed, _⟩
    · rw [stopped] at aborted
      exact ⟨(Except.error.inj aborted).symm, refused⟩
    · rw [completed] at aborted
      cases aborted
  · intro after completed
    rcases cases with ⟨_, stopped⟩ | ⟨releasable, flipped, ran, changed⟩
    · rw [stopped] at completed
      cases completed
    · rw [ran] at completed
      cases completed
      have released := released_of_changed baseAligned releasable changed
      refine ⟨releasable, released, ?_⟩
      rcases free_page_at_cases prof alloc page cnt after nonempty with
        ⟨_, stopped⟩ | ⟨again, _⟩
      · exact stopped
      · exact absurd again (released.not_again nonempty)
  · intro pidx accepted
    rw [all_eq_true_iff] at accepted
    have last := (accepted (cnt.toNat - 1) (by omega)).1
    obtain ⟨after, flips, _⟩ := flips_spec prof alloc.bitmap pidx cnt mem (by omega)
    exact ⟨after, (for_each_bit_at_eq_ok_iff prof _ _ _ _ _).mpr flips⟩
  · intro releasable
    rcases cases with ⟨refused, _⟩ | ⟨_, after, completed, _⟩
    · exact absurd releasable refused
    · exact ⟨after, completed⟩

/-- On a machine with every bitmap byte set, a release of two pages completes once. -/
theorem sample_release_completes_once :
    PageAllocator.default .debug sampleMap (fun _ => 0xff) =
        some (placedAllocator 7936, freshMemory 7936 fun _ => 0xff) ∧
      ∃ after, freePageAt .debug (placedAllocator 7936) 0xc0104000 2 (fun _ => 0xff) = .ok after ∧
        Released (placedAllocator 7936) 0xc0104000 2 (fun _ => 0xff) after ∧
        freePageAt .debug (placedAllocator 7936) 0xc0104000 2 after = .error after := by
  have releasable : Releasable .debug (placedAllocator 7936) 0xc0104000 2 fun _ => 0xff := by
    refine ⟨by decide, fun _ => by decide, by decide, ?_⟩
    intro index _ _
    have everySet : ∀ position : Fin 8, (0xff : Byte).getLsbD position = true := by decide
    exact everySet ⟨index % 8, Nat.mod_lt _ (by decide)⟩
  obtain ⟨_, completes, _, runs⟩ := free_page_all_or_nothing .debug sampleMap (fun _ => 0xff) _ _
    (sample_default .debug _) (fun _ => 0xff) 0xc0104000 2 (by decide)
  obtain ⟨after, completed⟩ := runs releasable
  exact ⟨sample_default .debug _, after, completed, (completes after completed).2⟩

end RondOS.PageFree
