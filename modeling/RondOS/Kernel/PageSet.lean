import RondOS.Kernel.PageContract
import RondOS.Kernel.PageSafety
import RondOS.Lib.Simulation
import Mathlib.Data.Finset.Lattice.Basic
import Mathlib.Order.Interval.Finset.Nat

/-!
# The page allocator as a set of pages

Seen from its callers the allocator is a set of taken pages with two operations: first fit, and the
release of pages that are all taken. The bitmap implements the set for every sequence of calls,
sensible or not, with the same answers and the same aborts, from whatever the bytes of the bitmap
happen to be.
-/

namespace RondOS.PageSet

open ByteMemory RustWord PageBitmap PageAlloc PageSafety PageContract Simulation

set_option autoImplicit false

inductive Response where
  | page (result : Option Usize)
  | ptr (result : Usize)
  | done
  deriving DecidableEq

/-- A call with the answer its caller gets. -/
def respond (prof : Profile) (alloc : PageAllocator) (mem : Memory) :
    Call → Option (Response × Memory)
  | .getPage cnt => do
      let (result, mem) ← alloc.getPage prof cnt mem
      some (.page result, mem)
  | .freePage page cnt => do some (.done, ← alloc.freePage prof page cnt mem)
  | .alloc layout => do
      let (result, mem) ← Allocator.alloc prof alloc layout mem
      some (.ptr result, mem)
  | .dealloc ptr layout => do some (.done, ← Allocator.dealloc prof alloc ptr layout mem)

structure Pool where
  size : Nat
  baseAddr : Usize
  taken : Finset Nat

def Pool.Fits (pool : Pool) (cnt first : Nat) : Prop :=
  first + cnt ≤ pool.size ∧ ∀ index ∈ Finset.Ico first (first + cnt), index ∉ pool.taken

instance (pool : Pool) (cnt first : Nat) : Decidable (pool.Fits cnt first) :=
  inferInstanceAs (Decidable (_ ∧ _))

def Pool.firstFit (pool : Pool) (cnt : Nat) : Option Nat :=
  (List.range pool.size).find? fun first => decide (pool.Fits cnt first)

def Pool.take (pool : Pool) (first cnt : Nat) : Pool :=
  { pool with taken := pool.taken ∪ Finset.Ico first (first + cnt) }

def Pool.give (pool : Pool) (first cnt : Nat) : Pool :=
  { pool with taken := pool.taken \ Finset.Ico first (first + cnt) }

/-- Without a fit the search for one runs into the end of the pool unless the last page is taken. -/
def Pool.getPage (prof : Profile) (pool : Pool) (cnt : Usize) : Option (Option Usize × Pool) :=
  match pool.firstFit cnt.toNat with
  | some first => do
      let page ← prof.add pool.baseAddr (← prof.mul (BitVec.ofNat 32 first) 4096)
      some (some page, pool.take first cnt.toNat)
  | none => if pool.size = 0 ∨ pool.size - 1 ∈ pool.taken then some (none, pool) else none

def Pool.freePage (prof : Profile) (pool : Pool) (page cnt : Usize) : Option Pool :=
  if page % 4096 = 0 then do
    let first := ((← prof.sub page pool.baseAddr) / 4096).toNat
    if Finset.Ico first (first + cnt.toNat) ⊆ pool.taken then some (pool.give first cnt.toNat)
    else none
  else none

def Pool.respond (prof : Profile) (pool : Pool) : Call → Option (Response × Pool)
  | .getPage cnt => do
      let (result, pool) ← pool.getPage prof cnt
      some (.page result, pool)
  | .freePage page cnt => do some (.done, ← pool.freePage prof page cnt)
  | .alloc layout => do
      let (result, pool) ← pool.getPage prof (← pagesFor prof layout.size)
      some (.ptr (← result), pool)
  | .dealloc ptr layout => do
      some (.done, ← pool.freePage prof ptr (← pagesFor prof layout.size))

def poolOf (alloc : PageAllocator) (mem : Memory) : Pool where
  size := alloc.bitmap.size.toNat
  baseAddr := alloc.baseAddr
  taken := (Finset.range alloc.bitmap.size.toNat).filter fun index => alloc.bitmap.bit mem index

section Views

variable {prof : Profile} {alloc : PageAllocator} {mem after : Memory} {cnt first : Nat}

theorem mem_taken (alloc : PageAllocator) (mem : Memory) (index : Nat) :
    index ∈ (poolOf alloc mem).taken ↔
      index < alloc.bitmap.size.toNat ∧ alloc.bitmap.bit mem index = true := by
  rw [poolOf, Finset.mem_filter, Finset.mem_range]

theorem fits_iff_run :
    (poolOf alloc mem).Fits cnt first ↔ alloc.bitmap.IsRun mem false cnt first := by
  constructor
  · intro fits
    have inside : first + cnt ≤ alloc.bitmap.size.toNat := fits.1
    refine ⟨inside, ?_⟩
    intro index lower upper
    have free := fits.2 index (Finset.mem_Ico.mpr ⟨lower, upper⟩)
    rw [mem_taken] at free
    cases bit : alloc.bitmap.bit mem index with
    | false => rfl
    | true => exact absurd ⟨by omega, bit⟩ free
  · intro run
    refine ⟨run.inside, ?_⟩
    intro index range
    rw [Finset.mem_Ico] at range
    rw [mem_taken, run.uniform index range.1 range.2]
    simp

theorem first_fit_least {idx : Nat} (least : IsLeast (freeRuns alloc mem cnt) idx)
    (inside : idx < alloc.bitmap.size.toNat) : (poolOf alloc mem).firstFit cnt = some idx := by
  apply List.find?_range_eq_some.mpr
  refine ⟨?_, List.mem_range.mpr inside, ?_⟩
  · rw [decide_eq_true_eq, fits_iff_run]
    exact mem_free_runs.mp least.1
  · intro earlier before
    rw [Bool.not_eq_true', decide_eq_false_iff_not, fits_iff_run]
    intro run
    exact absurd (least.2 (mem_free_runs.mpr run)) (Nat.not_le.mpr before)

theorem first_fit_none (missing : ∀ first, ¬alloc.bitmap.IsRun mem false cnt first) :
    (poolOf alloc mem).firstFit cnt = none := by
  apply List.find?_eq_none.mpr
  intro first _ fits
  rw [decide_eq_true_eq, fits_iff_run] at fits
  exact missing first fits

theorem pool_taken (run : alloc.bitmap.IsRun mem false cnt first)
    (changed : BitsChanged alloc.bitmap (fun bit => !bit) first cnt mem after) :
    poolOf alloc after = (poolOf alloc mem).take first cnt := by
  have word := alloc.bitmap.size.isLt
  have inside := run.inside
  have same : (poolOf alloc after).taken =
      (poolOf alloc mem).taken ∪ Finset.Ico first (first + cnt) := by
    ext index
    rw [Finset.mem_union, Finset.mem_Ico, mem_taken, mem_taken]
    by_cases within : first ≤ index ∧ index < first + cnt
    · rw [changed.inside index within.1 within.2, run.uniform index within.1 within.2]
      simp only [within, and_self, or_true, Bool.not_false, and_true, iff_true]
      omega
    · by_cases managed : index < alloc.bitmap.size.toNat
      · rw [changed.outside index (by omega) within]
        simp [within]
      · simp [within, managed]
  rw [Pool.take, ← same]
  rfl

theorem pool_given (run : alloc.bitmap.IsRun mem true cnt first)
    (changed : BitsChanged alloc.bitmap (fun bit => !bit) first cnt mem after) :
    poolOf alloc after = (poolOf alloc mem).give first cnt := by
  have word := alloc.bitmap.size.isLt
  have inside := run.inside
  have same : (poolOf alloc after).taken =
      (poolOf alloc mem).taken \ Finset.Ico first (first + cnt) := by
    ext index
    rw [Finset.mem_sdiff, Finset.mem_Ico, mem_taken, mem_taken]
    by_cases within : first ≤ index ∧ index < first + cnt
    · rw [changed.inside index within.1 within.2, run.uniform index within.1 within.2]
      simp [within]
    · by_cases managed : index < alloc.bitmap.size.toNat
      · rw [changed.outside index (by omega) within]
        simp [within]
      · simp [managed]
  rw [Pool.give, ← same]
  rfl

end Views

theorem find_first_fit (prof : Profile) {alloc : PageAllocator} {mem : Memory} {cnt idx : Usize}
    (least : IsLeast (freeRuns alloc mem cnt.toNat) idx.toNat)
    (inside : idx.toNat < alloc.bitmap.size.toNat) :
    alloc.bitmap.find prof mem 0 cnt false = some (some idx) := by
  by_cases nonempty : 1 ≤ cnt.toNat
  · exact find_of_least prof nonempty least
  · have zero : idx = 0 := by
      have start : (0 : Nat) ∈ freeRuns alloc mem cnt.toNat := by
        apply mem_free_runs.mpr
        refine ⟨by omega, ?_⟩
        intro index lower upper
        omega
      apply BitVec.eq_of_toNat_eq
      exact Nat.le_zero.mp (least.2 start)
    subst zero
    apply find_eq_start prof _ _ _ _ _ inside
    intro i bound
    omega

theorem get_page_taken (prof : Profile) {alloc : PageAllocator} {mem : Memory} {cnt idx : Usize}
    (least : IsLeast (freeRuns alloc mem cnt.toNat) idx.toNat)
    (inside : idx.toNat < alloc.bitmap.size.toNat) :
    (alloc.getPage prof cnt mem).map (Prod.map id (poolOf alloc)) =
      (poolOf alloc mem).getPage prof cnt := by
  have run := mem_free_runs.mp least.1
  obtain ⟨after, flips, changed⟩ := flips_spec prof alloc.bitmap idx cnt mem run.inside
  have index : BitVec.ofNat 32 idx.toNat = idx := by simp
  have base : (poolOf alloc mem).baseAddr = alloc.baseAddr := rfl
  simp only [PageAllocator.getPage, find_first_fit prof least inside, flips, Pool.getPage,
    first_fit_least least inside, index, base, Option.bind_eq_bind, Option.bind_some,
    ← pool_taken run changed]
  cases prof.mul idx 4096 with
  | none => rfl
  | some offset =>
      simp only [Option.bind_some]
      cases prof.add alloc.baseAddr offset <;> rfl

theorem get_page_pool (prof : Profile) (alloc : PageAllocator) (mem : Memory) (cnt : Usize) :
    (alloc.getPage prof cnt mem).map (Prod.map id (poolOf alloc)) =
      (poolOf alloc mem).getPage prof cnt := by
  by_cases fit : ∃ first, first < alloc.bitmap.size.toNat ∧
      alloc.bitmap.IsRun mem false cnt.toNat first
  · rcases fit with ⟨first, inside, run⟩
    have listed : first ∈ freeRuns alloc mem cnt.toNat := mem_free_runs.mpr run
    obtain ⟨idx, least⟩ := exists_least_run ⟨first, listed⟩
    exact get_page_taken prof least (Nat.lt_of_le_of_lt (least.2 listed) inside)
  by_cases nonempty : 1 ≤ cnt.toNat
  · have missing : ∀ first, ¬alloc.bitmap.IsRun mem false cnt.toNat first := by
      intro first run
      have inside := run.inside
      exact fit ⟨first, by omega, run⟩
    have last : alloc.bitmap.size.toNat = 0 ∨
        alloc.bitmap.bit mem (alloc.bitmap.size.toNat - 1) = true ↔
        (poolOf alloc mem).size = 0 ∨ (poolOf alloc mem).size - 1 ∈ (poolOf alloc mem).taken := by
      rw [mem_taken]
      change _ ↔ alloc.bitmap.size.toNat = 0 ∨
        alloc.bitmap.size.toNat - 1 < alloc.bitmap.size.toNat ∧ _
      by_cases empty : alloc.bitmap.size.toNat = 0
      · simp [empty]
      · have within : alloc.bitmap.size.toNat - 1 < alloc.bitmap.size.toNat := by omega
        simp only [within, true_and]
        rfl
    rw [get_page_exhausted prof nonempty missing]
    simp only [Pool.getPage, first_fit_none missing, last]
    split_ifs <;> rfl
  · -- no pages are asked of a pool that has none
    have empty : alloc.bitmap.size.toNat = 0 := by
      by_contra inhabited
      apply fit
      refine ⟨0, by omega, by omega, ?_⟩
      intro index lower upper
      omega
    have found : alloc.bitmap.find prof mem 0 cnt false = some none := by
      rw [BitMap.find, wordRange, empty]
      rfl
    have noFit : (poolOf alloc mem).firstFit cnt.toNat = none := by
      rw [Pool.firstFit, poolOf, empty]
      rfl
    have noPages : (poolOf alloc mem).size = 0 := empty
    simp only [PageAllocator.getPage, found, Pool.getPage, noFit, noPages, true_or, if_true,
      Option.bind_eq_bind, Option.bind_some]
    rfl

theorem flips_given (prof : Profile) {alloc : PageAllocator} {mem : Memory} {idx cnt : Usize}
    (owned : ∀ i, i < cnt.toNat → idx.toNat + i < alloc.bitmap.size.toNat ∧
      alloc.bitmap.bit mem (idx.toNat + i) = true) :
    (alloc.bitmap.flips prof idx cnt mem).map (poolOf alloc) =
      some ((poolOf alloc mem).give idx.toNat cnt.toNat) := by
  by_cases nonempty : 1 ≤ cnt.toNat
  · have last := (owned (cnt.toNat - 1) (by omega)).1
    have run : alloc.bitmap.IsRun mem true cnt.toNat idx.toNat := by
      refine ⟨by omega, ?_⟩
      intro index lower upper
      have bit := (owned (index - idx.toNat) (by omega)).2
      rwa [Nat.add_sub_cancel' lower] at bit
    obtain ⟨after, flips, changed⟩ := flips_spec prof alloc.bitmap idx cnt mem run.inside
    rw [flips, Option.map_some, pool_given run changed]
  · -- nothing to flip, wherever the index lies
    have noneAsked : cnt.toNat = 0 := by omega
    have flips : alloc.bitmap.flips prof idx cnt mem = some mem := by
      rw [BitMap.flips, forEachBit, wordRange, noneAsked]
      rfl
    rw [flips, Option.map_some, Pool.give, noneAsked, Nat.add_zero, Finset.Ico_self,
      Finset.sdiff_empty]

theorem free_page_pool (prof : Profile) (alloc : PageAllocator) (mem : Memory) (page cnt : Usize) :
    (alloc.freePage prof page cnt mem).map (poolOf alloc) =
      (poolOf alloc mem).freePage prof page cnt := by
  have base : (poolOf alloc mem).baseAddr = alloc.baseAddr := rfl
  unfold PageAllocator.freePage Pool.freePage
  rw [base]
  split_ifs with aligned
  · cases prof.sub page alloc.baseAddr with
    | none => rfl
    | some offset =>
        simp only [Option.bind_eq_bind, Option.bind_some]
        have owned := all_eq_true_iff prof alloc.bitmap mem (offset / 4096) cnt
        split_ifs with subset
        · have all : alloc.bitmap.all prof mem (offset / 4096) cnt = some true := by
            apply owned.mpr
            intro i bound
            apply (mem_taken alloc mem _).mp
            apply subset
            rw [Finset.mem_Ico]
            omega
          simp only [all, Option.bind_some, if_true]
          exact flips_given prof (owned.mp all)
        · have refused : ¬alloc.bitmap.all prof mem (offset / 4096) cnt = some true := by
            intro all
            apply subset
            intro index range
            rw [Finset.mem_Ico] at range
            have taken := owned.mp all (index - (offset / 4096).toNat) (by omega)
            rw [Nat.add_sub_cancel' range.1] at taken
            exact (mem_taken alloc mem index).mpr taken
          cases answer : alloc.bitmap.all prof mem (offset / 4096) cnt with
          | none => rfl
          | some accepted =>
              cases accepted with
              | false => rfl
              | true => exact absurd answer refused
  · rfl

/-- Each call: the same answer, the same abort, and the pool of the memory after it. -/
theorem respond_pool (prof : Profile) (alloc : PageAllocator) (mem : Memory) (call : Call) :
    (respond prof alloc mem call).map (Prod.map id (poolOf alloc)) =
      (poolOf alloc mem).respond prof call := by
  cases call with
  | getPage cnt =>
      simp only [respond, Pool.respond, ← get_page_pool, Option.bind_eq_bind]
      cases alloc.getPage prof cnt mem <;> rfl
  | freePage page cnt =>
      simp only [respond, Pool.respond, ← free_page_pool, Option.bind_eq_bind]
      cases alloc.freePage prof page cnt mem <;> rfl
  | alloc layout =>
      simp only [respond, Pool.respond, Allocator.alloc, Option.bind_eq_bind]
      cases pagesFor prof layout.size with
      | none => rfl
      | some cnt =>
          simp only [Option.bind_some, ← get_page_pool]
          cases alloc.getPage prof cnt mem with
          | none => rfl
          | some got =>
              rcases got with ⟨result, after⟩
              cases result <;> rfl
  | dealloc ptr layout =>
      simp only [respond, Pool.respond, Allocator.dealloc, Option.bind_eq_bind]
      cases pagesFor prof layout.size with
      | none => rfl
      | some cnt =>
          simp only [Option.bind_some, ← free_page_pool]
          cases alloc.freePage prof ptr cnt mem <;> rfl

/-- For every content of the bitmap and every sequence of calls the allocator gives the answers of
the set of taken pages, call by call, and aborts where it does. -/
theorem allocator_serves_as_pool (prof : Profile) (alloc : PageAllocator) (mem : Memory)
    (calls : List Call) :
    Prod.map id (Option.map (poolOf alloc)) (serve (respond prof alloc) mem calls) =
      serve (Pool.respond prof) (poolOf alloc mem) calls :=
  serve_view (respond_pool prof alloc) mem calls

def pagesAsked (prof : Profile) (layout : Layout) : Nat :=
  ((pagesFor prof layout.size).map BitVec.toNat).getD 0

def granted (prof : Profile) : Call → Response → Nat
  | .getPage cnt, .page (some _) => cnt.toNat
  | .alloc layout, .ptr _ => pagesAsked prof layout
  | _, _ => 0

def returned (prof : Profile) : Call → Nat
  | .freePage _ cnt => cnt.toNat
  | .dealloc _ layout => pagesAsked prof layout
  | _ => 0

section Conservation

variable {prof : Profile} {pool next : Pool}

theorem card_take {cnt first : Nat} (fits : pool.Fits cnt first) :
    (pool.take first cnt).taken.card = pool.taken.card + cnt := by
  have disjoint : Disjoint pool.taken (Finset.Ico first (first + cnt)) := by
    rw [Finset.disjoint_right]
    exact fits.2
  rw [Pool.take, Finset.card_union_of_disjoint disjoint, Nat.card_Ico, Nat.add_sub_cancel_left]

theorem card_give {cnt first : Nat} (owned : Finset.Ico first (first + cnt) ⊆ pool.taken) :
    (pool.give first cnt).taken.card + cnt = pool.taken.card := by
  have few := Finset.card_le_card owned
  rw [Nat.card_Ico, Nat.add_sub_cancel_left] at few
  rw [Pool.give, Finset.card_sdiff_of_subset owned, Nat.card_Ico, Nat.add_sub_cancel_left]
  omega

theorem first_fit_fits {cnt first : Nat} (found : pool.firstFit cnt = some first) :
    pool.Fits cnt first := by
  have fits := (List.find?_range_eq_some.mp found).1
  exact of_decide_eq_true fits

theorem get_page_card {cnt : Usize} {result : Option Usize}
    (got : pool.getPage prof cnt = some (result, next)) :
    next.taken.card = pool.taken.card + if result.isSome then cnt.toNat else 0 := by
  unfold Pool.getPage at got
  cases found : pool.firstFit cnt.toNat with
  | none =>
      simp only [found] at got
      split_ifs at got
      cases got
      rfl
  | some first =>
      simp only [found, Option.bind_eq_bind, Option.bind_eq_some_iff] at got
      obtain ⟨_, _, _, _, taken⟩ := got
      cases taken
      exact card_take (first_fit_fits found)

theorem free_page_card {page cnt : Usize} (freed : pool.freePage prof page cnt = some next) :
    next.taken.card + cnt.toNat = pool.taken.card := by
  unfold Pool.freePage at freed
  split_ifs at freed
  obtain ⟨offset, _, checked⟩ := Option.bind_eq_some_iff.mp freed
  dsimp only at checked
  split_ifs at checked with owned
  cases checked
  exact card_give owned

theorem pages_asked {layout : Layout} {cnt : Usize}
    (pages : pagesFor prof layout.size = some cnt) : pagesAsked prof layout = cnt.toNat := by
  rw [pagesAsked, pages]
  rfl

theorem respond_card {call : Call} {response : Response}
    (answered : pool.respond prof call = some (response, next)) :
    next.taken.card + returned prof call = pool.taken.card + granted prof call response := by
  cases call with
  | getPage cnt =>
      obtain ⟨⟨result, after⟩, got, same⟩ := Option.bind_eq_some_iff.mp answered
      cases same
      have card := get_page_card got
      cases result <;> simpa [granted, returned] using card
  | freePage page cnt =>
      obtain ⟨after, freed, same⟩ := Option.bind_eq_some_iff.mp answered
      cases same
      exact free_page_card freed
  | alloc layout =>
      obtain ⟨cnt, pages, rest⟩ := Option.bind_eq_some_iff.mp answered
      obtain ⟨⟨result, after⟩, got, unwrapped⟩ := Option.bind_eq_some_iff.mp rest
      obtain ⟨ptr, handedOut, same⟩ := Option.bind_eq_some_iff.mp unwrapped
      cases same
      have card := get_page_card got
      rw [handedOut] at card
      simpa [granted, returned, pages_asked pages] using card
  | dealloc ptr layout =>
      obtain ⟨cnt, pages, rest⟩ := Option.bind_eq_some_iff.mp answered
      obtain ⟨after, freed, same⟩ := Option.bind_eq_some_iff.mp rest
      cases same
      have card := free_page_card freed
      simpa [granted, returned, pages_asked pages] using card

theorem serve_card {calls : List Call} {responses : List Response}
    (served : serve (Pool.respond prof) pool calls = (responses, some next)) :
    next.taken.card + (calls.map (returned prof)).sum =
      pool.taken.card + (List.zipWith (granted prof) calls responses).sum := by
  induction calls generalizing pool responses with
  | nil =>
      cases served
      rfl
  | cons call calls ih =>
      rw [serve] at served
      cases answered : pool.respond prof call with
      | none =>
          rw [answered] at served
          cases served
      | some answer =>
          rcases answer with ⟨response, middle⟩
          rw [answered] at served
          cases rest : serve (Pool.respond prof) middle calls with
          | mk later final =>
              simp only [rest, Prod.mk.injEq] at served
              obtain ⟨rfl, rfl⟩ := served
              have first := respond_card answered
              have others := ih rest
              rw [List.map_cons, List.sum_cons, List.zipWith_cons_cons, List.sum_cons]
              omega

end Conservation

def markedPages (alloc : PageAllocator) (mem : Memory) : Nat :=
  ((Finset.range alloc.bitmap.size.toNat).filter fun index => alloc.bitmap.bit mem index).card

/-- No page is lost and none is made up: after any calls that complete, whether their callers kept
to the rules or not, the set bits are those set before, plus the pages handed out, less the pages
given back. -/
theorem pages_conserved (prof : Profile) (alloc : PageAllocator) (mem after : Memory)
    (calls : List Call) (responses : List Response)
    (served : serve (respond prof alloc) mem calls = (responses, some after)) :
    markedPages alloc after + (calls.map (returned prof)).sum =
        markedPages alloc mem + (List.zipWith (granted prof) calls responses).sum ∧
      markedPages alloc after ≤ alloc.bitmap.size.toNat := by
  have pooled := serve_view (respond_pool prof alloc) mem calls
  rw [served] at pooled
  refine ⟨serve_card pooled.symm, ?_⟩
  calc
    markedPages alloc after ≤ (Finset.range alloc.bitmap.size.toNat).card :=
      Finset.card_filter_le _ _
    _ = alloc.bitmap.size.toNat := Finset.card_range _

theorem three_pages_marked :
    ∃ after, serve (respond .debug (placedAllocator 7936)) (freshMemory 7936 fun _ => 0xff)
        [.getPage 3] = ([.page (some (placedAllocator 7936).baseAddr)], some after) ∧
      markedPages (placedAllocator 7936) after =
        markedPages (placedAllocator 7936) (freshMemory 7936 fun _ => 0xff) + 3 := by
  obtain ⟨after, got⟩ := get_page_fresh .debug 7936 (by decide) (fun _ => 0xff) 3 (by decide)
    (by decide)
  have served : serve (respond .debug (placedAllocator 7936)) (freshMemory 7936 fun _ => 0xff)
      [.getPage 3] = ([.page (some (placedAllocator 7936).baseAddr)], some after) := by
    simp only [serve, respond, got, Option.bind_eq_bind, Option.bind_some]
  have three : (3 : Usize).toNat = 3 := rfl
  have counted := (pages_conserved .debug (placedAllocator 7936) _ after _ _ served).1
  simp only [List.map_cons, List.map_nil, List.sum_cons, List.sum_nil, returned, granted,
    List.zipWith_cons_cons, List.zipWith_nil_left, Nat.add_zero, three] at counted
  exact ⟨after, served, counted⟩

end RondOS.PageSet
