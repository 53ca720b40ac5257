import RondOS.Kernel.MemLayout
import RondOS.Lib.RustWord
import Mathlib.Order.Interval.Finset.Nat

/-!
# Usable memory of a memory map

`available_mem_size` adds up the usable entries from 1 MiB on with one running end marker. On a
sorted map without overlaps the result is the plain sum of lengths, which says nothing about where
the memory is. What a map covers without a gap is a different number, `coveredUpTo`.
-/

namespace RondOS.AvailableMem

open MemLayoutView RustWord

set_option autoImplicit false

structure Scan where
  lastEnd : BitVec 64
  size : BitVec 64
  deriving DecidableEq

/-- `mem.kind() == Usable && mem.addr() >= 0x100000` -/
def counted (mem : MemLayout) : Bool := mem.kind == .usable && decide (0x100000 ≤ mem.addr)

def scanEntry (prof : Profile) (scan : Scan) (mem : MemLayout) : Option Scan :=
  if counted mem then do
    let lastEnd := if scan.lastEnd < mem.addr then mem.addr else scan.lastEnd
    let thisEnd ← prof.add mem.addr mem.len
    let size ← prof.add scan.size (← prof.sub thisEnd lastEnd)
    some { lastEnd := thisEnd, size }
  else some scan

/-- `map` lists the entries of `loader::get_memlayout()`. -/
def availableMemSize (prof : Profile) (map : List MemLayout) : Option (BitVec 64) :=
  (map.foldlM (scanEntry prof) { lastEnd := 0, size := 0 }).map Scan.size

def entryEnd (mem : MemLayout) : Nat := mem.addr.toNat + mem.len.toNat

/-- Sorted by base, pairwise non-overlapping and free of 64-bit overflow. -/
structure SortedMap (map : List MemLayout) : Prop where
  ordered : map.Pairwise fun first second => entryEnd first ≤ second.addr.toNat
  noOverflow : ∀ mem ∈ map, entryEnd mem < 0x10000000000000000

def usableTotal (map : List MemLayout) : Nat :=
  ((map.filter counted).map fun mem => mem.len.toNat).sum

theorem SortedMap.tail {mem : MemLayout} {rest : List MemLayout}
    (sorted : SortedMap (mem :: rest)) : SortedMap rest where
  ordered := (List.pairwise_cons.mp sorted.ordered).2
  noOverflow := fun other member => sorted.noOverflow other (List.mem_cons_of_mem _ member)

def EndsAscend (map : List MemLayout) : Prop :=
  (map.filter counted).Pairwise fun first second => entryEnd first ≤ entryEnd second

def NoOverflow (map : List MemLayout) : Prop :=
  ∀ mem ∈ map, counted mem = true → entryEnd mem < 0x10000000000000000

theorem NoOverflow.tail {mem : MemLayout} {rest : List MemLayout}
    (bounded : NoOverflow (mem :: rest)) : NoOverflow rest :=
  fun other member => bounded other (List.mem_cons_of_mem _ member)

/-- What the loop adds up behind the marker `lastEnd`, in exact arithmetic. -/
def newBytes (lastEnd : Nat) : List MemLayout → Nat
  | [] => 0
  | mem :: rest =>
      if counted mem then
        entryEnd mem - max lastEnd mem.addr.toNat + newBytes (entryEnd mem) rest
      else newBytes lastEnd rest

theorem scan_entry_skipped (prof : Profile) (scan : Scan) {mem : MemLayout}
    (skipped : counted mem = false) : scanEntry prof scan mem = some scan := by
  rw [scanEntry, skipped, if_neg (by decide)]

theorem start_of_entry (scan : Scan) (mem : MemLayout) :
    (if scan.lastEnd < mem.addr then mem.addr else scan.lastEnd).toNat =
      max scan.lastEnd.toNat mem.addr.toNat := by
  split_ifs with moved
  · rw [BitVec.lt_def] at moved
    omega
  · rw [BitVec.lt_def] at moved
    omega

theorem scan_entry_counted (prof : Profile) {scan : Scan} {mem : MemLayout}
    (taken : counted mem = true) (bounded : scan.size.toNat ≤ scan.lastEnd.toNat)
    (noOverflow : entryEnd mem < 0x10000000000000000)
    (ahead : scan.lastEnd.toNat ≤ entryEnd mem) :
    ∃ next, scanEntry prof scan mem = some next ∧ next.lastEnd.toNat = entryEnd mem ∧
      next.size.toNat =
        scan.size.toNat + (entryEnd mem - max scan.lastEnd.toNat mem.addr.toNat) := by
  unfold entryEnd at noOverflow ahead ⊢
  have start := start_of_entry scan mem
  simp only [scanEntry, taken, if_true, add_exact prof mem.addr mem.len noOverflow,
    Option.bind_eq_bind, Option.bind_some]
  generalize (if scan.lastEnd < mem.addr then mem.addr else scan.lastEnd) = lastEnd at start ⊢
  have thisEnd : (mem.addr + mem.len).toNat = mem.addr.toNat + mem.len.toNat :=
    BitVec.toNat_add_of_lt noOverflow
  have ordered : lastEnd.toNat ≤ (mem.addr + mem.len).toNat := by omega
  have gain : (mem.addr + mem.len - lastEnd).toNat =
      mem.addr.toNat + mem.len.toNat - max scan.lastEnd.toNat mem.addr.toNat := by
    rw [BitVec.toNat_sub_of_le (BitVec.le_def.mpr ordered), thisEnd, start]
  have fits : scan.size.toNat + (mem.addr + mem.len - lastEnd).toNat < 2 ^ 64 := by omega
  have size := BitVec.toNat_add_of_lt fits
  refine ⟨{ lastEnd := mem.addr + mem.len, size := scan.size + (mem.addr + mem.len - lastEnd) },
    ?_, thisEnd, size.trans (by rw [gain])⟩
  simp only [sub_exact prof _ _ ordered, Option.bind_some, add_exact prof _ _ fits]

theorem scan_entry_aborts {scan : Scan} {mem : MemLayout} (taken : counted mem = true)
    (noOverflow : entryEnd mem < 0x10000000000000000)
    (behind : entryEnd mem < scan.lastEnd.toNat) : scanEntry .debug scan mem = none := by
  unfold entryEnd at noOverflow behind
  have start := start_of_entry scan mem
  simp only [scanEntry, taken, if_true, add_exact .debug mem.addr mem.len noOverflow,
    Option.bind_eq_bind, Option.bind_some]
  generalize (if scan.lastEnd < mem.addr then mem.addr else scan.lastEnd) = lastEnd at start ⊢
  have thisEnd : (mem.addr + mem.len).toNat = mem.addr.toNat + mem.len.toNat :=
    BitVec.toNat_add_of_lt noOverflow
  have underflow : Profile.debug.sub (mem.addr + mem.len) lastEnd = none :=
    if_pos ⟨rfl, by omega⟩
  rw [underflow, Option.bind_none]

section Runs

variable {map : List MemLayout} {scan : Scan}

theorem scan_ascending (prof : Profile) (bounded : scan.size.toNat ≤ scan.lastEnd.toNat)
    (noOverflow : NoOverflow map) (ascend : EndsAscend map)
    (ahead : ∀ mem ∈ map, counted mem = true → scan.lastEnd.toNat ≤ entryEnd mem) :
    ∃ final, map.foldlM (scanEntry prof) scan = some final ∧
      final.size.toNat = scan.size.toNat + newBytes scan.lastEnd.toNat map := by
  induction map generalizing scan with
  | nil => exact ⟨scan, rfl, rfl⟩
  | cons mem rest ih =>
      rw [List.foldlM_cons, newBytes]
      have later : ∀ other ∈ rest, counted other = true → scan.lastEnd.toNat ≤ entryEnd other :=
        fun other member => ahead other (List.mem_cons_of_mem _ member)
      cases taken : counted mem with
      | false =>
          rw [EndsAscend, List.filter_cons_of_neg (by simp [taken])] at ascend
          rw [scan_entry_skipped prof scan taken, if_neg (by decide)]
          exact ih bounded noOverflow.tail ascend later
      | true =>
          rw [EndsAscend, List.filter_cons_of_pos taken, List.pairwise_cons] at ascend
          obtain ⟨next, stepped, lastEnd, grown⟩ := scan_entry_counted prof taken bounded
            (noOverflow mem List.mem_cons_self taken) (ahead mem List.mem_cons_self taken)
          have still : next.size.toNat ≤ next.lastEnd.toNat := by
            have reached := ahead mem List.mem_cons_self taken
            omega
          obtain ⟨final, run, size⟩ := ih still noOverflow.tail ascend.2 (by
            intro other member isCounted
            rw [lastEnd]
            exact ascend.1 other (List.mem_filter.mpr ⟨member, isCounted⟩))
          rw [stepped, if_pos rfl]
          refine ⟨final, run, ?_⟩
          rw [size, grown, lastEnd, Nat.add_assoc]

theorem ascend_of_scan {final : Scan} (bounded : scan.size.toNat ≤ scan.lastEnd.toNat)
    (noOverflow : NoOverflow map) (ran : map.foldlM (scanEntry .debug) scan = some final) :
    EndsAscend map ∧
      ∀ mem ∈ map, counted mem = true → scan.lastEnd.toNat ≤ entryEnd mem := by
  induction map generalizing scan with
  | nil => exact ⟨List.Pairwise.nil, by simp⟩
  | cons mem rest ih =>
      rw [List.foldlM_cons] at ran
      cases taken : counted mem with
      | false =>
          rw [scan_entry_skipped .debug scan taken] at ran
          obtain ⟨ascend, ahead⟩ := ih bounded noOverflow.tail ran
          rw [EndsAscend, List.filter_cons_of_neg (by simp [taken]), List.forall_mem_cons]
          refine ⟨ascend, ?_, ahead⟩
          rw [taken]
          intro impossible
          cases impossible
      | true =>
          have fits := noOverflow mem List.mem_cons_self taken
          by_cases reached : scan.lastEnd.toNat ≤ entryEnd mem
          · obtain ⟨next, stepped, lastEnd, grown⟩ :=
              scan_entry_counted .debug taken bounded fits reached
            rw [stepped] at ran
            obtain ⟨ascend, ahead⟩ := ih (by omega) noOverflow.tail ran
            rw [lastEnd] at ahead
            rw [EndsAscend, List.filter_cons_of_pos taken, List.pairwise_cons,
              List.forall_mem_cons]
            refine ⟨⟨?_, ascend⟩, fun _ => reached, ?_⟩
            · intro other member
              obtain ⟨inRest, isCounted⟩ := List.mem_filter.mp member
              exact ahead other inRest isCounted
            · intro other member isCounted
              exact Nat.le_trans reached (ahead other member isCounted)
          · rw [scan_entry_aborts taken fits (Nat.not_le.mp reached)] at ran
            cases ran

end Runs

theorem available_mem_size_ascending (prof : Profile) {map : List MemLayout}
    (noOverflow : NoOverflow map) (ascend : EndsAscend map) :
    ∃ size, availableMemSize prof map = some size ∧ size.toNat = newBytes 0 map := by
  obtain ⟨final, run, size⟩ := @scan_ascending map { lastEnd := 0, size := 0 } prof
    (Nat.le_refl 0) noOverflow ascend fun mem _ _ => Nat.zero_le (entryEnd mem)
  refine ⟨final.size, by rw [availableMemSize, run, Option.map_some], ?_⟩
  rw [size]
  exact Nat.zero_add _

theorem new_bytes_le_total (lastEnd : Nat) (map : List MemLayout) :
    newBytes lastEnd map ≤ usableTotal map := by
  induction map generalizing lastEnd with
  | nil => exact Nat.le_refl 0
  | cons mem rest ih =>
      rw [newBytes, usableTotal]
      cases taken : counted mem with
      | false =>
          rw [if_neg (by decide), List.filter_cons_of_neg (by simp [taken])]
          exact ih lastEnd
      | true =>
          have later := ih (entryEnd mem)
          rw [usableTotal] at later
          rw [if_pos rfl, List.filter_cons_of_pos taken, List.map_cons, List.sum_cons]
          unfold entryEnd at later ⊢
          omega

/-- No operation of the loop underflows or overflows, and the result is at most the sum of the
lengths. -/
def SizesSafely (map : List MemLayout) : Prop :=
  ∃ size, (∀ prof, availableMemSize prof map = some size) ∧ size.toNat ≤ usableTotal map

/-- The subtraction is safe on a map in any order exactly when no counted entry ends before the
counted entry in front of it. -/
theorem sizes_safely_iff (map : List MemLayout) (noOverflow : NoOverflow map) :
    SizesSafely map ↔ EndsAscend map := by
  constructor
  · intro safe
    obtain ⟨size, computed, _⟩ := safe
    obtain ⟨final, ran, _⟩ := Option.map_eq_some_iff.mp (computed .debug)
    exact (@ascend_of_scan map { lastEnd := 0, size := 0 } final (Nat.le_refl 0) noOverflow ran).1
  · intro ascend
    obtain ⟨size, checked, value⟩ := available_mem_size_ascending .debug noOverflow ascend
    refine ⟨size, ?_, by rw [value]; exact new_bytes_le_total 0 map⟩
    intro prof
    obtain ⟨other, computed, same⟩ := available_mem_size_ascending prof noOverflow ascend
    rw [computed, BitVec.eq_of_toNat_eq (same.trans value.symm)]

def overlappingMap : List MemLayout :=
  [{ addr := 0x100000, len := 0x2000, kind := .usable },
    { addr := 0xf0000, len := 0x10000, kind := .reserved },
    { addr := 0x101000, len := 0x3000, kind := .usable }]

theorem overlapping_sizes_safely : NoOverflow overlappingMap ∧ SizesSafely overlappingMap := by
  have noOverflow : NoOverflow overlappingMap := by
    unfold NoOverflow
    decide
  have ascend : EndsAscend overlappingMap := by
    unfold EndsAscend
    decide
  exact ⟨noOverflow, (sizes_safely_iff overlappingMap noOverflow).mpr ascend⟩

def nestedMap : List MemLayout :=
  [{ addr := 0x100000, len := 0x400000, kind := .usable },
    { addr := 0x200000, len := 0x100000, kind := .usable }]

theorem nested_region_underflows :
    ¬∀ map : List MemLayout, (∀ mem ∈ map, entryEnd mem < 0x10000000000000000) →
      SizesSafely map := by
  intro claimed
  obtain ⟨size, computed, _⟩ := claimed nestedMap (by decide)
  have aborted : availableMemSize .debug nestedMap = none := by decide
  rw [computed .debug] at aborted
  cases aborted

theorem new_bytes_sorted (lastEnd : Nat) (map : List MemLayout) (sorted : SortedMap map)
    (behind : ∀ mem ∈ map, lastEnd ≤ mem.addr.toNat) : newBytes lastEnd map = usableTotal map := by
  induction map generalizing lastEnd with
  | nil => rfl
  | cons mem rest ih =>
      rw [newBytes, usableTotal]
      cases taken : counted mem with
      | false =>
          rw [if_neg (by decide), List.filter_cons_of_neg (by simp [taken])]
          exact ih lastEnd sorted.tail fun other member => behind other (List.mem_cons_of_mem _ member)
      | true =>
          have start := Nat.max_eq_right (behind mem List.mem_cons_self)
          rw [if_pos rfl, List.filter_cons_of_pos taken, List.map_cons, List.sum_cons, start,
            ih (entryEnd mem) sorted.tail (List.pairwise_cons.mp sorted.ordered).1, usableTotal,
            entryEnd, Nat.add_sub_cancel_left]

theorem SortedMap.ascend {map : List MemLayout} (sorted : SortedMap map) : EndsAscend map := by
  apply (sorted.ordered.filter counted).imp
  intro first second ordered
  unfold entryEnd at ordered ⊢
  omega

theorem available_mem_size_sorted (prof : Profile) {map : List MemLayout}
    (sorted : SortedMap map) :
    ∃ size, availableMemSize prof map = some size ∧ size.toNat = usableTotal map := by
  rw [← new_bytes_sorted 0 map sorted fun mem _ => Nat.zero_le mem.addr.toNat]
  exact available_mem_size_ascending prof (fun mem member _ => sorted.noOverflow mem member)
    sorted.ascend

def countedBytes (map : List MemLayout) : Finset Nat :=
  (map.filter counted).foldr
    (fun mem bytes => Finset.Ico mem.addr.toNat (entryEnd mem) ∪ bytes) ∅

theorem mem_counted_bytes (map : List MemLayout) (addr : Nat) :
    addr ∈ countedBytes map ↔
      ∃ mem ∈ map, counted mem = true ∧ mem.addr.toNat ≤ addr ∧ addr < entryEnd mem := by
  unfold countedBytes
  induction map with
  | nil => simp
  | cons mem rest ih =>
      cases taken : counted mem with
      | false => simp [taken, ih]
      | true => simp [taken, ih]

theorem card_union_interval {seen : Finset Nat} {base last start : Nat}
    (within : seen ⊆ Finset.range last) (recent : Finset.Ico base last ⊆ seen)
    (after : base ≤ start) (stop : Nat) :
    (seen ∪ Finset.Ico start stop).card = seen.card + (stop - max last start) := by
  have fresh : seen ∪ Finset.Ico start stop = seen ∪ Finset.Ico (max last start) stop := by
    ext addr
    have known := @recent addr
    simp only [Finset.mem_Ico] at known
    simp only [Finset.mem_union, Finset.mem_Ico]
    constructor
    · intro covered
      rcases covered with old | inside
      · exact Or.inl old
      · by_cases new : last ≤ addr
        · exact Or.inr ⟨by omega, inside.2⟩
        · exact Or.inl (known ⟨by omega, by omega⟩)
    · intro covered
      rcases covered with old | inside
      · exact Or.inl old
      · exact Or.inr ⟨by omega, inside.2⟩
  have disjoint : Disjoint seen (Finset.Ico (max last start) stop) := by
    rw [Finset.disjoint_left]
    intro addr old new
    have below := Finset.mem_range.mp (within old)
    have above := (Finset.mem_Ico.mp new).1
    omega
  rw [fresh, Finset.card_union_of_disjoint disjoint, Nat.card_Ico]

/-- Bases and ends of the counted entries both do not go down. -/
def Ascends (map : List MemLayout) : Prop :=
  (map.filter counted).Pairwise fun first second =>
    first.addr.toNat ≤ second.addr.toNat ∧ entryEnd first ≤ entryEnd second

/-- The invariant of the count: `seen` is what the entries so far cover, and the last of them
reaches from `base` to the marker. -/
theorem new_bytes_union (map : List MemLayout) (seen : Finset Nat) (base lastEnd : Nat)
    (within : seen ⊆ Finset.range lastEnd) (recent : Finset.Ico base lastEnd ⊆ seen)
    (ascends : Ascends map)
    (ahead : ∀ mem ∈ map, counted mem = true →
      base ≤ mem.addr.toNat ∧ lastEnd ≤ entryEnd mem) :
    seen.card + newBytes lastEnd map = (seen ∪ countedBytes map).card := by
  induction map generalizing seen base lastEnd with
  | nil => simp [newBytes, countedBytes]
  | cons mem rest ih =>
      rw [newBytes, countedBytes]
      cases taken : counted mem with
      | false =>
          rw [Ascends, List.filter_cons_of_neg (by simp [taken])] at ascends
          rw [if_neg (by decide), List.filter_cons_of_neg (by simp [taken])]
          exact ih seen base lastEnd within recent ascends fun other member =>
            ahead other (List.mem_cons_of_mem _ member)
      | true =>
          rw [Ascends, List.filter_cons_of_pos taken, List.pairwise_cons] at ascends
          obtain ⟨after, reached⟩ := ahead mem List.mem_cons_self taken
          have grown := card_union_interval within recent after (entryEnd mem)
          have joined := ih (seen ∪ Finset.Ico mem.addr.toNat (entryEnd mem)) mem.addr.toNat
            (entryEnd mem) (by
              apply Finset.union_subset
              · exact within.trans (Finset.range_mono reached)
              · intro addr inside
                exact Finset.mem_range.mpr (Finset.mem_Ico.mp inside).2)
            Finset.subset_union_right ascends.2 (by
              intro other member isCounted
              exact ascends.1 other (List.mem_filter.mpr ⟨member, isCounted⟩))
          rw [if_pos rfl, List.filter_cons_of_pos taken, List.foldr_cons, ← Nat.add_assoc, ← grown,
            joined, Finset.union_assoc]
          rfl

/-- On every map whose counted entries have ascending bases and ends, overlapping or not, the
result is the number of bytes that they cover. -/
theorem available_mem_size_counts_union (prof : Profile) (map : List MemLayout)
    (ascends : Ascends map) (noOverflow : NoOverflow map) :
    ∃ size, availableMemSize prof map = some size ∧ size.toNat = (countedBytes map).card := by
  have ends : EndsAscend map := ascends.imp fun ordered => ordered.2
  obtain ⟨size, computed, value⟩ := available_mem_size_ascending prof noOverflow ends
  refine ⟨size, computed, ?_⟩
  have counts := new_bytes_union map ∅ 0 0 (Finset.empty_subset _) (by simp) ascends
    fun mem _ _ => ⟨Nat.zero_le _, Nat.zero_le _⟩
  rw [Finset.card_empty, Nat.zero_add, Finset.empty_union] at counts
  rw [value, counts]

theorem overlapping_union_counted :
    Ascends overlappingMap ∧ NoOverflow overlappingMap ∧
      ∃ size, availableMemSize .release overlappingMap = some size ∧
        size.toNat = (countedBytes overlappingMap).card := by
  have ascends : Ascends overlappingMap := by
    unfold Ascends
    decide
  have noOverflow : NoOverflow overlappingMap := by
    unfold NoOverflow
    decide
  exact ⟨ascends, noOverflow,
    available_mem_size_counts_union .release overlappingMap ascends noOverflow⟩

def UsableAt (map : List MemLayout) (addr : Nat) : Prop :=
  ∃ mem ∈ map, mem.kind = .usable ∧ mem.addr.toNat ≤ addr ∧ addr < entryEnd mem

/-- The end of the gapless usable stretch from `cursor` on, computed in map order. -/
def coveredUpTo (cursor : Nat) (map : List MemLayout) : Nat :=
  map.foldl (fun reached mem =>
    if mem.kind = .usable ∧ mem.addr.toNat ≤ reached then max reached (entryEnd mem)
    else reached) cursor

theorem covered_up_to_cons (cursor : Nat) (mem : MemLayout) (rest : List MemLayout) :
    coveredUpTo cursor (mem :: rest) =
      coveredUpTo (if mem.kind = .usable ∧ mem.addr.toNat ≤ cursor then max cursor (entryEnd mem)
        else cursor) rest := rfl

theorem le_covered_up_to (cursor : Nat) (map : List MemLayout) :
    cursor ≤ coveredUpTo cursor map := by
  induction map generalizing cursor with
  | nil => exact Nat.le_refl _
  | cons mem rest ih =>
      rw [covered_up_to_cons]
      split_ifs
      · exact Nat.le_trans (Nat.le_max_left _ _) (ih _)
      · exact ih cursor

theorem usable_below_covered (cursor : Nat) (map : List MemLayout) (addr : Nat)
    (lower : cursor ≤ addr) (upper : addr < coveredUpTo cursor map) : UsableAt map addr := by
  induction map generalizing cursor with
  | nil => exact absurd upper (Nat.not_lt.mpr lower)
  | cons mem rest ih =>
      have later : UsableAt rest addr → UsableAt (mem :: rest) addr := by
        intro usable
        rcases usable with ⟨other, member, rest⟩
        exact ⟨other, List.mem_cons_of_mem _ member, rest⟩
      rw [covered_up_to_cons] at upper
      split_ifs at upper with joined
      · by_cases within : addr < entryEnd mem
        · exact ⟨mem, List.mem_cons_self, joined.1, by omega, within⟩
        · exact later (ih _ (by omega) upper)
      · exact later (ih cursor lower upper)

theorem covered_up_to_stuck (cursor : Nat) (map : List MemLayout)
    (beyond : ∀ mem ∈ map, cursor < mem.addr.toNat) : coveredUpTo cursor map = cursor := by
  induction map with
  | nil => rfl
  | cons mem rest ih =>
      have apart : ¬(mem.kind = .usable ∧ mem.addr.toNat ≤ cursor) :=
        fun joined => absurd joined.2 (Nat.not_le.mpr (beyond mem List.mem_cons_self))
      rw [covered_up_to_cons, if_neg apart]
      exact ih fun other member => beyond other (List.mem_cons_of_mem _ member)

theorem not_usable_at_covered (cursor : Nat) (map : List MemLayout) (sorted : SortedMap map) :
    ¬UsableAt map (coveredUpTo cursor map) := by
  induction map generalizing cursor with
  | nil =>
      intro usable
      rcases usable with ⟨mem, member, _⟩
      cases member
  | cons mem rest ih =>
      intro continued
      rcases continued with ⟨other, member, usable, lower, upper⟩
      rw [covered_up_to_cons] at lower upper
      rcases List.mem_cons.mp member with rfl | member
      · -- the head either was absorbed by the stretch or starts behind it
        split_ifs at lower upper with joined
        · have reached := le_covered_up_to (max cursor (entryEnd other)) rest
          omega
        · have ahead : cursor < other.addr.toNat :=
            Nat.not_le.mp fun within => joined ⟨usable, within⟩
          have stuck := covered_up_to_stuck cursor rest (by
            intro later member
            have ordered := (List.pairwise_cons.mp sorted.ordered).1 later member
            unfold entryEnd at ordered
            omega)
          omega
      · exact ih _ sorted.tail ⟨other, member, usable, lower, upper⟩

theorem usable_stretch_iff {map : List MemLayout} (sorted : SortedMap map) {low high : Nat} :
    (∀ addr, low ≤ addr → addr < high → UsableAt map addr) ↔ high ≤ coveredUpTo low map := by
  constructor
  · intro usable
    by_contra short
    exact not_usable_at_covered low map sorted
      (usable _ (le_covered_up_to low map) (Nat.not_le.mp short))
  · intro covered addr lower upper
    exact usable_below_covered low map addr lower (Nat.lt_of_lt_of_le upper covered)

end RondOS.AvailableMem
