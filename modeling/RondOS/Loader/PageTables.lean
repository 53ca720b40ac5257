import RondOS.Lib.Paging
import RondOS.Loader.Image

/-!
# The loader's page directory and page tables

This module transcribes `pde_mem_clear`, `build_pde`/`write_pde` and `build_pte`/`write_pte`. The
three counted loops are first shown to be lists of dword stores. What the walk rooted at the
directory sees is then read off slot by slot: the two directory windows, the 64 KiB of page
tables, and whatever memory lies behind them.
-/

namespace RondOS.PageTables

open ByteMemory I386 Paging Image

set_option autoImplicit false

def pdeMemClear (mem : Memory) : Memory :=
  (repStosd (pagingTableAddr >>> 4) 0x400 { eax := 0, di := 0, mem }).mem

/-- One trip of `write_pde`: the same entry goes into the low and the high directory window. -/
def writePde (es : Nat) (regs : StoreRegs) : StoreRegs :=
  let low := writeLE regs.mem (linear es regs.di) 4 regs.eax
  { eax := (regs.eax + 0x1000) % 0x100000000
    di := (regs.di + 4) % 0x10000
    mem := writeLE low (linear es ((regs.di + kernelBase >>> 20) % 0x10000)) 4 regs.eax }

def buildPde (mem : Memory) : Memory :=
  (loopInstr (writePde (pagingTableAddr >>> 4)) 0x40
    { eax := pagingPageAddr ||| pgTable ||| pgRw ||| pgUs, di := 0, mem }).mem

def writePte (es : Nat) (regs : StoreRegs) : StoreRegs :=
  { eax := (regs.eax + 0x1000) % 0x100000000
    di := (regs.di + 4) % 0x10000
    mem := writeLE regs.mem (linear es regs.di) 4 regs.eax }

def buildPte (mem : Memory) : Memory :=
  (loopInstr (writePte (pagingPageAddr >>> 4)) 0x4000
    { eax := pgPage ||| pgRw ||| pgUs, di := 0, mem }).mem

def pagingSetup (mem : Memory) : Memory := buildPte (buildPde (pdeMemClear mem))

def clearStores : List (Nat × Nat) :=
  (List.range 0x400).flatMap fun index => [(0xf000 + 4 * index, 0)]

def pdeStores : List (Nat × Nat) :=
  (List.range 0x40).flatMap fun index =>
    [(0xf000 + 4 * index, 0x10007 + 0x1000 * index), (0xfc00 + 4 * index, 0x10007 + 0x1000 * index)]

def pteStores : List (Nat × Nat) :=
  (List.range 0x4000).flatMap fun index => [(0x10000 + 4 * index, 7 + 0x1000 * index)]

theorem pde_mem_clear_stores (mem : Memory) :
    pdeMemClear mem = storeDwords clearStores mem := by
  have run := iterate_stores (stosd (pagingTableAddr >>> 4))
    (fun index => [(0xf000 + 4 * index, 0)]) { eax := 0, di := 0, mem } 0x400 4 0
    (by
      intro index current bound
      have segment : linear (pagingTableAddr >>> 4) ((0 + 4 * index) % 0x10000) =
          0xf000 + 4 * index := by
        simp only [linear, pagingTableAddr]
        omega
      have next : ((0 + 4 * index) % 0x10000 + 4) % 0x10000 = (0 + 4 * (index + 1)) % 0x10000 := by
        omega
      simp only [stosd, segment, next, storeDwords, List.foldl_cons, List.foldl_nil, Nat.zero_mul,
        Nat.add_zero, Nat.zero_mod])
    (by simp) (by simp)
  rw [pdeMemClear, repStosd, run, clearStores]

theorem build_pde_stores (mem : Memory) : buildPde mem = storeDwords pdeStores mem := by
  have run := iterate_stores (writePde (pagingTableAddr >>> 4))
    (fun index => [(0xf000 + 4 * index, 0x10007 + 0x1000 * index),
      (0xfc00 + 4 * index, 0x10007 + 0x1000 * index)])
    { eax := 0x10007, di := 0, mem } 0x40 4 0x1000
    (by
      intro index current bound
      have low : linear (pagingTableAddr >>> 4) ((0 + 4 * index) % 0x10000) =
          0xf000 + 4 * index := by
        simp only [linear, pagingTableAddr]
        omega
      -- `KERNEL_BASE >> 20` is the byte offset of directory item 768
      have high : linear (pagingTableAddr >>> 4)
          (((0 + 4 * index) % 0x10000 + kernelBase >>> 20) % 0x10000) = 0xfc00 + 4 * index := by
        simp only [linear, pagingTableAddr, kernelBase]
        omega
      have value : (0x10007 + 0x1000 * index) % 0x100000000 = 0x10007 + 0x1000 * index := by omega
      have nextValue : (0x10007 + 0x1000 * index + 0x1000) % 0x100000000 =
          (0x10007 + 0x1000 * (index + 1)) % 0x100000000 := by
        rw [Nat.mul_succ, Nat.add_assoc]
      have next : ((0 + 4 * index) % 0x10000 + 4) % 0x10000 = (0 + 4 * (index + 1)) % 0x10000 := by
        omega
      simp only [writePde, low, high, value, nextValue, next, storeDwords, List.foldl_cons,
        List.foldl_nil])
    (by simp) (by simp)
  have entry : pagingPageAddr ||| pgTable ||| pgRw ||| pgUs = 0x10007 := by decide
  rw [buildPde, entry, loop_instr_nonzero _ _ _ (by decide), run, pdeStores]

theorem build_pte_stores (mem : Memory) : buildPte mem = storeDwords pteStores mem := by
  have run := iterate_stores (writePte (pagingPageAddr >>> 4))
    (fun index => [(0x10000 + 4 * index, 7 + 0x1000 * index)])
    { eax := 7, di := 0, mem } 0x4000 4 0x1000
    (by
      intro index current bound
      have slot : linear (pagingPageAddr >>> 4) ((0 + 4 * index) % 0x10000) =
          0x10000 + 4 * index := by
        simp only [linear, pagingPageAddr]
        omega
      have value : (7 + 0x1000 * index) % 0x100000000 = 7 + 0x1000 * index := by omega
      have nextValue : (7 + 0x1000 * index + 0x1000) % 0x100000000 =
          (7 + 0x1000 * (index + 1)) % 0x100000000 := by
        rw [Nat.mul_succ, Nat.add_assoc]
      have next : ((0 + 4 * index) % 0x10000 + 4) % 0x10000 = (0 + 4 * (index + 1)) % 0x10000 := by
        omega
      simp only [writePte, slot, value, nextValue, next, storeDwords, List.foldl_cons,
        List.foldl_nil])
    (by simp) (by simp)
  have entry : pgPage ||| pgRw ||| pgUs = 7 := by decide
  rw [buildPte, entry, loop_instr_nonzero _ _ _ (by decide), run, pteStores]

theorem paging_setup_stores (mem : Memory) :
    pagingSetup mem = storeDwords (clearStores ++ pdeStores ++ pteStores) mem := by
  rw [pagingSetup, build_pte_stores, build_pde_stores, pde_mem_clear_stores,
    store_dwords_append, store_dwords_append]

theorem mem_clear_stores (store : Nat × Nat) :
    store ∈ clearStores ↔ ∃ index < 0x400, store = (0xf000 + 4 * index, 0) := by
  simp [clearStores]

theorem mem_pde_stores (store : Nat × Nat) :
    store ∈ pdeStores ↔ ∃ index < 0x40,
      store = (0xf000 + 4 * index, 0x10007 + 0x1000 * index) ∨
        store = (0xfc00 + 4 * index, 0x10007 + 0x1000 * index) := by
  simp [pdeStores]

theorem mem_pte_stores (store : Nat × Nat) :
    store ∈ pteStores ↔ ∃ index < 0x4000, store = (0x10000 + 4 * index, 7 + 0x1000 * index) := by
  simp [pteStores]

theorem paging_setup_frame (mem : Memory) (target : Nat)
    (outside : target < 0xf000 ∨ 0x20000 ≤ target) : pagingSetup mem target = mem target := by
  rw [paging_setup_stores]
  apply store_dwords_frame
  intro store member
  simp only [List.mem_append, mem_clear_stores, mem_pde_stores, mem_pte_stores] at member
  rcases member with (⟨index, bound, rfl⟩ | ⟨index, bound, rfl | rfl⟩) | ⟨index, bound, rfl⟩ <;>
    simp only <;> omega

/-- What `write_pde` leaves in directory item `item`. The loop runs 0x40 times, so each window
receives 64 items although the layout comment speaks of 16. -/
def directoryItem (item : Nat) : Nat :=
  if item < 0x40 then 0x10007 + 0x1000 * item
  else if 768 ≤ item ∧ item < 832 then 0x10007 + 0x1000 * (item - 768)
  else 0

/-- Directory and page tables as the loader builds them, stated about a memory so that later
stores elsewhere keep it. -/
structure TablesBuilt (mem : Memory) : Prop where
  directory : ∀ item, item < 0x400 → readLE mem (0xf000 + 4 * item) 4 = directoryItem item
  tables : ∀ page, page < 0x4000 → readLE mem (0x10000 + 4 * page) 4 = 7 + 0x1000 * page

theorem read_clear_item (mem : Memory) {item : Nat} (bound : item < 0x400) :
    readLE (storeDwords clearStores mem) (0xf000 + 4 * item) 4 = 0 := by
  apply read_store_dwords
  · exact ⟨(0xf000 + 4 * item, 0), (mem_clear_stores _).mpr ⟨item, bound, rfl⟩, rfl⟩
  · intro store member
    obtain ⟨slot, slotBound, rfl⟩ := (mem_clear_stores store).mp member
    simp only [Nat.zero_mod, and_true]
    omega

theorem read_pde_item (mem : Memory) {item : Nat}
    (covered : item < 0x40 ∨ 768 ≤ item ∧ item < 832) :
    readLE (storeDwords pdeStores mem) (0xf000 + 4 * item) 4 = directoryItem item := by
  apply read_store_dwords
  · rcases covered with low | ⟨lower, upper⟩
    · exact ⟨(0xf000 + 4 * item, 0x10007 + 0x1000 * item),
        (mem_pde_stores _).mpr ⟨item, low, Or.inl rfl⟩, rfl⟩
    · refine ⟨(0xfc00 + 4 * (item - 768), 0x10007 + 0x1000 * (item - 768)),
        (mem_pde_stores _).mpr ⟨item - 768, by omega, Or.inr rfl⟩, ?_⟩
      simp only
      omega
  · intro store member
    obtain ⟨index, indexBound, rfl | rfl⟩ := (mem_pde_stores store).mp member
    · simp only [directoryItem]
      split_ifs <;> omega
    · simp only [directoryItem]
      split_ifs <;> omega

theorem paging_setup_directory (mem : Memory) (item : Nat) (bound : item < 0x400) :
    readLE (pagingSetup mem) (0xf000 + 4 * item) 4 = directoryItem item := by
  rw [pagingSetup, build_pte_stores, build_pde_stores, pde_mem_clear_stores,
    read_store_dwords_outside pteStores]
  · by_cases covered : item < 0x40 ∨ 768 ≤ item ∧ item < 832
    · exact read_pde_item _ covered
    · have blank : directoryItem item = 0 := by
        simp only [directoryItem]
        split_ifs <;> omega
      rw [read_store_dwords_outside pdeStores, read_clear_item mem bound, blank]
      intro store member
      obtain ⟨slot, slotBound, rfl | rfl⟩ := (mem_pde_stores store).mp member <;>
        simp only <;> omega
  · intro store member
    obtain ⟨page, pageBound, rfl⟩ := (mem_pte_stores store).mp member
    simp only
    omega

theorem paging_setup_tables (mem : Memory) (page : Nat) (bound : page < 0x4000) :
    readLE (pagingSetup mem) (0x10000 + 4 * page) 4 = 7 + 0x1000 * page := by
  rw [pagingSetup, build_pte_stores]
  apply read_store_dwords
  · exact ⟨(0x10000 + 4 * page, 7 + 0x1000 * page),
      (mem_pte_stores _).mpr ⟨page, bound, rfl⟩, rfl⟩
  · intro store member
    obtain ⟨index, indexBound, rfl⟩ := (mem_pte_stores store).mp member
    simp only
    omega

theorem tables_built (mem : Memory) : TablesBuilt (pagingSetup mem) where
  directory := paging_setup_directory mem
  tables := paging_setup_tables mem

theorem TablesBuilt.congr {left right : Memory} (built : TablesBuilt left)
    (same : ∀ addr, 0xf000 ≤ addr → addr < 0x20000 → left addr = right addr) :
    TablesBuilt right where
  directory := by
    intro item bound
    rw [← built.directory item bound]
    exact read_le_congr fun index inside => (same _ (by omega) (by omega)).symm
  tables := by
    intro page bound
    rw [← built.tables page bound]
    exact read_le_congr fun index inside => (same _ (by omega) (by omega)).symm

def pageEntries (addr : Nat) : Prop := 0xf000 ≤ addr ∧ addr < 0x20000 ∧ addr % 4 = 0

/-- The tables once the processor has used them, with any marks in their entries. -/
structure TablesMarked (mem : Memory) : Prop where
  directory : ∀ item, item < 0x400 →
    unmarked (readLE mem (0xf000 + 4 * item) 4) = directoryItem item
  tables : ∀ page, page < 0x4000 →
    unmarked (readLE mem (0x10000 + 4 * page) 4) = 7 + 0x1000 * page

theorem page_entries_aligned (target : Nat) (entry : pageEntries target) : target % 4 = 0 :=
  entry.2.2

theorem not_page_entry {addr : Nat} (outside : addr < 0xf000 ∨ 0x20000 ≤ addr) :
    ¬pageEntries addr := by
  unfold pageEntries
  omega

theorem image_not_entry (offset : Nat) : ¬pageEntries (loaderLoadAddr + offset) :=
  not_page_entry (Or.inr (Nat.le_add_right _ _))

theorem TablesBuilt.marked {mem : Memory} (built : TablesBuilt mem) : TablesMarked mem where
  directory := by
    intro item bound
    rw [built.directory item bound]
    unfold directoryItem unmarked
    split_ifs <;> omega
  tables := by
    intro page bound
    rw [built.tables page bound]
    unfold unmarked
    omega

theorem TablesMarked.congr {left right : Memory} (tables : TablesMarked left)
    (same : ∀ addr, 0xf000 ≤ addr → addr < 0x20000 → MarkedAt pageEntries left right addr) :
    TablesMarked right where
  directory := by
    intro item bound
    rw [← tables.directory item bound]
    exact entry_unmarked page_entries_aligned (by omega)
      fun index inside => same _ (by omega) (by omega)
  tables := by
    intro page bound
    rw [← tables.tables page bound]
    exact entry_unmarked page_entries_aligned (by omega)
      fun index inside => same _ (by omega) (by omega)

def UserWritable (found : PageWalk) : Prop :=
  (entryPresent found.pde && entryWritable found.pde && entryUser found.pde &&
    entryPresent found.pte && entryWritable found.pte && entryUser found.pte) = true

theorem entry_flags (frame : Nat) :
    entryPresent (7 + 0x1000 * frame) = true ∧ entryWritable (7 + 0x1000 * frame) = true ∧
      entryUser (7 + 0x1000 * frame) = true := by
  simp only [entryPresent, entryWritable, entryUser, Nat.testBit_eq_decide_div_mod_eq,
    decide_eq_true_eq]
  omega

theorem marked_entry {entry frame : Nat} (same : unmarked entry = 7 + 0x1000 * frame) :
    entryFrame entry = 0x1000 * frame ∧ entryPresent entry = true ∧ entryWritable entry = true ∧
      entryUser entry = true := by
  have plain : unmarked (7 + 0x1000 * frame) = 7 + 0x1000 * frame := by
    unfold unmarked
    omega
  have equal : unmarked entry = unmarked (7 + 0x1000 * frame) := by rw [same, plain]
  obtain ⟨present, writable, user⟩ := entry_bits_unmarked equal
  obtain ⟨isPresent, isWritable, isUser⟩ := entry_flags frame
  refine ⟨?_, present.trans isPresent, writable.trans isWritable, user.trans isUser⟩
  rw [entry_frame_unmarked equal, entryFrame]
  omega

theorem TablesBuilt.directory_slot {mem : Memory} (built : TablesBuilt mem) (va slot : Nat)
    (bounded : slot < 0x40)
    (window : va / 0x400000 = slot ∨ va / 0x400000 = 768 + slot) :
    readLE mem (entryFrame pagingTableAddr + 4 * (va / 0x400000 % 0x400)) 4 =
      7 + 0x1000 * (0x10 + slot) := by
  have root : entryFrame pagingTableAddr = 0xf000 := by decide
  have index : va / 0x400000 % 0x400 = va / 0x400000 := by omega
  rw [root, index, built.directory _ (by omega), directoryItem]
  split_ifs <;> omega

theorem slot_table (slot : Nat) : entryFrame (7 + 0x1000 * (0x10 + slot)) =
    0x10000 + 0x1000 * slot := by
  unfold entryFrame
  omega

theorem TablesMarked.walk_window {mem : Memory} (marked : TablesMarked mem) (va slot : Nat)
    (bounded : slot < 0x10)
    (window : va / 0x400000 = slot ∨ va / 0x400000 = 768 + slot) :
    ∃ found, walk mem pagingTableAddr va = some found ∧
      found.phys = 0x400000 * slot + va % 0x400000 ∧ UserWritable found ∧
      tableAddr found.pde va = 0x10000 + 0x1000 * slot + 4 * (va / 0x1000 % 0x400) := by
  have root : entryFrame pagingTableAddr = 0xf000 := by decide
  have index : va / 0x400000 % 0x400 = va / 0x400000 := by omega
  have item : directoryItem (va / 0x400000) = 7 + 0x1000 * (0x10 + slot) := by
    unfold directoryItem
    split_ifs <;> omega
  have directory := marked_entry ((marked.directory (va / 0x400000) (by omega)).trans item)
  have address : entryFrame (readLE mem (0xf000 + 4 * (va / 0x400000)) 4) +
      4 * (va / 0x1000 % 0x400) = 0x10000 + 4 * (0x400 * slot + va / 0x1000 % 0x400) := by
    rw [directory.1]
    omega
  have table := marked_entry (marked.tables (0x400 * slot + va / 0x1000 % 0x400) (by omega))
  rw [← address] at table
  refine ⟨_, walk_eq_some (by rw [root, index]) rfl directory.2.1 table.2.1, ?_, ?_, ?_⟩
  · simp only [table.1]
    omega
  · simp only [UserWritable, directory.2.1, directory.2.2.1, directory.2.2.2, table.2.1, table.2.2.1,
      table.2.2.2, Bool.and_self]
  · rw [tableAddr, address]
    omega

theorem TablesMarked.walk_low {mem : Memory} (marked : TablesMarked mem) {va : Nat}
    (inside : va < windowSize) :
    ∃ found, walk mem pagingTableAddr va = some found ∧ found.phys = va ∧ UserWritable found := by
  unfold windowSize at inside
  obtain ⟨found, walked, phys, flags, _⟩ :=
    marked.walk_window va (va / 0x400000) (by omega) (Or.inl rfl)
  exact ⟨found, walked, by omega, flags⟩

theorem TablesMarked.walk_kernel {mem : Memory} (marked : TablesMarked mem) {va : Nat}
    (above : kernelBase ≤ va) (below : va < kernelBase + windowSize) :
    ∃ found, walk mem pagingTableAddr va = some found ∧ found.phys = va - kernelBase ∧
      UserWritable found := by
  unfold windowSize at below
  unfold kernelBase at above below ⊢
  obtain ⟨found, walked, phys, flags, _⟩ :=
    marked.walk_window va (va / 0x400000 - 768) (by omega) (Or.inr (by omega))
  exact ⟨found, walked, by omega, flags⟩

theorem user_writable_flags {found : PageWalk} (flags : UserWritable found) :
    entryWritable found.pde = true ∧ entryWritable found.pte = true := by
  simp only [UserWritable, Bool.and_eq_true] at flags
  obtain ⟨⟨⟨⟨⟨_, pdeWritable⟩, _⟩, _⟩, pteWritable⟩, _⟩ := flags
  exact ⟨pdeWritable, pteWritable⟩

theorem TablesMarked.window_mapped {mem : Memory} (marked : TablesMarked mem) {first : Nat}
    (window : first = 0 ∨ first = kernelBase) :
    Mapped pageEntries mem pagingTableAddr first (first + windowSize) first where
  word := by
    unfold kernelBase at window
    unfold windowSize
    omega
  shifted := Nat.le_refl _
  aligned := page_entries_aligned
  directory := by
    intro va above below
    have root : entryFrame pagingTableAddr = 0xf000 := by decide
    unfold directoryAddr pageEntries
    rw [root]
    omega
  walked := by
    intro va above below
    unfold kernelBase at window
    unfold windowSize at below
    have slot : (va - first) / 0x400000 < 0x10 := by omega
    obtain ⟨found, walked, phys, flags, table⟩ :=
      marked.walk_window va ((va - first) / 0x400000) slot (by omega)
    obtain ⟨pdeWritable, pteWritable⟩ := user_writable_flags flags
    refine ⟨found, walked, by omega, pdeWritable, pteWritable, ?_⟩
    rw [table]
    unfold pageEntries
    omega

/-- On arbitrary initial memory the three loops map the low 64 MiB to themselves and the first
64 MiB of the kernel half to physical zero upwards, writable and user-accessible at both levels. -/
theorem windows_translate (mem : Memory) (va : Nat) :
    (va < windowSize → ∃ found, walk (pagingSetup mem) pagingTableAddr va = some found ∧
      found.phys = va ∧ UserWritable found) ∧
    (kernelBase ≤ va → va < kernelBase + windowSize →
      ∃ found, walk (pagingSetup mem) pagingTableAddr va = some found ∧
        found.phys = va - kernelBase ∧ UserWritable found) :=
  ⟨fun inside => (tables_built mem).marked.walk_low inside,
    fun above below => (tables_built mem).marked.walk_kernel above below⟩

theorem windows_translate_kernel_image :
    kernelBase ≤ 0xc0021018 ∧ 0xc0021018 < kernelBase + windowSize ∧
      ∃ found, walk (pagingSetup fun _ => 0xff) pagingTableAddr 0xc0021018 = some found ∧
        found.phys = 0xc0021018 - kernelBase ∧ UserWritable found :=
  ⟨by decide, by decide, (windows_translate _ _).2 (by decide) (by decide)⟩

def StrayAddress (va : Nat) : Prop :=
  va < 0x100000000 ∧ ¬va < windowSize ∧ ¬(kernelBase ≤ va ∧ va < kernelBase + windowSize)

/-- Directory items 16 to 63 of each window are present as well, and their page tables are the
192 KiB behind the real ones, which is where the image was loaded. -/
theorem TablesBuilt.stray_walk_iff {mem : Memory} (built : TablesBuilt mem) (va slot : Nat)
    (lower : 0x10 ≤ slot) (upper : slot < 0x40)
    (window : va / 0x400000 = slot ∨ va / 0x400000 = 768 + slot) :
    walk mem pagingTableAddr va = none ↔
      (mem (0x20000 + 4 * (0x400 * (slot - 0x10) + va / 0x1000 % 0x400))).toNat % 2 = 0 := by
  have directory := built.directory_slot va slot upper window
  have address : entryFrame (7 + 0x1000 * (0x10 + slot)) + 4 * (va / 0x1000 % 0x400) =
      0x20000 + 4 * (0x400 * (slot - 0x10) + va / 0x1000 % 0x400) := by
    rw [slot_table]
    omega
  rw [walk_eq_none_iff directory (entry_flags _).1, address]

theorem stray_walk_iff (mem : Memory) (va slot : Nat) (lower : 0x10 ≤ slot) (upper : slot < 0x40)
    (window : va / 0x400000 = slot ∨ va / 0x400000 = 768 + slot) :
    walk (pagingSetup mem) pagingTableAddr va = none ↔
      (mem (0x20000 + 4 * (0x400 * (slot - 0x10) + va / 0x1000 % 0x400))).toNat % 2 = 0 := by
  rw [(tables_built mem).stray_walk_iff va slot lower upper window,
    paging_setup_frame _ _ (by omega)]

theorem unmapped_walk_none (mem : Memory) {va : Nat} (word : va < 0x100000000)
    (low : ¬va / 0x400000 < 0x40)
    (high : ¬(768 ≤ va / 0x400000 ∧ va / 0x400000 < 832)) :
    walk (pagingSetup mem) pagingTableAddr va = none := by
  have root : entryFrame pagingTableAddr = 0xf000 := by decide
  have index : va / 0x400000 % 0x400 = va / 0x400000 := by omega
  have directory : readLE (pagingSetup mem)
      (entryFrame pagingTableAddr + 4 * (va / 0x400000 % 0x400)) 4 = 0 := by
    rw [root, index, paging_setup_directory _ _ (by omega), directoryItem, if_neg low,
      if_neg high]
  exact walk_eq_none_of_directory directory (by decide)

/-- Stray accesses fault exactly when the image bytes misread as page tables all have a clear
present bit. -/
theorem stray_addresses_fault_iff (mem : Memory) :
    (∀ va, StrayAddress va → walk (pagingSetup mem) pagingTableAddr va = none) ↔
      ∀ entry, entry < 0xc000 → (mem (0x20000 + 4 * entry)).toNat % 2 = 0 := by
  constructor
  · intro faults entry bound
    -- the low-window address whose page-table slot is this image dword
    have stray : StrayAddress (0x4000000 + 0x1000 * entry) := by
      simp only [StrayAddress, windowSize, kernelBase]
      omega
    have clear := (stray_walk_iff mem (0x4000000 + 0x1000 * entry)
      (0x10 + entry / 0x400) (by omega) (by omega) (Or.inl (by omega))).mp (faults _ stray)
    have slot : 0x400 * (0x10 + entry / 0x400 - 0x10) +
        (0x4000000 + 0x1000 * entry) / 0x1000 % 0x400 = entry := by omega
    rwa [slot] at clear
  · intro clear va stray
    rcases stray with ⟨word, notLow, notHigh⟩
    unfold windowSize at notLow notHigh
    unfold kernelBase at notHigh
    by_cases low : va / 0x400000 < 0x40
    · apply (stray_walk_iff mem va (va / 0x400000) (by omega) low (Or.inl rfl)).mpr
      exact clear _ (by omega)
    · by_cases high : 768 ≤ va / 0x400000 ∧ va / 0x400000 < 832
      · apply (stray_walk_iff mem va (va / 0x400000 - 768) (by omega) (by omega)
          (Or.inr (by omega))).mpr
        exact clear _ (by omega)
      · exact unmapped_walk_none mem word low high

/-- The first byte of the ELF magic is odd, so with any ELF kernel at image offset 0x1000 the
linear address 0x4400000 is present. -/
theorem elf_magic_maps_stray_address :
    ¬∀ (mem : Memory) (va : Nat), StrayAddress va →
      walk (pagingSetup mem) pagingTableAddr va = none := by
  intro faults
  have stray : StrayAddress 0x4400000 := by
    simp only [StrayAddress, windowSize, kernelBase]
    omega
  have clear := (stray_walk_iff (fun addr => if addr = 0x21000 then 0x7f else 0) 0x4400000 0x11
    (by decide) (by decide) (Or.inl (by decide))).mp (faults _ 0x4400000 stray)
  exact absurd clear (by decide)

end RondOS.PageTables
