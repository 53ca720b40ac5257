import Mathlib.Data.List.Forall2
import RondOS.Loader.Handover

/-!
# The kernel's view of the memory map

`loader::get_memlayout` reads a length word and forms a slice of packed 20-byte structures at
hard-coded virtual addresses. Everything is read through the page walk that the loader set up.
The two sides agree on offsets, stride, count and endianness as long as the loop ended without a
carry; the in-band failure mark 0xdead is taken for a length.
-/

namespace RondOS.MemLayoutView

open ByteMemory I386 Image PageTables DetectMem Handover

set_option autoImplicit false

inductive MemLayoutKind where
  | usable
  | reserved
  | acpiReclaimableMemory
  | acpiNvsMemory
  | badMemory
  deriving DecidableEq

def MemLayoutKind.tag : MemLayoutKind → Nat
  | .usable => 1
  | .reserved => 2
  | .acpiReclaimableMemory => 3
  | .acpiNvsMemory => 4
  | .badMemory => 5

/-- Reading any other number as a `MemLayoutKind` is undefined behaviour in Rust. -/
def MemLayoutKind.ofTag : Nat → Option MemLayoutKind
  | 1 => some .usable
  | 2 => some .reserved
  | 3 => some .acpiReclaimableMemory
  | 4 => some .acpiNvsMemory
  | 5 => some .badMemory
  | _ => none

structure MemLayout where
  addr : BitVec 64
  len : BitVec 64
  kind : MemLayoutKind
  deriving DecidableEq

/-- The accessors of one packed entry: `addr` at 0, `len` at 8, `kind` at 16. -/
def readMemLayout (mem : Memory) (ptr : Nat) : Option MemLayout := do
  let addr ← loadLE mem pagingTableAddr ptr 8
  let len ← loadLE mem pagingTableAddr (ptr + 8) 8
  let tag ← loadLE mem pagingTableAddr (ptr + 16) 4
  let kind ← MemLayoutKind.ofTag tag
  some { addr := BitVec.ofNat 64 addr, len := BitVec.ofNat 64 len, kind }

/-- The fat pointer made by `slice_from_raw_parts`. -/
structure MemLayoutSlice where
  ptr : Nat
  len : Nat
  deriving DecidableEq

def getMemlayoutBuflen (mem : Memory) : Option Nat := loadLE mem pagingTableAddr 0xc0020204 4

def getMemlayout (mem : Memory) : Option MemLayoutSlice :=
  (getMemlayoutBuflen mem).map fun len => { ptr := 0xc0020208, len }

def MemLayoutSlice.entries (mem : Memory) (slice : MemLayoutSlice) : Option (List MemLayout) :=
  (List.range slice.len).mapM fun index => readMemLayout mem (slice.ptr + 20 * index)

/-- The entry a record stands for; the default kind is never used for a valid type. -/
def layoutOf (record : E820Record) : MemLayout where
  addr := record.base
  len := record.length
  kind := (MemLayoutKind.ofTag record.kind.toNat).getD .badMemory

def Agrees (entry : MemLayout) (record : E820Record) : Prop :=
  entry.addr = record.base ∧ entry.len = record.length ∧ entry.kind.tag = record.kind.toNat

theorem of_tag_valid {tag : Nat} (lower : 1 ≤ tag) (upper : tag ≤ 5) :
    ∃ kind, MemLayoutKind.ofTag tag = some kind ∧ kind.tag = tag := by
  match tag, lower, upper with
  | 1, _, _ => exact ⟨.usable, rfl, rfl⟩
  | 2, _, _ => exact ⟨.reserved, rfl, rfl⟩
  | 3, _, _ => exact ⟨.acpiReclaimableMemory, rfl, rfl⟩
  | 4, _, _ => exact ⟨.acpiNvsMemory, rfl, rfl⟩
  | 5, _, _ => exact ⟨.badMemory, rfl, rfl⟩

def validKind (record : E820Record) : Prop :=
  1 ≤ record.kind.toNat ∧ record.kind.toNat ≤ 5

theorem layout_of_agrees (record : E820Record) (valid : validKind record) :
    Agrees (layoutOf record) record := by
  obtain ⟨kind, decoded, tag⟩ := of_tag_valid valid.1 valid.2
  refine ⟨rfl, rfl, ?_⟩
  simp only [layoutOf, decoded, Option.getD_some, tag]

theorem record_bytes_at (mem : Memory) (base : Nat) (records : List E820Record)
    (stored : readBytes mem base (20 * records.length) = records.flatMap E820Record.bytes)
    (index : Nat) (inside : index < records.length) :
    readBytes mem (base + 20 * index) 20 = (records.get ⟨index, inside⟩).bytes := by
  induction records generalizing base index with
  | nil => simp at inside
  | cons record rest ih =>
      rw [List.length_cons, Nat.mul_succ, Nat.add_comm, read_bytes_add, List.flatMap_cons] at stored
      obtain ⟨head, tail⟩ := List.append_inj stored (by simp [record_bytes_length])
      cases index with
      | zero => exact head
      | succ index =>
          have later := ih (base + 20) tail index (by simpa using inside)
          rw [show base + 20 * (index + 1) = base + 20 + 20 * index by omega]
          exact later

theorem record_fields (mem : Memory) (addr : Nat) (record : E820Record)
    (stored : readBytes mem addr 20 = record.bytes) :
    readLE mem addr 8 = record.base.toNat ∧ readLE mem (addr + 8) 8 = record.length.toNat ∧
      readLE mem (addr + 16) 4 = record.kind.toNat := by
  have split : readBytes mem addr 20 =
      readBytes mem addr 8 ++ readBytes mem (addr + 8) 8 ++ readBytes mem (addr + 16) 4 := by
    rw [show (20 : Nat) = 8 + 8 + 4 by rfl, read_bytes_add, read_bytes_add]
  rw [split, E820Record.bytes] at stored
  obtain ⟨front, kind⟩ := List.append_inj stored (by simp)
  obtain ⟨base, length⟩ := List.append_inj front (by simp)
  refine ⟨?_, ?_, ?_⟩
  · rw [readLE, base, le_value_le_bytes]
    exact Nat.mod_eq_of_lt record.base.isLt
  · rw [readLE, length, le_value_le_bytes]
    exact Nat.mod_eq_of_lt record.length.isLt
  · rw [readLE, kind, le_value_le_bytes]
    exact Nat.mod_eq_of_lt record.kind.isLt

theorem read_mem_layout_stored {mem : Memory} (marked : TablesMarked mem) (ptr : Nat)
    (record : E820Record) (above : kernelBase ≤ ptr) (below : ptr + 20 ≤ kernelBase + windowSize)
    (stored : readBytes mem (ptr - kernelBase) 20 = record.bytes) (valid : validKind record) :
    readMemLayout mem ptr = some (layoutOf record) := by
  obtain ⟨base, length, kind⟩ := record_fields mem _ record stored
  obtain ⟨tagged, decoded, _⟩ := of_tag_valid valid.1 valid.2
  have lenAt : ptr + 8 - kernelBase = ptr - kernelBase + 8 := by omega
  have kindAt : ptr + 16 - kernelBase = ptr - kernelBase + 16 := by omega
  rw [readMemLayout, load_le_kernel marked above (by omega),
    load_le_kernel marked (by omega) (by omega), load_le_kernel marked (by omega) (by omega),
    lenAt, kindAt, base, length, kind]
  simp [layoutOf, decoded]

theorem get_memlayout_len {mem : Memory} (marked : TablesMarked mem) :
    getMemlayout mem = some { ptr := 0xc0020208, len := readMemlayoutlen mem } := by
  have window : kernelBase ≤ 0xc0020204 ∧ 0xc0020204 + 4 ≤ kernelBase + windowSize := by decide
  have address : 0xc0020204 - kernelBase = 0x20204 := by decide
  rw [getMemlayout, getMemlayoutBuflen, load_le_kernel marked window.1 window.2, address,
    readMemlayoutlen, memlayoutlen_address]
  rfl

theorem handover_memlayoutlen {detected after : Memory}
    (same : ∀ target, 0x20000 ≤ target → (target < 0x20200 ∨ 0x20204 ≤ target) →
      after target = detected target) :
    readMemlayoutlen after = readMemlayoutlen detected := by
  apply read_le_congr
  intro index bound
  rw [memlayoutlen_address]
  exact same _ (by omega) (by omega)

/-- The slice holds the stored records in order when the length word counts them and the whole
buffer lies in the mapped window. -/
theorem slice_entries_stored {mem : Memory} (marked : TablesMarked mem) (records : List E820Record)
    (count : records.length ≤ 0x1000)
    (stored : readBytes mem 0x20208 (20 * records.length) = records.flatMap E820Record.bytes)
    (valid : ∀ record ∈ records, validKind record) :
    MemLayoutSlice.entries mem { ptr := 0xc0020208, len := records.length } =
      some (records.map layoutOf) := by
  apply mapM_range_eq_some
  intro index inside
  dsimp only
  have address : 0xc0020208 + 20 * index - kernelBase = 0x20208 + 20 * index := by
    unfold kernelBase
    omega
  apply read_mem_layout_stored marked
  · unfold kernelBase
    omega
  · unfold kernelBase windowSize
    omega
  · rw [address]
    exact record_bytes_at mem 0x20208 records stored index inside
  · exact valid _ (List.get_mem _ _)

theorem stored_records_no_carry {responses : List E820Response}
    (noCarry : signalsCarry responses = false) :
    storedRecords responses = responses.map E820Response.record := by
  have kept : responses.filter (fun response => !response.carry) = responses := by
    apply List.filter_eq_self.mpr
    intro response member
    have clear := List.any_eq_false.mp noCarry response member
    simpa using clear
  rw [storedRecords, kept]

/-- For every carry-free E820 run of at most 178 records the kernel reads back exactly the records
of the firmware, through the page tables and at its own hard-coded addresses. -/
theorem get_memlayout_yields_firmware_records (mem : Memory) (loaderEnd : Nat)
    (responses : List E820Response) (whole : complete responses = true)
    (noCarry : signalsCarry responses = false) (short : responses.length ≤ 178)
    (valid : ∀ response ∈ responses, validKind response.record) :
    ∃ after slice entries, handover loaderEnd responses mem = some after ∧
      getMemlayout after = some slice ∧ slice.len = responses.length ∧
      slice.entries after = some entries ∧
      List.Forall₂ (fun entry response => Agrees entry response.record) entries responses := by
  have records := stored_records_no_carry noCarry
  have count : (storedRecords responses).length = responses.length := by simp [records]
  obtain ⟨detected, run, bytes, length, _⟩ := next_part_run responses mem whole (by omega)
  obtain ⟨after, entered, built, same⟩ := handover_run loaderEnd responses mem detected run
  have buffer : readBytes after 0x20208 (20 * (storedRecords responses).length) =
      (storedRecords responses).flatMap E820Record.bytes := by
    rw [← bytes]
    exact read_bytes_congr fun index _ => same _ (by omega) (by omega)
  have counted : readMemlayoutlen after = (storedRecords responses).length := by
    rw [handover_memlayoutlen same, length, noCarry]
    rfl
  have slice := get_memlayout_len built.marked
  rw [counted] at slice
  have entries := slice_entries_stored built.marked (storedRecords responses) (by omega) buffer
    (by
      intro record member
      rw [records] at member
      obtain ⟨response, listed, rfl⟩ := List.mem_map.mp member
      exact valid response listed)
  refine ⟨after, _, _, entered, slice, count, entries, ?_⟩
  rw [records, List.map_map, List.forall₂_map_left_iff, List.forall₂_same]
  intro response member
  exact layout_of_agrees response.record (valid response member)

def sampleResponses : List E820Response :=
  [{ carry := false, ebx := 1, record := { base := 0, length := 0x9fc00, kind := 1 } },
    { carry := false, ebx := 0, record := { base := 0x100000, length := 0x1f00000, kind := 1 } }]

theorem get_memlayout_yields_sample_records :
    ∃ after slice entries, handover 0x9000 sampleResponses (fun _ => 0) = some after ∧
      getMemlayout after = some slice ∧ slice.len = sampleResponses.length ∧
      slice.entries after = some entries ∧
      List.Forall₂ (fun entry response => Agrees entry response.record) entries sampleResponses :=
  get_memlayout_yields_firmware_records _ _ sampleResponses (by decide) (by decide) (by decide)
    (by
      intro response member
      simp only [sampleResponses, List.mem_cons, List.not_mem_nil, or_false] at member
      rcases member with rfl | rfl <;> exact ⟨by decide, by decide⟩)

/-- No slice that the kernel obtains has more entries than the firmware stored. -/
def SliceWithinRecords (loaderEnd : Nat) (responses : List E820Response) (mem : Memory) : Prop :=
  ∀ after slice, handover loaderEnd responses mem = some after → getMemlayout after = some slice →
    slice.len ≤ (storedRecords responses).length

def SliceReturned (loaderEnd : Nat) (responses : List E820Response) (mem : Memory) : Prop :=
  ∃ after slice, handover loaderEnd responses mem = some after ∧ getMemlayout after = some slice

/-- A slice is returned exactly if the records fit the 64 KiB segment, and it stays within them
exactly if no call has set carry: any carry, at whatever call, makes it 0xdead entries long. -/
theorem slice_within_records_iff (mem : Memory) (loaderEnd : Nat)
    (responses : List E820Response) (whole : complete responses = true) :
    (SliceWithinRecords loaderEnd responses mem ↔
      signalsCarry responses = false ∨ 3250 < (storedRecords responses).length) ∧
    (SliceReturned loaderEnd responses mem ↔ (storedRecords responses).length ≤ 3250) := by
  by_cases overrun : 0x10000 < 0x208 + 20 * (storedRecords responses).length
  · have failed : handover loaderEnd responses mem = none := by
      rw [handover, next_part_overruns responses mem whole overrun]
    constructor
    · refine ⟨fun _ => Or.inr (by omega), ?_⟩
      intro _ after slice entered
      rw [failed] at entered
      cases entered
    · refine ⟨?_, fun short => by omega⟩
      intro returned
      rcases returned with ⟨after, slice, entered, _⟩
      rw [failed] at entered
      cases entered
  · obtain ⟨detected, run, _, length, _⟩ := next_part_run responses mem whole (by omega)
    obtain ⟨after, entered, built, same⟩ := handover_run loaderEnd responses mem detected run
    have slice := get_memlayout_len built.marked
    rw [handover_memlayoutlen same, length] at slice
    constructor
    · constructor
      · intro within
        have bounded := within after _ entered slice
        cases carry : signalsCarry responses with
        | true =>
            simp only [carry, if_true] at bounded
            omega
        | false => exact Or.inl rfl
      · intro condition other found otherEntered foundSlice
        rw [entered] at otherEntered
        cases otherEntered
        rw [slice] at foundSlice
        cases foundSlice
        rcases condition with noCarry | long
        · simp [noCarry]
        · omega
    · exact ⟨fun _ => by omega, fun _ => ⟨after, _, entered, slice⟩⟩

theorem slice_within_sample_records :
    SliceReturned 0x9000 sampleResponses (fun _ => 0) ∧
      SliceWithinRecords 0x9000 sampleResponses (fun _ => 0) := by
  obtain ⟨within, returned⟩ :=
    slice_within_records_iff (fun _ => 0) 0x9000 sampleResponses (by decide)
  exact ⟨returned.mpr (by decide), within.mpr (Or.inl (by decide))⟩

def refusedResponses : List E820Response :=
  [{ carry := true, ebx := 0, record := { base := 0, length := 0, kind := 0 } }]

/-- Nothing was stored, and the kernel still gets a slice of 57005 entries. -/
theorem carry_at_first_call_overflows_slice :
    ¬∀ (mem : Memory) (loaderEnd : Nat) (responses : List E820Response),
      complete responses = true → SliceWithinRecords loaderEnd responses mem := by
  intro within
  obtain ⟨detected, run, _, length, _⟩ :=
    next_part_run refusedResponses (fun _ => 0) (by decide) (by decide)
  obtain ⟨after, entered, built, same⟩ := handover_run 0x9000 refusedResponses _ detected run
  have slice := get_memlayout_len built.marked
  rw [handover_memlayoutlen same, length] at slice
  have bound := within (fun _ => 0) 0x9000 refusedResponses (by decide) after _ entered slice
  exact absurd bound (by decide)

end RondOS.MemLayoutView
