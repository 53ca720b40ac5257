import RondOS.Loader.DetectMem
import RondOS.Loader.PageTables

/-!
# From the loaded image to the kernel entry

The second half of the loader, started by the jump to `next_part`: detect memory, build the page
tables, enable paging and store `kernel_size`. The result is described by what the kernel can
observe, namely the translation of its window and the image bytes behind it.
-/

namespace RondOS.Handover

open ByteMemory I386 Image PageTables DetectMem

set_option autoImplicit false

/-- `protect_entry` already runs with paging enabled, so its store goes through the page walk. -/
def protectEntry (loaderEnd : Nat) (mem : Memory) : Option Memory :=
  storeDword mem pagingTableAddr (kernelBase + loaderLoadAddr + kernelSize) loaderEnd

def handover (loaderEnd : Nat) (responses : List E820Response) (mem : Memory) : Option Memory :=
  match nextPart responses mem with
  | none => none
  | some detected => protectEntry loaderEnd (pagingSetup detected)

theorem load_byte_kernel {mem : Memory} (marked : TablesMarked mem) {va : Nat}
    (above : kernelBase ≤ va) (below : va < kernelBase + windowSize) :
    loadByte mem pagingTableAddr va = some (mem (va - kernelBase)) := by
  obtain ⟨found, walked, phys, _⟩ := marked.walk_kernel above below
  rw [loadByte, walked, Option.map_some, phys]

theorem load_byte_kernel_wrapped {mem : Memory} (marked : TablesMarked mem) {va index : Nat}
    (above : kernelBase ≤ va) (below : va + index < kernelBase + windowSize) :
    loadByte mem pagingTableAddr ((va + index) % 0x100000000) =
      some (mem (va - kernelBase + index)) := by
  have word : (va + index) % 0x100000000 = va + index := by
    unfold kernelBase windowSize at below
    omega
  have address : va + index - kernelBase = va - kernelBase + index := by omega
  rw [word, load_byte_kernel marked (by omega) below, address]

theorem load_le_kernel {mem : Memory} (marked : TablesMarked mem) {va width : Nat}
    (above : kernelBase ≤ va) (below : va + width ≤ kernelBase + windowSize) :
    loadLE mem pagingTableAddr va width = some (readLE mem (va - kernelBase) width) := by
  apply load_le_mapped
  intro index bound
  exact load_byte_kernel_wrapped marked above (by omega)

theorem protect_entry_run (loaderEnd : Nat) (mem : Memory) :
    protectEntry loaderEnd (pagingSetup mem) =
      some (writeLE (pagingSetup mem) 0x20200 4 loaderEnd) := by
  obtain ⟨found, walked, phys, flags⟩ := (tables_built mem).marked.walk_kernel
    (show kernelBase ≤ kernelBase + loaderLoadAddr + kernelSize by decide) (by decide)
  have address : found.phys = 0x20200 := by
    rw [phys, Nat.add_assoc, Nat.add_sub_cancel_left]
    rfl
  obtain ⟨pdeWritable, pteWritable⟩ := user_writable_flags flags
  rw [protectEntry, store_dword_mapped loaderEnd walked pdeWritable pteWritable (by decide), address]

/-- What is left in memory when the kernel starts: the tables of the loader, and above them the
memory after E820 detection except for the `kernel_size` word. -/
theorem handover_run (loaderEnd : Nat) (responses : List E820Response) (mem detected : Memory)
    (run : nextPart responses mem = some detected) :
    ∃ after, handover loaderEnd responses mem = some after ∧ TablesBuilt after ∧
      ∀ target, 0x20000 ≤ target → (target < 0x20200 ∨ 0x20204 ≤ target) →
        after target = detected target := by
  refine ⟨writeLE (pagingSetup detected) 0x20200 4 loaderEnd, ?_, ?_, ?_⟩
  · rw [handover, run]
    exact protect_entry_run loaderEnd detected
  · apply (tables_built detected).congr
    intro addr _ upper
    exact (write_le_outside _ _ _ _ _ (by omega)).symm
  · intro target lower outside
    rw [write_le_outside _ _ _ _ _ (by omega), paging_setup_frame _ _ (by omega)]

end RondOS.Handover
