import RondOS.Loader.DiskRead
import RondOS.Loader.Handover

/-!
# The kernel file in memory at its entry point

The loader copies the ELF file as it is and jumps to `e_entry`; it never reads a program header.
The file bytes of a segment are therefore in place when the image fits the first 127 blocks, and
the zero-initialised tail of a segment is whatever follows it: other parts of the file, the
`END_CHECK` dword, block padding, or memory that was never read. A memory map of more than 178
records runs over the beginning of the file on top of that.
-/

namespace RondOS.KernelImage

open ByteMemory I386 Image PageTables DetectMem Handover DiskRead

set_option autoImplicit false

structure ProgramHeader where
  pType : Nat
  pOffset : Nat
  pVaddr : Nat
  pFilesz : Nat
  pMemsz : Nat
  deriving DecidableEq

def fileField (file : List Byte) (offset width : Nat) : Nat :=
  leValue ((List.range width).map fun index => file.getD (offset + index) 0)

def programHeaderAt (file : List Byte) (offset : Nat) : ProgramHeader where
  pType := fileField file offset 4
  pOffset := fileField file (offset + 4) 4
  pVaddr := fileField file (offset + 8) 4
  pFilesz := fileField file (offset + 16) 4
  pMemsz := fileField file (offset + 20) 4

def entryPoint (file : List Byte) : Nat := fileField file 0x18 4

/-- The program headers of a little-endian ELF32 file; `none` for anything else. -/
def programHeaders (file : List Byte) : Option (List ProgramHeader) :=
  let phoff := fileField file 0x1c 4
  let phnum := fileField file 0x2c 2
  if isElf file && file.getD 4 0 == 1#8 && file.getD 5 0 == 1#8 &&
      decide (52 ≤ file.length) && fileField file 0x2a 2 == 32 &&
      decide (phoff + 32 * phnum ≤ file.length) then
    some ((List.range phnum).map fun index => programHeaderAt file (phoff + 32 * index))
  else none

def loadSegments (headers : List ProgramHeader) : List ProgramHeader :=
  headers.filter fun header => header.pType == 1

/-- A loadable segment placed as `kernel.ld` and the loader assume, with its file bytes inside the
file and no more of them than it occupies in memory. -/
structure PlacedSegment (kernel : List Byte) (header : ProgramHeader) : Prop where
  placed : header.pVaddr = 0xc0021000 + header.pOffset
  inFile : header.pOffset + header.pFilesz ≤ kernel.length
  sizes : header.pFilesz ≤ header.pMemsz

/-- The whole boot: load, detect, enable paging, fetch `e_entry` and jump. -/
def bootKernel (int13 : Int13) (kernel : List Byte) (responses : List E820Response)
    (mem : Memory) : Option (Memory × Nat) :=
  match loadImage int13 (loaderEnd kernel) mem with
  | .error _ => none
  | .ok state =>
      match handover (loaderEnd kernel) responses state.mem with
      | none => none
      | some after =>
          (loadLE after pagingTableAddr (kernelBase + 0x21018) 4).map fun entry => (after, entry)

/-- The segment as a program loader would have to leave it: file bytes, then zeros. -/
def SegmentReady (kernel : List Byte) (after : Memory) (header : ProgramHeader) : Prop :=
  ∀ index, index < header.pMemsz →
    loadByte after pagingTableAddr ((header.pVaddr + index) % 0x100000000) =
      some (if index < header.pFilesz then kernel.getD (header.pOffset + index) 0 else 0)

/-- At the jump to `e_entry` every loadable segment is ready. -/
def KernelReady (int13 : Int13) (kernel : List Byte) (headers : List ProgramHeader)
    (responses : List E820Response) (mem : Memory) : Prop :=
  ∃ after, bootKernel int13 kernel responses mem = some (after, entryPoint kernel) ∧
    ∀ header ∈ loadSegments headers, SegmentReady kernel after header

/-- The byte that reading leaves at image offset `offset`: disk content for the 127 blocks that are
read, old memory content above. -/
def loadedByte (boot : BootBlock) (kernel : List Byte) (mem : Memory) (offset : Nat) : Byte :=
  if offset < 0xfe00 then diskByte boot kernel offset else mem (loaderLoadAddr + offset)

def recordByte (responses : List E820Response) (offset : Nat) : Byte :=
  ((storedRecords responses).flatMap E820Record.bytes).getD (offset - memlayoutbuf) 0

def recordsEnd (responses : List E820Response) : Nat :=
  memlayoutbuf + 20 * (storedRecords responses).length

/-- The byte found at image offset `offset`, behind the loader page, when the kernel is entered. -/
def residentByte (boot : BootBlock) (kernel : List Byte) (responses : List E820Response)
    (mem : Memory) (offset : Nat) : Byte :=
  if offset < recordsEnd responses then recordByte responses offset
  else loadedByte boot kernel mem offset

/-- No stored record puts another value over the byte at `position` of the kernel file. -/
def RecordsSpare (kernel : List Byte) (responses : List E820Response) (position : Nat) : Prop :=
  0x1000 + position < recordsEnd responses →
    recordByte responses (0x1000 + position) = kernel.getD position 0

/-- The segment lies in the mapped window, its file bytes escape the memory map, and its tail finds
only zero bytes. -/
structure SegmentSpared (boot : BootBlock) (kernel : List Byte) (responses : List E820Response)
    (mem : Memory) (header : ProgramHeader) : Prop where
  window : header.pVaddr + header.pMemsz ≤ kernelBase + windowSize
  file : ∀ index, index < header.pFilesz → RecordsSpare kernel responses (header.pOffset + index)
  zeroTail : ∀ index, header.pFilesz ≤ index → index < header.pMemsz →
    residentByte boot kernel responses mem (0x1000 + (header.pOffset + index)) = 0

structure Entered (boot : BootBlock) (kernel : List Byte) (responses : List E820Response)
    (mem after : Memory) : Prop where
  built : TablesBuilt after
  image : ∀ offset, 0x1000 ≤ offset →
    after (loaderLoadAddr + offset) = residentByte boot kernel responses mem offset
  opcode : after 0x20000 = 0xb8

theorem resident_file_iff (boot : BootBlock) {kernel : List Byte} (responses : List E820Response)
    (mem : Memory) (short : loaderEnd kernel + 4 ≤ 0xfe00) {position : Nat}
    (inside : position < kernel.length) :
    residentByte boot kernel responses mem (0x1000 + position) = kernel.getD position 0 ↔
      RecordsSpare kernel responses position := by
  have fileEnd : loaderEnd kernel = 0x1000 + kernel.length := rfl
  unfold residentByte RecordsSpare
  by_cases overwritten : 0x1000 + position < recordsEnd responses
  · simp only [overwritten, if_true, true_implies]
  · rw [if_neg overwritten, loadedByte, if_pos (by omega), disk_byte_kernel _ _ _ inside]
    simp only [overwritten, false_implies]

theorem entered_run {boot : BootBlock} {kernel : List Byte} {int13 : Int13}
    (transfers : Transfers (diskByte boot kernel) int13) (elf : isElf kernel = true)
    (short : loaderEnd kernel + 4 ≤ 0xfe00) (responses : List E820Response)
    (whole : complete responses = true) (mem : Memory) :
    ∃ state, loadImage int13 (loaderEnd kernel) mem = .ok state ∧
      (recordsEnd responses ≤ 0x10000 →
        ∃ after, handover (loaderEnd kernel) responses state.mem = some after ∧
          Entered boot kernel responses mem after) ∧
      (¬recordsEnd responses ≤ 0x10000 →
        handover (loaderEnd kernel) responses state.mem = none) := by
  obtain ⟨final, read⟩ := image_read transfers (by omega) mem
  obtain ⟨magic, long⟩ := elf_has_checked_magic elf
  have nonempty : 0x1000 ≤ loaderEnd kernel := Nat.le_add_right _ _
  have records : recordsEnd responses = 0x208 + 20 * (storedRecords responses).length := rfl
  have time : loaderDiskTime (loaderEnd kernel) = 1 := by
    rw [loader_disk_time_eq]
    omega
  have accepted := (image_accepted_iff read long (by omega)).mpr ⟨magic, by omega, by
    intro index inside
    rw [image_read_byte read (by omega) (by omega), disk_byte_end_check _ _ _ inside]⟩
  refine ⟨final, (read.outcome final).mpr ⟨rfl, accepted⟩, ?_, ?_⟩
  · intro fits
    obtain ⟨detected, run, stored, _, untouched⟩ := next_part_run responses final.mem whole
      (by omega)
    obtain ⟨after, entered, built, same⟩ := handover_run (loaderEnd kernel) responses final.mem
      detected run
    refine ⟨after, entered, built, ?_, ?_⟩
    · intro offset above
      have target : 0x21000 ≤ loaderLoadAddr + offset := Nat.add_le_add_left above 0x20000
      rw [same _ (by omega) (by omega), residentByte]
      split_ifs with overwritten
      · have position : loaderLoadAddr + offset = 0x20208 + (offset - memlayoutbuf) := by
          unfold loaderLoadAddr memlayoutbuf
          omega
        have within : offset - memlayoutbuf < 20 * (storedRecords responses).length := by
          unfold memlayoutbuf
          omega
        rw [position, recordByte, ← stored, read_bytes_get_d _ _ within]
      · rw [untouched _ (by unfold loaderLoadAddr; omega), loadedByte]
        split_ifs with covered
        · exact image_read_byte read (by omega) (by omega)
        · apply image_read_skipped read
          omega
    · rw [same _ (by omega) (by omega), untouched _ (by omega)]
      have first := image_read_byte read (show 0 < 0x10000 * _ by omega) (by omega)
      have opens : diskByte boot kernel 0 = 0xb8 := by
        rw [disk_byte_image _ _ _ (by omega), imageByte, if_pos (by decide), boot.opens]
      exact first.trans opens
  · intro overrun
    rw [handover, next_part_overruns responses final.mem whole (by omega)]

/-- The kernel window beyond 64 MiB is closed by the first instruction byte of the loader, which
serves as present bit there. -/
theorem entered_window_end {boot : BootBlock} {kernel : List Byte}
    {responses : List E820Response} {mem after : Memory}
    (entered : Entered boot kernel responses mem after) :
    loadByte after pagingTableAddr 0xc4000000 = none := by
  have absent := (entered.built.stray_walk_iff 0xc4000000 0x10 (by decide) (by decide)
    (Or.inr (by decide))).mpr (by
      rw [show 0x20000 + 4 * (0x400 * (0x10 - 0x10) + 0xc4000000 / 0x1000 % 0x400) = 0x20000 by
        decide, entered.opcode]
      decide)
  rw [loadByte, absent]
  rfl

theorem segment_byte {boot : BootBlock} {kernel : List Byte} {responses : List E820Response}
    {mem after : Memory} {header : ProgramHeader} (entered : Entered boot kernel responses mem after)
    (placed : PlacedSegment kernel header) (index : Nat)
    (inside : header.pVaddr + index < kernelBase + windowSize) :
    loadByte after pagingTableAddr ((header.pVaddr + index) % 0x100000000) =
      some (residentByte boot kernel responses mem (0x1000 + (header.pOffset + index))) := by
  have vaddr := placed.placed
  have above : kernelBase ≤ header.pVaddr := by
    unfold kernelBase
    omega
  have address : header.pVaddr - kernelBase + index =
      loaderLoadAddr + (0x1000 + (header.pOffset + index)) := by
    unfold kernelBase loaderLoadAddr
    omega
  rw [load_byte_kernel_wrapped entered.built.marked above inside, address, entered.image _ (by omega)]

theorem segment_ready_iff {boot : BootBlock} {kernel : List Byte} {responses : List E820Response}
    {mem after : Memory} {header : ProgramHeader} (entered : Entered boot kernel responses mem after)
    (placed : PlacedSegment kernel header) (short : loaderEnd kernel + 4 ≤ 0xfe00) :
    SegmentReady kernel after header ↔ SegmentSpared boot kernel responses mem header := by
  have vaddr := placed.placed
  have inFile := placed.inFile
  have sizes := placed.sizes
  have fileEnd : loaderEnd kernel = 0x1000 + kernel.length := rfl
  have limit : kernelBase + windowSize = 0xc4000000 := by decide
  have fileByte : ∀ index, index < header.pFilesz →
      (residentByte boot kernel responses mem (0x1000 + (header.pOffset + index)) =
        kernel.getD (header.pOffset + index) 0 ↔
          RecordsSpare kernel responses (header.pOffset + index)) :=
    fun index bound => resident_file_iff boot responses mem short (by omega)
  constructor
  · intro ready
    have window : header.pVaddr + header.pMemsz ≤ kernelBase + windowSize := by
      by_contra beyond
      have reached := ready (0xc4000000 - header.pVaddr) (by omega)
      have boundary : (header.pVaddr + (0xc4000000 - header.pVaddr)) % 0x100000000 =
          0xc4000000 := by omega
      rw [boundary, entered_window_end entered] at reached
      cases reached
    have bytes : ∀ index, index < header.pMemsz →
        residentByte boot kernel responses mem (0x1000 + (header.pOffset + index)) =
          if index < header.pFilesz then kernel.getD (header.pOffset + index) 0 else 0 := by
      intro index inside
      have byte := ready index inside
      rw [segment_byte entered placed index (by omega)] at byte
      exact Option.some.inj byte
    refine ⟨window, ?_, ?_⟩
    · intro index inside
      have byte := bytes index (by omega)
      rw [if_pos inside] at byte
      exact (fileByte index inside).mp byte
    · intro index tail inside
      rw [bytes index inside, if_neg (by omega)]
  · intro spared index inside
    rcases spared with ⟨window, file, zeroTail⟩
    rw [segment_byte entered placed index (by omega)]
    split_ifs with fromFile
    · rw [(fileByte index fromFile).mpr (file index fromFile)]
    · rw [zeroTail index (by omega) inside]

theorem program_headers_elf {kernel : List Byte} {headers : List ProgramHeader}
    (parsed : programHeaders kernel = some headers) :
    isElf kernel = true ∧ 52 ≤ kernel.length := by
  simp only [programHeaders] at parsed
  split at parsed
  · next checks =>
    simp only [Bool.and_eq_true, decide_eq_true_eq] at checks
    exact ⟨checks.1.1.1.1.1, checks.1.1.2⟩
  · cases parsed

theorem entered_entry_point_iff {boot : BootBlock} {kernel : List Byte}
    {responses : List E820Response} {mem after : Memory}
    (entered : Entered boot kernel responses mem after) (long : 52 ≤ kernel.length)
    (short : loaderEnd kernel + 4 ≤ 0xfe00) :
    loadLE after pagingTableAddr (kernelBase + 0x21018) 4 = some (entryPoint kernel) ↔
      ∀ index, index < 4 → RecordsSpare kernel responses (0x18 + index) := by
  have address : kernelBase + 0x21018 - kernelBase = 0x21018 := Nat.add_sub_cancel_left _ _
  have entryBytes : (List.range 4).map (fun index => kernel.getD (0x18 + index) 0) =
      readBytes (fun position => kernel.getD position 0) 0x18 4 := rfl
  have size : (readBytes (fun position => kernel.getD position 0) 0x18 4).length = 4 :=
    read_bytes_length _ _ _
  rw [load_le_kernel entered.built.marked (Nat.le_add_right _ _) (by decide), address, Option.some_inj,
    entryPoint, fileField, entryBytes, read_le_eq_iff after 0x21018 4 _ size]
  apply forall_congr'
  intro index
  apply forall_congr'
  intro bound
  have position : 0x21018 + index = loaderLoadAddr + (0x1000 + (0x18 + index)) := by
    unfold loaderLoadAddr
    omega
  rw [read_bytes_get_d _ _ bound, position, entered.image _ (by omega)]
  exact resident_file_iff boot responses mem short (by omega)

theorem boot_kernel_run {boot : BootBlock} {kernel : List Byte} {int13 : Int13}
    {headers : List ProgramHeader} (transfers : Transfers (diskByte boot kernel) int13)
    (parsed : programHeaders kernel = some headers) (short : loaderEnd kernel + 4 ≤ 0xfe00)
    (responses : List E820Response) (whole : complete responses = true) (mem : Memory) :
    (recordsEnd responses ≤ 0x10000 → ∃ after, Entered boot kernel responses mem after ∧
      bootKernel int13 kernel responses mem =
        (loadLE after pagingTableAddr (kernelBase + 0x21018) 4).map fun entry => (after, entry)) ∧
    (¬recordsEnd responses ≤ 0x10000 → bootKernel int13 kernel responses mem = none) := by
  obtain ⟨elf, _⟩ := program_headers_elf parsed
  obtain ⟨state, loaded, fitting, overrun⟩ := entered_run transfers elf short responses whole mem
  constructor
  · intro fits
    obtain ⟨after, handed, entered⟩ := fitting fits
    refine ⟨after, entered, ?_⟩
    simp only [bootKernel, loaded, handed]
  · intro past
    simp only [bootKernel, loaded, overrun past]

theorem kernel_ready_of_entered {boot : BootBlock} {kernel : List Byte} {int13 : Int13}
    {headers : List ProgramHeader} {responses : List E820Response} {mem after : Memory}
    (entered : Entered boot kernel responses mem after) (long : 52 ≤ kernel.length)
    (short : loaderEnd kernel + 4 ≤ 0xfe00)
    (booted : bootKernel int13 kernel responses mem =
      (loadLE after pagingTableAddr (kernelBase + 0x21018) 4).map fun entry => (after, entry)) :
    KernelReady int13 kernel headers responses mem ↔
      (∀ index, index < 4 → RecordsSpare kernel responses (0x18 + index)) ∧
        ∀ header ∈ loadSegments headers, SegmentReady kernel after header := by
  rw [← entered_entry_point_iff entered long short]
  constructor
  · intro kernelReady
    rcases kernelReady with ⟨other, otherBooted, ready⟩
    rw [booted, Option.map_eq_some_iff] at otherBooted
    obtain ⟨entry, fetched, same⟩ := otherBooted
    cases same
    exact ⟨fetched, ready⟩
  · intro parts
    rcases parts with ⟨fetched, ready⟩
    refine ⟨after, ?_, ready⟩
    rw [booted, fetched, Option.map_some]

/-- The kernel finds all its segments ready exactly when the memory map fits its segment and spares
the file, and every tail happens to be zero in the file behind it, in the padding, or in memory
before the boot. -/
theorem kernel_ready_iff {boot : BootBlock} {kernel : List Byte} {int13 : Int13}
    {headers : List ProgramHeader} (transfers : Transfers (diskByte boot kernel) int13)
    (parsed : programHeaders kernel = some headers)
    (placed : ∀ header ∈ loadSegments headers, PlacedSegment kernel header)
    (short : loaderEnd kernel + 4 ≤ 0xfe00) (responses : List E820Response)
    (whole : complete responses = true) (mem : Memory) :
    KernelReady int13 kernel headers responses mem ↔
      recordsEnd responses ≤ 0x10000 ∧
        (∀ index, index < 4 → RecordsSpare kernel responses (0x18 + index)) ∧
        ∀ header ∈ loadSegments headers, SegmentSpared boot kernel responses mem header := by
  obtain ⟨fitting, overrun⟩ := boot_kernel_run transfers parsed short responses whole mem
  by_cases fits : recordsEnd responses ≤ 0x10000
  · obtain ⟨after, entered, booted⟩ := fitting fits
    have segments : ∀ header, header ∈ loadSegments headers →
        (SegmentReady kernel after header ↔ SegmentSpared boot kernel responses mem header) :=
      fun header member => segment_ready_iff entered (placed header member) short
    rw [kernel_ready_of_entered entered (program_headers_elf parsed).2 short booted]
    constructor
    · intro parts
      rcases parts with ⟨entry, ready⟩
      exact ⟨fits, entry, fun header member => (segments header member).mp (ready header member)⟩
    · intro parts
      rcases parts with ⟨_, entry, spared⟩
      exact ⟨entry, fun header member => (segments header member).mpr (spared header member)⟩
  · constructor
    · intro ready
      rcases ready with ⟨after, booted, _⟩
      rw [overrun fits] at booted
      cases booted
    · intro parts
      rcases parts with ⟨within, _⟩
      exact absurd within fits

/-- A minimal executable: ELF header, one program header covering the 84 bytes of the file, and a
memory size of `memsz` bytes. -/
def sampleElf (memsz : Byte) : List Byte :=
  [0x7f, 0x45, 0x4c, 0x46, 1, 1, 1, 0, 0, 0, 0, 0, 0, 0, 0, 0,
    2, 0, 3, 0, 1, 0, 0, 0, 0x54, 0x10, 0x02, 0xc0, 0x34, 0, 0, 0,
    0, 0, 0, 0, 0, 0, 0, 0, 0x34, 0, 0x20, 0, 1, 0, 0x28, 0,
    0, 0, 0, 0,
    1, 0, 0, 0, 0, 0, 0, 0, 0x00, 0x10, 0x02, 0xc0, 0x00, 0x10, 0x02, 0xc0,
    0x54, 0, 0, 0, memsz, 0, 0, 0, 7, 0, 0, 0, 0, 0x10, 0, 0]

def sampleHeader (memsz : Nat) : ProgramHeader where
  pType := 1
  pOffset := 0
  pVaddr := 0xc0021000
  pFilesz := 0x54
  pMemsz := memsz

def singleResponse : List E820Response :=
  [{ carry := false, ebx := 0, record := { base := 0x100000, length := 0x1f00000, kind := 1 } }]

theorem sample_header_placed (memsz : Nat) (byte : Byte) (sizes : 0x54 ≤ memsz) :
    ∀ header ∈ loadSegments [sampleHeader memsz], PlacedSegment (sampleElf byte) header := by
  intro header member
  have only : header = sampleHeader memsz := List.mem_singleton.mp (List.mem_filter.mp member).1
  subst only
  exact ⟨rfl, Nat.le_refl _, sizes⟩

/-- Without a zero-initialised tail the sample executable is entered as intended. -/
theorem sample_kernel_ready :
    KernelReady (exactInt13 (diskByte sampleBoot (sampleElf 0x54))) (sampleElf 0x54)
      [sampleHeader 0x54] singleResponse (fun _ => 0xff) := by
  have beyond : ∀ position, RecordsSpare (sampleElf 0x54) singleResponse position := by
    intro position overwritten
    have records : recordsEnd singleResponse = 0x21c := by decide
    omega
  refine (kernel_ready_iff (exact_int13_transfers _) (by decide)
    (sample_header_placed 0x54 0x54 (by decide)) (by decide) singleResponse (by decide)
    _).mpr ⟨by decide, fun index _ => beyond _, ?_⟩
  intro header member
  have only : header = sampleHeader 0x54 := List.mem_singleton.mp (List.mem_filter.mp member).1
  subst only
  refine ⟨by decide, fun index _ => beyond _, ?_⟩
  intro index lower upper
  exact absurd upper (Nat.not_lt.mpr lower)

/-- With four zero-initialised bytes behind the file, the kernel reads `END_CHECK` there. -/
theorem zero_tail_holds_end_check :
    ¬∀ (boot : BootBlock) (kernel : List Byte) (int13 : Int13) (headers : List ProgramHeader)
      (responses : List E820Response) (mem : Memory), Transfers (diskByte boot kernel) int13 →
      programHeaders kernel = some headers →
      (∀ header ∈ loadSegments headers, PlacedSegment kernel header) →
      loaderEnd kernel + 4 ≤ 0xfe00 → complete responses = true →
      KernelReady int13 kernel headers responses mem := by
  intro ready
  have transfers := exact_int13_transfers (diskByte sampleBoot (sampleElf 0x58))
  have parsed : programHeaders (sampleElf 0x58) = some [sampleHeader 0x58] := by decide
  obtain ⟨after, entered, booted⟩ := (boot_kernel_run transfers parsed (by decide) singleResponse
    (by decide) (fun _ => 0)).1 (by decide)
  have segments := ((kernel_ready_of_entered entered (by decide) (by decide) booted).mp
    (ready sampleBoot (sampleElf 0x58) _ _ singleResponse (fun _ => 0) transfers parsed
      (sample_header_placed 0x58 0x58 (by decide)) (by decide) (by decide))).2
  have listed : sampleHeader 0x58 ∈ loadSegments [sampleHeader 0x58] := by decide
  have spared := (segment_ready_iff entered (sample_header_placed 0x58 0x58 (by decide) _ listed)
    (by decide)).mp (segments _ listed)
  exact absurd (spared.zeroTail 0x54 (by decide) (by decide)) (by decide)

end RondOS.KernelImage
