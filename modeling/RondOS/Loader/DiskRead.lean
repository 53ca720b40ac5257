import RondOS.Loader.Image

/-!
# Reading the image from disk

`bios_read` issues one INT 13h call per 64 KiB of image and `check_read` probes two dwords. The
disk packet asks for 127 blocks while the block address advances by 128 and the buffer by 64 KiB,
so the last 512 bytes of every 64 KiB chunk keep their old content. The firmware call is a
parameter; what it does on success is a hypothesis about that parameter.
-/

namespace RondOS.DiskRead

open ByteMemory I386 Image

set_option autoImplicit false

structure DiskPacket where
  blkcnt : Nat
  dbAddrAddr : Nat
  dbAddrSeg : Nat
  dLba : Nat
  deriving DecidableEq

/-- INT 13h AH=42h: `none` is a set carry flag, otherwise memory and the returned block count. -/
abbrev Int13 := DiskPacket → Memory → Option (Memory × Nat)

def blockBytes (disk : Nat → Byte) (lba count : Nat) : List Byte :=
  (List.range (512 * count)).map fun index => disk (512 * lba + index)

/-- The call succeeds, transfers exactly the 127 requested blocks and leaves `blkcnt` alone. -/
def Transfers (disk : Nat → Byte) (int13 : Int13) : Prop :=
  ∀ packet mem, packet.blkcnt = 127 →
    int13 packet mem = some
      (writeBytes mem (linear packet.dbAddrSeg packet.dbAddrAddr) (blockBytes disk packet.dLba 127),
        127)

structure LoaderState where
  loadDiskCnt : Nat
  packet : DiskPacket
  issued : List DiskPacket
  mem : Memory

inductive LoadStop where
  | loadFail
  | fault
  | outOfFuel
  deriving DecidableEq

/-- `bios_read`. The counter has 16 bits, so 65536 trips always suffice as fuel. -/
def biosRead (int13 : Int13) : Nat → LoaderState → Except LoadStop LoaderState
  | 0, _ => .error .outOfFuel
  | fuel + 1, state =>
      match int13 state.packet state.mem with
      | none => .error .loadFail
      | some (mem, blkcnt) =>
          let count := (state.loadDiskCnt + 0xffff) % 0x10000
          let issued := state.issued ++ [state.packet]
          if count = 0 then
            .ok { loadDiskCnt := count, packet := { state.packet with blkcnt }, issued, mem }
          else
            biosRead int13 fuel
              { loadDiskCnt := count
                packet :=
                  { state.packet with
                    blkcnt
                    dbAddrSeg := (state.packet.dbAddrSeg + 0x1000) % 0x10000
                    dLba := (state.packet.dLba + 128) % 0x100000000 }
                issued, mem }

/-- `check_read`: the ELF magic without its first byte, then the `END_CHECK` dword. -/
def checkRead (imageEnd : Nat) (mem : Memory) : Except LoadStop Unit :=
  match loadSegDword mem 0x2000 0x1000 with
  | none => .error .fault
  | some eax =>
      if eax &&& 0xffffff00 ≠ 0x464c4500 then .error .loadFail
      else
        match loadSegDword mem (((imageEnd &&& 0xf0000) >>> 4) + 0x2000) (imageEnd &&& 0xffff) with
        | none => .error .fault
        | some probe => if probe = endCheck then .ok () else .error .loadFail

def initialState (imageEnd : Nat) (mem : Memory) : LoaderState where
  loadDiskCnt := loaderDiskTime imageEnd % 0x10000
  packet := { blkcnt := 127, dbAddrAddr := 0, dbAddrSeg := 0x2000, dLba := 0 }
  issued := []
  mem := mem

/-- The boot sector up to `jmp_rest`. -/
def loadImage (int13 : Int13) (imageEnd : Nat) (mem : Memory) : Except LoadStop LoaderState :=
  match biosRead int13 0x10000 (initialState imageEnd mem) with
  | .error stop => .error stop
  | .ok state =>
      match checkRead imageEnd state.mem with
      | .error stop => .error stop
      | .ok () => .ok state

def packetOf (round : Nat) : DiskPacket where
  blkcnt := 127
  dbAddrAddr := 0
  dbAddrSeg := 0x2000 + 0x1000 * round
  dLba := 128 * round

theorem block_bytes_length (disk : Nat → Byte) (lba count : Nat) :
    (blockBytes disk lba count).length = 512 * count := by
  simp [blockBytes]

theorem block_bytes_get (disk : Nat → Byte) (lba count index : Nat)
    (inside : index < (blockBytes disk lba count).length) :
    (blockBytes disk lba count).get ⟨index, inside⟩ = disk (512 * lba + index) := by
  simp [blockBytes]

theorem packet_of_transfer {disk : Nat → Byte} {int13 : Int13} (transfers : Transfers disk int13)
    (round : Nat) (mem : Memory) :
    int13 (packetOf round) mem = some
      (writeBytes mem (loaderLoadAddr + 0x10000 * round) (blockBytes disk (128 * round) 127), 127) := by
  have address : linear (packetOf round).dbAddrSeg (packetOf round).dbAddrAddr =
      loaderLoadAddr + 0x10000 * round := by
    simp only [linear, packetOf, loaderLoadAddr]
    omega
  rw [transfers (packetOf round) mem rfl, address]
  rfl

structure ChunksRead (disk : Nat → Byte) (first rounds : Nat) (before after : Memory) : Prop where
  chunk : ∀ offset, 0x10000 * first ≤ offset → offset < 0x10000 * (first + rounds) →
    after (loaderLoadAddr + offset) =
      if offset % 0x10000 < 0xfe00 then disk offset else before (loaderLoadAddr + offset)
  frame : ∀ addr, (addr < loaderLoadAddr + 0x10000 * first ∨
    loaderLoadAddr + 0x10000 * (first + rounds) ≤ addr) → after addr = before addr

theorem chunk_read_byte (disk : Nat → Byte) (round offset : Nat) (mem : Memory)
    (lower : 0x10000 * round ≤ offset) (upper : offset < 0x10000 * (round + 1)) :
    writeBytes mem (loaderLoadAddr + 0x10000 * round) (blockBytes disk (128 * round) 127)
      (loaderLoadAddr + offset) =
      if offset % 0x10000 < 0xfe00 then disk offset else mem (loaderLoadAddr + offset) := by
  have size := block_bytes_length disk (128 * round) 127
  split_ifs with read
  · have position : loaderLoadAddr + offset =
        loaderLoadAddr + 0x10000 * round + offset % 0x10000 := by omega
    have source : 512 * (128 * round) + offset % 0x10000 = offset := by omega
    rw [position, write_bytes_inside _ _ _ _ (by omega), block_bytes_get, source]
  · apply write_bytes_outside
    omega

theorem chunks_read_one (disk : Nat → Byte) (round : Nat) (mem : Memory) :
    ChunksRead disk round 1 mem
      (writeBytes mem (loaderLoadAddr + 0x10000 * round) (blockBytes disk (128 * round) 127)) where
  chunk := fun offset lower upper => chunk_read_byte disk round offset mem lower upper
  frame := by
    intro addr outside
    apply write_bytes_outside
    rw [block_bytes_length]
    by_contra inside
    omega

theorem chunks_read_cons {disk : Nat → Byte} {first rounds : Nat} {before middle after : Memory}
    (head : ChunksRead disk first 1 before middle)
    (tail : ChunksRead disk (first + 1) rounds middle after) :
    ChunksRead disk first (rounds + 1) before after := by
  have total : first + (rounds + 1) = first + 1 + rounds := by omega
  refine ⟨?_, ?_⟩
  · rw [total]
    intro offset lower upper
    by_cases here : offset < 0x10000 * (first + 1)
    · rw [tail.frame _ (Or.inl (Nat.add_lt_add_left here _)), head.chunk offset lower here]
    · have beyond := Nat.not_lt.mp here
      rw [tail.chunk offset beyond upper, head.frame _ (Or.inr (Nat.add_le_add_left beyond _))]
  · rw [total]
    intro addr outside
    have tailOutside : addr < loaderLoadAddr + 0x10000 * (first + 1) ∨
        loaderLoadAddr + 0x10000 * (first + 1 + rounds) ≤ addr := by
      by_contra inside
      omega
    have headOutside : addr < loaderLoadAddr + 0x10000 * first ∨
        loaderLoadAddr + 0x10000 * (first + 1) ≤ addr := by
      by_contra inside
      omega
    rw [tail.frame addr tailOutside, head.frame addr headOutside]

theorem bios_read_run {disk : Nat → Byte} {int13 : Int13} (transfers : Transfers disk int13)
    (rounds first fuel : Nat) (state : LoaderState) (bounded : first + (rounds + 1) ≤ 8)
    (enough : rounds + 1 ≤ fuel) (count : state.loadDiskCnt = rounds + 1)
    (packet : state.packet = packetOf first) :
    ∃ final, biosRead int13 fuel state = .ok final ∧
      final.issued =
        state.issued ++ (List.range (rounds + 1)).map (fun round => packetOf (first + round)) ∧
      ChunksRead disk first (rounds + 1) state.mem final.mem := by
  induction rounds generalizing first fuel state with
  | zero =>
      obtain ⟨fuel, rfl⟩ : ∃ remaining, fuel = remaining + 1 := ⟨fuel - 1, by omega⟩
      have last : (state.loadDiskCnt + 0xffff) % 0x10000 = 0 := by omega
      refine ⟨{ loadDiskCnt := 0
                packet := packetOf first
                issued := state.issued ++ [packetOf first]
                mem := writeBytes state.mem (loaderLoadAddr + 0x10000 * first)
                  (blockBytes disk (128 * first) 127) }, ?_, ?_, ?_⟩
      · simp only [biosRead, packet, packet_of_transfer transfers, last, if_true]
        rfl
      · simp
      · exact chunks_read_one disk first state.mem
  | succ rounds ih =>
      obtain ⟨fuel, rfl⟩ : ∃ remaining, fuel = remaining + 1 := ⟨fuel - 1, by omega⟩
      have remaining : (state.loadDiskCnt + 0xffff) % 0x10000 = rounds + 1 := by omega
      have segment : ((packetOf first).dbAddrSeg + 0x1000) % 0x10000 = 0x2000 + 0x1000 * (first + 1) := by
        simp only [packetOf]
        omega
      have block : ((packetOf first).dLba + 128) % 0x100000000 = 128 * (first + 1) := by
        simp only [packetOf]
        omega
      obtain ⟨final, run, issued, chunks⟩ := ih (first + 1) fuel
        { loadDiskCnt := rounds + 1
          packet := packetOf (first + 1)
          issued := state.issued ++ [packetOf first]
          mem := writeBytes state.mem (loaderLoadAddr + 0x10000 * first)
            (blockBytes disk (128 * first) 127) }
        (by omega) (by omega) rfl rfl
      refine ⟨final, ?_, ?_, ?_⟩
      · have more : ¬rounds + 1 = 0 := by omega
        simp only [biosRead, packet, packet_of_transfer transfers, remaining, if_neg more, segment,
          block]
        exact run
      · have shifted : (List.range (rounds + 1 + 1)).map (fun round => packetOf (first + round)) =
            packetOf first ::
              (List.range (rounds + 1)).map (fun round => packetOf (first + 1 + round)) := by
          rw [List.range_succ_eq_map, List.map_cons, List.map_map]
          simp only [Function.comp_def, Nat.succ_eq_add_one, Nat.add_zero, Nat.add_assoc,
            Nat.add_comm 1]
        rw [issued, shifted, List.append_assoc, List.singleton_append]
      · exact chunks_read_cons (chunks_read_one disk first state.mem) chunks

theorem elf_probe_iff (mem : Memory) (addr : Nat) :
    readLE mem addr 4 &&& 0xffffff00 = 0x464c4500 ↔
      mem (addr + 1) = 0x45#8 ∧ mem (addr + 2) = 0x4c#8 ∧ mem (addr + 3) = 0x46#8 := by
  have masked : readLE mem addr 4 &&& 0xffffff00 = readLE mem addr 4 / 256 % 16777216 * 256 :=
    and_field_mask (readLE mem addr 4) 8 24
  rw [masked, read_le_four]
  simp only [← BitVec.toNat_inj, BitVec.toNat_ofNat]
  omega

theorem end_probe_iff (mem : Memory) (addr : Nat) :
    readLE mem addr 4 = endCheck ↔ ∀ index, index < 4 → mem (addr + index) = endCheckByte index := by
  have value : leValue (leBytes 4 endCheck) = endCheck := by decide
  have probe := read_le_eq_iff mem addr 4 (leBytes 4 endCheck) (le_bytes_length 4 endCheck)
  rwa [value] at probe

/-- `check_read` accepts exactly when the three checked ELF bytes and the `END_CHECK` dword are in
memory, and the latter does not cross the end of its segment. -/
theorem check_read_ok_iff (imageEnd : Nat) (mem : Memory) (bounded : imageEnd + 4 ≤ 0x80000) :
    checkRead imageEnd mem = .ok () ↔
      (mem (loaderLoadAddr + 0x1001) = 0x45#8 ∧ mem (loaderLoadAddr + 0x1002) = 0x4c#8 ∧
        mem (loaderLoadAddr + 0x1003) = 0x46#8) ∧
      imageEnd % 0x10000 + 4 ≤ 0x10000 ∧
      ∀ index, index < 4 → mem (loaderLoadAddr + imageEnd + index) = endCheckByte index := by
  have offset : imageEnd &&& 0xffff = imageEnd % 0x10000 := Nat.and_two_pow_sub_one_eq_mod imageEnd 16
  have segment : imageEnd &&& 0xf0000 = imageEnd / 0x10000 % 0x10 * 0x10000 :=
    and_field_mask imageEnd 16 4
  have address : linear (((imageEnd &&& 0xf0000) >>> 4) + 0x2000) (imageEnd % 0x10000) =
      loaderLoadAddr + imageEnd := by
    rw [segment]
    simp only [linear, loaderLoadAddr]
    omega
  have first : loadSegDword mem 0x2000 0x1000 = some (readLE mem (loaderLoadAddr + 0x1000) 4) := by
    rw [loadSegDword, if_pos (by decide)]
    rfl
  have second : loadSegDword mem (((imageEnd &&& 0xf0000) >>> 4) + 0x2000) (imageEnd &&& 0xffff) =
      if imageEnd % 0x10000 + 4 ≤ 0x10000 then some (readLE mem (loaderLoadAddr + imageEnd) 4)
      else none := by
    rw [offset, loadSegDword, address]
  have magic := elf_probe_iff mem (loaderLoadAddr + 0x1000)
  have tail := end_probe_iff mem (loaderLoadAddr + imageEnd)
  rw [checkRead, first, second, ← magic, ← tail]
  by_cases accepted : readLE mem (loaderLoadAddr + 0x1000) 4 &&& 0xffffff00 = 0x464c4500
  · by_cases limit : imageEnd % 0x10000 + 4 ≤ 0x10000
    · by_cases found : readLE mem (loaderLoadAddr + imageEnd) 4 = endCheck
      · simp [accepted, limit, found]
      · simp [accepted, limit, found]
    · simp [accepted, limit]
  · simp [accepted]

/-- The bytes of the ELF magic that `check_read` compares; the mask drops the first one. -/
def CheckedMagic (kernel : List Byte) : Prop :=
  kernel.getD 1 0 = 0x45#8 ∧ kernel.getD 2 0 = 0x4c#8 ∧ kernel.getD 3 0 = 0x46#8

def isElf (kernel : List Byte) : Bool := kernel.take 4 == [0x7f#8, 0x45#8, 0x4c#8, 0x46#8]

theorem elf_has_checked_magic {kernel : List Byte} (elf : isElf kernel = true) :
    CheckedMagic kernel ∧ 4 ≤ kernel.length := by
  have leading : kernel.take 4 = [0x7f#8, 0x45#8, 0x4c#8, 0x46#8] := by simpa [isElf] using elf
  have split := List.take_append_drop 4 kernel
  rw [leading] at split
  rw [← split]
  exact ⟨⟨rfl, rfl, rfl⟩, by simp⟩

theorem checked_magic_length {kernel : List Byte} (magic : CheckedMagic kernel) :
    4 ≤ kernel.length := by
  by_contra short
  have missing : kernel.getD 3 0 = 0 := List.getD_eq_default _ _ (by omega)
  rw [magic.2.2] at missing
  exact absurd missing (by decide)

section ActualDisk

variable {boot : BootBlock} {kernel : List Byte} {int13 : Int13}

structure ImageRead (boot : BootBlock) (kernel : List Byte) (int13 : Int13) (mem : Memory)
    (final : LoaderState) : Prop where
  issued : final.issued = (List.range (loaderDiskTime (loaderEnd kernel))).map packetOf
  chunks : ChunksRead (diskByte boot kernel) 0 (loaderDiskTime (loaderEnd kernel)) mem final.mem
  outcome : ∀ state, loadImage int13 (loaderEnd kernel) mem = .ok state ↔
    state = final ∧ checkRead (loaderEnd kernel) final.mem = .ok ()

theorem image_read (transfers : Transfers (diskByte boot kernel) int13)
    (bounded : loaderEnd kernel + 4 ≤ 0x80000) (mem : Memory) :
    ∃ final, ImageRead boot kernel int13 mem final := by
  have time := loader_disk_time_eq (loaderEnd kernel)
  have nonempty : 0x1000 ≤ loaderEnd kernel := Nat.le_add_right _ _
  obtain ⟨rounds, roundsEq⟩ : ∃ rounds, loaderDiskTime (loaderEnd kernel) = rounds + 1 :=
    ⟨loaderDiskTime (loaderEnd kernel) - 1, by omega⟩
  obtain ⟨final, run, issued, chunks⟩ := bios_read_run transfers rounds 0 0x10000
    (initialState (loaderEnd kernel) mem) (by omega) (by omega)
    (by
      simp only [initialState, roundsEq]
      omega) rfl
  refine ⟨final, ?_, ?_, ?_⟩
  · rw [roundsEq, issued]
    simp [initialState]
  · rw [roundsEq]
    exact chunks
  · intro state
    rw [loadImage, run]
    cases checked : checkRead (loaderEnd kernel) final.mem with
    | error stop => simp [checked]
    | ok accepted => simp [checked, eq_comm]

theorem image_read_byte {mem : Memory} {final : LoaderState}
    (read : ImageRead boot kernel int13 mem final) {offset : Nat}
    (inside : offset < 0x10000 * loaderDiskTime (loaderEnd kernel))
    (covered : offset % 0x10000 < 0xfe00) :
    final.mem (loaderLoadAddr + offset) = diskByte boot kernel offset := by
  rw [read.chunks.chunk offset (by omega) (by simpa using inside), if_pos covered]

theorem image_read_skipped {mem : Memory} {final : LoaderState}
    (read : ImageRead boot kernel int13 mem final) {offset : Nat}
    (skipped : 0x10000 * loaderDiskTime (loaderEnd kernel) ≤ offset ∨
      0xfe00 ≤ offset % 0x10000) :
    final.mem (loaderLoadAddr + offset) = mem (loaderLoadAddr + offset) := by
  by_cases inside : offset < 0x10000 * loaderDiskTime (loaderEnd kernel)
  · rw [read.chunks.chunk offset (by omega) (by simpa using inside), if_neg (by omega)]
  · apply read.chunks.frame
    right
    simpa using Nat.not_lt.mp inside

theorem image_read_magic {mem : Memory} {final : LoaderState}
    (read : ImageRead boot kernel int13 mem final) (index : Nat) (inside : index < 4)
    (long : 4 ≤ kernel.length) :
    final.mem (loaderLoadAddr + (0x1000 + index)) = kernel.getD index 0 := by
  have time := loader_disk_time_eq (loaderEnd kernel)
  have nonempty : 0x1000 ≤ loaderEnd kernel := Nat.le_add_right _ _
  rw [image_read_byte read (by omega) (by omega), disk_byte_kernel _ _ _ (by omega)]

theorem image_accepted_iff {mem : Memory} {final : LoaderState}
    (read : ImageRead boot kernel int13 mem final) (long : 4 ≤ kernel.length)
    (bounded : loaderEnd kernel + 4 ≤ 0x80000) :
    checkRead (loaderEnd kernel) final.mem = .ok () ↔
      CheckedMagic kernel ∧ loaderEnd kernel % 0x10000 + 4 ≤ 0x10000 ∧
        ∀ index, index < 4 →
          final.mem (loaderLoadAddr + (loaderEnd kernel + index)) = endCheckByte index := by
  have first := image_read_magic read 1 (by decide) long
  have second := image_read_magic read 2 (by decide) long
  have third := image_read_magic read 3 (by decide) long
  rw [check_read_ok_iff _ _ bounded, first, second, third]
  simp only [CheckedMagic, Nat.add_assoc]

/-- The accepted image is completely in memory, for every memory content before the boot. -/
def AcceptedImageLoaded (boot : BootBlock) (kernel : List Byte) (int13 : Int13) : Prop :=
  ∀ mem state, loadImage int13 (loaderEnd kernel) mem = .ok state →
    ∀ offset, offset < loaderEnd kernel →
      state.mem (loaderLoadAddr + offset) = imageByte boot kernel offset

theorem accepted_image_loaded_of_short (transfers : Transfers (diskByte boot kernel) int13)
    (short : loaderEnd kernel ≤ 0xfe00) : AcceptedImageLoaded boot kernel int13 := by
  intro mem state accepted offset inside
  obtain ⟨final, read⟩ := image_read transfers (by omega) mem
  obtain ⟨rfl, _⟩ := (read.outcome state).mp accepted
  have time := loader_disk_time_eq (loaderEnd kernel)
  rw [image_read_byte read (by omega) (by omega), disk_byte_image _ _ _ inside]

def almostLoaded (boot : BootBlock) (kernel : List Byte) : Memory :=
  fun addr => if addr = loaderLoadAddr + 0xfe00 then ~~~diskByte boot kernel 0xfe00
    else diskByte boot kernel (addr - loaderLoadAddr)

theorem almost_loaded_else (boot : BootBlock) (kernel : List Byte) (offset : Nat)
    (other : offset ≠ 0xfe00) :
    almostLoaded boot kernel (loaderLoadAddr + offset) = diskByte boot kernel offset := by
  rw [almostLoaded, if_neg (by omega), Nat.add_sub_cancel_left]

/-- From 0xfe01 bytes on, block 127 belongs to the image and is never read; stale memory is then
accepted as long as the probes can succeed at all. -/
theorem accepted_image_stale (transfers : Transfers (diskByte boot kernel) int13)
    (bounded : loaderEnd kernel + 4 ≤ 0x80000) (long : 0xfe00 < loaderEnd kernel)
    (magic : CheckedMagic kernel) (limit : loaderEnd kernel % 0x10000 + 4 ≤ 0x10000) :
    ¬AcceptedImageLoaded boot kernel int13 := by
  intro loaded
  obtain ⟨final, read⟩ := image_read transfers bounded (almostLoaded boot kernel)
  have kept : ∀ offset, offset ≠ 0xfe00 →
      final.mem (loaderLoadAddr + offset) = diskByte boot kernel offset := by
    intro offset other
    by_cases covered : offset < 0x10000 * loaderDiskTime (loaderEnd kernel) ∧
        offset % 0x10000 < 0xfe00
    · exact image_read_byte read covered.1 covered.2
    · rw [image_read_skipped read (by omega), almost_loaded_else boot kernel offset other]
  have accepted := (image_accepted_iff read (checked_magic_length magic) bounded).mpr
    ⟨magic, limit, by
      intro index inside
      rw [kept _ (by omega), disk_byte_end_check _ _ _ inside]⟩
  have stale : final.mem (loaderLoadAddr + 0xfe00) = ~~~diskByte boot kernel 0xfe00 := by
    rw [image_read_skipped read (Or.inr (by decide)), almostLoaded, if_pos rfl]
  have image := loaded _ final ((read.outcome final).mpr ⟨rfl, accepted⟩) 0xfe00 long
  rw [stale, ← disk_byte_image boot kernel 0xfe00 long] at image
  have bit := congrArg (fun byte : Byte => byte.getLsbD 0) image
  simp at bit

/-- The exact condition for `check_read` to vouch for the image, kernel file by kernel file. -/
theorem accepted_image_loaded_iff (transfers : Transfers (diskByte boot kernel) int13)
    (bounded : loaderEnd kernel + 4 ≤ 0x80000) :
    AcceptedImageLoaded boot kernel int13 ↔
      loaderEnd kernel ≤ 0xfe00 ∨ ¬CheckedMagic kernel ∨ 0xfffc < loaderEnd kernel % 0x10000 := by
  constructor
  · intro loaded
    by_contra excluded
    simp only [not_or, not_not] at excluded
    obtain ⟨long, magic, limit⟩ := excluded
    exact accepted_image_stale transfers bounded (by omega) magic (by omega) loaded
  · intro condition
    by_cases short : loaderEnd kernel ≤ 0xfe00
    · exact accepted_image_loaded_of_short transfers short
    · intro mem state accepted
      obtain ⟨final, read⟩ := image_read transfers bounded mem
      have kernelLong : 4 ≤ kernel.length := by
        unfold loaderEnd at short
        omega
      have probes := (image_accepted_iff read kernelLong bounded).mp
        ((read.outcome state).mp accepted).2
      rcases condition with fits | noMagic | crosses
      · exact absurd fits short
      · exact absurd probes.1 noMagic
      · omega

/-- Every byte of the `END_CHECK` dword lies in a block that some issued packet asked for. -/
def EndCheckCovered (imageEnd : Nat) (issued : List DiskPacket) : Prop :=
  ∀ index, index < 4 → ∃ packet ∈ issued,
    512 * packet.dLba ≤ imageEnd + index ∧ imageEnd + index < 512 * (packet.dLba + packet.blkcnt)

/-- The image is accepted, and on the strength of what was read from the disk. -/
def GoodDiskAccepted (kernel : List Byte) (int13 : Int13) (mem : Memory) : Prop :=
  ∃ state, loadImage int13 (loaderEnd kernel) mem = .ok state ∧
    EndCheckCovered (loaderEnd kernel) state.issued

theorem end_check_covered_iff {mem : Memory} {final : LoaderState}
    (read : ImageRead boot kernel int13 mem final) :
    EndCheckCovered (loaderEnd kernel) final.issued ↔
      1 ≤ loaderEnd kernel % 0x10000 ∧ loaderEnd kernel % 0x10000 ≤ 0xfdfc := by
  have time := loader_disk_time_eq (loaderEnd kernel)
  rw [EndCheckCovered, read.issued]
  constructor
  · intro covered
    obtain ⟨first, firstMember, firstLower, firstUpper⟩ := covered 0 (by decide)
    obtain ⟨last, lastMember, lastLower, lastUpper⟩ := covered 3 (by decide)
    obtain ⟨firstRound, firstBound, rfl⟩ := List.mem_map.mp firstMember
    obtain ⟨lastRound, lastBound, rfl⟩ := List.mem_map.mp lastMember
    rw [List.mem_range] at firstBound lastBound
    simp only [packetOf] at firstLower firstUpper lastLower lastUpper
    omega
  · intro bounds index inside
    rcases bounds with ⟨lower, upper⟩
    refine ⟨packetOf (loaderEnd kernel / 0x10000), List.mem_map.mpr ⟨_, ?_, rfl⟩, ?_, ?_⟩
    · rw [List.mem_range]
      omega
    · simp only [packetOf]
      omega
    · simp only [packetOf]
      omega

/-- A good disk with an ELF kernel is accepted exactly when the image length leaves `END_CHECK`
inside one of the 127-block reads. -/
theorem good_disk_accepted_iff (transfers : Transfers (diskByte boot kernel) int13)
    (bounded : loaderEnd kernel + 4 ≤ 0x80000) (elf : isElf kernel = true) (mem : Memory) :
    GoodDiskAccepted kernel int13 mem ↔
      1 ≤ loaderEnd kernel % 0x10000 ∧ loaderEnd kernel % 0x10000 ≤ 0xfdfc := by
  obtain ⟨final, read⟩ := image_read transfers bounded mem
  obtain ⟨magic, long⟩ := elf_has_checked_magic elf
  have covered := end_check_covered_iff read
  have time := loader_disk_time_eq (loaderEnd kernel)
  constructor
  · intro good
    rcases good with ⟨state, accepted, issued⟩
    rw [((read.outcome state).mp accepted).1] at issued
    exact covered.mp issued
  · intro condition
    have accepted := (image_accepted_iff read long bounded).mpr ⟨magic, by omega, by
      intro index inside
      rw [image_read_byte read (by omega) (by omega), disk_byte_end_check _ _ _ inside]⟩
    exact ⟨final, (read.outcome final).mpr ⟨rfl, accepted⟩, covered.mpr condition⟩

end ActualDisk

def exactInt13 (disk : Nat → Byte) : Int13 := fun packet mem =>
  some (writeBytes mem (linear packet.dbAddrSeg packet.dbAddrAddr)
    (blockBytes disk packet.dLba packet.blkcnt), packet.blkcnt)

theorem exact_int13_transfers (disk : Nat → Byte) : Transfers disk (exactInt13 disk) := by
  intro packet mem count
  rw [exactInt13, count]

def sampleBoot : BootBlock where
  byte := fun offset => if offset = 0 then 0xb8 else if offset = 0x1fe then 0x55
    else if offset = 0x1ff then 0xaa else 0
  opens := rfl
  blank := by
    intro offset lower _
    rw [if_neg (by omega), if_neg (by omega), if_neg (by omega)]

def sampleKernel (length : Nat) : List Byte :=
  [0x7f#8, 0x45#8, 0x4c#8, 0x46#8] ++ List.replicate (length - 4) 1#8

theorem sample_kernel_elf (length : Nat) : isElf (sampleKernel length) = true := by
  simp [isElf, sampleKernel]

theorem sample_kernel_length (length : Nat) (long : 4 ≤ length) :
    (sampleKernel length).length = length := by
  simp only [sampleKernel, List.length_append, List.length_replicate, List.length_cons,
    List.length_nil]
  omega

theorem sample_loader_end (length : Nat) (long : 4 ≤ length) :
    loaderEnd (sampleKernel length) = 0x1000 + length := by
  rw [loaderEnd, sample_kernel_length length long]

theorem accepted_sample_loaded :
    AcceptedImageLoaded sampleBoot (sampleKernel 0x2000)
      (exactInt13 (diskByte sampleBoot (sampleKernel 0x2000))) := by
  have size := sample_loader_end 0x2000 (by decide)
  have exactly := accepted_image_loaded_iff
    (exact_int13_transfers (diskByte sampleBoot (sampleKernel 0x2000))) (by rw [size]; decide)
  exact exactly.mpr (Or.inl (by rw [size]; decide))

theorem sample_kernel_byte (length index : Nat) (lower : 4 ≤ index) (upper : index < length) :
    (sampleKernel length).getD index 0 = 1#8 := by
  rw [sampleKernel, List.getD_append_right _ _ _ _ (by simpa using lower),
    List.getD_eq_getElem _ _ (by simp; omega)]
  simp

/-- A 92 KiB kernel file (image end 0x18000) over zeroed memory: `check_read` jumps to `jmp_rest`
although block 127 was never read. -/
theorem accepted_image_misses_block :
    Transfers (diskByte sampleBoot (sampleKernel 0x17000))
        (exactInt13 (diskByte sampleBoot (sampleKernel 0x17000))) ∧
      loaderEnd (sampleKernel 0x17000) + 4 ≤ 0x80000 ∧
      ¬AcceptedImageLoaded sampleBoot (sampleKernel 0x17000)
        (exactInt13 (diskByte sampleBoot (sampleKernel 0x17000))) := by
  have size : loaderEnd (sampleKernel 0x17000) = 0x18000 := sample_loader_end 0x17000 (by decide)
  have transfers := exact_int13_transfers (diskByte sampleBoot (sampleKernel 0x17000))
  refine ⟨transfers, by rw [size]; decide, ?_⟩
  intro loaded
  obtain ⟨final, read⟩ := image_read transfers (by rw [size]; decide) (fun _ => 0)
  obtain ⟨magic, long⟩ := elf_has_checked_magic (sample_kernel_elf 0x17000)
  have time : loaderDiskTime (loaderEnd (sampleKernel 0x17000)) = 2 := by
    rw [size]
    decide
  have accepted := (image_accepted_iff read long (by rw [size]; decide)).mpr
    ⟨magic, by rw [size]; decide, by
      intro index inside
      rw [image_read_byte read (by rw [time, size]; omega) (by rw [size]; omega),
        disk_byte_end_check _ _ _ inside]⟩
  have image := loaded _ final ((read.outcome final).mpr ⟨rfl, accepted⟩) 0xfe00
    (by rw [size]; decide)
  rw [image_read_skipped read (Or.inr (by decide)),
    ← disk_byte_image _ _ _ (by rw [size]; decide), show 0xfe00 = 0x1000 + 0xee00 by rfl,
    disk_byte_kernel _ _ _ (by rw [sample_kernel_length _ (by decide)]; decide),
    sample_kernel_byte _ _ (by decide) (by decide)] at image
  exact absurd image (by decide)

theorem good_sample_accepted :
    GoodDiskAccepted (sampleKernel 0x2000)
      (exactInt13 (diskByte sampleBoot (sampleKernel 0x2000))) (fun _ => 0) := by
  have size := sample_loader_end 0x2000 (by decide)
  have exactly := good_disk_accepted_iff
    (exact_int13_transfers (diskByte sampleBoot (sampleKernel 0x2000))) (by rw [size]; decide)
    (sample_kernel_elf _) (fun _ => 0)
  exact exactly.mpr (by rw [size]; decide)

/-- With an image of exactly 64 KiB the computed single round stops right before `END_CHECK`. -/
theorem good_disk_rejected_at_chunk_end :
    ¬∀ (boot : BootBlock) (kernel : List Byte) (int13 : Int13) (mem : Memory),
      Transfers (diskByte boot kernel) int13 → loaderEnd kernel + 4 ≤ 0x80000 →
        isElf kernel = true → GoodDiskAccepted kernel int13 mem := by
  intro accepted
  have size := sample_loader_end 0xf000 (by decide)
  have transfers := exact_int13_transfers (diskByte sampleBoot (sampleKernel 0xf000))
  obtain ⟨state, loaded, covered⟩ := accepted sampleBoot (sampleKernel 0xf000) _ (fun _ => 0)
    transfers (by rw [size]; decide) (sample_kernel_elf _)
  obtain ⟨final, read⟩ := image_read transfers (by rw [size]; decide) (fun _ => 0)
  rw [((read.outcome state).mp loaded).1] at covered
  have inside := (end_check_covered_iff read).mp covered
  rw [size] at inside
  exact absurd inside (by decide)

end RondOS.DiskRead
