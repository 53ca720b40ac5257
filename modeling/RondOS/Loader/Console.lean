import RondOS.Loader.KernelImage

/-!
# What the loader prints

`puts` hands a string to the teletype of the BIOS, byte by byte up to a zero. The first two strings
are read from the boot sector that the BIOS has loaded, the last one from the copy in the image. The
module follows the output through loading and checking.
-/

namespace RondOS.LoaderConsole

open ByteMemory I386 Image DiskRead DetectMem KernelImage

set_option autoImplicit false

/-- `puts` with `ds` and `si`; the fuel covers a whole segment. -/
def putsLoop (mem : Memory) (ds : Nat) : Nat → Nat → Option (List Byte)
  | 0, _ => none
  | fuel + 1, si =>
      let al := mem (linear ds si)
      if al = 0 then some []
      else (putsLoop mem ds fuel ((si + 1) % 0x10000)).map fun rest => al :: rest

def puts (mem : Memory) (ds si : Nat) : Option (List Byte) := putsLoop mem ds 0x10000 si

def ascii (text : String) : List Byte := text.toList.map fun ch => BitVec.ofNat 8 ch.toNat

def strBootStart : List Byte := ascii "Booting" ++ [0x0d, 0x0a, 0]
def strLoadFail : List Byte := ascii "Load Fail" ++ [0x0d, 0x0a, 0]

/-- Assembled with `dd`: the text is filled up with a zero, and every number is a dword. -/
def strJumpIn : List Byte := ascii "Jump In" ++ [0] ++ leBytes 4 0x0d ++ leBytes 4 0x0a ++ leBytes 4 0

structure Holds (boot : BootBlock) (offset : Nat) (bytes : List Byte) : Prop where
  inside : offset + bytes.length ≤ 510
  placed : ∀ index, index < bytes.length → boot.byte (offset + index) = bytes.getD index 0

structure Strings (boot : BootBlock) where
  bootStart : Nat
  loadFail : Nat
  jumpIn : Nat
  bootStartHeld : Holds boot bootStart strBootStart
  loadFailHeld : Holds boot loadFail strLoadFail
  jumpInHeld : Holds boot jumpIn strJumpIn

/-- The boot sector with its output. A failed read leaves the boot sector as it was, and a fault
prints nothing more. -/
def bootOutput {boot : BootBlock} (strings : Strings boot) (int13 : Int13) (imageEnd : Nat)
    (mem : Memory) : Option (List Byte × Except LoadStop LoaderState) := do
  let start ← puts mem 0x07c0 strings.bootStart
  match biosRead int13 0x10000 (initialState imageEnd mem) with
  | .error .loadFail =>
      some (start ++ (← puts mem 0x07c0 strings.loadFail), .error .loadFail)
  | .error stop => some (start, .error stop)
  | .ok state =>
      match checkRead imageEnd state.mem with
      | .error .loadFail =>
          some (start ++ (← puts state.mem 0x07c0 strings.loadFail), .error .loadFail)
      | .error stop => some (start, .error stop)
      | .ok () => some (start ++ (← puts state.mem 0x2000 strings.jumpIn), .ok state)

theorem puts_loop_stored (mem : Memory) (ds : Nat) (shown rest : List Byte) (si fuel : Nat)
    (nonzero : ∀ ch ∈ shown, ch ≠ 0)
    (stored : ∀ index, index ≤ shown.length →
      mem (linear ds (si + index)) = (shown ++ 0 :: rest).getD index 0)
    (fits : si + shown.length < 0x10000) (enough : shown.length < fuel) :
    putsLoop mem ds fuel si = some shown := by
  induction shown generalizing si fuel with
  | nil =>
      have al : mem (linear ds si) = 0 := stored 0 (Nat.le_refl 0)
      cases fuel with
      | zero => cases enough
      | succ fuel => rw [putsLoop, al, if_pos rfl]
  | cons ch shown ih =>
      rw [List.length_cons] at fits enough stored
      have al : mem (linear ds si) = ch := stored 0 (Nat.zero_le _)
      have headNonzero : ch ≠ 0 := nonzero ch List.mem_cons_self
      cases fuel with
      | zero => omega
      | succ fuel =>
          have wrapped : (si + 1) % 0x10000 = si + 1 := by omega
          have remaining := ih (si + 1) fuel
            (fun other member => nonzero other (List.mem_cons_of_mem _ member))
            (by
              intro index inside
              have next := stored (index + 1) (by omega)
              rw [show si + 1 + index = si + (index + 1) by omega, next]
              rfl)
            (by omega) (by omega)
          rw [putsLoop, al, if_neg headNonzero, wrapped, remaining, Option.map_some]

theorem puts_held {boot : BootBlock} {mem : Memory} {ds offset : Nat} {shown rest : List Byte}
    (held : Holds boot offset (shown ++ 0 :: rest)) (nonzero : ∀ ch ∈ shown, ch ≠ 0)
    (sector : ∀ index, index < 0x200 → mem (linear ds index) = boot.byte index) :
    puts mem ds offset = some shown := by
  have inside := held.inside
  have length : (shown ++ 0 :: rest).length = shown.length + 1 + rest.length := by
    rw [List.length_append, List.length_cons]
    omega
  apply puts_loop_stored mem ds shown rest offset 0x10000 nonzero
  · intro index bound
    rw [sector _ (by omega), held.placed index (by omega)]
  · omega
  · omega

def announced : Except LoadStop LoaderState → List Byte
  | .ok _ => ascii "Jump In"
  | .error .loadFail => ascii "Load Fail\r\n"
  | .error _ => []

/-- The console tells how loading went, whatever the disk holds: after `Booting` comes `Load Fail`
exactly when the loader stops in its loop, and `Jump In` exactly when it goes on, read from the
loaded image and without the line end that its source spells out. -/
theorem output_tells_outcome (boot : BootBlock) (strings : Strings boot) (kernel : List Byte)
    (int13 : Int13) (mem : Memory) (transfers : Transfers (diskByte boot kernel) int13)
    (bounded : loaderEnd kernel + 4 ≤ 0x80000)
    (sector : ∀ offset, offset < 0x200 → mem (0x7c00 + offset) = boot.byte offset) :
    bootOutput strings int13 (loaderEnd kernel) mem =
      some (ascii "Booting\r\n" ++ announced (loadImage int13 (loaderEnd kernel) mem),
        loadImage int13 (loaderEnd kernel) mem) := by
  have time := loader_disk_time_eq (loaderEnd kernel)
  have nonempty : 0x1000 ≤ loaderEnd kernel := Nat.le_add_right _ _
  obtain ⟨rounds, roundsEq⟩ : ∃ rounds, loaderDiskTime (loaderEnd kernel) = rounds + 1 :=
    ⟨loaderDiskTime (loaderEnd kernel) - 1, by omega⟩
  obtain ⟨final, run, _, chunks⟩ := bios_read_run transfers rounds 0 0x10000
    (initialState (loaderEnd kernel) mem) (by omega) (by omega)
    (by
      simp only [initialState, roundsEq]
      omega) rfl
  have low : ∀ offset, offset < 0x200 → mem (linear 0x07c0 offset) = boot.byte offset := by
    intro offset inside
    exact sector offset inside
  have kept : ∀ offset, offset < 0x200 → final.mem (linear 0x07c0 offset) = boot.byte offset := by
    intro offset inside
    have below : linear 0x07c0 offset < loaderLoadAddr + 0x10000 * 0 := by
      unfold linear loaderLoadAddr
      omega
    rw [chunks.frame _ (Or.inl below)]
    exact low offset inside
  have copy : ∀ offset, offset < 0x200 → final.mem (linear 0x2000 offset) = boot.byte offset := by
    intro offset inside
    have address : linear 0x2000 offset = loaderLoadAddr + offset := rfl
    rw [address, chunks.chunk offset (by omega) (by omega), if_pos (by omega),
      disk_byte_image _ _ _ (by omega), imageByte, if_pos (by omega)]
  have booting : strBootStart = ascii "Booting\r\n" ++ 0 :: [] := by decide
  have failing : strLoadFail = ascii "Load Fail\r\n" ++ 0 :: [] := by decide
  have jumping : strJumpIn =
      ascii "Jump In" ++ 0 :: (leBytes 4 0x0d ++ leBytes 4 0x0a ++ leBytes 4 0) := by decide
  have start := puts_held (booting ▸ strings.bootStartHeld) (by decide) low
  have failed := puts_held (failing ▸ strings.loadFailHeld) (by decide) kept
  have jumped := puts_held (jumping ▸ strings.jumpInHeld) (by decide) copy
  rw [bootOutput, start, Option.bind_eq_bind, Option.bind_some, loadImage, run]
  cases checked : checkRead (loaderEnd kernel) final.mem with
  | error stop =>
      cases stop with
      | loadFail => simp only [checked, failed, Option.bind_some, announced]
      | fault => simp only [checked, announced, List.append_nil]
      | outOfFuel => simp only [checked, announced, List.append_nil]
  | ok accepted => simp only [checked, jumped, Option.bind_some, announced]

/-- A boot sector with nothing in it but the first opcode and the strings, from offset 0x100 on. -/
def stringByte (offset : Nat) : Byte :=
  if offset = 0 then 0xb8 else if offset < 0x100 then 0
  else (strBootStart ++ strLoadFail ++ strJumpIn).getD (offset - 0x100) 0

theorem string_byte_blank (offset : Nat) (lower : 0x200 ≤ offset) : stringByte offset = 0 := by
  have length : (strBootStart ++ strLoadFail ++ strJumpIn).length = 42 := by decide
  rw [stringByte, if_neg (by omega), if_neg (by omega)]
  exact List.getD_eq_default _ _ (by omega)

def stringBoot : BootBlock where
  byte := stringByte
  opens := rfl
  blank := fun offset lower _ => string_byte_blank offset lower

theorem strings_held :
    Holds stringBoot 0x100 strBootStart ∧ Holds stringBoot 0x10a strLoadFail ∧
      Holds stringBoot 0x116 strJumpIn :=
  ⟨⟨by decide, by decide⟩, ⟨by decide, by decide⟩, ⟨by decide, by decide⟩⟩

def bootStrings : Strings stringBoot where
  bootStart := 0x100
  loadFail := 0x10a
  jumpIn := 0x116
  bootStartHeld := strings_held.1
  loadFailHeld := strings_held.2.1
  jumpInHeld := strings_held.2.2

def bootMemory : Memory := fun addr => if addr < 0x7c00 then 0xff else stringByte (addr - 0x7c00)

theorem sample_output :
    ∃ result, bootOutput bootStrings (exactInt13 (diskByte stringBoot (sampleElf 0x54)))
      (loaderEnd (sampleElf 0x54)) bootMemory = some (ascii "Booting\r\nJump In", .ok result) := by
  have transfers := exact_int13_transfers (diskByte stringBoot (sampleElf 0x54))
  obtain ⟨state, loaded, _⟩ := entered_run transfers (by decide) (by decide) singleResponse
    (by decide) bootMemory
  have printed := output_tells_outcome stringBoot bootStrings (sampleElf 0x54) _ bootMemory transfers
    (by decide) (by
      intro offset _
      rw [bootMemory, if_neg (by omega), Nat.add_sub_cancel_left]
      rfl)
  rw [loaded] at printed
  exact ⟨state, printed⟩

end RondOS.LoaderConsole
