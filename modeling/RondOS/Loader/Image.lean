import RondOS.Lib.I386

/-!
# Equates and image layout

The assembler constants of `loader.s` and the bytes it emits: the loader page, the kernel file
included behind it, and the `END_CHECK` dword. `disk.s` places that image at the start of a disk.
-/

namespace RondOS.Image

open ByteMemory

set_option autoImplicit false

def pgTable : Nat := 0x00000001
def pgRw : Nat := 0x00000002
def pgUs : Nat := 0x00000004
def pgPage : Nat := 0x00000001

def loaderLoadAddr : Nat := 0x20000
def pagingTableAddr : Nat := 0xf000
def pagingPageAddr : Nat := 0x10000
def kernelBase : Nat := 0xc0000000

def windowSize : Nat := 0x4000000

def kernelSize : Nat := 0x200
def memlayoutlen : Nat := 0x204
def memlayoutbuf : Nat := 0x208

def endCheck : Nat := 0x2233aabb

/-- `LOADER_END`, which is also `END_CHECK_ADDR`: the loader page and the kernel file. -/
def loaderEnd (kernel : List Byte) : Nat := 0x1000 + kernel.length

def loaderDiskBlockCount (imageEnd : Nat) : Nat := (imageEnd + 511) / 512
def loaderDiskTime (imageEnd : Nat) : Nat := (loaderDiskBlockCount imageEnd + 127) / 128

/-- The first 4096 bytes of the image. The code starts with `mov ax, 0x07c0`; everything behind
the boot sector is zeroed words and padding. -/
structure BootBlock where
  byte : Nat → Byte
  opens : byte 0 = 0xb8
  blank : ∀ offset, 0x200 ≤ offset → offset < 0x1000 → byte offset = 0

def endCheckByte (index : Nat) : Byte := (leBytes 4 endCheck).getD index 0

/-- `loader.bin`: loader page, kernel file, `END_CHECK`. -/
def imageByte (boot : BootBlock) (kernel : List Byte) (offset : Nat) : Byte :=
  if offset < 0x1000 then boot.byte offset
  else if offset < loaderEnd kernel then kernel.getD (offset - 0x1000) 0
  else endCheckByte (offset - loaderEnd kernel)

/-- `disk.img`: the image, `nop` bytes up to the next block, zeros behind. -/
def diskByte (boot : BootBlock) (kernel : List Byte) (offset : Nat) : Byte :=
  if offset < loaderEnd kernel + 4 then imageByte boot kernel offset
  else if offset < (loaderEnd kernel + 4 + 511) / 512 * 512 then 0x90
  else 0

theorem disk_byte_image (boot : BootBlock) (kernel : List Byte) (offset : Nat)
    (inside : offset < loaderEnd kernel) :
    diskByte boot kernel offset = imageByte boot kernel offset := by
  rw [diskByte, if_pos (by omega)]

theorem disk_byte_kernel (boot : BootBlock) (kernel : List Byte) (offset : Nat)
    (inside : offset < kernel.length) :
    diskByte boot kernel (0x1000 + offset) = kernel.getD offset 0 := by
  have bound : 0x1000 + offset < loaderEnd kernel := by
    unfold loaderEnd
    omega
  rw [disk_byte_image boot kernel _ bound, imageByte, if_neg (by omega), if_pos bound,
    Nat.add_sub_cancel_left]

theorem disk_byte_end_check (boot : BootBlock) (kernel : List Byte) (index : Nat)
    (inside : index < 4) :
    diskByte boot kernel (loaderEnd kernel + index) = endCheckByte index := by
  have above : ¬loaderEnd kernel + index < 0x1000 := by
    unfold loaderEnd
    omega
  rw [diskByte, if_pos (by omega), imageByte, if_neg above, if_neg (by omega),
    Nat.add_sub_cancel_left]

theorem loader_disk_time_eq (imageEnd : Nat) :
    loaderDiskTime imageEnd = (imageEnd + 0xffff) / 0x10000 := by
  unfold loaderDiskTime loaderDiskBlockCount
  omega

end RondOS.Image
