import RondOS.Kernel.BitArray
import RondOS.Kernel.PageSafety

/-!
# The bitmap and the pages it accounts for share no byte

`default` reserves whole pages for the bitmap at the front of the memory it was told about and
manages what is left. Rounding happens three times on the way, always so that the bitmap fits its
reserve and the reserve with all managed pages fits the memory. The bitmap's methods touch only the
reserve, and every page handed out lies behind it.
-/

namespace RondOS.PageFootprint

open ByteMemory RustWord Footprint PageBitmap BitArray PageAlloc PageSafety

set_option autoImplicit false

def bitmapBytes (bits : BitMap) : Set Nat :=
  { addr | ∃ index, index < byteCount bits ∧ addr = bits.byteAddr index }

/-- No method of the bitmap reads or writes outside the region, also when an assertion stops it. -/
structure TouchesOnly (prof : Profile) (bits : BitMap) (region : Set Nat) : Prop where
  new : Confined region
    (attempt fun mem => (BitMap.new prof bits.dataPtr bits.size mem).map Prod.snd)
  test : ∀ idx, ReadsOnly region fun mem => bits.test mem idx
  clear : ∀ idx, Confined region (attempt (bits.clear idx))
  mark : ∀ idx, Confined region (attempt (bits.mark idx))
  flip : ∀ idx, Confined region (attempt (bits.flip idx))
  flips : ∀ idx len, Confined region (bits.flipsAt prof idx len)
  set : ∀ val idx, Confined region (attempt (bits.set val idx))
  sets : ∀ idx len val, Confined region (bits.setsAt prof idx len val)
  contains : ∀ start len val, ReadsOnly region fun mem => bits.contains prof mem start len val
  find : ∀ start len val, ReadsOnly region fun mem => bits.find prof mem start len val
  all : ∀ start len, ReadsOnly region fun mem => bits.all prof mem start len
  any : ∀ start len, ReadsOnly region fun mem => bits.any prof mem start len

section Methods

variable (prof : Profile) (bits : BitMap)

theorem byte_of_bit {idx : Usize} (inside : idx < bits.size) :
    bits.byteAddr (idx.toNat / 8) ∈ bitmapBytes bits := by
  have bound := BitVec.lt_def.mp inside
  refine ⟨idx.toNat / 8, ?_, rfl⟩
  unfold byteCount
  omega

theorem test_reads (idx : Usize) :
    ReadsOnly (bitmapBytes bits) fun mem => bits.test mem idx := by
  intro mem other agree
  simp only [BitMap.test]
  split_ifs with inside
  · rw [agree (byte_of_bit bits inside)]
  · rfl

theorem modify_confined (combine : Byte → Byte → Byte) (idx : Usize) :
    Confined (bitmapBytes bits) (attempt (BitMap.modify combine bits idx)) := by
  by_cases inside : idx < bits.size
  · have home := byte_of_bit bits inside
    have ran : ∀ mem, BitMap.modify combine bits idx mem =
        some (Function.update mem (bits.byteAddr (idx.toNat / 8))
          (combine (mem (bits.byteAddr (idx.toNat / 8))) (bitMask idx))) :=
      fun mem => if_pos inside
    apply confined_of_effect ran
    · intro mem addr outside
      apply Function.update_of_ne
      intro same
      subst same
      exact outside home
    · intro mem other agree addr member
      rw [agree home]
      by_cases same : addr = bits.byteAddr (idx.toNat / 8)
      · rw [same, Function.update_self, Function.update_self]
      · rw [Function.update_of_ne same, Function.update_of_ne same]
        exact agree member
  · exact confined_of_gives_up fun mem => if_neg inside

theorem set_confined (val : Bool) (idx : Usize) :
    Confined (bitmapBytes bits) (attempt (bits.set val idx)) := by
  cases val with
  | true =>
      have same : bits.set true idx = bits.mark idx := by
        funext mem
        by_cases inside : idx < bits.size <;>
          simp [BitMap.set, BitMap.mark, BitMap.modify, inside]
      rw [same]
      exact modify_confined bits _ idx
  | false =>
      have same : bits.set false idx = bits.clear idx := by
        funext mem
        by_cases inside : idx < bits.size <;>
          simp [BitMap.set, BitMap.clear, BitMap.modify, inside]
      rw [same]
      exact modify_confined bits _ idx

theorem for_each_bit_confined {act : Usize → Memory → Option Memory}
    (single : ∀ idx, Confined (bitmapBytes bits) (attempt (act idx))) (idx len : Usize) :
    Confined (bitmapBytes bits) (forEachBitAt prof act idx len) := by
  apply Confined.attempt_each
  intro i
  cases sum : prof.add idx i with
  | none => exact confined_of_gives_up fun _ => rfl
  | some position => exact single position

theorem contains_reads (start len : Usize) (val : Bool) :
    ReadsOnly (bitmapBytes bits) fun mem => bits.contains prof mem start len val := by
  intro mem other agree
  have tests : ∀ idx, bits.test mem idx = bits.test other idx :=
    fun idx => test_reads bits idx mem other agree
  have probes : bits.probe prof mem start val = bits.probe prof other start val := by
    funext i
    simp only [BitMap.probe, tests]
  simp only [BitMap.contains, probes]

theorem find_reads (start len : Usize) (val : Bool) :
    ReadsOnly (bitmapBytes bits) fun mem => bits.find prof mem start len val := by
  intro mem other agree
  have scans : ∀ i, bits.contains prof mem i len (!val) = bits.contains prof other i len (!val) :=
    fun i => contains_reads prof bits i len (!val) mem other agree
  simp only [BitMap.find, scans]

theorem memset_outside {sum : Usize} (padded : prof.add bits.size 7 = some sum) (mem : Memory)
    {addr : Nat} (outside : addr ∉ bitmapBytes bits) :
    memset mem bits.dataPtr 0 (sum / 8).toNat addr = mem addr := by
  have pointer := bits.dataPtr.isLt
  have short : (sum / 8).toNat ≤ byteCount bits := by
    rw [eq_add_of_some padded, BitVec.toNat_udiv, BitVec.toNat_add]
    change (bits.size.toNat + 7) % 0x100000000 / 8 ≤ (bits.size.toNat + 7) / 8
    omega
  apply if_neg
  intro hit
  apply outside
  refine ⟨_, Nat.lt_of_lt_of_le hit.2 short, ?_⟩
  unfold BitMap.byteAddr
  omega

theorem new_confined :
    Confined (bitmapBytes bits)
      (attempt fun mem => (BitMap.new prof bits.dataPtr bits.size mem).map Prod.snd) := by
  cases padded : prof.add bits.size 7 with
  | none =>
      apply confined_of_gives_up
      intro mem
      rw [BitMap.new, padded]
      rfl
  | some sum =>
      have ran : ∀ mem, (BitMap.new prof bits.dataPtr bits.size mem).map Prod.snd =
          some (memset mem bits.dataPtr 0 (sum / 8).toNat) := by
        intro mem
        rw [BitMap.new, padded]
        rfl
      apply confined_of_effect ran
      · intro mem addr outside
        exact memset_outside prof bits padded mem outside
      · intro mem other agree addr member
        unfold memset
        rw [agree member]

theorem touches_only_bitmap : TouchesOnly prof bits (bitmapBytes bits) where
  new := new_confined prof bits
  test := test_reads bits
  clear := modify_confined bits _
  mark := modify_confined bits _
  flip := modify_confined bits _
  flips := for_each_bit_confined prof bits (modify_confined bits _)
  set := set_confined bits
  sets := fun idx len val => for_each_bit_confined prof bits (set_confined bits val) idx len
  contains := contains_reads prof bits
  find := find_reads prof bits
  all := fun start len mem other agree =>
    congrArg (Option.map (!·)) (contains_reads prof bits start len false mem other agree)
  any := fun start len => contains_reads prof bits start len true

end Methods

/-- A run with arbitrary calls, legal or not, and all blocks that `get_page` handed out on the way.
Whoever got a block may write to it at any time, at addresses that wrap like pointers. -/
inductive Run (prof : Profile) (alloc : PageAllocator) (start : Memory) :
    List Block → Memory → Prop
  | created : Run prof alloc start [] start
  | getPage {handed : List Block} {mem after : Memory} {cnt page : Usize} :
      Run prof alloc start handed mem → alloc.getPage prof cnt mem = some (some page, after) →
      Run prof alloc start ({ page, cnt } :: handed) after
  | called {handed : List Block} {mem after : Memory} (call : Call) :
      Run prof alloc start handed mem → call.run prof alloc mem = some after →
      Run prof alloc start handed after
  | ownerWrite {handed : List Block} {mem : Memory} {block : Block} {offset : Nat} {value : Byte} :
      Run prof alloc start handed mem → block ∈ handed → offset < 4096 * block.cnt.toNat →
      Run prof alloc start handed
        (Function.update mem ((block.page.toNat + offset) % 0x100000000) value)

/-- In exact arithmetic the block starts `offset` bytes behind the bitmap's address, past the
reserve, and ends within the memory size. -/
structure InPool (memsize : Nat) (block : Block) (offset : Nat) : Prop where
  address : block.page.toNat = (0xc0100000 + offset) % 0x100000000
  behind : 4096 * bitmapPages (memsize / 4096) ≤ offset
  within : offset + 4096 * block.cnt.toNat ≤ memsize

theorem get_page_in_pool {prof : Profile} {memsize : Nat} (word : memsize < 0x100000000)
    {cnt page : Usize} {mem after : Memory}
    (completed : (placedAllocator (memsize / 4096)).getPage prof cnt mem =
      some (some page, after)) :
    ∃ offset, InPool memsize { page, cnt } offset := by
  have bounded : memsize / 4096 < 0x100000 := by omega
  have size := placed_size _ bounded
  have base := placed_base _ bounded
  have reserved := bitmap_pages_le (memsize / 4096)
  obtain ⟨idx, found, _, rfl⟩ := get_page_some completed
  obtain ⟨_, inside, _⟩ := found_run found
  refine ⟨4096 * bitmapPages (memsize / 4096) + 4096 * idx.toNat, ?_, by omega, ?_⟩
  · change ((placedAllocator (memsize / 4096)).baseAddr + idx * 4096).toNat = _
    rw [BitVec.toNat_add, BitVec.toNat_mul, base]
    change (_ + idx.toNat * 4096 % 0x100000000) % 0x100000000 = _
    omega
  · change _ + 4096 * cnt.toNat ≤ memsize
    omega

theorem Run.in_pool {prof : Profile} {memsize : Nat} (word : memsize < 0x100000000)
    {start mem : Memory} {handed : List Block}
    (run : Run prof (placedAllocator (memsize / 4096)) start handed mem) :
    ∀ block ∈ handed, ∃ offset, InPool memsize block offset := by
  induction run with
  | created =>
      intro block member
      cases member
  | getPage _ completed ih =>
      intro block member
      rcases List.mem_cons.mp member with rfl | member
      · exact get_page_in_pool word completed
      · exact ih block member
  | called _ _ _ ih => exact ih
  | ownerWrite _ _ _ ih => exact ih

theorem placed_byte_count_le (pages : Nat) (bounded : pages < 0x100000) :
    byteCount (placedAllocator pages).bitmap ≤ 4096 * bitmapPages pages := by
  rw [byteCount, placed_size pages bounded, bitmapPages]
  omega

theorem InPool.misses_bitmap {memsize offset : Nat} {block : Block} (word : memsize < 0x100000000)
    (pooled : InPool memsize block offset) {position : Nat}
    (inBlock : position < 4096 * block.cnt.toNat) :
    (block.page.toNat + position) % 0x100000000 ∉
      bitmapBytes (placedAllocator (memsize / 4096)).bitmap := by
  intro shared
  rcases shared with ⟨index, stored, same⟩
  have fits := placed_byte_count_le (memsize / 4096) (by omega)
  have pointer : (placedAllocator (memsize / 4096)).bitmap.dataPtr.toNat = 0xc0100000 := rfl
  have address := pooled.address
  have behind := pooled.behind
  have within := pooled.within
  rw [BitMap.byteAddr, pointer] at same
  omega

/-- For every memory size the placement is exact, the bitmap fits its reserve, the reserve and the
managed pages fit the memory, and no byte that a method of the bitmap touches is ever handed out. -/
theorem bitmap_apart_from_pages (prof : Profile) (memsize : Usize) (initial : Memory) :
    ∃ alloc start, PageAllocator.ofMemsize prof memsize initial = some (alloc, start) ∧
      alloc.bitmap.dataPtr = 0xc0100000 ∧
      bitmapPages (memsize.toNat / 4096) ≤ memsize.toNat / 4096 ∧
      alloc.bitmap.size.toNat = memsize.toNat / 4096 - bitmapPages (memsize.toNat / 4096) ∧
      alloc.baseAddr.toNat = 0xc0100000 + 4096 * bitmapPages (memsize.toNat / 4096) ∧
      byteCount alloc.bitmap ≤ 4096 * bitmapPages (memsize.toNat / 4096) ∧
      4096 * bitmapPages (memsize.toNat / 4096) + 4096 * alloc.bitmap.size.toNat ≤ memsize.toNat ∧
      TouchesOnly prof alloc.bitmap (bitmapBytes alloc.bitmap) ∧
      ∀ handed mem, Run prof alloc start handed mem → ∀ block ∈ handed,
        (∃ offset, InPool memsize.toNat block offset) ∧
        ∀ position, position < 4096 * block.cnt.toNat →
          (block.page.toNat + position) % 0x100000000 ∉ bitmapBytes alloc.bitmap := by
  have word : memsize.toNat < 0x100000000 := memsize.isLt
  have bounded : memsize.toNat / 4096 < 0x100000 := by omega
  have size := placed_size _ bounded
  have reserved := bitmap_pages_le (memsize.toNat / 4096)
  refine ⟨_, _, of_memsize_eq prof memsize initial, rfl, reserved, size, placed_base _ bounded,
    placed_byte_count_le _ bounded, by omega, touches_only_bitmap prof _, ?_⟩
  intro handed mem run block member
  obtain ⟨offset, pooled⟩ := run.in_pool word block member
  refine ⟨⟨offset, pooled⟩, ?_⟩
  intro position inBlock
  exact pooled.misses_bitmap word inBlock

end RondOS.PageFootprint
