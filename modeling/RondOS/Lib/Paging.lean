import RondOS.Lib.I386

/-!
# Paging with accessed and dirty bits

The walk of `I386` only reads. The processor also writes: an access sets the accessed bits of both
entries it uses, and a store the dirty bit of the second. `Marked` relates memories that differ in
nothing else. The walk does not tell them apart, so on mapped addresses loads and stores are those
of plain memory, up to marks.
-/

namespace Paging

open ByteMemory I386

set_option autoImplicit false

def directoryAddr (cr3 va : Nat) : Nat := entryFrame cr3 + 4 * (va / 0x400000 % 0x400)

def tableAddr (pde va : Nat) : Nat := entryFrame pde + 4 * (va / 0x1000 % 0x400)

def setFlags (mem : Memory) (addr : Nat) (flags : Byte) : Memory :=
  Function.update mem addr (mem addr ||| flags)

/-- What an access leaves in its two entries: bit 5, and after a store bit 6 in the table entry. -/
def touch (store : Bool) (mem : Memory) (cr3 va pde : Nat) : Memory :=
  setFlags (setFlags mem (directoryAddr cr3 va) 0x20) (tableAddr pde va)
    (if store then 0x60 else 0x20)

/-- A supervisor access under `CR0.WP`. -/
def access (store : Bool) (mem : Memory) (cr3 va : Nat) : Option (Nat × Memory) := do
  let found ← walk mem cr3 va
  if store && !(entryWritable found.pde && entryWritable found.pte) then none
  else some (found.phys, touch store mem cr3 va found.pde)

/-- An operand of `width` bytes is translated as a whole before any of it is read or written. -/
def accesses (store : Bool) (mem : Memory) (cr3 va : Nat) : Nat → Option (List Nat × Memory)
  | 0 => some ([], mem)
  | width + 1 => do
      let (places, touched) ← accesses store mem cr3 va width
      let (phys, touched) ← access store touched cr3 ((va + width) % 0x100000000)
      some (places ++ [phys], touched)

def fetchBytes (mem : Memory) (cr3 va width : Nat) : Option (List Byte × Memory) := do
  let (places, touched) ← accesses false mem cr3 va width
  some (places.map touched, touched)

def load (mem : Memory) (cr3 va width : Nat) : Option (Nat × Memory) :=
  (fetchBytes mem cr3 va width).map fun fetched => (leValue fetched.1, fetched.2)

def scatter (mem : Memory) (places : List Nat) (bytes : List Byte) : Memory :=
  (places.zip bytes).foldl (fun current place => Function.update current place.1 place.2) mem

def store (mem : Memory) (cr3 va width value : Nat) : Option Memory := do
  let (places, touched) ← accesses true mem cr3 va width
  some (scatter touched places (leBytes width value))

/-- The byte is the same, or the low byte of an entry and the same up to its two marks. -/
def MarkedAt (entries : Nat → Prop) (before after : Memory) (target : Nat) : Prop :=
  after target = before target ∨
    entries target ∧ after target ||| 0x60 = before target ||| 0x60

def Marked (entries : Nat → Prop) (before after : Memory) : Prop :=
  ∀ target, MarkedAt entries before after target

def unmarked (entry : Nat) : Nat := entry / 0x80 * 0x80 + entry % 0x20

/-- Physical memory differs at most from `first` up to `last`, and in marks. -/
def OnlyBetween (entries : Nat → Prop) (first last : Nat) (before after : Memory) : Prop :=
  ∀ target, target < first ∨ last ≤ target → MarkedAt entries before after target

section Marks

variable {entries : Nat → Prop} {before middle after : Memory}

theorem MarkedAt.refl {target : Nat} : MarkedAt entries before before target := Or.inl rfl

theorem MarkedAt.symm {target : Nat} (marked : MarkedAt entries before after target) :
    MarkedAt entries after before target := by
  rcases marked with same | ⟨entry, same⟩
  · exact Or.inl same.symm
  · exact Or.inr ⟨entry, same.symm⟩

theorem MarkedAt.trans {target : Nat} (front : MarkedAt entries before middle target)
    (back : MarkedAt entries middle after target) : MarkedAt entries before after target := by
  rcases front with same | ⟨entry, same⟩
  · rw [MarkedAt, ← same]
    exact back
  · rcases back with kept | ⟨_, kept⟩
    · exact Or.inr ⟨entry, by rw [kept, same]⟩
    · exact Or.inr ⟨entry, kept.trans same⟩

theorem MarkedAt.eq {target : Nat} (marked : MarkedAt entries before after target)
    (clear : ¬entries target) : after target = before target := by
  rcases marked with same | ⟨entry, _⟩
  · exact same
  · exact absurd entry clear

theorem Marked.refl (mem : Memory) : Marked entries mem mem := fun _ => .refl

theorem Marked.symm (marked : Marked entries before after) : Marked entries after before :=
  fun target => (marked target).symm

theorem Marked.trans (front : Marked entries before middle) (back : Marked entries middle after) :
    Marked entries before after :=
  fun target => (front target).trans (back target)

theorem MarkedAt.write {target : Nat} (marked : MarkedAt entries before after target)
    (addr width value : Nat) :
    MarkedAt entries (writeLE before addr width value) (writeLE after addr width value) target := by
  by_cases inside : addr ≤ target ∧ target < addr + width
  · obtain ⟨index, rfl⟩ := Nat.exists_eq_add_of_le inside.1
    have stored : index < (leBytes width value).length := by
      rw [le_bytes_length]
      omega
    left
    rw [writeLE, writeLE, write_bytes_inside _ _ _ _ stored, write_bytes_inside _ _ _ _ stored]
  · rw [MarkedAt, write_le_outside _ _ _ _ _ (by omega), write_le_outside _ _ _ _ _ (by omega)]
    exact marked

theorem Marked.write (marked : Marked entries before after) (addr width value : Nat) :
    Marked entries (writeLE before addr width value) (writeLE after addr width value) :=
  fun target => (marked target).write addr width value

theorem Marked.read_bytes (marked : Marked entries before after) {addr width : Nat}
    (clear : ∀ index, index < width → ¬entries (addr + index)) :
    readBytes after addr width = readBytes before addr width :=
  read_bytes_congr fun index inside => (marked (addr + index)).eq (clear index inside)

theorem Marked.read_le (marked : Marked entries before after) {addr width : Nat}
    (clear : ∀ index, index < width → ¬entries (addr + index)) :
    readLE after addr width = readLE before addr width :=
  congrArg leValue (marked.read_bytes clear)

theorem low_byte_marked (byte : Byte) : (byte ||| 0x60).toNat = unmarked byte.toNat + 0x60 := by
  revert byte
  decide

theorem entry_unmarked {addr : Nat} (aligned : ∀ target, entries target → target % 4 = 0)
    (dword : addr % 4 = 0)
    (marked : ∀ index, index < 4 → MarkedAt entries before after (addr + index)) :
    unmarked (readLE after addr 4) = unmarked (readLE before addr 4) := by
  have upper : ∀ index, index < 4 → index ≠ 0 → after (addr + index) = before (addr + index) := by
    intro index inside nonzero
    apply (marked index inside).eq
    intro entry
    have multiple := aligned _ entry
    omega
  have lower : unmarked (after addr).toNat = unmarked (before addr).toNat := by
    rcases marked 0 (by decide) with same | ⟨_, same⟩
    · exact congrArg (fun byte : Byte => unmarked byte.toNat) same
    · have value := congrArg BitVec.toNat same
      rw [low_byte_marked, low_byte_marked] at value
      exact Nat.add_right_cancel value
  have afterByte := (after addr).isLt
  have beforeByte := (before addr).isLt
  rw [read_le_four, read_le_four, upper 1 (by decide) (by decide), upper 2 (by decide) (by decide),
    upper 3 (by decide) (by decide)]
  unfold unmarked at lower ⊢
  omega

theorem entry_frame_unmarked {left right : Nat} (same : unmarked left = unmarked right) :
    entryFrame left = entryFrame right := by
  unfold unmarked at same
  unfold entryFrame
  omega

theorem entry_bits_unmarked {left right : Nat} (same : unmarked left = unmarked right) :
    entryPresent left = entryPresent right ∧ entryWritable left = entryWritable right ∧
      entryUser left = entryUser right := by
  have low : left % 0x20 = right % 0x20 := by
    unfold unmarked at same
    omega
  simp only [entryPresent, entryWritable, entryUser, Nat.testBit_eq_decide_div_mod_eq]
  refine ⟨?_, ?_, ?_⟩ <;> apply decide_eq_decide.mpr <;> omega

theorem Marked.walk (marked : Marked entries before after)
    (aligned : ∀ target, entries target → target % 4 = 0) {cr3 va : Nat} {found : PageWalk}
    (walked : I386.walk before cr3 va = some found) :
    ∃ again, I386.walk after cr3 va = some again ∧ again.phys = found.phys ∧
      unmarked again.pde = unmarked found.pde ∧ unmarked again.pte = unmarked found.pte := by
  have same : ∀ addr, addr % 4 = 0 →
      unmarked (readLE after addr 4) = unmarked (readLE before addr 4) :=
    fun addr dword => entry_unmarked aligned dword fun index _ => marked (addr + index)
  unfold I386.walk at walked
  dsimp only at walked
  split_ifs at walked with directory table
  cases walked
  have pde := same (entryFrame cr3 + 4 * (va / 0x400000 % 0x400)) (by unfold entryFrame; omega)
  have frame := entry_frame_unmarked pde
  have pte := same (entryFrame (readLE before (entryFrame cr3 + 4 * (va / 0x400000 % 0x400)) 4) +
    4 * (va / 0x1000 % 0x400)) (by unfold entryFrame; omega)
  rw [← (entry_bits_unmarked pde).1] at directory
  rw [← (entry_bits_unmarked pte).1] at table
  refine ⟨_, walk_eq_some rfl (by rw [frame]) directory table, ?_, pde, pte⟩
  simp only [entry_frame_unmarked pte]

theorem Marked.between (marked : Marked entries before after) (first last : Nat) :
    OnlyBetween entries first last before after := fun target _ => marked target

theorem write_between (mem : Memory) (addr width value : Nat) :
    OnlyBetween entries addr (addr + width) mem (writeLE mem addr width value) :=
  fun _ outside => Or.inl (write_le_outside _ _ _ _ _ outside)

theorem set_flags_marked (mem : Memory) {addr : Nat} {flags : Byte} (entry : entries addr)
    (marks : flags ||| 0x60 = 0x60) : Marked entries mem (setFlags mem addr flags) := by
  intro target
  by_cases hit : target = addr
  · subst hit
    right
    rw [setFlags, Function.update_self, BitVec.or_assoc, marks]
    exact ⟨entry, rfl⟩
  · left
    exact Function.update_of_ne hit _ _

theorem touch_marked (store : Bool) (mem : Memory) {cr3 va pde : Nat}
    (directory : entries (directoryAddr cr3 va)) (table : entries (tableAddr pde va)) :
    Marked entries mem (touch store mem cr3 va pde) := by
  have accessed : (0x20 : Byte) ||| 0x60 = 0x60 := by decide
  apply (set_flags_marked mem directory accessed).trans
  apply set_flags_marked _ table
  cases store <;> decide

end Marks

/-- Linear addresses from `first` up to `last` are `shift` above physical ones, to be read and
written, and what translates them are `entries`. -/
structure Mapped (entries : Nat → Prop) (mem : Memory) (cr3 first last shift : Nat) : Prop where
  word : last ≤ 0x100000000
  shifted : shift ≤ first
  aligned : ∀ target, entries target → target % 4 = 0
  directory : ∀ va, first ≤ va → va < last → entries (directoryAddr cr3 va)
  walked : ∀ va, first ≤ va → va < last →
    ∃ found, walk mem cr3 va = some found ∧ found.phys = va - shift ∧
      entryWritable found.pde = true ∧ entryWritable found.pte = true ∧
      entries (tableAddr found.pde va)

section Operands

variable {entries : Nat → Prop} {mem after : Memory} {cr3 first last shift : Nat}
  (mapped : Mapped entries mem cr3 first last shift)
include mapped

theorem Mapped.marked (marked : Marked entries mem after) :
    Mapped entries after cr3 first last shift where
  word := mapped.word
  shifted := mapped.shifted
  aligned := mapped.aligned
  directory := mapped.directory
  walked := by
    intro va above below
    obtain ⟨found, walked, phys, pdeWritable, pteWritable, table⟩ := mapped.walked va above below
    obtain ⟨again, rewalked, same, pde, pte⟩ := marked.walk mapped.aligned walked
    refine ⟨again, rewalked, same.trans phys, ?_, ?_, ?_⟩
    · rw [(entry_bits_unmarked pde).2.1, pdeWritable]
    · rw [(entry_bits_unmarked pte).2.1, pteWritable]
    · rw [tableAddr, entry_frame_unmarked pde]
      exact table

theorem Mapped.narrow {lower upper : Nat} (above : first ≤ lower) (below : upper ≤ last) :
    Mapped entries mem cr3 lower upper shift where
  word := Nat.le_trans below mapped.word
  shifted := Nat.le_trans mapped.shifted above
  aligned := mapped.aligned
  directory := fun va lo hi => mapped.directory va (by omega) (by omega)
  walked := fun va lo hi => mapped.walked va (by omega) (by omega)

theorem access_run (store : Bool) {va : Nat} (above : first ≤ va) (below : va < last) :
    ∃ touched, access store mem cr3 va = some (va - shift, touched) ∧
      Marked entries mem touched := by
  obtain ⟨found, walked, phys, pdeWritable, pteWritable, table⟩ := mapped.walked va above below
  refine ⟨touch store mem cr3 va found.pde, ?_,
    touch_marked store mem (mapped.directory va above below) table⟩
  simp only [access, walked, pdeWritable, pteWritable, phys, Bool.and_self, Bool.not_true,
    Bool.and_false, Bool.false_eq_true, if_false, Option.bind_eq_bind, Option.bind_some]

/-- By induction on the width; each access starts from memory that the ones before have marked. -/
theorem accesses_run (store : Bool) {va width : Nat} (above : first ≤ va)
    (below : va + width ≤ last) :
    ∃ touched, accesses store mem cr3 va width =
        some ((List.range width).map (va - shift + ·), touched) ∧ Marked entries mem touched := by
  have shifted := mapped.shifted
  have word := mapped.word
  induction width with
  | zero => exact ⟨mem, rfl, .refl mem⟩
  | succ width ih =>
      obtain ⟨middle, translated, marked⟩ := ih (by omega)
      obtain ⟨touched, reached, last⟩ := access_run (mapped.marked marked) store
        (show first ≤ va + width by omega) (by omega)
      have wrapped : (va + width) % 0x100000000 = va + width := by omega
      have place : va + width - shift = va - shift + width := by omega
      refine ⟨touched, ?_, marked.trans last⟩
      rw [accesses, translated, Option.bind_eq_bind, Option.bind_some]
      simp only [wrapped, reached, place, List.range_succ, List.map_append, List.map_cons,
        List.map_nil, Option.bind_eq_bind, Option.bind_some]

theorem fetch_bytes_run {va width : Nat} (above : first ≤ va) (below : va + width ≤ last)
    (clear : ∀ index, index < width → ¬entries (va - shift + index)) :
    ∃ touched, fetchBytes mem cr3 va width = some (readBytes mem (va - shift) width, touched) ∧
      Marked entries mem touched := by
  obtain ⟨touched, translated, marked⟩ := accesses_run mapped false above below
  refine ⟨touched, ?_, marked⟩
  rw [← marked.read_bytes clear, fetchBytes, translated, Option.bind_eq_bind, Option.bind_some]
  simp only [readBytes, List.map_map, Function.comp_def]

theorem load_run {va width : Nat} (above : first ≤ va) (below : va + width ≤ last)
    (clear : ∀ index, index < width → ¬entries (va - shift + index)) :
    ∃ touched, load mem cr3 va width = some (readLE mem (va - shift) width, touched) ∧
      Marked entries mem touched := by
  obtain ⟨touched, fetched, marked⟩ := fetch_bytes_run mapped above below clear
  refine ⟨touched, ?_, marked⟩
  rw [load, fetched, Option.map_some, readLE]

end Operands

theorem scatter_range (mem : Memory) (base : Nat) (bytes : List Byte) :
    scatter mem ((List.range bytes.length).map (base + ·)) bytes = writeBytes mem base bytes := by
  induction bytes using List.reverseRecOn with
  | nil =>
      funext target
      exact (write_bytes_outside mem base target [] (by simp only [List.length_nil]; omega)).symm
  | append_singleton front final ih =>
      have size : (front ++ [final]).length = front.length + 1 := List.length_append
      have lengths : ((List.range front.length).map (base + ·)).length = front.length := by
        rw [List.length_map, List.length_range]
      rw [size, List.range_succ, List.map_append, scatter, List.zip_append lengths,
        List.foldl_append]
      change Function.update (scatter mem _ front) (base + front.length) final = _
      rw [ih]
      funext target
      by_cases hit : target = base + front.length
      · subst hit
        have inside : front.length < (front ++ [final]).length := by omega
        rw [Function.update_self, write_bytes_inside _ _ _ _ inside]
        exact (List.getElem_concat_length rfl inside).symm
      · rw [Function.update_of_ne hit]
        by_cases outside : target < base ∨ base + front.length ≤ target
        · rw [write_bytes_outside _ _ _ _ outside, write_bytes_outside _ _ _ _ (by omega)]
        · obtain ⟨index, rfl⟩ := Nat.exists_eq_add_of_le (show base ≤ target by omega)
          have inside : index < front.length := by omega
          rw [write_bytes_inside _ _ _ _ inside,
            write_bytes_inside mem base index (front ++ [final]) (by omega)]
          exact (List.getElem_append_left inside).symm

theorem store_run {entries : Nat → Prop} {mem : Memory} {cr3 first last shift : Nat}
    (mapped : Mapped entries mem cr3 first last shift) (value : Nat) {va width : Nat}
    (above : first ≤ va) (below : va + width ≤ last) :
    ∃ after, store mem cr3 va width value = some after ∧
      Marked entries (writeLE mem (va - shift) width value) after := by
  obtain ⟨touched, translated, marked⟩ := accesses_run mapped true above below
  refine ⟨writeLE touched (va - shift) width value, ?_, marked.write _ _ _⟩
  have written := scatter_range touched (va - shift) (leBytes width value)
  rw [le_bytes_length] at written
  rw [store, translated, Option.bind_eq_bind, Option.bind_some]
  exact congrArg some written

end Paging
