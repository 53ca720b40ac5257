import Mathlib.Data.List.GetD
import Mathlib.Data.List.Induction
import Mathlib.Tactic.Ring

/-!
# Flat byte memory with little-endian words

A memory is a total function from addresses to bytes, so every address has some content and
arbitrary initial memory is one universally quantified variable. Word accesses are lists of
bytes; the only facts the rest of the development uses are the round trip of one word, the
frame of one store, and the last-writer rule for a finite list of dword stores.
-/

namespace ByteMemory

set_option autoImplicit false

abbrev Byte := BitVec 8
abbrev Memory := Nat → Byte

/-- The `width` low bytes of `value`, least significant byte first. -/
def leBytes : Nat → Nat → List Byte
  | 0, _ => []
  | width + 1, value => BitVec.ofNat 8 value :: leBytes width (value / 256)

def leValue : List Byte → Nat
  | [] => 0
  | byte :: rest => byte.toNat + 256 * leValue rest

@[simp] theorem le_bytes_length (width value : Nat) : (leBytes width value).length = width := by
  induction width generalizing value with
  | zero => rfl
  | succ width ih => simp [leBytes, ih]

theorem le_value_le_bytes (width value : Nat) :
    leValue (leBytes width value) = value % 256 ^ width := by
  induction width generalizing value with
  | zero => simp [leBytes, leValue, Nat.mod_one]
  | succ width ih =>
      have widened : 256 ^ (width + 1) = 256 * 256 ^ width := by ring
      simp only [leBytes, leValue, ih, BitVec.toNat_ofNat]
      rw [widened, Nat.mod_mul]

theorem le_value_lt (bytes : List Byte) : leValue bytes < 256 ^ bytes.length := by
  induction bytes with
  | nil => simp [leValue]
  | cons byte rest ih =>
      have bounded := byte.isLt
      simp only [leValue, List.length_cons, pow_succ]
      omega

theorem le_value_injective {left right : List Byte} (lengths : left.length = right.length)
    (values : leValue left = leValue right) : left = right := by
  induction left generalizing right with
  | nil => exact (List.eq_nil_of_length_eq_zero lengths.symm).symm
  | cons byte rest ih =>
      cases right with
      | nil => simp at lengths
      | cons other others =>
          simp only [leValue] at values
          have byteBound := byte.isLt
          have otherBound := other.isLt
          have heads : byte = other := BitVec.eq_of_toNat_eq (by omega)
          have tails : rest = others := ih (by simpa using lengths) (by omega)
          rw [heads, tails]

def readBytes (mem : Memory) (addr count : Nat) : List Byte :=
  (List.range count).map fun index => mem (addr + index)

def writeBytes (mem : Memory) (addr : Nat) (bytes : List Byte) : Memory :=
  fun target => if addr ≤ target then (bytes[target - addr]?).getD (mem target) else mem target

@[simp] theorem read_bytes_length (mem : Memory) (addr count : Nat) :
    (readBytes mem addr count).length = count := by
  simp [readBytes]

theorem read_bytes_get_d (mem : Memory) (addr : Nat) {index count : Nat} (inside : index < count) :
    (readBytes mem addr count).getD index 0 = mem (addr + index) := by
  rw [List.getD_eq_getElem _ _ (by simpa using inside)]
  simp [readBytes]

theorem read_bytes_congr {left right : Memory} {addr count : Nat}
    (same : ∀ index, index < count → left (addr + index) = right (addr + index)) :
    readBytes left addr count = readBytes right addr count := by
  apply List.map_congr_left
  intro index member
  exact same index (List.mem_range.mp member)

theorem read_bytes_add (mem : Memory) (addr first second : Nat) :
    readBytes mem addr (first + second) =
      readBytes mem addr first ++ readBytes mem (addr + first) second := by
  simp [readBytes, List.range_add, Nat.add_assoc]

theorem write_bytes_outside (mem : Memory) (addr target : Nat) (bytes : List Byte)
    (outside : target < addr ∨ addr + bytes.length ≤ target) :
    writeBytes mem addr bytes target = mem target := by
  unfold writeBytes
  split_ifs with above
  · have beyond : bytes.length ≤ target - addr := by omega
    rw [List.getElem?_eq_none beyond, Option.getD_none]
  · rfl

theorem write_bytes_inside (mem : Memory) (addr index : Nat) (bytes : List Byte)
    (inside : index < bytes.length) :
    writeBytes mem addr bytes (addr + index) = bytes.get ⟨index, inside⟩ := by
  simp [writeBytes, inside]

theorem read_bytes_write_same (mem : Memory) (addr : Nat) (bytes : List Byte) :
    readBytes (writeBytes mem addr bytes) addr bytes.length = bytes := by
  apply List.ext_getElem
  · simp
  · intro index _ inside
    simp only [readBytes, List.getElem_map, List.getElem_range]
    exact write_bytes_inside mem addr index bytes inside

def readLE (mem : Memory) (addr width : Nat) : Nat := leValue (readBytes mem addr width)

def writeLE (mem : Memory) (addr width value : Nat) : Memory :=
  writeBytes mem addr (leBytes width value)

theorem read_le_congr {left right : Memory} {addr width : Nat}
    (same : ∀ index, index < width → left (addr + index) = right (addr + index)) :
    readLE left addr width = readLE right addr width :=
  congrArg leValue (read_bytes_congr same)

theorem read_le_write_same (mem : Memory) (addr width value : Nat) :
    readLE (writeLE mem addr width value) addr width = value % 256 ^ width := by
  have bytes := read_bytes_write_same mem addr (leBytes width value)
  rw [le_bytes_length] at bytes
  rw [readLE, writeLE, bytes, le_value_le_bytes]

theorem write_le_outside (mem : Memory) (addr width value target : Nat)
    (outside : target < addr ∨ addr + width ≤ target) :
    writeLE mem addr width value target = mem target :=
  write_bytes_outside mem addr target _ (by simpa using outside)

theorem read_le_write_disjoint (mem : Memory) (addr width value source count : Nat)
    (disjoint : source + count ≤ addr ∨ addr + width ≤ source) :
    readLE (writeLE mem addr width value) source count = readLE mem source count := by
  apply read_le_congr
  intro index bound
  apply write_le_outside
  omega

theorem read_le_eq_iff (mem : Memory) (addr width : Nat) (bytes : List Byte)
    (size : bytes.length = width) :
    readLE mem addr width = leValue bytes ↔
      ∀ index, index < width → mem (addr + index) = bytes.getD index 0 := by
  subst size
  constructor
  · intro values index inside
    have same : readBytes mem addr bytes.length = bytes := le_value_injective (by simp) values
    have entry := List.getElem_of_eq same (by simpa using inside : index < _)
    rw [List.getD_eq_getElem _ _ inside, ← entry]
    simp [readBytes]
  · intro agree
    apply congrArg leValue
    apply List.ext_getElem
    · simp
    · intro index _ inside
      have entry := agree index inside
      rw [List.getD_eq_getElem _ _ inside] at entry
      simpa [readBytes] using entry

theorem le_value_append (low high : List Byte) :
    leValue (low ++ high) = leValue low + 256 ^ low.length * leValue high := by
  induction low with
  | nil => simp [leValue]
  | cons byte rest ih =>
      simp only [List.cons_append, leValue, ih, List.length_cons, pow_succ]
      ring

theorem read_le_add (mem : Memory) (addr first second : Nat) :
    readLE mem addr (first + second) =
      readLE mem addr first + 256 ^ first * readLE mem (addr + first) second := by
  rw [readLE, read_bytes_add, le_value_append, read_bytes_length]
  rfl

theorem read_le_mod_two (mem : Memory) (addr width : Nat) :
    readLE mem addr (width + 1) % 2 = (mem addr).toNat % 2 := by
  have split := read_bytes_add mem addr 1 width
  rw [Nat.add_comm width 1, readLE, split]
  simp only [readBytes, List.range_one, List.map_cons, List.map_nil, List.cons_append,
    List.nil_append, leValue, Nat.add_zero]
  omega

theorem and_field_mask (value low width : Nat) :
    value &&& ((2 ^ width - 1) * 2 ^ low) = value / 2 ^ low % 2 ^ width * 2 ^ low := by
  apply Nat.eq_of_testBit_eq
  intro index
  simp only [Nat.testBit_and, Nat.testBit_mul_two_pow, Nat.testBit_two_pow_sub_one,
    Nat.testBit_mod_two_pow, Nat.testBit_div_two_pow]
  by_cases inside : low ≤ index
  · simp [inside, Bool.and_comm]
  · simp [inside]

theorem read_le_four (mem : Memory) (addr : Nat) :
    readLE mem addr 4 = (mem addr).toNat + 256 * (mem (addr + 1)).toNat +
      65536 * (mem (addr + 2)).toNat + 16777216 * (mem (addr + 3)).toNat := by
  simp only [readLE, readBytes, List.range_succ, List.range_zero, List.nil_append,
    List.cons_append, List.map_cons, List.map_nil, leValue, Nat.add_zero]
  omega

def storeDwords (stores : List (Nat × Nat)) (mem : Memory) : Memory :=
  stores.foldl (fun current store => writeLE current store.1 4 store.2) mem

theorem store_dwords_append (first second : List (Nat × Nat)) (mem : Memory) :
    storeDwords (first ++ second) mem = storeDwords second (storeDwords first mem) := by
  simp [storeDwords]

theorem store_dwords_frame (stores : List (Nat × Nat)) (mem : Memory) (target : Nat)
    (outside : ∀ store ∈ stores, target < store.1 ∨ store.1 + 4 ≤ target) :
    storeDwords stores mem target = mem target := by
  induction stores generalizing mem with
  | nil => rfl
  | cons store rest ih =>
      have later := ih (writeLE mem store.1 4 store.2)
        (by intro other member; exact outside other (by simp [member]))
      have first := write_le_outside mem store.1 4 store.2 target (outside store (by simp))
      exact later.trans first

theorem read_store_dwords_outside (stores : List (Nat × Nat)) (mem : Memory) (addr width : Nat)
    (outside : ∀ store ∈ stores, addr + width ≤ store.1 ∨ store.1 + 4 ≤ addr) :
    readLE (storeDwords stores mem) addr width = readLE mem addr width := by
  apply read_le_congr
  intro index inside
  apply store_dwords_frame
  intro store member
  have apart := outside store member
  omega

/-- Last writer wins. When every store either hits the dword at `addr` with one value or misses
it altogether, and at least one hits it, that value is what is read back. -/
theorem read_store_dwords (stores : List (Nat × Nat)) (mem : Memory) (addr value : Nat)
    (present : ∃ store ∈ stores, store.1 = addr)
    (agree : ∀ store ∈ stores, (store.1 = addr ∧ store.2 % 2 ^ 32 = value) ∨
      addr + 4 ≤ store.1 ∨ store.1 + 4 ≤ addr) :
    readLE (storeDwords stores mem) addr 4 = value := by
  induction stores using List.reverseRecOn generalizing mem with
  | nil => simp at present
  | append_singleton rest last ih =>
      rw [store_dwords_append]
      change readLE (writeLE (storeDwords rest mem) last.1 4 last.2) addr 4 = value
      rcases agree last (by simp) with ⟨hit, written⟩ | missed
      · rw [hit, read_le_write_same]
        exact written
      · rw [read_le_write_disjoint _ _ _ _ _ _ missed]
        apply ih
        · obtain ⟨store, member, hit⟩ := present
          rcases List.mem_append.mp member with earlier | final
          · exact ⟨store, earlier, hit⟩
          · rw [List.mem_singleton.mp final] at hit
            omega
        · intro store member
          exact agree store (by simp [member])

end ByteMemory
