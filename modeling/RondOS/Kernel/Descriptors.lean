import RondOS.Kernel.Idt
import RondOS.Lib.Protected
import RondOS.Loader.PageTables

/-!
# Formats shared with the processor

Segment selectors, the options of a gate and page table entries are words that the kernel takes
apart and puts together with `BitAccess`, and that the processor reads on its own. Each section
compares the two readings.
-/

namespace RondOS.Descriptors

open ByteMemory RustWord I386 Protected BitAccess Idt PageTables Image

set_option autoImplicit false

/-- `a..b` -/
def exclusive (first last : Nat) : RangeBounds where
  startBound := .included first
  endBound := .excluded last

abbrev SegmentSelector := BitVec 16

def PrivilegeLevel.fromU16 (value : BitVec 16) : Option PrivilegeLevel :=
  if value = 0 then some .ring0
  else if value = 1 then some .ring1
  else if value = 2 then some .ring2
  else if value = 3 then some .ring3
  else none

def PrivilegeLevel.asU16 (level : PrivilegeLevel) : BitVec 16 := BitVec.ofNat 16 level.ctorIdx

def SegmentSelector.new (index : BitVec 16) (rpl : PrivilegeLevel) : SegmentSelector :=
  index <<< 3 ||| PrivilegeLevel.asU16 rpl

def SegmentSelector.index (selector : SegmentSelector) : BitVec 16 := selector >>> 3

def SegmentSelector.rpl (prof : Profile) (selector : SegmentSelector) : Option PrivilegeLevel := do
  PrivilegeLevel.fromU16 (← getBits prof selector (exclusive 0 2))

def SegmentSelector.setRpl (prof : Profile) (selector : SegmentSelector) (rpl : PrivilegeLevel) :
    Option SegmentSelector :=
  setBits prof selector (exclusive 0 2) (PrivilegeLevel.asU16 rpl)

theorem exclusive_proper : Proper 16 (exclusive 0 2) := by decide

theorem exclusive_typed : (exclusive 0 2).Typed := by
  constructor <;> change _ < _ <;> decide

theorem level_from_u16 (level : PrivilegeLevel) :
    PrivilegeLevel.fromU16 (PrivilegeLevel.asU16 level) = some level := by
  cases level <;> decide

theorem level_small (level : PrivilegeLevel) : (PrivilegeLevel.asU16 level).toNat < 4 := by
  cases level <;> decide

theorem set_rpl_eq (prof : Profile) (selector : SegmentSelector) (level : PrivilegeLevel) :
    SegmentSelector.setRpl prof selector level =
      some (BitField.replace selector 0 2 (PrivilegeLevel.asU16 level)) := by
  have small := level_small level
  rw [SegmentSelector.setRpl, set_bits_eq prof (by decide) exclusive_typed
    (included_start_kept prof 16 0 _), if_pos ⟨exclusive_proper, small⟩]
  rfl

theorem rpl_eq (prof : Profile) (selector : SegmentSelector) :
    SegmentSelector.rpl prof selector =
      PrivilegeLevel.fromU16 (BitField.extract selector 0 2) := by
  rw [SegmentSelector.rpl, get_bits_eq prof (by decide) exclusive_typed
    (included_start_kept prof 16 0 _), if_pos exclusive_proper, Option.bind_eq_bind,
    Option.bind_some]
  rfl

theorem replaced_rpl (prof : Profile) (selector : SegmentSelector) (level : PrivilegeLevel) :
    SegmentSelector.rpl prof (BitField.replace selector 0 2 (PrivilegeLevel.asU16 level)) =
      some level := by
  rw [rpl_eq, BitField.extract_replace _ _ (by decide) (level_small level), level_from_u16]

theorem replaced_rest (selector : SegmentSelector) (level : PrivilegeLevel) :
    BitField.replace selector 0 2 (PrivilegeLevel.asU16 level) >>> 2 = selector >>> 2 := by
  have small := level_small level
  apply BitVec.eq_of_getLsbD_eq
  intro bit inside
  rw [BitVec.getLsbD_ushiftRight, BitVec.getLsbD_ushiftRight]
  by_cases within : 2 + bit < 16
  · rw [BitField.replace_bit _ _ (by decide) small within, if_neg (by omega)]
  · rw [BitVec.getLsbD_of_ge _ _ (by omega), BitVec.getLsbD_of_ge _ _ (by omega)]

theorem fetch_descriptor_congr {first second : SegmentSelector} (same : first >>> 2 = second >>> 2)
    (mem : Memory) (cr3 : Nat) (gdtr : TablePointer) :
    fetchDescriptor mem cr3 gdtr first.toNat = fetchDescriptor mem cr3 gdtr second.toNat := by
  have quarter : first.toNat / 4 = second.toNat / 4 := by
    have shifted := congrArg BitVec.toNat same
    rwa [BitVec.toNat_ushiftRight, BitVec.toNat_ushiftRight, Nat.shiftRight_eq_div_pow,
      Nat.shiftRight_eq_div_pow] at shifted
  have eighth : first.toNat / 8 = second.toNat / 8 := by omega
  rw [fetchDescriptor, fetchDescriptor, descriptorAddr, descriptorAddr, quarter, eighth]

theorem index_congr {first second : SegmentSelector} (same : first >>> 2 = second >>> 2) :
    SegmentSelector.index first = SegmentSelector.index second := by
  have split : ∀ word : BitVec 16, word >>> 3 = word >>> 2 >>> 1 :=
    fun word => BitVec.shiftRight_add word 2 1
  rw [SegmentSelector.index, SegmentSelector.index, split, split, same]

theorem set_rpls_run (prof : Profile) (levels : List PrivilegeLevel) (last : PrivilegeLevel)
    (selector : SegmentSelector) :
    ∃ final, (levels ++ [last]).foldlM (SegmentSelector.setRpl prof) selector = some final ∧
      SegmentSelector.rpl prof final = some last ∧ final >>> 2 = selector >>> 2 := by
  induction levels generalizing selector with
  | nil =>
      refine ⟨BitField.replace selector 0 2 (PrivilegeLevel.asU16 last), ?_, ?_, ?_⟩
      · rw [List.nil_append, List.foldlM_cons, set_rpl_eq]
        rfl
      · exact replaced_rpl prof selector last
      · exact replaced_rest selector last
  | cons level levels ih =>
      obtain ⟨final, run, read, rest⟩ :=
        ih (BitField.replace selector 0 2 (PrivilegeLevel.asU16 level))
      refine ⟨final, ?_, read, rest.trans (replaced_rest selector level)⟩
      rw [List.cons_append, List.foldlM_cons, set_rpl_eq, Option.bind_eq_bind, Option.bind_some, run]

theorem new_to_nat (index : BitVec 16) (level : PrivilegeLevel) :
    (SegmentSelector.new index level).toNat =
      8 * (index.toNat % 0x2000) + (PrivilegeLevel.asU16 level).toNat := by
  have small := level_small level
  have shifted : (index <<< 3).toNat = (index.toNat % 0x2000) <<< 3 := by
    rw [BitVec.toNat_shiftLeft, Nat.shiftLeft_eq, Nat.shiftLeft_eq]
    omega
  rw [SegmentSelector.new, BitVec.toNat_or, shifted,
    ← Nat.shiftLeft_add_eq_or_of_lt (show _ < 2 ^ 3 by omega), Nat.shiftLeft_eq]
  omega

theorem new_rpl (prof : Profile) (index : BitVec 16) (level : PrivilegeLevel) :
    SegmentSelector.rpl prof (SegmentSelector.new index level) = some level := by
  have small := level_small level
  have low : BitField.extract (SegmentSelector.new index level) 0 2 = PrivilegeLevel.asU16 level := by
    apply BitVec.eq_of_toNat_eq
    rw [BitField.extract_to_nat _ (by decide), new_to_nat]
    omega
  rw [rpl_eq, low, level_from_u16]

theorem new_index_iff (index : BitVec 16) (level : PrivilegeLevel) :
    SegmentSelector.index (SegmentSelector.new index level) = index ↔ index.toNat < 0x2000 := by
  have small := level_small level
  have value : (SegmentSelector.index (SegmentSelector.new index level)).toNat =
      index.toNat % 0x2000 := by
    rw [SegmentSelector.index, BitVec.toNat_ushiftRight, Nat.shiftRight_eq_div_pow, new_to_nat]
    omega
  rw [← BitVec.toNat_inj, value]
  omega

theorem new_fetched (index : BitVec 16) (level : PrivilegeLevel) (mem : Memory) (cr3 : Nat)
    (gdtr : TablePointer) :
    fetchDescriptor mem cr3 gdtr (SegmentSelector.new index level).toNat =
      if index.toNat % 0x2000 = 0 ∨ gdtr.limit < 8 * (index.toNat % 0x2000) + 7 then none
      else (loadLE mem cr3 (gdtr.base + 8 * (index.toNat % 0x2000)) 8).map decodeDescriptor := by
  have small := level_small level
  have eighth : (SegmentSelector.new index level).toNat / 8 = index.toNat % 0x2000 := by
    rw [new_to_nat]
    omega
  have global : (SegmentSelector.new index level).toNat / 4 % 2 = 0 := by
    rw [new_to_nat]
    omega
  rw [fetchDescriptor, descriptorAddr, eighth, global]
  simp only [Nat.zero_ne_one, false_or]
  split_ifs
  · rfl
  · rfl

/-- The selector laws, against the processor's reading. The level read is always the one set last,
no chain of `set_rpl` fails or changes the index or the descriptor, and a selector that is made of
an index and a level yields both and names that entry of the GDT, up to the 13 bits of an index. -/
theorem selectors_keep_descriptor (prof : Profile) :
    (∀ selector levels last, ∃ final,
      (levels ++ [last]).foldlM (SegmentSelector.setRpl prof) selector = some final ∧
        SegmentSelector.rpl prof final = some last ∧
        SegmentSelector.index final = SegmentSelector.index selector ∧
        ∀ mem cr3 gdtr,
          fetchDescriptor mem cr3 gdtr final.toNat = fetchDescriptor mem cr3 gdtr selector.toNat) ∧
    ∀ index level,
      SegmentSelector.rpl prof (SegmentSelector.new index level) = some level ∧
      (SegmentSelector.index (SegmentSelector.new index level) = index ↔ index.toNat < 0x2000) ∧
      ∀ mem cr3 gdtr, fetchDescriptor mem cr3 gdtr (SegmentSelector.new index level).toNat =
        if index.toNat % 0x2000 = 0 ∨ gdtr.limit < 8 * (index.toNat % 0x2000) + 7 then none
        else (loadLE mem cr3 (gdtr.base + 8 * (index.toNat % 0x2000)) 8).map decodeDescriptor := by
  constructor
  · intro selector levels last
    obtain ⟨final, run, read, rest⟩ := set_rpls_run prof levels last selector
    exact ⟨final, run, read, index_congr rest, fetch_descriptor_congr rest⟩
  · intro index level
    exact ⟨new_rpl prof index level, new_index_iff index level, new_fetched index level⟩

def InterruptOption.isTrap (option : InterruptOption) : Option Bool := getBit option 8

def InterruptOption.privilegeLevel (prof : Profile) (option : InterruptOption) :
    Option (BitVec 16) :=
  getBits prof option (.inclusive 13 14)

def InterruptOption.isPresent (option : InterruptOption) : Option Bool := getBit option 15

def InterruptEntry.setOption (entry : InterruptEntry) (opt : InterruptOption) : InterruptEntry :=
  { entry with options := opt }

inductive Change where
  | setHandleAddr (pointer : Usize)
  | setOption (isTrap : Bool) (privilegeLevel : PrivilegeLevel) (isPresent : Bool)

def applyChange (prof : Profile) (cs : BitVec 16) (entry : InterruptEntry) :
    Change → Option InterruptEntry
  | .setHandleAddr pointer => InterruptEntry.setHandleAddr prof cs pointer entry
  | .setOption isTrap privilegeLevel isPresent => do
      some (InterruptEntry.setOption entry
        (← InterruptOption.new prof isTrap privilegeLevel isPresent))

structure GateState where
  handler : Nat
  selector : Nat
  trap : Bool
  level : PrivilegeLevel
  present : Bool

/-- A new handler address takes the options back to a present interrupt gate of ring 0. -/
def GateState.change (cs : BitVec 16) (state : GateState) : Change → GateState
  | .setHandleAddr pointer =>
      { handler := pointer.toNat, selector := cs.toNat, trap := false, level := .ring0
        present := true }
  | .setOption isTrap privilegeLevel isPresent =>
      { state with trap := isTrap, level := privilegeLevel, present := isPresent }

def GateState.absent : GateState where
  handler := 0
  selector := 0
  trap := false
  level := .ring0
  present := false

/-- The gate as the processor reads it: kind 14 clears the interrupt flag on entry, 15 does not. -/
def GateState.gate (state : GateState) : Gate where
  offset := state.handler
  selector := state.selector
  kind := if state.trap then 15 else 14
  system := 0
  dpl := state.level.ctorIdx
  present := state.present

def optionWord (isTrap : Bool) (privilegeLevel : PrivilegeLevel) (isPresent : Bool) :
    InterruptOption :=
  BitVec.ofNat 16 (0x0e00 + (if isTrap then 0x100 else 0) + 0x2000 * privilegeLevel.ctorIdx +
    if isPresent then 0x8000 else 0)

theorem option_new (prof : Profile) (isTrap : Bool) (privilegeLevel : PrivilegeLevel)
    (isPresent : Bool) :
    InterruptOption.new prof isTrap privilegeLevel isPresent =
      some (optionWord isTrap privilegeLevel isPresent) := by
  cases prof <;> cases isTrap <;> cases privilegeLevel <;> cases isPresent <;> decide

structure Encodes (entry : InterruptEntry) (state : GateState) : Prop where
  options : entry.options = optionWord state.trap state.level state.present
  handler : entry.pointerLow.toNat + 0x10000 * entry.pointerMiddle.toNat = state.handler
  selector : entry.gdtSelector.toNat = state.selector

theorem option_decoded (trap : Bool) (level : PrivilegeLevel) (present : Bool) :
    (optionWord trap level present).toNat / 0x100 % 16 = (if trap then 15 else 14) ∧
      (optionWord trap level present).toNat / 0x1000 % 2 = 0 ∧
      (optionWord trap level present).toNat / 0x2000 % 4 = level.ctorIdx ∧
      decide ((optionWord trap level present).toNat / 0x8000 % 2 = 1) = present := by
  cases trap <;> cases level <;> cases present <;> decide

theorem option_accessors (prof : Profile) (trap : Bool) (level : PrivilegeLevel) (present : Bool) :
    InterruptOption.isTrap (optionWord trap level present) = some trap ∧
      InterruptOption.privilegeLevel prof (optionWord trap level present) =
        some (PrivilegeLevel.asU16 level) ∧
      InterruptOption.isPresent (optionWord trap level present) = some present := by
  cases prof <;> cases trap <;> cases level <;> cases present <;> decide

theorem Encodes.decoded {entry : InterruptEntry} {state : GateState} (encodes : Encodes entry state) :
    decodeGate entry.bytes = state.gate := by
  obtain ⟨kind, system, dpl, present⟩ := option_decoded state.trap state.level state.present
  rw [decode_entry, encodes.handler, encodes.selector, encodes.options, kind, system, dpl, present,
    GateState.gate]

theorem Encodes.pointer {entry : InterruptEntry} {state : GateState}
    (encodes : Encodes entry state) : entry.pointer.toNat = state.handler := by
  have low : entry.pointerLow.toNat < 2 ^ 16 := entry.pointerLow.isLt
  have middle : entry.pointerMiddle.toNat < 2 ^ 16 := entry.pointerMiddle.isLt
  rw [InterruptEntry.pointer, BitVec.toNat_or, BitVec.toNat_shiftLeft, BitVec.toNat_setWidth,
    BitVec.toNat_setWidth, Nat.mod_eq_of_lt (by omega), Nat.shiftLeft_eq,
    Nat.mod_eq_of_lt (by omega), Nat.mod_eq_of_lt (by omega), ← Nat.shiftLeft_eq,
    ← Nat.shiftLeft_add_eq_or_of_lt low, Nat.shiftLeft_eq, ← encodes.handler]
  omega

theorem Encodes.change {entry : InterruptEntry} {state : GateState} (encodes : Encodes entry state)
    (prof : Profile) (cs : BitVec 16) (call : Change) :
    ∃ after, applyChange prof cs entry call = some after ∧ Encodes after (state.change cs call) := by
  cases call with
  | setHandleAddr pointer =>
      have word : (0x8e00 : BitVec 16) = optionWord false .ring0 true := by decide
      refine ⟨installedEntry cs pointer, ?_, word, installed_offset cs pointer, rfl⟩
      rw [applyChange, InterruptEntry.setHandleAddr, option_new]
      rfl
  | setOption isTrap privilegeLevel isPresent =>
      refine ⟨InterruptEntry.setOption entry (optionWord isTrap privilegeLevel isPresent), ?_, rfl,
        encodes.handler, encodes.selector⟩
      rw [applyChange, option_new]
      rfl

theorem Encodes.run {entry : InterruptEntry} {state : GateState} (encodes : Encodes entry state)
    (prof : Profile) (cs : BitVec 16) (calls : List Change) :
    ∃ final, calls.foldlM (applyChange prof cs) entry = some final ∧
      Encodes final (calls.foldl (GateState.change cs) state) := by
  induction calls generalizing entry state with
  | nil => exact ⟨entry, rfl, encodes⟩
  | cons call calls ih =>
      obtain ⟨after, performed, encodesAfter⟩ := encodes.change prof cs call
      obtain ⟨final, run, encodesFinal⟩ := ih encodesAfter
      refine ⟨final, ?_, encodesFinal⟩
      rw [List.foldlM_cons, performed, Option.bind_eq_bind, Option.bind_some, run]

/-- After any calls on a fresh entry the processor and the accessors both read the gate that the
calls describe. In particular options that were set before the handler address are lost. -/
theorem gates_follow_changes (prof : Profile) (cs : BitVec 16) (calls : List Change) :
    ∃ fresh final, InterruptEntry.default prof = some fresh ∧
      calls.foldlM (applyChange prof cs) fresh = some final ∧
      decodeGate final.bytes = (calls.foldl (GateState.change cs) .absent).gate ∧
      final.pointer.toNat = (calls.foldl (GateState.change cs) .absent).handler ∧
      InterruptOption.isTrap final.options =
        some (calls.foldl (GateState.change cs) .absent).trap ∧
      InterruptOption.privilegeLevel prof final.options =
        some (PrivilegeLevel.asU16 (calls.foldl (GateState.change cs) .absent).level) ∧
      InterruptOption.isPresent final.options =
        some (calls.foldl (GateState.change cs) .absent).present := by
  have created : InterruptEntry.default prof = some ⟨0, 0, optionWord false .ring0 false, 0⟩ := by
    rw [InterruptEntry.default, option_new]
    rfl
  have encodes : Encodes ⟨0, 0, optionWord false .ring0 false, 0⟩ .absent := ⟨rfl, rfl, rfl⟩
  obtain ⟨final, run, encodesFinal⟩ := encodes.run prof cs calls
  have accessors := option_accessors prof (calls.foldl (GateState.change cs) .absent).trap
    (calls.foldl (GateState.change cs) .absent).level
    (calls.foldl (GateState.change cs) .absent).present
  rw [← encodesFinal.options] at accessors
  exact ⟨_, final, created, run, encodesFinal.decoded, encodesFinal.pointer, accessors⟩

abbrev PageTableEntry := BitVec 32

namespace PageTableEntry

variable (entry : PageTableEntry)

def present : Option Bool := getBit entry 0
def rw : Option Bool := getBit entry 1
def isUser : Option Bool := getBit entry 2
def writeThrough : Option Bool := getBit entry 3
def cacheDisable : Option Bool := getBit entry 4
def accessed : Option Bool := getBit entry 5
def dirty : Option Bool := getBit entry 6
def pageAttribute : Option Bool := getBit entry 7
def global : Option Bool := getBit entry 8

def available (prof : Profile) : Option (BitVec 32) := getBits prof entry (.inclusive 9 11)

def addr (prof : Profile) : Option (BitVec 32) := do
  some ((← getBits prof entry (.inclusive 12 31)) <<< 12)

end PageTableEntry

/-- The fields that `Debug for PageTableEntry` prints, in its order. -/
structure EntryFields where
  flags : List Bool
  available : BitVec 32
  addr : BitVec 32
  deriving DecidableEq

def fmtEntry (prof : Profile) (entry : PageTableEntry) : Option EntryFields := do
  let flags ← [PageTableEntry.present entry, PageTableEntry.rw entry, PageTableEntry.isUser entry,
    PageTableEntry.writeThrough entry, PageTableEntry.cacheDisable entry,
    PageTableEntry.accessed entry, PageTableEntry.dirty entry,
    PageTableEntry.pageAttribute entry, PageTableEntry.global entry].mapM id
  some
    { flags
      available := ← PageTableEntry.available entry prof
      addr := ← PageTableEntry.addr entry prof }

def translate (prof : Profile) (mem : Memory) (cr3 va : Nat) : Option (Option Nat) := do
  let pde := BitVec.ofNat 32 (readLE mem (entryFrame cr3 + 4 * (va / 0x400000 % 0x400)) 4)
  if ← PageTableEntry.present pde then
    let table ← PageTableEntry.addr pde prof
    let pte := BitVec.ofNat 32 (readLE mem (table.toNat + 4 * (va / 0x1000 % 0x400)) 4)
    if ← PageTableEntry.present pte then
      some (some ((← PageTableEntry.addr pte prof).toNat + va % 0x1000))
    else some none
  else some none

theorem get_bit_eq (entry : PageTableEntry) {bit : Nat} (inside : bit < 32) :
    getBit entry bit = some (entry.getLsbD bit) := by
  have mask : (1 : BitVec 32) <<< bit = BitVec.twoPow 32 bit := rfl
  have nonzero : BitVec.twoPow 32 bit ≠ 0 := by
    intro zero
    have set := congrArg (fun word => word.getLsbD bit) zero
    simp [inside] at set
  rw [getBit, if_pos inside, mask, BitVec.and_twoPow]
  cases entry.getLsbD bit with
  | false => rfl
  | true => simpa using nonzero

theorem address_typed : (RangeBounds.inclusive 12 31).Typed := by
  constructor <;> change _ < _ <;> decide

theorem available_typed : (RangeBounds.inclusive 9 11).Typed := by
  constructor <;> change _ < _ <;> decide

theorem address_eq (prof : Profile) (entry : PageTableEntry) :
    PageTableEntry.addr entry prof = some (BitField.extract entry 12 32 <<< 12) := by
  have proper : Proper 32 (.inclusive 12 31) := by decide
  rw [PageTableEntry.addr, get_bits_eq prof (by decide) address_typed
    (included_start_kept prof 32 12 _), if_pos proper, Option.bind_eq_bind, Option.bind_some]
  rfl

theorem available_eq (prof : Profile) (entry : PageTableEntry) :
    PageTableEntry.available entry prof = some (BitField.extract entry 9 12) := by
  have proper : Proper 32 (.inclusive 9 11) := by decide
  rw [PageTableEntry.available, get_bits_eq prof (by decide) available_typed
    (included_start_kept prof 32 9 _), if_pos proper]
  rfl

theorem address_to_nat (entry : PageTableEntry) :
    (BitField.extract entry 12 32 <<< 12).toNat = entryFrame entry.toNat := by
  have word := entry.isLt
  rw [BitVec.toNat_shiftLeft, BitField.extract_to_nat _ (by decide), Nat.shiftLeft_eq, entryFrame]
  omega

theorem present_eq (value : Nat) :
    PageTableEntry.present (BitVec.ofNat 32 value) = some (entryPresent value) := by
  rw [PageTableEntry.present, get_bit_eq _ (by decide), BitVec.getLsbD_ofNat, entryPresent]
  rfl

theorem read_le_word (mem : Memory) (addr : Nat) :
    (BitVec.ofNat 32 (readLE mem addr 4)).toNat = readLE mem addr 4 := by
  have word := le_value_lt (readBytes mem addr 4)
  rw [read_bytes_length] at word
  rw [BitVec.toNat_ofNat]
  exact Nat.mod_eq_of_lt word

theorem translate_walk (prof : Profile) (mem : Memory) (cr3 va : Nat) :
    translate prof mem cr3 va = some ((walk mem cr3 va).map PageWalk.phys) := by
  rw [translate, walk]
  generalize directory : readLE mem (entryFrame cr3 + 4 * (va / 0x400000 % 0x400)) 4 = pde
  have pdeWord : (BitVec.ofNat 32 pde).toNat = pde := by rw [← directory, read_le_word]
  simp only [present_eq, address_eq, address_to_nat, Option.bind_eq_bind, Option.bind_some, pdeWord,
    read_le_word]
  cases entryPresent pde with
  | false => rfl
  | true =>
      cases entryPresent (readLE mem (entryFrame pde + 4 * (va / 0x1000 % 0x400)) 4) with
      | false => rfl
      | true => rfl

def flagsOf (entry : PageTableEntry) : List Bool := (List.range 9).map entry.getLsbD

theorem fmt_entry_eq (prof : Profile) (entry : PageTableEntry) :
    fmtEntry prof entry = some
      { flags := flagsOf entry
        available := BitField.extract entry 9 12
        addr := BitField.extract entry 12 32 <<< 12 } := by
  rw [fmtEntry, available_eq, address_eq]
  simp only [PageTableEntry.present, PageTableEntry.rw, PageTableEntry.isUser,
    PageTableEntry.writeThrough, PageTableEntry.cacheDisable, PageTableEntry.accessed,
    PageTableEntry.dirty, PageTableEntry.pageAttribute, PageTableEntry.global,
    get_bit_eq entry (show 0 < 32 by decide), get_bit_eq entry (show 1 < 32 by decide),
    get_bit_eq entry (show 2 < 32 by decide), get_bit_eq entry (show 3 < 32 by decide),
    get_bit_eq entry (show 4 < 32 by decide), get_bit_eq entry (show 5 < 32 by decide),
    get_bit_eq entry (show 6 < 32 by decide), get_bit_eq entry (show 7 < 32 by decide),
    get_bit_eq entry (show 8 < 32 by decide)]
  rfl

theorem fmt_entry_injective (prof : Profile) {first second : PageTableEntry}
    (same : fmtEntry prof first = fmtEntry prof second) : first = second := by
  rw [fmt_entry_eq, fmt_entry_eq, Option.some_inj, EntryFields.mk.injEq] at same
  obtain ⟨flags, available, address⟩ := same
  apply BitVec.eq_of_getLsbD_eq
  intro bit inside
  by_cases low : bit < 9
  · exact List.map_inj_left.mp flags bit (List.mem_range.mpr low)
  by_cases middle : bit < 12
  · have field := congrArg (fun word => word.getLsbD (bit - 9)) available
    have position : 9 + (bit - 9) = bit := by omega
    simpa only [BitField.extract_bit _ (show 12 ≤ 32 by decide), position, decide_eq_true middle,
      Bool.true_and] using field
  · have field := congrArg (fun word => word.getLsbD bit) address
    have position : 12 + (bit - 12) = bit := by omega
    simpa only [BitVec.getLsbD_shiftLeft, BitField.extract_bit _ (show 32 ≤ 32 by decide), position,
      decide_eq_true inside, decide_eq_false middle, Bool.true_and, Bool.not_false] using field

def mappedFields (page : Nat) : EntryFields where
  flags := [true, true, true, false, false, false, false, false, false]
  available := 0
  addr := BitVec.ofNat 32 (0x1000 * page)

theorem mapped_entry (prof : Profile) (page : Nat) :
    fmtEntry prof (BitVec.ofNat 32 (7 + 0x1000 * page)) = some (mappedFields page) := by
  have flag : ∀ bit, bit < 9 →
      (BitVec.ofNat 32 (7 + 0x1000 * page)).getLsbD bit = (7 : Nat).testBit bit := by
    intro bit small
    have split : 7 + 0x1000 * page = 2 ^ 12 * page + 7 := Nat.add_comm _ _
    rw [BitVec.getLsbD_ofNat, decide_eq_true (show bit < 32 by omega), Bool.true_and, split,
      Nat.testBit_two_pow_mul_add page (show 7 < 2 ^ 12 by decide), if_pos (by omega)]
  have flags : flagsOf (BitVec.ofNat 32 (7 + 0x1000 * page)) =
      (List.range 9).map fun bit => (7 : Nat).testBit bit := by
    apply List.map_congr_left
    intro bit member
    exact flag bit (List.mem_range.mp member)
  have available : BitField.extract (BitVec.ofNat 32 (7 + 0x1000 * page)) 9 12 = 0 := by
    apply BitVec.eq_of_toNat_eq
    rw [BitField.extract_to_nat _ (by decide), BitVec.toNat_ofNat]
    change _ = 0
    omega
  have address : BitField.extract (BitVec.ofNat 32 (7 + 0x1000 * page)) 12 32 <<< 12 =
      BitVec.ofNat 32 (0x1000 * page) := by
    apply BitVec.eq_of_toNat_eq
    rw [address_to_nat, BitVec.toNat_ofNat, BitVec.toNat_ofNat, entryFrame]
    omega
  rw [fmt_entry_eq, flags, available, address]
  rfl

/-- Page table entries mean the same to the kernel and to the processor: for any contents of memory
the accessors translate every address as the page walk does, their values determine the entry, and
of each of the 16384 pages that the loader maps they report its address and the three flags. -/
theorem page_entries_decode (prof : Profile) :
    (∀ mem cr3 va, translate prof mem cr3 va = some ((walk mem cr3 va).map PageWalk.phys)) ∧
    (∀ entry, (fmtEntry prof entry).isSome) ∧
    (∀ first second, fmtEntry prof first = fmtEntry prof second → first = second) ∧
    ∀ mem, TablesBuilt mem → ∀ page, page < 0x4000 →
      fmtEntry prof (BitVec.ofNat 32 (readLE mem (0x10000 + 4 * page) 4)) =
        some (mappedFields page) := by
  refine ⟨translate_walk prof, ?_, ?_, ?_⟩
  · intro entry
    rw [fmt_entry_eq, Option.isSome_some]
  · intro first second same
    exact fmt_entry_injective prof same
  · intro mem built page inside
    rw [built.tables page inside, mapped_entry prof page]

theorem sixth_page_decoded :
    fmtEntry .debug (BitVec.ofNat 32 (readLE (pagingSetup fun _ => 0xff) (0x10000 + 4 * 5) 4)) =
      some (mappedFields 5) :=
  (page_entries_decode .debug).2.2.2 _ (tables_built _) 5 (by decide)

end RondOS.Descriptors
