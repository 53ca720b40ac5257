import RondOS.Loader.Image

/-!
# The E820 loop of the loader

`next_part` clears `memlayoutlen` and points `di` at `memlayoutbuf`; `detectmem` then stores one
20-byte record per INT 15h call. The firmware is a list of responses. The cursor `di` has 16 bits
and is never checked against the end of the buffer, so the model keeps the segment limit as the
only bound and lets the records run over whatever follows.
-/

namespace RondOS.DetectMem

open ByteMemory I386 Image

set_option autoImplicit false

structure E820Record where
  base : BitVec 64
  length : BitVec 64
  kind : BitVec 32
  deriving DecidableEq

/-- The record as the firmware stores it: two qwords and a dword, little-endian. -/
def E820Record.bytes (record : E820Record) : List Byte :=
  leBytes 8 record.base.toNat ++ leBytes 8 record.length.toNat ++ leBytes 4 record.kind.toNat

/-- One INT 15h answer. With `carry` set nothing is stored and `record` is irrelevant. -/
structure E820Response where
  carry : Bool
  ebx : BitVec 32
  record : E820Record
  deriving DecidableEq

/-- The record is stored at `es:di`. A record that runs past the end of the segment either faults
or wraps onto the loader code at offset 0, so the run has no defined continuation there. -/
def storeRecord (mem : Memory) (di : Nat) (record : E820Record) : Option Memory :=
  if di + 20 ≤ 0x10000 then
    some (writeBytes mem (linear (loaderLoadAddr >>> 4) di) record.bytes)
  else none

def writeMemlayoutlen (mem : Memory) (value : Nat) : Memory :=
  writeLE mem (linear (loaderLoadAddr >>> 4) memlayoutlen) 4 value

def readMemlayoutlen (mem : Memory) : Nat :=
  readLE mem (linear (loaderLoadAddr >>> 4) memlayoutlen) 4

def detectmem : List E820Response → Nat → Memory → Option Memory
  | [], _, _ => none
  | response :: rest, di, mem =>
      if response.carry then
        -- detectmemfail
        some (writeMemlayoutlen mem 0xdead)
      else
        match storeRecord mem di response.record with
        | none => none
        | some stored =>
            let counted := writeMemlayoutlen stored ((readMemlayoutlen stored + 1) % 0x100000000)
            if response.ebx = 0#32 then some counted
            else detectmem rest ((di + 20) % 0x10000) counted

def nextPart (responses : List E820Response) (mem : Memory) : Option Memory :=
  detectmem responses memlayoutbuf (writeMemlayoutlen mem 0)

/-- The responses of one whole run: the last one, and only the last one, ends the loop. -/
def complete : List E820Response → Bool
  | [] => false
  | response :: rest =>
      if response.carry || response.ebx == 0#32 then rest.isEmpty else complete rest

def signalsCarry (responses : List E820Response) : Bool := responses.any E820Response.carry

def storedRecords (responses : List E820Response) : List E820Record :=
  (responses.filter fun response => !response.carry).map E820Response.record

theorem record_bytes_length (record : E820Record) : record.bytes.length = 20 := by
  simp [E820Record.bytes]

theorem memlayoutlen_address : linear (loaderLoadAddr >>> 4) memlayoutlen = 0x20204 := by decide

theorem record_address (di : Nat) : linear (loaderLoadAddr >>> 4) di = 0x20000 + di := by
  simp only [linear, loaderLoadAddr]
  omega

theorem read_memlayoutlen_write (mem : Memory) (value : Nat) :
    readMemlayoutlen (writeMemlayoutlen mem value) = value % 0x100000000 := by
  exact read_le_write_same mem (linear (loaderLoadAddr >>> 4) memlayoutlen) 4 value

theorem write_memlayoutlen_outside (mem : Memory) (value target : Nat)
    (outside : target < 0x20204 ∨ 0x20208 ≤ target) :
    writeMemlayoutlen mem value target = mem target := by
  rw [writeMemlayoutlen, memlayoutlen_address]
  exact write_le_outside _ _ _ _ _ outside

/-- What a completed run has done to memory when `done` records were stored before it: the new
records stand behind the old ones, the length word counts them or holds the failure mark, and
every other byte is as it was. -/
structure Detected (responses : List E820Response) (done : Nat) (before after : Memory) :
    Prop where
  records : readBytes after (0x20208 + 20 * done) (20 * (storedRecords responses).length) =
    (storedRecords responses).flatMap E820Record.bytes
  length : readMemlayoutlen after =
    if signalsCarry responses then 0xdead
    else (readMemlayoutlen before + (storedRecords responses).length) % 0x100000000
  frame : ∀ target, (target < 0x20204 ∨ 0x20208 ≤ target) →
    (target < 0x20208 + 20 * done ∨
      0x20208 + 20 * (done + (storedRecords responses).length) ≤ target) →
    after target = before target

theorem stored_records_cons (response : E820Response) (rest : List E820Response)
    (stored : response.carry = false) :
    storedRecords (response :: rest) = response.record :: storedRecords rest := by
  simp [storedRecords, stored]

def afterRecord (mem : Memory) (done : Nat) (record : E820Record) : Memory :=
  writeMemlayoutlen (writeBytes mem (0x20208 + 20 * done) record.bytes)
    ((readMemlayoutlen mem + 1) % 0x100000000)

theorem detectmem_stored (response : E820Response) (rest : List E820Response) (done : Nat)
    (mem : Memory) (stored : response.carry = false)
    (room : 0x208 + 20 * (done + 1) ≤ 0x10000) :
    detectmem (response :: rest) (0x208 + 20 * done) mem =
      if response.ebx = 0#32 then some (afterRecord mem done response.record)
      else detectmem rest (0x208 + 20 * (done + 1)) (afterRecord mem done response.record) := by
  have inside : 0x208 + 20 * done + 20 ≤ 0x10000 := by omega
  have address : linear (loaderLoadAddr >>> 4) (0x208 + 20 * done) = 0x20208 + 20 * done := by
    rw [record_address]
    omega
  have next : (0x208 + 20 * done + 20) % 0x10000 = 0x208 + 20 * (done + 1) := by omega
  have untouched : readMemlayoutlen
      (writeBytes mem (0x20208 + 20 * done) response.record.bytes) = readMemlayoutlen mem := by
    apply read_le_congr
    intro index bound
    apply write_bytes_outside
    rw [memlayoutlen_address]
    omega
  simp only [detectmem, stored, storeRecord, if_pos inside, address, untouched, next, afterRecord,
    Bool.false_eq_true, if_false]

theorem after_record_outside (mem : Memory) (done target : Nat) (record : E820Record)
    (lengthWord : target < 0x20204 ∨ 0x20208 ≤ target)
    (records : target < 0x20208 + 20 * done ∨ 0x20208 + 20 * (done + 1) ≤ target) :
    afterRecord mem done record target = mem target := by
  rw [afterRecord, write_memlayoutlen_outside _ _ _ lengthWord]
  apply write_bytes_outside
  rw [record_bytes_length]
  omega

theorem after_record_bytes (mem : Memory) (done : Nat) (record : E820Record) :
    readBytes (afterRecord mem done record) (0x20208 + 20 * done) 20 = record.bytes := by
  have written := read_bytes_write_same mem (0x20208 + 20 * done) record.bytes
  rw [record_bytes_length] at written
  refine Eq.trans (read_bytes_congr ?_) written
  intro index bound
  rw [afterRecord, write_memlayoutlen_outside _ _ _ (by omega)]

theorem detected_nil (done : Nat) (mem : Memory) : Detected [] done mem mem where
  records := rfl
  length := by
    have word := le_value_lt (readBytes mem (linear (loaderLoadAddr >>> 4) memlayoutlen) 4)
    rw [read_bytes_length] at word
    simp only [signalsCarry, storedRecords, List.any_nil, List.filter_nil, List.map_nil,
      List.length_nil, Nat.add_zero, Bool.false_eq_true, if_false]
    exact (Nat.mod_eq_of_lt word).symm
  frame := fun _ _ _ => rfl

theorem detected_cons {response : E820Response} {rest : List E820Response} {done : Nat}
    {before after : Memory} (stored : response.carry = false)
    (later : Detected rest (done + 1) (afterRecord before done response.record) after) :
    Detected (response :: rest) done before after := by
  have count : (storedRecords (response :: rest)).length = 1 + (storedRecords rest).length := by
    rw [stored_records_cons response rest stored, List.length_cons, Nat.add_comm]
  refine ⟨?_, ?_, ?_⟩
  · have head : readBytes after (0x20208 + 20 * done) 20 = response.record.bytes := by
      rw [← after_record_bytes before done response.record]
      apply read_bytes_congr
      intro index bound
      exact later.frame _ (by omega) (by omega)
    have tail := later.records
    rw [show 0x20208 + 20 * (done + 1) = 0x20208 + 20 * done + 20 by omega] at tail
    rw [count, stored_records_cons response rest stored, List.flatMap_cons, Nat.mul_add,
      read_bytes_add, head, tail]
  · have carry : signalsCarry (response :: rest) = signalsCarry rest := by
      simp [signalsCarry, stored]
    rw [later.length, afterRecord, read_memlayoutlen_write, count, carry]
    split_ifs
    · rfl
    · omega
  · intro target lengthWord records
    rw [count] at records
    rw [later.frame target lengthWord (by omega)]
    exact after_record_outside before done target response.record lengthWord (by omega)

/-- The run lemma: induction on the responses, each stored record advancing `done` by one. -/
theorem detectmem_run (responses : List E820Response) (done : Nat) (mem : Memory)
    (whole : complete responses = true)
    (fits : 0x208 + 20 * (done + (storedRecords responses).length) ≤ 0x10000) :
    ∃ after, detectmem responses (0x208 + 20 * done) mem = some after ∧
      Detected responses done mem after := by
  induction responses generalizing done mem with
  | nil => simp [complete] at whole
  | cons response rest ih =>
      cases carry : response.carry with
      | true =>
          have last : rest = [] := by simpa [complete, carry] using whole
          subst last
          refine ⟨writeMemlayoutlen mem 0xdead, by simp [detectmem, carry], ?_, ?_, ?_⟩
          · simp [storedRecords, carry, readBytes]
          · simp [signalsCarry, carry, read_memlayoutlen_write]
          · intro target lengthWord _
            exact write_memlayoutlen_outside _ _ _ lengthWord
      | false =>
          rw [stored_records_cons response rest carry, List.length_cons] at fits
          rw [detectmem_stored response rest done mem carry (by omega)]
          by_cases final : response.ebx = 0#32
          · have last : rest = [] := by simpa [complete, carry, final] using whole
            subst last
            rw [if_pos final]
            exact ⟨_, rfl, detected_cons carry (detected_nil _ _)⟩
          · have remaining : complete rest = true := by simpa [complete, carry, final] using whole
            obtain ⟨after, run, effect⟩ := ih (done + 1) _ remaining (by omega)
            rw [if_neg final]
            exact ⟨after, run, detected_cons carry effect⟩

theorem detectmem_overruns (responses : List E820Response) (done : Nat) (mem : Memory)
    (whole : complete responses = true) (inside : 0x208 + 20 * done ≤ 0x10000)
    (overrun : 0x10000 < 0x208 + 20 * (done + (storedRecords responses).length)) :
    detectmem responses (0x208 + 20 * done) mem = none := by
  induction responses generalizing done mem with
  | nil => rfl
  | cons response rest ih =>
      cases carry : response.carry with
      | true =>
          have last : rest = [] := by simpa [complete, carry] using whole
          subst last
          simp [storedRecords, carry] at overrun
          omega
      | false =>
          rw [stored_records_cons response rest carry, List.length_cons] at overrun
          by_cases room : 0x208 + 20 * (done + 1) ≤ 0x10000
          · rw [detectmem_stored response rest done mem carry room]
            by_cases final : response.ebx = 0#32
            · have last : rest = [] := by simpa [complete, carry, final] using whole
              subst last
              simp [storedRecords] at overrun
              omega
            · have remaining : complete rest = true := by
                simpa [complete, carry, final] using whole
              rw [if_neg final]
              exact ih (done + 1) _ remaining room (by omega)
          · have full : ¬0x208 + 20 * done + 20 ≤ 0x10000 := by omega
            simp only [detectmem, carry, storeRecord, if_neg full, Bool.false_eq_true, if_false]

theorem next_part_run (responses : List E820Response) (mem : Memory)
    (whole : complete responses = true)
    (fits : 0x208 + 20 * (storedRecords responses).length ≤ 0x10000) :
    ∃ after, nextPart responses mem = some after ∧
      readBytes after 0x20208 (20 * (storedRecords responses).length) =
        (storedRecords responses).flatMap E820Record.bytes ∧
      readMemlayoutlen after =
        (if signalsCarry responses then 0xdead else (storedRecords responses).length) ∧
      ∀ target, (target < 0x20204 ∨
        0x20208 + 20 * (storedRecords responses).length ≤ target) → after target = mem target := by
  obtain ⟨after, run, effect⟩ := detectmem_run responses 0 (writeMemlayoutlen mem 0) whole
    (by omega)
  refine ⟨after, run, by simpa using effect.records, ?_, ?_⟩
  · rw [effect.length, read_memlayoutlen_write]
    split_ifs
    · rfl
    · omega
  · intro target outside
    rw [effect.frame target (by omega) (by omega)]
    exact write_memlayoutlen_outside _ _ _ (by omega)

theorem next_part_overruns (responses : List E820Response) (mem : Memory)
    (whole : complete responses = true)
    (overrun : 0x10000 < 0x208 + 20 * (storedRecords responses).length) :
    nextPart responses mem = none :=
  detectmem_overruns responses 0 _ whole (by decide) (by omega)

/-- The loop returns and changes only the bytes from `memlayoutlen` to the end of the padding,
whatever memory held before. The kernel file starts right behind. -/
def ChangesOnlyBuffer (responses : List E820Response) : Prop :=
  ∀ mem, ∃ after, nextPart responses mem = some after ∧
    ∀ target, (target < loaderLoadAddr + memlayoutlen ∨ loaderLoadAddr + 0x1000 ≤ target) →
      after target = mem target

theorem record_reaches_kernel {responses : List E820Response} (whole : complete responses = true)
    (many : 178 < (storedRecords responses).length) : ¬ChangesOnlyBuffer responses := by
  intro kept
  by_cases overrun : 0x10000 < 0x208 + 20 * (storedRecords responses).length
  · obtain ⟨after, run, _⟩ := kept fun _ => 0
    rw [next_part_overruns responses _ whole overrun] at run
    cases run
  · -- offset 0x1000 of the image is byte 3576 of the stored records
    let stored := ((storedRecords responses).flatMap E820Record.bytes).getD 3576 0
    obtain ⟨after, run, same⟩ := kept fun _ => ~~~stored
    obtain ⟨_, again, records, _⟩ :=
      next_part_run responses (fun _ => ~~~stored) whole (by omega)
    rw [run] at again
    cases again
    have byte := read_bytes_get_d after 0x20208
      (show 3576 < 20 * (storedRecords responses).length by omega)
    rw [records] at byte
    have kernel : after 0x21000 = ~~~stored := same 0x21000 (Or.inr (by decide))
    exact BitVec.ne_not_self (by decide) (byte.trans kernel)

/-- The kernel file and the `kernel_size` word survive the loop exactly when at most 178 records
were stored; the padding has no room for more. -/
theorem changes_only_buffer_iff (responses : List E820Response)
    (whole : complete responses = true) :
    ChangesOnlyBuffer responses ↔ (storedRecords responses).length ≤ 178 := by
  constructor
  · intro kept
    by_contra many
    exact record_reaches_kernel whole (Nat.not_le.mp many) kept
  · intro few mem
    obtain ⟨after, run, _, _, frame⟩ := next_part_run responses mem whole (by omega)
    refine ⟨after, run, ?_⟩
    intro target outside
    apply frame
    unfold loaderLoadAddr memlayoutlen at outside
    omega

/-- A firmware that reports the given number of usable pages after a first one. -/
def fragmentedResponses (count : Nat) : List E820Response :=
  List.replicate count
      { carry := false, ebx := 1, record := { base := 0, length := 4096, kind := 1 } } ++
    [{ carry := false, ebx := 0, record := { base := 0, length := 4096, kind := 1 } }]

theorem fragmented_complete (count : Nat) : complete (fragmentedResponses count) = true := by
  induction count with
  | zero => rfl
  | succ count ih => exact ih

theorem fragmented_stored (count : Nat) :
    (storedRecords (fragmentedResponses count)).length = count + 1 := by
  simp [storedRecords, fragmentedResponses]

theorem short_list_changes_only_buffer :
    complete (fragmentedResponses 5) = true ∧ ChangesOnlyBuffer (fragmentedResponses 5) :=
  ⟨fragmented_complete 5, (changes_only_buffer_iff _ (fragmented_complete 5)).mpr (by decide)⟩

theorem long_list_overwrites_kernel :
    ¬∀ responses, complete responses = true → ChangesOnlyBuffer responses := by
  intro kept
  have whole := fragmented_complete 178
  have many : 178 < (storedRecords (fragmentedResponses 178)).length := by
    rw [fragmented_stored]
    decide
  exact record_reaches_kernel whole many (kept _ whole)

end RondOS.DetectMem
