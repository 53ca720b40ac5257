import RondOS.Lib.ByteMemory
import Mathlib.Logic.Function.Basic

/-!
# The 8254 interval timer

Three counters behind four ports, as far as programming goes: a control word selects a counter and
gives it a mode, an access scheme and a number base, and the bytes of the count follow at the
counter's own port. Programming a counter clears its count register.
-/

namespace Pit8254

open ByteMemory

set_option autoImplicit false

inductive Access where
  | lowByte
  | highByte
  | lowThenHigh
  deriving DecidableEq

structure Counter where
  mode : Nat
  access : Access
  bcd : Bool
  /-- The low byte that waits for its high byte. -/
  pendingLow : Option Byte
  /-- The count register, from which each period starts. -/
  reload : BitVec 16
  /-- Whether a whole count was written since the control word. -/
  loaded : Bool
  deriving DecidableEq

structure Timer where
  counter : Nat → Counter

/-- Bits 3 to 1; the modes 6 and 7 are 2 and 3 again. -/
def controlMode (value : Byte) : Nat :=
  let bits := value.toNat / 2 % 8
  if 6 ≤ bits then bits - 4 else bits

/-- Bits 5 and 4. Zero latches the count for reading and programs nothing. -/
def controlAccess (value : Byte) : Option Access :=
  match value.toNat / 16 % 4 with
  | 1 => some .lowByte
  | 2 => some .highByte
  | 3 => some .lowThenHigh
  | _ => none

/-- A control word. Bits 7 and 6 select the counter; 3 is the read-back command. -/
def Timer.control (timer : Timer) (value : Byte) : Timer :=
  let number := value.toNat / 64
  match controlAccess value with
  | none => timer
  | some access =>
      if number < 3 then
        { counter := Function.update timer.counter number
            { mode := controlMode value
              access
              bcd := value.getLsbD 0
              pendingLow := none
              reload := 0
              loaded := false } }
      else timer

def Counter.write (counter : Counter) (value : Byte) : Counter :=
  match counter.access with
  | .lowByte => { counter with reload := (0 : Byte) ++ value, loaded := true }
  | .highByte => { counter with reload := value ++ (0 : Byte), loaded := true }
  | .lowThenHigh =>
      match counter.pendingLow with
      | none => { counter with pendingLow := some value }
      | some low => { counter with pendingLow := none, reload := value ++ low, loaded := true }

def Timer.outb (timer : Timer) (write : BitVec 16 × Byte) : Timer :=
  if write.1 = 0x43 then timer.control write.2
  else if 0x40 ≤ write.1.toNat ∧ write.1.toNat < 0x43 then
    let number := write.1.toNat - 0x40
    { counter := Function.update timer.counter number ((timer.counter number).write write.2) }
  else timer

def Timer.outAll (timer : Timer) (writes : List (BitVec 16 × Byte)) : Timer :=
  writes.foldl Timer.outb timer

/-- Clock cycles from one reload to the next; a count of zero is the largest one. -/
def Counter.period (counter : Counter) : Nat :=
  if counter.reload = 0 then 65536 else counter.reload.toNat

/-- The periodic modes 2 and 3 do not accept a count of one. -/
def Counter.Accepts (counter : Counter) : Prop :=
  counter.mode = 2 ∨ counter.mode = 3 → counter.reload ≠ 1

instance (counter : Counter) : Decidable counter.Accepts :=
  inferInstanceAs (Decidable (_ → _))

/-- The output of a loaded counter in a periodic mode rises at the end of each period. -/
def Counter.rises (counter : Counter) (cycle : Nat) : Bool :=
  counter.loaded && decide (counter.mode = 2 ∨ counter.mode = 3) && decide counter.Accepts &&
    decide (counter.period ∣ cycle)

def Counter.edges (counter : Counter) (cycles : Nat) : Nat :=
  (List.range cycles).countP fun earlier => counter.rises (earlier + 1)

theorem edges_succ (counter : Counter) (cycles : Nat) :
    counter.edges (cycles + 1) = counter.edges cycles + (counter.rises (cycles + 1)).toNat := by
  rw [Counter.edges, Counter.edges, List.range_succ, List.countP_append, List.countP_singleton]
  cases counter.rises (cycles + 1) <;> rfl

theorem edges_eq_div {counter : Counter} (loaded : counter.loaded = true)
    (periodic : counter.mode = 2 ∨ counter.mode = 3) (accepted : counter.Accepts) (cycles : Nat) :
    counter.edges cycles = cycles / counter.period := by
  induction cycles with
  | zero => rw [Nat.zero_div, Counter.edges, List.range_zero, List.countP_nil]
  | succ cycles ih =>
      rw [edges_succ, ih, Nat.succ_div, Counter.rises, loaded, decide_eq_true periodic,
        decide_eq_true accepted]
      by_cases last : counter.period ∣ cycles + 1 <;> simp [last]

theorem outb_control (timer : Timer) {control : Byte} {access : Access}
    (programs : controlAccess control = some access) (selects : control.toNat / 64 < 3) :
    timer.outb (0x43, control) =
      { counter := Function.update timer.counter (control.toNat / 64)
          { mode := controlMode control
            access
            bcd := control.getLsbD 0
            pendingLow := none
            reload := 0
            loaded := false } } := by
  rw [Timer.outb, if_pos rfl, Timer.control, programs]
  exact if_pos selects

theorem outb_count (timer : Timer) {port : BitVec 16} {number : Nat} (value : Byte)
    (address : port.toNat = 0x40 + number) (numbered : number < 3) :
    timer.outb (port, value) =
      { counter := Function.update timer.counter number
          ((timer.counter number).write value) } := by
  have notControl : port ≠ 0x43 := by
    intro same
    rw [same] at address
    change 0x43 = 0x40 + number at address
    omega
  have counterPort : 0x40 ≤ port.toNat ∧ port.toNat < 0x43 := by omega
  have offset : port.toNat - 0x40 = number := by omega
  rw [Timer.outb, if_neg notControl, if_pos counterPort]
  simp only [offset]

theorem halves_append (count : BitVec 16) :
    (count >>> 8).setWidth 8 ++ count.setWidth 8 = count := by
  apply BitVec.eq_of_getLsbD_eq
  intro index inside
  rw [BitVec.getLsbD_append, BitVec.getLsbD_setWidth, BitVec.getLsbD_setWidth,
    BitVec.getLsbD_ushiftRight]
  by_cases low : index < 8
  · simp [low]
  · have position : 8 + (index - 8) = index := by omega
    have high : index - 8 < 8 := by omega
    simp [low, high, position]

theorem out_all_low_then_high (timer : Timer) {port : BitVec 16} {control : Byte}
    (count : BitVec 16) (address : port.toNat = 0x40 + control.toNat / 64)
    (selects : control.toNat / 64 < 3) (programs : controlAccess control = some .lowThenHigh) :
    timer.outAll [(0x43, control), (port, count.setWidth 8), (port, (count >>> 8).setWidth 8)] =
      { counter := Function.update timer.counter (control.toNat / 64)
          { mode := controlMode control
            access := .lowThenHigh
            bcd := control.getLsbD 0
            pendingLow := none
            reload := count
            loaded := true } } := by
  rw [Timer.outAll, List.foldl_cons, List.foldl_cons, List.foldl_cons, List.foldl_nil,
    outb_control timer programs selects, outb_count _ _ address selects,
    outb_count _ _ address selects]
  simp only [Function.update_self, Function.update_idem, Counter.write, halves_append]

end Pit8254
