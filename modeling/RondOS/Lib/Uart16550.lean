import RondOS.Lib.ByteMemory
import Mathlib.Data.List.Basic

/-!
# The 16550 serial port

The registers of the chip as the port writes show them. While the divisor latch access bit is set,
the first two ports reach the divisor latch; otherwise the first one feeds the transmitter. What a
driver does is a list of port events, and the chip observes it event by event.
-/

namespace Uart16550

open ByteMemory

set_option autoImplicit false

inductive Event where
  | inb (port : BitVec 16) (value : Byte)
  | outb (port : BitVec 16) (value : Byte)
  deriving DecidableEq

def Event.IsRead : Event → Prop
  | .inb _ _ => True
  | .outb _ _ => False

structure Uart where
  interruptEnable : Byte
  fifoControl : Byte
  lineControl : Byte
  modemControl : Byte
  divisorLow : Byte
  divisorHigh : Byte
  /-- The bytes that reached the transmitter, oldest first. -/
  transmitted : List Byte
  deriving DecidableEq

def Uart.dlab (uart : Uart) : Bool := uart.lineControl.getLsbD 7

def Uart.divisor (uart : Uart) : BitVec 16 := uart.divisorHigh ++ uart.divisorLow

def Uart.EightNOne (uart : Uart) : Prop :=
  uart.lineControl &&& 3 = 3 ∧ uart.lineControl.getLsbD 2 = false ∧
    uart.lineControl.getLsbD 3 = false

/-- A write at an offset from the base port. The status registers ignore writes. -/
def Uart.write (uart : Uart) (offset : BitVec 16) (value : Byte) : Uart :=
  if offset = 0 then
    if uart.dlab then { uart with divisorLow := value }
    else { uart with transmitted := uart.transmitted ++ [value] }
  else if offset = 1 then
    if uart.dlab then { uart with divisorHigh := value }
    else { uart with interruptEnable := value }
  else if offset = 2 then { uart with fifoControl := value }
  else if offset = 3 then { uart with lineControl := value }
  else if offset = 4 then { uart with modemControl := value }
  else uart

def Uart.step (base : BitVec 16) (uart : Uart) : Event → Uart
  | .inb _ _ => uart
  | .outb port value => uart.write (port - base) value

def Uart.observe (base : BitVec 16) (uart : Uart) (events : List Event) : Uart :=
  events.foldl (Uart.step base) uart

def written (port : BitVec 16) (events : List Event) : List Byte :=
  events.filterMap fun
    | .inb _ _ => none
    | .outb target value => if target = port then some value else none

/-- The event leaves the programming of the chip alone: it reads, or feeds the base port. -/
def Event.Transfers (base : BitVec 16) : Event → Prop
  | .inb _ _ => True
  | .outb port _ => port = base

theorem observe_append (base : BitVec 16) (uart : Uart) (first second : List Event) :
    uart.observe base (first ++ second) = (uart.observe base first).observe base second :=
  List.foldl_append

theorem written_append (port : BitVec 16) (first second : List Event) :
    written port (first ++ second) = written port first ++ written port second :=
  List.filterMap_append

theorem written_reads {events : List Event} (port : BitVec 16)
    (reads : ∀ event ∈ events, event.IsRead) : written port events = [] := by
  rw [written, List.filterMap_eq_nil_iff]
  intro event member
  cases event with
  | inb _ _ => rfl
  | outb _ _ => exact (reads _ member).elim

theorem observe_transfers {base : BitVec 16} {events : List Event} (uart : Uart)
    (latched : uart.dlab = false) (transfers : ∀ event ∈ events, event.Transfers base) :
    uart.observe base events =
      { uart with transmitted := uart.transmitted ++ written base events } := by
  induction events generalizing uart with
  | nil => simp [Uart.observe, written]
  | cons event rest ih =>
      have later : ∀ event ∈ rest, event.Transfers base :=
        fun other member => transfers other (List.mem_cons_of_mem _ member)
      cases event with
      | inb port value => exact ih uart latched later
      | outb port value =>
          have feeds : port = base := transfers _ List.mem_cons_self
          subst feeds
          have fed : uart.write (port - port) value =
              { uart with transmitted := uart.transmitted ++ [value] } := by
            have atBase : port - port = 0 := BitVec.sub_self port
            rw [atBase, Uart.write, if_pos rfl, latched]
            rfl
          have observed : uart.observe port (.outb port value :: rest) =
              (uart.write (port - port) value).observe port rest := rfl
          have tail := ih { uart with transmitted := uart.transmitted ++ [value] } latched later
          rw [observed, fed, tail]
          simp [written]

end Uart16550
