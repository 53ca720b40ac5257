import RondOS.Lib.ByteMemory
import Mathlib.Data.Fintype.Basic

/-!
# The 8259 interrupt controller

One chip as its two ports show it: the initialisation words after an ICW1, the interrupt mask, the
in-service register, and the end of an interrupt in fully nested mode, where level 0 has the highest
priority. A level is accepted when it is unmasked and no level of the same or a higher priority is
in service. Two chips are cascaded over level 2 of the master.
-/

namespace Pic8259

open ByteMemory

set_option autoImplicit false

inductive Stage where
  | icw2
  | icw3
  | icw4
  | ready
  deriving DecidableEq

structure Chip where
  stage : Stage
  needsIcw4 : Bool
  single : Bool
  vectorBase : Byte
  /-- ICW3: the slave lines of a master, the identity of a slave. -/
  cascade : Byte
  autoEoi : Bool
  mask : Byte
  inService : Byte
  deriving DecidableEq

def levelBit (level : Fin 8) : Byte := (1 : Byte) <<< level.val

def upTo (level : Fin 8) : Byte := ((2 : Byte) <<< level.val) - 1

/-- The non-specific end of interrupt: the in-service bit of the highest priority is cleared, which
is the lowest bit set. -/
def endService (inService : Byte) : Byte := inService &&& (inService - 1)

/-- A byte at the command port. Bit 4 marks ICW1, which clears the mask and the in-service register
and starts the initialisation. Of the other commands only the non-specific end of interrupt is
modelled. -/
def Chip.command (chip : Chip) (value : Byte) : Chip :=
  if value.getLsbD 4 then
    { chip with
      stage := .icw2
      needsIcw4 := value.getLsbD 0
      single := value.getLsbD 1
      autoEoi := false
      mask := 0
      inService := 0 }
  else if value = 0x20 then { chip with inService := endService chip.inService }
  else chip

def Chip.afterIcw3 (chip : Chip) : Stage := if chip.needsIcw4 then .icw4 else .ready

def Chip.data (chip : Chip) (value : Byte) : Chip :=
  match chip.stage with
  | .icw2 =>
      { chip with
        stage := if chip.single then chip.afterIcw3 else .icw3
        vectorBase := value &&& 0xf8 }
  | .icw3 => { chip with stage := chip.afterIcw3, cascade := value }
  | .icw4 => { chip with stage := .ready, autoEoi := value.getLsbD 1 }
  | .ready => { chip with mask := value }

def Chip.Accepts (chip : Chip) (level : Fin 8) : Prop :=
  chip.stage = .ready ∧ chip.mask &&& levelBit level = 0 ∧ chip.inService &&& upTo level = 0

instance (chip : Chip) (level : Fin 8) : Decidable (chip.Accepts level) :=
  inferInstanceAs (Decidable (_ ∧ _ ∧ _))

def Chip.served (chip : Chip) (level : Fin 8) : Chip :=
  if chip.autoEoi then chip else { chip with inService := chip.inService ||| levelBit level }

def Chip.vector (chip : Chip) (level : Fin 8) : Nat := chip.vectorBase.toNat + level.val

structure Cascade where
  master : Chip
  slave : Chip
  deriving DecidableEq

def cascadeLevel : Fin 8 := 2

/-- Both chips know from ICW3 that the slave is on level 2. -/
def Cascade.Attached (pics : Cascade) : Prop :=
  pics.master.cascade &&& levelBit cascadeLevel ≠ 0 ∧ pics.slave.cascade &&& 7 = 2

instance (pics : Cascade) : Decidable pics.Attached := inferInstanceAs (Decidable (_ ∧ _))

/-- The interrupt acknowledgement for one of the 16 lines: the vector, and the chips after it, when
the line is accepted. A line of the slave has to be accepted by both chips and goes into service in
both. A request on a slave's level itself, with nothing pending at the slave, goes into service in
the master only, and the slave answers with its level 7. -/
def Cascade.acknowledge (pics : Cascade) (line : Fin 16) : Option (Nat × Cascade) :=
  if own : line.val < 8 then
    let level : Fin 8 := ⟨line.val, own⟩
    if pics.master.Accepts level then
      some (if pics.master.cascade &&& levelBit level = 0 then pics.master.vector level
          else pics.slave.vector 7,
        { pics with master := pics.master.served level })
    else none
  else
    let level : Fin 8 := ⟨line.val - 8, by omega⟩
    if pics.Attached ∧ pics.master.Accepts cascadeLevel ∧ pics.slave.Accepts level then
      some (pics.slave.vector level,
        { master := pics.master.served cascadeLevel, slave := pics.slave.served level })
    else none

/-- A byte at one of the four ports; the other ports belong to other devices. -/
def Cascade.outb (pics : Cascade) (port : BitVec 16) (value : Byte) : Cascade :=
  if port = 0x20 then { pics with master := pics.master.command value }
  else if port = 0x21 then { pics with master := pics.master.data value }
  else if port = 0xa0 then { pics with slave := pics.slave.command value }
  else if port = 0xa1 then { pics with slave := pics.slave.data value }
  else pics

theorem end_service_accepted {inService : Byte} {level : Fin 8} (idle : inService &&& upTo level = 0) :
    endService (inService ||| levelBit level) = inService := by
  have every : ∀ (inService : Byte) (level : Fin 8), inService &&& upTo level = 0 →
      endService (inService ||| levelBit level) = inService := by
    decide +kernel
  exact every inService level idle

end Pic8259
