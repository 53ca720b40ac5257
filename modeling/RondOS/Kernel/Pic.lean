import RondOS.Kernel.Idt
import RondOS.Kernel.VgaInterrupt
import RondOS.Lib.Pic8259

/-!
# Interrupts after `sti`

`pic_init` unmasks all sixteen lines, `main` installs handlers for two of them, and
`end_of_interrupt` speaks to the master only. A run is a sequence of deliveries between which `main`
goes on printing. The result says which bits stay in service once the handlers have returned.
-/

namespace RondOS.Pic

open ByteMemory RustWord Console Idt Pic8259 VgaInterrupt

set_option autoImplicit false

def pic0Ctrl : BitVec 16 := 0x20
def pic0Data : BitVec 16 := 0x21
def pic1Ctrl : BitVec 16 := 0xa0
def pic1Data : BitVec 16 := 0xa1

def picWrites : List (BitVec 16 × Byte) :=
  [(pic0Data, 0xff), (pic1Data, 0xff),
    -- the master: ICW1, ICW2, ICW3, ICW4
    (pic0Ctrl, 0x11), (pic0Data, 0x20), (pic0Data, 0x04), (pic0Data, 0x01),
    -- the slave
    (pic1Ctrl, 0x11), (pic1Data, 0x28), (pic1Data, 0x02), (pic1Data, 0x01),
    -- unmask all interrupts
    (pic0Data, 0x00), (pic1Data, 0x00)]

def picInit (pics : Cascade) : Cascade :=
  picWrites.foldl (fun pics write => pics.outb write.1 write.2) pics

inductive Handler where
  | breakpoint
  | pageFault
  | doubleFault
  | segmentNotPresent
  | timer
  | keyboard
  deriving DecidableEq

structure Image where
  address : Handler → Usize
  codeAt : Nat → Option Handler
  linked : ∀ handler, codeAt (address handler).toNat = some handler

def Image.installs (image : Image) : List Install :=
  [.byField .breakpoint (image.address .breakpoint),
    .byField .pageFault (image.address .pageFault),
    .byField .doubleFault (image.address .doubleFault),
    .byField .segmentNotPresent (image.address .segmentNotPresent),
    .byIndex 0x20 (image.address .timer),
    .byIndex 0x21 (image.address .keyboard)]

structure LoadedIdt where
  pointer : DescriptorTablePointer
  bytes : List Byte

structure Machine where
  pics : Cascade
  idt : LoadedIdt
  ticks : BitVec 64
  vga : Vga

/-- `main` up to `sti`. -/
def setup (prof : Profile) (image : Image) (cs : BitVec 16) (base : BitVec 32) (machine : Machine) :
    Option Machine := do
  let table ← installAll prof cs image.installs
  some
    { machine with
      pics := picInit machine.pics
      idt := { pointer := table.update base, bytes := table.bytes } }

/-- The handler in which a delivery with vector `v` ends and the error code for it (0 where none is
pushed). A gate that is not present raises #NP, vector 11, with the index of the gate and the bits
for the IDT and an external event. What is no 32-bit interrupt gate raises #GP, which nothing
handles. -/
def dispatch (image : Image) (idt : LoadedIdt) (v : Nat) : Option (Handler × Nat) := do
  let gate ← readGate idt.pointer idt.bytes v
  if gate.kind ≠ 0xe ∨ gate.system ≠ 0 then none
  else if gate.present then some (← image.codeAt gate.offset, 0)
  else
    let notPresent ← readGate idt.pointer idt.bytes 11
    if notPresent.present then some (← image.codeAt notPresent.offset, 8 * v + 3) else none

def ascii (text : String) : List Byte := text.toList.map fun ch => BitVec.ofNat 8 ch.toNat

def Machine.print (prof : Profile) (text : List Byte) (machine : Machine) : Option Machine := do
  some { machine with vga := ← machine.vga.writeBytes prof text }

def endOfInterrupt (machine : Machine) : Machine :=
  { machine with pics := machine.pics.outb 0x20 0x20 }

/-- A handler up to its return. `scancode` is what port 0x60 reads, `frame` the text of the stack
frame. -/
def Handler.run (prof : Profile) (scancode : Byte) (frame : List Byte) (errorCode : Nat)
    (machine : Machine) : Handler → Option Machine
  | .breakpoint => machine.print prof (ascii "BREAKPOINT: " ++ frame ++ ascii "\n")
  | .pageFault =>
      machine.print prof
        (ascii "PAGE FAULT#" ++ ascii (toString errorCode) ++ ascii " " ++ frame ++ ascii "\n")
  -- prints and panics, and the panic handler does not return
  | .doubleFault => none
  | .segmentNotPresent =>
      machine.print prof
        (ascii "SEGMENT NOT PRESENT " ++ ascii (toString errorCode) ++ ascii " " ++ frame ++
          ascii "\n")
  | .timer => do some (endOfInterrupt { machine with ticks := ← prof.add machine.ticks 1 })
  | .keyboard => do
      match ← scancodeToChar scancode with
      | some ch => some (endOfInterrupt (← machine.print prof [ch]))
      | none => some (endOfInterrupt machine)

/-- `main` goes on printing, or a line is delivered. Interrupt gates keep the interrupt flag off in
a handler, so handlers do not nest. -/
inductive Event where
  | main (vga : Vga)
  | irq (line : Fin 16) (scancode : Byte) (frame : List Byte)

/-- An event up to the return to `main`. A line that is not accepted is not delivered. -/
def Machine.step (prof : Profile) (image : Image) (machine : Machine) : Event → Option Machine
  | .main vga => some { machine with vga }
  | .irq line scancode frame => do
      let (v, pics) ← machine.pics.acknowledge line
      let (handler, errorCode) ← dispatch image machine.idt v
      handler.run prof scancode frame errorCode { machine with pics }

def runFrom (prof : Profile) (image : Image) (machine : Machine) (events : List Event) :
    Option Machine :=
  events.foldlM (Machine.step prof image) machine

/-- No bit is in service, and no line is blocked. -/
def Unblocked (pics : Cascade) : Prop :=
  pics.master.inService = 0 ∧ pics.slave.inService = 0 ∧
    ∀ line, (pics.acknowledge line).isSome = true

def Event.Handled : Event → Prop
  | .main _ => True
  | .irq line _ _ => line = 0 ∨ line = 1

def configuredChip (vectorBase cascade inService : Byte) : Chip where
  stage := .ready
  needsIcw4 := true
  single := false
  vectorBase
  cascade
  autoEoi := false
  mask := 0
  inService

def configured (master slave : Byte) : Cascade where
  master := configuredChip 0x20 0x04 master
  slave := configuredChip 0x28 0x02 slave

theorem pic_init_configured (pics : Cascade) : picInit pics = configured 0 0 := rfl

def handlerOf (v : Nat) : Handler × Nat :=
  if v = 0x20 then (.timer, 0)
  else if v = 0x21 then (.keyboard, 0)
  else (.segmentNotPresent, 8 * v + 3)

def Dispatches (image : Image) (idt : LoadedIdt) : Prop :=
  ∀ v, 0x20 ≤ v → v < 0x30 → dispatch image idt v = some (handlerOf v)

theorem installs_accepted (image : Image) : AllAccepted image.installs := by
  intro install member
  simp only [Image.installs, List.mem_cons, List.not_mem_nil, or_false] at member
  rcases member with rfl | rfl | rfl | rfl | rfl | rfl <;> rfl

section Setup

variable {image : Image} {cs : BitVec 16} {table : InterruptDescriptorTable} {base : BitVec 32}

theorem dispatch_installed (recorded : Recorded cs (lastInstalled image.installs) table) {v : Nat}
    {handler : Handler} (bound : v < 256)
    (installed : lastInstalled image.installs v = some (image.address handler)) :
    dispatch image { pointer := table.update base, bytes := table.bytes } v = some (handler, 0) := by
  rw [dispatch, read_recorded recorded base bound, installed, decode_installed]
  simp [image.linked]

theorem dispatch_uninstalled (recorded : Recorded cs (lastInstalled image.installs) table) {v : Nat}
    (bound : v < 256) (uninstalled : lastInstalled image.installs v = none) :
    dispatch image { pointer := table.update base, bytes := table.bytes } v =
      some (.segmentNotPresent, 8 * v + 3) := by
  have notPresent : lastInstalled image.installs 11 = some (image.address .segmentNotPresent) := rfl
  rw [dispatch, read_recorded recorded base bound, uninstalled, decode_blank]
  simp [read_recorded recorded base, notPresent, decode_installed, image.linked]

theorem table_dispatches (recorded : Recorded cs (lastInstalled image.installs) table) :
    Dispatches image { pointer := table.update base, bytes := table.bytes } := by
  intro v low high
  by_cases timer : v = 0x20
  · subst timer
    exact dispatch_installed recorded (by decide) rfl
  by_cases keyboard : v = 0x21
  · subst keyboard
    exact dispatch_installed recorded (by decide) rfl
  rw [handlerOf, if_neg timer, if_neg keyboard]
  apply dispatch_uninstalled recorded (by omega)
  apply last_installed_none
  intro install member
  simp only [Image.installs, List.mem_cons, List.not_mem_nil, or_false] at member
  rcases member with rfl | rfl | rfl | rfl | rfl | rfl <;>
    simp only [Install.vector, Field.vector] <;> omega

end Setup

theorem setup_ready (prof : Profile) (image : Image) (cs : BitVec 16) (base : BitVec 32)
    (initial : Machine) :
    ∃ idt, setup prof image cs base initial =
        some { initial with pics := configured 0 0, idt } ∧ Dispatches image idt := by
  obtain ⟨table, installed, recorded⟩ :=
    install_all_recorded prof cs (installs_accepted image)
  refine ⟨{ pointer := table.update base, bytes := table.bytes }, ?_, table_dispatches recorded⟩
  simp only [setup, installed, Option.bind_eq_bind, Option.bind_some, pic_init_configured]

def masterBit (line : Fin 16) : Byte :=
  if own : line.val < 8 then levelBit ⟨line.val, own⟩ else levelBit cascadeLevel

def slaveBit (line : Fin 16) : Byte :=
  if line.val < 8 then 0 else levelBit ⟨line.val - 8, by omega⟩

def lineVector (line : Fin 16) : Nat := if line = 2 then 0x2f else 0x20 + line.val

theorem own_vector :
    ∀ (line : Fin 16) (own : line.val < 8),
      (if (0x04 : Byte) &&& levelBit ⟨line.val, own⟩ = 0 then 0x20 + line.val else 0x2f) =
        lineVector line := by
  decide

theorem slave_vector : ∀ line : Fin 16, ¬line.val < 8 → 0x28 + (line.val - 8) = lineVector line := by
  decide

theorem acknowledge_configured {master slave : Byte} {line : Fin 16} {v : Nat} {pics : Cascade}
    (accepted : (configured master slave).acknowledge line = some (v, pics)) :
    v = lineVector line ∧ pics = configured (master ||| masterBit line) (slave ||| slaveBit line) ∧
      ∀ own : line.val < 8, master &&& upTo ⟨line.val, own⟩ = 0 := by
  unfold Cascade.acknowledge at accepted
  by_cases own : line.val < 8
  · rw [dif_pos own] at accepted
    by_cases accepts : (configured master slave).master.Accepts ⟨line.val, own⟩
    · rw [if_pos accepts] at accepted
      cases accepted
      refine ⟨own_vector line own, ?_, fun _ => accepts.2.2⟩
      have kept : slave ||| (0 : Byte) = slave := BitVec.or_zero
      rw [masterBit, dif_pos own, slaveBit, if_pos own, kept]
      rfl
    · rw [if_neg accepts] at accepted
      cases accepted
  · rw [dif_neg own] at accepted
    by_cases accepts : (configured master slave).Attached ∧
        (configured master slave).master.Accepts cascadeLevel ∧
          (configured master slave).slave.Accepts ⟨line.val - 8, by omega⟩
    · rw [if_pos accepts] at accepted
      cases accepted
      refine ⟨slave_vector line own, ?_, fun inside => absurd inside own⟩
      rw [masterBit, dif_neg own, slaveBit, if_neg own]
      rfl
    · rw [if_neg accepts] at accepted
      cases accepted

def Handler.acknowledges : Handler → Bool
  | .timer => true
  | .keyboard => true
  | _ => false

theorem print_keeps {prof : Profile} {text : List Byte} {machine next : Machine}
    (printed : machine.print prof text = some next) :
    next.pics = machine.pics ∧ next.idt = machine.idt := by
  obtain ⟨vga, _, shown⟩ := Option.bind_eq_some_iff.mp printed
  cases shown
  exact ⟨rfl, rfl⟩

theorem handler_run {prof : Profile} {scancode : Byte} {frame : List Byte} {errorCode : Nat}
    {machine next : Machine} {handler : Handler}
    (ran : handler.run prof scancode frame errorCode machine = some next) :
    next.idt = machine.idt ∧
      next.pics =
        if handler.acknowledges then machine.pics.outb 0x20 0x20 else machine.pics := by
  cases handler with
  | breakpoint => exact (print_keeps ran).symm
  | pageFault => exact (print_keeps ran).symm
  | doubleFault => cases ran
  | segmentNotPresent => exact (print_keeps ran).symm
  | timer =>
      obtain ⟨ticks, _, returned⟩ := Option.bind_eq_some_iff.mp ran
      cases returned
      exact ⟨rfl, rfl⟩
  | keyboard =>
      obtain ⟨typed, _, handled⟩ := Option.bind_eq_some_iff.mp ran
      cases typed with
      | none =>
          cases handled
          exact ⟨rfl, rfl⟩
      | some ch =>
          obtain ⟨shown, printed, returned⟩ := Option.bind_eq_some_iff.mp handled
          cases returned
          obtain ⟨samePics, sameIdt⟩ := print_keeps printed
          exact ⟨sameIdt, congrArg (Cascade.outb · 0x20 0x20) samePics⟩

theorem configured_ended (master slave : Byte) :
    (configured master slave).outb 0x20 0x20 = configured (endService master) slave := rfl

def masterLeft (line : Fin 16) : Byte := if line = 0 ∨ line = 1 then 0 else masterBit line

theorem handler_of_line (line : Fin 16) :
    (handlerOf (lineVector line)).1.acknowledges = decide (line = 0 ∨ line = 1) := by
  revert line
  decide

theorem line_vector_bounds (line : Fin 16) : 0x20 ≤ lineVector line ∧ lineVector line < 0x30 := by
  revert line
  decide

/-- The timer and the keyboard leave the registers as they found them. Every other delivery leaves
its bits in service. -/
theorem irq_step {prof : Profile} {image : Image} {machine next : Machine} {master slave : Byte}
    {line : Fin 16} {scancode : Byte} {frame : List Byte} (dispatches : Dispatches image machine.idt)
    (before : machine.pics = configured master slave)
    (stepped : machine.step prof image (.irq line scancode frame) = some next) :
    next.idt = machine.idt ∧
      next.pics = configured (master ||| masterLeft line) (slave ||| slaveBit line) := by
  obtain ⟨⟨v, pics⟩, accepted, delivered⟩ := Option.bind_eq_some_iff.mp stepped
  rw [before] at accepted
  obtain ⟨vector, after, idle⟩ := acknowledge_configured accepted
  obtain ⟨low, high⟩ := line_vector_bounds line
  simp only [vector, dispatches _ low high, Option.bind_eq_bind, Option.bind_some] at delivered
  obtain ⟨sameIdt, ended⟩ := handler_run delivered
  refine ⟨sameIdt, ?_⟩
  rw [ended, handler_of_line, after, masterLeft]
  by_cases handled : line = 0 ∨ line = 1
  · have own : line.val < 8 := by rcases handled with rfl | rfl <;> decide
    have served := end_service_accepted (idle own)
    have kept : master ||| (0 : Byte) = master := BitVec.or_zero
    rw [decide_eq_true handled, if_pos rfl, if_pos handled, masterBit, dif_pos own,
      configured_ended, served, kept]
  · rw [decide_eq_false handled, if_neg (by decide), if_neg handled]

theorem left_clear_iff (line : Fin 16) :
    (masterLeft line = 0 ∧ slaveBit line = 0) ↔ line = 0 ∨ line = 1 := by
  revert line
  decide

theorem event_step {prof : Profile} {image : Image} {machine next : Machine} {master slave : Byte}
    {event : Event} (dispatches : Dispatches image machine.idt)
    (before : machine.pics = configured master slave)
    (stepped : machine.step prof image event = some next) :
    next.idt = machine.idt ∧ ∃ master' slave', next.pics = configured master' slave' ∧
      (master' = 0 ∧ slave' = 0 ↔ (master = 0 ∧ slave = 0) ∧ event.Handled) := by
  cases event with
  | main vga =>
      cases stepped
      exact ⟨rfl, master, slave, before, (and_iff_left trivial).symm⟩
  | irq line scancode frame =>
      obtain ⟨sameIdt, after⟩ := irq_step dispatches before stepped
      refine ⟨sameIdt, _, _, after, ?_⟩
      have masterClear : master ||| masterLeft line = 0 ↔ master = 0 ∧ masterLeft line = 0 :=
        BitVec.or_eq_zero_iff
      have slaveClear : slave ||| slaveBit line = 0 ↔ slave = 0 ∧ slaveBit line = 0 :=
        BitVec.or_eq_zero_iff
      rw [masterClear, slaveClear, Event.Handled, ← left_clear_iff]
      exact and_and_and_comm

/-- A whole run, by induction on its events: the registers are clear again exactly when they were
clear before and every delivery had a handler that ends it. -/
theorem events_run {prof : Profile} {image : Image} (events : List Event) {machine final : Machine}
    {master slave : Byte} (dispatches : Dispatches image machine.idt)
    (before : machine.pics = configured master slave)
    (ran : runFrom prof image machine events = some final) :
    ∃ master' slave', final.pics = configured master' slave' ∧
      (master' = 0 ∧ slave' = 0 ↔
        (master = 0 ∧ slave = 0) ∧ ∀ event ∈ events, event.Handled) := by
  induction events generalizing machine master slave with
  | nil =>
      cases ran
      exact ⟨master, slave, before, by simp⟩
  | cons event events ih =>
      rw [runFrom, List.foldlM_cons] at ran
      obtain ⟨next, stepped, rest⟩ := Option.bind_eq_some_iff.mp ran
      obtain ⟨sameIdt, master', slave', after, cleared⟩ := event_step dispatches before stepped
      rw [← sameIdt] at dispatches
      obtain ⟨master'', slave'', configuredLater, ended⟩ := ih dispatches after rest
      refine ⟨master'', slave'', configuredLater, ?_⟩
      rw [ended, cleared, List.forall_mem_cons, and_assoc]

theorem unblocked_configured_iff (master slave : Byte) :
    Unblocked (configured master slave) ↔ master = 0 ∧ slave = 0 := by
  constructor
  · intro unblocked
    exact ⟨unblocked.1, unblocked.2.1⟩
  · intro clear
    rcases clear with ⟨rfl, rfl⟩
    refine ⟨rfl, rfl, ?_⟩
    decide

theorem idle_acknowledge (line : Fin 16) :
    (configured 0 0).acknowledge line =
      some (lineVector line, configured (masterBit line) (slaveBit line)) := by
  revert line
  decide

theorem idle_step (prof : Profile) (image : Image) (machine : Machine) (line : Fin 16)
    (scancode : Byte) (frame : List Byte) (dispatches : Dispatches image machine.idt)
    (idle : machine.pics = configured 0 0) :
    machine.step prof image (.irq line scancode frame) =
      (handlerOf (lineVector line)).1.run prof scancode frame (handlerOf (lineVector line)).2
        { machine with pics := configured (masterBit line) (slaveBit line) } := by
  obtain ⟨low, high⟩ := line_vector_bounds line
  simp only [Machine.step, idle, idle_acknowledge, dispatches _ low high, Option.bind_eq_bind,
    Option.bind_some]

section Idle

variable {prof : Profile} {image : Image} {machine : Machine}
  (dispatches : Dispatches image machine.idt) (idle : machine.pics = configured 0 0)
include dispatches idle

theorem timer_step (scancode : Byte) (frame : List Byte) {ticks : BitVec 64}
    (counted : prof.add machine.ticks 1 = some ticks) :
    machine.step prof image (.irq 0 scancode frame) = some { machine with ticks } := by
  have handler : handlerOf (lineVector 0) = (.timer, 0) := by decide
  have ended : (configured (masterBit 0) (slaveBit 0)).outb 0x20 0x20 = configured 0 0 := by decide
  rw [idle_step prof image machine 0 scancode frame dispatches idle, handler]
  simp only [Handler.run, endOfInterrupt, ended, idle, counted, Option.bind_eq_bind,
    Option.bind_some]

theorem key_step {scancode ch : Byte} (frame : List Byte)
    (typed : scancodeToChar scancode = some (some ch)) (inside : machine.vga.colPos < 80) :
    machine.step prof image (.irq 1 scancode frame) =
      some { machine with vga := machine.vga.wrote ch } := by
  have handler : handlerOf (lineVector 1) = (.keyboard, 0) := by decide
  have ended : (configured (masterBit 1) (slaveBit 1)).outb 0x20 0x20 = configured 0 0 := by decide
  have printed : machine.vga.writeBytes prof [ch] = some (machine.vga.wrote ch) :=
    write_bytes_cons prof machine.vga ch [] inside
  rw [idle_step prof image machine 1 scancode frame dispatches idle, handler]
  simp only [Handler.run, Machine.print, endOfInterrupt, typed, printed, ended, idle,
    Option.bind_eq_bind, Option.bind_some]

theorem unhandled_step {line : Fin 16} (scancode : Byte) (frame : List Byte)
    (unhandled : ¬(line = 0 ∨ line = 1)) (inside : machine.vga.colPos < 80) :
    ∃ vga, machine.step prof image (.irq line scancode frame) =
      some { machine with pics := configured (masterBit line) (slaveBit line), vga } := by
  have handler : (handlerOf (lineVector line)).1 = .segmentNotPresent := by
    revert line
    decide
  obtain ⟨vga, written, _⟩ := write_bytes_run prof
    (ascii "SEGMENT NOT PRESENT " ++ ascii (toString (handlerOf (lineVector line)).2) ++
      ascii " " ++ frame ++ ascii "\n") machine.vga inside
  refine ⟨vga, ?_⟩
  rw [idle_step prof image machine line scancode frame dispatches idle, handler]
  simp only [Handler.run, Machine.print, written, Option.bind_eq_bind, Option.bind_some]

end Idle

/-- After any run from `sti` on, the controllers are as free as at its start exactly when all its
deliveries were on the lines of the timer and the keyboard. -/
theorem lines_stay_unblocked_iff (prof : Profile) (image : Image) (cs : BitVec 16)
    (base : BitVec 32) (initial started final : Machine) (events : List Event)
    (enabled : setup prof image cs base initial = some started)
    (ran : runFrom prof image started events = some final) :
    (∀ before state, before <+: events → runFrom prof image started before = some state →
        Unblocked state.pics) ↔
      ∀ event ∈ events, event.Handled := by
  obtain ⟨idt, ready, dispatches⟩ := setup_ready prof image cs base initial
  cases ready.symm.trans enabled
  have reached : ∀ before state,
      runFrom prof image { initial with pics := configured 0 0, idt } before = some state →
        (Unblocked state.pics ↔ ∀ event ∈ before, event.Handled) := by
    intro before state reached
    obtain ⟨master, slave, left, cleared⟩ := events_run before dispatches rfl reached
    rw [left, unblocked_configured_iff, cleared]
    simp
  constructor
  · intro unblocked
    exact (reached events final ran).mp (unblocked events final (List.prefix_refl events) ran)
  · intro handled before state front run
    exact (reached before state run).mpr fun event member => handled event (front.subset member)

def sampleImage : Image where
  address handler := BitVec.ofNat 32 (0xc0009000 + 0x100 * handler.ctorIdx)
  codeAt offset :=
    [.breakpoint, .pageFault, .doubleFault, .segmentNotPresent, .timer, .keyboard].find?
      fun handler : Handler => offset = 0xc0009000 + 0x100 * handler.ctorIdx
  linked := by
    intro handler
    cases handler <;> rfl

def sampleMachine : Machine where
  pics := { master := configuredChip 0x08 0x04 0x01, slave := configuredChip 0x70 0x02 0x01 }
  idt := { pointer := { limit := 0, base := 0 }, bytes := [] }
  ticks := 0
  vga := Vga.new (fun _ _ => blank 0) ⟨0, fun _ => 0⟩

theorem tick_and_key_unblocked :
    ∃ started final, setup .debug sampleImage 8 0 sampleMachine = some started ∧
      runFrom .debug sampleImage started [.irq 0 0 [], .irq 1 0x1e []] = some final ∧
      Unblocked final.pics := by
  obtain ⟨idt, ready, dispatches⟩ := setup_ready .debug sampleImage 8 0 sampleMachine
  let started : Machine := { sampleMachine with pics := configured 0 0, idt }
  let ticked : Machine := { started with ticks := 1 }
  have tick : started.step .debug sampleImage (.irq 0 0 []) = some ticked :=
    timer_step dispatches rfl 0 [] rfl
  have key : ticked.step .debug sampleImage (.irq 1 0x1e []) =
      some { ticked with vga := ticked.vga.wrote 0x61 } :=
    key_step dispatches rfl [] (by decide) (Nat.zero_lt_succ 79)
  have ran : runFrom .debug sampleImage started [.irq 0 0 [], .irq 1 0x1e []] =
      some { ticked with vga := ticked.vga.wrote 0x61 } := by
    simp only [runFrom, List.foldlM_cons, List.foldlM_nil, tick, key, Option.bind_eq_bind,
      Option.bind_some, Option.pure_def]
  have handled : ∀ event ∈ [Event.irq 0 0 [], Event.irq 1 0x1e []], event.Handled := by
    simp [Event.Handled]
  have unblocked := (lines_stay_unblocked_iff .debug sampleImage 8 0 sampleMachine started _ _ ready
    ran).mpr handled
  exact ⟨started, _, ready, ran, unblocked _ _ (List.prefix_refl _) ran⟩

/-- A byte at the serial port: IRQ 4 has no gate, and the #NP handler ends no interrupt. -/
theorem serial_line_blocks_lines :
    ¬∀ (prof : Profile) (image : Image) (cs : BitVec 16) (base : BitVec 32)
        (initial started final : Machine) (events : List Event),
      setup prof image cs base initial = some started →
        runFrom prof image started events = some final →
          ∀ before state, before <+: events → runFrom prof image started before = some state →
            Unblocked state.pics := by
  intro claimed
  obtain ⟨idt, ready, dispatches⟩ := setup_ready .debug sampleImage 8 0 sampleMachine
  let started : Machine := { sampleMachine with pics := configured 0 0, idt }
  obtain ⟨vga, delivered⟩ : ∃ vga, started.step .debug sampleImage (.irq 4 0 []) =
      some { started with pics := configured (masterBit 4) (slaveBit 4), vga } :=
    unhandled_step dispatches rfl 0 [] (by decide) (Nat.zero_lt_succ 79)
  have ran : runFrom .debug sampleImage started [.irq 4 0 []] =
      some { started with pics := configured (masterBit 4) (slaveBit 4), vga } := by
    simp only [runFrom, List.foldlM_cons, List.foldlM_nil, delivered, Option.bind_eq_bind,
      Option.bind_some, Option.pure_def]
  have unblocked := claimed .debug sampleImage 8 0 sampleMachine started _ _ ready ran _ _
    (List.prefix_refl _) ran
  have inService : masterBit 4 = 0 := unblocked.1
  exact absurd inService (by decide)

end RondOS.Pic
