import RondOS.Kernel.Delivery
import RondOS.Kernel.Pic

/-!
# From the boot to the handlers

`Pic` takes a delivery and its handler for one step and lets no handler be interrupted. Below that
are the loader's tables, the bytes of the gates, the stack and the flag that `sti` has set. This
module lets the processor run over the memory that the loader has left, with handlers open to
interrupts wherever the flag allows one, and shows that every such execution is a run of `Pic`.
-/

namespace RondOS.Startup

open ByteMemory RustWord I386 Paging Protected Image DiskRead DetectMem PageTables Handover
open KernelImage ProtectedMode Console Idt Pic8259 Pic Delivery

set_option autoImplicit false

def signature : Handler → HandlerType
  | .breakpoint => .handlerFunc
  | .pageFault => .handlerFuncErrCode
  | .doubleFault => .divergingHandlerFuncErrCode
  | .segmentNotPresent => .handlerFuncErrCode
  | .timer => .handlerFunc
  | .keyboard => .handlerFunc

def parameters (handler : Handler) (entered : Cpu) : Option (ExceptionStackFrame × Nat) := do
  if (signature handler).takesErrorCode then
    let code ← loadLE entered.mem pagingTableAddr entered.esp 4
    some (← readFrame entered.mem (entered.esp + 4), code)
  else some (← readFrame entered.mem entered.esp, 0)

/-- An interrupt from outside. A gate that is not present raises #NP, a fault, with the index of the
gate and the bits for the IDT and an external event; what is no gate raises #GP, which nothing
handles. -/
def interrupt (gdtr : TablePointer) (pointer : DescriptorTablePointer) (v : Nat) (resume : Bool)
    (cpu : Cpu) : Option Cpu := do
  let (bytes, mem) ← fetchGate pointer cpu.mem v
  let gate := decodeGate bytes
  if gate.system ≠ 0 ∨ gate.kind ≠ 0xe ∧ gate.kind ≠ 0xf then none
  else if gate.present then
    deliver pagingTableAddr gdtr (gateAt pointer) v none resume { cpu with mem }
  else deliver pagingTableAddr gdtr (gateAt pointer) 11 (some (8 * v + 3)) true { cpu with mem }

def epilogue (gdtr : TablePointer) (handler : Handler) (left : Cpu) : Option Cpu :=
  leave pagingTableAddr gdtr (if (signature handler).takesErrorCode then some 0 else none) left

structure System where
  machine : Machine
  cpu : Cpu

section Execution

variable (prof : Profile) (image : Image) (render : ExceptionStackFrame → List Byte)
  {gdtr : TablePointer} (platform : Platform pagingTableAddr gdtr)

/-- Code below `top` with all interrupts that the controllers and the flag let through, also in
handlers, before and after what the handler does to the devices. Only `main` prints by itself.
`render` is the derived `Debug`. -/
inductive Exec : Bool → Nat → System → List Event → System → Prop where
  | done {main : Bool} {top : Nat} {system : System} : Exec main top system [] system
  | work {main : Bool} {top : Nat} {machine : Machine} {cpu next : Cpu} {trace : List Event}
      {final : System} (worked : Works platform top cpu next)
      (rest : Exec main top ⟨machine, next⟩ trace final) : Exec main top ⟨machine, cpu⟩ trace final
  | print {top : Nat} {machine : Machine} {cpu : Cpu} {trace : List Event} {final : System}
      (vga : Vga) (rest : Exec true top ⟨{ machine with vga }, cpu⟩ trace final) :
      Exec true top ⟨machine, cpu⟩ (.main vga :: trace) final
  | irq {main : Bool} {top v code : Nat} {machine ready acted ended : Machine}
      {cpu entered middle left resumed : Cpu} {early late trace : List Event} {final : System}
      {line : Fin 16} {scancode : Byte} {pics : Cascade} {handler : Handler}
      {frame : ExceptionStackFrame} {resume : Bool} (room : platform.low + 16 ≤ cpu.esp)
      (enabled : interruptFlag cpu.eflags = true)
      (acknowledged : machine.pics.acknowledge line = some (v, pics))
      (interrupted : interrupt gdtr machine.idt.pointer v resume cpu = some entered)
      (linked : image.codeAt entered.eip = some handler)
      (given : parameters handler entered = some (frame, code))
      (before : Exec false entered.esp ⟨{ machine with pics }, entered⟩ early ⟨ready, middle⟩)
      (ran : handler.run prof scancode (render frame) code ready = some acted)
      (after : Exec false entered.esp ⟨acted, middle⟩ late ⟨ended, left⟩)
      (unwound : left.esp = entered.esp)
      (returned : epilogue gdtr handler left = some resumed)
      (rest : Exec main top ⟨ended, resumed⟩ trace final) :
      Exec main top ⟨machine, cpu⟩
        (.irq line scancode (render frame) :: (early ++ late ++ trace)) final

end Execution

/-- The handler of vector `v`, entered from `cpu` with the parameters it asks for. `shown` is RF in the
frame. -/
structure Arrived {gdtr : TablePointer} (image : Image) (platform : Platform pagingTableAddr gdtr)
    (v : Nat) (shown : Bool) (cpu entered : Cpu) : Prop where
  linked : image.codeAt entered.eip = some (handlerOf v).1
  given : parameters (handlerOf v).1 entered = some (frameOf shown cpu entered.mem, (handlerOf v).2)
  masked : interruptFlag entered.eflags = false
  runs : platform.Runs entered
  lower : entered.esp ≤ cpu.esp
  pushed : OnlyBetween platform.entries (entered.esp - platform.shift) (cpu.esp - platform.shift)
    cpu.mem entered.mem
  returns : ∀ left, Kept platform entered.esp entered [] left → left.esp = entered.esp →
    ∃ after, epilogue gdtr (handlerOf v).1 left =
        some { cpu with eflags := savedFlags shown cpu.eflags, mem := after } ∧
      Marked platform.entries left.mem after

section Arriving

variable {prof : Profile} {image : Image} {gdt : Nat} {inside : gdt + 30 ≤ 510} {base : BitVec 32}
  {placed : Placed base} {table : InterruptDescriptorTable} {cpu : Cpu}
  (recorded : Recorded (BitVec.ofNat 16 selectorCodeSeg) (lastInstalled image.installs) table)
  (runs : (kernelPlatform gdt inside base placed table).Runs cpu)
include recorded runs

theorem interrupt_recorded {v : Nat} (resume : Bool) (bound : v < 256) :
    ∃ mem, Marked pageEntries cpu.mem mem ∧
      interrupt (gdtPointer gdt) (table.update base) v resume cpu =
        match lastInstalled image.installs v with
        | some _ =>
            deliver pagingTableAddr (gdtPointer gdt) (gateAt (table.update base)) v none resume
              { cpu with mem }
        | none =>
            deliver pagingTableAddr (gdtPointer gdt) (gateAt (table.update base)) 11
              (some (8 * v + 3)) true { cpu with mem } := by
  obtain ⟨mem, read, marked⟩ := fetch_gate_recorded placed recorded runs.intact bound
  refine ⟨mem, marked, ?_⟩
  rw [interrupt, read, Option.bind_eq_bind, Option.bind_some]
  cases lastInstalled image.installs v with
  | none =>
      simp only [decode_blank]
      rfl
  | some address =>
      simp only [decode_installed]
      rfl

theorem delivered_arrives {v vector : Nat} {error : Option Nat} {mem : Memory} (shown : Bool)
    (marked : Marked pageEntries cpu.mem mem) (room : kernelBase + 0x7c00 + 16 ≤ cpu.esp)
    (bound : vector < 256)
    (last : lastInstalled image.installs vector = some (image.address (handlerOf v).1))
    (signed : error.isSome = (signature (handlerOf v).1).takesErrorCode)
    (value : error.getD 0 = (handlerOf v).2) (small : (handlerOf v).2 < 0x100000000) :
    ∃ entered, deliver pagingTableAddr (gdtPointer gdt) (gateAt (table.update base)) vector error
        shown { cpu with mem } = some entered ∧
      Arrived image (kernelPlatform gdt inside base placed table) v shown cpu entered := by
  have ready : (kernelPlatform gdt inside base placed table).Runs { cpu with mem } :=
    { runs with
      intact := (kernelPlatform gdt inside base placed table).intact_marked runs.intact marked }
  obtain ⟨fetched, gate, fetching⟩ := gate_at_installed placed recorded ready.intact bound last
  obtain ⟨entered, delivered, enter⟩ := deliver_run error shown ready gate fetching rfl
    (image.address (handlerOf v).1).isLt room
  have esp := enter.esp
  have shows := frame_read ready room enter
  have frame : readFrame entered.mem (cpu.esp - 12) = some (frameOf shown cpu entered.mem) := shows
  dsimp only at esp
  refine ⟨entered, delivered, ?_, ?_, ?_, enter.runs, by omega, ?_, ?_⟩
  · rw [enter.eip]
    exact image.linked _
  · unfold parameters
    cases error with
    | none =>
        rw [← signed]
        have top : entered.esp = cpu.esp - 12 := esp
        simp only [Option.isSome_none, Bool.false_eq_true, if_false, top, frame,
          Option.bind_eq_bind, Option.bind_some, ← value, Option.getD_none]
    | some code =>
        rw [← signed]
        change entered.esp = cpu.esp - 12 - 4 at esp
        have top : entered.esp + 4 = cpu.esp - 12 := by
          unfold kernelBase at room
          omega
        change code = _ at value
        have stored := error_read enter rfl
        rw [value, Nat.mod_eq_of_lt small] at stored
        simp only [Option.isSome_some, if_true, stored, top, frame, Option.bind_eq_bind,
          Option.bind_some]
  · rw [enter.eflags]
    exact interrupt_gate_masks cpu.eflags
  · intro target outside
    exact (marked target).trans (enter.pushed target outside)
  · intro left kept unwound
    have size : errorSize (if (signature (handlerOf v).1).takesErrorCode then some 0 else none) =
        errorSize error := by
      rw [← signed]
      cases error <;> rfl
    obtain ⟨after, back, marks⟩ := leave_run ready room enter kept unwound
    refine ⟨after, ?_, marks⟩
    rw [leave] at back
    rw [epilogue, leave, size, back]

/-- Every line of the controllers ends up in the handler that `dispatch` names. -/
theorem interrupt_arrives {v : Nat} (resume : Bool) (room : kernelBase + 0x7c00 + 16 ≤ cpu.esp)
    (low : 0x20 ≤ v) (high : v < 0x30) :
    ∃ entered shown, interrupt (gdtPointer gdt) (table.update base) v resume cpu = some entered ∧
      Arrived image (kernelPlatform gdt inside base placed table) v shown cpu entered := by
  have small : (handlerOf v).2 < 0x100000000 := by
    unfold handlerOf
    split_ifs <;> simp only <;> omega
  obtain ⟨mem, marked, interrupted⟩ := interrupt_recorded recorded runs resume
    (show v < 256 by omega)
  rw [interrupted]
  by_cases own : v = 0x20 ∨ v = 0x21
  · have last : lastInstalled image.installs v = some (image.address (handlerOf v).1) := by
      rcases own with rfl | rfl <;> rfl
    have value : (none : Option Nat).getD 0 = (handlerOf v).2 := by
      rcases own with rfl | rfl <;> rfl
    have signed : (none : Option Nat).isSome = (signature (handlerOf v).1).takesErrorCode := by
      rcases own with rfl | rfl <;> rfl
    rw [last]
    obtain ⟨entered, arrives⟩ :=
      delivered_arrives recorded runs resume marked room (by omega) last signed value small
    exact ⟨entered, resume, arrives⟩
  · have absent : lastInstalled image.installs v = none := by
      apply last_installed_none
      intro install member
      simp only [Image.installs, List.mem_cons, List.not_mem_nil, or_false] at member
      rcases member with rfl | rfl | rfl | rfl | rfl | rfl <;>
        simp only [Install.vector, Field.vector] <;> omega
    have other : handlerOf v = (.segmentNotPresent, 8 * v + 3) := by
      rw [handlerOf, if_neg (by omega), if_neg (by omega)]
    have last : lastInstalled image.installs 11 = some (image.address (handlerOf v).1) := by
      rw [other]
      rfl
    have value : (some (8 * v + 3)).getD 0 = (handlerOf v).2 := by
      rw [other]
      rfl
    have signed : (some (8 * v + 3)).isSome = (signature (handlerOf v).1).takesErrorCode := by
      rw [other]
      rfl
    rw [absent]
    obtain ⟨entered, arrives⟩ :=
      delivered_arrives recorded runs true marked room (by decide) last signed value small
    exact ⟨entered, true, arrives⟩

end Arriving

/-- What code below `top` comes to. With the flag off, code other than `main` sees no event. -/
structure Outcome {gdtr : TablePointer} (prof : Profile) (image : Image)
    (platform : Platform pagingTableAddr gdtr) (main : Bool) (top : Nat) (system : System)
    (trace : List Event) (final : System) : Prop where
  kept : Kept platform top system.cpu [] final.cpu
  idt : final.machine.idt = system.machine.idt
  pics : ∃ master slave, final.machine.pics = configured master slave
  ran : runFrom prof image system.machine trace = some final.machine
  atomic : main = false → interruptFlag system.cpu.eflags = false →
    trace = [] ∧ final.machine = system.machine

theorem acknowledged_vector {pics next : Cascade} {line : Fin 16} {v : Nat}
    (chips : ∃ master slave, pics = configured master slave)
    (acknowledged : pics.acknowledge line = some (v, next)) :
    0x20 ≤ v ∧ v < 0x30 ∧ ∃ master slave, next = configured master slave := by
  obtain ⟨master, slave, chips⟩ := chips
  rw [chips] at acknowledged
  obtain ⟨vector, served, _⟩ := acknowledge_configured acknowledged
  obtain ⟨low, high⟩ := line_vector_bounds line
  rw [← vector] at low high
  exact ⟨low, high, _, _, served⟩

theorem run_from_cons {prof : Profile} {image : Image} {machine next : Machine} {event : Event}
    (stepped : machine.step prof image event = some next) (events : List Event) :
    runFrom prof image machine (event :: events) = runFrom prof image next events := by
  rw [runFrom, List.foldlM_cons, stepped, Option.bind_eq_bind, Option.bind_some]
  rfl

/-- By induction on the execution: the gates turn the flag off, so a handler is over before the next
event, and `Machine.step` accounts for all of it. -/
theorem exec_outcome {prof : Profile} {image : Image} {render : ExceptionStackFrame → List Byte}
    {gdt : Nat} {inside : gdt + 30 ≤ 510} {base : BitVec 32} {placed : Placed base}
    {table : InterruptDescriptorTable} {main : Bool} {top : Nat} {system final : System}
    {trace : List Event}
    (recorded : Recorded (BitVec.ofNat 16 selectorCodeSeg) (lastInstalled image.installs) table)
    (exec : Exec prof image render (kernelPlatform gdt inside base placed table) main top system trace
      final)
    (runs : (kernelPlatform gdt inside base placed table).Runs system.cpu)
    (below : system.cpu.esp ≤ top)
    (idt : system.machine.idt = { pointer := table.update base, bytes := table.bytes })
    (pics : ∃ master slave, system.machine.pics = configured master slave) :
    Outcome prof image (kernelPlatform gdt inside base placed table) main top system trace final := by
  induction exec with
  | done => exact ⟨Kept.refl runs below, rfl, pics, rfl, fun _ _ => ⟨rfl, rfl⟩⟩
  | work worked rest ih =>
      have outcome := ih worked.runs worked.below idt pics
      exact ⟨worked.kept.trans outcome.kept, outcome.idt, outcome.pics, outcome.ran,
        fun handler off => outcome.atomic handler (worked.interrupts.trans off)⟩
  | @print top machine cpu trace final vga rest ih =>
      have outcome := ih runs below idt pics
      have stepped : machine.step prof image (.main vga) = some { machine with vga } := rfl
      refine ⟨outcome.kept, outcome.idt, outcome.pics, ?_, fun handler => nomatch handler⟩
      exact (run_from_cons stepped trace).trans outcome.ran
  | @irq main top v code machine ready acted ended cpu entered middle left resumed early late trace
      final line scancode pics' handler frame resume room enabled acknowledged interrupted linked
      given before ran after unwound returned rest beforeIh afterIh restIh =>
      change machine.idt = _ at idt
      obtain ⟨low, high, served⟩ := acknowledged_vector pics acknowledged
      obtain ⟨reached, shown, same, arrived⟩ :=
        interrupt_arrives recorded runs resume room low high
      rw [idt] at interrupted
      cases same.symm.trans interrupted
      cases arrived.linked.symm.trans linked
      cases arrived.given.symm.trans given
      have entering := beforeIh arrived.runs (Nat.le_refl _) idt served
      obtain ⟨noEarly, untouched⟩ := entering.atomic rfl arrived.masked
      change ready = { machine with pics := pics' } at untouched
      subst untouched noEarly
      have dispatches : Dispatches image machine.idt := by
        rw [idt]
        exact table_dispatches recorded
      have stepped : machine.step prof image
          (.irq line scancode (render (frameOf shown cpu entered.mem))) =
          some acted := by
        simp only [Machine.step, acknowledged, dispatches v low high, ran, Option.bind_eq_bind,
          Option.bind_some]
      obtain ⟨master, slave, chips⟩ := pics
      obtain ⟨sameIdt, master', slave', chips', _⟩ := event_step dispatches chips stepped
      have masked : interruptFlag middle.eflags = false :=
        entering.kept.interrupts.trans arrived.masked
      have leaving := afterIh entering.kept.runs entering.kept.below (sameIdt.trans idt)
        ⟨master', slave', chips'⟩
      obtain ⟨noLate, finished⟩ := leaving.atomic rfl masked
      change ended = acted at finished
      subst finished noLate
      have handled : Kept (kernelPlatform gdt inside base placed table) entered.esp entered [] left :=
        entering.kept.trans leaving.kept
      obtain ⟨_, left, marked⟩ := arrived.returns left handled unwound
      cases left.symm.trans returned
      have back := kept_of_return shown runs below arrived.lower arrived.pushed handled marked
      have outcome := restIh back.runs below (sameIdt.trans idt) ⟨master', slave', chips'⟩
      refine ⟨back.trans outcome.kept, outcome.idt.trans sameIdt, outcome.pics, ?_, ?_⟩
      · exact (run_from_cons stepped trace).trans outcome.ran
      · intro _ off
        exact absurd enabled (by rw [off]; exact Bool.false_ne_true)

/-- `main` behind `sti`, on the stack that the loader has given it. It has left alone what the loader
built: the page tables, in which the processor may have set marks, and the boot sector with its
descriptors. -/
structure Started (switched : Switched) (base : BitVec 32) (table : InterruptDescriptorTable)
    (cpu : Cpu) : Prop where
  cs : cpu.cs = selectorCodeSeg
  above : kernelBase + 0x7c00 ≤ cpu.esp
  below : cpu.esp ≤ switched.esp
  eip : cpu.eip < 0x100000000
  eflags : cpu.eflags < 0x100000000
  protectedMode : virtualMode cpu.eflags = false
  kept : ∀ addr, 0xf000 ≤ addr → addr < 0x20200 →
    MarkedAt pageEntries switched.mem cpu.mem addr
  stored : IdtStored base table cpu.mem

theorem started_runs {boot : BootBlock} (labels : Labels boot) {cr0 cr4 : Nat}
    {handed after : Memory} {base : BitVec 32} {placed : Placed base}
    {table : InterruptDescriptorTable} {cpu : Cpu}
    (switches : SwitchedFrom labels.gdt handed after)
    (started : Started (switchedOver labels.gdt cr0 cr4 after) base table cpu) :
    (kernelPlatform labels.gdt labels.inside base placed table).Runs cpu where
  intact :=
    { tables := switches.tables.congr fun addr lower upper => started.kept addr lower (by omega)
      segments := by
        have inside := labels.inside
        intro index bound
        have place : 0x20000 ≤ loaderLoadAddr + labels.gdt + index ∧
            loaderLoadAddr + labels.gdt + index < 0x20200 := by
          unfold loaderLoadAddr
          omega
        have same := started.kept (loaderLoadAddr + labels.gdt + index) (by omega) place.2
        rw [same.eq (not_page_entry (Or.inr place.1))]
        exact switches.segments index bound
      gates := started.stored }
  cs := started.cs
  above := started.above
  below := Nat.le_trans started.below (Nat.le_of_eq (Nat.add_comm _ _))
  eip := started.eip
  eflags := started.eflags
  protectedMode := started.protectedMode

/-- From the boot sector to any state behind `sti`. However the lines interrupt `main` and its
handlers, the devices have gone through a run in which no handler is interrupted; and each line that
the controllers accept, while 16 bytes of stack are left, is delivered to the handler of that run,
with the frame of the interrupted code, and the handler returns to it. -/
theorem executions_are_runs (boot : BootBlock) (labels : Labels boot) (kernel : List Byte)
    (int13 : Int13) (responses : List E820Response) (mem : Memory) (state : LoaderState)
    (cr0 cr4 : Nat) (prof : Profile) (image : Image) (base : BitVec 32) (placed : Placed base)
    (initial : Machine) (plain : plainControl cr0 cr4 = true)
    (transfers : Transfers (diskByte boot kernel) int13)
    (bounded : loaderEnd kernel + 4 ≤ 0x80000)
    (accepted : loadImage int13 (loaderEnd kernel) mem = .ok state)
    (whole : complete responses = true) (fits : recordsEnd responses ≤ 0x10000) :
    ∃ switched table machine,
      enterKernel labels (loaderEnd kernel) cr0 cr4 responses state.mem = some switched ∧
      switched.gdtr = gdtPointer labels.gdt ∧
      installAll prof (BitVec.ofNat 16 selectorCodeSeg) image.installs = some table ∧
      setup prof image (BitVec.ofNat 16 selectorCodeSeg) base initial = some machine ∧
      ∀ (render : ExceptionStackFrame → List Byte) (cpu : Cpu) (trace : List Event)
        (final : System), Started switched base table cpu →
        Exec prof image render (kernelPlatform labels.gdt labels.inside base placed table) true
          switched.esp ⟨machine, cpu⟩ trace final →
        runFrom prof image machine trace = some final.machine ∧
          ∀ line v pics resume, final.machine.pics.acknowledge line = some (v, pics) →
            kernelBase + 0x7c00 + 16 ≤ final.cpu.esp →
            ∃ entered handler code shown after,
              interrupt switched.gdtr final.machine.idt.pointer v resume final.cpu = some entered ∧
              dispatch image final.machine.idt v = some (handler, code) ∧
              image.codeAt entered.eip = some handler ∧
              parameters handler entered = some (frameOf shown final.cpu entered.mem, code) ∧
              interruptFlag entered.eflags = false ∧
              epilogue switched.gdtr handler entered = some { final.cpu with
                eflags := savedFlags shown final.cpu.eflags
                mem := after } ∧
              Marked pageEntries entered.mem after := by
  obtain ⟨handed, after, _, executed, switches, _⟩ :=
    enter_kernel_run labels plain transfers bounded accepted whole fits
  obtain ⟨table, created, recorded⟩ :=
    install_all_recorded prof (BitVec.ofNat 16 selectorCodeSeg) (installs_accepted image)
  have ready : setup prof image (BitVec.ofNat 16 selectorCodeSeg) base initial =
      some { initial with
        pics := configured 0 0
        idt := { pointer := table.update base, bytes := table.bytes } } := by
    simp only [setup, created, Option.bind_eq_bind, Option.bind_some, pic_init_configured]
  refine ⟨switchedOver labels.gdt cr0 cr4 after, table, _, executed, rfl, created, ready, ?_⟩
  intro render cpu trace final started exec
  have outcome := exec_outcome recorded exec (started_runs labels switches started)
    started.below rfl ⟨0, 0, rfl⟩
  refine ⟨outcome.ran, ?_⟩
  intro line v pics resume acknowledged room
  obtain ⟨low, high, _⟩ := acknowledged_vector outcome.pics acknowledged
  obtain ⟨entered, shown, interrupted, arrived⟩ :=
    interrupt_arrives recorded outcome.kept.runs resume room low high
  have idt : final.machine.idt = { pointer := table.update base, bytes := table.bytes } :=
    outcome.idt
  have dispatched : dispatch image final.machine.idt v = some (handlerOf v) := by
    rw [idt]
    exact table_dispatches recorded v low high
  obtain ⟨back, returns, marked⟩ :=
    arrived.returns entered (Kept.refl arrived.runs (Nat.le_refl _)) rfl
  have pointer : final.machine.idt.pointer = table.update base := by rw [idt]
  rw [pointer]
  exact ⟨entered, (handlerOf v).1, (handlerOf v).2, shown, back, interrupted, dispatched,
    arrived.linked, arrived.given, arrived.masked, returns, marked⟩

/-- The first tick, on a minimal kernel. -/
theorem sample_tick :
    ∃ state switched table machine cpu final,
      loadImage (exactInt13 (diskByte tableBoot (sampleElf 0x54))) (loaderEnd (sampleElf 0x54))
        (fun _ => 0xff) = .ok state ∧
      enterKernel tableLabels (loaderEnd (sampleElf 0x54)) 0x10 0 singleResponse state.mem =
        some switched ∧
      Started switched 0xc0022000 table cpu ∧
      Exec .debug sampleImage (fun _ => [])
        (kernelPlatform tableLabels.gdt tableLabels.inside 0xc0022000 sample_placed table) true
        switched.esp ⟨machine, cpu⟩ [.irq 0 0 []] final ∧
      runFrom .debug sampleImage machine [.irq 0 0 []] = some final.machine ∧
      final.machine.ticks = 1 := by
  have transfers := exact_int13_transfers (diskByte tableBoot (sampleElf 0x54))
  have whole : complete singleResponse = true := by decide
  have fits : recordsEnd singleResponse ≤ 0x10000 := by decide
  obtain ⟨state, loaded, _⟩ := entered_run transfers (by decide) (by decide) singleResponse
    (by decide) (fun _ => 0xff)
  obtain ⟨switched, table, machine, entered, _, created, ready, refines⟩ :=
    executions_are_runs tableBoot tableLabels (sampleElf 0x54) _ singleResponse (fun _ => 0xff) state
      0x10 0 .debug sampleImage 0xc0022000 sample_placed sampleMachine (by decide) transfers
      (by decide) loaded whole fits
  obtain ⟨_, after, _, executed, _⟩ := enter_kernel_run tableLabels
    (show plainControl 0x10 0 = true by decide) transfers (by decide) loaded whole fits
  cases executed.symm.trans entered
  obtain ⟨idt, same, dispatches⟩ := setup_ready .debug sampleImage
    (BitVec.ofNat 16 selectorCodeSeg) 0xc0022000 sampleMachine
  cases same.symm.trans ready
  let cpu : Cpu :=
    { eip := 0xc0022900, cs := 8, eflags := 0x202, esp := 0xc000e000,
      mem := writeBytes after 0x22000 table.bytes }
  have started : Started (switchedOver tableLabels.gdt 0x10 0 after) 0xc0022000 table cpu :=
    { cs := rfl
      above := show kernelBase + 0x7c00 ≤ 0xc000e000 by decide
      below := show 0xc000e000 ≤ 0xf000 + kernelBase by decide
      eip := show 0xc0022900 < 0x100000000 by decide
      eflags := show 0x202 < 0x100000000 by decide
      protectedMode := show virtualMode 0x202 = false by decide
      kept := fun addr _ upper => Or.inl (write_bytes_outside _ _ _ _ (Or.inl (by omega)))
      stored := sample_gates after table }
  obtain ⟨_, delivers⟩ := refines (fun _ => []) cpu [] _ started .done
  have room : kernelBase + 0x7c00 + 16 ≤ cpu.esp :=
    show kernelBase + 0x7c00 + 16 ≤ 0xc000e000 by decide
  obtain ⟨into, handler, code, shown, back, interrupted, dispatched, linked, given, _, returned, _⟩ :=
    delivers 0 _ _ false (idle_acknowledge 0) room
  have timer : handlerOf (lineVector 0) = (.timer, 0) := by decide
  have listed := dispatches (lineVector 0) (by decide) (by decide)
  rw [timer] at listed
  cases listed.symm.trans dispatched
  have enabled : interruptFlag cpu.eflags = true := show interruptFlag 0x202 = true by decide
  let served : Machine := { sampleMachine with pics := configured (masterBit 0) (slaveBit 0), idt }
  let acted : Machine := { served with pics := served.pics.outb 0x20 0x20, ticks := 1 }
  have ticked : Handler.timer.run .debug 0 [] 0 served = some acted := rfl
  have exec : Exec .debug sampleImage (fun _ => [])
      (kernelPlatform tableLabels.gdt tableLabels.inside 0xc0022000 sample_placed table) true
      (switchedOver tableLabels.gdt 0x10 0 after).esp
      ⟨{ sampleMachine with pics := configured 0 0, idt }, cpu⟩ [.irq 0 0 []]
      ⟨acted, { cpu with eflags := savedFlags shown cpu.eflags, mem := back }⟩ :=
    .irq room enabled (idle_acknowledge 0) interrupted linked given .done ticked .done rfl returned
      .done
  obtain ⟨ran, _⟩ := refines (fun _ => []) cpu _ _ started exec
  exact ⟨state, _, table, _, cpu, _, loaded, entered, started, exec, ran, rfl⟩

end RondOS.Startup
