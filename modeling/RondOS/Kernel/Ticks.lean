import RondOS.Kernel.Pic
import RondOS.Kernel.Pit

/-!
# Keeping time

Counter 0 of the interval timer drives line 0, the master controller latches its rising edges, and
`timer_handler` counts them in `TICKS`. In between, other lines interrupt, some of which the kernel
never acknowledges. This module follows the edges through all of that: none is counted twice, and
one gets lost only if the request before it is still waiting.
-/

namespace RondOS.Ticks

open ByteMemory RustWord Console Idt Pic8259 Pit8254 VgaInterrupt Pic

set_option autoImplicit false

/-- What an unacknowledged interrupt leaves in service is below the timer and the keyboard. -/
structure Quiet (image : Image) (machine : Machine) : Prop where
  dispatches : Dispatches image machine.idt
  serving : ∃ master slave, machine.pics = configured master slave ∧ master &&& 3 = 0

theorem left_low (line : Fin 16) : masterLeft line &&& 3 = 0 := by
  revert line
  decide

theorem quiet_step {prof : Profile} {image : Image} {machine next : Machine} {event : Event}
    (quiet : Quiet image machine) (stepped : machine.step prof image event = some next) :
    Quiet image next := by
  obtain ⟨master, slave, before, low⟩ := quiet.serving
  cases event with
  | main vga =>
      cases stepped
      exact ⟨quiet.dispatches, master, slave, before, low⟩
  | irq line scancode frame =>
      obtain ⟨sameIdt, after⟩ := irq_step quiet.dispatches before stepped
      have kept : (master ||| masterLeft line) &&& 3 = 0 := by
        have left := left_low line
        rw [BitVec.and_or_distrib_right, low, left]
        rfl
      refine ⟨?_, _, _, after, kept⟩
      rw [sameIdt]
      exact quiet.dispatches

theorem quiet_run {prof : Profile} {image : Image} (events : List Event) {machine final : Machine}
    (quiet : Quiet image machine) (ran : runFrom prof image machine events = some final) :
    Quiet image final := by
  apply foldlM_invariant (Quiet image) ?_ events quiet ran
  intro current event next held stepped
  exact quiet_step held stepped

theorem low_levels_idle :
    ∀ master : Byte, master &&& 3 = 0 → master &&& upTo 0 = 0 ∧ master &&& upTo 1 = 0 := by
  decide +kernel

theorem acknowledge_low {master slave : Byte} (low : master &&& 3 = 0) {line : Fin 16}
    (handled : line = 0 ∨ line = 1) :
    (configured master slave).acknowledge line =
      some (lineVector line, configured (master ||| masterBit line) slave) := by
  obtain ⟨first, second⟩ := low_levels_idle master low
  have unmasked : ∀ mask : Byte, (0 : Byte) &&& mask = 0 := by decide +kernel
  have accepted : ∃ result, (configured master slave).acknowledge line = some result := by
    rcases handled with rfl | rfl
    · have accepts : (configured master slave).master.Accepts 0 := ⟨rfl, unmasked _, first⟩
      rw [Cascade.acknowledge, dif_pos (by decide)]
      exact ⟨_, if_pos accepts⟩
    · have accepts : (configured master slave).master.Accepts 1 := ⟨rfl, unmasked _, second⟩
      rw [Cascade.acknowledge, dif_pos (by decide)]
      exact ⟨_, if_pos accepts⟩
  obtain ⟨⟨v, pics⟩, accepted⟩ := accepted
  obtain ⟨vector, served, _⟩ := acknowledge_configured accepted
  have own : slave ||| slaveBit line = slave := by
    rcases handled with rfl | rfl <;> exact BitVec.or_zero
  rw [accepted, vector, served, own]

theorem ended_low {master slave : Byte} (low : master &&& 3 = 0) {line : Fin 16}
    (handled : line = 0 ∨ line = 1) :
    (configured (master ||| masterBit line) slave).outb 0x20 0x20 = configured master slave := by
  obtain ⟨first, second⟩ := low_levels_idle master low
  rw [configured_ended]
  rcases handled with rfl | rfl
  · rw [show masterBit 0 = levelBit 0 from rfl, end_service_accepted first]
  · rw [show masterBit 1 = levelBit 1 from rfl, end_service_accepted second]

theorem scancode_decoded : ∀ code : Byte, code ≠ 0 → (scancodeToChar code).isSome := by
  decide +kernel

section Serving

variable {prof : Profile} {image : Image} {machine : Machine} (quiet : Quiet image machine)
include quiet

theorem timer_served (scancode : Byte) (frame : List Byte) :
    machine.step prof image (.irq 0 scancode frame) =
      (prof.add machine.ticks 1).map fun ticks => { machine with ticks } := by
  obtain ⟨master, slave, serving, low⟩ := quiet.serving
  have handler : handlerOf (lineVector 0) = (.timer, 0) := by decide
  obtain ⟨least, most⟩ := line_vector_bounds 0
  simp only [Machine.step, serving, acknowledge_low low (Or.inl rfl),
    quiet.dispatches _ least most, handler, Handler.run, endOfInterrupt,
    ended_low low (Or.inl rfl), Option.bind_eq_bind, Option.bind_some]
  cases prof.add machine.ticks 1 with
  | none => rfl
  | some ticks =>
      simp only [Option.bind_some, Option.map_some, ← serving]

theorem key_served {scancode : Byte} (frame : List Byte) (valid : scancode ≠ 0)
    (inside : machine.vga.colPos < 80) :
    machine.step prof image (.irq 1 scancode frame) =
      some { machine with
        vga := (scancodeToChar scancode).join.elim machine.vga fun ch => machine.vga.wrote ch } := by
  obtain ⟨master, slave, serving, low⟩ := quiet.serving
  have handler : handlerOf (lineVector 1) = (.keyboard, 0) := by decide
  obtain ⟨least, most⟩ := line_vector_bounds 1
  obtain ⟨typed, decoded⟩ := Option.isSome_iff_exists.mp (scancode_decoded scancode valid)
  cases typed with
  | none =>
      simp only [Machine.step, serving, acknowledge_low low (Or.inr rfl),
        quiet.dispatches _ least most, handler, Handler.run, endOfInterrupt, decoded,
        ended_low low (Or.inr rfl), Option.bind_eq_bind, Option.bind_some, Option.join_some,
        Option.elim_none]
  | some ch =>
      have printed : machine.vga.writeBytes prof [ch] = some (machine.vga.wrote ch) :=
        write_bytes_cons prof machine.vga ch [] inside
      simp only [Machine.step, serving, acknowledge_low low (Or.inr rfl),
        quiet.dispatches _ least most, handler, Handler.run, Machine.print, endOfInterrupt, decoded,
        printed, ended_low low (Or.inr rfl), Option.bind_eq_bind, Option.bind_some,
        Option.join_some, Option.elim_some]

end Serving

/-- After any deliveries on any lines, acknowledged or not, the timer and the keyboard still get
through, and they leave the controllers as they found them. Only the counter of ticks can stop the
timer, and the keyboard only an impossible scancode or a column past the line, where `putc` panics. -/
theorem timer_and_keyboard_never_blocked (prof : Profile) (image : Image) (cs : BitVec 16)
    (base : BitVec 32) (initial started machine : Machine) (events : List Event)
    (scancode : Byte) (frame : List Byte)
    (enabled : setup prof image cs base initial = some started)
    (ran : runFrom prof image started events = some machine) :
    machine.step prof image (.irq 0 scancode frame) =
        (prof.add machine.ticks 1).map (fun ticks => { machine with ticks }) ∧
      (scancode ≠ 0 → machine.vga.colPos < 80 →
        machine.step prof image (.irq 1 scancode frame) = some { machine with
          vga := (scancodeToChar scancode).join.elim machine.vga fun ch => machine.vga.wrote ch }) := by
  obtain ⟨idt, ready, dispatches⟩ := setup_ready prof image cs base initial
  cases ready.symm.trans enabled
  have start : Quiet image { initial with pics := configured 0 0, idt } :=
    ⟨dispatches, 0, 0, rfl, by decide⟩
  have quiet := quiet_run events start ran
  exact ⟨timer_served quiet scancode frame,
    fun valid inside => key_served quiet frame valid inside⟩

/-- A byte at the serial port leaves line 4 in service, and the clock goes on. -/
theorem timer_served_after_serial_interrupt :
    ∃ started machine, setup .debug sampleImage 8 0 sampleMachine = some started ∧
      runFrom .debug sampleImage started [.irq 4 0 []] = some machine ∧
      ∃ next, machine.step .debug sampleImage (.irq 0 0 []) = some next ∧ next.ticks = 1 := by
  obtain ⟨idt, ready, dispatches⟩ := setup_ready .debug sampleImage 8 0 sampleMachine
  let started : Machine := { sampleMachine with pics := configured 0 0, idt }
  obtain ⟨vga, delivered⟩ : ∃ vga, started.step .debug sampleImage (.irq 4 0 []) =
      some { started with pics := configured (masterBit 4) (slaveBit 4), vga } :=
    unhandled_step dispatches rfl 0 [] (by decide) (Nat.zero_lt_succ 79)
  have ran : runFrom .debug sampleImage started [.irq 4 0 []] =
      some { started with pics := configured (masterBit 4) (slaveBit 4), vga } := by
    simp only [runFrom, List.foldlM_cons, List.foldlM_nil, delivered, Option.bind_eq_bind,
      Option.bind_some, Option.pure_def]
  have served := (timer_and_keyboard_never_blocked .debug sampleImage 8 0 sampleMachine started _ _
    0 [] ready ran).1
  exact ⟨started, _, ready, ran, _, served, rfl⟩

/-- Counter 0, the latch of the master for line 0, and the machine. An edge that finds the latch
set merges with the one before. -/
structure Clock where
  machine : Machine
  counter : Counter
  cycles : Nat
  requested : Bool
  merged : Nat

def Clock.start (machine : Machine) (counter : Counter) : Clock where
  machine
  counter
  cycles := 0
  requested := false
  merged := 0

inductive ClockEvent where
  | cycle
  | cpu (event : Event)

def isTimer : Event → Bool
  | .main _ => false
  | .irq line _ _ => decide (line.val = 0)

def ClockEvent.isTick : ClockEvent → Bool
  | .cycle => false
  | .cpu event => isTimer event

def ClockEvent.isCycle : ClockEvent → Bool
  | .cycle => true
  | .cpu _ => false

def Clock.cycle (clock : Clock) : Clock :=
  let edge := clock.counter.rises (clock.cycles + 1)
  { clock with
    cycles := clock.cycles + 1
    requested := clock.requested || edge
    merged := clock.merged + (clock.requested && edge).toNat }

/-- Line 0 is delivered only when an edge is latched, and its acknowledgement clears the latch.
Cycles that pass during a handler count as passing behind it, since the latch is open again. -/
def Clock.step (prof : Profile) (image : Image) (clock : Clock) : ClockEvent → Option Clock
  | .cycle => some clock.cycle
  | .cpu event =>
      if isTimer event && !clock.requested then none
      else do
        let machine ← clock.machine.step prof image event
        some { clock with machine, requested := clock.requested && !isTimer event }

def runClock (prof : Profile) (image : Image) (clock : Clock) (events : List ClockEvent) :
    Option Clock :=
  events.foldlM (Clock.step prof image) clock

section Counting

variable {prof : Profile} {image : Image}

theorem print_ticks {text : List Byte} {machine next : Machine}
    (printed : machine.print prof text = some next) : next.ticks = machine.ticks := by
  obtain ⟨vga, _, shown⟩ := Option.bind_eq_some_iff.mp printed
  cases shown
  rfl

theorem other_handler_ticks {scancode : Byte} {frame : List Byte} {errorCode : Nat}
    {machine next : Machine} {handler : Handler} (other : handler ≠ .timer)
    (ran : handler.run prof scancode frame errorCode machine = some next) :
    next.ticks = machine.ticks := by
  cases handler with
  | breakpoint => exact print_ticks ran
  | pageFault => exact print_ticks ran
  | doubleFault => cases ran
  | segmentNotPresent => exact print_ticks ran
  | timer => exact absurd rfl other
  | keyboard =>
      obtain ⟨typed, _, handled⟩ := Option.bind_eq_some_iff.mp ran
      cases typed with
      | none =>
          cases handled
          rfl
      | some ch =>
          obtain ⟨shown, printed, returned⟩ := Option.bind_eq_some_iff.mp handled
          cases returned
          have kept := print_ticks printed
          exact kept

theorem timer_line_only (line : Fin 16) (other : line ≠ 0) :
    (handlerOf (lineVector line)).1 ≠ .timer := by
  revert line
  decide

theorem ticks_step {machine next : Machine} {event : Event} (quiet : Quiet image machine)
    (stepped : machine.step prof image event = some next) :
    next.ticks.toNat = (machine.ticks.toNat + (isTimer event).toNat) % 2 ^ 64 := by
  have word := machine.ticks.isLt
  cases event with
  | main vga =>
      cases stepped
      exact (Nat.mod_eq_of_lt word).symm
  | irq line scancode frame =>
      by_cases timer : line = 0
      · subst timer
        rw [timer_served quiet, Option.map_eq_some_iff] at stepped
        obtain ⟨ticks, counted, rfl⟩ := stepped
        rw [eq_add_of_some counted]
        exact BitVec.toNat_add _ _
      · obtain ⟨master, slave, serving, _⟩ := quiet.serving
        obtain ⟨⟨v, pics⟩, accepted, delivered⟩ := Option.bind_eq_some_iff.mp stepped
        rw [serving] at accepted
        obtain ⟨vector, _, _⟩ := acknowledge_configured accepted
        obtain ⟨low, high⟩ := line_vector_bounds line
        simp only [vector, quiet.dispatches _ low high, Option.bind_eq_bind, Option.bind_some]
          at delivered
        have other : ¬line.val = 0 := fun same => timer (Fin.ext same)
        rw [other_handler_ticks (timer_line_only line timer) delivered, isTimer,
          decide_eq_false other]
        exact (Nat.mod_eq_of_lt word).symm

/-- The books of the clock: every edge is counted, waits in the latch, or was merged. -/
structure Balanced (image : Image) (first : Nat) (ticked : Nat) (clock : Clock) : Prop where
  quiet : Quiet image clock.machine
  ticks : clock.machine.ticks.toNat = (first + ticked) % 2 ^ 64
  edges : ticked + clock.requested.toNat + clock.merged = clock.counter.edges clock.cycles

theorem balanced_cycle {first ticked : Nat} {clock : Clock}
    (balanced : Balanced image first ticked clock) : Balanced image first ticked clock.cycle := by
  refine ⟨balanced.quiet, balanced.ticks, ?_⟩
  have before := balanced.edges
  change ticked + (clock.requested || clock.counter.rises (clock.cycles + 1)).toNat +
    (clock.merged + (clock.requested && clock.counter.rises (clock.cycles + 1)).toNat) =
      clock.counter.edges (clock.cycles + 1)
  rw [edges_succ, ← before]
  cases clock.requested <;> cases clock.counter.rises (clock.cycles + 1) <;> simp <;> omega

theorem balanced_step {first ticked : Nat} {clock next : Clock} {event : ClockEvent}
    (balanced : Balanced image first ticked clock)
    (stepped : clock.step prof image event = some next) :
    Balanced image first (ticked + event.isTick.toNat) next ∧ next.counter = clock.counter ∧
      next.cycles = clock.cycles + event.isCycle.toNat := by
  cases event with
  | cycle =>
      cases stepped
      exact ⟨balanced_cycle balanced, rfl, rfl⟩
  | cpu event =>
      rw [Clock.step] at stepped
      split_ifs at stepped with early
      obtain ⟨machine, moved, same⟩ := Option.bind_eq_some_iff.mp stepped
      cases same
      have before := balanced.edges
      refine ⟨⟨quiet_step balanced.quiet moved, ?_, ?_⟩, rfl, rfl⟩
      · rw [ticks_step balanced.quiet moved, balanced.ticks, Nat.mod_add_mod, Nat.add_assoc]
        rfl
      · change ticked + (isTimer event).toNat + (clock.requested && !isTimer event).toNat +
          clock.merged = clock.counter.edges clock.cycles
        rw [← before]
        cases timer : isTimer event with
        | false => simp
        | true =>
            have requested : clock.requested = true := by
              cases latch : clock.requested with
              | true => rfl
              | false => simp [timer, latch] at early
            simp [requested]

theorem balanced_run {first ticked : Nat} {clock final : Clock} (events : List ClockEvent)
    (balanced : Balanced image first ticked clock)
    (ran : runClock prof image clock events = some final) :
    Balanced image first (ticked + events.countP ClockEvent.isTick) final ∧
      final.counter = clock.counter ∧
      final.cycles = clock.cycles + events.countP ClockEvent.isCycle := by
  induction events generalizing clock ticked with
  | nil =>
      cases ran
      exact ⟨balanced, rfl, rfl⟩
  | cons event events ih =>
      rw [runClock, List.foldlM_cons] at ran
      obtain ⟨next, stepped, rest⟩ := Option.bind_eq_some_iff.mp ran
      obtain ⟨kept, sameCounter, moved⟩ := balanced_step balanced stepped
      obtain ⟨balancedLater, counter, cycles⟩ := ih kept rest
      refine ⟨?_, counter.trans sameCounter, ?_⟩
      · rw [List.countP_cons]
        have total : ticked + event.isTick.toNat + events.countP ClockEvent.isTick =
            ticked + (events.countP ClockEvent.isTick + if event.isTick = true then 1 else 0) := by
          cases event.isTick with
          | false => simp
          | true => simp; omega
        rwa [total] at balancedLater
      · rw [cycles, moved, List.countP_cons]
        cases event.isCycle with
        | false => simp
        | true => simp; omega

end Counting

/-- In every interleaving of clock cycles, prints and interrupts on any line: `TICKS` is the number
of timer deliveries, and these, the request that waits and the requests that merged are together
the periods that have gone by. -/
theorem ticks_account_for_periods (prof : Profile) (image : Image) (cs : BitVec 16)
    (base : BitVec 32) (initial started : Machine) (mode : BitVec 16) (frequency : BitVec 32)
    (timer programmed : Timer) (events : List ClockEvent) (final : Clock)
    (enabled : setup prof image cs base initial = some started)
    (timed : Pit.configured prof 0 mode frequency timer = some programmed)
    (accepted : (programmed.counter 0).Accepts)
    (ran : runClock prof image (Clock.start started (programmed.counter 0)) events = some final) :
    final.machine.ticks.toNat =
        (initial.ticks.toNat + events.countP ClockEvent.isTick) % 2 ^ 64 ∧
      events.countP ClockEvent.isTick + final.requested.toNat + final.merged =
        events.countP ClockEvent.isCycle / Pit.periodFor frequency.toNat := by
  obtain ⟨idt, ready, dispatches⟩ := setup_ready prof image cs base initial
  cases ready.symm.trans enabled
  have modes : mode = 2 ∨ mode = 3 := by
    by_contra others
    rw [Pit.configured, Pit.pitConfigureChannel, if_neg fun both => others both.2] at timed
    cases timed
  rw [Pit.configured_eq prof (Or.inl rfl) modes] at timed
  cases timed
  have counter : Timer.counter
      ⟨Function.update timer.counter (0 : BitVec 16).toNat (Pit.programmed mode frequency)⟩ 0 =
        Pit.programmed mode frequency := by
    have zero : (0 : BitVec 16).toNat = 0 := rfl
    simp only [zero, Function.update_self]
  rw [counter] at ran accepted
  have start : Balanced image initial.ticks.toNat 0
      (Clock.start { initial with pics := configured 0 0, idt } (Pit.programmed mode frequency)) :=
    ⟨⟨dispatches, 0, 0, rfl, by decide⟩, (Nat.mod_eq_of_lt initial.ticks.isLt).symm, rfl⟩
  obtain ⟨balanced, sameCounter, cycles⟩ := balanced_run events start ran
  have edges := balanced.edges
  have periodic : (Pit.programmed mode frequency).mode = 2 ∨
      (Pit.programmed mode frequency).mode = 3 := by
    rcases modes with rfl | rfl
    · exact Or.inl rfl
    · exact Or.inr rfl
  have elapsed : final.cycles = events.countP ClockEvent.isCycle :=
    cycles.trans (Nat.zero_add _)
  have counted : Clock.counter final = Pit.programmed mode frequency := sameCounter
  rw [Nat.zero_add, counted, edges_eq_div rfl periodic accepted, Pit.programmed_period, elapsed]
    at edges
  have ticks := balanced.ticks
  rw [Nat.zero_add] at ticks
  exact ⟨ticks, edges⟩

/-- At the highest rate, through one period of two cycles and one tick. -/
theorem one_period_one_tick :
    ∃ started programmed final, setup .debug sampleImage 8 0 sampleMachine = some started ∧
      Pit.configured .debug 0 2 2000000 ⟨fun _ => Pit.programmed 2 200⟩ = some programmed ∧
      runClock .debug sampleImage (Clock.start started (programmed.counter 0))
        [.cycle, .cycle, .cpu (.irq 0 0 [])] = some final ∧
      final.machine.ticks.toNat = 1 ∧ final.requested = false ∧ final.merged = 0 := by
  obtain ⟨idt, ready, dispatches⟩ := setup_ready .debug sampleImage 8 0 sampleMachine
  let started : Machine := { sampleMachine with pics := configured 0 0, idt }
  have timed : Pit.configured .debug 0 2 2000000 ⟨fun _ => Pit.programmed 2 200⟩ =
      some ⟨Function.update (fun _ => Pit.programmed 2 200) 0 (Pit.programmed 2 2000000)⟩ :=
    Pit.configured_eq .debug (Or.inl rfl) (Or.inl rfl) 2000000 _
  have quiet : Quiet sampleImage started := ⟨dispatches, 0, 0, rfl, by decide⟩
  have rises : (Pit.programmed 2 2000000).rises 1 = false ∧
      (Pit.programmed 2 2000000).rises 2 = true := by decide
  have ran : runClock .debug sampleImage (Clock.start started (Pit.programmed 2 2000000))
      [.cycle, .cycle, .cpu (.irq 0 0 [])] =
        some { machine := { started with ticks := 1 }, counter := Pit.programmed 2 2000000,
               cycles := 2, requested := false, merged := 0 } := by
    have served : started.step .debug sampleImage (.irq 0 0 []) = some { started with ticks := 1 } :=
      timer_served quiet 0 []
    have line : isTimer (.irq 0 0 []) = true := rfl
    simp only [runClock, List.foldlM_cons, List.foldlM_nil, Clock.step, Clock.cycle, Clock.start,
      rises, line, served, Option.bind_eq_bind, Option.bind_some, Option.pure_def]
    rfl
  have counted := ticks_account_for_periods .debug sampleImage 8 0 sampleMachine started 2 2000000
    _ _ _ _ ready timed (by decide) ran
  exact ⟨started, _, _, ready, timed, ran, counted.1, rfl, rfl⟩

end RondOS.Ticks
