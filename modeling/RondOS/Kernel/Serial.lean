import RondOS.Lib.Footprint
import RondOS.Lib.Uart16550

/-!
# The serial port

`SerialPort` programs the chip once and then sends byte after byte, each behind a loop that polls
the line status. The statuses come from outside, so a run consumes a list of them and stops where
the list ends inside a wait. Its trace is everything it has done on the ports.
-/

namespace RondOS.Serial

open ByteMemory Footprint Uart16550

set_option autoImplicit false

def outputEmpty : Byte := 1 <<< 5

/-- What has happened on the ports, and the line statuses that later reads will return. -/
structure World where
  trace : List Event
  statuses : List Byte

def World.outb (world : World) (port : BitVec 16) (value : Byte) : World :=
  { world with trace := world.trace ++ [.outb port value] }

/-- `wait_for!` on a flag of the line status. -/
def waitFor (port : BitVec 16) (flag : Byte) (trace : List Event) :
    List Byte → Except World World
  | [] => .error { trace, statuses := [] }
  | status :: rest =>
      if status &&& flag = flag then .ok { trace := trace ++ [.inb port status], statuses := rest }
      else waitFor port flag (trace ++ [.inb port status]) rest

structure SerialPort where
  base : BitVec 16

namespace SerialPort

def portData (serial : SerialPort) : BitVec 16 := serial.base
def portIntEn (serial : SerialPort) : BitVec 16 := serial.base + 1
def portFifoCtrl (serial : SerialPort) : BitVec 16 := serial.base + 2
def portLineCtrl (serial : SerialPort) : BitVec 16 := serial.base + 3
def portModemCtrl (serial : SerialPort) : BitVec 16 := serial.base + 4
def portLineSts (serial : SerialPort) : BitVec 16 := serial.base + 5

def init (serial : SerialPort) (world : World) : World :=
  let world := world.outb serial.portIntEn 0x00
  -- the divisor latch is open from here on
  let world := world.outb serial.portLineCtrl 0x80
  let world := world.outb serial.portData 0x03
  let world := world.outb serial.portIntEn 0x00
  -- and closed again
  let world := world.outb serial.portLineCtrl 0x03
  let world := world.outb serial.portFifoCtrl 0xc7
  let world := world.outb serial.portModemCtrl 0x0b
  world.outb serial.portIntEn 0x01

def default (world : World) : SerialPort × World :=
  let serial : SerialPort := { base := 0x3f8 }
  (serial, serial.init world)

def sendRaw (serial : SerialPort) (data : Byte) (world : World) : Except World World := do
  let world ← waitFor serial.portLineSts outputEmpty world.trace world.statuses
  .ok (world.outb serial.portData data)

/-- The pairs of wait and write in `send` are each the body of `send_raw`. -/
def send (serial : SerialPort) (data : Byte) (world : World) : Except World World :=
  if data = 8 ∨ data = 0x7f then do
    let world ← serial.sendRaw 8 world
    let world ← serial.sendRaw 0x20 world
    serial.sendRaw 8 world
  else serial.sendRaw data world

def writeStr (serial : SerialPort) (bytes : List Byte) (world : World) : Except World World :=
  bytes.foldlM (fun world byte => serial.send byte world) world

end SerialPort

def writeStrs (serial : SerialPort) (strings : List (List Byte)) (world : World) :
    Except World World :=
  strings.foldlM (fun world bytes => serial.writeStr bytes world) world

/-- What the receiver should see for one byte. -/
def expand (data : Byte) : List Byte :=
  if data = 8 ∨ data = 0x7f then [8, 0x20, 8] else [data]

def expansion (strings : List (List Byte)) : List Byte := strings.flatten.flatMap expand

def sendAll (serial : SerialPort) (bytes : List Byte) (world : World) : Except World World :=
  bytes.foldlM (fun world byte => serial.sendRaw byte world) world

theorem send_eq_send_all (serial : SerialPort) (data : Byte) (world : World) :
    serial.send data world = sendAll serial (expand data) world := by
  unfold SerialPort.send sendAll expand
  split_ifs with erases
  · simp
  · simp

theorem write_str_eq_send_all (serial : SerialPort) (bytes : List Byte) (world : World) :
    serial.writeStr bytes world = sendAll serial (bytes.flatMap expand) world := by
  induction bytes generalizing world with
  | nil => rfl
  | cons byte rest ih =>
      rw [SerialPort.writeStr, List.foldlM_cons, send_eq_send_all, List.flatMap_cons, sendAll,
        sendAll, List.foldlM_append]
      congr 1
      funext later
      exact ih later

theorem write_strs_eq_send_all (serial : SerialPort) (strings : List (List Byte)) (world : World) :
    writeStrs serial strings world = sendAll serial (expansion strings) world := by
  induction strings generalizing world with
  | nil => rfl
  | cons bytes rest ih =>
      rw [writeStrs, List.foldlM_cons, write_str_eq_send_all, expansion, List.flatten_cons,
        List.flatMap_append, sendAll, sendAll, List.foldlM_append]
      congr 1
      funext later
      exact ih later

/-- Chunks of polling reads, the last of which saw the transmitter empty, and one write. -/
inductive Paced (serial : SerialPort) : List Byte → List Event → Prop
  | nil : Paced serial [] []
  | cons {spins events : List Event} {status value : Byte} {bytes : List Byte} :
      (∀ event ∈ spins, event.IsRead) → status &&& outputEmpty = outputEmpty →
      Paced serial bytes events →
      Paced serial (value :: bytes)
        (spins ++ .inb serial.portLineSts status :: .outb serial.portData value :: events)

theorem wait_for_cases (port : BitVec 16) (flag : Byte) (trace : List Event)
    (statuses : List Byte) :
    (∃ spins status rest, (∀ event ∈ spins, event.IsRead) ∧ status &&& flag = flag ∧
      waitFor port flag trace statuses =
        .ok { trace := trace ++ (spins ++ [.inb port status]), statuses := rest }) ∨
      ∃ spins, (∀ event ∈ spins, event.IsRead) ∧
        waitFor port flag trace statuses = .error { trace := trace ++ spins, statuses := [] } := by
  induction statuses generalizing trace with
  | nil => exact Or.inr ⟨[], by simp, by simp [waitFor]⟩
  | cons status rest ih =>
      by_cases ready : status &&& flag = flag
      · exact Or.inl ⟨[], status, rest, by simp, ready, by simp [waitFor, ready]⟩
      · have spun : waitFor port flag trace (status :: rest) =
            waitFor port flag (trace ++ [.inb port status]) rest := if_neg ready
        have reads : ∀ spins : List Event, (∀ event ∈ spins, event.IsRead) →
            ∀ event ∈ .inb port status :: spins, event.IsRead := by
          intro spins tail event member
          rcases List.mem_cons.mp member with rfl | member
          · trivial
          · exact tail event member
        rw [spun]
        rcases ih (trace ++ [.inb port status]) with
          ⟨spins, last, later, tail, seen, ended⟩ | ⟨spins, tail, blocked⟩
        · refine Or.inl ⟨.inb port status :: spins, last, later, reads spins tail, seen, ?_⟩
          rw [ended]
          simp
        · refine Or.inr ⟨.inb port status :: spins, reads spins tail, ?_⟩
          rw [blocked]
          simp

/-- However far the run gets, it has sent a paced prefix and is perhaps polling for the next
byte. -/
theorem send_all_paced (serial : SerialPort) (bytes : List Byte) (world : World) :
    ∃ sent events spins, sent <+: bytes ∧ Paced serial sent events ∧
      (∀ event ∈ spins, event.IsRead) ∧
      (endState (sendAll serial bytes world)).trace = world.trace ++ (events ++ spins) ∧
      ∀ final, sendAll serial bytes world = .ok final → sent = bytes := by
  induction bytes generalizing world with
  | nil =>
      refine ⟨[], [], [], List.prefix_rfl, .nil, by simp, ?_, fun _ _ => rfl⟩
      rw [List.append_nil, List.append_nil]
      rfl
  | cons value rest ih =>
      have opened : sendAll serial (value :: rest) world =
          (waitFor serial.portLineSts outputEmpty world.trace world.statuses).bind
            fun ready => sendAll serial rest (ready.outb serial.portData value) := by
        rw [sendAll, List.foldlM_cons, SerialPort.sendRaw]
        cases waitFor serial.portLineSts outputEmpty world.trace world.statuses <;> rfl
      rcases wait_for_cases serial.portLineSts outputEmpty world.trace world.statuses with
        ⟨polls, status, later, reads, empty, ended⟩ | ⟨polls, reads, blocked⟩
      · rw [ended] at opened
        obtain ⟨sent, events, spins, before, paced, quiet, trace, whole⟩ :=
          ih (World.outb ⟨world.trace ++ (polls ++ [.inb serial.portLineSts status]), later⟩
            serial.portData value)
        refine ⟨value :: sent, _, spins, List.cons_prefix_cons.mpr ⟨rfl, before⟩,
          .cons reads empty paced, quiet, ?_, ?_⟩
        · rw [opened]
          refine trace.trans ?_
          simp [World.outb]
        · intro final completed
          rw [opened] at completed
          rw [whole final completed]
      · rw [blocked] at opened
        refine ⟨[], [], polls, List.nil_prefix, .nil, reads, ?_, ?_⟩
        · rw [opened]
          simp [endState, Except.bind]
        · intro final completed
          rw [opened] at completed
          cases completed

section Trace

variable {serial : SerialPort} {bytes : List Byte} {events spins : List Event}

theorem Paced.written_eq (paced : Paced serial bytes events) :
    written serial.base events = bytes := by
  induction paced with
  | nil => rfl
  | @cons spins events status value bytes reads _ _ ih =>
      rw [written_append, written_reads serial.base reads, List.nil_append]
      have head : written serial.base
          (.inb serial.portLineSts status :: .outb serial.portData value :: events) =
            value :: written serial.base events := by
        simp [written, SerialPort.portData]
      rw [head, ih]

theorem transfers_of_reads (reads : ∀ event ∈ spins, event.IsRead) :
    ∀ event ∈ spins, event.Transfers serial.base := by
  intro event member
  cases event with
  | inb _ _ => trivial
  | outb _ _ => exact (reads _ member).elim

theorem Paced.transfers (paced : Paced serial bytes events) :
    ∀ event ∈ events, event.Transfers serial.base := by
  induction paced with
  | nil =>
      intro event member
      cases member
  | cons reads _ _ ih =>
      intro event member
      rcases List.mem_append.mp member with poll | member
      · exact transfers_of_reads reads event poll
      · rcases List.mem_cons.mp member with rfl | member
        · trivial
        · rcases List.mem_cons.mp member with rfl | member
          · rfl
          · exact ih event member

theorem Paced.written_all (paced : Paced serial bytes events)
    (quiet : ∀ event ∈ spins, event.IsRead) : written serial.base (events ++ spins) = bytes := by
  rw [written_append, written_reads serial.base quiet, List.append_nil, paced.written_eq]

theorem Paced.transfers_all (paced : Paced serial bytes events)
    (quiet : ∀ event ∈ spins, event.IsRead) :
    ∀ event ∈ events ++ spins, event.Transfers serial.base := by
  intro event member
  rcases List.mem_append.mp member with sent | poll
  · exact paced.transfers event sent
  · exact transfers_of_reads quiet event poll

theorem split_after_reads (reads : ∀ event ∈ spins, event.IsRead) {rest before after : List Event}
    {port : BitVec 16} {value : Byte} (split : spins ++ rest = before ++ .outb port value :: after) :
    ∃ middle, before = spins ++ middle ∧ rest = middle ++ .outb port value :: after := by
  induction spins generalizing before with
  | nil => exact ⟨before, rfl, split⟩
  | cons event spins ih =>
      cases before with
      | nil =>
          have first : event = .outb port value := (List.cons.inj split).1
          have read := reads event List.mem_cons_self
          rw [first] at read
          exact read.elim
      | cons head before =>
          obtain ⟨rfl, tail⟩ := List.cons.inj split
          obtain ⟨middle, rfl, remaining⟩ :=
            ih (fun other member => reads other (List.mem_cons_of_mem _ member)) tail
          exact ⟨middle, rfl, remaining⟩

theorem Paced.ready_before (paced : Paced serial bytes events)
    (quiet : ∀ event ∈ spins, event.IsRead) {before after : List Event} {port : BitVec 16}
    {value : Byte} (split : events ++ spins = before ++ .outb port value :: after) :
    ∃ early status, before = early ++ [.inb serial.portLineSts status] ∧
      status &&& outputEmpty = outputEmpty := by
  induction paced generalizing before with
  | nil =>
      have member : .outb port value ∈ spins := by
        rw [List.nil_append] at split
        rw [split]
        simp
      exact (quiet _ member).elim
  | @cons polls events status byte bytes reads empty _ ih =>
      rw [List.append_assoc] at split
      obtain ⟨middle, rfl, chunk⟩ := split_after_reads reads split
      cases middle with
      | nil => cases chunk
      | cons first middle =>
          obtain ⟨rfl, rest⟩ := List.cons.inj chunk
          cases middle with
          | nil => exact ⟨polls, status, rfl, empty⟩
          | cons second middle =>
              obtain ⟨rfl, later⟩ := List.cons.inj rest
              obtain ⟨early, last, rfl, ready⟩ := ih later
              refine ⟨polls ++ .inb serial.portLineSts status ::
                .outb serial.portData byte :: early, last, ?_, ready⟩
              simp

end Trace

def initialised (transmitted : List Byte) : Uart where
  interruptEnable := 0x01
  fifoControl := 0xc7
  lineControl := 0x03
  modemControl := 0x0b
  divisorLow := 0x03
  divisorHigh := 0x00
  transmitted := transmitted

theorem initialised_line (transmitted : List Byte) :
    (initialised transmitted).dlab = false ∧ (initialised transmitted).divisor = 3 ∧
      (initialised transmitted).EightNOne := by
  have latch : (0x03 : Byte).getLsbD 7 = false := by decide
  have divisor : (0x00 : Byte) ++ (0x03 : Byte) = (3 : BitVec 16) := by decide
  have line : (0x03 : Byte) &&& 3 = 3 ∧ (0x03 : Byte).getLsbD 2 = false ∧
      (0x03 : Byte).getLsbD 3 = false := by decide
  exact ⟨latch, divisor, line⟩

theorem default_initialises (uart : Uart) (statuses : List Byte) :
    uart.observe 0x3f8 (SerialPort.default { trace := [], statuses }).2.trace =
      initialised uart.transmitted := by
  -- the first write goes to one of two registers, and both are written again later
  have first : (uart.write 1 0x00).transmitted = uart.transmitted := by
    rw [Uart.write, if_neg (by decide), if_pos rfl]
    split_ifs
    · rfl
    · rfl
  have rest : ∀ started : Uart, started.observe 0x3f8
      [.outb 0x3fb 0x80, .outb 0x3f8 0x03, .outb 0x3f9 0x00, .outb 0x3fb 0x03, .outb 0x3fa 0xc7,
        .outb 0x3fc 0x0b, .outb 0x3f9 0x01] = initialised started.transmitted := by
    intro started
    simp [Uart.observe, Uart.step, Uart.write, Uart.dlab, initialised]
  rw [← first, ← rest]
  rfl

def readyCount (statuses : List Byte) : Nat :=
  statuses.countP fun status => decide (status &&& outputEmpty = outputEmpty)

theorem wait_for_returns (port : BitVec 16) (trace : List Event) (statuses : List Byte)
    (ready : 0 < readyCount statuses) :
    ∃ world, waitFor port outputEmpty trace statuses = .ok world ∧
      readyCount world.statuses + 1 = readyCount statuses := by
  induction statuses generalizing trace with
  | nil => cases ready
  | cons status rest ih =>
      unfold waitFor
      by_cases empty : status &&& outputEmpty = outputEmpty
      · refine ⟨_, if_pos empty, ?_⟩
        simp [readyCount, empty]
      · have later : readyCount (status :: rest) = readyCount rest := by
          simp [readyCount, empty]
        rw [if_neg empty, later]
        rw [later] at ready
        exact ih _ ready

theorem send_all_returns (serial : SerialPort) (bytes : List Byte) (world : World)
    (enough : bytes.length ≤ readyCount world.statuses) :
    ∃ final, sendAll serial bytes world = .ok final := by
  induction bytes generalizing world with
  | nil => exact ⟨world, rfl⟩
  | cons value rest ih =>
      rw [List.length_cons] at enough
      obtain ⟨ready, waited, counted⟩ :=
        wait_for_returns serial.portLineSts world.trace world.statuses (by omega)
      obtain ⟨final, completed⟩ := ih (ready.outb serial.portData value) (by
        change rest.length ≤ readyCount ready.statuses
        omega)
      refine ⟨final, ?_⟩
      rw [← completed, sendAll, List.foldlM_cons, SerialPort.sendRaw, waited]
      rfl

/-- After `default` and any number of `write_str` calls, for every supply of line statuses and at
every point of the run: the bytes sent are a prefix of the expanded strings, each directly behind a
status that showed the transmitter empty, and the chip is still set to divisor 3 and 8N1. A run
with enough ready statuses sends everything. -/
theorem serial_output_paced (uart : Uart) (strings : List (List Byte)) (statuses : List Byte)
    (serial : SerialPort) (started : World)
    (opened : SerialPort.default { trace := [], statuses } = (serial, started)) :
    ∃ events,
      (endState (writeStrs serial strings started)).trace = started.trace ++ events ∧
      (∀ seen, seen <+: events →
        (∃ sent, sent <+: expansion strings ∧
          (uart.observe 0x3f8 (started.trace ++ seen)).transmitted = uart.transmitted ++ sent) ∧
        (uart.observe 0x3f8 (started.trace ++ seen)).divisor = 3 ∧
        (uart.observe 0x3f8 (started.trace ++ seen)).EightNOne) ∧
      (∀ before port value after, events = before ++ .outb port value :: after →
        port = 0x3f8 ∧ ∃ early status late, before = early ++ .inb 0x3fd status :: late ∧
          status &&& outputEmpty = outputEmpty ∧ ∀ event ∈ late, event.IsRead) ∧
      (∀ final, writeStrs serial strings started = .ok final →
        (uart.observe 0x3f8 final.trace).transmitted = uart.transmitted ++ expansion strings) ∧
      ((expansion strings).length ≤ readyCount statuses →
        ∃ final, writeStrs serial strings started = .ok final) := by
  have programmed := default_initialises uart statuses
  rw [opened] at programmed
  have base : serial = { base := 0x3f8 } := (congrArg Prod.fst opened).symm
  have supply : started.statuses = statuses := (congrArg (fun pair => pair.2.statuses) opened).symm
  subst base
  obtain ⟨sent, events, spins, before, paced, quiet, trace, whole⟩ :=
    send_all_paced { base := 0x3f8 } (expansion strings) started
  rw [← write_strs_eq_send_all] at trace whole
  have transfers : ∀ event ∈ events ++ spins, event.Transfers 0x3f8 := paced.transfers_all quiet
  have written : written 0x3f8 (events ++ spins) = sent := paced.written_all quiet
  have observed : ∀ seen, seen <+: events ++ spins →
      uart.observe 0x3f8 (started.trace ++ seen) =
        initialised (uart.transmitted ++ Uart16550.written 0x3f8 seen) := by
    intro seen part
    have tail := observe_transfers (initialised uart.transmitted) (initialised_line _).1
      fun event member => transfers event (part.subset member)
    rw [observe_append, programmed, tail]
    rfl
  refine ⟨events ++ spins, trace, ?_, ?_, ?_, ?_⟩
  · intro seen part
    rw [observed seen part]
    refine ⟨⟨Uart16550.written 0x3f8 seen, ?_, rfl⟩, (initialised_line _).2⟩
    rw [← written] at before
    exact (part.filterMap _).trans before
  · intro before port value after split
    have feeds : port = 0x3f8 := by
      have member : .outb port value ∈ events ++ spins := by
        rw [split]
        simp
      exact transfers _ member
    obtain ⟨early, status, rfl, empty⟩ := paced.ready_before quiet split
    exact ⟨feeds, early, status, [], rfl, empty, by simp⟩
  · intro final completed
    have ended : final.trace = started.trace ++ (events ++ spins) := by
      rw [completed] at trace
      exact trace
    rw [ended, observed _ List.prefix_rfl, written, whole final completed]
    rfl
  · intro enough
    rw [write_strs_eq_send_all]
    exact send_all_returns _ _ started (by rw [supply]; exact enough)

/-- A letter and a delete, with one poll in vain. -/
theorem delete_sent_as_three :
    ∃ final, writeStrs { base := 0x3f8 } [[0x41, 0x7f]]
        (SerialPort.default { trace := [], statuses := [0x00, 0x20, 0x60, 0x20, 0x20] }).2 =
          .ok final ∧
      ((initialised []).observe 0x3f8 final.trace).transmitted = [0x41, 8, 0x20, 8] := by
  obtain ⟨_, _, _, _, sends, returns⟩ := serial_output_paced (initialised []) [[0x41, 0x7f]]
    [0x00, 0x20, 0x60, 0x20, 0x20] { base := 0x3f8 } _ rfl
  obtain ⟨final, completed⟩ := returns (by decide)
  exact ⟨final, completed, sends final completed⟩

end RondOS.Serial
