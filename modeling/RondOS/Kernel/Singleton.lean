import RondOS.Lib.ByteMemory
import RondOS.Lib.RustWord
import Mathlib.Logic.Function.Basic

/-!
# Lazy initialisation of a singleton

Any number of contexts call `get` and `get_mut` on one `Singleton`, and their atomic steps
interleave in every order. The flag says which phase the initialisation is in, and the phase says
where in `init` each context can be.
-/

namespace RondOS.Utils

open ByteMemory RustWord

set_option autoImplicit false

def singleUninit : Byte := 0
def singleIniting : Byte := 1
def singleInited : Byte := 2

structure Singleton (T : Type) where
  inited : Byte
  data : Option T

def Singleton.uninit (T : Type) : Singleton T where
  inited := singleUninit
  data := none

variable {Ctx T : Type}

def Singleton.compareExchange (cell : Singleton T) (current new : Byte) :
    Except Byte Byte × Singleton T :=
  if cell.inited = current then (.ok cell.inited, { cell with inited := new })
  else (.error cell.inited, cell)

inductive Point where
  | exchange
  | spin
  | initialise
  /-- The arm `Err(_)`, which falls through to the initialising write. -/
  | otherError
  | store
  | check
  | left
  | panicked
  deriving DecidableEq

/-- One atomic step of `init`. `value` is what `T::default()` returns if this step writes it. -/
def Point.step (value : T) (cell : Singleton T) : Point → Option (Point × Singleton T)
  | .exchange =>
      match cell.compareExchange singleUninit singleIniting with
      | (.ok _, cell) => some (.initialise, cell)
      | (.error code, cell) =>
          if code = singleInited then some (.check, cell)
          else if code = singleUninit then some (.exchange, cell)
          else if code = singleIniting then some (.spin, cell)
          else some (.otherError, cell)
  | .spin => some (if cell.inited = singleIniting then .spin else .exchange, cell)
  | .initialise => some (.store, { cell with data := some value })
  | .otherError => some (.store, { cell with data := some value })
  | .store => some (.exchange, { cell with inited := singleInited })
  | .check => some (if cell.inited = singleInited then .left else .panicked, cell)
  | .left => none
  | .panicked => none

inductive Access where
  | get
  | getMut
  deriving DecidableEq

inductive Write (T : Type) where
  | default (value : T)
  | update (change : T → T)

/-- `calls` says who is in a call and where, `refs` lists the references handed out, `writes` the
writes to `data`, oldest first. -/
structure System (Ctx T : Type) where
  cell : Singleton T
  calls : Ctx → Option (Access × Point)
  refs : List (Ctx × Access)
  writes : List (Write T)

def System.start (Ctx T : Type) : System Ctx T where
  cell := Singleton.uninit T
  calls := fun _ => none
  refs := []
  writes := []

inductive Action (T : Type) where
  | call (access : Access)
  | advance (value : T)
  | handOut
  | update (change : T → T)

def Point.writes : Point → Bool
  | .initialise => true
  | .otherError => true
  | _ => false

/-- A step of one context. Only the holder of a `&mut T` can update the data. -/
def System.step [DecidableEq Ctx] (system : System Ctx T) (ctx : Ctx) :
    Action T → Option (System Ctx T)
  | .call access =>
      match system.calls ctx with
      | none =>
          some { system with
            calls := Function.update system.calls ctx (some (access, .exchange)) }
      | some _ => none
  | .advance value =>
      match system.calls ctx with
      | none => none
      | some (access, point) => do
          let (next, cell) ← point.step value system.cell
          some
            { system with
              cell
              calls := Function.update system.calls ctx (some (access, next))
              writes := if point.writes then system.writes ++ [.default value] else system.writes }
  | .handOut =>
      match system.calls ctx with
      | some (access, .left) =>
          some
            { system with
              calls := Function.update system.calls ctx none
              refs := (ctx, access) :: system.refs }
      | _ => none
  | .update change =>
      if (ctx, .getMut) ∈ system.refs then
        some
          { system with
            cell := { system.cell with data := system.cell.data.map change }
            writes := system.writes ++ [.update change] }
      else none

def System.run [DecidableEq Ctx] (system : System Ctx T) (steps : List (Ctx × Action T)) :
    Option (System Ctx T) :=
  steps.foldlM (fun system step => system.step step.1 step.2) system

def Write.isDefault : Write T → Bool
  | .default _ => true
  | .update _ => false

/-- The data is what the updates have made of the one value that `init` wrote. -/
def Initialised (system : System Ctx T) : Prop :=
  ∃ (value : T) (changes : List (T → T)),
    system.writes = .default value :: changes.map .update ∧
      system.cell.data = some (changes.foldl (fun data change => change data) value)

def FlagMoves (before after : Byte) : Prop :=
  after = before ∨ (before = singleUninit ∧ after = singleIniting) ∨
    (before = singleIniting ∧ after = singleInited)

structure Safe (system : System Ctx T) : Prop where
  writtenOnce : system.writes.countP Write.isDefault ≤ 1
  leavesInitialised : ∀ ctx access, system.calls ctx = some (access, .left) → Initialised system
  noPanic : ∀ ctx access, system.calls ctx ≠ some (access, .panicked)
  noOtherError : ∀ ctx access, system.calls ctx ≠ some (access, .otherError)
  refsInitialised : system.refs ≠ [] → Initialised system

inductive Phase (Ctx T : Type) where
  | uninit
  | initing (owner : Ctx)
  | written (owner : Ctx) (value : T)
  | inited

def Phase.flag : Phase Ctx T → Byte
  | .uninit => singleUninit
  | .initing _ => singleIniting
  | .written _ _ => singleIniting
  | .inited => singleInited

def Point.Waits (point : Point) : Prop := point = .exchange ∨ point = .spin

def Phase.Allows : Phase Ctx T → Ctx → Point → Prop
  | .uninit, _, point => point.Waits
  | .initing owner, ctx, point => point.Waits ∨ (ctx = owner ∧ point = .initialise)
  | .written owner _, ctx, point => point.Waits ∨ (ctx = owner ∧ point = .store)
  | .inited, _, point => point.Waits ∨ point = .check ∨ point = .left

def Phase.Holds (system : System Ctx T) : Phase Ctx T → Prop
  | .uninit => system.writes = [] ∧ system.refs = []
  | .initing _ => system.writes = [] ∧ system.refs = []
  | .written _ value =>
      system.writes = [.default value] ∧ system.cell.data = some value ∧ system.refs = []
  | .inited => Initialised system

structure InPhase (phase : Phase Ctx T) (system : System Ctx T) : Prop where
  flag : system.cell.inited = phase.flag
  points : ∀ ctx access point, system.calls ctx = some (access, point) → phase.Allows ctx point
  holds : phase.Holds system

theorem allows_waiting (phase : Phase Ctx T) (ctx : Ctx) {point : Point} (waits : point.Waits) :
    phase.Allows ctx point := by
  cases phase with
  | uninit => exact waits
  | initing owner => exact Or.inl waits
  | written owner value => exact Or.inl waits
  | inited => exact Or.inl waits

section Allowed

variable {phase : Phase Ctx T} {ctx : Ctx}

theorem initing_of_initialise (allowed : phase.Allows ctx .initialise) : phase = .initing ctx := by
  cases phase <;> simp [Phase.Allows, Point.Waits] at allowed
  rw [allowed]

theorem written_of_store (allowed : phase.Allows ctx .store) :
    ∃ value, phase = .written ctx value := by
  cases phase <;> simp [Phase.Allows, Point.Waits] at allowed
  exact ⟨_, by rw [allowed]⟩

theorem inited_of_leaving {point : Point} (leaving : point = .check ∨ point = .left)
    (allowed : phase.Allows ctx point) : phase = .inited := by
  rcases leaving with rfl | rfl
  · cases phase <;> simp [Phase.Allows, Point.Waits] at allowed
    rfl
  · cases phase <;> simp [Phase.Allows, Point.Waits] at allowed
    rfl

theorem not_allows_error {point : Point} (error : point = .otherError ∨ point = .panicked) :
    ¬phase.Allows ctx point := by
  rcases error with rfl | rfl <;> cases phase <;> simp [Phase.Allows, Point.Waits]

theorem waits_of_other {other : Ctx} {point special : Point} (apart : other ≠ ctx)
    (allowed : point.Waits ∨ (other = ctx ∧ point = special)) : point.Waits := by
  rcases allowed with waits | ⟨same, _⟩
  · exact waits
  · exact absurd same apart

theorem inited_of_refs {system : System Ctx T} (inPhase : InPhase phase system)
    (handedOut : system.refs ≠ []) : phase = .inited := by
  cases phase with
  | uninit => exact absurd inPhase.holds.2 handedOut
  | initing owner => exact absurd inPhase.holds.2 handedOut
  | written owner value => exact absurd inPhase.holds.2.2 handedOut
  | inited => rfl

end Allowed

section Exchange

variable {cell : Singleton T} (value : T)

theorem exchange_uninit (flag : cell.inited = singleUninit) :
    Point.exchange.step value cell = some (.initialise, { cell with inited := singleIniting }) := by
  rw [Point.step, Singleton.compareExchange, if_pos flag]

theorem exchange_initing (flag : cell.inited = singleIniting) :
    Point.exchange.step value cell = some (.spin, cell) := by
  rw [Point.step, Singleton.compareExchange, flag, if_neg (by decide)]
  rfl

theorem exchange_inited (flag : cell.inited = singleInited) :
    Point.exchange.step value cell = some (.check, cell) := by
  rw [Point.step, Singleton.compareExchange, flag, if_neg (by decide)]
  rfl

end Exchange

section Steps

variable [DecidableEq Ctx] {phase next : Phase Ctx T} {calls : Ctx → Option (Access × Point)}
  {ctx : Ctx}

theorem points_moved {access : Access} {point : Point}
    (before : ∀ ctx access point, calls ctx = some (access, point) → phase.Allows ctx point)
    (moved : next.Allows ctx point)
    (stayed : ∀ other point, other ≠ ctx → phase.Allows other point → next.Allows other point) :
    ∀ other reached stage, Function.update calls ctx (some (access, point)) other =
      some (reached, stage) → next.Allows other stage := by
  intro other reached stage located
  by_cases same : other = ctx
  · subst same
    rw [Function.update_self] at located
    cases located
    exact moved
  · rw [Function.update_of_ne same] at located
    exact stayed other stage same (before other reached stage located)

theorem points_left
    (before : ∀ ctx access point, calls ctx = some (access, point) → phase.Allows ctx point) :
    ∀ other access point, Function.update calls ctx none other = some (access, point) →
      phase.Allows other point := by
  intro other access point located
  by_cases same : other = ctx
  · subst same
    rw [Function.update_self] at located
    cases located
  · rw [Function.update_of_ne same] at located
    exact before other access point located

variable {system after : System Ctx T}

theorem InPhase.moved (inPhase : InPhase phase system) (access : Access) {point : Point}
    (allowed : phase.Allows ctx point) :
    InPhase phase
      { system with calls := Function.update system.calls ctx (some (access, point)) } where
  flag := inPhase.flag
  points := points_moved inPhase.points allowed fun _ _ _ before => before
  holds := by
    cases phase <;> exact inPhase.holds

theorem call_step {access : Access} (inPhase : InPhase phase system)
    (stepped : system.step ctx (.call access) = some after) : InPhase phase after := by
  cases called : system.calls ctx with
  | some call =>
      simp only [System.step, called] at stepped
      cases stepped
  | none =>
      simp only [System.step, called] at stepped
      cases stepped
      exact inPhase.moved access (allows_waiting phase ctx (Or.inl rfl))

theorem hand_out_step (inPhase : InPhase phase system)
    (stepped : system.step ctx .handOut = some after) : InPhase phase after := by
  cases called : system.calls ctx with
  | none =>
      simp only [System.step, called] at stepped
      cases stepped
  | some call =>
      rcases call with ⟨access, point⟩
      by_cases left : point = .left
      · subst left
        simp only [System.step, called] at stepped
        cases stepped
        have inited := inited_of_leaving (Or.inr rfl) (inPhase.points ctx access .left called)
        subst inited
        exact
          { flag := inPhase.flag
            points := points_left inPhase.points
            holds := inPhase.holds }
      · cases point <;> simp [System.step, called] at stepped left

theorem update_step {change : T → T} (inPhase : InPhase phase system)
    (stepped : system.step ctx (.update change) = some after) : InPhase phase after := by
  simp only [System.step] at stepped
  split_ifs at stepped with held
  cases stepped
  have inited := inited_of_refs inPhase (List.ne_nil_of_mem held)
  subst inited
  obtain ⟨value, changes, writes, data⟩ := inPhase.holds
  refine ⟨inPhase.flag, inPhase.points, value, changes ++ [change], ?_, ?_⟩
  · simp [writes]
  · simp [data]

section Advance

variable {value : T} {cell : Singleton T} {access : Access} {target : Point}

theorem advance_exchange (inPhase : InPhase phase system)
    (ran : Point.exchange.step value system.cell = some (target, cell)) :
    ∃ next : Phase Ctx T, FlagMoves phase.flag next.flag ∧
      InPhase next
        { system with
          cell
          calls := Function.update system.calls ctx (some (access, target)) } := by
  have flag := inPhase.flag
  cases phase with
  | uninit =>
      rw [exchange_uninit value flag] at ran
      cases ran
      refine ⟨.initing ctx, Or.inr (Or.inl ⟨rfl, rfl⟩), rfl, ?_, inPhase.holds⟩
      exact points_moved inPhase.points (Or.inr ⟨rfl, rfl⟩) fun _ _ _ waits => Or.inl waits
  | initing owner =>
      rw [exchange_initing value flag] at ran
      cases ran
      exact ⟨_, Or.inl rfl, inPhase.moved access (Or.inl (Or.inr rfl))⟩
  | written owner written =>
      rw [exchange_initing value flag] at ran
      cases ran
      exact ⟨_, Or.inl rfl, inPhase.moved access (Or.inl (Or.inr rfl))⟩
  | inited =>
      rw [exchange_inited value flag] at ran
      cases ran
      exact ⟨_, Or.inl rfl, inPhase.moved access (Or.inr (Or.inl rfl))⟩

theorem advance_write (inPhase : InPhase (.initing ctx) system) :
    InPhase (.written ctx value)
      { cell := { system.cell with data := some value }
        calls := Function.update system.calls ctx (some (access, .store))
        refs := system.refs
        writes := system.writes ++ [.default value] } := by
  obtain ⟨noWrites, noRefs⟩ := inPhase.holds
  refine ⟨inPhase.flag, ?_, ?_, rfl, noRefs⟩
  · have moved : (Phase.written ctx value).Allows ctx .store := Or.inr ⟨rfl, rfl⟩
    apply points_moved inPhase.points moved
    intro other point apart allowed
    exact Or.inl (waits_of_other apart allowed)
  · rw [noWrites, List.nil_append]

theorem advance_store {written : T} (inPhase : InPhase (.written ctx written) system) :
    InPhase .inited
      { system with
        cell := { system.cell with inited := singleInited }
        calls := Function.update system.calls ctx (some (access, .exchange)) } := by
  obtain ⟨writes, data, _⟩ := inPhase.holds
  refine ⟨rfl, ?_, written, [], writes, data⟩
  apply points_moved inPhase.points (allows_waiting _ ctx (Or.inl rfl))
  intro other point apart allowed
  exact Or.inl (waits_of_other apart allowed)

theorem advance_step (inPhase : InPhase phase system)
    (stepped : system.step ctx (.advance value) = some after) :
    ∃ next : Phase Ctx T, FlagMoves phase.flag next.flag ∧ InPhase next after := by
  cases called : system.calls ctx with
  | none =>
      simp only [System.step, called] at stepped
      cases stepped
  | some call =>
      rcases call with ⟨access, point⟩
      simp only [System.step, called] at stepped
      obtain ⟨⟨target, cell⟩, ran, moved⟩ := Option.bind_eq_some_iff.mp stepped
      cases moved
      have allowed := inPhase.points ctx access point called
      cases point with
      | exchange => exact advance_exchange inPhase ran
      | spin =>
          cases ran
          refine ⟨phase, Or.inl rfl, inPhase.moved access (allows_waiting phase ctx ?_)⟩
          split_ifs
          · exact Or.inr rfl
          · exact Or.inl rfl
      | initialise =>
          cases ran
          have initing := initing_of_initialise allowed
          subst initing
          exact ⟨.written ctx value, Or.inl rfl, advance_write inPhase⟩
      | otherError => exact absurd allowed (not_allows_error (Or.inl rfl))
      | store =>
          cases ran
          obtain ⟨written, phased⟩ := written_of_store allowed
          subst phased
          exact ⟨_, Or.inr (Or.inr ⟨rfl, rfl⟩), advance_store inPhase⟩
      | check =>
          cases ran
          have inited := inited_of_leaving (Or.inl rfl) allowed
          subst inited
          have flag : system.cell.inited = singleInited := inPhase.flag
          rw [if_pos flag]
          exact ⟨_, Or.inl rfl, inPhase.moved access (Or.inr (Or.inr rfl))⟩
      | left => cases ran
      | panicked => cases ran

end Advance

/-- Every step keeps to the phases, in their order. -/
theorem phase_step {action : Action T} (inPhase : InPhase phase system)
    (stepped : system.step ctx action = some after) :
    ∃ next : Phase Ctx T, FlagMoves phase.flag next.flag ∧ InPhase next after := by
  cases action with
  | call access => exact ⟨phase, Or.inl rfl, call_step inPhase stepped⟩
  | advance value => exact advance_step inPhase stepped
  | handOut => exact ⟨phase, Or.inl rfl, hand_out_step inPhase stepped⟩
  | update change => exact ⟨phase, Or.inl rfl, update_step inPhase stepped⟩

end Steps

theorem start_phase : InPhase .uninit (System.start Ctx T) where
  flag := rfl
  points := by
    intro ctx access point called
    cases called
  holds := ⟨rfl, rfl⟩

theorem count_defaults (changes : List (T → T)) :
    (changes.map Write.update).countP Write.isDefault = 0 := by
  rw [List.countP_eq_zero]
  intro write member
  obtain ⟨change, _, rfl⟩ := List.mem_map.mp member
  simp [Write.isDefault]

theorem defaults_written_once {phase : Phase Ctx T} {system : System Ctx T}
    (inPhase : InPhase phase system) : system.writes.countP Write.isDefault ≤ 1 := by
  cases phase with
  | uninit => simp [inPhase.holds.1]
  | initing owner => simp [inPhase.holds.1]
  | written owner value => simp [inPhase.holds.1, Write.isDefault]
  | inited =>
      obtain ⟨value, changes, writes, _⟩ := inPhase.holds
      rw [writes, List.countP_cons, count_defaults]
      simp [Write.isDefault]

theorem safe_of_phase {phase : Phase Ctx T} {system : System Ctx T}
    (inPhase : InPhase phase system) : Safe system where
  writtenOnce := defaults_written_once inPhase
  leavesInitialised := by
    intro ctx access called
    have inited := inited_of_leaving (Or.inr rfl) (inPhase.points ctx access .left called)
    subst inited
    exact inPhase.holds
  noPanic := by
    intro ctx access called
    exact not_allows_error (Or.inr rfl) (inPhase.points ctx access .panicked called)
  noOtherError := by
    intro ctx access called
    exact not_allows_error (Or.inl rfl) (inPhase.points ctx access .otherError called)
  refsInitialised := by
    intro handedOut
    have inited := inited_of_refs inPhase handedOut
    subst inited
    exact inPhase.holds

theorem run_phase [DecidableEq Ctx] (steps : List (Ctx × Action T)) {system : System Ctx T}
    (reached : (System.start Ctx T).run steps = some system) : ∃ phase, InPhase phase system := by
  apply foldlM_invariant (fun system => ∃ phase, InPhase phase system) ?_ steps
    ⟨.uninit, start_phase⟩ reached
  intro current step next held stepped
  obtain ⟨phase, inPhase⟩ := held
  obtain ⟨after, _, kept⟩ := phase_step inPhase stepped
  exact ⟨after, kept⟩

/-- In every interleaving of any number of calls: the default is written at most once, a context
that leaves `init` finds it written, no assertion fails, the arm `Err(_)` is not taken, every
reference is to the one initialised value (as updated since through the references), and each step
moves the flag from `UNINIT` to `INITING`, from `INITING` to `INITED` or not at all. -/
theorem singleton_initialised_once [DecidableEq Ctx] (steps : List (Ctx × Action T))
    (system : System Ctx T) (reached : (System.start Ctx T).run steps = some system) :
    Safe system ∧ ∀ ctx action next, system.step ctx action = some next →
      FlagMoves system.cell.inited next.cell.inited := by
  obtain ⟨phase, inPhase⟩ := run_phase steps reached
  refine ⟨safe_of_phase inPhase, ?_⟩
  intro ctx action next stepped
  obtain ⟨after, moves, kept⟩ := phase_step inPhase stepped
  rw [inPhase.flag, kept.flag]
  exact moves

def contended : List (Bool × Action Nat) :=
  [(true, .call .getMut), (false, .call .get), (true, .advance 7), (false, .advance 8),
    (true, .advance 7), (false, .advance 8), (true, .advance 7), (false, .advance 8),
    (true, .advance 7), (false, .advance 8), (true, .advance 7), (true, .handOut),
    (true, .update (· + 1)), (false, .advance 8), (false, .handOut)]

theorem contended_singleton_initialised_once :
    ∃ system, (System.start Bool Nat).run contended = some system ∧
      system.refs = [(false, .get), (true, .getMut)] ∧ system.cell.data = some 8 ∧
      Initialised system := by
  obtain ⟨system, reached, refs, data⟩ :
      ∃ system, (System.start Bool Nat).run contended = some system ∧
        system.refs = [(false, .get), (true, .getMut)] ∧ system.cell.data = some 8 :=
    ⟨_, rfl, rfl, rfl⟩
  obtain ⟨safe, _⟩ := singleton_initialised_once contended system reached
  exact ⟨system, reached, refs, data, safe.refsInitialised (by rw [refs]; decide)⟩

/-- `drop`: what `assume_init_drop` is run on, if the guard lets it run. Uninitialised memory is
`some none`. -/
def Singleton.drop (cell : Singleton T) : Option (Option T) :=
  if cell.inited ≠ singleInited then some cell.data else none

def Singleton.destructorRuns (cell : Singleton T) : Nat := cell.drop.toList.length

/-- `drop` takes `&mut self`, so every call has returned. -/
def System.Quiet (system : System Ctx T) : Prop := ∀ ctx, system.calls ctx = none

/-- The destructor runs as often as `init` has written a value, and only on a value. -/
def DropsExactly (system : System Ctx T) : Prop :=
  system.cell.destructorRuns = system.writes.countP Write.isDefault ∧
    ∀ data, system.cell.drop = some data → data.isSome = true

/-- The context has won the exchange and has not yet stored the flag. -/
def MidInit (system : System Ctx T) (ctx : Ctx) : Prop :=
  ∃ access point, system.calls ctx = some (access, point) ∧
    (point = .initialise ∨ point = .store)

/-- While the flag says that someone initialises, someone does. -/
def Attended (system : System Ctx T) : Prop :=
  system.cell.inited = singleIniting → ∃ owner, MidInit system owner

theorem attended_start : Attended (System.start Ctx T) := by
  intro initing
  have fresh : singleUninit = singleIniting := initing
  exact absurd fresh (by decide)

section Steps

variable [DecidableEq Ctx] {system after : System Ctx T} {ctx : Ctx} {action : Action T}

/-- What one context can do to the flag and to its own place in `init`. -/
theorem step_cases (stepped : system.step ctx action = some after) :
    (∃ access, action = .call access ∧ system.calls ctx = none ∧
      after.cell.inited = system.cell.inited ∧
      after.calls = Function.update system.calls ctx (some (access, .exchange))) ∨
    (∃ access point value next cell, action = .advance value ∧
      system.calls ctx = some (access, point) ∧ point.step value system.cell = some (next, cell) ∧
      after.cell = cell ∧ after.calls = Function.update system.calls ctx (some (access, next))) ∨
    (∃ access, action = .handOut ∧ system.calls ctx = some (access, .left) ∧
      after.cell.inited = system.cell.inited ∧ after.calls = Function.update system.calls ctx none) ∨
    (∃ change, action = .update change ∧ after.cell.inited = system.cell.inited ∧
      after.calls = system.calls) := by
  cases action with
  | call access =>
      cases called : system.calls ctx with
      | some call =>
          simp only [System.step, called] at stepped
          cases stepped
      | none =>
          simp only [System.step, called] at stepped
          cases stepped
          exact Or.inl ⟨access, rfl, rfl, rfl, rfl⟩
  | advance value =>
      cases called : system.calls ctx with
      | none =>
          simp only [System.step, called] at stepped
          cases stepped
      | some call =>
          rcases call with ⟨access, point⟩
          simp only [System.step, called] at stepped
          obtain ⟨⟨next, cell⟩, ran, moved⟩ := Option.bind_eq_some_iff.mp stepped
          cases moved
          exact Or.inr (Or.inl ⟨access, point, value, next, cell, rfl, rfl, ran, rfl, rfl⟩)
  | handOut =>
      cases called : system.calls ctx with
      | none =>
          simp only [System.step, called] at stepped
          cases stepped
      | some call =>
          rcases call with ⟨access, point⟩
          by_cases left : point = .left
          · subst left
            simp only [System.step, called] at stepped
            cases stepped
            exact Or.inr (Or.inr (Or.inl ⟨access, rfl, rfl, rfl, rfl⟩))
          · cases point <;> simp [System.step, called] at stepped left
  | update change =>
      simp only [System.step] at stepped
      split_ifs at stepped
      cases stepped
      exact Or.inr (Or.inr (Or.inr ⟨change, rfl, rfl, rfl⟩))

theorem calls_others (stepped : system.step ctx action = some after) {other : Ctx}
    (apart : other ≠ ctx) : after.calls other = system.calls other := by
  rcases step_cases stepped with ⟨_, _, _, _, calls⟩ | ⟨_, _, _, _, _, _, _, _, _, calls⟩ |
    ⟨_, _, _, _, calls⟩ | ⟨_, _, _, calls⟩
  · rw [calls, Function.update_of_ne apart]
  · rw [calls, Function.update_of_ne apart]
  · rw [calls, Function.update_of_ne apart]
  · rw [calls]

theorem mid_init_others (stepped : system.step ctx action = some after) {other : Ctx}
    (apart : other ≠ ctx) (mid : MidInit system other) : MidInit after other := by
  rcases mid with ⟨access, point, called, inside⟩
  exact ⟨access, point, (calls_others stepped apart).trans called, inside⟩

theorem initing_after {value : T} {cell moved : Singleton T} {point next : Point}
    (ran : point.step value cell = some (next, moved)) (flag : moved.inited = singleIniting) :
    (next = .initialise ∨ next = .store) ∨
      (cell.inited = singleIniting ∧ ¬(point = .initialise ∨ point = .store)) := by
  cases point with
  | exchange =>
      by_cases fresh : cell.inited = singleUninit
      · rw [exchange_uninit value fresh] at ran
        cases ran
        exact Or.inl (Or.inl rfl)
      · have same : moved = cell := by
          rw [Point.step, Singleton.compareExchange, if_neg fresh] at ran
          dsimp only at ran
          split_ifs at ran <;> cases ran <;> rfl
        rw [same] at flag
        exact Or.inr ⟨flag, by simp⟩
  | initialise =>
      cases ran
      exact Or.inl (Or.inr rfl)
  | otherError =>
      cases ran
      exact Or.inl (Or.inr rfl)
  | store =>
      cases ran
      have distinct : singleInited ≠ singleIniting := by decide
      exact absurd flag distinct
  | spin =>
      cases ran
      exact Or.inr ⟨flag, by simp⟩
  | check =>
      cases ran
      exact Or.inr ⟨flag, by simp⟩
  | left => cases ran
  | panicked => cases ran

theorem Attended.step (attended : Attended system)
    (stepped : system.step ctx action = some after) : Attended after := by
  intro flag
  -- an owner other than `ctx` stays the owner
  have keep : system.cell.inited = singleIniting → ¬MidInit system ctx →
      ∃ owner, MidInit after owner := by
    intro before idle
    obtain ⟨owner, mid⟩ := attended before
    have apart : owner ≠ ctx := by
      intro same
      rw [same] at mid
      exact idle mid
    exact ⟨owner, mid_init_others stepped apart mid⟩
  rcases step_cases stepped with ⟨access, _, called, same, _⟩ |
    ⟨access, point, value, next, cell, _, called, ran, moved, calls⟩ |
    ⟨access, _, called, same, _⟩ | ⟨change, _, same, calls⟩
  · apply keep (same ▸ flag)
    intro mid
    rcases mid with ⟨_, _, busy, _⟩
    rw [called] at busy
    cases busy
  · rw [moved] at flag
    rcases initing_after ran flag with inside | ⟨before, outside⟩
    · refine ⟨ctx, access, next, ?_, inside⟩
      rw [calls, Function.update_self]
    · apply keep before
      intro mid
      rcases mid with ⟨_, _, busy, inside⟩
      rw [called] at busy
      cases busy
      exact outside inside
  · apply keep (same ▸ flag)
    intro mid
    rcases mid with ⟨_, _, busy, inside⟩
    rw [called] at busy
    cases busy
    rcases inside with absurdity | absurdity <;> cases absurdity
  · obtain ⟨owner, access, point, called, inside⟩ := attended (same ▸ flag)
    exact ⟨owner, access, point, calls ▸ called, inside⟩

end Steps

theorem run_attended [DecidableEq Ctx] (steps : List (Ctx × Action T)) {system : System Ctx T}
    (reached : (System.start Ctx T).run steps = some system) : Attended system := by
  apply foldlM_invariant Attended ?_ steps attended_start reached
  intro current step next attended stepped
  exact attended.step stepped

theorem quiet_phase [DecidableEq Ctx] {steps : List (Ctx × Action T)} {system : System Ctx T}
    (reached : (System.start Ctx T).run steps = some system) (quiet : system.Quiet) :
    InPhase .uninit system ∨ InPhase .inited system := by
  obtain ⟨phase, inPhase⟩ := run_phase steps reached
  have notIniting : system.cell.inited ≠ singleIniting := by
    intro initing
    obtain ⟨owner, access, point, called, _⟩ := run_attended steps reached initing
    rw [quiet owner] at called
    cases called
  cases phase with
  | uninit => exact Or.inl inPhase
  | initing owner => exact absurd inPhase.flag notIniting
  | written owner value => exact absurd inPhase.flag notIniting
  | inited => exact Or.inr inPhase

/-- The guard of `drop` is the wrong way round: after every history it either destroys what was
never initialised or keeps the one value that was. -/
theorem drop_never_exact [DecidableEq Ctx] (steps : List (Ctx × Action T)) (system : System Ctx T)
    (reached : (System.start Ctx T).run steps = some system) (quiet : system.Quiet) :
    ¬DropsExactly system := by
  intro exactly
  rcases quiet_phase reached quiet with inPhase | inPhase
  · have ran : system.cell.drop = some system.cell.data := by
      rw [Singleton.drop, inPhase.flag]
      rfl
    have once : system.cell.destructorRuns = 1 := by
      rw [Singleton.destructorRuns, ran]
      rfl
    have unwritten : system.writes.countP Write.isDefault = 0 := by
      rw [inPhase.holds.1, List.countP_nil]
    rw [DropsExactly, once, unwritten] at exactly
    exact absurd exactly.1 (by decide)
  · have skipped : system.cell.drop = none := by
      rw [Singleton.drop, inPhase.flag]
      rfl
    have never : system.cell.destructorRuns = 0 := by
      rw [Singleton.destructorRuns, skipped]
      rfl
    obtain ⟨value, changes, writes, _⟩ := inPhase.holds
    have one : system.writes.countP Write.isDefault = 1 := by
      rw [writes, List.countP_cons, count_defaults]
      rfl
    rw [DropsExactly, never, one] at exactly
    exact absurd exactly.1 (by decide)

/-- The value of a completed initialisation is leaked. -/
theorem contended_singleton_leaks :
    ∃ system, (System.start Bool Nat).run contended = some system ∧ system.Quiet ∧
      ¬DropsExactly system := by
  obtain ⟨system, reached, quiet⟩ :
      ∃ system, (System.start Bool Nat).run contended = some system ∧ system.Quiet := by
    refine ⟨_, rfl, ?_⟩
    intro ctx
    cases ctx <;> rfl
  exact ⟨system, reached, quiet, drop_never_exact contended system reached quiet⟩

/-- Without any call the destructor runs on uninitialised memory. -/
theorem untouched_singleton_destroyed :
    ¬∀ (steps : List (Bool × Action Nat)) (system : System Bool Nat),
      (System.start Bool Nat).run steps = some system → system.Quiet → DropsExactly system := by
  intro claimed
  have exactly := claimed [] (System.start Bool Nat) rfl fun _ => rfl
  exact absurd exactly.1 (by decide)

end RondOS.Utils
