import Mathlib.Data.Set.Function

/-!
# Calls that stay inside a region of memory

A call on a memory may stop halfway, and then the memory it leaves behind still matters. Its
outcome is an `Except` that carries a memory either way. A call is confined to a region when it
writes nowhere else and when nothing outside the region can influence what it does.
-/

namespace Footprint

set_option autoImplicit false

section Interruption

variable {State Item : Type}

/-- A step that gives up before it has changed anything. -/
def attempt (step : State → Option State) (state : State) : Except State State :=
  match step state with
  | none => .error state
  | some next => .ok next

/-- A loop of such steps, stopped by the first that gives up. -/
def attemptEach (step : Item → State → Option State) : List Item → State → Except State State
  | [], state => .ok state
  | item :: rest, state =>
      match step item state with
      | none => .error state
      | some next => attemptEach step rest next

def endState : Except State State → State
  | .error state => state
  | .ok state => state

theorem attempt_eq_error {step : State → Option State} {state : State} (gaveUp : step state = none) :
    attempt step state = .error state := by
  rw [attempt, gaveUp]

theorem attempt_eq_ok {step : State → Option State} {state next : State}
    (stepped : step state = some next) : attempt step state = .ok next := by
  rw [attempt, stepped]

theorem attempt_each_eq_ok_iff (step : Item → State → Option State) (items : List Item)
    (state final : State) :
    attemptEach step items state = .ok final ↔
      items.foldlM (fun current item => step item current) state = some final := by
  induction items generalizing state with
  | nil => simp [attemptEach]
  | cons item rest ih =>
      rw [attemptEach, List.foldlM_cons]
      cases step item state with
      | none => simp
      | some next => simpa using ih next

end Interruption

section Region

variable {Addr Value Result Item : Type}

def ReadsOnly (region : Set Addr) (query : (Addr → Value) → Option Result) : Prop :=
  ∀ mem other, Set.EqOn mem other region → query mem = query other

/-- Both runs ended the same way and left the same contents in the region. -/
def SameOutcome (region : Set Addr) :
    Except (Addr → Value) (Addr → Value) → Except (Addr → Value) (Addr → Value) → Prop
  | .ok after, .ok other => Set.EqOn after other region
  | .error after, .error other => Set.EqOn after other region
  | _, _ => False

structure Confined (region : Set Addr)
    (call : (Addr → Value) → Except (Addr → Value) (Addr → Value)) : Prop where
  writes : ∀ mem, Set.EqOn (endState (call mem)) mem regionᶜ
  reads : ∀ mem other, Set.EqOn mem other region → SameOutcome region (call mem) (call other)

variable {region : Set Addr}

theorem confined_of_gives_up {step : (Addr → Value) → Option (Addr → Value)}
    (gaveUp : ∀ mem, step mem = none) : Confined region (attempt step) where
  writes := by
    intro mem
    rw [attempt_eq_error (gaveUp mem)]
    exact Set.eqOn_refl mem _
  reads := by
    intro mem other agree
    rw [attempt_eq_error (gaveUp mem), attempt_eq_error (gaveUp other)]
    exact agree

theorem confined_of_effect {step : (Addr → Value) → Option (Addr → Value)}
    {effect : (Addr → Value) → Addr → Value} (stepped : ∀ mem, step mem = some (effect mem))
    (writes : ∀ mem, Set.EqOn (effect mem) mem regionᶜ)
    (reads : ∀ mem other, Set.EqOn mem other region →
      Set.EqOn (effect mem) (effect other) region) :
    Confined region (attempt step) where
  writes := by
    intro mem
    rw [attempt_eq_ok (stepped mem)]
    exact writes mem
  reads := by
    intro mem other agree
    rw [attempt_eq_ok (stepped mem), attempt_eq_ok (stepped other)]
    exact reads mem other agree

/-- A loop of confined steps is confined, wherever it stops. -/
theorem Confined.attempt_each {step : Item → (Addr → Value) → Option (Addr → Value)}
    (single : ∀ item, Confined region (attempt (step item))) (items : List Item) :
    Confined region (attemptEach step items) where
  writes := by
    intro mem
    induction items generalizing mem with
    | nil => exact Set.eqOn_refl mem _
    | cons item rest ih =>
        have first := (single item).writes mem
        unfold attempt at first
        rw [attemptEach]
        cases stepped : step item mem with
        | none => exact Set.eqOn_refl mem _
        | some next =>
            rw [stepped] at first
            exact (ih next).trans first
  reads := by
    intro mem other agree
    induction items generalizing mem other with
    | nil => exact agree
    | cons item rest ih =>
        have first := (single item).reads mem other agree
        unfold attempt at first
        rw [attemptEach, attemptEach]
        cases left : step item mem with
        | none =>
            cases right : step item other with
            | none => exact agree
            | some later =>
                rw [left, right] at first
                exact first.elim
        | some after =>
            cases right : step item other with
            | none =>
                rw [left, right] at first
                exact first.elim
            | some later =>
                rw [left, right] at first
                exact ih after later first

end Region

end Footprint
