import Mathlib.Logic.Relation

/-!
# Runs and forward simulations

A machine is a step relation with labels, which are all that an observer sees. A forward simulation
matches each step of the lower machine by a step of the upper one with the same label, so every
label sequence of the lower machine is one of the upper.
-/

namespace Simulation

set_option autoImplicit false

variable {Label State Low High : Type}

inductive Run (step : State → Label → State → Prop) : State → List Label → State → Prop
  | nil (state : State) : Run step state [] state
  | cons {state next final : State} {label : Label} {labels : List Label} :
      step state label next → Run step next labels final →
      Run step state (label :: labels) final

structure Forward (low : Low → Label → Low → Prop) (high : High → Label → High → Prop)
    (related : Low → High → Prop) : Prop where
  matched : ∀ {lower lowerNext : Low} {upper : High} {label : Label}, related lower upper →
    low lower label lowerNext → ∃ upperNext, high upper label upperNext ∧ related lowerNext upperNext

theorem Forward.run {low : Low → Label → Low → Prop} {high : High → Label → High → Prop}
    {related : Low → High → Prop} (forward : Forward low high related) {lower lowerFinal : Low}
    {labels : List Label} (ran : Run low lower labels lowerFinal) {upper : High}
    (start : related lower upper) :
    ∃ upperFinal, Run high upper labels upperFinal ∧ related lowerFinal upperFinal := by
  induction ran generalizing upper with
  | nil _ => exact ⟨upper, Run.nil upper, start⟩
  | cons stepped _ ih =>
      obtain ⟨next, matched, kept⟩ := forward.matched start stepped
      obtain ⟨final, run, relatedLater⟩ := ih kept
      exact ⟨final, Run.cons matched run, relatedLater⟩

section Services

variable {Request Response : Type}

/-- The answers to a sequence of requests, up to the first failure, which nothing survives. -/
def serve (answer : State → Request → Option (Response × State)) :
    State → List Request → List Response × Option State
  | state, [] => ([], some state)
  | state, request :: requests =>
      match answer state request with
      | none => ([], none)
      | some (response, next) =>
          let (responses, final) := serve answer next requests
          (response :: responses, final)

/-- Two services that agree on each request, through a view of the lower one's state, agree on
every sequence of requests, failures included. -/
theorem serve_view {low : Low → Request → Option (Response × Low)}
    {high : High → Request → Option (Response × High)} {view : Low → High}
    (agree : ∀ state request,
      (low state request).map (Prod.map id view) = high (view state) request)
    (state : Low) (requests : List Request) :
    Prod.map id (Option.map view) (serve low state requests) =
      serve high (view state) requests := by
  induction requests generalizing state with
  | nil => rfl
  | cons request requests ih =>
      rw [serve, serve, ← agree state request]
      cases low state request with
      | none => rfl
      | some answer =>
          rcases answer with ⟨response, next⟩
          simp only [Option.map_some, Prod.map_apply, id_eq]
          rw [← ih next]
          rfl

end Services

end Simulation
