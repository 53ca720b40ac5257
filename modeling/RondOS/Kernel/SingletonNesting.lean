import RondOS.Kernel.Singleton
import Mathlib.Logic.Relation

/-!
# Singletons and interrupt handlers on one core

The kernel has one processor, so contexts do not interleave freely: a handler runs on top of what it
interrupts, and what it interrupts stands still until the handler returns. A spin loop that waits
for another context therefore waits for one that cannot run. This module says exactly which calls of
`get` and `get_mut` return on such a stack, at any depth of nesting.
-/

namespace RondOS.Nesting

open RustWord Utils

set_option autoImplicit false

variable {Ctx T : Type}

/-- The running context comes first, then what it interrupted, down to `main`. -/
structure Core (Ctx T : Type) where
  system : System Ctx T
  stack : List Ctx

/-- Only the top context moves. A handler returns when it is not in the middle of a call. -/
inductive CoreStep [DecidableEq Ctx] : Core Ctx T → Core Ctx T → Prop
  | run {system after : System Ctx T} {ctx : Ctx} {rest : List Ctx} {action : Action T} :
      system.step ctx action = some after →
      CoreStep { system, stack := ctx :: rest } { system := after, stack := ctx :: rest }
  | interrupt {system : System Ctx T} {stack : List Ctx} {handler : Ctx} :
      handler ∉ stack → CoreStep { system, stack } { system, stack := handler :: stack }
  | iret {system : System Ctx T} {handler below : Ctx} {rest : List Ctx} :
      system.calls handler = none →
      CoreStep { system, stack := handler :: below :: rest } { system, stack := below :: rest }

def Reaches [DecidableEq Ctx] : Core Ctx T → Core Ctx T → Prop := Relation.ReflTransGen CoreStep

def boot (T : Type) (main : Ctx) : Core Ctx T where
  system := System.start Ctx T
  stack := [main]

structure CoreInv (core : Core Ctx T) : Prop where
  phased : ∃ phase, InPhase phase core.system
  attended : Attended core.system
  outside : ∀ ctx, ctx ∉ core.stack → core.system.calls ctx = none
  nodup : core.stack.Nodup

section Runs

theorem core_inv_boot (main : Ctx) : CoreInv (boot T main) where
  phased := ⟨.uninit, start_phase⟩
  attended := attended_start
  outside := fun _ _ => rfl
  nodup := by simp [boot]

variable [DecidableEq Ctx] {core next : Core Ctx T}

theorem core_inv_step (inv : CoreInv core) (stepped : CoreStep core next) : CoreInv next := by
  cases stepped with
  | @run system after ctx rest action moved =>
      obtain ⟨phase, inPhase⟩ := inv.phased
      obtain ⟨later, _, kept⟩ := phase_step inPhase moved
      refine ⟨⟨later, kept⟩, inv.attended.step moved, ?_, inv.nodup⟩
      intro other away
      have apart : other ≠ ctx := by
        intro same
        rw [same] at away
        exact away List.mem_cons_self
      exact (calls_others moved apart).trans (inv.outside other away)
  | interrupt fresh =>
      refine ⟨inv.phased, inv.attended, ?_, List.nodup_cons.mpr ⟨fresh, inv.nodup⟩⟩
      intro other away
      exact inv.outside other fun member => away (List.mem_cons_of_mem _ member)
  | @iret system handler below rest idle =>
      refine ⟨inv.phased, inv.attended, ?_, (List.nodup_cons.mp inv.nodup).2⟩
      intro other away
      by_cases same : other = handler
      · rw [same]
        exact idle
      · apply inv.outside other
        intro member
        exact away (List.mem_of_ne_of_mem same member)

theorem core_inv_reaches {start : Core Ctx T} (inv : CoreInv start) (reached : Reaches start core) :
    CoreInv core := by
  induction reached with
  | refl => exact inv
  | tail _ stepped ih => exact core_inv_step ih stepped

end Runs

section Blocked

theorem initing_of_mid_init {system : System Ctx T} {owner : Ctx}
    (phased : ∃ phase, InPhase phase system) (mid : MidInit system owner) :
    system.cell.inited = singleIniting := by
  obtain ⟨phase, inPhase⟩ := phased
  obtain ⟨access, point, called, inside⟩ := mid
  have allowed := inPhase.points owner access point called
  rw [inPhase.flag]
  rcases inside with rfl | rfl
  · rw [initing_of_initialise allowed]
    rfl
  · obtain ⟨value, written⟩ := written_of_store allowed
    rw [written]
    rfl

variable [DecidableEq Ctx] {core next : Core Ctx T} {top owner : Ctx} {rest : List Ctx}

/-- The call of `top` waits for `owner`, which lies below it. -/
structure Stuck (top owner : Ctx) (access : Access) (rest : List Ctx) (core : Core Ctx T) : Prop where
  inv : CoreInv core
  below : ∃ above, core.stack = above ++ top :: rest
  mid : MidInit core.system owner
  waits : ∃ point, core.system.calls top = some (access, point) ∧ point.Waits

theorem waits_step {system after : System Ctx T} {action : Action T} {access : Access} {point : Point}
    (flag : system.cell.inited = singleIniting) (called : system.calls top = some (access, point))
    (waits : point.Waits) (stepped : system.step top action = some after) :
    ∃ later, after.calls top = some (access, later) ∧ later.Waits := by
  rcases step_cases stepped with ⟨_, _, idle, _⟩ | ⟨reached, current, value, target, cell, _, located,
    ran, _, calls⟩ | ⟨_, _, left, _⟩ | ⟨_, _, _, calls⟩
  · rw [called] at idle
    cases idle
  · rw [called] at located
    cases located
    refine ⟨target, by rw [calls, Function.update_self], ?_⟩
    rcases waits with rfl | rfl
    · rw [exchange_initing value flag] at ran
      cases ran
      exact Or.inr rfl
    · rw [Point.step, if_pos flag] at ran
      cases ran
      exact Or.inr rfl
  · rw [called] at left
    cases left
    rcases waits with absurdity | absurdity <;> cases absurdity
  · exact ⟨point, calls ▸ called, waits⟩

theorem stuck_step {access : Access} (member : owner ∈ rest)
    (stuck : Stuck top owner access rest core) (stepped : CoreStep core next) :
    Stuck top owner access rest next := by
  have inv := core_inv_step stuck.inv stepped
  obtain ⟨above, stack⟩ := stuck.below
  obtain ⟨point, called, waits⟩ := stuck.waits
  cases stepped with
  | @run system after ctx others action moved =>
      have flag := initing_of_mid_init stuck.inv.phased stuck.mid
      have nodup : (ctx :: others).Nodup := stuck.inv.nodup
      have apart : owner ≠ ctx := by
        intro same
        have inside : owner ∈ others := by
          cases above with
          | nil =>
              cases stack
              exact member
          | cons first above =>
              cases stack
              simp [member]
        rw [same] at inside
        exact (List.nodup_cons.mp nodup).1 inside
      refine ⟨inv, ⟨above, stack⟩, mid_init_others moved apart stuck.mid, ?_⟩
      by_cases same : top = ctx
      · rw [← same] at moved
        exact waits_step flag called waits moved
      · exact ⟨point, (calls_others moved same).trans called, waits⟩
  | @interrupt system stack' handler fresh =>
      refine ⟨inv, ⟨handler :: above, ?_⟩, stuck.mid, point, called, waits⟩
      exact congrArg (handler :: ·) stack
  | @iret system handler below others idle =>
      refine ⟨inv, ?_, stuck.mid, point, called, waits⟩
      change handler :: below :: others = above ++ top :: rest at stack
      cases above with
      | nil =>
          have busy : system.calls handler = some (access, point) := by
            rw [(List.cons.inj stack).1]
            exact called
          rw [idle] at busy
          cases busy
      | cons first above => exact ⟨above, (List.cons.inj stack).2⟩

theorem stuck_reaches {access : Access} (member : owner ∈ rest)
    (stuck : Stuck top owner access rest core) {final : Core Ctx T} (reached : Reaches core final) :
    Stuck top owner access rest final := by
  induction reached with
  | refl => exact stuck
  | tail _ stepped ih => exact stuck_step member ih stepped

end Blocked

section Returning

variable [DecidableEq Ctx] (value : T) (ctx : Ctx) (access : Access)

/-- The context alone completes its call in at most so many steps. `value` is what `T::default()`
returns. -/
def ReturnsWithin : Nat → System Ctx T → Prop
  | 0, _ => False
  | steps + 1, system =>
      (∃ after, system.step ctx .handOut = some after ∧ after.calls ctx = none ∧
        (ctx, access) ∈ after.refs) ∨
      ∃ after, system.step ctx (.advance value) = some after ∧ ReturnsWithin steps after

variable {value ctx access} {system : System Ctx T}

theorem returns_later {steps more : Nat} (enough : steps ≤ more)
    (returns : ReturnsWithin value ctx access steps system) :
    ReturnsWithin value ctx access more system := by
  induction steps generalizing more system with
  | zero => exact returns.elim
  | succ steps ih =>
      cases more with
      | zero => omega
      | succ more =>
          rcases returns with done | ⟨after, stepped, later⟩
          · exact Or.inl done
          · exact Or.inr ⟨after, stepped, ih (by omega) later⟩

theorem returns_advance {point next : Point} {cell : Singleton T} {steps : Nat}
    (called : system.calls ctx = some (access, point))
    (ran : point.step value system.cell = some (next, cell))
    (later : ∀ after : System Ctx T, after.cell = cell → after.calls ctx = some (access, next) →
      ReturnsWithin value ctx access steps after) :
    ReturnsWithin value ctx access (steps + 1) system := by
  have stepped : ∃ after, system.step ctx (.advance value) = some after ∧ after.cell = cell ∧
      after.calls ctx = some (access, next) := by
    simp only [System.step, called, ran, Option.bind_eq_bind, Option.bind_some]
    exact ⟨_, rfl, rfl, Function.update_self _ _ _⟩
  obtain ⟨after, stepped, moved, located⟩ := stepped
  exact Or.inr ⟨after, stepped, later after moved located⟩

theorem returns_left (called : system.calls ctx = some (access, .left)) :
    ReturnsWithin value ctx access 1 system := by
  apply Or.inl
  simp only [System.step, called]
  exact ⟨_, rfl, Function.update_self _ _ _, List.mem_cons_self⟩

theorem returns_check (flag : system.cell.inited = singleInited)
    (called : system.calls ctx = some (access, .check)) :
    ReturnsWithin value ctx access 2 system := by
  have ran : Point.check.step value system.cell = some (.left, system.cell) := by
    rw [Point.step, if_pos flag]
  exact returns_advance called ran fun _ _ located => returns_left located

theorem returns_exchange (flag : system.cell.inited = singleInited)
    (called : system.calls ctx = some (access, .exchange)) :
    ReturnsWithin value ctx access 3 system := by
  apply returns_advance called (exchange_inited value flag)
  intro after moved located
  rw [← moved] at flag
  exact returns_check flag located

theorem returns_inited {point : Point} (flag : system.cell.inited = singleInited)
    (called : system.calls ctx = some (access, point))
    (allowed : point.Waits ∨ point = .check ∨ point = .left) :
    ReturnsWithin value ctx access 4 system := by
  rcases allowed with (rfl | rfl) | rfl | rfl
  · exact returns_later (by decide) (returns_exchange flag called)
  · have ran : Point.spin.step value system.cell = some (.exchange, system.cell) := by
      rw [Point.step, flag, if_neg (by decide)]
    apply returns_advance called ran
    intro after moved located
    rw [← moved] at flag
    exact returns_exchange flag located
  · exact returns_later (by decide) (returns_check flag called)
  · exact returns_later (by decide) (returns_left called)

theorem returns_store (called : system.calls ctx = some (access, .store)) :
    ReturnsWithin value ctx access 4 system := by
  apply returns_advance called rfl
  intro after moved located
  exact returns_exchange (by rw [moved]) located

theorem returns_initialise (called : system.calls ctx = some (access, .initialise)) :
    ReturnsWithin value ctx access 5 system := by
  apply returns_advance called rfl
  intro after _ located
  exact returns_store located

theorem returns_uninit {point : Point} (flag : system.cell.inited = singleUninit)
    (called : system.calls ctx = some (access, point)) (waits : point.Waits) :
    ReturnsWithin value ctx access 7 system := by
  have fresh : ∀ start : System Ctx T, start.cell.inited = singleUninit →
      start.calls ctx = some (access, .exchange) → ReturnsWithin value ctx access 6 start := by
    intro start flag called
    exact returns_advance called (exchange_uninit value flag) fun _ _ located =>
      returns_initialise located
  rcases waits with rfl | rfl
  · exact returns_later (by decide) (fresh system flag called)
  · have ran : Point.spin.step value system.cell = some (.exchange, system.cell) := by
      rw [Point.step, flag, if_neg (by decide)]
    apply returns_advance called ran
    intro after moved located
    rw [← moved] at flag
    exact fresh after flag located

end Returning

theorem waits_beside_mid_init {system : System Ctx T} (phased : ∃ phase, InPhase phase system)
    {owner other : Ctx} (mid : MidInit system owner) (apart : other ≠ owner) {access : Access}
    {point : Point} (called : system.calls other = some (access, point)) : point.Waits := by
  obtain ⟨phase, inPhase⟩ := phased
  obtain ⟨reached, current, located, inside⟩ := mid
  have ownerAllowed := inPhase.points owner reached current located
  have allowed := inPhase.points other access point called
  rcases inside with rfl | rfl
  · rw [initing_of_initialise ownerAllowed] at allowed
    exact waits_of_other apart allowed
  · obtain ⟨written, phased⟩ := written_of_store ownerAllowed
    rw [phased] at allowed
    exact waits_of_other apart allowed

/-- A call of the running context returns, in at most seven steps of its own, unless a context that
it interrupted is in the middle of the initialisation. In that case it never returns, whatever else
interrupts, and nothing below it ever runs again. -/
theorem call_returns_unless_owner_below [DecidableEq Ctx] (main top : Ctx) (value : T)
    (core : Core Ctx T) (rest : List Ctx) (access : Access) (point : Point)
    (reached : Reaches (boot T main) core) (running : core.stack = top :: rest)
    (calling : core.system.calls top = some (access, point)) :
    ((∃ owner ∈ rest, MidInit core.system owner) → ∀ final, Reaches core final →
      ∃ above later, final.stack = above ++ top :: rest ∧
        final.system.calls top = some (access, later)) ∧
    ((¬∃ owner ∈ rest, MidInit core.system owner) →
      ReturnsWithin value top access 7 core.system) := by
  have inv := core_inv_reaches (core_inv_boot main) reached
  have nodup := inv.nodup
  rw [running] at nodup
  constructor
  · intro blocked final continued
    rcases blocked with ⟨owner, member, mid⟩
    have apart : top ≠ owner := by
      intro same
      rw [same] at nodup
      exact (List.nodup_cons.mp nodup).1 member
    have stuck : Stuck top owner access rest core :=
      ⟨inv, ⟨[], running⟩, mid, point, calling,
        waits_beside_mid_init inv.phased mid apart calling⟩
    have stuckLater := stuck_reaches member stuck continued
    obtain ⟨above, stack⟩ := stuckLater.below
    obtain ⟨later, called, _⟩ := stuckLater.waits
    exact ⟨above, later, stack, called⟩
  · intro free
    obtain ⟨phase, inPhase⟩ := inv.phased
    have allowed := inPhase.points top access point calling
    have flag := inPhase.flag
    -- whoever initialises is on the stack and not below, so it is the running context
    have ownerOnTop : core.system.cell.inited = singleIniting → MidInit core.system top := by
      intro initing
      obtain ⟨owner, mid⟩ := inv.attended initing
      by_cases same : owner = top
      · rwa [same] at mid
      · have idle : core.system.calls owner = none := by
          apply inv.outside
          rw [running]
          intro member
          exact free ⟨owner, List.mem_of_ne_of_mem same member, mid⟩
        rcases mid with ⟨_, _, called, _⟩
        rw [idle] at called
        cases called
    have finishes : core.system.cell.inited = singleIniting →
        ReturnsWithin value top access 7 core.system := by
      intro initing
      obtain ⟨_, _, located, inside⟩ := ownerOnTop initing
      rw [calling] at located
      cases located
      rcases inside with rfl | rfl
      · exact returns_later (by decide) (returns_initialise calling)
      · exact returns_later (by decide) (returns_store calling)
    cases phase with
    | uninit => exact returns_uninit flag calling allowed
    | initing owner => exact finishes flag
    | written owner written => exact finishes flag
    | inited => exact returns_later (by decide) (returns_inited flag calling allowed)

theorem reaches_run [DecidableEq Ctx] {ctx : Ctx} {rest : List Ctx} (actions : List (Action T))
    {system after : System Ctx T}
    (ran : system.run (actions.map fun action => (ctx, action)) = some after) :
    Reaches { system, stack := ctx :: rest } { system := after, stack := ctx :: rest } := by
  induction actions generalizing system with
  | nil =>
      cases ran
      exact Relation.ReflTransGen.refl
  | cons action actions ih =>
      rw [List.map_cons, System.run, List.foldlM_cons] at ran
      obtain ⟨next, stepped, later⟩ := Option.bind_eq_some_iff.mp ran
      exact Relation.ReflTransGen.head (CoreStep.run stepped) (ih later)

/-- `main` is interrupted right after it has won the exchange, and the handler calls `get_mut`. -/
theorem handler_spins_forever :
    ∃ core : Core (Fin 2) Nat, Reaches (boot Nat 0) core ∧ core.stack = [1, 0] ∧
      ∀ final, Reaches core final → final.system.calls 1 ≠ none := by
  obtain ⟨won, initialises, mid, idle⟩ : ∃ won : System (Fin 2) Nat,
      (System.start (Fin 2) Nat).run
        (([.call .getMut, .advance 7] : List (Action Nat)).map fun action => (0, action)) =
          some won ∧ MidInit won 0 ∧ won.calls 1 = none :=
    ⟨_, rfl, ⟨.getMut, .initialise, rfl, Or.inl rfl⟩, rfl⟩
  have call : won.run (([.call .getMut] : List (Action Nat)).map fun action => (1, action)) =
      some { won with calls := Function.update won.calls 1 (some (.getMut, .exchange)) } := by
    simp only [System.run, List.map_cons, List.map_nil, List.foldlM_cons, List.foldlM_nil,
      System.step, idle, Option.bind_eq_bind, Option.bind_some, Option.pure_def]
  have fresh : (1 : Fin 2) ∉ [(0 : Fin 2)] := by decide
  have reached : Reaches (boot Nat 0)
      { system := { won with calls := Function.update won.calls 1 (some (.getMut, .exchange)) }
        stack := [1, 0] } :=
    (reaches_run _ initialises).trans
      (Relation.ReflTransGen.head (CoreStep.interrupt fresh) (reaches_run _ call))
  have below : ∃ owner ∈ [(0 : Fin 2)], MidInit
      { won with calls := Function.update won.calls 1 (some (.getMut, .exchange)) } owner := by
    obtain ⟨access, point, called, inside⟩ := mid
    exact ⟨0, List.mem_cons_self, access, point, by simpa using called, inside⟩
  refine ⟨_, reached, rfl, ?_⟩
  intro final continued
  have stuck := (call_returns_unless_owner_below 0 1 7 _ [0] .getMut .exchange reached rfl
    (by simp)).1 below final continued
  rcases stuck with ⟨_, _, _, called⟩
  rw [called]
  exact Option.some_ne_none _

theorem inited_step [DecidableEq Ctx] {system after : System Ctx T} {ctx : Ctx} {action : Action T}
    (inited : InPhase .inited system) (stepped : system.step ctx action = some after) :
    InPhase .inited after := by
  have notUninit : singleInited ≠ singleUninit := by decide
  have notIniting : singleInited ≠ singleIniting := by decide
  obtain ⟨next, moves, kept⟩ := phase_step inited stepped
  have flag : next.flag = singleInited := by
    rcases moves with same | ⟨absurdity, _⟩ | ⟨absurdity, _⟩
    · exact same
    · exact absurd absurdity notUninit
    · exact absurd absurdity notIniting
  cases next with
  | uninit => exact absurd flag.symm notUninit
  | initing owner => exact absurd flag.symm notIniting
  | written owner value => exact absurd flag.symm notIniting
  | inited => exact kept

theorem inited_reaches [DecidableEq Ctx] {core final : Core Ctx T}
    (inited : InPhase .inited core.system) (continued : Reaches core final) :
    InPhase .inited final.system := by
  induction continued with
  | refl => exact inited
  | tail _ stepped ih =>
      cases stepped with
      | run moved => exact inited_step ih moved
      | interrupt _ => exact ih
      | iret _ => exact ih

/-- A singleton that was once used is safe in handlers: from the first reference on, every call of
every context at every depth returns within four steps of its own. -/
theorem used_singleton_never_blocks [DecidableEq Ctx] (main ctx : Ctx) (value : T)
    (core final : Core Ctx T) (access : Access) (point : Point)
    (reached : Reaches (boot T main) core) (used : core.system.refs ≠ [])
    (continued : Reaches core final)
    (calling : final.system.calls ctx = some (access, point)) :
    ReturnsWithin value ctx access 4 final.system := by
  have inv := core_inv_reaches (core_inv_boot main) reached
  have inited : InPhase .inited core.system := by
    obtain ⟨phase, inPhase⟩ := inv.phased
    rwa [inited_of_refs inPhase used] at inPhase
  have initedLater := inited_reaches inited continued
  exact returns_inited initedLater.flag calling (initedLater.points ctx access point calling)

/-- `main` prints before `sti`; a handler that prints later gets through. -/
theorem handler_prints_after_main :
    ∃ core : Core (Fin 2) Nat, Reaches (boot Nat 0) core ∧ core.stack = [1, 0] ∧
      ReturnsWithin 7 1 .getMut 4 core.system := by
  obtain ⟨printed, returns, idle, used⟩ : ∃ printed : System (Fin 2) Nat,
      (System.start (Fin 2) Nat).run
        (([.call .getMut, .advance 7, .advance 7, .advance 7, .advance 7, .advance 7, .handOut] :
          List (Action Nat)).map fun action => (0, action)) = some printed ∧
        printed.calls 1 = none ∧ printed.refs ≠ [] :=
    ⟨_, rfl, rfl, List.cons_ne_nil _ _⟩
  have call : printed.run (([.call .getMut] : List (Action Nat)).map fun action => (1, action)) =
      some { printed with calls := Function.update printed.calls 1 (some (.getMut, .exchange)) } := by
    simp only [System.run, List.map_cons, List.map_nil, List.foldlM_cons, List.foldlM_nil,
      System.step, idle, Option.bind_eq_bind, Option.bind_some, Option.pure_def]
  have fresh : (1 : Fin 2) ∉ [(0 : Fin 2)] := by decide
  have reached : Reaches (boot Nat 0) { system := printed, stack := [0] } := reaches_run _ returns
  have continued : Reaches { system := printed, stack := [0] }
      { system :=
          { printed with calls := Function.update printed.calls 1 (some (.getMut, .exchange)) }
        stack := [1, 0] } :=
    Relation.ReflTransGen.head (CoreStep.interrupt fresh) (reaches_run _ call)
  exact ⟨_, reached.trans continued, rfl,
    used_singleton_never_blocks 0 1 7 _ _ .getMut .exchange reached used continued (by simp)⟩

end RondOS.Nesting
