/-!
# Steps on a state

Steps that change a state can halt. Steps in a row go on after those that gave a result, with the
state they left, and end where one of them halts.
-/

namespace ContentSpace.Stateful

variable {ε σ α β : Type} {steps : EStateM ε σ α} {next : α → EStateM ε σ β} {state after : σ}

/-- Steps go on after steps that gave a result. -/
theorem run_bind_of_ok {value : α} (ran : steps.run state = .ok value after) :
    (steps >>= next).run state = (next value).run after := by
  show EStateM.bind steps next state = _
  unfold EStateM.bind
  rw [show steps state = _ from ran]
  rfl

/-- Steps end where a step before them halts. -/
theorem run_bind_of_error {halt : ε} (ran : steps.run state = .error halt after) :
    (steps >>= next).run state = .error halt after := by
  show EStateM.bind steps next state = _
  unfold EStateM.bind
  rw [show steps state = _ from ran]

/-- Steps that ask for the state go on with it. -/
theorem run_get_bind {next : σ → EStateM ε σ β} :
    (get >>= next).run state = (next state).run state :=
  rfl

end ContentSpace.Stateful
