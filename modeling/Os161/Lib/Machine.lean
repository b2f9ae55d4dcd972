import Mathlib.Logic.Relation
import Os161.Lib.Prog

/-!
# Systems that take step after step

A `Machine` has operations, given as programs, that can happen in the states in
which they are enabled. Before each operation the environment chooses something
that the operation depends on, such as which of its requests will be refused. An
operation may return or fail, and either way the system goes on in the state it
left; when it panics there is no further state.

What holds at the start and is ensured by every operation holds in every state
that can be reached (`Reachable.invariant`). Runs of given operations can be
computed (`execute`), and the state at their end is one that can be reached.
-/

/-- A system with the operations `ω`, in an environment that makes the choices `η`. -/
structure Machine (π σ ε ω η : Type) where
  exec : ω → Prog π σ ε Unit
  Enabled : ω → σ → Prop
  arm : σ → η → σ

namespace Machine

variable {π σ ε ω η : Type} {machine : Machine π σ ε ω η} {Start : σ → Prop} {state : σ}

/-- One operation that does not panic. -/
def Step (machine : Machine π σ ε ω η) (state state' : σ) : Prop :=
  ∃ operation, machine.Enabled operation state ∧ ∃ choice result,
    machine.exec operation (machine.arm state choice) = .ok (result, state')

/-- The states at the end of the runs that begin with `Start`. -/
def Reachable (machine : Machine π σ ε ω η) (Start : σ → Prop) (state : σ) : Prop :=
  ∃ first, Start first ∧ Relation.ReflTransGen machine.Step first state

theorem Reachable.start (starts : Start state) : machine.Reachable Start state :=
  ⟨state, starts, Relation.ReflTransGen.refl⟩

theorem Reachable.step {state' : σ} (reachable : machine.Reachable Start state)
    (step : machine.Step state state') : machine.Reachable Start state' := by
  rcases reachable with ⟨first, starts, run⟩
  exact ⟨first, starts, run.tail step⟩

/-- The rule for invariants. -/
theorem Reachable.invariant {P : σ → Prop} (initially : ∀ state, Start state → P state)
    (kept : ∀ state operation choice, machine.Reachable Start state →
      machine.Enabled operation state → P state →
      Prog.Ensures (machine.exec operation) (machine.arm state choice)
        (fun _ => True) (fun _ => P) (fun _ => P))
    (reachable : machine.Reachable Start state) : P state := by
  rcases reachable with ⟨first, starts, run⟩
  induction run with
  | refl => exact initially first starts
  | tail run step ih =>
      rcases step with ⟨operation, enabled, choice, result, outcome⟩
      have ensures := kept _ operation choice ⟨first, starts, run⟩ enabled ih
      cases result with
      | error failure => exact (Prog.ensures_of_fail_eq outcome).mp ensures
      | ok value => exact (Prog.ensures_of_ok_eq outcome).mp ensures

section Execute

variable [(operation : ω) → (state : σ) → Decidable (machine.Enabled operation state)]

/-- The state after one operation, if it is enabled and does not panic. -/
def perform (machine : Machine π σ ε ω η)
    [(operation : ω) → (state : σ) → Decidable (machine.Enabled operation state)]
    (state : σ) (next : ω × η) : Option σ :=
  if machine.Enabled next.1 state then
    match machine.exec next.1 (machine.arm state next.2) with
    | .ok (_, state') => some state'
    | .error _ => none
  else
    none

def execute (machine : Machine π σ ε ω η)
    [(operation : ω) → (state : σ) → Decidable (machine.Enabled operation state)]
    (state : σ) (operations : List (ω × η)) : Option σ :=
  operations.foldlM machine.perform state

theorem step_of_perform {state' : σ} {next : ω × η}
    (performed : machine.perform state next = some state') : machine.Step state state' := by
  rw [perform] at performed
  split at performed
  · rename_i enabled
    refine ⟨next.1, enabled, next.2, ?_⟩
    split at performed
    · rename_i result state'' outcome
      cases performed
      exact ⟨result, outcome⟩
    · cases performed
  · cases performed

theorem Reachable.execute {state' : σ} {operations : List (ω × η)}
    (reachable : machine.Reachable Start state)
    (executed : machine.execute state operations = some state') :
    machine.Reachable Start state' := by
  induction operations generalizing state with
  | nil =>
      cases executed
      exact reachable
  | cons next operations ih =>
      rw [Machine.execute, List.foldlM_cons] at executed
      rcases Option.bind_eq_some_iff.mp executed with ⟨between, first, rest⟩
      exact ih (reachable.step (step_of_perform first)) rest

end Execute

end Machine
