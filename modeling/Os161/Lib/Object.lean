import Os161.Lib.Machine

/-!
# Objects and runs of calls on them

The functions of a data structure take its value and give back an answer and the new
value; meanwhile they may use their surroundings, such as the memory to come. A call
that fails has no new value, and the object stays as it was.

The runs of an object are sequences of calls, each in surroundings of its own. What is
true of a new object and is kept by the calls that are allowed is true after every run
(`reachable_invariant`).
-/

/-- A data structure with the functions `ω`, the answers `ρ` and the surroundings `η`. -/
structure Object (π σ η ε ω ρ : Type) where
  call : ω → σ → Prog π η ε (ρ × σ)
  Allowed : ω → σ → Prop

namespace Object

variable {π σ η ε ω ρ : Type} (object : Object π σ η ε ω ρ)

/-- A call on the object that is there. -/
def invoke (operation : ω) : Prog π (η × σ) ε ρ := do
  let state ← Prog.get
  let result ← Prog.zoom Prod.fst (fun surroundings state => (surroundings, state.2))
    (object.call operation state.2)
  Prog.modify fun state => (state.1, result.2)
  pure result.1

def machine : Machine π (η × σ) ε ω η where
  exec operation := do
    let _answer ← object.invoke operation
    pure ()
  Enabled operation state := object.Allowed operation state.2
  arm state surroundings := (surroundings, state.2)

instance [(operation : ω) → (value : σ) → Decidable (object.Allowed operation value)]
    (operation : ω) (state : η × σ) : Decidable (object.machine.Enabled operation state) :=
  inferInstanceAs (Decidable (object.Allowed operation state.2))

variable {object}

@[simp]
theorem ensures_invoke {operation : ω} {state : η × σ} {panics : π → Prop}
    {fails : ε → η × σ → Prop} {returns : ρ → η × σ → Prop} :
    Prog.Ensures (object.invoke operation) state panics fails returns ↔
      Prog.Ensures (object.call operation state.2) state.1 panics
        (fun failure surroundings => fails failure (surroundings, state.2))
        (fun result surroundings => returns result.1 (surroundings, result.2)) := by
  simp [invoke, Prog.ensures_zoom]

/-- The rule for invariants of an object. -/
theorem reachable_invariant {Start : η × σ → Prop} {Inv : σ → Prop} {state : η × σ}
    (initially : ∀ state, Start state → Inv state.2)
    (kept : ∀ operation value surroundings, object.Allowed operation value → Inv value →
      Prog.Ensures (object.call operation value) surroundings (fun _ => True)
        (fun _ _ => True) (fun result _ => Inv result.2))
    (reachable : object.machine.Reachable Start state) : Inv state.2 := by
  apply reachable.invariant initially
  intro state operation surroundings _ allowed holds
  have step := kept operation state.2 surroundings allowed holds
  simp only [machine, Prog.ensures_bind, ensures_invoke, Prog.ensures_pure]
  exact step.mono (fun _ _ => trivial) (fun _ _ _ => holds) (fun _ _ kept => kept)

end Object
