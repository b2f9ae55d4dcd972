import Mathlib.Tactic.Common
import Mathlib.Tactic.Linarith
import Mathlib.Tactic.NormNum

/-!
# Programs that return, fail or panic

A `Prog` is a state-passing program with two ways out besides returning: it can
fail with an error that its caller sees, and then the state it left behind is
kept, or it can panic, and then there is no state any more. This is the shape of
kernel code written in C: a function returns an error code after it may already
have changed memory, and a failed assertion stops the machine.

`Prog.Ensures` is the weakest precondition of such a program, with one
postcondition for each way out. The rules below run a program symbolically: each
of them rewrites the precondition of a construct into that of its parts, so that
`simp` executes straight-line code and a loop or a call is handled by the lemma
that was proved about it.
-/

/-- A program over the state `σ` that returns an `α`, fails with an `ε` or panics with a `π`. -/
def Prog (π σ ε α : Type) : Type :=
  σ → Except π (Except ε α × σ)

namespace Prog

variable {π σ τ ε ε' α β : Type}

instance : Monad (Prog π σ ε) where
  pure value := fun state => .ok (.ok value, state)
  bind program next := fun state =>
    match program state with
    | .error reason => .error reason
    | .ok (.error failure, state') => .ok (.error failure, state')
    | .ok (.ok value, state') => next value state'

/-- Return an error to the caller. -/
def fail (failure : ε) : Prog π σ ε α :=
  fun state => .ok (.error failure, state)

/-- Stop the machine. -/
def halt (reason : π) : Prog π σ ε α :=
  fun _ => .error reason

/-- Read the state. -/
def get : Prog π σ ε σ :=
  fun state => .ok (.ok state, state)

/-- Change the state. -/
def modify (change : σ → σ) : Prog π σ ε Unit :=
  fun state => .ok (.ok (), change state)

/-- Halt unless the condition holds. -/
def assert (reason : π) (condition : Prop) [Decidable condition] : Prog π σ ε Unit :=
  fun state => if condition then .ok (.ok (), state) else .error reason

/-- Run a program and hand back what it returned, error or value. -/
def attempt (program : Prog π σ ε α) : Prog π σ ε' (Except ε α) :=
  fun state =>
    match program state with
    | .error reason => .error reason
    | .ok (result, state') => .ok (.ok result, state')

/-- Return the value, or fail with the error, of an earlier `attempt`. -/
def ofExcept (result : Except ε α) : Prog π σ ε α :=
  fun state => .ok (result, state)

/-- Run a program on a part of the state. -/
def zoom (read : σ → τ) (write : τ → σ → σ) (program : Prog π τ ε α) : Prog π σ ε α :=
  fun state =>
    match program (read state) with
    | .error reason => .error reason
    | .ok (result, part) => .ok (result, write part state)

/-- Run a program that has a variable of its own besides the state, and hand back its last
value. When the program fails the variable is gone. -/
def withLocal (initial : τ) (program : Prog π (σ × τ) ε α) : Prog π σ ε (α × τ) :=
  fun state =>
    match program (state, initial) with
    | .error reason => .error reason
    | .ok (.error failure, (state', _)) => .ok (.error failure, state')
    | .ok (.ok value, (state', final)) => .ok (.ok (value, final), state')

def returned (program : Prog π σ ε α) (state : σ) : Option (α × σ) :=
  match program state with
  | .ok (.ok value, state') => some (value, state')
  | _ => none

def failed (program : Prog π σ ε α) (state : σ) : Option (ε × σ) :=
  match program state with
  | .ok (.error failure, state') => some (failure, state')
  | _ => none

def halted (program : Prog π σ ε α) (state : σ) : Option π :=
  match program state with
  | .error reason => some reason
  | _ => none

variable {program : Prog π σ ε α} {state : σ}

theorem failed_eq_some {state' : σ} {failure : ε} :
    program.failed state = some (failure, state') ↔
      program state = .ok (.error failure, state') := by
  rcases outcome : program state with reason | ⟨failure' | value, state''⟩ <;>
    simp [failed, outcome]

theorem halted_eq_some {reason : π} :
    program.halted state = some reason ↔ program state = .error reason := by
  rcases outcome : program state with reason' | ⟨failure | value, state'⟩ <;>
    simp [halted, outcome]

theorem returned_eq_some {state' : σ} {value : α} :
    program.returned state = some (value, state') ↔
      program state = .ok (.ok value, state') := by
  rcases outcome : program state with reason | ⟨failure | value', state''⟩ <;>
    simp [returned, outcome]

section Running

variable {state state' : σ} {program : Prog π σ ε α} {next : α → Prog π σ ε β}

variable {value : α} {reason : π} {condition : Prop}

theorem bind_of_ok (outcome : program state = .ok (.ok value, state')) :
    (program >>= next) state = next value state' := by
  simp only [bind, outcome]

theorem bind_of_fail {failure : ε} (outcome : program state = .ok (.error failure, state')) :
    (program >>= next) state = .ok (.error failure, state') := by
  simp only [bind, outcome]

theorem bind_of_halt (outcome : program state = .error reason) :
    (program >>= next) state = .error reason := by
  simp only [bind, outcome]

theorem bind_eq_ok_iff {value : β} {final : σ} :
    (program >>= next) state = .ok (.ok value, final) ↔
      ∃ first between, program state = .ok (.ok first, between) ∧
        next first between = .ok (.ok value, final) := by
  rcases outcome : program state with reason | ⟨failure | first, between⟩ <;>
    simp [bind, outcome]

theorem bind_assoc {γ : Type} (program : Prog π σ ε α) (next : α → Prog π σ ε β)
    (last : β → Prog π σ ε γ) :
    (program >>= next) >>= last = program >>= fun value => next value >>= last := by
  funext state
  rcases outcome : program state with reason | ⟨failure | value, between⟩ <;>
    simp [bind, outcome]

theorem pure_apply (value : α) (state : σ) :
    (pure value : Prog π σ ε α) state = .ok (.ok value, state) := rfl

theorem get_apply (state : σ) : (get : Prog π σ ε σ) state = .ok (.ok state, state) := rfl

theorem get_bind_apply (next : σ → Prog π σ ε β) (state : σ) :
    ((get : Prog π σ ε σ) >>= next) state = next state state := rfl

theorem modify_bind_apply (change : σ → σ) (next : Unit → Prog π σ ε β) (state : σ) :
    ((modify change : Prog π σ ε Unit) >>= next) state = next () (change state) := rfl

theorem assert_of [Decidable condition] (holds : condition) (state : σ) :
    (assert reason condition : Prog π σ ε Unit) state = .ok (.ok (), state) := by
  simp [assert, holds]

theorem assert_of_not [Decidable condition] (violated : ¬condition) (state : σ) :
    (assert reason condition : Prog π σ ε Unit) state = .error reason := by
  simp [assert, violated]

theorem attempt_of_ok (outcome : program state = .ok (.ok value, state')) :
    (attempt program : Prog π σ ε' _) state = .ok (.ok (.ok value), state') := by
  simp only [attempt, outcome]

end Running

/-- From `state` the program panics, fails or returns only as the three conditions allow. -/
def Ensures (program : Prog π σ ε α) (state : σ) (panics : π → Prop)
    (fails : ε → σ → Prop) (returns : α → σ → Prop) : Prop :=
  match program state with
  | .error reason => panics reason
  | .ok (.error failure, state') => fails failure state'
  | .ok (.ok value, state') => returns value state'

section Rules

variable {state : σ} {panics : π → Prop} {fails : ε → σ → Prop} {returns : α → σ → Prop}

variable {value : α} {failure : ε} {reason : π} {condition : Prop} {program : Prog π σ ε α}
  {state' : σ} {fails' : ε → σ → Prop} {returns' : α → σ → Prop}

@[simp]
theorem ensures_pure :
    Ensures (pure value : Prog π σ ε α) state panics fails returns ↔ returns value state :=
  Iff.rfl

@[simp]
theorem ensures_bind {program : Prog π σ ε β} {next : β → Prog π σ ε α} :
    Ensures (program >>= next) state panics fails returns ↔
      Ensures program state panics fails
        (fun value state' => Ensures (next value) state' panics fails returns) := by
  simp only [Ensures, bind]
  rcases program state with reason | ⟨_ | _, state'⟩ <;> rfl

@[simp]
theorem ensures_fail :
    Ensures (fail failure : Prog π σ ε α) state panics fails returns ↔ fails failure state :=
  Iff.rfl

@[simp]
theorem ensures_halt :
    Ensures (halt reason : Prog π σ ε α) state panics fails returns ↔ panics reason :=
  Iff.rfl

@[simp]
theorem ensures_get {returns : σ → σ → Prop} :
    Ensures (get : Prog π σ ε σ) state panics fails returns ↔ returns state state :=
  Iff.rfl

@[simp]
theorem ensures_modify {change : σ → σ} {returns : Unit → σ → Prop} :
    Ensures (modify change : Prog π σ ε Unit) state panics fails returns ↔
      returns () (change state) :=
  Iff.rfl

theorem ensures_assert [Decidable condition] {returns : Unit → σ → Prop} :
    Ensures (assert reason condition : Prog π σ ε Unit) state panics fails returns ↔
      if condition then returns () state else panics reason := by
  by_cases holds : condition <;> simp [Ensures, assert, holds]

theorem ensures_assert_of [Decidable condition] {returns : Unit → σ → Prop} (holds : condition) :
    Ensures (assert reason condition : Prog π σ ε Unit) state panics fails returns ↔
      returns () state := by
  simp [ensures_assert, holds]

theorem ensures_assert_then [Decidable condition] {next : Unit → Prog π σ ε α}
    (violated : ¬condition → panics reason)
    (holds : condition → Ensures (next ()) state panics fails returns) :
    Ensures (assert reason condition >>= next) state panics fails returns := by
  rw [ensures_bind, ensures_assert]
  split_ifs with met
  · exact holds met
  · exact violated met

@[simp]
theorem ensures_attempt {program : Prog π σ ε' α} {returns : Except ε' α → σ → Prop} :
    Ensures (attempt program : Prog π σ ε _) state panics fails returns ↔
      Ensures program state panics (fun failure => returns (.error failure))
        (fun value => returns (.ok value)) := by
  simp only [Ensures, attempt]
  rcases program state with reason | ⟨_ | _, state'⟩ <;> rfl

@[simp]
theorem ensures_ofExcept_ok :
    Ensures (ofExcept (.ok value) : Prog π σ ε α) state panics fails returns ↔
      returns value state :=
  Iff.rfl

@[simp]
theorem ensures_ofExcept_error :
    Ensures (ofExcept (.error failure) : Prog π σ ε α) state panics fails returns ↔
      fails failure state :=
  Iff.rfl

@[simp]
theorem ensures_zoom {read : σ → τ} {write : τ → σ → σ} {program : Prog π τ ε α} :
    Ensures (zoom read write program) state panics fails returns ↔
      Ensures program (read state) panics
        (fun failure part => fails failure (write part state))
        (fun value part => returns value (write part state)) := by
  simp only [Ensures, zoom]
  rcases program (read state) with reason | ⟨_ | _, part⟩ <;> rfl

theorem ensures_withLocal {initial : τ} {program : Prog π (σ × τ) ε α}
    {returns : α × τ → σ → Prop} :
    Ensures (withLocal initial program) state panics fails returns ↔
      Ensures program (state, initial) panics
        (fun failure pair => fails failure pair.1)
        (fun value pair => returns (value, pair.2) pair.1) := by
  simp only [Ensures, withLocal]
  rcases program (state, initial) with reason | ⟨_ | _, pair⟩ <;> rfl

variable {left right : Prog π σ ε α} {panics' : π → Prop}

theorem ensures_ite [Decidable condition] :
    Ensures (if condition then left else right) state panics fails returns ↔
      if condition then Ensures left state panics fails returns
      else Ensures right state panics fails returns := by
  split <;> rfl

theorem ensures_branch [Decidable condition]
    (taken : condition → Ensures left state panics fails returns)
    (skipped : ¬condition → Ensures right state panics fails returns) :
    Ensures (if condition then left else right) state panics fails returns := by
  split
  · exact taken ‹_›
  · exact skipped ‹_›

theorem ensures_of_ok_eq (outcome : program state = .ok (.ok value, state')) :
    Ensures program state panics fails returns ↔ returns value state' := by
  simp only [Ensures, outcome]

theorem ensures_of_fail_eq (outcome : program state = .ok (.error failure, state')) :
    Ensures program state panics fails returns ↔ fails failure state' := by
  simp only [Ensures, outcome]

theorem ensures_of_halt_eq (outcome : program state = .error reason) :
    Ensures program state panics fails returns ↔ panics reason := by
  simp only [Ensures, outcome]

theorem ensures_congr {program' : Prog π σ ε α} (same : program state = program' state') :
    Ensures program state panics fails returns ↔ Ensures program' state' panics fails returns := by
  simp only [Ensures, same]

theorem eq_halt_of_ensures
    (ensures : Ensures program state (fun r => r = reason) (fun _ _ => False) (fun _ _ => False)) :
    program state = .error reason := by
  rcases outcome : program state with reason' | ⟨failure | value, state'⟩ <;>
    simp only [Ensures, outcome] at ensures
  rw [ensures]

theorem eq_ok_of_ensures
    (ensures : Ensures program state (fun _ => False) (fun _ _ => False)
      (fun v final => v = value ∧ final = state')) :
    program state = .ok (.ok value, state') := by
  rcases outcome : program state with reason | ⟨failure | v, final⟩ <;>
    simp only [Ensures, outcome] at ensures
  rw [ensures.1, ensures.2]

theorem ne_halt_of_ensures (ensures : Ensures program state panics fails returns)
    (never : ¬panics reason) : program state ≠ .error reason :=
  fun halted => never ((ensures_of_halt_eq halted).mp ensures)

/-- The three ways in which a program ends. -/
theorem Ensures.outcomes (ensures : Ensures program state panics fails returns) :
    (∃ reason, program state = .error reason ∧ panics reason) ∨
      (∃ failure state', program state = .ok (.error failure, state') ∧ fails failure state') ∨
      ∃ value state', program state = .ok (.ok value, state') ∧ returns value state' := by
  rcases outcome : program state with reason | ⟨failure | value, state'⟩ <;>
    simp only [Ensures, outcome] at ensures
  · exact Or.inl ⟨reason, rfl, ensures⟩
  · exact Or.inr (Or.inl ⟨failure, state', rfl, ensures⟩)
  · exact Or.inr (Or.inr ⟨value, state', rfl, ensures⟩)

theorem Ensures.mono (ensures : Ensures program state panics fails returns)
    (weakenPanics : ∀ reason, panics reason → panics' reason)
    (weakenFails : ∀ failure state', fails failure state' → fails' failure state')
    (weakenReturns : ∀ value state', returns value state' → returns' value state') :
    Ensures program state panics' fails' returns' := by
  rcases outcome : program state with reason | ⟨failure | value, state'⟩ <;>
    simp only [Ensures, outcome] at ensures ⊢
  · exact weakenPanics reason ensures
  · exact weakenFails failure state' ensures
  · exact weakenReturns value state' ensures

/-- The reasons to panic stay as they are. -/
theorem Ensures.answers (ensures : Ensures program state panics fails returns)
    (weakenFails : ∀ failure state', fails failure state' → fails' failure state')
    (weakenReturns : ∀ value state', returns value state' → returns' value state') :
    Ensures program state panics fails' returns' :=
  ensures.mono (fun _ halted => halted) weakenFails weakenReturns

theorem Ensures.imp (ensures : Ensures program state panics fails returns)
    (weaken : ∀ value state', returns value state' → returns' value state') :
    Ensures program state panics fails returns' :=
  ensures.answers (fun _ _ failed => failed) weaken

/-- A program that does not fail can be used under any condition on failures. -/
theorem Ensures.unfailing (ensures : Ensures program state panics (fun _ _ => False) returns)
    (weakenPanics : ∀ reason, panics reason → panics' reason)
    (weakenReturns : ∀ value state', returns value state' → returns' value state') :
    Ensures program state panics' fails returns' :=
  ensures.mono weakenPanics (fun _ _ failed => failed.elim) weakenReturns

/-- A program that neither panics nor fails can be used under any such conditions. -/
theorem Ensures.total
    (ensures : Ensures program state (fun _ => False) (fun _ _ => False) returns)
    (weaken : ∀ value state', returns value state' → returns' value state') :
    Ensures program state panics fails returns' :=
  ensures.unfailing (fun _ halted => halted.elim) weaken

/-- Where panics do not matter, only what is returned does. -/
theorem Ensures.returning (ensures : Ensures program state panics (fun _ _ => False) returns)
    (weaken : ∀ value state', returns value state' → returns' value state') :
    Ensures program state (fun _ => True) fails returns' :=
  ensures.unfailing (fun _ _ => trivial) weaken

theorem ensures_of_forall (halts : ∀ reason, panics reason)
    (failed : ∀ failure state', fails failure state')
    (rest : ∀ value state', returns value state') : Ensures program state panics fails returns := by
  rcases outcome : program state with reason | ⟨failure | value, state'⟩ <;>
    simp only [Ensures, outcome]
  · exact halts reason
  · exact failed failure state'
  · exact rest value state'

/-- Nothing is asked of a program but of what comes after it. -/
theorem ensures_any (rest : ∀ value state', returns value state') :
    Ensures program state (fun _ => True) (fun _ _ => True) returns :=
  ensures_of_forall (fun _ => trivial) (fun _ _ => trivial) rest

theorem ensures_bind_any {next : α → Prog π σ ε β} {returns : β → σ → Prop}
    (rest : ∀ value state', Ensures (next value) state' (fun _ => True) (fun _ _ => True) returns) :
    Ensures (program >>= next) state (fun _ => True) (fun _ _ => True) returns :=
  ensures_bind.mpr (ensures_any rest)

theorem Ensures.and (left : Ensures program state panics fails returns)
    (right : Ensures program state panics' fails' returns') :
    Ensures program state (fun reason => panics reason ∧ panics' reason)
      (fun failure state' => fails failure state' ∧ fails' failure state')
      (fun value state' => returns value state' ∧ returns' value state') := by
  rcases outcome : program state with reason | ⟨failure | value, state'⟩ <;>
    simp only [Ensures, outcome] at left right ⊢ <;>
    exact ⟨left, right⟩

end Rules

/-! ## What a program leaves alone -/

/-- Whatever happens, a part of the state is as it was. -/
def Keeps (view : σ → τ) (program : Prog π σ ε α) : Prop :=
  ∀ state, Ensures program state (fun _ => True) (fun _ state' => view state' = view state)
    (fun _ state' => view state' = view state)

section Keeps

variable {view : σ → τ} {program : Prog π σ ε α}

@[simp]
theorem keeps_pure (value : α) : Keeps view (pure value : Prog π σ ε α) :=
  fun _ => rfl

@[simp]
theorem keeps_fail (failure : ε) : Keeps view (fail failure : Prog π σ ε α) :=
  fun _ => rfl

@[simp]
theorem keeps_halt (reason : π) : Keeps view (halt reason : Prog π σ ε α) :=
  fun _ => trivial

@[simp]
theorem keeps_get : Keeps view (get : Prog π σ ε σ) :=
  fun _ => rfl

@[simp]
theorem keeps_ofExcept (result : Except ε α) : Keeps view (ofExcept result : Prog π σ ε α) := by
  intro state
  cases result <;> rfl

@[simp]
theorem keeps_assert (reason : π) (condition : Prop) [Decidable condition] :
    Keeps view (assert reason condition : Prog π σ ε Unit) := by
  intro state
  rw [ensures_assert]
  split <;> trivial

theorem keeps_modify {change : σ → σ} (same : ∀ state, view (change state) = view state) :
    Keeps view (modify change : Prog π σ ε Unit) :=
  same

theorem Keeps.bind {next : α → Prog π σ ε β} (first : Keeps view program)
    (rest : ∀ value, Keeps view (next value)) : Keeps view (program >>= next) := by
  intro state
  rw [ensures_bind]
  apply (first state).mono (fun _ halted => halted) (fun _ _ same => same)
  intro value state' same
  apply (rest value state').mono (fun _ halted => halted)
  · exact fun _ _ same' => same'.trans same
  · exact fun _ _ same' => same'.trans same

theorem Keeps.attempt (keeps : Keeps view program) :
    Keeps view (attempt program : Prog π σ ε' _) := by
  intro state
  rw [ensures_attempt]
  exact keeps state

theorem Keeps.ite {condition : Prop} [Decidable condition] {other : Prog π σ ε α}
    (taken : Keeps view program) (skipped : Keeps view other) :
    Keeps view (if condition then program else other) := by
  split
  · exact taken
  · exact skipped

end Keeps

/-! ## One program on two states -/

section Tracks

/-- At `state`, the second program does to the image of the state what the first one does to the
state. -/
def Tracks (image : σ → τ) (program : Prog π σ ε α) (program' : Prog π τ ε α) (state : σ) : Prop :=
  program' (image state) = (program state).map fun out => (out.1, image out.2)

variable {image : σ → τ} {state : σ}

theorem tracks_pure (value : α) :
    Tracks image (pure value : Prog π σ ε α) (pure value : Prog π τ ε α) state := rfl

theorem tracks_halt (reason : π) :
    Tracks image (halt reason : Prog π σ ε α) (halt reason : Prog π τ ε α) state := rfl

theorem tracks_modify {change : σ → σ} {change' : τ → τ}
    (commutes : change' (image state) = image (change state)) :
    Tracks image (modify change : Prog π σ ε Unit) (modify change' : Prog π τ ε Unit) state := by
  simp only [Tracks, modify, commutes]
  rfl

theorem tracks_assert (reason : π) (condition : Prop) [Decidable condition] :
    Tracks image (assert reason condition : Prog π σ ε Unit)
      (assert reason condition : Prog π τ ε Unit) state := by
  rw [Tracks, assert, assert]
  split_ifs <;> rfl

theorem tracks_get_bind {next : σ → Prog π σ ε α} {next' : τ → Prog π τ ε α}
    (tracks : Tracks image (next state) (next' (image state)) state) :
    Tracks image (get >>= next) (get >>= next') state :=
  tracks

theorem tracks_bind {program : Prog π σ ε β} {program' : Prog π τ ε β}
    {next : β → Prog π σ ε α} {next' : β → Prog π τ ε α}
    (first : Tracks image program program' state)
    (second : ∀ value state', Tracks image (next value) (next' value) state') :
    Tracks image (program >>= next) (program' >>= next') state := by
  rw [Tracks] at first ⊢
  rcases outcome : program state with reason | ⟨failure | value, state'⟩
  · rw [outcome] at first
    rw [bind_of_halt outcome, bind_of_halt first]
    rfl
  · rw [outcome] at first
    rw [bind_of_fail outcome, bind_of_fail first]
    rfl
  · rw [outcome] at first
    rw [bind_of_ok outcome, bind_of_ok first]
    exact second value state'

theorem tracks_ite {condition : Prop} [Decidable condition] {left right : Prog π σ ε α}
    {left' right' : Prog π τ ε α} (taken : Tracks image left left' state)
    (skipped : Tracks image right right' state) :
    Tracks image (if condition then left else right) (if condition then left' else right')
      state := by
  split_ifs
  · exact taken
  · exact skipped

theorem tracks_withLocal {κ : Type} {initial : κ} {program : Prog π (σ × κ) ε α}
    {program' : Prog π (τ × κ) ε α}
    (tracks : Tracks (fun s : σ × κ => (image s.1, s.2)) program program' (state, initial)) :
    Tracks image (withLocal initial program) (withLocal initial program') state := by
  rw [Tracks] at tracks ⊢
  dsimp only at tracks
  rw [withLocal, withLocal, tracks]
  rcases program (state, initial) with reason | ⟨failure | value, state'⟩ <;> rfl

end Tracks

end Prog
