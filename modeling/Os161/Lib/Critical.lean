import Mathlib.Logic.Function.Basic
import Os161.Lib.Prog

/-!
# Critical sections

Parties share a state and run code at the same time, one statement of one of them after
the other. Each of them has some code left: statements on the shared state stand between
`acquire` and `release` of one mutex, and outside there is only `pause`, for whatever
does not use the shared state.

What the mutex protects is a relation between the shared state and the places of the
parties. It can be broken while a party is inside, as long as the rest of its section,
run by itself, is sure to restore it: nobody else can interfere. So it is enough to
verify every section as a program that runs alone (`Restores`), and the relation holds
in all states in which nobody is inside, for every interleaving (`step_protected`).
-/

namespace Critical

open Function

inductive Action (α : Type) where
  | acquire
  | release
  | pause
  | run (statement : α)
  deriving DecidableEq

/-- A party: its own variables, and the code that it has not run yet. -/
structure Party (κ α : Type) where
  loc : κ
  todo : List (Action α)
  deriving DecidableEq

/-- The shared state, the mutex and the parties. -/
structure System (σ ι κ α : Type) where
  shared : σ
  mutex : Nat
  party : ι → Party κ α

variable {π σ ε ι κ α : Type} [DecidableEq ι]

def System.move (s : System σ ι κ α) (i : ι) (party : Party κ α) : System σ ι κ α :=
  { s with party := Function.update s.party i party }

/-- The next step of a party; at `acquire` it waits while the mutex is taken. -/
def step (exec : α → Prog π (σ × κ) ε Unit) (i : ι) : Prog π (System σ ι κ α) ε Unit :=
  fun s =>
    match (s.party i).todo with
    | [] => .ok (.ok (), s)
    | .acquire :: rest =>
        if s.mutex = 0 then
          .ok (.ok (), s)
        else
          .ok (.ok (), { s.move i ⟨(s.party i).loc, rest⟩ with mutex := s.mutex - 1 })
    | .release :: rest =>
        .ok (.ok (), { s.move i ⟨(s.party i).loc, rest⟩ with mutex := s.mutex + 1 })
    | .pause :: rest => .ok (.ok (), s.move i ⟨(s.party i).loc, rest⟩)
    | .run statement :: rest =>
        Prog.zoom (fun s => (s.shared, (s.party i).loc))
          (fun part s => { s.move i ⟨part.2, rest⟩ with shared := part.1 }) (exec statement) s

/-- Code in which sections are not nested and statements stand inside of sections; `held` says
whether it begins inside of one. -/
def Bracketed : (held : Bool) → List (Action α) → Prop
  | held, [] => held = false
  | held, .acquire :: rest => held = false ∧ Bracketed true rest
  | held, .release :: rest => held = true ∧ Bracketed false rest
  | held, .pause :: rest => Bracketed held rest
  | held, .run _ :: rest => held = true ∧ Bracketed held rest

def Party.Inside (party : Party κ α) : Prop :=
  Bracketed true party.todo

def Party.Outside (party : Party κ α) : Prop :=
  Bracketed false party.todo

/-- Run the rest of a section; returns the code behind it. -/
def runSection (exec : α → Prog π (σ × κ) ε Unit) :
    List (Action α) → Prog π (σ × κ) ε (List (Action α))
  | [] => pure []
  | .release :: rest => pure rest
  | .run statement :: rest => do
      exec statement
      runSection exec rest
  | .acquire :: rest | .pause :: rest => runSection exec rest

/-! ## What the mutex protects -/

/-- The relation between the shared state and the parties, and the reasons for which a statement
may panic. -/
structure Guarantee (π σ ι κ α : Type) where
  Holds : σ → (ι → Party κ α) → Prop
  Allowed : π → Prop

variable (exec : α → Prog π (σ × κ) ε Unit) (guarantee : Guarantee π σ ι κ α)

/-- The rest of a section, run by itself, restores the relation. -/
def Restores (shared : σ) (party : ι → Party κ α) (i : ι) (code : List (Action α)) : Prop :=
  Prog.Ensures (runSection exec code) (shared, (party i).loc) guarantee.Allowed (fun _ _ => False)
    (fun rest final => guarantee.Holds final.1 (Function.update party i ⟨final.2, rest⟩))

/-- The conditions on the code: a pause does not matter, and every section restores the
relation. -/
structure Verified : Prop where
  pause : ∀ {shared party} (i : ι) {rest}, guarantee.Holds shared party →
    (party i).todo = .pause :: rest →
    guarantee.Holds shared (Function.update party i ⟨(party i).loc, rest⟩)
  sections : ∀ {shared party} (i : ι) {rest}, guarantee.Holds shared party →
    (party i).todo = .acquire :: rest → Restores exec guarantee shared party i rest

/-- Nobody is inside and the relation holds, or one party is inside and will restore it. -/
def Protected (s : System σ ι κ α) : Prop :=
  (s.mutex = 1 ∧ (∀ i, (s.party i).Outside) ∧ guarantee.Holds s.shared s.party) ∨
    (s.mutex = 0 ∧ ∃ i, (s.party i).Inside ∧ (∀ j, j ≠ i → (s.party j).Outside) ∧
      Restores exec guarantee s.shared s.party i (s.party i).todo)

variable {exec guarantee} {s : System σ ι κ α} {i : ι}

theorem Protected.holds (prot : Protected exec guarantee s) (nobody : ∀ i, ¬(s.party i).Inside) :
    guarantee.Holds s.shared s.party := by
  rcases prot with ⟨_, _, holds⟩ | ⟨_, i, inside, _⟩
  · exact holds
  · exact absurd inside (nobody i)

variable {party : ι → Party κ α}

theorem outside_move {moved : Party κ α} {j : ι} (outside : moved.Outside)
    (other : j ≠ i → (party j).Outside) : (update party i moved j).Outside := by
  by_cases same : j = i
  · subst same
    simpa using outside
  · simpa [same] using other same

/-- A party that is outside and pauses leaves a section of another one as it is. -/
theorem Restores.pause (verified : Verified exec guarantee) {shared : σ} {j : ι}
    {code rest : List (Action α)} (different : j ≠ i)
    (restores : Restores exec guarantee shared party i code)
    (next : (party j).todo = .pause :: rest) :
    Restores exec guarantee shared (update party j ⟨(party j).loc, rest⟩) i code := by
  rw [Restores, update_of_ne (Ne.symm different)]
  apply restores.imp
  intro code' final holds
  have next' : (update party i ⟨final.2, code'⟩ j).todo = .pause :: rest := by
    simpa [different] using next
  have moved := verified.pause j holds next'
  rw [update_of_ne different] at moved
  rwa [update_comm different.symm] at moved

theorem restores_move {shared : σ} {loc : κ} {code : List (Action α)} :
    Restores exec guarantee shared (update party i ⟨loc, code⟩) i code ↔
      Prog.Ensures (runSection exec code) (shared, loc) guarantee.Allowed (fun _ _ => False)
        (fun rest final => guarantee.Holds final.1 (update party i ⟨final.2, rest⟩)) := by
  simp only [Restores, update_self, update_idem]

theorem step_free (verified : Verified exec guarantee) (free : s.mutex = 1)
    (outside : ∀ i, (s.party i).Outside) (holds : guarantee.Holds s.shared s.party) :
    Prog.Ensures (step exec i) s guarantee.Allowed (fun _ _ => False)
      (fun _ s' => Protected exec guarantee s') := by
  have here : Bracketed false (s.party i).todo := outside i
  have others : ∀ j, j ≠ i → (s.party j).Outside := fun j _ => outside j
  rw [Prog.Ensures, step]
  rcases code : (s.party i).todo with _ | ⟨action, rest⟩
  · exact Or.inl ⟨free, outside, holds⟩
  · rw [code] at here
    cases action with
    | acquire =>
        have taken : s.mutex ≠ 0 := by omega
        simp only [if_neg taken]
        refine Or.inr ⟨by simp [free], i, ?_, ?_, ?_⟩
        · simpa [System.move, Party.Inside] using here.2
        · intro j different
          simpa [System.move, different] using others j different
        · have restores := verified.sections i holds code
          simp only [System.move, update_self]
          exact restores_move.mpr restores
    | pause =>
        have here : Bracketed false rest := here
        exact Or.inl ⟨free, fun j => outside_move here (others j), verified.pause i holds code⟩
    | release => exact absurd here.1 (by simp)
    | run statement => exact absurd here.1 (by simp)

theorem step_inside (held : s.mutex = 0) (inside : (s.party i).Inside)
    (others : ∀ j, j ≠ i → (s.party j).Outside)
    (restores : Restores exec guarantee s.shared s.party i (s.party i).todo) :
    Prog.Ensures (step exec i) s guarantee.Allowed (fun _ _ => False)
      (fun _ s' => Protected exec guarantee s') := by
  have here : Bracketed true (s.party i).todo := inside
  have others' : ∀ {party} j, j ≠ i → (update s.party i party j).Outside := by
    intro party j different
    simpa [different] using others j different
  rw [Prog.Ensures, step]
  rcases code : (s.party i).todo with _ | ⟨action, rest⟩
  · rw [code] at here
    cases here
  · rw [code] at here restores
    cases action with
    | acquire => exact absurd here.1 (by simp)
    | release =>
        exact Or.inl ⟨by simp [held], fun j => outside_move here.2 (others j), restores⟩
    | pause =>
        have here : Bracketed true rest := here
        refine Or.inr ⟨held, i, ?_, others', ?_⟩
        · simpa [System.move, Party.Inside] using here
        · simp only [System.move, update_self]
          exact restores_move.mpr restores
    | run statement =>
        have zoomed : Prog.Ensures (Prog.zoom (fun s => (s.shared, (s.party i).loc))
            (fun part (s : System σ ι κ α) =>
              { s.move i ⟨part.2, rest⟩ with shared := part.1 }) (exec statement)) s
            guarantee.Allowed (fun _ _ => False)
            (fun _ s' => Protected exec guarantee s') := by
          rw [Restores, runSection, Prog.ensures_bind] at restores
          rw [Prog.ensures_zoom]
          apply restores.imp
          intro _ part rest'
          refine Or.inr ⟨held, i, ?_, others', ?_⟩
          · simpa [System.move, Party.Inside] using here.2
          · simp only [System.move, update_self]
            exact restores_move.mpr rest'
        exact zoomed

theorem step_other (verified : Verified exec guarantee) {k : ι} (held : s.mutex = 0)
    (inside : (s.party k).Inside) (others : ∀ j, j ≠ k → (s.party j).Outside)
    (restores : Restores exec guarantee s.shared s.party k (s.party k).todo) (different : i ≠ k) :
    Prog.Ensures (step exec i) s guarantee.Allowed (fun _ _ => False)
      (fun _ s' => Protected exec guarantee s') := by
  have here : Bracketed false (s.party i).todo := others i different
  rw [Prog.Ensures, step]
  rcases code : (s.party i).todo with _ | ⟨action, rest⟩
  · exact Or.inr ⟨held, k, inside, others, restores⟩
  · rw [code] at here
    cases action with
    | acquire =>
        simp only [if_pos held]
        exact Or.inr ⟨held, k, inside, others, restores⟩
    | pause =>
        have here : Bracketed false rest := here
        have same : update s.party i ⟨(s.party i).loc, rest⟩ k = s.party k :=
          update_of_ne different.symm _ _
        refine Or.inr ⟨held, k, ?_, fun j away => outside_move here fun _ => others j away, ?_⟩
        · simpa only [System.move, same] using inside
        · simp only [System.move, same]
          exact restores.pause verified different code
    | release => exact absurd here.1 (by simp)
    | run statement => exact absurd here.1 (by simp)

theorem step_protected (verified : Verified exec guarantee) (prot : Protected exec guarantee s)
    (i : ι) :
    Prog.Ensures (step exec i) s guarantee.Allowed (fun _ _ => False)
      (fun _ s' => Protected exec guarantee s') := by
  rcases prot with ⟨free, outside, holds⟩ | ⟨held, k, inside, others, restores⟩
  · exact step_free verified free outside holds
  · by_cases same : i = k
    · subst same
      exact step_inside held inside others restores
    · exact step_other verified held inside others restores same

theorem step_keeps {P : σ → Prop} (holds : P s.shared) (i : ι)
    (kept : ∀ statement shared loc, P shared →
      Prog.Ensures (exec statement) (shared, loc) (fun _ => True) (fun _ part => P part.1)
        (fun _ part => P part.1)) :
    Prog.Ensures (step exec i) s (fun _ => True) (fun _ s' => P s'.shared)
      (fun _ s' => P s'.shared) := by
  rw [Prog.Ensures, step]
  rcases (s.party i).todo with _ | ⟨action, rest⟩
  · exact holds
  · cases action with
    | acquire =>
        by_cases held : s.mutex = 0
        · simpa only [if_pos held] using holds
        · simp only [if_neg held]
          exact holds
    | release => exact holds
    | pause => exact holds
    | run statement =>
        have zoomed : Prog.Ensures (Prog.zoom (fun s => (s.shared, (s.party i).loc))
            (fun part (s : System σ ι κ α) =>
              { s.move i ⟨part.2, rest⟩ with shared := part.1 }) (exec statement)) s
            (fun _ => True) (fun _ s' => P s'.shared) (fun _ s' => P s'.shared) :=
          Prog.ensures_zoom.mpr (kept statement s.shared (s.party i).loc holds)
        exact zoomed

/-- The rule for a party that gets new code: a relation that does not mind it is still
protected. -/
theorem move_protected (prot : Protected exec guarantee s) {party : Party κ α}
    (idle : (s.party i).todo = []) (outside : party.Outside)
    (keeps : ∀ {shared others}, guarantee.Holds shared others → (others i).todo = [] →
      guarantee.Holds shared (update others i party)) :
    Protected exec guarantee (s.move i party) := by
  rcases prot with ⟨free, others, holds⟩ | ⟨held, k, inside, others, restores⟩
  · exact Or.inl ⟨free, fun j => outside_move outside fun _ => others j, keeps holds idle⟩
  · have different : i ≠ k := by
      rintro rfl
      rw [Party.Inside, idle] at inside
      cases inside
    have same : update s.party i party k = s.party k :=
      update_of_ne different.symm _ _
    refine Or.inr ⟨held, k, ?_, fun j away => outside_move outside fun _ => others j away, ?_⟩
    · simpa only [System.move, same] using inside
    · simp only [System.move, same]
      rw [Restores, same]
      apply restores.imp
      intro code final holds
      have kept := keeps holds (by simpa [different] using idle)
      rwa [update_comm different.symm] at kept

end Critical
