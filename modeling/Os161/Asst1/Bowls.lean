import Os161.Kern.Base
import Os161.Lib.Critical
import Os161.Lib.Machine
import Os161.Lib.Tally

/-!
# Cats, mice and bowls

`kern/asst1/bowls.c`: any number of animals call `cat_eat` and `mouse_eat` at the same
time. Each call has a section in which it checks the rules and marks its bowl, then it
eats for a while, and in a second section it clears the bowl again. Both sections are
protected by one semaphore, and a call is interrupted between any two of its statements;
the read and the write of `eating_cats_count += 1` are two of them.

The array and the two counters agree with the animals that are eating whenever nobody is
in a section (`Consistent`). By the rule of `Os161.Lib.Critical` it is enough to see that
each section, run by itself, restores this.
-/

namespace Os161

open Function (update)

namespace Bowls

open Critical

inductive Animal where
  | cat
  | mouse
  deriving DecidableEq, Repr

/-- The entry of `bowls` for an animal that eats there. -/
def Animal.letter : Animal → Char
  | .cat => 'c'
  | .mouse => 'm'

def Animal.other : Animal → Animal
  | .cat => .mouse
  | .mouse => .cat

def Animal.function : Animal → String
  | .cat => "cat_eat"
  | .mouse => "mouse_eat"

/-- The shared simulation state, and what was printed, newest first. -/
structure Simulation where
  bowls : Nat → Char
  numBowls : Int
  eatingCatsCount : Int
  eatingMiceCount : Int
  printed : List String

/-- The arguments of a call, and the register in which it changes a counter. -/
structure Call where
  bowlnumber : Nat
  debug : Nat
  register : Int

namespace Simulation

def count (s : Simulation) : Animal → Int
  | .cat => s.eatingCatsCount
  | .mouse => s.eatingMiceCount

def setCount (s : Simulation) (count : Int) : Animal → Simulation
  | .cat => { s with eatingCatsCount := count }
  | .mouse => { s with eatingMiceCount := count }

def setBowl (s : Simulation) (index : Nat) (letter : Char) : Simulation :=
  { s with bowls := Function.update s.bowls index letter }

/-- `print_state`. -/
def stateText (s : Simulation) : String :=
  String.ofList ((List.range s.numBowls.toNat).map s.bowls) ++ "  Eating Cats: " ++
    toString s.eatingCatsCount ++ "  Eating Mice: " ++ toString s.eatingMiceCount ++ "\n"

end Simulation

/-- The statements of the sections; `bowls[bowlnumber-1]` is the bowl. -/
inductive Stmt where
  | panicIfBowl (letter : Char)
  | panicIfEating (animal : Animal)
  | assertBowl (letter : Char)
  | assertNone (animal : Animal)
  | assertSome (animal : Animal)
  | load (animal : Animal)
  | store (animal : Animal) (delta : Int)
  | setBowl (letter : Char)
  | print (animal : Animal) (text : String)
  deriving DecidableEq

def Stmt.exec : Stmt → Prog Panic (Simulation × Call) Errno Unit
  | .panicIfBowl letter => do
      let state ← get
      if state.1.bowls (state.2.bowlnumber - 1) = letter then
        halt .eatSameBowl
  | .panicIfEating animal => do
      let state ← get
      if 0 < state.1.count animal then
        halt .eatOthersEating
  | .assertBowl letter => do
      let state ← get
      assert .eatBowl (state.1.bowls (state.2.bowlnumber - 1) = letter)
  | .assertNone animal => do
      let state ← get
      assert .eatNone (state.1.count animal = 0)
  | .assertSome animal => do
      let state ← get
      assert .eatSome (0 < state.1.count animal)
  | .load animal =>
      modify fun state => (state.1, { state.2 with register := state.1.count animal })
  | .store animal delta =>
      modify fun state => (state.1.setCount (int32 (state.2.register + delta)) animal, state.2)
  | .setBowl letter =>
      modify fun state => (state.1.setBowl (state.2.bowlnumber - 1) letter, state.2)
  | .print animal text =>
      modify fun state =>
        if state.2.debug ≠ 0 then
          ({ state.1 with
              printed := (animal.function ++ "(bowl " ++ toString state.2.bowlnumber ++ ") " ++
                text ++ ": " ++ state.1.stateText ++ "\n") :: state.1.printed }, state.2)
        else
          state

def startSection (animal : Animal) : List (Action Stmt) :=
  [.acquire,
    .run (.panicIfBowl animal.letter),
    .run (.panicIfEating animal.other),
    .run (.assertBowl '-'),
    .run (.assertNone animal.other),
    .run (.load animal),
    .run (.store animal 1),
    .run (.setBowl animal.letter),
    .run (.print animal "start"),
    .release]

/-- The second section of `cat_eat`. -/
def catFinish : List (Action Stmt) :=
  [.acquire,
    .run (.assertSome .cat),
    .run (.assertBowl 'c'),
    .run (.load .cat),
    .run (.store .cat (-1)),
    .run (.setBowl '-'),
    .run (.print .cat "finish"),
    .release]

/-- The second section of `mouse_eat`, which looks at the bowl after the counter was lowered. -/
def mouseFinish : List (Action Stmt) :=
  [.acquire,
    .run (.assertSome .mouse),
    .run (.load .mouse),
    .run (.store .mouse (-1)),
    .run (.assertBowl 'm'),
    .run (.setBowl '-'),
    .run (.print .mouse "finish"),
    .release]

/-- `cat_eat`, after its argument was checked; the pause is `clocksleep`. -/
def catEat : List (Action Stmt) :=
  startSection .cat ++ .pause :: catFinish

/-- `mouse_eat`, after its argument was checked. -/
def mouseEat : List (Action Stmt) :=
  startSection .mouse ++ .pause :: mouseFinish

def Animal.finish : Animal → List (Action Stmt)
  | .cat => catFinish
  | .mouse => mouseFinish

def Animal.eat : Animal → List (Action Stmt)
  | .cat => catEat
  | .mouse => mouseEat

/-- The allocations of `sem_create`: the semaphore and its name. -/
def semCreate : HeapM Bool := do
  if ← kmalloc then
    kmalloc
  else
    pure false

/-- `initialize_bowls`; `none` when it returns 1. -/
def initializeBowls (bowlcount : Nat) : HeapM (Option Simulation) :=
  if bowlcount = 0 then
    pure none
  else do
    if ← kmalloc then
      if ← semCreate then
        pure (some
          { bowls := fun i => if i < bowlcount then '-' else default
            numBowls := int32 bowlcount
            eatingCatsCount := 0
            eatingMiceCount := 0
            printed := [] })
      else
        halt .bowlsMutex
    else
      halt .bowlsAlloc

/-! ## The animals together -/

abbrev World (ι : Type) := System Simulation ι Call Stmt

/-- A call begins, or an animal takes its next step. -/
inductive EatOp (ι : Type) where
  | call (i : ι) (animal : Animal) (bowlnumber debug : Nat)
  | run (i : ι)

namespace EatOp

variable {ι : Type} [DecidableEq ι]

def exec : EatOp ι → Prog Panic (World ι) Errno Unit
  | .call i animal bowlnumber debug => do
      let s ← get
      if bowlnumber = 0 ∨ s.shared.numBowls < int32 bowlnumber then
        halt .eatBowlNumber
      else
        modify fun s => s.move i ⟨⟨bowlnumber, debug, 0⟩, animal.eat⟩
  | .run i => Critical.step Stmt.exec i

def Enabled (s : World ι) : EatOp ι → Prop
  | .call i _ bowlnumber _ =>
      (s.party i).todo = [] ∧ 1 ≤ bowlnumber ∧ (bowlnumber : Int) ≤ s.shared.numBowls
  | .run i => (s.party i).todo ≠ []

instance (s : World ι) (op : EatOp ι) : Decidable (op.Enabled s) :=
  match op with
  | .call _ _ _ _ => inferInstanceAs (Decidable (_ ∧ _ ∧ _))
  | .run _ => inferInstanceAs (Decidable (_ ≠ _))

end EatOp

/-- Any interleaving of any calls with valid bowl numbers. -/
def machine (ι : Type) [DecidableEq ι] : Machine Panic (World ι) Errno (EatOp ι) Unit where
  exec := EatOp.exec
  Enabled := fun op s => op.Enabled s
  arm := fun s _ => s

instance (ι : Type) [DecidableEq ι] (op : EatOp ι) (s : World ι) :
    Decidable ((machine ι).Enabled op s) :=
  inferInstanceAs (Decidable (op.Enabled s))

def resting {ι : Type} (simulation : Simulation) : World ι where
  shared := simulation
  mutex := 1
  party := fun _ => ⟨⟨0, 0, 0⟩, []⟩

/-- After `initialize_bowls`. -/
def Initial {ι : Type} (bowlcount : Nat) (s : World ι) : Prop :=
  ∃ heap heap' simulation, initializeBowls bowlcount heap = .ok (.ok (some simulation), heap') ∧
    s = resting simulation

/-! ## What the semaphore protects -/

/-- The animal is between its two sections. -/
def eating (animal : Animal) (party : Party Call Stmt) : Bool :=
  decide (party.todo = .pause :: animal.finish ∨ party.todo = animal.finish)

/-- The number of entries of an animal in `bowls`. -/
def Simulation.entries (s : Simulation) (animal : Animal) : Nat :=
  tally (fun bowl : Fin s.numBowls.toNat => s.bowls bowl) fun letter => letter == animal.letter

/-- Where a call can be when it is not in a section. -/
def Placed (numBowls : Int) (party : Party Call Stmt) : Prop :=
  party.todo = [] ∨ (1 ≤ party.loc.bowlnumber ∧ (party.loc.bowlnumber : Int) ≤ numBowls ∧
    ∃ animal : Animal, party.todo = animal.eat ∨ party.todo = .pause :: animal.finish ∨
      party.todo = animal.finish)

/-- The counters, and the numbers of entries, are those of the animals that are eating. -/
structure Counts {ι : Type} [Fintype ι] (s : Simulation) (party : ι → Party Call Stmt) : Prop where
  counted : ∀ animal, s.count animal = tally party (eating animal)
  entered : ∀ animal, s.entries animal = tally party (eating animal)
  oneKind : s.count .cat = 0 ∨ s.count .mouse = 0

/-- The entries are those of the animals that are eating, each at its own bowl. -/
structure Marks {ι : Type} (s : Simulation) (party : ι → Party Call Stmt) : Prop where
  used : ∀ i animal, eating animal (party i) = true →
    s.bowls ((party i).loc.bowlnumber - 1) = animal.letter
  apart : ∀ i j animal other, i ≠ j → eating animal (party i) = true →
    eating other (party j) = true →
    (party i).loc.bowlnumber - 1 ≠ (party j).loc.bowlnumber - 1
  letters : ∀ bowl : Nat, (bowl : Int) < s.numBowls →
    s.bowls bowl = '-' ∨ ∃ animal : Animal, s.bowls bowl = animal.letter

/-- The simulation state agrees with the animals. -/
structure Consistent {ι : Type} [Fintype ι] (bowlcount : Nat) (s : Simulation)
    (party : ι → Party Call Stmt) : Prop where
  numBowls_eq : s.numBowls = int32 bowlcount
  placed : ∀ i, Placed s.numBowls (party i)
  counts : Counts s party
  marks : Marks s party

/-- The rules of the simulation are the only reasons for a panic. -/
def guarantee (ι : Type) [Fintype ι] (bowlcount : Nat) :
    Guarantee Panic Simulation ι Call Stmt where
  Holds := Consistent bowlcount
  Allowed := fun reason => reason = .eatSameBowl ∨ reason = .eatOthersEating

section Places

variable {animal other : Animal} {call : Call}

@[simp]
theorem eating_nil : eating animal ⟨call, []⟩ = false := by
  cases animal <;> rfl

@[simp]
theorem eating_eat : eating animal ⟨call, other.eat⟩ = false := by
  cases animal <;> cases other <;> rfl

@[simp]
theorem eating_pause : eating animal ⟨call, .pause :: other.finish⟩ = decide (animal = other) := by
  cases animal <;> cases other <;> rfl

@[simp]
theorem eating_finish : eating animal ⟨call, other.finish⟩ = decide (animal = other) := by
  cases animal <;> cases other <;> rfl

theorem eating_of_todo {party : Party Call Stmt}
    (place : party.todo = .pause :: other.finish ∨ party.todo = other.finish) :
    eating animal party = decide (animal = other) := by
  rcases party with ⟨call, todo⟩
  rcases place with rfl | rfl <;> simp

theorem not_inside_of_eating {party : Party Call Stmt} (eats : eating animal party = true) :
    ¬party.Inside := by
  rw [eating, decide_eq_true_iff] at eats
  rw [Party.Inside]
  rcases eats with todo | todo <;> rw [todo] <;> cases animal <;>
    simp [Animal.finish, catFinish, mouseFinish, Bracketed]

end Places

/-! ## The array and the counters -/

namespace Simulation

variable {s : Simulation} {animal other : Animal}

@[simp]
theorem numBowls_setCount (count : Int) : (s.setCount count animal).numBowls = s.numBowls := by
  cases animal <;> rfl

@[simp]
theorem bowls_setCount (count : Int) : (s.setCount count animal).bowls = s.bowls := by
  cases animal <;> rfl

@[simp]
theorem numBowls_setBowl (index : Nat) (letter : Char) :
    (s.setBowl index letter).numBowls = s.numBowls := rfl

@[simp]
theorem count_setBowl (index : Nat) (letter : Char) :
    (s.setBowl index letter).count animal = s.count animal := by
  cases animal <;> rfl

theorem count_setCount (count : Int) :
    (s.setCount count animal).count other = if other = animal then count else s.count other := by
  cases animal <;> cases other <;> rfl

theorem entries_setCount (count : Int) :
    (s.setCount count animal).entries other = s.entries other := by
  cases animal <;> rfl

theorem entries_setBowl (animal : Animal) {index : Nat} (inside : (index : Int) < s.numBowls)
    (letter : Char) :
    (s.setBowl index letter).entries animal + (s.bowls index == animal.letter).toNat =
      s.entries animal + (letter == animal.letter).toNat := by
  have inside' : index < s.numBowls.toNat := by omega
  have moved := tally_move (fun bowl : Fin s.numBowls.toNat => s.bowls bowl)
    (fun letter => letter == animal.letter) ⟨index, inside'⟩ letter
  have same : (fun bowl : Fin s.numBowls.toNat => update s.bowls index letter bowl) =
      update (fun bowl : Fin s.numBowls.toNat => s.bowls bowl) ⟨index, inside'⟩ letter := by
    funext bowl
    by_cases here : bowl = ⟨index, inside'⟩
    · subst here
      simp
    · have away : (bowl : Nat) ≠ index := fun equal => here (Fin.ext equal)
      simp [here, away]
  rw [← same] at moved
  exact moved

theorem entries_lt {index : Nat} (inside : (index : Int) < s.numBowls)
    (free : s.bowls index ≠ animal.letter) : s.entries animal < s.numBowls.toNat := by
  have inside' : index < s.numBowls.toNat := by omega
  have less := tally_lt_card (fun bowl : Fin s.numBowls.toNat => s.bowls bowl)
    (fun letter => letter == animal.letter) ⟨index, inside'⟩ (by simpa using free)
  simpa [entries] using less

theorem entries_pos {index : Nat} (inside : (index : Int) < s.numBowls)
    (used : s.bowls index = animal.letter) : 0 < s.entries animal := by
  have inside' : index < s.numBowls.toNat := by omega
  exact tally_pos (i := (⟨index, inside'⟩ : Fin s.numBowls.toNat)) (by simpa using used)

end Simulation

/-! ## One animal starts or finishes -/

theorem Animal.letter_ne (animal : Animal) : '-' ≠ animal.letter := by
  cases animal <;> decide

theorem Animal.letter_beq (animal other : Animal) :
    (animal.letter == other.letter) = decide (other = animal) := by
  cases animal <;> cases other <;> rfl

theorem Animal.eq_or_eq_other (animal other : Animal) : other = animal ∨ other = animal.other := by
  cases animal <;> cases other <;> decide

section Moves

variable {ι : Type} [DecidableEq ι] {s : Simulation} {party : ι → Party Call Stmt} {i : ι}
  {next : Party Call Stmt} {index : Nat} {letter : Char}

/-- A bowl changes that no other animal has. -/
theorem Marks.move (marks : Marks s party)
    (mine : ∀ animal, eating animal next = true →
      next.loc.bowlnumber - 1 = index ∧ letter = animal.letter)
    (others : ∀ j animal, j ≠ i → eating animal (party j) = true →
      (party j).loc.bowlnumber - 1 ≠ index)
    (known : letter = '-' ∨ ∃ animal : Animal, letter = animal.letter) :
    Marks (s.setBowl index letter) (update party i next) := by
  refine ⟨?_, ?_, ?_⟩
  · intro j animal eats
    by_cases same : j = i
    · subst same
      rw [update_self] at eats ⊢
      rcases mine animal eats with ⟨here, letterEq⟩
      rw [here, ← letterEq]
      exact update_self ..
    · rw [update_of_ne same] at eats ⊢
      exact (update_of_ne (others j animal same eats) _ _).trans (marks.used j animal eats)
  · intro j k animal other different eats eats'
    by_cases first : j = i
    · subst first
      rw [update_self] at eats ⊢
      rw [update_of_ne different.symm] at eats' ⊢
      rw [(mine animal eats).1]
      exact (others k other different.symm eats').symm
    · rw [update_of_ne first] at eats ⊢
      by_cases second : k = i
      · subst second
        rw [update_self] at eats' ⊢
        rw [(mine other eats').1]
        exact others j animal first eats
      · rw [update_of_ne second] at eats' ⊢
        exact marks.apart j k animal other different eats eats'
  · intro bowl inBowls
    by_cases same : bowl = index
    · subst same
      simpa [Simulation.setBowl] using known
    · simpa [Simulation.setBowl, same] using marks.letters bowl inBowls

/-- The counters and the entries change by the same amount as the number of animals. -/
theorem Counts.move [Fintype ι] (counts : Counts s party) (animal : Animal) (delta : Int)
    (inside : (index : Int) < s.numBowls)
    (party_change : ∀ other, ((eating other next).toNat : Int) =
      (eating other (party i)).toNat + if other = animal then delta else 0)
    (entry_change : ∀ other : Animal, ((letter == other.letter).toNat : Int) =
      (s.bowls index == other.letter).toNat + if other = animal then delta else 0)
    (nobody : s.count animal.other = 0) :
    Counts ((s.setCount (s.count animal + delta) animal).setBowl index letter)
      (update party i next) := by
  refine ⟨?_, ?_, ?_⟩
  · intro other
    have moved := tally_move party (eating other) i next
    have counted := counts.counted other
    have change := party_change other
    rw [Simulation.count_setBowl, Simulation.count_setCount]
    split_ifs at change ⊢ with same
    · subst same
      omega
    · omega
  · intro other
    have moved := tally_move party (eating other) i next
    have entered := counts.entered other
    have changed := (s.setCount (s.count animal + delta) animal).entries_setBowl other
      (by simpa using inside) letter
    rw [Simulation.bowls_setCount, Simulation.entries_setCount] at changed
    have first := party_change other
    have second := entry_change other
    omega
  · simp only [Simulation.count_setBowl, Simulation.count_setCount]
    cases animal with
    | cat => exact Or.inr nobody
    | mouse => exact Or.inl nobody

end Moves

namespace Consistent

variable {ι : Type} [Fintype ι] {s : Simulation} {party : ι → Party Call Stmt} {i : ι}
  {animal : Animal} {call : Call} {bowlcount : Nat}

theorem numBowls_lt (consistent : Consistent bowlcount s party) : s.numBowls < 2 ^ 31 := by
  rw [consistent.numBowls_eq]
  exact int32_lt _

theorem valid (consistent : Consistent bowlcount s party) (busy : (party i).todo ≠ []) :
    (((party i).loc.bowlnumber - 1 : Nat) : Int) < s.numBowls := by
  rcases consistent.placed i with idle | ⟨low, high, _⟩
  · exact absurd idle busy
  · omega

/-- A bowl is free when the checks at the start are passed. -/
theorem free (consistent : Consistent bowlcount s party) (busy : (party i).todo ≠ [])
    (notSame : s.bowls ((party i).loc.bowlnumber - 1) ≠ animal.letter)
    (notOther : ¬0 < s.count animal.other) :
    s.bowls ((party i).loc.bowlnumber - 1) = '-' ∧ s.count animal.other = 0 ∧
      int32 (s.count animal + 1) = s.count animal + 1 := by
  have inside := consistent.valid busy
  have counted := consistent.counts.counted animal.other
  have nobody : s.entries animal.other = 0 := by
    rw [consistent.counts.entered]
    omega
  refine ⟨?_, by omega, ?_⟩
  · rcases consistent.marks.letters _ inside with empty | ⟨eater, used⟩
    · exact empty
    · rcases animal.eq_or_eq_other eater with rfl | rfl
      · exact absurd used notSame
      · have := Simulation.entries_pos inside used
        omega
  · have less := Simulation.entries_lt inside notSame
    rw [consistent.counts.entered] at less
    have numBowls_lt := consistent.numBowls_lt
    rw [consistent.counts.counted animal]
    exact int32_eq (by omega) (by omega)

/-- While an animal is eating, its counter is positive. -/
theorem eating_pos (consistent : Consistent bowlcount s party)
    (eats : eating animal (party i) = true) : 0 < s.count animal := by
  rw [consistent.counts.counted]
  exact_mod_cast tally_pos eats

variable [DecidableEq ι]

theorem placed_update (consistent : Consistent bowlcount s party) {next : Party Call Stmt}
    (place : Placed s.numBowls next) (j : ι) : Placed s.numBowls (update party i next j) := by
  by_cases same : j = i
  · subst same
    simpa using place
  · simpa [same] using consistent.placed j

theorem start (consistent : Consistent bowlcount s party) (place : (party i).todo = animal.eat)
    (empty : s.bowls ((party i).loc.bowlnumber - 1) = '-') (nobody : s.count animal.other = 0)
    (sameBowl : call.bowlnumber = (party i).loc.bowlnumber) :
    Consistent bowlcount
      ((s.setCount (s.count animal + 1) animal).setBowl ((party i).loc.bowlnumber - 1)
        animal.letter) (update party i ⟨call, .pause :: animal.finish⟩) := by
  have busy : (party i).todo ≠ [] := by
    rw [place]
    cases animal <;> simp [Animal.eat, catEat, mouseEat, startSection]
  have notEating : ∀ other, eating other (party i) = false := by
    intro other
    rw [show party i = ⟨(party i).loc, animal.eat⟩ by rw [← place]]
    exact eating_eat
  refine ⟨by simpa using consistent.numBowls_eq, fun j => ?_, ?_, ?_⟩
  · have inside := consistent.valid busy
    rcases consistent.placed i with idle | ⟨low, high, _⟩
    · exact absurd idle busy
    · have here : Placed s.numBowls ⟨call, .pause :: animal.finish⟩ :=
        Or.inr ⟨by simpa [sameBowl] using low, by simpa [sameBowl] using high, animal,
          Or.inr (Or.inl rfl)⟩
      simpa using consistent.placed_update here j
  · apply consistent.counts.move animal 1 (consistent.valid busy) ?_ ?_ nobody
    · intro other
      rw [notEating other, eating_pause]
      by_cases same : other = animal <;> simp [same]
    · intro other
      rw [empty, beq_false_of_ne other.letter_ne, Animal.letter_beq]
      by_cases same : other = animal <;> simp [same]
  · have unchanged : Marks (s.setCount (s.count animal + 1) animal) party :=
      ⟨by simpa using consistent.marks.used, consistent.marks.apart,
        by simpa using consistent.marks.letters⟩
    apply unchanged.move
    · intro other eats
      rw [eating_pause, decide_eq_true_iff] at eats
      exact ⟨by rw [sameBowl], by rw [eats]⟩
    · intro j other _ eats taken
      have used := consistent.marks.used j other eats
      rw [taken, empty] at used
      exact other.letter_ne used
    · exact Or.inr ⟨animal, rfl⟩

theorem finish (consistent : Consistent bowlcount s party)
    (place : (party i).todo = animal.finish) :
    Consistent bowlcount
      ((s.setCount (s.count animal - 1) animal).setBowl ((party i).loc.bowlnumber - 1) '-')
      (update party i ⟨call, []⟩) := by
  have busy : (party i).todo ≠ [] := by
    rw [place]
    cases animal <;> simp [Animal.finish, catFinish, mouseFinish]
  have eats : ∀ other, eating other (party i) = decide (other = animal) := fun other =>
    eating_of_todo (Or.inr place)
  have used := consistent.marks.used i animal (by simp [eats])
  refine ⟨by simpa using consistent.numBowls_eq, fun j => ?_, ?_, ?_⟩
  · have gone : Placed s.numBowls ⟨call, []⟩ := Or.inl rfl
    simpa using consistent.placed_update gone j
  · apply consistent.counts.move animal (-1) (consistent.valid busy)
    · intro other
      rw [eats other, eating_nil]
      by_cases same : other = animal <;> simp [same]
    · intro other
      rw [used, beq_false_of_ne other.letter_ne, Animal.letter_beq]
      by_cases same : other = animal <;> simp [same]
    · have positive : 0 < s.count animal := consistent.eating_pos (i := i) (by simp [eats])
      rcases consistent.counts.oneKind with none | none <;> cases animal <;>
        simp_all [Animal.other, Simulation.count]
  · have unchanged : Marks (s.setCount (s.count animal - 1) animal) party :=
      ⟨by simpa using consistent.marks.used, consistent.marks.apart,
        by simpa using consistent.marks.letters⟩
    apply unchanged.move
    · intro other eats
      simp at eats
    · intro j other different eats' taken
      exact consistent.marks.apart j i other animal different eats' (by simp [eats]) taken
    · exact Or.inl rfl

theorem pass (consistent : Consistent bowlcount s party) {next : Party Call Stmt}
    (place : Placed s.numBowls next) (same : ∀ other, eating other next = eating other (party i))
    (stays : ∀ other, eating other next = true → next.loc.bowlnumber = (party i).loc.bowlnumber) :
    Consistent bowlcount s (update party i next) := by
  have tallies : ∀ other,
      tally (update party i next) (eating other) = tally party (eating other) := by
    intro other
    have moved := tally_move party (eating other) i next
    rw [same other] at moved
    omega
  -- Whoever eats now was eating before, at the same bowl.
  have eats : ∀ j other, eating other (update party i next j) = true →
      eating other (party j) = true ∧
        (update party i next j).loc.bowlnumber = (party j).loc.bowlnumber := by
    intro j other eats
    by_cases here : j = i
    · subst here
      rw [update_self] at eats ⊢
      exact ⟨(same other) ▸ eats, stays other eats⟩
    · rw [update_of_ne here] at eats ⊢
      exact ⟨eats, rfl⟩
  refine ⟨consistent.numBowls_eq, consistent.placed_update place, ⟨?_, ?_, ?_⟩, ⟨?_, ?_, ?_⟩⟩
  · intro other
    rw [tallies, consistent.counts.counted]
  · intro other
    rw [tallies, consistent.counts.entered]
  · exact consistent.counts.oneKind
  · intro j other now
    rw [(eats j other now).2]
    exact consistent.marks.used j other (eats j other now).1
  · intro j k first second different now now'
    rw [(eats j first now).2, (eats k second now').2]
    exact consistent.marks.apart j k first second different (eats j first now).1
      (eats k second now').1
  · exact consistent.marks.letters

omit [DecidableEq ι] in
theorem print (consistent : Consistent bowlcount s party) (lines : List String) :
    Consistent bowlcount { s with printed := lines } party := by
  refine ⟨consistent.numBowls_eq, consistent.placed, ⟨?_, consistent.counts.entered, ?_⟩,
    ⟨consistent.marks.used, consistent.marks.apart, consistent.marks.letters⟩⟩
  · intro animal
    rw [← consistent.counts.counted animal]
    cases animal <;> rfl
  · exact consistent.counts.oneKind

end Consistent

/-! ## The sections -/

section Sections

variable {ι : Type} [Fintype ι] [DecidableEq ι] {s : Simulation} {party : ι → Party Call Stmt}
  {i : ι} {animal : Animal} {bowlcount : Nat}

/-- The first section restores the relation, or one of the two rules is violated. -/
theorem start_restores (consistent : Consistent bowlcount s party)
    (place : (party i).todo = animal.eat) :
    Restores Stmt.exec (guarantee ι bowlcount) s party i
      ((startSection animal).tail ++ .pause :: animal.finish) := by
  have busy : (party i).todo ≠ [] := by
    rw [place]
    cases animal <;> simp [Animal.eat, catEat, mouseEat, startSection]
  simp only [Restores, startSection, List.tail_cons, cons_append, List.nil_append,
    runSection, Stmt.exec, ensures_bind, ensures_get]
  apply ensures_branch
  · intro _
    exact Or.inl rfl
  intro notSame
  rw [ensures_pure]
  apply ensures_branch
  · intro _
    exact Or.inr rfl
  intro notOther
  rcases consistent.free busy notSame notOther with ⟨empty, nobody, fits⟩
  rw [ensures_pure, ensures_assert_of empty, ensures_assert_of nobody]
  simp only [ensures_modify, fits, ensures_pure]
  have started : ∀ register, Consistent bowlcount _ (update party i
      ⟨{ (party i).loc with register }, .pause :: animal.finish⟩) := fun register =>
    consistent.start place empty nobody rfl
  split_ifs
  · exact (started _).print _
  · exact started _

omit [DecidableEq ι] in
/-- What is true of an animal before its second section. -/
theorem Consistent.eats (consistent : Consistent bowlcount s party)
    (place : (party i).todo = animal.finish) :
    0 < s.count animal ∧ s.bowls ((party i).loc.bowlnumber - 1) = animal.letter ∧
      int32 (s.count animal + -1) = s.count animal - 1 := by
  have eats : eating animal (party i) = true := by
    simp [eating_of_todo (Or.inr place)]
  have positive := consistent.eating_pos eats
  have few : s.entries animal ≤ s.numBowls.toNat := by
    simpa [Simulation.entries] using
      tally_le_card (fun bowl : Fin s.numBowls.toNat => s.bowls bowl) _
  rw [consistent.counts.entered] at few
  refine ⟨positive, consistent.marks.used i animal eats, ?_⟩
  rw [consistent.counts.counted] at positive ⊢
  have numBowls_lt := consistent.numBowls_lt
  exact int32_eq (by omega) (by omega)

theorem catFinish_restores (consistent : Consistent bowlcount s party)
    (place : (party i).todo = catFinish) :
    Restores Stmt.exec (guarantee ι bowlcount) s party i catFinish.tail := by
  have place : (party i).todo = Animal.cat.finish := place
  rcases consistent.eats place with ⟨positive, used, fits⟩
  have finished : ∀ register, Consistent bowlcount _
      (update party i ⟨{ (party i).loc with register }, []⟩) := fun register =>
    consistent.finish place
  have used : s.bowls ((party i).loc.bowlnumber - 1) = 'c' := used
  simp only [Restores, catFinish, List.tail_cons, runSection, Stmt.exec, ensures_bind, ensures_get]
  rw [ensures_assert_of positive, ensures_assert_of used]
  simp only [ensures_modify, fits, ensures_pure]
  split_ifs
  · exact (finished _).print _
  · exact finished _

theorem mouseFinish_restores (consistent : Consistent bowlcount s party)
    (place : (party i).todo = mouseFinish) :
    Restores Stmt.exec (guarantee ι bowlcount) s party i mouseFinish.tail := by
  have place : (party i).todo = Animal.mouse.finish := place
  rcases consistent.eats place with ⟨positive, used, fits⟩
  have finished : ∀ register, Consistent bowlcount _
      (update party i ⟨{ (party i).loc with register }, []⟩) := fun register =>
    consistent.finish place
  have used : s.bowls ((party i).loc.bowlnumber - 1) = 'm' := used
  simp only [Restores, mouseFinish, List.tail_cons,
    runSection, Stmt.exec, ensures_bind, ensures_get]
  rw [ensures_assert_of positive]
  simp only [ensures_modify, fits]
  rw [ensures_assert_of (by simpa using used)]
  simp only [ensures_pure]
  split_ifs
  · exact (finished _).print _
  · exact finished _

theorem verified : Verified Stmt.exec (guarantee ι bowlcount) := by
  refine ⟨?_, ?_⟩
  · intro shared party i rest consistent next
    rcases consistent.placed i with idle | ⟨low, high, animal, before | paused | after⟩
    · simp [idle] at next
    · rw [before] at next
      cases animal <;> exact absurd next (by simp [Animal.eat, catEat, mouseEat, startSection])
    · have code : rest = animal.finish := (List.cons.inj (next.symm.trans paused)).2
      subst code
      apply consistent.pass
      · exact Or.inr ⟨low, high, animal, Or.inr (Or.inr rfl)⟩
      · intro other
        rw [eating_of_todo (Or.inl paused), eating_finish]
      · intro other _
        rfl
    · rw [after] at next
      cases animal <;> exact absurd next (by simp [Animal.finish, catFinish, mouseFinish])
  · intro shared party i rest consistent next
    rcases consistent.placed i with idle | ⟨_, _, animal, before | paused | after⟩
    · simp [idle] at next
    · have code : rest = (startSection animal).tail ++ .pause :: animal.finish := by
        rw [before] at next
        cases animal <;> exact (List.cons.inj next).2.symm
      rw [code]
      exact start_restores consistent before
    · simp [paused] at next
    · cases animal with
      | cat =>
          rw [after] at next
          rw [← (List.cons.inj next).2]
          exact catFinish_restores consistent after
      | mouse =>
          rw [after] at next
          rw [← (List.cons.inj next).2]
          exact mouseFinish_restores consistent after

end Sections

/-! ## Every run -/

section Runs

variable {ι : Type} [Fintype ι] [DecidableEq ι] {s : World ι} {bowlcount : Nat}

theorem initializeBowls_ok {heap heap' : KHeap} {simulation : Simulation}
    (made : initializeBowls bowlcount heap = .ok (.ok (some simulation), heap')) :
    simulation.numBowls = int32 bowlcount ∧ (∀ i < bowlcount, simulation.bowls i = '-') ∧
      ∀ animal, simulation.count animal = 0 := by
  rw [initializeBowls] at made
  split at made
  · cases made
  · rcases bind_eq_ok_iff.mp made with ⟨bowls, _, _, rest⟩
    split at rest
    · rcases bind_eq_ok_iff.mp rest with ⟨mutex, _, _, last⟩
      split at last
      · cases last
        refine ⟨by simp only, fun i inside => if_pos inside, fun animal => ?_⟩
        cases animal <;> rfl
      · cases last
    · cases rest

theorem Initial.protected (initial : Initial bowlcount s) :
    Protected Stmt.exec (guarantee ι bowlcount) s := by
  rcases initial with ⟨heap, heap', simulation, made, rfl⟩
  rcases initializeBowls_ok made with ⟨numBowls, empty, nobody⟩
  -- When the count does not fit, there are fewer bowls than there is memory for.
  have blank : ∀ bowl : Nat, (bowl : Int) < simulation.numBowls → simulation.bowls bowl = '-' := by
    intro bowl inside
    apply empty
    by_cases fits : bowlcount < 2 ^ 31
    · rw [numBowls, int32_eq (by omega) (by omega)] at inside
      omega
    · have := int32_lt bowlcount
      omega
  have alone : ∀ animal, tally (resting simulation : World ι).party (eating animal) = 0 :=
    fun animal => tally_eq_zero fun _ => eating_nil
  refine Or.inl ⟨rfl, fun _ => rfl, numBowls, fun _ => Or.inl rfl, ⟨?_, ?_, ?_⟩, ⟨?_, ?_, ?_⟩⟩
  · intro animal
    rw [alone]
    exact nobody animal
  · intro animal
    rw [alone]
    apply tally_eq_zero
    intro bowl
    apply beq_false_of_ne
    exact (blank bowl (Int.lt_toNat.mp bowl.isLt)).trans_ne animal.letter_ne
  · exact Or.inl (nobody .cat)
  · intro i animal eats
    simp [resting] at eats
  · intro i j animal other _ eats
    simp [resting] at eats
  · intro bowl inside
    exact Or.inl (blank bowl inside)

theorem Stmt.exec_numBowls (statement : Stmt) (shared : Simulation) (call : Call)
    (known : shared.numBowls = int32 bowlcount) :
    Ensures statement.exec (shared, call) (fun _ => True)
      (fun _ part => part.1.numBowls = int32 bowlcount)
      (fun _ part => part.1.numBowls = int32 bowlcount) := by
  cases statement with
  | panicIfBowl | panicIfEating =>
      apply ensures_branch
      · intro _
        trivial
      · intro _
        exact known
  | assertBowl | assertNone | assertSome =>
      rw [exec, ensures_bind, ensures_get, ensures_assert]
      split_ifs
      · exact known
  | load => exact known
  | store => simpa [exec, ensures_modify] using known
  | setBowl => exact known
  | print =>
      rw [exec, ensures_modify]
      split_ifs <;> exact known

/-- No step of a call panics for another reason than the rules. -/
theorem EatOp.exec_protected (prot : Protected Stmt.exec (guarantee ι bowlcount) s) (op : EatOp ι)
    (known : s.shared.numBowls = int32 bowlcount) (enabled : op.Enabled s) :
    Ensures op.exec s (guarantee ι bowlcount).Allowed (fun _ _ => False)
      (fun _ s' => Protected Stmt.exec (guarantee ι bowlcount) s') := by
  cases op with
  | run i => exact step_protected verified prot i
  | call i animal bowlnumber debug =>
      rcases enabled with ⟨idle, low, high⟩
      rw [known] at high
      have numBowls_lt := int32_lt bowlcount
      have fits : int32 bowlnumber = bowlnumber := int32_eq (by omega) (by omega)
      have valid : ¬(bowlnumber = 0 ∨ s.shared.numBowls < int32 bowlnumber) := by
        rw [fits, known]
        omega
      simp only [EatOp.exec, ensures_bind, ensures_get, if_neg valid, ensures_modify]
      apply move_protected prot idle
      · cases animal <;> simp [Party.Outside, Bracketed, Animal.eat, catEat, mouseEat,
          startSection, catFinish, mouseFinish]
      · intro shared others consistent away
        have nobody : others i = ⟨(others i).loc, []⟩ := by rw [← away]
        apply Consistent.pass consistent
        · exact Or.inr ⟨low, consistent.numBowls_eq ▸ high, animal, Or.inl rfl⟩
        · intro other
          rw [nobody, eating_eat, eating_nil]
        · intro other eats
          simp at eats

omit [Fintype ι] in
theorem EatOp.exec_numBowls (known : s.shared.numBowls = int32 bowlcount) (op : EatOp ι) :
    Ensures op.exec s (fun _ => True) (fun _ s' => s'.shared.numBowls = int32 bowlcount)
      (fun _ s' => s'.shared.numBowls = int32 bowlcount) := by
  cases op with
  | run i =>
      exact step_keeps (P := fun s : Simulation => s.numBowls = int32 bowlcount) known i
        Stmt.exec_numBowls
  | call i animal bowlnumber debug =>
      rw [EatOp.exec, ensures_bind, ensures_get]
      apply ensures_branch
      · intro _
        trivial
      · intro _
        exact known

omit [Fintype ι] in
theorem reachable_numBowls (reachable : (machine ι).Reachable (Initial bowlcount) s) :
    s.shared.numBowls = int32 bowlcount := by
  apply reachable.invariant
  · rintro s ⟨heap, heap', simulation, made, rfl⟩
    exact (initializeBowls_ok made).1
  · intro s op _ _ _ known
    exact op.exec_numBowls known

theorem reachable_protected (reachable : (machine ι).Reachable (Initial bowlcount) s) :
    Protected Stmt.exec (guarantee ι bowlcount) s := by
  apply reachable.invariant
  · intro s initial
    exact initial.protected
  · intro s op _ reachable enabled prot
    exact (EatOp.exec_protected prot op (reachable_numBowls reachable) enabled).mono
      (fun _ _ => trivial) (fun _ _ => False.elim) (fun _ _ => id)

end Runs

/-- In every state that any calls of any animals reach, while nobody is in a section, the counters
are the numbers of entries and of animals that are eating, cats and mice do not eat at the same
time, and two animals eat from different bowls. In no reachable state does a step of a call fail
an assertion: it can only violate one of the two rules. -/
theorem bowls_consistent {ι : Type} [Fintype ι] [DecidableEq ι] {s : World ι} {bowlcount : Nat}
    (reachable : (machine ι).Reachable (Initial bowlcount) s) :
    ((∀ i, ¬(s.party i).Inside) →
      (∀ animal, s.shared.count animal = s.shared.entries animal ∧
        s.shared.count animal = tally s.party (eating animal)) ∧
      ¬(0 < s.shared.eatingCatsCount ∧ 0 < s.shared.eatingMiceCount) ∧
      ∀ i j animal other, i ≠ j → eating animal (s.party i) = true →
        eating other (s.party j) = true →
        (s.party i).loc.bowlnumber ≠ (s.party j).loc.bowlnumber) ∧
    ∀ (op : EatOp ι) (reason : Panic), op.Enabled s → op.exec s = .error reason →
      reason = .eatSameBowl ∨ reason = .eatOthersEating := by
  have prot := reachable_protected reachable
  refine ⟨?_, ?_⟩
  · intro nobody
    have consistent : Consistent bowlcount s.shared s.party := prot.holds nobody
    refine ⟨fun animal => ⟨?_, consistent.counts.counted animal⟩, ?_, ?_⟩
    · rw [consistent.counts.counted, consistent.counts.entered]
    · rintro ⟨cats, mice⟩
      rcases consistent.counts.oneKind with none | none
      · exact cats.ne' none
      · exact mice.ne' none
    · intro i j animal other different eats eats' same
      exact consistent.marks.apart i j animal other different eats eats' (by rw [same])
  · intro op reason enabled panics
    exact (ensures_of_halt_eq panics).mp
      (EatOp.exec_protected prot op (reachable_numBowls reachable) enabled)

/-- Two cats have started to eat from bowls 1 and 3. -/
theorem bowls_consistent_two_cats : ∃ s : World (Fin 2),
    (machine (Fin 2)).Reachable (Initial 3) s ∧ s.shared.eatingCatsCount = 2 ∧
      s.shared.entries .cat = 2 ∧ (s.party 0).loc.bowlnumber ≠ (s.party 1).loc.bowlnumber := by
  have computed : (((initializeBowls 3).returned enoughMemory).any fun made =>
      made.1.any fun simulation =>
        ((machine (Fin 2)).execute (resting simulation)
          ((.call 0 .cat 1 0, ()) :: List.replicate 10 (.run 0, ()) ++
            (.call 1 .cat 3 0, ()) :: List.replicate 10 (.run 1, ()))).any fun s =>
          s.shared.eatingCatsCount == 2 && eating .cat (s.party 0) && eating .cat (s.party 1)) =
      true := by
    decide +kernel
  rcases (any_eq_true _ _).mp computed with ⟨⟨made, heap'⟩, initialized, run⟩
  rcases (any_eq_true _ _).mp run with ⟨simulation, rfl, steps⟩
  rcases (any_eq_true _ _).mp steps with ⟨s, executed, facts⟩
  simp only [Bool.and_eq_true, beq_iff_eq] at facts
  rcases facts with ⟨⟨two, first⟩, second⟩
  have starts : Initial 3 (resting simulation : World (Fin 2)) :=
    ⟨enoughMemory, heap', simulation, Prog.returned_eq_some.mp initialized, rfl⟩
  have reachable := (Machine.Reachable.start starts).execute executed
  have nobody : ∀ i, ¬(s.party i).Inside :=
    Fin.forall_fin_two.mpr ⟨not_inside_of_eating first, not_inside_of_eating second⟩
  rcases (bowls_consistent reachable).1 nobody with ⟨counts, _, apart⟩
  refine ⟨s, reachable, two, ?_, apart 0 1 .cat .cat (by decide) first second⟩
  have entries := (counts .cat).1
  rw [show s.shared.count .cat = 2 from two] at entries
  omega

end Bowls

end Os161
