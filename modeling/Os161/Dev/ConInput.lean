import Os161.Kern.Base
import Os161.Lib.Machine
import Os161.Lib.Tally

/-!
# Console input

`getch` and `con_input` of `console.c`, as they are used by several threads and by the
interrupt handler of the serial port. A step is what happens between two points at
which another thread or an interrupt can come: one turn of the loop in `P`, or the rest
of a call. A thread that finds no unit of the semaphore sleeps, and its next step is
another turn.

There is one cell, `cs_gotchar`, and a semaphore that counts. A character that comes
while the one before it has not been taken replaces it but still adds a unit, so that it
is returned twice.
-/

namespace Os161

open List

attribute [local irreducible] int32

/-- Where a thread is in `getch`: `waiting` in `P`, `granted` behind it. -/
inductive GetchPhase where
  | idle
  | waiting
  | granted
  deriving DecidableEq

/-- The part of `struct con_softc` that `getch` uses, and the threads. The characters that were
passed to `con_input` and those that `getch` returned are ghosts. -/
structure ConInput (ι : Type) where
  csRsem : Nat
  csGotchar : Int
  phase : ι → GetchPhase
  delivered : List Int
  returned : List Int

abbrev ConInputM (ι : Type) := Prog Panic (ConInput ι) Errno

namespace ConInput

variable {ι : Type} [DecidableEq ι]

def moveTo (s : ConInput ι) (t : ι) (phase : GetchPhase) : ConInput ι :=
  { s with phase := Function.update s.phase t phase }

/-- `con_input`. -/
def conInput (ch : Int) : ConInputM ι Unit := do
  modify fun s => { s with csGotchar := ch, delivered := s.delivered ++ [ch] }
  let s ← get
  assert .semCount (0 < int32 (s.csRsem + 1))
  modify fun s => { s with csRsem := s.csRsem + 1 }

/-- `getch`, up to `P`; there is a console. -/
def getch (t : ι) (inInterrupt : Bool) (curspl : Nat) : ConInputM ι Unit := do
  assert .getchSpl (inInterrupt = false ∧ curspl = 0)
  modify fun s => s.moveTo t .waiting

/-- `getch_intr`, one step. -/
def getchIntr (t : ι) : ConInputM ι Unit := do
  let s ← get
  match s.phase t with
  | .idle => pure ()
  | .waiting =>
      if s.csRsem = 0 then
        pure ()
      else
        modify fun s => { s.moveTo t .granted with csRsem := s.csRsem - 1 }
  | .granted =>
      modify fun s => { s.moveTo t .idle with returned := s.returned ++ [s.csGotchar] }

end ConInput

/-- What can happen to the input: an interrupt with a character, a call, or a step of one. -/
inductive InputOp (ι : Type) where
  | input (ch : Int)
  | getch (t : ι) (inInterrupt : Bool) (curspl : Nat)
  | run (t : ι)

namespace InputOp

variable {ι : Type} [DecidableEq ι]

def exec : InputOp ι → ConInputM ι Unit
  | .input ch => ConInput.conInput ch
  | .getch t inInterrupt curspl => ConInput.getch t inInterrupt curspl
  | .run t => ConInput.getchIntr t

def Enabled (s : ConInput ι) : InputOp ι → Prop
  | .input _ => True
  | .getch t _ _ => s.phase t = .idle
  | .run t => s.phase t ≠ .idle

instance (s : ConInput ι) (operation : InputOp ι) : Decidable (operation.Enabled s) :=
  match operation with
  | .input _ => inferInstanceAs (Decidable True)
  | .getch t _ _ => inferInstanceAs (Decidable (s.phase t = .idle))
  | .run t => inferInstanceAs (Decidable (s.phase t ≠ .idle))

end InputOp

namespace ConInput

def machine (ι : Type) [DecidableEq ι] : Machine Panic (ConInput ι) Errno (InputOp ι) Unit where
  exec := InputOp.exec
  Enabled := fun operation s => operation.Enabled s
  arm := fun s _ => s

/-- `config_con`. -/
def initial (ι : Type) : ConInput ι where
  csRsem := 0
  csGotchar := 0
  phase _ := .idle
  delivered := []
  returned := []

/-! ## The steps -/

section Steps

variable {ι : Type} (s : ConInput ι)

/-- The state after `con_input`. -/
def inputs (ch : Int) : ConInput ι :=
  { s with
    csRsem := s.csRsem + 1
    csGotchar := ch
    delivered := s.delivered ++ [ch] }

theorem conInput_spec (ch : Int) :
    Ensures (conInput ch) s (fun reason => reason = .semCount) (fun _ _ => False)
      (fun _ s' => s' = s.inputs ch) := by
  rw [conInput, ensures_bind, ensures_modify, ensures_bind, ensures_get]
  exact ensures_assert_then (fun _ => rfl) fun _ => rfl

variable [DecidableEq ι] (t : ι)

def takes : ConInput ι :=
  { s.moveTo t .granted with csRsem := s.csRsem - 1 }

def returns : ConInput ι :=
  { s.moveTo t .idle with returned := s.returned ++ [s.csGotchar] }

theorem getch_spec (inInterrupt : Bool) (curspl : Nat) :
    Ensures (getch t inInterrupt curspl) s (fun _ => True) (fun _ _ => False)
      (fun _ s' => s' = s.moveTo t .waiting) := by
  rw [getch]
  exact ensures_assert_then (fun _ => trivial) fun _ => rfl

/-- A step of a call changes nothing, takes a unit or returns what is in the cell. -/
theorem getchIntr_spec :
    Ensures (getchIntr t) s (fun _ => False) (fun _ _ => False)
      (fun _ s' => s' = s ∨ (s.phase t = .waiting ∧ 0 < s.csRsem ∧ s' = s.takes t) ∨
        (s.phase t = .granted ∧ s' = s.returns t)) := by
  rw [getchIntr, ensures_bind, ensures_get]
  cases place : s.phase t with
  | idle => exact Or.inl rfl
  | waiting =>
      apply ensures_branch
      · exact fun _ => Or.inl rfl
      · intro positive
        exact Or.inr (Or.inl ⟨rfl, Nat.pos_of_ne_zero positive, rfl⟩)
  | granted => exact Or.inr (Or.inr ⟨rfl, rfl⟩)

end Steps

/-! ## Units -/

section Units

variable {ι : Type} [Fintype ι] (s : ConInput ι)

/-- How often the cell will still be read for what has been delivered so far. -/
def unread : Nat :=
  s.csRsem + tally s.phase (· == .granted)

/-- The cell has been read as often as it was written, or holds the same character anyway. -/
def Timely (ch : Int) : Prop :=
  s.unread = 0 ∨ ch = s.csGotchar

instance (ch : Int) : Decidable (s.Timely ch) :=
  inferInstanceAs (Decidable (_ ∨ _))

/-- What has been returned, and the character in the cell for each unit that is left. -/
def InOrder : Prop :=
  s.delivered = s.returned ++ List.replicate s.unread s.csGotchar

variable {s}

theorem unread_inputs (ch : Int) : (s.inputs ch).unread = s.unread + 1 := by
  simp only [unread, inputs]
  omega

theorem InOrder.inputs (ordered : s.InOrder) {ch : Int} (timely : s.Timely ch) :
    (s.inputs ch).InOrder := by
  have ordered : s.delivered = s.returned ++ replicate s.unread s.csGotchar := ordered
  rw [InOrder, unread_inputs, replicate_succ', ← append_assoc]
  change s.delivered ++ [ch] = s.returned ++ replicate s.unread ch ++ [ch]
  rcases timely with none | same
  · rw [ordered, none]
    rfl
  · rw [same, ← ordered]

theorem inOrder_initial : (initial ι).InOrder := by
  have nobody : tally (initial ι).phase (· == .granted) = 0 := tally_eq_zero fun _ => rfl
  rw [InOrder, unread, nobody]
  rfl

theorem InOrder.sublist (ordered : s.InOrder) : s.returned.Sublist s.delivered := by
  rw [show s.delivered = _ from ordered]
  exact sublist_append_left _ _

variable [DecidableEq ι] {t : ι}

theorem unread_moveTo (s : ConInput ι) (t : ι) (phase : GetchPhase) :
    (s.moveTo t phase).unread + (s.phase t == .granted).toNat =
      s.unread + (phase == .granted).toNat := by
  have moved := tally_move s.phase (· == .granted) t phase
  simp only [unread, moveTo]
  omega

theorem unread_waits (idle : s.phase t = .idle) : (s.moveTo t .waiting).unread = s.unread := by
  have moved := s.unread_moveTo t .waiting
  rw [idle] at moved
  exact moved

theorem unread_takes (waiting : s.phase t = .waiting) (positive : 0 < s.csRsem) :
    (s.takes t).unread = s.unread := by
  have moved := s.unread_moveTo t .granted
  simp only [waiting, unread, takes, moveTo] at moved ⊢
  change _ + 0 = _ + 1 at moved
  omega

theorem unread_returns (granted : s.phase t = .granted) : (s.returns t).unread + 1 = s.unread := by
  have moved := s.unread_moveTo t .idle
  rw [granted] at moved
  exact moved

theorem InOrder.waits (ordered : s.InOrder) (idle : s.phase t = .idle) :
    (s.moveTo t .waiting).InOrder := by
  rw [InOrder, unread_waits idle]
  exact ordered

theorem InOrder.takes (ordered : s.InOrder) (waiting : s.phase t = .waiting)
    (positive : 0 < s.csRsem) : (s.takes t).InOrder := by
  rw [InOrder, unread_takes waiting positive]
  exact ordered

theorem InOrder.returns (ordered : s.InOrder) (granted : s.phase t = .granted) :
    (s.returns t).InOrder := by
  have ordered : s.delivered = s.returned ++ replicate s.unread s.csGotchar := ordered
  rw [← unread_returns granted, replicate_succ] at ordered
  change s.delivered = s.returned ++ [s.csGotchar] ++ _
  rw [append_assoc]
  exact ordered

end Units

/-! ## Runs -/

section Runs

variable {ι : Type} [Fintype ι] [DecidableEq ι] {s : ConInput ι}

def InTime (s : ConInput ι) : InputOp ι → Prop
  | .input ch => s.Timely ch
  | _ => True

def timelyMachine (ι : Type) [Fintype ι] [DecidableEq ι] :
    Machine Panic (ConInput ι) Errno (InputOp ι) Unit where
  exec := InputOp.exec
  Enabled := fun operation s => operation.Enabled s ∧ s.InTime operation
  arm := fun s _ => s

theorem inOrder_of_reachable (reachable : (timelyMachine ι).Reachable (· = initial ι) s) :
    s.InOrder := by
  apply reachable.invariant
  · rintro _ rfl
    exact inOrder_initial
  · rintro between operation ⟨⟩ _ ⟨enabled, timely⟩ ordered
    cases operation with
    | input ch =>
        apply (conInput_spec between ch).returning
        rintro _ _ rfl
        exact ordered.inputs timely
    | getch t inInterrupt curspl =>
        apply (getch_spec between t inInterrupt curspl).returning
        rintro _ _ rfl
        exact ordered.waits enabled
    | run t =>
        apply (getchIntr_spec between t).total
        rintro _ _ (rfl | ⟨waiting, positive, rfl⟩ | ⟨granted, rfl⟩)
        · exact ordered
        · exact ordered.takes waiting positive
        · exact ordered.returns granted

/-- The continuations of a run in which the characters come in time. -/
abbrev Continues (ι : Type) [Fintype ι] [DecidableEq ι] : ConInput ι → ConInput ι → Prop :=
  Relation.ReflTransGen (timelyMachine ι).Step

theorem continues_getch {t : ι} (idle : s.phase t = .idle) :
    Continues ι s (s.moveTo t .waiting) := by
  refine .single ⟨.getch t false 0, ⟨idle, trivial⟩, (), .ok (), ?_⟩
  rfl

theorem continues_takes {t : ι} (waiting : s.phase t = .waiting) (positive : 0 < s.csRsem) :
    Continues ι s (s.takes t) := by
  refine .single ⟨.run t, ⟨?_, trivial⟩, (), .ok (), ?_⟩
  · change s.phase t ≠ .idle
    rw [waiting]
    exact nofun
  · change getchIntr t s = _
    apply eq_ok_of_ensures
    rw [getchIntr, ensures_bind, ensures_get, waiting]
    simp only [Nat.ne_of_gt positive, if_false, ensures_modify]
    exact ⟨trivial, rfl⟩

theorem continues_returns {t : ι} (granted : s.phase t = .granted) :
    Continues ι s (s.returns t) := by
  refine .single ⟨.run t, ⟨?_, trivial⟩, (), .ok (), ?_⟩
  · change s.phase t ≠ .idle
    rw [granted]
    exact nofun
  · change getchIntr t s = _
    apply eq_ok_of_ensures
    rw [getchIntr, ensures_bind, ensures_get, granted]
    exact ⟨rfl, rfl⟩

/-- One more unit is turned into one more character. -/
def Drained (s s' : ConInput ι) : Prop :=
  s'.unread + 1 = s.unread ∧ s'.csGotchar = s.csGotchar ∧ s'.delivered = s.delivered ∧
    s'.returned = s.returned ++ [s.csGotchar]

theorem drained_returns {t : ι} (granted : s.phase t = .granted) : Drained s (s.returns t) :=
  ⟨unread_returns granted, rfl, rfl, rfl⟩

theorem drain_waiting {t : ι} (waiting : s.phase t = .waiting) (positive : 0 < s.csRsem) :
    ∃ s', Continues ι s s' ∧ Drained s s' := by
  have granted : (s.takes t).phase t = .granted := update_self ..
  rcases drained_returns granted with ⟨fewer, rest⟩
  refine ⟨_, (continues_takes waiting positive).trans (continues_returns granted), ?_, rest⟩
  rw [fewer, unread_takes waiting positive]

/-- As long as units are left, a thread can take one of them. -/
theorem drain (t : ι) (left : 0 < s.unread) : ∃ s', Continues ι s s' ∧ Drained s s' := by
  by_cases behind : ∃ u, s.phase u = .granted
  · rcases behind with ⟨u, granted⟩
    exact ⟨_, continues_returns granted, drained_returns granted⟩
  · have nobody : tally s.phase (· == .granted) = 0 := by
      apply tally_eq_zero
      intro u
      simpa using fun granted => behind ⟨u, granted⟩
    have positive : 0 < s.csRsem := by
      rw [unread, nobody] at left
      exact left
    cases place : s.phase t with
    | idle =>
        have waiting : (s.moveTo t .waiting).phase t = .waiting := update_self ..
        rcases drain_waiting waiting positive with ⟨s', continues, fewer, rest⟩
        refine ⟨s', (continues_getch place).trans continues, ?_, rest⟩
        rw [fewer, unread_waits place]
    | waiting => exact drain_waiting place positive
    | granted => exact absurd ⟨t, place⟩ behind

theorem drain_all (t : ι) (s : ConInput ι) :
    ∃ s', Continues ι s s' ∧ s'.delivered = s.delivered ∧
      s'.returned = s.returned ++ replicate s.unread s.csGotchar := by
  generalize isLeft : s.unread = left
  induction left generalizing s with
  | zero => exact ⟨s, .refl, rfl, by simp⟩
  | succ left ih =>
      rcases drain t (by omega : 0 < s.unread) with ⟨s₁, first, fewer, cell, same, more⟩
      rcases ih s₁ (by omega) with ⟨s₂, rest, same', more'⟩
      refine ⟨s₂, first.trans rest, same'.trans same, ?_⟩
      rw [more', more, cell, append_assoc, replicate_succ]
      rfl

/-- Once all units are used up as much has been returned as was delivered. -/
theorem timely_of_sublist (t : ι) {ch : Int} (ordered : s.InOrder)
    (sublist : ∀ s', Continues ι (s.inputs ch) s' → s'.returned.Sublist s'.delivered) :
    s.Timely ch := by
  have ordered : s.delivered = s.returned ++ replicate s.unread s.csGotchar := ordered
  rcases drain_all t (s.inputs ch) with ⟨s', continues, delivered, returned⟩
  have sublist := sublist s' continues
  have delivered : s'.delivered = s.returned ++ (replicate s.unread s.csGotchar ++ [ch]) := by
    rw [delivered, ← append_assoc, ← ordered]
    rfl
  have returned : s'.returned = s.returned ++ (replicate s.unread ch ++ [ch]) := by
    rw [returned, unread_inputs, replicate_succ']
    rfl
  rw [delivered, returned] at sublist
  have same := append_cancel_left (sublist.eq_of_length (by simp))
  have same := append_cancel_right same
  rcases Nat.eq_zero_or_pos s.unread with none | some
  · exact Or.inl none
  · refine Or.inr (eq_of_mem_replicate (n := s.unread) ?_)
    rw [← same]
    exact mem_replicate.mpr ⟨Nat.ne_of_gt some, rfl⟩

/-- In every run in which the characters come in time, `getch` returns a subsequence of what was
delivered; and after a character that is delivered at the end of such a run it does so in every
continuation exactly if that character came in time. -/
theorem getch_in_order_iff (t : ι) :
    (∀ s : ConInput ι, (timelyMachine ι).Reachable (· = initial ι) s →
      s.returned.Sublist s.delivered) ∧
    ∀ (s s₁ : ConInput ι) (ch : Int), (timelyMachine ι).Reachable (· = initial ι) s →
      conInput ch s = .ok (.ok (), s₁) →
      ((∀ s', Continues ι s₁ s' → s'.returned.Sublist s'.delivered) ↔ s.Timely ch) := by
  refine ⟨fun s reachable => (inOrder_of_reachable reachable).sublist, ?_⟩
  intro s s₁ ch reachable delivered
  have isInputs : s₁ = s.inputs ch := (ensures_of_ok_eq delivered).mp (s.conInput_spec ch)
  constructor
  · intro sublist
    rw [isInputs] at sublist
    exact timely_of_sublist t (inOrder_of_reachable reachable) sublist
  · intro timely s' continues
    have step : (timelyMachine ι).Step s s₁ :=
      ⟨.input ch, ⟨trivial, timely⟩, (), .ok (), delivered⟩
    rcases reachable.step step with ⟨first, starts, run⟩
    exact (inOrder_of_reachable ⟨first, starts, run.trans continues⟩).sublist

instance (operation : InputOp ι) (s : ConInput ι) :
    Decidable ((machine ι).Enabled operation s) :=
  inferInstanceAs (Decidable (operation.Enabled s))

instance (operation : InputOp ι) (s : ConInput ι) :
    Decidable ((timelyMachine ι).Enabled operation s) :=
  match operation with
  | .input ch => inferInstanceAs (Decidable (True ∧ s.Timely ch))
  | .getch t _ _ => inferInstanceAs (Decidable (s.phase t = .idle ∧ True))
  | .run t => inferInstanceAs (Decidable (s.phase t ≠ .idle ∧ True))

theorem getch_in_order_two :
    ∃ s, (timelyMachine (Fin 2)).Reachable (· = initial (Fin 2)) s ∧ s.returned = [97] ∧
      s.returned.Sublist s.delivered := by
  have computed : (((timelyMachine (Fin 2)).execute (initial (Fin 2))
      [(.getch 0 false 0, ()), (.input 97, ()), (.run 0, ()), (.run 0, ()), (.input 98, ())]).any
        fun s => s.returned == [97]) = true := by
    decide +kernel
  rcases (any_eq_true _ _).mp computed with ⟨s, executed, facts⟩
  have reachable : (timelyMachine (Fin 2)).Reachable (· = initial (Fin 2)) s :=
    Machine.Reachable.execute (Machine.Reachable.start rfl) executed
  exact ⟨s, reachable, by simpa using facts, (getch_in_order_iff 0).1 s reachable⟩

/-- Two characters are typed before the first of two calls of `getch`. -/
theorem getch_returns_twice :
    ∃ s, (machine (Fin 2)).Reachable (· = initial (Fin 2)) s ∧ s.delivered = [97, 98] ∧
      s.returned = [98, 98] ∧ ¬s.returned.Sublist s.delivered := by
  have computed : (((machine (Fin 2)).execute (initial (Fin 2))
      [(.input 97, ()), (.input 98, ()), (.getch 0 false 0, ()), (.run 0, ()), (.run 0, ()),
        (.getch 1 false 0, ()), (.run 1, ()), (.run 1, ())]).any
        fun s => s.delivered == [97, 98] && s.returned == [98, 98]) = true := by
    decide +kernel
  rcases (any_eq_true _ _).mp computed with ⟨s, executed, facts⟩
  simp only [Bool.and_eq_true, beq_iff_eq] at facts
  have reachable : (machine (Fin 2)).Reachable (· = initial (Fin 2)) s :=
    Machine.Reachable.execute (Machine.Reachable.start rfl) executed
  refine ⟨s, reachable, facts.1, facts.2, ?_⟩
  rw [facts.1, facts.2]
  decide

end Runs

end ConInput

end Os161
