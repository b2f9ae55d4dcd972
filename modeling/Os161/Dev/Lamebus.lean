import Mathlib.Data.List.Induction
import Os161.Kern.Base

/-!
# Dud interrupts

`lamebus_interrupt` of `kern/dev/lamebus/lamebus.c`. An interrupt that no handler takes
care of is a dud, and so is one that no slot asserts. `duds` counts them until an
invocation has seen none; when there are more than 10000, the machine is stopped, since
an interrupt line that is stuck would otherwise keep it from doing anything else.

The bus can look different after each handler that was called: other slots may assert
their interrupts, and drivers may have come or gone. So an invocation gets the bus as a
function of the number of handlers that it has called. It is called with `curspl > 0`
and a bus, which it asserts.

The branch for an interrupt that no slot asserts returns at once, and does not come to
the test of the count. The count can be stopped there (`StraysCounted` says when it is
not).
-/

namespace Os161

namespace Lamebus

/-- What `lamebus_interrupt` reads: the register `CTLREG_IRQS` and `struct lamebus_softc`. -/
structure Bus where
  irqs : BitVec 32
  lsSlotsinuse : BitVec 32
  lsDevdata : Nat → Nat
  lsIrqfuncs : Nat → Option Nat

/-- The bus after each number of handlers called. -/
abbrev Invocation := Nat → Bus

/-- The static variable `duds`; and, newest first, what was printed and the handlers called, each
with its `devdata`. -/
structure LamebusState where
  duds : Int
  printed : List String
  called : List (Nat × Nat)

abbrev LamebusM := Prog Panic LamebusState Errno

/-- `duds++`. -/
def countDud : LamebusM Unit :=
  modify fun s => { s with duds := int32 (s.duds + 1) }

def kprintf (text : String) : LamebusM Unit :=
  modify fun s => { s with printed := text :: s.printed }

/-- `for (mask=1, slot=0; slot<LB_NSLOTS; mask<<=1, slot++)`; returns `duds_this_time`. -/
def slotLoop (bus : Invocation) :
    (left slot : Nat) → (mask : BitVec 32) → (handled dudsThisTime : Nat) → LamebusM Nat
  | 0, _, _, _, dudsThisTime => pure dudsThisTime
  | left + 1, slot, mask, handled, dudsThisTime => do
      if (bus handled).irqs &&& mask = 0 then
        slotLoop bus left (slot + 1) (mask <<< 1) handled dudsThisTime
      else if (bus handled).lsSlotsinuse &&& mask = 0 then
        countDud
        slotLoop bus left (slot + 1) (mask <<< 1) handled (dudsThisTime + 1)
      else
        match (bus handled).lsIrqfuncs slot with
        | none =>
            countDud
            slotLoop bus left (slot + 1) (mask <<< 1) handled (dudsThisTime + 1)
        | some irqfunc =>
            modify fun s =>
              { s with called := (irqfunc, (bus handled).lsDevdata slot) :: s.called }
            slotLoop bus left (slot + 1) (mask <<< 1) (handled + 1) dudsThisTime

/-- `LB_NSLOTS`. -/
def lbNslots : Nat := 32

/-- `if (duds_this_time==0 && duds>0)`. -/
def clearDuds (dudsThisTime : Nat) : LamebusM Unit := do
  let s ← get
  if dudsThisTime = 0 ∧ 0 < s.duds then
    kprintf ("lamebus: " ++ toString s.duds ++ " dud interrupts\n")
    modify fun s => { s with duds := 0 }

/-- `if (duds > 10000)`. -/
def checkDuds : LamebusM Unit := do
  let s ← get
  if 10000 < s.duds then
    halt .lamebusDuds

/-- `lamebus_interrupt`. -/
def lamebusInterrupt (bus : Invocation) : LamebusM Unit := do
  if (bus 0).irqs = 0 then
    -- the comment there says that the code continues ahead, but it does return
    kprintf "lamebus: stray interrupt\n"
    countDud
  else
    let dudsThisTime ← slotLoop bus lbNslots 0 1 0 0
    clearDuds dudsThisTime
    checkDuds

def lamebusInterrupts : List Invocation → LamebusM Unit
  | [] => pure ()
  | bus :: rest => do
      lamebusInterrupt bus
      lamebusInterrupts rest

/-! ## Duds -/

/-- No slot asserts an interrupt. -/
def Invocation.Stray (bus : Invocation) : Prop :=
  (bus 0).irqs = 0

instance (bus : Invocation) : Decidable (Invocation.Stray bus) :=
  inferInstanceAs (Decidable (_ = _))

/-- A slot that asserts an interrupt is a dud when it is not in use or has no handler. -/
def Bus.Dud (bus : Bus) (slot : Nat) (mask : BitVec 32) : Prop :=
  bus.lsSlotsinuse &&& mask = 0 ∨ bus.lsIrqfuncs slot = none

instance (bus : Bus) (slot : Nat) (mask : BitVec 32) : Decidable (bus.Dud slot mask) :=
  inferInstanceAs (Decidable (_ ∨ _))

/-- The duds among the slots from `slot` on. -/
def Invocation.dudSlots (bus : Invocation) : (left slot : Nat) → (mask : BitVec 32) → Nat → Nat
  | 0, _, _, _ => 0
  | left + 1, slot, mask, handled =>
      if (bus handled).irqs &&& mask = 0 then
        dudSlots bus left (slot + 1) (mask <<< 1) handled
      else if (bus handled).Dud slot mask then
        dudSlots bus left (slot + 1) (mask <<< 1) handled + 1
      else
        dudSlots bus left (slot + 1) (mask <<< 1) (handled + 1)

def Invocation.duds (bus : Invocation) : Nat :=
  if bus.Stray then 1 else bus.dudSlots lbNslots 0 1 0

/-- The dud events since the last invocation that saw none. -/
def dudsInRow (invocations : List Invocation) : Nat :=
  invocations.foldl (fun count bus => if bus.duds = 0 then 0 else count + bus.duds) 0

def countAfter (count : Nat) (bus : Invocation) : Nat :=
  if bus.duds = 0 then 0 else count + bus.duds

theorem dudsInRow_append (invocations : List Invocation) (bus : Invocation) :
    dudsInRow (invocations ++ [bus]) = countAfter (dudsInRow invocations) bus := by
  simp [dudsInRow, countAfter]

variable {s s' : LamebusState} {bus : Invocation}

/-! ## One invocation -/

theorem countDud_eq (low : 0 ≤ s.duds) (high : s.duds + 1 < 2 ^ 31) :
    countDud s = .ok (.ok (), { s with duds := s.duds + 1 }) := by
  rw [countDud, modify, int32_eq (by omega) high]

theorem slotLoop_eq (bus : Invocation) (left : Nat) :
    ∀ {s : LamebusState} (slot : Nat) (mask : BitVec 32) (handled dudsThisTime : Nat),
      0 ≤ s.duds → s.duds + left < 2 ^ 31 →
      ∃ called, slotLoop bus left slot mask handled dudsThisTime s =
        .ok (.ok (dudsThisTime + bus.dudSlots left slot mask handled),
          { s with duds := s.duds + bus.dudSlots left slot mask handled, called }) := by
  induction left with
  | zero =>
      intro s slot mask handled dudsThisTime _ _
      exact ⟨s.called, by simp [slotLoop, Invocation.dudSlots, Prog.pure_apply]⟩
  | succ left ih =>
      intro s slot mask handled dudsThisTime low high
      push_cast at high
      have counted := countDud_eq low (by omega)
      -- the two turns that count a dud
      have dudTurn : ∃ called,
          (do countDud; slotLoop bus left (slot + 1) (mask <<< 1) handled (dudsThisTime + 1)) s =
            .ok (.ok (dudsThisTime + (bus.dudSlots left (slot + 1) (mask <<< 1) handled + 1)),
              { s with
                duds := s.duds +
                  ((bus.dudSlots left (slot + 1) (mask <<< 1) handled + 1 : Nat) : Int)
                called }) := by
        rcases ih (s := { s with duds := s.duds + 1 }) (slot + 1) (mask <<< 1) handled
          (dudsThisTime + 1) (show 0 ≤ s.duds + 1 by omega)
          (show s.duds + 1 + (left : Int) < 2 ^ 31 by omega) with ⟨called, outcome⟩
        refine ⟨called, ?_⟩
        rw [bind_of_ok counted, outcome, Nat.cast_add, Nat.cast_one, add_right_comm,
          add_assoc, add_right_comm s.duds, add_assoc s.duds]
      rw [slotLoop, Invocation.dudSlots]
      by_cases silent : (bus handled).irqs &&& mask = 0
      · rw [if_pos silent, if_pos silent]
        exact ih _ _ _ _ low (by omega)
      · rw [if_neg silent, if_neg silent]
        by_cases unused : (bus handled).lsSlotsinuse &&& mask = 0
        · have isDud : (bus handled).Dud slot mask := Or.inl unused
          rw [if_pos unused, if_pos isDud]
          exact dudTurn
        · rw [if_neg unused]
          cases handler : (bus handled).lsIrqfuncs slot with
          | none =>
              have isDud : (bus handled).Dud slot mask := Or.inr handler
              rw [if_pos isDud]
              exact dudTurn
          | some irqfunc =>
              have handles : ¬(bus handled).Dud slot mask := not_or.mpr ⟨unused, by simp [handler]⟩
              rw [if_neg handles]
              exact ih (s := { s with
                called := (irqfunc, (bus handled).lsDevdata slot) :: s.called }) _ _ _ _ low
                (show s.duds + (left : Int) < 2 ^ 31 by omega)

/-- An interrupt that no slot asserts is counted, and that is all. -/
theorem lamebusInterrupt_stray (stray : bus.Stray) (low : 0 ≤ s.duds) (high : s.duds + 1 < 2 ^ 31) :
    ∃ s', lamebusInterrupt bus s = .ok (.ok (), s') ∧ s'.duds = s.duds + 1 := by
  refine ⟨{ s with duds := s.duds + 1, printed := "lamebus: stray interrupt\n" :: s.printed }, ?_,
    rfl⟩
  have stray : (bus 0).irqs = 0 := stray
  rw [lamebusInterrupt, if_pos stray]
  exact countDud_eq (s := { s with printed := "lamebus: stray interrupt\n" :: s.printed }) low high

variable {count : Nat} {invocations : List Invocation}

theorem clearDuds_eq (dudsEq : s.duds = count) (dudsThisTime : Nat) :
    ∃ s', clearDuds dudsThisTime s = .ok (.ok (), s') ∧
      s'.duds = if dudsThisTime = 0 then 0 else (count : Int) := by
  rw [clearDuds, bind_of_ok (get_apply s)]
  by_cases clear : dudsThisTime = 0 ∧ 0 < s.duds
  · rw [if_pos clear]
    exact ⟨_, rfl, (if_pos clear.1).symm⟩
  · rw [if_neg clear]
    refine ⟨s, rfl, ?_⟩
    split <;> omega

theorem checkDuds_eq (s : LamebusState) :
    checkDuds s = if 10000 < s.duds then .error .lamebusDuds else .ok (.ok (), s) := by
  rw [checkDuds, bind_of_ok (get_apply s)]
  split <;> rfl

theorem lamebusInterrupt_asserted (asserted : ¬bus.Stray) (dudsEq : s.duds = count)
    (small : count ≤ 10000) :
    (10000 < countAfter count bus → lamebusInterrupt bus s = .error .lamebusDuds) ∧
      (countAfter count bus ≤ 10000 →
        ∃ s', lamebusInterrupt bus s = .ok (.ok (), s') ∧ s'.duds = countAfter count bus) := by
  have asserted' : ¬(bus 0).irqs = 0 := asserted
  have slots : lbNslots = 32 := rfl
  have dudsIs : bus.duds = bus.dudSlots lbNslots 0 1 0 := if_neg asserted
  rcases slotLoop_eq bus lbNslots (s := s) 0 1 0 0 (by omega) (by rw [slots]; omega) with
    ⟨called, loop⟩
  rw [← dudsIs, Nat.zero_add] at loop
  have total : s.duds + bus.duds = ((count + bus.duds : Nat) : Int) := by
    push_cast
    rw [dudsEq]
  rcases clearDuds_eq (s := { s with duds := s.duds + bus.duds, called }) total bus.duds with
    ⟨s', cleared, clearedEq⟩
  have after : s'.duds = countAfter count bus := by
    rw [clearedEq, countAfter]
    split <;> rfl
  have outcome : lamebusInterrupt bus s = checkDuds s' := by
    rw [lamebusInterrupt, if_neg asserted', bind_of_ok loop, bind_of_ok cleared]
  rw [outcome, checkDuds_eq]
  constructor
  · intro many
    rw [if_pos (by omega)]
  · intro few
    exact ⟨s', if_neg (by omega), after⟩

/-! ## One invocation after another -/

theorem lamebusInterrupts_append (first second : List Invocation) :
    lamebusInterrupts (first ++ second) =
      (do lamebusInterrupts first; lamebusInterrupts second) := by
  induction first with
  | nil => rfl
  | cons bus first ih =>
      rw [cons_append, lamebusInterrupts, ih, lamebusInterrupts, Prog.bind_assoc]

theorem lamebusInterrupts_concat (returned : lamebusInterrupts invocations s = .ok (.ok (), s'))
    (bus : Invocation) : lamebusInterrupts (invocations ++ [bus]) s = lamebusInterrupt bus s' := by
  rw [lamebusInterrupts_append, bind_of_ok returned, lamebusInterrupts]
  rcases outcome : lamebusInterrupt bus s' with reason | ⟨failure | ⟨⟩, s''⟩
  · exact bind_of_halt outcome
  · exact Prog.bind_of_fail outcome
  · exact bind_of_ok outcome

theorem lamebusInterrupts_halted {reason : Panic}
    (halted : lamebusInterrupts invocations s = .error reason) (bus : Invocation) :
    lamebusInterrupts (invocations ++ [bus]) s = .error reason := by
  rw [lamebusInterrupts_append, bind_of_halt halted]

/-- The count is tested with every stray interrupt that matters: none comes when it is at its
limit. -/
def StraysCounted (s : LamebusState) (invocations : List Invocation) : Prop :=
  ∀ before bus s', before ++ [bus] <+: invocations →
    lamebusInterrupts before s = .ok (.ok (), s') → bus.Stray → s'.duds < 10000

/-- The machine is stopped no later than with the invocation that saw the dud after the 10000th
in a row. -/
def StopsInTime (s : LamebusState) (invocations : List Invocation) : Prop :=
  ∀ before, before <+: invocations → 10000 < dudsInRow before →
    lamebusInterrupts before s = .error .lamebusDuds

/-- An invocation that sees no dud returns and leaves the count at zero. -/
def ClearsDuds (s : LamebusState) (invocations : List Invocation) : Prop :=
  ∀ before bus s', before ++ [bus] <+: invocations →
    lamebusInterrupts before s = .ok (.ok (), s') → bus.duds = 0 →
    ∃ s'', lamebusInterrupt bus s' = .ok (.ok (), s'') ∧ s''.duds = 0

theorem StraysCounted.mono {first second : List Invocation}
    (counted : StraysCounted s second) (start : first <+: second) : StraysCounted s first :=
  fun before bus s' isStart => counted before bus s' (isStart.trans start)

theorem Invocation.duds_of_stray (stray : bus.Stray) : bus.duds = 1 :=
  if_pos stray

/-- As long as the machine runs, `duds` is the number of duds in a row. -/
theorem StraysCounted.run (fresh : s.duds = 0) (invocations : List Invocation) :
    StraysCounted s invocations →
      lamebusInterrupts invocations s = .error .lamebusDuds ∨
        ∃ s', lamebusInterrupts invocations s = .ok (.ok (), s') ∧
          s'.duds = dudsInRow invocations ∧ dudsInRow invocations ≤ 10000 := by
  induction invocations using List.reverseRecOn with
  | nil =>
      intro _
      exact Or.inr ⟨s, rfl, fresh, Nat.zero_le _⟩
  | append_singleton before bus ih =>
      intro counted
      rcases ih (counted.mono (List.prefix_append _ _)) with halted | ⟨s', returned, dudsEq, small⟩
      · exact Or.inl (lamebusInterrupts_halted halted bus)
      · rw [lamebusInterrupts_concat returned, dudsInRow_append]
        by_cases stray : bus.Stray
        · have limit := counted before bus s' List.prefix_rfl returned stray
          rcases lamebusInterrupt_stray stray (s := s') (by omega) (by omega) with
            ⟨s'', outcome, oneMore⟩
          have countEq : countAfter (dudsInRow before) bus = dudsInRow before + 1 := by
            simp [countAfter, Invocation.duds_of_stray stray]
          exact Or.inr ⟨s'', outcome, by omega, by omega⟩
        · rcases lamebusInterrupt_asserted stray dudsEq small with ⟨halts, goesOn⟩
          by_cases few : countAfter (dudsInRow before) bus ≤ 10000
          · rcases goesOn few with ⟨s'', outcome, countEq⟩
            exact Or.inr ⟨s'', outcome, countEq, few⟩
          · exact Or.inl (halts (by omega))

theorem StraysCounted.stopsInTime (fresh : s.duds = 0) (counted : StraysCounted s invocations) :
    StopsInTime s invocations := by
  intro before start many
  rcases (counted.mono start).run fresh before with halted | ⟨_, _, _, few⟩
  · exact halted
  · omega

theorem StraysCounted.clearsDuds (fresh : s.duds = 0) (counted : StraysCounted s invocations) :
    ClearsDuds s invocations := by
  intro before bus s' start returned none
  have counted' := counted.mono ((List.prefix_append before [bus]).trans start)
  rcases counted'.run fresh before with halted | ⟨_, returned', dudsEq, small⟩
  · rw [halted] at returned
    cases returned
  · rw [returned] at returned'
    cases returned'
    have asserted : ¬bus.Stray := by
      intro stray
      simp [Invocation.duds_of_stray stray] at none
    have countEq : countAfter (dudsInRow before) bus = 0 := if_pos none
    rcases (lamebusInterrupt_asserted asserted dudsEq small).2 (by omega) with ⟨s'', outcome, zero⟩
    exact ⟨s'', outcome, by rw [zero, countEq]; rfl⟩

/-- The test is missed exactly when a stray interrupt comes as the first dud beyond the limit. -/
theorem StopsInTime.straysCounted (fresh : s.duds = 0) (stops : StopsInTime s invocations) :
    StraysCounted s invocations := by
  suffices ∀ first, first <+: invocations → StraysCounted s first from
    this invocations List.prefix_rfl
  intro first
  induction first using List.reverseRecOn with
  | nil =>
      intro _ before bus s' start
      simp at start
  | append_singleton first last ih =>
      intro start before bus s' isStart returned stray
      have counted := ih ((List.prefix_append first [last]).trans start)
      rcases List.prefix_concat_iff.mp isStart with same | earlier
      · have beforeEq : before = first := List.append_inj_left' same rfl
        subst beforeEq
        rcases counted.run fresh before with halted | ⟨_, returned', dudsEq, small⟩
        · rw [halted] at returned
          cases returned
        · rw [returned] at returned'
          cases returned'
          by_contra atLimit
          have many : 10000 < dudsInRow (before ++ [bus]) := by
            rw [dudsInRow_append, countAfter, Invocation.duds_of_stray stray]
            simp
            omega
          have halted := stops (before ++ [bus]) (isStart.trans start) many
          rcases lamebusInterrupt_stray stray (s := s') (by omega) (by omega) with
            ⟨s'', outcome, _⟩
          rw [lamebusInterrupts_concat returned, outcome] at halted
          cases halted
      · exact counted before bus s' earlier returned stray

/-- For every sequence of invocations, whatever they read: a stuck interrupt stops the machine in
time, and an invocation without duds clears the count, if and only if no stray interrupt comes
when the count is at its limit. -/
theorem stuck_interrupt_stops_iff (fresh : s.duds = 0) (invocations : List Invocation) :
    StopsInTime s invocations ∧ ClearsDuds s invocations ↔ StraysCounted s invocations :=
  ⟨fun holds => holds.1.straysCounted fresh, fun counted =>
    ⟨counted.stopsInTime fresh, counted.clearsDuds fresh⟩⟩

/-- `duds` as the machine starts. -/
def boot : LamebusState :=
  { duds := 0, printed := [], called := [] }

/-- All slots assert an interrupt and none is in use. -/
def allUnused : Invocation :=
  fun _ =>
    { irqs := BitVec.allOnes 32
      lsSlotsinuse := 0
      lsDevdata := fun _ => 0
      lsIrqfuncs := fun _ => none }

theorem dudsInRow_replicate (some : bus.duds ≠ 0) :
    dudsInRow (List.replicate count bus) = count * bus.duds := by
  induction count with
  | zero => simp [dudsInRow]
  | succ count ih =>
      rw [List.replicate_succ', dudsInRow_append, ih, countAfter, if_neg some, Nat.succ_mul]

/-- With 32 duds each, the 313th invocation stops the machine. -/
theorem stuck_slots_stop : lamebusInterrupts (List.replicate 313 allUnused) boot =
    .error .lamebusDuds := by
  have duds : allUnused.duds = 32 := by decide
  have counted : StraysCounted boot (List.replicate 313 allUnused) := by
    intro before bus s' start _ stray
    have member : bus ∈ List.replicate 313 allUnused := start.subset (by simp)
    rw [List.eq_of_mem_replicate member] at stray
    exact absurd stray (by decide)
  apply ((stuck_interrupt_stops_iff rfl _).mpr counted).1 _ List.prefix_rfl
  rw [dudsInRow_replicate (by rw [duds]; decide), duds]
  decide

def noneAsserted : Invocation :=
  fun _ =>
    { irqs := 0
      lsSlotsinuse := 0
      lsDevdata := fun _ => 0
      lsIrqfuncs := fun _ => none }

theorem strays_counted_only (count : Nat) (small : count < 2 ^ 31) :
    ∃ s, lamebusInterrupts (List.replicate count noneAsserted) boot = .ok (.ok (), s) ∧
      s.duds = count := by
  induction count with
  | zero => exact ⟨boot, rfl, rfl⟩
  | succ count ih =>
      rcases ih (by omega) with ⟨s, returned, dudsEq⟩
      have stray : noneAsserted.Stray := rfl
      rcases lamebusInterrupt_stray stray (s := s) (by omega) (by omega) with
        ⟨s', outcome, oneMore⟩
      refine ⟨s', ?_, by push_cast; omega⟩
      rw [List.replicate_succ', lamebusInterrupts_concat returned, outcome]

/-- After 10001 stray interrupts in a row the machine goes on. -/
theorem stuck_stray_does_not_stop : ∃ s,
    lamebusInterrupts (List.replicate 10001 noneAsserted) boot = .ok (.ok (), s) ∧
      s.duds = 10001 ∧ dudsInRow (List.replicate 10001 noneAsserted) = 10001 := by
  have duds : noneAsserted.duds = 1 := by decide
  rcases strays_counted_only 10001 (by norm_num) with ⟨s, returned, dudsEq⟩
  refine ⟨s, returned, dudsEq, ?_⟩
  rw [dudsInRow_replicate (by rw [duds]; decide), duds]

end Lamebus

end Os161
