import Os161.Kern.Base
import Os161.Lib.Machine
import Os161.Lib.Tally

/-!
# Console output

`putch` of `console.c` on the serial port of `lser.c`. Threads write with interrupts on
and wait for each other; code that runs with interrupts off, or in an interrupt handler,
writes at once and waits for the device.

There is one permission to write. It is in `cs_wsem`, or with a thread behind `P`, or
with the device, from `lser_write` until `lser_irq` has seen that it is ready again. A
polled write that comes while the device has the permission takes the signal of the
earlier character and leaves its own in its place.

A step is one turn of the loop in `P`, a section with interrupts off, or the end of a
character at the device. Who calls `putch` is a thread or an interrupt handler.
-/

namespace Os161

attribute [local irreducible] int32

/-- Where a caller is in `putch`, and its character: `waiting` in `P`, `granted` behind it. -/
inductive PutchPhase where
  | idle
  | waiting (ch : Int)
  | granted (ch : Int)
  deriving DecidableEq

namespace PutchPhase

def isGranted : PutchPhase → Bool
  | .granted _ => true
  | _ => false

def pending : PutchPhase → List Int
  | .idle => []
  | .waiting ch | .granted ch => [ch]

@[simp]
theorem pending_idle : pending .idle = [] := rfl

@[simp]
theorem pending_waiting (ch : Int) : pending (.waiting ch) = [ch] := rfl

@[simp]
theorem pending_granted (ch : Int) : pending (.granted ch) = [ch] := rfl

end PutchPhase

/-- `cs_wsem`, `ls_wbusy`, and the device: `LSER_IRQ_ACTIVE` in `LSER_REG_WIRQ`, and whether it
is busy with a character. As ghosts, what each caller passed to `putch`, what was written to the
device and by whom, and how often it was busy then. -/
structure ConOutput (ι : Type) where
  csWsem : Nat
  lsWbusy : Bool
  active : Bool
  sending : Bool
  phase : ι → PutchPhase
  passed : ι → List Int
  sent : List (ι × Int)
  overruns : Nat

abbrev ConOutputM (ι : Type) := Prog Panic (ConOutput ι) Errno

namespace ConOutput

variable {ι : Type} [DecidableEq ι]

def moveTo (s : ConOutput ι) (t : ι) (phase : PutchPhase) : ConOutput ι :=
  { s with phase := Function.update s.phase t phase }

/-- The end of `P`. -/
def takes (s : ConOutput ι) (t : ι) (ch : Int) : ConOutput ι :=
  { s.moveTo t (.granted ch) with csWsem := s.csWsem - 1 }

/-- The caller has passed a character to `putch`. -/
def passes (s : ConOutput ι) (t : ι) (ch : Int) : ConOutput ι :=
  { s with passed := Function.update s.passed t (s.passed t ++ [ch]) }

/-- A write to `LSER_REG_CHAR`. -/
def writes {ι : Type} (s : ConOutput ι) (t : ι) (ch : Int) : ConOutput ι :=
  { s with
    sending := true
    sent := s.sent ++ [(t, ch)]
    overruns := s.overruns + s.sending.toNat }

def finishes {ι : Type} (s : ConOutput ι) : ConOutput ι :=
  { s with
    sending := false
    active := true }

/-- A write of `LSER_IRQ_ENABLE` to `LSER_REG_WIRQ`. -/
def acknowledge {ι : Type} (s : ConOutput ι) : ConOutput ι :=
  { s with active := false }

/-- `lser_irq`, without its part for input; `con_start` is `V`. -/
def lserIrq {ι : Type} : ConOutputM ι Unit := do
  let s ← get
  if s.active then
    modify fun s => { s.acknowledge with lsWbusy := false }
    assert .semCount (0 < int32 (s.csWsem + 1))
    modify fun s => { s with csWsem := s.csWsem + 1 }
  else
    pure ()

/-- `lser_write`. -/
def lserWrite {ι : Type} (t : ι) (ch : Int) : ConOutputM ι Unit := do
  let s ← get
  if s.lsWbusy then
    halt .lserWbusy
  else
    modify fun s => { s.writes t ch with lsWbusy := true }

/-- `lser_spin_until_write`: the device gets ready if it is busy, and if it is neither busy nor
ready the loop has no end. -/
def lserSpinUntilWrite {ι : Type} : ConOutputM ι Unit := do
  let s ← get
  if s.active then
    pure ()
  else if s.sending then
    modify finishes
  else
    halt .lserSpin

/-- `lser_writepolled`, when a character of `lser_write` is on its way. -/
def lserAwaitPending {ι : Type} (irqpending : Bool) : ConOutputM ι Unit :=
  if irqpending then do
    lserSpinUntilWrite
    modify acknowledge
  else
    pure ()

/-- `lser_writepolled`. -/
def lserWritepolled {ι : Type} (t : ι) (ch : Int) : ConOutputM ι Unit := do
  let s ← get
  let irqpending := s.lsWbusy
  lserAwaitPending irqpending
  modify fun s => s.writes t ch
  lserSpinUntilWrite
  if irqpending then
    pure ()
  else
    modify acknowledge

/-- `putch`, up to `P` when interrupts are on; there is a console. -/
def putch (t : ι) (ch : Int) (inInterrupt : Bool) (curspl : Nat) : ConOutputM ι Unit := do
  modify fun s => s.passes t ch
  if inInterrupt ∨ 0 < curspl then
    lserWritepolled t ch
  else
    modify fun s => s.moveTo t (.waiting ch)

/-- `putch_intr`, one step. -/
def putchIntr (t : ι) : ConOutputM ι Unit := do
  let s ← get
  match s.phase t with
  | .idle => pure ()
  | .waiting ch =>
      if s.csWsem = 0 then
        pure ()
      else
        modify fun s => s.takes t ch
  | .granted ch => do
      lserWrite t ch
      modify fun s => s.moveTo t .idle

end ConOutput

/-- What can happen to the output: a call, a step of one, an interrupt, or the end of a character
at the device. -/
inductive OutputOp (ι : Type) where
  | putch (t : ι) (ch : Int) (inInterrupt : Bool) (curspl : Nat)
  | run (t : ι)
  | irq
  | finish

namespace OutputOp

variable {ι : Type} [DecidableEq ι]

def exec : OutputOp ι → ConOutputM ι Unit
  | .putch t ch inInterrupt curspl => ConOutput.putch t ch inInterrupt curspl
  | .run t => ConOutput.putchIntr t
  | .irq => ConOutput.lserIrq
  | .finish => modify ConOutput.finishes

def Enabled (s : ConOutput ι) : OutputOp ι → Prop
  | .putch t _ _ _ => s.phase t = .idle
  | .run t => s.phase t ≠ .idle
  | .irq => True
  | .finish => s.sending = true

end OutputOp

namespace ConOutput

def machine (ι : Type) [DecidableEq ι] : Machine Panic (ConOutput ι) Errno (OutputOp ι) Unit where
  exec := OutputOp.exec
  Enabled := fun operation s => operation.Enabled s
  arm := fun s _ => s

/-- `config_lser` and `config_con`. -/
def initial (ι : Type) : ConOutput ι where
  csWsem := 1
  lsWbusy := false
  active := false
  sending := false
  phase _ := .idle
  passed _ := []
  sent := []
  overruns := 0

def sentBy {ι : Type} [DecidableEq ι] (sent : List (ι × Int)) (t : ι) : List Int :=
  (sent.filter fun entry => entry.1 = t).map Prod.snd

/-- The state of the device: the permission is there while it is busy or has a signal out, and it
is never written to when it is busy. -/
structure Device {ι : Type} (s : ConOutput ι) : Prop where
  busy : s.lsWbusy = (s.sending || s.active)
  single : ¬(s.sending = true ∧ s.active = true)
  clean : s.overruns = 0

theorem sentBy_append {ι : Type} [DecidableEq ι] (sent : List (ι × Int)) (t u : ι) (ch : Int) :
    sentBy (sent ++ [(t, ch)]) u = sentBy sent u ++ if t = u then [ch] else [] := by
  by_cases same : t = u
  · simp [sentBy, same]
  · simp [sentBy, same]

/-! ## The steps -/

section Steps

variable {ι : Type} {s : ConOutput ι} (t : ι) (ch : Int)

def polls (s : ConOutput ι) (t : ι) (ch : Int) : ConOutput ι :=
  { s with
    sending := false
    active := s.lsWbusy
    sent := s.sent ++ [(t, ch)] }

def starts (s : ConOutput ι) : ConOutput ι :=
  { s with
    csWsem := s.csWsem + 1
    lsWbusy := false
    active := false }

/-- The state after `lser_write`. -/
def sends (s : ConOutput ι) (t : ι) (ch : Int) : ConOutput ι :=
  { s.writes t ch with lsWbusy := true }

theorem lserSpinUntilWrite_spec (notFree : (s.sending || s.active) = true)
    (single : ¬(s.sending = true ∧ s.active = true)) :
    Ensures lserSpinUntilWrite s (fun _ => False) (fun _ _ => False)
      (fun _ s' => s' = s.finishes) := by
  rw [lserSpinUntilWrite, ensures_bind, ensures_get]
  apply ensures_branch
  · intro ready
    have done : s.sending = false := by
      rw [← Bool.not_eq_true]
      exact fun sending => single ⟨sending, ready⟩
    rcases s with ⟨csWsem, lsWbusy, active, sending, phase, passed, sent, overruns⟩
    cases done
    cases ready
    rfl
  · intro notReady
    have busy : s.sending = true := by
      cases sending : s.sending with
      | true => rfl
      | false => simp [sending, notReady] at notFree
    rw [if_pos busy]
    rfl

theorem lserWritepolled_spec (device : s.Device) :
    Ensures (lserWritepolled t ch) s (fun _ => False) (fun _ _ => False)
      (fun _ s' => s' = s.polls t ch) := by
  have busy := device.busy
  rw [lserWritepolled, ensures_bind, ensures_get, ensures_bind]
  cases pending : s.lsWbusy with
  | true =>
      rw [lserAwaitPending, if_pos rfl, ensures_bind]
      apply (lserSpinUntilWrite_spec (busy.symm.trans pending) device.single).total
      rintro _ _ rfl
      rw [ensures_modify, ensures_bind, ensures_modify, ensures_bind]
      have single : ¬(true = true ∧ false = true) := by decide
      apply (lserSpinUntilWrite_spec rfl single).total
      rintro _ _ rfl
      simp [polls, pending, acknowledge, finishes, writes]
  | false =>
      have idle := busy.symm.trans pending
      rw [Bool.or_eq_false_iff] at idle
      rw [lserAwaitPending, if_neg nofun, ensures_pure, ensures_bind, ensures_modify, ensures_bind]
      apply (lserSpinUntilWrite_spec rfl ?_).total
      · rintro _ _ rfl
        rw [if_neg nofun, ensures_modify, polls, pending]
        simp [acknowledge, finishes, writes, idle.1, pending]
      · rintro ⟨_, ready⟩
        rw [show (s.writes t ch).active = s.active from rfl, idle.2] at ready
        cases ready

theorem lserIrq_spec (room : s.active = true → s.csWsem = 0) :
    Ensures lserIrq s (fun _ => False) (fun _ _ => False)
      (fun _ s' => s' = s ∨ s.active = true ∧ s' = s.starts) := by
  rw [lserIrq, ensures_bind, ensures_get]
  apply ensures_branch
  · intro ready
    rw [ensures_bind, ensures_modify]
    refine ensures_assert_then (fun overflow => ?_) fun _ => Or.inr ⟨ready, rfl⟩
    rw [room ready, int32_eq (by decide) (by decide)] at overflow
    exact overflow (by decide)
  · exact fun _ => Or.inl rfl

theorem lserWrite_spec (free : s.lsWbusy = false) :
    Ensures (lserWrite t ch) s (fun _ => False) (fun _ _ => False)
      (fun _ s' => s' = s.sends t ch) := by
  rw [lserWrite, ensures_bind, ensures_get, free, if_neg nofun]
  rfl

variable [DecidableEq ι] {t ch}

theorem once_written (once : ∀ u, s.passed u = sentBy s.sent u ++ (s.phase u).pending)
    (pending : (s.phase t).pending = [ch]) (u : ι) :
    s.passed u = sentBy (s.sent ++ [(t, ch)]) u ++
      (Function.update s.phase t .idle u).pending := by
  rw [once u, sentBy_append]
  by_cases same : u = t
  · subst same
    simp [pending]
  · simp [same, Ne.symm same]

abbrev Steps (ι : Type) [DecidableEq ι] : ConOutput ι → ConOutput ι → Prop :=
  Relation.ReflTransGen (machine ι).Step

theorem steps_takes (waiting : s.phase t = .waiting ch) (positive : s.csWsem ≠ 0) :
    Steps ι s (s.takes t ch) := by
  refine .single ⟨.run t, ?_, (), .ok (), ?_⟩
  · change s.phase t ≠ .idle
    rw [waiting]
    exact nofun
  · apply eq_ok_of_ensures
    change Ensures (putchIntr t) s _ _ _
    rw [putchIntr, ensures_bind, ensures_get, waiting]
    simp only [positive, if_false, ensures_modify, and_self]

theorem steps_finishes (sending : s.sending = true) : Steps ι s s.finishes :=
  .single ⟨.finish, sending, (), .ok (), rfl⟩

end Steps

/-! ## The invariant -/

section Invariant

variable {ι : Type} [Fintype ι] [DecidableEq ι] {s : ConOutput ι} {t : ι} {ch : Int}

/-- Who has the permission to write. -/
def permissions (s : ConOutput ι) : Nat :=
  s.csWsem + s.lsWbusy.toNat + tally s.phase PutchPhase.isGranted

theorem permissions_moveTo (s : ConOutput ι) (t : ι) (phase : PutchPhase) :
    (s.moveTo t phase).permissions + (s.phase t).isGranted.toNat =
      s.permissions + phase.isGranted.toNat := by
  have moved := tally_move s.phase PutchPhase.isGranted t phase
  simp only [permissions, moveTo]
  omega

/-- There is one permission, the device is as the driver takes it to be, and each caller has
written what it passed to `putch` up to the character it is busy with. -/
structure Inv (s : ConOutput ι) : Prop where
  conserved : s.permissions = 1
  device : s.Device
  once : ∀ t, s.passed t = sentBy s.sent t ++ (s.phase t).pending

theorem Inv.initial : (initial ι).Inv := by
  have nobody : tally (ConOutput.initial ι).phase PutchPhase.isGranted = 0 :=
    tally_eq_zero fun _ => rfl
  refine ⟨?_, ⟨rfl, nofun, rfl⟩, fun _ => rfl⟩
  rw [permissions, nobody]
  rfl

theorem Inv.room (inv : s.Inv) (busy : s.lsWbusy = true) : s.csWsem = 0 := by
  have conserved := inv.conserved
  rw [permissions, busy, Bool.toNat_true] at conserved
  omega

theorem Inv.ready (inv : s.Inv) (active : s.active = true) : s.lsWbusy = true := by
  rw [inv.device.busy, active, Bool.or_true]

theorem Inv.free (inv : s.Inv) (granted : s.phase t = .granted ch) :
    s.csWsem = 0 ∧ s.lsWbusy = false := by
  have conserved := inv.conserved
  have there : 0 < tally s.phase PutchPhase.isGranted := by
    apply tally_pos (i := t)
    rw [granted]
    rfl
  rw [permissions] at conserved
  refine ⟨by omega, ?_⟩
  cases busy : s.lsWbusy with
  | false => rfl
  | true =>
      rw [busy, Bool.toNat_true] at conserved
      omega

theorem Inv.irq (inv : s.Inv) (active : s.active = true) : s.starts.Inv := by
  have busy := inv.ready active
  have conserved := inv.conserved
  have done : s.sending = false := by
    rw [← Bool.not_eq_true]
    exact fun sending => inv.device.single ⟨sending, active⟩
  refine ⟨?_, ⟨?_, ?_, inv.device.clean⟩, inv.once⟩
  · rw [permissions, busy, Bool.toNat_true] at conserved
    simp only [permissions, starts, Bool.toNat_false]
    omega
  · simp [starts, done]
  · simp [starts]

theorem Inv.finish (inv : s.Inv) (sending : s.sending = true) : s.finishes.Inv := by
  refine ⟨inv.conserved, ⟨?_, ?_, inv.device.clean⟩, inv.once⟩
  · simp [finishes, inv.device.busy, sending]
  · simp [finishes]

theorem Inv.takes (inv : s.Inv) (waiting : s.phase t = .waiting ch) (positive : s.csWsem ≠ 0) :
    (s.takes t ch).Inv := by
  refine ⟨?_, ⟨inv.device.busy, inv.device.single, inv.device.clean⟩, fun u => ?_⟩
  · have conserved := inv.conserved
    have moved := s.permissions_moveTo t (.granted ch)
    simp only [waiting, permissions, ConOutput.takes, moveTo, PutchPhase.isGranted,
      Bool.toNat_true, Bool.toNat_false] at conserved moved ⊢
    omega
  · refine (inv.once u).trans ?_
    by_cases same : u = t
    · subst same
      simp [ConOutput.takes, moveTo, waiting]
    · simp [ConOutput.takes, moveTo, same]

theorem Inv.waits (inv : s.Inv) (idle : s.phase t = .idle) (ch : Int) :
    ((s.passes t ch).moveTo t (.waiting ch)).Inv := by
  refine ⟨?_, ⟨inv.device.busy, inv.device.single, inv.device.clean⟩, fun u => ?_⟩
  · have moved := (s.passes t ch).permissions_moveTo t (.waiting ch)
    rw [show (s.passes t ch).phase t = .idle from idle] at moved
    exact moved.trans inv.conserved
  · by_cases same : u = t
    · subst same
      simp [moveTo, passes, inv.once u, idle]
    · simp [moveTo, passes, same, inv.once u]

theorem Inv.sends (inv : s.Inv) (granted : s.phase t = .granted ch) :
    ((s.sends t ch).moveTo t .idle).Inv := by
  rcases inv.free granted with ⟨_, free⟩
  have idle := inv.device.busy.symm.trans free
  rw [Bool.or_eq_false_iff] at idle
  refine ⟨?_, ⟨?_, ?_, ?_⟩, ?_⟩
  · have conserved := inv.conserved
    have moved := (s.sends t ch).permissions_moveTo t .idle
    simp only [granted, permissions, moveTo, ConOutput.sends, writes, PutchPhase.isGranted, free,
      Bool.toNat_true, Bool.toNat_false] at conserved moved ⊢
    omega
  · simp [ConOutput.sends, moveTo, writes]
  · simp [ConOutput.sends, moveTo, writes, idle.2]
  · simp [ConOutput.sends, moveTo, writes, idle.1, inv.device.clean]
  · apply once_written inv.once
    rw [granted]
    rfl

theorem Inv.polls (inv : s.Inv) (idle : s.phase t = .idle) (ch : Int) :
    ((s.passes t ch).polls t ch).Inv := by
  refine ⟨inv.conserved, ⟨?_, ?_, inv.device.clean⟩, fun u => ?_⟩
  · simp [ConOutput.polls]
  · simp [ConOutput.polls]
  · simp only [ConOutput.polls, passes, sentBy_append]
    by_cases same : u = t
    · subst same
      simp [inv.once u, idle]
    · simp [inv.once u, same, Ne.symm same]

/-! ## Runs -/

theorem Inv.exec (inv : s.Inv) (operation : OutputOp ι) (enabled : operation.Enabled s) :
    Ensures operation.exec s (fun _ => False) (fun _ _ => False) (fun _ s' => s'.Inv) := by
  cases operation with
  | putch t ch inInterrupt curspl =>
      have idle : s.phase t = .idle := enabled
      rw [OutputOp.exec, putch, ensures_bind, ensures_modify]
      apply ensures_branch
      · intro _
        have device : (s.passes t ch).Device :=
          ⟨inv.device.busy, inv.device.single, inv.device.clean⟩
        apply (lserWritepolled_spec t ch device).imp
        rintro _ _ rfl
        exact inv.polls idle ch
      · exact fun _ => inv.waits idle ch
  | run t =>
      rw [OutputOp.exec, putchIntr, ensures_bind, ensures_get]
      cases place : s.phase t with
      | idle => exact inv
      | waiting ch =>
          apply ensures_branch
          · exact fun _ => inv
          · exact fun positive => inv.takes place positive
      | granted ch =>
          rw [ensures_bind]
          apply (lserWrite_spec t ch (inv.free place).2).imp
          rintro _ _ rfl
          exact inv.sends place
  | irq =>
      apply (lserIrq_spec fun active => inv.room (inv.ready active)).imp
      rintro _ _ (rfl | ⟨active, rfl⟩)
      · exact inv
      · exact inv.irq active
  | finish => exact inv.finish enabled

theorem inv_of_reachable (reachable : (machine ι).Reachable (· = initial ι) s) : s.Inv := by
  apply reachable.invariant
  · rintro _ rfl
    exact Inv.initial
  · rintro between operation ⟨⟩ _ enabled inv
    exact (inv.exec operation enabled).total fun _ _ kept => kept

/-! ## Progress -/

theorem steps_sends (inv : s.Inv) (granted : s.phase t = .granted ch) :
    Steps ι s ((s.sends t ch).moveTo t .idle) := by
  refine .single ⟨.run t, ?_, (), .ok (), ?_⟩
  · change s.phase t ≠ .idle
    rw [granted]
    exact nofun
  · apply eq_ok_of_ensures
    change Ensures (putchIntr t) s _ _ _
    rw [putchIntr, ensures_bind, ensures_get, granted, ensures_bind]
    apply (lserWrite_spec t ch (inv.free granted).2).imp
    rintro _ _ rfl
    exact ⟨rfl, rfl⟩

theorem steps_starts (inv : s.Inv) (active : s.active = true) : Steps ι s s.starts := by
  refine .single ⟨.irq, trivial, (), .ok (), ?_⟩
  apply eq_ok_of_ensures
  change Ensures lserIrq s _ _ _
  rw [lserIrq, ensures_bind, ensures_get, if_pos active, ensures_bind, ensures_modify]
  refine ensures_assert_then (fun overflow => ?_) fun _ => ⟨rfl, rfl⟩
  rw [inv.room (inv.ready active), int32_eq (by decide) (by decide)] at overflow
  exact overflow (by decide)

theorem steps_ready (inv : s.Inv) (busy : s.lsWbusy = true) :
    ∃ s', Steps ι s s' ∧ s'.Inv ∧ 0 < s'.csWsem ∧ s'.passed = s.passed ∧ s'.phase = s.phase := by
  cases active : s.active with
  | true => exact ⟨_, steps_starts inv active, inv.irq active, Nat.succ_pos _, rfl, rfl⟩
  | false =>
      have sending : s.sending = true := by
        rw [inv.device.busy, active, Bool.or_false] at busy
        exact busy
      have inv' := inv.finish sending
      exact ⟨_, (steps_finishes sending).trans (steps_starts inv' rfl), inv'.irq rfl,
        Nat.succ_pos _, rfl, rfl⟩

/-- Whoever has the permission can give it back; a caller that had it is done then. -/
theorem steps_available (inv : s.Inv) :
    ∃ s', Steps ι s s' ∧ s'.Inv ∧ 0 < s'.csWsem ∧ s'.passed = s.passed ∧
      ∀ t, s'.phase t = s.phase t ∨ s'.phase t = .idle := by
  by_cases here : 0 < s.csWsem
  · exact ⟨s, .refl, inv, here, rfl, fun _ => Or.inl rfl⟩
  · cases busy : s.lsWbusy with
    | true =>
        rcases steps_ready inv busy with ⟨s', steps, inv', available, passed, phase⟩
        exact ⟨s', steps, inv', available, passed, fun t => Or.inl (by rw [phase])⟩
    | false =>
        have conserved := inv.conserved
        rw [permissions, busy, Bool.toNat_false] at conserved
        rcases exists_of_tally_pos (by omega : 0 < tally s.phase PutchPhase.isGranted) with
          ⟨u, there⟩
        cases granted : s.phase u with
        | idle => simp [granted, PutchPhase.isGranted] at there
        | waiting ch => simp [granted, PutchPhase.isGranted] at there
        | granted ch =>
            have inv' := inv.sends granted
            rcases steps_ready inv' rfl with ⟨s', steps, inv'', available, passed, phase⟩
            refine ⟨s', (steps_sends inv granted).trans steps, inv'', available, passed, ?_⟩
            intro t
            rw [phase]
            by_cases same : t = u
            · exact Or.inr (same ▸ update_self ..)
            · exact Or.inl (update_of_ne same ..)

theorem steps_idle (inv : s.Inv) (t : ι) :
    ∃ s', Steps ι s s' ∧ s'.passed = s.passed ∧ s'.phase t = .idle := by
  rcases steps_available inv with ⟨s₁, steps, inv₁, available, passed, phase⟩
  cases place : s₁.phase t with
  | idle => exact ⟨s₁, steps, passed, place⟩
  | waiting ch =>
      have granted : (s₁.takes t ch).phase t = .granted ch := update_self ..
      have inv₂ := inv₁.takes place (Nat.ne_of_gt available)
      exact ⟨_, (steps.trans (steps_takes place (Nat.ne_of_gt available))).trans
        (steps_sends inv₂ granted), passed, update_self ..⟩
  | granted ch => exact absurd (inv₁.free place).1 (Nat.ne_of_gt available)

/-- There is one permission to write; nothing panics, and no call gets stuck; each caller has
written the characters of its calls, each once and in order, up to the call that it is in; and
the device was free at each write. -/
theorem console_output_protocol (reachable : (machine ι).Reachable (· = initial ι) s) :
    s.csWsem + s.lsWbusy.toNat + tally s.phase PutchPhase.isGranted = 1 ∧
    (∀ operation : OutputOp ι, operation.Enabled s →
      ∀ reason, operation.exec s ≠ .error reason) ∧
    (∀ t, s.passed t = sentBy s.sent t ++ (s.phase t).pending) ∧
    (∀ t, ∃ s', Steps ι s s' ∧ s'.passed = s.passed ∧ s'.phase t = .idle) ∧
    s.overruns = 0 := by
  have inv := inv_of_reachable reachable
  refine ⟨inv.conserved, ?_, inv.once, steps_idle inv, inv.device.clean⟩
  intro operation enabled reason
  exact ne_halt_of_ensures (inv.exec operation enabled) id

instance (operation : OutputOp ι) (s : ConOutput ι) :
    Decidable ((machine ι).Enabled operation s) :=
  match operation with
  | .putch t _ _ _ => inferInstanceAs (Decidable (s.phase t = .idle))
  | .run t => inferInstanceAs (Decidable (s.phase t ≠ .idle))
  | .irq => inferInstanceAs (Decidable True)
  | .finish => inferInstanceAs (Decidable (s.sending = true))

/-- A polled write while the device is busy with the character of a thread. -/
theorem console_output_polled :
    ∃ s, (machine (Fin 2)).Reachable (· = initial (Fin 2)) s ∧ s.sent = [(0, 97), (1, 98)] ∧
      s.csWsem + s.lsWbusy.toNat + tally s.phase PutchPhase.isGranted = 1 ∧ s.overruns = 0 := by
  have computed : (((machine (Fin 2)).execute (initial (Fin 2))
      [(.putch 0 97 false 0, ()), (.run 0, ()), (.run 0, ()), (.putch 1 98 true 0, ()),
        (.irq, ())]).any fun s => s.sent == [(0, 97), (1, 98)]) = true := by
    decide +kernel
  rcases (any_eq_true _ _).mp computed with ⟨s, executed, facts⟩
  have reachable : (machine (Fin 2)).Reachable (· = initial (Fin 2)) s :=
    Machine.Reachable.execute (Machine.Reachable.start rfl) executed
  rcases console_output_protocol reachable with ⟨conserved, _, _, _, clean⟩
  exact ⟨s, reachable, by simpa using facts, conserved, clean⟩

end Invariant

end ConOutput

end Os161
