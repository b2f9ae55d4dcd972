import Os161.Thread.Reachable

/-!
# Semaphores

`P` and `V` of `synch.c` over the thread system. Both run with interrupts off, so
a step is what happens up to the next switch: one turn of the loop in `P`, which
ends in `thread_sleep` or with a unit taken, or all of `V`. A thread that
`thread_sleep` comes back to is still inside `P`, and its next step is another
turn of the loop.

The invariant is that the count is what the calls say, and that nobody sleeps on
the semaphore while it is positive. A woken thread that has not run yet is in no
way part of it: the unit it was woken for may be gone by then, and `P` tests
again.
-/

namespace Os161

variable {s : ThreadSystem} {A B : Sched} {t cur addr : Nat} {thread : Thread}

namespace Sched

/-! ## Who sleeps on an address -/

/-- The only threads that sleep on the address are those that did before. -/
def Quiet (addr : Nat) (A B : Sched) : Prop :=
  ∀ t ∈ B.sleepers, B.sleepsOn addr t = true → t ∈ A.sleepers ∧ A.sleepsOn addr t = true

theorem Quiet.refl (A : Sched) : Quiet addr A A :=
  fun _ asleep waits => ⟨asleep, waits⟩

theorem Quiet.trans {C : Sched} (first : Quiet addr A B) (second : Quiet addr B C) :
    Quiet addr A C := by
  intro t asleep waits
  rcases second t asleep waits with ⟨before, waited⟩
  exact first t before waited

theorem sleepsOn_setThread (A : Sched) (t : Nat) (changed : Option Thread) (other : Nat) :
    (A.setThread t changed).sleepsOn addr other =
      if other = t then changed.any fun thread => thread.tSleepaddr = some addr
      else A.sleepsOn addr other := by
  by_cases same : other = t
  · simp [sleepsOn, same]
  · simp [sleepsOn, same]

/-- A thread whose structure changes does not sleep on the address, or did so before. -/
theorem quiet_setThread {changed : Option Thread}
    (waits : (changed.any fun thread => thread.tSleepaddr = some addr) = true →
      A.sleepsOn addr t = true) : Quiet addr A (A.setThread t changed) := by
  intro other asleep woken
  refine ⟨asleep, ?_⟩
  rw [sleepsOn_setThread] at woken
  split at woken
  · rename_i same
    exact same ▸ waits woken
  · exact woken

theorem quiet_setThread_same {changed : Thread} (present : A.threads t = some thread)
    (same : changed.tSleepaddr = thread.tSleepaddr) :
    Quiet addr A (A.setThread t (some changed)) := by
  apply quiet_setThread
  simp [sleepsOn, present, same]

theorem quiet_foldl_destroy (zs : List Nat) : ∀ A : Sched, Quiet addr A (zs.foldl destroy A) := by
  induction zs with
  | nil => exact Quiet.refl
  | cons z zs ih =>
      intro A
      have gone : Quiet addr A (A.setThread z none) := quiet_setThread (by simp)
      exact Quiet.trans gone (ih (A.destroy z))

theorem quiet_resume (A : Sched) (t : Nat) (thread : Thread) :
    Quiet addr A (A.resume t thread) := by
  have buried : Quiet addr A A.bury := quiet_foldl_destroy A.zombies A
  rw [resume]
  split
  · exact Quiet.refl A
  · exact buried.trans (quiet_setThread (by simp))
  · exact buried

theorem Rescheduled.quiet (rescheduled : A.Rescheduled cur B) : Quiet addr A B := by
  rcases rescheduled with ⟨_, rfl⟩ | ⟨t, thread, _, present, rfl⟩
  · exact Quiet.refl A
  · have dispatched : Quiet addr A (A.setThread t (some (lowerPriority thread))) :=
      quiet_setThread_same present rfl
    exact Quiet.trans dispatched (quiet_resume (A.dispatch t thread) t (lowerPriority thread))

theorem quiet_wakeFrom (woken : Nat) (rest : List Nat) :
    ∀ (kept : List Nat) (A : Sched), A.sleepers = kept ++ rest →
      Quiet addr A (wakeFrom woken kept rest A) := by
  induction rest with
  | nil =>
      intro kept A _
      exact Quiet.refl A
  | cons t rest ih =>
      intro kept A asleep
      rw [wakeFrom]
      split
      · have removed : Quiet addr A ({ A with sleepers := kept ++ rest }.enqueue t) := by
          intro other member waits
          refine ⟨?_, waits⟩
          rw [asleep]
          have keeps : List.Sublist (kept ++ rest) (kept ++ t :: rest) :=
            (List.sublist_cons_self t rest).append_left kept
          exact keeps.subset member
        exact removed.trans (ih kept _ rfl)
      · exact ih (kept ++ [t]) A (by simp [asleep])

theorem wakeFrom_awake (rest : List Nat) :
    ∀ (kept : List Nat) (A : Sched), A.sleepers = kept ++ rest →
      (∀ t ∈ kept, A.sleepsOn addr t = false) →
      ∀ t ∈ (wakeFrom addr kept rest A).sleepers,
        (wakeFrom addr kept rest A).sleepsOn addr t = false := by
  induction rest with
  | nil =>
      intro kept A asleep awake t member
      rw [wakeFrom, asleep, append_nil] at member
      exact awake t member
  | cons t rest ih =>
      intro kept A asleep awake
      rw [wakeFrom]
      split
      · exact ih kept _ rfl awake
      · rename_i notWaiting
        apply ih (kept ++ [t]) A (by simp [asleep])
        intro other member
        rcases mem_append.mp member with before | here
        · exact awake other before
        · rw [List.mem_singleton.mp here]
          exact Bool.eq_false_of_not_eq_true notWaiting

/-- Only `thread_sleep` on the address adds a thread that sleeps on it. -/
theorem Next.quiet {op : Op} (next : A.Next B op) (valid : A.Valid) (other : op ≠ .sleep addr) :
    Quiet addr A B := by
  cases op with
  | fork =>
      rcases next with rfl | ⟨id, rest, _, rfl⟩ | ⟨child, rest, _, _, _, _, rfl⟩
      · exact Quiet.refl B
      · exact Quiet.refl A
      · intro t asleep waits
        have present := (valid.placed.of_mem .sleeping asleep).1
        have different : t ≠ A.nextThread := by
          rintro rfl
          simp [valid.placed.fresh A.nextThread le_rfl] at present
        refine ⟨asleep, ?_⟩
        simpa [enroll, sleepsOn, update_of_ne different] using waits
  | yield =>
      rcases next with ⟨_, rfl⟩ | ⟨cur, thread, _, present, rescheduled⟩
      · exact Quiet.refl B
      · have parked : Quiet addr A (A.park cur thread .ready) :=
          quiet_setThread_same present rfl
        exact parked.trans rescheduled.quiet
  | sleep woken =>
      rcases next with ⟨cur, thread, _, present, rescheduled⟩
      have different : woken ≠ addr := by
        rintro rfl
        exact other rfl
      refine Quiet.trans ?_ rescheduled.quiet
      intro t asleep waits
      by_cases here : t = cur
      · simp [park, sleepsOn, here, different] at waits
      · refine ⟨?_, ?_⟩
        · simpa [park, here] using asleep
        · simpa [park, sleepsOn, here] using waits
  | wakeup woken =>
      rw [show B = A.wake woken from next]
      exact quiet_wakeFrom woken A.sleepers [] A rfl
  | exit =>
      rcases next with ⟨cur, thread, _, present, rescheduled⟩
      have retired : Quiet addr A (A.retire cur thread) := quiet_setThread_same present rfl
      have found : (A.retire cur thread).threads cur =
          some { thread with tVmspace := none, tCwd := none } := by simp [retire]
      have parked : Quiet addr (A.retire cur thread) ((A.retire cur thread).setThread cur (some
          { thread with tVmspace := none, tCwd := none, tPcb := .switched .zomb })) :=
        quiet_setThread_same found rfl
      exact (retired.trans parked).trans rescheduled.quiet
  | resume =>
      rcases next with ⟨t, thread, _, picks, present, rfl⟩
      have rescheduled : A.Rescheduled t _ := Or.inr ⟨t, thread, picks, present, rfl⟩
      exact rescheduled.quiet
  | setcurdir vn =>
      rcases next with ⟨cur, thread, _, present, rfl⟩
      exact quiet_setThread_same present rfl
  | setVmspace space =>
      rcases next with ⟨cur, thread, _, present, rfl⟩
      exact quiet_setThread_same present rfl

end Sched

/-! ## `P` and `V` -/

/-- The thread system with one semaphore. The calls are counted: `ups` is the number of calls
of `V`, and `downs` the number of completed calls of `P`. -/
structure SemSystem where
  system : ThreadSystem
  count : Int
  inside : Nat → Bool
  ups : Nat
  downs : Nat

abbrev SemM := Prog Panic SemSystem Errno

namespace SemM

def onThreads {α : Type} (program : ThreadM α) : SemM α :=
  zoom SemSystem.system (fun system s => { s with system }) program

theorem ensures_onThreads {α : Type} {program : ThreadM α} {q : SemSystem}
    {panics : Panic → Prop} {fails : Errno → SemSystem → Prop} {returns : α → SemSystem → Prop} :
    Ensures (onThreads program) q panics fails returns ↔
      Ensures program q.system panics (fun failure system => fails failure { q with system })
        (fun value system => returns value { q with system }) :=
  ensures_zoom

end SemM

/-- One turn of `while (sem->count==0)` in `P`, called by the current thread, or the end of `P`. -/
def semP (sem : Nat) : SemM Unit := do
  let cur ← SemM.onThreads ThreadM.current
  let s ← get
  if s.count = 0 then
    modify fun s => { s with inside := Function.update s.inside cur true }
    SemM.onThreads (threadSleep sem)
  else
    assert .semCount (0 < s.count)
    modify fun s => { s with
      count := int32 (s.count - 1)
      inside := Function.update s.inside cur false
      downs := s.downs + 1 }

/-- `V`. -/
def semV (sem : Nat) : SemM Unit := do
  modify fun s => { s with count := int32 (s.count + 1), ups := s.ups + 1 }
  let s ← get
  assert .semCount (0 < s.count)
  SemM.onThreads (threadWakeup sem)

/-- What can happen with interrupts off: `P` and `V` on the semaphore, and all that the rest of
the kernel does. -/
inductive SemOp where
  | p
  | v
  | other (op : Op)

namespace SemOp

def exec (sem : Nat) : SemOp → SemM Unit
  | .p => semP sem
  | .v => semV sem
  | .other op => SemM.onThreads op.exec

/-- A thread that is inside `P` has interrupts off, so its next turn comes first. A handler can
call `V` while no thread is current. The address of the semaphore is only slept on in `P`. -/
def Enabled (sem : Nat) (q : SemSystem) : SemOp → Prop
  | .p => q.system.curthread.isSome
  | .v => q.system.curthread.all (fun cur => !q.inside cur)
  | .other op => q.system.curthread.all (fun cur => !q.inside cur) ∧ op ≠ .sleep sem ∧
      op.Enabled q.system

end SemOp

/-- The thread system with the semaphore at the address `sem`. -/
def semMachine (sem : Nat) : Machine Panic SemSystem Errno SemOp KHeap where
  exec := SemOp.exec sem
  Enabled := fun op q => op.Enabled sem q
  arm := fun q heap => { q with system := { q.system with heap } }

/-- Nobody is in `sleepers` with the semaphore as its address. -/
def NoSleeper (sem : Nat) (s : ThreadSystem) : Prop :=
  ∀ t ∈ s.sleepers.toList, ∀ thread, s.threads t = some thread → thread.tSleepaddr ≠ some sem

/-- The semaphore is created in any state of the thread system in which nobody sleeps on its
address, with a count that fits in an `int`. -/
def SemCreated (sem : Nat) (initial : Int) (q : SemSystem) : Prop :=
  Reachable q.system ∧ NoSleeper sem q.system ∧ 0 ≤ initial ∧ initial < 2 ^ 31 ∧
    q.count = initial ∧ (∀ t, q.inside t = false) ∧ q.ups = 0 ∧ q.downs = 0

abbrev SemReachable (sem : Nat) (initial : Int) (q : SemSystem) : Prop :=
  (semMachine sem).Reachable (SemCreated sem initial) q

/-! ## The invariant -/

theorem noSleeper_iff {sem : Nat} (rel : Rel s A) :
    NoSleeper sem s ↔ ∀ t ∈ A.sleepers, A.sleepsOn sem t = false := by
  rcases rel.exists_view with ⟨queue, rfl, _⟩
  apply forall₂_congr
  intro t _
  rw [Sched.sleepsOn, show (s.view queue).threads t = s.threads t from rfl]
  cases s.threads t <;> simp

structure SemInv (sem : Nat) (initial : Int) (q : SemSystem) : Prop where
  related : ∃ A, Rel q.system A ∧ A.Valid
  conserved : q.count = initial + q.ups - q.downs
  nonneg : 0 ≤ q.count
  fits : q.count < 2 ^ 31
  awake : 0 < q.count → NoSleeper sem q.system

variable {sem : Nat} {initial : Int} {q : SemSystem}

theorem semP_inv (inv : SemInv sem initial q) (enabled : SemOp.p.Enabled sem q) :
    Ensures (semP sem) q (fun reason => reason ≠ .semCount)
      (fun _ => SemInv sem initial) (fun _ => SemInv sem initial) := by
  rcases isSome_iff_exists.mp enabled with ⟨cur, running⟩
  rcases inv.related with ⟨A, rel, valid⟩
  simp only [semP, ensures_bind, SemM.ensures_onThreads, ThreadM.ensures_current running,
    ensures_get, ensures_ite, ensures_modify]
  split
  · rename_i empty
    have sleeps := exec_refines (.sleep sem) rel valid enabled
    apply sleeps.mono
    · rintro _ halted rfl
      exact halted
    · rintro _ s' ⟨B, next, rel', _⟩
      exact ⟨⟨B, rel', next.valid valid⟩, inv.conserved, inv.nonneg, inv.fits,
        fun positive => absurd empty positive.ne'⟩
    · rintro _ s' ⟨B, next, rel', _⟩
      exact ⟨⟨B, rel', next.valid valid⟩, inv.conserved, inv.nonneg, inv.fits,
        fun positive => absurd empty positive.ne'⟩
  · rename_i available
    have positive : 0 < q.count := by
      have nonneg := inv.nonneg
      omega
    have fits := inv.fits
    have taken : int32 (q.count - 1) = q.count - 1 := int32_eq (by omega) (by omega)
    apply (ensures_assert_of positive).mpr
    refine ⟨⟨A, rel, valid⟩, ?_, ?_, ?_, fun _ => inv.awake positive⟩
    · have conserved := inv.conserved
      simp only [taken]
      push_cast
      omega
    · simp only [taken]
      omega
    · simp only [taken]
      omega

theorem semV_inv (inv : SemInv sem initial q) :
    Ensures (semV sem) q (fun _ => True)
      (fun _ => SemInv sem initial) (fun _ => SemInv sem initial) := by
  rcases inv.related with ⟨A, rel, valid⟩
  have nonneg := inv.nonneg
  have fits := inv.fits
  simp only [semV, ensures_bind, ensures_modify, ensures_get, ensures_assert]
  split
  · rename_i positive
    have roomLeft : q.count + 1 < 2 ^ 31 := by
      by_contra full
      have overflow : q.count = 2 ^ 31 - 1 := by omega
      simp only [overflow, int32] at positive
      exact absurd positive (by decide)
    have given : int32 (q.count + 1) = q.count + 1 := int32_eq (by omega) roomLeft
    rw [SemM.ensures_onThreads]
    apply (threadWakeup_refines rel valid sem).returning
    rintro _ s' ⟨rel', _⟩
    refine ⟨⟨_, rel', valid.wakeFrom rfl⟩, ?_, ?_, ?_, fun _ => ?_⟩
    · have conserved := inv.conserved
      simp only [given]
      push_cast
      omega
    · simp only [given]
      omega
    · simp only [given]
      exact roomLeft
    · rw [noSleeper_iff rel']
      exact Sched.wakeFrom_awake A.sleepers [] A rfl (by simp)
  · trivial

theorem other_inv {op : Op} (inv : SemInv sem initial q) (other : op ≠ .sleep sem)
    (enabled : op.Enabled q.system) :
    Ensures (SemM.onThreads op.exec) q (fun _ => True)
      (fun _ => SemInv sem initial) (fun _ => SemInv sem initial) := by
  rcases inv.related with ⟨A, rel, valid⟩
  have kept : ∀ s', (∃ B, A.Next B op ∧ Becomes q.system B s') →
      SemInv sem initial { q with system := s' } := by
    rintro s' ⟨B, next, rel', _⟩
    refine ⟨⟨B, rel', next.valid valid⟩, inv.conserved, inv.nonneg, inv.fits, ?_⟩
    intro positive
    have awake := (noSleeper_iff rel).mp (inv.awake positive)
    rw [noSleeper_iff rel']
    intro t asleep
    by_contra waits
    rcases next.quiet valid other t asleep (by simpa using waits) with ⟨before, waited⟩
    simp [awake t before] at waited
  rw [SemM.ensures_onThreads]
  apply (exec_refines op rel valid enabled).mono
  · exact fun _ _ => trivial
  · exact fun _ s' next => kept s' next
  · exact fun _ s' next => kept s' next

theorem SemInv.arm (inv : SemInv sem initial q) (heap : KHeap) :
    SemInv sem initial ((semMachine sem).arm q heap) := by
  rcases inv.related with ⟨A, rel, valid⟩
  exact ⟨⟨A, rel.withHeap heap, valid⟩, inv.conserved, inv.nonneg, inv.fits, inv.awake⟩

theorem SemOp.exec_inv (op : SemOp) (inv : SemInv sem initial q) (enabled : op.Enabled sem q) :
    Ensures (op.exec sem) q (fun _ => True)
      (fun _ => SemInv sem initial) (fun _ => SemInv sem initial) := by
  cases op with
  | p =>
      apply (semP_inv inv enabled).mono
      · exact fun _ _ => trivial
      · exact fun _ _ kept => kept
      · exact fun _ _ kept => kept
  | v => exact semV_inv inv
  | other op => exact other_inv inv enabled.2.1 enabled.2.2

theorem SemCreated.inv (created : SemCreated sem initial q) : SemInv sem initial q := by
  rcases created with ⟨reachable, awake, nonneg, fits, countEq, _, upsEq, downsEq⟩
  refine ⟨reachable.related, ?_, countEq ▸ nonneg, countEq ▸ fits, fun _ => awake⟩
  simp [countEq, upsEq, downsEq]

theorem SemReachable.inv (reachable : SemReachable sem initial q) : SemInv sem initial q := by
  apply Machine.Reachable.invariant _ _ reachable
  · exact fun q created => created.inv
  · intro q op heap _ enabled inv
    exact op.exec_inv (inv.arm heap) enabled

/-- The count of a semaphore is what the calls of `P` and `V` say, it is never negative, and
while it is positive nobody is left asleep on the semaphore. -/
theorem semaphore_conserved_no_lost_wakeup (reachable : SemReachable sem initial q) :
    q.count = initial + q.ups - q.downs ∧ 0 ≤ q.count ∧ (0 < q.count → NoSleeper sem q.system) :=
  ⟨reachable.inv.conserved, reachable.inv.nonneg, reachable.inv.awake⟩

instance (sem : Nat) : (op : Op) → Decidable (op = .sleep sem)
  | .sleep addr => decidable_of_iff (addr = sem) (by simp)
  | .fork | .yield | .wakeup _ | .exit | .resume | .setcurdir _ | .setVmspace _ =>
      .isFalse (by simp)

instance (sem : Nat) (op : SemOp) (q : SemSystem) :
    Decidable ((semMachine sem).Enabled op q) :=
  match op with
  | .p => inferInstanceAs (Decidable (q.system.curthread.isSome = true))
  | .v => inferInstanceAs (Decidable (q.system.curthread.all (fun cur => !q.inside cur) = true))
  | .other op => inferInstanceAs (Decidable (q.system.curthread.all (fun cur => !q.inside cur) =
      true ∧ op ≠ .sleep sem ∧ op.Enabled q.system))

/-- The first thread waits in `P` for a unit; the thread it has forked calls `V` and yields, and
the first thread completes its call. -/
theorem semaphore_conserved_after_wakeup : ∃ q, SemReachable 7 0 q ∧ q.ups = 1 ∧ q.downs = 1 ∧
    q.count = 0 + q.ups - q.downs := by
  have computed : ((start enoughMemory).any fun s =>
      s.sleepers.toList == [] && ((semMachine 7).execute
        { system := s, count := 0, inside := fun _ => false, ups := 0, downs := 0 }
        [(.other .fork, enoughMemory), (.p, enoughMemory), (.v, enoughMemory),
          (.other .yield, enoughMemory), (.p, enoughMemory)]).any fun q =>
        q.ups == 1 && q.downs == 1) = true := by decide +kernel
  rcases (any_eq_true _ _).mp computed with ⟨s, started, facts⟩
  rw [Bool.and_eq_true, beq_iff_eq] at facts
  rcases facts with ⟨nobody, facts⟩
  rcases (any_eq_true _ _).mp facts with ⟨q, executed, counted⟩
  rw [Bool.and_eq_true, beq_iff_eq, beq_iff_eq] at counted
  have created : SemCreated 7 0
      { system := s, count := 0, inside := fun _ => false, ups := 0, downs := 0 } := by
    refine ⟨Machine.Reachable.start (booted_of_start started), ?_, by decide, by decide, rfl,
      fun _ => rfl, rfl, rfl⟩
    simp [NoSleeper, nobody]
  have reachable : SemReachable 7 0 q := (Machine.Reachable.start created).execute executed
  exact ⟨q, reachable, counted.1, counted.2, (semaphore_conserved_no_lost_wakeup reachable).1⟩

end Os161
