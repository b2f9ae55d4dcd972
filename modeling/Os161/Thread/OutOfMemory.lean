import Os161.Thread.Reachable

/-!
# When there is no memory

`thread_fork` preallocates `sleepers`, `zombies` and the run queues for one more
thread, so that `mi_switch` and `thread_wakeup` need no memory. The run queues and
`sleepers` never get smaller again (`Reachable.roomy`), and for `sleepers` this is
enough. It is not enough in two cases. A queue of `n` slots holds `n - 1` threads,
and all `n` threads can come to be ready at one priority; and `zombies` also holds
threads that `numthreads` no longer counts.

`thread_fork` itself takes a process id before it knows that it will succeed. The
second part of the file says exactly when it leaves the id, and the copy of the
address space, as it should.
-/

namespace Os161

open Sched

variable {s : ThreadSystem} {A B : Sched} {t cur : Nat} {thread : Thread}

namespace Sched

/-- No thread was forked between the two states. -/
structure Forkless (A B : Sched) : Prop where
  num_le : B.num ≤ A.num
  log : ∀ t, Event.fork t ∈ B.log → Event.fork t ∈ A.log

theorem Forkless.refl (A : Sched) : A.Forkless A :=
  ⟨le_rfl, fun _ forked => forked⟩

theorem Forkless.trans {C : Sched} (first : A.Forkless B) (second : B.Forkless C) : A.Forkless C :=
  ⟨second.num_le.trans first.num_le, fun t forked => first.log t (second.log t forked)⟩

theorem forkless_foldl_destroy (zs : List Nat) : ∀ A : Sched, A.Forkless (zs.foldl destroy A) := by
  induction zs with
  | nil => exact Forkless.refl
  | cons z zs ih =>
      intro A
      have first : A.Forkless (A.destroy z) := ⟨le_rfl, fun t forked => by
        simpa [destroy] using forked⟩
      exact first.trans (ih (A.destroy z))

theorem forkless_resume (A : Sched) (t : Nat) (thread : Thread) :
    A.Forkless (A.resume t thread) := by
  have buried := forkless_foldl_destroy A.zombies A
  rw [resume]
  split
  · exact Forkless.refl A
  · exact ⟨buried.num_le, buried.log⟩
  · exact ⟨buried.num_le, buried.log⟩

theorem Rescheduled.forkless (rescheduled : A.Rescheduled cur B) : A.Forkless B := by
  rcases rescheduled with ⟨_, rfl⟩ | ⟨t, thread, _, _, rfl⟩
  · exact ⟨le_rfl, fun _ forked => forked⟩
  · have dispatched : A.Forkless (A.dispatch t thread) := ⟨le_rfl, fun other forked => by
      simpa [dispatch, choose] using forked⟩
    exact dispatched.trans (forkless_resume _ _ _)

theorem forkless_wakeFrom (addr : Nat) (rest : List Nat) :
    ∀ (kept : List Nat) (A : Sched), A.Forkless (wakeFrom addr kept rest A) := by
  induction rest with
  | nil =>
      intro kept A
      exact Forkless.refl A
  | cons t rest ih =>
      intro kept A
      rw [wakeFrom]
      split
      · have woken : A.Forkless ({ A with sleepers := kept ++ rest }.enqueue t) :=
          ⟨le_rfl, fun other forked => by simpa using forked⟩
        exact woken.trans (ih _ _)
      · exact ih _ A

theorem Next.forkless {op : Op} (next : A.Next B op) (notFork : op ≠ .fork) : A.Forkless B := by
  cases op with
  | fork => exact absurd rfl notFork
  | yield =>
      rcases next with ⟨_, rfl⟩ | ⟨cur, thread, _, _, rescheduled⟩
      · exact Forkless.refl B
      · have parked : A.Forkless (A.park cur thread .ready) :=
          ⟨le_rfl, fun other forked => by simpa [park] using forked⟩
        exact parked.trans rescheduled.forkless
  | sleep addr =>
      rcases next with ⟨cur, thread, _, _, rescheduled⟩
      exact ⟨rescheduled.forkless.num_le, rescheduled.forkless.log⟩
  | wakeup addr =>
      rw [show B = A.wake addr from next]
      exact forkless_wakeFrom addr A.sleepers [] A
  | exit =>
      rcases next with ⟨cur, thread, _, _, rescheduled⟩
      have retired : A.Forkless ((A.retire cur thread).park cur
          { thread with tVmspace := none, tCwd := none } .zomb) :=
        ⟨Nat.sub_le _ _, fun other forked => by simpa [park, retire] using forked⟩
      exact retired.trans rescheduled.forkless
  | resume =>
      rcases next with ⟨t, thread, _, picks, present, rfl⟩
      have rescheduled : A.Rescheduled t _ := Or.inr ⟨t, thread, picks, present, rfl⟩
      exact rescheduled.forkless
  | setcurdir vn =>
      rcases next with ⟨cur, thread, _, _, rfl⟩
      exact ⟨le_rfl, fun _ forked => forked⟩
  | setVmspace space =>
      rcases next with ⟨cur, thread, _, _, rfl⟩
      exact ⟨le_rfl, fun _ forked => forked⟩

end Sched

/-- Once a fork has succeeded there is room for all threads. -/
def ForkedRoomy (s : ThreadSystem) : Prop :=
  (∃ t, Event.fork t ∈ s.log) → Roomy s

variable {s' : ThreadSystem} {nextstate : ThreadState} {queue : Mlfq.State Nat} {p : Nat}
  {parent : Thread}

theorem Becomes.forkedRoomy (rel : Rel s A) (becomes : Becomes s B s') (forkless : A.Forkless B)
    (roomy : ForkedRoomy s) : ForkedRoomy s' := by
  rcases becomes with ⟨rel', grows⟩
  have logEq : s.log = A.log := congrArg log rel.view
  have logEq' : s'.log = B.log := congrArg log rel'.view
  have numEq : s.numthreads = A.num := congrArg num rel.view
  have numEq' : s'.numthreads = B.num := congrArg num rel'.view
  have num_le := forkless.num_le
  rintro ⟨t, forked⟩
  rw [logEq'] at forked
  have room := roomy ⟨t, by rw [logEq]; exact forkless.log t forked⟩
  constructor
  · intro p inside
    have before := room.1 p inside
    have grown := grows.size_le p inside
    omega
  · have before := room.2
    have grown := grows.max_le
    omega

theorem exec_forkedRoomy (op : Op) (rel : Rel s A) (valid : A.Valid) (enabled : op.Enabled s)
    (roomy : ForkedRoomy s) :
    Ensures op.exec s (fun _ => True) (fun _ => ForkedRoomy) (fun _ => ForkedRoomy) := by
  by_cases isFork : op = .fork
  · subst isFork
    rcases isSome_iff_exists.mp (show s.curthread.isSome from enabled) with ⟨cur, running⟩
    rw [rel.curthread_eq] at running
    rcases valid.current_ok running with ⟨parent, present, _⟩
    rw [Op.exec, ensures_bind]
    apply (threadFork_spec rel valid.forkable running present).mono
    · exact fun _ _ => trivial
    · rintro _ s' (⟨_, becomes⟩ | ⟨_, _, _, id, rest, _, becomes⟩)
      · exact becomes.forkedRoomy rel (Sched.Forkless.refl A) roomy
      · exact becomes.forkedRoomy rel ⟨le_rfl, fun _ forked => forked⟩ roomy
    · rintro _ s' ⟨_, _, _, _, _, _, _, _, _, _, _, room⟩
      exact fun _ => room
  · apply (exec_refines op rel valid enabled).mono
    · exact fun _ _ => trivial
    · rintro _ s' ⟨B, next, becomes⟩
      exact becomes.forkedRoomy rel (next.forkless isFork) roomy
    · rintro _ s' ⟨B, next, becomes⟩
      exact becomes.forkedRoomy rel (next.forkless isFork) roomy

theorem Reachable.roomy (reachable : Reachable s) : ForkedRoomy s := by
  apply Machine.Reachable.invariant _ _ reachable
  · rintro s booted ⟨t, forked⟩
    rcases booted.related with ⟨refs, ft, _, rel⟩
    have logEq : s.log = [] := congrArg log rel.view
    simp [logEq] at forked
  · intro s op heap reachable enabled roomy
    rcases Reachable.related reachable with ⟨A, rel, valid⟩
    exact exec_forkedRoomy op (rel.withHeap heap) valid enabled roomy

/-! ## When the lists have room -/

def wakingAt (s : ThreadSystem) (addr p : Nat) : Nat :=
  s.sleepers.toList.countP fun t => (s.threads t).any fun thread =>
    decide (thread.tSleepaddr = some addr) && thread.priority == p

/-- The condition under which a step appends to its list without memory: no run queue of just
`numthreads` slots would have to hold all threads, and `zombies` has a free slot. -/
def SlotsLeft (s : ThreadSystem) : Op → Prop
  | .yield => ∀ cur thread, s.curthread = some cur → s.threads cur = some thread →
      ¬((s.runqueue thread.priority).size = s.numthreads ∧
        (s.runqueue thread.priority).toList.length + 1 = s.numthreads)
  | .wakeup addr => ∀ p < numPriorities,
      ¬((s.runqueue p).size = s.numthreads ∧
        (s.runqueue p).toList.length + wakingAt s addr p = s.numthreads)
  | .exit => s.zombies.num < s.zombies.max
  | _ => True

/-- The assertions on the results of `array_add` and `make_runnable` in `mi_switch` and
`thread_wakeup` do not fail when there is no memory. -/
def SwitchSucceeds (s : ThreadSystem) (op : Op) : Prop :=
  op.exec { s with heap := noMemory } ≠ .error .miSwitchResult ∧
    op.exec { s with heap := noMemory } ≠ .error .wakeupResult

theorem stash_full {panics : Panic → Prop} {fails : Errno → ThreadSystem → Prop}
    {returns : Unit → ThreadSystem → Prop} (storage : s.Storage queue)
    (present : s.threads cur = some thread) (inside : thread.priority < numPriorities)
    (full : ListFull s thread.priority nextstate) (starved : s.heap 0 = false)
    (failed : ∀ failure s', fails failure s') :
    Ensures (stash cur nextstate) s panics fails returns := by
  cases nextstate with
  | run => exact full.elim
  | ready =>
      have full : (s.runqueue thread.priority).count + 1 = (s.runqueue thread.priority).size := full
      have size_le := storage.size_le _ inside
      simp only [stash, makeRunnable, ensures_bind, ThreadM.ensures_deref present,
        ensures_assert_of inside, ensures_get, ThreadM.ensures_onHeap]
      rcases Queue.qAddtail_eq (storage.runqueue_wf _ inside) (by omega) cur s.heap with
        ⟨free, _⟩ | ⟨_, _, outcome⟩ | ⟨_, memory, _⟩
      · omega
      · rw [ensures_of_fail_eq outcome]
        exact failed _ _
      · simp [starved] at memory
  | sleep =>
      have full : s.sleepers.num = s.sleepers.max := full
      simp only [stash, ensures_bind, ensures_get, ThreadM.ensures_onHeap]
      rcases KArray.arrayAdd_eq storage.sleepers_wf cur s.heap with
        ⟨free, _⟩ | ⟨_, _, outcome⟩ | ⟨_, memory, _⟩
      · omega
      · rw [ensures_of_fail_eq outcome]
        exact failed _ _
      · simp [starved] at memory
  | zomb =>
      have full : s.zombies.num = s.zombies.max := full
      simp only [stash, ensures_bind, ensures_get, ThreadM.ensures_onHeap]
      rcases KArray.arrayAdd_eq storage.zombies_wf cur s.heap with
        ⟨free, _⟩ | ⟨_, _, outcome⟩ | ⟨_, memory, _⟩
      · omega
      · rw [ensures_of_fail_eq outcome]
        exact failed _ _
      · simp [starved] at memory

/-- A full list makes `mi_switch` fail its assertion when there is no memory. -/
theorem miSwitch_full (storage : s.Storage queue) (running : s.curthread = some cur)
    (present : s.threads cur = some thread) (inside : thread.priority < numPriorities)
    (full : ListFull s thread.priority nextstate) (starved : s.heap 0 = false) :
    miSwitch nextstate s = .error .miSwitchResult := by
  apply Prog.eq_halt_of_ensures
  have found : ({ s with curthread := none } : ThreadSystem).threads cur = some thread := present
  have changed : ({ s with curthread := none }.setThread cur
      (some { thread with tPcb := .switched nextstate })).threads cur =
      some { thread with tPcb := .switched nextstate } := by simp [ThreadSystem.setThread]
  simp only [miSwitch, ensures_bind, ensures_get, running, ensures_modify,
    ThreadM.ensures_update found, ensures_attempt]
  have stored : ({ s with curthread := none }.setThread cur
      (some { thread with tPcb := .switched nextstate })).Storage queue := storage
  apply stash_full stored changed inside
  · cases nextstate <;> exact full
  · exact starved
  · exact fun _ _ => rfl

theorem Rel.length_runqueue_le (rel : Rel s A) (inside : p < numPriorities) :
    (s.runqueue p).count = (A.queue.level p).length ∧
      (A.queue.level p).length ≤ A.queue.ready.length := by
  refine ⟨?_, A.queue.length_level_le p⟩
  rw [← Queue.length_toList, rel.storage.level p inside]

section Starved

variable (rel : Rel s A) (valid : A.Valid)
include rel valid

/-- A run queue can only be too small for the current thread when all threads go to it. -/
theorem runqueueFull_iff (running : A.current = some cur) (roomy : Roomy s)
    (inside : p < numPriorities) :
    RunqueueFull s p ↔ (s.runqueue p).size = s.numthreads ∧
      (s.runqueue p).toList.length + 1 = s.numthreads := by
  have numEq : s.numthreads = A.num := congrArg num rel.view
  have counted := valid.placed.num_eq
  rw [running, toList_some, List.length_singleton] at counted
  rcases rel.length_runqueue_le inside with ⟨countEq, length_le⟩
  have size_le := roomy.1 p inside
  rw [RunqueueFull, Queue.length_toList]
  omega

theorem wakingAt_eq (addr p : Nat) :
    (A.queue.level p).length + wakingAt s addr p = A.load addr A.sleepers p := by
  rcases rel.exists_view with ⟨queue, rfl, storage⟩
  rw [wakingAt, load]
  congr 1
  apply List.countP_congr
  intro t asleep
  rcases isSome_iff_exists.mp (valid.placed.of_mem .sleeping asleep).1 with
    ⟨thread, present⟩
  have found : s.threads t = some thread := present
  have prioEq : (s.view queue).queue.prio t = thread.priority :=
    (valid.threads t thread present).priority
  simp [sleepsOn, found, present, prioEq]

theorem yield_succeeds_iff (roomy : Roomy s) (starved : s.heap = noMemory) :
    Op.exec .yield s ≠ .error .miSwitchResult ∧ Op.exec .yield s ≠ .error .wakeupResult ↔
      SlotsLeft s .yield := by
  cases current : s.curthread with
  | none =>
      apply iff_of_true
      · constructor <;> rw [Op.exec, threadYield_idle current] <;> simp
      · intro cur thread running
        simp [current] at running
  | some cur =>
      have running : A.current = some cur := rel.curthread_eq.symm.trans current
      rcases valid.current_ok running with ⟨thread, present, ok, inside, small⟩
      have found : s.threads cur = some thread := by rw [rel.threads_eq, present]
      have fullIff := runqueueFull_iff rel valid running roomy inside
      have ensures := threadYield_refines rel valid running present
      constructor
      · intro succeeds cur' thread' running' found' slots
        have sameCur : cur' = cur := by simpa [current] using running'.symm
        subst sameCur
        have sameThread : thread' = thread := by simpa [found] using found'.symm
        subst sameThread
        have full : ListFull s thread'.priority .ready := fullIff.mpr slots
        exact succeeds.1 (miSwitch_full rel.storage current found inside full (by simp [starved,
          noMemory]))
      · intro slots
        refine ⟨ne_halt_of_ensures ensures ?_, ne_halt_of_ensures ensures ?_⟩
        · rintro (impossible | ⟨_, full, _⟩)
          · cases impossible
          · exact slots cur thread current found (fullIff.mp full)
        · rintro (impossible | ⟨impossible, _⟩) <;> cases impossible

/-- `sleepers` always has room. -/
theorem sleep_succeeds (roomy : Roomy s) (running : A.current = some cur) (addr : Nat) :
    Op.exec (.sleep addr) s ≠ .error .miSwitchResult ∧
      Op.exec (.sleep addr) s ≠ .error .wakeupResult := by
  rcases valid.current_ok running with ⟨thread, present, _⟩
  have ensures := threadSleep_refines rel valid running present addr
  have numEq : s.numthreads = A.num := congrArg num rel.view
  have counted := valid.placed.num_eq
  rw [running, toList_some, List.length_singleton] at counted
  have lengthEq : s.sleepers.num = A.sleepers.length := by
    rw [← KArray.length_toList]
    exact congrArg List.length (congrArg sleepers rel.view)
  have max_le := roomy.2
  refine ⟨ne_halt_of_ensures ensures ?_, ne_halt_of_ensures ensures ?_⟩
  · rintro (impossible | ⟨_, full, _⟩)
    · cases impossible
    · have full : s.sleepers.num = s.sleepers.max := full
      omega
  · rintro (impossible | ⟨impossible, _⟩) <;> cases impossible

theorem exit_succeeds_iff (running : A.current = some cur) (starved : s.heap = noMemory) :
    Op.exec .exit s ≠ .error .miSwitchResult ∧ Op.exec .exit s ≠ .error .wakeupResult ↔
      SlotsLeft s .exit := by
  rcases valid.current_ok running with ⟨thread, present, _, inside, _⟩
  have ensures := threadExit_refines rel valid running present
  have num_le := rel.storage.zombies_wf.num_le
  constructor
  · rintro ⟨succeeds, _⟩
    by_contra noSlots
    have full : s.zombies.num = s.zombies.max := by
      have noSlots : ¬s.zombies.num < s.zombies.max := noSlots
      omega
    apply succeeds
    apply Prog.eq_halt_of_ensures
    apply threadExit_switches rel valid running present
    intro s₁ rel₁ heapEq zombiesEq _
    have retired : s₁.threads cur = some { thread with tVmspace := none, tCwd := none } := by
      rw [rel₁.threads_eq]
      simp [retire]
    have full₁ : ListFull s₁ thread.priority .zomb := by simpa [ListFull, zombiesEq] using full
    rw [ensures_of_halt_eq (miSwitch_full rel₁.storage (rel₁.curthread_eq.trans running)
      retired inside full₁ (by simp [heapEq, starved, noMemory]))]
  · intro slots
    have slots : s.zombies.num < s.zombies.max := slots
    refine ⟨ne_halt_of_ensures ensures ?_, ne_halt_of_ensures ensures ?_⟩
    · rintro (impossible | ⟨_, full, _⟩)
      · cases impossible
      · have full : s.zombies.num = s.zombies.max := full
        omega
    · rintro (impossible | ⟨impossible, _⟩) <;> cases impossible

/-- A run queue can only be too small for a wakeup when all threads go to it. -/
theorem wakeRoom_iff (roomy : Roomy s) (addr : Nat) :
    WakeRoom s A addr A.sleepers ↔ SlotsLeft s (.wakeup addr) := by
  have numEq : s.numthreads = A.num := congrArg num rel.view
  have counted := valid.placed.num_eq
  apply forall₂_congr
  intro p inside
  have waking := wakingAt_eq rel valid addr p
  have waking_le : wakingAt s addr p ≤ s.sleepers.toList.length := List.countP_le_length
  rw [show s.sleepers.toList = A.sleepers from congrArg sleepers rel.view] at waking_le
  rcases rel.length_runqueue_le inside with ⟨countEq, length_le⟩
  have size_le := roomy.1 p inside
  rw [Queue.length_toList]
  omega

theorem wakeup_succeeds_iff (roomy : Roomy s) (starved : s.heap = noMemory) (addr : Nat) :
    Op.exec (.wakeup addr) s ≠ .error .miSwitchResult ∧
      Op.exec (.wakeup addr) s ≠ .error .wakeupResult ↔ SlotsLeft s (.wakeup addr) := by
  have ensures := threadWakeup_refines rel valid addr
  rw [← wakeRoom_iff rel valid roomy addr]
  constructor
  · rintro ⟨_, succeeds⟩ p inside
    rcases ensures.outcomes with
      ⟨_, halted, rfl, _⟩ | ⟨_, _, _, failed⟩ | ⟨_, s', _, becomes, grows⟩
    · exact absurd halted succeeds
    · exact failed.elim
    have fits := Queue.count_lt (becomes.storage.runqueue_wf p inside)
    rw [← Queue.length_toList, becomes.storage.level p inside, wake,
      length_level_wakeFrom, (grows.starved starved).2 p inside] at fits
    exact fits
  · intro room
    refine ⟨ne_halt_of_ensures ensures ?_, ne_halt_of_ensures ensures ?_⟩
    · rintro ⟨impossible, _⟩
      cases impossible
    · exact fun halted => halted.2 room

/-- The operations that append to no list. -/
theorem other_succeeds {op : Op} (enabled : op.Enabled s) (noSwitch : ¬op.MayHalt .miSwitchResult)
    (noWakeup : ¬op.MayHalt .wakeupResult) :
    op.exec s ≠ .error .miSwitchResult ∧ op.exec s ≠ .error .wakeupResult :=
  ⟨ne_halt_of_ensures (exec_refines op rel valid enabled) noSwitch,
    ne_halt_of_ensures (exec_refines op rel valid enabled) noWakeup⟩

end Starved

/-- After a fork has succeeded, a step that is refused all memory still appends to its list
exactly if the list has a slot left. -/
theorem switch_succeeds_iff_slots_left (reachable : Reachable s)
    (forked : ∃ t, Event.fork t ∈ s.log) (op : Op) (enabled : op.Enabled s) :
    SwitchSucceeds s op ↔ SlotsLeft s op := by
  rcases reachable.related with ⟨A, rel, valid⟩
  have rel := rel.withHeap noMemory
  have roomy : Roomy { s with heap := noMemory } := reachable.roomy forked
  have current : s.curthread.isSome → ∃ cur, A.current = some cur := by
    intro isSome
    rw [← rel.curthread_eq]
    exact Option.isSome_iff_exists.mp isSome
  cases op with
  | yield => exact yield_succeeds_iff rel valid roomy rfl
  | wakeup addr => exact wakeup_succeeds_iff rel valid roomy rfl addr
  | exit =>
      rcases current enabled with ⟨cur, running⟩
      exact exit_succeeds_iff rel valid running rfl
  | sleep addr =>
      rcases current enabled with ⟨cur, running⟩
      exact iff_of_true (sleep_succeeds rel valid roomy running addr) trivial
  | fork => exact iff_of_true (other_succeeds rel valid enabled id id) trivial
  | resume => exact iff_of_true (other_succeeds rel valid enabled id id) trivial
  | setcurdir vn => exact iff_of_true (other_succeeds rel valid enabled id id) trivial
  | setVmspace space => exact iff_of_true (other_succeeds rel valid enabled id id) trivial

/-- With two threads there is room in the run queues that `scheduler_bootstrap` makes, and yielding
needs no memory. -/
theorem yield_succeeds_two_threads : ∃ s, Reachable s ∧ s.numthreads = 2 ∧
    SwitchSucceeds s .yield := by
  have computed : ((execute enoughMemory [(.fork, enoughMemory)]).any fun s =>
      s.numthreads == 2 && s.log.contains (.fork 1) &&
        s.curthread.all fun cur => (s.threads cur).all fun thread =>
          (s.runqueue thread.priority).size != 2) = true := by decide +kernel
  rcases (any_eq_true _ _).mp computed with ⟨s, executed, facts⟩
  simp only [Bool.and_eq_true, beq_iff_eq, List.contains_iff_mem] at facts
  rcases facts with ⟨⟨two, forked⟩, sizes⟩
  have reachable := reachable_of_execute executed
  refine ⟨s, reachable, two, ?_⟩
  apply (switch_succeeds_iff_slots_left reachable ⟨1, forked⟩ .yield trivial).mpr
  rintro cur thread running found ⟨sizeEq, _⟩
  simp [running, found, sizeEq, two] at sizes

/-- Zombies are not counted in `numthreads`, so the slots that `thread_fork` preallocates for
them can all be taken: here two threads are left, and `zombies` has six zombies in six slots. -/
theorem exit_fails_six_zombies : ∃ s, Reachable s ∧ (∃ t, Event.fork t ∈ s.log) ∧
    Op.exit.Enabled s ∧ s.numthreads = 2 ∧ s.zombies.num = 6 ∧ ¬SwitchSucceeds s .exit := by
  have computed : ((execute enoughMemory ([(.fork, enoughMemory), (.sleep 7, enoughMemory)] ++
      (List.replicate 5 [(Op.fork, enoughMemory), (Op.exit, enoughMemory)]).flatten ++
      [(.fork, enoughMemory), (.exit, noMemory)])).any fun s =>
      s.log.contains (.fork 7) && decide (Op.exit.Enabled s) && s.numthreads == 2 &&
        s.zombies.num == 6 && haltsAt .exit { s with heap := noMemory } .miSwitchResult) =
      true := by decide +kernel
  rcases (any_eq_true _ _).mp computed with ⟨s, executed, facts⟩
  simp only [Bool.and_eq_true, beq_iff_eq, List.contains_iff_mem, decide_eq_true_eq,
    haltsAt_iff] at facts
  rcases facts with ⟨⟨⟨⟨forked, enabled⟩, two⟩, six⟩, failed⟩
  exact ⟨s, reachable_of_execute executed, ⟨7, forked⟩, enabled, two, six,
    fun succeeds => succeeds.1 failed⟩

/-! ## Forks that fail -/

/-- What a failed fork must leave alone. -/
structure ForkUndone (s : ThreadSystem) (parent : Thread) (s' : ThreadSystem) : Prop where
  processIds : s'.processIds.toList = s.processIds.toList
  numthreads : s'.numthreads = s.numthreads
  runqueue : ∀ p < numPriorities, (s'.runqueue p).toList = (s.runqueue p).toList
  cwd : ∀ vn, parent.tCwd = some vn → s'.vnRefcount vn = s.vnRefcount vn

/-- What a successful fork must do: one new thread is runnable, with a copy of the parent's
address space. -/
structure ForkDone (s : ThreadSystem) (parent : Thread) (t : Nat) (s' : ThreadSystem) :
    Prop where
  fresh : s.threads t = none
  copied : ∃ child, s'.threads t = some child ∧ child.tVmspace = parent.tVmspace
  numthreads : s'.numthreads = s.numthreads + 1
  runqueue : ∀ p < numPriorities, (s'.runqueue p).toList =
    (s.runqueue p).toList ++ if p = priorityNormal then [t] else []

/-- A fork fails no assertion, and either does all of its work or undoes it. -/
def ForkCorrect (s : ThreadSystem) (parent : Thread) : Prop :=
  Prog.Ensures threadFork s (fun _ => False) (fun _ => ForkUndone s parent)
    (fun t => ForkDone s parent t)

/-- A fork that allocates nothing reports this; otherwise it needs a process id and all memory
that it asks for. -/
def ForkPossible (s : ThreadSystem) (parent : Thread) : Prop :=
  ¬s.heap.Grants 2 ∨ s.processIds.toList ≠ [] ∧ ForkMemory s parent

theorem Becomes.forkUndone (rel : Rel s A) (becomes : Becomes s A s') : ForkUndone s parent s' := by
  have sameView := becomes.1.view.trans rel.view.symm
  refine ⟨congrArg ids sameView, congrArg num sameView, ?_, ?_⟩
  · intro p inside
    rw [becomes.1.storage.level p inside, rel.storage.level p inside]
  · intro vn _
    exact congrFun (congrArg refs sameView) vn

theorem Becomes.forkDone {child : Thread} {rest : List Nat} (rel : Rel s A) (valid : A.Valid)
    (copied : child.tVmspace = parent.tVmspace) (becomes : Becomes s (A.enroll child rest) s') :
    ForkDone s parent A.nextThread s' := by
  have normal := valid.history.normal A.nextThread le_rfl
  refine ⟨?_, ⟨child, ?_, copied⟩, ?_, ?_⟩
  · rw [rel.threads_eq, valid.placed.fresh A.nextThread le_rfl]
  · rw [becomes.1.threads_eq]
    simp [enroll]
  · rw [show s'.numthreads = A.num + 1 from congrArg num becomes.1.view,
      show s.numthreads = A.num from congrArg num rel.view]
  · intro p inside
    rw [becomes.1.storage.level p inside, rel.storage.level p inside, enroll,
      Mlfq.State.level_push, normal]
    by_cases here : p = priorityNormal
    · simp [here]
    · simp [here, Ne.symm here]

/-- When a fork is correct. -/
theorem fork_correct_iff (reachable : Reachable s) (running : s.curthread = some cur)
    (present : s.threads cur = some thread) (heap : KHeap) :
    ForkCorrect { s with heap } thread ↔ ForkPossible { s with heap } thread := by
  rcases reachable.related with ⟨A, rel, valid⟩
  have rel := rel.withHeap heap
  have idsEq : s.processIds.toList = A.ids := congrArg Sched.ids rel.view
  have spec := threadFork_spec rel valid.forkable (rel.curthread_eq.symm.trans running)
    (rel.threads_eq ▸ present)
  rw [ForkPossible, show ({ s with heap } : ThreadSystem).processIds.toList = A.ids from idsEq]
  rcases spec.outcomes with ⟨_, outcome, rfl, granted, empty⟩ | ⟨_, s', outcome, failed⟩ |
    ⟨_, s', outcome, rfl, granted, _, child, rest, taken, _, _, _, memory, becomes, _⟩
  · rw [ForkCorrect, ensures_of_halt_eq outcome]
    simp [granted, empty]
  · rw [ForkCorrect, ensures_of_fail_eq outcome]
    rcases failed with ⟨refused, becomes⟩ | ⟨granted, refused, _, id, rest, taken, becomes⟩
    · exact iff_of_true (becomes.forkUndone rel) (Or.inl refused)
    · apply iff_of_false
      · intro undone
        have shorter : rest = id :: rest := by
          rw [← taken, ← idsEq]
          exact (congrArg Sched.ids becomes.1.view).symm.trans undone.processIds
        simp at shorter
      · rintro (impossible | ⟨_, memory⟩)
        · exact impossible granted
        · exact refused memory
  · rw [ForkCorrect, ensures_of_ok_eq outcome]
    rcases memory with ⟨memory, copied⟩ | ⟨refused, space, missing⟩
    · exact iff_of_true (becomes.forkDone rel valid copied)
        (Or.inr ⟨by simp [taken], memory⟩)
    · apply iff_of_false
      · intro done
        rcases done.copied with ⟨found, foundEq, copied⟩
        rw [becomes.1.threads_eq] at foundEq
        simp only [Sched.enroll, update_self, Option.some.injEq] at foundEq
        rw [← copied, ← foundEq, missing] at space
        simp at space
      · rintro (impossible | ⟨_, memory⟩)
        · exact impossible granted
        · exact refused memory

/-- The first fork after `boot`, with enough memory. -/
theorem fork_correct_enough_memory : ∃ s thread, Reachable s ∧ s.curthread = some 0 ∧
    s.threads 0 = some thread ∧ ForkCorrect { s with heap := enoughMemory } thread := by
  have computed : ((execute enoughMemory []).any fun s => s.curthread == some 0 &&
      (s.threads 0).isSome && s.processIds.toList != []) = true := by decide +kernel
  rcases (any_eq_true _ _).mp computed with ⟨s, executed, facts⟩
  simp only [Bool.and_eq_true, beq_iff_eq, bne_iff_ne] at facts
  rcases facts with ⟨⟨running, isSome⟩, notEmpty⟩
  rcases Option.isSome_iff_exists.mp isSome with ⟨thread, present⟩
  have reachable := reachable_of_execute executed
  refine ⟨s, thread, reachable, running, present, ?_⟩
  exact (fork_correct_iff reachable running present enoughMemory).mpr
    (Or.inr ⟨notEmpty, fun _ _ => rfl⟩)

/-- When the stack cannot be allocated, the fork fails and its process id is lost. -/
theorem fork_incorrect_without_stack : ∃ s thread, Reachable s ∧ s.curthread = some 0 ∧
    s.threads 0 = some thread ∧
    ¬ForkCorrect { s with heap := fun call => decide (call < 4) } thread := by
  have computed : ((execute enoughMemory []).any fun s => s.curthread == some 0 &&
      (s.threads 0).isSome &&
      (threadFork.failed { s with heap := fun call => decide (call < 4) }).any fun ending =>
        ending.2.processIds.toList != s.processIds.toList) = true := by decide +kernel
  rcases (any_eq_true _ _).mp computed with ⟨s, executed, facts⟩
  simp only [Bool.and_eq_true, beq_iff_eq] at facts
  rcases facts with ⟨⟨running, isSome⟩, lost⟩
  rcases Option.isSome_iff_exists.mp isSome with ⟨thread, present⟩
  refine ⟨s, thread, reachable_of_execute executed, running, present, ?_⟩
  intro correct
  rcases (any_eq_true _ _).mp lost with ⟨⟨failure, s'⟩, failed, changed⟩
  rw [ForkCorrect, ensures_of_fail_eq (Prog.failed_eq_some.mp failed)] at correct
  simp [correct.processIds] at changed

end Os161
