import Os161.Thread.Steps

/-!
# What holds in every reachable state

`boot` leaves the thread system in a state that is related to a valid state of the
machine on lists, and every step keeps it so (`Reachable.related`). The theorems at
the end of the file say what this means for the arrays and queues of the code:
every thread is in exactly one place, process ids are unique, and the run queues
are a multilevel feedback queue.
-/

namespace Os161

open List

variable {s : ThreadSystem} {A : Sched}

/-! ## Starting up -/

theorem qCreate_spec (size : Nat) (positive : 0 < size) (heap : KHeap) :
    Ensures (Queue.qCreate size : HeapM (Option (Queue Nat))) heap (fun _ => False)
      (fun _ _ => False)
      (fun result _ => ∀ q ∈ result, q.WellFormed ∧ q.size = size ∧ q.toList = []) := by
  simp only [Queue.qCreate, ensures_bind, ensures_kmalloc, ensures_ite, ensures_pure]
  split
  · split
    · rintro q ⟨⟩
      have wf : ({ size, nextwrite := 0, nextread := 0, data := fun _ => default } :
          Queue Nat).WellFormed := ⟨positive, positive⟩
      exact ⟨wf, rfl, (Queue.qEmpty_iff wf).mp rfl⟩
    · simp
  · simp

theorem schedulerBootstrapLoop_spec (ps : List Nat) :
    ∀ s : ThreadSystem, Ensures (schedulerBootstrapLoop ps) s (fun _ => True) (fun _ _ => False)
      (fun _ s' => (∃ heap runqueue, s' = { s with heap, runqueue }) ∧
        ∀ p, (p ∈ ps ∨ (s.runqueue p).WellFormed ∧ (s.runqueue p).size = 32 ∧
          (s.runqueue p).toList = []) →
          (s'.runqueue p).WellFormed ∧ (s'.runqueue p).size = 32 ∧
            (s'.runqueue p).toList = []) := by
  induction ps with
  | nil =>
      intro s
      exact ⟨⟨s.heap, s.runqueue, rfl⟩, fun p done => done.resolve_left not_mem_nil⟩
  | cons p ps ih =>
      intro s
      simp only [schedulerBootstrapLoop, ensures_bind, ThreadM.ensures_onHeap]
      apply (qCreate_spec 32 (by decide) s.heap).returning
      rintro (_ | q) heap created
      · trivial
      simp only [ensures_bind, ensures_modify]
      apply (ih _).imp
      rintro _ s' ⟨⟨heap', runqueue', rfl⟩, done⟩
      refine ⟨⟨heap', runqueue', rfl⟩, ?_⟩
      intro other isDone
      apply done
      by_cases same : other = p
      · right
        subst same
        simpa [ThreadSystem.setRunqueue] using created q rfl
      · rcases isDone with member | isDone
        · exact Or.inl ((mem_cons.mp member).resolve_left same)
        · right
          simpa [ThreadSystem.setRunqueue, update_of_ne same] using isDone

/-- The ring of process ids grows once, when the last id is added. -/
theorem makeIds_spec (left : Nat) :
    ∀ {i : Nat} {ids : Queue Nat} {heap : KHeap}, ids.WellFormed → ids.toList = range i →
      i + left = maxThreads →
      (i < maxThreads ∧ ids.size = maxThreads ∨ i = maxThreads ∧ 2 * maxThreads ≤ ids.size) →
      Ensures (makeIds left i ids) heap (fun _ => True) (fun _ _ => False)
        (fun ids' _ => ids'.WellFormed ∧ ids'.toList = range maxThreads ∧
          2 * maxThreads ≤ ids'.size) := by
  induction left with
  | zero =>
      intro i ids heap wf listEq total size
      have full : i = maxThreads := total
      exact ⟨wf, full ▸ listEq, (size.resolve_left (fun few => absurd few.1 (by omega))).2⟩
  | succ left ih =>
      intro i ids heap wf listEq total size
      have sizeEq : ids.size = maxThreads := (size.resolve_right (by omega)).2
      have countEq : ids.count = i := by rw [← Queue.length_toList, listEq, length_range]
      have small : maxThreads < 2 ^ 30 := by decide
      have listEq' : ids.toList ++ [i] = range (i + 1) := by rw [listEq, range_succ]
      simp only [makeIds, ensures_bind, ensures_kmalloc, ensures_ite,
        ensures_attempt, Prog.ensures_halt]
      split
      · rcases Queue.qAddtail_eq wf (by omega) i (heap.after 1) with
          ⟨free, outcome⟩ | ⟨full, memory, outcome⟩ |
            ⟨full, memory, ids', outcome, wf', listEq'', double_le, _⟩
        · rw [ensures_of_ok_eq outcome]
          apply ih (Queue.push_wellFormed wf i) ((Queue.push_toList wf free i).trans listEq')
            (by omega)
          exact Or.inl ⟨by omega, sizeEq⟩
        · rw [ensures_of_fail_eq outcome]
          trivial
        · rw [ensures_of_ok_eq outcome]
          apply ih wf' (listEq''.trans listEq') (by omega)
          exact Or.inr ⟨by omega, by omega⟩
      · trivial

def Sched.unbooted (refs : Nat → Nat) : Sched :=
  { current := none, idling := none, queue := { ready := [], prio := fun _ => priorityNormal },
    sleepers := [], zombies := [], ids := List.range maxThreads, num := 0,
    threads := fun _ => none, nextThread := 0, refs, log := [] }

def Sched.boot (refs : Nat → Nat) (ft : Option FileTable) : Sched :=
  { current := some 0, idling := none, queue := { ready := [], prio := fun _ => priorityNormal },
    sleepers := [], zombies := [], ids := (List.range maxThreads).tail, num := 1,
    threads := Function.update (fun _ => none) 0 (some (freshThread 0 ft)), nextThread := 1,
    refs, log := [] }

theorem Sched.boot_placed (refs : Nat → Nat) (ft : Option FileTable) :
    (Sched.boot refs ft).Placed := by
  refine ⟨?_, rfl, ?_, ?_⟩
  · intro t
    by_cases first : t = 0
    · simp [boot, first]
    · simp [boot, update_of_ne first, Ne.symm first]
  · intro t beyond
    have different : t ≠ 0 := by
      rintro rfl
      simp [boot] at beyond
    simp [boot, update_of_ne different]
  · intro t idling
    simp [boot] at idling

theorem Sched.boot_ids (refs : Nat → Nat) (ft : Option FileTable) :
    (Sched.boot refs ft).IdsValid := by
  have nobody : Ownership.Exclusive (fun _ : Nat => (none : Option Nat)) := by
    intro left right resource held
    simp at held
  have idOfEq : (Sched.boot refs ft).idOf = Function.update (fun _ => none) 0 (some 0) := by
    funext t
    by_cases first : t = 0
    · simp [idOf, boot, first, freshThread]
    · simp [idOf, boot, update_of_ne first]
  have free : ∀ id ∈ (range maxThreads).tail, id ≠ 0 ∧ id < maxThreads := by
    decide
  refine ⟨?_, ?_, ?_, ?_, fun id member => (free id member).2⟩
  · rw [idOfEq]
    exact nobody.give (fun _ => by simp) 0
  · intro id member
    rw [idOfEq]
    exact Ownership.Unheld.give (fun _ => by simp) (free id member).1 0
  · exact (nodup_range (n := maxThreads)).tail
  · intro t id held
    rw [idOfEq] at held
    by_cases first : t = 0
    · simp only [first, update_self, Option.some.injEq] at held
      rw [← held]
      decide
    · simp [update_of_ne first] at held

theorem Sched.boot_valid (refs : Nat → Nat) {ft : Option FileTable} (closed : FilesClosed ft) :
    (Sched.boot refs ft).Valid := by
  refine ⟨boot_placed refs ft, boot_ids refs ft, ?_, ?_, ?_⟩
  · intro t thread present
    have first : t = 0 := by
      by_contra different
      simp [boot, update_of_ne different] at present
    subst first
    simp only [boot, update_self, Option.some.injEq] at present
    subst present
    refine ⟨rfl, closed, ?_, ?_⟩
    · intro dead
      simp [boot] at dead
    · intro _
      simp [boot, freshThread]
  · refine ⟨Mlfq.Run.nil, fun _ _ => rfl, ?_, ?_, ?_, List.Pairwise.nil, ?_⟩ <;> simp [boot]
  · exact fun vn => Nat.zero_le (refs vn)

/-- Starting up panics, or makes the first thread. -/
theorem bootstrap_refines (refs : Nat → Nat) (heap : KHeap) :
    Ensures (do schedulerBootstrap; threadBootstrap : ThreadM Unit) (unbooted refs heap)
      (fun _ => True) (fun _ _ => False)
      (fun _ s => ∃ ft, Sched.FilesClosed ft ∧ Rel s (Sched.boot refs ft)) := by
  rw [ensures_bind, schedulerBootstrap]
  apply (schedulerBootstrapLoop_spec _ _).imp
  rintro _ s₁ ⟨⟨heap₁, runqueue, rfl⟩, queues⟩
  simp only [threadBootstrap, ensures_bind, ThreadM.ensures_onHeap, KArray.arrayCreate,
    ensures_kmalloc, ensures_ite, ensures_pure]
  split
  · split
    · apply (qCreate_spec maxThreads (by decide) _).returning
      rintro (_ | ids) heap₂ created
      · trivial
      rcases created ids rfl with ⟨idsWf, idsSize, idsNil⟩
      simp only [ensures_bind, ThreadM.ensures_onHeap]
      apply (makeIds_spec maxThreads idsWf (by simpa using idsNil) (Nat.zero_add _)
        (Or.inl ⟨by decide, idsSize⟩)).imp
      rintro ids' heap₃ ⟨idsWf', idsEq, idsRoom⟩
      simp only [ensures_modify]
      have rel : Rel { unbooted refs heap with
          runqueue, processIds := ids', sleepers := KArray.empty, zombies := KArray.empty,
          heap := heap₃ } (Sched.unbooted refs) := by
        have made : ∀ p < numPriorities, (runqueue p).WellFormed ∧ (runqueue p).size = 32 ∧
            (runqueue p).toList = [] :=
          fun p inside => queues p (Or.inl (mem_range.mpr inside))
        refine ⟨?_, KArray.empty_wellFormed, KArray.empty_wellFormed, idsWf', idsRoom, ?_, ?_, ?_⟩
        · simp only [ThreadSystem.view, idsEq]
          rfl
        · exact fun p inside => (made p inside).1
        · intro p inside
          rw [show (runqueue p).size = 32 from (made p inside).2.1]
          decide
        · exact fun p inside => (made p inside).2.2
      apply (threadCreate_spec rel).returning
      rintro result s₂ (⟨rfl, _⟩ | ⟨id, rest, ft, rfl, _, taken, closed, _, _, rel₂, _⟩)
      · trivial
      simp only [ensures_modify]
      refine ⟨ft, closed, ?_⟩
      have idsSplit : range maxThreads = 0 :: (range maxThreads).tail := by decide
      rw [show (Sched.unbooted refs).ids = range maxThreads from rfl, idsSplit] at taken
      rcases cons.inj taken with ⟨rfl, rfl⟩
      rcases rel₂.exists_view with ⟨queue, view₂, storage₂⟩
      have bootEq : Sched.boot refs ft =
          { (Sched.unbooted refs).create (freshThread 0 ft) (range maxThreads).tail with
            current := some 0, num := 1 } := rfl
      rw [bootEq, view₂]
      exact ⟨rfl, storage₂⟩
    · trivial
  · trivial

theorem Booted.related (booted : Booted s) :
    ∃ refs ft, Sched.FilesClosed ft ∧ Rel s (Sched.boot refs ft) := by
  rcases booted with ⟨refs, heap, outcome⟩
  exact ⟨refs, (ensures_of_ok_eq outcome).mp (bootstrap_refines refs heap)⟩

/-! ## Steps -/

/-- Every reachable state is related to a valid state of the machine on lists. -/
theorem Reachable.related (reachable : Reachable s) : ∃ A, Rel s A ∧ A.Valid := by
  apply Machine.Reachable.invariant _ _ reachable
  · intro s booted
    rcases booted.related with ⟨refs, ft, closed, rel⟩
    exact ⟨_, rel, Sched.boot_valid refs closed⟩
  · rintro s op heap _ enabled ⟨A, rel, valid⟩
    apply (exec_refines op (rel.withHeap heap) valid enabled).mono
    · exact fun _ _ => trivial
    · rintro _ s' ⟨B, next, rel', _⟩
      exact ⟨B, rel', next.valid valid⟩
    · rintro _ s' ⟨B, next, rel', _⟩
      exact ⟨B, rel', next.valid valid⟩

/-! ## Runs that can be computed -/

instance (s : ThreadSystem) : (op : Op) → Decidable (op.Enabled s)
  | .fork => inferInstanceAs (Decidable (s.curthread.isSome = true))
  | .yield => inferInstanceAs (Decidable True)
  | .sleep _ => inferInstanceAs (Decidable (s.curthread.isSome = true))
  | .wakeup _ => inferInstanceAs (Decidable True)
  | .exit => inferInstanceAs (Decidable (s.curthread.isSome = true))
  | .resume => inferInstanceAs (Decidable (s.idling.isSome = true ∧ doIdle s = false))
  | .setcurdir _ => inferInstanceAs (Decidable (s.curthread.isSome = true))
  | .setVmspace _ => inferInstanceAs (Decidable (s.curthread.isSome = true))

instance (op : Op) (s : ThreadSystem) : Decidable (threadMachine.Enabled op s) :=
  inferInstanceAs (Decidable (op.Enabled s))

/-- The state after `boot`, if it does not panic. -/
def start (heap : KHeap) : Option ThreadSystem :=
  match (do schedulerBootstrap; threadBootstrap : ThreadM Unit) (unbooted (fun _ => 1) heap) with
  | .ok (.ok (), s) => some s
  | _ => none

/-- The state after `boot` and the operations. -/
def execute (heap : KHeap) (steps : List (Op × KHeap)) : Option ThreadSystem :=
  (start heap).bind fun s => threadMachine.execute s steps

def haltsAt (op : Op) (s : ThreadSystem) (reason : Panic) : Bool :=
  match op.exec s with
  | .error found => found == reason
  | .ok _ => false

theorem haltsAt_iff {op : Op} {reason : Panic} :
    haltsAt op s reason = true ↔ op.exec s = .error reason := by
  rw [haltsAt]
  cases op.exec s <;> simp

theorem booted_of_start {heap : KHeap} (started : start heap = some s) : Booted s := by
  rw [start] at started
  split at started
  · rename_i outcome
    cases started
    exact ⟨_, _, outcome⟩
  · cases started

theorem reachable_of_execute {heap : KHeap} {steps : List (Op × KHeap)}
    (executed : execute heap steps = some s) : Reachable s := by
  rcases bind_eq_some_iff.mp executed with ⟨s₀, started, performed⟩
  exact (Machine.Reachable.start (booted_of_start started)).execute performed

/-! ## The lists of the code -/

def readyThreads (s : ThreadSystem) : List Nat :=
  (List.range numPriorities).flatMap fun p => (s.runqueue p).toList

/-- How often a thread is in the lists of the thread system. -/
def placeCount (s : ThreadSystem) (t : Nat) : Nat :=
  s.curthread.toList.count t + (readyThreads s).count t + s.sleepers.toList.count t +
    s.zombies.toList.count t

theorem readyThreads_perm (rel : Rel s A) (valid : A.Valid) :
    (readyThreads s).Perm A.queue.ready := by
  have levelsEq : readyThreads s = A.queue.levels numPriorities := by
    apply flatMap_congr
    intro p member
    exact rel.storage.level p (mem_range.mp member)
  rw [levelsEq]
  apply Mlfq.State.levels_perm
  intro t
  exact lt_of_le_of_lt (valid.history.run.prio_le t) (by decide)

/-- Every thread structure is in exactly one place, the threads outside `zombies` are counted,
an exited thread is not dispatched again and is destroyed at most once, and no step destroys
the current thread or uses a structure that is gone. -/
theorem reachable_threads_partitioned (reachable : Reachable s) :
    (∀ t, placeCount s t = if (s.threads t).isSome then 1 else 0) ∧
      s.numthreads = s.curthread.toList.length + (readyThreads s).length +
        s.sleepers.toList.length ∧
      (∀ t later earlier, s.log = later ++ .exit t :: earlier → Event.dispatch t ∉ later) ∧
      (∀ t, s.log.count (.destroy t) ≤ 1) ∧
      (∀ t, Event.destroy t ∈ s.log → s.threads t = none ∧ s.curthread ≠ some t) ∧
      ∀ (op : Op) (heap : KHeap) (reason : Panic), op.Enabled s →
        op.exec { s with heap } = .error reason → op.MayHalt reason := by
  rcases reachable.related with ⟨A, rel, valid⟩
  have perm := readyThreads_perm rel valid
  rcases rel.exists_view with ⟨queue, rfl, storage⟩
  refine ⟨?_, ?_, ?_, valid.history.destroyed_once, ?_, ?_⟩
  · intro t
    have once := valid.placed.once t
    rw [← perm.count_eq] at once
    rw [placeCount]
    refine once.trans ?_
    cases present : s.threads t <;> simp [ThreadSystem.view, present]
  · rw [perm.length_eq]
    exact valid.placed.num_eq
  · intro t later earlier logEq
    have final := valid.history.final
    rw [show (s.view queue).log = later ++ .exit t :: earlier from logEq,
      List.pairwise_append] at final
    intro dispatched
    exact final.2.2 _ dispatched _ List.mem_cons_self t rfl rfl
  · intro t destroyed
    have gone := (valid.history.destroyed t destroyed).1
    refine ⟨gone, ?_⟩
    intro running
    have present := (valid.placed.of_mem .current (Sched.Placed.mem_current running)).1
    simp [gone] at present
  · intro op heap reason enabled outcome
    have refines := exec_refines op (rel.withHeap heap) valid enabled
    exact (ensures_of_halt_eq outcome).mp refines

/-- The partition when one thread sleeps, one runs, and one has exited. -/
theorem threads_partitioned_three_forked : ∃ s, Reachable s ∧ s.numthreads = 2 ∧
    s.zombies.num = 1 ∧ ∀ t, placeCount s t = if (s.threads t).isSome then 1 else 0 := by
  have computed : ((execute enoughMemory [(.fork, enoughMemory), (.sleep 7, enoughMemory),
      (.fork, enoughMemory), (.exit, enoughMemory)]).any fun s =>
      s.numthreads == 2 && s.zombies.num == 1) = true := by decide +kernel
  rcases (any_eq_true _ _).mp computed with ⟨s, executed, facts⟩
  have reachable := reachable_of_execute executed
  simp only [Bool.and_eq_true, beq_iff_eq] at facts
  exact ⟨s, reachable, facts.1, facts.2, (reachable_threads_partitioned reachable).1⟩

/-- Process ids are held by one thread each or free, and giving one back always succeeds. -/
theorem reachable_ids_unique (reachable : Reachable s) :
    (∀ t thread, s.threads t = some thread →
      thread.id < maxThreads ∧ thread.id ∉ s.processIds.toList) ∧
      (∀ t t' thread thread', s.threads t = some thread → s.threads t' = some thread' →
        thread.id = thread'.id → t = t') ∧
      s.processIds.toList.Nodup ∧
      (∀ t thread heap, s.threads t = some thread → ∃ ids,
        s.processIds.qAddtail thread.id heap = .ok (.ok ids, heap) ∧
          ids.toList = s.processIds.toList ++ [thread.id]) ∧
      ∀ id, Event.idLost id ∉ s.log := by
  rcases reachable.related with ⟨A, rel, valid⟩
  rcases rel.exists_view with ⟨queue, rfl, storage⟩
  have held : ∀ t thread, s.threads t = some thread →
      (s.view queue).idOf t = some thread.id := by
    intro t thread present
    have present : (s.view queue).threads t = some thread := present
    simp [Sched.idOf, present]
  refine ⟨?_, ?_, valid.ids.nodup, ?_, valid.history.kept⟩
  · intro t thread present
    refine ⟨valid.ids.held_lt t _ (held t thread present), ?_⟩
    intro member
    exact valid.ids.unheld _ member t (held t thread present)
  · intro t t' thread thread' present present' same
    apply valid.ids.exclusive (held t thread present)
    rw [same]
    exact held t' thread' present'
  · intro t thread heap present
    have free : s.processIds.count + 1 < s.processIds.size := by
      have count_le : s.processIds.count ≤ maxThreads := by
        rw [← Queue.length_toList]
        exact valid.ids.length_le
      have size_le := storage.processIds_size
      simp only [maxThreads] at count_le size_le
      omega
    exact ⟨_, Queue.qAddtailAt_free storage.processIds_wf free 1 thread.id heap,
      Queue.push_toList storage.processIds_wf free thread.id⟩

theorem ids_unique_three_forked : ∃ s, Reachable s ∧ s.processIds.toList.length = 97 ∧
    s.processIds.toList.Nodup := by
  have computed : ((execute enoughMemory [(.fork, enoughMemory), (.sleep 7, enoughMemory),
      (.fork, enoughMemory), (.exit, enoughMemory)]).any fun s =>
      s.processIds.toList.length == 97) = true := by decide +kernel
  rcases (any_eq_true _ _).mp computed with ⟨s, executed, facts⟩
  have reachable := reachable_of_execute executed
  exact ⟨s, reachable, by simpa using facts, (reachable_ids_unique reachable).2.2.1⟩

theorem count_pick_labels (log : List Event) (t : Nat) :
    (Event.labels log).count (.pick t) = log.count (.dispatch t) := by
  induction log with
  | nil => rfl
  | cons event log ih =>
      cases event with
      | dispatch other =>
          by_cases same : other = t <;>
            simp [Event.labels, Event.label, same] at ih ⊢ <;> simp [ih]
      | _ => simpa [Event.labels, Event.label, filterMap_cons] using ih

/-- The run queues are a multilevel feedback queue. The history of threads made runnable and
dispatched is a run of it: each dispatch takes the thread of the highest priority that was made
runnable first. A queue holds, in the order in which they were made runnable, the ready threads
whose priority field is its index, and the field is lowered by each dispatch, until zero. -/
theorem reachable_runqueues_refine_mlfq (reachable : Reachable s) :
    ∃ queue, Mlfq.Run (fun _ => priorityNormal) (Event.labels s.log) queue ∧
      (∀ p < numPriorities, (s.runqueue p).toList = queue.level p) ∧
      (∀ p < numPriorities, ∀ t ∈ (s.runqueue p).toList,
        ∃ thread, s.threads t = some thread ∧ thread.priority = p) ∧
      ∀ t thread, s.threads t = some thread → thread.priority < numPriorities ∧
        thread.priority = queue.prio t ∧
        thread.priority = priorityNormal - s.log.count (.dispatch t) := by
  rcases reachable.related with ⟨A, rel, valid⟩
  rcases rel.exists_view with ⟨queue, rfl, storage⟩
  have run : Mlfq.Run (fun _ => priorityNormal) (Event.labels s.log) queue := valid.history.run
  refine ⟨queue, run, storage.level, ?_, ?_⟩
  · intro p inside t member
    rw [storage.level p inside] at member
    rcases Mlfq.State.mem_level.mp member with ⟨ready, prioEq⟩
    rcases Option.isSome_iff_exists.mp (valid.placed.of_mem .ready ready).1 with ⟨thread, present⟩
    exact ⟨thread, present, (valid.threads t thread present).priority.symm.trans prioEq⟩
  · intro t thread present
    have prioEq : queue.prio t = thread.priority := (valid.threads t thread present).priority
    have counted := run.prio_eq t
    rw [count_pick_labels, prioEq] at counted
    have le := run.prio_le t
    refine ⟨?_, prioEq.symm, counted⟩
    rw [← prioEq]
    exact lt_of_le_of_lt le (by decide)

theorem runqueues_refine_mlfq_after_yield : ∃ s, Reachable s ∧
    s.curthread = some 1 ∧ (s.runqueue 1).toList = [0] ∧
      ∃ queue, Mlfq.Run (fun _ => priorityNormal) (Event.labels s.log) queue := by
  have computed : ((execute enoughMemory [(.fork, enoughMemory), (.yield, enoughMemory)]).any
      fun s => s.curthread == some 1 && (s.runqueue 1).toList == [0]) = true := by decide +kernel
  rcases (any_eq_true _ _).mp computed with ⟨s, executed, facts⟩
  have reachable := reachable_of_execute executed
  simp only [Bool.and_eq_true, beq_iff_eq] at facts
  rcases reachable_runqueues_refine_mlfq reachable with ⟨queue, run, _⟩
  exact ⟨s, reachable, facts.1, facts.2, queue, run⟩

end Os161
