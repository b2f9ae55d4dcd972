import Os161.Thread.Reachable

/-!
# Which sleepers `thread_wakeup` moves

The loop of `thread_wakeup` removes elements from the array that it goes through. In
the middle of it the array holds the sleepers that were stepped over, followed by those
that were not looked at yet, and the index is where the second part begins. Whatever the
array and the run queues hold, the sleepers on the address are taken out, and
`make_runnable` is called for them in the order in which they were there.
-/

namespace Os161

open ThreadSystem ThreadM

variable {s s' : ThreadSystem} {addr t : Nat}

namespace ThreadSystem

/-- `t->t_sleepaddr == addr`. -/
def sleepsOn (s : ThreadSystem) (addr t : Nat) : Bool :=
  (s.threads t).any fun thread => thread.tSleepaddr = some addr

/-- The sleepers on an address, in the order of the array. -/
def sleepersOn (s : ThreadSystem) (addr : Nat) : List Nat :=
  s.sleepers.toList.filter (s.sleepsOn addr)

/-- The number of the run queue to which `make_runnable` adds a thread. -/
def hasPriority (s : ThreadSystem) (p t : Nat) : Bool :=
  (s.threads t).any fun thread => thread.priority = p

/-- An array of pointers to thread structures, and queues. -/
structure ListsOk (s : ThreadSystem) : Prop where
  sleepers : s.sleepers.WellFormed
  threads : ∀ t ∈ s.sleepers.toList, (s.threads t).isSome
  runqueue : ∀ p < numPriorities, (s.runqueue p).WellFormed

end ThreadSystem

/-- `make_runnable` for one thread after the other, up to the first error. -/
def makeRunnableAll : List Nat → ThreadM Unit
  | [] => pure ()
  | t :: ts => do
      makeRunnable t
      makeRunnableAll ts

/-! ## Calls of `make_runnable` that succeed -/

theorem Queue.qAddtail_ok {α : Type} [Inhabited α] {q q' : Queue α} (wf : q.WellFormed) {ptr : α}
    {heap heap' : KHeap} (added : q.qAddtail ptr heap = .ok (.ok q', heap')) :
    q'.WellFormed ∧ q'.toList = q.toList ++ [ptr] := by
  have positive : 0 < q.size := Nat.zero_lt_of_lt wf.nextread_lt
  by_cases free : q.count + 1 < q.size
  · rw [qAddtail, qAddtailAt_free wf free 1 ptr heap] at added
    simp only [Except.ok.injEq, Prod.mk.injEq] at added
    rw [← added.1]
    exact ⟨push_wellFormed wf ptr, push_toList wf free ptr⟩
  · have full : q.count + 1 = q.size := by
      have := count_lt wf
      omega
    -- a queue that is too large to be doubled is not added to
    have small : q.size < 2 ^ 30 := by
      rw [qAddtail, qAddtailAt, bind_of_ok (assert_of positive heap),
        if_pos ((next_eq_nextread_iff wf).mpr full), bind_eq_ok_iff] at added
      rcases added with ⟨_, _, grown, _⟩
      rw [qGrowWith, bind_eq_ok_iff] at grown
      rcases grown with ⟨_, _, sized, _⟩
      rw [growSize, if_pos (Nat.lt_succ_self q.size), bind_eq_ok_iff] at sized
      rcases sized with ⟨_, _, asserted, _⟩
      by_contra large
      rw [Prog.assert_of_not (by omega)] at asserted
      cases asserted
    rcases qAddtail_eq wf small ptr heap with
      ⟨free', _⟩ | ⟨_, _, outcome⟩ | ⟨_, _, grown, outcome, wf', listEq, _⟩
    · omega
    · rw [outcome] at added
      cases added
    · rw [outcome] at added
      cases added
      exact ⟨wf', listEq⟩

theorem ThreadM.deref_eq_ok_iff {thread : Thread} :
    deref t s = .ok (.ok thread, s') ↔ s.threads t = some thread ∧ s = s' := by
  unfold deref
  cases s.threads t <;> simp

theorem ThreadM.onHeap_of_ok {α : Type} {program : HeapM α} {value : α} {heap : KHeap}
    (outcome : program s.heap = .ok (.ok value, heap)) :
    onHeap program s = .ok (.ok value, { s with heap }) := by
  simp [onHeap, zoom, outcome]

theorem ThreadM.onHeap_eq_ok {α : Type} {program : HeapM α} {value : α}
    (outcome : onHeap program s = .ok (.ok value, s')) :
    ∃ heap, program s.heap = .ok (.ok value, heap) ∧ s' = { s with heap } := by
  unfold onHeap zoom at outcome
  rcases inner : program s.heap with reason | ⟨result, heap⟩ <;> simp [inner] at outcome
  exact ⟨heap, by rw [outcome.1], outcome.2.symm⟩

def ThreadSystem.enqueued (s : ThreadSystem) (t p : Nat) (q : Queue Nat) (heap : KHeap) :
    ThreadSystem :=
  (({ s with heap }).setRunqueue p q).record (.runnable t)

theorem makeRunnable_eq_ok_iff : makeRunnable t s = .ok (.ok (), s') ↔
    ∃ thread q heap, s.threads t = some thread ∧ thread.priority < numPriorities ∧
      (s.runqueue thread.priority).qAddtail t s.heap = .ok (.ok q, heap) ∧
      s' = s.enqueued t thread.priority q heap := by
  rw [makeRunnable, bind_eq_ok_iff]
  constructor
  · rintro ⟨thread, _, found, rest⟩
    rcases deref_eq_ok_iff.mp found with ⟨present, rfl⟩
    by_cases inside : thread.priority < numPriorities
    · rw [bind_of_ok (assert_of inside s), bind_of_ok (get_apply s), bind_eq_ok_iff] at rest
      rcases rest with ⟨q, _, added, rest⟩
      rcases onHeap_eq_ok added with ⟨heap, inner, rfl⟩
      cases rest
      exact ⟨thread, q, heap, present, inside, inner, rfl⟩
    · rw [bind_of_halt (Prog.assert_of_not inside s)] at rest
      cases rest
  · rintro ⟨thread, q, heap, present, inside, added, rfl⟩
    refine ⟨thread, s, deref_eq_ok_iff.mpr ⟨present, rfl⟩, ?_⟩
    rw [bind_of_ok (assert_of inside s), bind_of_ok (get_apply s), bind_of_ok (onHeap_of_ok added)]
    rfl

theorem makeRunnable_setSleepers (sleepers : KArray Nat)
    (runs : makeRunnable t s = .ok (.ok (), s')) :
    makeRunnable t { s with sleepers } = .ok (.ok (), { s' with sleepers }) := by
  rcases makeRunnable_eq_ok_iff.mp runs with ⟨thread, q, heap, present, inside, added, rfl⟩
  exact makeRunnable_eq_ok_iff.mpr ⟨thread, q, heap, present, inside, added, rfl⟩

theorem makeRunnableAll_setSleepers (sleepers : KArray Nat) (ts : List Nat) :
    ∀ {s s' : ThreadSystem}, makeRunnableAll ts s = .ok (.ok (), s') →
      makeRunnableAll ts { s with sleepers } = .ok (.ok (), { s' with sleepers }) := by
  induction ts with
  | nil =>
      rintro s _ ⟨⟩
      rfl
  | cons t ts ih =>
      intro s s' runs
      rcases bind_eq_ok_iff.mp runs with ⟨⟨⟩, between, first, rest⟩
      rw [makeRunnableAll, bind_of_ok (makeRunnable_setSleepers sleepers first)]
      exact ih rest

/-- What successful calls of `make_runnable` do to the run queues; the structures of the threads
stay as they are. -/
theorem makeRunnableAll_spec (ts : List Nat) :
    ∀ {s s' : ThreadSystem}, (∀ p < numPriorities, (s.runqueue p).WellFormed) →
      makeRunnableAll ts s = .ok (.ok (), s') → s'.threads = s.threads ∧
        s'.sleepers = s.sleepers ∧ ∀ p < numPriorities, (s'.runqueue p).WellFormed ∧
          (s'.runqueue p).toList = (s.runqueue p).toList ++ ts.filter (s.hasPriority p) := by
  induction ts with
  | nil =>
      rintro s _ wf ⟨⟩
      exact ⟨rfl, rfl, fun p inside => ⟨wf p inside, by simp⟩⟩
  | cons t ts ih =>
      intro s s' wf runs
      rcases bind_eq_ok_iff.mp runs with ⟨⟨⟩, between, first, rest⟩
      rcases makeRunnable_eq_ok_iff.mp first with ⟨thread, q, heap, present, inside, added, rfl⟩
      rcases Queue.qAddtail_ok (wf _ inside) added with ⟨qWf, qEq⟩
      have wf' : ∀ p < numPriorities,
          ((s.enqueued t thread.priority q heap).runqueue p).WellFormed := by
        intro p pInside
        by_cases same : p = thread.priority
        · simpa [enqueued, setRunqueue, record, same] using qWf
        · simpa [enqueued, setRunqueue, record, same] using wf p pInside
      rcases ih wf' rest with ⟨threadsEq, sleepersEq, queues⟩
      refine ⟨threadsEq, sleepersEq, ?_⟩
      intro p pInside
      rcases queues p pInside with ⟨pWf, listEq⟩
      refine ⟨pWf, listEq.trans ?_⟩
      have samePriority : (s.enqueued t thread.priority q heap).hasPriority p = s.hasPriority p :=
        rfl
      by_cases same : p = thread.priority
      · have here : s.hasPriority p t = true := by simp [hasPriority, present, same]
        rw [samePriority, List.filter_cons_of_pos here]
        simp [enqueued, setRunqueue, record, same, qEq]
      · have elsewhere : ¬s.hasPriority p t = true := by
          simpa [hasPriority, present] using Ne.symm same
        rw [samePriority, List.filter_cons_of_neg elsewhere]
        simp [enqueued, setRunqueue, record, same]

/-! ## The loop -/

section Turn

variable {thread : Thread} {kept rest : List Nat}

theorem wakeupLoop_pass (wf : s.sleepers.WellFormed)
    (asleep : s.sleepers.toList = kept ++ t :: rest) (present : s.threads t = some thread)
    (other : thread.tSleepaddr ≠ some addr) (fuel : Nat) :
    wakeupLoop addr (fuel + 1) kept.length s = wakeupLoop addr fuel (kept.length + 1) s := by
  rcases sleepers_next wf asleep with ⟨inside, got, _⟩
  rw [wakeupLoop, bind_of_ok (get_apply s), if_pos inside, bind_of_ok (onHeap_of_ok got),
    bind_of_ok (deref_eq_ok_iff.mpr ⟨present, rfl⟩), if_neg other]

/-- One turn of the loop that wakes a sleeper; the index stays. -/
theorem wakeupLoop_wake (wf : s.sleepers.WellFormed)
    (asleep : s.sleepers.toList = kept ++ t :: rest) (present : s.threads t = some thread)
    (same : thread.tSleepaddr = some addr) (runs : makeRunnable t s = .ok (.ok (), s')) :
    ∃ sleepers, sleepers.WellFormed ∧ sleepers.toList = kept ++ rest ∧ ∀ fuel,
      wakeupLoop addr (fuel + 1) kept.length s =
        wakeupLoop addr fuel kept.length { s' with sleepers } := by
  rcases sleepers_next wf asleep with ⟨inside, got, sleepers, removed, wf', listEq, _⟩
  refine ⟨sleepers, wf', listEq, ?_⟩
  intro fuel
  have runs' := makeRunnable_setSleepers sleepers runs
  have modified : (modify fun s => { s with sleepers } : ThreadM Unit) s =
      .ok (.ok (), { s with sleepers }) := rfl
  rw [wakeupLoop, bind_of_ok (get_apply s), if_pos inside, bind_of_ok (onHeap_of_ok got),
    bind_of_ok (deref_eq_ok_iff.mpr ⟨present, rfl⟩), if_pos same, bind_of_ok (onHeap_of_ok removed),
    bind_of_ok modified, bind_of_ok (Prog.attempt_of_ok runs')]

end Turn

/-- From any point of the loop, with any fuel that is enough for the sleepers that are left. -/
theorem wakeupLoop_eq (rest : List Nat) :
    ∀ {s s' : ThreadSystem} {kept : List Nat}, s.sleepers.WellFormed →
      (∀ t ∈ rest, (s.threads t).isSome) → s.sleepers.toList = kept ++ rest →
      makeRunnableAll (rest.filter (s.sleepsOn addr)) s = .ok (.ok (), s') →
      ∃ sleepers, sleepers.WellFormed ∧
        sleepers.toList = kept ++ (rest.filter fun t => !s.sleepsOn addr t) ∧
        ∀ fuel, rest.length ≤ fuel →
          wakeupLoop addr fuel kept.length s = .ok (.ok (), { s' with sleepers }) := by
  induction rest with
  | nil =>
      rintro s _ kept wf _ asleep ⟨⟩
      refine ⟨s.sleepers, wf, by simpa using asleep, ?_⟩
      intro fuel _
      cases fuel with
      | zero => rfl
      | succ fuel =>
          rw [wakeupLoop, bind_of_ok (get_apply s), if_neg (sleepers_end asleep)]
          rfl
  | cons t rest ih =>
      intro s s' kept wf threads asleep runs
      rcases forall_mem_cons.mp threads with ⟨present, threads⟩
      rcases isSome_iff_exists.mp present with ⟨thread, present⟩
      have sleepsEq : s.sleepsOn addr t = decide (thread.tSleepaddr = some addr) := by
        simp [sleepsOn, present]
      by_cases same : thread.tSleepaddr = some addr
      · have woken : s.sleepsOn addr t = true := by simpa [sleepsEq] using same
        rw [List.filter_cons_of_pos woken] at runs
        rcases bind_eq_ok_iff.mp runs with ⟨⟨⟩, between, first, later⟩
        rcases wakeupLoop_wake wf asleep present same first with ⟨sleepers, wf', asleep', turn⟩
        rcases makeRunnable_eq_ok_iff.mp first with ⟨_, q, heap, _, _, _, rfl⟩
        have later' := makeRunnableAll_setSleepers sleepers _ later
        rcases ih (s := { s.enqueued t _ q heap with sleepers }) wf' threads asleep' later' with
          ⟨final, finalWf, finalEq, outcome⟩
        refine ⟨final, finalWf, finalEq.trans ?_, ?_⟩
        · rw [List.filter_cons_of_neg (by simp [woken])]
          rfl
        · intro fuel enough
          cases fuel with
          | zero => simp at enough
          | succ fuel => exact (turn fuel).trans (outcome fuel (by simpa using enough))
      · have stays : s.sleepsOn addr t = false := by simpa [sleepsEq] using same
        rw [List.filter_cons_of_neg (by simp [stays])] at runs
        have asleep' : s.sleepers.toList = (kept ++ [t]) ++ rest := by simp [asleep]
        rcases ih wf threads asleep' runs with ⟨final, finalWf, finalEq, outcome⟩
        refine ⟨final, finalWf, by simp [finalEq, stays], ?_⟩
        intro fuel enough
        cases fuel with
        | zero => simp at enough
        | succ fuel =>
            rw [wakeupLoop_pass wf asleep present same]
            simpa using outcome fuel (by simpa using enough)

theorem hassleepersLoop_zero (rest : List Nat) :
    ∀ {kept : List Nat} (fuel : Nat), s.sleepers.WellFormed → s.sleepers.toList = kept ++ rest →
      (∀ t ∈ rest, (s.threads t).isSome ∧ s.sleepsOn addr t = false) →
      hassleepersLoop addr fuel kept.length s = .ok (.ok 0, s) := by
  induction rest with
  | nil =>
      intro kept fuel _ asleep _
      cases fuel with
      | zero => rfl
      | succ fuel =>
          rw [hassleepersLoop, bind_of_ok (get_apply s), if_neg (sleepers_end asleep)]
          rfl
  | cons t rest ih =>
      intro kept fuel wf asleep others
      rcases forall_mem_cons.mp others with ⟨⟨present, stays⟩, others⟩
      rcases isSome_iff_exists.mp present with ⟨thread, present⟩
      have different : thread.tSleepaddr ≠ some addr := by
        simpa [sleepsOn, present] using stays
      rcases sleepers_next wf asleep with ⟨inside, got, _⟩
      have asleep' : s.sleepers.toList = (kept ++ [t]) ++ rest := by simp [asleep]
      cases fuel with
      | zero => rfl
      | succ fuel =>
          rw [hassleepersLoop, bind_of_ok (get_apply s), if_pos inside,
            bind_of_ok (onHeap_of_ok got), bind_of_ok (deref_eq_ok_iff.mpr ⟨present, rfl⟩),
            if_neg different]
          simpa using ih fuel wf asleep' others

/-! ## The call -/

/-- `thread_wakeup` takes exactly the sleepers on the address out of the array, however long its
loop may run, and appends them to the run queues of their priorities. -/
theorem threadWakeup_moves_sleepers (lists : s.ListsOk) (addr : Nat)
    (succeeds : ∃ s', makeRunnableAll (s.sleepersOn addr) s = .ok (.ok (), s')) :
    ∃ s', threadWakeup addr s = .ok (.ok (), s') ∧
      (∀ fuel, s.sleepers.num ≤ fuel → wakeupLoop addr fuel 0 s = .ok (.ok (), s')) ∧
      s'.sleepers.toList = s.sleepers.toList.filter (fun t => !s.sleepsOn addr t) ∧
      (∀ p < numPriorities, (s'.runqueue p).toList =
        (s.runqueue p).toList ++ (s.sleepersOn addr).filter (s.hasPriority p)) ∧
      s'.threads = s.threads ∧ threadHassleepers addr s' = .ok (.ok 0, s') := by
  rcases succeeds with ⟨after, runs⟩
  rcases makeRunnableAll_spec _ lists.runqueue runs with ⟨threadsEq, _, queues⟩
  have numEq : s.sleepers.toList.length = s.sleepers.num := KArray.length_toList _
  rcases wakeupLoop_eq s.sleepers.toList lists.sleepers lists.threads
    (List.nil_append _).symm runs with ⟨sleepers, wf', listEq, outcome⟩
  rw [numEq] at outcome
  refine ⟨{ after with sleepers }, ?_, outcome, by simpa using listEq,
    fun p inside => (queues p inside).2, threadsEq, ?_⟩
  · rw [threadWakeup, bind_of_ok (get_apply s)]
    exact outcome _ le_rfl
  · rw [threadHassleepers, bind_of_ok (get_apply _)]
    have others : ∀ t ∈ sleepers.toList,
        (({ after with sleepers } : ThreadSystem).threads t).isSome ∧
          ({ after with sleepers } : ThreadSystem).sleepsOn addr t = false := by
      intro t member
      have kept : t ∈ s.sleepers.toList ∧ s.sleepsOn addr t = false := by
        simpa [listEq] using member
      simpa [ThreadSystem.sleepsOn, threadsEq] using And.intro (lists.threads t kept.1) kept.2
    exact hassleepersLoop_zero (s := { after with sleepers }) sleepers.toList _ wf'
      (List.nil_append _).symm others

/-- The arrays and queues of a reachable state are as the code expects them. -/
theorem Reachable.listsOk (reachable : Reachable s) : s.ListsOk := by
  rcases reachable.related with ⟨A, rel, valid⟩
  have sleepersEq : s.sleepers.toList = A.sleepers := congrArg Sched.sleepers rel.view
  refine ⟨rel.storage.sleepers_wf, ?_, rel.storage.runqueue_wf⟩
  intro t member
  rw [sleepersEq] at member
  rw [rel.threads_eq]
  exact (valid.placed.of_mem .sleeping member).1

/-- Threads 0 and 2 sleep on one address and thread 1 on another. -/
theorem threadWakeup_moves_two_of_three : ∃ s s', Reachable s ∧
    s.sleepers.toList = [0, 1, 2] ∧ threadWakeup 7 s = .ok (.ok (), s') ∧
    s'.sleepers.toList = [1] ∧ (s'.runqueue 0).toList = (s.runqueue 0).toList ++ [2] ∧
    (s'.runqueue 1).toList = (s.runqueue 1).toList ++ [0] := by
  have computed : ((execute enoughMemory [(.fork, enoughMemory), (.fork, enoughMemory),
      (.fork, enoughMemory), (.sleep 7, enoughMemory), (.sleep 9, enoughMemory),
      (.sleep 7, enoughMemory)]).any fun s =>
      s.sleepers.toList == [0, 1, 2] && s.sleepersOn 7 == [0, 2] &&
      (s.sleepers.toList.filter fun t => !s.sleepsOn 7 t) == [1] &&
      [0, 2].filter (s.hasPriority 0) == [2] && [0, 2].filter (s.hasPriority 1) == [0] &&
      ((makeRunnableAll (s.sleepersOn 7)).returned s).isSome) = true := by decide +kernel
  rcases (any_eq_true _ _).mp computed with ⟨s, executed, facts⟩
  simp only [Bool.and_eq_true, beq_iff_eq] at facts
  rcases facts with ⟨⟨⟨⟨⟨asleep, matching⟩, others⟩, low⟩, normal⟩, succeeds⟩
  rcases Option.isSome_iff_exists.mp succeeds with ⟨⟨⟨⟩, after⟩, runs⟩
  have reachable := reachable_of_execute executed
  rcases threadWakeup_moves_sleepers reachable.listsOk 7 ⟨after, Prog.returned_eq_some.mp runs⟩ with
    ⟨s', outcome, _, sleepersEq, queues, _⟩
  refine ⟨s, s', reachable, asleep, outcome, sleepersEq.trans others, ?_, ?_⟩
  · rw [queues 0 (by decide), matching, low]
  · rw [queues 1 (by decide), matching, normal]

end Os161
