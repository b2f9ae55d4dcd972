import Os161.Thread.Reachable

/-!
# Bounded bypass

A thread that waits in `runqueue[0]` is passed over by every other thread at most as
often as the priority of that thread says, and at least one time is allowed. Threads may
yield, sleep, wake each other up and exit meanwhile.

The history of the run queues is a run of the multilevel feedback queue, so that the
argument about budgets in `Os161.Lib.Mlfq` applies to the part of the log that a run
segment adds.
-/

namespace Os161

variable {s s' : ThreadSystem} {A B : Sched} {t : Nat}

/-! ## The log grows -/

namespace Sched

theorem log_destroy_suffix (zombies : List Nat) :
    ∀ A : Sched, A.log <:+ (zombies.foldl destroy A).log := by
  induction zombies with
  | nil => exact fun A => suffix_rfl
  | cons z zombies ih =>
      intro A
      exact (List.suffix_cons _ _).trans (ih (A.destroy z))

theorem log_resume_suffix (A : Sched) (t : Nat) (thread : Thread) :
    A.log <:+ (A.resume t thread).log := by
  have buried : A.log <:+ A.bury.log := log_destroy_suffix A.zombies A
  unfold resume
  split
  · exact suffix_rfl
  · exact buried
  · exact buried

theorem log_dispatch_suffix (A : Sched) (t : Nat) (thread thread' : Thread) :
    A.log <:+ ((A.dispatch t thread).resume t thread').log := by
  have dispatched : A.log <:+ (A.dispatch t thread).log := List.suffix_cons _ _
  exact dispatched.trans (log_resume_suffix _ t thread')

theorem Rescheduled.log_suffix {cur : Nat} (rescheduled : A.Rescheduled cur B) :
    A.log <:+ B.log := by
  rcases rescheduled with ⟨_, rfl⟩ | ⟨t, thread, _, _, rfl⟩
  · exact suffix_rfl
  · exact log_dispatch_suffix A t thread _

theorem log_park_suffix (A : Sched) (cur : Nat) (thread : Thread) (nextstate : ThreadState) :
    A.log <:+ (A.park cur thread nextstate).log := by
  cases nextstate with
  | ready => exact List.suffix_cons _ _
  | _ => exact suffix_rfl

theorem log_wakeFrom_suffix (addr : Nat) (rest : List Nat) :
    ∀ (kept : List Nat) (A : Sched), A.log <:+ (wakeFrom addr kept rest A).log := by
  induction rest with
  | nil => exact fun _ _ => suffix_rfl
  | cons t rest ih =>
      intro kept A
      rw [wakeFrom]
      split
      · have enqueued : A.log <:+ (({ A with sleepers := kept ++ rest } : Sched).enqueue t).log :=
          List.suffix_cons _ _
        exact enqueued.trans (ih kept _)
      · exact ih _ A

theorem Next.log_suffix {op : Op} (next : A.Next B op) : A.log <:+ B.log := by
  cases op with
  | fork =>
      rcases next with rfl | ⟨id, rest, _, rfl⟩ | ⟨child, rest, _, _, _, _, rfl⟩
      · exact suffix_rfl
      · exact suffix_rfl
      · exact (List.suffix_cons _ _).trans (List.suffix_cons _ _)
  | yield =>
      rcases next with ⟨_, rfl⟩ | ⟨cur, thread, _, _, rescheduled⟩
      · exact suffix_rfl
      · exact (log_park_suffix A cur thread .ready).trans rescheduled.log_suffix
  | sleep addr =>
      rcases next with ⟨cur, thread, _, _, rescheduled⟩
      exact rescheduled.log_suffix
  | wakeup addr =>
      rw [show B = A.wake addr from next]
      exact log_wakeFrom_suffix addr A.sleepers [] A
  | exit =>
      rcases next with ⟨cur, thread, _, _, rescheduled⟩
      exact (List.suffix_cons _ _).trans rescheduled.log_suffix
  | resume =>
      rcases next with ⟨t, thread, _, _, _, rfl⟩
      exact log_dispatch_suffix A t thread _
  | setcurdir vn =>
      rcases next with ⟨cur, thread, _, _, rfl⟩
      exact suffix_rfl
  | setVmspace space =>
      rcases next with ⟨cur, thread, _, _, rfl⟩
      exact suffix_rfl

end Sched

theorem Rel.log_eq (rel : Rel s A) : s.log = A.log :=
  congrArg Sched.log rel.view

theorem Reachable.log_suffix_of_step (reachable : Reachable s) (step : threadMachine.Step s s') :
    s.log <:+ s'.log := by
  rcases reachable.related with ⟨A, rel, valid⟩
  rcases step with ⟨op, enabled, heap, result, outcome⟩
  have refines := exec_refines op (rel.withHeap heap) valid enabled
  have next : ∃ B, A.Next B op ∧ Becomes { s with heap } B s' := by
    cases result with
    | error failure => exact (ensures_of_fail_eq outcome).mp refines
    | ok value => exact (ensures_of_ok_eq outcome).mp refines
  rcases next with ⟨B, next, rel', _⟩
  rw [rel.log_eq, rel'.log_eq]
  exact next.log_suffix

theorem Reachable.log_suffix (reachable : Reachable s)
    (segment : Relation.ReflTransGen threadMachine.Step s s') :
    Reachable s' ∧ s.log <:+ s'.log := by
  induction segment with
  | refl => exact ⟨reachable, suffix_rfl⟩
  | tail _ step ih =>
      rcases ih with ⟨reachable, grown⟩
      exact ⟨reachable.step step, grown.trans (reachable.log_suffix_of_step step)⟩

theorem Event.labels_append (newer older : List Event) :
    Event.labels (newer ++ older) = Event.labels newer ++ Event.labels older :=
  List.filterMap_append

/-! ## Waiting in the lowest queue -/

/-- In a run segment that begins when `t` is in `runqueue[0]`, every other thread is dispatched
at most `max 1 p` times before `t`, where `p` is its priority at the beginning. -/
theorem bypass_bounded (reachable : Reachable s) (waiting : t ∈ (s.runqueue 0).toList)
    (segment : Relation.ReflTransGen threadMachine.Step s s') :
    ∃ events, s'.log = events ++ s.log ∧
      ∀ later earlier, events = later ++ earlier → Event.dispatch t ∉ earlier →
        ∀ u thread, u ≠ t → s.threads u = some thread →
          earlier.count (.dispatch u) ≤ max 1 thread.priority := by
  rcases reachable.log_suffix segment with ⟨reachable', events, grown⟩
  refine ⟨events, grown.symm, ?_⟩
  rintro later earlier rfl notYet u thread _ present
  rcases reachable.related with ⟨A, rel, valid⟩
  rcases reachable'.related with ⟨B, rel', valid'⟩
  have inQueue : t ∈ A.queue.level 0 := rel.storage.level 0 (by decide) ▸ waiting
  rcases Mlfq.State.mem_level.mp inQueue with ⟨ready, lowest⟩
  -- the run of the queue up to the end of `earlier`
  have whole : Mlfq.Run (fun _ => priorityNormal)
      (Event.labels later ++ (Event.labels earlier ++ Event.labels A.log)) B.queue := by
    rw [← Event.labels_append, ← Event.labels_append, ← rel.log_eq, ← List.append_assoc, grown,
      rel'.log_eq]
    exact valid'.history.run
  rcases whole.suffix with ⟨between, upTo⟩
  have notPicked : Mlfq.Label.pick t ∉ Event.labels earlier := by
    rw [← List.count_eq_zero, count_pick_labels, List.count_eq_zero]
    exact notYet
  have spent := (valid.history.run.bypass ready lowest upTo notPicked).2.2 u
  have limit := A.queue.budget_le t u
  have prioEq : A.queue.prio u = thread.priority :=
    (valid.threads u thread (rel.threads_eq ▸ present)).priority
  rw [count_pick_labels] at spent
  rw [prioEq] at limit
  omega

/-- Thread 1 waits in `runqueue[0]` when the two other threads yield; thread 0, of priority one,
goes first, and only once. -/
theorem bypass_bounded_three_yield : ∃ s s' thread, Reachable s ∧ 1 ∈ (s.runqueue 0).toList ∧
    Relation.ReflTransGen threadMachine.Step s s' ∧ s.threads 0 = some thread ∧
    s'.log = [.dispatch 0, .runnable 2] ++ s.log ∧
    [Event.dispatch 0, .runnable 2].count (.dispatch 0) ≤ max 1 thread.priority := by
  have computed : ((execute enoughMemory [(.fork, enoughMemory), (.fork, enoughMemory),
      (.yield, enoughMemory), (.yield, enoughMemory)]).any fun s =>
      decide (1 ∈ (s.runqueue 0).toList) && (s.threads 0).isSome &&
      (threadMachine.execute s [(.yield, enoughMemory)]).any fun s' =>
        s'.log == [.dispatch 0, .runnable 2] ++ s.log) = true := by decide +kernel
  rcases (any_eq_true _ _).mp computed with ⟨s, executed, facts⟩
  simp only [Bool.and_eq_true, decide_eq_true_eq] at facts
  rcases facts with ⟨⟨waiting, present⟩, continued⟩
  rcases (any_eq_true _ _).mp continued with ⟨s', performed, grown⟩
  rcases Option.isSome_iff_exists.mp present with ⟨thread, found⟩
  have here : threadMachine.Reachable (· = s) s := Machine.Reachable.start rfl
  rcases here.execute performed with ⟨_, rfl, segment⟩
  have reachable := reachable_of_execute executed
  have grown := beq_iff_eq.mp grown
  rcases bypass_bounded reachable waiting segment with ⟨events, added, bounded⟩
  have eventsEq : [.dispatch 0, .runnable 2] = events :=
    List.append_cancel_right (grown.symm.trans added)
  subst eventsEq
  exact ⟨_, s', thread, reachable, waiting, segment, found, grown,
    bounded [] _ rfl (by decide) 0 thread (by decide) found⟩

end Os161
