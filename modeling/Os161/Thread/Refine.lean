import Os161.Thread.Ops
import Os161.Thread.SchedInv

/-!
# The thread system refines the machine on lists

`Rel s A` relates the state of the code to the machine: the queues and arrays of
`s` are well formed and hold the lists of `A`. For each function of `thread.c` and
`scheduler.c` there is one lemma. From related states it panics only where the
lemma says, and otherwise ends in a state that is related to the result of the
corresponding transition. `Grows` is about the storage alone: no run queue gets
smaller, nor does the array of sleepers, and without memory none gets larger.
-/

namespace Os161

open Sched Mlfq.State Queue
open ThreadM (ensures_deref ensures_onHeap ensures_update)

namespace ThreadSystem

/-- The state as the machine sees it, with the ready threads in the order given. -/
def view (s : ThreadSystem) (queue : Mlfq.State Nat) : Sched :=
  { current := s.curthread, idling := s.idling, queue, sleepers := s.sleepers.toList,
    zombies := s.zombies.toList, ids := s.processIds.toList, num := s.numthreads,
    threads := s.threads, nextThread := s.nextThread, refs := s.vnRefcount, log := s.log }

/-- The storage is well formed and the run queues are the levels of the queue. -/
structure StorageOk (sleepers zombies : KArray Nat) (processIds : Queue Nat)
    (runqueue : Nat → Queue Nat) (queue : Mlfq.State Nat) : Prop where
  sleepers_wf : sleepers.WellFormed
  zombies_wf : zombies.WellFormed
  processIds_wf : processIds.WellFormed
  processIds_size : 2 * maxThreads ≤ processIds.size
  runqueue_wf : ∀ p < numPriorities, (runqueue p).WellFormed
  size_le : ∀ p < numPriorities, (runqueue p).size ≤ 256
  level : ∀ p < numPriorities, (runqueue p).toList = queue.level p

abbrev Storage (s : ThreadSystem) (queue : Mlfq.State Nat) : Prop :=
  StorageOk s.sleepers s.zombies s.processIds s.runqueue queue

/-- What happens to the storage. -/
structure StorageGrows (sleepers sleepers' : KArray Nat) (runqueue runqueue' : Nat → Queue Nat)
    (heap heap' : KHeap) : Prop where
  size_le : ∀ p < numPriorities, (runqueue p).size ≤ (runqueue' p).size
  max_le : sleepers.max ≤ sleepers'.max
  starved : heap = noMemory →
    heap' = noMemory ∧ ∀ p < numPriorities, (runqueue' p).size = (runqueue p).size

abbrev Grows (s s' : ThreadSystem) : Prop :=
  StorageGrows s.sleepers s'.sleepers s.runqueue s'.runqueue s.heap s'.heap

theorem StorageGrows.refl (sleepers : KArray Nat) (runqueue : Nat → Queue Nat) (heap : KHeap) :
    StorageGrows sleepers sleepers runqueue runqueue heap heap :=
  ⟨fun _ _ => le_rfl, le_rfl, fun starved => ⟨starved, fun _ _ => rfl⟩⟩

theorem StorageGrows.after (sleepers : KArray Nat) (runqueue : Nat → Queue Nat) (heap : KHeap)
    (n : Nat) : StorageGrows sleepers sleepers runqueue runqueue heap (heap.after n) := by
  refine ⟨fun _ _ => le_rfl, le_rfl, ?_⟩
  rintro rfl
  exact ⟨rfl, fun _ _ => rfl⟩

theorem Grows.trans {s s' s'' : ThreadSystem} (first : s.Grows s') (second : s'.Grows s'') :
    s.Grows s'' where
  size_le := fun p inside => (first.size_le p inside).trans (second.size_le p inside)
  max_le := first.max_le.trans second.max_le
  starved := by
    intro starved
    rcases first.starved starved with ⟨starved', sizes⟩
    rcases second.starved starved' with ⟨starved'', sizes'⟩
    exact ⟨starved'', fun p inside => (sizes' p inside).trans (sizes p inside)⟩

end ThreadSystem

/-- The state of the code and the state of the machine. -/
structure Rel (s : ThreadSystem) (A : Sched) : Prop where
  view : s.view A.queue = A
  storage : s.Storage A.queue

/-- The state after a call: related to `A`, with storage that came from that of `s`. -/
def Becomes (s : ThreadSystem) (A : Sched) (s' : ThreadSystem) : Prop :=
  Rel s' A ∧ s.Grows s'

variable {s : ThreadSystem} {A : Sched} {t cur : Nat} {thread : Thread}

theorem Rel.exists_view (rel : Rel s A) : ∃ queue, A = s.view queue ∧ s.Storage queue :=
  ⟨A.queue, rel.view.symm, rel.storage⟩

theorem Rel.withHeap (rel : Rel s A) (heap : KHeap) : Rel { s with heap } A := by
  rcases rel.exists_view with ⟨queue, rfl, storage⟩
  exact ⟨rfl, storage⟩

theorem Rel.setThread (rel : Rel s A) (t : Nat) (thread : Option Thread) :
    Rel (s.setThread t thread) (A.setThread t thread) := by
  rcases rel.exists_view with ⟨queue, rfl, storage⟩
  exact ⟨rfl, storage⟩

theorem Rel.setRefcount (rel : Rel s A) (vn count : Nat) :
    Rel (s.setRefcount vn count) { A with refs := Function.update A.refs vn count } := by
  rcases rel.exists_view with ⟨queue, rfl, storage⟩
  exact ⟨rfl, storage⟩

theorem Rel.setNum (rel : Rel s A) (num : Nat) :
    Rel { s with numthreads := num } { A with num } := by
  rcases rel.exists_view with ⟨queue, rfl, storage⟩
  exact ⟨rfl, storage⟩

theorem Rel.record (rel : Rel s A) (event : Event) :
    Rel (s.record event) { A with log := event :: A.log } := by
  rcases rel.exists_view with ⟨queue, rfl, storage⟩
  exact ⟨rfl, storage⟩

theorem Rel.threads_eq (rel : Rel s A) : s.threads = A.threads :=
  congrArg Sched.threads rel.view

theorem Rel.curthread_eq (rel : Rel s A) : s.curthread = A.current :=
  congrArg current rel.view

/-- The run queue has no free slot. -/
def RunqueueFull (s : ThreadSystem) (p : Nat) : Prop :=
  (s.runqueue p).count + 1 = (s.runqueue p).size

/-! ## The scheduler -/

variable {queue : Mlfq.State Nat} {q : Queue Nat} {heap : KHeap} {nextstate : ThreadState}

/-- A run queue is replaced by one that holds a level of the new queue. -/
theorem ThreadSystem.Storage.setRunqueue (storage : s.Storage queue) (queue' : Mlfq.State Nat)
    (p : Nat) (wf : q.WellFormed) (size_le : q.size ≤ 256) (level : q.toList = queue'.level p)
    (others : ∀ other < numPriorities, other ≠ p → queue'.level other = queue.level other) :
    (s.setRunqueue p q).Storage queue' := by
  refine ⟨storage.sleepers_wf, storage.zombies_wf, storage.processIds_wf, storage.processIds_size,
    ?_, ?_, ?_⟩
  · intro other inside
    by_cases same : other = p
    · simpa [ThreadSystem.setRunqueue, same] using wf
    · simpa [ThreadSystem.setRunqueue, update_of_ne same] using storage.runqueue_wf other inside
  · intro other inside
    by_cases same : other = p
    · simpa [ThreadSystem.setRunqueue, same] using size_le
    · simpa [ThreadSystem.setRunqueue, update_of_ne same] using storage.size_le other inside
  · intro other inside
    by_cases same : other = p
    · simpa [ThreadSystem.setRunqueue, same] using level
    · simpa [ThreadSystem.setRunqueue, update_of_ne same, others other inside same] using
        storage.level other inside

theorem ThreadSystem.Grows.setRunqueue {p : Nat} (size_le : (s.runqueue p).size ≤ q.size)
    (starved : s.heap = noMemory → heap = noMemory ∧ q.size = (s.runqueue p).size) :
    s.Grows ({ s with heap }.setRunqueue p q) := by
  refine ⟨?_, le_rfl, ?_⟩
  · intro other _
    by_cases same : other = p
    · simpa [ThreadSystem.setRunqueue, same] using size_le
    · simp [ThreadSystem.setRunqueue, update_of_ne same]
  · intro noHeap
    refine ⟨(starved noHeap).1, ?_⟩
    intro other _
    by_cases same : other = p
    · simpa [ThreadSystem.setRunqueue, same] using (starved noHeap).2
    · simp [ThreadSystem.setRunqueue, update_of_ne same]

theorem makeRunnable_refines (rel : Rel s A) (present : A.threads t = some thread)
    (priority : A.queue.prio t = thread.priority) (inside : thread.priority < numPriorities)
    (small : A.queue.ready.length ≤ maxThreads) :
    Ensures (makeRunnable t) s (fun _ => False)
      (fun _ s' => RunqueueFull s thread.priority ∧ s.heap 0 = false ∧ Becomes s A s')
      (fun _ s' => Becomes s (A.enqueue t) s') := by
  rcases rel.exists_view with ⟨queue, rfl, storage⟩
  have wf := storage.runqueue_wf thread.priority inside
  have size_le := storage.size_le thread.priority inside
  have levelEq := storage.level thread.priority inside
  have count_le : (s.runqueue thread.priority).count ≤ maxThreads := by
    rw [← length_toList, levelEq]
    exact (queue.length_level_le _).trans small
  have prioEq : queue.prio t = thread.priority := priority
  have pushed : (queue.push t).level thread.priority = queue.level thread.priority ++ [t] := by
    rw [level_push, if_pos prioEq]
  have others : ∀ other < numPriorities, other ≠ thread.priority →
      (queue.push t).level other = queue.level other := by
    intro other _ different
    rw [level_push, if_neg]
    intro same
    exact different (same.symm.trans prioEq)
  simp only [makeRunnable, ensures_bind, ensures_deref present,
    ensures_assert_of inside, ensures_get, ensures_onHeap]
  rcases qAddtail_eq wf (by omega) t s.heap with
    ⟨free, outcome⟩ | ⟨full, memory, outcome⟩ | ⟨full, memory, q, outcome, qWf, listEq, larger, _⟩
  · rw [ensures_of_ok_eq outcome, ensures_modify]
    have stored := storage.setRunqueue (queue.push t) thread.priority (push_wellFormed wf t) size_le
      (by rw [push_toList wf free, levelEq, pushed]) others
    exact ⟨⟨rfl, stored⟩, ThreadSystem.Grows.setRunqueue le_rfl (fun starved => ⟨starved, rfl⟩)⟩
  · rw [ensures_of_fail_eq outcome]
    exact ⟨full, memory, ⟨rfl, storage⟩, ThreadSystem.StorageGrows.after _ _ _ 1⟩
  · rw [ensures_of_ok_eq outcome, ensures_modify]
    have stored := storage.setRunqueue (queue.push t) thread.priority qWf
      (by simp only [maxThreads] at count_le; omega) (by rw [listEq, levelEq, pushed]) others
    refine ⟨⟨rfl, stored⟩, ThreadSystem.Grows.setRunqueue (by omega) ?_⟩
    intro starved
    simp [starved, noMemory] at memory

theorem firstNonEmpty_spec (runqueue : Nat → Queue Nat) (n : Nat) :
    firstNonEmpty runqueue n ≤ n ∧
      (∀ p, firstNonEmpty runqueue n < p → p ≤ n → (runqueue p).qEmpty = true) ∧
      ((∃ p ≤ n, (runqueue p).qEmpty = false) →
        (runqueue (firstNonEmpty runqueue n)).qEmpty = false) := by
  induction n with
  | zero =>
      refine ⟨le_rfl, ?_, ?_⟩
      · intro p above le
        exact absurd (lt_of_lt_of_le above le) (lt_irrefl 0)
      · rintro ⟨p, le, nonempty⟩
        rw [Nat.le_zero.mp le] at nonempty
        exact nonempty
  | succ n ih =>
      rcases ih with ⟨le, above, nonempty⟩
      rw [firstNonEmpty]
      split
      · rename_i empty
        refine ⟨Nat.le_succ_of_le le, ?_, ?_⟩
        · intro p above' le'
          rcases Nat.of_le_succ le' with le' | rfl
          · exact above p above' le'
          · exact empty
        · rintro ⟨p, le', nonempty'⟩
          apply nonempty
          rcases Nat.of_le_succ le' with le' | rfl
          · exact ⟨p, le', nonempty'⟩
          · simp [empty] at nonempty'
      · rename_i notEmpty
        refine ⟨le_rfl, ?_, ?_⟩
        · intro p above' le'
          exact absurd (lt_of_lt_of_le above' le') (lt_irrefl _)
        · intro _
          simpa using notEmpty

theorem scheduler_refines (rel : Rel s A) (valid : A.Valid) (busy : doIdle s = false) :
    Ensures scheduler s (fun _ => False) (fun _ _ => False)
      (fun t s' => ∃ thread, A.queue.Picks t ∧ A.threads t = some thread ∧
        Becomes s (A.choose t thread) s') := by
  rcases rel.exists_view with ⟨queue, rfl, storage⟩
  have nodup : queue.ready.Nodup := valid.history.run.nodup_ready
  have prio_lt : ∀ t, queue.prio t < numPriorities := by
    intro t
    have prio_le : queue.prio t ≤ priorityNormal := valid.history.run.prio_le t
    exact lt_of_le_of_lt prio_le (by decide)
  rcases firstNonEmpty_spec s.runqueue (numPriorities - 1) with ⟨le, above, nonempty⟩
  have existsBusy : ∃ p ≤ numPriorities - 1, (s.runqueue p).qEmpty = false := by
    simp only [doIdle, List.all_eq_false, mem_range, Bool.not_eq_true] at busy
    rcases busy with ⟨p, inside, busy⟩
    exact ⟨p, Nat.le_sub_one_of_lt inside, busy⟩
  have nonempty := nonempty existsBusy
  simp only [scheduler, ensures_bind, ensures_get, ensures_onHeap]
  generalize firstNonEmpty s.runqueue (numPriorities - 1) = p at le above nonempty ⊢
  have inside : p < numPriorities := lt_of_le_of_lt le (by decide)
  have wf := storage.runqueue_wf p inside
  have first := toList_eq_cons_pop wf nonempty
  have levelEq := storage.level p inside
  have notNil : (s.runqueue p).toList ≠ [] := by simp [first]
  rw [ensures_of_ok_eq (qRemhead_eq wf notNil s.heap).2]
  generalize (s.runqueue p).data (s.runqueue p).nextread = t at first ⊢
  have levelFirst : queue.level p = t :: (s.runqueue p).pop.toList := levelEq.symm.trans first
  have ready : t ∈ queue.ready := (mem_level.mp (by rw [levelFirst]; simp)).1
  have picks : queue.Picks t := by
    apply picks_of_level levelFirst
    intro other otherReady
    by_contra higher
    have otherInside := prio_lt other
    have otherEmpty := above (queue.prio other) (by omega) (by omega)
    have otherLevel := storage.level (queue.prio other) otherInside
    rw [(qEmpty_iff (storage.runqueue_wf _ otherInside)).mp otherEmpty] at otherLevel
    have member : other ∈ queue.level (queue.prio other) :=
      mem_level.mpr ⟨otherReady, rfl⟩
    simp [← otherLevel] at member
  rcases isSome_iff_exists.mp (valid.placed.of_mem .ready ready).1 with ⟨thread, present⟩
  have present : s.threads t = some thread := present
  have stored := storage.setRunqueue (queue.pick t) p (pop_wellFormed wf) (storage.size_le p inside)
    (by rw [level_pick nodup levelFirst, if_pos rfl])
    (fun other _ different => by rw [level_pick nodup levelFirst, if_neg different])
  have stillPresent : (s.setRunqueue p (s.runqueue p).pop).threads t = some thread := present
  rw [ensures_modify, ensures_update stillPresent, ensures_pure]
  exact ⟨thread, picks, present, ⟨rfl, stored⟩,
    ThreadSystem.Grows.setRunqueue le_rfl (fun starved => ⟨starved, rfl⟩)⟩

/-! ## Destroying threads -/

theorem filetableRemoveAll_closed {handles : List (Option Nat)}
    (closed : ∀ handle ∈ handles, handle = none) (heap : KHeap) :
    filetableRemoveAll handles heap = .ok (.ok (), heap) := by
  induction handles with
  | nil => rfl
  | cons handle handles ih =>
      rw [closed handle mem_cons_self, filetableRemoveAll]
      exact ih fun other member => closed other (mem_cons_of_mem _ member)

theorem filetableDestroy_closed {ft : Option FileTable} (closed : Sched.FilesClosed ft)
    {fails : Errno → KHeap → Prop} {returns : Unit → KHeap → Prop} (rest : returns () heap) :
    Ensures (filetableDestroy ft) heap (fun reason => reason = .filetableNull)
      fails returns := by
  cases ft with
  | none => simp [filetableDestroy]
  | some table =>
      rw [filetableDestroy, ensures_of_ok_eq (filetableRemoveAll_closed (closed table rfl) heap)]
      exact rest

/-- The structure of a zombie that `thread_destroy` accepts. -/
def Destroyable (A : Sched) (z : Nat) : Prop :=
  A.current ≠ some z ∧ ∃ thread, A.threads z = some thread ∧ thread.tVmspace = none ∧
    thread.tCwd = none ∧ Sched.FilesClosed thread.ft

theorem threadDestroy_refines (rel : Rel s A) (ids : A.IdsValid) (destroyable : Destroyable A t) :
    Ensures (threadDestroy t) s (fun reason => reason = .filetableNull) (fun _ _ => False)
      (fun _ s' => Becomes s (A.destroy t) s') := by
  rcases rel.exists_view with ⟨queue, rfl, storage⟩
  rcases destroyable with ⟨notCurrent, thread, present, noVmspace, noCwd, closed⟩
  have present : s.threads t = some thread := present
  have notCurrent : s.curthread ≠ some t := notCurrent
  have wf := storage.processIds_wf
  have count_le : s.processIds.count ≤ maxThreads := by
    rw [← length_toList]
    exact ids.length_le
  have free : s.processIds.count + 1 < s.processIds.size := by
    have size_le := storage.processIds_size
    simp only [maxThreads] at count_le size_le
    omega
  have returned : s.processIds.qAddtail thread.id s.heap =
      .ok (.ok (s.processIds.push thread.id), s.heap) :=
    qAddtailAt_free wf free 1 thread.id s.heap
  simp only [threadDestroy, ensures_bind, ensures_get,
    ensures_assert_of notCurrent, ensures_deref present, ensures_attempt,
    ensures_onHeap, ensures_of_ok_eq returned, ensures_modify]
  apply filetableDestroy_closed closed
  have vmspaceGone : thread.tVmspace.isNone = true := by simp [noVmspace]
  have cwdGone : thread.tCwd.isNone = true := by simp [noCwd]
  rw [ensures_assert_of vmspaceGone, ensures_assert_of cwdGone]
  refine ⟨⟨?_, storage.sleepers_wf, storage.zombies_wf, push_wellFormed wf thread.id,
    storage.processIds_size, storage.runqueue_wf, storage.size_le, storage.level⟩,
    ThreadSystem.StorageGrows.refl _ _ _⟩
  simp only [ThreadSystem.view, destroy, ThreadSystem.record, ThreadSystem.setThread,
    push_toList wf free, present, map_some, toList_some]

theorem exorciseLoop_refines (zs : List Nat) :
    ∀ {s : ThreadSystem} {A : Sched}, Rel s A → A.IdsValid → zs.Nodup →
      (∀ z ∈ zs, Destroyable A z) →
      Ensures (exorciseLoop zs) s (fun reason => reason = .filetableNull) (fun _ _ => False)
        (fun _ s' => Becomes s (zs.foldl destroy A) s') := by
  induction zs with
  | nil =>
      intro s A rel _ _ _
      exact ⟨rel, ThreadSystem.StorageGrows.refl _ _ _⟩
  | cons z zs ih =>
      intro s A rel ids nodup destroyable
      rcases nodup_cons.mp nodup with ⟨notMem, nodup⟩
      rcases destroyable z mem_cons_self with ⟨_, thread, present, _⟩
      rw [exorciseLoop, ensures_bind]
      apply (threadDestroy_refines rel ids (destroyable z mem_cons_self)).imp
      rintro _ s₁ ⟨rel₁, grows₁⟩
      have destroyable₁ : ∀ other ∈ zs, Destroyable (A.destroy z) other := by
        intro other member
        rcases destroyable other (mem_cons_of_mem _ member) with ⟨notCurrent, found, rest⟩
        have different : other ≠ z := by
          rintro rfl
          exact notMem member
        refine ⟨notCurrent, found, ?_⟩
        simpa [destroy, update_of_ne different] using rest
      apply (ih rel₁ (ids.destroy present) nodup destroyable₁).imp
      rintro _ s₂ ⟨rel₂, grows₂⟩
      exact ⟨rel₂, grows₁.trans grows₂⟩

theorem exorcise_refines (rel : Rel s A) (valid : A.Valid) :
    Ensures exorcise s (fun reason => reason = .filetableNull) (fun _ _ => False)
      (fun _ s' => Becomes s A.bury s') := by
  have zombiesEq : s.zombies.toList = A.zombies := congrArg zombies rel.view
  have destroyable : ∀ z ∈ A.zombies, Destroyable A z := by
    intro z dead
    rcases valid.placed.of_mem .zombie dead with ⟨present, elsewhere⟩
    rcases isSome_iff_exists.mp present with ⟨thread, present⟩
    have ok := valid.threads z thread present
    refine ⟨?_, thread, present, (ok.ended dead).1, (ok.ended dead).2, ok.files⟩
    intro running
    exact elsewhere .current (by decide) (Sched.Placed.mem_current running)
  rw [exorcise, ensures_bind, ensures_get, ensures_bind, zombiesEq]
  apply (exorciseLoop_refines A.zombies rel valid.ids (valid.placed.nodup .zombie) destroyable).imp
  rintro _ s₁ ⟨rel₁, grows₁⟩
  rcases KArray.arraySetsize_zero rel.storage.zombies_wf s₁.heap with
    ⟨zombies, outcome, zombiesWf, zombiesNil, _⟩
  simp only [ensures_bind, ensures_attempt, ensures_onHeap,
    ensures_of_ok_eq outcome, ensures_modify]
  refine ⟨⟨?_, rel₁.storage.sleepers_wf, zombiesWf, rel₁.storage.processIds_wf,
    rel₁.storage.processIds_size, rel₁.storage.runqueue_wf, rel₁.storage.size_le,
    rel₁.storage.level⟩, grows₁⟩
  have view₁ := rel₁.view
  simp only [bury]
  rw [← view₁]
  simp only [ThreadSystem.view, zombiesNil]

/-! ## Switching -/

theorem afterSwitch_refines (rel : Rel s A) (valid : A.Valid) (running : A.current = some t)
    (present : A.threads t = some thread) :
    Ensures (afterSwitch t) s (fun reason => reason = .filetableNull) (fun _ _ => False)
      (fun _ s' => Becomes s (A.resume t thread) s') := by
  have notDead : t ∉ A.zombies :=
    (valid.placed.of_mem .current (Sched.Placed.mem_current running)).2 .zombie (by decide)
  have notZombie := ((valid.threads t thread present).alive notDead).1
  have threadsEq : s.threads = A.threads := congrArg Sched.threads rel.view
  have found : s.threads t = some thread := by rw [threadsEq, present]
  rw [afterSwitch, ensures_bind, ensures_deref found, resume]
  cases pcb : thread.tPcb with
  | threadstart => exact ⟨rel, ThreadSystem.StorageGrows.refl _ _ _⟩
  | switched nextstate =>
      cases nextstate with
      | zomb => exact absurd pcb notZombie
      | run => exact exorcise_refines rel valid
      | ready => exact exorcise_refines rel valid
      | sleep =>
          simp only [ensures_bind]
          apply (exorcise_refines rel valid).imp
          rintro _ s₁ ⟨rel₁, grows₁⟩
          rcases foldl_destroy_frame A.zombies A with ⟨_, _, threads⟩
          rcases rel₁.exists_view with ⟨queue, view₁, storage₁⟩
          have stillPresent : s₁.threads t = some thread := by
            have threads₁ : s₁.threads = A.bury.threads := congrArg Sched.threads view₁.symm
            rw [threads₁]
            exact (threads t notDead).trans present
          rw [ensures_update stillPresent, view₁, ← pcb]
          exact ⟨⟨rfl, storage₁⟩, grows₁⟩

theorem switchTo_refines (rel : Rel s A) (valid : A.Valid) (waiting : A.current = none)
    (busy : doIdle s = false) (present : (A.threads cur).isSome) :
    Ensures (switchTo cur) s (fun reason => reason = .filetableNull) (fun _ _ => False)
      (fun _ s' => ∃ t thread, A.queue.Picks t ∧ A.threads t = some thread ∧
        Becomes s ((A.dispatch t thread).resume t (lowerPriority thread)) s') := by
  rw [switchTo, ensures_bind]
  apply (scheduler_refines rel valid busy).total
  rintro t s₁ ⟨thread, picks, picked, rel₁, grows₁⟩
  rcases rel₁.exists_view with ⟨queue, view₁, storage₁⟩
  have rel₂ : Rel ({ s₁ with curthread := some t, idling := none }.record (.dispatch t))
      (A.dispatch t thread) := by
    rw [Sched.dispatch, view₁]
    have logEq : A.log = s₁.log := congrArg log view₁
    rw [logEq]
    exact ⟨rfl, storage₁⟩
  have curPresent : ∃ found, s₁.threads cur = some found := by
    rw [show s₁.threads = (A.choose t thread).threads from congrArg Sched.threads view₁.symm]
    by_cases same : cur = t
    · exact ⟨lowerPriority thread, by simp [choose, same]⟩
    · rcases isSome_iff_exists.mp present with ⟨found, present⟩
      exact ⟨found, by simp [choose, update_of_ne same, present]⟩
  rcases curPresent with ⟨found, curPresent⟩
  have curStays : ({ s₁ with curthread := some t, idling := none }.record
      (.dispatch t)).threads cur = some found := curPresent
  rw [ensures_bind, ensures_modify, ensures_bind, ensures_deref curStays]
  have dispatched : (A.dispatch t thread).threads t = some (lowerPriority thread) := by
    simp [Sched.dispatch, choose]
  apply (afterSwitch_refines rel₂ (valid.dispatch waiting picks picked) rfl dispatched).imp
  rintro _ s₂ ⟨rel₃, grows₂⟩
  exact ⟨t, thread, picks, picked, rel₃, grows₁.trans grows₂⟩

/-- The list for threads of the state, at the priority, has no free slot. -/
def ListFull (s : ThreadSystem) (p : Nat) : ThreadState → Prop
  | .ready => RunqueueFull s p
  | .sleep => s.sleepers.num = s.sleepers.max
  | .zomb => s.zombies.num = s.zombies.max
  | .run => False

theorem stash_refines {changed : Thread} (different : nextstate ≠ .run)
    (rel : Rel s ({ A with current := none }.setThread cur (some changed)))
    (pcb : changed = { thread with tPcb := .switched nextstate })
    (priority : A.queue.prio cur = thread.priority) (inside : thread.priority < numPriorities)
    (small : A.queue.ready.length ≤ maxThreads) :
    Ensures (stash cur nextstate) s (fun _ => False)
      (fun _ _ => ListFull s thread.priority nextstate ∧ s.heap 0 = false)
      (fun _ s' => Becomes s (A.park cur thread nextstate) s') := by
  subst pcb
  cases nextstate with
  | run => exact absurd rfl different
  | ready =>
      have found : ({ A with current := none }.setThread cur
          (some { thread with tPcb := .switched .ready })).threads cur =
          some { thread with tPcb := .switched .ready } := by simp
      apply (makeRunnable_refines rel found priority inside small).answers
      · rintro _ _ ⟨full, memory, _⟩
        exact ⟨full, memory⟩
      · exact fun _ _ becomes => becomes
  | sleep =>
      rcases rel.exists_view with ⟨queue, view, storage⟩
      have sleepersEq : A.sleepers = s.sleepers.toList := congrArg sleepers view
      have stored : A.park cur thread .sleep =
          { s.view queue with sleepers := s.sleepers.toList ++ [cur] } := by
        rw [← view, ← sleepersEq]
        rfl
      simp only [stash, ensures_bind, ensures_get, ensures_onHeap, stored]
      rcases KArray.arrayAdd_eq storage.sleepers_wf cur s.heap with
        ⟨_, sleepers, outcome, wf, listEq, maxEq⟩ | ⟨full, memory, outcome⟩ |
          ⟨_, memory, sleepers, outcome, wf, listEq, max_le⟩
      · rw [ensures_of_ok_eq outcome, ensures_modify, ← listEq]
        exact ⟨⟨rfl, wf, storage.zombies_wf, storage.processIds_wf, storage.processIds_size,
          storage.runqueue_wf, storage.size_le, storage.level⟩,
          fun _ _ => le_rfl, maxEq.ge, fun starved => ⟨starved, fun _ _ => rfl⟩⟩
      · rw [ensures_of_fail_eq outcome]
        exact ⟨full, memory⟩
      · rw [ensures_of_ok_eq outcome, ensures_modify, ← listEq]
        refine ⟨⟨rfl, wf, storage.zombies_wf, storage.processIds_wf, storage.processIds_size,
          storage.runqueue_wf, storage.size_le, storage.level⟩, fun _ _ => le_rfl, max_le, ?_⟩
        intro starved
        simp [starved, noMemory] at memory
  | zomb =>
      rcases rel.exists_view with ⟨queue, view, storage⟩
      have zombiesEq : A.zombies = s.zombies.toList := congrArg zombies view
      have stored : A.park cur thread .zomb =
          { s.view queue with zombies := s.zombies.toList ++ [cur] } := by
        rw [← view, ← zombiesEq]
        rfl
      simp only [stash, ensures_bind, ensures_get, ensures_onHeap, stored]
      rcases KArray.arrayAdd_eq storage.zombies_wf cur s.heap with
        ⟨_, zombies, outcome, wf, listEq, _⟩ | ⟨full, memory, outcome⟩ |
          ⟨_, memory, zombies, outcome, wf, listEq, _⟩
      · rw [ensures_of_ok_eq outcome, ensures_modify, ← listEq]
        exact ⟨⟨rfl, storage.sleepers_wf, wf, storage.processIds_wf, storage.processIds_size,
          storage.runqueue_wf, storage.size_le, storage.level⟩,
          fun _ _ => le_rfl, le_rfl, fun starved => ⟨starved, fun _ _ => rfl⟩⟩
      · rw [ensures_of_fail_eq outcome]
        exact ⟨full, memory⟩
      · rw [ensures_of_ok_eq outcome, ensures_modify, ← listEq]
        refine ⟨⟨rfl, storage.sleepers_wf, wf, storage.processIds_wf, storage.processIds_size,
          storage.runqueue_wf, storage.size_le, storage.level⟩, fun _ _ => le_rfl, le_rfl, ?_⟩
        intro starved
        simp [starved, noMemory] at memory

theorem ready_nil_of_doIdle (storage : s.Storage queue)
    (prio_lt : ∀ t, queue.prio t < numPriorities) (idle : doIdle s = true) : queue.ready = [] := by
  apply List.eq_nil_iff_forall_not_mem.mpr
  intro t ready
  have inside := prio_lt t
  have empty : (s.runqueue (queue.prio t)).qEmpty = true :=
    List.all_eq_true.mp idle _ (mem_range.mpr inside)
  have member : t ∈ queue.level (queue.prio t) := mem_level.mpr ⟨ready, rfl⟩
  rw [← storage.level _ inside, (qEmpty_iff (storage.runqueue_wf _ inside)).mp empty] at member
  exact List.not_mem_nil member

/-- `mi_switch` fails its assertion only when the list for the thread is full and there is no
memory. -/
theorem miSwitch_refines (different : nextstate ≠ .run) (rel : Rel s A)
    (running : A.current = some cur) (present : A.threads cur = some thread)
    (priority : A.queue.prio cur = thread.priority) (inside : thread.priority < numPriorities)
    (small : A.queue.ready.length ≤ maxThreads) (parked : (A.park cur thread nextstate).Valid) :
    Ensures (miSwitch nextstate) s
      (fun reason => reason = .filetableNull ∨ reason = .miSwitchResult ∧
        ListFull s thread.priority nextstate ∧ s.heap 0 = false)
      (fun _ _ => False)
      (fun _ s' => ∃ B, (A.park cur thread nextstate).Rescheduled cur B ∧ Becomes s B s') := by
  rcases rel.exists_view with ⟨queue, rfl, storage⟩
  have running : s.curthread = some cur := running
  have found : ({ s with curthread := none } : ThreadSystem).threads cur = some thread := present
  have waiting : ((s.view queue).park cur thread nextstate).current = none := by
    cases nextstate <;> rfl
  have stays : (((s.view queue).park cur thread nextstate).threads cur).isSome := by
    cases nextstate with
    | run => exact absurd rfl different
    | ready => simp [park]
    | sleep => simp [park]
    | zomb => simp [park]
  have rel₁ : Rel ({ s with curthread := none }.setThread cur
      (some { thread with tPcb := .switched nextstate }))
      ({ s.view queue with current := none }.setThread cur
        (some { thread with tPcb := .switched nextstate })) := ⟨rfl, storage⟩
  simp only [miSwitch, ensures_bind, ensures_get, running, ensures_modify,
    ensures_update found, ensures_attempt]
  apply (stash_refines different rel₁ rfl priority inside small).mono
  · exact fun _ halted => halted.elim
  · intro _ _ full
    exact Or.inr ⟨rfl, full⟩
  · rintro ⟨⟩ s₁ ⟨rel₂, grows₁⟩
    have grows₁ : s.Grows s₁ := grows₁
    cases idle : doIdle s₁ with
    | true =>
        rcases rel₂.exists_view with ⟨queue₁, view₁, storage₁⟩
        have prio_lt : ∀ t, queue₁.prio t < numPriorities := by
          intro t
          have queueEq : ((s.view queue).park cur thread nextstate).queue = queue₁ :=
            congrArg Sched.queue view₁
          rw [← queueEq]
          exact lt_of_le_of_lt (parked.history.run.prio_le t) (by decide)
        have readyNil := ready_nil_of_doIdle storage₁ prio_lt idle
        refine ⟨_, Or.inl ⟨?_, rfl⟩, ?_, grows₁⟩
        · rw [view₁]
          exact readyNil
        · rw [view₁]
          exact ⟨rfl, storage₁⟩
    | false =>
        simp only [Bool.false_eq_true, if_false]
        apply (switchTo_refines rel₂ parked waiting idle stays).unfailing
        · intro _ halted
          exact Or.inl halted
        · rintro _ s₂ ⟨t, picked, picks, pickedPresent, rel₃, grows₂⟩
          exact ⟨_, Or.inr ⟨t, picked, picks, pickedPresent, rfl⟩, rel₃, grows₁.trans grows₂⟩

end Os161
