import Os161.Thread.Refine

/-!
# What `thread_fork` does

The outcomes of `thread_fork` and of the functions it calls, with the calls of
`kmalloc` that decide between them. `KHeap.Grants` counts the calls that have to
succeed: the structure and the name, then, after the file table, the stack, four
for the copy of an address space, the two arrays and every run queue that is too
small for one more thread.
-/

namespace Os161

open ThreadSystem.StorageGrows KHeap Sched ThreadM
open ThreadSystem (setRunqueue view)

variable {s : ThreadSystem} {A : Sched}

theorem filetableCreate_spec (heap : KHeap) :
    ∃ ft, filetableCreate heap = .ok (.ok ft, heap.after (if heap 0 then 2 else 1)) ∧
      Sched.FilesClosed ft := by
  cases first : heap 0 with
  | false =>
      refine ⟨none, ?_, by simp [Sched.FilesClosed]⟩
      rw [filetableCreate, bind_of_ok (kmalloc_apply heap), first]
      rfl
  | true =>
      cases second : heap 1 with
      | false =>
          refine ⟨none, ?_, by simp [Sched.FilesClosed]⟩
          rw [filetableCreate, bind_of_ok (kmalloc_apply heap), first]
          have created : (KArray.arrayCreate : HeapM (Option (KArray (Option Nat))))
              (heap.after 1) = .ok (.ok none, heap.after 2) := by
            rw [KArray.arrayCreate, bind_of_ok (kmalloc_apply _)]
            simp only [KHeap.after, second]
            rfl
          exact bind_of_ok created
      | true =>
          refine ⟨some { handles := KArray.empty, next := 0 }, ?_, by simp [Sched.FilesClosed]⟩
          rw [filetableCreate, bind_of_ok (kmalloc_apply heap), first]
          have created : (KArray.arrayCreate : HeapM (Option (KArray (Option Nat))))
              (heap.after 1) = .ok (.ok (some KArray.empty), heap.after 2) := by
            rw [KArray.arrayCreate, bind_of_ok (kmalloc_apply _)]
            simp only [KHeap.after, second]
            rfl
          exact bind_of_ok created

/-- The calls of `kmalloc` in `as_copy`, which stops at the first that is refused. -/
def copyCalls (heap : KHeap) : Nat :=
  if heap 0 = false then 1
  else if heap 1 = false then 2
  else if heap 2 = false then 3
  else 4

/-- `as_copy` needs four allocations. -/
theorem asCopy_spec (old : AddrSpace) (heap : KHeap) :
    Ensures (asCopy old) heap (fun _ => False)
      (fun _ heap' => ¬heap.Grants 4 ∧ heap' = heap.after (copyCalls heap))
      (fun copy heap' => heap.Grants 4 ∧ copy = old ∧ heap' = heap.after 4) := by
  simp only [asCopy, asPrepareLoad, ensures_bind, ensures_allocate, ensures_pure,
    grants_succ, after_after, grants_zero, and_true]
  split
  · rename_i first
    have first : heap 0 = true := first
    split
    · rename_i second
      have second : heap 1 = true := second
      split
      · rename_i third
        have third : heap 2 = true := third
        split
        · simp_all
        · exact ⟨by simp_all, by simp [copyCalls, first, second, third]⟩
      · rename_i third
        have third : ¬heap 2 = true := third
        exact ⟨by simp_all, by simp [copyCalls, first, second, third]⟩
    · rename_i second
      have second : ¬heap 1 = true := second
      exact ⟨by simp_all, by simp [copyCalls, first, second]⟩
  · rename_i first
    have first : ¬heap 0 = true := first
    exact ⟨by simp_all, by simp [copyCalls, first]⟩

/-- The calls of `kmalloc` in a successful `thread_create`. -/
def createCalls (heap : KHeap) : Nat :=
  if heap 2 then 4 else 3

/-- The structure that `thread_create` fills in. -/
def freshThread (id : Nat) (ft : Option FileTable) : Thread :=
  { tSleepaddr := none, tVmspace := none, tCwd := none, ft, priority := priorityNormal, id,
    tPcb := .threadstart }

namespace Sched

def create (A : Sched) (thread : Thread) (ids : List Nat) : Sched :=
  { A with
    ids
    threads := Function.update A.threads A.nextThread (some thread)
    nextThread := A.nextThread + 1 }

end Sched

theorem threadCreate_spec (rel : Rel s A) :
    Ensures threadCreate s
      (fun reason => reason = .qEmpty ∧ s.heap.Grants 2 ∧ A.ids = []) (fun _ _ => False)
      (fun result s' =>
        (result = none ∧ ¬s.heap.Grants 2 ∧ Becomes s A s') ∨
          ∃ id rest ft, result = some A.nextThread ∧ s.heap.Grants 2 ∧ A.ids = id :: rest ∧
            Sched.FilesClosed ft ∧ s'.heap = s.heap.after (createCalls s.heap) ∧
            s'.runqueue = s.runqueue ∧ Becomes s (A.create (freshThread id ft) rest) s') := by
  rcases rel.exists_view with ⟨queue, rfl, storage⟩
  have wf := storage.processIds_wf
  simp only [threadCreate, ensures_bind, ensures_onHeap, ensures_kmalloc,
    ensures_ite, ensures_get, ensures_pure, after_after]
  rw [grants_succ, grants_succ, after_after]
  split
  · rename_i first
    split
    · rename_i second
      have grants := And.intro first (And.intro second (grants_zero (s.heap.after 2)))
      cases ids : s.processIds.toList with
      | nil =>
          rw [ensures_of_halt_eq (Queue.qRemhead_nil wf ids _)]
          exact ⟨rfl, grants, ids⟩
      | cons id rest =>
          have notNil : s.processIds.toList ≠ [] := by simp [ids]
          rcases Queue.qRemhead_eq wf notNil (s.heap.after 2) with ⟨first', outcome⟩
          rw [ids] at first'
          rcases List.cons.inj first' with ⟨idEq, restEq⟩
          rcases filetableCreate_spec (s.heap.after 2) with ⟨ft, created, closed⟩
          rw [ensures_of_ok_eq outcome]
          simp only [ensures_modify]
          rw [ensures_of_ok_eq created, after_after]
          have calls : 2 + (if s.heap.after 2 0 = true then 2 else 1) = createCalls s.heap := by
            cases third : s.heap 2 <;> simp [KHeap.after, createCalls, third]
          rw [calls]
          refine Or.inr ⟨id, rest, ft, rfl, grants, ids, closed, rfl, rfl, ⟨?_, ?_⟩, ?_⟩
          · rw [idEq, restEq]
            rfl
          · exact ⟨storage.sleepers_wf, storage.zombies_wf, Queue.pop_wellFormed wf,
              storage.processIds_size, storage.runqueue_wf, storage.size_le, storage.level⟩
          · exact after _ _ _ _
    · rename_i second
      refine Or.inl ⟨trivial, fun grants => second grants.2.1, ⟨rfl, storage⟩, ?_⟩
      exact after _ _ _ 2
  · rename_i first
    refine Or.inl ⟨trivial, fun grants => first grants.1, ⟨rfl, storage⟩, ?_⟩
    exact after _ _ _ 1

/-- What the child gets of the address space: a copy, if there is memory for it. -/
def InheritsSpace (heap heap' : KHeap) (parent child : Option AddrSpace) : Prop :=
  (parent = none ∧ child = none ∧ heap' = heap) ∨
    (parent.isSome ∧ heap.Grants 4 ∧ child = parent ∧ heap' = heap.after 4) ∨
    (parent.isSome ∧ ¬heap.Grants 4 ∧ child = none)

theorem InheritsSpace.enough {heap heap' : KHeap} {parent child : Option AddrSpace}
    (inherits : InheritsSpace heap heap' parent child) (n : Nat) :
    (heap'.Grants n ∧ child = parent ↔ heap.Grants (n + if parent.isSome then 4 else 0)) ∧
      (child = parent ∨ parent.isSome ∧ child = none) := by
  rcases inherits with ⟨rfl, rfl, rfl⟩ | ⟨present, granted, rfl, rfl⟩ | ⟨present, refused, rfl⟩
  · simp
  · rw [if_pos present, Nat.add_comm, grants_add]
    simp [granted]
  · rw [if_pos present, Nat.add_comm, grants_add]
    refine ⟨?_, Or.inr ⟨present, rfl⟩⟩
    constructor
    · rintro ⟨_, rfl⟩
      simp at present
    · rintro ⟨granted, _⟩
      exact absurd granted refused

variable {cur new : Nat} {parent child : Thread}

/-- The calls of `kmalloc` for the address space of the child. -/
def spaceCalls (parent : Thread) (heap : KHeap) : Nat :=
  if parent.tVmspace.isSome then copyCalls heap else 0

theorem copyCalls_of_grants {heap : KHeap} (granted : heap.Grants 4) : copyCalls heap = 4 := by
  simp [copyCalls, granted 0 (by omega), granted 1 (by omega), granted 2 (by omega)]

theorem threadForkSpace_spec (rel : Rel s A) (present : A.threads new = some child)
    (noSpace : child.tVmspace = none) :
    Ensures (threadForkSpace parent new) s (fun _ => False) (fun _ _ => False)
      (fun _ s' => ∃ space, InheritsSpace s.heap s'.heap parent.tVmspace space ∧
        s'.heap = s.heap.after (spaceCalls parent s.heap) ∧ s'.runqueue = s.runqueue ∧
        Becomes s (A.setThread new (some { child with tVmspace := space })) s') := by
  rcases rel.exists_view with ⟨queue, rfl, storage⟩
  have unchanged : (s.view queue).setThread new (some { child with tVmspace := none }) =
      s.view queue := by
    rw [← noSpace, ← present]
    simp only [setThread, update_eq_self]
  rw [threadForkSpace]
  cases inherited : parent.tVmspace with
  | none =>
      have calls : spaceCalls parent s.heap = 0 := by simp [spaceCalls, inherited]
      refine ⟨none, Or.inl ⟨rfl, rfl, rfl⟩, by rw [calls]; rfl, rfl, ?_⟩
      rw [unchanged]
      exact ⟨rel, refl _ _ _⟩
  | some space =>
      have calls : spaceCalls parent s.heap = copyCalls s.heap := by simp [spaceCalls, inherited]
      simp only [ensures_bind, ensures_attempt, ensures_onHeap]
      apply (asCopy_spec space s.heap).answers
      · rintro _ _ ⟨refused, rfl⟩
        refine ⟨none, Or.inr (Or.inr ⟨rfl, refused, rfl⟩), by rw [calls], rfl, ?_⟩
        rw [unchanged]
        exact ⟨⟨rfl, storage⟩, after _ _ _ _⟩
      · rintro _ _ ⟨granted, rfl, rfl⟩
        have found : ({ s with heap := s.heap.after 4 } : ThreadSystem).threads new =
            some child := present
        rw [ensures_update found]
        refine ⟨some _, Or.inr (Or.inl ⟨rfl, granted, rfl, rfl⟩), ?_, rfl, ⟨rfl, storage⟩,
          after _ _ _ 4⟩
        rw [calls, copyCalls_of_grants granted]
        rfl

theorem threadForkCwd_spec (rel : Rel s A) (present : A.threads new = some child)
    (noCwd : child.tCwd = none) :
    Ensures (threadForkCwd parent new) s (fun _ => False) (fun _ _ => False)
      (fun _ s' => s'.heap = s.heap ∧ s'.runqueue = s.runqueue ∧
        Becomes s ({ A with refs := inheritRefs A.refs parent.tCwd }.setThread new
          (some { child with tCwd := parent.tCwd })) s') := by
  rcases rel.exists_view with ⟨queue, rfl, storage⟩
  have unchanged : (s.view queue).setThread new (some { child with tCwd := none }) =
      s.view queue := by
    rw [← noCwd, ← present]
    simp only [setThread, update_eq_self]
  rw [threadForkCwd]
  cases cwd : parent.tCwd with
  | none =>
      simp only [inheritRefs]
      rw [unchanged]
      exact ⟨rfl, rfl, rel, refl _ _ _⟩
  | some vn =>
      have found : (s.setRefcount vn (s.vnRefcount vn + 1)).threads new = some child := present
      simp only [ensures_bind, vnodeIncref, ensures_modify]
      rw [ensures_update found]
      exact ⟨rfl, rfl, ⟨rfl, storage⟩, refl _ _ _⟩

/-- How many of the run queues are too small for `nthreads` threads. -/
def shortQueues (runqueue : Nat → Queue Nat) (nthreads : Nat) (ps : List Nat) : Nat :=
  ps.countP fun p => (runqueue p).size < nthreads

theorem shortQueues_setRunqueue {runqueue : Nat → Queue Nat} {nthreads p : Nat} {q : Queue Nat}
    {ps : List Nat} (absent : p ∉ ps) :
    shortQueues (Function.update runqueue p q) nthreads ps = shortQueues runqueue nthreads ps := by
  apply List.countP_congr
  intro other member
  have different : other ≠ p := by
    rintro rfl
    exact absent member
  rw [update_of_ne different]

theorem schedulerPreallocateLoop_spec {nthreads : Nat} (nthreads_le : nthreads ≤ maxThreads + 1)
    (ps : List Nat) :
    ∀ {s : ThreadSystem}, Rel s A → ps.Nodup → (∀ p ∈ ps, p < numPriorities) →
      Ensures (schedulerPreallocateLoop nthreads ps) s (fun _ => False)
        (fun _ s' => ¬s.heap.Grants (shortQueues s.runqueue nthreads ps) ∧ Becomes s A s')
        (fun _ s' => s.heap.Grants (shortQueues s.runqueue nthreads ps) ∧ Becomes s A s' ∧
          s'.sleepers = s.sleepers ∧ ∀ p ∈ ps, nthreads ≤ (s'.runqueue p).size) := by
  induction ps with
  | nil =>
      intro s rel _ _
      exact ⟨grants_zero _, ⟨rel, refl _ _ _⟩, rfl, by simp⟩
  | cons p ps ih =>
      intro s rel nodup inside
      rcases rel.exists_view with ⟨queue, rfl, storage⟩
      rcases nodup_cons.mp nodup with ⟨absent, nodup⟩
      have pInside := inside p mem_cons_self
      have psInside := fun q member => inside q (mem_cons_of_mem p member)
      have wf := storage.runqueue_wf p pInside
      have size_le := storage.size_le p pInside
      simp only [maxThreads] at nthreads_le
      have shorts : shortQueues s.runqueue nthreads (p :: ps) =
          shortQueues s.runqueue nthreads ps + if (s.runqueue p).size < nthreads then 1 else 0 := by
        simp [shortQueues, List.countP_cons]
      simp only [schedulerPreallocateLoop, ensures_bind, ensures_get, ensures_onHeap]
      rcases Queue.qPreallocate_eq wf (show nthreads ≤ 2 ^ 30 by omega) s.heap with
        ⟨large, outcome⟩ | ⟨small, memory, outcome⟩ |
          ⟨small, memory, q, outcome, qWf, listEq, large, tight⟩
      · rw [ensures_of_ok_eq outcome, ensures_modify]
        have stored := storage.setRunqueue queue p wf size_le (storage.level p pInside)
          (fun _ _ _ => rfl)
        rw [shorts, if_neg (by omega), Nat.add_zero]
        have rel₁ : Rel (s.setRunqueue p (s.runqueue p)) (s.view queue) := ⟨rfl, stored⟩
        have grows₁ : s.Grows (s.setRunqueue p (s.runqueue p)) :=
          ThreadSystem.Grows.setRunqueue le_rfl (fun starved => ⟨starved, rfl⟩)
        apply (ih rel₁ nodup psInside).answers
        · rintro _ s₂ ⟨refused, rel₂, grows₂⟩
          rw [setRunqueue, shortQueues_setRunqueue absent] at refused
          exact ⟨refused, rel₂, grows₁.trans grows₂⟩
        · rintro _ s₂ ⟨granted, ⟨rel₂, grows₂⟩, sleepersEq, sizes⟩
          rw [setRunqueue, shortQueues_setRunqueue absent] at granted
          refine ⟨granted, ⟨rel₂, grows₁.trans grows₂⟩, sleepersEq, ?_⟩
          intro other member
          rcases mem_cons.mp member with rfl | member
          · exact large.trans ((grows₁.trans grows₂).size_le other pInside)
          · exact sizes other member
      · rw [ensures_of_fail_eq outcome]
        refine ⟨?_, ⟨rfl, storage⟩, after _ _ _ 1⟩
        rw [shorts, if_pos small, grants_succ, memory]
        simp
      · rw [ensures_of_ok_eq outcome, ensures_modify]
        have stored := storage.setRunqueue queue p qWf (by omega)
          (listEq.trans (storage.level p pInside)) (fun _ _ _ => rfl)
        rw [shorts, if_pos small, grants_succ, memory]
        have rel₁ : Rel ({ s with heap := s.heap.after 1 }.setRunqueue p q) (s.view queue) :=
          ⟨rfl, stored⟩
        have grows₁ : s.Grows ({ s with heap := s.heap.after 1 }.setRunqueue p q) := by
          apply ThreadSystem.Grows.setRunqueue (by omega)
          intro starved
          simp [starved, noMemory] at memory
        apply (ih rel₁ nodup psInside).answers
        · rintro _ s₂ ⟨refused, rel₂, grows₂⟩
          rw [setRunqueue, shortQueues_setRunqueue absent] at refused
          exact ⟨fun granted => refused granted.2, rel₂, grows₁.trans grows₂⟩
        · rintro _ s₂ ⟨granted, ⟨rel₂, grows₂⟩, sleepersEq, sizes⟩
          rw [setRunqueue, shortQueues_setRunqueue absent] at granted
          refine ⟨⟨rfl, granted⟩, ⟨rel₂, grows₁.trans grows₂⟩, sleepersEq, ?_⟩
          intro other member
          rcases mem_cons.mp member with rfl | member
          · have kept := grows₂.size_le other pInside
            simp only [setRunqueue, update_self] at kept
            omega
          · exact sizes other member

/-- The allocations that the part of `thread_fork` with interrupts off needs. -/
def publishCalls (s : ThreadSystem) : Nat :=
  shortQueues s.runqueue (s.numthreads + 1) (List.range numPriorities) + 2

/-- There is room for all threads in every run queue and in the array of sleepers. -/
def Roomy (s : ThreadSystem) : Prop :=
  (∀ p < numPriorities, s.numthreads ≤ (s.runqueue p).size) ∧ s.numthreads ≤ s.sleepers.max

theorem arrayPreallocate_spec {a : KArray Nat} (wf : a.WellFormed) (nguys : Nat) (heap : KHeap) :
    Ensures (a.arrayPreallocate nguys) heap (fun _ => False)
      (fun _ heap' => heap 0 = false ∧ heap' = heap.after 1)
      (fun a' heap' => heap 0 = true ∧ heap' = heap.after 1 ∧ a'.WellFormed ∧
        a'.toList = a.toList ∧ nguys ≤ a'.max ∧ a.max ≤ a'.max) := by
  rcases KArray.arrayPreallocate_eq wf nguys heap with
    ⟨memory, outcome⟩ | ⟨memory, a', outcome, rest⟩
  · rw [ensures_of_fail_eq outcome]
    exact ⟨memory, rfl⟩
  · rw [ensures_of_ok_eq outcome]
    exact ⟨memory, rfl, rest⟩

/-- The preallocation is enough for `make_runnable`, since the current thread is not ready. -/
theorem threadForkPublish_spec (rel : Rel s A) (present : A.threads new = some child)
    (priority : A.queue.prio new = child.priority) (inside : child.priority < numPriorities)
    (num_le : A.num ≤ maxThreads) (ready_lt : A.queue.ready.length < A.num) :
    Ensures (threadForkPublish new) s (fun _ => False)
      (fun _ s' => ¬s.heap.Grants (publishCalls s) ∧ Becomes s A s')
      (fun _ s' => s.heap.Grants (publishCalls s) ∧
        Becomes s { A.enqueue new with num := A.num + 1 } s' ∧ Roomy s') := by
  rcases rel.exists_view with ⟨queue, rfl, storage⟩
  have num_le : s.numthreads ≤ maxThreads := num_le
  have ready_lt : queue.ready.length < s.numthreads := ready_lt
  rw [publishCalls, grants_succ, grants_succ, after_after]
  simp only [threadForkPublish, ensures_bind, ensures_get, ensures_onHeap]
  apply (arrayPreallocate_spec storage.sleepers_wf (s.numthreads + 1) s.heap).answers
  · rintro _ _ ⟨memory, rfl⟩
    exact ⟨by simp [memory], ⟨rfl, storage⟩, after _ _ _ 1⟩
  rintro sleepers _ ⟨memory, rfl, sleepersWf, sleepersEq, sleepersRoom, sleepersMax⟩
  simp only [ensures_modify]
  apply (arrayPreallocate_spec storage.zombies_wf (s.numthreads + 1) (s.heap.after 1)).answers
  · rintro _ _ ⟨memory', rfl⟩
    refine ⟨by simp [memory'], ⟨?_, sleepersWf, storage.zombies_wf, storage.processIds_wf,
      storage.processIds_size, storage.runqueue_wf, storage.size_le, storage.level⟩,
      fun _ _ => le_rfl, sleepersMax, ?_⟩
    · simp only [view, sleepersEq]
    · intro starved
      simp [starved, noMemory] at memory
  rintro zombies _ ⟨memory', rfl, zombiesWf, zombiesEq, _, _⟩
  rw [after_after]
  have rel₁ : Rel { s with sleepers, zombies, heap := s.heap.after 2 } (s.view queue) := by
    refine ⟨?_, sleepersWf, zombiesWf, storage.processIds_wf, storage.processIds_size,
      storage.runqueue_wf, storage.size_le, storage.level⟩
    simp only [view, sleepersEq, zombiesEq]
  have grows₁ : s.Grows { s with sleepers, zombies, heap := s.heap.after 2 } := by
    refine ⟨fun _ _ => le_rfl, sleepersMax, ?_⟩
    intro starved
    simp [starved, noMemory] at memory
  apply (schedulerPreallocateLoop_spec (Nat.add_le_add_right num_le 1) (List.range numPriorities)
    rel₁ List.nodup_range (by simp)).answers
  · rintro _ s₂ ⟨refused, rel₂, grows₂⟩
    exact ⟨fun granted => refused granted.2.2, rel₂, grows₁.trans grows₂⟩
  rintro _ s₂ ⟨granted, ⟨rel₂, grows₂⟩, sleepersStay, sizes⟩
  have small : queue.ready.length ≤ maxThreads := by omega
  apply (makeRunnable_refines rel₂ present priority inside small).answers
  · rintro _ _ ⟨full, _⟩
    have size_le := sizes child.priority (mem_range.mpr inside)
    have count_le : (s₂.runqueue child.priority).count ≤ queue.ready.length := by
      rw [← Queue.length_toList, rel₂.storage.level _ inside]
      exact queue.length_level_le _
    simp only [RunqueueFull] at full
    omega
  rintro _ s₃ ⟨rel₃, grows₃⟩
  rcases rel₃.exists_view with ⟨queue₃, view₃, storage₃⟩
  have numEq : s.numthreads = s₃.numthreads := congrArg num view₃
  refine ⟨⟨memory, memory', granted⟩, ⟨?_, (grows₁.trans grows₂).trans grows₃⟩, ?_, ?_⟩
  · rw [view₃]
    exact ⟨by simp [view, numEq], storage₃⟩
  · intro p pInside
    have size_le := sizes p (mem_range.mpr pInside)
    have grown := grows₃.size_le p pInside
    simp only
    omega
  · have grown := grows₃.max_le
    rw [sleepersStay] at grown
    simp only at grown ⊢
    omega

/-- The allocations that `thread_fork` needs after `thread_create`. -/
def forkCalls (s : ThreadSystem) (parent : Thread) : Nat :=
  publishCalls s + (if parent.tVmspace.isSome then 4 else 0) + 1

/-- There is memory for all that `thread_fork` allocates after `thread_create`. -/
def ForkMemory (s : ThreadSystem) (parent : Thread) : Prop :=
  (s.heap.after (createCalls s.heap)).Grants (forkCalls s parent)

/-- There is memory for all without which `thread_fork` fails after `thread_create`: the stack,
and, behind the calls for the address space, room in the arrays and the queues. -/
def ForkGranted (s : ThreadSystem) (parent : Thread) : Prop :=
  s.heap (createCalls s.heap) = true ∧
    (s.heap.after (createCalls s.heap + 1 +
      spaceCalls parent (s.heap.after (createCalls s.heap + 1)))).Grants (publishCalls s)

/-- What `thread_fork` leaves behind when it returns 0. -/
def Forked (s : ThreadSystem) (A : Sched) (parent : Thread) (s' : ThreadSystem) : Prop :=
  ∃ child rest, A.ids = child.id :: rest ∧ child.priority = priorityNormal ∧
    child.tPcb = .threadstart ∧ Sched.FilesClosed child.ft ∧
    (ForkMemory s parent ∧ child.tVmspace = parent.tVmspace ∨
      ¬ForkMemory s parent ∧ parent.tVmspace.isSome ∧ child.tVmspace = none) ∧
    Becomes s (A.enroll child rest) s' ∧ Roomy s'

namespace Sched

/-- What `thread_fork` relies on. -/
structure Forkable (A : Sched) : Prop where
  placed : A.Placed
  ids : A.IdsValid
  normal : ∀ t, A.nextThread ≤ t → A.queue.prio t = priorityNormal

theorem Valid.forkable (valid : A.Valid) : A.Forkable :=
  ⟨valid.placed, valid.ids, valid.history.normal⟩

/-- The child before it is published: its structure, and the reference to the directory. -/
def prepare (A : Sched) (child : Thread) (ids : List Nat) : Sched :=
  { A.create child ids with refs := inheritRefs A.refs child.tCwd }

theorem prepare_publish (A : Sched) (child : Thread) (ids : List Nat) :
    A.enroll child ids =
      { (A.prepare child ids).enqueue A.nextThread with
        num := A.num + 1
        log := .fork A.nextThread :: .runnable A.nextThread :: A.log } := rfl

theorem create_discard (placed : A.Placed) (child : Thread) (ids : List Nat) :
    (A.create child ids).setThread A.nextThread none = A.refuse ids := by
  have absent := placed.fresh A.nextThread le_rfl
  simp only [create, setThread, refuse, update_idem]
  rw [← absent, update_eq_self]

theorem prepare_discard {child : Thread} {ids : List Nat} (placed : A.Placed)
    (restored : (A.prepare child ids).refs = A.refs) :
    (A.prepare child ids).setThread A.nextThread none = A.refuse ids := by
  rw [← create_discard placed child ids]
  simp only [setThread, restored]
  rfl

end Sched

theorem threadForkFinish_spec {ids : List Nat} (forkable : A.Forkable)
    (running : A.current = some cur) (rel : Rel s (A.prepare child ids))
    (normal : child.priority = priorityNormal) :
    Ensures (threadForkFinish A.nextThread) s (fun _ => False)
      (fun _ s' => ¬s.heap.Grants (publishCalls s) ∧ Becomes s (A.refuse ids) s')
      (fun t s' => t = A.nextThread ∧ s.heap.Grants (publishCalls s) ∧
        Becomes s (A.enroll child ids) s' ∧ Roomy s') := by
  have present : (A.prepare child ids).threads A.nextThread = some child := by
    simp [prepare, create]
  have priority : (A.prepare child ids).queue.prio A.nextThread = child.priority := by
    rw [normal]
    exact forkable.normal A.nextThread le_rfl
  have num_le : (A.prepare child ids).num ≤ maxThreads := forkable.ids.num_le forkable.placed
  have ready_lt : (A.prepare child ids).queue.ready.length < (A.prepare child ids).num := by
    have num_eq := forkable.placed.num_eq
    simp only [running, toList_some, List.length_singleton] at num_eq
    simp only [prepare, create]
    omega
  simp only [threadForkFinish, ensures_bind, ensures_attempt]
  apply (threadForkPublish_spec rel present priority (by rw [normal]; decide) num_le
    ready_lt).answers
  · rintro _ s₁ ⟨refused, rel₁, grows₁⟩
    have found : s₁.threads A.nextThread = some child := by rw [rel₁.threads_eq, present]
    simp only [ensures_deref found]
    cases cwd : child.tCwd with
    | none =>
        have restored : (A.prepare child ids).refs = A.refs := by
          simp [prepare, inheritRefs, cwd]
        have rel₂ := rel₁.setThread A.nextThread none
        rw [prepare_discard forkable.placed restored] at rel₂
        exact ⟨refused, rel₂, grows₁⟩
    | some vn =>
        have refsEq : s₁.vnRefcount = inheritRefs A.refs (some vn) := by
          rw [← cwd]
          exact congrArg refs rel₁.view
        have counted : 0 < s₁.vnRefcount vn := by simp [refsEq, inheritRefs]
        have rel₂ := rel₁.setRefcount vn (s₁.vnRefcount vn - 1)
        have restored : Function.update (A.prepare child ids).refs vn (s₁.vnRefcount vn - 1) =
            A.refs := by
          simp [prepare, refsEq, inheritRefs, cwd]
        rw [restored] at rel₂
        have rel₃ := rel₂.setThread A.nextThread none
        simp only [vnodeDecref, ensures_bind, ensures_get,
          ensures_assert_of counted, ensures_modify, ensures_fail]
        refine ⟨refused, ?_, grows₁⟩
        rw [← create_discard forkable.placed child ids]
        exact rel₃
  · rintro ⟨⟩ s₁ ⟨granted, ⟨rel₁, grows₁⟩, roomy⟩
    refine ⟨rfl, granted, ⟨?_, grows₁⟩, roomy⟩
    rw [prepare_publish]
    exact rel₁.record (.fork A.nextThread)

theorem threadFork_spec (rel : Rel s A) (forkable : A.Forkable) (running : A.current = some cur)
    (present : A.threads cur = some parent) :
    Ensures threadFork s
      (fun reason => reason = .qEmpty ∧ s.heap.Grants 2 ∧ A.ids = [])
      (fun _ s' => (¬s.heap.Grants 2 ∧ Becomes s A s') ∨
        (s.heap.Grants 2 ∧ ¬ForkMemory s parent ∧ ¬ForkGranted s parent ∧
          ∃ id rest, A.ids = id :: rest ∧ Becomes s (A.refuse rest) s'))
      (fun t s' => t = A.nextThread ∧ s.heap.Grants 2 ∧ ForkGranted s parent ∧
        Forked s A parent s') := by
  have earlier : cur ≠ A.nextThread := by
    have lt := forkable.placed.lt_nextThread (t := cur) (by simp [present])
    omega
  rw [threadFork, ensures_bind]
  apply (threadCreate_spec rel).answers
  · exact fun _ _ failed => failed.elim
  rintro result s₁ (⟨rfl, refused, becomes⟩ |
    ⟨id, rest, ft, rfl, granted, taken, closed, heapEq, queuesEq, rel₁, grows₁⟩)
  · exact Or.inl ⟨refused, becomes⟩
  simp only [ensures_bind, ensures_onHeap, ensures_kmalloc, ensures_ite,
    ensures_modify, ensures_fail]
  have memoryIff : ForkMemory s parent ↔ s₁.heap 0 = true ∧
      (s₁.heap.after 1).Grants (publishCalls s + if parent.tVmspace.isSome then 4 else 0) := by
    rw [ForkMemory, ← heapEq, forkCalls, grants_succ]
  have rel₂ := rel₁.withHeap (s₁.heap.after 1)
  have grows₂ : s.Grows { s₁ with heap := s₁.heap.after 1 } :=
    ThreadSystem.Grows.trans grows₁ (after _ _ _ 1)
  split
  · rename_i stack
    have runningStill : ({ s₁ with heap := s₁.heap.after 1 } : ThreadSystem).curthread =
        some cur := rel₂.curthread_eq.trans running
    have foundParent : ({ s₁ with heap := s₁.heap.after 1 } : ThreadSystem).threads cur =
        some parent := by
      rw [rel₂.threads_eq]
      simp [create, update_of_ne earlier, present]
    have childPresent : (A.create (freshThread id ft) rest).threads A.nextThread =
        some (freshThread id ft) := by simp [create]
    rw [ensures_current runningStill, ensures_deref foundParent]
    apply (threadForkSpace_spec rel₂ childPresent rfl).total
    rintro _ s₃ ⟨space, inherits, heapEq₃, queuesEq₃, rel₃, grows₃⟩
    have copied : ((A.create (freshThread id ft) rest).setThread A.nextThread
        (some { freshThread id ft with tVmspace := space })).threads A.nextThread =
        some { freshThread id ft with tVmspace := space } := by simp
    apply (threadForkCwd_spec rel₃ copied rfl).total
    rintro _ s₄ ⟨heapEq₄, queuesEq₄, rel₄, grows₄⟩
    have prepared : Rel s₄ (A.prepare { freshThread id ft with
        tVmspace := space, tCwd := parent.tCwd } rest) := by
      simpa [prepare, create, setThread] using rel₄
    have grows : s.Grows s₄ := (grows₂.trans grows₃).trans grows₄
    have numEq : s₄.numthreads = s.numthreads :=
      (congrArg num prepared.view).trans (congrArg num rel.view).symm
    have callsEq : publishCalls s₄ = publishCalls s := by
      rw [publishCalls, publishCalls, numEq, queuesEq₄, queuesEq₃]
      simp only [queuesEq]
    have enough := inherits.enough (publishCalls s)
    rw [and_iff_right stack] at memoryIff
    rw [← heapEq₄, ← memoryIff] at enough
    have grantedIff : ForkGranted s parent ↔ s₄.heap.Grants (publishCalls s) := by
      rw [heapEq] at stack heapEq₃
      simp only [after_after] at heapEq₃
      have first : s.heap (createCalls s.heap) = true := by
        simpa [KHeap.after] using stack
      rw [ForkGranted, and_iff_right first, heapEq₄, heapEq₃, Nat.add_comm (createCalls s.heap) 1]
    apply (threadForkFinish_spec forkable running prepared rfl).mono
    · exact fun _ halted => halted.elim
    · rintro _ s₅ ⟨refused, rel₅, grows₅⟩
      rw [callsEq] at refused
      refine Or.inr ⟨granted, ?_, fun memory => refused (grantedIff.mp memory), id, rest, taken,
        rel₅, grows.trans grows₅⟩
      intro memory
      exact refused (enough.1.mpr memory).1
    · rintro t s₅ ⟨rfl, granted₅, ⟨rel₅, grows₅⟩, roomy⟩
      rw [callsEq] at granted₅
      refine ⟨rfl, granted, grantedIff.mpr granted₅, _, rest, taken, rfl, rfl, closed, ?_,
        ⟨rel₅, grows.trans grows₅⟩, roomy⟩
      by_cases same : space = parent.tVmspace
      · exact Or.inl ⟨enough.1.mp ⟨granted₅, same⟩, same⟩
      · refine Or.inr ⟨fun memory => same (enough.1.mpr memory).2, ?_⟩
        exact enough.2.resolve_left same
  · rename_i stack
    refine Or.inr ⟨granted, ?_, ?_, id, rest, taken, ?_, grows₂⟩
    · intro memory
      exact stack (memoryIff.mp memory).1
    · rintro ⟨first, _⟩
      rw [heapEq] at stack
      exact stack (by simpa [KHeap.after] using first)
    · rw [← create_discard forkable.placed (freshThread id ft) rest]
      exact rel₂.setThread A.nextThread none

end Os161
