import Os161.Kern.Queue
import Os161.Lib.Object

/-!
# The queue is a list

Any sequence of calls on a new queue, with memory refused at any of them, does to
`Queue.toList` what the calls of a first-in first-out list do. A call asks for memory
at most once, so the calls of `q_addtail` by which `q_grow` copies the elements never
grow the queue again.

The sizes are those for which `nsize * sizeof(void *)` is computed without overflow.
-/

namespace Os161

inductive QueueOp (α : Type) where
  | addtail (ptr : α)
  | remhead
  | preallocate (size : Int)
  | empty

/-- What a call returns when it does not return an error. -/
inductive QueueAnswer (α : Type) where
  | done
  | element (ptr : α)
  | flag (isEmpty : Bool)
deriving DecidableEq

/-- The queue as a list: what a call may answer, and the list after it. -/
inductive FifoStep {α : Type} : List α → QueueOp α → Except Errno (QueueAnswer α) → List α → Prop
  | addtail (list : List α) (ptr : α) : FifoStep list (.addtail ptr) (.ok .done) (list ++ [ptr])
  | addtailFails (list : List α) (ptr : α) :
      FifoStep list (.addtail ptr) (.error .enomem) list
  | remhead (ptr : α) (list : List α) : FifoStep (ptr :: list) .remhead (.ok (.element ptr)) list
  | preallocate (list : List α) (size : Int) :
      FifoStep list (.preallocate size) (.ok .done) list
  | preallocateFails (list : List α) (size : Int) :
      FifoStep list (.preallocate size) (.error .enomem) list
  | empty (list : List α) (isEmpty : Bool) (iff : isEmpty = true ↔ list = []) :
      FifoStep list .empty (.ok (.flag isEmpty)) list

namespace Queue

variable {α : Type} [Inhabited α]

/-- The sizes below which the kernel's arithmetic on them is exact. -/
def sizeLimit : Nat := 2 ^ 29

/-- A call of a function in `queue.c`. A size below zero is below every queue's size, as zero is. -/
def call : QueueOp α → Queue α → HeapM (QueueAnswer α × Queue α)
  | .addtail ptr, q => do
      let q ← q.qAddtail ptr
      pure (.done, q)
  | .remhead, q => do
      let (ptr, q) ← q.qRemhead
      pure (.element ptr, q)
  | .preallocate size, q => do
      let q ← q.qPreallocate size.toNat
      pure (.done, q)
  | .empty, q => pure (.flag q.qEmpty, q)

omit [Inhabited α] in
def Allowed : QueueOp α → Queue α → Prop
  | .remhead, q => q.size < sizeLimit ∧ q.toList.isEmpty = false
  | .preallocate size, q => q.size < sizeLimit ∧ size < sizeLimit
  | _, q => q.size < sizeLimit

instance (operation : QueueOp α) (q : Queue α) : Decidable (Allowed operation q) :=
  match operation with
  | .addtail _ => inferInstanceAs (Decidable (_ < _))
  | .remhead => inferInstanceAs (Decidable (_ ∧ _))
  | .preallocate _ => inferInstanceAs (Decidable (_ ∧ _))
  | .empty => inferInstanceAs (Decidable (_ < _))

def object (α : Type) [Inhabited α] : Object Panic (Queue α) KHeap Errno (QueueOp α)
    (QueueAnswer α) where
  call := call
  Allowed := Allowed

instance (operation : QueueOp α) (q : Queue α) : Decidable ((object α).Allowed operation q) :=
  inferInstanceAs (Decidable (Allowed operation q))

/-- What `q_create` has returned. -/
def Created (state : KHeap × Queue α) : Prop :=
  ∃ size heap, 1 ≤ size ∧ size < sizeLimit ∧
    qCreate size heap = .ok (.ok (some state.2), state.1)

variable {state : KHeap × Queue α}

theorem Created.eq (created : Created state) :
    ∃ size, 1 ≤ size ∧
      state.2 = { size, nextwrite := 0, nextread := 0, data := fun _ => default } := by
  rcases created with ⟨size, heap, positive, _, outcome⟩
  refine ⟨size, positive, ?_⟩
  have ensures : Ensures (qCreate size) heap (fun _ => False) (fun _ _ => False)
      (fun q _ => ∀ new, q = some new →
        new = { size, nextwrite := 0, nextread := 0, data := fun (_ : Nat) => (default : α) }) := by
    simp only [qCreate, ensures_bind, ensures_kmalloc, ensures_ite, ensures_pure]
    simp
  exact (ensures_of_ok_eq outcome).mp ensures _ rfl

theorem Created.toList_eq (created : Created state) : state.2.toList = [] := by
  obtain ⟨size, _, eq⟩ := created.eq
  simp [eq, toList, count]

/-- What a call does to a queue that is well formed. -/
structure Performs (q : Queue α) (heap : KHeap) (operation : QueueOp α)
    (answer : Except Errno (QueueAnswer α)) (after : KHeap × Queue α) : Prop where
  fifo : FifoStep q.toList operation answer after.2.toList
  indexes : after.2.nextread < after.2.size ∧ after.2.nextwrite < after.2.size
  failed : ∀ error, answer = .error error → after.2 = q
  memory : after.1 = heap ∨ after.1 = heap.after 1

/-- Every call that is allowed returns, and its answer is one the list gives. -/
theorem call_spec {q : Queue α} (wf : q.WellFormed) (heap : KHeap) {operation : QueueOp α}
    (allowed : Allowed operation q) :
    Ensures (call operation q) heap (fun _ => False)
      (fun error heap' => Performs q heap operation (.error error) (heap', q))
      (fun result heap' => Performs q heap operation (.ok result.1) (heap', result.2)) := by
  have indexes : q.nextread < q.size ∧ q.nextwrite < q.size := ⟨wf.nextread_lt, wf.nextwrite_lt⟩
  cases operation with
  | addtail ptr =>
      have small : q.size < 2 ^ 29 := allowed
      rcases qAddtail_eq wf (by omega) ptr heap with
        ⟨free, outcome⟩ | ⟨_, _, outcome⟩ | ⟨_, _, q', outcome, wf', listEq, _⟩
      · simp only [call, ensures_bind, ensures_of_ok_eq outcome, ensures_pure]
        have pushed := push_wellFormed wf ptr
        refine ⟨?_, ⟨pushed.nextread_lt, pushed.nextwrite_lt⟩, by simp, Or.inl rfl⟩
        rw [push_toList wf free ptr]
        exact .addtail _ _
      · simp only [call, ensures_bind, ensures_of_fail_eq outcome]
        exact ⟨.addtailFails _ _, indexes, fun _ _ => rfl, Or.inr rfl⟩
      · simp only [call, ensures_bind, ensures_of_ok_eq outcome, ensures_pure]
        refine ⟨?_, ⟨wf'.nextread_lt, wf'.nextwrite_lt⟩, by simp, Or.inr rfl⟩
        rw [listEq]
        exact .addtail _ _
  | remhead =>
      have nonempty : q.toList ≠ [] := List.isEmpty_eq_false_iff.mp allowed.2
      obtain ⟨listEq, outcome⟩ := qRemhead_eq wf nonempty heap
      simp only [call, ensures_bind, ensures_of_ok_eq outcome, ensures_pure]
      have popped := pop_wellFormed wf
      refine ⟨?_, ⟨popped.nextread_lt, popped.nextwrite_lt⟩, by simp, Or.inl rfl⟩
      rw [listEq]
      exact .remhead _ _
  | preallocate size =>
      have small : size.toNat ≤ 2 ^ 30 := by
        have sizeLt := allowed.2
        simp only [sizeLimit] at sizeLt
        omega
      rcases qPreallocate_eq wf small heap with
        ⟨_, outcome⟩ | ⟨_, _, outcome⟩ | ⟨_, _, q', outcome, wf', listEq, _⟩
      · simp only [call, ensures_bind, ensures_of_ok_eq outcome, ensures_pure]
        exact ⟨.preallocate _ _, indexes, by simp, Or.inl rfl⟩
      · simp only [call, ensures_bind, ensures_of_fail_eq outcome]
        exact ⟨.preallocateFails _ _, indexes, fun _ _ => rfl, Or.inr rfl⟩
      · simp only [call, ensures_bind, ensures_of_ok_eq outcome, ensures_pure]
        refine ⟨?_, ⟨wf'.nextread_lt, wf'.nextwrite_lt⟩, by simp, Or.inr rfl⟩
        rw [listEq]
        exact .preallocate _ _
  | empty =>
      simp only [call, ensures_pure]
      exact ⟨.empty _ _ (qEmpty_iff wf), indexes, by simp, Or.inl rfl⟩

theorem wellFormed_of_reachable (reachable : (object α).machine.Reachable Created state) :
    state.2.WellFormed := by
  apply Object.reachable_invariant _ _ reachable
  · intro state created
    obtain ⟨size, positive, eq⟩ := created.eq
    rw [eq]
    exact ⟨positive, positive⟩
  · intro operation q heap allowed wf
    exact (call_spec wf heap allowed).mono (fun _ _ => trivial) (fun _ _ _ => trivial)
      (fun _ _ performs => ⟨performs.indexes.1, performs.indexes.2⟩)

/-- **The ring queue is a first-in first-out list.** After any run of calls on a new queue, the
list being empty at first, the next call returns and does what it does to a list. -/
theorem queue_refines_list :
    (∀ state : KHeap × Queue α, Created state → state.2.toList = []) ∧
    ∀ state : KHeap × Queue α, (object α).machine.Reachable Created state →
      (state.2.nextread < state.2.size ∧ state.2.nextwrite < state.2.size) ∧
      ∀ (operation : QueueOp α) (heap : KHeap), Allowed operation state.2 →
        Prog.Ensures ((object α).invoke operation) (heap, state.2) (fun _ => False)
          (fun error after => Performs state.2 heap operation (.error error) after)
          (fun answer after => Performs state.2 heap operation (.ok answer) after) := by
  refine ⟨fun state created => created.toList_eq, ?_⟩
  intro state reachable
  have wf := wellFormed_of_reachable reachable
  refine ⟨⟨wf.nextread_lt, wf.nextwrite_lt⟩, ?_⟩
  intro operation heap allowed
  simp only [Object.ensures_invoke]
  exact call_spec wf heap allowed

theorem queue_refines_list_grown :
    ∃ state : KHeap × Queue Nat, (object Nat).machine.Reachable Created state ∧
      state.2.toList = [8, 9] ∧
      Prog.Ensures ((object Nat).invoke .remhead) (enoughMemory, state.2) (fun _ => False)
        (fun error after => Performs state.2 enoughMemory .remhead (.error error) after)
        (fun answer after => Performs state.2 enoughMemory .remhead (.ok answer) after) := by
  let new : KHeap × Queue Nat :=
    (enoughMemory, { size := 1, nextwrite := 0, nextread := 0, data := fun _ => default })
  let calls : List (QueueOp Nat × KHeap) :=
    [(.addtail 7, enoughMemory), (.addtail 8, noMemory), (.addtail 8, enoughMemory),
      (.remhead, enoughMemory), (.preallocate 5, enoughMemory), (.addtail 9, enoughMemory)]
  have created : Created new := ⟨1, enoughMemory, by decide, by decide, rfl⟩
  have computed : (((object Nat).machine.execute new calls).any fun state =>
      decide (state.2.toList = [8, 9] ∧ Allowed .remhead state.2)) = true := by
    decide +kernel
  obtain ⟨state, executed, holds⟩ := (any_eq_true _ _).mp computed
  obtain ⟨listEq, allowed⟩ := of_decide_eq_true holds
  have reachable := (Machine.Reachable.start created).execute executed
  exact ⟨state, reachable, listEq,
    (queue_refines_list.2 state reachable).2 .remhead enoughMemory allowed⟩

end Queue

end Os161
