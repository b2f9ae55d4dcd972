import Os161.Thread.State

/-!
# The priority scheduler

`kern/thread/scheduler.c`, compiled with `PRIORITY_SCHEDULER`: one run queue for
each priority. A thread is put on the queue of its `priority` field; the scheduler
takes the first thread of the highest queue that is not empty and lowers its
priority by one. The loop that waits in `cpu_idle` while all queues are empty is
not part of `scheduler` here: interrupt handlers run inside it, so that the thread
system takes it in steps (see `Os161.Thread.Ops`).
-/

namespace Os161

open ThreadM

/-- `q_create(32)` for each priority, or a panic. -/
def schedulerBootstrapLoop : List Nat → ThreadM Unit
  | [] => pure ()
  | i :: rest => do
      match ← onHeap (Queue.qCreate 32) with
      | none => halt .bootstrap
      | some q =>
          modify fun s => s.setRunqueue i q
          schedulerBootstrapLoop rest

def schedulerBootstrap : ThreadM Unit :=
  schedulerBootstrapLoop (List.range numPriorities)

/-- The loop of `scheduler_preallocate`, which stops at the first error. -/
def schedulerPreallocateLoop (nthreads : Nat) : List Nat → ThreadM Unit
  | [] => pure ()
  | i :: rest => do
      let s ← get
      let q ← onHeap ((s.runqueue i).qPreallocate nthreads)
      modify fun s => s.setRunqueue i q
      schedulerPreallocateLoop nthreads rest

def schedulerPreallocate (nthreads : Nat) : ThreadM Unit :=
  schedulerPreallocateLoop nthreads (List.range numPriorities)

/-- `do_idle`: all run queues are empty. -/
def doIdle (s : ThreadSystem) : Bool :=
  (List.range numPriorities).all fun i => (s.runqueue i).qEmpty

/-- `for(i = NUM_PRIORITIES - 1; i > 0; i--)`: the first non-empty queue from the top. -/
def firstNonEmpty (runqueue : Nat → Queue Nat) : Nat → Nat
  | 0 => 0
  | i + 1 => if (runqueue (i + 1)).qEmpty then firstNonEmpty runqueue i else i + 1

/-- `scheduler`, once a queue is not empty. -/
def scheduler : ThreadM Nat := do
  let s ← get
  let i := firstNonEmpty s.runqueue (numPriorities - 1)
  let (t, q) ← onHeap (s.runqueue i).qRemhead
  modify fun s => s.setRunqueue i q
  update t fun thread =>
    { thread with priority := if 0 < thread.priority then thread.priority - 1 else thread.priority }
  pure t

/-- `make_runnable`. -/
def makeRunnable (t : Nat) : ThreadM Unit := do
  let thread ← deref t
  assert .runqueueIndex (thread.priority < numPriorities)
  let s ← get
  let q ← onHeap ((s.runqueue thread.priority).qAddtail t)
  modify fun s => (s.setRunqueue thread.priority q).record (.runnable t)

end Os161
