import Os161.Lib.Mlfq
import Os161.Lib.Ownership
import Os161.Thread.State
import Mathlib.Tactic.Simps.Basic

/-!
# The thread system as a machine on lists

What the thread system is for, without its storage: the current thread, a
multilevel feedback queue of ready threads, the lists of sleepers and zombies and
the list of free process ids. The functions below are the whole effects of the
sections with interrupts off, and `Valid` is what holds between two of them:

* `Placed`: every thread is in one place, once;
* `IdsValid`: the process ids are held by one thread each, or free;
* `ThreadOk`: what the place of a thread says about its structure;
* `History`: what the log may say;
* `RefsOk`: the references to current directories are counted.
-/

namespace Os161

/-- The thread system on lists. -/
structure Sched where
  current : Option Nat
  idling : Option Nat
  queue : Mlfq.State Nat
  sleepers : List Nat
  zombies : List Nat
  ids : List Nat
  num : Nat
  threads : Nat → Option Thread
  nextThread : Nat
  refs : Nat → Nat
  log : List Event

/-- What an event is to the run queues. -/
def Event.label : Event → Option (Mlfq.Label Nat)
  | .runnable t => some (.push t)
  | .dispatch t => some (.pick t)
  | _ => none

/-- What a log says about the run queues. -/
def Event.labels (log : List Event) : List (Mlfq.Label Nat) :=
  log.filterMap Event.label

/-- The reference counts after a reference to the directory was taken. -/
def inheritRefs (refs : Nat → Nat) : Option Nat → Nat → Nat
  | none => refs
  | some vn => Function.update refs vn (refs vn + 1)

/-- The reference counts after a reference to the directory was given up. -/
def dropRefs (refs : Nat → Nat) : Option Nat → Nat → Nat
  | none => refs
  | some vn => Function.update refs vn (refs vn - 1)

namespace Sched

/-! ## Transitions -/

/-- One thread structure is replaced. -/
@[simps]
def setThread (A : Sched) (t : Nat) (thread : Option Thread) : Sched :=
  { A with threads := Function.update A.threads t thread }

/-- `make_runnable`. -/
@[simps]
def enqueue (A : Sched) (t : Nat) : Sched :=
  { A with queue := A.queue.push t, log := .runnable t :: A.log }

/-- A successful fork: the new thread is ready. -/
def enroll (A : Sched) (thread : Thread) (ids : List Nat) : Sched :=
  { A with
    queue := A.queue.push A.nextThread
    ids
    num := A.num + 1
    threads := Function.update A.threads A.nextThread (some thread)
    nextThread := A.nextThread + 1
    refs := inheritRefs A.refs thread.tCwd
    log := .fork A.nextThread :: .runnable A.nextThread :: A.log }

/-- A fork that failed after it had made a thread structure. -/
def refuse (A : Sched) (ids : List Nat) : Sched :=
  { A with ids, nextThread := A.nextThread + 1 }

/-- The current thread goes to the list of its next state. -/
def park (A : Sched) (cur : Nat) (thread : Thread) : ThreadState → Sched
  | .ready =>
      ({ A with current := none }.setThread cur
        (some { thread with tPcb := .switched .ready })).enqueue cur
  | .sleep =>
      { A.setThread cur (some { thread with tPcb := .switched .sleep }) with
        current := none
        sleepers := A.sleepers ++ [cur] }
  | .zomb =>
      { A.setThread cur (some { thread with tPcb := .switched .zomb }) with
        current := none
        zombies := A.zombies ++ [cur] }
  | .run => { A with current := none }

/-- What `thread_exit` does before it switches. -/
def retire (A : Sched) (cur : Nat) (thread : Thread) : Sched :=
  { A.setThread cur (some { thread with tVmspace := none, tCwd := none }) with
    num := A.num - 1
    refs := dropRefs A.refs thread.tCwd
    log := .exit cur :: A.log }

/-- What `vfs_setcurdir` does. -/
def chdir (A : Sched) (cur : Nat) (thread : Thread) (vn : Nat) : Sched :=
  { A.setThread cur (some { thread with tCwd := some vn }) with
    refs := dropRefs (inheritRefs A.refs (some vn)) thread.tCwd }

/-- The thread that `scheduler` takes goes down one level. -/
def lowerPriority (thread : Thread) : Thread :=
  { thread with priority := if 0 < thread.priority then thread.priority - 1 else thread.priority }

/-- `scheduler` takes `t` from its run queue. -/
def choose (A : Sched) (t : Nat) (thread : Thread) : Sched :=
  { A with
    queue := A.queue.pick t
    threads := Function.update A.threads t (some (lowerPriority thread)) }

/-- `mi_switch` makes the thread that was chosen the current one. -/
def dispatch (A : Sched) (t : Nat) (thread : Thread) : Sched :=
  { A.choose t thread with current := some t, idling := none, log := .dispatch t :: A.log }

/-- `thread_destroy`. -/
def destroy (A : Sched) (z : Nat) : Sched :=
  { A with
    ids := A.ids ++ ((A.threads z).map Thread.id).toList
    threads := Function.update A.threads z none
    log := .destroy z :: A.log }

/-- `exorcise`. -/
def bury (A : Sched) : Sched :=
  { A.zombies.foldl destroy A with zombies := [] }

/-- What a thread does first when it is switched to. -/
def resume (A : Sched) (t : Nat) (thread : Thread) : Sched :=
  match thread.tPcb with
  | .threadstart => A
  | .switched .sleep => A.bury.setThread t (some { thread with tSleepaddr := none })
  | .switched _ => A.bury

/-- The scheduler waits in the call of `cur`, or runs the thread that the queue picks. -/
def Rescheduled (A : Sched) (cur : Nat) (B : Sched) : Prop :=
  (A.queue.ready = [] ∧ B = { A with idling := some cur }) ∨
    ∃ t thread, A.queue.Picks t ∧ A.threads t = some thread ∧
      B = (A.dispatch t thread).resume t (lowerPriority thread)

/-- `t->t_sleepaddr == addr`. -/
def sleepsOn (A : Sched) (addr t : Nat) : Bool :=
  (A.threads t).any fun thread => thread.tSleepaddr = some addr

/-- The loop of `thread_wakeup` with the sleepers behind it and before it. -/
def wakeFrom (addr : Nat) : (kept rest : List Nat) → Sched → Sched
  | _, [], A => A
  | kept, t :: rest, A =>
      if A.sleepsOn addr t then
        wakeFrom addr kept rest ({ A with sleepers := kept ++ rest }.enqueue t)
      else
        wakeFrom addr (kept ++ [t]) rest A

/-- `thread_wakeup`. -/
def wake (A : Sched) (addr : Nat) : Sched :=
  wakeFrom addr [] A.sleepers A

/-! ## Invariants -/

/-- Where a thread can be. -/
inductive Place where
  | current
  | ready
  | sleeping
  | zombie
  deriving DecidableEq

/-- The threads that are in a place. -/
def members (A : Sched) : Place → List Nat
  | .current => A.current.toList
  | .ready => A.queue.ready
  | .sleeping => A.sleepers
  | .zombie => A.zombies

/-- Every existing thread is in one place, once. -/
structure Placed (A : Sched) : Prop where
  once : ∀ t, A.current.toList.count t + A.queue.ready.count t + A.sleepers.count t +
    A.zombies.count t = (A.threads t).isSome.toNat
  num_eq : A.num = A.current.toList.length + A.queue.ready.length + A.sleepers.length
  fresh : ∀ t, A.nextThread ≤ t → A.threads t = none
  idler : ∀ t, A.idling = some t → A.current = none ∧ (A.threads t).isSome

/-- The process id of a thread. -/
def idOf (A : Sched) (t : Nat) : Option Nat :=
  (A.threads t).map Thread.id

/-- The process ids are held by one thread each, or free. -/
structure IdsValid (A : Sched) : Prop where
  exclusive : Ownership.Exclusive A.idOf
  unheld : ∀ id ∈ A.ids, Ownership.Unheld A.idOf id
  nodup : A.ids.Nodup
  held_lt : ∀ t id, A.idOf t = some id → id < maxThreads
  free_lt : ∀ id ∈ A.ids, id < maxThreads

/-- A file table in which nothing is open, or none. -/
def FilesClosed (ft : Option FileTable) : Prop :=
  ∀ table ∈ ft, ∀ handle ∈ table.handles.toList, handle = none

/-- What the place of a thread says about its structure. -/
structure ThreadOk (A : Sched) (t : Nat) (thread : Thread) : Prop where
  priority : A.queue.prio t = thread.priority
  files : FilesClosed thread.ft
  ended : t ∈ A.zombies → thread.tVmspace = none ∧ thread.tCwd = none
  alive : t ∉ A.zombies → thread.tPcb ≠ .switched .zomb ∧ Event.exit t ∉ A.log

/-- `ThreadOk` for every thread structure. -/
def ThreadsOk (A : Sched) : Prop :=
  ∀ t thread, A.threads t = some thread → A.ThreadOk t thread

/-- What the log may say. -/
structure History (A : Sched) : Prop where
  run : Mlfq.Run (fun _ => priorityNormal) (Event.labels A.log) A.queue
  normal : ∀ t, A.nextThread ≤ t → A.queue.prio t = priorityNormal
  exited_lt : ∀ t, Event.exit t ∈ A.log → t < A.nextThread
  destroyed : ∀ t, Event.destroy t ∈ A.log → A.threads t = none ∧ t < A.nextThread
  destroyed_once : ∀ t, A.log.count (Event.destroy t) ≤ 1
  final : A.log.Pairwise fun newer older => ∀ t, newer = .dispatch t → older ≠ .exit t
  kept : ∀ id, Event.idLost id ∉ A.log

/-- The directory to which a thread has a reference. -/
def cwdOf (A : Sched) (t : Nat) : Option Nat :=
  (A.threads t).bind Thread.tCwd

/-- Every reference of a thread to a directory is counted. -/
def RefsOk (A : Sched) : Prop :=
  ∀ vn, Ownership.count A.cwdOf A.nextThread vn ≤ A.refs vn

/-- The invariant of the thread system. -/
structure Valid (A : Sched) : Prop where
  placed : A.Placed
  ids : A.IdsValid
  threads : A.ThreadsOk
  history : A.History
  refs : A.RefsOk

end Sched

end Os161
