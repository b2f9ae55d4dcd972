import Os161.Lib.Machine
import Os161.Thread.Scheduler

/-!
# Threads

The functions of `kern/thread/thread.c`, with what they use of `filetable.c`,
`vnode.c` and `dumbvm.c`, and the steps of the thread system.

`mi_switch` puts the current thread on its list and calls the scheduler. When no
thread is ready it waits in `cpu_idle`, where interrupt handlers run; `miSwitch`
ends there with `idling` set, and the step `Op.resume` is the end of the waiting.
`switchTo` is the rest of `mi_switch`: the scheduler's choice becomes `curthread`
and goes on where its `Pcb` says. A thread that has been switched to before runs
`exorcise` there; a new one does not.

An `Op` is one section with interrupts off, taken as a whole, but for `Op.fork`:
`thread_fork` turns them off only for `threadForkPublish`, and the whole of it is
one step. What it does before that is to a thread that nothing else refers to yet.
What it needs of the rest, the fields of the current thread, a process id and
memory, is there as well if it all happens at the moment of publishing, so no state
between two steps is lost. (`q_remhead` takes the id without a lock; a switch in
the middle of it is not considered.)

`thread_wakeup` and `thread_yield` also come from interrupt handlers, so that they
are possible while the scheduler waits; the other operations are called by the
current thread. Every step may find any answers of `kmalloc`.
-/

namespace Os161

open ThreadM

/-! ## File tables, vnodes and address spaces -/

/-- `filetable_create`. -/
def filetableCreate : HeapM (Option FileTable) := do
  if ← kmalloc then
    match ← KArray.arrayCreate with
    | some handles => pure (some { handles, next := 0 })
    | none => pure none
  else
    pure none

/-- The loop of `filetable_destroy`: `filetable_remove` ends an open descriptor with
`filetable_set(ft, i, NULL)`, which asserts that the value is not `NULL`. -/
def filetableRemoveAll : List (Option Nat) → HeapM Unit
  | [] => pure ()
  | some _ :: _ => halt .filetableVal
  | none :: rest => filetableRemoveAll rest

/-- `filetable_destroy`. -/
def filetableDestroy : Option FileTable → HeapM Unit
  | none => halt .filetableNull
  | some ft => filetableRemoveAll ft.handles.toList

/-- `vnode_incref`. -/
def vnodeIncref (vn : Nat) : ThreadM Unit :=
  modify fun s => s.setRefcount vn (s.vnRefcount vn + 1)

/-- `vnode_decref`; at the last reference the vnode is reclaimed. -/
def vnodeDecref (vn : Nat) : ThreadM Unit := do
  let s ← get
  assert .vnodeRefcount (0 < s.vnRefcount vn)
  modify fun s => s.setRefcount vn (s.vnRefcount vn - 1)

/-- `as_prepare_load`: pages for the two regions and for the stack. -/
def asPrepareLoad : HeapM Unit := do
  allocate
  allocate
  allocate

/-- `as_copy`: the new structure and its pages, into which the old contents are copied. -/
def asCopy (old : AddrSpace) : HeapM AddrSpace := do
  allocate
  asPrepareLoad
  pure old

/-! ## Creating and destroying threads -/

/-- `thread_create`; `NULL` when there is no memory for the structure or its name. -/
def threadCreate : ThreadM (Option Nat) := do
  if ← onHeap kmalloc then
    if ← onHeap kmalloc then
      let s ← get
      let (id, ids) ← onHeap s.processIds.qRemhead
      modify fun s => { s with processIds := ids }
      let ft ← onHeap filetableCreate
      let s ← get
      modify fun s =>
        { s.setThread s.nextThread (some
            { tSleepaddr := none, tVmspace := none, tCwd := none, ft,
              priority := priorityNormal, id, tPcb := .threadstart }) with
          nextThread := s.nextThread + 1 }
      pure (some s.nextThread)
    else
      pure none
  else
    pure none

/-- `thread_destroy`; the result of `q_addtail` is ignored. -/
def threadDestroy (t : Nat) : ThreadM Unit := do
  let s ← get
  assert .destroyCurrent (s.curthread ≠ some t)
  let thread ← deref t
  match ← attempt (onHeap (s.processIds.qAddtail thread.id)) with
  | .ok ids => modify fun s => { s with processIds := ids }
  | .error _ => modify fun s => s.record (.idLost thread.id)
  onHeap (filetableDestroy thread.ft)
  assert .destroyVmspace (thread.tVmspace.isNone)
  assert .destroyCwd (thread.tCwd.isNone)
  modify fun s => (s.setThread t none).record (.destroy t)

def exorciseLoop : List Nat → ThreadM Unit
  | [] => pure ()
  | z :: rest => do
      threadDestroy z
      exorciseLoop rest

/-- `exorcise`. -/
def exorcise : ThreadM Unit := do
  let s ← get
  exorciseLoop s.zombies.toList
  match ← attempt (onHeap (s.zombies.arraySetsize 0)) with
  | .error _ => halt .exorciseResult
  | .ok zombies => modify fun s => { s with zombies }

/-- The part of `thread_fork` with interrupts off. -/
def threadForkPublish (newguy : Nat) : ThreadM Unit := do
  let s ← get
  let sleepers ← onHeap (s.sleepers.arrayPreallocate (s.numthreads + 1))
  modify fun s => { s with sleepers }
  let zombies ← onHeap (s.zombies.arrayPreallocate (s.numthreads + 1))
  modify fun s => { s with zombies }
  schedulerPreallocate (s.numthreads + 1)
  makeRunnable newguy
  modify fun s => { s with numthreads := s.numthreads + 1 }

/-- `thread_fork` copies the address space of the current thread; the error is ignored. -/
def threadForkSpace (parent : Thread) (newguy : Nat) : ThreadM Unit :=
  match parent.tVmspace with
  | none => pure ()
  | some space => do
      match ← attempt (onHeap (asCopy space)) with
      | .ok copy => update newguy fun thread => { thread with tVmspace := some copy }
      | .error _ => pure ()

/-- `thread_fork` inherits the current directory. -/
def threadForkCwd (parent : Thread) (newguy : Nat) : ThreadM Unit :=
  match parent.tCwd with
  | none => pure ()
  | some vn => do
      vnodeIncref vn
      update newguy fun thread => { thread with tCwd := some vn }

/-- `thread_fork` from `splhigh` on, with its exit `fail`. -/
def threadForkFinish (newguy : Nat) : ThreadM Nat := do
  match ← attempt (threadForkPublish newguy) with
  | .ok () =>
      modify fun s => s.record (.fork newguy)
      pure newguy
  | .error result =>
      let thread ← deref newguy
      match thread.tCwd with
      | none => pure ()
      | some vn => vnodeDecref vn
      modify fun s => s.setThread newguy none
      fail result

/-- `thread_fork`. -/
def threadFork : ThreadM Nat := do
  match ← threadCreate with
  | none => fail .enomem
  | some newguy =>
      if ← onHeap kmalloc then
        let cur ← current
        let parent ← deref cur
        threadForkSpace parent newguy
        threadForkCwd parent newguy
        threadForkFinish newguy
      else
        modify fun s => s.setThread newguy none
        fail .enomem

/-! ## Switching -/

/-- What the thread switched to does before it is in its own code again. -/
def afterSwitch (t : Nat) : ThreadM Unit := do
  let thread ← deref t
  match thread.tPcb with
  | .threadstart => pure ()
  | .switched .zomb =>
      exorcise
      halt .cameBackFromTheDead
  | .switched .sleep =>
      exorcise
      update t fun thread => { thread with tSleepaddr := none }
  | .switched _ => exorcise

/-- The end of `mi_switch`, called by `cur`, once a thread is ready. -/
def switchTo (cur : Nat) : ThreadM Unit := do
  let next ← scheduler
  modify fun s => { s with curthread := some next, idling := none }.record (.dispatch next)
  let _ ← deref cur
  afterSwitch next

/-- `mi_switch` puts the thread on the list of its next state. -/
def stash (cur : Nat) : ThreadState → ThreadM Unit
  | .ready => makeRunnable cur
  | .sleep => do
      let s ← get
      let sleepers ← onHeap (s.sleepers.arrayAdd cur)
      modify fun s => { s with sleepers }
  | .zomb => do
      let s ← get
      let zombies ← onHeap (s.zombies.arrayAdd cur)
      modify fun s => { s with zombies }
  | .run => halt .miSwitchState

/-- `mi_switch`. -/
def miSwitch (nextstate : ThreadState) : ThreadM Unit := do
  let s ← get
  match s.curthread with
  | none => pure ()
  | some cur =>
      modify fun s => { s with curthread := none }
      update cur fun thread => { thread with tPcb := .switched nextstate }
      match ← attempt (stash cur nextstate) with
      | .error _ => halt .miSwitchResult
      | .ok () =>
          let s ← get
          if doIdle s then
            modify fun s => { s with idling := some cur }
          else
            switchTo cur

/-- `thread_exit` gives the current directory up. -/
def exitCwd (cur : Nat) : ThreadM Unit := do
  let thread ← deref cur
  match thread.tCwd with
  | none => pure ()
  | some vn =>
      vnodeDecref vn
      update cur fun thread => { thread with tCwd := none }

/-- `thread_exit`. -/
def threadExit : ThreadM Unit := do
  let cur ← current
  update cur fun thread => { thread with tVmspace := none }
  exitCwd cur
  let s ← get
  assert .numthreads (0 < s.numthreads)
  modify fun s => { s with numthreads := s.numthreads - 1 }.record (.exit cur)
  miSwitch .zomb

/-- `thread_yield`. -/
def threadYield : ThreadM Unit :=
  miSwitch .ready

/-- `thread_sleep`. -/
def threadSleep (addr : Nat) : ThreadM Unit := do
  let cur ← current
  update cur fun thread => { thread with tSleepaddr := some addr }
  miSwitch .sleep

/-- `for (i=0; i<array_getnum(sleepers); i++)` in `thread_wakeup`. -/
def wakeupLoop (addr : Nat) : (fuel i : Nat) → ThreadM Unit
  | 0, _ => pure ()
  | fuel + 1, i => do
      let s ← get
      if i < s.sleepers.num then
        let t ← onHeap (s.sleepers.arrayGetguy i)
        let thread ← deref t
        if thread.tSleepaddr = some addr then
          let sleepers ← onHeap (s.sleepers.arrayRemove i)
          modify fun s => { s with sleepers }
          match ← attempt (makeRunnable t) with
          | .error _ => halt .wakeupResult
          | .ok () => wakeupLoop addr fuel i
        else
          wakeupLoop addr fuel (i + 1)
      else
        pure ()

/-- `thread_wakeup`; each turn of the loop removes a sleeper or steps over one. -/
def threadWakeup (addr : Nat) : ThreadM Unit := do
  let s ← get
  wakeupLoop addr s.sleepers.num 0

/-- `for (i=0; i<array_getnum(sleepers); i++)` in `thread_hassleepers`. -/
def hassleepersLoop (addr : Nat) : (fuel i : Nat) → ThreadM Nat
  | 0, _ => pure 0
  | fuel + 1, i => do
      let s ← get
      if i < s.sleepers.num then
        let t ← onHeap (s.sleepers.arrayGetguy i)
        let thread ← deref t
        if thread.tSleepaddr = some addr then
          pure 1
        else
          hassleepersLoop addr fuel (i + 1)
      else
        pure 0

/-- `thread_hassleepers`. -/
def threadHassleepers (addr : Nat) : ThreadM Nat := do
  let s ← get
  hassleepersLoop addr s.sleepers.num 0

/-! ## Starting up -/

/-- The loop of `thread_bootstrap` that makes the process ids. -/
def makeIds : (left i : Nat) → Queue Nat → HeapM (Queue Nat)
  | 0, _, ids => pure ids
  | left + 1, i, ids => do
      if ← kmalloc then
        match ← attempt (ids.qAddtail i) with
        | .ok ids => makeIds left (i + 1) ids
        | .error _ => halt .bootstrap
      else
        halt .bootstrap

/-- `thread_bootstrap`. -/
def threadBootstrap : ThreadM Unit := do
  match ← onHeap KArray.arrayCreate with
  | none => halt .bootstrap
  | some sleepers =>
    match ← onHeap KArray.arrayCreate with
    | none => halt .bootstrap
    | some zombies =>
      match ← onHeap (Queue.qCreate maxThreads) with
      | none => halt .bootstrap
      | some ids =>
          let ids ← onHeap (makeIds maxThreads 0 ids)
          modify fun s => { s with sleepers, zombies, processIds := ids }
          match ← threadCreate with
          | none => halt .bootstrap
          | some me =>
              modify fun s => { s with curthread := some me, numthreads := 1 }

/-- The globals before `boot` runs; the reference counts are any. -/
def unbooted (vnRefcount : Nat → Nat) (heap : KHeap) : ThreadSystem :=
  { curthread := none, idling := none, sleepers := KArray.empty, zombies := KArray.empty,
    processIds := { size := 0, nextwrite := 0, nextread := 0, data := fun _ => 0 },
    numthreads := 0,
    runqueue := fun _ => { size := 0, nextwrite := 0, nextread := 0, data := fun _ => 0 },
    threads := fun _ => none, nextThread := 0, vnRefcount, heap, log := [] }

/-- The state in which `boot` leaves the thread system. -/
def Booted (s : ThreadSystem) : Prop :=
  ∃ vnRefcount heap,
    (do schedulerBootstrap; threadBootstrap : ThreadM Unit) (unbooted vnRefcount heap) =
      .ok (.ok (), s)

/-! ## Steps -/

/-- The sections with interrupts off; the last two are `vfs_setcurdir` and the assignment of
an address space by `runprogram`. -/
inductive Op where
  | fork
  | yield
  | sleep (addr : Nat)
  | wakeup (addr : Nat)
  | exit
  | resume
  | setcurdir (vn : Nat)
  | setVmspace (space : AddrSpace)

def Op.exec : Op → ThreadM Unit
  | .fork => do
      let _ ← threadFork
      pure ()
  | .yield => threadYield
  | .sleep addr => threadSleep addr
  | .wakeup addr => threadWakeup addr
  | .exit => threadExit
  | .resume => do
      let s ← get
      match s.idling with
      | none => pure ()
      | some cur => switchTo cur
  | .setcurdir vn => do
      let cur ← current
      vnodeIncref vn
      let thread ← deref cur
      update cur fun thread => { thread with tCwd := some vn }
      match thread.tCwd with
      | none => pure ()
      | some old => vnodeDecref old
  | .setVmspace space => do
      let cur ← current
      update cur fun thread => { thread with tVmspace := some space }

/-- When an operation can happen: the current thread calls it, or, for `yield` and `wakeup`,
an interrupt handler; the waiting of the scheduler ends when a thread is ready. -/
def Op.Enabled (s : ThreadSystem) : Op → Prop
  | .yield | .wakeup _ => True
  | .resume => s.idling.isSome ∧ doIdle s = false
  | _ => s.curthread.isSome

/-- The thread system: before each operation it is open how `kmalloc` will answer. -/
def threadMachine : Machine Panic ThreadSystem Errno Op KHeap where
  exec := Op.exec
  Enabled := fun op s => op.Enabled s
  arm := fun s heap => { s with heap }

abbrev Reachable (s : ThreadSystem) : Prop :=
  threadMachine.Reachable Booted s

end Os161
