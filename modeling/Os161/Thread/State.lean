import Os161.Kern.Array
import Os161.Kern.Queue
import Mathlib.Logic.Function.Basic

/-!
# The state of the thread system

The globals of `thread.c` and `scheduler.c`, and the thread structures of
`thread.h`, under natural numbers that stand for their addresses. An address is
never given out twice, so that a thread keeps its identity after it is gone.

Three things of the machine are made explicit. `Pcb` says where `md_switch`
resumes a thread: a new one starts in `mi_threadstart`, any other one returns
into the call of `mi_switch` it is in. `idling` holds the thread in whose call of
`mi_switch` the scheduler waits in `cpu_idle` for something to run; `curthread`
is `NULL` then. An `AddrSpace` is what the process sees of its memory: the byte at
each mapped address. `log` is a ghost: the history of what happened to each
thread, latest first, which no code reads.
-/

namespace Os161

def maxThreads : Nat := 100

def numPriorities : Nat := 4

def priorityNormal : Nat := 1

/-- `threadstate_t`. -/
inductive ThreadState where
  | run
  | ready
  | sleep
  | zomb
  deriving DecidableEq, Repr

/-- Where `md_switch` resumes a thread. -/
inductive Pcb where
  | threadstart
  | switched (nextstate : ThreadState)
  deriving DecidableEq, Repr

/-- The bytes a process can read at its mapped addresses. -/
abbrev AddrSpace := Nat → Option UInt8

/-- `filetable`; a handle is `NULL` or the address of a descriptor. -/
structure FileTable where
  handles : KArray (Option Nat)
  next : Nat

/-- `struct thread`. -/
structure Thread where
  tSleepaddr : Option Nat
  tVmspace : Option AddrSpace
  tCwd : Option Nat
  ft : Option FileTable
  priority : Nat
  id : Nat
  tPcb : Pcb

/-- What can happen to a thread; `idLost` is a process id that `thread_destroy` could not give
back. -/
inductive Event where
  | fork (t : Nat)
  | runnable (t : Nat)
  | dispatch (t : Nat)
  | exit (t : Nat)
  | destroy (t : Nat)
  | idLost (id : Nat)
  deriving DecidableEq, Repr

/-- The globals of `thread.c` and `scheduler.c`, the thread structures, and the reference
counts of the vnodes that are current directories. -/
structure ThreadSystem where
  curthread : Option Nat
  idling : Option Nat
  sleepers : KArray Nat
  zombies : KArray Nat
  processIds : Queue Nat
  numthreads : Nat
  runqueue : Nat → Queue Nat
  threads : Nat → Option Thread
  nextThread : Nat
  vnRefcount : Nat → Nat
  heap : KHeap
  log : List Event

abbrev ThreadM := Prog Panic ThreadSystem Errno

namespace ThreadSystem

def setThread (s : ThreadSystem) (t : Nat) (thread : Option Thread) : ThreadSystem :=
  { s with threads := Function.update s.threads t thread }

def setRunqueue (s : ThreadSystem) (i : Nat) (q : Queue Nat) : ThreadSystem :=
  { s with runqueue := Function.update s.runqueue i q }

def setRefcount (s : ThreadSystem) (vn count : Nat) : ThreadSystem :=
  { s with vnRefcount := Function.update s.vnRefcount vn count }

def record (s : ThreadSystem) (event : Event) : ThreadSystem :=
  { s with log := event :: s.log }

end ThreadSystem

namespace ThreadM

/-- Run code that uses nothing of the thread system but the kernel heap. -/
def onHeap {α : Type} (program : HeapM α) : ThreadM α :=
  zoom ThreadSystem.heap (fun heap s => { s with heap }) program

def deref (t : Nat) : ThreadM Thread :=
  fun s =>
    match s.threads t with
    | some thread => .ok (.ok thread, s)
    | none => .error .threadPointer

def update (t : Nat) (change : Thread → Thread) : ThreadM Unit := do
  let thread ← deref t
  modify fun s => s.setThread t (some (change thread))

/-- The current thread; code that runs in a thread's context may rely on it. -/
def current : ThreadM Nat :=
  fun s =>
    match s.curthread with
    | some t => .ok (.ok t, s)
    | none => .error .threadPointer

section Rules

variable {s : ThreadSystem} {panics : Panic → Prop} {fails : Errno → ThreadSystem → Prop}

@[simp]
theorem ensures_onHeap {α : Type} {program : HeapM α} {returns : α → ThreadSystem → Prop} :
    Ensures (onHeap program) s panics fails returns ↔
      Ensures program s.heap panics (fun failure heap => fails failure { s with heap })
        (fun value heap => returns value { s with heap }) :=
  ensures_zoom

theorem ensures_deref {t : Nat} {thread : Thread} {returns : Thread → ThreadSystem → Prop}
    (present : s.threads t = some thread) :
    Ensures (deref t) s panics fails returns ↔ returns thread s := by
  simp [Ensures, deref, present]

theorem ensures_update {t : Nat} {thread : Thread} {change : Thread → Thread}
    {returns : Unit → ThreadSystem → Prop} (present : s.threads t = some thread) :
    Ensures (update t change) s panics fails returns ↔
      returns () (s.setThread t (some (change thread))) := by
  simp [update, ensures_deref present]

theorem ensures_current {t : Nat} {returns : Nat → ThreadSystem → Prop}
    (running : s.curthread = some t) : Ensures current s panics fails returns ↔ returns t s := by
  simp [Ensures, current, running]

end Rules

end ThreadM

end Os161
