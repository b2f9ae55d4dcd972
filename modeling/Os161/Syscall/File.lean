import Os161.Syscall.Filetable
import Os161.Syscall.Vfs

/-!
# System calls on files

`file.c` and `filetable_remove`, on the state of the whole kernel: the thread system,
the descriptors that are on the kernel heap, the file systems and devices, and the
memory that the kernel can use directly. An address below `USERTOP` is one of the
current process, and is mapped or not.

What a system call function hands back is an `int`, and often another one through a
pointer. `Return` has both, and as a ghost what the call did: the value of a call
that succeeded.

Two local variables of the source are not initialised. Their values are those that
the stack happens to hold, and they are part of the state.
-/

namespace Os161

/-- The number of an error code in `kern/errno.h`. -/
def Errno.code (failure : Errno) : Int :=
  failure.ctorIdx + 1

/-- The saved registers of `struct trapframe`. -/
inductive Reg where
  | vaddr | status | cause | lo | hi | ra | at | v0 | v1 | a0 | a1 | a2 | a3
  | t0 | t1 | t2 | t3 | t4 | t5 | t6 | t7 | s0 | s1 | s2 | s3 | s4 | s5 | s6 | s7
  | t8 | t9 | k0 | k1 | gp | sp | s8 | epc
  deriving DecidableEq

abbrev Trapframe := Reg → BitVec 32

/-- `filedesc`; `oflag` is a ghost: the flags with which it was opened. -/
structure Filedesc where
  vn : Nat
  offset : Nat
  mode : Nat
  oflag : Nat

/-- The kernel; `kernel` and `reach` are the bytes above `USERTOP` and where there are any, `tlb`
are the pages of the process that have an entry in the TLB when it makes a call, `frames` are the
trapframes that new threads were given, and `stackErr` and `stackFile` are what the stack holds
where `err` and `file_d_new` will be. -/
structure System (φ : Type) where
  ts : ThreadSystem
  files : Nat → Option Filedesc
  nextFile : Nat
  fs : φ
  kernel : Bytes
  reach : Nat → Bool
  tlb : List Nat
  curspl : Nat
  frames : Nat → Option Trapframe
  stackErr : Int
  stackFile : Nat

abbrev SystemM (φ : Type) := Prog Panic (System φ) Errno

structure Return where
  code : Int
  ret : Int
  outcome : Option Int

namespace SystemM

variable {φ α : Type}

def onThreads (program : ThreadM α) : SystemM φ α :=
  zoom System.ts (fun ts s => { s with ts }) program

def onHeap (program : HeapM α) : SystemM φ α :=
  onThreads (ThreadM.onHeap program)

/-- `curthread`. -/
def curthread : SystemM φ Thread :=
  onThreads do
    let cur ← ThreadM.current
    ThreadM.deref cur

def updateCurthread (change : Thread → Thread) : SystemM φ Unit :=
  onThreads do
    let cur ← ThreadM.current
    ThreadM.update cur change

def setTable (ft : FileTable) : SystemM φ Unit :=
  updateCurthread fun thread => { thread with ft := some ft }

def descriptor (f : Nat) : SystemM φ Filedesc :=
  fun s =>
    match s.files f with
    | some file => .ok (.ok file, s)
    | none => .error .strayPointer

def setFile (f : Nat) (file : Option Filedesc) : SystemM φ Unit :=
  modify fun s => { s with files := Function.update s.files f file }

def memory : SystemM φ Memory := do
  let s ← get
  let thread ← curthread
  pure
    { kernel := s.kernel
      user := thread.tVmspace.getD fun _ => none
      space := thread.tVmspace.map fun _ => 0 }

def setMemory (mem : Memory) : SystemM φ Unit := do
  modify fun s => { s with kernel := mem.kernel }
  updateCurthread fun thread => { thread with tVmspace := thread.tVmspace.map fun _ => mem.user }

def onVfs (program : VfsM φ α) : SystemM φ α := do
  let s ← get
  let mem ← memory
  match program (s.fs, mem) with
  | .error reason => halt reason
  | .ok (result, (fs, mem)) =>
      modify fun s => { s with fs }
      setMemory mem
      ofExcept result

/-- `splhigh` and `splx`. -/
def setSpl (spl : Nat) : SystemM φ Unit :=
  modify fun s => { s with curspl := spl }

end SystemM

/-! ## Rules -/

namespace System

variable {φ : Type}

def current (s : System φ) : Option Thread :=
  s.ts.curthread.bind s.ts.threads

def table (s : System φ) : Option FileTable :=
  s.current.bind Thread.ft

def opened (s : System φ) (fd : Int) : Option Filedesc :=
  (s.table.bind fun ft => ft.lookup fd).bind s.files

/-- The kernel with other answers of `kmalloc` to come. -/
def withHeap (s : System φ) (heap : KHeap) : System φ :=
  { s with ts := { s.ts with heap } }

def withCurrent (s : System φ) (thread : Thread) : System φ :=
  { s with ts := s.ts.setThread (s.ts.curthread.getD 0) (some thread) }

theorem curthread_eq {s : System φ} {thread : Thread} (running : s.current = some thread) :
    s.ts.curthread = some (s.ts.curthread.getD 0) := by
  rcases bind_eq_some_iff.mp running with ⟨cur, isCur, _⟩
  rw [isCur]
  rfl

theorem current_withCurrent {s : System φ} {thread : Thread} (running : s.current = some thread)
    (thread' : Thread) : (s.withCurrent thread').current = some thread' := by
  have isCur := curthread_eq running
  rw [current, withCurrent]
  simp only [ThreadSystem.setThread]
  rw [isCur, bind_some, Option.getD_some, update_self]

def memoryOf (s : System φ) (thread : Thread) : Memory :=
  { kernel := s.kernel
    user := thread.tVmspace.getD fun _ => none
    space := thread.tVmspace.map fun _ => 0 }

/-- The kernel with the memory as it is after a part of the vnode layer has run. -/
def withMemory (s : System φ) (thread : Thread) (mem : Memory) : System φ :=
  { s with kernel := mem.kernel }.withCurrent
    { thread with tVmspace := thread.tVmspace.map fun _ => mem.user }

def afterVfs (s : System φ) (thread : Thread) (after : φ × Memory) : System φ :=
  { s with fs := after.1 }.withMemory thread after.2

/-- The kernel when the first allocation has been tried and `vfs_open` has come back. -/
def afterOpen (s : System φ) (thread : Thread) (after : φ × Memory) : System φ :=
  (s.withHeap (s.ts.heap.after 1)).afterVfs thread after

/-- The addresses at which the kernel does not fault on its way from `start` on. -/
def reachOf (s : System φ) (thread : Thread) (start : Nat) : Nat → Bool :=
  (s.memoryOf thread).directReach s.reach s.tlb start

end System

namespace SystemM

variable {φ α : Type} {s : System φ} {panics : Panic → Prop} {fails : Errno → System φ → Prop}

variable {returns : α → System φ → Prop} {thread : Thread}

theorem ensures_onThreads {program : ThreadM α} :
    Ensures (onThreads program) s panics fails returns ↔
      Ensures program s.ts panics (fun failure ts => fails failure { s with ts })
        (fun value ts => returns value { s with ts }) :=
  ensures_zoom

theorem ensures_onHeap {program : HeapM α} :
    Ensures (onHeap program) s panics fails returns ↔
      Ensures program s.ts.heap panics (fun failure heap => fails failure (s.withHeap heap))
        (fun value heap => returns value (s.withHeap heap)) := by
  rw [onHeap, ensures_onThreads]
  exact ThreadM.ensures_onHeap

theorem curthread_apply (running : s.current = some thread) :
    curthread s = .ok (.ok thread, s) := by
  rcases bind_eq_some_iff.mp running with ⟨cur, isCur, present⟩
  simp [curthread, onThreads, zoom, ThreadM.current, ThreadM.deref, bind, isCur, present]

theorem ensures_curthread {returns : Thread → System φ → Prop} (running : s.current = some thread) :
    Ensures curthread s panics fails returns ↔ returns thread s :=
  ensures_of_ok_eq (curthread_apply running)

theorem ensures_curthread_of {returns : Thread → System φ → Prop}
    (none : s.current = none → panics .threadPointer)
    (some : ∀ thread, s.current = some thread → returns thread s) :
    Ensures curthread s panics fails returns := by
  cases running : s.current with
  | some thread =>
      rw [ensures_curthread running]
      exact some thread running
  | none =>
      have outcome : (curthread : SystemM φ Thread) s = .error .threadPointer := by
        cases isCur : s.ts.curthread with
        | none => simp [curthread, onThreads, zoom, ThreadM.current, bind, isCur]
        | some cur =>
            have missing : s.ts.threads cur = Option.none := by
              simpa [System.current, isCur] using running
            simp [curthread, onThreads, zoom, ThreadM.current, ThreadM.deref, bind, isCur,
              missing]
      rw [ensures_of_halt_eq outcome]
      exact none running

theorem updateCurthread_apply (running : s.current = some thread) (change : Thread → Thread) :
    updateCurthread change s = .ok (.ok (), s.withCurrent (change thread)) := by
  rcases bind_eq_some_iff.mp running with ⟨cur, isCur, present⟩
  simp [updateCurthread, onThreads, zoom, ThreadM.current, ThreadM.update, ThreadM.deref, bind,
    isCur, present, modify, System.withCurrent]

theorem ensures_updateCurthread {change : Thread → Thread} {returns : Unit → System φ → Prop}
    (running : s.current = some thread) :
    Ensures (updateCurthread change) s panics fails returns ↔
      returns () (s.withCurrent (change thread)) :=
  ensures_of_ok_eq (updateCurthread_apply running change)

theorem ensures_descriptor_of {f : Nat} {returns : Filedesc → System φ → Prop}
    (missing : s.files f = none → panics .strayPointer)
    (found : ∀ file, s.files f = some file → returns file s) :
    Ensures (descriptor f) s panics fails returns := by
  cases present : s.files f with
  | none =>
      have outcome : (descriptor f : SystemM φ Filedesc) s = .error .strayPointer := by
        simp [descriptor, present]
      rw [ensures_of_halt_eq outcome]
      exact missing present
  | some file =>
      have outcome : descriptor f s = .ok (.ok file, s) := by
        simp [descriptor, present]
      rw [ensures_of_ok_eq outcome]
      exact found file present

theorem ensures_descriptor {f : Nat} {file : Filedesc} {returns : Filedesc → System φ → Prop}
    (present : s.files f = some file) :
    Ensures (descriptor f) s panics fails returns ↔ returns file s := by
  apply ensures_of_ok_eq
  simp [descriptor, present]

theorem memory_apply (running : s.current = some thread) :
    memory s = .ok (.ok (s.memoryOf thread), s) := by
  rw [memory, bind_of_ok (get_apply s), bind_of_ok (curthread_apply running)]
  rfl

theorem ensures_memory {returns : Memory → System φ → Prop} (running : s.current = some thread) :
    Ensures memory s panics fails returns ↔ returns (s.memoryOf thread) s :=
  ensures_of_ok_eq (memory_apply running)

theorem ensures_setMemory {mem : Memory} {returns : Unit → System φ → Prop}
    (running : s.current = some thread) :
    Ensures (setMemory mem) s panics fails returns ↔ returns () (s.withMemory thread mem) := by
  rw [setMemory, ensures_bind, ensures_modify, ensures_updateCurthread (by exact running)]
  exact Iff.rfl

theorem ensures_onVfs {program : VfsM φ α} (running : s.current = some thread) :
    Ensures (onVfs program) s panics fails returns ↔
      Ensures program (s.fs, s.memoryOf thread) panics
        (fun failure after => fails failure (s.afterVfs thread after))
        (fun value after => returns value (s.afterVfs thread after)) := by
  rw [onVfs, ensures_bind, ensures_get, ensures_bind, ensures_memory running]
  rcases outcome : program (s.fs, s.memoryOf thread) with reason | ⟨result, after⟩
  · rw [ensures_of_halt_eq outcome, Prog.ensures_halt]
  · simp only [ensures_bind, ensures_modify]
    rw [ensures_setMemory (by exact running)]
    cases result with
    | error failure =>
        rw [ensures_of_fail_eq outcome, Prog.ensures_ofExcept_error]
        rfl
    | ok value =>
        rw [ensures_of_ok_eq outcome, ensures_ofExcept_ok]
        rfl

end SystemM

/-- `SPL_HIGH`. -/
def splHigh : Nat := 15

open SystemM

variable {φ : Type} (vfs : Vfs φ)

/-- `filetable_remove`; 1 if the descriptor was the last, 0 if it was another, -1 if there is
none, and the table afterwards. -/
def filetableRemove (table : Option FileTable) (i : Int) : SystemM φ (Int × FileTable) := do
  let ft ← onHeap (assertTable table)
  assert .filetableIndex (0 ≤ i ∧ i < ft.filetableSize)
  match ← onHeap (filetableGet (some ft) i) with
  | none => pure (-1, ft)
  | some f =>
      let file ← descriptor f
      modify fun s => { s with fs := vfs.vfsClose file.vn s.fs }
      setFile f none
      let ft ← onHeap (filetableSet (some ft) i none)
      if i = (ft.filetableSize : Int) - 1 then
        let handles ← onHeap (ft.handles.arrayRemove i.toNat)
        pure (1, { ft with handles })
      else
        pure (0, ft)

/-- `sys_open` when the file is open: the descriptor gets a number. -/
def openAdd (vn oflag mode : Nat) : SystemM φ Return := do
  let s ← get
  let f := s.nextFile
  modify fun s => { s with nextFile := f + 1 }
  setFile f (some { vn, offset := 0, mode, oflag })
  let thread ← curthread
  let (index, ft) ← onHeap (filetableAdd thread.ft (some f))
  if index = -1 then
    setFile f none
    pure { code := -1, ret := -1, outcome := none }
  else
    setTable ft
    pure { code := 0, ret := index, outcome := some index }

/-- `sys_open` over some `vfs_open`. Without memory for the descriptor `&fd->vn` is the address 0,
which `vfs_open` writes to when it succeeds. -/
def sysOpenOver (vfsOpen : VfsM φ Nat) (oflag mode : Nat) : SystemM φ Return := do
  let granted ← onHeap kmalloc
  match ← attempt (onVfs vfsOpen) with
  | .error failure => pure { code := failure.code, ret := failure.code, outcome := none }
  | .ok vn =>
      assert .kernelFault (granted = true)
      openAdd vn oflag mode

/-- `sys_open`. -/
def sysOpen (path oflag mode : Nat) : SystemM φ Return := do
  let s ← get
  let mem ← memory
  sysOpenOver (vfs.vfsOpen (mem.directReach s.reach s.tlb path) path oflag) oflag mode

section Open

variable {s : System φ} {thread : Thread} {path oflag mode : Nat} {panics : Panic → Prop}
  {fails : Errno → System φ → Prop} {returns : Return → System φ → Prop}

theorem ensures_sysOpenOver {vfsOpen : VfsM φ Nat} (running : s.current = some thread) :
    Ensures (sysOpenOver vfsOpen oflag mode) s panics fails returns ↔
      Ensures vfsOpen (s.fs, s.memoryOf thread) panics
        (fun failure after => returns { code := failure.code, ret := failure.code, outcome := none }
          (s.afterOpen thread after))
        (fun vn after => if s.ts.heap 0 = true then
            Ensures (openAdd vn oflag mode) (s.afterOpen thread after) panics fails returns
          else panics .kernelFault) := by
  have running' : (s.withHeap (s.ts.heap.after 1)).current = some thread := running
  rw [sysOpenOver, ensures_bind, ensures_onHeap, ensures_kmalloc, ensures_bind, ensures_attempt,
    ensures_onVfs running']
  simp only [ensures_bind, ensures_assert, ensures_pure]
  exact Iff.rfl

theorem sysOpen_apply (running : s.current = some thread) :
    sysOpen vfs path oflag mode s =
      sysOpenOver (vfs.vfsOpen (s.reachOf thread path) path oflag) oflag mode s := by
  rw [sysOpen, bind_of_ok (get_apply s), bind_of_ok (memory_apply running)]
  rfl

end Open

/-- The uio of `sys_read` and `sys_write`. -/
def fileUio (file : Filedesc) (buf nbytes : Nat) (segflg : UioSeg) (rw : UioRw)
    (space : Option Nat) (mem : Memory) : Uio :=
  { iovBase := buf
    iovLen := nbytes
    uioOffset := int32 file.offset
    uioResid := nbytes
    uioSegflg := segflg
    uioRw := rw
    uioSpace := space
    mem }

/-- `VOP_READ` or `VOP_WRITE` with interrupts off; the result and the `uio` afterwards. -/
def transferAtomic (operation : Nat → φ → Transfer φ) (reach : Nat → Bool) (uio : Uio) :
    SystemM φ (Except Errno Unit × Uio) := do
  let s ← get
  let spl := s.curspl
  setSpl splHigh
  match (operation splHigh s.fs).run reach uio with
  | .error reason => halt reason
  | .ok (.error failure, uio') =>
      setSpl spl
      pure (.error failure, uio')
  | .ok (.ok (result, fs), uio') =>
      modify fun s => { s with fs }
      setSpl spl
      pure (result, uio')

/-- What `sys_read` and `sys_write` return when the transfer is over. -/
def transferResult (nbytes : Nat) : Except Errno Unit × Uio → Return
  | (.error failure, _) => { code := failure.code, ret := failure.code, outcome := none }
  | (.ok (), uio) =>
      let moved := int32 (uint32 (nbytes - uio.uioResid))
      { code := 0, ret := moved, outcome := some moved }

/-- The checks of `sys_read` and `sys_write`: the buffer is not `NULL`, and the descriptor is open
in a mode that is allowed. -/
def accessFile (allowed : Nat → Bool) (transfer : Filedesc → SystemM φ Return) (fd : Int)
    (buf : Nat) (ret : Int) : SystemM φ Return := do
  if buf = 0 then
    pure { code := Errno.efault.code, ret, outcome := none }
  else
    let thread ← curthread
    match ← onHeap (filetableGet thread.ft fd) with
    | none => pure { code := Errno.ebadf.code, ret, outcome := none }
    | some f =>
        let file ← descriptor f
        if allowed (Vfs.accmode file.mode) then
          transfer file
        else
          pure { code := Errno.ebadf.code, ret, outcome := none }

/-- `O_RDONLY` and `O_RDWR`. -/
def canRead (accmode : Nat) : Bool :=
  accmode = 0 ∨ accmode = 2

/-- `O_WRONLY` and `O_RDWR`. -/
def canWrite (accmode : Nat) : Bool :=
  accmode = 1 ∨ accmode = 2

/-- `sys_read` from the set up of the `uio` on. -/
def readFile (buf nbytes : Nat) (file : Filedesc) : SystemM φ Return := do
  let s ← get
  let mem ← memory
  let uio := fileUio file buf nbytes .userspace .read mem.space mem
  let reach := mem.directReach s.reach s.tlb buf
  let result ← transferAtomic (fun spl => vfs.vopRead spl file.vn) reach uio
  setMemory result.2.mem
  pure (transferResult nbytes result)

/-- `sys_write` from the set up of the `uio` on, which is one for a buffer of the kernel. -/
def writeFile (buf nbytes : Nat) (file : Filedesc) : SystemM φ Return := do
  let s ← get
  let mem ← memory
  let uio := fileUio file buf nbytes .sysspace .write none { mem with kernel := mem.direct }
  let reach := mem.directReach s.reach s.tlb buf
  let result ← transferAtomic (fun spl => vfs.vopWrite spl file.vn) reach uio
  pure (transferResult nbytes result)

/-- `sys_read`. -/
def sysRead (fd : Int) (buf nbytes : Nat) (ret : Int) : SystemM φ Return :=
  accessFile canRead (readFile vfs buf nbytes) fd buf ret

/-- `sys_write`. -/
def sysWrite (fd : Int) (buf nbytes : Nat) (ret : Int) : SystemM φ Return :=
  accessFile canWrite (writeFile vfs buf nbytes) fd buf ret

/-- `sys_close`; what goes to `filetable_remove` is whether `fd` is -1. -/
def sysClose (fd ret : Int) : SystemM φ Return := do
  let thread ← curthread
  let (removed, ft) ← filetableRemove vfs thread.ft (if fd = -1 then 1 else 0)
  setTable ft
  if removed ≠ 0 then
    pure { code := Errno.ebadf.code, ret, outcome := none }
  else
    pure { code := 0, ret, outcome := some 0 }

/-- `sys_dup2` closes what `newfd` stands for. -/
def dup2Close (newfd ret : Int) : (file_d_check : Option Nat) → SystemM φ Unit
  | none => pure ()
  | some _ => do
      let _ ← sysClose vfs newfd ret
      pure ()

/-- `sys_dup2`; `file_d_new` points to whatever it points to. -/
def sysDup2 (oldfd newfd ret : Int) : SystemM φ Return := do
  let thread ← curthread
  match ← onHeap (filetableGet thread.ft oldfd) with
  | none => pure { code := Errno.ebadf.code, ret, outcome := none }
  | some old =>
      if newfd < 0 then
        pure { code := Errno.ebadf.code, ret, outcome := none }
      else
        let check ← onHeap (filetableGet thread.ft newfd)
        dup2Close vfs newfd ret check
        let file ← descriptor old
        let s ← get
        let _ ← descriptor s.stackFile
        setFile s.stackFile (some file)
        let thread ← curthread
        let ft ← onHeap (filetableSet thread.ft newfd (some s.stackFile))
        setTable ft
        pure { code := newfd, ret, outcome := some newfd }

/-- The position that `sys_lseek` computes; `offset` and the sum are unsigned. -/
def seekPosition (file : Filedesc) (pos deviceEnd : Int) : (whence : Int) → Option Int
  | 0 => some pos
  | 1 => some (int32 (pos + file.offset))
  | 2 => some (int32 (pos + deviceEnd))
  | _ => none

/-- `sys_lseek`; the new position is the return value. -/
def sysLseek (fd pos whence ret : Int) : SystemM φ Return := do
  let thread ← curthread
  match ← onHeap (filetableGet thread.ft fd) with
  | none => pure { code := Errno.ebadf.code, ret, outcome := none }
  | some f =>
      let file ← descriptor f
      let s ← get
      match seekPosition file pos (vfs.deviceEnd file.vn s.fs) whence with
      | none => pure { code := Errno.einval.code, ret, outcome := none }
      | some pos =>
          match vfs.vopTryseek file.vn pos s.fs with
          | .error failure => pure { code := failure.code, ret, outcome := none }
          | .ok () =>
              setFile f (some { file with offset := uint32 pos })
              pure { code := pos, ret, outcome := some pos }

end Os161
