import Os161.Syscall.File

/-!
# The system call handler

`mips_syscall`, `sys_fork`, `sys_getpid` and `md_forkentry` of `syscall.c`. The
handler returns the trapframe with which the process goes on, if it does: after
`_exit` and `reboot` there is nothing to go on with.
-/

namespace Os161

open SystemM

/-- The calls that `mips_syscall` knows. -/
inductive Call where
  | exit
  | fork
  | «open»
  | read
  | write
  | close
  | reboot
  | getpid
  | lseek
  | dup2
  | unknown
  deriving DecidableEq

/-- The numbers of `kern/callno.h`. -/
def Call.ofNumber : Nat → Call
  | 0 => .exit
  | 2 => .fork
  | 4 => .open
  | 5 => .read
  | 6 => .write
  | 7 => .close
  | 8 => .reboot
  | 11 => .getpid
  | 13 => .lseek
  | 26 => .dup2
  | _ => .unknown

variable {φ : Type} (vfs : Vfs φ)

/-- `sys_reboot`; with a code that it knows it stops the machine. -/
def sysReboot (code : Int) : SystemM φ (Option Return) :=
  if code = 0 ∨ code = 1 ∨ code = 2 then
    pure none
  else
    pure (some { code := Errno.einval.code, ret := 0, outcome := none })

/-- `sys__exit`. -/
def sysExit : SystemM φ (Option Return) := do
  onThreads threadExit
  pure none

/-- `sys_getpid`. -/
def sysGetpid : SystemM φ Int := do
  let thread ← curthread
  pure thread.id

/-- `sys_fork`: the return value, and as a ghost whether there is a child. When `thread_fork`
fails `child_thread` is still `NULL`; no address space has the page at 0. A call is one step: the
child does not run before `child_thread->id` has been read, although `thread.c` warns that it may
have run, and be gone, when `thread_fork` returns. -/
def sysFork (tf : Trapframe) : SystemM φ (Int × Bool) := do
  if ← onHeap kmalloc then
    match ← attempt (onThreads threadFork) with
    | .error _ => halt .strayPointer
    | .ok child =>
        modify fun s => { s with frames := Function.update s.frames child (some tf) }
        let thread ← onThreads (ThreadM.deref child)
        pure (thread.id, true)
  else
    pure (Errno.enomem.code, false)

/-- `md_forkentry`: the registers with which the child gets to user mode. -/
def mdForkentry (tf : Trapframe) : Trapframe :=
  Function.update (Function.update (Function.update tf .v0 0) .epc (tf .epc + 4)) .a3 0

/-- The switch of `mips_syscall`; `err` is not set by `SYS_getpid`. -/
def dispatch (tf : Trapframe) : SystemM φ (Option Return) :=
  match Call.ofNumber (tf .v0).toNat with
  | .reboot => sysReboot (tf .a0).toInt
  | .fork => do
      let (retval, child) ← sysFork tf
      pure (some { code := 0, ret := retval, outcome := if child then some retval else none })
  | .exit => sysExit
  | .getpid => do
      let retval ← sysGetpid
      let s ← get
      pure (some { code := s.stackErr, ret := retval, outcome := some retval })
  | .open => do
      let r ← sysOpen vfs (tf .a0).toNat (tf .a1).toNat (tf .a2).toNat
      pure (some r)
  | .read => do
      let r ← sysRead vfs (tf .a0).toInt (tf .a1).toNat (tf .a2).toNat 0
      pure (some r)
  | .write => do
      let r ← sysWrite vfs (tf .a0).toInt (tf .a1).toNat (tf .a2).toNat 0
      pure (some r)
  | .close => do
      let r ← sysClose vfs (tf .a0).toInt 0
      pure (some r)
  | .dup2 => do
      let r ← sysDup2 vfs (tf .a0).toInt (tf .a1).toInt 0
      pure (some r)
  | .lseek => do
      let r ← sysLseek vfs (tf .a0).toInt (tf .a1).toInt (tf .a2).toInt 0
      pure (some r)
  | .unknown => pure (some { code := Errno.enosys.code, ret := 0, outcome := none })

/-- The end of `mips_syscall`: `v0`, `a3` and `epc` are set. -/
def Trapframe.finish (tf : Trapframe) (r : Return) : Trapframe :=
  let value := if r.code ≠ 0 then r.code else r.ret
  let flag := if r.code ≠ 0 then 1 else 0
  Function.update
    (Function.update (Function.update tf .v0 (BitVec.ofInt 32 value)) .a3 flag)
    .epc (tf .epc + 4)

/-- `mips_syscall`; the trapframe afterwards, and as a ghost what the call did. -/
def mipsSyscall (tf : Trapframe) : SystemM φ (Option (Trapframe × Option Int)) := do
  let s ← get
  assert .syscallSpl (s.curspl = 0)
  match ← dispatch vfs tf with
  | none => pure none
  | some r =>
      let s ← get
      assert .syscallSpl (s.curspl = 0)
      pure (some (tf.finish r, r.outcome))

/-- How the process goes on, if it does. -/
def resumes (tf : Trapframe) (s : System φ) : Option ((Trapframe × Option Int) × System φ) :=
  match mipsSyscall vfs tf s with
  | .ok (.ok (some result), s') => some (result, s')
  | _ => none

theorem resumes_eq_some {vfs : Vfs φ} {tf : Trapframe} {s s' : System φ}
    {result : Trapframe × Option Int} :
    resumes vfs tf s = some (result, s') ↔ mipsSyscall vfs tf s = .ok (.ok (some result), s') := by
  rw [resumes]
  constructor
  · intro resumed
    split at resumed
    · cases resumed
      assumption
    · cases resumed
  · intro returned
    rw [returned]

/-! ## A process -/

/-- The registers of a call with the given number and arguments. -/
def callFrame (number a0 a1 a2 : BitVec 32) : Trapframe
  | .v0 => number
  | .a0 => a0
  | .a1 => a1
  | .a2 => a2
  | _ => 0

/-- A page of memory, which ends with a short string. -/
def processByte (addr : Nat) : Option UInt8 :=
  if addr = 0x4fff then some 0 else if addr / pageSize = 4 then some 7 else none

/-- A process that is alone, with the given descriptors and a page of memory. -/
def aloneWith (files : List Filedesc) (fs : OneFile) : System OneFile where
  ts := { unbooted (fun _ => 0) enoughMemory with
    curthread := some 0
    threads := fun t => if t = 0 then some
      { tSleepaddr := none
        tVmspace := some processByte
        tCwd := none
        ft := some
          { handles := ⟨files.length, files.length, some some⟩
            next := files.length }
        priority := priorityNormal
        id := 5
        tPcb := .threadstart } else none }
  files f := files[f]?
  nextFile := files.length
  fs := fs
  kernel _ := 42
  reach _ := true
  tlb := []
  curspl := 0
  frames _ := none
  stackErr := 0
  stackFile := 0

end Os161
