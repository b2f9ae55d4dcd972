import Os161.Vm.Tlb

/-!
# Loading an executable

`load_elf` and `load_segment` of `loadelf.c`, in the address space of the current thread.
The headers are read into the kernel with the `uiomove` of `Os161.Kern.Uio`. The segments go
to user memory: there every byte is an access through the TLB, which may fault and call
`vm_fault`, and before each access another thread may have run, and then the TLB was flushed.
The functions of `uio.c` and `copyinout.c` for this case are given here once more.

`VOP_READ` is left open. It moves whatever data it likes in pieces of any size, though not
more than it was asked for, and then it returns, fails, or runs into an assertion of its own.
-/

namespace Os161

/-! ## Files -/

/-- What a call of `VOP_READ` does: it moves pieces with `uiomove`, one after another, until it is
done, fails or panics. An error of `uiomove` is handed on. -/
inductive Reading where
  | done
  | fail (failure : Errno)
  | panic (reason : Panic)
  | move (source : Bytes) (n : Nat) (next : Reading)

namespace Reading

variable {σ : Type}

/-- Run the call; `uiomove` is that on the `uio` of the caller. -/
def run (uiomove : Bytes → Nat → Prog Panic σ Errno Unit) : Reading → Prog Panic σ Errno Unit
  | .done => pure ()
  | .fail failure => Prog.fail failure
  | .panic reason => halt reason
  | .move source n next => do
      uiomove source n
      next.run uiomove

/-- How many bytes it moves if no move fails. -/
def total : Reading → Nat
  | .done | .fail _ | .panic _ => 0
  | .move _ n next => n + next.total

/-- What it moves, the pieces one behind the other. -/
def bytes : Reading → Bytes
  | .done | .fail _ | .panic _ => fun _ => 0
  | .move source n next => source.append n next.bytes

end Reading

/-- A file as `load_elf` sees it: what `VOP_READ` does when it is asked for `resid` bytes at an
offset. It moves no more than that. -/
structure ElfFile where
  vopRead : (resid : Nat) → (offset : Int) → Reading
  within : ∀ resid offset, (vopRead resid offset).total ≤ resid

namespace ElfFile

variable {σ : Type}

/-- `uiomove`, without what it hands back. -/
def moveBytes (source : Bytes) (n : Nat) : UioM Unit := do
  let _ ← uiomove source n
  pure ()

/-- `VOP_READ` with a `uio` made by `mk_kuio`, and the test for a short read. -/
def readKernel (file : ElfFile) (len : Nat) (pos : Int) : Prog Panic σ Errno Bytes := do
  let (_, ku) ← withLocal (mkKuio (fun _ => 0) len pos .read)
    (zoom Prod.snd (fun ku s => (s.1, ku)) ((file.vopRead len pos).run moveBytes))
  if ku.uioResid ≠ 0 then
    fail .enoexec
  else
    pure ku.mem.kernel

end ElfFile

/-! ## Headers -/

/-- The number that `n` bytes from `start` on are, the most significant first. -/
def Bytes.msb (bytes : Bytes) (start : Nat) : (n : Nat) → Nat
  | 0 => 0
  | n + 1 => bytes.msb start n * 256 + (bytes (start + n)).toNat

/-- `Elf_Ehdr`, without the fields that are ignored. -/
structure Ehdr where
  eIdent : Bytes
  eType : Nat
  eMachine : Nat
  eVersion : Nat
  eEntry : Nat
  ePhoff : Nat
  ePhentsize : Nat
  ePhnum : Nat

namespace Ehdr

def size : Nat := 52

def ofBytes (bytes : Bytes) : Ehdr where
  eIdent := bytes
  eType := bytes.msb 16 2
  eMachine := bytes.msb 18 2
  eVersion := bytes.msb 20 4
  eEntry := bytes.msb 24 4
  ePhoff := bytes.msb 28 4
  ePhentsize := bytes.msb 42 2
  ePhnum := bytes.msb 44 2

/-- The test of `load_elf` for a 32-bit executable of this machine. -/
def executable (eh : Ehdr) : Bool :=
  eh.eIdent 0 == 0x7f && eh.eIdent 1 == 69 && eh.eIdent 2 == 76 && eh.eIdent 3 == 70 &&
    eh.eIdent 4 == 1 && eh.eIdent 5 == 2 && eh.eIdent 6 == 1 && eh.eVersion == 1 &&
    eh.eType == 2 && eh.eMachine == 8

/-- `eh.e_phoff + i*eh.e_phentsize`, as an `off_t`. -/
def phdrOffset (eh : Ehdr) (i : Nat) : Int :=
  int32 (eh.ePhoff + i * eh.ePhentsize)

end Ehdr

/-- What `load_elf` does with a program header. -/
inductive PhdrKind where
  | skip
  | load
  | unknown
  deriving DecidableEq

/-- `Elf_Phdr`, without the fields that are ignored. -/
structure Phdr where
  pType : Nat
  pOffset : Nat
  pVaddr : Nat
  pFilesz : Nat
  pMemsz : Nat
  deriving DecidableEq

namespace Phdr

def size : Nat := 32

def ofBytes (bytes : Bytes) : Phdr where
  pType := bytes.msb 0 4
  pOffset := bytes.msb 4 4
  pVaddr := bytes.msb 8 4
  pFilesz := bytes.msb 16 4
  pMemsz := bytes.msb 20 4

/-- `switch (ph.p_type)`. -/
def kind (ph : Phdr) : PhdrKind :=
  if ph.pType = 0 ∨ ph.pType = 6 ∨ ph.pType = 0x70000000 then
    .skip
  else if ph.pType = 1 then
    .load
  else
    .unknown

end Phdr

/-! ## User memory -/

/-- `u` in `load_segment`. -/
structure UserUio where
  iovUbase : Nat
  iovLen : Nat
  uioResid : Nat
  uioOffset : Int

/-- The machine during a load; `switches` says before which of the accesses to user memory to
come another thread ran. -/
structure Loading where
  vm : Vm
  switches : Nat → Bool
  u : UserUio

abbrev LoadM := Prog Panic Loading Errno

/-- The frame that a valid entry of the TLB has for the page. -/
def Vm.tlbFind (vm : Vm) (page : Nat) : Option Nat :=
  ((List.range numTlb).find? fun i => (vm.tlb i).Valid ∧ (vm.tlb i).ehi = page).map fun i =>
    pageFrame (vm.tlb i).elo

namespace Loading

def onVm {α : Type} (program : VmM α) : LoadM α :=
  zoom Loading.vm (fun vm s => { s with vm }) program

def switched (s : Loading) : Loading :=
  { s with
    vm := if s.switches 0 then s.vm.flush else s.vm
    switches := fun i => s.switches (i + 1) }

/-- The frame that an access reaches; after a fault that `vm_fault` has dealt with it is tried
again. -/
def userFrame (as addr : Nat) : LoadM Nat := do
  modify switched
  let s ← get
  match s.vm.tlbFind (pageFrame addr) with
  | some frame => pure frame
  | none => do
      onVm (Vm.vmFault (some as) .write addr)
      let s ← get
      match s.vm.tlbFind (pageFrame addr) with
      | some frame => pure frame
      | none => fail .efault

def storeMem (paddr : Nat) (byte : UInt8) (s : Loading) : Loading :=
  { s with vm := { s.vm with mem := Function.update s.vm.mem paddr byte } }

def storeUser (as addr : Nat) (byte : UInt8) : LoadM Unit := do
  let frame ← userFrame as addr
  modify (storeMem (frame + addr % pageSize) byte)

/-- `memcpy` to user memory, with `done` bytes copied before. -/
def memcpyUser (as : Nat) (source : Bytes) (userdest : Nat) : (done n : Nat) → LoadM Unit
  | _, 0 => pure ()
  | done, n + 1 => do
      storeUser as (userdest + done) (source done)
      memcpyUser as source userdest (done + 1) n

/-- `copyout`. -/
def copyoutUser (as : Nat) (source : Bytes) (userdest len : Nat) : LoadM Unit :=
  match copycheck userdest len with
  | .error failure => fail failure
  | .ok stoplen =>
      if stoplen = len then
        memcpyUser as source userdest 0 len
      else
        fail .efault

def advance (size : Nat) (s : Loading) : Loading :=
  { s with u :=
    { iovUbase := s.u.iovUbase + size
      iovLen := s.u.iovLen - size
      uioResid := uint32 (s.u.uioResid - size)
      uioOffset := int32 (s.u.uioOffset + size) } }

/-- `while (n > 0 && uio->uio_resid > 0)` in `uiomove`, with `done` bytes moved before. -/
def uiomoveUserLoop (as : Nat) (source : Bytes) : (fuel done n : Nat) → LoadM Unit
  | 0, _, _ => pure ()
  | fuel + 1, done, n => do
      let s ← get
      if 0 < n ∧ 0 < s.u.uioResid then
        let size := min s.u.iovLen n
        assert .uiomoveSize (size ≠ 0)
        copyoutUser as (fun i => source (done + i)) s.u.iovUbase size
        modify (advance size)
        uiomoveUserLoop as source fuel (done + size) (n - size)
      else
        pure ()

/-- `uiomove`. -/
def uiomoveUser (as : Nat) (source : Bytes) (n : Nat) : LoadM Unit :=
  uiomoveUserLoop as source n 0 n

/-- `while (n>0)` in `uiomovezeros`. -/
def uiomovezerosUser (as : Nat) : (fuel n : Nat) → LoadM Unit
  | 0, _ => pure ()
  | fuel + 1, n =>
      if 0 < n then do
        uiomoveUser as (fun _ => 0) (min 16 n)
        uiomovezerosUser as fuel (n - min 16 n)
      else
        pure ()

/-! ## The loader -/

def setUio (u : UserUio) (s : Loading) : Loading :=
  { s with u }

/-- `u.uio_resid += fillamt`. -/
def addResid (fillamt : Nat) (s : Loading) : Loading :=
  { s with u := { s.u with uioResid := uint32 (s.u.uioResid + fillamt) } }

/-- The zero-fill of `load_segment`. -/
def zeroFill (as fillamt : Nat) : LoadM Unit :=
  if 0 < fillamt then do
    modify (addResid fillamt)
    uiomovezerosUser as fillamt fillamt
  else
    pure ()

/-- `load_segment`. -/
def loadSegment (file : ElfFile) (as offset vaddr memsize filesize : Nat) : LoadM Unit := do
  let filesize := min filesize memsize
  modify (setUio ⟨vaddr, memsize, filesize, int32 offset⟩)
  (file.vopRead filesize (int32 offset)).run (uiomoveUser as)
  let s ← get
  if s.u.uioResid ≠ 0 then
    fail .enoexec
  else
    zeroFill as (memsize - filesize)

def readPhdr (file : ElfFile) (eh : Ehdr) (i : Nat) : LoadM Phdr := do
  let bytes ← file.readKernel Phdr.size (eh.phdrOffset i)
  pure (Phdr.ofBytes bytes)

/-- The two loops of `load_elf`, which differ in what they do with a segment; `header` reads
the headers. -/
def forSegments (header : Nat → LoadM Phdr) (segment : Phdr → LoadM Unit) : List Nat → LoadM Unit
  | [] => pure ()
  | i :: rest => do
      let ph ← header i
      match ph.kind with
      | .skip => forSegments header segment rest
      | .unknown => fail .enoexec
      | .load => do
          segment ph
          forSegments header segment rest

/-- `load_elf`; `as` is `curthread->t_vmspace`. -/
def loadElf (file : ElfFile) (as : Nat) : LoadM Nat := do
  let bytes ← file.readKernel Ehdr.size 0
  let eh := Ehdr.ofBytes bytes
  if eh.executable = false then
    fail .enoexec
  else
    forSegments (readPhdr file eh) (fun ph => onVm (Vm.asDefineRegion as ph.pVaddr ph.pMemsz))
      (List.range eh.ePhnum)
    onVm (Vm.asPrepareLoad as)
    forSegments (readPhdr file eh) (fun ph =>
      loadSegment file as ph.pOffset ph.pVaddr ph.pMemsz ph.pFilesz) (List.range eh.ePhnum)
    pure eh.eEntry

end Loading

end Os161
