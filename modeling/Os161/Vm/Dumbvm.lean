import Os161.Kern.Uio
import Os161.Lib.Arena
import Os161.Lib.Machine

/-!
# Physical memory and address spaces

`ram.c` and `dumbvm.c`. Physical pages are handed out upwards from `firstpaddr` and
never come back. An address space has two regions and a stack, each a run of
consecutive frames, and `vm_fault` finds the frame of a page in the first of them
that has it. All the arithmetic is that of 32-bit words.

The structures of the address spaces live under numbers that stand for their
addresses. `kpages` is a ghost: the regions that `alloc_kpages` has handed out, in
the order of the calls, which no code reads.
-/

namespace Os161

def pageSize : Nat := 4096

/-- `MIPS_KSEG0`. -/
def kseg0 : Nat := 0x80000000

/-- `addr & PAGE_FRAME`. -/
def pageFrame (addr : Nat) : Nat :=
  addr / pageSize * pageSize

/-- `USERSTACK`. -/
def userStack : Nat := userTop

def dumbvmStackpages : Nat := 12

/-! ## Physical memory -/

structure Ram where
  firstpaddr : Nat
  lastpaddr : Nat

abbrev RamM := Prog Panic Ram Errno

/-- `ram_stealmem`; 0 when the memory is used up. -/
def ramStealmem (npages : Nat) : RamM Nat := do
  let ram ← get
  let size := uint32 (npages * pageSize)
  if ram.lastpaddr < uint32 (ram.firstpaddr + size) then
    pure 0
  else
    let paddr := ram.firstpaddr
    modify fun ram => { ram with firstpaddr := uint32 (ram.firstpaddr + size) }
    pure paddr

/-- `getppages`. -/
def getppages (npages : Nat) : RamM Nat :=
  ramStealmem npages

/-- `alloc_kpages`. -/
def allocKpages (npages : Nat) : RamM Nat := do
  let pa ← getppages npages
  if pa = 0 then
    pure 0
  else
    pure (uint32 (pa + kseg0))

/-- `(sz + PAGE_SIZE - 1) / PAGE_SIZE` in `kmalloc`. -/
def kmallocNpages (sz : Nat) : Nat :=
  uint32 (sz + pageSize - 1) / pageSize

/-- `kmalloc` for a size that is not one of a subpage block. -/
def kmallocPages (sz : Nat) : RamM Nat :=
  allocKpages (kmallocNpages sz)

/-! ## Address spaces -/

/-- `struct addrspace`. -/
structure Addrspace where
  asVbase1 : Nat
  asPbase1 : Nat
  asNpages1 : Nat
  asVbase2 : Nat
  asPbase2 : Nat
  asNpages2 : Nat
  asStackpbase : Nat
  deriving DecidableEq

/-- An entry of the TLB, as `TLB_Write` gets it. -/
structure TlbEntry where
  ehi : Nat
  elo : Nat
  deriving DecidableEq

def numTlb : Nat := 64

def tlbloDirty : Nat := 0x400

def tlbloValid : Nat := 0x200

/-- The machine as `dumbvm.c` sees it: physical memory with its content, the TLB, the structures
of the address spaces, and the answers of `kmalloc`. -/
structure Vm where
  ram : Ram
  mem : Bytes
  tlb : Nat → TlbEntry
  spaces : Nat → Option Addrspace
  nextSpace : Nat
  kpages : List Arena.Region
  heap : KHeap

abbrev VmM := Prog Panic Vm Errno

namespace Vm

def setSpace (vm : Vm) (as : Nat) (space : Option Addrspace) : Vm :=
  { vm with spaces := Function.update vm.spaces as space }

def onRam {α : Type} (program : RamM α) : VmM α :=
  zoom Vm.ram (fun ram vm => { vm with ram }) program

def onHeap {α : Type} (program : HeapM α) : VmM α :=
  zoom Vm.heap (fun heap vm => { vm with heap }) program

def deref (as : Nat) : VmM Addrspace := do
  match (← get).spaces as with
  | some space => pure space
  | none => halt .spacePointer

def store (as : Nat) (space : Addrspace) : VmM Unit :=
  modify fun vm => vm.setSpace as (some space)

/-- `memmove` between physical addresses, through the direct-mapped segment. -/
def memmove (dst src len : Nat) : VmM Unit :=
  modify fun vm => { vm with mem := vm.mem.overlay dst len fun i => vm.mem (src + i) }

/-- `alloc_kpages` with its history. -/
def kernelPages (npages : Nat) : VmM Nat := do
  let vm ← get
  let address ← onRam (allocKpages npages)
  if address = 0 then
    pure 0
  else
    let paddr := vm.ram.firstpaddr
    modify fun vm => { vm with kpages := vm.kpages ++ [⟨paddr, paddr + npages * pageSize⟩] }
    pure address

/-! ## Setting up address spaces -/

/-- `as_create`. -/
def asCreate : VmM (Option Nat) := do
  if ← onHeap kmalloc then
    let vm ← get
    modify fun vm => { vm.setSpace vm.nextSpace (some ⟨0, 0, 0, 0, 0, 0, 0⟩) with
      nextSpace := vm.nextSpace + 1 }
    pure (some vm.nextSpace)
  else
    pure none

/-- `as_destroy`. -/
def asDestroy (as : Nat) : VmM Unit :=
  modify fun vm => vm.setSpace as none

/-- The number of pages that `as_define_region` computes. -/
def regionNpages (vaddr sz : Nat) : Nat :=
  let sz := uint32 (sz + vaddr % pageSize)
  let sz := pageFrame (uint32 (sz + pageSize - 1))
  sz / pageSize

/-- `as_define_region`. -/
def asDefineRegion (as vaddr sz : Nat) : VmM Unit := do
  let npages := regionNpages vaddr sz
  let vaddr := pageFrame vaddr
  let space ← deref as
  if space.asVbase1 = 0 then
    store as { space with asVbase1 := vaddr, asNpages1 := npages }
  else if space.asVbase2 = 0 then
    store as { space with asVbase2 := vaddr, asNpages2 := npages }
  else
    fail .eunimp

/-- `as_prepare_load`. -/
def asPrepareLoad (as : Nat) : VmM Unit := do
  let space ← deref as
  assert .prepareLoad (space.asPbase1 = 0)
  assert .prepareLoad (space.asPbase2 = 0)
  assert .prepareLoad (space.asStackpbase = 0)
  let pbase1 ← onRam (getppages space.asNpages1)
  store as { space with asPbase1 := pbase1 }
  if pbase1 = 0 then
    fail .enomem
  else
    let pbase2 ← onRam (getppages space.asNpages2)
    store as { space with asPbase1 := pbase1, asPbase2 := pbase2 }
    if pbase2 = 0 then
      fail .enomem
    else
      let stackpbase ← onRam (getppages dumbvmStackpages)
      store as
        { space with asPbase1 := pbase1, asPbase2 := pbase2, asStackpbase := stackpbase }
      if stackpbase = 0 then
        fail .enomem

/-- `as_copy` once the new address space has its pages. -/
def asCopyPages (old new : Nat) : VmM Unit := do
  let source ← deref old
  let copy ← deref new
  assert .copySpace (copy.asPbase1 ≠ 0)
  assert .copySpace (copy.asPbase2 ≠ 0)
  assert .copySpace (copy.asStackpbase ≠ 0)
  memmove copy.asPbase1 source.asPbase1 (uint32 (source.asNpages1 * pageSize))
  memmove copy.asPbase2 source.asPbase2 (uint32 (source.asNpages2 * pageSize))
  memmove copy.asStackpbase source.asStackpbase (dumbvmStackpages * pageSize)

/-- `as_copy`. -/
def asCopy (old : Nat) : VmM Nat := do
  match ← asCreate with
  | none => fail .enomem
  | some new =>
      let source ← deref old
      let copy ← deref new
      store new { copy with
        asVbase1 := source.asVbase1, asNpages1 := source.asNpages1
        asVbase2 := source.asVbase2, asNpages2 := source.asNpages2 }
      match ← attempt (asPrepareLoad new) with
      | .error _ =>
          asDestroy new
          fail .enomem
      | .ok () =>
          asCopyPages old new
          pure new

/-- `TLBHI_INVALID`. -/
def tlbhiInvalid (entryno : Nat) : Nat :=
  (0x80000 + entryno) * 4096

/-- `TLB_Write(TLBHI_INVALID(i), TLBLO_INVALID(), i)` for every entry. -/
def flush (vm : Vm) : Vm :=
  { vm with tlb := fun i => if i < numTlb then ⟨tlbhiInvalid i, 0⟩ else vm.tlb i }

/-- `as_activate`. -/
def asActivate : VmM Unit :=
  modify flush

/-! ## Faults -/

/-- The assertions of `vm_fault` about the address space. -/
def vmFaultChecks (space : Addrspace) : VmM Unit := do
  assert .vmFaultSpace (space.asVbase1 ≠ 0)
  assert .vmFaultSpace (space.asPbase1 ≠ 0)
  assert .vmFaultSpace (space.asNpages1 ≠ 0)
  assert .vmFaultSpace (space.asVbase2 ≠ 0)
  assert .vmFaultSpace (space.asPbase2 ≠ 0)
  assert .vmFaultSpace (space.asNpages2 ≠ 0)
  assert .vmFaultSpace (space.asStackpbase ≠ 0)
  assert .vmFaultSpace (pageFrame space.asVbase1 = space.asVbase1)
  assert .vmFaultSpace (pageFrame space.asPbase1 = space.asPbase1)
  assert .vmFaultSpace (pageFrame space.asVbase2 = space.asVbase2)
  assert .vmFaultSpace (pageFrame space.asPbase2 = space.asPbase2)
  assert .vmFaultSpace (pageFrame space.asStackpbase = space.asStackpbase)

/-- The region lookup of `vm_fault`. -/
def vmFaultLookup (space : Addrspace) (faultaddress : Nat) : Option Nat :=
  let vbase1 := space.asVbase1
  let vtop1 := uint32 (vbase1 + space.asNpages1 * pageSize)
  let vbase2 := space.asVbase2
  let vtop2 := uint32 (vbase2 + space.asNpages2 * pageSize)
  let stackbase := userStack - dumbvmStackpages * pageSize
  let stacktop := userStack
  if vbase1 ≤ faultaddress ∧ faultaddress < vtop1 then
    some (uint32 (faultaddress - vbase1 + space.asPbase1))
  else if vbase2 ≤ faultaddress ∧ faultaddress < vtop2 then
    some (uint32 (faultaddress - vbase2 + space.asPbase2))
  else if stackbase ≤ faultaddress ∧ faultaddress < stacktop then
    some (uint32 (faultaddress - stackbase + space.asStackpbase))
  else
    none

/-- The end of `vm_fault`: the mapping goes to the first entry of the TLB that is not valid. -/
def vmFaultInstall (faultaddress paddr : Nat) : VmM Unit := do
  let vm ← get
  match (List.range numTlb).find? (fun i => (vm.tlb i).elo &&& tlbloValid = 0) with
  | some i =>
      let entry := { ehi := faultaddress, elo := paddr ||| tlbloDirty ||| tlbloValid }
      modify fun vm => { vm with tlb := Function.update vm.tlb i entry }
  | none => fail .efault

/-- The kinds of faults; `other` is any other value of `faulttype`. -/
inductive FaultType where
  | read
  | write
  | readonly
  | other
  deriving DecidableEq

/-- `vm_fault`; `as` is the address space of the current thread. -/
def vmFault (as : Option Nat) (faulttype : FaultType) (faultaddress : Nat) : VmM Unit :=
  let faultaddress := pageFrame faultaddress
  match faulttype with
  | .readonly => halt .vmFaultReadonly
  | .other => fail .einval
  | .read | .write =>
      match as with
      | none => fail .efault
      | some as => do
          let space ← deref as
          vmFaultChecks space
          match vmFaultLookup space faultaddress with
          | none => fail .efault
          | some paddr =>
              assert .vmFaultFrame (pageFrame paddr = paddr)
              vmFaultInstall faultaddress paddr

end Vm

end Os161
