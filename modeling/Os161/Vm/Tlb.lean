import Os161.Lib.Ownership
import Os161.Vm.Isolation

/-!
# The TLB over context switches

Threads with and without an address space take turns. `mi_switch`, where a thread comes
back, and `mi_threadstart`, where it begins, flush the TLB if the thread has an address
space; `runprogram` does it for the one it has made; `thread_exit` leaves the entries where
they are. Which thread runs next is left open.

Each of these is cut into the steps between which something else can happen: a switch, the
way back of the thread that was switched to, and the parts of `runprogram` and `load_elf`
that touch the address space. `owner` is a record of the address space for which each entry
was made.
-/

namespace Os161

/-- How far a thread is in `runprogram`. -/
inductive RunPhase where
  | kernel
  | created
  | defining
  | prepared
  deriving DecidableEq

/-- The region lookup of `vm_fault` cannot succeed yet. -/
def RunPhase.early : RunPhase → Bool
  | .created | .defining => true
  | .kernel | .prepared => false

structure TlbThread where
  tVmspace : Option Nat
  phase : RunPhase
  deriving DecidableEq

structure TlbSystem where
  vm : Vm
  threads : Nat → Option TlbThread
  nextThread : Nat
  cur : Nat
  /-- The current thread is past `as_activate`. -/
  past : Bool
  owner : Nat → Option Nat

abbrev TlbSystemM := Prog Panic TlbSystem Errno

/-- `elo & TLBLO_VALID`. -/
def TlbEntry.Valid (entry : TlbEntry) : Prop :=
  entry.elo &&& tlbloValid ≠ 0

instance TlbEntry.decidableValid (entry : TlbEntry) : Decidable entry.Valid :=
  inferInstanceAs (Decidable (_ ≠ _))

namespace TlbSystem

def onVm {α : Type} (program : VmM α) : TlbSystemM α :=
  zoom TlbSystem.vm (fun vm s => { s with vm }) program

def curthread : TlbSystemM TlbThread := do
  match (← get).threads (← get).cur with
  | some thread => pure thread
  | none => halt .threadPointer

def setThread (thread : Option TlbThread) (s : TlbSystem) : TlbSystem :=
  { s with threads := Function.update s.threads s.cur thread }

def switchTo (next : Nat) (s : TlbSystem) : TlbSystem :=
  { s with cur := next, past := false }

def setPast (past : Bool) (s : TlbSystem) : TlbSystem :=
  { s with past }

/-- `mi_switch`, up to `md_switch`. -/
def miSwitch (next : Nat) : TlbSystemM Unit :=
  modify (switchTo next)

/-- The end of `mi_switch`, and the beginning of `mi_threadstart`. -/
def activateCurrent : TlbSystemM Unit := do
  let thread ← curthread
  if thread.tVmspace.isSome then do
    onVm Vm.asActivate
    modify (setPast true)
  else
    modify (setPast true)

/-- `if (curthread->t_vmspace) as_destroy(curthread->t_vmspace)`. -/
def destroyUnlessNull : Option Nat → VmM Unit
  | none => pure ()
  | some as => Vm.asDestroy as

/-- `thread_exit`. -/
def threadExit (next : Nat) : TlbSystemM Unit := do
  let thread ← curthread
  modify (setThread none)
  onVm (destroyUnlessNull thread.tVmspace)
  miSwitch next

/-- The address space of the new thread in `thread_fork`; that `as_copy` failed is ignored. -/
def forkSpace : Option Nat → VmM (Option Nat)
  | none => pure none
  | some as => do
      match ← attempt (Vm.asCopy as) with
      | .ok new => pure (some new)
      | .error _ => pure none

def addThread (thread : TlbThread) (s : TlbSystem) : TlbSystem :=
  { s with
    threads := Function.update s.threads s.nextThread (some thread)
    nextThread := s.nextThread + 1 }

/-- `thread_fork`, as far as address spaces go; `fails` is whether an allocation fails after
the address space was copied. -/
def threadFork (fails : Bool) : TlbSystemM Unit := do
  let thread ← curthread
  let space ← onVm (forkSpace thread.tVmspace)
  if fails then
    fail .enomem
  else
    modify (addThread ⟨space, if space.isSome then .prepared else .kernel⟩)

/-- `runprogram`: `curthread->t_vmspace = as_create()`. -/
def runprogramCreate : TlbSystemM Unit := do
  let thread ← curthread
  assert .runprogramSpace (thread.tVmspace = none)
  match ← onVm Vm.asCreate with
  | none => fail .enomem
  | some as => do
      modify (setThread (some ⟨some as, .created⟩))
      modify (setPast false)

/-- `runprogram`: `as_activate(curthread->t_vmspace)`. -/
def runprogramActivate : TlbSystemM Unit := do
  let thread ← curthread
  onVm Vm.asActivate
  modify (setThread (some { thread with phase := .defining }))
  modify (setPast true)

/-- `load_elf`: a call of `as_define_region`. -/
def loadDefine (vaddr sz : Nat) : TlbSystemM Unit := do
  let thread ← curthread
  match thread.tVmspace with
  | none => halt .spacePointer
  | some as => onVm (Vm.asDefineRegion as vaddr sz)

/-- `load_elf`: the call of `as_prepare_load`. -/
def loadPrepare : TlbSystemM Unit := do
  let thread ← curthread
  modify (setThread (some { thread with phase := .prepared }))
  match thread.tVmspace with
  | none => halt .spacePointer
  | some as => onVm (Vm.asPrepareLoad as)

/-- The entries that changed belong to the address space. -/
def recordOwner (before : Nat → TlbEntry) (as : Option Nat) (s : TlbSystem) : TlbSystem :=
  { s with owner := fun i => if s.vm.tlb i = before i then s.owner i else as }

/-- `vm_fault`. -/
def fault (faulttype : Vm.FaultType) (faultaddress : Nat) : TlbSystemM Unit := do
  let thread ← curthread
  let before ← get
  onVm (Vm.vmFault thread.tVmspace faulttype faultaddress)
  modify (recordOwner before.vm.tlb thread.tVmspace)

end TlbSystem

inductive TlbOp where
  | switch (next : Nat)
  | resume
  | exit (next : Nat)
  | fork (fails : Bool)
  | create
  | activate
  | define (vaddr sz : Nat)
  | prepare
  | fault (faulttype : Vm.FaultType) (faultaddress : Nat)

namespace TlbSystem

def exec : TlbOp → TlbSystemM Unit
  | .switch next => miSwitch next
  | .resume => activateCurrent
  | .exit next => threadExit next
  | .fork fails => threadFork fails
  | .create => runprogramCreate
  | .activate => runprogramActivate
  | .define vaddr sz => loadDefine vaddr sz
  | .prepare => loadPrepare
  | .fault faulttype faultaddress => fault faulttype faultaddress

def InPhase (s : TlbSystem) (phase : RunPhase) : Prop :=
  (s.threads s.cur).map TlbThread.phase = some phase

def Unmapped (s : TlbSystem) (page : Nat) : Prop :=
  ∀ i < numTlb, (s.vm.tlb i).Valid → (s.vm.tlb i).ehi ≠ page

/-- The order of the steps of `runprogram`, and the hardware: a fault is only raised for a page
that no valid entry matches. -/
def Enabled : TlbOp → TlbSystem → Prop
  | .switch next, s => (s.threads next).isSome
  | .resume, _ => True
  | .exit next, s => next ≠ s.cur ∧ (s.threads next).isSome
  | .fork _, _ => True
  | .create, s => s.InPhase .kernel
  | .activate, s => s.InPhase .created
  | .define _ _, s => s.InPhase .defining
  | .prepare, s => s.InPhase .defining
  | .fault _ faultaddress, s => s.Unmapped (pageFrame faultaddress)

/-- After boot: one thread of the kernel, no address space, and anything in the TLB. -/
structure Booted (s : TlbSystem) : Prop where
  threads : s.threads = Function.update (fun _ => none) 0 (some ⟨none, .kernel⟩)
  nextThread : s.nextThread = 1
  cur : s.cur = 0
  spaces : s.vm.spaces = fun _ => none

/-- Any run; before each step the answers of `kmalloc` are chosen, and what other code has left
of the physical memory. -/
def machine : Machine Panic TlbSystem Errno TlbOp (KHeap × Ram) where
  exec := exec
  Enabled := Enabled
  arm := fun s choice => { s with vm := { s.vm with heap := choice.1, ram := choice.2 } }

end TlbSystem

/-! ## What the operations on address spaces do to the others -/

namespace Vm

attribute [local irreducible] getppages

variable {vm vm' : Vm} {as : Nat}

/-- The TLB and all address spaces there were are as before. -/
structure Extends (vm vm' : Vm) : Prop where
  tlb : vm'.tlb = vm.tlb
  nextSpace : vm.nextSpace ≤ vm'.nextSpace
  spaces : ∀ as < vm.nextSpace, vm'.spaces as = vm.spaces as

/-- The TLB and all address spaces but one are as before. -/
structure Changes (as : Nat) (vm vm' : Vm) : Prop where
  tlb : vm'.tlb = vm.tlb
  nextSpace : vm'.nextSpace = vm.nextSpace
  spaces : ∀ other, other ≠ as → vm'.spaces other = vm.spaces other
  present : (vm.spaces as).isSome → (vm'.spaces as).isSome

theorem Changes.refl (as : Nat) (vm : Vm) : Changes as vm vm :=
  ⟨rfl, rfl, fun _ _ => rfl, id⟩

theorem Changes.trans {vm'' : Vm} (first : Changes as vm vm') (second : Changes as vm' vm'') :
    Changes as vm vm'' :=
  ⟨second.tlb.trans first.tlb, second.nextSpace.trans first.nextSpace,
    fun other different => (second.spaces other different).trans (first.spaces other different),
    fun held => second.present (first.present held)⟩

theorem changes_setSpace (as : Nat) (space : Addrspace) (vm : Vm) :
    Changes as vm (vm.setSpace as (some space)) := by
  refine ⟨rfl, rfl, fun _ different => update_of_ne different _ _, ?_⟩
  simp [setSpace]

theorem Changes.takePages {vm₀ : Vm} (changed : Changes as vm₀ vm) (npages : Nat) :
    Ensures (onRam (getppages npages)) vm (fun _ => True) (fun _ => Changes as vm₀)
      (fun _ => Changes as vm₀) := by
  rw [onRam, ensures_zoom]
  apply Prog.ensures_of_forall (fun _ => trivial)
  · intro _ ram
    exact changed.trans ⟨rfl, rfl, fun _ _ => rfl, id⟩
  · intro _ ram
    exact changed.trans ⟨rfl, rfl, fun _ _ => rfl, id⟩

theorem asPrepareLoad_changes (as : Nat) (vm : Vm) :
    Ensures (asPrepareLoad as) vm (fun _ => True) (fun _ => Changes as vm)
      (fun _ => Changes as vm) := by
  rw [asPrepareLoad, ensures_bind, ensures_deref]
  cases vm.spaces as with
  | none => trivial
  | some space =>
      refine ensures_assert_then (fun _ => trivial) fun _ => ?_
      refine ensures_assert_then (fun _ => trivial) fun _ => ?_
      refine ensures_assert_then (fun _ => trivial) fun _ => ?_
      rw [ensures_bind]
      apply ((Changes.refl as vm).takePages space.asNpages1).imp
      intro pbase1 vm₁ changed
      have changed := changed.trans (changes_setSpace as { space with asPbase1 := pbase1 } vm₁)
      rw [ensures_bind]
      refine ensures_branch (fun _ => changed) fun _ => ?_
      rw [ensures_bind]
      apply (changed.takePages space.asNpages2).imp
      intro pbase2 vm₂ changed
      have changed := changed.trans
        (changes_setSpace as { space with asPbase1 := pbase1, asPbase2 := pbase2 } vm₂)
      rw [ensures_bind]
      refine ensures_branch (fun _ => changed) fun _ => ?_
      rw [ensures_bind]
      apply (changed.takePages dumbvmStackpages).imp
      intro stackpbase vm₃ changed
      have changed := changed.trans (changes_setSpace as
        { space with asPbase1 := pbase1, asPbase2 := pbase2, asStackpbase := stackpbase } vm₃)
      rw [ensures_bind]
      exact ensures_branch (fun _ => changed) fun _ => changed

theorem asDefineRegion_changes (vaddr sz : Nat) {space : Addrspace}
    (held : vm.spaces as = some space) :
    Ensures (asDefineRegion as vaddr sz) vm (fun _ => True) (fun _ vm' => vm' = vm)
      (fun _ vm' => Changes as vm vm' ∧ ∃ space', vm'.spaces as = some space' ∧
        space'.asPbase1 = space.asPbase1) := by
  rw [asDefineRegion, ensures_bind, ensures_deref_of held]
  refine ensures_branch (fun _ => ?_) fun _ => ensures_branch (fun _ => ?_) fun _ => rfl
  · exact ⟨changes_setSpace as _ vm, _, update_self _ _ _, rfl⟩
  · exact ⟨changes_setSpace as _ vm, _, update_self _ _ _, rfl⟩

theorem asCreate_extends (vm : Vm) :
    Ensures asCreate vm (fun _ => True) (fun _ => Extends vm)
      (fun result vm' => Extends vm vm' ∧ ∀ as ∈ result, as = vm.nextSpace ∧
        vm'.nextSpace = vm.nextSpace + 1 ∧ vm'.spaces as = some ⟨0, 0, 0, 0, 0, 0, 0⟩) := by
  rw [asCreate, ensures_bind, onHeap, ensures_zoom, ensures_kmalloc]
  refine ensures_branch (fun _ => ?_) fun _ => ?_
  · refine ⟨⟨rfl, Nat.le_succ _, ?_⟩, ?_⟩
    · intro as below
      exact update_of_ne (Nat.ne_of_lt below) _ _
    · rintro as ⟨⟩
      exact ⟨rfl, rfl, update_self _ _ _⟩
  · refine ⟨⟨rfl, le_refl _, fun _ _ => rfl⟩, ?_⟩
    intro as mem
    cases mem

/-- What happens to the new address space leaves the others as they are. -/
theorem Extends.changes {vm'' : Vm} (extended : Extends vm vm') (new : vm.nextSpace ≤ as)
    (changed : Changes as vm' vm'') : Extends vm vm'' := by
  refine ⟨changed.tlb.trans extended.tlb, ?_, ?_⟩
  · rw [changed.nextSpace]
    exact extended.nextSpace
  · intro other below
    rw [changed.spaces other (by omega), extended.spaces other below]

theorem asCopyPages_changes (old new : Nat) (vm : Vm) :
    Ensures (asCopyPages old new) vm (fun _ => True) (fun _ => Changes new vm)
      (fun _ => Changes new vm) := by
  rw [asCopyPages, ensures_bind, ensures_deref]
  cases vm.spaces old with
  | none => trivial
  | some source =>
      simp only
      rw [ensures_bind, ensures_deref]
      cases vm.spaces new with
      | none => trivial
      | some copy =>
          refine ensures_assert_then (fun _ => trivial) fun _ => ?_
          refine ensures_assert_then (fun _ => trivial) fun _ => ?_
          refine ensures_assert_then (fun _ => trivial) fun _ => ?_
          exact ⟨rfl, rfl, fun _ _ => rfl, id⟩

/-- `as_copy` makes one new address space, or none. -/
theorem asCopy_extends (old : Nat) (vm : Vm) :
    Ensures (asCopy old) vm (fun _ => True) (fun _ => Extends vm)
      (fun new vm' => Extends vm vm' ∧ vm.nextSpace ≤ new ∧ new < vm'.nextSpace ∧
        (vm'.spaces new).isSome) := by
  rw [asCopy, ensures_bind]
  apply (asCreate_extends vm).imp
  rintro result vm₁ ⟨extended, created⟩
  cases result with
  | none => exact extended
  | some new =>
      rcases created new rfl with ⟨rfl, next, held⟩
      have new := Nat.le_refl vm.nextSpace
      rw [ensures_bind, ensures_deref]
      cases vm₁.spaces old with
      | none => trivial
      | some source =>
          simp only
          rw [ensures_bind, ensures_deref_of held, ensures_bind, ensures_store,
            ensures_bind, ensures_attempt]
          generalize named : vm₁.setSpace vm.nextSpace _ = vm₂
          have stored : Changes vm.nextSpace vm₁ vm₂ := by
            rw [← named]
            exact changes_setSpace vm.nextSpace _ vm₁
          apply (asPrepareLoad_changes vm.nextSpace vm₂).mono (fun _ _ => trivial)
          · intro failure vm₃ changed
            have changed := stored.trans changed
            refine ⟨changed.tlb.trans extended.tlb, ?_, ?_⟩
            · exact (extended.changes new changed).nextSpace
            · intro other below
              rw [← (extended.changes new changed).spaces other below]
              exact update_of_ne (Nat.ne_of_lt below) _ _
          · intro _ vm₃ changed
            have changed := stored.trans changed
            rw [ensures_bind]
            apply (asCopyPages_changes old vm.nextSpace vm₃).mono (fun _ _ => trivial)
            · intro _ vm₄ copied
              exact extended.changes new (changed.trans copied)
            · intro _ vm₄ copied
              have changed := changed.trans copied
              refine ⟨extended.changes new changed, new, ?_, changed.present (by simp [held])⟩
              rw [changed.nextSpace, next]
              exact Nat.lt_succ_self _

end Vm

/-! ## The invariant -/

namespace Vm

variable {vm vm' : Vm} {as : Nat} {owner : Nat → Option Nat}

/-- Every valid entry was made for the address space and maps a page to its frame, and no two
map the same page. -/
structure TlbOf (vm : Vm) (owner : Nat → Option Nat) (as : Nat) : Prop where
  mapped : ∀ i < numTlb, (vm.tlb i).Valid → owner i = some as ∧
    pageFrame (vm.tlb i).ehi = (vm.tlb i).ehi ∧
    vm.mapping as (vm.tlb i).ehi = some (pageFrame (vm.tlb i).elo)
  distinct : ∀ i < numTlb, ∀ j < numTlb, (vm.tlb i).Valid → (vm.tlb j).Valid →
    (vm.tlb i).ehi = (vm.tlb j).ehi → i = j

theorem tlbOf_of_invalid (invalid : ∀ i < numTlb, ¬(vm.tlb i).Valid) : TlbOf vm owner as :=
  ⟨fun i inside valid => absurd valid (invalid i inside),
    fun i inside _ _ valid => absurd valid (invalid i inside)⟩

theorem flush_invalid (i : Nat) (inside : i < numTlb) : ¬(vm.flush.tlb i).Valid := by
  simp [flush, inside, TlbEntry.Valid]

theorem flush_tlbOf (owner : Nat → Option Nat) (as : Nat) : TlbOf vm.flush owner as :=
  tlbOf_of_invalid flush_invalid

theorem mapping_congr (space : vm'.spaces as = vm.spaces as) (page : Nat) :
    vm'.mapping as page = vm.mapping as page := by
  simp only [mapping, space]

theorem TlbOf.congr (consistent : TlbOf vm owner as) (tlb : vm'.tlb = vm.tlb)
    (space : vm'.spaces as = vm.spaces as) : TlbOf vm' owner as := by
  refine ⟨?_, ?_⟩
  · intro i inside
    rw [tlb, mapping_congr space]
    exact consistent.mapped i inside
  · intro i inside j inside'
    rw [tlb]
    exact consistent.distinct i inside j inside'

theorem TlbOf.invalid (consistent : TlbOf vm owner as) {space : Addrspace}
    (held : vm.spaces as = some space) (early : space.asPbase1 = 0) :
    ∀ i < numTlb, ¬(vm.tlb i).Valid := by
  intro i inside valid
  have mapped := (consistent.mapped i inside valid).2.2
  simp only [mapping, held] at mapped
  split at mapped
  · rename_i ready
    exact ready.1.2.1 early
  · cases mapped

theorem pageFrame_entry {frame : Nat} (whole : pageFrame frame = frame) :
    pageFrame (frame ||| tlbloDirty ||| tlbloValid) = frame ∧
      (frame ||| tlbloDirty ||| tlbloValid) &&& tlbloValid ≠ 0 := by
  rcases Nat.dvd_of_mod_eq_zero (Addrspace.pageFrame_eq_iff.mp whole) with ⟨page, rfl⟩
  have flags : pageSize * page ||| tlbloDirty ||| tlbloValid = pageSize * page + 0x600 := by
    rw [Nat.or_assoc]
    exact (Nat.two_pow_add_eq_or_of_lt (i := 12) (by decide) page).symm
  refine ⟨?_, ?_⟩
  · rw [flags, pageFrame, Nat.mul_add_div (by decide), Nat.mul_comm]
    rfl
  · rw [Nat.and_or_distrib_right, Nat.and_self, Ne, Nat.or_eq_zero_iff]
    exact fun zero => absurd zero.2 (by decide)

theorem vmFault_installs (space : Option Nat) (faulttype : FaultType) (faultaddress : Nat) :
    Ensures (vmFault space faulttype faultaddress) vm (fun _ => True) (fun _ vm' => vm' = vm)
      (fun _ vm' => ∃ as i frame, space = some as ∧ i < numTlb ∧ ¬(vm.tlb i).Valid ∧
        pageFrame frame = frame ∧ vm.mapping as (pageFrame faultaddress) = some frame ∧
        vm' = vm.install i (pageFrame faultaddress) frame) := by
  have access : Ensures (vmFault space .read faultaddress) vm (fun _ => True)
      (fun _ vm' => vm' = vm)
      (fun _ vm' => ∃ as i frame, space = some as ∧ i < numTlb ∧ ¬(vm.tlb i).Valid ∧
        pageFrame frame = frame ∧ vm.mapping as (pageFrame faultaddress) = some frame ∧
        vm' = vm.install i (pageFrame faultaddress) frame) := by
    cases space with
    | none => rfl
    | some as =>
        simp only [vmFault, ensures_bind]
        rw [ensures_deref]
        cases held : vm.spaces as with
        | none => trivial
        | some space =>
            apply vmFaultChecks_spec.mono (fun _ _ => trivial) (fun _ _ failed => failed)
            rintro _ vm' ⟨rfl, ready⟩
            cases found : vmFaultLookup space (pageFrame faultaddress) with
            | none => rfl
            | some frame =>
                refine ensures_assert_then (fun _ => trivial) fun whole => ?_
                apply vmFaultInstall_spec.imp
                rintro _ vm'' ⟨i, inside, invalid, rfl⟩
                refine ⟨as, i, frame, rfl, inside, not_not.mpr invalid, whole, ?_, rfl⟩
                simp only [mapping, held, if_pos ready, found]
  cases faulttype with
  | read => exact access
  | write => exact access
  | readonly => trivial
  | other => rfl

theorem TlbOf.install (consistent : TlbOf vm owner as) {i page frame : Nat}
    (inside : i < numTlb) (invalid : ¬(vm.tlb i).Valid) (whole : pageFrame frame = frame)
    (wholePage : pageFrame page = page) (mapped : vm.mapping as page = some frame)
    (unmapped : ∀ j < numTlb, (vm.tlb j).Valid → (vm.tlb j).ehi ≠ page) :
    TlbOf (vm.install i page frame)
      (fun j => if (vm.install i page frame).tlb j = vm.tlb j then owner j else some as) as := by
  rcases pageFrame_entry whole with ⟨frameOf, valid⟩
  have entry : (vm.install i page frame).tlb i =
      ⟨page, frame ||| tlbloDirty ||| tlbloValid⟩ := update_self _ _ _
  have others : ∀ j, j ≠ i → (vm.install i page frame).tlb j = vm.tlb j :=
    fun j different => update_of_ne different _ _
  have mapping : ∀ page', (vm.install i page frame).mapping as page' = vm.mapping as page' :=
    fun page' => mapping_congr rfl page'
  refine ⟨?_, ?_⟩
  · intro j insideTlb valid'
    by_cases same : j = i
    · subst same
      have changed : (vm.install j page frame).tlb j ≠ vm.tlb j := by
        intro unchanged
        rw [unchanged] at valid'
        exact invalid valid'
      rw [if_neg changed, entry, mapping, frameOf]
      exact ⟨rfl, wholePage, mapped⟩
    · rw [if_pos (others j same), others j same, mapping]
      rw [others j same] at valid'
      exact consistent.mapped j insideTlb valid'
  · intro j insideTlb k insideTlb' valid' valid'' same
    by_cases first : j = i
    · by_cases second : k = i
      · rw [first, second]
      · subst first
        rw [others k second] at valid'' same
        rw [entry] at same
        exact absurd same.symm (unmapped k insideTlb' valid'')
    · by_cases second : k = i
      · subst second
        rw [others j first] at valid' same
        rw [entry] at same
        exact absurd same (unmapped j insideTlb valid')
      · rw [others j first] at valid' same
        rw [others k second] at valid'' same
        exact consistent.distinct j insideTlb k insideTlb' valid' valid'' same

end Vm

namespace TlbSystem

variable {s : TlbSystem} {thread : TlbThread}

def space (s : TlbSystem) (t : Nat) : Option Nat :=
  (s.threads t).bind TlbThread.tVmspace

structure Okay (s : TlbSystem) : Prop where
  held : ∀ t thread as, s.threads t = some thread → thread.tVmspace = some as →
    as < s.vm.nextSpace ∧ ∃ space, s.vm.spaces as = some space ∧
      (thread.phase.early → space.asPbase1 = 0)
  exclusive : Ownership.Exclusive s.space
  live : ∀ t, (s.threads t).isSome → t < s.nextThread
  tlb : s.past = true → ∀ as, s.space s.cur = some as → s.vm.TlbOf s.owner as

theorem Booted.okay (booted : s.Booted) : Okay s := by
  have alone : ∀ t thread, s.threads t = some thread → t = 0 ∧ thread = ⟨none, .kernel⟩ := by
    intro t thread present
    rw [booted.threads] at present
    by_cases first : t = 0
    · rw [first, update_self] at present
      exact ⟨first, (Option.some.inj present).symm⟩
    · rw [update_of_ne first] at present
      cases present
  have spaceless : ∀ t, s.space t = none := by
    intro t
    cases present : s.threads t with
    | none => simp [space, present]
    | some thread => simp [space, present, (alone t thread present).2]
  refine ⟨?_, ?_, ?_, ?_⟩
  · intro t thread as present has
    rw [(alone t thread present).2] at has
    cases has
  · intro t t' as has
    rw [spaceless t] at has
    cases has
  · intro t present
    rcases isSome_iff_exists.mp present with ⟨thread, present⟩
    rw [(alone t thread present).1, booted.nextThread]
    exact Nat.one_pos
  · intro _ as has
    rw [spaceless s.cur] at has
    cases has

theorem ensures_curthread {α : Type} {next : TlbThread → TlbSystemM α}
    {fails : Errno → TlbSystem → Prop} {returns : α → TlbSystem → Prop}
    (rest : ∀ thread, s.threads s.cur = some thread →
      Ensures (next thread) s (fun _ => True) fails returns) :
    Ensures (curthread >>= next) s (fun _ => True) fails returns := by
  simp only [curthread, ensures_bind, ensures_get]
  cases current : s.threads s.cur with
  | none => trivial
  | some thread => exact rest thread current

theorem Okay.miSwitch (okay : Okay s) (next : Nat) :
    Ensures (miSwitch next) s (fun _ => True) (fun _ => Okay) (fun _ => Okay) :=
  ⟨okay.held, okay.exclusive, okay.live, fun past => nomatch past⟩

theorem Okay.activateCurrent (okay : Okay s) :
    Ensures activateCurrent s (fun _ => True) (fun _ => Okay) (fun _ => Okay) := by
  apply ensures_curthread
  intro thread current
  refine ensures_branch (fun _ => ?_) fun spaceless => ?_
  · rw [ensures_bind, onVm, ensures_zoom]
    refine ⟨okay.held, okay.exclusive, okay.live, ?_⟩
    intro _ as _
    exact Vm.flush_tlbOf s.owner as
  · refine ⟨okay.held, okay.exclusive, okay.live, ?_⟩
    intro _ as has
    have none : s.space s.cur = none := by
      simpa [space, current] using spaceless
    cases none.symm.trans has

theorem space_setThread (thread : Option TlbThread) :
    (setThread thread s).space =
      Function.update s.space s.cur (thread.bind TlbThread.tVmspace) := by
  funext t
  by_cases same : t = s.cur
  · simp [space, setThread, same]
  · simp [space, setThread, update_of_ne same]

theorem Okay.threadExit (okay : Okay s) (next : Nat) :
    Ensures (threadExit next) s (fun _ => True) (fun _ => Okay) (fun _ => Okay) := by
  apply ensures_curthread
  intro thread current
  have exclusive : Ownership.Exclusive (setThread none s).space := by
    rw [space_setThread]
    exact okay.exclusive.drop s.cur
  have live : ∀ t, ((setThread none s).threads t).isSome → t < s.nextThread := by
    intro t present
    apply okay.live
    by_cases same : t = s.cur
    · simp [setThread, same] at present
    · simpa [setThread, update_of_ne same] using present
  -- no other thread has the address space that is destroyed
  have held : ∀ t thread' as, (setThread none s).threads t = some thread' →
      thread'.tVmspace = some as → thread.tVmspace ≠ some as ∧ s.threads t = some thread' := by
    intro t thread' as present has
    by_cases same : t = s.cur
    · simp [setThread, same] at present
    · have present : s.threads t = some thread' := by
        simpa [setThread, update_of_ne same] using present
      refine ⟨?_, present⟩
      intro shared
      have theirs : s.space t = some as := by
        simp [space, present, has]
      have mine : s.space s.cur = some as := by
        simp [space, current, shared]
      exact same (okay.exclusive theirs mine)
  rw [ensures_bind, ensures_modify, ensures_bind, onVm, ensures_zoom]
  cases destroyed : thread.tVmspace with
  | none =>
      refine ⟨?_, exclusive, live, fun past => nomatch past⟩
      intro t thread' as present has
      exact okay.held t thread' as (held t thread' as present has).2 has
  | some gone =>
      refine ⟨?_, exclusive, live, fun past => nomatch past⟩
      intro t thread' as present has
      rcases held t thread' as present has with ⟨different, present⟩
      rcases okay.held t thread' as present has with ⟨below, space, there, early⟩
      refine ⟨below, space, ?_, early⟩
      rw [destroyed] at different
      have apart : as ≠ gone := fun same => different (by rw [same])
      exact (update_of_ne apart _ _).trans there

theorem Okay.below (okay : Okay s) {t as : Nat} (has : s.space t = some as) :
    as < s.vm.nextSpace := by
  rcases bind_eq_some_iff.mp has with ⟨thread, present, has⟩
  exact (okay.held t thread as present has).1

theorem Okay.of_extends (okay : Okay s) {vm : Vm} (extended : s.vm.Extends vm) :
    Okay { s with vm } := by
  refine ⟨?_, okay.exclusive, okay.live, ?_⟩
  · intro t thread as present has
    rcases okay.held t thread as present has with ⟨below, space, there, early⟩
    refine ⟨lt_of_lt_of_le below extended.nextSpace, space, ?_, early⟩
    rw [extended.spaces as below]
    exact there
  · intro past as has
    exact (okay.tlb past as has).congr extended.tlb (extended.spaces as (okay.below has))

theorem Okay.addThread (okay : Okay s) (current : (s.threads s.cur).isSome)
    (new : ∀ as, thread.tVmspace = some as →
      as < s.vm.nextSpace ∧ Ownership.Unheld s.space as ∧ (s.vm.spaces as).isSome)
    (late : thread.phase.early = false) : Okay (addThread thread s) := by
  have others : ∀ t, t ≠ s.nextThread →
      (TlbSystem.addThread thread s).threads t = s.threads t :=
    fun t different => update_of_ne different _ _
  have spaces : (TlbSystem.addThread thread s).space =
      Function.update s.space s.nextThread thread.tVmspace := by
    funext t
    by_cases same : t = s.nextThread
    · simp [space, TlbSystem.addThread, same]
    · simp [space, TlbSystem.addThread, update_of_ne same]
  refine ⟨?_, ?_, ?_, ?_⟩
  · intro t thread' as present has
    by_cases same : t = s.nextThread
    · simp only [TlbSystem.addThread, same, update_self, Option.some.injEq] at present
      subst present
      rcases new as has with ⟨below, _, there⟩
      rcases isSome_iff_exists.mp there with ⟨space, there⟩
      refine ⟨below, space, there, ?_⟩
      intro early
      rw [late] at early
      cases early
    · rw [others t same] at present
      exact okay.held t thread' as present has
  · rw [spaces]
    cases has : thread.tVmspace with
    | none => exact okay.exclusive.drop s.nextThread
    | some as => exact okay.exclusive.give (new as has).2.1 s.nextThread
  · intro t present
    change t < s.nextThread + 1
    by_cases same : t = s.nextThread
    · omega
    · rw [others t same] at present
      have below := okay.live t present
      omega
  · intro past as has
    apply okay.tlb past
    have different : s.cur ≠ s.nextThread := Nat.ne_of_lt (okay.live s.cur current)
    rw [spaces] at has
    exact (update_of_ne different _ _).symm.trans has

theorem forkSpace_extends (parent : Option Nat) (vm : Vm) :
    Ensures (forkSpace parent) vm (fun _ => True) (fun _ => vm.Extends)
      (fun result vm' => vm.Extends vm' ∧ ∀ as, result = some as →
        vm.nextSpace ≤ as ∧ as < vm'.nextSpace ∧ (vm'.spaces as).isSome) := by
  cases parent with
  | none => exact ⟨⟨rfl, le_refl _, fun _ _ => rfl⟩, fun as has => nomatch has⟩
  | some old =>
      rw [forkSpace, ensures_bind, ensures_attempt]
      apply (Vm.asCopy_extends old vm).mono (fun _ _ => trivial)
      · intro _ vm' extended
        exact ⟨extended, fun as has => nomatch has⟩
      · rintro new vm' ⟨extended, fresh⟩
        refine ⟨extended, ?_⟩
        rintro as ⟨⟩
        exact fresh

theorem Okay.threadFork (okay : Okay s) (fails : Bool) :
    Ensures (threadFork fails) s (fun _ => True) (fun _ => Okay) (fun _ => Okay) := by
  apply ensures_curthread
  intro thread current
  rw [ensures_bind, onVm, ensures_zoom]
  apply (forkSpace_extends thread.tVmspace s.vm).mono (fun _ _ => trivial)
  · intro _ vm extended
    exact okay.of_extends extended
  · rintro child vm ⟨extended, fresh⟩
    have okay' := okay.of_extends extended
    refine ensures_branch (fun _ => okay') fun _ => ?_
    apply okay'.addThread
    · rw [current]
      rfl
    · intro as has
      rcases fresh as has with ⟨above, below, there⟩
      refine ⟨below, ?_, there⟩
      intro t taken
      have old : as < s.vm.nextSpace := okay.below taken
      omega
    · cases child <;> rfl

theorem Okay.setPast (okay : Okay s) : Okay (setPast false s) :=
  ⟨okay.held, okay.exclusive, okay.live, fun past => nomatch past⟩

theorem Okay.setThread (okay : Okay s) (current : (s.threads s.cur).isSome)
    (held : ∀ as, thread.tVmspace = some as → as < s.vm.nextSpace ∧
      ∃ space, s.vm.spaces as = some space ∧ (thread.phase.early → space.asPbase1 = 0))
    (exclusive : Ownership.Exclusive (Function.update s.space s.cur thread.tVmspace))
    (tlb : s.past = true → ∀ as, thread.tVmspace = some as → s.vm.TlbOf s.owner as) :
    Okay (setThread (some thread) s) := by
  refine ⟨?_, ?_, ?_, ?_⟩
  · intro t thread' as present has
    by_cases same : t = s.cur
    · simp only [TlbSystem.setThread, same, update_self, Option.some.injEq] at present
      subst present
      exact held as has
    · simp only [TlbSystem.setThread, update_of_ne same] at present
      exact okay.held t thread' as present has
  · rw [space_setThread]
    exact exclusive
  · intro t present
    apply okay.live
    by_cases same : t = s.cur
    · rw [same]
      exact current
    · simpa only [TlbSystem.setThread, update_of_ne same] using present
  · intro past as has
    rw [space_setThread] at has
    change Function.update s.space s.cur thread.tVmspace s.cur = some as at has
    rw [update_self] at has
    exact tlb past as has

theorem Okay.setPhase (okay : Okay s) (current : s.threads s.cur = some thread) {phase : RunPhase}
    (early : phase.early → thread.phase.early) :
    Okay (TlbSystem.setThread (some { thread with phase }) s) := by
  have has : s.space s.cur = thread.tVmspace := by
    simp [space, current]
  apply okay.setThread
  · simp [current]
  · intro as taken
    rcases okay.held s.cur thread as current taken with ⟨below, space, there, early'⟩
    exact ⟨below, space, there, fun is => early' (early is)⟩
  · rw [← has, update_eq_self]
    exact okay.exclusive
  · intro past as taken
    exact okay.tlb past as (has.trans taken)

theorem Okay.runprogramCreate (okay : Okay s) :
    Ensures runprogramCreate s (fun _ => True) (fun _ => Okay) (fun _ => Okay) := by
  apply ensures_curthread
  intro thread current
  refine ensures_assert_then (fun _ => trivial) fun spaceless => ?_
  rw [ensures_bind, onVm, ensures_zoom]
  apply (Vm.asCreate_extends s.vm).mono (fun _ _ => trivial)
  · intro _ vm extended
    exact okay.of_extends extended
  · rintro created vm ⟨extended, fresh⟩
    have okay' := okay.of_extends extended
    cases created with
    | none => exact okay'
    | some as =>
        rcases fresh as rfl with ⟨rfl, next, there⟩
        have switched := okay'.setPast
        apply switched.setThread
        · simp [TlbSystem.setPast, current]
        · rintro as ⟨⟩
          refine ⟨?_, _, there, fun _ => rfl⟩
          change s.vm.nextSpace < vm.nextSpace
          omega
        · apply switched.exclusive.give
          intro t taken
          exact absurd (okay.below taken) (lt_irrefl _)
        · exact fun past => nomatch past

theorem Okay.runprogramActivate (okay : Okay s) (phase : s.InPhase .created) :
    Ensures runprogramActivate s (fun _ => True) (fun _ => Okay) (fun _ => Okay) := by
  apply ensures_curthread
  intro thread current
  have created : thread.phase = .created := by
    simpa [InPhase, current] using phase
  rw [ensures_bind, onVm, ensures_zoom]
  have flushed : Okay { s with vm := s.vm.flush, past := true } :=
    ⟨okay.held, okay.exclusive, okay.live, fun _ as _ => Vm.flush_tlbOf s.owner as⟩
  exact flushed.setPhase current fun _ => by rw [created]; rfl

/-- The address space of the current thread is changed before it has pages. -/
theorem Okay.of_changes (okay : Okay s) (current : s.threads s.cur = some thread) {as : Nat}
    (has : thread.tVmspace = some as)
    (invalid : s.past = true → ∀ i < numTlb, ¬(s.vm.tlb i).Valid) {vm : Vm}
    (changed : s.vm.Changes as vm)
    (early : thread.phase.early → ∃ space, vm.spaces as = some space ∧ space.asPbase1 = 0) :
    Okay { s with vm } := by
  refine ⟨?_, okay.exclusive, okay.live, ?_⟩
  · intro t thread' as' (present : s.threads t = some thread') has'
    rcases okay.held t thread' as' present has' with ⟨below, space, there, early'⟩
    refine ⟨lt_of_lt_of_eq below changed.nextSpace.symm, ?_⟩
    by_cases same : as' = as
    · subst same
      have mine : s.space s.cur = some as' := by
        simp [TlbSystem.space, current, has]
      have theirs : s.space t = some as' := by
        simp [TlbSystem.space, present, has']
      have itself := okay.exclusive theirs mine
      subst itself
      cases Option.some.inj (current.symm.trans present)
      rcases isSome_iff_exists.mp (changed.present (by simp [there])) with ⟨space', there'⟩
      refine ⟨space', there', ?_⟩
      intro is
      rcases early is with ⟨space'', there'', zero⟩
      rw [Option.some.inj (there'.symm.trans there'')]
      exact zero
    · refine ⟨space, ?_, early'⟩
      rw [changed.spaces as' same]
      exact there
  · intro past as' _
    apply Vm.tlbOf_of_invalid
    intro i inside
    change ¬(vm.tlb i).Valid
    rw [changed.tlb]
    exact invalid past i inside

theorem Okay.invalid (okay : Okay s) (current : s.threads s.cur = some thread) {as : Nat}
    (has : thread.tVmspace = some as) (early : thread.phase.early) (past : s.past = true) :
    ∀ i < numTlb, ¬(s.vm.tlb i).Valid := by
  rcases okay.held s.cur thread as current has with ⟨_, space, there, zero⟩
  have mine : s.space s.cur = some as := by
    simp [TlbSystem.space, current, has]
  exact (okay.tlb past as mine).invalid there (zero early)

theorem Okay.loadDefine (okay : Okay s) (phase : s.InPhase .defining) (vaddr sz : Nat) :
    Ensures (loadDefine vaddr sz) s (fun _ => True) (fun _ => Okay) (fun _ => Okay) := by
  apply ensures_curthread
  intro thread current
  have early : thread.phase.early := by
    have defining : thread.phase = .defining := by
      simpa [InPhase, current] using phase
    rw [defining]
    rfl
  cases has : thread.tVmspace with
  | none => trivial
  | some as =>
      rcases okay.held s.cur thread as current has with ⟨_, space, there, zero⟩
      simp only [onVm, ensures_zoom]
      apply (Vm.asDefineRegion_changes vaddr sz there).mono (fun _ _ => trivial)
      · rintro _ vm rfl
        exact okay
      · rintro _ vm ⟨changed, space', there', same⟩
        apply okay.of_changes current has (okay.invalid current has early) changed
        intro _
        exact ⟨space', there', same.trans (zero early)⟩

theorem Okay.loadPrepare (okay : Okay s) (phase : s.InPhase .defining) :
    Ensures loadPrepare s (fun _ => True) (fun _ => Okay) (fun _ => Okay) := by
  apply ensures_curthread
  intro thread current
  have early : thread.phase.early := by
    have defining : thread.phase = .defining := by
      simpa [InPhase, current] using phase
    rw [defining]
    rfl
  rw [ensures_bind, ensures_modify]
  cases has : thread.tVmspace with
  | none => trivial
  | some as =>
      have prepared : Okay (TlbSystem.setThread (some { thread with phase := .prepared }) s) :=
        okay.setPhase current (fun is => nomatch is)
      have current' : (TlbSystem.setThread (some ⟨some as, .prepared⟩) s).threads s.cur =
          some ⟨some as, .prepared⟩ := update_self _ _ _
      rw [has] at prepared
      have changes : ∀ vm, s.vm.Changes as vm →
          Okay { TlbSystem.setThread (some ⟨some as, .prepared⟩) s with vm } := by
        intro vm changed
        apply prepared.of_changes current' rfl (okay.invalid current has early) changed
        exact fun is => nomatch is
      simp only [onVm, ensures_zoom]
      exact (Vm.asPrepareLoad_changes as s.vm).mono (fun _ _ => trivial)
        (fun _ vm => changes vm) (fun _ vm => changes vm)

theorem Okay.fault (okay : Okay s) (faulttype : Vm.FaultType) {faultaddress : Nat}
    (unmapped : s.Unmapped (pageFrame faultaddress)) :
    Ensures (fault faulttype faultaddress) s (fun _ => True) (fun _ => Okay)
      (fun _ => Okay) := by
  apply ensures_curthread
  intro thread current
  rw [ensures_bind, ensures_get, ensures_bind, onVm, ensures_zoom]
  apply (Vm.vmFault_installs thread.tVmspace faulttype faultaddress).mono (fun _ _ => trivial)
  · rintro _ vm rfl
    exact okay
  · rintro _ vm ⟨as, i, frame, has, inside, invalid, whole, mapped, rfl⟩
    have mine : s.space s.cur = some as := by
      simp [TlbSystem.space, current, has]
    refine ⟨okay.held, okay.exclusive, okay.live, ?_⟩
    intro past as' has'
    cases Option.some.inj (mine.symm.trans has')
    rw [has]
    exact (okay.tlb past as mine).install inside invalid whole (Addrspace.pageFrame_eq_iff.mpr
      (Vm.pageFrame_mod faultaddress)) mapped unmapped

theorem Okay.exec (okay : Okay s) {operation : TlbOp} (enabled : Enabled operation s) :
    Ensures (exec operation) s (fun _ => True) (fun _ => Okay) (fun _ => Okay) := by
  cases operation with
  | switch next => exact okay.miSwitch next
  | resume => exact okay.activateCurrent
  | exit next => exact okay.threadExit next
  | fork fails => exact okay.threadFork fails
  | create => exact okay.runprogramCreate
  | activate => exact okay.runprogramActivate enabled
  | define vaddr sz => exact okay.loadDefine enabled vaddr sz
  | prepare => exact okay.loadPrepare enabled
  | fault faulttype faultaddress => exact okay.fault faulttype enabled

/-- When the current thread has an address space and is past `as_activate`, every valid entry
of the TLB maps a page to the frame that the lookup of `vm_fault` gives for it and was made for
this address space, and no two valid entries match the same page. -/
theorem tlb_consistent {s : TlbSystem} (reachable : machine.Reachable Booted s)
    {thread : TlbThread} (current : s.threads s.cur = some thread) {as : Nat}
    (has : thread.tVmspace = some as) (past : s.past = true) :
    ∃ space, s.vm.spaces as = some space ∧
      (∀ i < numTlb, (s.vm.tlb i).Valid →
        pageFrame (s.vm.tlb i).ehi = (s.vm.tlb i).ehi ∧
        Vm.vmFaultLookup space (s.vm.tlb i).ehi = some (pageFrame (s.vm.tlb i).elo) ∧
        s.owner i = some as) ∧
      ∀ i < numTlb, ∀ j < numTlb, (s.vm.tlb i).Valid → (s.vm.tlb j).Valid →
        (s.vm.tlb i).ehi = (s.vm.tlb j).ehi → i = j := by
  have okay : Okay s := by
    apply Machine.Reachable.invariant (P := Okay) _ _ reachable
    · intro s booted
      exact booted.okay
    · intro s operation choice _ enabled okay
      have armed : Enabled operation (machine.arm s choice) := by
        cases operation <;> exact enabled
      have okay' : Okay (machine.arm s choice) :=
        ⟨okay.held, okay.exclusive, okay.live,
          fun past as has => (okay.tlb past as has).congr rfl rfl⟩
      exact okay'.exec armed
  rcases okay.held s.cur thread as current has with ⟨_, space, there, _⟩
  have mine : s.space s.cur = some as := by
    simp [TlbSystem.space, current, has]
  have consistent := okay.tlb past as mine
  refine ⟨space, there, ?_, consistent.distinct⟩
  intro i inside valid
  rcases consistent.mapped i inside valid with ⟨owned, whole, mapped⟩
  simp only [Vm.mapping, there] at mapped
  split at mapped
  · exact ⟨whole, mapped, owned⟩
  · cases mapped

instance (operation : TlbOp) (s : TlbSystem) : Decidable (machine.Enabled operation s) :=
  match operation with
  | .switch next => inferInstanceAs (Decidable ((s.threads next).isSome = true))
  | .exit next => inferInstanceAs (Decidable (next ≠ s.cur ∧ (s.threads next).isSome = true))
  | .resume | .fork _ => inferInstanceAs (Decidable True)
  | .create => inferInstanceAs (Decidable (_ = some RunPhase.kernel))
  | .activate => inferInstanceAs (Decidable (_ = some RunPhase.created))
  | .define _ _ | .prepare => inferInstanceAs (Decidable (_ = some RunPhase.defining))
  | .fault _ faultaddress => inferInstanceAs (Decidable (∀ i < numTlb, (s.vm.tlb i).Valid →
      (s.vm.tlb i).ehi ≠ pageFrame faultaddress))

def small : TlbSystem where
  vm := smallMachine
  threads := Function.update (fun _ => none) 0 (some ⟨none, .kernel⟩)
  nextThread := 1
  cur := 0
  past := false
  owner := fun _ => none

/-- A program starts, touches its first page and forks, and its child touches the same page. -/
def twoProcesses : List (TlbOp × (KHeap × Ram)) :=
  [.create, .activate, .define 0x400000 4096, .define 0x10000000 4096, .prepare,
    .fault .read 0x400123, .fork false, .switch 1, .resume, .fault .write 0x400000].map
    fun operation => (operation, enoughMemory, ⟨0x100000, 0x400000⟩)

theorem tlb_consistent_two_processes :
    ∃ s thread, machine.Reachable Booted s ∧ s.threads s.cur = some thread ∧
      thread.tVmspace = some 1 ∧ s.past = true ∧ (s.vm.tlb 0).Valid ∧
      ∃ space, s.vm.spaces 1 = some space ∧
        Vm.vmFaultLookup space (s.vm.tlb 0).ehi = some (pageFrame (s.vm.tlb 0).elo) := by
  have ends : (machine.execute small twoProcesses).any (fun s =>
      s.threads s.cur == some ⟨some 1, .prepared⟩ && s.past && decide (s.vm.tlb 0).Valid) =
      true := by
    decide +kernel
  rcases (any_eq_true _ _).mp ends with ⟨s, executed, final⟩
  simp only [Bool.and_eq_true, beq_iff_eq, decide_eq_true_eq] at final
  rcases final with ⟨⟨current, past⟩, valid⟩
  have booted : Booted small := ⟨rfl, rfl, rfl, rfl⟩
  have reachable : machine.Reachable Booted s :=
    Machine.Reachable.execute (Machine.Reachable.start booted) executed
  rcases tlb_consistent reachable current rfl past with ⟨space, there, mapped, _⟩
  exact ⟨s, _, reachable, current, rfl, past, valid, space, there,
    (mapped 0 (by decide) valid).2.1⟩

end TlbSystem

end Os161
