import Os161.Vm.Pages

/-!
# Isolation of address spaces

The frames of an address space are three runs of pages: those of its two regions
and those of its stack. Together with the pages the kernel has taken for itself
they are regions of an arena that is handed out upwards, so that no two of them
have a frame in common; this is the invariant `Vm.Separate`. It is kept by all
operations on address spaces as long as the requests for pages do not wrap around
and no region is defined when the pages of the address space have been taken.
-/

namespace Os161

open Arena

/-! ## The parts of an address space -/

/-- What an address space has pages for. -/
inductive Part where
  | region1
  | region2
  | stack
  deriving DecidableEq

namespace Addrspace

variable {space : Addrspace} {part : Part}

def vbase (space : Addrspace) : Part → Nat
  | .region1 => space.asVbase1
  | .region2 => space.asVbase2
  | .stack => userStack - dumbvmStackpages * pageSize

def npages (space : Addrspace) : Part → Nat
  | .region1 => space.asNpages1
  | .region2 => space.asNpages2
  | .stack => dumbvmStackpages

def pbase (space : Addrspace) : Part → Nat
  | .region1 => space.asPbase1
  | .region2 => space.asPbase2
  | .stack => space.asStackpbase

def setPbase (space : Addrspace) (part : Part) (paddr : Nat) : Addrspace :=
  match part with
  | .region1 => { space with asPbase1 := paddr }
  | .region2 => { space with asPbase2 := paddr }
  | .stack => { space with asStackpbase := paddr }

theorem npages_setPbase (part' : Part) (paddr : Nat) :
    (space.setPbase part paddr).npages part' = space.npages part' := by
  cases part <;> rfl

theorem vbase_setPbase (part' : Part) (paddr : Nat) :
    (space.setPbase part paddr).vbase part' = space.vbase part' := by
  cases part <;> cases part' <;> rfl

theorem pbase_setPbase (part' : Part) (paddr : Nat) :
    (space.setPbase part paddr).pbase part' =
      if part' = part then paddr else space.pbase part' := by
  cases part <;> cases part' <;> rfl

def holds (space : Addrspace) (part : Part) : Option Region :=
  if space.pbase part = 0 then
    none
  else
    some ⟨space.pbase part, space.pbase part + space.npages part * pageSize⟩

/-- An address space with the regions of another one, and no pages yet. -/
def withoutPages (space : Addrspace) : Addrspace :=
  { space with asPbase1 := 0, asPbase2 := 0, asStackpbase := 0 }

theorem withoutPages_pbase (part : Part) : space.withoutPages.pbase part = 0 := by
  cases part <;> rfl

theorem holds_of_ne (taken : space.pbase part ≠ 0) :
    space.holds part = some ⟨space.pbase part, space.pbase part + space.npages part * pageSize⟩ :=
  if_neg taken

/-- The assertions of `vm_fault` about an address space. -/
def Ready (space : Addrspace) : Prop :=
  (space.asVbase1 ≠ 0 ∧ space.asPbase1 ≠ 0 ∧ space.asNpages1 ≠ 0) ∧
  (space.asVbase2 ≠ 0 ∧ space.asPbase2 ≠ 0 ∧ space.asNpages2 ≠ 0) ∧ space.asStackpbase ≠ 0 ∧
  (pageFrame space.asVbase1 = space.asVbase1 ∧ pageFrame space.asPbase1 = space.asPbase1) ∧
  (pageFrame space.asVbase2 = space.asVbase2 ∧ pageFrame space.asPbase2 = space.asPbase2) ∧
  pageFrame space.asStackpbase = space.asStackpbase

instance (space : Addrspace) : Decidable space.Ready :=
  inferInstanceAs (Decidable (_ ∧ _))

theorem Ready.taken (ready : space.Ready) (part : Part) : space.pbase part ≠ 0 := by
  rcases ready with ⟨⟨_, taken1, _⟩, ⟨_, taken2, _⟩, taken3, _⟩
  cases part <;> assumption

theorem pageFrame_eq_iff {addr : Nat} : pageFrame addr = addr ↔ addr % pageSize = 0 := by
  simp only [pageFrame, pageSize]
  omega

theorem Ready.aligned (ready : space.Ready) (part : Part) :
    space.vbase part % pageSize = 0 ∧ space.pbase part % pageSize = 0 := by
  rcases ready with ⟨_, _, _, ⟨virtual1, physical1⟩, ⟨virtual2, physical2⟩, physical3⟩
  cases part
  · exact ⟨pageFrame_eq_iff.mp virtual1, pageFrame_eq_iff.mp physical1⟩
  · exact ⟨pageFrame_eq_iff.mp virtual2, pageFrame_eq_iff.mp physical2⟩
  · exact ⟨by norm_num [vbase, userStack, userTop, dumbvmStackpages, pageSize],
      pageFrame_eq_iff.mp physical3⟩

section SameRegions

variable {copy : Addrspace} (vbase : ∀ part, copy.vbase part = space.vbase part)
  (npages : ∀ part, copy.npages part = space.npages part)

include vbase npages in
theorem regions_eq : (copy.asVbase1 = space.asVbase1 ∧ copy.asVbase2 = space.asVbase2) ∧
    copy.asNpages1 = space.asNpages1 ∧ copy.asNpages2 = space.asNpages2 :=
  ⟨⟨vbase .region1, vbase .region2⟩, npages .region1, npages .region2⟩

include vbase npages in
/-- The assertions hold again for an address space with other pages. -/
theorem Ready.of_same_regions (ready : space.Ready)
    (taken : ∀ part, copy.pbase part ≠ 0) (aligned : ∀ part, copy.pbase part % pageSize = 0) :
    copy.Ready := by
  rcases ready with ⟨⟨base1, _, pages1⟩, ⟨base2, _, pages2⟩, _, ⟨virtual1, _⟩, ⟨virtual2, _⟩, _⟩
  obtain ⟨⟨vbase1, vbase2⟩, npages1, npages2⟩ := regions_eq vbase npages
  rw [Ready, vbase1, vbase2, npages1, npages2]
  exact ⟨⟨base1, taken .region1, pages1⟩, ⟨base2, taken .region2, pages2⟩, taken .stack,
    ⟨virtual1, pageFrame_eq_iff.mpr (aligned .region1)⟩,
    ⟨virtual2, pageFrame_eq_iff.mpr (aligned .region2)⟩, pageFrame_eq_iff.mpr (aligned .stack)⟩

end SameRegions

end Addrspace

/-! ## The pages of the address spaces -/

namespace Vm

open Addrspace

variable {vm : Vm} {as : Nat} {space : Addrspace} {part : Part} {npages : Nat}

/-- The first part of an address space that has a page address. -/
def lookupPart (space : Addrspace) (page : Nat) : Option Part :=
  if space.asVbase1 ≤ page ∧ page < uint32 (space.asVbase1 + space.asNpages1 * pageSize) then
    some .region1
  else if space.asVbase2 ≤ page ∧ page < uint32 (space.asVbase2 + space.asNpages2 * pageSize) then
    some .region2
  else if userStack - dumbvmStackpages * pageSize ≤ page ∧ page < userStack then
    some .stack
  else
    none

theorem lookup_eq (space : Addrspace) (page : Nat) :
    vmFaultLookup space page = (lookupPart space page).map fun part =>
      uint32 (page - space.vbase part + space.pbase part) := by
  simp only [vmFaultLookup, lookupPart, apply_ite (Option.map _), map_some, Option.map_none]
  rfl

variable {page frame frame' : Nat}

theorem lookupPart_bounds (found : lookupPart space page = some part) :
    space.vbase part ≤ page ∧ page < space.vbase part + space.npages part * pageSize := by
  have top : ∀ base pages : Nat, uint32 (base + pages * pageSize) ≤ base + pages * pageSize := by
    intro base pages
    rw [← Nat.cast_mul, ← Nat.cast_add, uint32_natCast]
    exact Nat.mod_le _ _
  rw [lookupPart] at found
  split at found
  · rename_i inside
    cases found
    exact ⟨inside.1, lt_of_lt_of_le inside.2 (top _ _)⟩
  split at found
  · rename_i inside
    cases found
    exact ⟨inside.1, lt_of_lt_of_le inside.2 (top _ _)⟩
  split at found
  · rename_i inside
    cases found
    refine ⟨inside.1, lt_of_lt_of_le inside.2 ?_⟩
    norm_num [vbase, npages, userStack, userTop, dumbvmStackpages, pageSize]
  · cases found

theorem lookupPart_of_same_regions {copy : Addrspace}
    (vbase : ∀ part, copy.vbase part = space.vbase part)
    (npages : ∀ part, copy.npages part = space.npages part) (page : Nat) :
    lookupPart copy page = lookupPart space page := by
  obtain ⟨⟨vbase1, vbase2⟩, npages1, npages2⟩ := regions_eq vbase npages
  simp only [lookupPart, vbase1, vbase2, npages1, npages2]

/-- The frame that `vm_fault` maps for a page of an address space. -/
def mapping (vm : Vm) (as page : Nat) : Option Nat :=
  match vm.spaces as with
  | some space => if space.Ready then vmFaultLookup space page else none
  | none => none

/-- The byte at a virtual address, as it is read through the mapping of its page. -/
def read (vm : Vm) (as address : Nat) : Option UInt8 :=
  (vm.mapping as (pageFrame address)).map fun frame => vm.mem (frame + address % pageSize)

/-- A byte is written through the mapping of its page. -/
def write (vm : Vm) (as address : Nat) (byte : UInt8) : Vm :=
  match vm.mapping as (pageFrame address) with
  | some frame => { vm with mem := Function.update vm.mem (frame + address % pageSize) byte }
  | none => vm

/-! ## The invariant -/

/-- Who has physical memory: a part of an address space, or one of the kernel's requests. -/
inductive Owner where
  | space (as : Nat) (part : Part)
  | kernel (request : Nat)
  deriving DecidableEq

def holds (vm : Vm) : Owner → Option Region
  | .space as part => (vm.spaces as).bind fun space => space.holds part
  | .kernel request => vm.kpages[request]?

/-- The memory of different owners is apart, and it all has been taken from below `firstpaddr`. -/
structure Separate (vm : Vm) : Prop where
  stacked : Stacked vm.holds vm.ram.firstpaddr
  word : vm.ram.firstpaddr < 2 ^ 32
  aligned : vm.ram.firstpaddr % pageSize = 0
  unused : ∀ as, vm.nextSpace ≤ as → vm.spaces as = none
  inOrder : ∀ as space, vm.spaces as = some space → space.asPbase1 = 0 →
    space.asPbase2 = 0 ∧ space.asStackpbase = 0
  whole : ∀ as space, vm.spaces as = some space → ∀ part, space.pbase part % pageSize = 0

def frameRegion (frame : Nat) : Region :=
  ⟨frame, frame + pageSize⟩

theorem Separate.located (separate : vm.Separate) (mapped : vm.mapping as page = some frame)
    (aligned : page % pageSize = 0) :
    ∃ space part region, vm.spaces as = some space ∧ space.Ready ∧
      lookupPart space page = some part ∧ vm.holds (.space as part) = some region ∧
      space.vbase part ≤ page ∧ frame = page - space.vbase part + space.pbase part ∧
      frame % pageSize = 0 ∧ region.lo ≤ frame ∧ frame + pageSize ≤ region.hi := by
  rcases held : vm.spaces as with _ | space
  · simp only [mapping, held] at mapped
    cases mapped
  simp only [mapping, held] at mapped
  split at mapped
  · rename_i ready
    rw [lookup_eq, map_eq_some_iff] at mapped
    rcases mapped with ⟨part, found, rfl⟩
    have taken := holds_of_ne (ready.taken part)
    have holds : vm.holds (.space as part) = some ⟨space.pbase part,
        space.pbase part + space.npages part * pageSize⟩ := by
      simp only [Vm.holds, held, bind_some, taken]
    have below := separate.stacked.below holds
    have word := separate.word
    obtain ⟨low, high⟩ := lookupPart_bounds found
    obtain ⟨virtual, physical⟩ := ready.aligned part
    have frameEq : uint32 (page - space.vbase part + space.pbase part) =
        page - space.vbase part + space.pbase part := by
      rw [← Nat.cast_sub low, ← Nat.cast_add, uint32_natCast]
      apply Nat.mod_eq_of_lt
      simp only at below
      omega
    refine ⟨space, part, _, rfl, ready, found, holds, low, frameEq, ?_⟩
    rw [frameEq]
    simp only [pageSize] at *
    omega
  · cases mapped

theorem Separate.frames_apart (separate : vm.Separate) {left right : Owner} {r r' : Region}
    (different : left ≠ right) (leftHolds : vm.holds left = some r)
    (rightHolds : vm.holds right = some r') (inside : r.lo ≤ frame ∧ frame + pageSize ≤ r.hi)
    (inside' : r'.lo ≤ frame' ∧ frame' + pageSize ≤ r'.hi) :
    (frameRegion frame).Apart (frameRegion frame') := by
  apply (separate.stacked.apart leftHolds rightHolds different).mono
  · exact inside
  · exact inside'

theorem Separate.spaces_apart (separate : vm.Separate) {as' page' : Nat} (different : as ≠ as')
    (aligned : page % pageSize = 0) (aligned' : page' % pageSize = 0)
    (mapped : vm.mapping as page = some frame) (mapped' : vm.mapping as' page' = some frame') :
    (frameRegion frame).Apart (frameRegion frame') := by
  obtain ⟨_, part, _, _, _, _, holds, _, _, _, inside⟩ := separate.located mapped aligned
  obtain ⟨_, part', _, _, _, _, holds', _, _, _, inside'⟩ := separate.located mapped' aligned'
  apply separate.frames_apart _ holds holds' inside inside'
  intro same
  injection same with sameSpace
  exact different sameSpace

theorem Separate.pages_apart (separate : vm.Separate) {page' : Nat} (different : page ≠ page')
    (aligned : page % pageSize = 0) (aligned' : page' % pageSize = 0)
    (mapped : vm.mapping as page = some frame) (mapped' : vm.mapping as page' = some frame') :
    (frameRegion frame).Apart (frameRegion frame') := by
  obtain ⟨space, part, _, held, _, _, holds, low, frameEq, whole, inside⟩ :=
    separate.located mapped aligned
  obtain ⟨space', part', _, held', _, _, holds', low', frameEq', whole', inside'⟩ :=
    separate.located mapped' aligned'
  by_cases samePart : part = part'
  · -- within a part a page is as far from the start as its frame
    subst samePart
    have sameSpace : space = space' := Option.some.inj (held.symm.trans held')
    subst sameSpace
    rcases Nat.lt_or_gt_of_ne different with before | after
    · apply Region.apart_of_le
      simp only [frameRegion, pageSize] at *
      omega
    · apply Region.Apart.symm
      apply Region.apart_of_le
      simp only [frameRegion, pageSize] at *
      omega
  · apply separate.frames_apart _ holds holds' inside inside'
    intro same
    injection same with _ same
    exact samePart same

theorem Separate.kernel_apart (separate : vm.Separate) {region : Region}
    (aligned : page % pageSize = 0) (mapped : vm.mapping as page = some frame)
    (member : region ∈ vm.kpages) : (frameRegion frame).Apart region := by
  obtain ⟨_, part, _, _, _, _, holds, _, _, _, inside⟩ := separate.located mapped aligned
  obtain ⟨request, kernelHolds⟩ := List.getElem?_of_mem member
  have kernel : vm.holds (.kernel request) = some region := kernelHolds
  have apart := separate.stacked.apart holds kernel (fun same => nomatch same)
  apply apart.mono
  · exact inside
  · exact ⟨le_refl _, le_refl _⟩

theorem pageFrame_mod (address : Nat) : pageFrame address % pageSize = 0 :=
  Nat.mul_mod_left _ _

/-- What is written through one address space is not seen through another. -/
theorem Separate.read_write (separate : vm.Separate) {as' : Nat} (different : as ≠ as')
    (address address' : Nat) (byte : UInt8) :
    (vm.write as address byte).read as' address' = vm.read as' address' := by
  rcases mapped : vm.mapping as (pageFrame address) with _ | frame
  · simp only [write, mapped]
  simp only [write, mapped]
  have same : ({ vm with mem := Function.update vm.mem (frame + address % pageSize) byte } :
      Vm).mapping = vm.mapping := rfl
  rcases mapped' : vm.mapping as' (pageFrame address') with _ | frame'
  · simp only [read, same, mapped', Option.map_none]
  · simp only [read, same, mapped', map_some]
    have apart := separate.spaces_apart different (pageFrame_mod address) (pageFrame_mod address')
      mapped mapped'
    have offset : address % pageSize < pageSize := Nat.mod_lt _ (Nat.succ_pos _)
    have offset' : address' % pageSize < pageSize := Nat.mod_lt _ (Nat.succ_pos _)
    rw [update_of_ne]
    apply (apart.ne _ _).symm
    · exact Region.mem_addresses.mpr ⟨Nat.le_add_right _ _, Nat.add_lt_add_left offset _⟩
    · exact Region.mem_addresses.mpr ⟨Nat.le_add_right _ _, Nat.add_lt_add_left offset' _⟩

/-! ## Faults -/

section Specs

variable {panics : Panic → Prop} {fails : Errno → Vm → Prop}

theorem ensures_deref {returns : Addrspace → Vm → Prop} :
    Ensures (deref as) vm panics fails returns ↔
      match vm.spaces as with
      | some space => returns space vm
      | none => panics .spacePointer := by
  simp only [deref, ensures_bind, ensures_get]
  rcases vm.spaces as with _ | space <;> rfl

theorem ensures_deref_of (held : vm.spaces as = some space) {returns : Addrspace → Vm → Prop} :
    Ensures (deref as) vm panics fails returns ↔ returns space vm := by
  rw [ensures_deref, held]

theorem vmFaultChecks_spec :
    Ensures (vmFaultChecks space) vm (fun reason => reason = .vmFaultSpace ∧ ¬space.Ready)
      fails (fun _ vm' => vm' = vm ∧ space.Ready) := by
  rw [vmFaultChecks]
  refine ensures_assert_then (fun failed => ⟨rfl, fun ready => failed ready.1.1⟩) fun base1 => ?_
  refine ensures_assert_then (fun failed => ⟨rfl, fun ready => failed ready.1.2.1⟩) fun taken1 => ?_
  refine ensures_assert_then (fun failed => ⟨rfl, fun ready => failed ready.1.2.2⟩) fun pages1 => ?_
  refine ensures_assert_then (fun failed => ⟨rfl, fun ready => failed ready.2.1.1⟩) fun base2 => ?_
  refine ensures_assert_then (fun failed => ⟨rfl, fun ready => failed ready.2.1.2.1⟩)
    fun taken2 => ?_
  refine ensures_assert_then (fun failed => ⟨rfl, fun ready => failed ready.2.1.2.2⟩)
    fun pages2 => ?_
  refine ensures_assert_then (fun failed => ⟨rfl, fun ready => failed ready.2.2.1⟩) fun taken3 => ?_
  refine ensures_assert_then (fun failed => ⟨rfl, fun ready => failed ready.2.2.2.1.1⟩)
    fun virtual1 => ?_
  refine ensures_assert_then (fun failed => ⟨rfl, fun ready => failed ready.2.2.2.1.2⟩)
    fun physical1 => ?_
  refine ensures_assert_then (fun failed => ⟨rfl, fun ready => failed ready.2.2.2.2.1.1⟩)
    fun virtual2 => ?_
  refine ensures_assert_then (fun failed => ⟨rfl, fun ready => failed ready.2.2.2.2.1.2⟩)
    fun physical2 => ?_
  rw [ensures_assert]
  split_ifs with physical3
  · exact ⟨rfl, ⟨base1, taken1, pages1⟩, ⟨base2, taken2, pages2⟩, taken3,
      ⟨virtual1, physical1⟩, ⟨virtual2, physical2⟩, physical3⟩
  · exact ⟨rfl, fun ready => physical3 ready.2.2.2.2.2⟩

def install (vm : Vm) (i page frame : Nat) : Vm :=
  let entry := { ehi := page, elo := frame ||| tlbloDirty ||| tlbloValid }
  { vm with tlb := Function.update vm.tlb i entry }

theorem vmFaultInstall_spec {page frame : Nat} :
    Ensures (vmFaultInstall page frame) vm panics (fun _ vm' => vm' = vm)
      (fun _ vm' => ∃ i, i < numTlb ∧ (vm.tlb i).elo &&& tlbloValid = 0 ∧
        vm' = vm.install i page frame) := by
  simp only [vmFaultInstall, ensures_bind, ensures_get]
  split
  · rename_i i free
    have inside := mem_range.mp (List.mem_of_find?_eq_some free)
    have invalid := List.find?_some free
    exact ⟨i, inside, of_decide_eq_true invalid, rfl⟩
  · exact rfl

/-- `vm_fault` maps the frame of the page, and nothing else. It only panics for a page that has
no frame. -/
theorem Separate.vmFault_spec (separate : vm.Separate) (faulttype : FaultType) (address : Nat) :
    Ensures (vmFault (some as) faulttype address) vm
      (fun _ => faulttype = .readonly ∨ vm.mapping as (pageFrame address) = none)
      (fun _ vm' => vm' = vm)
      (fun _ vm' => ∃ i frame, vm.mapping as (pageFrame address) = some frame ∧
        vm' = vm.install i (pageFrame address) frame) := by
  have access : Ensures (vmFault (some as) .read address) vm
      (fun _ => vm.mapping as (pageFrame address) = none) (fun _ vm' => vm' = vm)
      (fun _ vm' => ∃ i frame, vm.mapping as (pageFrame address) = some frame ∧
        vm' = vm.install i (pageFrame address) frame) := by
    simp only [vmFault, ensures_bind]
    rw [ensures_deref]
    rcases held : vm.spaces as with _ | space
    · simp only [mapping, held]
    simp only
    apply vmFaultChecks_spec.mono
    · rintro _ ⟨_, unready⟩
      simp only [mapping, held, if_neg unready]
    · intro _ _ failed
      exact failed
    · rintro _ vm' ⟨rfl, ready⟩
      have mapped : vm'.mapping as (pageFrame address) =
          vmFaultLookup space (pageFrame address) := by
        simp only [mapping, held, if_pos ready]
      rw [mapped]
      rcases found : vmFaultLookup space (pageFrame address) with _ | frame
      · exact rfl
      have whole : pageFrame frame = frame := by
        rw [found] at mapped
        obtain ⟨_, _, _, _, _, _, _, _, _, whole, _⟩ :=
          separate.located mapped (pageFrame_mod address)
        exact pageFrame_eq_iff.mpr whole
      simp only [ensures_bind, ensures_assert_of whole]
      apply vmFaultInstall_spec.imp
      rintro _ _ ⟨i, _, _, rfl⟩
      exact ⟨i, frame, rfl, rfl⟩
  cases faulttype with
  | read => exact access.mono (fun _ => Or.inr) (fun _ _ => id) (fun _ _ => id)
  | write => exact access.mono (fun _ => Or.inr) (fun _ _ => id) (fun _ _ => id)
  | readonly => exact Or.inl rfl
  | other => exact rfl

end Specs

/-! ## Taking pages -/

end Vm

/-- A request for pages whose sums are exact. -/
def Ram.Exact (ram : Ram) (npages : Nat) : Prop :=
  ram.firstpaddr + npages * pageSize < 2 ^ 32

instance (ram : Ram) (npages : Nat) : Decidable (ram.Exact npages) :=
  inferInstanceAs (Decidable (_ < _))

/-- The requests of `as_prepare_load`, one after another, have exact sums. -/
def Ram.Prepares (ram : Ram) (npages1 npages2 : Nat) : Prop :=
  ram.Exact npages1 ∧ (ram.paddr npages1 ≠ 0 → (ram.after npages1).Exact npages2 ∧
    ((ram.after npages1).paddr npages2 ≠ 0 →
      ((ram.after npages1).after npages2).Exact dumbvmStackpages))

instance (ram : Ram) (npages1 npages2 : Nat) : Decidable (ram.Prepares npages1 npages2) :=
  inferInstanceAs (Decidable (_ ∧ (_ → _ ∧ (_ → _))))

theorem Ram.Exact.took {ram : Ram} {npages : Nat} (exact : ram.Exact npages) :
    ram.firstpaddr ≤ (ram.after npages).firstpaddr ∧ (ram.after npages).firstpaddr < 2 ^ 32 ∧
      (ram.after npages).firstpaddr % pageSize = ram.firstpaddr % pageSize ∧
      (ram.paddr npages ≠ 0 → ram.paddr npages = ram.firstpaddr ∧
        (ram.after npages).firstpaddr = ram.firstpaddr + npages * pageSize) := by
  rw [Exact] at exact
  by_cases refuses : ram.Refuses npages
  · rw [Ram.after_of_refuses refuses, paddr, if_pos refuses]
    exact ⟨le_refl _, by omega, rfl, fun granted => absurd rfl granted⟩
  · have bytes : uint32 (npages * pageSize) = npages * pageSize := by
      rw [← Nat.cast_mul, uint32_natCast]
      exact Nat.mod_eq_of_lt (by omega)
    have moved : (ram.after npages).firstpaddr = ram.firstpaddr + npages * pageSize := by
      rw [Ram.after, if_neg refuses]
      simp only
      rw [bytes, ← Nat.cast_add, uint32_natCast]
      exact Nat.mod_eq_of_lt exact
    rw [moved, paddr, if_neg refuses]
    exact ⟨Nat.le_add_right _ _, exact, Nat.add_mul_mod_self_right _ _ _, fun _ => ⟨rfl, rfl⟩⟩

namespace Vm

open Addrspace

variable {vm : Vm} {as : Nat} {space : Addrspace} {part : Part} {npages : Nat}

theorem Separate.congr {vm' : Vm} (separate : vm.Separate) (ram : vm'.ram = vm.ram)
    (spaces : vm'.spaces = vm.spaces) (kpages : vm'.kpages = vm.kpages)
    (nextSpace : vm'.nextSpace = vm.nextSpace) : vm'.Separate := by
  have holds : vm'.holds = vm.holds := by
    funext owner
    cases owner <;> simp only [Vm.holds, spaces, kpages]
  constructor
  · rw [holds, ram]
    exact separate.stacked
  · rw [ram]
    exact separate.word
  · rw [ram]
    exact separate.aligned
  · rw [spaces, nextSpace]
    exact separate.unused
  · rw [spaces]
    exact separate.inOrder
  · rw [spaces]
    exact separate.whole

theorem holds_setSpace (as' : Nat) (space' : Option Addrspace) (part' : Part) :
    (vm.setSpace as space').holds (.space as' part') =
      if as' = as then space'.bind fun space => space.holds part'
      else vm.holds (.space as' part') := by
  simp only [Vm.holds, setSpace, update_apply]
  split_ifs <;> rfl

/-- An address space whose parts hold nothing can be replaced by another one of that kind. -/
theorem Separate.setSpace (separate : vm.Separate) (used : as < vm.nextSpace)
    (space' : Option Addrspace)
    (empty : ∀ space, space' = some space → ∀ part, space.pbase part = 0) :
    (vm.setSpace as space').Separate := by
  constructor
  · apply separate.stacked.mono (le_refl _)
    intro owner r held
    cases owner with
    | kernel request => exact held
    | space as' part' =>
        rw [holds_setSpace] at held
        split_ifs at held with same
        · rcases space' with _ | space'
          · cases held
          · simp only [bind_some, Addrspace.holds, empty space' rfl, if_true] at held
            cases held
        · exact held
  · exact separate.word
  · exact separate.aligned
  · intro as' above
    have next : vm.nextSpace ≤ as' := above
    simp only [Vm.setSpace, update_of_ne (show as' ≠ as by omega)]
    exact separate.unused as' next
  · intro as' other held
    simp only [Vm.setSpace, update_apply] at held
    split_ifs at held with same
    · intro _
      exact ⟨empty other held .region2, empty other held .stack⟩
    · exact separate.inOrder as' other held
  · intro as' other held part
    simp only [Vm.setSpace, update_apply] at held
    split_ifs at held with same
    · rw [empty other held part, Nat.zero_mod]
    · exact separate.whole as' other held part

theorem Separate.pbase_eq_zero (separate : vm.Separate) (held : vm.spaces as = some space)
    (untaken : space.asPbase1 = 0) (part : Part) : space.pbase part = 0 := by
  obtain ⟨untaken2, untaken3⟩ := separate.inOrder as space held untaken
  cases part <;> assumption

theorem Separate.used (separate : vm.Separate) (held : vm.spaces as = some space) :
    as < vm.nextSpace := by
  by_contra above
  rw [separate.unused as (by omega)] at held
  cases held

def give (vm : Vm) (as : Nat) (space : Addrspace) (part : Part) : Vm :=
  { vm with ram := vm.ram.after (space.npages part) }.setSpace as
    (some (space.setPbase part (vm.ram.paddr (space.npages part))))

theorem Separate.give (separate : vm.Separate) (held : vm.spaces as = some space)
    (untaken : space.pbase part = 0) (exact : vm.ram.Exact (space.npages part))
    (order : part = .region1 ∨ space.asPbase1 ≠ 0) : (vm.give as space part).Separate := by
  obtain ⟨above, word, aligned, granted⟩ := exact.took
  constructor
  · apply separate.stacked.take above (.space as part)
    intro owner r holds
    cases owner with
    | kernel request => exact Or.inl holds
    | space as' part' =>
        rw [Vm.give, holds_setSpace] at holds
        split_ifs at holds with same
        · subst same
          simp only [bind_some, Addrspace.holds, pbase_setPbase, npages_setPbase] at holds
          by_cases samePart : part' = part
          · subst samePart
            rw [if_pos rfl] at holds
            split_ifs at holds with refused
            cases holds
            obtain ⟨start, last⟩ := granted refused
            rw [start, ← last]
            exact Or.inr ⟨rfl, rfl⟩
          · rw [if_neg samePart] at holds
            left
            simp only [Vm.holds, held, bind_some, Addrspace.holds]
            exact holds
        · exact Or.inl holds
  · exact word
  · exact aligned.trans separate.aligned
  · intro as' next
    have used := separate.used held
    have next : vm.nextSpace ≤ as' := next
    simp only [Vm.give, Vm.setSpace, update_of_ne (show as' ≠ as by omega)]
    exact separate.unused as' next
  · intro as' other held'
    simp only [Vm.give, Vm.setSpace, update_apply] at held'
    split_ifs at held' with same
    · cases held'
      intro untaken1
      rcases order with rfl | taken
      · exact separate.inOrder as space held untaken
      · generalize vm.ram.paddr (space.npages part) = paddr at untaken1
        cases part with
        | region1 => exact absurd untaken taken
        | region2 => exact absurd untaken1 taken
        | stack => exact absurd untaken1 taken
    · exact separate.inOrder as' other held'
  · intro as' other held' part'
    simp only [Vm.give, Vm.setSpace, update_apply] at held'
    split_ifs at held' with same
    · cases held'
      rw [pbase_setPbase]
      split_ifs with samePart
      · by_cases refused : vm.ram.paddr (space.npages part) = 0
        · rw [refused, Nat.zero_mod]
        · rw [(granted refused).1]
          exact separate.aligned
      · exact separate.whole as space held part'
    · exact separate.whole as' other held' part'

/-- The address space `as` has got other pages, and nothing else has changed. -/
structure Refitted (vm : Vm) (as : Nat) (space : Addrspace) (vm' : Vm) (space' : Addrspace) :
    Prop where
  separate : vm'.Separate
  held : vm'.spaces as = some space'
  vbase : ∀ part, space'.vbase part = space.vbase part
  npages : ∀ part, space'.npages part = space.npages part
  others : ∀ other, other ≠ as → vm'.spaces other = vm.spaces other
  mem : vm'.mem = vm.mem
  nextSpace : vm'.nextSpace = vm.nextSpace

theorem Refitted.trans {vm' vm'' : Vm} {space' space'' : Addrspace}
    (first : vm.Refitted as space vm' space') (second : vm'.Refitted as space' vm'' space'') :
    vm.Refitted as space vm'' space'' where
  separate := second.separate
  held := second.held
  vbase part := (second.vbase part).trans (first.vbase part)
  npages part := (second.npages part).trans (first.npages part)
  others other different := (second.others other different).trans (first.others other different)
  mem := second.mem.trans first.mem
  nextSpace := second.nextSpace.trans first.nextSpace

theorem Separate.refitted (separate : vm.Separate) (part : Part) (held : vm.spaces as = some space)
    (untaken : space.pbase part = 0) (exact : vm.ram.Exact (space.npages part))
    (order : part = .region1 ∨ space.asPbase1 ≠ 0) :
    vm.Refitted as space (vm.give as space part)
      (space.setPbase part (vm.ram.paddr (space.npages part))) where
  separate := separate.give held untaken exact order
  held := update_self _ _ _
  vbase part' := vbase_setPbase part' _
  npages part' := npages_setPbase part' _
  others _ different := update_of_ne different _ _
  mem := rfl
  nextSpace := rfl

section Specs

variable {panics : Panic → Prop} {fails : Errno → Vm → Prop}

theorem ensures_onRam_getppages {returns : Nat → Vm → Prop} :
    Ensures (onRam (getppages npages)) vm panics fails returns ↔
      returns (vm.ram.paddr npages) { vm with ram := vm.ram.after npages } := by
  rw [onRam, ensures_zoom, Ram.ensures_getppages]

theorem ensures_store {returns : Unit → Vm → Prop} :
    Ensures (store as space) vm panics fails returns ↔
      returns () (vm.setSpace as (some space)) :=
  Iff.rfl

/-- `as_prepare_load` keeps the invariant, also when the memory does not suffice. -/
theorem Separate.asPrepareLoad_spec (separate : vm.Separate) (held : vm.spaces as = some space)
    (exact : vm.ram.Prepares space.asNpages1 space.asNpages2) :
    Ensures (asPrepareLoad as) vm (fun _ => True)
      (fun _ vm' => ∃ space', vm.Refitted as space vm' space')
      (fun _ vm' => ∃ space', vm.Refitted as space vm' space') := by
  obtain ⟨exact1, exact⟩ := exact
  rw [asPrepareLoad, ensures_bind, ensures_deref_of held]
  refine ensures_assert_then (fun _ => trivial) fun untaken1 => ?_
  refine ensures_assert_then (fun _ => trivial) fun untaken2 => ?_
  refine ensures_assert_then (fun _ => trivial) fun untaken3 => ?_
  have first := separate.refitted .region1 held untaken1 exact1 (Or.inl rfl)
  rw [ensures_bind, ensures_onRam_getppages, ensures_bind, ensures_store]
  apply ensures_branch
  · intro refused1
    exact ⟨_, first⟩
  intro granted1
  obtain ⟨exact2, exact⟩ := exact granted1
  have second := first.separate.refitted .region2 first.held untaken2 exact2 (Or.inr granted1)
  rw [ensures_bind, ensures_onRam_getppages, ensures_bind, ensures_store]
  apply ensures_branch
  · intro refused2
    exact ⟨_, first.trans second⟩
  intro granted2
  have third := second.separate.refitted .stack second.held untaken3 (exact granted2)
    (Or.inr granted1)
  rw [ensures_bind, ensures_onRam_getppages, ensures_bind, ensures_store,
    ensures_ite, ensures_fail, ensures_pure, ite_self]
  exact ⟨_, (first.trans second).trans third⟩

/-- What `as_create` does: no memory, or a new address space that holds nothing. -/
theorem asCreate_spec :
    Ensures asCreate vm panics fails (fun result vm' => ∃ heap,
      (result = none ∧ vm' = { vm with heap }) ∨
      (result = some vm.nextSpace ∧
        vm' = { vm.setSpace vm.nextSpace (some ⟨0, 0, 0, 0, 0, 0, 0⟩) with
          nextSpace := vm.nextSpace + 1, heap })) := by
  rw [asCreate, ensures_bind, onHeap, ensures_zoom, ensures_kmalloc]
  apply ensures_branch
  · intro _
    exact ⟨vm.heap.after 1, Or.inr ⟨rfl, rfl⟩⟩
  · intro _
    exact ⟨vm.heap.after 1, Or.inl ⟨rfl, rfl⟩⟩

theorem Separate.create (separate : vm.Separate) (heap : KHeap) (space : Addrspace)
    (empty : ∀ part, space.pbase part = 0) :
    ({ vm.setSpace vm.nextSpace (some space) with
      nextSpace := vm.nextSpace + 1, heap } : Vm).Separate := by
  have roomy : ({ vm with nextSpace := vm.nextSpace + 1, heap } : Vm).Separate :=
    { stacked := separate.stacked
      word := separate.word
      aligned := separate.aligned
      unused := fun as above => separate.unused as (Nat.le_of_succ_le above)
      inOrder := separate.inOrder
      whole := separate.whole }
  apply roomy.setSpace (Nat.lt_succ_self vm.nextSpace)
  intro space' same
  cases same
  exact empty

theorem asCreate_separate (separate : vm.Separate) :
    Ensures asCreate vm panics fails (fun _ vm' => vm'.Separate) := by
  apply asCreate_spec.imp
  rintro _ _ ⟨heap, ⟨rfl, rfl⟩ | ⟨rfl, rfl⟩⟩
  · exact separate.congr rfl rfl rfl rfl
  · apply separate.create heap
    intro part
    cases part <;> rfl

theorem asDefineRegion_separate (separate : vm.Separate) {vaddr sz : Nat}
    (untaken : ∀ space, vm.spaces as = some space → space.asPbase1 = 0) :
    Ensures (asDefineRegion as vaddr sz) vm (fun _ => True) (fun _ vm' => vm'.Separate)
      (fun _ vm' => vm'.Separate) := by
  rw [asDefineRegion, ensures_bind, ensures_deref]
  rcases held : vm.spaces as with _ | space
  · exact trivial
  have empty := separate.pbase_eq_zero held (untaken space held)
  have defined : ∀ space' : Addrspace, space'.pbase = space.pbase →
      (vm.setSpace as (some space')).Separate := by
    intro space' pbase
    apply separate.setSpace (separate.used held)
    intro _ same part
    cases same
    rw [pbase, empty]
  apply ensures_branch
  · exact fun _ => defined _ (by funext part; cases part <;> rfl)
  intro _
  apply ensures_branch
  · exact fun _ => defined _ (by funext part; cases part <;> rfl)
  · exact fun _ => separate

theorem kernelPages_separate (separate : vm.Separate) (exact : vm.ram.Exact npages) :
    Ensures (kernelPages npages) vm panics fails (fun _ vm' => vm'.Separate) := by
  obtain ⟨above, word, aligned, granted⟩ := exact.took
  have without : ({ vm with ram := vm.ram.after npages } : Vm).Separate :=
    { stacked := separate.stacked.mono above fun _ _ held => held
      word := word
      aligned := aligned.trans separate.aligned
      unused := separate.unused
      inOrder := separate.inOrder
      whole := separate.whole }
  rw [kernelPages, ensures_bind, ensures_get, ensures_bind, onRam,
    ensures_zoom, Ram.ensures_allocKpages]
  apply ensures_branch
  · intro _
    exact without
  intro address
  have taken : vm.ram.paddr npages ≠ 0 := fun refused => address (if_pos refused)
  obtain ⟨_, last⟩ := granted taken
  simp only [ensures_bind, ensures_modify, ensures_pure]
  constructor
  · apply separate.stacked.take above (.kernel vm.kpages.length)
    intro owner r held
    cases owner with
    | space as part => exact Or.inl held
    | kernel request =>
        simp only [Vm.holds, List.getElem?_append, List.getElem?_singleton] at held
        split_ifs at held with earlier newest
        · exact Or.inl held
        · cases held
          have same : request = vm.kpages.length := by omega
          exact Or.inr ⟨by rw [same], by rw [last]⟩
  · exact word
  · exact without.aligned
  · exact separate.unused
  · exact separate.inOrder
  · exact separate.whole

/-! ## Copying -/

variable {old new : Nat} {source copy : Addrspace}

def copyPart (source copy : Addrspace) (part : Part) (mem : Bytes) : Bytes :=
  mem.overlay (copy.pbase part) (source.npages part * pageSize) fun i =>
    mem (source.pbase part + i)

variable {mem : Bytes}

theorem copyPart_at {i : Nat} (inside : i < source.npages part * pageSize) :
    copyPart source copy part mem (copy.pbase part + i) = mem (source.pbase part + i) := by
  simp only [copyPart, Bytes.overlay]
  rw [if_pos (by omega), Nat.add_sub_cancel_left]

theorem copyPart_apart {region : Region} {a : Nat}
    (apart : region.Apart ⟨copy.pbase part, copy.pbase part + source.npages part * pageSize⟩)
    (inside : a ∈ region.addresses) : copyPart source copy part mem a = mem a := by
  simp only [copyPart, Bytes.overlay]
  apply if_neg
  intro copied
  exact apart.ne inside (Region.mem_addresses.mpr copied) rfl

def copyParts (source copy : Addrspace) (mem : Bytes) : Bytes :=
  copyPart source copy .stack (copyPart source copy .region2 (copyPart source copy .region1 mem))

variable (separate : vm.Separate) (oldHeld : vm.spaces old = some source)
  (newHeld : vm.spaces new = some copy) (different : old ≠ new)
  (samePages : ∀ part, copy.npages part = source.npages part)
  (taken : ∀ part, copy.pbase part ≠ 0)

include newHeld samePages taken in
theorem holds_copy (part : Part) : vm.holds (.space new part) =
    some ⟨copy.pbase part, copy.pbase part + source.npages part * pageSize⟩ := by
  simp only [Vm.holds, newHeld, bind_some, holds_of_ne (taken part), samePages part]

include separate newHeld samePages taken in
theorem copyParts_apart {owner : Owner} {region : Region} {a : Nat}
    (held : vm.holds owner = some region) (other : ∀ part, owner ≠ .space new part)
    (inside : a ∈ region.addresses) : copyParts source copy mem a = mem a := by
  have apart := fun part =>
    separate.stacked.apart held (holds_copy newHeld samePages taken part) (other part)
  rw [copyParts, copyPart_apart (apart .stack) inside, copyPart_apart (apart .region2) inside,
    copyPart_apart (apart .region1) inside]

include separate oldHeld newHeld different samePages taken in
theorem copyParts_at {i : Nat} (sourceTaken : source.pbase part ≠ 0)
    (inside : i < source.npages part * pageSize) :
    copyParts source copy mem (copy.pbase part + i) = mem (source.pbase part + i) := by
  have holds := holds_copy newHeld samePages taken
  have sourceHolds : vm.holds (.space old part) =
      some ⟨source.pbase part, source.pbase part + source.npages part * pageSize⟩ := by
    simp only [Vm.holds, oldHeld, bind_some, holds_of_ne sourceTaken]
  -- the copies made later are elsewhere, and the copies made earlier are not what is read
  have written : ∀ part', part ≠ part' → ∀ mem : Bytes,
      copyPart source copy part' mem (copy.pbase part + i) = mem (copy.pbase part + i) := by
    intro part' differentPart mem
    apply copyPart_apart (separate.stacked.apart (holds part) (holds part') _)
    · exact Region.mem_addresses.mpr ⟨Nat.le_add_right _ _, Nat.add_lt_add_left inside _⟩
    · intro same
      injection same with _ same
      exact differentPart same
  have unread : ∀ part', ∀ mem : Bytes,
      copyPart source copy part' mem (source.pbase part + i) = mem (source.pbase part + i) := by
    intro part' mem
    apply copyPart_apart (separate.stacked.apart sourceHolds (holds part') _)
    · exact Region.mem_addresses.mpr ⟨Nat.le_add_right _ _, Nat.add_lt_add_left inside _⟩
    · intro same
      injection same with same
      exact different same
  rw [copyParts]
  cases part with
  | region1 =>
      rw [written .stack (fun same => nomatch same), written .region2 (fun same => nomatch same),
        copyPart_at inside]
  | region2 =>
      rw [written .stack (fun same => nomatch same), copyPart_at inside, unread .region1]
  | stack => rw [copyPart_at inside, unread .region2, unread .region1]

include separate newHeld samePages in
/-- The sizes that are given to `memmove` are exact, and the three calls copy the parts. -/
theorem asCopyPages_spec (oldHeld : vm.spaces old = some source) :
    Ensures (asCopyPages old new) vm (fun _ => True) fails (fun _ vm' =>
      (∀ part, copy.pbase part ≠ 0) ∧
      vm' = { vm with mem := copyParts source copy vm.mem }) := by
  rw [asCopyPages, ensures_bind, ensures_deref_of oldHeld, ensures_bind, ensures_deref_of newHeld]
  refine ensures_assert_then (fun _ => trivial) fun taken1 => ?_
  refine ensures_assert_then (fun _ => trivial) fun taken2 => ?_
  refine ensures_assert_then (fun _ => trivial) fun taken3 => ?_
  have taken : ∀ part, copy.pbase part ≠ 0 := by
    intro part
    cases part <;> assumption
  have size : ∀ part, uint32 (source.npages part * pageSize) = source.npages part * pageSize := by
    intro part
    have below := separate.stacked.below (holds_copy newHeld samePages taken part)
    have word := separate.word
    simp only at below
    rw [← Nat.cast_mul, uint32_natCast]
    exact Nat.mod_eq_of_lt (by omega)
  have size1 : uint32 (source.asNpages1 * pageSize) = source.asNpages1 * pageSize :=
    size .region1
  have size2 : uint32 (source.asNpages2 * pageSize) = source.asNpages2 * pageSize :=
    size .region2
  rw [size1, size2]
  exact ⟨taken, rfl⟩

end Specs

/-- `new` is a copy of `old` with pages of its own, and the memory of `old` is as it was in
`vm`. -/
structure Copied (vm : Vm) (old : Nat) (source : Addrspace) (new : Nat) (vm' : Vm)
    (copy : Addrspace) : Prop where
  separate : vm'.Separate
  oldHeld : vm'.spaces old = some source
  newHeld : vm'.spaces new = some copy
  different : old ≠ new
  vbase : ∀ part, copy.vbase part = source.vbase part
  npages : ∀ part, copy.npages part = source.npages part
  taken : ∀ part, copy.pbase part ≠ 0
  mem : vm'.mem = copyParts source copy vm.mem

theorem Separate.asCopy_spec (separate : vm.Separate) {old : Nat} {source : Addrspace}
    (held : vm.spaces old = some source)
    (exact : vm.ram.Prepares source.asNpages1 source.asNpages2) :
    Ensures (asCopy old) vm (fun _ => True) (fun _ vm' => vm'.Separate)
      (fun new vm' => ∃ copy, vm.Copied old source new vm' copy) := by
  rw [asCopy, ensures_bind]
  apply asCreate_spec.imp
  rintro _ _ ⟨heap, ⟨rfl, rfl⟩ | ⟨rfl, rfl⟩⟩
  · exact separate.congr rfl rfl rfl rfl
  have different : old ≠ vm.nextSpace := Nat.ne_of_lt (separate.used held)
  have empty : ∀ part, (⟨0, 0, 0, 0, 0, 0, 0⟩ : Addrspace).pbase part = 0 := by
    intro part
    cases part <;> rfl
  have created := separate.create heap _ empty
  have named := created.setSpace (Nat.lt_succ_self vm.nextSpace) (some source.withoutPages) (by
    intro space same
    cases same
    exact source.withoutPages_pbase)
  simp only [ensures_bind]
  rw [ensures_deref_of (by exact (update_of_ne different _ _).trans held),
    ensures_deref_of (update_self _ _ _), ensures_store, ensures_attempt]
  apply (named.asPrepareLoad_spec (update_self _ _ _) exact).mono
  · intro _ _
    trivial
  · rintro _ vm' ⟨space', refitted⟩
    have used : vm.nextSpace < vm'.nextSpace := by
      rw [refitted.nextSpace]
      exact Nat.lt_succ_self _
    apply refitted.separate.setSpace used none
    intro _ gone
    cases gone
  · rintro _ vm' ⟨copy, refitted⟩
    have oldHeld : vm'.spaces old = some source := by
      rw [refitted.others old different]
      exact ((update_of_ne different _ _).trans (update_of_ne different _ _)).trans held
    have npages : ∀ part, copy.npages part = source.npages part := by
      intro part
      rw [refitted.npages]
      cases part <;> rfl
    have vbase : ∀ part, copy.vbase part = source.vbase part := by
      intro part
      rw [refitted.vbase]
      cases part <;> rfl
    simp only [ensures_bind]
    apply (asCopyPages_spec refitted.separate refitted.held npages oldHeld).imp
    rintro _ _ ⟨taken, rfl⟩
    refine ⟨copy, refitted.separate.congr rfl rfl rfl rfl, oldHeld, refitted.held, different, vbase,
      npages, taken, ?_⟩
    simp only [refitted.mem]
    rfl

theorem mapping_of_ready (held : vm.spaces as = some space) (ready : space.Ready) (page : Nat) :
    vm.mapping as page = vmFaultLookup space page := by
  simp only [mapping, held, if_pos ready]

namespace Copied

variable {vm' : Vm} {old new : Nat} {source copy : Addrspace}

theorem lookup_isSome (copied : vm.Copied old source new vm' copy) (page : Nat) :
    (vmFaultLookup copy page).isSome = (vmFaultLookup source page).isSome := by
  rw [lookup_eq, lookup_eq, lookupPart_of_same_regions copied.vbase copied.npages,
    Option.isSome_map, Option.isSome_map]

theorem ready (copied : vm.Copied old source new vm' copy) (ready : source.Ready) : copy.Ready := by
  apply ready.of_same_regions copied.vbase copied.npages copied.taken
  exact copied.separate.whole new copy copied.newHeld

/-- A byte of the source, where it is in the source and where it is in the copy. -/
theorem located (copied : vm.Copied old source new vm' copy) {page frame offset : Nat}
    (mapped : vm'.mapping old page = some frame) (aligned : page % pageSize = 0)
    (inside : offset < pageSize) :
    vm'.mem (frame + offset) = vm.mem (frame + offset) ∧
      ∃ frame', vm'.mapping new page = some frame' ∧
        vm'.mem (frame' + offset) = vm.mem (frame + offset) := by
  obtain ⟨_, part, region, held, ready, found, holds, low, frameEq, _, within⟩ :=
    copied.separate.located mapped aligned
  cases copied.oldHeld.symm.trans held
  have newReady := copied.ready ready
  have newMapped : vm'.mapping new page =
      some (uint32 (page - copy.vbase part + copy.pbase part)) := by
    rw [mapping_of_ready copied.newHeld newReady, lookup_eq,
      lookupPart_of_same_regions copied.vbase copied.npages, found, map_some]
  obtain ⟨_, part', region', held', _, found', _, _, frameEq', _, _⟩ :=
    copied.separate.located newMapped aligned
  cases copied.newHeld.symm.trans held'
  have samePart : part' = part := by
    rw [lookupPart_of_same_regions copied.vbase copied.npages, found] at found'
    exact (Option.some.inj found').symm
  subst samePart
  rw [copied.vbase] at frameEq'
  obtain ⟨_, high⟩ := lookupPart_bounds found
  have virtual := (ready.aligned part').1
  have small : page - source.vbase part' + offset < source.npages part' * pageSize := by
    simp only [pageSize] at *
    omega
  refine ⟨?_, _, newMapped, ?_⟩
  · rw [copied.mem]
    apply copyParts_apart copied.separate copied.newHeld copied.npages copied.taken holds
    · intro part same
      injection same with same
      exact copied.different same
    · exact Region.mem_addresses.mpr ⟨by omega, by omega⟩
  · rw [copied.vbase, frameEq', frameEq, copied.mem,
      Nat.add_right_comm, Nat.add_comm _ (copy.pbase part'),
      copyParts_at copied.separate copied.oldHeld copied.newHeld copied.different copied.npages
        copied.taken (ready.taken part') small]
    congr 1
    omega

/-- What can be read through the source is read through the copy too, and is as before. -/
theorem read_eq (copied : vm.Copied old source new vm' copy) (held : vm.spaces old = some source)
    {address : Nat} {byte : UInt8} (readable : vm'.read old address = some byte) :
    vm.read old address = some byte ∧ vm'.read new address = some byte := by
  simp only [read, map_eq_some_iff] at readable ⊢
  rcases readable with ⟨frame, mapped, rfl⟩
  obtain ⟨kept, frame', newMapped, same⟩ := copied.located mapped (pageFrame_mod address)
    (Nat.mod_lt _ (Nat.succ_pos _))
  refine ⟨⟨frame, ?_, kept.symm⟩, frame', newMapped, same.trans kept.symm⟩
  simp only [mapping, held, copied.oldHeld] at mapped ⊢
  exact mapped

end Copied

end Vm

/-! ## Runs -/

/-- The calls that a run is made of. -/
inductive SpaceOp where
  | create
  | defineRegion (as vaddr sz : Nat)
  | prepareLoad (as : Nat)
  | copy (old : Nat)
  | destroy (as : Nat)
  | kernelPages (npages : Nat)

namespace SpaceOp

def exec : SpaceOp → VmM Unit
  | create => do
      let _ ← Vm.asCreate
      pure ()
  | defineRegion as vaddr sz => Vm.asDefineRegion as vaddr sz
  | prepareLoad as => Vm.asPrepareLoad as
  | copy old => do
      let _ ← Vm.asCopy old
      pure ()
  | destroy as => Vm.asDestroy as
  | kernelPages npages => do
      let _ ← Vm.kernelPages npages
      pure ()

/-- The call is for an address space that exists, and its requests for pages do not overflow. -/
def NoOverflow (vm : Vm) : SpaceOp → Prop
  | create => True
  | defineRegion as vaddr sz =>
      (vm.spaces as).isSome ∧ vaddr < 2 ^ 32 ∧ sz + vaddr % pageSize + (pageSize - 1) < 2 ^ 32
  | prepareLoad as | copy as =>
      ∃ space ∈ vm.spaces as, vm.ram.Prepares space.asNpages1 space.asNpages2
  | destroy as => (vm.spaces as).isSome
  | kernelPages npages => vm.ram.Exact npages

/-- Regions are defined before the pages of the address space are taken. -/
def InOrder (vm : Vm) : SpaceOp → Prop
  | defineRegion as _ _ => ∀ space ∈ vm.spaces as, space.asPbase1 = 0
  | _ => True

instance (vm : Vm) : (op : SpaceOp) → Decidable (op.NoOverflow vm)
  | create => inferInstanceAs (Decidable True)
  | defineRegion _ _ _ => inferInstanceAs (Decidable (_ ∧ _ ∧ _))
  | prepareLoad _ => inferInstanceAs (Decidable (∃ space ∈ _, Ram.Prepares _ _ _))
  | copy _ => inferInstanceAs (Decidable (∃ space ∈ _, Ram.Prepares _ _ _))
  | destroy _ => inferInstanceAs (Decidable (_ = true))
  | kernelPages _ => inferInstanceAs (Decidable (Ram.Exact _ _))

instance (vm : Vm) : (op : SpaceOp) → Decidable (op.InOrder vm)
  | defineRegion _ _ _ => inferInstanceAs (Decidable (∀ space ∈ _, _ = 0))
  | create | prepareLoad _ | copy _ | destroy _ | kernelPages _ => inferInstanceAs (Decidable True)

end SpaceOp

/-- What may be different when the next call is made: the memory, which programs write to, the
TLB, and how much memory the kernel heap has. -/
structure Surroundings where
  mem : Bytes
  tlb : Nat → TlbEntry
  heap : KHeap

def Vm.amid (vm : Vm) (around : Surroundings) : Vm :=
  { vm with mem := around.mem, tlb := around.tlb, heap := around.heap }

/-- All runs without overflow. -/
def spaceMachine : Machine Panic Vm Errno SpaceOp Surroundings where
  exec := SpaceOp.exec
  Enabled op vm := op.NoOverflow vm
  arm := Vm.amid

/-- The runs in which regions are defined first. -/
def orderlyMachine : Machine Panic Vm Errno SpaceOp Surroundings where
  exec := SpaceOp.exec
  Enabled op vm := op.NoOverflow vm ∧ op.InOrder vm
  arm := Vm.amid

/-- Nothing has been taken from the memory that is left after the kernel was loaded. -/
def Vm.Booted (vm : Vm) : Prop :=
  vm.spaces = (fun _ => none) ∧ vm.kpages = [] ∧ vm.ram.firstpaddr < 2 ^ 32 ∧
    vm.ram.firstpaddr % pageSize = 0

namespace Vm

variable {vm : Vm}

theorem Booted.separate (booted : vm.Booted) : vm.Separate := by
  obtain ⟨spaces, kpages, word, aligned⟩ := booted
  constructor
  · apply (Stacked.empty vm.ram.firstpaddr).mono (le_refl _)
    intro owner r held
    cases owner <;> simp [Vm.holds, spaces, kpages] at held
  · exact word
  · exact aligned
  · intro as _
    rw [spaces]
  · intro as space held
    rw [spaces] at held
    cases held
  · intro as space held
    rw [spaces] at held
    cases held

theorem Separate.amid (separate : vm.Separate) (around : Surroundings) :
    (vm.amid around).Separate :=
  separate.congr rfl rfl rfl rfl

theorem Separate.exec {op : SpaceOp} (separate : vm.Separate) (noOverflow : op.NoOverflow vm)
    (inOrder : op.InOrder vm) :
    Ensures op.exec vm (fun _ => True) (fun _ vm' => vm'.Separate)
      (fun _ vm' => vm'.Separate) := by
  cases op with
  | create =>
      rw [SpaceOp.exec, ensures_bind]
      exact asCreate_separate separate
  | defineRegion as vaddr sz => exact asDefineRegion_separate separate inOrder
  | prepareLoad as =>
      obtain ⟨space, held, exact⟩ := noOverflow
      apply (separate.asPrepareLoad_spec held exact).mono
      · exact fun _ => id
      · rintro _ _ ⟨_, refitted⟩
        exact refitted.separate
      · rintro _ _ ⟨_, refitted⟩
        exact refitted.separate
  | copy old =>
      obtain ⟨space, held, exact⟩ := noOverflow
      rw [SpaceOp.exec, ensures_bind]
      apply (separate.asCopy_spec held exact).imp
      rintro _ _ ⟨_, copied⟩
      exact copied.separate
  | destroy as =>
      obtain ⟨space, held⟩ := isSome_iff_exists.mp noOverflow
      exact separate.setSpace (separate.used held) none (fun _ gone => nomatch gone)
  | kernelPages npages =>
      rw [SpaceOp.exec, ensures_bind]
      exact kernelPages_separate separate noOverflow

theorem separate_of_reachable (reachable : orderlyMachine.Reachable Booted vm) : vm.Separate := by
  apply reachable.invariant
  · exact fun _ booted => booted.separate
  · rintro vm op around _ ⟨noOverflow, inOrder⟩ separate
    exact (separate.amid around).exec noOverflow inOrder

/-- Address spaces do not see each other's memory, nor the kernel's, and copies are faithful. -/
structure Isolated (vm : Vm) : Prop where
  /-- What `mapping` says is what `vm_fault` does. -/
  faults : ∀ as faulttype address,
    Prog.Ensures (vmFault (some as) faulttype address) vm
      (fun _ => faulttype = .readonly ∨ vm.mapping as (pageFrame address) = none)
      (fun _ vm' => vm' = vm)
      (fun _ vm' => ∃ i frame, vm.mapping as (pageFrame address) = some frame ∧
        vm' = vm.install i (pageFrame address) frame)
  spaces : ∀ as as' page page' frame frame', as ≠ as' → page % pageSize = 0 →
    page' % pageSize = 0 → vm.mapping as page = some frame → vm.mapping as' page' = some frame' →
    (frameRegion frame).Apart (frameRegion frame')
  kernel : ∀ as page frame, page % pageSize = 0 → vm.mapping as page = some frame →
    ∀ region ∈ vm.kpages, (frameRegion frame).Apart region
  pages : ∀ as page page' frame frame', page ≠ page' → page % pageSize = 0 →
    page' % pageSize = 0 → vm.mapping as page = some frame → vm.mapping as page' = some frame' →
    (frameRegion frame).Apart (frameRegion frame')
  copies : ∀ old source, vm.spaces old = some source →
    vm.ram.Prepares source.asNpages1 source.asNpages2 →
    Prog.Ensures (asCopy old) vm (fun _ => True) (fun _ _ => True) (fun new vm' => ∃ copy,
      vm'.spaces old = some source ∧ vm'.spaces new = some copy ∧
      (∀ page, (vmFaultLookup copy page).isSome = (vmFaultLookup source page).isSome) ∧
      ∀ address byte, vm'.read old address = some byte →
        vm.read old address = some byte ∧ vm'.read new address = some byte)
  writes : ∀ as as' address address' byte, as ≠ as' →
    (vm.write as address byte).read as' address' = vm.read as' address'

theorem Separate.isolated (separate : vm.Separate) : vm.Isolated where
  faults as faulttype address := separate.vmFault_spec faulttype address
  spaces as as' page page' frame frame' different aligned aligned' mapped mapped' :=
    separate.spaces_apart different aligned aligned' mapped mapped'
  kernel as page frame aligned mapped region member :=
    separate.kernel_apart aligned mapped member
  pages as page page' frame frame' different aligned aligned' mapped mapped' :=
    separate.pages_apart different aligned aligned' mapped mapped'
  copies := by
    intro old source held exact
    apply (separate.asCopy_spec held exact).mono
    · exact fun _ => id
    · exact fun _ _ _ => trivial
    · rintro new vm' ⟨copy, copied⟩
      refine ⟨copy, copied.oldHeld, copied.newHeld, copied.lookup_isSome, ?_⟩
      intro address byte readable
      exact copied.read_eq held readable
  writes as as' address address' byte different :=
    separate.read_write different address address' byte

end Vm

/-- In every state of a run in which regions are defined first, and with any memory, the address
spaces are isolated. -/
theorem address_spaces_isolated {vm : Vm} (reachable : orderlyMachine.Reachable Vm.Booted vm)
    (around : Surroundings) : (vm.amid around).Isolated := by
  have separate := Vm.separate_of_reachable reachable
  exact (separate.amid around).isolated

/-- A machine with three megabytes left. -/
def smallMachine : Vm where
  ram := ⟨0x100000, 0x400000⟩
  mem _ := 0
  tlb _ := ⟨0, 0⟩
  spaces _ := none
  nextSpace := 0
  kpages := []
  heap := enoughMemory

def quiet : Surroundings :=
  ⟨smallMachine.mem, smallMachine.tlb, enoughMemory⟩

theorem smallMachine_booted : smallMachine.Booted :=
  ⟨rfl, rfl, by decide, by decide⟩

instance (vm : Vm) (op : SpaceOp) : Decidable (spaceMachine.Enabled op vm) :=
  inferInstanceAs (Decidable (op.NoOverflow vm))

instance (vm : Vm) (op : SpaceOp) : Decidable (orderlyMachine.Enabled op vm) :=
  inferInstanceAs (Decidable (op.NoOverflow vm ∧ op.InOrder vm))

/-- A program with two regions, and a copy of it. -/
theorem address_spaces_isolated_after_copy :
    ∃ vm : Vm, vm.mapping 0 0x400000 = some 0x100000 ∧ vm.mapping 1 0x400000 = some 0x10F000 ∧
      (vm.amid quiet).Isolated := by
  have computed : ((orderlyMachine.execute smallMachine [(.create, quiet),
      (.defineRegion 0 0x400010 0x1000, quiet), (.defineRegion 0 0x10000000 0x800, quiet),
      (.prepareLoad 0, quiet), (.copy 0, quiet)]).any fun vm =>
      vm.mapping 0 0x400000 == some 0x100000 && vm.mapping 1 0x400000 == some 0x10F000) = true := by
    decide +kernel
  rcases (any_eq_true _ _).mp computed with ⟨vm, executed, facts⟩
  simp only [Bool.and_eq_true, beq_iff_eq] at facts
  have reachable := (Machine.Reachable.start smallMachine_booted).execute executed
  exact ⟨vm, facts.1, facts.2, address_spaces_isolated reachable quiet⟩

/-- When the regions are defined after the pages have been taken, both begin with the first page
of the stack. -/
theorem region_defined_late_shares_frame :
    ∃ vm : Vm, spaceMachine.Reachable Vm.Booted vm ∧
      vm.mapping 0 0x400000 = some 0x100000 ∧ vm.mapping 0 0x10000000 = some 0x100000 := by
  have computed : ((spaceMachine.execute smallMachine [(.create, quiet), (.prepareLoad 0, quiet),
      (.defineRegion 0 0x400000 0x1000, quiet), (.defineRegion 0 0x10000000 0x1000, quiet)]).any
      fun vm => vm.mapping 0 0x400000 == some 0x100000 &&
        vm.mapping 0 0x10000000 == some 0x100000) = true := by
    decide +kernel
  rcases (any_eq_true _ _).mp computed with ⟨vm, executed, facts⟩
  simp only [Bool.and_eq_true, beq_iff_eq] at facts
  exact ⟨vm, (Machine.Reachable.start smallMachine_booted).execute executed, facts⟩

end Os161
