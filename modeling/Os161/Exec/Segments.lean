import Os161.Exec.Loadelf

/-!
# What the headers of an executable say

The two loops of `load_elf` read the same headers. As a function of the file they are a list
of segments, which may end with an error; the first loop makes of them the two regions of an
address space that has none, or finds that there are too many.
-/

namespace Os161

open Addrspace

attribute [local irreducible] int32 uint32

/-- How a read goes wrong: it fails, or the kernel panics in it. -/
inductive Unread where
  | failed (failure : Errno)
  | panicked (reason : Panic)
  deriving DecidableEq

/-- Go on as a read has ended. -/
def ofRead {σ α : Type} : Except Unread α → Prog Panic σ Errno α
  | .ok value => pure value
  | .error (.failed failure) => fail failure
  | .error (.panicked reason) => halt reason

namespace Reading

/-- How the call ends if no move fails. -/
def ending : Reading → Except Unread Unit
  | .done => .ok ()
  | .fail failure => .error (.failed failure)
  | .panic reason => .error (.panicked reason)
  | .move _ _ next => next.ending

/-- Moves to the kernel do not fail. -/
theorem run_moveBytes (reading : Reading) {ku : Uio} (fits : ku.Fits reading.total)
    (sysspace : ku.uioSegflg = .sysspace) (isRead : ku.uioRw = .read) :
    Ensures (reading.run ElfFile.moveBytes) ku
      (fun reason => reading.ending = .error (.panicked reason))
      (fun failure _ => reading.ending = .error (.failed failure))
      (fun _ ku' => reading.ending = .ok () ∧
        ku' = (ku.fill reading.total reading.bytes).advance reading.total) := by
  induction reading generalizing ku with
  | done =>
      refine ⟨rfl, ?_⟩
      rw [total, Uio.fill_zero, fits.advance_zero]
  | fail failure => rfl
  | panic reason => rfl
  | move source n next ih =>
      have fits : ku.Fits (n + next.total) := fits
      rw [run, ensures_bind, ElfFile.moveBytes, ensures_bind]
      apply (Uio.uiomove_spec (fits.mono (Nat.le_add_right _ _)) source).mono
        (fun _ impossible => impossible.elim)
        (fun _ _ failed => absurd (Or.inl sysspace) failed.2.1)
      rintro _ _ ⟨_, between, ⟨writing, _⟩ | ⟨_, _, rfl⟩, rfl⟩
      · cases writing.symm.trans isRead
      · apply (ih ((fits.fill n source).advance) sysspace isRead).imp
        rintro _ ku' ⟨ended, rfl⟩
        refine ⟨ended, ?_⟩
        rw [Uio.fill_advance_fill, Uio.advance_advance]
        rfl

end Reading

namespace ElfFile

variable {file : ElfFile} {σ : Type}

/-- What `VOP_READ` into the kernel gives, with the test for a short read. -/
def bytes (file : ElfFile) (len : Nat) (pos : Int) : Except Unread Bytes :=
  match (file.vopRead len pos).ending with
  | .error bad => .error bad
  | .ok () =>
      if (file.vopRead len pos).total = len then
        .ok (Bytes.overlay (fun _ => 0) 0 len (file.vopRead len pos).bytes)
      else
        .error (.failed .enoexec)

theorem readKernel_eq {len : Nat} {pos : Int} (small : len < 2 ^ 32)
    (low : -2 ^ 31 ≤ pos) (high : pos < 2 ^ 31) :
    (file.readKernel len pos : Prog Panic σ Errno Bytes) = ofRead (file.bytes len pos) := by
  have short := file.within len pos
  have fits : (mkKuio (fun _ => 0) len pos .read).Fits (file.vopRead len pos).total :=
    ⟨short, short, small, rfl, low, high⟩
  funext s
  rw [readKernel, bytes]
  rcases ((file.vopRead len pos).run_moveBytes fits rfl rfl).outcomes with
    ⟨reason, outcome, ended⟩ | ⟨failure, ku, outcome, ended⟩ | ⟨_, ku, outcome, ended, isMoved⟩
  · rw [ended]
    apply bind_of_halt
    simp only [withLocal, zoom, outcome]
  · rw [ended]
    apply Prog.bind_of_fail
    simp only [withLocal, zoom, outcome]
  · have read : (withLocal (mkKuio (fun _ => 0) len pos .read)
        (zoom Prod.snd (fun ku s => (s.1, ku)) ((file.vopRead len pos).run moveBytes)) :
        Prog Panic σ Errno _) s = .ok (.ok ((), ku), s) := by
      simp only [withLocal, zoom, outcome]
    have resid : ku.uioResid = len - (file.vopRead len pos).total := by rw [isMoved]; rfl
    rw [bind_of_ok read, ended]
    by_cases whole : (file.vopRead len pos).total = len
    · have kernel : ku.mem.kernel =
          Bytes.overlay (fun _ => 0) 0 len (file.vopRead len pos).bytes := by
        rw [isMoved, whole]
        rfl
      simp only [whole, Nat.sub_self] at resid
      simp only [resid, kernel, if_pos whole]
      rfl
    · have short' : ku.uioResid ≠ 0 := by omega
      simp only [if_pos short', if_neg whole]
      rfl

def ehdr (file : ElfFile) : Except Unread Ehdr :=
  (file.bytes Ehdr.size 0).map Ehdr.ofBytes

def phdr (file : ElfFile) (eh : Ehdr) (i : Nat) : Except Unread Phdr :=
  (file.bytes Phdr.size (eh.phdrOffset i)).map Phdr.ofBytes

end ElfFile

/-- The segments up to the first header that is bad, and what it is. -/
def scan (header : Nat → Except Unread Phdr) : List Nat → List Phdr × Option Unread
  | [] => ([], none)
  | i :: rest =>
      match header i with
      | .error bad => ([], some bad)
      | .ok ph =>
          match ph.kind with
          | .skip => scan header rest
          | .unknown => ([], some (.failed .enoexec))
          | .load => (ph :: (scan header rest).1, (scan header rest).2)

namespace Loading

variable {file : ElfFile} {eh : Ehdr} {s : Loading} {as : Nat} {space : Addrspace}

theorem readPhdr_eq (file : ElfFile) (eh : Ehdr) (i : Nat) :
    readPhdr file eh i = ofRead (file.phdr eh i) := by
  have low : -2 ^ 31 ≤ eh.phdrOffset i := le_int32 _
  have high : eh.phdrOffset i < 2 ^ 31 := int32_lt _
  rw [readPhdr, ElfFile.readKernel_eq (by decide) low high, ElfFile.phdr]
  rcases file.bytes Phdr.size (eh.phdrOffset i) with (_ | _) | _ <;> rfl

def runSegments (segment : Phdr → LoadM Unit) : List Phdr → LoadM Unit
  | [] => pure ()
  | ph :: rest => do
      segment ph
      runSegments segment rest

def stop : Option Unread → LoadM Unit
  | none => pure ()
  | some bad => ofRead (.error bad)

theorem ofRead_ok_bind {α β : Type} (value : α) (next : α → LoadM β) :
    (ofRead (.ok value) >>= next) = next value :=
  rfl

theorem forSegments_eq (header : Nat → Except Unread Phdr) (segment : Phdr → LoadM Unit)
    (is : List Nat) :
    forSegments (fun i => ofRead (header i)) segment is = (do
      runSegments segment (scan header is).1
      stop (scan header is).2) := by
  induction is with
  | nil => rfl
  | cons i rest ih =>
      rw [forSegments, scan]
      rcases header i with (_ | _) | ph
      · rfl
      · rfl
      · simp only [ofRead_ok_bind]
        cases ph.kind with
        | skip => exact ih
        | unknown => rfl
        | load =>
            simp only [runSegments, ih]
            exact (Prog.bind_assoc _ _ _).symm

end Loading

/-! ## Regions -/

/-- `as_define_region`, as a function of the address space. -/
def Addrspace.define (space : Addrspace) (vaddr sz : Nat) : Option Addrspace :=
  if space.asVbase1 = 0 then
    some { space with asVbase1 := pageFrame vaddr, asNpages1 := Vm.regionNpages vaddr sz }
  else if space.asVbase2 = 0 then
    some { space with asVbase2 := pageFrame vaddr, asNpages2 := Vm.regionNpages vaddr sz }
  else
    none

def Addrspace.defineAll (space : Addrspace) : List Phdr → Option Addrspace
  | [] => some space
  | ph :: rest =>
      match space.define ph.pVaddr ph.pMemsz with
      | some space => space.defineAll rest
      | none => none

/-- What `as_create` makes. -/
def Addrspace.blank : Addrspace :=
  ⟨0, 0, 0, 0, 0, 0, 0⟩

/-- The header that a region is made for, and the headers after it: a region counts as defined
once its page base is not zero, so each header with page base zero is replaced by the next. -/
def slot : List Phdr → Option Phdr × List Phdr
  | [] => (none, [])
  | ph :: rest =>
      if pageFrame ph.pVaddr = 0 ∧ rest ≠ [] then
        slot rest
      else
        (some ph, rest)

/-- The header of the first region, that of the second, and the headers for which there is no
region. -/
def regionHeaders (segments : List Phdr) : Option Phdr × Option Phdr × List Phdr :=
  ((slot segments).1, slot (slot segments).2)

namespace Phdr

def base : Option Phdr → Nat
  | none => 0
  | some ph => pageFrame ph.pVaddr

def npages : Option Phdr → Nat
  | none => 0
  | some ph => Vm.regionNpages ph.pVaddr ph.pMemsz

end Phdr

theorem Addrspace.defineAll_cons {space space' : Addrspace} {ph : Phdr} (rest : List Phdr)
    (define : space.define ph.pVaddr ph.pMemsz = some space') :
    space.defineAll (ph :: rest) = space'.defineAll rest := by
  simp only [defineAll, define]

/-- While a region has page base zero, `as_define_region` replaces it; `set` says how. -/
theorem Addrspace.defineAll_slot (set : Nat → Nat → Addrspace)
    (define : ∀ vaddr sz npages, (set 0 npages).define vaddr sz =
      some (set (pageFrame vaddr) (Vm.regionNpages vaddr sz)))
    (segments : List Phdr) (npages : Nat) (some : segments ≠ []) :
    (set 0 npages).defineAll segments =
      (set (Phdr.base (slot segments).1) (Phdr.npages (slot segments).1)).defineAll
        (slot segments).2 := by
  induction segments generalizing npages with
  | nil => exact absurd rfl some
  | cons ph rest ih =>
      rw [defineAll_cons rest (define _ _ _), slot]
      by_cases replaced : pageFrame ph.pVaddr = 0 ∧ rest ≠ []
      · rw [if_pos replaced, replaced.1, ih _ replaced.2]
      · rw [if_neg replaced, Phdr.base, Phdr.npages]

variable {segments : List Phdr}

/-- Headers are left only behind one with a page base that is not zero. -/
theorem base_slot_ne_zero (left : (slot segments).2 ≠ []) : Phdr.base (slot segments).1 ≠ 0 := by
  induction segments with
  | nil => exact absurd rfl left
  | cons ph rest ih =>
      rw [slot] at left ⊢
      split_ifs at left ⊢ with replaced
      · exact ih left
      · intro zero
        exact replaced ⟨zero, left⟩

def Addrspace.ofHeaders (first second : Option Phdr) : Addrspace :=
  ⟨Phdr.base first, 0, Phdr.npages first, Phdr.base second, 0, Phdr.npages second, 0⟩

theorem Addrspace.defineAll_regionHeaders (segments : List Phdr) :
    blank.defineAll segments =
      (ofHeaders (regionHeaders segments).1 (regionHeaders segments).2.1).defineAll
        (regionHeaders segments).2.2 := by
  by_cases none : segments = []
  · rw [none]
    rfl
  · have first := defineAll_slot (fun vbase npages => ⟨vbase, 0, npages, 0, 0, 0, 0⟩)
      (fun _ _ _ => rfl) segments 0 none
    rw [blank, first, regionHeaders]
    by_cases last : (slot segments).2 = []
    · rw [last]
      rfl
    · have base := base_slot_ne_zero last
      exact defineAll_slot (fun vbase npages => ⟨Phdr.base (slot segments).1, 0,
          Phdr.npages (slot segments).1, vbase, 0, npages, 0⟩)
        (fun _ _ _ => by rw [define, if_neg base, if_pos rfl]) _ 0 last

/-- The first loop of `load_elf` succeeds when there is a region for each header. -/
theorem Addrspace.defineAll_blank (fits : (regionHeaders segments).2.2 = []) :
    blank.defineAll segments =
      some (ofHeaders (regionHeaders segments).1 (regionHeaders segments).2.1) := by
  rw [defineAll_regionHeaders, fits, defineAll]

theorem Addrspace.defineAll_blank_none (left : (regionHeaders segments).2.2 ≠ []) :
    blank.defineAll segments = none := by
  have base' : Phdr.base (regionHeaders segments).2.1 ≠ 0 := base_slot_ne_zero left
  have base : Phdr.base (regionHeaders segments).1 ≠ 0 := by
    apply base_slot_ne_zero
    intro last
    simp only [regionHeaders, last] at left
    exact left rfl
  rcases List.exists_cons_of_ne_nil left with ⟨ph, rest, eq⟩
  rw [defineAll_regionHeaders, eq, defineAll, define, ofHeaders, if_neg base, if_neg base']

namespace Loading

variable {file : ElfFile} {eh : Ehdr} {s : Loading} {as : Nat} {space : Addrspace}
  {panics : Panic → Prop} {fails : Errno → Loading → Prop} {returns : Unit → Loading → Prop}

def withSpace (as : Nat) (space : Addrspace) (s : Loading) : Loading :=
  { s with vm := s.vm.setSpace as (some space) }

theorem withSpace_self (held : s.vm.spaces as = some space) : withSpace as space s = s := by
  simp only [withSpace, Vm.setSpace]
  rw [← held, update_eq_self]

theorem withSpace_withSpace (space' : Addrspace) :
    withSpace as space' (withSpace as space s) = withSpace as space' s := by
  simp only [withSpace, Vm.setSpace, update_idem]

theorem ensures_defineRegion (held : s.vm.spaces as = some space) (vaddr sz : Nat) :
    Ensures (onVm (Vm.asDefineRegion as vaddr sz)) s panics fails returns ↔
      match space.define vaddr sz with
      | some space' => returns () (withSpace as space' s)
      | none => fails .eunimp s := by
  rw [onVm, ensures_zoom, Vm.asDefineRegion, ensures_bind, Vm.ensures_deref_of held,
    define, ensures_ite, ensures_ite]
  split_ifs <;> rfl

theorem defineAll_spec (held : s.vm.spaces as = some space) (segments : List Phdr) :
    Ensures (runSegments (fun ph => onVm (Vm.asDefineRegion as ph.pVaddr ph.pMemsz))
        segments) s (fun _ => False) (fun _ _ => space.defineAll segments = none)
      (fun _ s' => ∃ space', space.defineAll segments = some space' ∧
        s' = withSpace as space' s) := by
  induction segments generalizing s space with
  | nil => exact ⟨space, rfl, (withSpace_self held).symm⟩
  | cons ph rest ih =>
      rw [runSegments, ensures_bind, ensures_defineRegion held, defineAll]
      cases space.define ph.pVaddr ph.pMemsz with
      | none => rfl
      | some next =>
          have held' : (withSpace as next s).vm.spaces as = some next :=
            update_self _ _ _
          apply (ih held').imp
          rintro _ s' ⟨space', defined, rfl⟩
          exact ⟨space', defined, withSpace_withSpace space'⟩

end Loading

end Os161
