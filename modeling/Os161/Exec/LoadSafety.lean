import Os161.Exec.UserMemory

/-!
# What a load does

The file decides how its load ends. If its headers make two regions, the address space is set up
properly and no access can hurt; if they do not, the first byte of a segment that reaches user
memory runs into the assertions of `vm_fault`, unless something was refused before.
-/

namespace Os161

/-! ## Frames for the address space -/

namespace Ram

variable {ram : Ram}

theorem paddr_aligned (aligned : ram.firstpaddr % pageSize = 0) (npages : Nat) :
    ram.paddr npages % pageSize = 0 := by
  rw [paddr]
  split_ifs
  · rfl
  · exact aligned

theorem after_aligned (aligned : ram.firstpaddr % pageSize = 0) (npages : Nat) :
    (ram.after npages).firstpaddr % pageSize = 0 := by
  rw [after]
  split_ifs
  · exact aligned
  · simp only [uint32, pageSize] at aligned ⊢
    omega

/-- There is memory for the pages of both regions and of the stack. -/
def Grants (ram : Ram) (npages1 npages2 : Nat) : Prop :=
  ram.paddr npages1 ≠ 0 ∧ (ram.after npages1).paddr npages2 ≠ 0 ∧
    ((ram.after npages1).after npages2).paddr dumbvmStackpages ≠ 0

end Ram

attribute [local irreducible] int32 uint32

namespace Addrspace

variable {space : Addrspace} {ram : Ram}

/-- The address space with the pages that `as_prepare_load` gets for it. -/
def prepared (space : Addrspace) (ram : Ram) : Addrspace :=
  { space with
    asPbase1 := ram.paddr space.asNpages1
    asPbase2 := (ram.after space.asNpages1).paddr space.asNpages2
    asStackpbase := ((ram.after space.asNpages1).after space.asNpages2).paddr dumbvmStackpages }

/-- Both regions are defined, in the sense of the assertions of `vm_fault`. -/
def Defined (space : Addrspace) : Prop :=
  (space.asVbase1 ≠ 0 ∧ space.asNpages1 ≠ 0) ∧ space.asVbase2 ≠ 0 ∧ space.asNpages2 ≠ 0

instance decidableDefined : Decidable space.Defined :=
  inferInstanceAs (Decidable (_ ∧ _))

theorem prepared_ready_iff (granted : ram.Grants space.asNpages1 space.asNpages2)
    (aligned : ram.firstpaddr % pageSize = 0) (vbase1 : space.asVbase1 % pageSize = 0)
    (vbase2 : space.asVbase2 % pageSize = 0) : (space.prepared ram).Ready ↔ space.Defined := by
  rcases granted with ⟨granted1, granted2, granted3⟩
  have aligned2 := Ram.after_aligned aligned space.asNpages1
  have aligned3 := Ram.after_aligned aligned2 space.asNpages2
  constructor
  · rintro ⟨⟨base1, _, pages1⟩, ⟨base2, _, pages2⟩, _⟩
    exact ⟨⟨base1, pages1⟩, base2, pages2⟩
  · rintro ⟨⟨base1, pages1⟩, base2, pages2⟩
    exact ⟨⟨base1, granted1, pages1⟩, ⟨base2, granted2, pages2⟩, granted3,
      ⟨pageFrame_eq_iff.mpr vbase1, pageFrame_eq_iff.mpr (Ram.paddr_aligned aligned _)⟩,
      ⟨pageFrame_eq_iff.mpr vbase2, pageFrame_eq_iff.mpr (Ram.paddr_aligned aligned2 _)⟩,
      pageFrame_eq_iff.mpr (Ram.paddr_aligned aligned3 _)⟩

end Addrspace

namespace Phdr

theorem base_aligned (ph : Option Phdr) : base ph % pageSize = 0 := by
  cases ph with
  | none => rfl
  | some ph => exact Vm.pageFrame_mod ph.pVaddr

end Phdr

namespace Loading

variable {s s' : Loading} {as : Nat} {space : Addrspace} {file : ElfFile}

theorem prepareLoad_spec (held : s.vm.spaces as = some space) (untaken1 : space.asPbase1 = 0)
    (untaken2 : space.asPbase2 = 0) (untaken3 : space.asStackpbase = 0) :
    Ensures (onVm (Vm.asPrepareLoad as)) s (fun _ => False)
      (fun _ _ => ¬s.vm.ram.Grants space.asNpages1 space.asNpages2)
      (fun _ s' => s.vm.ram.Grants space.asNpages1 space.asNpages2 ∧
        s'.vm.spaces as = some (space.prepared s.vm.ram) ∧ s'.vm.tlb = s.vm.tlb ∧
        s'.vm.mem = s.vm.mem ∧ s'.switches = s.switches) := by
  rw [onVm, ensures_zoom, Vm.asPrepareLoad, ensures_bind, Vm.ensures_deref_of held,
    ensures_bind, ensures_assert_of untaken1, ensures_bind,
    ensures_assert_of untaken2, ensures_bind, ensures_assert_of untaken3,
    ensures_bind, Vm.ensures_onRam_getppages, ensures_bind, Vm.ensures_store]
  apply ensures_branch
  · intro refused granted
    exact granted.1 refused
  intro granted1
  rw [ensures_bind, Vm.ensures_onRam_getppages, ensures_bind, Vm.ensures_store]
  apply ensures_branch
  · intro refused granted
    exact granted.2.1 refused
  intro granted2
  rw [ensures_bind, Vm.ensures_onRam_getppages, ensures_bind, Vm.ensures_store]
  apply ensures_branch
  · intro refused granted
    exact granted.2.2 refused
  intro granted3
  have kept : ∀ (vm : Vm) (space : Option Addrspace),
      (vm.setSpace as space).tlb = vm.tlb ∧ (vm.setSpace as space).mem = vm.mem :=
    fun _ _ => ⟨rfl, rfl⟩
  refine ⟨⟨granted1, granted2, granted3⟩, update_self _ _ _, ?_, ?_, rfl⟩
  · rw [(kept _ _).1, (kept _ _).1, (kept _ _).1]
  · rw [(kept _ _).2, (kept _ _).2, (kept _ _).2]

/-! ## The second loop -/

/-- The segments have no address in common. -/
def Apart (first second : Phdr) : Prop :=
  first.pVaddr + first.pMemsz ≤ second.pVaddr ∨ second.pVaddr + second.pMemsz ≤ first.pVaddr

/-- Only the bytes of the segments were written, and those of segments that have none in common
are what the file says. -/
structure Loaded (file : ElfFile) (space : Addrspace) (segments : List Phdr) (s s' : Loading) :
    Prop where
  whole : ∀ ph ∈ segments, (ph.reading file).total = ph.copied
  others : space.Injective → ∀ a,
    (∀ ph ∈ segments, a < ph.pVaddr ∨ ph.pVaddr + ph.pMemsz ≤ a) →
    s'.byteAt space a = s.byteAt space a
  image : space.Injective → segments.Pairwise Apart → ∀ ph ∈ segments, ∀ i < ph.pMemsz,
    s'.byteAt space (ph.pVaddr + i) = some (ph.image file i)

theorem loaded_nil (s : Loading) : Loaded file space [] s s :=
  ⟨fun _ member => (List.not_mem_nil member).elim, fun _ _ _ => rfl,
    fun _ _ _ member => (List.not_mem_nil member).elim⟩

theorem Loaded.cons {s₁ s₂ : Loading} {ph : Phdr} {rest : List Phdr}
    (whole : (ph.reading file).total = ph.copied)
    (wrote : Wrote space ph.pVaddr ph.pMemsz (ph.image file) s s₁)
    (loaded : Loaded file space rest s₁ s₂) : Loaded file space (ph :: rest) s s₂ := by
  refine ⟨?_, ?_, ?_⟩
  · exact forall_mem_cons.mpr ⟨whole, loaded.whole⟩
  · intro injective a outside
    rcases forall_mem_cons.mp outside with ⟨outside₁, outside₂⟩
    rw [loaded.others injective a outside₂, wrote injective, if_neg (by omega)]
  · intro injective apart
    rcases List.pairwise_cons.mp apart with ⟨apart₁, apart₂⟩
    refine forall_mem_cons.mpr ⟨?_, loaded.image injective apart₂⟩
    intro i below
    have outside : ∀ ph' ∈ rest,
        ph.pVaddr + i < ph'.pVaddr ∨ ph'.pVaddr + ph'.pMemsz ≤ ph.pVaddr + i := by
      intro ph' member
      rcases apart₁ ph' member with before | after
      · left
        omega
      · right
        omega
    rw [loaded.others injective _ outside, wrote injective, if_pos (by omega),
      Nat.add_sub_cancel_left]

theorem Loaded.congr {s₁ : Loading} {segments : List Phdr}
    (loaded : Loaded file space segments s₁ s') (mem : s₁.vm.mem = s.vm.mem) :
    Loaded file space segments s s' := by
  refine ⟨loaded.whole, ?_, loaded.image⟩
  intro injective a outside
  rw [loaded.others injective a outside]
  simp only [byteAt, mem]

/-- `load_segment` for a header. -/
def segmentOf (file : ElfFile) (as : Nat) (ph : Phdr) : LoadM Unit :=
  loadSegment file as ph.pOffset ph.pVaddr ph.pMemsz ph.pFilesz

/-- The fate of the segments, one after the other. -/
def fates (file : ElfFile) (space : Addrspace) : List Phdr → Fate
  | [] => .loaded
  | ph :: rest => (ph.fate file space).andThen (fates file space rest)

theorem Prepared.runSegments (prepared : Prepared s as space) {segments : List Phdr}
    (small : ∀ ph ∈ segments, ph.pMemsz < 2 ^ 32) :
    Ensures (runSegments (segmentOf file as) segments) s
      (fun _ => fates file space segments = .fatal)
      (fun _ _ => s.Switching → fates file space segments = .refused)
      (fun _ s' => fates file space segments = .loaded ∧ Prepared s' as space ∧
        Loaded file space segments s s') := by
  induction segments generalizing s with
  | nil => exact ⟨rfl, prepared, loaded_nil s⟩
  | cons ph rest ih =>
      rcases forall_mem_cons.mp small with ⟨small₁, small₂⟩
      rw [Loading.runSegments, ensures_bind, fates]
      apply (prepared.loadSegment small₁).mono
      · intro _ isFatal
        rw [isFatal]
        rfl
      · intro _ _ isRefused switching
        rw [isRefused switching]
        rfl
      rintro _ s₁ ⟨isLoaded, prepared₁, onward, whole, wrote⟩
      rw [Fate.andThen_loaded isLoaded]
      apply (ih prepared₁ small₂).mono (fun _ isFatal => isFatal)
      · exact fun _ _ isRefused switching => isRefused (onward switching)
      · rintro _ s₂ ⟨isLoaded₂, prepared₂, loaded⟩
        exact ⟨isLoaded₂, prepared₂, loaded.cons whole wrote⟩

end Loading

/-! ## The program in a file -/

/-- The kernel panicked. -/
def Unread.Panicked : Unread → Prop
  | .failed _ => False
  | .panicked _ => True

/-- What the headers make of an address space, with the pages for it. -/
def Addrspace.ofSegments (segments : List Phdr) (ram : Ram) : Addrspace :=
  (ofHeaders (regionHeaders segments).1 (regionHeaders segments).2.1).prepared ram

namespace ElfFile

/-- The entry point, the segments, and the header behind them if there is one that is bad. -/
def program (file : ElfFile) : Except Unread (Nat × List Phdr × Option Unread) :=
  match file.ehdr with
  | .error bad => .error bad
  | .ok eh =>
      if eh.executable = false then
        .error (.failed .enoexec)
      else
        .ok (eh.eEntry, scan (file.phdr eh) (List.range eh.ePhnum))

/-- The segments can do no harm: there are too many of them, or too little memory; or what is moved
to user memory does not stop the kernel, and if it is all moved there are two regions. -/
def Harmless (file : ElfFile) (ram : Ram) (segments : List Phdr) : Prop :=
  (regionHeaders segments).2.2 ≠ [] ∨
  ¬ram.Grants (Phdr.npages (regionHeaders segments).1)
    (Phdr.npages (regionHeaders segments).2.1) ∨
  Loading.fates file (.ofSegments segments ram) segments = .refused ∨
  Loading.fates file (.ofSegments segments ram) segments = .loaded ∧
    (Addrspace.ofSegments segments ram).Defined

/-- Neither the reads of the headers nor the segments can do harm. -/
def Loadable (file : ElfFile) (ram : Ram) : Prop :=
  match file.program with
  | .error bad => ¬bad.Panicked
  | .ok (_, segments, some bad) => (regionHeaders segments).2.2 ≠ [] ∨ ¬bad.Panicked
  | .ok (_, segments, none) => file.Harmless ram segments

end ElfFile

theorem Bytes.msb_lt (bytes : Bytes) (start n : Nat) : bytes.msb start n < 256 ^ n := by
  induction n with
  | zero => exact Nat.one_pos
  | succ n ih =>
      have byte := (bytes (start + n)).toNat_lt
      rw [Bytes.msb, Nat.pow_succ]
      omega

theorem scan_forall {header : Nat → Except Unread Phdr} {P : Phdr → Prop}
    (each : ∀ i ph, header i = .ok ph → P ph) (is : List Nat) :
    ∀ ph ∈ (scan header is).1, P ph := by
  induction is with
  | nil => exact fun _ member => (List.not_mem_nil member).elim
  | cons i rest ih =>
      rw [scan]
      cases read : header i with
      | error failure => exact fun _ member => (List.not_mem_nil member).elim
      | ok ph =>
          cases kind : ph.kind with
          | skip =>
              simp only [kind]
              exact ih
          | unknown =>
              simp only [kind]
              exact fun _ member => (List.not_mem_nil member).elim
          | load =>
              simp only [kind]
              exact forall_mem_cons.mpr ⟨each i ph read, ih⟩

namespace ElfFile

variable {file : ElfFile} {eh : Ehdr} {entry i : Nat} {ph : Phdr} {segments : List Phdr}

theorem phdr_small (read : file.phdr eh i = .ok ph) :
    ph.pOffset < 2 ^ 32 ∧ ph.pVaddr < 2 ^ 32 ∧ ph.pMemsz < 2 ^ 32 := by
  rw [phdr] at read
  cases delivered : file.bytes Phdr.size (eh.phdrOffset i) with
  | error failure =>
      rw [delivered] at read
      cases read
  | ok bytes =>
      rw [delivered] at read
      cases read
      exact ⟨bytes.msb_lt 4 4, bytes.msb_lt 8 4, bytes.msb_lt 20 4⟩

theorem program_eq_ok {bad : Option Unread} (program : file.program = .ok (entry, segments, bad)) :
    ∃ eh, file.ehdr = .ok eh ∧ entry = eh.eEntry ∧
      scan (file.phdr eh) (List.range eh.ePhnum) = (segments, bad) := by
  rw [ElfFile.program] at program
  cases header : file.ehdr with
  | error failure =>
      simp only [header] at program
      cases program
  | ok eh =>
      simp only [header] at program
      split_ifs at program
      have same := Except.ok.inj program
      exact ⟨eh, rfl, (congrArg Prod.fst same).symm, congrArg Prod.snd same⟩

theorem program_small {bad : Option Unread} (program : file.program = .ok (entry, segments, bad)) :
    ∀ ph ∈ segments, ph.pOffset < 2 ^ 32 ∧ ph.pVaddr < 2 ^ 32 ∧ ph.pMemsz < 2 ^ 32 := by
  rcases program_eq_ok program with ⟨eh, _, _, scanned⟩
  have all : segments = (scan (file.phdr eh) (List.range eh.ePhnum)).1 := by rw [scanned]
  rw [all]
  apply scan_forall
  intro i ph read
  exact phdr_small read

end ElfFile

namespace Loading

variable {s s' : Loading} {as entry : Nat} {space : Addrspace} {file : ElfFile}
  {segments : List Phdr}

def regionOf (as : Nat) (ph : Phdr) : LoadM Unit :=
  onVm (Vm.asDefineRegion as ph.pVaddr ph.pMemsz)

theorem loadElf_eq (file : ElfFile) (as : Nat) : loadElf file as = (do
    let (entry, segments, bad) ← ofRead file.program
    runSegments (regionOf as) segments
    stop bad
    onVm (Vm.asPrepareLoad as)
    runSegments (segmentOf file as) segments
    stop bad
    pure entry) := by
  have header : ∀ eh, readPhdr file eh = fun i => ofRead (file.phdr eh i) :=
    fun eh => funext fun i => readPhdr_eq file eh i
  rw [loadElf, ElfFile.readKernel_eq (by decide) (by decide) (by decide), ElfFile.program,
    ElfFile.ehdr]
  rcases file.bytes Ehdr.size 0 with (_ | _) | bytes
  · rfl
  · rfl
  · simp only [Except.map, ofRead_ok_bind, header, forSegments_eq, Prog.bind_assoc]
    split_ifs <;> rfl

/-- Right after `as_activate`, in an address space that `as_create` has made. -/
structure Fresh (s : Loading) (as : Nat) : Prop where
  held : s.vm.spaces as = some Addrspace.blank
  invalid : ∀ i < numTlb, ¬(s.vm.tlb i).Valid
  aligned : s.vm.ram.firstpaddr % pageSize = 0

theorem Fresh.ready_iff (fresh : Fresh s as)
    (granted : s.vm.ram.Grants (Phdr.npages (regionHeaders segments).1)
      (Phdr.npages (regionHeaders segments).2.1)) :
    (Addrspace.ofSegments segments s.vm.ram).Ready ↔
      (Addrspace.ofSegments segments s.vm.ram).Defined :=
  Addrspace.prepared_ready_iff granted fresh.aligned (Phdr.base_aligned _) (Phdr.base_aligned _)

/-- The first loop and `as_prepare_load`. -/
theorem Fresh.prepare_spec (fresh : Fresh s as) (segments : List Phdr) :
    Ensures (runSegments (regionOf as) segments) s (fun _ => False)
      (fun _ _ => (regionHeaders segments).2.2 ≠ [])
      (fun _ s₁ => (regionHeaders segments).2.2 = [] ∧
        Ensures (onVm (Vm.asPrepareLoad as)) s₁ (fun _ => False)
          (fun _ _ => ¬s.vm.ram.Grants (Phdr.npages (regionHeaders segments).1)
            (Phdr.npages (regionHeaders segments).2.1))
          (fun _ s₂ => s.vm.ram.Grants (Phdr.npages (regionHeaders segments).1)
              (Phdr.npages (regionHeaders segments).2.1) ∧
            Prepared s₂ as (.ofSegments segments s.vm.ram) ∧ s₂.vm.mem = s.vm.mem ∧
            (s.Switching → s₂.Switching))) := by
  apply (defineAll_spec fresh.held segments).mono (fun _ impossible => impossible.elim)
  · intro _ _ undefined fits
    rw [Addrspace.defineAll_blank fits] at undefined
    cases undefined
  · rintro _ s₁ ⟨space, defined, rfl⟩
    have fits : (regionHeaders segments).2.2 = [] := by
      by_contra left
      rw [Addrspace.defineAll_blank_none left] at defined
      cases defined
    rw [Addrspace.defineAll_blank fits] at defined
    cases defined
    have held₁ : (withSpace as (.ofHeaders (regionHeaders segments).1
        (regionHeaders segments).2.1) s).vm.spaces as = some _ := update_self _ _ _
    refine ⟨fits, ?_⟩
    apply (prepareLoad_spec held₁ rfl rfl rfl).mono (fun _ impossible => impossible)
      (fun _ _ refused => refused)
    rintro _ s₂ ⟨granted, held, tlb, mem, switches⟩
    have invalid : ∀ i < numTlb, ¬(s₂.vm.tlb i).Valid := by
      rw [tlb]
      exact fresh.invalid
    refine ⟨granted, ?_, mem, fun switching i => (congrFun switches i).trans (switching i)⟩
    by_cases ready : (Addrspace.ofSegments segments s.vm.ram).Ready
    · exact Or.inl ⟨held, ready, Vm.tlbOf_of_invalid invalid⟩
    · exact Or.inr ⟨held, ready, invalid⟩

theorem Fresh.loadElf_spec (fresh : Fresh s as) (file : ElfFile) :
    Ensures (loadElf file as) s (fun _ => ¬file.Loadable s.vm.ram)
      (fun _ _ => s.Switching → file.Loadable s.vm.ram)
      (fun entry s' => ∃ segments, file.program = .ok (entry, segments, none) ∧
        Prepared s' as (.ofSegments segments s.vm.ram) ∧
        Loaded file (.ofSegments segments s.vm.ram) segments s s' ∧
        fates file (.ofSegments segments s.vm.ram) segments = .loaded ∧
        (file.Loadable s.vm.ram ↔ (Addrspace.ofSegments segments s.vm.ram).Ready)) := by
  rw [loadElf_eq, ensures_bind]
  rcases program : file.program with (failure | reason) | ⟨entry, segments, bad⟩
  · have loadable : file.Loadable s.vm.ram := by simp [ElfFile.Loadable, program, Unread.Panicked]
    exact fun _ => loadable
  · have harmful : ¬file.Loadable s.vm.ram := by simp [ElfFile.Loadable, program, Unread.Panicked]
    exact harmful
  have small := ElfFile.program_small program
  rw [ofRead, ensures_pure, ensures_bind]
  apply (fresh.prepare_spec segments).mono (fun _ impossible => impossible.elim)
  · intro _ _ left _
    rcases bad with _ | bad <;> simp only [ElfFile.Loadable, program]
    · exact Or.inl left
    · exact Or.inl left
  rintro _ s₁ ⟨fits, preparation⟩
  rw [ensures_bind]
  rcases bad with _ | failure | reason
  · rw [stop, ensures_pure, ensures_bind]
    have loadable : file.Loadable s.vm.ram ↔ file.Harmless s.vm.ram segments := by
      simp only [ElfFile.Loadable, program]
    rw [loadable]
    apply preparation.mono (fun _ impossible => impossible.elim)
    · exact fun _ _ refused _ => Or.inr (Or.inl refused)
    rintro _ s₂ ⟨granted, prepared, mem, onward⟩
    have harmless : file.Harmless s.vm.ram segments ↔
        fates file (.ofSegments segments s.vm.ram) segments = .refused ∨
        fates file (.ofSegments segments s.vm.ram) segments = .loaded ∧
          (Addrspace.ofSegments segments s.vm.ram).Ready := by
      rw [ElfFile.Harmless, fresh.ready_iff granted]
      simp only [fits, granted, ne_eq, not_true_eq_false, false_or]
    rw [harmless, ensures_bind]
    apply (prepared.runSegments fun ph member => (small ph member).2.2).mono
    · intro _ isFatal
      simp [isFatal]
    · exact fun _ _ isRefused switching => Or.inl (isRefused (onward switching))
    rintro _ s₃ ⟨isLoaded, prepared₃, loaded⟩
    refine ⟨segments, rfl, prepared₃, loaded.congr mem, isLoaded, ?_⟩
    simp [isLoaded]
  · have loadable : file.Loadable s.vm.ram := by
      simp only [ElfFile.Loadable, program]
      exact Or.inr id
    exact fun _ => loadable
  · have harmful : ¬file.Loadable s.vm.ram := by
      simp only [ElfFile.Loadable, program]
      rintro (left | safe)
      · exact left fits
      · exact safe trivial
    exact harmful

/-! ## The assertions of `vm_fault` -/

/-- The same state, with another future of the other threads. -/
def reschedule (switches : Nat → Bool) (s : Loading) : Loading :=
  { s with switches }

theorem Fresh.reschedule (fresh : Fresh s as) (switches : Nat → Bool) :
    Fresh (s.reschedule switches) as :=
  ⟨fresh.held, fresh.invalid, fresh.aligned⟩

/-- The moves of a read that goes from block to block. -/
def blocks (content : Bytes) : (fuel pos n : Nat) → Reading
  | 0, _, _ => .done
  | fuel + 1, pos, n =>
      if n = 0 then
        .done
      else
        .move (fun i => content (pos + i)) (min n (512 - pos % 512))
          (blocks content fuel (pos + min n (512 - pos % 512)) (n - min n (512 - pos % 512)))

end Loading

end Os161
