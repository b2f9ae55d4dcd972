import Os161.Vm.Dumbvm

/-!
# Requests for pages

Whole pages are asked for by `kmalloc` and, for the regions and the stack of an
address space, by `as_prepare_load`. The size that was meant goes through up to
four sums of 32-bit words: it is rounded up to pages, turned back into bytes and
added to `firstpaddr`. `PageRequest.NoWrap` is the condition under which this does
no harm, and it is exact: without it less memory is handed out than was asked for,
or memory that does not exist.
-/

namespace Os161

open Arena

/-! ## Taking pages -/

namespace Ram

/-- `ram_stealmem` finds too little memory left. -/
def Refuses (ram : Ram) (npages : Nat) : Prop :=
  ram.lastpaddr < uint32 (ram.firstpaddr + uint32 (npages * pageSize))

instance (ram : Ram) (npages : Nat) : Decidable (ram.Refuses npages) :=
  inferInstanceAs (Decidable (_ < _))

def after (ram : Ram) (npages : Nat) : Ram :=
  if ram.Refuses npages then
    ram
  else
    { ram with firstpaddr := uint32 (ram.firstpaddr + uint32 (npages * pageSize)) }

/-- What `getppages` returns. -/
def paddr (ram : Ram) (npages : Nat) : Nat :=
  if ram.Refuses npages then 0 else ram.firstpaddr

variable {ram : Ram} {npages : Nat} {panics : Panic → Prop} {fails : Errno → Ram → Prop}
  {returns : Nat → Ram → Prop}

theorem after_of_refuses (refuses : ram.Refuses npages) : ram.after npages = ram :=
  if_pos refuses

theorem after_firstpaddr_le (ordered : ram.firstpaddr ≤ ram.lastpaddr) :
    (ram.after npages).firstpaddr ≤ ram.lastpaddr := by
  by_cases refuses : ram.Refuses npages
  · rwa [after_of_refuses refuses]
  · rw [after, if_neg refuses]
    exact Nat.le_of_not_lt refuses

theorem after_lastpaddr : (ram.after npages).lastpaddr = ram.lastpaddr := by
  rw [after]
  split_ifs <;> rfl

theorem ensures_getppages :
    Ensures (getppages npages) ram panics fails returns ↔
      returns (ram.paddr npages) (ram.after npages) := by
  simp only [getppages, ramStealmem, ensures_bind, ensures_get, ensures_ite,
    ensures_pure, ensures_modify]
  by_cases refused : ram.Refuses npages
  · rw [after, paddr, if_pos refused, if_pos refused, if_pos (by exact refused)]
  · rw [after, paddr, if_neg refused, if_neg refused, if_neg (by exact refused)]

theorem ensures_allocKpages :
    Ensures (allocKpages npages) ram panics fails returns ↔
      returns (if ram.paddr npages = 0 then 0 else uint32 (ram.paddr npages + kseg0))
        (ram.after npages) := by
  simp only [allocKpages, ensures_bind, ensures_getppages, ensures_ite, ensures_pure]
  split_ifs <;> rfl

end Ram

/-! ## Requests -/

/-- The requests for whole pages, with the size that is meant. -/
inductive PageRequest where
  | kmalloc (sz : Nat)
  | region (vaddr memsz : Nat)
  | stack

namespace PageRequest

/-- The request is one for 32-bit words, and not one for a subpage block. -/
def Valid : PageRequest → Prop
  | kmalloc sz => 2048 ≤ sz ∧ sz < 2 ^ 32
  | region vaddr memsz => vaddr < 2 ^ 32 ∧ memsz < 2 ^ 32
  | stack => True

/-- The bytes that are asked for; those of a region are counted from the start of its page. -/
def bytes : PageRequest → Nat
  | kmalloc sz => sz
  | region vaddr memsz => memsz + vaddr % pageSize
  | stack => dumbvmStackpages * pageSize

def npages : PageRequest → Nat
  | kmalloc sz => kmallocNpages sz
  | region vaddr memsz => Vm.regionNpages vaddr memsz
  | stack => dumbvmStackpages

def exec : PageRequest → RamM Nat
  | kmalloc sz => kmallocPages sz
  | region vaddr memsz => getppages (Vm.regionNpages vaddr memsz)
  | stack => getppages dumbvmStackpages

def address : PageRequest → Nat → Nat
  | kmalloc _, paddr => if paddr = 0 then 0 else uint32 (paddr + kseg0)
  | region _ _, paddr => paddr
  | stack, paddr => paddr

def paddr : PageRequest → Nat → Nat
  | kmalloc _, address => address - kseg0
  | region _ _, paddr => paddr
  | stack, paddr => paddr

/-- A result that is not zero is the start of as many bytes as were asked for, in memory that was
free, and what is free then begins at their end. -/
def Sound (request : PageRequest) (ram : Ram) : Prop :=
  Prog.Ensures request.exec ram (fun _ => False) (fun _ _ => False)
    (fun address ram' => address ≠ 0 →
      ram.firstpaddr ≤ request.paddr address ∧
      request.paddr address + request.bytes ≤ ram'.firstpaddr ∧
      ram'.firstpaddr ≤ ram.lastpaddr ∧ ram'.lastpaddr = ram.lastpaddr)

/-- The end of what is asked for, as the sums of 32-bit words give it. -/
def wrappedEnd (request : PageRequest) (ram : Ram) : Nat :=
  (ram.firstpaddr +
    (request.bytes % 2 ^ 32 + (pageSize - 1)) % 2 ^ 32 / pageSize * pageSize) % 2 ^ 32

/-- The sums are exact; or they are not, but what they give is too much for the memory there is;
or there never was any memory, since its address 0 stands for failure. -/
def NoWrap (request : PageRequest) (ram : Ram) : Prop :=
  (request.bytes + pageSize ≤ 2 ^ 32 ∧
      ram.firstpaddr + (request.bytes + pageSize - 1) / pageSize * pageSize < 2 ^ 32) ∨
    ram.lastpaddr < request.wrappedEnd ram ∨ ram.firstpaddr = 0

instance (request : PageRequest) (ram : Ram) : Decidable (request.NoWrap ram) :=
  inferInstanceAs (Decidable (_ ∧ _ ∨ _ ∨ _))

variable {request : PageRequest} {ram : Ram} {panics : Panic → Prop}
  {fails : Errno → Ram → Prop} {returns : Nat → Ram → Prop}

theorem ensures_exec :
    Ensures request.exec ram panics fails returns ↔
      returns (request.address (ram.paddr request.npages)) (ram.after request.npages) := by
  cases request with
  | kmalloc sz => exact Ram.ensures_allocKpages
  | region vaddr memsz => exact Ram.ensures_getppages
  | stack => exact Ram.ensures_getppages

theorem paddr_address (request : PageRequest) {paddr : Nat} (low : paddr < kseg0)
    (granted : paddr ≠ 0) :
    request.paddr (request.address paddr) = paddr ∧ request.address paddr ≠ 0 := by
  cases request with
  | kmalloc sz =>
      have exact : uint32 (paddr + kseg0) = paddr + kseg0 := by
        rw [← Nat.cast_add, uint32_natCast]
        apply Nat.mod_eq_of_lt
        simp only [kseg0] at low ⊢
        omega
      simp only [PageRequest.paddr, address, if_neg granted, exact]
      exact ⟨Nat.add_sub_cancel paddr kseg0, by omega⟩
  | region vaddr memsz => exact ⟨rfl, granted⟩
  | stack => exact ⟨rfl, granted⟩

theorem address_zero : request.address 0 = 0 := by
  cases request <;> rfl

theorem npages_eq (valid : request.Valid) :
    request.npages = (request.bytes % 2 ^ 32 + (pageSize - 1)) % 2 ^ 32 / pageSize := by
  have round : ∀ size : Nat, uint32 ((size : Int) + pageSize - 1) =
      (size + (pageSize - 1)) % 2 ^ 32 := by
    intro size
    have cast : (size : Int) + pageSize - 1 = ((size + (pageSize - 1) : Nat) : Int) := by
      simp only [pageSize]
      omega
    rw [cast, uint32_natCast]
  cases request with
  | kmalloc sz =>
      simp only [npages, bytes, kmallocNpages]
      rw [round, Nat.mod_eq_of_lt valid.2]
  | region vaddr memsz =>
      simp only [npages, bytes, Vm.regionNpages, pageFrame]
      have positive : 0 < pageSize := Nat.succ_pos _
      rw [Nat.mul_div_cancel _ positive, round, ← Int.natCast_emod, ← Nat.cast_add, uint32_natCast]
  | stack => rfl

theorem bytes_lt (valid : request.Valid) : request.bytes < 2 ^ 32 + pageSize := by
  cases request with
  | kmalloc sz => exact lt_of_lt_of_le valid.2 (Nat.le_add_right _ _)
  | region vaddr memsz =>
      have offset : vaddr % pageSize < pageSize := Nat.mod_lt _ (Nat.succ_pos _)
      have small := valid.2
      simp only [bytes]
      omega
  | stack => norm_num [bytes, dumbvmStackpages, pageSize]

/-- The sums with their wrap-arounds. The first two cannot both be off: a size that wraps around
when it is rounded up leaves less than a page. -/
theorem wrapped_end_iff {first bytes : Nat} (firstLow : first < 2 ^ 31)
    (bytesLow : bytes < 2 ^ 32 + 4096) :
    first + bytes ≤ (first + (bytes % 2 ^ 32 + 4095) % 2 ^ 32 / 4096 * 4096) % 2 ^ 32 ↔
      bytes + 4096 ≤ 2 ^ 32 ∧ first + (bytes + 4095) / 4096 * 4096 < 2 ^ 32 := by
  by_cases word : bytes < 2 ^ 32
  · rw [Nat.mod_eq_of_lt word]
    by_cases rounded : bytes + 4095 < 2 ^ 32
    · rw [Nat.mod_eq_of_lt rounded]
      omega
    · omega
  · omega

theorem end_eq (valid : request.Valid) :
    uint32 (ram.firstpaddr + uint32 (request.npages * pageSize)) = request.wrappedEnd ram := by
  have word : ∀ size : Nat, size % 2 ^ 32 / pageSize * pageSize < 2 ^ 32 := fun size =>
    lt_of_le_of_lt (Nat.div_mul_le_self _ _) (Nat.mod_lt _ (Nat.two_pow_pos 32))
  rw [npages_eq valid, ← Nat.cast_mul, uint32_natCast, Nat.mod_eq_of_lt (word _), ← Nat.cast_add,
    uint32_natCast, wrappedEnd]

theorem refuses_iff (valid : request.Valid) :
    ram.Refuses request.npages ↔ ram.lastpaddr < request.wrappedEnd ram := by
  rw [Ram.Refuses, end_eq valid]

theorem after_firstpaddr (valid : request.Valid) (accepted : ¬ram.Refuses request.npages) :
    (ram.after request.npages).firstpaddr = request.wrappedEnd ram := by
  rw [Ram.after, if_neg accepted]
  exact end_eq valid

variable (ordered : ram.firstpaddr ≤ ram.lastpaddr) (limit : ram.lastpaddr ≤ 508 * 1024 * 1024)
include ordered limit

theorem granted_iff_fits (valid : request.Valid) (accepted : ¬ram.Refuses request.npages) :
    ram.firstpaddr + request.bytes ≤ (ram.after request.npages).firstpaddr ↔
      request.bytes + pageSize ≤ 2 ^ 32 ∧
        ram.firstpaddr + (request.bytes + pageSize - 1) / pageSize * pageSize < 2 ^ 32 := by
  rw [after_firstpaddr valid accepted]
  apply wrapped_end_iff
  · omega
  · exact bytes_lt valid

/-- What `Sound` asks for, in terms of the memory before the request. -/
theorem sound_iff_granted :
    request.Sound ram ↔ (ram.paddr request.npages ≠ 0 →
      ram.firstpaddr + request.bytes ≤ (ram.after request.npages).firstpaddr) := by
  rw [Sound, ensures_exec]
  by_cases refused : ram.paddr request.npages = 0
  · rw [refused, address_zero]
    simp
  · have accepted : ¬ram.Refuses request.npages := fun refuses => refused (if_pos refuses)
    have start : ram.paddr request.npages = ram.firstpaddr := if_neg accepted
    have low : ram.paddr request.npages < kseg0 := by
      simp only [start, kseg0]
      omega
    obtain ⟨back, given⟩ := paddr_address request low refused
    rw [back, start]
    constructor
    · intro sound _
      exact (sound (start ▸ given)).2.1
    · intro fits _
      exact ⟨le_refl _, fits (start ▸ refused), Ram.after_firstpaddr_le ordered,
        Ram.after_lastpaddr⟩

theorem sound_iff (valid : request.Valid) : request.Sound ram ↔ request.NoWrap ram := by
  rw [sound_iff_granted ordered limit, NoWrap, ← refuses_iff valid]
  by_cases refuses : ram.Refuses request.npages
  · have refused : ram.paddr request.npages = 0 := if_pos refuses
    simp [refused, refuses]
  · have start : ram.paddr request.npages = ram.firstpaddr := if_neg refuses
    rw [start, granted_iff_fits ordered limit valid refuses]
    simp only [refuses, false_or]
    tauto

end PageRequest

/-! ## Sequences of requests -/

/-- Serve requests one after another, and keep the regions of those that are not refused. -/
def PageRequest.serve : List PageRequest → RamM (List Region)
  | [] => pure []
  | request :: requests => do
      let address ← request.exec
      let regions ← serve requests
      if address = 0 then
        pure regions
      else
        let paddr := request.paddr address
        pure (⟨paddr, paddr + request.bytes⟩ :: regions)

/-- Each request of the sequence meets the condition when its turn comes. -/
def PageRequest.NoneWraps : List PageRequest → Ram → Prop
  | [], _ => True
  | request :: requests, ram =>
      request.Valid ∧ request.NoWrap ram ∧ NoneWraps requests (ram.after request.npages)

/-- The memory after a request that does not wrap around. -/
theorem PageRequest.NoWrap.ensures_exec {request : PageRequest} {ram : Ram}
    (ordered : ram.firstpaddr ≤ ram.lastpaddr) (limit : ram.lastpaddr ≤ 508 * 1024 * 1024)
    (valid : request.Valid) (noWrap : request.NoWrap ram) :
    Ensures request.exec ram (fun _ => False) (fun _ _ => False) (fun address ram' =>
      ram' = ram.after request.npages ∧ ram.firstpaddr ≤ ram'.firstpaddr ∧
      ram'.firstpaddr ≤ ram.lastpaddr ∧ ram'.lastpaddr = ram.lastpaddr ∧
      (address ≠ 0 → ram.firstpaddr ≤ request.paddr address ∧
        request.paddr address + request.bytes ≤ ram'.firstpaddr)) := by
  have sound := (sound_iff ordered limit valid).mpr noWrap
  have above : ram.firstpaddr ≤ (ram.after request.npages).firstpaddr := by
    by_cases refuses : ram.Refuses request.npages
    · rw [Ram.after_of_refuses refuses]
    · have start : ram.paddr request.npages = ram.firstpaddr := if_neg refuses
      have fits := (sound_iff_granted ordered limit).mp sound
      rw [start] at fits
      omega
  rw [Sound, PageRequest.ensures_exec] at sound
  rw [PageRequest.ensures_exec]
  refine ⟨rfl, above, Ram.after_firstpaddr_le ordered, Ram.after_lastpaddr, ?_⟩
  intro granted
  exact ⟨(sound granted).1, (sound granted).2.1⟩

theorem PageRequest.serve_spec {requests : List PageRequest} {ram : Ram}
    (ordered : ram.firstpaddr ≤ ram.lastpaddr) (limit : ram.lastpaddr ≤ 508 * 1024 * 1024)
    (noneWraps : NoneWraps requests ram) :
    Ensures (serve requests) ram (fun _ => False) (fun _ _ => False) (fun regions _ =>
      regions.Pairwise Region.Apart ∧
      ∀ region ∈ regions, ram.firstpaddr ≤ region.lo ∧ region.hi ≤ ram.lastpaddr) := by
  induction requests generalizing ram with
  | nil => exact ⟨List.Pairwise.nil, fun _ member => absurd member List.not_mem_nil⟩
  | cons request requests ih =>
      obtain ⟨valid, noWrap, rest⟩ := noneWraps
      simp only [serve, ensures_bind]
      apply (noWrap.ensures_exec ordered limit valid).total
      rintro address ram' ⟨rfl, above, inside, last, granted⟩
      apply (ih (by omega) (by omega) rest).total
      rintro regions ram'' ⟨apart, within⟩
      have later : ∀ region ∈ regions, (ram.after request.npages).firstpaddr ≤ region.lo ∧
          region.hi ≤ ram.lastpaddr := by
        intro region member
        have bounds := within region member
        omega
      simp only [ensures_ite, ensures_pure]
      split_ifs with refused
      · exact ⟨apart, fun region member => ⟨by have := later region member; omega,
          (later region member).2⟩⟩
      · obtain ⟨low, fits⟩ := granted refused
        refine ⟨List.Pairwise.cons ?_ apart, ?_⟩
        · intro region member
          apply Region.apart_of_le
          exact le_trans fits (later region member).1
        · intro region member
          rcases mem_cons.mp member with rfl | member
          · exact ⟨low, by simp only; omega⟩
          · have bounds := later region member
            omega

/-- A request does what it should exactly if its sums do not wrap around, and then the regions of
a sequence of requests have no address in common. -/
theorem page_requests_apart_iff_noWrap {ram : Ram} (ordered : ram.firstpaddr ≤ ram.lastpaddr)
    (limit : ram.lastpaddr ≤ 508 * 1024 * 1024) :
    (∀ request : PageRequest, request.Valid → (request.Sound ram ↔ request.NoWrap ram)) ∧
    ∀ requests : List PageRequest, PageRequest.NoneWraps requests ram →
      Prog.Ensures (PageRequest.serve requests) ram (fun _ => False) (fun _ _ => False)
        (fun regions _ => regions.Pairwise Region.Apart ∧
          ∀ region ∈ regions, ram.firstpaddr ≤ region.lo ∧ region.hi ≤ ram.lastpaddr) := by
  constructor
  · intro request valid
    exact PageRequest.sound_iff ordered limit valid
  · intro requests noneWraps
    exact PageRequest.serve_spec ordered limit noneWraps

theorem page_requests_apart_iff_noWrap_at_boot :
    (PageRequest.kmalloc 5000).Sound ⟨0x100000, 0x400000⟩ ∧
    Prog.Ensures (PageRequest.serve [.kmalloc 5000, .region 0x400010 0x2000, .stack])
      ⟨0x100000, 0x400000⟩ (fun _ => False) (fun _ _ => False)
      (fun regions _ => regions.Pairwise Region.Apart ∧
        ∀ region ∈ regions, 0x100000 ≤ region.lo ∧ region.hi ≤ 0x400000) := by
  have apart := @page_requests_apart_iff_noWrap ⟨0x100000, 0x400000⟩ (by decide)
    (by decide)
  constructor
  · apply (apart.1 (.kmalloc 5000) ⟨by decide, by decide⟩).mpr
    decide
  · apply apart.2
    exact ⟨⟨by decide, by decide⟩, by decide, ⟨by decide, by decide⟩, by decide, trivial,
      by decide, trivial⟩

/-- The size of the request is such that its end, rounded up to pages, is before its start: the
request succeeds and memory that is in use becomes free. -/
theorem kmalloc_wraps_around :
    (PageRequest.kmalloc 0xFFFF0000).Valid ∧
    ¬(PageRequest.kmalloc 0xFFFF0000).Sound ⟨0x100000, 0x400000⟩ ∧
    Prog.Ensures (PageRequest.kmalloc 0xFFFF0000).exec ⟨0x100000, 0x400000⟩ (fun _ => False)
      (fun _ _ => False)
      (fun address ram' => address = 0x80100000 ∧ ram'.firstpaddr = 0xF0000) := by
  have valid : (PageRequest.kmalloc 0xFFFF0000).Valid := ⟨by decide, by decide⟩
  refine ⟨valid, ?_, ?_⟩
  · rw [PageRequest.sound_iff (by decide) (by decide) valid]
    decide
  · rw [PageRequest.ensures_exec]
    decide

end Os161
