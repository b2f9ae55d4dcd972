import Os161.Exec.LoadSafety

/-!
# What is in memory after a load

The frames of an address space are distinct, so that what `load_segment` stores for one segment
is not overwritten by the other. With the specification of the load this gives the content of
memory for a program with two segments, and what becomes of a file that is too short.
-/

namespace Os161

open Phdr

attribute [local irreducible] int32 uint32

/-! ## Frames -/

theorem Vm.Separate.injective {vm : Vm} {as : Nat} {space : Addrspace} (separate : vm.Separate)
    (held : vm.spaces as = some space) (ready : space.Ready) : space.Injective := by
  intro a a' p place place'
  rcases map_eq_some_iff.mp place with ⟨frame, found, rfl⟩
  rcases map_eq_some_iff.mp place' with ⟨frame', found', shared⟩
  have offset : a % pageSize < pageSize := Nat.mod_lt _ (Nat.succ_pos _)
  have offset' : a' % pageSize < pageSize := Nat.mod_lt _ (Nat.succ_pos _)
  by_cases same : pageFrame a = pageFrame a'
  · rw [same, found'] at found
    cases found
    simp only [pageFrame, pageSize] at same shared
    omega
  · rw [← mapping_of_ready held ready] at found found'
    have apart := separate.pages_apart same (pageFrame_mod a) (pageFrame_mod a') found found'
    refine absurd shared.symm (apart.ne ?_ ?_)
    · simp only [frameRegion, Arena.Region.mem_addresses]
      omega
    · simp only [frameRegion, Arena.Region.mem_addresses]
      omega

namespace Loading

variable {s s' : Loading} {as entry : Nat} {space : Addrspace} {file : ElfFile}
  {segments : List Phdr}

theorem Live.read (live : Live s as space) (a : Nat) : s.vm.read as a = s.byteAt space a := by
  rw [Vm.read, Vm.mapping_of_ready live.held live.ready, byteAt, Addrspace.physical, Option.map_map]
  rfl

theorem prepared_injective (held : s.vm.spaces as = some space) (separate : s.vm.Separate)
    (empty : ∀ part, space.pbase part = 0)
    (exact : s.vm.ram.Prepares space.asNpages1 space.asNpages2)
    (ready : (space.prepared s.vm.ram).Ready) : (space.prepared s.vm.ram).Injective := by
  -- stated for any address space, so that `prepared` is not unfolded
  have bases : ∀ {space : Addrspace}, space.Ready →
      space.asPbase1 ≠ 0 ∧ space.asPbase2 ≠ 0 ∧ space.asStackpbase ≠ 0 :=
    fun ready => ⟨ready.taken .region1, ready.taken .region2, ready.taken .stack⟩
  have granted : s.vm.ram.Grants space.asNpages1 space.asNpages2 := bases ready
  have prepared := prepareLoad_spec held (empty .region1) (empty .region2) (empty .stack)
  rw [onVm, ensures_zoom] at prepared
  rcases (prepared.and (separate.asPrepareLoad_spec held exact)).outcomes with
    ⟨_, _, impossible, _⟩ | ⟨_, _, _, refused, _⟩ | ⟨_, vm, _, ⟨_, held', _⟩, _, refitted⟩
  · exact impossible.elim
  · exact absurd granted refused
  · have same := Option.some.inj (refitted.held.symm.trans held')
    exact refitted.separate.injective (refitted.held.trans (congrArg some same)) ready

theorem Fresh.injective (fresh : Fresh s as) (separate : s.vm.Separate)
    (exact : s.vm.ram.Prepares (npages (regionHeaders segments).1)
      (npages (regionHeaders segments).2.1))
    (ready : (Addrspace.ofSegments segments s.vm.ram).Ready) :
    (Addrspace.ofSegments segments s.vm.ram).Injective := by
  have empty : ∀ part, (Addrspace.ofHeaders (regionHeaders segments).1
      (regionHeaders segments).2.1).pbase part = 0 := by
    intro part
    cases part <;> rfl
  have separate₁ := separate.setSpace (separate.used fresh.held)
    (some (Addrspace.ofHeaders (regionHeaders segments).1 (regionHeaders segments).2.1))
    (fun space same part => Option.some.inj same ▸ empty part)
  exact prepared_injective (s := withSpace as _ s) (update_self _ _ _) separate₁ empty
    exact ready

end Loading

/-! ## Programs with two segments -/

namespace Phdr

variable {ph : Phdr}

def low (ph : Phdr) : Nat :=
  pageFrame ph.pVaddr

def high (ph : Phdr) : Nat :=
  ph.low + (ph.pMemsz + ph.pVaddr % pageSize + (pageSize - 1)) / pageSize * pageSize

end Phdr

def RangesApart (low high low' high' : Nat) : Prop :=
  ∀ a, low ≤ a → a < high → low' ≤ a → a < high' → False

/-- Two segments with page bases that are not zero, below `USERTOP`, and with pages apart from each
other and from the stack. -/
structure Placed (first second : Phdr) : Prop where
  base1 : first.low ≠ 0
  base2 : second.low ≠ 0
  below1 : first.high ≤ userTop
  below2 : second.high ≤ userTop
  apart : RangesApart first.low first.high second.low second.high
  stack1 : RangesApart first.low first.high (userStack - dumbvmStackpages * pageSize) userStack
  stack2 : RangesApart second.low second.high (userStack - dumbvmStackpages * pageSize) userStack

namespace Placed

variable {first second : Phdr} {ram : Ram}

end Placed

/-! ## Header tables -/

/-- The header, if it is one of a segment to be loaded. -/
def loadHeader : Except Unread Phdr → Option Phdr
  | .ok ph => if ph.kind = .load then some ph else none
  | .error _ => none

theorem loadHeader_of_load {ph : Phdr} (kind : ph.kind = .load) : loadHeader (.ok ph) = some ph :=
  if_pos kind

theorem scan_in_order {header : Nat → Except Unread Phdr} {is : List Nat} {segments : List Phdr}
    (scanned : scan header is = (segments, none)) :
    (∀ i ∈ is, ∃ ph, header i = .ok ph) ∧
      segments = is.filterMap fun i => loadHeader (header i) := by
  induction is generalizing segments with
  | nil =>
      cases scanned
      exact ⟨fun _ member => (List.not_mem_nil member).elim, rfl⟩
  | cons i rest ih =>
      rw [scan] at scanned
      cases read : header i with
      | error failure =>
          simp only [read] at scanned
          cases scanned
      | ok ph =>
          cases kind : ph.kind with
          | skip =>
              simp only [read, kind] at scanned
              rcases ih scanned with ⟨readable, rfl⟩
              refine ⟨forall_mem_cons.mpr ⟨⟨ph, read⟩, readable⟩, ?_⟩
              simp [read, loadHeader, kind]
          | unknown =>
              simp only [read, kind] at scanned
              cases scanned
          | load =>
              simp only [read, kind, Prod.mk.injEq] at scanned
              rcases ih (Prod.ext rfl scanned.2) with ⟨readable, others⟩
              have step : (i :: rest).filterMap (fun i => loadHeader (header i)) =
                  ph :: rest.filterMap fun i => loadHeader (header i) := by
                simp [read, loadHeader, kind]
              refine ⟨forall_mem_cons.mpr ⟨⟨ph, read⟩, readable⟩, ?_⟩
              rw [step]
              exact scanned.1.symm.trans (congrArg (List.cons ph) others)

/-- The bytes are all in a file of that size. -/
def InFile (size : Nat) (offset : Int) (n : Nat) : Prop :=
  0 ≤ offset ∧ offset.toNat + n ≤ size

/-- What `load_segment` is to copy is all in a file of that size. -/
def Phdr.Inside (ph : Phdr) (size : Nat) : Prop :=
  ph.copied = 0 ∨ InFile size (int32 ph.pOffset) ph.copied

namespace ElfFile

variable {file : ElfFile} {entry size : Nat} {segments : List Phdr} {content : Bytes} {ph : Phdr}

/-- `VOP_READ` delivers the bytes of the file at the offset, and is short only at the end of file.
At a negative offset there are none, and how the call ends is left open. -/
structure Delivers (file : ElfFile) (content : Bytes) (size : Nat) : Prop where
  ending : ∀ resid offset, 0 ≤ offset → (file.vopRead resid offset).ending = .ok ()
  total : ∀ resid offset, 0 ≤ offset →
    (file.vopRead resid offset).total = min resid (size - offset.toNat)
  bytes : ∀ resid offset, 0 ≤ offset → ∀ i < (file.vopRead resid offset).total,
    (file.vopRead resid offset).bytes i = content (offset.toNat + i)
  negative : ∀ resid offset, offset < 0 → (file.vopRead resid offset).total = 0

theorem Delivers.inFile (delivers : file.Delivers content size) {resid : Nat} {offset : Int}
    (positive : 0 < resid) (whole : (file.vopRead resid offset).total = resid) :
    InFile size offset resid := by
  rcases lt_or_ge offset 0 with before | after
  · have none := delivers.negative resid offset before
    omega
  · have some := delivers.total resid offset after
    exact ⟨after, by omega⟩

theorem Delivers.whole_iff (delivers : file.Delivers content size) :
    (ph.reading file).total = ph.copied ↔ ph.Inside size := by
  constructor
  · intro whole
    rcases Nat.eq_zero_or_pos ph.copied with none | positive
    · exact Or.inl none
    · exact Or.inr (delivers.inFile positive whole)
  · rintro (none | ⟨after, inside⟩)
    · have within := file.within ph.copied (int32 ph.pOffset)
      rw [Phdr.reading]
      omega
    · rw [Phdr.reading, delivers.total _ _ after]
      omega

theorem Delivers.image (delivers : file.Delivers content size) (small : ph.pOffset < 2 ^ 32)
    (whole : (ph.reading file).total = ph.copied) (i : Nat) :
    ph.image file i = if i < ph.copied then content (ph.pOffset + i) else 0 := by
  rw [Phdr.image]
  split_ifs with copied
  · have positive : 0 ≤ int32 ph.pOffset := (delivers.inFile (by omega) whole).1
    have bytes := delivers.bytes ph.copied (int32 ph.pOffset) positive i
      (copied.trans_eq whole.symm)
    rw [Phdr.reading, bytes, int32_toNat small positive]
  · rfl

theorem Delivers.bytes_ok (delivers : file.Delivers content size) {len : Nat} {pos : Int}
    (positive : 0 < len) {bytes : Bytes} (read : file.bytes len pos = .ok bytes) :
    InFile size pos len := by
  rw [ElfFile.bytes] at read
  split at read
  · cases read
  · split_ifs at read with whole
    exact delivers.inFile positive whole

/-- The headers of the segments to be loaded, in the order of the table. -/
def loads (file : ElfFile) (eh : Ehdr) : List Phdr :=
  (List.range eh.ePhnum).filterMap fun i => loadHeader (file.phdr eh i)

/-- The file ends before one of its headers or before the data of a segment. -/
def Truncated (file : ElfFile) (size : Nat) : Prop :=
  size < Ehdr.size ∨ ∃ eh, file.ehdr = .ok eh ∧ ∃ i < eh.ePhnum,
    ¬InFile size (eh.phdrOffset i) Phdr.size ∨
    ∃ ph, file.phdr eh i = .ok ph ∧ ph.kind = .load ∧ ¬ph.Inside size

theorem program_loads (program : file.program = .ok (entry, segments, none)) :
    ∃ eh, file.ehdr = .ok eh ∧ entry = eh.eEntry ∧ segments = file.loads eh ∧
      ∀ i < eh.ePhnum, ∃ ph, file.phdr eh i = .ok ph := by
  rcases program_eq_ok program with ⟨eh, header, start, scanned⟩
  rcases scan_in_order scanned with ⟨readable, loads⟩
  rw [← ElfFile.loads] at loads
  exact ⟨eh, header, start, loads, fun i inside => readable i (mem_range.mpr inside)⟩

/-- A truncated file whose headers are in order lacks the data of a segment. -/
theorem Delivers.outside (delivers : file.Delivers content size) (truncated : file.Truncated size)
    (program : file.program = .ok (entry, segments, none)) :
    ∃ ph ∈ segments, ¬ph.Inside size := by
  rcases program_loads program with ⟨eh, header, _, loads, readable⟩
  rcases truncated with short | ⟨eh', header', i, inside, missing | ⟨ph, read, kind, outside⟩⟩
  · rw [ehdr] at header
    rcases bytes : file.bytes Ehdr.size 0 with _ | _
    · rw [bytes] at header
      cases header
    · have whole := (delivers.bytes_ok (by decide) bytes).2
      rw [Int.toNat_zero] at whole
      omega
  · have same := Except.ok.inj (header.symm.trans header')
    subst same
    rcases readable i inside with ⟨ph, read⟩
    rw [phdr] at read
    rcases bytes : file.bytes Phdr.size (eh.phdrOffset i) with _ | _
    · rw [bytes] at read
      cases read
    · exact absurd (delivers.bytes_ok (by decide) bytes) missing
  · have same := Except.ok.inj (header.symm.trans header')
    subst same
    refine ⟨ph, ?_, outside⟩
    have loaded : loadHeader (file.phdr eh i) = some ph := by
      rw [read, loadHeader_of_load kind]
    rw [loads, ElfFile.loads]
    exact List.mem_filterMap.mpr ⟨i, mem_range.mpr inside, loaded⟩

end ElfFile

namespace Loading

variable {s s' : Loading} {as entry size : Nat} {space : Addrspace} {file : ElfFile}
  {segments : List Phdr} {first second : Phdr} {content : Bytes}

/-- The bytes of a segment are in memory: those of the file, then zeros. -/
def Holds (vm : Vm) (as : Nat) (content : Bytes) (ph : Phdr) : Prop :=
  ∀ i < ph.pMemsz, vm.read as (ph.pVaddr + i) =
    some (if i < min ph.pFilesz ph.pMemsz then content (ph.pOffset + i) else 0)

/-- A file that is too short is refused, whatever the other threads do, exactly if it can do no
harm. -/
theorem Fresh.truncated (fresh : Fresh s as) (delivers : file.Delivers content size)
    (truncated : file.Truncated size) :
    (∀ switches, ∃ failure s', loadElf file as (s.reschedule switches) =
      .ok (.error failure, s')) ↔ file.Loadable s.vm.ram := by
  constructor
  · intro refused
    rcases refused fun _ => true with ⟨failure, s', outcome⟩
    have spec := (fresh.reschedule fun _ => true).loadElf_spec file
    rw [ensures_of_fail_eq outcome] at spec
    exact spec fun _ => rfl
  · intro loadable switches
    rcases ((fresh.reschedule switches).loadElf_spec file).outcomes with
      ⟨_, _, harmful⟩ | ⟨failure, s', outcome, _⟩ | ⟨_, _, _, segments, program, _, loaded, _⟩
    · exact absurd loadable harmful
    · exact ⟨failure, s', outcome⟩
    · rcases delivers.outside truncated program with ⟨ph, member, outside⟩
      exact absurd (delivers.whole_iff.mp (loaded.whole ph member)) outside

end Loading

end Os161
