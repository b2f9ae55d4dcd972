import Mathlib.Data.Finset.Card
import Mathlib.Data.Finset.Range
import Os161.Vm.Tlb

/-!
# Room in the TLB

`vm_fault` puts a new entry where there is none, and it never takes one away: entries
are only given up when the TLB is flushed on a context switch. A fault on a page of a
loaded address space is therefore served exactly as long as there is room, and a process
that touches more pages than there are entries before it is switched away gets `EFAULT`
for memory that is its own.
-/

namespace Os161

namespace Vm

open Addrspace

variable {vm : Vm} {as : Nat} {space : Addrspace}

/-- The address space of a program that has been loaded. -/
structure Loaded (vm : Vm) (as : Nat) (space : Addrspace) : Prop where
  held : vm.spaces as = some space
  ready : space.Ready

/-- The address is in one of the two regions, or in the stack. -/
def Inside (space : Addrspace) (address : Nat) : Prop :=
  ∃ part, lookupPart space (pageFrame address) = some part

/-- A valid entry maps the page of the address to its frame. -/
def Mapped (vm : Vm) (as address : Nat) : Prop :=
  ∃ i < numTlb, (vm.tlb i).Valid ∧ (vm.tlb i).ehi = pageFrame address ∧
    vm.mapping as (pageFrame address) = some (pageFrame (vm.tlb i).elo)

def room (vm : Vm) : Nat :=
  ((Finset.range numTlb).filter fun i => ¬(vm.tlb i).Valid).card

theorem room_pos_iff : 0 < vm.room ↔ ∃ i < numTlb, ¬(vm.tlb i).Valid := by
  simp only [room, Finset.card_pos, Finset.Nonempty, Finset.mem_filter, Finset.mem_range]

theorem room_flush : vm.flush.room = numTlb := by
  have all : (Finset.range numTlb).filter (fun i => ¬(vm.flush.tlb i).Valid) =
      Finset.range numTlb := by
    apply Finset.filter_true_of_mem
    intro i inside
    exact flush_invalid i (Finset.mem_range.mp inside)
  rw [room, all, Finset.card_range]

theorem room_install {i page frame : Nat} (inside : i < numTlb) (invalid : ¬(vm.tlb i).Valid)
    (whole : pageFrame frame = frame) : (vm.install i page frame).room = vm.room - 1 := by
  have left : (Finset.range numTlb).filter (fun j => ¬((vm.install i page frame).tlb j).Valid) =
      ((Finset.range numTlb).filter fun j => ¬(vm.tlb j).Valid).erase i := by
    ext j
    simp only [Finset.mem_filter, Finset.mem_erase, Finset.mem_range]
    by_cases same : j = i
    · subst same
      have valid : ((vm.install j page frame).tlb j).Valid := by
        simp only [install, update_self]
        exact (pageFrame_entry whole).2
      simp [valid]
    · simp [install, same]
  rw [room, left, Finset.card_erase_of_mem]
  · rfl
  · simp [inside, invalid]

theorem lookup_whole (ready : space.Ready) {address frame : Nat}
    (found : vmFaultLookup space (pageFrame address) = some frame) : pageFrame frame = frame := by
  rw [lookup_eq] at found
  rcases map_eq_some_iff.mp found with ⟨part, foundPart, rfl⟩
  have aligned := ready.aligned part
  have page := pageFrame_mod address
  apply pageFrame_eq_iff.mpr
  simp only [uint32, pageSize] at *
  omega

theorem Loaded.mapping (loaded : vm.Loaded as space) {address : Nat}
    (inside : Inside space address) :
    ∃ frame, vmFaultLookup space (pageFrame address) = some frame ∧
      vm.mapping as (pageFrame address) = some frame ∧ pageFrame frame = frame := by
  rcases inside with ⟨part, found⟩
  cases lookup : vmFaultLookup space (pageFrame address) with
  | none =>
      rw [lookup_eq, found] at lookup
      cases lookup
  | some frame =>
      refine ⟨frame, rfl, ?_, lookup_whole loaded.ready lookup⟩
      simp only [Vm.mapping, loaded.held, if_pos loaded.ready, lookup]

/-- The new entry goes where there is none; there may be no such place. -/
theorem vmFaultInstall_room {page frame : Nat} :
    Ensures (vmFaultInstall page frame) vm (fun _ => False)
      (fun failure vm' => vm.room = 0 ∧ failure = .efault ∧ vm' = vm)
      (fun _ vm' => ∃ i < numTlb, ¬(vm.tlb i).Valid ∧ vm' = vm.install i page frame) := by
  simp only [vmFaultInstall, ensures_bind, ensures_get]
  split
  · rename_i i free
    have inside := mem_range.mp (List.mem_of_find?_eq_some free)
    have invalid := List.find?_some free
    exact ⟨i, inside, not_not.mpr (of_decide_eq_true invalid), rfl⟩
  · rename_i full
    refine ⟨?_, rfl, rfl⟩
    by_contra some
    rcases room_pos_iff.mp (Nat.pos_of_ne_zero some) with ⟨i, inside, invalid⟩
    have taken := List.find?_eq_none.mp full i (mem_range.mpr inside)
    exact taken (decide_eq_true (not_not.mp invalid))

theorem Loaded.vmFault (loaded : vm.Loaded as space) {address : Nat} (inside : Inside space address)
    {faulttype : FaultType} (access : faulttype = .read ∨ faulttype = .write) :
    Ensures (vmFault (some as) faulttype address) vm (fun _ => False)
      (fun failure vm' => vm.room = 0 ∧ failure = .efault ∧ vm' = vm)
      (fun _ vm' => 0 < vm.room ∧ vm'.room = vm.room - 1 ∧ vm'.Loaded as space ∧
        vm'.Mapped as address) := by
  rcases loaded.mapping inside with ⟨frame, lookup, mapped, whole⟩
  have checks : Ensures (vmFaultChecks space) vm (fun _ => False) (fun _ _ => False)
      (fun _ vm' => vm' = vm) := by
    apply vmFaultChecks_spec.unfailing
    · exact fun _ panicked => panicked.2 loaded.ready
    · exact fun _ _ returned => returned.1
  have serve : Ensures (Vm.vmFault (some as) .read address) vm (fun _ => False)
      (fun failure vm' => vm.room = 0 ∧ failure = .efault ∧ vm' = vm)
      (fun _ vm' => 0 < vm.room ∧ vm'.room = vm.room - 1 ∧ vm'.Loaded as space ∧
        vm'.Mapped as address) := by
    simp only [Vm.vmFault, ensures_bind]
    rw [ensures_deref_of loaded.held]
    apply checks.total
    rintro _ vm' rfl
    simp only [lookup, ensures_bind, ensures_assert_of whole]
    apply vmFaultInstall_room.imp
    rintro _ _ ⟨i, inside, invalid, rfl⟩
    refine ⟨room_pos_iff.mpr ⟨i, inside, invalid⟩, room_install inside invalid whole,
      ⟨loaded.held, loaded.ready⟩, i, inside, ?_⟩
    rcases pageFrame_entry whole with ⟨frameOf, valid⟩
    have entry : (vm'.install i (pageFrame address) frame).tlb i =
        ⟨pageFrame address, frame ||| tlbloDirty ||| tlbloValid⟩ := update_self ..
    rw [entry]
    exact ⟨valid, rfl, mapped.trans (congrArg some frameOf.symm)⟩
  rcases access with rfl | rfl <;> exact serve

/-! ## Runs of a process -/

/-- What a process does to its TLB: it faults, or it is switched away and finds the memory as
others have left it when it comes back. -/
inductive UserEvent where
  | fault (faulttype : FaultType) (address : Nat)
  | away (back : Vm)

/-- The faults are accesses to the address space, which is still there after a switch. -/
def UserEvent.Within (as : Nat) (space : Addrspace) : UserEvent → Prop
  | .fault faulttype address => (faulttype = .read ∨ faulttype = .write) ∧ Inside space address
  | .away back => back.spaces as = some space

/-- Every fault returns 0 and leaves a valid entry for its page. -/
def Served (as : Nat) : List UserEvent → Vm → Prop
  | [], _ => True
  | .fault faulttype address :: rest, vm =>
      Prog.Ensures (Vm.vmFault (some as) faulttype address) vm (fun _ => False) (fun _ _ => False)
        (fun _ vm' => vm'.Mapped as address ∧ Served as rest vm')
  | .away back :: rest, _ =>
      Prog.Ensures asActivate back (fun _ => False) (fun _ _ => False)
        (fun _ vm' => Served as rest vm')

/-- There is an entry for each fault, until the next switch. -/
def RoomFor : List UserEvent → Nat → Prop
  | [], _ => True
  | .fault _ _ :: rest, room => 0 < room ∧ RoomFor rest (room - 1)
  | .away _ :: rest, _ => RoomFor rest numTlb

theorem Loaded.served_iff (events : List UserEvent) :
    ∀ {vm : Vm}, vm.Loaded as space → (∀ event ∈ events, event.Within as space) →
      (Served as events vm ↔ RoomFor events vm.room) := by
  induction events with
  | nil => exact fun _ _ => Iff.rfl
  | cons event rest ih =>
      intro vm loaded within
      have first := within event (mem_cons_self ..)
      have later : ∀ event ∈ rest, event.Within as space :=
        fun event mem => within event (mem_cons_of_mem _ mem)
      cases event with
      | fault faulttype address =>
          have outcome := loaded.vmFault first.2 first.1
          constructor
          · intro served
            rcases (served.and outcome).outcomes with ⟨_, _, impossible, _⟩ |
              ⟨_, _, _, impossible, _⟩ | ⟨_, vm', _, ⟨_, served⟩, some, left, loaded', _⟩
            · exact impossible.elim
            · exact impossible.elim
            · refine ⟨some, ?_⟩
              rw [← left]
              exact (ih loaded' later).mp served
          · rintro ⟨some, room⟩
            apply outcome.answers
            · exact fun _ _ failed => absurd failed.1 (by omega)
            · rintro _ vm' ⟨_, left, loaded', mapped⟩
              refine ⟨mapped, (ih loaded' later).mpr ?_⟩
              rwa [left]
      | away back =>
          have back' : back.flush.Loaded as space := ⟨first, loaded.ready⟩
          have flushed := ih back' later
          rw [room_flush] at flushed
          exact flushed

/-- Without switches there is room for as many faults as there are entries left. -/
theorem roomFor_iff (events : List UserEvent)
    (faults : ∀ event ∈ events, ∃ faulttype address, event = .fault faulttype address) :
    ∀ {room : Nat}, RoomFor events room ↔ events.length ≤ room := by
  induction events with
  | nil => simp [RoomFor]
  | cons event rest ih =>
      intro room
      rcases faults event (mem_cons_self ..) with ⟨_, _, rfl⟩
      have later : RoomFor rest (room - 1) ↔ rest.length ≤ room - 1 :=
        ih fun event mem => faults event (mem_cons_of_mem _ mem)
      simp only [RoomFor, later, List.length_cons]
      omega

end Vm

namespace TlbSystem

open Vm

variable {s : TlbSystem} {thread : TlbThread} {as : Nat} {space : Addrspace}

theorem ensures_curthread_of (current : s.threads s.cur = some thread) {panics : Panic → Prop}
    {fails : Errno → TlbSystem → Prop} {returns : TlbThread → TlbSystem → Prop} :
    Ensures curthread s panics fails returns ↔ returns thread s := by
  simp only [curthread, ensures_bind, ensures_get, current]
  rfl

theorem fault_served_iff (current : s.threads s.cur = some thread)
    (has : thread.tVmspace = some as) (loaded : s.vm.Loaded as space) {address : Nat}
    (inside : Inside space address) {faulttype : FaultType}
    (access : faulttype = .read ∨ faulttype = .write) :
    Ensures (fault faulttype address) s (fun _ => False) (fun _ _ => False)
        (fun _ s' => s'.vm.Mapped as address) ↔
      0 < s.vm.room := by
  have outcome := loaded.vmFault inside access
  rw [fault, ensures_bind, ensures_curthread_of current, has]
  simp only [onVm, ensures_bind, ensures_get, ensures_zoom, ensures_modify]
  constructor
  · intro served
    rcases (served.and outcome).outcomes with ⟨_, _, impossible, _⟩ |
      ⟨_, _, _, impossible, _⟩ | ⟨_, _, _, _, some, _⟩
    · exact impossible.elim
    · exact impossible.elim
    · exact some
  · intro some
    apply outcome.answers
    · exact fun _ _ failed => absurd failed.1 (by omega)
    · exact fun _ _ returned => returned.2.2.2

/-- The accesses of a process to its own memory are served exactly as long as there is room in the
TLB; and so is each fault of the thread that runs, in any run with other threads. -/
theorem accesses_served_iff {vm : Vm} (loaded : vm.Loaded as space) :
    (∀ events : List UserEvent, (∀ event ∈ events, event.Within as space) →
      (Served as events vm ↔ RoomFor events vm.room)) ∧
    ∀ (s : TlbSystem) (thread : TlbThread), machine.Reachable Booted s →
      s.threads s.cur = some thread → thread.tVmspace = some as → s.vm.Loaded as space →
      ∀ faulttype address, Inside space address → (faulttype = .read ∨ faulttype = .write) →
        (Prog.Ensures (fault faulttype address) s (fun _ => False) (fun _ _ => False)
            (fun _ s' => s'.vm.Mapped as address) ↔
          ∃ i < numTlb, ¬(s.vm.tlb i).Valid) := by
  refine ⟨fun events within => loaded.served_iff events within, ?_⟩
  intro s thread _ current has loaded' faulttype address inside access
  rw [← room_pos_iff]
  exact fault_served_iff current has loaded' inside access

def largeSpace : Addrspace where
  asVbase1 := 0x400000
  asPbase1 := 0x100000
  asNpages1 := 100
  asVbase2 := 0x10000000
  asPbase2 := 0x200000
  asNpages2 := 1
  asStackpbase := 0x300000

def largeProgram : Vm :=
  { smallMachine with
    spaces := Function.update (fun _ => none) 0 (some largeSpace)
    nextSpace := 1 }

theorem largeProgram_loaded : largeProgram.Loaded 0 largeSpace :=
  ⟨rfl, by decide⟩

theorem largeProgram_room : largeProgram.room = 64 := by
  decide +kernel

def touches (n : Nat) : List UserEvent :=
  (List.range n).map fun page => .fault .read (0x400000 + page * pageSize)

theorem touches_within {n : Nat} (small : n ≤ 100) :
    ∀ event ∈ touches n, event.Within 0 largeSpace := by
  intro event mem
  rcases List.mem_map.mp mem with ⟨page, inside, rfl⟩
  have inside := mem_range.mp inside
  have whole : pageFrame (0x400000 + page * pageSize) = 0x400000 + page * pageSize := by
    simp only [pageFrame, pageSize]
    omega
  refine ⟨Or.inl rfl, .region1, if_pos ?_⟩
  rw [whole]
  simp only [largeSpace, uint32, pageSize]
  omega

theorem touches_roomFor (n room : Nat) : RoomFor (touches n) room ↔ n ≤ room := by
  have faults : ∀ event ∈ touches n, ∃ faulttype address,
      event = UserEvent.fault faulttype address := by
    intro event mem
    rcases List.mem_map.mp mem with ⟨page, _, rfl⟩
    exact ⟨_, _, rfl⟩
  rw [roomFor_iff _ faults, touches, List.length_map, List.length_range]

theorem accesses_served_large_program : Served 0 (touches 64) largeProgram := by
  have served := (accesses_served_iff largeProgram_loaded).1 (touches 64)
    (touches_within (by decide))
  rw [largeProgram_room, touches_roomFor] at served
  exact served.mpr le_rfl

/-- The program cannot touch the page after its 64th one. -/
theorem access_to_next_page_fails :
    (∀ event ∈ touches 65, event.Within 0 largeSpace) ∧ ¬Served 0 (touches 65) largeProgram := by
  refine ⟨touches_within (by decide), ?_⟩
  rw [largeProgram_loaded.served_iff _ (touches_within (by decide)), largeProgram_room,
    touches_roomFor]
  decide

end TlbSystem

end Os161
