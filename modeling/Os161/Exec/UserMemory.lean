import Os161.Exec.Segments
import Os161.Vm.TlbRoom

/-!
# Accesses to user memory during a load

In an address space that is set up properly (`Live`) an access reaches the byte that the
region lookup of `vm_fault` gives for the address, or fails with `EFAULT`; in one that is not
(`Bare`) the first access runs into the assertions of `vm_fault`. What becomes of some bytes
that are moved to user memory is a `Fate` that can be read off the address space, as long as
the TLB does not fill up. From this the functions that move data get their specifications, up
to `load_segment`.
-/

namespace Os161

attribute [local irreducible] int32 uint32

theorem int32_int32 (value : Int) : int32 (int32 value) = int32 value :=
  int32_eq (le_int32 value) (int32_lt value)

/-- The byte of physical memory behind an address of the process. -/
def Addrspace.physical (space : Addrspace) (a : Nat) : Option Nat :=
  (Vm.vmFaultLookup space (pageFrame a)).map fun frame => frame + a % pageSize

/-- No two addresses share a byte. -/
def Addrspace.Injective (space : Addrspace) : Prop :=
  ∀ a a' p, space.physical a = some p → space.physical a' = some p → a = a'

namespace Vm

variable {vm : Vm} {as page frame : Nat} {owner : Nat → Option Nat}

theorem TlbOf.tlbFind (consistent : TlbOf vm owner as) (found : vm.tlbFind page = some frame) :
    vm.mapping as page = some frame := by
  rcases map_eq_some_iff.mp found with ⟨i, first, rfl⟩
  have inside := mem_range.mp (List.mem_of_find?_eq_some first)
  have valid := List.find?_some first
  simp only [decide_eq_true_eq] at valid
  have mapped := (consistent.mapped i inside valid.1).2.2
  rwa [valid.2] at mapped

theorem tlbFind_eq_none :
    vm.tlbFind page = none ↔ ∀ i < numTlb, (vm.tlb i).Valid → (vm.tlb i).ehi ≠ page := by
  simp [Vm.tlbFind]

end Vm

namespace Loading

variable {s s' : Loading} {as : Nat} {space : Addrspace}

/-- Another thread runs before each access, so that the TLB is flushed every time. -/
def Switching (s : Loading) : Prop :=
  ∀ i, s.switches i = true

/-- The machine after accesses that leave the `uio` alone. -/
structure Onward (s s' : Loading) : Prop where
  u : s'.u = s.u
  switching : s.Switching → s'.Switching

theorem Onward.trans {s'' : Loading} (first : Onward s s') (second : Onward s' s'') :
    Onward s s'' :=
  ⟨second.u.trans first.u, fun switching => second.switching (first.switching switching)⟩

theorem onward_switched (s : Loading) : Onward s s.switched :=
  ⟨rfl, fun switching i => switching (i + 1)⟩

/-- The address space is set up and the TLB is that of it. -/
structure Live (s : Loading) (as : Nat) (space : Addrspace) : Prop where
  held : s.vm.spaces as = some space
  ready : space.Ready
  tlb : s.vm.TlbOf (fun _ => some as) as

theorem switched_vm (s : Loading) :
    s.switched.vm = s.vm ∧ ¬s.Switching ∨ s.switched.vm = s.vm.flush := by
  cases switch : s.switches 0 with
  | false =>
      refine Or.inl ⟨by simp [Loading.switched, switch], fun switching => ?_⟩
      cases switch.symm.trans (switching 0)
  | true => exact Or.inr (by simp [Loading.switched, switch])

theorem Live.switched (live : Live s as space) :
    Live s.switched as space ∧ s.switched.vm.mem = s.vm.mem := by
  rcases s.switched_vm with ⟨same, _⟩ | flushed
  · exact ⟨⟨same ▸ live.held, live.ready, same ▸ live.tlb⟩, by rw [same]⟩
  · refine ⟨⟨flushed ▸ live.held, live.ready, flushed ▸ Vm.flush_tlbOf _ as⟩, ?_⟩
    rw [flushed]
    rfl

theorem Live.mapping (live : Live s as space) (page : Nat) :
    s.vm.mapping as page = Vm.vmFaultLookup space page :=
  Vm.mapping_of_ready live.held live.ready page

theorem pageFrame_pageFrame (addr : Nat) : pageFrame (pageFrame addr) = pageFrame addr :=
  Addrspace.pageFrame_eq_iff.mpr (Vm.pageFrame_mod addr)

theorem Live.vmFault (live : Live s as space) (addr : Nat)
    (missing : s.vm.tlbFind (pageFrame addr) = none) :
    Ensures (onVm (Vm.vmFault (some as) .write addr)) s (fun _ => False)
      (fun _ _ => s.vm.room = 0 ∨ Vm.vmFaultLookup space (pageFrame addr) = none)
      (fun _ s' => Live s' as space ∧ Onward s s' ∧ s'.vm.mem = s.vm.mem ∧
        ∃ frame, Vm.vmFaultLookup space (pageFrame addr) = some frame ∧
          s'.vm.tlbFind (pageFrame addr) = some frame) := by
  rw [onVm, ensures_zoom]
  simp only [Vm.vmFault, ensures_bind, Vm.ensures_deref_of live.held]
  apply Vm.vmFaultChecks_spec.mono (fun _ unready => unready.2 live.ready)
    (fun _ _ failed => failed)
  rintro _ vm' ⟨rfl, _⟩
  cases found : Vm.vmFaultLookup space (pageFrame addr) with
  | none => exact Or.inr rfl
  | some frame =>
      have whole := Vm.lookup_whole live.ready found
      have mapped : s.vm.mapping as (pageFrame addr) = some frame := (live.mapping _).trans found
      simp only [ensures_bind, ensures_assert_of whole]
      apply Vm.vmFaultInstall_room.mono (fun _ impossible => impossible)
      · exact fun _ _ full => Or.inl full.1
      rintro _ vm'' ⟨i, inside, invalid, rfl⟩
      have installed : Vm.TlbOf (s.vm.install i (pageFrame addr) frame) (fun _ => some as) as := by
        have next := live.tlb.install inside invalid whole
          (pageFrame_pageFrame addr) mapped (Vm.tlbFind_eq_none.mp missing)
        simpa only [ite_self] using next
      have present : ((s.vm.install i (pageFrame addr) frame).tlbFind (pageFrame addr)).isSome := by
        rw [isSome_iff_ne_none, Ne, Vm.tlbFind_eq_none]
        intro absent
        apply absent i inside
        · simp only [Vm.install, update_self]
          exact (Vm.pageFrame_entry whole).2
        · simp only [Vm.install, update_self]
      rcases isSome_iff_exists.mp present with ⟨frame', found'⟩
      have mapped' : (s.vm.install i (pageFrame addr) frame).mapping as (pageFrame addr) =
          Vm.vmFaultLookup space (pageFrame addr) :=
        Vm.mapping_of_ready live.held live.ready (pageFrame addr)
      rw [installed.tlbFind found', found] at mapped'
      rw [Option.some.inj mapped'] at found'
      exact ⟨⟨live.held, live.ready, installed⟩, ⟨rfl, fun switching => switching⟩, rfl, frame, rfl,
        found'⟩

theorem Live.userFrame (live : Live s as space) (addr : Nat) :
    Ensures (userFrame as addr) s (fun _ => False)
      (fun _ _ => s.Switching → Vm.vmFaultLookup space (pageFrame addr) = none)
      (fun frame s' => Live s' as space ∧ Onward s s' ∧ s'.vm.mem = s.vm.mem ∧
        Vm.vmFaultLookup space (pageFrame addr) = some frame) := by
  rcases live.switched with ⟨live', mem⟩
  have onward := s.onward_switched
  rw [Loading.userFrame, ensures_bind, ensures_modify, ensures_bind, ensures_get]
  cases found : s.switched.vm.tlbFind (pageFrame addr) with
  | some frame =>
      exact ⟨live', onward, mem, (live'.mapping _).symm.trans (live'.tlb.tlbFind found)⟩
  | none =>
      rw [ensures_bind]
      apply (live'.vmFault addr found).mono (fun _ impossible => impossible)
      · rintro _ _ (full | unmapped) switching
        · rcases s.switched_vm with ⟨_, quiet⟩ | flushed
          · exact absurd switching quiet
          · rw [flushed, Vm.room_flush] at full
            cases full
        · exact unmapped
      · rintro _ s'' ⟨live'', onward', mem', frame, lookup, found'⟩
        rw [ensures_bind, ensures_get, found']
        exact ⟨live'', onward.trans onward', mem'.trans mem, lookup⟩

/-- The byte that the process has at an address. -/
def byteAt (s : Loading) (space : Addrspace) (a : Nat) : Option UInt8 :=
  (space.physical a).map s.vm.mem

/-- `n` bytes from `dest` on were written. -/
def Wrote (space : Addrspace) (dest n : Nat) (source : Bytes) (s s' : Loading) : Prop :=
  space.Injective → ∀ a, s'.byteAt space a =
    if dest ≤ a ∧ a < dest + n then some (source (a - dest)) else s.byteAt space a

theorem Live.storeUser (live : Live s as space) (addr : Nat) (byte : UInt8) :
    Ensures (storeUser as addr byte) s (fun _ => False)
      (fun _ _ => s.Switching → space.physical addr = none)
      (fun _ s' => (space.physical addr).isSome ∧ Live s' as space ∧ Onward s s' ∧
        Wrote space addr 1 (fun _ => byte) s s') := by
  rw [Loading.storeUser, ensures_bind]
  apply (live.userFrame addr).mono (fun _ impossible => impossible)
  · intro _ _ unmapped switching
    rw [Addrspace.physical, unmapped switching, Option.map_none]
  rintro frame s' ⟨live', onward, mem, lookup⟩
  have physical : space.physical addr = some (frame + addr % pageSize) := by
    simp only [Addrspace.physical, lookup, map_some]
  refine ⟨by simp [physical], ⟨live'.held, live'.ready, live'.tlb.congr rfl rfl⟩,
    ⟨onward.u, onward.switching⟩, ?_⟩
  intro injective a
  simp only [byteAt, storeMem, mem]
  by_cases here : a = addr
  · rw [if_pos (by omega), here, physical]
    simp
  · rw [if_neg (by omega)]
    cases place : space.physical a with
    | none => rfl
    | some p =>
        have elsewhere : p ≠ frame + addr % pageSize := by
          intro shared
          rw [shared] at place
          exact here (injective a addr _ place physical)
        simp [update_of_ne elsewhere]

theorem wrote_zero (dest : Nat) (source : Bytes) (s : Loading) : Wrote space dest 0 source s s := by
  intro _ a
  rw [if_neg (by omega)]

theorem Wrote.trans {s'' : Loading} {dest m n : Nat} {first second : Bytes}
    (wrote : Wrote space dest m first s s') (wrote' : Wrote space (dest + m) n second s' s'') :
    Wrote space dest (m + n) (first.append m second) s s'' := by
  intro injective a
  rw [wrote' injective, wrote injective]
  simp only [Bytes.append]
  split_ifs <;> first | rfl | omega | (congr 2; omega)

theorem Wrote.congr {dest n : Nat} {first second : Bytes} (wrote : Wrote space dest n first s s')
    (same : ∀ i < n, first i = second i) : Wrote space dest n second s s' := by
  intro injective a
  rw [wrote injective]
  split_ifs with inside
  · rw [same (a - dest) (by omega)]
  · rfl

theorem Live.memcpyUser (live : Live s as space) (source : Bytes) (userdest done n : Nat) :
    Ensures (memcpyUser as source userdest done n) s (fun _ => False)
      (fun _ _ => s.Switching → ¬∀ i < n, (space.physical (userdest + done + i)).isSome)
      (fun _ s' => (∀ i < n, (space.physical (userdest + done + i)).isSome) ∧ Live s' as space ∧
        Onward s s' ∧ Wrote space (userdest + done) n (fun i => source (done + i)) s s') := by
  induction n generalizing s done with
  | zero =>
      exact ⟨fun i below => absurd below (Nat.not_lt_zero i), live,
        ⟨rfl, fun switching => switching⟩, wrote_zero _ _ s⟩
  | succ n ih =>
      have first : (∀ i < n + 1, (space.physical (userdest + done + i)).isSome) ↔
          (space.physical (userdest + done)).isSome ∧
            ∀ i < n, (space.physical (userdest + (done + 1) + i)).isSome := by
        rw [Nat.forall_lt_succ_left]
        simp only [Nat.add_zero, Nat.add_assoc, Nat.add_comm 1]
      rw [Loading.memcpyUser, ensures_bind, first]
      apply (live.storeUser (userdest + done) (source done)).mono (fun _ impossible => impossible)
      · intro _ _ unmapped switching mapped
        rw [unmapped switching] at mapped
        cases mapped.1
      rintro _ s₁ ⟨mapped, live₁, onward₁, wrote₁⟩
      apply (ih live₁ (done + 1)).mono (fun _ impossible => impossible)
      · exact fun _ _ unmapped switching all => unmapped (onward₁.switching switching) all.2
      · rintro _ s₂ ⟨mapped₂, live₂, onward₂, wrote₂⟩
        refine ⟨⟨mapped, mapped₂⟩, live₂, onward₁.trans onward₂, ?_⟩
        rw [Nat.add_comm n 1]
        apply (wrote₁.trans wrote₂).congr
        intro i inside
        simp only [Bytes.append]
        split_ifs with first
        · rw [Nat.lt_one_iff.mp first, Nat.add_zero]
        · congr 1
          omega

end Loading

/-! ## What becomes of bytes -/

/-- What becomes of a part of a load: it is refused with an error, it stops the kernel, or the
load goes on. -/
inductive Fate where
  | refused
  | fatal
  | loaded
  deriving DecidableEq

/-- The fate of two parts, one after the other. -/
def Fate.andThen : Fate → Fate → Fate
  | .loaded, next => next
  | .refused, _ => .refused
  | .fatal, _ => .fatal

theorem Fate.andThen_loaded {first second : Fate} (isFirst : first = .loaded) :
    first.andThen second = second := by
  rw [isFirst]
  rfl

/-- The fate of `n` bytes that are moved to an address, if the TLB has room. -/
def Addrspace.piece (space : Addrspace) (dest n : Nat) : Fate :=
  if n = 0 then
    .loaded
  else if userTop < dest + n then
    .refused
  else if ¬space.Ready then
    .fatal
  else if ∀ i < n, (space.physical (dest + i)).isSome then
    .loaded
  else
    .refused

/-- The fate of what a call of `VOP_READ` moves. -/
def Reading.fate (space : Addrspace) : (dest : Nat) → Reading → Fate
  | _, .done => .loaded
  | _, .fail _ => .refused
  | _, .panic _ => .fatal
  | dest, .move _ n next => (space.piece dest n).andThen (next.fate space (dest + n))

/-- The moves of `uiomovezeros`. -/
def Reading.zeros : (fuel n : Nat) → Reading
  | 0, _ => .done
  | fuel + 1, n =>
      if 0 < n then .move (fun _ => 0) (min 16 n) (zeros fuel (n - min 16 n)) else .done

theorem Reading.total_zeros {fuel n : Nat} (enough : n ≤ fuel) : (zeros fuel n).total = n := by
  induction fuel generalizing n with
  | zero => exact (Nat.le_zero.mp enough).symm
  | succ fuel ih =>
      rw [zeros]
      split
      · rw [total, ih (by omega)]
        omega
      · rw [total]
        omega

theorem Reading.bytes_zeros (fuel n : Nat) : (zeros fuel n).bytes = fun _ => 0 := by
  induction fuel generalizing n with
  | zero => rfl
  | succ fuel ih =>
      rw [zeros]
      split
      · rw [bytes, ih]
        funext k
        exact ite_self _
      · rfl

namespace Loading

variable {s s' : Loading} {as : Nat} {space : Addrspace}

/-- The address space is not set up, and the TLB holds nothing. -/
structure Bare (s : Loading) (as : Nat) (space : Addrspace) : Prop where
  held : s.vm.spaces as = some space
  unready : ¬space.Ready
  invalid : ∀ i < numTlb, ¬(s.vm.tlb i).Valid

theorem Bare.switched (bare : Bare s as space) : Bare s.switched as space := by
  rcases s.switched_vm with ⟨same, _⟩ | flushed
  · exact ⟨same ▸ bare.held, bare.unready, same ▸ bare.invalid⟩
  · exact ⟨flushed ▸ bare.held, bare.unready, flushed ▸ Vm.flush_invalid⟩

theorem Bare.userFrame (bare : Bare s as space) (addr : Nat) :
    Ensures (userFrame as addr) s (fun _ => True) (fun _ _ => False) (fun _ _ => False) := by
  have bare' := bare.switched
  have missing : s.switched.vm.tlbFind (pageFrame addr) = none :=
    Vm.tlbFind_eq_none.mpr fun i inside valid => absurd valid (bare'.invalid i inside)
  rw [Loading.userFrame, ensures_bind, ensures_modify, ensures_bind,
    ensures_get, missing, ensures_bind, onVm, ensures_zoom]
  simp only [Vm.vmFault, ensures_bind, Vm.ensures_deref_of bare'.held]
  apply Vm.vmFaultChecks_spec.mono (fun _ _ => trivial) (fun _ _ failed => failed)
  rintro _ _ ⟨_, ready⟩
  exact absurd ready bare.unready

/-- The address space after `as_prepare_load`, set up or not. -/
def Prepared (s : Loading) (as : Nat) (space : Addrspace) : Prop :=
  Live s as space ∨ Bare s as space

theorem Prepared.held (prepared : Prepared s as space) : s.vm.spaces as = some space := by
  rcases prepared with live | bare
  · exact live.held
  · exact bare.held

theorem Prepared.live (prepared : Prepared s as space) (ready : space.Ready) : Live s as space := by
  rcases prepared with live | bare
  · exact live
  · exact absurd ready bare.unready

/-- What happens to the `uio` is nothing to the address space. -/
theorem Prepared.congr (prepared : Prepared s as space) (same : s'.vm = s.vm) :
    Prepared s' as space := by
  rcases prepared with live | bare
  · exact Or.inl ⟨same ▸ live.held, live.ready, same ▸ live.tlb⟩
  · exact Or.inr ⟨same ▸ bare.held, bare.unready, same ▸ bare.invalid⟩

theorem Prepared.copyoutUser (prepared : Prepared s as space) (source : Bytes) {userdest len : Nat}
    (positive : 0 < len) (small : len < 2 ^ 32) :
    Ensures (copyoutUser as source userdest len) s
      (fun _ => space.piece userdest len = .fatal)
      (fun _ _ => s.Switching → space.piece userdest len = .refused)
      (fun _ s' => space.piece userdest len = .loaded ∧ Prepared s' as space ∧ Onward s s' ∧
        Wrote space userdest len source s s') := by
  have check : copycheck userdest len = .ok len ↔ userdest + len ≤ userTop :=
    copycheck_iff positive small
  rw [Loading.copyoutUser, Addrspace.piece, if_neg (Nat.ne_of_gt positive)]
  by_cases below : userdest + len ≤ userTop
  · rw [check.mpr below, if_neg (not_lt.mpr below)]
    dsimp only
    rw [if_pos rfl]
    rcases prepared with live | bare
    · rw [if_neg (not_not.mpr live.ready)]
      have copied := live.memcpyUser source userdest 0 len
      simp only [Nat.add_zero, Nat.zero_add] at copied
      apply copied.mono (fun _ impossible => impossible.elim)
      · exact fun _ _ unmapped switching => if_neg (unmapped switching)
      · rintro _ s' ⟨mapped, live', onward, wrote⟩
        exact ⟨if_pos mapped, Or.inl live', onward, wrote⟩
    · rw [if_pos bare.unready]
      rcases Nat.exists_eq_succ_of_ne_zero (Nat.ne_of_gt positive) with ⟨rest, rfl⟩
      rw [Loading.memcpyUser, ensures_bind, Loading.storeUser, ensures_bind]
      exact (bare.userFrame _).mono (fun _ _ => rfl) (fun _ _ impossible => impossible.elim)
        (fun _ _ impossible => impossible.elim)
  · rw [if_pos (not_le.mp below)]
    cases checked : copycheck userdest len with
    | error failure => exact fun _ => rfl
    | ok stoplen =>
        apply ensures_branch
        · exact fun whole => absurd (check.mp (whole ▸ checked)) below
        · exact fun _ _ => rfl

/-! ## `uiomove` and `uiomovezeros` -/

theorem uiomoveUserLoop_zero (as : Nat) (source : Bytes) (fuel done : Nat) :
    uiomoveUserLoop as source fuel done 0 = pure () := by
  cases fuel with
  | zero => rfl
  | succ fuel =>
      funext s
      simp only [uiomoveUserLoop, Nat.lt_irrefl, false_and, if_false]
      rfl

theorem ensures_uiomoveUser {panics : Panic → Prop} {fails : Errno → Loading → Prop}
    {returns : Unit → Loading → Prop} {source : Bytes} {n : Nat} (positive : 0 < n)
    (room : n ≤ s.u.iovLen) (resid : 0 < s.u.uioResid) :
    Ensures (uiomoveUser as source n) s panics fails returns ↔
      Ensures (copyoutUser as source s.u.iovUbase n) s panics fails
        (fun _ s' => returns () (advance n s')) := by
  have size : min s.u.iovLen n = n := Nat.min_eq_right room
  have some : min s.u.iovLen n ≠ 0 := by omega
  cases n with
  | zero => exact absurd positive (Nat.lt_irrefl 0)
  | succ n =>
      rw [uiomoveUser, uiomoveUserLoop, ensures_bind, ensures_get, if_pos ⟨positive, resid⟩]
      simp only [ensures_bind, ensures_assert_of some, size, Nat.zero_add, Nat.sub_self,
        uiomoveUserLoop_zero, ensures_modify, ensures_pure]

/-- There are `n` bytes to go, and room for them. -/
structure Asks (n : Nat) (s : Loading) : Prop where
  room : n ≤ s.u.iovLen
  resid : n ≤ s.u.uioResid
  small : s.u.uioResid < 2 ^ 32
  offset : int32 s.u.uioOffset = s.u.uioOffset

theorem Asks.first {m n : Nat} (asks : Asks (m + n) s) : Asks m s :=
  ⟨(Nat.le_add_right m n).trans asks.room, (Nat.le_add_right m n).trans asks.resid, asks.small,
    asks.offset⟩

/-- The bytes were moved to user memory. -/
structure Stored (as : Nat) (space : Addrspace) (n : Nat) (source : Bytes) (s s' : Loading) :
    Prop where
  prepared : Prepared s' as space
  switching : s.Switching → s'.Switching
  base : s'.u.iovUbase = s.u.iovUbase + n
  len : s'.u.iovLen = s.u.iovLen - n
  resid : s'.u.uioResid = s.u.uioResid - n
  offset : s'.u.uioOffset = int32 (s.u.uioOffset + n)
  wrote : Wrote space s.u.iovUbase n source s s'

theorem Prepared.stored_zero (prepared : Prepared s as space) (asks : Asks 0 s) (source : Bytes) :
    Stored as space 0 source s s := by
  refine ⟨prepared, fun switching => switching, rfl, rfl, rfl, ?_, wrote_zero _ _ s⟩
  rw [Int.natCast_zero, Int.add_zero, asks.offset]

theorem Stored.trans {s'' : Loading} {m n : Nat} {first second : Bytes}
    (stored : Stored as space m first s s') (stored' : Stored as space n second s' s'') :
    Stored as space (m + n) (first.append m second) s s'' := by
  refine ⟨stored'.prepared, fun switching => stored'.switching (stored.switching switching), ?_, ?_,
    ?_, ?_, ?_⟩
  · rw [stored'.base, stored.base, Nat.add_assoc]
  · rw [stored'.len, stored.len, Nat.sub_sub]
  · rw [stored'.resid, stored.resid, Nat.sub_sub]
  · rw [stored'.offset, stored.offset, int32_add, Int.natCast_add, Int.add_assoc]
  · apply stored.wrote.trans
    rw [← stored.base]
    exact stored'.wrote

theorem Stored.asks {m n : Nat} {source : Bytes} (stored : Stored as space m source s s')
    (asks : Asks (m + n) s) : Asks n s' := by
  rcases asks with ⟨room, resid, small, _⟩
  have len := stored.len
  have left := stored.resid
  exact ⟨by omega, by omega, by omega, by rw [stored.offset, int32_int32]⟩

theorem Prepared.uiomoveUser (prepared : Prepared s as space) (source : Bytes) {n : Nat}
    (asks : Asks n s) :
    Ensures (uiomoveUser as source n) s
      (fun _ => space.piece s.u.iovUbase n = .fatal)
      (fun _ _ => s.Switching → space.piece s.u.iovUbase n = .refused)
      (fun _ s' => space.piece s.u.iovUbase n = .loaded ∧ Stored as space n source s s') := by
  rcases Nat.eq_zero_or_pos n with rfl | positive
  · exact ⟨rfl, prepared.stored_zero asks source⟩
  · rcases asks with ⟨room, resid, small, _⟩
    rw [ensures_uiomoveUser positive room (by omega)]
    apply (prepared.copyoutUser source positive (by omega)).imp
    rintro _ s' ⟨loaded, prepared', onward, wrote⟩
    refine ⟨loaded, prepared'.congr rfl, onward.switching, ?_, ?_, ?_, ?_, wrote⟩
    · simp only [advance, onward.u]
    · simp only [advance, onward.u]
    · simp only [advance, onward.u]
      rw [uint32_eq (by omega) (by omega)]
      omega
    · simp only [advance, onward.u]

/-- A sequence of moves to user memory. -/
theorem Prepared.reading (prepared : Prepared s as space) (reading : Reading)
    (asks : Asks reading.total s) :
    Ensures (reading.run (Loading.uiomoveUser as)) s
      (fun _ => reading.fate space s.u.iovUbase = .fatal)
      (fun _ _ => s.Switching → reading.fate space s.u.iovUbase = .refused)
      (fun _ s' => reading.fate space s.u.iovUbase = .loaded ∧
        Stored as space reading.total reading.bytes s s') := by
  induction reading generalizing s with
  | done => exact ⟨rfl, prepared.stored_zero asks _⟩
  | fail failure => exact fun _ => rfl
  | panic reason => rfl
  | move source n next ih =>
      have asks : Asks (n + next.total) s := asks
      rw [Reading.run, ensures_bind, Reading.fate]
      apply (prepared.uiomoveUser source asks.first).mono
      · intro _ isFatal
        rw [isFatal]
        rfl
      · intro _ _ isRefused switching
        rw [isRefused switching]
        rfl
      rintro _ s₁ ⟨isLoaded, stored⟩
      rw [Fate.andThen_loaded isLoaded, ← stored.base]
      apply (ih stored.prepared (stored.asks asks)).mono (fun _ isFatal => isFatal)
      · exact fun _ _ isRefused switching => isRefused (stored.switching switching)
      · rintro _ s₂ ⟨isLoaded₂, stored₂⟩
        exact ⟨isLoaded₂, stored.trans stored₂⟩

theorem uiomovezerosUser_eq (as fuel n : Nat) :
    uiomovezerosUser as fuel n = (Reading.zeros fuel n).run (Loading.uiomoveUser as) := by
  induction fuel generalizing n with
  | zero => rfl
  | succ fuel ih =>
      rw [uiomovezerosUser, Reading.zeros]
      split
      · rw [Reading.run, ih]
      · rfl

end Loading

/-! ## The functions of `Os161.Kern.Uio` -/

namespace Addrspace

variable {space : Addrspace} {dest n : Nat}

theorem piece_of_ready (ready : space.Ready) (positive : 0 < n) :
    space.piece dest n = if dest + n ≤ userTop ∧ ∀ i < n, (space.physical (dest + i)).isSome then
      .loaded else .refused := by
  rw [piece, if_neg (Nat.ne_of_gt positive), if_neg (not_not.mpr ready)]
  by_cases below : dest + n ≤ userTop
  · simp only [below, true_and, if_neg (not_lt.mpr below)]
  · simp only [below, false_and, if_false, if_pos (not_le.mp below)]

end Addrspace

namespace Loading

variable {s s' : Loading} {as n : Nat} {space : Addrspace}

/-- The `uio` of a load; its memory is what the process has in its frames. -/
def uio (s : Loading) (as : Nat) (space : Addrspace) : Uio where
  iovBase := s.u.iovUbase
  iovLen := s.u.iovLen
  uioOffset := s.u.uioOffset
  uioResid := s.u.uioResid
  uioSegflg := .userispace
  uioRw := .read
  uioSpace := some as
  mem := ⟨fun _ => 0, s.byteAt space, some as⟩

theorem Asks.fits (asks : Asks n s) (as : Nat) (space : Addrspace) : (s.uio as space).Fits n :=
  ⟨asks.room, asks.resid, asks.small, rfl, (le_int32 _).trans_eq asks.offset,
    asks.offset.symm.trans_lt (int32_lt _)⟩

theorem isSome_byteAt (a : Nat) : (s.byteAt space a).isSome = (space.physical a).isSome :=
  Option.isSome_map

theorem Stored.uio {source : Bytes} (stored : Stored as space n source s s')
    (injective : space.Injective) :
    s'.uio as space = ((s.uio as space).fill n source).advance n := by
  have user : s'.byteAt space = fun a => if s.u.iovUbase ≤ a ∧ a < s.u.iovUbase + n then
      some (source (a - s.u.iovUbase)) else s.byteAt space a :=
    funext (stored.wrote injective)
  simp only [Loading.uio, stored.base, stored.len, stored.resid, stored.offset, user]
  rfl

theorem Live.accessible_iff (live : Live s as space) (positive : 0 < n) :
    (s.uio as space).Accessible n ↔ space.piece s.u.iovUbase n = .loaded := by
  have mapped : (s.uio as space).Accessible n ↔ s.u.iovUbase + n ≤ userTop ∧
      ∀ i < n, (space.physical (s.u.iovUbase + i)).isSome := by
    simp only [Uio.Accessible, Memory.Accessible, Loading.uio, isSome_byteAt, reduceCtorEq,
      false_or]
  rw [mapped, Addrspace.piece_of_ready live.ready positive]
  split_ifs with usable
  · exact iff_of_true usable rfl
  · exact iff_of_false usable (by decide)

/-- `uiomoveUser` is the `uiomove` of `Os161.Kern.Uio` on the memory of the process, unless the TLB
fills up. -/
theorem Live.uiomoveUser_refines (live : Live s as space) (injective : space.Injective)
    (asks : Asks n s) (source : Bytes) :
    Ensures (uiomoveUser as source n) s (fun _ => False)
      (fun _ _ => s.Switching →
        ∃ uio', uiomove source n (s.uio as space) = .ok (.error .efault, uio'))
      (fun _ s' => Stored as space n source s s' ∧
        uiomove source n (s.uio as space) = .ok (.ok source, s'.uio as space)) := by
  have prepared : Prepared s as space := Or.inl live
  rcases Nat.eq_zero_or_pos n with rfl | positive
  · refine ⟨prepared.stored_zero asks source, eq_ok_of_ensures ?_⟩
    simp only [uiomove, Loading.uio, ensures_bind, ensures_get, ensures_assert_of rfl]
    exact ⟨rfl, rfl⟩
  have accessible := live.accessible_iff positive
  have spec := Uio.uiomove_spec (asks.fits as space) source
  have never : space.piece s.u.iovUbase n ≠ .fatal := by
    rw [Addrspace.piece_of_ready live.ready positive]
    split_ifs <;> decide
  apply (prepared.uiomoveUser source asks).mono (fun _ => never)
  · intro _ _ isRefused switching
    rcases spec.outcomes with ⟨_, _, impossible⟩ | ⟨_, uio', outcome, rfl, _⟩ | ⟨_, _, _, usable, _⟩
    · exact impossible.elim
    · exact ⟨uio', outcome⟩
    · cases (isRefused switching).symm.trans (accessible.mp (usable positive))
  · rintro _ s' ⟨isLoaded, stored⟩
    refine ⟨stored, ?_⟩
    rw [stored.uio injective]
    apply eq_ok_of_ensures
    apply spec.mono (fun _ impossible => impossible)
    · exact fun _ _ failed => failed.2.1 (accessible.mpr isLoaded)
    · rintro _ _ ⟨_, between, ⟨writing, _⟩ | ⟨_, rfl, rfl⟩, rfl⟩
      · cases writing
      · exact ⟨rfl, rfl⟩

/-- So is every sequence of moves. -/
theorem Live.reading_refines (live : Live s as space) (injective : space.Injective)
    (reading : Reading) (asks : Asks reading.total s) :
    Ensures (reading.run (uiomoveUser as)) s
      (fun reason => reading.run ElfFile.moveBytes (s.uio as space) = .error reason)
      (fun _ _ => s.Switching → ∃ failure uio',
        reading.run ElfFile.moveBytes (s.uio as space) = .ok (.error failure, uio'))
      (fun _ s' => reading.run ElfFile.moveBytes (s.uio as space) =
        .ok (.ok (), s'.uio as space)) := by
  induction reading generalizing s with
  | done => rfl
  | fail failure => exact fun _ => ⟨failure, _, rfl⟩
  | panic reason => rfl
  | move source n next ih =>
      have asks : Asks (n + next.total) s := asks
      rw [Reading.run, Reading.run, ensures_bind]
      apply (live.uiomoveUser_refines injective asks.first source).mono
        (fun _ impossible => impossible.elim)
      · intro _ _ refused switching
        rcases refused switching with ⟨uio', outcome⟩
        exact ⟨.efault, uio', Prog.bind_of_fail (Prog.bind_of_fail outcome)⟩
      · rintro _ s₁ ⟨stored, outcome⟩
        have moved : ElfFile.moveBytes source n (s.uio as space) =
            .ok (.ok (), s₁.uio as space) := bind_of_ok outcome
        simp only [bind_of_ok moved]
        apply (ih (stored.prepared.live live.ready) (stored.asks asks)).mono
          (fun _ halted => halted) _ (fun _ _ returned => returned)
        exact fun _ _ failed switching => failed (stored.switching switching)

theorem uiomovezerosLoop_eq (fuel n : Nat) :
    uiomovezerosLoop fuel n = (Reading.zeros fuel n).run ElfFile.moveBytes := by
  induction fuel generalizing n with
  | zero => rfl
  | succ fuel ih =>
      rw [uiomovezerosLoop, Reading.zeros]
      split
      · simp only [Reading.run, ih, ElfFile.moveBytes, Prog.bind_assoc]
        rfl
      · rfl

/-- `uiomovezerosUser` is the `uiomovezeros` of `Os161.Kern.Uio`, in the same way. -/
theorem Live.uiomovezerosUser_refines (live : Live s as space) (injective : space.Injective)
    (asks : Asks n s) :
    Ensures (uiomovezerosUser as n n) s
      (fun reason => uiomovezeros n (s.uio as space) = .error reason)
      (fun _ _ => s.Switching → ∃ failure uio',
        uiomovezeros n (s.uio as space) = .ok (.error failure, uio'))
      (fun _ s' => uiomovezeros n (s.uio as space) = .ok (.ok (), s'.uio as space)) := by
  have loop : uiomovezeros n (s.uio as space) =
      (Reading.zeros n n).run ElfFile.moveBytes (s.uio as space) := by
    rw [← uiomovezerosLoop_eq]
    rfl
  rw [loop, uiomovezerosUser_eq]
  apply live.reading_refines injective
  rwa [Reading.total_zeros le_rfl]

end Loading

/-! ## `load_segment` -/

namespace Phdr

/-- `filesize` in `load_segment`. -/
def copied (ph : Phdr) : Nat :=
  min ph.pFilesz ph.pMemsz

/-- What `VOP_READ` does with the request of `load_segment`. -/
def reading (ph : Phdr) (file : ElfFile) : Reading :=
  file.vopRead ph.copied (int32 ph.pOffset)

/-- What the memory of the segment is to hold. -/
def image (ph : Phdr) (file : ElfFile) : Bytes :=
  fun i => if i < ph.copied then (ph.reading file).bytes i else 0

/-- The fate of a segment. -/
def fate (ph : Phdr) (file : ElfFile) (space : Addrspace) : Fate :=
  ((ph.reading file).fate space ph.pVaddr).andThen
    (if (ph.reading file).total = ph.copied then
      (Reading.zeros (ph.pMemsz - ph.copied) (ph.pMemsz - ph.copied)).fate space
        (ph.pVaddr + ph.copied)
    else
      .refused)

end Phdr

namespace Loading

variable {s s' : Loading} {as : Nat} {space : Addrspace} {file : ElfFile} {ph : Phdr}

theorem zeroFill_eq (as fillamt : Nat) (resid : s.u.uioResid = 0) (small : fillamt < 2 ^ 32) :
    zeroFill as fillamt s = (Reading.zeros fillamt fillamt).run (Loading.uiomoveUser as)
      { s with u := { s.u with uioResid := fillamt } } := by
  have total : uint32 (s.u.uioResid + fillamt) = fillamt := by
    rw [resid, uint32_eq (by omega) (by omega)]
    omega
  rw [zeroFill]
  split
  · rw [Prog.modify_bind_apply, uiomovezerosUser_eq, addResid, total]
  · rename_i none
    have zero : fillamt = 0 := by omega
    have same : { s with u := { s.u with uioResid := 0 } } = s := by rw [← resid]
    rw [zero, same]
    rfl

/-- `load_segment` does what its segment is fated to, or fails because the TLB is full. If it
returns, the image of the segment is in memory. -/
theorem Prepared.loadSegment (prepared : Prepared s as space) (small : ph.pMemsz < 2 ^ 32) :
    Ensures (loadSegment file as ph.pOffset ph.pVaddr ph.pMemsz ph.pFilesz) s
      (fun _ => ph.fate file space = .fatal)
      (fun _ _ => s.Switching → ph.fate file space = .refused)
      (fun _ s' => ph.fate file space = .loaded ∧ Prepared s' as space ∧
        (s.Switching → s'.Switching) ∧ (ph.reading file).total = ph.copied ∧
        Wrote space ph.pVaddr ph.pMemsz (ph.image file) s s') := by
  have part : ph.copied ≤ ph.pMemsz := Nat.min_le_right _ _
  have within : (ph.reading file).total ≤ ph.copied := file.within _ _
  have prepared₀ : Prepared (setUio ⟨ph.pVaddr, ph.pMemsz, ph.copied, int32 ph.pOffset⟩ s) as
      space := prepared.congr rfl
  have asks : Asks (ph.reading file).total
      (setUio ⟨ph.pVaddr, ph.pMemsz, ph.copied, int32 ph.pOffset⟩ s) :=
    ⟨within.trans part, within, by simp only [setUio]; omega, int32_int32 _⟩
  rw [Loading.loadSegment, ensures_bind, ensures_modify, ensures_bind]
  apply (prepared₀.reading (ph.reading file) asks).mono
  · intro _ isFatal
    have isFatal : (ph.reading file).fate space ph.pVaddr = .fatal := isFatal
    rw [Phdr.fate, isFatal]
    rfl
  · intro _ _ isRefused switching
    have isRefused : (ph.reading file).fate space ph.pVaddr = .refused := isRefused switching
    rw [Phdr.fate, isRefused]
    rfl
  rintro _ s₁ ⟨isLoaded, stored⟩
  have isLoaded : (ph.reading file).fate space ph.pVaddr = .loaded := isLoaded
  have base : s₁.u.iovUbase = ph.pVaddr + (ph.reading file).total := stored.base
  have len : s₁.u.iovLen = ph.pMemsz - (ph.reading file).total := stored.len
  have resid : s₁.u.uioResid = ph.copied - (ph.reading file).total := stored.resid
  rw [Phdr.fate, Fate.andThen_loaded isLoaded, ensures_bind, ensures_get]
  apply ensures_branch
  · exact fun left _ => if_neg (by omega)
  · intro none
    have whole : (ph.reading file).total = ph.copied := by omega
    rw [if_pos whole, ← Phdr.copied, Prog.ensures_congr (zeroFill_eq as _ (by omega) (by omega))]
    have totalZeros := Reading.total_zeros (le_refl (ph.pMemsz - ph.copied))
    have prepared₁ : Prepared { s₁ with u := { s₁.u with uioResid := ph.pMemsz - ph.copied } }
        as space := stored.prepared.congr rfl
    have zeros := prepared₁.reading (Reading.zeros (ph.pMemsz - ph.copied) (ph.pMemsz - ph.copied))
      ⟨by simp only [totalZeros]; omega, totalZeros.le, by simp only; omega,
        by simp only [stored.offset, int32_int32]⟩
    rw [← whole, ← base]
    rw [← whole] at zeros
    apply zeros.mono (fun _ isFatal => isFatal)
    · exact fun _ _ isRefused switching => isRefused (stored.switching switching)
    rintro _ s₂ ⟨isLoaded₂, stored₂⟩
    refine ⟨isLoaded₂, stored₂.prepared, fun switching =>
      stored₂.switching (stored.switching switching), rfl, ?_⟩
    have wrote : Wrote space ph.pVaddr _ (ph.reading file).bytes s s₁ := stored.wrote
    have filled : Wrote space s₁.u.iovUbase _ _ s₁ s₂ := stored₂.wrote
    rw [whole, totalZeros, Reading.bytes_zeros, base, whole] at filled
    rw [whole] at wrote
    have all := wrote.trans filled
    rw [Nat.add_sub_cancel' part] at all
    exact all

end Loading

end Os161
