import Os161.Syscall.Vfs

/-!
# What a vnode operation does with its buffer

Three facts about the operations that get a `uio`, whatever the vnode.

With a `uio` for a buffer of the process, nothing above `USERTOP` is written. With one
for a buffer of the kernel, a write that uses only addresses of some set depends only
on the bytes there. And for a vnode that takes a known number of bytes, whether the
operation goes through depends on whether the buffer can be used for so many. The
console is such a vnode.
-/

namespace Os161

variable {φ : Type}

/-! ## Buffers of a process -/

/-- Nothing above `USERTOP` has been written to. -/
structure Uio.Confined (uio uio' : Uio) : Prop where
  segflg : uio'.uioSegflg = uio.uioSegflg
  len : uio'.iovLen ≤ uio.iovLen
  kernel : uio'.mem.kernel = uio.mem.kernel
  user : ∀ a, userTop ≤ a → uio'.mem.user a = uio.mem.user a

namespace Uio

variable {uio between uio' : Uio}

theorem Confined.refl (uio : Uio) : uio.Confined uio :=
  ⟨rfl, le_rfl, rfl, fun _ _ => rfl⟩

theorem Confined.trans (first : uio.Confined between) (second : between.Confined uio') :
    uio.Confined uio' :=
  ⟨second.segflg.trans first.segflg, second.len.trans first.len, second.kernel.trans first.kernel,
    fun a above => (second.user a above).trans (first.user a above)⟩

theorem mapped_le (mem : Memory) (addr len : Nat) : mem.mapped addr len ≤ len := by
  have shorter := (List.takeWhile_prefix (fun i => (mem.user (addr + i)).isSome)
    (l := List.range len)).length_le
  rwa [List.length_range] at shorter

theorem copyout_confined (mem : Memory) (source : Bytes) (userdest : Nat) {len : Nat}
    (positive : 0 < len) (small : len < 2 ^ 32) :
    (copyout mem source userdest len).2.kernel = mem.kernel ∧
      ∀ a, userTop ≤ a → (copyout mem source userdest len).2.user a = mem.user a := by
  rw [copyout]
  cases checked : copycheck userdest len with
  | error failure => exact ⟨rfl, fun _ _ => rfl⟩
  | ok stoplen =>
      by_cases whole : stoplen = len
      · have below := (copycheck_iff positive small).mp (whole ▸ checked)
        have copied := mapped_le mem userdest len
        dsimp only
        rw [if_pos whole]
        refine ⟨rfl, fun a above => ?_⟩
        rw [Memory.storeUser_user, if_neg (by omega)]
      · dsimp only
        rw [if_neg whole]
        exact ⟨rfl, fun _ _ => rfl⟩

theorem moveSegment_confined (user : uio.uioSegflg ≠ .sysspace) (ptr : Bytes) (done : Nat)
    {size : Nat} (positive : 0 < size) (small : size < 2 ^ 32) :
    Ensures (moveSegment ptr done size) uio (fun _ => True) (fun _ uio' => uio.Confined uio')
      (fun _ uio' => uio.Confined uio') := by
  have moved : Ensures (moveUser ptr done size) uio (fun _ => True)
      (fun _ uio' => uio.Confined uio') (fun _ uio' => uio.Confined uio') := by
    rw [moveUser, ensures_bind, ensures_get]
    cases uio.uioRw with
    | read =>
        rcases copyout_confined uio.mem (fun i => ptr (done + i)) uio.iovBase positive small with
          ⟨kernel, user⟩
        dsimp only
        rw [ensures_bind, ensures_modify, ensures_bind]
        cases (copyout uio.mem (fun i => ptr (done + i)) uio.iovBase size).1 with
        | error failure => exact ⟨rfl, le_rfl, kernel, user⟩
        | ok _ => exact ⟨rfl, le_rfl, kernel, user⟩
    | write =>
        dsimp only
        rw [ensures_bind]
        cases copyin uio.mem uio.iovBase size with
        | error failure => exact Confined.refl uio
        | ok bytes => exact Confined.refl uio
  rw [moveSegment, ensures_bind, ensures_get]
  cases segflg : uio.uioSegflg with
  | sysspace => exact absurd segflg user
  | userspace => exact moved
  | userispace => exact moved

theorem uiomoveLoop_confined (fuel : Nat) (ptr : Bytes) (done n : Nat)
    (user : uio.uioSegflg ≠ .sysspace) (small : uio.iovLen < 2 ^ 32) :
    Ensures (uiomoveLoop fuel ptr done n) uio (fun _ => True)
      (fun _ uio' => uio.Confined uio') (fun _ uio' => uio.Confined uio') := by
  induction fuel generalizing uio ptr done n with
  | zero => exact Confined.refl uio
  | succ fuel ih =>
      rw [uiomoveLoop, ensures_bind, ensures_get]
      apply ensures_branch
      · intro more
        refine ensures_assert_then (fun _ => trivial) fun some => ?_
        rw [ensures_bind]
        apply (moveSegment_confined user ptr done (by omega) (by omega)).answers
        · exact fun _ _ confined => confined
        · intro ptr' between confined
          rw [ensures_bind, ensures_modify]
          have stepped : between.Confined (between.step (min uio.iovLen n)) :=
            ⟨rfl, Nat.sub_le _ _, rfl, fun _ _ => rfl⟩
          have after := confined.trans stepped
          have later := ih ptr' (done + min uio.iovLen n) (n - min uio.iovLen n)
            (by rw [after.segflg]; exact user) (after.len.trans_lt small)
          apply later.answers
          · exact fun _ _ rest => after.trans rest
          · exact fun _ _ rest => after.trans rest
      · exact fun _ => Confined.refl uio

theorem uiomove_confined (ptr : Bytes) (n : Nat) (user : uio.uioSegflg ≠ .sysspace)
    (small : uio.iovLen < 2 ^ 32) :
    Ensures (uiomove ptr n) uio (fun _ => True) (fun _ uio' => uio.Confined uio')
      (fun _ uio' => uio.Confined uio') := by
  rw [uiomove, ensures_bind, ensures_get]
  cases segflg : uio.uioSegflg with
  | sysspace => exact absurd segflg user
  | userspace =>
      exact ensures_assert_then (fun _ => trivial) fun _ =>
        uiomoveLoop_confined n ptr 0 n user small
  | userispace =>
      exact ensures_assert_then (fun _ => trivial) fun _ =>
        uiomoveLoop_confined n ptr 0 n user small

end Uio

variable {uio : Uio} {reach : Nat → Bool}

/-- An operation with a buffer of the process leaves the rest of the memory alone. -/
theorem Transfer.run_confined (reach : Nat → Bool) (transfer : Transfer φ)
    (user : uio.uioSegflg ≠ .sysspace) (small : uio.iovLen < 2 ^ 32) :
    Ensures (transfer.run reach) uio (fun _ => True) (fun _ uio' => uio.Confined uio')
      (fun _ uio' => uio.Confined uio') := by
  induction transfer generalizing uio with
  | done result fs => exact Uio.Confined.refl uio
  | panic reason => trivial
  | look next ih => exact ih _ _ user small
  | adjust offset resid next ih =>
      apply (@ih { uio with uioOffset := offset, uioResid := resid } user small).answers
      · exact fun _ _ rest => ⟨rest.segflg, rest.len, rest.kernel, rest.user⟩
      · exact fun _ _ rest => ⟨rest.segflg, rest.len, rest.kernel, rest.user⟩
  | move ptr n next ih =>
      rw [run, ensures_bind, ensures_get]
      refine ensures_assert_then (fun _ => trivial) fun _ => ?_
      rw [ensures_bind, ensures_attempt]
      have onward : ∀ (result : Except Errno Bytes) between, uio.Confined between →
          Ensures ((next result).run reach) between (fun _ => True)
            (fun _ uio' => uio.Confined uio') (fun _ uio' => uio.Confined uio') := by
        intro result between confined
        apply (ih result (by rw [confined.segflg]; exact user)
          (confined.len.trans_lt small)).answers
        · exact fun _ _ rest => confined.trans rest
        · exact fun _ _ rest => confined.trans rest
      apply (Uio.uiomove_confined ptr n user small).answers
      · exact fun failure between confined => onward (.error failure) between confined
      · exact fun bytes between confined => onward (.ok bytes) between confined

/-! ## Buffers of the kernel -/

/-- The same `uio`, in a memory that has the same bytes at the given addresses. -/
structure Uio.SameBuffer (reach : Nat → Bool) (uio other : Uio) : Prop where
  rest : other = uio.setMem other.mem
  bytes : ∀ a, reach a = true → other.mem.kernel a = uio.mem.kernel a
  sysspace : uio.uioSegflg = .sysspace
  writing : uio.uioRw = .write

namespace Uio

variable {uio other : Uio} {reach reach' : Nat → Bool}

theorem uiomoveLoop_sysspace (sysspace : uio.uioSegflg = .sysspace) (writing : uio.uioRw = .write)
    (fuel : Nat) (ptr : Bytes) (done n : Nat) :
    uiomoveLoop (fuel + 1) ptr done n uio =
      if 0 < n ∧ 0 < uio.uioResid then
        if min uio.iovLen n ≠ 0 then
          uiomoveLoop fuel (ptr.overlay done (min uio.iovLen n) fun i => uio.mem.kernel
            (uio.iovBase + i)) (done + min uio.iovLen n) (n - min uio.iovLen n)
            (uio.step (min uio.iovLen n))
        else .error .uiomoveSize
      else .ok (.ok ptr, uio) := by
  have moved : moveSegment ptr done (min uio.iovLen n) uio =
      .ok (.ok (ptr.overlay done (min uio.iovLen n) fun i => uio.mem.kernel (uio.iovBase + i)),
        uio) := by
    simp [moveSegment, moveKernel, bind, pure, get, sysspace, writing]
  have start : uiomoveLoop (fuel + 1) ptr done n uio = _ := bind_of_ok (get_apply uio)
  rw [start]
  by_cases more : 0 < n ∧ 0 < uio.uioResid
  · rw [if_pos more, if_pos more]
    by_cases some : min uio.iovLen n ≠ 0
    · rw [if_pos some, bind_of_ok (assert_of some uio), bind_of_ok moved]
      rfl
    · rw [if_neg some, bind_of_halt (Prog.assert_of_not some uio)]
  · rw [if_neg more, if_neg more]
    rfl

theorem SameBuffer.step (same : uio.SameBuffer reach other) (size : Nat) :
    (uio.step size).SameBuffer reach (other.step size) := by
  refine ⟨?_, same.bytes, same.sysspace, same.writing⟩
  rw [same.rest]
  rfl

theorem SameBuffer.overlay (same : uio.SameBuffer reach other) (ptr : Bytes) (done : Nat)
    {size : Nat} (inside : ∀ i < size, reach (uio.iovBase + i) = true) :
    (ptr.overlay done size fun i => other.mem.kernel (other.iovBase + i)) =
      ptr.overlay done size fun i => uio.mem.kernel (uio.iovBase + i) := by
  have base : other.iovBase = uio.iovBase := by
    rw [same.rest]
    rfl
  funext k
  simp only [Bytes.overlay, base]
  split
  · exact same.bytes _ (inside _ (by omega))
  · rfl

variable {ptr : Bytes} {n : Nat} {result : Except Errno Bytes} {uio' : Uio}

theorem uiomoveLoop_congr {fuel : Nat} {done : Nat} (same : uio.SameBuffer reach other)
    (inside : 0 < uio.uioResid → ∀ i < min n uio.iovLen, reach (uio.iovBase + i) = true)
    (returned : uiomoveLoop fuel ptr done n uio = .ok (result, uio')) :
    ∃ other', uiomoveLoop fuel ptr done n other = .ok (result, other') ∧
      uio'.SameBuffer reach other' := by
  induction fuel generalizing uio other ptr done n with
  | zero =>
      cases returned
      exact ⟨other, rfl, same⟩
  | succ fuel ih =>
      have sysspace : other.uioSegflg = .sysspace := by
        rw [same.rest]
        exact same.sysspace
      have writing : other.uioRw = .write := by
        rw [same.rest]
        exact same.writing
      have resid : other.uioResid = uio.uioResid := by
        rw [same.rest]
        rfl
      have len : other.iovLen = uio.iovLen := by
        rw [same.rest]
        rfl
      rw [uiomoveLoop_sysspace same.sysspace same.writing] at returned
      rw [uiomoveLoop_sysspace sysspace writing, resid, len]
      by_cases more : 0 < n ∧ 0 < uio.uioResid
      · rw [if_pos more] at returned ⊢
        by_cases some : min uio.iovLen n ≠ 0
        · rw [if_pos some] at returned ⊢
          rw [same.overlay ptr done fun i small => inside more.2 i (by omega)]
          apply ih (same.step _) _ returned
          intro _ i small
          have later := inside more.2 (min uio.iovLen n + i)
            (by simp only [Uio.step] at small; omega)
          rwa [← Nat.add_assoc] at later
        · rw [if_neg some] at returned
          cases returned
      · rw [if_neg more] at returned ⊢
        cases returned
        exact ⟨other, rfl, same⟩

theorem uiomove_congr (same : uio.SameBuffer reach other)
    (inside : 0 < uio.uioResid → ∀ i < min n uio.iovLen, reach (uio.iovBase + i) = true)
    (returned : uiomove ptr n uio = .ok (result, uio')) :
    ∃ other', uiomove ptr n other = .ok (result, other') ∧ uio'.SameBuffer reach other' := by
  have start : ∀ u : Uio, u.uioSegflg = .sysspace → uiomove ptr n u =
      if u.uioSpace = none then uiomoveLoop n ptr 0 n u else .error .uiomoveSpace := by
    intro u sysspace
    by_cases space : u.uioSpace = none <;>
      simp [uiomove, bind, get, assert, sysspace, space]
  have sysspace : other.uioSegflg = .sysspace := by
    rw [same.rest]
    exact same.sysspace
  have space : other.uioSpace = uio.uioSpace := by
    rw [same.rest]
    rfl
  rw [start uio same.sysspace] at returned
  rw [start other sysspace, space]
  by_cases isNone : uio.uioSpace = none
  · rw [if_pos isNone] at returned ⊢
    exact uiomoveLoop_congr same inside returned
  · rw [if_neg isNone] at returned
    cases returned

end Uio

theorem Transfer.run_move (reach : Nat → Bool) (ptr : Bytes) (n : Nat)
    (next : Except Errno Bytes → Transfer φ) (uio : Uio) :
    (Transfer.move ptr n next).run reach uio =
      if uio.uioSegflg = .sysspace → 0 < uio.uioResid →
          ∀ i < min n uio.iovLen, reach (uio.iovBase + i) = true then
        match uiomove ptr n uio with
        | .error reason => .error reason
        | .ok (result, uio') => (next result).run reach uio'
      else .error .kernelFault := by
  have start : (Transfer.move ptr n next).run reach uio = _ :=
    bind_of_ok (get_apply uio)
  rw [start]
  split
  · rename_i reaches
    rw [bind_of_ok (assert_of reaches uio)]
    simp only [bind, attempt]
    rcases uiomove ptr n uio with reason | ⟨result, uio'⟩ <;> rfl
  · rename_i faults
    rw [bind_of_halt (Prog.assert_of_not faults uio)]

/-- A write that gets by with the addresses in `reach` depends on no other ones. -/
theorem Transfer.run_congr {reach' : Nat → Bool} (transfer : Transfer φ) {other : Uio}
    (more : ∀ a, reach a = true → reach' a = true) (same : uio.SameBuffer reach other)
    {value : Except Errno Unit × φ} {uio' : Uio}
    (returned : transfer.run reach uio = .ok (.ok value, uio')) :
    ∃ other', transfer.run reach' other = .ok (.ok value, other') ∧
      uio'.SameBuffer reach other' := by
  induction transfer generalizing uio other with
  | done result fs =>
      cases returned
      exact ⟨other, rfl, same⟩
  | panic reason => cases returned
  | look next ih =>
      have offset : other.uioOffset = uio.uioOffset := by
        rw [same.rest]
        rfl
      have resid : other.uioResid = uio.uioResid := by
        rw [same.rest]
        rfl
      have start : (look next).run reach' other =
          (next other.uioOffset other.uioResid).run reach' other := rfl
      rw [start, offset, resid]
      exact ih _ _ same returned
  | adjust offset resid next ih =>
      refine @ih { uio with uioOffset := offset, uioResid := resid } _ ?_ returned
      refine ⟨?_, same.bytes, same.sysspace, same.writing⟩
      rw [same.rest]
      rfl
  | move ptr n next ih =>
      rw [run_move] at returned ⊢
      have base : other.iovBase = uio.iovBase := by
        rw [same.rest]
        rfl
      have len : other.iovLen = uio.iovLen := by
        rw [same.rest]
        rfl
      have resid : other.uioResid = uio.uioResid := by
        rw [same.rest]
        rfl
      split at returned
      · rename_i reaches
        have inside := reaches same.sysspace
        rw [if_pos (by
          rw [base, len, resid]
          exact fun _ some i small => more _ (inside some i small))]
        rcases moved : uiomove ptr n uio with reason | ⟨result, between⟩
        · rw [moved] at returned
          cases returned
        · rcases Uio.uiomove_congr same inside moved with ⟨between', moved', same'⟩
          rw [moved] at returned
          rw [moved']
          exact ih result same' returned
      · cases returned

/-! ## Vnodes that take a known number of bytes -/

/-- The first `n` bytes of the buffer can be used. -/
def Uio.Usable (uio : Uio) (reach : Nat → Bool) (n : Nat) : Prop :=
  (0 < n → uio.Accessible n) ∧
    (uio.uioSegflg = .sysspace → ∀ i < n, reach (uio.iovBase + i) = true)

/-- The operation needs `count` bytes of the buffer for a request of `resid` bytes at the offset. If
they can be used, it does not fail with `EFAULT`. If not, it does, or it faults in a buffer of the
kernel. -/
def Transfer.Takes (rw : UioRw) (offset : Int) (resid count : Nat) (transfer : Transfer φ) : Prop :=
  ∀ (reach : Nat → Bool) (uio : Uio), uio.uioRw = rw → uio.uioOffset = offset →
    uio.uioResid = resid → uio.iovLen = resid → uio.Fits resid →
    Prog.Ensures (transfer.run reach) uio
      (fun reason => reason = .kernelFault ∧ uio.uioSegflg = .sysspace ∧ ¬uio.Usable reach count)
      (fun _ _ => False)
      (fun value _ => (uio.Usable reach count → value.1 ≠ .error .efault) ∧
        (¬uio.Usable reach count → uio.uioSegflg ≠ .sysspace ∧ value.1 = .error .efault))

namespace Uio

variable {uio : Uio} {reach : Nat → Bool} {n : Nat}

theorem usable_succ (first : uio.Usable reach 1) :
    uio.Usable reach (n + 1) ↔ (uio.advance 1).Usable reach n := by
  have one := first.1 (by omega)
  constructor
  · rintro ⟨accessible, reaches⟩
    refine ⟨fun _ => Accessible.advance (m := 1) ?_, fun sysspace i small => ?_⟩
    · rw [Nat.add_comm]
      exact accessible (by omega)
    · have later := reaches sysspace (1 + i) (by omega)
      rwa [← Nat.add_assoc] at later
  · rintro ⟨accessible, reaches⟩
    refine ⟨fun _ => ?_, fun sysspace i small => ?_⟩
    · rcases one with sysspace | ⟨below, mapped⟩
      · exact Or.inl sysspace
      · cases n with
        | zero => exact Or.inr ⟨below, mapped⟩
        | succ n =>
            rcases accessible (by omega) with sysspace | ⟨below', mapped'⟩
            · exact Or.inl sysspace
            · simp only [Uio.advance] at below' mapped'
              refine Or.inr ⟨by omega, fun i small => ?_⟩
              cases i with
              | zero => exact mapped 0 (by omega)
              | succ i =>
                  have later := mapped' i (by omega)
                  rwa [Nat.add_assoc, Nat.add_comm 1 i] at later
    · cases i with
      | zero => exact first.2 sysspace 0 (by omega)
      | succ i =>
          have later := reaches sysspace i (by omega)
          simp only [Uio.advance] at later
          rwa [Nat.add_assoc, Nat.add_comm 1 i] at later

theorem Usable.mono {m : Nat} (usable : uio.Usable reach n) (less : m ≤ n) : uio.Usable reach m :=
  ⟨fun some => (usable.1 (by omega)).mono less,
    fun sysspace i small => usable.2 sysspace i (by omega)⟩

end Uio

theorem Uio.uiomove_zero (fits : uio.Fits 0) (ptr : Bytes) :
    uiomove ptr 0 uio = .ok (.ok ptr, uio) := by
  have space := fits.space
  cases segflg : uio.uioSegflg <;>
    simp_all [uiomove, uiomoveLoop, bind, pure, get, assert]

/-- One call of `uiomove` for `n` bytes, which the caller may use if there is no failure. -/
theorem Transfer.ensures_move {ptr : Bytes} {n : Nat} {next : Except Errno Bytes → Transfer φ}
    (fits : uio.Fits n) {panics : Panic → Prop} {fails : Errno → Uio → Prop}
    {returns : Except Errno Unit × φ → Uio → Prop}
    (faults : uio.uioSegflg = .sysspace → ¬uio.Usable reach n → panics .kernelFault)
    (refused : uio.uioSegflg ≠ .sysspace → ¬uio.Usable reach n → ∀ mem,
      Ensures ((next (.error .efault)).run reach) (uio.setMem mem) panics fails returns)
    (moved : uio.Usable reach n → ∀ bytes between, uio.Moved n ptr bytes between →
      Ensures ((next (.ok bytes)).run reach) (between.advance n) panics fails returns) :
    Ensures ((Transfer.move ptr n next).run reach) uio panics fails returns := by
  have len : min n uio.iovLen = n := Nat.min_eq_left fits.len
  have resid := fits.resid
  rw [Transfer.run, ensures_bind, ensures_get]
  refine ensures_assert_then ?_ ?_
  · intro violated
    push Not at violated
    rcases violated with ⟨sysspace, _, i, small, unreachable⟩
    exact faults sysspace fun usable => unreachable (usable.2 sysspace i (by omega))
  · intro reaches
    rw [ensures_bind, ensures_attempt]
    rcases Nat.eq_zero_or_pos n with rfl | some
    · -- no byte is moved, so that the buffer does not matter
      rw [ensures_of_ok_eq (Uio.uiomove_zero fits ptr)]
      have onward := moved ⟨fun some => by omega, fun _ i small => by omega⟩ ptr uio
        (Uio.moved_zero uio ptr)
      rwa [fits.advance_zero] at onward
    apply (Uio.uiomove_spec fits ptr).mono
    · exact fun _ impossible => impossible.elim
    · rintro failure uio' ⟨rfl, inaccessible, mem, rfl⟩
      apply refused
      · exact fun sysspace => inaccessible (Or.inl sysspace)
      · exact fun usable => inaccessible (usable.1 some)
    · rintro bytes uio' ⟨accessible, between, isMoved, rfl⟩
      apply moved _ bytes between isMoved
      refine ⟨accessible, fun sysspace i small => ?_⟩
      exact reaches sysspace (by omega) i (by omega)

namespace Console

/-- The turns of `con_io` that write take all bytes. -/
theorem writeLoop_takes (store : Console → φ) (reach : Nat → Bool) (fuel : Nat) (con : Console)
    {uio : Uio} (writing : uio.uioRw = .write) (resid : uio.uioResid = fuel)
    (len : uio.iovLen = uio.uioResid) (fits : uio.Fits fuel) :
    Ensures ((writeLoop store fuel con).run reach) uio
      (fun reason => reason = .kernelFault ∧ uio.uioSegflg = .sysspace ∧ ¬uio.Usable reach fuel)
      (fun _ _ => False)
      (fun value _ => (uio.Usable reach fuel → value.1 ≠ .error .efault) ∧
        (¬uio.Usable reach fuel → uio.uioSegflg ≠ .sysspace ∧ value.1 = .error .efault)) := by
  induction fuel generalizing con uio with
  | zero =>
      refine ⟨fun _ => nofun, fun unusable => absurd ?_ unusable⟩
      exact ⟨fun some => by omega, fun _ i small => by omega⟩
  | succ fuel ih =>
      rw [writeLoop, Transfer.run, ensures_bind, ensures_get, if_neg (by omega)]
      apply Transfer.ensures_move (fits.mono (by omega))
      · exact fun sysspace unusable =>
          ⟨rfl, sysspace, fun usable => unusable (usable.mono (by omega))⟩
      · intro user unusable mem
        exact ⟨fun usable => absurd (usable.mono (by omega)) unusable, fun _ => ⟨user, rfl⟩⟩
      · intro usable bytes between moved
        rcases moved with ⟨_, _, rfl⟩ | ⟨reading, _⟩
        · simp only [Uio.usable_succ usable]
          apply ih
          · exact writing
          · simp only [Uio.advance]
            omega
          · simp only [Uio.advance]
            omega
          · exact Uio.Fits.advance (by rwa [Nat.add_comm])
        · cases reading.symm.trans writing

/-- A console that is there takes all that is written to it. -/
theorem conIo_takes (curspl : Nat) (store : Console → φ) {con : Console}
    (configured : con.configured = true) (offset : Int) (resid : Nat) :
    (conIo curspl store con .write).Takes .write offset resid resid := by
  rintro reach uio writing rfl rfl len fits
  rw [conIo, if_neg (by simp [configured]), Transfer.run, ensures_bind, ensures_get]
  exact writeLoop_takes store reach uio.uioResid con writing rfl len fits

end Console

end Os161
