import Os161.Syscall.Syscall

/-!
# The result convention of system calls

A call that succeeded leaves 0 in `a3` and its value in `v0`, and one that failed
leaves 1 and an error code; the process goes on behind the `syscall` instruction with
its other registers as they were. The handler keeps to this when the function that it
called does (`finish_reports`), and `Reportable` says when each function does.
-/

namespace Os161

open SystemM

variable {φ : Type} {vfs : Vfs φ} {s : System φ} {fails : Errno → System φ → Prop}

/-- What a process has to find in its registers. -/
def Trapframe.Reports (tf tf' : Trapframe) (outcome : Option Int) : Prop :=
  (match outcome with
    | some value => tf' .a3 = 0 ∧ tf' .v0 = BitVec.ofInt 32 value
    | none => tf' .a3 = 1 ∧ 1 ≤ (tf' .v0).toNat ∧ (tf' .v0).toNat ≤ 26) ∧
  tf' .epc = tf .epc + 4 ∧ ∀ r, r ≠ .v0 → r ≠ .a3 → r ≠ .epc → tf' r = tf r

/-- What a system call function has to hand back. -/
def Return.Proper (r : Return) : Prop :=
  match r.outcome with
  | some value => r.code = 0 ∧ BitVec.ofInt 32 r.ret = BitVec.ofInt 32 value
  | none => r.code ≠ 0 ∧ 1 ≤ (BitVec.ofInt 32 r.code).toNat ∧ (BitVec.ofInt 32 r.code).toNat ≤ 26

theorem finish_reports (tf : Trapframe) (r : Return) :
    tf.Reports (tf.finish r) r.outcome ↔ r.Proper := by
  have v0 : tf.finish r .v0 = BitVec.ofInt 32 (if r.code ≠ 0 then r.code else r.ret) := by
    simp [Trapframe.finish]
  have a3 : tf.finish r .a3 = if r.code ≠ 0 then 1 else 0 := by
    simp [Trapframe.finish]
  have rest : tf.finish r .epc = tf .epc + 4 ∧
      ∀ r', r' ≠ .v0 → r' ≠ .a3 → r' ≠ .epc → tf.finish r r' = tf r' := by
    constructor
    · simp [Trapframe.finish]
    · intro r' notV0 notA3 notEpc
      simp [Trapframe.finish, update_of_ne, notV0, notA3, notEpc]
  unfold Trapframe.Reports Return.Proper
  rw [and_iff_left rest, v0, a3]
  cases r.outcome <;> by_cases zero : r.code = 0 <;> simp [zero]

theorem Errno.code_bounds (failure : Errno) : 1 ≤ failure.code ∧ failure.code ≤ 26 := by
  cases failure <;> decide

theorem proper_failure (failure : Errno) (ret : Int) :
    (Return.mk failure.code ret none).Proper := by
  have bounds := failure.code_bounds
  have word : (BitVec.ofInt 32 failure.code).toNat = failure.code.toNat := by
    rw [BitVec.toNat_ofInt, Int.emod_eq_of_lt (by omega) (by omega)]
  simp only [Return.Proper, word]
  omega

theorem proper_value (value : Int) : (Return.mk 0 value (some value)).Proper :=
  ⟨rfl, rfl⟩

theorem not_proper_minus_one (ret : Int) : ¬(Return.mk (-1) ret none).Proper := by
  simp only [Return.Proper]
  decide

/-- A value that is handed back as if it were the error code. -/
theorem proper_swapped_iff (value : Int) : (Return.mk value 0 (some value)).Proper ↔ value = 0 := by
  constructor
  · exact fun proper => proper.1
  · rintro rfl
    exact proper_value 0

/-! ## The functions -/

theorem transferResult_proper (nbytes : Nat) (result : Except Errno Unit × Uio) :
    (transferResult nbytes result).Proper := by
  rcases result with ⟨_ | _, uio⟩
  · exact proper_failure _ _
  · exact proper_value _

theorem accessFile_proper {allowed : Nat → Bool} {transfer : Filedesc → SystemM φ Return}
    (fd : Int) (buf : Nat) (proper : ∀ file s, Ensures (transfer file) s (fun _ => True)
      (fun _ _ => True) (fun r _ => r.Proper)) :
    Ensures (accessFile allowed transfer fd buf 0) s (fun _ => True) (fun _ _ => True)
      (fun r _ => r.Proper) := by
  apply ensures_branch
  · exact fun _ => proper_failure _ _
  · intro _
    refine ensures_bind_any fun thread _ => ?_
    refine ensures_bind_any fun found _ => ?_
    cases found with
    | none => exact proper_failure _ _
    | some f =>
        refine ensures_bind_any fun file _ => ?_
        apply ensures_branch
        · exact fun _ => proper _ _
        · exact fun _ => proper_failure _ _

theorem sysRead_proper (fd : Int) (buf nbytes : Nat) :
    Ensures (sysRead vfs fd buf nbytes 0) s (fun _ => True) (fun _ _ => True)
      (fun r _ => r.Proper) := by
  apply accessFile_proper
  intro file s
  refine ensures_bind_any fun _ _ => ?_
  refine ensures_bind_any fun _ _ => ?_
  refine ensures_bind_any fun result _ => ?_
  refine ensures_bind_any fun _ _ => ?_
  exact transferResult_proper nbytes result

theorem sysWrite_proper (fd : Int) (buf nbytes : Nat) :
    Ensures (sysWrite vfs fd buf nbytes 0) s (fun _ => True) (fun _ _ => True)
      (fun r _ => r.Proper) := by
  apply accessFile_proper
  intro file s
  refine ensures_bind_any fun _ _ => ?_
  refine ensures_bind_any fun _ _ => ?_
  refine ensures_bind_any fun result _ => ?_
  exact transferResult_proper nbytes result

theorem sysClose_proper (fd : Int) :
    Ensures (sysClose vfs fd 0) s (fun _ => True) (fun _ _ => True)
      (fun r _ => r.Proper) := by
  refine ensures_bind_any fun _ _ => ?_
  refine ensures_bind_any fun _ _ => ?_
  refine ensures_bind_any fun _ _ => ?_
  apply ensures_branch
  · exact fun _ => proper_failure _ _
  · exact fun _ => proper_value 0

theorem currentGet_returns {returns : Thread → Option Nat → System φ → Prop} (fd : Int)
    (rest : ∀ thread, s.current = some thread →
      returns thread (s.table.bind fun ft => ft.lookup fd) s) :
    Ensures curthread s (fun _ => True) (fun _ _ => True) (fun thread s' =>
      Ensures (onHeap (filetableGet thread.ft fd)) s' (fun _ => True) (fun _ _ => True)
        (returns thread)) := by
  apply ensures_curthread_of
  · exact fun _ => trivial
  intro thread running
  have isTable : s.table = thread.ft := by simp [System.table, running]
  rw [ensures_onHeap]
  apply (filetableGet_returns thread.ft fd).imp
  rintro found heap ⟨rfl, rfl⟩
  rw [← isTable]
  exact rest thread running

/-- The position that a seek which succeeds goes to. -/
def seekTarget (vfs : Vfs φ) (s : System φ) (fd pos whence : Int) : Option Int := do
  let file ← s.opened fd
  let target ← seekPosition file pos (vfs.deviceEnd file.vn s.fs) whence
  match vfs.vopTryseek file.vn target s.fs with
  | .ok () => some target
  | .error _ => none

theorem sysLseek_proper_iff (fd pos whence : Int) :
    Ensures (sysLseek vfs fd pos whence 0) s (fun _ => True) (fun _ _ => True)
      (fun r _ => r.Proper ↔ ∀ target ∈ seekTarget vfs s fd pos whence, target = 0) := by
  rw [sysLseek]
  simp only [ensures_bind]
  apply currentGet_returns
  intro thread running
  cases found : s.table.bind fun ft => ft.lookup fd with
  | none => exact iff_of_true (proper_failure _ _) (by simp [seekTarget, System.opened, found])
  | some f =>
      simp only [ensures_bind]
      apply ensures_descriptor_of
      · exact fun _ => trivial
      intro file present
      rw [ensures_get]
      have opened : s.opened fd = some file := by simp [System.opened, found, present]
      cases position : seekPosition file pos (vfs.deviceEnd file.vn s.fs) whence with
      | none => exact iff_of_true (proper_failure _ _) (by simp [seekTarget, opened, position])
      | some target =>
          dsimp only
          cases legal : vfs.vopTryseek file.vn target s.fs with
          | error failure =>
              exact iff_of_true (proper_failure _ _) (by simp [seekTarget, opened, position, legal])
          | ok _ =>
              refine (proper_swapped_iff target).trans ?_
              simp [seekTarget, opened, position, legal]

theorem sysDup2_proper_iff (oldfd newfd : Int) :
    Ensures (sysDup2 vfs oldfd newfd 0) s (fun _ => True) (fun _ _ => True)
      (fun r _ => r.Proper ↔ (s.table.bind fun ft => ft.lookup oldfd) = none ∨ newfd ≤ 0) := by
  rw [sysDup2]
  simp only [ensures_bind]
  apply currentGet_returns
  intro thread running
  cases found : s.table.bind fun ft => ft.lookup oldfd with
  | none => exact iff_of_true (proper_failure _ _) (Or.inl rfl)
  | some old =>
      apply ensures_branch
      · intro negative
        exact iff_of_true (proper_failure _ _) (Or.inr (by omega))
      · intro notNegative
        iterate 9 refine ensures_bind_any fun _ _ => ?_
        refine (proper_swapped_iff newfd).trans ?_
        simp only [reduceCtorEq, false_or]
        omega

/-- The file can be opened, but the table has no room for the descriptor. -/
def OpenFull (vfs : Vfs φ) (s : System φ) (path oflag : Nat) : Prop :=
  ∃ thread vn after ft, s.current = some thread ∧
    vfs.vfsOpen (s.reachOf thread path) path oflag (s.fs, s.memoryOf thread) =
      .ok (.ok vn, after) ∧
    thread.ft = some ft ∧ ft.Full (s.ts.heap.after 1)

theorem openFull_iff {thread : Thread} {path oflag vn : Nat} {after : φ × Memory}
    (running : s.current = some thread)
    (outcome : vfs.vfsOpen (s.reachOf thread path) path oflag (s.fs, s.memoryOf thread) =
      .ok (.ok vn, after)) :
    OpenFull vfs s path oflag ↔ ∃ ft ∈ thread.ft, ft.Full (s.ts.heap.after 1) := by
  constructor
  · rintro ⟨thread', _, _, ft, running', _, isTable, full⟩
    cases running.symm.trans running'
    exact ⟨ft, isTable, full⟩
  · rintro ⟨ft, isTable, full⟩
    exact ⟨thread, vn, after, ft, running, outcome, isTable, full⟩

theorem not_openFull {thread : Thread} {path oflag : Nat} {failure : Errno} {after : φ × Memory}
    (running : s.current = some thread)
    (outcome : vfs.vfsOpen (s.reachOf thread path) path oflag (s.fs, s.memoryOf thread) =
      .ok (.error failure, after)) :
    ¬OpenFull vfs s path oflag := by
  rintro ⟨thread', _, _, _, running', outcome', _⟩
  cases running.symm.trans running'
  cases outcome.symm.trans outcome'

theorem openAdd_proper_iff (vn oflag mode : Nat) {thread : Thread}
    (running : s.current = some thread) :
    Ensures (openAdd vn oflag mode) s (fun _ => True) (fun _ _ => True)
      (fun r _ => r.Proper ↔ ¬∃ ft ∈ thread.ft, ft.Full s.ts.heap) := by
  simp only [openAdd, ensures_bind, ensures_get, ensures_modify, setFile]
  rw [ensures_curthread (by exact running), ensures_onHeap]
  apply (filetableAdd_index thread.ft _).imp
  rintro ⟨index, ft⟩ heap noRoom
  have noRoom : index = -1 ↔ ∃ ft ∈ thread.ft, ft.Full s.ts.heap := noRoom
  rw [← noRoom]
  apply ensures_branch
  · intro refused
    exact iff_of_false (not_proper_minus_one _) (fun added => added refused)
  · intro added
    refine ensures_bind_any fun _ _ => ?_
    exact iff_of_true (proper_value index) added

theorem sysOpen_proper_iff (path oflag mode : Nat) :
    Ensures (sysOpen vfs path oflag mode) s (fun _ => True) (fun _ _ => True)
      (fun r _ => r.Proper ↔ ¬OpenFull vfs s path oflag) := by
  cases running : s.current with
  | none =>
      rw [sysOpen, ensures_bind, ensures_get, ensures_bind, memory, ensures_bind, ensures_get,
        ensures_bind]
      apply ensures_curthread_of
      · exact fun _ => trivial
      · intro thread present
        cases running.symm.trans present
  | some thread =>
      rw [Prog.ensures_congr (sysOpen_apply vfs running), ensures_sysOpenOver running]
      rcases outcome : vfs.vfsOpen (s.reachOf thread path) path oflag (s.fs, s.memoryOf thread) with
        reason | ⟨failure | vn, after⟩
      · rw [ensures_of_halt_eq outcome]
        trivial
      · rw [ensures_of_fail_eq outcome]
        exact iff_of_true (proper_failure _ _) (not_openFull running outcome)
      · rw [ensures_of_ok_eq outcome, openFull_iff running outcome]
        have kept : (s.afterOpen thread after).current =
            some { thread with tVmspace := thread.tVmspace.map fun _ => after.2.user } :=
          System.current_withCurrent running _
        have added := openAdd_proper_iff vn oflag mode kept
        split
        · exact added
        · trivial

/-! ## The handler -/

/-- When the function behind a call hands back what it should: `fork` has memory for the
trapframe, `err` happens to be 0 in `getpid`, the table has room for what `open` opened, and the
value of `dup2` or `lseek`, which is taken for an error code, is 0 or there is none. -/
def Reportable (vfs : Vfs φ) (s : System φ) (tf : Trapframe) : Prop :=
  match Call.ofNumber (tf .v0).toNat with
  | .fork => s.ts.heap 0 = true
  | .getpid => s.stackErr = 0
  | .open => ¬OpenFull vfs s (tf .a0).toNat (tf .a1).toNat
  | .dup2 => (s.table.bind fun ft => ft.lookup (tf .a0).toInt) = none ∨ (tf .a1).toInt ≤ 0
  | .lseek => ∀ target ∈ seekTarget vfs s (tf .a0).toInt (tf .a1).toInt (tf .a2).toInt, target = 0
  | .exit | .read | .write | .close | .reboot | .unknown => True

theorem sysFork_flag (tf : Trapframe) :
    Ensures (sysFork tf) s (fun _ => True) (fun _ _ => True)
      (fun result _ => result.2 = s.ts.heap 0) := by
  rw [sysFork, ensures_bind, ensures_onHeap, ensures_kmalloc]
  cases memory : s.ts.heap 0 with
  | false => rfl
  | true =>
      refine ensures_bind_any fun forked _ => ?_
      cases forked with
      | error failure => trivial
      | ok child =>
          refine ensures_bind_any fun _ _ => ?_
          refine ensures_bind_any fun _ _ => ?_
          rfl

theorem dispatch_proper_iff (tf : Trapframe) :
    Ensures (dispatch vfs tf) s (fun _ => True) (fun _ _ => True)
      (fun result _ => ∀ r ∈ result, r.Proper ↔ Reportable vfs s tf) := by
  rw [dispatch, Reportable]
  cases Call.ofNumber (tf .v0).toNat with
  | exit => exact ensures_bind.mpr (ensures_any fun _ _ _ member => nomatch member)
  | fork =>
      rw [ensures_bind]
      apply (sysFork_flag tf).imp
      rintro ⟨retval, child⟩ s' isChild
      simp only at isChild
      simp only [ensures_pure, Option.mem_def, Option.some.injEq, forall_eq', ← isChild]
      cases child with
      | false => exact iff_of_false (fun proper => proper.1 rfl) (by simp)
      | true => exact iff_of_true (proper_value retval) rfl
  | «open» =>
      rw [ensures_bind]
      apply (sysOpen_proper_iff _ _ _).imp
      rintro r _ proper _ ⟨⟩
      exact proper
  | read =>
      rw [ensures_bind]
      apply (sysRead_proper _ _ _).imp
      rintro r _ proper _ ⟨⟩
      exact iff_of_true proper trivial
  | write =>
      rw [ensures_bind]
      apply (sysWrite_proper _ _ _).imp
      rintro r _ proper _ ⟨⟩
      exact iff_of_true proper trivial
  | close =>
      rw [ensures_bind]
      apply (sysClose_proper _).imp
      rintro r _ proper _ ⟨⟩
      exact iff_of_true proper trivial
  | reboot =>
      apply ensures_branch
      · rintro _ _ ⟨⟩
      · rintro _ _ ⟨⟩
        exact iff_of_true (proper_failure _ _) trivial
  | getpid =>
      rw [ensures_bind, sysGetpid, ensures_bind]
      apply ensures_curthread_of
      · exact fun _ => trivial
      rintro thread _ _ ⟨⟩
      constructor
      · exact fun proper => proper.1
      · exact fun zero => ⟨zero, rfl⟩
  | lseek =>
      rw [ensures_bind]
      apply (sysLseek_proper_iff _ _ _).imp
      rintro r _ proper _ ⟨⟩
      exact proper
  | dup2 =>
      rw [ensures_bind]
      apply (sysDup2_proper_iff _ _).imp
      rintro r _ proper _ ⟨⟩
      exact proper
  | unknown =>
      rintro _ ⟨⟩
      exact iff_of_true (proper_failure _ _) trivial

/-- A call that returns keeps to the convention exactly if it is `Reportable`. -/
theorem syscall_reports_iff {tf tf' : Trapframe} {outcome : Option Int} {s' : System φ}
    (returned : mipsSyscall vfs tf s = .ok (.ok (some (tf', outcome)), s')) :
    tf.Reports tf' outcome ↔ Reportable vfs s tf := by
  have ensures : Prog.Ensures (mipsSyscall vfs tf) s (fun _ => True) (fun _ _ => True)
      (fun result _ => ∀ pair ∈ result, tf.Reports pair.1 pair.2 ↔ Reportable vfs s tf) := by
    rw [mipsSyscall, ensures_bind, ensures_get]
    refine ensures_assert_then (fun _ => trivial) fun _ => ?_
    rw [ensures_bind]
    apply (dispatch_proper_iff tf).imp
    intro result s₁ proper
    cases result with
    | none => exact fun _ member => nomatch member
    | some r =>
        rw [ensures_bind, ensures_get]
        refine ensures_assert_then (fun _ => trivial) fun _ => ?_
        rintro _ ⟨⟩
        rw [finish_reports]
        exact proper r rfl
  exact (ensures_of_ok_eq returned).mp ensures (tf', outcome) rfl

/-- A read of two bytes. -/
theorem syscall_reports_read :
    ∃ tf' s', mipsSyscall OneFile.vfs (callFrame 5 0 0x4000 2)
        (aloneWith [⟨1, 1, 0, 0⟩] ⟨[10, 11, 12, 13], ⟨true, fun _ => 0, []⟩⟩) =
        .ok (.ok (some (tf', some 2)), s') ∧
      (callFrame 5 0 0x4000 2).Reports tf' (some 2) := by
  have computed : ((resumes OneFile.vfs (callFrame 5 0 0x4000 2)
      (aloneWith [⟨1, 1, 0, 0⟩] ⟨[10, 11, 12, 13], ⟨true, fun _ => 0, []⟩⟩)).any
        fun result => result.1.2 == some 2) = true := by
    decide +kernel
  rcases (any_eq_true _ _).mp computed with ⟨⟨⟨tf', outcome⟩, s'⟩, returned, value⟩
  simp only [beq_iff_eq] at value
  subst value
  have returned := resumes_eq_some.mp returned
  exact ⟨tf', s', returned, (syscall_reports_iff returned).mpr trivial⟩

/-- A seek to the position 5 succeeds and looks like the error `EIO`. -/
theorem lseek_reports_position_as_error :
    ∃ tf' s', mipsSyscall OneFile.vfs (callFrame 13 0 5 0)
        (aloneWith [⟨1, 0, 2, 2⟩] ⟨[], ⟨true, fun _ => 0, []⟩⟩) =
        .ok (.ok (some (tf', some 5)), s') ∧
      (s'.opened 0).map Filedesc.offset = some 5 ∧ tf' .a3 = 1 ∧ tf' .v0 = 5 ∧
      ¬(callFrame 13 0 5 0).Reports tf' (some 5) := by
  have computed : ((resumes OneFile.vfs (callFrame 13 0 5 0)
      (aloneWith [⟨1, 0, 2, 2⟩] ⟨[], ⟨true, fun _ => 0, []⟩⟩)).any
        fun result => result.1.2 == some 5 && result.1.1 .a3 == 1 && result.1.1 .v0 == 5 &&
          (result.2.opened 0).map Filedesc.offset == some 5) = true := by
    decide +kernel
  rcases (any_eq_true _ _).mp computed with ⟨⟨⟨tf', outcome⟩, s'⟩, returned, facts⟩
  simp only [Bool.and_eq_true, beq_iff_eq] at facts
  rcases facts with ⟨⟨⟨rfl, flag⟩, value⟩, moved⟩
  refine ⟨tf', s', resumes_eq_some.mp returned, moved, flag, value, ?_⟩
  intro reports
  have zero := reports.1.1
  rw [flag] at zero
  exact absurd zero (by decide)

end Os161
