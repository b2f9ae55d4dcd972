import Os161.Syscall.Access

/-!
# Seeking

`sys_lseek` computes a position from one of three bases and asks the vnode whether it
is allowed. For `SEEK_END` the base should be the size of the file. The code takes the
sum of two fields of the `struct device` that it believes to be behind `vn_data`; behind
the `vn_data` of a regular file is the `struct sfs_vnode`, and at the place of the two
fields are its pointers `vn_data` and `vn_ops`. This is `deviceEnd` of the vnode layer.
-/

namespace Os161

open SystemM

variable {φ : Type} {vfs : Vfs φ} {s : System φ} {thread : Thread} {ft : FileTable} {f : Nat}
  {file : Filedesc} {fd pos whence ret : Int}

/-- `sfs_tryseek`. -/
def sfsTryseek (pos : Int) : Except Errno Unit :=
  if pos < 0 then .error .einval else .ok ()

/-- The descriptor `f` of the current process is open on a regular file. -/
structure OpenOnFile (vfs : Vfs φ) (s : System φ) (fd : Int) (f : Nat) (file : Filedesc) :
    Prop where
  running : ∃ thread, s.current = some thread
  table : ∃ ft, s.table = some ft ∧ ft.handles.WellFormed ∧ ft.lookup fd = some f
  present : s.files f = some file
  regular : ∀ pos fs, vfs.vopTryseek file.vn pos fs = sfsTryseek pos

/-- From where a seek counts. -/
def seekBase (offset size : Nat) : (whence : Int) → Option Nat
  | 0 => some 0
  | 1 => some offset
  | 2 => some size
  | _ => none

def System.sought (s : System φ) (f : Nat) (file : Filedesc) (offset : Nat) : System φ :=
  { s with files := Function.update s.files f (some { file with offset }) }

/-- The call has returned an error and has changed nothing. -/
def SeekFailed (s : System φ) (r : Return) (s' : System φ) : Prop :=
  (∃ failure : Errno, r.code = failure.code) ∧ r.outcome = none ∧ s' = s

/-- `sys_lseek` sets the offset to the base and the position if this is possible, and fails if it
is negative or there is no base. -/
def SeeksRight (vfs : Vfs φ) (s : System φ) (fd : Int) (f : Nat) (file : Filedesc) (size : Nat)
    (pos whence ret : Int) : Prop :=
  Prog.Ensures (sysLseek vfs fd pos whence ret) s (fun _ => False) (fun _ _ => False)
    (fun r s' => match seekBase file.offset size whence with
      | none => SeekFailed s r s'
      | some base =>
          (0 ≤ base + pos → base + pos < 2 ^ 31 →
            r.outcome = some (base + pos) ∧ s' = s.sought f file (base + pos).toNat) ∧
          (base + pos < 0 → SeekFailed s r s'))

/-- What `sys_lseek` does has nothing to do with what is behind `vn_data`. -/
def IgnoresDevice (vfs : Vfs φ) (s : System φ) (fd pos whence ret : Int) : Prop :=
  ∀ deviceEnd, sysLseek { vfs with deviceEnd } fd pos whence ret s =
    sysLseek vfs fd pos whence ret s

theorem OpenOnFile.lseek_eq (isOpen : OpenOnFile vfs s fd f file) (pos whence ret : Int) :
    sysLseek vfs fd pos whence ret s =
      match seekPosition file pos (vfs.deviceEnd file.vn s.fs) whence with
      | none => .ok (.ok { code := Errno.einval.code, ret, outcome := none }, s)
      | some target =>
          if target < 0 then .ok (.ok { code := Errno.einval.code, ret, outcome := none }, s)
          else .ok (.ok { code := target, ret, outcome := some target },
            s.sought f file (uint32 target)) := by
  rcases isOpen.running with ⟨thread, running⟩
  rcases isOpen.table with ⟨ft, isTable, wf, found⟩
  have tableEq : thread.ft = some ft := by rw [← isTable, System.table_eq running]
  have notNegative : ¬fd < 0 := by
    intro negative
    simp [FileTable.lookup, negative] at found
  have got : onHeap (filetableGet thread.ft fd) s = .ok (.ok (some f), s) := by
    apply eq_ok_of_ensures
    rw [ensures_onHeap, tableEq, ensures_filetableGet wf (by omega), found]
    exact ⟨rfl, rfl⟩
  have followed : descriptor f s = .ok (.ok file, s) := by simp [descriptor, isOpen.present]
  rw [sysLseek, bind_of_ok (curthread_apply running), bind_of_ok got]
  dsimp only
  rw [bind_of_ok followed, bind_of_ok (get_apply s)]
  cases seekPosition file pos (vfs.deviceEnd file.vn s.fs) whence with
  | none => rfl
  | some target =>
      simp only [isOpen.regular, sfsTryseek]
      by_cases negative : target < 0
      · simp only [negative, if_true]
        rfl
      · simp only [negative, if_false]
        rfl

theorem OpenOnFile.lseek_refused (isOpen : OpenOnFile vfs s fd f file)
    (refused : ∀ target, seekPosition file pos (vfs.deviceEnd file.vn s.fs) whence = some target →
      target < 0) :
    sysLseek vfs fd pos whence ret s =
      .ok (.ok { code := Errno.einval.code, ret, outcome := none }, s) := by
  rw [isOpen.lseek_eq]
  cases isTarget : seekPosition file pos (vfs.deviceEnd file.vn s.fs) whence with
  | none => rfl
  | some target => simp [refused target isTarget]

theorem OpenOnFile.lseek_sought (isOpen : OpenOnFile vfs s fd f file) {target : Int}
    (isTarget : seekPosition file pos (vfs.deviceEnd file.vn s.fs) whence = some target)
    (notNegative : 0 ≤ target) :
    sysLseek vfs fd pos whence ret s =
      .ok (.ok { code := target, ret, outcome := some target },
        s.sought f file (uint32 target)) := by
  simp [isOpen.lseek_eq, isTarget, Int.not_lt.mpr notNegative]

/-- Without `SEEK_END` the position is the exact sum, taken as an `off_t`. -/
theorem seekPosition_eq {deviceEnd : Int} (low : -2 ^ 31 ≤ pos) (high : pos < 2 ^ 31)
    (notEnd : whence ≠ 2) (size : Nat) :
    seekPosition file pos deviceEnd whence =
      (seekBase file.offset size whence).map fun base : Nat => int32 (base + pos) := by
  unfold seekPosition
  split
  · simp [seekBase, int32_eq low high]
  · simp [seekBase, Int.add_comm]
  · exact absurd rfl notEnd
  · rename_i notSet notCur _
    unfold seekBase
    split <;> first | contradiction | rfl

/-- With `SEEK_SET`, `SEEK_CUR` and anything that is not a base at all, `sys_lseek` is right. -/
theorem OpenOnFile.seeksRight (isOpen : OpenOnFile vfs s fd f file) (low : -2 ^ 31 ≤ pos)
    (high : pos < 2 ^ 31) (notEnd : whence ≠ 2) (size : Nat) :
    SeeksRight vfs s fd f file size pos whence ret := by
  have target : seekPosition file pos (vfs.deviceEnd file.vn s.fs) whence = _ :=
    seekPosition_eq low high notEnd size
  rw [SeeksRight]
  cases isBase : seekBase file.offset size whence with
  | none =>
      rw [isBase] at target
      rw [ensures_of_ok_eq (isOpen.lseek_refused (by simp [target]))]
      exact ⟨⟨.einval, rfl⟩, rfl, rfl⟩
  | some base =>
      rw [isBase, map_some] at target
      by_cases negative : int32 (base + pos) < 0
      · rw [ensures_of_ok_eq (isOpen.lseek_refused (by simp [target, negative]))]
        refine ⟨fun notNegative small => ?_, fun _ => ⟨⟨.einval, rfl⟩, rfl, rfl⟩⟩
        rw [int32_eq (by omega) small] at negative
        omega
      · rw [ensures_of_ok_eq (isOpen.lseek_sought target (by omega))]
        refine ⟨fun notNegative small => ?_, fun wrong => ?_⟩
        · rw [int32_eq (by omega) small, uint32_eq (by omega) (by omega)]
          exact ⟨rfl, rfl⟩
        · rw [int32_eq (by omega) (by omega)] at negative
          omega

theorem OpenOnFile.ignoresDevice (isOpen : OpenOnFile vfs s fd f file) (notEnd : whence ≠ 2)
    (pos ret : Int) : IgnoresDevice vfs s fd pos whence ret := by
  intro deviceEnd
  have isOpen' : OpenOnFile { vfs with deviceEnd } s fd f file :=
    ⟨isOpen.running, isOpen.table, isOpen.present, isOpen.regular⟩
  have same : seekPosition file pos (deviceEnd file.vn s.fs) whence =
      seekPosition file pos (vfs.deviceEnd file.vn s.fs) whence := by
    unfold seekPosition
    split
    · rfl
    · rfl
    · exact absurd rfl notEnd
    · rfl
  rw [isOpen.lseek_eq, isOpen'.lseek_eq, same]

/-- What is behind `vn_data` decides whether a seek from the end succeeds. -/
theorem OpenOnFile.not_ignoresDevice (isOpen : OpenOnFile vfs s fd f file) (pos ret : Int) :
    ¬IgnoresDevice vfs s fd pos 2 ret := by
  intro ignores
  have isOpen' : ∀ deviceEnd, OpenOnFile { vfs with deviceEnd } s fd f file := fun deviceEnd =>
    ⟨isOpen.running, isOpen.table, isOpen.present, isOpen.regular⟩
  -- with one content the target is 0, with another it is -1
  have zero : seekPosition file pos (-pos) 2 = some 0 := by
    rw [seekPosition, Int.add_right_neg]
    rfl
  have minusOne : seekPosition file pos (-pos - 1) 2 = some (-1) := by
    rw [seekPosition, show pos + (-pos - 1) = -1 by omega]
    rfl
  have sought : sysLseek { vfs with deviceEnd := fun _ _ => -pos } fd pos 2 ret s = _ :=
    (isOpen' _).lseek_sought zero le_rfl
  have refused : sysLseek { vfs with deviceEnd := fun _ _ => -pos - 1 } fd pos 2 ret s = _ :=
    (isOpen' _).lseek_refused (by simp [minusOne])
  rw [ignores] at sought refused
  rw [sought] at refused
  cases refused

/-- `sys_lseek` is right, and what it does is decided by the file and the descriptor alone, exactly
if the seek is not from the end. -/
theorem lseek_right_iff (isOpen : OpenOnFile vfs s fd f file) (size : Nat) (low : -2 ^ 31 ≤ pos)
    (high : pos < 2 ^ 31) (whence ret : Int) :
    (SeeksRight vfs s fd f file size pos whence ret ∧ IgnoresDevice vfs s fd pos whence ret) ↔
      whence ≠ 2 := by
  constructor
  · rintro ⟨_, ignores⟩ rfl
    exact isOpen.not_ignoresDevice pos ret ignores
  · intro notEnd
    exact ⟨isOpen.seeksRight low high notEnd size, isOpen.ignoresDevice notEnd pos ret⟩

/-- A vnode layer in which `vn_data` and `vn_ops` of the file are two addresses of the kernel. -/
def pointersVfs : Vfs OneFile :=
  { OneFile.vfs with deviceEnd := fun _ _ => 0x80014000 + 0x80030000 }

/-- A process with a descriptor in the middle of a file of two bytes. -/
def seeker : System OneFile :=
  aloneWith [⟨1, 1, 2, 2⟩] ⟨[1, 2], ⟨true, fun _ => 0, []⟩⟩

theorem seeker_open : OpenOnFile pointersVfs seeker 0 0 ⟨1, 1, 2, 2⟩ :=
  ⟨⟨_, rfl⟩, ⟨_, rfl, ⟨le_rfl, fun _ => rfl⟩, rfl⟩, rfl, fun _ _ => rfl⟩

theorem lseek_right_from_current :
    SeeksRight pointersVfs seeker 0 0 ⟨1, 1, 2, 2⟩ 2 3 1 0 ∧
      IgnoresDevice pointersVfs seeker 0 3 1 0 :=
  (lseek_right_iff seeker_open 2 (by decide) (by decide) 1 0).mpr (by decide)

/-- A seek to the end of the file goes to the sum of the two addresses. -/
theorem lseek_end_goes_astray :
    sysLseek pointersVfs 0 0 2 0 seeker =
        .ok (.ok ⟨0x44000, 0, some 0x44000⟩, seeker.sought 0 ⟨1, 1, 2, 2⟩ 0x44000) ∧
      ¬SeeksRight pointersVfs seeker 0 0 ⟨1, 1, 2, 2⟩ 2 0 2 0 := by
  have sought : sysLseek pointersVfs 0 0 2 0 seeker =
      .ok (.ok ⟨0x44000, 0, some 0x44000⟩, seeker.sought 0 ⟨1, 1, 2, 2⟩ 0x44000) :=
    seeker_open.lseek_sought (by decide) (by decide)
  refine ⟨sought, fun right => ?_⟩
  rw [SeeksRight, ensures_of_ok_eq sought] at right
  exact absurd (right.1 (by decide) (by decide)).1 (by decide)

end Os161
