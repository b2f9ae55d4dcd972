import Os161.Syscall.Position
import Os161.Syscall.Transfers

/-!
# User buffers

`sys_read` gives the vnode a `uio` for a buffer of the process, so that an address at
or above `USERTOP` is refused with `EFAULT`. `sys_write` gives it one for a buffer of
the kernel, and the bytes that it takes come from wherever the address leads: it is
confined to user memory only when the process asks for nothing else.

How many bytes of its buffer a request needs is a number that depends on the vnode.
The console takes a line when it is read and everything when it is written, but reading
it with interrupts off panics before a byte is moved.
-/

namespace Os161

open Transfer

variable {φ : Type} {vfs : Vfs φ} {s : System φ} {thread : Thread} {fd : Int} {file : Filedesc}
  {taken : UioRw → Nat}

/-- The vnode of the descriptor, unless it is the console, needs as many bytes of the buffer as
`taken` says when `nbytes` are asked for. -/
def Counts (vfs : Vfs φ) (s : System φ) (fd : Int) (nbytes : Nat) (taken : UioRw → Nat) : Prop :=
  ∀ file, s.opened fd = some file → vfs.isConsole file.vn s.fs = false →
    (vfs.fileRead file.vn s.fs).Takes .read (int32 file.offset) nbytes (taken .read) ∧
      (vfs.fileWrite file.vn s.fs).Takes .write (int32 file.offset) nbytes (taken .write)

/-- The characters of a line, up to `n`. -/
def Console.lineLength : (n : Nat) → Console → Nat
  | 0, _ => 0
  | n + 1, con =>
      if con.input 0 = 10 ∨ con.input 0 = 13 then 1
      else 1 + lineLength n { con with input := fun i => con.input (i + 1) }

/-- The bytes of the buffer that a transfer needs. -/
def needed (vfs : Vfs φ) (taken : UioRw → Nat) (rw : UioRw) (fs : φ) (file : Filedesc)
    (nbytes : Nat) : Nat :=
  match vfs.isConsole file.vn fs, rw with
  | true, .read => (vfs.console fs).lineLength nbytes
  | true, .write => nbytes
  | false, rw => taken rw

/-- The access modes that allow a transfer. -/
def allows : UioRw → Nat → Bool
  | .read => canRead
  | .write => canWrite

/-- The call gets to the vnode, which needs a byte at or above `USERTOP`. -/
def NeedsAbove (vfs : Vfs φ) (taken : UioRw → Nat) (rw : UioRw) (s : System φ) (fd : Int)
    (buf nbytes : Nat) : Prop :=
  buf ≠ 0 ∧ ∃ file, s.opened fd = some file ∧ allows rw (Vfs.accmode file.mode) ∧
    ∃ i < needed vfs taken rw s.fs file nbytes, userTop ≤ buf + i

/-- The call fails with `EFAULT`. -/
def FailsWithEfault (call : SystemM φ Return) (s : System φ) : Prop :=
  ∃ r s', call s = .ok (.ok r, s') ∧ r.code = Errno.efault.code

/-- A read stores nothing at or above `USERTOP`, and fails when it would have to. -/
structure ReadConfined (vfs : Vfs φ) (taken : UioRw → Nat) (s : System φ) (fd : Int)
    (buf nbytes : Nat) (ret : Int) : Prop where
  stores : ∀ r s', sysRead vfs fd buf nbytes ret s = .ok (.ok r, s') →
    s'.kernel = s.kernel ∧ ∀ a, userTop ≤ a → s'.userByte a = s.userByte a
  fails : NeedsAbove vfs taken .read s fd buf nbytes →
    FailsWithEfault (sysRead vfs fd buf nbytes ret) s

/-- A kernel in which the process has the same memory and the same files. -/
structure AgreesOnUser (s other : System φ) : Prop where
  process : other.Process
  opened : ∀ fd, other.opened fd = s.opened fd
  memory : other.current.bind Thread.tVmspace = s.current.bind Thread.tVmspace
  fs : other.fs = s.fs

/-- What a write returns and does to the files depends on user memory only, and it fails when it
would need anything else. -/
structure WriteConfined (vfs : Vfs φ) (taken : UioRw → Nat) (s : System φ) (fd : Int)
    (buf nbytes : Nat) (ret : Int) : Prop where
  independent : ∀ other, AgreesOnUser s other → ∀ r s' r' other',
    sysWrite vfs fd buf nbytes ret s = .ok (.ok r, s') →
      sysWrite vfs fd buf nbytes ret other = .ok (.ok r', other') →
      r' = r ∧ other'.fs = s'.fs
  fails : NeedsAbove vfs taken .write s fd buf nbytes →
    FailsWithEfault (sysWrite vfs fd buf nbytes ret) s

/-! ## Reading -/

theorem Errno.code_eq_efault {failure : Errno} (same : failure.code = Errno.efault.code) :
    failure = .efault := by
  cases failure <;> first | rfl | cases same

theorem readFile_stores (process : s.Process) (file : Filedesc) (buf : Nat) (nbytes : BitVec 32) :
    Ensures (readFile vfs buf nbytes.toNat file) s (fun _ => True) (fun _ _ => False)
      (fun _ s' => s'.kernel = s.kernel ∧ ∀ a, userTop ≤ a → s'.userByte a = s.userByte a) := by
  rcases process.running with ⟨thread, running⟩
  rw [ensures_readFile running]
  have confined := run_confined (s.reachOf thread buf) (vfs.vopRead splHigh file.vn s.fs)
    (show (s.readUio thread file buf nbytes.toNat).uioSegflg ≠ .sysspace from nofun) nbytes.isLt
  apply (confined.and (run_never_fails _ _ _)).mono
  · exact fun _ _ => trivial
  · exact fun _ _ failed => failed.2
  rintro ⟨result, fs⟩ uio' ⟨confined, _⟩
  refine ⟨confined.kernel, fun a above => ?_⟩
  have running' : ({ s with fs } : System φ).current = some thread := running
  have user := confined.user a above
  rw [System.userByte, System.current_withMemory running', System.userByte, running]
  simp only [bind_some]
  cases isSpace : thread.tVmspace with
  | none => rfl
  | some space =>
      simp only [map_some, bind_some, user]
      simp [System.readUio, fileUio, System.memoryOf, isSpace]

variable {buf nbytes : Nat} {other : System φ} {thread' : Thread}

variable {ret : Int} {r : Return} {s' : System φ} {count : Nat} {reach : Nat → Bool}

/-- A call that returns without having got to the vnode has changed nothing. -/
theorem accessFile_returned (process : s.Process) {allowed : Nat → Bool}
    {transfer : Filedesc → SystemM φ Return}
    (returned : accessFile allowed transfer fd buf ret s = .ok (.ok r, s')) :
    s' = s ∨ ∃ file, s.opened fd = some file ∧ transfer file s = .ok (.ok r, s') := by
  rw [accessFile_eq process] at returned
  split at returned
  · cases returned
    exact Or.inl rfl
  split at returned
  · cases returned
  split at returned
  · cases returned
  split at returned
  · cases returned
    exact Or.inl rfl
  rename_i file isOpen
  split at returned
  · exact Or.inr ⟨file, isOpen, returned⟩
  · cases returned
    exact Or.inl rfl

theorem sysRead_stores (process : s.Process) {nbytes : BitVec 32}
    (returned : sysRead vfs fd buf nbytes.toNat ret s = .ok (.ok r, s')) :
    s'.kernel = s.kernel ∧ ∀ a, userTop ≤ a → s'.userByte a = s.userByte a := by
  rcases accessFile_returned process returned with rfl | ⟨file, _, transferred⟩
  · exact ⟨rfl, fun _ _ => rfl⟩
  · exact (ensures_of_ok_eq transferred).mp (readFile_stores process file buf nbytes)

/-- A byte that is needed at or above `USERTOP` cannot be used. -/
theorem not_usable_read (above : ∃ i < count, userTop ≤ buf + i) :
    ¬(s.readUio thread file buf nbytes).Usable reach count := by
  rcases above with ⟨i, small, above⟩
  rintro ⟨accessible, _⟩
  rcases accessible (by omega) with impossible | ⟨below, _⟩
  · cases impossible
  · have below : buf + count ≤ userTop := below
    omega

theorem readFile_efault {nbytes : BitVec 32} (process : s.Process)
    (takes : (vfs.fileRead file.vn s.fs).Takes .read (int32 file.offset) nbytes.toNat count)
    (isFile : vfs.isConsole file.vn s.fs = false) (above : ∃ i < count, userTop ≤ buf + i) :
    FailsWithEfault (readFile vfs buf nbytes.toNat file) s := by
  rcases process.running with ⟨thread, running⟩
  have fits : (s.readUio thread file buf nbytes.toNat).Fits nbytes.toNat :=
    fileUio_fits rfl file buf nbytes.isLt
  have failed : Ensures (readFile vfs buf nbytes.toNat file) s (fun _ => False)
      (fun _ _ => False) (fun r _ => r.code = Errno.efault.code) := by
    rw [ensures_readFile running, Vfs.vopRead, if_neg (by simp [isFile])]
    apply (takes (s.reachOf thread buf) _ rfl (by simp only [System.readUio, fileUio]) rfl rfl
      fits).unfailing
    · exact fun _ halted => by cases halted.2.1
    · rintro ⟨result, fs⟩ uio' ⟨_, refused⟩
      have isEfault : result = .error .efault := (refused (not_usable_read above)).2
      rw [isEfault]
      rfl
  rcases failed.outcomes with ⟨_, _, impossible⟩ | ⟨_, _, _, impossible⟩ | ⟨r, s', returned, code⟩
  · exact impossible.elim
  · exact impossible.elim
  · exact ⟨r, s', returned, code⟩

theorem readFile_console (process : s.Process) (isConsole : vfs.isConsole file.vn s.fs = true)
    (buf : Nat) (positive : 0 < nbytes) :
    Ensures (readFile vfs buf nbytes file) s (fun _ => True) (fun _ _ => False)
      (fun _ _ => False) := by
  rcases process.running with ⟨thread, running⟩
  rw [ensures_readFile running, Vfs.vopRead, if_pos isConsole, Console.conIo]
  split
  · trivial
  · rename_i configured
    rw [run, ensures_bind, ensures_get]
    have resid : (s.readUio thread file buf nbytes).uioResid = nbytes := rfl
    dsimp only
    rw [resid]
    cases nbytes with
    | zero => cases positive
    | succ n =>
        rw [Console.readLoop, run, ensures_bind, ensures_get, resid,
          if_neg (Nat.succ_ne_zero n), if_neg configured, if_pos (by decide)]
        trivial

theorem lineLength_pos {n : Nat} {con : Console} (some : 0 < con.lineLength n) : 0 < n := by
  cases n with
  | zero => exact some
  | succ n => exact Nat.succ_pos n

/-- The descriptor stands for the console. -/
def OnConsole (vfs : Vfs φ) (s : System φ) (fd : Int) : Prop :=
  ∃ file, s.opened fd = some file ∧ vfs.isConsole file.vn s.fs = true

theorem readConfined_iff {nbytes : BitVec 32} (process : s.Process)
    (counts : Counts vfs s fd nbytes.toNat taken) (buf : Nat) (ret : Int) :
    ReadConfined vfs taken s fd buf nbytes.toNat ret ↔
      ¬(OnConsole vfs s fd ∧ NeedsAbove vfs taken .read s fd buf nbytes.toNat) := by
  constructor
  · rintro confined ⟨⟨file, isOpen, isConsole⟩, needs⟩
    rcases confined.fails needs with ⟨r, s', returned, _⟩
    rcases needs with ⟨buffer, file', isOpen', allowed, i, small, _⟩
    cases isOpen.symm.trans isOpen'
    simp only [needed, isConsole] at small
    have positive := lineLength_pos (Nat.zero_lt_of_lt small)
    have readable : canRead (Vfs.accmode file.mode) = true := allowed
    rw [sysRead, accessFile_opened process isOpen buffer, if_pos readable] at returned
    exact (ensures_of_ok_eq returned).mp (readFile_console process isConsole buf positive)
  · intro condition
    refine ⟨fun r s' returned => sysRead_stores process returned, fun needs => ?_⟩
    have isNeeded := needs
    rcases needs with ⟨buffer, file, isOpen, allowed, above⟩
    have isFile : vfs.isConsole file.vn s.fs = false := by
      by_contra isConsole
      exact condition ⟨⟨file, isOpen, by simpa using isConsole⟩, isNeeded⟩
    simp only [needed, isFile] at above
    have readable : canRead (Vfs.accmode file.mode) = true := allowed
    rw [FailsWithEfault, sysRead, accessFile_opened process isOpen buffer, if_pos readable]
    exact readFile_efault process (counts file isOpen isFile).1 isFile above

/-! ## Writing -/

theorem usable_write :
    (s.writeUio thread file buf nbytes).Usable reach count ↔
      ∀ i < count, reach (buf + i) = true :=
  ⟨fun usable => usable.2 rfl, fun reaches => ⟨fun _ => Or.inl rfl, fun _ => reaches⟩⟩

theorem vopWrite_takes (counts : Counts vfs s fd nbytes taken) (isOpen : s.opened fd = some file)
    (there : vfs.isConsole file.vn s.fs = true → (vfs.console s.fs).configured = true) :
    (vfs.vopWrite splHigh file.vn s.fs).Takes .write (int32 file.offset) nbytes
      (needed vfs taken .write s.fs file nbytes) := by
  cases isConsole : vfs.isConsole file.vn s.fs with
  | true =>
      have all : needed vfs taken .write s.fs file nbytes = nbytes := by simp [needed, isConsole]
      rw [Vfs.vopWrite, if_pos isConsole, all]
      exact Console.conIo_takes splHigh _ (there isConsole) _ nbytes
  | false =>
      have some : needed vfs taken .write s.fs file nbytes = taken .write := by
        simp [needed, isConsole]
      rw [Vfs.vopWrite, if_neg (by simp [isConsole]), some]
      exact (counts file isOpen isConsole).2

/-- What `VOP_WRITE` does with the buffer of `sys_write`. -/
theorem vopWrite_law {nbytes : BitVec 32}
    (takes : (vfs.vopWrite splHigh file.vn s.fs).Takes .write (int32 file.offset) nbytes.toNat
      count)
    (buf : Nat) (thread : Thread) (reach : Nat → Bool) :
    Ensures ((vfs.vopWrite splHigh file.vn s.fs).run reach)
      (s.writeUio thread file buf nbytes.toNat)
      (fun reason => reason = .kernelFault ∧ ¬∀ i < count, reach (buf + i) = true)
      (fun _ _ => False)
      (fun value _ => (∀ i < count, reach (buf + i) = true) ∧ value.1 ≠ .error .efault) := by
  have fits : (s.writeUio thread file buf nbytes.toNat).Fits nbytes.toNat :=
    fileUio_fits rfl file buf nbytes.isLt
  have law := takes reach (s.writeUio thread file buf nbytes.toNat) rfl
    (by simp only [System.writeUio, fileUio]) rfl rfl fits
  rw [usable_write] at law
  apply law.unfailing
  · exact fun _ halted => ⟨halted.1, halted.2.2⟩
  · rintro value uio' ⟨usable, unusable⟩
    by_cases reaches : ∀ i < count, reach (buf + i) = true
    · exact ⟨reaches, usable reaches⟩
    · exact absurd rfl (unusable reaches).1

theorem vopWrite_missing (isConsole : vfs.isConsole file.vn s.fs = true)
    (missing : (vfs.console s.fs).configured = false) (reach : Nat → Bool) (uio : Uio) :
    (vfs.vopWrite splHigh file.vn s.fs).run reach uio = .error .conLock := by
  rw [Vfs.vopWrite, if_pos isConsole, Console.conIo, if_pos missing]
  rfl

/-- A write that returns got its bytes, and did not fail with `EFAULT`. -/
theorem writeFile_returned {nbytes : BitVec 32} (counts : Counts vfs s fd nbytes.toNat taken)
    (isOpen : s.opened fd = some file) (running : s.current = some thread)
    (returned : writeFile vfs buf nbytes.toNat file s = .ok (.ok r, s')) :
    (vfs.isConsole file.vn s.fs = true → (vfs.console s.fs).configured = true) ∧
      (∀ i < needed vfs taken .write s.fs file nbytes.toNat,
        s.reachOf thread buf (buf + i) = true) ∧ r.code ≠ Errno.efault.code := by
  have ensured : Ensures (writeFile vfs buf nbytes.toNat file) s (fun _ => True)
      (fun _ _ => True) (fun r _ =>
        (vfs.isConsole file.vn s.fs = true → (vfs.console s.fs).configured = true) ∧
          (∀ i < needed vfs taken .write s.fs file nbytes.toNat,
            s.reachOf thread buf (buf + i) = true) ∧ r.code ≠ Errno.efault.code) := by
    rw [ensures_writeFile running]
    by_cases there : vfs.isConsole file.vn s.fs = true → (vfs.console s.fs).configured = true
    · apply (vopWrite_law (vopWrite_takes counts isOpen there) buf thread _).returning
      rintro ⟨result, fs⟩ uio' ⟨reaches, other⟩
      refine ⟨there, reaches, fun same => ?_⟩
      cases result with
      | error failure => exact other (congrArg _ (Errno.code_eq_efault same))
      | ok _ => cases same
    · push Not at there
      rw [ensures_of_halt_eq (vopWrite_missing there.1 (by simpa using there.2) _ _)]
      trivial
  exact (ensures_of_ok_eq returned).mp ensured

theorem writeFile_of_run {value : Except Errno Unit × φ} {uio' : Uio}
    (running : s.current = some thread)
    (ran : (vfs.vopWrite splHigh file.vn s.fs).run (s.reachOf thread buf)
      (s.writeUio thread file buf nbytes) = .ok (.ok value, uio')) :
    writeFile vfs buf nbytes file s =
      .ok (.ok (transferResult nbytes (value.1, uio')), { s with fs := value.2 }) := by
  apply eq_ok_of_ensures
  rw [ensures_writeFile running, ensures_of_ok_eq ran]
  exact ⟨rfl, rfl⟩

theorem transferResult_congr {result : Except Errno Unit} {uio other : Uio}
    (same : other.uioResid = uio.uioResid) :
    transferResult nbytes (result, other) = transferResult nbytes (result, uio) := by
  cases result with
  | error failure => rfl
  | ok _ => simp only [transferResult, same]

theorem System.user_memoryOf (running : s.current = some thread) (a : Nat) :
    (s.memoryOf thread).user a = s.userByte a := by
  rw [System.memoryOf, System.userByte, running, bind_some]
  cases thread.tVmspace <;> rfl

/-- The two kernels give the vnode the same bytes of user memory. -/
theorem AgreesOnUser.sameBuffer (agrees : AgreesOnUser s other)
    (running : s.current = some thread) (running' : other.current = some thread')
    (user : ∀ a, reach a = true → a < userTop) :
    (s.writeUio thread file buf nbytes).SameBuffer reach
      (other.writeUio thread' file buf nbytes) := by
  refine ⟨by simp only [System.writeUio, fileUio, Uio.setMem], fun a reached => ?_, rfl, rfl⟩
  have below := user a reached
  have small : a % 2 ^ 32 = a := Nat.mod_eq_of_lt (by simp only [userTop] at below; omega)
  simp only [System.writeUio, fileUio, Memory.direct]
  rw [small, if_pos below, if_pos below, System.user_memoryOf running,
    System.user_memoryOf running', System.userByte, System.userByte, agrees.memory]

/-- A write that needs user memory only does the same in two kernels with the same user memory. -/
theorem writeFile_independent {nbytes : BitVec 32} (process : s.Process)
    (counts : Counts vfs s fd nbytes.toNat taken) (isOpen : s.opened fd = some file)
    (agrees : AgreesOnUser s other)
    (below : ∀ i < needed vfs taken .write s.fs file nbytes.toNat, buf + i < userTop)
    {r' : Return} {other' : System φ}
    (returned : writeFile vfs buf nbytes.toNat file s = .ok (.ok r, s'))
    (returned' : writeFile vfs buf nbytes.toNat file other = .ok (.ok r', other')) :
    r' = r ∧ other'.fs = s'.fs := by
  rcases process.running with ⟨thread, running⟩
  rcases agrees.process.running with ⟨thread', running'⟩
  have itself : AgreesOnUser s s := ⟨process, fun _ => rfl, rfl, rfl⟩
  have counts' : Counts vfs other fd nbytes.toNat taken := by
    rw [Counts, agrees.opened, agrees.fs]
    exact counts
  rcases writeFile_returned counts isOpen running returned with ⟨there, reaches, _⟩
  rcases writeFile_returned counts' (agrees.opened fd ▸ isOpen) running' returned' with
    ⟨_, reaches', _⟩
  rw [agrees.fs] at reaches'
  -- the run that may use only what both kernels have of user memory is the run in both
  let common : Nat → Bool := fun a =>
    a < userTop && (s.reachOf thread buf a && other.reachOf thread' buf a)
  have inCommon : ∀ a, common a = true →
      a < userTop ∧ s.reachOf thread buf a = true ∧ other.reachOf thread' buf a = true := by
    simp [common]
  rcases (vopWrite_law (vopWrite_takes counts isOpen there) buf thread common).outcomes with
    ⟨_, _, _, halted⟩ | ⟨_, _, _, impossible⟩ | ⟨value, uio', ran, _⟩
  · exact absurd (fun i small => by simp [common, below i small, reaches i small,
      reaches' i small]) halted
  · exact impossible.elim
  have user := fun a reached => (inCommon a reached).1
  rcases run_congr _ (fun a reached => (inCommon a reached).2.1)
    (itself.sameBuffer running running user) ran with ⟨first, ranHere, sameHere⟩
  rcases run_congr _ (fun a reached => (inCommon a reached).2.2)
    (agrees.sameBuffer running running' user) ran with ⟨second, ranThere, sameThere⟩
  rw [← agrees.fs] at ranThere
  rw [writeFile_of_run running ranHere] at returned
  rw [writeFile_of_run running' ranThere] at returned'
  cases returned
  cases returned'
  refine ⟨transferResult_congr ?_, rfl⟩
  rw [sameHere.rest, sameThere.rest]
  rfl

theorem writeConfined_iff {nbytes : BitVec 32} (process : s.Process)
    (counts : Counts vfs s fd nbytes.toNat taken) (buf : Nat) (ret : Int) :
    WriteConfined vfs taken s fd buf nbytes.toNat ret ↔
      ¬NeedsAbove vfs taken .write s fd buf nbytes.toNat := by
  constructor
  · intro confined needs
    rcases confined.fails needs with ⟨r, s', returned, isEfault⟩
    rcases needs with ⟨buffer, file, isOpen, allowed, _⟩
    rcases process.running with ⟨thread, running⟩
    have writable : canWrite (Vfs.accmode file.mode) = true := allowed
    rw [sysWrite, accessFile_opened process isOpen buffer, if_pos writable] at returned
    exact (writeFile_returned counts isOpen running returned).2.2 isEfault
  · intro condition
    refine ⟨fun other agrees r s' r' other' returned returned' => ?_,
      fun needs => absurd needs condition⟩
    rw [sysWrite, accessFile_eq process] at returned
    rw [sysWrite, accessFile_eq agrees.process, agrees.opened] at returned'
    by_cases null : buf = 0
    · rw [if_pos null] at returned returned'
      cases returned
      cases returned'
      exact ⟨rfl, agrees.fs⟩
    rw [if_neg null] at returned returned'
    split at returned
    · cases returned
    split at returned'
    · cases returned'
    split at returned
    · cases returned
    rename_i notNegative
    rw [if_neg notNegative] at returned'
    cases isOpen : s.opened fd with
    | none =>
        rw [isOpen] at returned returned'
        cases returned
        cases returned'
        exact ⟨rfl, agrees.fs⟩
    | some file =>
        rw [isOpen] at returned returned'
        dsimp only at returned returned'
        split at returned
        · rename_i writable
          rw [if_pos writable] at returned'
          apply writeFile_independent process counts isOpen agrees _ returned returned'
          intro i small
          by_contra above
          exact condition ⟨null, file, isOpen, writable, i, small, by omega⟩
        · rename_i forbidden
          rw [if_neg forbidden] at returned'
          cases returned
          cases returned'
          exact ⟨rfl, agrees.fs⟩

/-- A read of a file is confined to user memory always, and one of the console unless it is asked
for a byte elsewhere; a write is exactly if it is not asked for one. -/
theorem user_buffers_confined_iff {nbytes : BitVec 32} (process : s.Process)
    (counts : Counts vfs s fd nbytes.toNat taken) (buf : Nat) (ret : Int) :
    (ReadConfined vfs taken s fd buf nbytes.toNat ret ↔
      ¬(OnConsole vfs s fd ∧ NeedsAbove vfs taken .read s fd buf nbytes.toNat)) ∧
    (WriteConfined vfs taken s fd buf nbytes.toNat ret ↔
      ¬NeedsAbove vfs taken .write s fd buf nbytes.toNat) :=
  ⟨readConfined_iff process counts buf ret, writeConfined_iff process counts buf ret⟩

/-! ## The file of a process -/

namespace OneFile

theorem takes_look {rw : UioRw} {offset : Int} {resid : Nat} {next : Int → Nat → Transfer OneFile}
    (takes : (next offset resid).Takes rw offset resid count) :
    (look next).Takes rw offset resid count := by
  rintro reach uio isRw rfl rfl len fits
  exact takes reach uio isRw rfl rfl len fits

/-- An operation that moves some bytes at once and then is done needs so many. -/
theorem takes_move {rw : UioRw} {offset : Int} {resid : Nat}
    {next : Except Errno Bytes → Transfer OneFile} (less : count ≤ resid)
    (refused : ∃ fs, next (.error .efault) = .done (.error .efault) fs)
    (moved : ∀ bytes, ∃ fs, next (.ok bytes) = .done (.ok ()) fs) (source : Bytes) :
    (Transfer.move source count next).Takes rw offset resid count := by
  intro reach uio _ _ _ _ fits
  apply ensures_move (fits.mono less)
  · exact fun sysspace unusable => ⟨rfl, sysspace, unusable⟩
  · intro user unusable mem
    rcases refused with ⟨fs, isDone⟩
    rw [isDone]
    exact ⟨fun usable => absurd usable unusable, fun _ => ⟨user, rfl⟩⟩
  · intro usable bytes between isMoved
    rcases moved bytes with ⟨fs, isDone⟩
    rw [isDone]
    exact ⟨fun _ => nofun, fun unusable => absurd usable unusable⟩

/-- What the file needs of the buffer for a request at the offset. -/
def needs (fs : OneFile) (offset nbytes : Nat) : UioRw → Nat
  | .read => min nbytes (fs.content.length - uint32 (int32 offset))
  | .write => nbytes

theorem counts {s : System OneFile} {file : Filedesc} (isOpen : s.opened fd = some file)
    (nbytes : Nat) : Counts OneFile.vfs s fd nbytes (needs s.fs file.offset nbytes) := by
  intro other isOpen' _
  cases isOpen.symm.trans isOpen'
  constructor
  · exact takes_look (takes_move (Nat.min_le_left _ _) ⟨s.fs, rfl⟩ (fun _ => ⟨s.fs, rfl⟩) _)
  · exact takes_look (takes_move le_rfl ⟨s.fs, rfl⟩ (fun _ => ⟨_, rfl⟩) _)

end OneFile

/-- A write of a byte of user memory. -/
theorem user_buffers_confined_write :
    WriteConfined OneFile.vfs (OneFile.needs (positioned 0 [1]).fs 0 1) (positioned 0 [1]) 0 0x4000
      1 0 := by
  have counts : Counts OneFile.vfs (positioned 0 [1]) 0 (1 : BitVec 32).toNat _ :=
    OneFile.counts rfl 1
  apply (user_buffers_confined_iff (aloneWith_process _ _) counts 0x4000 0).2.mpr
  rintro ⟨_, file, isOpen, _, i, small, above⟩
  cases isOpen
  have small : i < 1 := small
  simp only [userTop] at above
  omega

/-- A byte of the kernel gets into a file. -/
theorem write_copies_kernel_byte :
    ∃ r s', sysWrite OneFile.vfs 0 0x80000000 1 0 (positioned 0 [1]) = .ok (.ok r, s') ∧
      r.outcome = some 1 ∧ (positioned 0 [1]).kernel 0x80000000 = 42 ∧ s'.fs.content = [42] := by
  have computed : (((sysWrite OneFile.vfs 0 0x80000000 1 0).returned (positioned 0 [1])).any
      fun written => written.1.outcome == some 1 && written.2.fs.content == [42]) = true := by
    decide +kernel
  rcases (any_eq_true _ _).mp computed with ⟨⟨r, s'⟩, written, facts⟩
  simp only [Bool.and_eq_true, beq_iff_eq] at facts
  exact ⟨r, s', Prog.returned_eq_some.mp written, facts.1, rfl, facts.2⟩

end Os161
