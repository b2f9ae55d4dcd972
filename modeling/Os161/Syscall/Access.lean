import Os161.Syscall.Process
import Os161.Lib.Machine

/-!
# Access modes

`vfs_open` looks at the access bits of the flags of an `open`, while `sys_read` and
`sys_write` look at those of the descriptor's mode, which `sys_open` takes from its
third argument. A descriptor allows what it was opened for exactly if the two agree,
or if the mode allows nothing and the file was not opened for both.

Whether a call gets to the vnode is said without looking at what the vnode does
then: it does if it behaves as its transfer would, whatever that is.
-/

namespace Os161

variable {φ : Type} {vfs : Vfs φ} {s : System φ} {fd : Int} {file : Filedesc}

/-- The call goes on to `VOP_READ` or `VOP_WRITE`. -/
def ReachesVnode (allowed : Nat → Bool) (s : System φ) (fd : Int) (buf : Nat) : Prop :=
  ∃ file, ∀ (transfer : Filedesc → SystemM φ Return) (ret : Int),
    accessFile allowed transfer fd buf ret s = transfer file s

/-- The call returns `EBADF`, and nothing has changed. -/
def Refused (allowed : Nat → Bool) (s : System φ) (fd : Int) (buf : Nat) : Prop :=
  ∀ (transfer : Filedesc → SystemM φ Return) (ret : Int),
    accessFile allowed transfer fd buf ret s =
      .ok (.ok { code := Errno.ebadf.code, ret, outcome := none }, s)

/-- A descriptor can be used for what it was opened for, and for nothing else. -/
structure Enforced (s : System φ) (fd : Int) (oflag : Nat) : Prop where
  read : ∀ buf, ReachesVnode canRead s fd buf → canRead (Vfs.accmode oflag)
  write : ∀ buf, ReachesVnode canWrite s fd buf → canWrite (Vfs.accmode oflag)
  readRefused : ∀ buf ≠ 0, canRead (Vfs.accmode oflag) = false → Refused canRead s fd buf
  writeRefused : ∀ buf ≠ 0, canWrite (Vfs.accmode oflag) = false → Refused canWrite s fd buf
  both : Vfs.accmode oflag = 2 → ∀ buf ≠ 0,
    ReachesVnode canRead s fd buf ∧ ReachesVnode canWrite s fd buf

/-- The mode allows what the flags do, or nothing although the flags allow only one thing. -/
def ModeMatches (oflag mode : Nat) : Prop :=
  Vfs.accmode mode = Vfs.accmode oflag ∨ Vfs.accmode mode = 3 ∧ Vfs.accmode oflag ≠ 2

instance (oflag mode : Nat) : Decidable (ModeMatches oflag mode) :=
  inferInstanceAs (Decidable (_ ∨ _))

theorem accessFile_opened (process : s.Process) (isOpen : s.opened fd = some file) {buf : Nat}
    (buffer : buf ≠ 0) (allowed : Nat → Bool) (transfer : Filedesc → SystemM φ Return) (ret : Int) :
    accessFile allowed transfer fd buf ret s =
      if allowed (Vfs.accmode file.mode) then transfer file s
      else .ok (.ok { code := Errno.ebadf.code, ret, outcome := none }, s) := by
  cases isTable : s.table with
  | none => simp [System.opened, isTable] at isOpen
  | some ft =>
      have inside := (process.opened_isSome_iff isTable fd).mp (by rw [isOpen]; rfl)
      rw [accessFile_eq process, if_neg buffer, isTable, if_neg (by simp), if_neg (by omega),
        isOpen]

theorem reachesVnode_iff (process : s.Process) (isOpen : s.opened fd = some file)
    (allowed : Nat → Bool) (buf : Nat) :
    ReachesVnode allowed s fd buf ↔ buf ≠ 0 ∧ allowed (Vfs.accmode file.mode) := by
  constructor
  · rintro ⟨reached, same⟩
    -- a transfer that panics tells whether it is run
    have halted := same (fun _ => halt .strayPointer) 0
    by_cases buffer : buf = 0
    · rw [accessFile, if_pos buffer] at halted
      cases halted
    · refine ⟨buffer, ?_⟩
      by_contra forbidden
      rw [accessFile_opened process isOpen buffer, if_neg forbidden] at halted
      cases halted
  · rintro ⟨buffer, isAllowed⟩
    refine ⟨file, fun transfer ret => ?_⟩
    rw [accessFile_opened process isOpen buffer, if_pos isAllowed]

theorem refused_iff (process : s.Process) (isOpen : s.opened fd = some file)
    (allowed : Nat → Bool) {buf : Nat} (buffer : buf ≠ 0) :
    Refused allowed s fd buf ↔ allowed (Vfs.accmode file.mode) = false := by
  constructor
  · intro refused
    have returned := refused (fun _ => halt .strayPointer) 0
    by_contra isAllowed
    rw [accessFile_opened process isOpen buffer, if_pos (by simpa using isAllowed)] at returned
    cases returned
  · intro forbidden transfer ret
    rw [accessFile_opened process isOpen buffer, if_neg (by simp [forbidden])]

theorem enforced_iff (process : s.Process) (isOpen : s.opened fd = some file)
    (proper : Vfs.accmode file.oflag ≠ 3) :
    Enforced s fd file.oflag ↔ ModeMatches file.oflag file.mode := by
  have reaches := fun allowed => reachesVnode_iff process isOpen allowed
  have refuses := fun allowed buf (buffer : buf ≠ 0) => refused_iff process isOpen allowed buffer
  have modeSmall : Vfs.accmode file.mode < 4 := Nat.mod_lt _ (by omega)
  have flagSmall : Vfs.accmode file.oflag < 3 :=
    Nat.lt_of_le_of_ne (Nat.le_of_lt_succ (Nat.mod_lt _ (by omega))) proper
  constructor
  · intro enforced
    have read := enforced.read 1
    have write := enforced.write 1
    have both := fun isBoth => enforced.both isBoth 1 (by omega)
    simp only [reaches, canRead, canWrite, decide_eq_true_eq] at read write both
    simp only [ModeMatches]
    omega
  · intro agree
    simp only [ModeMatches] at agree
    constructor
    · intro buf reached
      simp only [reaches, canRead, decide_eq_true_eq] at reached ⊢
      omega
    · intro buf reached
      simp only [reaches, canWrite, decide_eq_true_eq] at reached ⊢
      omega
    · intro buf buffer forbidden
      rw [refuses canRead buf buffer]
      simp only [canRead, decide_eq_false_iff_not] at forbidden ⊢
      omega
    · intro buf buffer forbidden
      rw [refuses canWrite buf buffer]
      simp only [canWrite, decide_eq_false_iff_not] at forbidden ⊢
      omega
    · intro isBoth buf buffer
      simp only [reaches, canRead, canWrite, decide_eq_true_eq]
      omega

/-! ## Runs -/

inductive FileOp where
  | open (path oflag mode : Nat)
  | read (fd : Int) (buf nbytes : Nat)
  | write (fd : Int) (buf nbytes : Nat)

def FileOp.exec (vfs : Vfs φ) : FileOp → SystemM φ Unit
  | .open path oflag mode => do
      let _ ← sysOpen vfs path oflag mode
      pure ()
  | .read fd buf nbytes => do
      let _ ← sysRead vfs fd buf nbytes 0
      pure ()
  | .write fd buf nbytes => do
      let _ ← sysWrite vfs fd buf nbytes 0
      pure ()

/-- Each `open` has a mode that matches its flags. -/
def FileOp.Matches : FileOp → Prop
  | .open _ oflag mode => ModeMatches oflag mode
  | .read _ _ _ | .write _ _ _ => True

instance : DecidablePred FileOp.Matches
  | .open _ oflag mode => inferInstanceAs (Decidable (ModeMatches oflag mode))
  | .read _ _ _ | .write _ _ _ => isTrue trivial

def matchingMachine (vfs : Vfs φ) : Machine Panic (System φ) Errno FileOp (Interim φ) where
  exec := FileOp.exec vfs
  Enabled operation _ := operation.Matches
  arm := System.amid

structure AllMatch (s : System φ) : Prop where
  process : s.Process
  proper : ∀ fd file, s.opened fd = some file → Vfs.accmode file.oflag ≠ 3
  agree : ∀ fd file, s.opened fd = some file → ModeMatches file.oflag file.mode

theorem AllMatch.of_opened {s' : System φ} (all : AllMatch s) (process : s'.Process)
    (same : ∀ fd, s'.opened fd = s.opened fd) : AllMatch s' := by
  refine ⟨process, fun fd file isOpen => ?_, fun fd file isOpen => ?_⟩
  · exact all.proper fd file (by rw [← same, isOpen])
  · exact all.agree fd file (by rw [← same, isOpen])

theorem AllMatch.opens {oflag mode : Nat} {r : Return} {s' : System φ} (all : AllMatch s)
    (agree : ModeMatches oflag mode) (opens : s.Opens oflag mode r s')
    (proper : ∀ index, r.outcome = some index → Vfs.accmode oflag ≠ 3) : AllMatch s' := by
  cases isOutcome : r.outcome with
  | none => exact all.of_opened opens.process (opens.refused isOutcome)
  | some index =>
      rcases opens.added index isOutcome with ⟨⟨vn, added⟩, others⟩
      refine ⟨opens.process, fun fd file isOpen => ?_, fun fd file isOpen => ?_⟩
      · by_cases new : fd = index
        · cases (new ▸ added).symm.trans isOpen
          exact proper index isOutcome
        · exact all.proper fd file ((others fd new).symm.trans isOpen)
      · by_cases new : fd = index
        · cases (new ▸ added).symm.trans isOpen
          exact agree
        · exact all.agree fd file ((others fd new).symm.trans isOpen)

theorem AllMatch.accessFile (all : AllMatch s) {allowed : Nat → Bool}
    {transfer : Filedesc → SystemM φ Return} {fd : Int} {buf : Nat} {ret : Int}
    (keeps : ∀ file, Ensures (transfer file) s (fun _ => True) (fun _ _ => False)
      (fun _ s' => s.SameFiles s')) :
    Ensures (accessFile allowed transfer fd buf ret) s (fun _ => True)
      (fun _ s' => AllMatch s') (fun _ s' => AllMatch s') := by
  have equation := accessFile_eq all.process allowed transfer fd buf ret
  split at equation
  · rwa [ensures_of_ok_eq equation]
  split at equation
  · rw [ensures_of_halt_eq equation]
    trivial
  split at equation
  · rw [ensures_of_halt_eq equation]
    trivial
  split at equation
  · rwa [ensures_of_ok_eq equation]
  rename_i file _
  split at equation
  · rw [Prog.ensures_congr equation]
    apply (keeps file).returning
    exact fun _ s' same => all.of_opened (same.process all.process) same.opened
  · rwa [ensures_of_ok_eq equation]

theorem AllMatch.exec (all : AllMatch s) {operation : FileOp} (agree : operation.Matches) :
    Ensures (operation.exec vfs) s (fun _ => True) (fun _ s' => AllMatch s')
      (fun _ s' => AllMatch s') := by
  cases operation with
  | «open» path oflag mode =>
      rw [FileOp.exec, ensures_bind]
      apply (sysOpen_spec all.process path oflag mode).returning
      exact fun r s' returned => all.opens agree returned.1 returned.2
  | read fd buf nbytes =>
      rw [FileOp.exec, ensures_bind]
      exact all.accessFile fun file => readFile_sameFiles all.process buf nbytes file
  | write fd buf nbytes =>
      rw [FileOp.exec, ensures_bind]
      exact all.accessFile fun file => writeFile_sameFiles all.process buf nbytes file

theorem allMatch_of_reachable (reachable : (matchingMachine vfs).Reachable System.New s) :
    AllMatch s := by
  apply reachable.invariant
  · intro first new
    refine ⟨new.process, fun fd file isOpen => ?_, fun fd file isOpen => ?_⟩ <;>
      rw [new.opened fd] at isOpen <;> cases isOpen
  · intro between operation around _ agree all
    exact (all.of_opened (all.process.amid around) (between.opened_amid around)).exec agree

/-- A descriptor that `open` returns is used as its flags say exactly if the mode matches them,
and in every run in which all modes do, every descriptor is. -/
theorem access_mode_enforced_iff (vfs : Vfs φ) :
    (∀ (s s' : System φ) (path oflag mode : Nat) (r : Return) (index : Int), s.Process →
      sysOpen vfs path oflag mode s = .ok (.ok r, s') → r.outcome = some index →
      (Enforced s' index oflag ↔ ModeMatches oflag mode)) ∧
    ∀ s : System φ, (matchingMachine vfs).Reachable System.New s →
      ∀ fd file, s.opened fd = some file → Enforced s fd file.oflag := by
  refine ⟨?_, ?_⟩
  · intro s s' path oflag mode r index process returned isIndex
    rcases (ensures_of_ok_eq returned).mp (sysOpen_spec process path oflag mode) with
      ⟨opens, proper⟩
    rcases opens.added index isIndex with ⟨⟨vn, isOpen⟩, _⟩
    exact enforced_iff opens.process isOpen (proper index isIndex)
  · intro s reachable fd file isOpen
    have all := allMatch_of_reachable reachable
    exact (enforced_iff all.process isOpen (all.proper fd file isOpen)).mpr
      (all.agree fd file isOpen)

/-! ## Two processes -/

instance (vfs : Vfs φ) (operation : FileOp) (s : System φ) :
    Decidable ((matchingMachine vfs).Enabled operation s) :=
  inferInstanceAs (Decidable operation.Matches)

/-- A process that is alone and has opened nothing. -/
def alone (content : List UInt8) : System OneFile :=
  aloneWith [] ⟨content, ⟨true, fun _ => 0, []⟩⟩

theorem aloneWith_process (files : List Filedesc) (fs : OneFile) :
    (aloneWith files fs).Process := by
  refine ⟨⟨_, rfl⟩, ?_, fun f outside => List.getElem?_eq_none outside⟩
  intro ft isTable
  cases isTable
  refine ⟨⟨le_rfl, fun _ => rfl⟩, rfl, ?_⟩
  intro h member
  rcases List.mem_map.mp member with ⟨f, inside, rfl⟩
  have inside := mem_range.mp inside
  exact ⟨f, files.get ⟨f, inside⟩, rfl, List.getElem?_eq_getElem inside⟩

theorem alone_new (content : List UInt8) : (alone content).New := by
  refine ⟨aloneWith_process [] _, ?_, rfl⟩
  intro ft isTable
  cases isTable
  rfl

/-- Nobody else does anything. -/
def undisturbed (content : List UInt8) : Interim OneFile where
  ts := (alone content).ts
  cur := 0
  thread :=
    { tSleepaddr := none
      tVmspace := some processByte
      tCwd := none
      ft := none
      priority := priorityNormal
      id := 5
      tPcb := .threadstart }
  isCur := rfl
  files _ := none
  nextFile := 0
  fs := (alone content).fs
  kernel _ := 42
  reach _ := true
  tlb := []
  frames _ := none
  stackErr := 0
  stackFile := 0

theorem access_mode_enforced_read_write :
    ∃ s file, (matchingMachine OneFile.vfs).Reachable System.New s ∧ s.opened 0 = some file ∧
      file.oflag = 2 ∧ Enforced s 0 file.oflag := by
  have computed : (((matchingMachine OneFile.vfs).execute (alone [1])
      [(.open 0x4ffe 2 2, undisturbed [1]), (.write 0 0x4000 1, undisturbed [1])]).any
        fun s => (s.opened 0).any fun file => file.oflag == 2) = true := by
    decide +kernel
  rcases (any_eq_true _ _).mp computed with ⟨s, executed, facts⟩
  rcases (any_eq_true _ _).mp facts with ⟨file, isOpen, flags⟩
  have reachable : (matchingMachine OneFile.vfs).Reachable System.New s :=
    (Machine.Reachable.start (alone_new [1])).execute executed
  exact ⟨s, file, reachable, isOpen, by simpa using flags,
    (access_mode_enforced_iff OneFile.vfs).2 s reachable 0 file isOpen⟩

/-- A file is opened with the flags `O_RDONLY` and the mode 2, and written to. -/
theorem write_after_open_read_only :
    ∃ r s r' s', sysOpen OneFile.vfs 0x4ffe 0 2 (alone [1]) = .ok (.ok r, s) ∧
      sysWrite OneFile.vfs 0 0x4000 1 0 s = .ok (.ok r', s') ∧
      r.outcome = some 0 ∧ s.fs.content = [1] ∧ r'.outcome = some 1 ∧ s'.fs.content = [7] := by
  have computed : (((sysOpen OneFile.vfs 0x4ffe 0 2).returned (alone [1])).any fun opened =>
      ((sysWrite OneFile.vfs 0 0x4000 1 0).returned opened.2).any fun written =>
        opened.1.outcome == some 0 && opened.2.fs.content == [1] &&
          written.1.outcome == some 1 && written.2.fs.content == [7]) = true := by
    decide +kernel
  rcases (any_eq_true _ _).mp computed with ⟨⟨r, s⟩, opened, rest⟩
  rcases (any_eq_true _ _).mp rest with ⟨⟨r', s'⟩, written, facts⟩
  simp only [Bool.and_eq_true, beq_iff_eq] at facts
  exact ⟨r, s, r', s', Prog.returned_eq_some.mp opened, Prog.returned_eq_some.mp written,
    facts.1.1.1, facts.1.1.2, facts.1.2, facts.2⟩

end Os161
