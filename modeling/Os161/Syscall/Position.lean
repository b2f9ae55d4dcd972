import Os161.Syscall.Access

/-!
# The position of a descriptor

`sys_read` and `sys_write` give the vnode a `uio` with a copy of the descriptor's
offset. The vnode moves the copy on, and the descriptor keeps its offset. So the
position is where the bytes that were reported should have brought it exactly if
there were none: nothing was asked for, or a read began at the end of the file.

The vnode is a regular file that does what `vnode.h` says. How much it moves at once
is left to it, but it makes progress.
-/

namespace Os161

variable {φ : Type} {vfs : Vfs φ} {s : System φ} {thread : Thread} {fd : Int} {file : Filedesc}

/-- The vnode is a regular file, with its content and size in the state of the file systems. -/
structure RegularFile (vfs : Vfs φ) (vn : Nat) (content : φ → Bytes) (size : φ → Nat) : Prop where
  read : ∀ (fs : φ) (reach : Nat → Bool) (uio : Uio), uio.uioRw = .read →
    uio.iovLen = uio.uioResid → uio.Fits uio.uioResid →
    Prog.Ensures ((vfs.vopRead splHigh vn fs).run reach) uio (fun _ => True) (fun _ _ => True)
      (fun value uio' => value.1 = .ok () → content value.2 = content fs ∧
        ∃ k ≤ uio.uioResid, (k = 0 ↔ uio.uioResid = 0 ∨ size fs ≤ uint32 uio.uioOffset) ∧
          uio' = (uio.fill k fun i => content fs (uint32 uio.uioOffset + i)).advance k)
  write : ∀ (fs : φ) (reach : Nat → Bool) (uio : Uio), uio.uioRw = .write →
    uio.iovLen = uio.uioResid → uio.Fits uio.uioResid →
    Prog.Ensures ((vfs.vopWrite splHigh vn fs).run reach) uio (fun _ => True) (fun _ _ => True)
      (fun value uio' => value.1 = .ok () →
        ∃ k ≤ uio.uioResid, (k = 0 ↔ uio.uioResid = 0) ∧
          content value.2 = (content fs).overlay (uint32 uio.uioOffset) k uio.data ∧
          uio' = uio.advance k)

def System.userByte (s : System φ) (addr : Nat) : Option UInt8 :=
  (s.current.bind Thread.tVmspace).bind fun space => space addr

theorem System.userByte_withMemory (running : s.current = some thread)
    (hasSpace : thread.tVmspace.isSome) (mem : Memory) (addr : Nat) :
    (s.withMemory thread mem).userByte addr = mem.user addr := by
  rcases isSome_iff_exists.mp hasSpace with ⟨space, isSpace⟩
  rw [userByte, System.current_withMemory running, isSpace]
  rfl

/-! ## One call -/

theorem ensures_accessFile_opened (process : s.Process) (isOpen : s.opened fd = some file)
    {allowed : Nat → Bool} {transfer : Filedesc → SystemM φ Return} {buf : Nat} {ret : Int}
    {panics : Panic → Prop} {fails : Errno → System φ → Prop} {returns : Return → System φ → Prop}
    (refused : ∀ code, returns { code, ret, outcome := none } s)
    (transferred : Ensures (transfer file) s panics fails returns) :
    Ensures (accessFile allowed transfer fd buf ret) s panics fails returns := by
  by_cases buffer : buf = 0
  · rw [accessFile, if_pos buffer]
    exact refused _
  have equation := accessFile_opened process isOpen buffer allowed transfer ret
  split at equation
  · rwa [Prog.ensures_congr equation]
  · rw [ensures_of_ok_eq equation]
    exact refused _

theorem uint32_int32 (value : Int) : uint32 (int32 value) = uint32 value := by
  have same := uint32_add_int32 0 value
  rwa [Int.zero_add, Int.zero_add] at same

variable {k nbytes : Nat}

theorem int32_natCast_eq_zero (small : k < 2 ^ 32) : int32 k = 0 ↔ k = 0 := by
  constructor
  · intro zero
    have same := uint32_int32 k
    rw [zero, uint32_natCast, Nat.mod_eq_of_lt small] at same
    exact same.symm
  · intro zero
    rw [zero]
    rfl

theorem uint32_moved (small : k < 2 ^ 32) : uint32 (int32 k) = k := by
  rw [uint32_int32, uint32_natCast, Nat.mod_eq_of_lt small]

variable {result : Except Errno Unit} {uio : Uio} {moved : Int} {vn : Nat} {content : φ → Bytes}
  {size : φ → Nat}

theorem transferResult_moved (some : k ≤ nbytes) (small : nbytes < 2 ^ 32)
    (resid : uio.uioResid = nbytes - k)
    (succeeded : (transferResult nbytes (result, uio)).outcome = Option.some moved) :
    moved = int32 k := by
  cases result with
  | error failure => cases succeeded
  | ok _ =>
      have count : uint32 ((nbytes : Int) - uio.uioResid) = k := by
        rw [resid, uint32_eq (by omega) (by omega)]
        omega
      simp only [transferResult, count, Option.some.injEq] at succeeded
      exact succeeded.symm

theorem transferResult_ok (succeeded : (transferResult nbytes (result, uio)).outcome = some moved) :
    result = .ok () := by
  cases result with
  | error failure => cases succeeded
  | ok _ => rfl

theorem fileUio_fits {segflg : UioSeg} {rw : UioRw} {space : Option Nat} {mem : Memory}
    (isSpace : space = if segflg = .sysspace then none else mem.space) (file : Filedesc)
    (buf : Nat) (small : nbytes < 2 ^ 32) :
    (fileUio file buf nbytes segflg rw space mem).Fits nbytes := by
  refine ⟨?_, ?_, ?_, isSpace, ?_, ?_⟩ <;> simp only [fileUio]
  · exact le_rfl
  · exact le_rfl
  · exact small
  · exact le_int32 _
  · exact int32_lt _

/-- A read that succeeds has brought `k` bytes from the offset to the buffer. -/
theorem sysRead_regular (regular : RegularFile vfs vn content size) (process : s.Process)
    (isOpen : s.opened fd = some file) (isFile : file.vn = vn) (buf : Nat) (nbytes : BitVec 32)
    (ret : Int) :
    Ensures (sysRead vfs fd buf nbytes.toNat ret) s (fun _ => True) (fun _ _ => False)
      (fun r s' => s.SameFiles s' ∧ ∀ moved, r.outcome = some moved →
        content s'.fs = content s.fs ∧ ∃ k : Nat, k < 2 ^ 32 ∧ moved = int32 k ∧
          (k = 0 ↔ nbytes.toNat = 0 ∨ size s.fs ≤ uint32 file.offset) ∧
          ((s.current.bind Thread.tVmspace).isSome → ∀ i < k, s'.userByte (buf + i) =
            some (content s.fs (uint32 file.offset + i)))) := by
  rcases process.running with ⟨thread, running⟩
  have small := nbytes.isLt
  apply ensures_accessFile_opened process isOpen
  · exact fun _ => ⟨process.sameFiles_refl, fun _ impossible => by cases impossible⟩
  rw [ensures_readFile running, isFile]
  have fits : (s.readUio thread file buf nbytes.toNat).Fits nbytes.toNat :=
    fileUio_fits rfl file buf small
  apply ((regular.read s.fs _ _ rfl rfl fits).and (Transfer.run_never_fails _ _ _)).mono
  · exact fun _ _ => trivial
  · exact fun _ _ failed => failed.2
  rintro ⟨result, fs⟩ uio' ⟨law, _⟩
  refine ⟨System.sameFiles_withMemory running _ _, fun moved succeeded => ?_⟩
  rcases law (transferResult_ok succeeded) with ⟨sameContent, k, some, none, rfl⟩
  have offset : uint32 (s.readUio thread file buf nbytes.toNat).uioOffset = uint32 file.offset := by
    simp only [System.readUio, fileUio, uint32_int32]
  rw [offset] at none ⊢
  have some : k ≤ nbytes.toNat := some
  refine ⟨sameContent, k, by omega, transferResult_moved some small rfl succeeded, none, ?_⟩
  intro hasSpace i inside
  rw [running, bind_some] at hasSpace
  have stored := System.userByte_withMemory (s := { s with fs }) (by exact running) hasSpace
    (((s.readUio thread file buf nbytes.toNat).fill k
      fun i => content s.fs (uint32 file.offset + i)).advance k).mem (buf + i)
  refine stored.trans ?_
  simp only [Uio.advance, Uio.fill, Uio.setMem, System.readUio, fileUio, Memory.store,
    Memory.storeUser_user]
  rw [if_pos (by omega), Nat.add_sub_cancel_left]

/-- The bytes that a `write` takes from a buffer. -/
def System.buffer (s : System φ) (buf : Nat) : Bytes :=
  fun i => s.current.elim 0 fun thread => (s.memoryOf thread).direct (buf + i)

/-- A write that succeeds has put `k` bytes of the buffer at the offset. -/
theorem sysWrite_regular (regular : RegularFile vfs vn content size) (process : s.Process)
    (isOpen : s.opened fd = some file) (isFile : file.vn = vn) (buf : Nat) (nbytes : BitVec 32)
    (ret : Int) :
    Ensures (sysWrite vfs fd buf nbytes.toNat ret) s (fun _ => True) (fun _ _ => False)
      (fun r s' => s.SameFiles s' ∧ ∀ moved, r.outcome = some moved →
        ∃ k : Nat, k < 2 ^ 32 ∧ moved = int32 k ∧ (k = 0 ↔ nbytes.toNat = 0) ∧
          content s'.fs = (content s.fs).overlay (uint32 file.offset) k (s.buffer buf)) := by
  rcases process.running with ⟨thread, running⟩
  have small := nbytes.isLt
  apply ensures_accessFile_opened process isOpen
  · exact fun _ => ⟨process.sameFiles_refl, fun _ impossible => by cases impossible⟩
  rw [ensures_writeFile running, isFile]
  have fits : (s.writeUio thread file buf nbytes.toNat).Fits nbytes.toNat :=
    fileUio_fits rfl file buf small
  apply ((regular.write s.fs _ _ rfl rfl fits).and (Transfer.run_never_fails _ _ _)).mono
  · exact fun _ _ => trivial
  · exact fun _ _ failed => failed.2
  rintro ⟨result, fs⟩ uio' ⟨law, _⟩
  refine ⟨⟨⟨thread, running⟩, rfl, rfl, rfl, rfl⟩, fun moved succeeded => ?_⟩
  rcases law (transferResult_ok succeeded) with ⟨k, some, none, written, rfl⟩
  have offset : uint32 (s.writeUio thread file buf nbytes.toNat).uioOffset =
      uint32 file.offset := by
    simp only [System.writeUio, fileUio, uint32_int32]
  have bytes : (s.writeUio thread file buf nbytes.toNat).data = s.buffer buf := by
    funext i
    rw [System.buffer, running]
    rfl
  rw [offset, bytes] at written
  have some : k ≤ nbytes.toNat := some
  exact ⟨k, by omega, transferResult_moved some small rfl succeeded, none, written⟩

/-! ## One call after another -/

/-- The offset has moved on by the bytes that were reported. -/
def Advanced (s s' : System φ) (fd moved : Int) : Prop :=
  ∃ file file', s.opened fd = some file ∧ s'.opened fd = some file' ∧
    (file'.offset : Int) = file.offset + moved

theorem advanced_iff {s' : System φ} (same : s.SameFiles s') (isOpen : s.opened fd = some file)
    (moved : Int) : Advanced s s' fd moved ↔ moved = 0 := by
  constructor
  · rintro ⟨before, after, isOpen', isOpen'', advanced⟩
    rw [same.opened, isOpen'] at isOpen''
    cases isOpen''
    omega
  · intro nothing
    exact ⟨file, file, isOpen, (same.opened fd).trans isOpen, by omega⟩

/-- Calls on a descriptor, and what others do in between. -/
inductive PositionOp (φ : Type) where
  | elapse (around : Interim φ)
  | read (buf nbytes : BitVec 32)
  | write (buf nbytes : BitVec 32)
  | lseek (pos whence : Int)

namespace PositionOp

/-- Each call moves the cursor of the process as it reports. -/
def exec (vfs : Vfs φ) (fd : Int) : PositionOp φ → Prog Panic (System φ × Int) Errno Unit
  | .elapse around => modify fun state => (state.1.amid around, state.2)
  | .read buf nbytes => do
      let r ← zoom Prod.fst (fun s state => (s, state.2))
        (sysRead vfs fd buf.toNat nbytes.toNat 0)
      modify fun state => (state.1, state.2 + r.outcome.getD 0)
  | .write buf nbytes => do
      let r ← zoom Prod.fst (fun s state => (s, state.2))
        (sysWrite vfs fd buf.toNat nbytes.toNat 0)
      modify fun state => (state.1, state.2 + r.outcome.getD 0)
  | .lseek pos whence => do
      let r ← zoom Prod.fst (fun s state => (s, state.2)) (sysLseek vfs fd pos whence 0)
      modify fun state => (state.1, r.outcome.elim state.2 fun target => uint32 target)

/-- Nothing is asked for, or a read begins at the end of the file. -/
def Idle (size : φ → Nat) (fd : Int) : PositionOp φ → System φ × Int → Prop
  | .read _ nbytes, state => nbytes.toNat = 0 ∨
      ∀ file, state.1.opened fd = some file → size state.1.fs ≤ uint32 file.offset
  | .write _ nbytes, _ => nbytes.toNat = 0
  | .elapse _, _ | .lseek _ _, _ => True

end PositionOp

/-- A process whose calls on the descriptor move no bytes. -/
def idleMachine (vfs : Vfs φ) (size : φ → Nat) (fd : Int) :
    Machine Panic (System φ × Int) Errno (PositionOp φ) Unit where
  exec := PositionOp.exec vfs fd
  Enabled := PositionOp.Idle size fd
  arm state _ := state

/-- The descriptor is open on the vnode, at the position of the cursor. -/
def AtCursor (vn : Nat) (fd : Int) (state : System φ × Int) : Prop :=
  state.1.Process ∧ ∃ file, state.1.opened fd = some file ∧ file.vn = vn ∧
    (file.offset : Int) = state.2

section Runs

variable {vn : Nat} {content : φ → Bytes} {size : φ → Nat} {state : System φ × Int}

theorem AtCursor.sameFiles {s' : System φ} (at_ : AtCursor vn fd state)
    (same : state.1.SameFiles s') : AtCursor vn fd (s', state.2) := by
  rcases at_ with ⟨process, file, isOpen, isFile, position⟩
  exact ⟨same.process process, file, (same.opened fd).trans isOpen, isFile, position⟩

theorem AtCursor.exec (regular : RegularFile vfs vn content size) (at_ : AtCursor vn fd state)
    {operation : PositionOp φ} (idle : operation.Idle size fd state) :
    Ensures (operation.exec vfs fd) state (fun _ => True) (fun _ => AtCursor vn fd)
      (fun _ => AtCursor vn fd) := by
  rcases state with ⟨s, position⟩
  have started := at_
  rcases at_ with ⟨process, file, isOpen, isFile, isPosition⟩
  have still {r : Return} {s' : System φ} (same : s.SameFiles s')
      (nothing : ∀ moved, r.outcome = some moved → moved = 0) :
      AtCursor vn fd (s', position + r.outcome.getD 0) := by
    have zero : r.outcome.getD 0 = 0 := by cases isMoved : r.outcome <;> simp_all
    rw [zero, Int.add_zero]
    exact started.sameFiles same
  cases operation with
  | elapse around =>
      exact ⟨process.amid around, file, (s.opened_amid around fd).trans isOpen, isFile, isPosition⟩
  | read buf nbytes =>
      rw [PositionOp.exec, ensures_bind, ensures_zoom]
      apply (sysRead_regular regular process isOpen isFile buf.toNat nbytes 0).returning
      rintro r s' ⟨same, moves⟩
      refine still same fun moved isMoved => ?_
      rcases moves moved isMoved with ⟨_, k, small, count, zero, _⟩
      have reached : k = 0 := zero.mpr (idle.imp_right fun atEnd => atEnd file isOpen)
      rw [count]
      exact (int32_natCast_eq_zero small).mpr reached
  | write buf nbytes =>
      rw [PositionOp.exec, ensures_bind, ensures_zoom]
      apply (sysWrite_regular regular process isOpen isFile buf.toNat nbytes 0).returning
      rintro r s' ⟨same, moves⟩
      refine still same fun moved isMoved => ?_
      rcases moves moved isMoved with ⟨k, small, count, zero, _⟩
      rw [count]
      exact (int32_natCast_eq_zero small).mpr (zero.mpr idle)
  | lseek pos whence =>
      rw [PositionOp.exec, ensures_bind, ensures_zoom]
      apply (sysLseek_spec process fd pos whence 0).returning
      rintro r s' ⟨_, process', _, _, refused, sought⟩
      rw [ensures_modify]
      cases isTarget : r.outcome with
      | none =>
          rw [refused isTarget]
          exact started
      | some target =>
          rcases sought target isTarget with ⟨before, isOpen', isOpen''⟩
          cases isOpen.symm.trans isOpen'
          exact ⟨process', _, isOpen'', isFile, rfl⟩

/-- A call of `read` that succeeds. -/
def Reads (vfs : Vfs φ) (fd : Int) (s : System φ) (buf : Nat) (nbytes : BitVec 32) (moved : Int)
    (s' : System φ) : Prop :=
  ∃ ret r, sysRead vfs fd buf nbytes.toNat ret s = .ok (.ok r, s') ∧ r.outcome = some moved

/-- A call of `write` that succeeds. -/
def Writes (vfs : Vfs φ) (fd : Int) (s : System φ) (buf : Nat) (nbytes : BitVec 32) (moved : Int)
    (s' : System φ) : Prop :=
  ∃ ret r, sysWrite vfs fd buf nbytes.toNat ret s = .ok (.ok r, s') ∧ r.outcome = some moved

/-- The offset moves on with a read or a write exactly if nothing is moved. What is read or
written after that is at the right place, and in a run without any such movement the offset is
always where the calls say. -/
theorem position_advances_iff (regular : RegularFile vfs vn content size) (s : System φ) (fd : Int)
    (file : Filedesc) (process : s.Process) (isOpen : s.opened fd = some file)
    (isFile : file.vn = vn) :
    (∀ buf nbytes moved s', Reads vfs fd s buf nbytes moved s' →
      (Advanced s s' fd moved ↔ nbytes.toNat = 0 ∨ size s.fs ≤ uint32 file.offset) ∧
      (Advanced s s' fd moved → ∀ buf' nbytes' moved' s'',
        Reads vfs fd s' buf' nbytes' moved' s'' → (s'.current.bind Thread.tVmspace).isSome →
        ∀ i < uint32 moved', s''.userByte (buf' + i) =
          some (content s.fs (uint32 file.offset + uint32 moved + i)))) ∧
    (∀ buf nbytes moved s', Writes vfs fd s buf nbytes moved s' →
      (Advanced s s' fd moved ↔ nbytes.toNat = 0) ∧
      (Advanced s s' fd moved → ∀ buf' nbytes' moved' s'',
        Writes vfs fd s' buf' nbytes' moved' s'' →
        content s''.fs = (content s.fs).overlay (uint32 file.offset)
          (uint32 moved + uint32 moved')
          ((s.buffer buf).append (uint32 moved) (s'.buffer buf')))) ∧
    ∀ state, (idleMachine vfs size fd).Reachable (fun start => start = (s, ↑file.offset)) state →
      ∃ file', state.1.opened fd = some file' ∧ (file'.offset : Int) = state.2 := by
  refine ⟨?_, ?_, ?_⟩
  · rintro buf nbytes moved s' ⟨ret, r, returned, succeeded⟩
    rcases (ensures_of_ok_eq returned).mp
      (sysRead_regular regular process isOpen isFile buf nbytes ret) with ⟨same, moves⟩
    rcases moves moved succeeded with ⟨sameContent, k, small, count, zero, _⟩
    have advanced := advanced_iff same isOpen moved
    refine ⟨by rw [advanced, count, int32_natCast_eq_zero small, zero], ?_⟩
    rintro isAdvanced buf' nbytes' moved' s'' ⟨ret', r', returned', succeeded'⟩ hasSpace
    rcases (ensures_of_ok_eq returned').mp (sysRead_regular regular (same.process process)
      ((same.opened fd).trans isOpen) isFile buf' nbytes' ret') with ⟨_, moves'⟩
    rcases moves' moved' succeeded' with ⟨_, k', small', count', _, delivered⟩
    rw [advanced.mp isAdvanced, count', uint32_moved small', ← sameContent]
    exact delivered hasSpace
  · rintro buf nbytes moved s' ⟨ret, r, returned, succeeded⟩
    rcases (ensures_of_ok_eq returned).mp
      (sysWrite_regular regular process isOpen isFile buf nbytes ret) with ⟨same, moves⟩
    rcases moves moved succeeded with ⟨k, small, count, zero, written⟩
    have advanced := advanced_iff same isOpen moved
    refine ⟨by rw [advanced, count, int32_natCast_eq_zero small, zero], ?_⟩
    rintro isAdvanced buf' nbytes' moved' s'' ⟨ret', r', returned', succeeded'⟩
    rcases (ensures_of_ok_eq returned').mp (sysWrite_regular regular (same.process process)
      ((same.opened fd).trans isOpen) isFile buf' nbytes' ret') with ⟨_, moves'⟩
    rcases moves' moved' succeeded' with ⟨k', small', count', _, written'⟩
    have nothing := (int32_natCast_eq_zero small).mp (count ▸ advanced.mp isAdvanced)
    have moved_zero : uint32 moved = 0 := by
      rw [count, nothing]
      rfl
    have moved_rest : uint32 moved' = k' := by rw [count', uint32_moved small']
    rw [written', written, nothing, Bytes.overlay_zero, moved_zero, moved_rest,
      ← Bytes.overlay_overlay, Bytes.overlay_zero, Nat.add_zero]
  · intro state reachable
    have atCursor : AtCursor vn fd state := by
      apply reachable.invariant
      · rintro start rfl
        exact ⟨process, file, isOpen, isFile, rfl⟩
      · intro state operation _ _ idle atCursor
        exact atCursor.exec regular idle
    rcases atCursor with ⟨_, file', isOpen', _, position⟩
    exact ⟨file', isOpen', position⟩

end Runs

/-! ## The file of a process -/

namespace OneFile

theorem splice_getD (content : List UInt8) (offset n : Nat) (bytes : Bytes) :
    (fun i => (splice content offset n bytes).getD i 0) =
      Bytes.overlay (fun i => content.getD i 0) offset n bytes := by
  funext i
  rw [splice, List.getD_eq_getElem?_getD, List.getElem?_map]
  by_cases inside : i < max content.length (offset + n)
  · rw [List.getElem?_range inside]
    rfl
  · rw [List.getElem?_eq_none (by simpa using inside), Bytes.overlay, if_neg (by omega),
      List.getD_eq_getElem?_getD, List.getElem?_eq_none (by omega)]
    rfl

theorem regular : RegularFile OneFile.vfs 1 (fun fs i => fs.content.getD i 0)
    (fun fs => fs.content.length) := by
  constructor
  · intro fs reach uio reading _ fits
    change Ensures ((OneFile.read fs).run reach) uio _ _ _
    rw [OneFile.read, Transfer.run, ensures_bind, ensures_get, Transfer.run,
      ensures_bind, ensures_get]
    refine ensures_assert_then (fun _ => trivial) fun _ => ?_
    rw [ensures_bind, ensures_attempt]
    apply (Uio.uiomove_spec (fits.mono (Nat.min_le_left _ _)) _).mono
    · exact fun _ _ => trivial
    · exact fun failure uio' _ impossible => by cases impossible
    · rintro bytes uio' ⟨_, between, moved, rfl⟩ _
      rcases moved with ⟨writing, _⟩ | ⟨_, _, rfl⟩
      · cases reading.symm.trans writing
      · exact ⟨rfl, _, Nat.min_le_left _ _, by omega, rfl⟩
  · intro fs reach uio writing _ fits
    change Ensures ((OneFile.write fs).run reach) uio _ _ _
    rw [OneFile.write, Transfer.run, ensures_bind, ensures_get, Transfer.run,
      ensures_bind, ensures_get]
    refine ensures_assert_then (fun _ => trivial) fun _ => ?_
    rw [ensures_bind, ensures_attempt]
    apply (Uio.uiomove_spec fits _).mono
    · exact fun _ _ => trivial
    · exact fun failure uio' _ impossible => by cases impossible
    · rintro bytes uio' ⟨_, between, moved, rfl⟩ _
      rcases moved with ⟨_, rfl, rfl⟩ | ⟨reading, _⟩
      · refine ⟨_, le_rfl, Iff.rfl, ?_, rfl⟩
        exact (splice_getD _ _ _ _).trans (Bytes.overlay_source _ _ _ _ _)
      · cases reading.symm.trans writing

end OneFile

def positioned (offset : Nat) (content : List UInt8) : System OneFile :=
  aloneWith [⟨1, offset, 2, 2⟩] ⟨content, ⟨true, fun _ => 0, []⟩⟩

/-- A read at the end of a file. -/
theorem position_advances_at_end : ∃ s', Reads OneFile.vfs 0 (positioned 2 [1, 2]) 0x4000 1 0 s' ∧
    Advanced (positioned 2 [1, 2]) s' 0 0 := by
  have computed : (((sysRead OneFile.vfs 0 0x4000 1 0).returned (positioned 2 [1, 2])).any
      fun result => result.1.outcome == some 0) = true := by
    decide +kernel
  rcases (any_eq_true _ _).mp computed with ⟨⟨r, s'⟩, returned, outcome⟩
  have reads : Reads OneFile.vfs 0 (positioned 2 [1, 2]) 0x4000 1 0 s' :=
    ⟨0, r, Prog.returned_eq_some.mp returned, by simpa using outcome⟩
  refine ⟨s', reads, ?_⟩
  have iff := (position_advances_iff OneFile.regular (positioned 2 [1, 2]) 0 ⟨1, 2, 2, 2⟩
    (aloneWith_process _ _) rfl rfl).1 0x4000 1 0 s' reads
  exact iff.1.mpr (Or.inr (by decide))

/-- Two reads of one byte both deliver the first byte of the file. -/
theorem read_twice_delivers_first_byte :
    ∃ s s', Reads OneFile.vfs 0 (positioned 0 [1, 2]) 0x4000 1 1 s ∧
      Reads OneFile.vfs 0 s 0x4001 1 1 s' ∧
      (s'.opened 0).map Filedesc.offset = some 0 ∧ ¬Advanced (positioned 0 [1, 2]) s 0 1 ∧
      s'.userByte 0x4000 = some 1 ∧ s'.userByte 0x4001 = some 1 := by
  have computed : (((sysRead OneFile.vfs 0 0x4000 1 0).returned (positioned 0 [1, 2])).any
      fun first => ((sysRead OneFile.vfs 0 0x4001 1 0).returned first.2).any fun second =>
        first.1.outcome == some 1 && (first.2.opened 0).map Filedesc.offset == some 0 &&
          second.1.outcome == some 1 && (second.2.opened 0).map Filedesc.offset == some 0 &&
          second.2.userByte 0x4000 == some 1 && second.2.userByte 0x4001 == some 1) = true := by
    decide +kernel
  rcases (any_eq_true _ _).mp computed with ⟨⟨r, s⟩, first, rest⟩
  rcases (any_eq_true _ _).mp rest with ⟨⟨r', s'⟩, second, facts⟩
  simp only [Bool.and_eq_true, beq_iff_eq] at facts
  rcases facts with ⟨⟨⟨⟨⟨moved, offset⟩, moved'⟩, offset'⟩, byte⟩, byte'⟩
  refine ⟨s, s', ⟨0, r, Prog.returned_eq_some.mp first, moved⟩,
    ⟨0, r', Prog.returned_eq_some.mp second, moved'⟩, offset', ?_, byte, byte'⟩
  rintro ⟨file, file', isOpen, isOpen', advanced⟩
  cases isOpen
  rw [isOpen'] at offset
  have unmoved : file'.offset = 0 := Option.some.inj offset
  rw [unmoved] at advanced
  cases advanced

end Os161
