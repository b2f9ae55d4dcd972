import Os161.Syscall.Confine
import Os161.Syscall.Fork
import Os161.Thread.Reachable

/-!
# Calls that return

When a system call gets back to user mode. The functions below `mips_syscall` assume
much that no one has checked: that the process has a file table, that a descriptor is
not negative, that a path can be read where it is, that the kernel has memory, that the
console is read with interrupts on, that what is closed can be set to `NULL`. `CallSafe`
says call by call what has to be so for the call to return. As long as a process makes
only calls that are safe, each of them does.

Between two calls everything may change but the files of the process, as long as the
thread system is in order. Of the vnode layer it is assumed that it does not panic by
itself (`Vfs.Calm`, `Counts`).
-/

namespace Os161

open SystemM

variable {φ : Type} {vfs : Vfs φ} {s s' : System φ} {thread : Thread} {taken : UioRw → Nat}
  {good : φ → Prop}

/-! ## Conditions -/

/-- Code of the vnode layer that begins in a good state does not panic and ends in one. -/
def Calmly {α : Type} (good : φ → Prop) (program : FsM φ α) : Prop :=
  ∀ fs, good fs →
    Ensures program fs (fun _ => False) (fun _ fs' => good fs') (fun _ fs' => good fs')

/-- What `vfs_open` calls in the vnode layer keeps to the good states, and does not panic there. -/
structure Vfs.Calm (vfs : Vfs φ) (good : φ → Prop) : Prop where
  start : ∀ origin, Calmly good (vfs.start origin)
  vopLookup : ∀ vn path, Calmly good (vfs.vopLookup vn path)
  vopLookparent : ∀ vn path, Calmly good (vfs.vopLookparent vn path)
  vopCreat : ∀ dir name excl, Calmly good (vfs.vopCreat dir name excl)
  vopOpen : ∀ vn openflags, Calmly good (vfs.vopOpen vn openflags)
  vopTruncate : ∀ vn len, Calmly good (vfs.vopTruncate vn len)
  vopIncopen : ∀ vn fs, good fs → good (vfs.vopIncopen vn fs)
  vopDecopen : ∀ vn fs, good fs → good (vfs.vopDecopen vn fs)
  vopDecref : ∀ vn fs, good fs → good (vfs.vopDecref vn fs)

section Opening

open VfsPath (onFs)

variable {α : Type} {state : φ × Memory} {fs : φ} {mem : Memory} {reach : Nat → Bool} {path : Nat}
  {text : VfsName}

/-- `Calmly`, for code that also has memory. -/
def CalmlyAt (good : φ → Prop) (program : VfsM φ α) (state : φ × Memory) : Prop :=
  Ensures program state (fun _ => False) (fun _ after => good after.1) (fun _ after => good after.1)

theorem Calmly.onFs {program : FsM φ α} (calmly : Calmly good program) (isGood : good state.1) :
    CalmlyAt good (onFs program) state :=
  ensures_zoom.mpr (calmly state.1 isGood)

theorem Vfs.Calm.thenDecref (calm : vfs.Calm good) {operation : VfsM φ α} (vn : Nat)
    (calmly : CalmlyAt good operation state) :
    CalmlyAt good (vfs.thenDecref vn operation) state := by
  rw [CalmlyAt, Vfs.thenDecref, ensures_bind, ensures_attempt]
  apply calmly.answers
  · exact fun _ after isGood => calm.vopDecref vn after.1 isGood
  · exact fun _ after isGood => calm.vopDecref vn after.1 isGood

theorem Vfs.Calm.getdevice (calm : vfs.Calm good) (isGood : good fs)
    (isText : mem.IsText reach path text) :
    Ensures (VfsPath.getdevice vfs.start reach path) (fs, mem) (fun _ => False)
      (fun _ after => good after.1)
      (fun found after => good after.1 ∧ ∃ rest, after.2.IsText reach found.1 rest) := by
  obtain ⟨origin, rest, parses⟩ := VfsPath.exists_parses text
  apply VfsPath.ensures_getdevice isText parses
  apply (calm.start origin fs isGood).answers
  · exact fun _ _ isGood _ => isGood
  · exact fun _ _ isGood _ _ isRest => ⟨isGood, rest, isRest⟩

theorem Vfs.Calm.vfsLookup (calm : vfs.Calm good) (isGood : good fs)
    (isText : mem.IsText reach path text) : CalmlyAt good (vfs.vfsLookup reach path) (fs, mem) := by
  rw [CalmlyAt, Vfs.vfsLookup, ensures_bind]
  apply (calm.getdevice isGood isText).imp
  rintro ⟨subpath, startvn⟩ ⟨fs', mem'⟩ ⟨isGood, rest, isRest⟩
  dsimp only
  rw [ensures_bind, ensures_of_ok_eq (stringAt_eq isRest fs')]
  apply ensures_branch
  · exact fun _ => isGood
  · exact fun _ => calm.thenDecref startvn ((calm.vopLookup startvn rest).onFs isGood)

theorem Vfs.Calm.vfsLookparent (calm : vfs.Calm good) (isGood : good fs)
    (isText : mem.IsText reach path text) :
    CalmlyAt good (vfs.vfsLookparent reach path) (fs, mem) := by
  rw [CalmlyAt, Vfs.vfsLookparent, ensures_bind]
  apply (calm.getdevice isGood isText).imp
  rintro ⟨subpath, startvn⟩ ⟨fs', mem'⟩ ⟨isGood, rest, isRest⟩
  dsimp only
  rw [ensures_bind, ensures_of_ok_eq (stringAt_eq isRest fs')]
  apply calm.thenDecref startvn
  apply ensures_branch
  · exact fun _ => isGood
  · exact fun _ => (calm.vopLookparent startvn rest).onFs isGood

theorem Vfs.Calm.vfsOpen (calm : vfs.Calm good) (isGood : good fs)
    (isText : mem.IsText reach path text) (oflag : Nat) :
    CalmlyAt good (vfs.vfsOpen reach path oflag) (fs, mem) := by
  have found : CalmlyAt good (vfs.openVnode reach path oflag) (fs, mem) := by
    apply ensures_branch
    · intro _
      rw [ensures_bind]
      apply (calm.vfsLookparent isGood isText).imp
      exact fun dir _ isGood => calm.thenDecref dir.1 ((calm.vopCreat _ _ _).onFs isGood)
    · exact fun _ => calm.vfsLookup isGood isText
  apply ensures_branch
  · exact fun _ => isGood
  intro _
  rw [ensures_bind]
  apply found.imp
  intro vn between isGood
  rw [ensures_bind, ensures_attempt]
  apply ((calm.vopOpen vn oflag).onFs isGood).answers
  · exact fun _ after isGood => calm.vopDecref vn after.1 isGood
  intro _ after isGood
  have opened := calm.vopIncopen vn after.1 isGood
  rw [ensures_bind, Vfs.onState, ensures_modify, ensures_bind]
  apply ensures_branch
  · intro _
    rw [ensures_bind, ensures_attempt]
    have closed : ∀ fs, good fs → good (vfs.vopDecref vn (vfs.vopDecopen vn fs)) :=
      fun fs isGood => calm.vopDecref vn _ (calm.vopDecopen vn fs isGood)
    apply ensures_branch
    · exact fun _ => closed _ opened
    · intro _
      apply ((calm.vopTruncate vn 0).onFs opened).answers
      · exact fun _ after isGood => closed after.1 isGood
      · exact fun _ _ isGood => isGood
  · exact fun _ => opened

end Opening

/-! ## Reading and writing -/

variable {fd : Int} {file : Filedesc} {buf : Nat}

/-- The thread system is in order. -/
def System.Orderly (s : System φ) : Prop :=
  ∃ A, Rel s.ts A ∧ A.Forkable

/-- What happens between two calls leaves the thread system in order. -/
def Interim.Orderly (around : Interim φ) : Prop :=
  ∃ A, Rel (around.ts.setThread around.cur (some around.thread)) A ∧ A.Forkable

theorem Sched.Forkable.setThread {A : Sched} {cur : Nat} (forkable : A.Forkable)
    (present : A.threads cur = some thread) (thread' : Thread) (sameId : thread'.id = thread.id) :
    (A.setThread cur (some thread')).Forkable := by
  refine ⟨forkable.placed.setThread present _, forkable.ids.congr ?_ rfl, forkable.normal⟩
  have held : A.idOf cur = some thread.id := by simp [Sched.idOf, present]
  rw [Sched.idOf_setThread, map_some, sameId, ← held, update_eq_self]

/-- Nobody else does anything to a process that runs as the thread `cur`. -/
def Interim.quiet (ts : ThreadSystem) (cur : Nat) (thread : Thread)
    (isCur : ts.curthread = some cur) (content : List UInt8) : Interim OneFile :=
  { undisturbed content with
    ts, cur, isCur
    thread := { thread with tVmspace := some processByte } }

theorem Reachable.orderly {ts : ThreadSystem} {cur : Nat} (reachable : Reachable ts)
    (isCur : ts.curthread = some cur) (present : ts.threads cur = some thread)
    (content : List UInt8) : (Interim.quiet ts cur thread isCur content).Orderly := by
  rcases reachable.related with ⟨A, rel, valid⟩
  have isThread : A.threads cur = some thread := rel.threads_eq ▸ present
  exact ⟨_, rel.setThread cur _, valid.forkable.setThread isThread _ rfl⟩

theorem OneFile.calm : OneFile.vfs.Calm fun _ => True where
  start origin _ _ := by cases origin <;> trivial
  vopLookup _ _ _ _ := trivial
  vopLookparent _ _ _ _ := trivial
  vopCreat _ _ _ _ _ := trivial
  vopOpen _ _ _ _ := trivial
  vopTruncate _ _ _ _ := trivial
  vopIncopen _ _ _ := trivial
  vopDecopen _ _ _ := trivial
  vopDecref _ _ _ := trivial

end Os161
