import Os161.Syscall.Syscall

/-!
# The files of a process

What `read`, `write`, `lseek` and `open` do to the file table and the descriptors of
the process that calls them. The table of a process is `NULL`, if it could not be
allocated, or it is dense: each of its indexes stands for a descriptor, because
nothing is ever taken out of a table.
-/

namespace Os161

open SystemM

/-- Each index stands for a descriptor, and the next one is behind them. -/
structure FileTable.Dense (files : Nat → Option Filedesc) (ft : FileTable) : Prop where
  wf : ft.handles.WellFormed
  next : ft.next = ft.filetableSize
  present : ∀ h ∈ ft.handles.toList, ∃ f file, h = some f ∧ files f = some file

/-- A process is running, and its files are as they should be. -/
structure System.Process {φ : Type} (s : System φ) : Prop where
  running : ∃ thread, s.current = some thread
  dense : ∀ ft ∈ s.table, ft.Dense s.files
  fresh : ∀ f, s.nextFile ≤ f → s.files f = none

variable {φ : Type} {vfs : Vfs φ} {s : System φ} {thread : Thread}

/-! ## Tables -/

namespace System

theorem table_eq (running : s.current = some thread) : s.table = thread.ft := by
  rw [table, running, bind_some]

theorem table_withCurrent (running : s.current = some thread) (thread' : Thread) :
    (s.withCurrent thread').table = thread'.ft :=
  table_eq (current_withCurrent running thread')

theorem table_withMemory (running : s.current = some thread) (mem : Memory) :
    (s.withMemory thread mem).table = s.table := by
  have running' : ({ s with kernel := mem.kernel } : System φ).current = some thread := running
  rw [withMemory, table_withCurrent running', table_eq running]

theorem current_withMemory (running : s.current = some thread) (mem : Memory) :
    (s.withMemory thread mem).current =
      some { thread with tVmspace := thread.tVmspace.map fun _ => mem.user } :=
  current_withCurrent (s := { s with kernel := mem.kernel }) running _

/-- The same process in a kernel in which nothing has happened to its files. -/
structure SameFiles (s s' : System φ) : Prop where
  running : ∃ thread, s'.current = some thread
  table : s'.table = s.table
  files : s'.files = s.files
  nextFile : s'.nextFile = s.nextFile
  curspl : s'.curspl = s.curspl

theorem SameFiles.process {s' : System φ} (same : s.SameFiles s') (process : s.Process) :
    s'.Process := by
  refine ⟨same.running, ?_, ?_⟩
  · rw [same.table, same.files]
    exact process.dense
  · rw [same.nextFile, same.files]
    exact process.fresh

theorem SameFiles.opened {s' : System φ} (same : s.SameFiles s') (fd : Int) :
    s'.opened fd = s.opened fd := by
  rw [System.opened, System.opened, same.table, same.files]

theorem Process.sameFiles_refl (process : s.Process) : s.SameFiles s :=
  ⟨process.running, rfl, rfl, rfl, rfl⟩

theorem sameFiles_withMemory (running : s.current = some thread) (mem : Memory) (fs : φ) :
    s.SameFiles ({ s with fs }.withMemory thread mem) := by
  have running' : ({ s with fs } : System φ).current = some thread := running
  exact ⟨⟨_, current_withMemory running' mem⟩, table_withMemory running' mem, rfl, rfl, rfl⟩

variable {ft : FileTable} {fd : Int} {f : Nat}

theorem Process.lookup_present (process : s.Process) (isTable : s.table = some ft)
    (found : ft.lookup fd = some f) : ∃ file, s.files f = some file := by
  rw [FileTable.lookup] at found
  split at found
  · cases found
  · rcases Option.join_eq_some_iff.mp found with entry
    rcases (process.dense ft isTable).present _ (List.mem_of_getElem? entry) with
      ⟨f', file, same, present⟩
    cases same
    exact ⟨file, present⟩

theorem opened_of_lookup (isTable : s.table = some ft) (found : ft.lookup fd = some f) :
    s.opened fd = s.files f := by
  rw [opened, isTable, bind_some, found, bind_some]

/-- Of a dense table the numbers below its size are open. -/
theorem Process.opened_isSome_iff (process : s.Process) (isTable : s.table = some ft) (fd : Int) :
    (s.opened fd).isSome ↔ 0 ≤ fd ∧ fd < ft.filetableSize := by
  have length := ft.handles.length_toList
  rw [opened, isTable, bind_some, FileTable.lookup]
  by_cases negative : fd < 0
  · simp [negative]
  · rw [if_neg negative]
    by_cases inside : fd.toNat < ft.handles.toList.length
    · rcases (process.dense ft isTable).present _ (List.getElem_mem inside) with
        ⟨f, file, entry, present⟩
      rw [List.getElem?_eq_getElem inside, entry]
      simp only [Option.join_some, bind_some, present, Option.isSome_some, true_iff,
        FileTable.filetableSize]
      omega
    · rw [List.getElem?_eq_none (by omega)]
      simp only [Option.join_none, bind_none, Option.isSome_none, Bool.false_eq_true,
        false_iff, FileTable.filetableSize]
      omega

end System

/-! ## Reading and writing -/

theorem currentGet_bind_eq {α : Type} (process : s.Process) (fd : Int)
    (next : Option Nat → SystemM φ α) :
    (curthread >>= fun thread => onHeap (filetableGet thread.ft fd) >>= next) s =
      if s.table.isNone then .error .filetableNull
      else if fd < 0 then .error .arrayIndex
      else next (s.table.bind fun ft => ft.lookup fd) s := by
  rcases process.running with ⟨thread, running⟩
  rw [bind_of_ok (curthread_apply running)]
  cases isTable : s.table with
  | none =>
      have noTable : thread.ft = none := by rw [← System.table_eq running, isTable]
      rw [noTable, if_pos Option.isNone_none]
      apply bind_of_halt
      rfl
  | some ft =>
      have hasTable : thread.ft = some ft := by rw [← System.table_eq running, isTable]
      have get := filetableGet_eq (process.dense ft isTable).wf fd s.ts.heap
      rw [hasTable, if_neg (by simp)]
      by_cases negative : fd < 0
      · rw [if_pos negative] at get ⊢
        apply bind_of_halt
        simp only [onHeap, onThreads, ThreadM.onHeap, zoom, get]
      · rw [if_neg negative] at get ⊢
        apply bind_of_ok
        simp only [onHeap, onThreads, ThreadM.onHeap, zoom, get]
        rfl

variable {f : Nat} {file : Filedesc} {ft ft' : FileTable} {oflag mode vn : Nat}

theorem descriptor_apply (present : s.files f = some file) :
    descriptor f s = .ok (.ok file, s) := by
  simp [descriptor, present]

theorem accessFile_eq (process : s.Process) (allowed : Nat → Bool)
    (transfer : Filedesc → SystemM φ Return) (fd : Int) (buf : Nat) (ret : Int) :
    accessFile allowed transfer fd buf ret s =
      if buf = 0 then .ok (.ok { code := Errno.efault.code, ret, outcome := none }, s)
      else if s.table.isNone then .error .filetableNull
      else if fd < 0 then .error .arrayIndex
      else match s.opened fd with
        | none => .ok (.ok { code := Errno.ebadf.code, ret, outcome := none }, s)
        | some file =>
            if allowed (Vfs.accmode file.mode) then transfer file s
            else .ok (.ok { code := Errno.ebadf.code, ret, outcome := none }, s) := by
  rw [accessFile]
  by_cases null : buf = 0
  · rw [if_pos null, if_pos null]
    rfl
  rw [if_neg null, if_neg null, currentGet_bind_eq process]
  cases isTable : s.table with
  | none => rfl
  | some ft =>
      rw [System.opened, isTable, bind_some]
      cases found : ft.lookup fd with
      | none => rfl
      | some f =>
          rcases process.lookup_present isTable found with ⟨file, present⟩
          rw [bind_some, present]
          dsimp only
          rw [bind_of_ok (descriptor_apply present)]
          congr 2
          split <;> rfl

namespace Transfer

/-- A vnode operation hands its errors back as results. -/
theorem run_never_fails (reach : Nat → Bool) (transfer : Transfer φ) (uio : Uio) :
    Ensures (transfer.run reach) uio (fun _ => True) (fun _ _ => False) (fun _ _ => True) := by
  induction transfer generalizing uio with
  | done result fs => trivial
  | panic reason => trivial
  | look next ih => exact ih _ _ uio
  | adjust offset resid next ih => exact ih _
  | move ptr n next ih =>
      rw [run, ensures_bind, ensures_get]
      refine ensures_assert_then (fun _ => trivial) fun _ => ?_
      rw [ensures_bind, ensures_attempt]
      exact Prog.ensures_of_forall (fun _ => trivial) (fun _ => ih _) (fun _ => ih _)

end Transfer

theorem ensures_transferAtomic {operation : Nat → φ → Transfer φ} {reach : Nat → Bool} {uio : Uio}
    {panics : Panic → Prop} {fails : Errno → System φ → Prop}
    {returns : Except Errno Unit × Uio → System φ → Prop} :
    Ensures (transferAtomic operation reach uio) s panics fails returns ↔
      Ensures ((operation splHigh s.fs).run reach) uio panics (fun _ _ => False)
        (fun value uio' => returns (value.1, uio') { s with fs := value.2 }) := by
  have never := (operation splHigh s.fs).run_never_fails reach uio
  simp only [transferAtomic, ensures_bind, ensures_get, setSpl, ensures_modify]
  rcases outcome : (operation splHigh s.fs).run reach uio with
    reason | ⟨failure | ⟨result, fs⟩, uio'⟩
  · rw [ensures_of_halt_eq outcome]
    exact Iff.rfl
  · rw [ensures_of_fail_eq outcome] at never
    exact never.elim
  · rw [ensures_of_ok_eq outcome]
    exact Iff.rfl

namespace System

/-- The `uio` of `sys_read`. -/
def readUio (s : System φ) (thread : Thread) (file : Filedesc) (buf nbytes : Nat) : Uio :=
  fileUio file buf nbytes .userspace .read (s.memoryOf thread).space (s.memoryOf thread)

/-- The `uio` of `sys_write`. -/
def writeUio (s : System φ) (thread : Thread) (file : Filedesc) (buf nbytes : Nat) : Uio :=
  fileUio file buf nbytes .sysspace .write none
    { s.memoryOf thread with kernel := (s.memoryOf thread).direct }

end System

section Transfers

variable {panics : Panic → Prop} {fails : Errno → System φ → Prop}
  {returns : Return → System φ → Prop} {buf nbytes : Nat} {file : Filedesc}

theorem ensures_readFile (running : s.current = some thread) :
    Ensures (readFile vfs buf nbytes file) s panics fails returns ↔
      Ensures ((vfs.vopRead splHigh file.vn s.fs).run (s.reachOf thread buf))
        (s.readUio thread file buf nbytes) panics (fun _ _ => False)
        (fun value uio' => returns (transferResult nbytes (value.1, uio'))
          ({ s with fs := value.2 }.withMemory thread uio'.mem)) := by
  rw [readFile, ensures_bind, ensures_get, ensures_bind,
    ensures_memory running, ensures_bind, ensures_transferAtomic]
  have setMemory : ∀ (value : Except Errno Unit × φ) (uio' : Uio),
      Ensures (do
          setMemory uio'.mem
          pure (transferResult nbytes (value.1, uio'))) { s with fs := value.2 } panics fails
        returns ↔
      returns (transferResult nbytes (value.1, uio'))
        ({ s with fs := value.2 }.withMemory thread uio'.mem) := by
    intro value uio'
    rw [ensures_bind, ensures_setMemory (by exact running), ensures_pure]
  simp only [setMemory]
  exact Iff.rfl

theorem ensures_writeFile (running : s.current = some thread) :
    Ensures (writeFile vfs buf nbytes file) s panics fails returns ↔
      Ensures ((vfs.vopWrite splHigh file.vn s.fs).run (s.reachOf thread buf))
        (s.writeUio thread file buf nbytes) panics (fun _ _ => False)
        (fun value uio' => returns (transferResult nbytes (value.1, uio'))
          { s with fs := value.2 }) := by
  rw [writeFile, ensures_bind, ensures_get, ensures_bind,
    ensures_memory running, ensures_bind, ensures_transferAtomic]
  exact Iff.rfl

end Transfers

theorem readFile_sameFiles (process : s.Process) (buf nbytes : Nat) (file : Filedesc) :
    Ensures (readFile vfs buf nbytes file) s (fun _ => True) (fun _ _ => False)
      (fun _ s' => s.SameFiles s') := by
  rcases process.running with ⟨thread, running⟩
  rw [ensures_readFile running]
  apply (Transfer.run_never_fails _ _ _).returning
  exact fun value uio' _ => System.sameFiles_withMemory running uio'.mem value.2

theorem writeFile_sameFiles (process : s.Process) (buf nbytes : Nat) (file : Filedesc) :
    Ensures (writeFile vfs buf nbytes file) s (fun _ => True) (fun _ _ => False)
      (fun _ s' => s.SameFiles s') := by
  rcases process.running with ⟨thread, running⟩
  rw [ensures_writeFile running]
  apply (Transfer.run_never_fails _ _ _).returning
  exact fun value uio' _ => ⟨⟨thread, running⟩, rfl, rfl, rfl, rfl⟩

/-! ## Seeking and opening -/

/-- A descriptor can be overwritten, and a new one can be added. -/
theorem System.Process.update (process : s.Process) {nextFile : Nat} (file : Filedesc)
    (below : f < nextFile) (more : s.nextFile ≤ nextFile) :
    ({ s with files := Function.update s.files f (some file), nextFile } : System φ).Process := by
  refine ⟨process.running, ?_, ?_⟩
  · intro ft isTable
    refine ⟨(process.dense ft isTable).wf, (process.dense ft isTable).next, ?_⟩
    intro h member
    rcases (process.dense ft isTable).present h member with ⟨g, old, rfl, present⟩
    by_cases same : g = f
    · exact ⟨g, file, rfl, by simp [same]⟩
    · exact ⟨g, old, rfl, by simp [same, present]⟩
  · intro g outside
    simp only at outside
    simp only [update_of_ne (show g ≠ f by omega)]
    exact process.fresh g (by omega)

theorem System.Process.lt_nextFile (process : s.Process) (present : s.files f = some file) :
    f < s.nextFile := by
  by_contra outside
  rw [process.fresh f (by omega)] at present
  cases present

theorem sysLseek_spec (process : s.Process) (fd pos whence ret : Int) :
    Ensures (sysLseek vfs fd pos whence ret) s (fun _ => s.table.isNone ∨ fd < 0) (fun _ _ => False)
      (fun r s' => (s.table.isSome ∧ 0 ≤ fd) ∧ s'.Process ∧ s'.table = s.table ∧
        s'.curspl = s.curspl ∧ (r.outcome = none → s' = s) ∧
        ∀ target, r.outcome = some target → ∃ file, s.opened fd = some file ∧
          s'.opened fd = some { file with offset := uint32 target }) := by
  rw [sysLseek]
  by_cases noTable : s.table.isNone
  · rw [ensures_of_halt_eq (by rw [currentGet_bind_eq process, if_pos noTable])]
    exact Or.inl noTable
  by_cases negative : fd < 0
  · rw [ensures_of_halt_eq (by rw [currentGet_bind_eq process, if_neg noTable, if_pos negative])]
    exact Or.inr negative
  have safe : s.table.isSome ∧ 0 ≤ fd := by
    refine ⟨?_, by omega⟩
    rw [isSome_iff_ne_none]
    simpa using noTable
  rw [Prog.ensures_congr (by rw [currentGet_bind_eq process, if_neg noTable, if_neg negative])]
  rcases isSome_iff_exists.mp safe.1 with ⟨ft, isTable⟩
  rw [isTable, bind_some]
  cases found : ft.lookup fd with
  | none =>
      exact ⟨⟨rfl, safe.2⟩, process, isTable, rfl, fun _ => rfl,
        fun _ impossible => by cases impossible⟩
  | some f =>
      rcases process.lookup_present isTable found with ⟨file, present⟩
      have isOpen : s.opened fd = some file := (System.opened_of_lookup isTable found).trans present
      dsimp only
      rw [ensures_bind, ensures_descriptor present, ensures_bind, ensures_get]
      cases seekPosition file pos (vfs.deviceEnd file.vn s.fs) whence with
      | none =>
          exact ⟨⟨rfl, safe.2⟩, process, isTable, rfl, fun _ => rfl,
            fun _ impossible => by cases impossible⟩
      | some target =>
          dsimp only
          cases vfs.vopTryseek file.vn target s.fs with
          | error failure =>
              exact ⟨⟨rfl, safe.2⟩, process, isTable, rfl, fun _ => rfl,
            fun _ impossible => by cases impossible⟩
          | ok _ =>
              dsimp only
              rw [ensures_bind, setFile, ensures_modify, ensures_pure]
              refine ⟨⟨rfl, safe.2⟩, process.update _ (process.lt_nextFile present) le_rfl,
                isTable, rfl, fun impossible => ?_, ?_⟩
              · cases impossible
              intro target' isTarget
              cases isTarget
              refine ⟨file, isOpen, (System.opened_of_lookup (by exact isTable) found).trans ?_⟩
              exact update_self _ _ _

theorem lookup_append (list : ft'.handles.toList = ft.handles.toList ++ [some f]) (fd : Int) :
    ft'.lookup fd = if fd = ft.filetableSize then some f else ft.lookup fd := by
  have length : ft.handles.toList.length = ft.filetableSize := ft.handles.length_toList
  simp only [FileTable.lookup, list]
  by_cases negative : fd < 0
  · rw [if_pos negative, if_neg (by omega), if_pos negative]
  rw [if_neg negative, if_neg negative]
  by_cases last : fd = ft.filetableSize
  · rw [if_pos last, List.getElem?_append_right (by omega),
      show fd.toNat - ft.handles.toList.length = 0 by omega]
    rfl
  rw [if_neg last]
  by_cases inside : fd.toNat < ft.handles.toList.length
  · rw [List.getElem?_append_left inside]
  · rw [List.getElem?_eq_none (by simp only [length_append, List.length_singleton]; omega),
      List.getElem?_eq_none (by omega)]

/-- What `sys_open` leaves behind: one descriptor more, or the same ones. -/
structure System.Opens (s : System φ) (oflag mode : Nat) (r : Return) (s' : System φ) : Prop where
  process : s'.Process
  curspl : s'.curspl = s.curspl
  refused : r.outcome = none → ∀ fd, s'.opened fd = s.opened fd
  added : ∀ index, r.outcome = some index →
    (∃ vn, s'.opened index = some ⟨vn, 0, mode, oflag⟩) ∧
      ∀ fd ≠ index, s'.opened fd = s.opened fd

/-- The kernel in which the descriptor of `sys_open` has been made. -/
def System.withFile (s : System φ) (file : Filedesc) : System φ :=
  { s with
    nextFile := s.nextFile + 1
    files := Function.update s.files s.nextFile (some file) }

theorem System.Process.withFile (process : s.Process) (file : Filedesc) :
    (s.withFile file).Process :=
  process.update file (Nat.lt_succ_self _) (Nat.le_succ _)

theorem System.Process.opened_withFile (process : s.Process) (file : Filedesc) (fd : Int) :
    (s.withFile file).opened fd = s.opened fd := by
  have isTable' : (s.withFile file).table = s.table := rfl
  rw [System.opened, System.opened, isTable']
  cases isTable : s.table with
  | none => rfl
  | some ft =>
      rw [bind_some]
      cases found : ft.lookup fd with
      | none => rfl
      | some f =>
          rcases process.lookup_present isTable found with ⟨old, present⟩
          have below := process.lt_nextFile present
          rw [bind_some, bind_some]
          exact update_of_ne (by omega) _ _

theorem System.Process.opens_refused (process : s.Process) {s' : System φ}
    (running : ∃ thread, s'.current = some thread) (table : s'.table = s.table)
    (files : s'.files = s.files) (more : s.nextFile ≤ s'.nextFile) (curspl : s'.curspl = s.curspl)
    (ret code : Int) : s.Opens oflag mode ⟨code, ret, none⟩ s' := by
  refine ⟨⟨running, ?_, ?_⟩, curspl, ?_, fun _ impossible => by cases impossible⟩
  · rw [table, files]
    exact process.dense
  · intro f outside
    rw [files]
    exact process.fresh f (by omega)
  · intro _ fd
    rw [System.opened, System.opened, table, files]

theorem System.Process.opens_added (process : s.Process) {heap : KHeap}
    (running : s.current = some thread) (isTable : s.table = some ft)
    (wf : ft'.handles.WellFormed) (next : ft'.next = ft'.filetableSize)
    (list : ft'.handles.toList = ft.handles.toList ++ [some s.nextFile]) (ret code : Int) :
    s.Opens oflag mode ⟨code, ret, some ft.filetableSize⟩
      (((s.withFile ⟨vn, 0, mode, oflag⟩).withHeap heap).withCurrent
        { thread with ft := some ft' }) := by
  have running' : ((s.withFile ⟨vn, 0, mode, oflag⟩).withHeap heap).current = some thread := running
  have isTable' := System.table_withCurrent running' { thread with ft := some ft' }
  have created := process.withFile ⟨vn, 0, mode, oflag⟩
  refine ⟨⟨⟨_, System.current_withCurrent running' _⟩, ?_, created.fresh⟩, rfl, ?_, ?_⟩
  · intro table same
    cases isTable'.symm.trans same
    refine ⟨wf, next, ?_⟩
    intro h member
    rw [list, mem_append, List.mem_singleton] at member
    rcases member with old | rfl
    · exact (created.dense ft isTable).present h old
    · exact ⟨_, _, rfl, update_self _ _ _⟩
  · intro impossible
    cases impossible
  · intro index isIndex
    cases isIndex
    constructor
    · refine ⟨vn, (System.opened_of_lookup isTable' ?_).trans (update_self _ _ _)⟩
      rw [lookup_append list, if_pos rfl]
    · intro fd other
      rw [← process.opened_withFile ⟨vn, 0, mode, oflag⟩ fd, System.opened, isTable',
        bind_some, lookup_append list, if_neg other, System.opened]
      exact congrArg (fun table : Option FileTable =>
        (table.bind fun ft => ft.lookup fd).bind _) isTable.symm

theorem openAdd_spec (process : s.Process) (vn oflag mode : Nat) :
    Ensures (openAdd vn oflag mode) s (fun _ => s.table = none) (fun _ _ => False)
      (fun r s' => s.table.isSome ∧ s.Opens oflag mode r s') := by
  rcases process.running with ⟨thread, running⟩
  simp only [openAdd, ensures_bind, ensures_get, ensures_modify, setFile]
  rw [ensures_curthread (by exact running), ensures_onHeap, ← System.table_eq running]
  cases isTable : s.table with
  | none => rfl
  | some ft =>
      have dense := process.dense ft isTable
      apply (filetableAdd_spec dense.wf _).total
      rintro ⟨index, ft'⟩ heap ⟨wf, added⟩
      split at added
      · cases added
        rw [if_pos rfl, ensures_bind, ensures_modify, ensures_pure]
        have sameFiles : Function.update (Function.update s.files s.nextFile
            (some ⟨vn, 0, mode, oflag⟩)) s.nextFile none = s.files := by
          rw [update_idem, ← process.fresh s.nextFile le_rfl, update_eq_self]
        refine ⟨rfl, process.opens_refused ⟨thread, ?_⟩ ?_ sameFiles (Nat.le_succ _) ?_ _ _⟩
        · exact running
        · rfl
        · rfl
      · rcases added with ⟨rfl, grown⟩
        rcases grown dense.next with ⟨next, list⟩
        rw [if_neg (by simp only; omega), ensures_bind, setTable,
          ensures_updateCurthread (by exact running), ensures_pure]
        refine ⟨rfl, ?_⟩
        rw [dense.next]
        exact process.opens_added running isTable wf next list ft.filetableSize 0

/-- Flags with both access bits set are refused. -/
theorem vfsOpen_accmode {reach : Nat → Bool} {path : Nat} {state after : φ × Memory}
    (outcome : vfs.vfsOpen reach path oflag state = .ok (.ok vn, after)) :
    Vfs.accmode oflag ≠ 3 := by
  intro both
  rw [Vfs.vfsOpen, if_pos both] at outcome
  cases outcome

theorem System.SameFiles.opens {between s' : System φ} {oflag mode : Nat} {r : Return}
    (same : s.SameFiles between) (opens : between.Opens oflag mode r s') :
    s.Opens oflag mode r s' := by
  refine ⟨opens.process, opens.curspl.trans same.curspl, ?_, ?_⟩
  · intro refused fd
    rw [opens.refused refused fd, same.opened]
  · intro index isIndex
    rcases opens.added index isIndex with ⟨added, others⟩
    exact ⟨added, fun fd other => (others fd other).trans (same.opened fd)⟩

theorem System.sameFiles_afterOpen (running : s.current = some thread) (after : φ × Memory) :
    s.SameFiles (s.afterOpen thread after) := by
  have same := System.sameFiles_withMemory (s := s.withHeap (s.ts.heap.after 1)) (by exact running)
    after.2 after.1
  exact ⟨same.running, same.table, same.files, same.nextFile, same.curspl⟩

theorem sysOpen_spec (process : s.Process) (path oflag mode : Nat) :
    Ensures (sysOpen vfs path oflag mode) s (fun _ => True) (fun _ _ => False)
      (fun r s' => s.Opens oflag mode r s' ∧
        ∀ index, r.outcome = some index → Vfs.accmode oflag ≠ 3) := by
  rcases process.running with ⟨thread, running⟩
  rw [Prog.ensures_congr (sysOpen_apply vfs running), ensures_sysOpenOver running]
  rcases outcome : vfs.vfsOpen (s.reachOf thread path) path oflag (s.fs, s.memoryOf thread) with
    reason | ⟨failure | vn, after⟩
  · rw [ensures_of_halt_eq outcome]
    trivial
  · rw [ensures_of_fail_eq outcome]
    have same := System.sameFiles_afterOpen running after
    exact ⟨process.opens_refused same.running same.table same.files same.nextFile.ge same.curspl
      _ _, fun _ impossible => by cases impossible⟩
  · rw [ensures_of_ok_eq outcome]
    have same := System.sameFiles_afterOpen running after
    split
    · apply (openAdd_spec (same.process process) vn oflag mode).returning
      exact fun r s' added => ⟨same.opens added.2, fun _ _ => vfsOpen_accmode outcome⟩
    · trivial

/-! ## Between two calls -/

/-- What the process finds when it makes its next call. -/
structure Interim (φ : Type) where
  ts : ThreadSystem
  cur : Nat
  thread : Thread
  isCur : ts.curthread = some cur
  files : Nat → Option Filedesc
  nextFile : Nat
  fs : φ
  kernel : Bytes
  reach : Nat → Bool
  tlb : List Nat
  frames : Nat → Option Trapframe
  stackErr : Int
  stackFile : Nat

namespace System

def owned (s : System φ) (f : Nat) : Bool :=
  s.table.any fun ft => ft.handles.toList.contains (some f)

/-- Everything may have changed but the file table of the process and its descriptors. -/
def amid (s : System φ) (around : Interim φ) : System φ where
  ts := around.ts.setThread around.cur (some { around.thread with ft := s.table })
  files f := if s.owned f then s.files f else if f < around.nextFile then around.files f else none
  nextFile := max s.nextFile around.nextFile
  fs := around.fs
  kernel := around.kernel
  reach := around.reach
  tlb := around.tlb
  curspl := s.curspl
  frames := around.frames
  stackErr := around.stackErr
  stackFile := around.stackFile

theorem current_amid (s : System φ) (around : Interim φ) :
    (s.amid around).current = some { around.thread with ft := s.table } := by
  simp [current, amid, ThreadSystem.setThread, around.isCur]

theorem table_amid (s : System φ) (around : Interim φ) : (s.amid around).table = s.table :=
  table_eq (s.current_amid around)

theorem files_amid {ft : FileTable} (isTable : s.table = some ft) {f : Nat}
    (member : some f ∈ ft.handles.toList) (around : Interim φ) :
    (s.amid around).files f = s.files f := by
  apply if_pos
  simp [owned, isTable, member]

theorem opened_amid (s : System φ) (around : Interim φ) (fd : Int) :
    (s.amid around).opened fd = s.opened fd := by
  rw [opened, opened, table_amid]
  cases isTable : s.table with
  | none => rfl
  | some ft =>
      rw [bind_some]
      cases found : ft.lookup fd with
      | none => rfl
      | some f =>
          rw [bind_some, bind_some]
          apply files_amid isTable
          rw [FileTable.lookup] at found
          split at found
          · cases found
          · exact List.mem_of_getElem? (Option.join_eq_some_iff.mp found)

theorem Process.amid (process : s.Process) (around : Interim φ) : (s.amid around).Process := by
  refine ⟨⟨_, s.current_amid around⟩, ?_, ?_⟩
  · intro ft isTable
    rw [table_amid] at isTable
    refine ⟨(process.dense ft isTable).wf, (process.dense ft isTable).next, ?_⟩
    intro h member
    rcases (process.dense ft isTable).present h member with ⟨f, file, rfl, present⟩
    exact ⟨f, file, rfl, (files_amid isTable member around).trans present⟩
  · intro f outside
    have outside : max s.nextFile around.nextFile ≤ f := outside
    simp only [System.amid]
    rw [process.fresh f (by omega), if_neg (show ¬f < around.nextFile by omega), ite_self]

/-- A process that has made no call yet. -/
structure New (s : System φ) : Prop where
  process : s.Process
  empty : ∀ ft ∈ s.table, ft.filetableSize = 0
  curspl : s.curspl = 0

theorem New.opened (new : s.New) (fd : Int) : s.opened fd = none := by
  cases isTable : s.table with
  | none => rw [System.opened, isTable, bind_none, bind_none]
  | some ft =>
      have iff := new.process.opened_isSome_iff isTable fd
      have size := new.empty ft isTable
      by_contra isOpen
      have inside := iff.mp (isSome_iff_ne_none.mpr isOpen)
      omega

end System

end Os161
