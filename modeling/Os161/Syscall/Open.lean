import Os161.Syscall.Close
import Os161.Syscall.Convention
import Os161.Vfs.Frame

/-!
# How an open fails

`sys_open` gets memory for a descriptor, opens the vnode and puts the descriptor into
the file table. Two of the ways in which this can fail are not handled: without memory
for the descriptor `vfs_open` stores the vnode through a null pointer, and when the table
cannot grow the vnode stays open and -1 is returned, which is not an error code.

The `vfs_open` of this module is the one of `VfsRefs`, which has the counts of all
vnodes.
-/

namespace Os161

open SystemM

variable {φ : Type}

/-- `vfs_open` over the counts of the vnodes. -/
def openCounted (path : VfsName) (oflag : Nat) : VfsM VfsRefs Nat :=
  zoom Prod.fst (fun refs state => (refs, state.2)) (VfsRefs.vfsOpen path oflag)

variable {s s' : System VfsRefs} {ft : FileTable} {thread : Thread} {r : Return}
  {path : VfsName} {oflag mode : Nat}

/-- A process whose descriptors exist, with a file table that is in order. -/
structure System.Tabled (s : System φ) (thread : Thread) (ft : FileTable) : Prop where
  running : s.current = some thread
  table : s.table = some ft
  fit : ft.FirstFit
  present : ∀ i f, ft.lookup i = some f → (s.files f).isSome
  fresh : s.files s.nextFile = none

/-- The counts of the vnodes are those before, and one more of each kind for these vnodes. -/
def CountsAfter (s s' : VfsRefs) (opened : List Nat) : Prop :=
  ∀ v, s'.refcount v = s.refcount v + opened.count v ∧
    s'.opencount v = s.opencount v + opened.count v

/-- An error is returned and nothing has happened. -/
structure FailedClean (s : System VfsRefs) (r : Return) (s' : System VfsRefs) : Prop where
  code : 1 ≤ r.code ∧ r.code ≤ 26
  table : s'.table = s.table
  opened : ∀ fd : Int, s'.opened fd = s.opened fd
  counts : CountsAfter s.fs s'.fs []

/-- There is one more descriptor, at the first index that was empty. -/
structure OpenedOne (s : System VfsRefs) (ft : FileTable) (r : Return) (s' : System VfsRefs) :
    Prop where
  code : r.code = 0
  ret : r.ret = ft.leastEmpty
  opened : ∃ file : Filedesc, s'.opened ft.leastEmpty = some file ∧ file.offset = 0 ∧
    CountsAfter s.fs s'.fs [file.vn]
  others : ∀ fd : Int, fd ≠ ft.leastEmpty → s'.opened fd = s.opened fd

/-- Whenever `vfs_open` comes back, `sys_open` does, and either it fails and leaves everything
alone or there is a new descriptor. -/
def OpensCleanly (s : System VfsRefs) (ft : FileTable) (path : VfsName) (oflag mode : Nat) : Prop :=
  Prog.Ensures (sysOpenOver (openCounted path oflag) oflag mode) s
    (fun reason => VfsRefs.vfsOpen path oflag s.fs = .error reason) (fun _ _ => False)
    (fun r s' => FailedClean s r s' ∨ OpenedOne s ft r s')

/-- If the vnode can be opened, there is memory for the descriptor and for the file table. -/
def MemoryForOpen (s : System VfsRefs) (ft : FileTable) (path : VfsName) (oflag : Nat) : Prop :=
  ∀ vn refs, VfsRefs.vfsOpen path oflag s.fs = .ok (.ok vn, refs) →
    s.ts.heap 0 = true ∧ ¬ft.Full (s.ts.heap.after 1)

/-! ## The vnode is open -/

section Descriptor

variable {s s₁ : System φ}

theorem System.Tabled.afterOpen (tabled : s.Tabled thread ft) (fs : φ) :
    (s.afterOpen thread (fs, s.memoryOf thread)).Tabled
      { thread with tVmspace := thread.tVmspace.map fun _ => (s.memoryOf thread).user } ft := by
  have running : ({ s.withHeap (s.ts.heap.after 1) with fs } : System φ).current = some thread :=
    tabled.running
  refine ⟨System.current_withMemory running _, ?_, tabled.fit, tabled.present, tabled.fresh⟩
  exact (System.table_withMemory running _).trans tabled.table

theorem System.Tabled.opened_afterOpen (tabled : s.Tabled thread ft) (fs : φ) (fd : Int) :
    (s.afterOpen thread (fs, s.memoryOf thread)).opened fd = s.opened fd := by
  simp only [System.opened, (tabled.afterOpen fs).table, tabled.table]
  rfl

theorem System.Tabled.add_spec (tabled : s.Tabled thread ft) (vn oflag mode : Nat) :
    Ensures (openAdd vn oflag mode) s (fun _ => False) (fun _ _ => False)
      (fun r s' => s'.fs = s.fs ∧
        (ft.Full s.ts.heap ∧ r.code = -1 ∨
          ¬ft.Full s.ts.heap ∧ r.code = 0 ∧ r.ret = ft.leastEmpty ∧
            s'.opened ft.leastEmpty = some { vn, offset := 0, mode, oflag } ∧
            ∀ fd : Int, fd ≠ ft.leastEmpty → s'.opened fd = s.opened fd)) := by
  have tableEq : thread.ft = some ft := by rw [← tabled.table, System.table_eq tabled.running]
  simp only [openAdd, setFile, ensures_bind, ensures_get, ensures_modify]
  rw [ensures_curthread (by exact tabled.running), ensures_onHeap, tableEq]
  apply (tabled.fit.add s.nextFile).imp
  rintro ⟨index, ft'⟩ heap (⟨full, isError⟩ | ⟨notFull, rfl, added⟩)
  · cases isError
    exact ⟨rfl, Or.inl ⟨full, rfl⟩⟩
  · dsimp only
    rw [if_neg (by omega), ensures_bind, setTable,
      ensures_updateCurthread (by exact tabled.running), ensures_pure]
    refine ⟨rfl, Or.inr ⟨notFull, rfl, rfl, ?_, fun fd different => ?_⟩⟩
    · rw [System.opened, System.table_withCurrent (by exact tabled.running), bind_some,
        added.lookup, if_pos rfl]
      exact update_self ..
    · rw [System.opened, System.table_withCurrent (by exact tabled.running), bind_some,
        added.lookup, if_neg different, System.opened, tabled.table, bind_some]
      -- the descriptor of another number is not the new one
      cases found : ft.lookup fd with
      | none => rfl
      | some f =>
          apply update_of_ne
          rintro rfl
          have present := tabled.present fd _ found
          rw [tabled.fresh] at present
          cases present

end Descriptor

/-! ## When an open is clean -/

theorem ensures_openCounted {mem : Memory} {refs : VfsRefs} {panics : Panic → Prop}
    {fails : Errno → VfsRefs × Memory → Prop} {returns : Nat → VfsRefs × Memory → Prop} :
    Ensures (openCounted path oflag) (refs, mem) panics fails returns ↔
      Ensures (VfsRefs.vfsOpen path oflag) refs panics
        (fun failure refs' => fails failure (refs', mem))
        (fun vn refs' => returns vn (refs', mem)) :=
  ensures_zoom

/-- `sys_open` is clean exactly if there is memory, for the descriptor and for the table, whenever
`vfs_open` succeeds. -/
theorem open_clean_iff (tabled : s.Tabled thread ft) (counted : VfsRefs.Counted s.fs [] [])
    (path : VfsName) (oflag mode : Nat) :
    OpensCleanly s ft path oflag mode ↔ MemoryForOpen s ft path oflag := by
  have counts := vfsOpen_counts counted path oflag
  rw [OpensCleanly, ensures_sysOpenOver tabled.running, ensures_openCounted]
  rcases outcome : VfsRefs.vfsOpen path oflag s.fs with reason | ⟨failure | vn, refs⟩
  · rw [ensures_of_halt_eq outcome]
    apply iff_of_true rfl
    intro vn refs returned
    cases outcome.symm.trans returned
  · rw [ensures_of_fail_eq outcome] at counts ⊢
    apply iff_of_true
    · refine Or.inl ⟨failure.code_bounds, ?_, tabled.opened_afterOpen refs, counts⟩
      exact (tabled.afterOpen refs).table.trans tabled.table.symm
    · intro vn refs returned
      cases outcome.symm.trans returned
  · rw [ensures_of_ok_eq outcome] at counts ⊢
    have added := (tabled.afterOpen refs).add_spec vn oflag mode
    have memory : MemoryForOpen s ft path oflag ↔
        s.ts.heap 0 = true ∧ ¬ft.Full (s.ts.heap.after 1) := by
      constructor
      · exact fun memory => memory vn refs outcome
      · exact fun memory _ _ _ => memory
    rw [memory]
    constructor
    · intro clean
      split at clean
      · rename_i granted
        refine ⟨granted, fun full => ?_⟩
        rcases (clean.and added).outcomes with ⟨_, _, impossible⟩ | ⟨_, _, _, impossible⟩ |
          ⟨r, s', _, result, _, ⟨_, code⟩ | ⟨notFull, _⟩⟩
        · exact impossible.2
        · exact impossible.2
        · rcases result with failed | opened
          · have bounds := failed.code
            omega
          · have zero := opened.code
            omega
        · exact notFull full
      · cases clean
    · rintro ⟨granted, notFull⟩
      rw [if_pos granted]
      apply added.mono (fun _ impossible => impossible.elim) (fun _ _ impossible => impossible)
      rintro r s' ⟨fsEq, ⟨full, _⟩ | ⟨_, code, ret, isOpen, others⟩⟩
      · exact absurd full notFull
      · refine Or.inr ⟨code, ret, ⟨_, isOpen, rfl, ?_⟩, fun fd different => ?_⟩
        · rw [fsEq]
          exact counts
        · exact (others fd different).trans (tabled.opened_afterOpen refs fd)

/-- The root of the boot file system is in memory, and the file system knows the file 2. -/
def bootedRefs : VfsRefs where
  vnodes v := if v = 1 then some ⟨1, 0, some 5⟩ else none
  tCwd _ := none
  nextThread := 1
  cur := 0
  alive thread := thread == 0
  bootfsVnode := some 1
  knowndevs := []
  answers := VfsRefs.gives 2
  opens := []
  kept _ := 0
  loads v := if v = 1 then 1 else 0
  reclaims _ := 0

theorem bootedRefs_counted : bootedRefs.Counted [] [] := by
  refine ⟨fun v => ?_, by decide, fun _ impossible => absurd impossible List.not_mem_nil⟩
  by_cases isRoot : v = 1
  · subst isRoot
    exact ⟨Nat.zero_le _, rfl, rfl, by decide, rfl⟩
  · have other : (1 == v) = false := by simpa using Ne.symm isRoot
    simp [VfsRefs.Life, VfsRefs.holders, bootedRefs, isRoot, other, Ownership.count]

/-- A process that has opened nothing, with these answers of `kmalloc`. -/
def opener (heap : KHeap) : System VfsRefs :=
  ({ alone [] with fs := bootedRefs } : System VfsRefs).withHeap heap

def openerTable : FileTable :=
  (opener fun _ => true).table.get (by rfl)

theorem opener_tabled (heap : KHeap) : ∃ thread, (opener heap).Tabled thread openerTable := by
  refine ⟨(opener heap).current.get (by rfl), rfl, rfl, ?_, ?_, rfl⟩
  · exact ⟨⟨le_rfl, fun _ => rfl⟩, by decide, fun _ below => absurd below (Nat.not_lt_zero _),
      fun _ => rfl⟩
  · intro i f found
    have none : openerTable.lookup i = none := by
      simp only [FileTable.lookup]
      split <;> rfl
    cases none.symm.trans found

theorem open_clean_with_memory :
    OpensCleanly (opener fun _ => true) openerTable ['/', 'f'] 0 0 := by
  rcases opener_tabled fun _ => true with ⟨thread, tabled⟩
  apply (open_clean_iff tabled bootedRefs_counted ['/', 'f'] 0 0).mpr
  intro vn refs _
  exact ⟨rfl, by decide⟩

/-- The file table cannot grow: -1 is returned, and the vnode of the file stays open. -/
theorem open_leaves_vnode_open :
    (∃ r s', sysOpenOver (openCounted ['/', 'f'] 0) 0 0 (opener fun call => call == 0) =
        .ok (.ok r, s') ∧ r.code = -1 ∧ bootedRefs.opencount 2 = 0 ∧ s'.fs.opencount 2 = 1) ∧
      ¬OpensCleanly (opener fun call => call == 0) openerTable ['/', 'f'] 0 0 := by
  have computed : (((sysOpenOver (openCounted ['/', 'f'] 0) 0 0).returned
      (opener fun call => call == 0)).any
        fun opened => opened.1.code == -1 && opened.2.fs.opencount 2 == 1) = true := by
    decide +kernel
  rcases (any_eq_true _ _).mp computed with ⟨⟨r, s'⟩, opened, facts⟩
  simp only [Bool.and_eq_true, beq_iff_eq] at facts
  have outcome := Prog.returned_eq_some.mp opened
  refine ⟨⟨r, s', outcome, facts.1, rfl, facts.2⟩, fun clean => ?_⟩
  rw [OpensCleanly, ensures_of_ok_eq outcome] at clean
  rcases clean with failed | opened
  · have bounds := failed.code
    omega
  · have zero := opened.code
    omega

end Os161
