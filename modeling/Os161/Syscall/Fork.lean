import Os161.Syscall.Access
import Os161.Thread.Fork

/-!
# The child of a process

A child gets the registers of its parent, a copy of its memory if there is room for
one, its directory, and the empty file table of `thread_create`: no part of
`thread_fork` or `sys_fork` copies the parent's. So the child is a duplicate exactly if
the parent has nothing open and `as_copy` gets its memory.
-/

namespace Os161

variable {ts : ThreadSystem} {cur : Nat} {parent : Thread}

/-! ## The thread that `thread_fork` makes -/

theorem threadCreate_child (ts : ThreadSystem) :
    Ensures threadCreate ts (fun _ => True) (fun _ _ => True)
      (fun result ts' => ∀ t, result = some t → t = ts.nextThread ∧
        ∃ id ft, Sched.FilesClosed ft ∧ ts'.curthread = ts.curthread ∧
          ts'.heap = ts.heap.after (createCalls ts.heap) ∧
          ts'.threads = Function.update ts.threads t (some (freshThread id ft))) := by
  simp only [threadCreate, ensures_bind, ThreadM.ensures_onHeap, ensures_kmalloc,
    ensures_ite, ensures_get, ensures_pure, KHeap.after_after]
  split
  · split
    · rw [Queue.qRemhead]
      refine ensures_assert_then (fun _ => trivial) fun _ => ?_
      refine ensures_assert_then (fun _ => trivial) fun _ => ?_
      rcases filetableCreate_spec (ts.heap.after 2) with ⟨ft, created, closed⟩
      simp only [ensures_pure, ensures_modify]
      rw [ensures_of_ok_eq created, KHeap.after_after]
      have calls : 2 + (if ts.heap.after 2 0 = true then 2 else 1) = createCalls ts.heap := by
        cases third : ts.heap 2 <;> simp [KHeap.after, createCalls, third]
      rw [calls]
      rintro t isThread
      cases isThread
      exact ⟨rfl, _, ft, closed, rfl, rfl, rfl⟩
    · intro t impossible
      cases impossible
  · intro t impossible
    cases impossible

theorem schedulerPreallocateLoop_threads (nthreads : Nat) (ps : List Nat) (ts : ThreadSystem) :
    Ensures (schedulerPreallocateLoop nthreads ps) ts (fun _ => True) (fun _ _ => True)
      (fun _ ts' => ts'.threads = ts.threads ∧ ts'.curthread = ts.curthread) := by
  induction ps generalizing ts with
  | nil => exact ⟨rfl, rfl⟩
  | cons p ps ih =>
      simp only [schedulerPreallocateLoop, ensures_bind, ensures_get,
        ThreadM.ensures_onHeap, ensures_modify]
      exact ensures_any fun q heap => ih _

theorem threadForkPublish_threads (t : Nat) (ts : ThreadSystem) :
    Ensures (threadForkPublish t) ts (fun _ => True) (fun _ _ => True)
      (fun _ ts' => ts'.threads = ts.threads ∧ ts'.curthread = ts.curthread) := by
  simp only [threadForkPublish, ensures_bind, ensures_get, ThreadM.ensures_onHeap, ensures_modify]
  refine ensures_any fun sleepers _ => ?_
  refine ensures_any fun zombies _ => ?_
  apply (schedulerPreallocateLoop_threads _ _ _).imp
  rintro _ ts₁ ⟨threads, current⟩
  have runnable : Ensures (makeRunnable t) ts₁ (fun _ => True) (fun _ _ => True)
      (fun _ ts' => ts'.threads = ts₁.threads ∧ ts'.curthread = ts₁.curthread) := by
    rw [makeRunnable, ensures_bind, Ensures, ThreadM.deref]
    cases ts₁.threads t with
    | none => trivial
    | some thread =>
        refine ensures_assert_then (fun _ => trivial) fun _ => ?_
        simp only [ensures_bind, ensures_get, ThreadM.ensures_onHeap, ensures_modify]
        exact ensures_any fun q heap => ⟨rfl, rfl⟩
  apply runnable.imp
  rintro _ ts₂ ⟨threads₂, current₂⟩
  exact ⟨threads₂.trans threads, current₂.trans current⟩

variable {t : Nat} {child : Thread}

/-- The child has the memory of its parent if `as_copy` gets what it needs. -/
theorem threadForkSpace_child (present : ts.threads t = some child)
    (noSpace : child.tVmspace = none) :
    Ensures (threadForkSpace parent t) ts (fun _ => True) (fun _ _ => True)
      (fun _ ts' => ts'.curthread = ts.curthread ∧ ∃ space,
        ts'.threads = Function.update ts.threads t (some { child with tVmspace := space }) ∧
        (space = parent.tVmspace ↔ (parent.tVmspace.isSome → ts.heap.Grants 4))) := by
  have unchanged : Function.update ts.threads t (some { child with tVmspace := none }) =
      ts.threads := by
    rw [← noSpace, ← present, update_eq_self]
  rw [threadForkSpace]
  cases inherited : parent.tVmspace with
  | none => exact ⟨rfl, none, unchanged.symm, by simp⟩
  | some space =>
      simp only [ensures_bind, ensures_attempt, ThreadM.ensures_onHeap]
      apply (asCopy_spec space ts.heap).mono
      · exact fun _ halted => halted.elim
      · rintro _ heap ⟨refused, _⟩
        exact ⟨rfl, none, unchanged.symm, by simp [refused]⟩
      · rintro _ heap ⟨granted, rfl, _⟩
        rw [ThreadM.ensures_update (by exact present)]
        exact ⟨rfl, some _, rfl, by simp [granted]⟩

theorem threadForkCwd_child (present : ts.threads t = some child) (noCwd : child.tCwd = none) :
    Ensures (threadForkCwd parent t) ts (fun _ => True) (fun _ _ => True)
      (fun _ ts' => ts'.curthread = ts.curthread ∧
        ts'.threads = Function.update ts.threads t (some { child with tCwd := parent.tCwd })) := by
  rw [threadForkCwd]
  cases cwd : parent.tCwd with
  | none =>
      refine ⟨rfl, ?_⟩
      rw [← noCwd, ← present, update_eq_self]
  | some vn =>
      simp only [ensures_bind, vnodeIncref, ensures_modify]
      rw [ThreadM.ensures_update (by exact present)]
      exact ⟨rfl, rfl⟩

theorem threadForkFinish_threads (t : Nat) (ts : ThreadSystem) :
    Ensures (threadForkFinish t) ts (fun _ => True) (fun _ _ => True)
      (fun t' ts' => t' = t ∧ ts'.threads = ts.threads ∧ ts'.curthread = ts.curthread) := by
  rw [threadForkFinish, ensures_bind, ensures_attempt]
  apply (threadForkPublish_threads t ts).answers
  · intro failure ts₁ _
    refine ensures_bind_any fun thread _ => ?_
    cases thread.tCwd with
    | none => trivial
    | some vn =>
        refine ensures_bind_any fun _ _ => ?_
        trivial
  · rintro ⟨⟩ ts₁ ⟨threads, current⟩
    exact ⟨rfl, threads, current⟩

/-- The calls of `kmalloc` before `as_copy`: those of `thread_create` and the stack. -/
def callsBeforeCopy (heap : KHeap) : Nat :=
  createCalls heap + 1

/-- What `thread_fork` has made when it returns. -/
structure ChildOf (ts : ThreadSystem) (parent child : Thread) : Prop where
  files : Sched.FilesClosed child.ft
  cwd : child.tCwd = parent.tCwd
  memory : child.tVmspace = parent.tVmspace ↔
    (parent.tVmspace.isSome → (ts.heap.after (callsBeforeCopy ts.heap)).Grants 4)

theorem threadFork_child (isCur : ts.curthread = some cur) (present : ts.threads cur = some parent)
    (unused : ts.threads ts.nextThread = none) :
    Ensures threadFork ts (fun _ => True) (fun _ _ => True)
      (fun t ts' => t = ts.nextThread ∧ ts'.curthread = some cur ∧ ts'.threads cur = some parent ∧
        ∃ child, ts'.threads t = some child ∧ ChildOf ts parent child) := by
  have other : cur ≠ ts.nextThread := by
    rintro rfl
    rw [present] at unused
    cases unused
  rw [threadFork, ensures_bind]
  apply (threadCreate_child ts).imp
  intro result ts₁ created
  cases result with
  | none => trivial
  | some t =>
      rcases created t rfl with ⟨rfl, id, ft, closed, current, heap, threads⟩
      simp only [ensures_bind, ThreadM.ensures_onHeap, ensures_kmalloc, ensures_ite]
      split
      · have isCur₁ : ({ ts₁ with heap := ts₁.heap.after 1 } : ThreadSystem).curthread =
            some cur := current.trans isCur
        have present₁ : ({ ts₁ with heap := ts₁.heap.after 1 } : ThreadSystem).threads cur =
            some parent := by
          simp only [threads]
          rw [update_of_ne other, present]
        have new₁ : ({ ts₁ with heap := ts₁.heap.after 1 } : ThreadSystem).threads ts.nextThread =
            some (freshThread id ft) := by
          simp only [threads, update_self]
        rw [ThreadM.ensures_current isCur₁, ThreadM.ensures_deref present₁]
        apply (threadForkSpace_child new₁ rfl).imp
        rintro _ ts₂ ⟨current₂, space, threads₂, copied⟩
        have new₂ : ts₂.threads ts.nextThread =
            some { freshThread id ft with tVmspace := space } := by
          rw [threads₂, update_self]
        apply (threadForkCwd_child new₂ rfl).imp
        rintro _ ts₃ ⟨current₃, threads₃⟩
        apply (threadForkFinish_threads ts.nextThread ts₃).imp
        rintro t ts₄ ⟨rfl, threads₄, current₄⟩
        refine ⟨rfl, ?_, ?_, ?_⟩
        · rw [current₄, current₃, current₂, isCur₁]
        · rw [threads₄, threads₃, update_of_ne other, threads₂, update_of_ne other, present₁]
        · refine ⟨{ freshThread id ft with tVmspace := space, tCwd := parent.tCwd }, ?_, closed,
            rfl, ?_⟩
          · rw [threads₄, threads₃, update_self]
          · rw [callsBeforeCopy, ← KHeap.after_after, ← heap]
            exact copied
      · trivial

/-! ## The call -/

open SystemM

variable {φ : Type} {vfs : Vfs φ} {s s' : System φ} {tf tf' : Trapframe}

/-- What the table of a thread says about a number. -/
def Thread.handle (thread : Thread) (fd : Int) : Option Nat :=
  thread.ft.bind fun ft => ft.lookup fd

theorem ChildOf.handle {child : Thread} (made : ChildOf ts parent child) (fd : Int) :
    child.handle fd = none := by
  cases table : child.ft with
  | none => simp [Thread.handle, table]
  | some ft =>
      simp only [Thread.handle, table, bind_some, FileTable.lookup]
      split
      · rfl
      · cases found : ft.handles.toList[fd.toNat]? with
        | none => rfl
        | some handle =>
            rw [made.files ft table handle (List.mem_of_getElem? found)]
            rfl

/-- The new thread is a duplicate of `parent`, which called `fork` with the registers `tf` and
goes on with `tf'`. -/
structure Duplicated (s : System φ) (parent : Thread) (tf tf' : Trapframe) (s' : System φ)
    (child : Thread) (frame : Trapframe) : Prop where
  isChild : s'.ts.threads s.ts.nextThread = some child
  isFrame : s'.frames s.ts.nextThread = some frame
  value : mdForkentry frame .v0 = 0
  flag : mdForkentry frame .a3 = 0
  advanced : mdForkentry frame .epc = tf .epc + 4
  registers : ∀ r, r ≠ .v0 → r ≠ .a3 → r ≠ .epc → mdForkentry frame r = tf r
  memory : child.tVmspace = parent.tVmspace
  cwd : child.tCwd = parent.tCwd
  files : ∀ fd, child.handle fd = parent.handle fd
  reported : tf' .v0 = BitVec.ofNat 32 child.id

/-- The parent has nothing open, and `as_copy`, which comes after the trapframe and the calls
of `thread_fork`, gets its structure and its three ranges of pages. -/
def Duplicable (s : System φ) (parent : Thread) : Prop :=
  (∀ fd, parent.handle fd = none) ∧
    (parent.tVmspace.isSome →
      (s.ts.heap.after (1 + callsBeforeCopy (s.ts.heap.after 1))).Grants 4)

theorem mdForkentry_registers (tf : Trapframe) {r : Reg} (notV0 : r ≠ .v0) (notA3 : r ≠ .a3)
    (notEpc : r ≠ .epc) : mdForkentry tf r = tf r := by
  simp [mdForkentry, update_of_ne, notV0, notA3, notEpc]

theorem sysFork_child (running : s.current = some parent)
    (unused : s.ts.threads s.ts.nextThread = none) (tf : Trapframe) :
    Ensures (sysFork tf) s (fun _ => True) (fun _ _ => True) (fun result s' =>
      result.2 = true → ∃ child, s'.ts.threads s.ts.nextThread = some child ∧
        s'.frames s.ts.nextThread = some tf ∧ result.1 = child.id ∧
        ChildOf { s.ts with heap := s.ts.heap.after 1 } parent child) := by
  rcases bind_eq_some_iff.mp running with ⟨cur, isCur, present⟩
  rw [sysFork, ensures_bind, ensures_onHeap, ensures_kmalloc]
  apply ensures_branch
  · intro _
    rw [ensures_bind, ensures_attempt, ensures_onThreads]
    have isCur' : (s.withHeap (s.ts.heap.after 1)).ts.curthread = some cur := isCur
    apply (threadFork_child isCur' present unused).answers
    · exact fun _ _ _ => trivial
    · rintro t ts ⟨rfl, _, _, child, isChild, made⟩
      simp only [ensures_bind, ensures_modify, ensures_onThreads]
      rw [ThreadM.ensures_deref isChild]
      exact fun _ => ⟨child, isChild, by simp [System.withHeap], rfl, made⟩
  · intro _ impossible
    cases impossible

theorem mipsSyscall_fork (running : s.current = some parent)
    (unused : s.ts.threads s.ts.nextThread = none) (isFork : Call.ofNumber (tf .v0).toNat = .fork) :
    Ensures (mipsSyscall vfs tf) s (fun _ => True) (fun _ _ => True) (fun result s' =>
      ∀ tf' value, result = some (tf', some value) →
        ∃ child, s'.ts.threads s.ts.nextThread = some child ∧
          s'.frames s.ts.nextThread = some tf ∧ tf' .v0 = BitVec.ofNat 32 child.id ∧
          ChildOf { s.ts with heap := s.ts.heap.after 1 } parent child) := by
  rw [mipsSyscall, ensures_bind, ensures_get]
  refine ensures_assert_then (fun _ => trivial) fun _ => ?_
  simp only [dispatch, isFork, ensures_bind]
  apply (sysFork_child running unused tf).imp
  rintro ⟨retval, hasChild⟩ s₁ made
  refine ensures_assert_then (fun _ => trivial) fun _ => ?_
  rintro tf' value isResult
  cases hasChild with
  | false => simp at isResult
  | true =>
      rcases made rfl with ⟨child, isChild, isFrame, isValue, childOf⟩
      refine ⟨child, isChild, isFrame, ?_, childOf⟩
      have isValue : retval = child.id := isValue
      simp only [Option.some.injEq, Prod.mk.injEq] at isResult
      rw [← isResult.1, isValue]
      simp [Trapframe.finish, BitVec.ofInt_natCast]

/-- The child that a successful `fork` leaves is a duplicate exactly if the parent has nothing
open and there was memory for the copy of its address space. -/
theorem fork_duplicates_iff {value : Int} (running : s.current = some parent)
    (unused : s.ts.threads s.ts.nextThread = none)
    (isFork : Call.ofNumber (tf .v0).toNat = .fork)
    (returned : mipsSyscall vfs tf s = .ok (.ok (some (tf', some value)), s')) :
    (∃ child frame, Duplicated s parent tf tf' s' child frame) ↔ Duplicable s parent := by
  rcases (ensures_of_ok_eq returned).mp (mipsSyscall_fork running unused isFork) tf' value rfl
    with ⟨child, isChild, isFrame, reported, made⟩
  have memory : child.tVmspace = parent.tVmspace ↔ (parent.tVmspace.isSome →
      (s.ts.heap.after (1 + callsBeforeCopy (s.ts.heap.after 1))).Grants 4) := by
    rw [← KHeap.after_after]
    exact made.memory
  constructor
  · rintro ⟨child', frame, duplicated⟩
    cases isChild.symm.trans duplicated.isChild
    refine ⟨fun fd => ?_, memory.mp duplicated.memory⟩
    rw [← duplicated.files fd, made.handle fd]
  · rintro ⟨closed, granted⟩
    exact ⟨child, tf,
      { isChild, isFrame, reported
        value := by simp [mdForkentry]
        flag := by simp [mdForkentry]
        advanced := by simp [mdForkentry]
        registers := fun _ => mdForkentry_registers tf
        memory := memory.mpr granted
        cwd := made.cwd
        files := fun fd => (made.handle fd).trans (closed fd).symm }⟩

/-! ## Two forks -/

/-- A process that is alone, with a process id to give to a child. -/
def forkable (files : List Filedesc) : System OneFile :=
  let s := aloneWith files ⟨[], ⟨true, fun _ => 0, []⟩⟩
  { s with ts := { s.ts with
    processIds := { size := 3, nextwrite := 2, nextread := 0, data := fun i => i + 6 }
    runqueue := fun _ => { size := 32, nextwrite := 0, nextread := 0, data := fun _ => 0 }
    numthreads := 1
    nextThread := 1 } }

theorem fork_duplicates_without_files :
    ∃ tf' s' parent, mipsSyscall OneFile.vfs (callFrame 2 0 0 0) (forkable []) =
        .ok (.ok (some (tf', some 6)), s') ∧
      ∃ child frame, Duplicated (forkable []) parent (callFrame 2 0 0 0) tf' s' child frame := by
  have computed : (((mipsSyscall OneFile.vfs (callFrame 2 0 0 0)).returned (forkable [])).any
      fun result => result.1.any fun pair => pair.2 == some 6) = true := by
    decide +kernel
  rcases (any_eq_true _ _).mp computed with ⟨⟨result, s'⟩, returned, facts⟩
  rcases (any_eq_true _ _).mp facts with ⟨⟨tf', outcome⟩, isResult, isValue⟩
  have isResult : result = some (tf', outcome) := isResult
  have isValue : outcome = some 6 := by simpa using isValue
  subst isResult isValue
  have returned := Prog.returned_eq_some.mp returned
  refine ⟨tf', s', _, returned, (fork_duplicates_iff rfl rfl rfl returned).mpr ?_⟩
  refine ⟨fun fd => ?_, fun _ => by decide⟩
  simp [Thread.handle, FileTable.lookup, KArray.toList]

/-- A process with the descriptor 0 forks, and the child has no descriptor 0. -/
theorem fork_loses_descriptor :
    ∃ tf' s' parent child, mipsSyscall OneFile.vfs (callFrame 2 0 0 0) (forkable [⟨1, 0, 0, 0⟩]) =
        .ok (.ok (some (tf', some 6)), s') ∧
      (forkable [⟨1, 0, 0, 0⟩]).current = some parent ∧ s'.ts.threads 1 = some child ∧
      child.id = 6 ∧ parent.handle 0 = some 0 ∧ child.handle 0 = none := by
  have computed : (((mipsSyscall OneFile.vfs (callFrame 2 0 0 0)).returned
      (forkable [⟨1, 0, 0, 0⟩])).any fun result =>
        (result.1.any fun pair => pair.2 == some 6) &&
          (result.2.ts.threads 1).any fun child => child.id == 6 && child.handle 0 == none) =
        true := by
    decide +kernel
  rcases (any_eq_true _ _).mp computed with ⟨⟨result, s'⟩, returned, facts⟩
  simp only [Bool.and_eq_true] at facts
  rcases (any_eq_true _ _).mp facts.1 with ⟨⟨tf', outcome⟩, isResult, isValue⟩
  rcases (any_eq_true _ _).mp facts.2 with ⟨child, isChild, about⟩
  simp only [Bool.and_eq_true, beq_iff_eq] at about
  have isResult : result = some (tf', outcome) := isResult
  have isValue : outcome = some 6 := by simpa using isValue
  subst isResult isValue
  exact ⟨tf', s', _, child, Prog.returned_eq_some.mp returned, rfl, isChild, about.1, rfl, about.2⟩

end Os161
