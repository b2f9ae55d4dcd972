import Os161.Syscall.Access
import Os161.Syscall.FirstFit

/-!
# Closing descriptors

`sys_close` hands `fd == -1` to `filetable_remove` where it should hand `fd`, and
`filetable_remove` clears the slot of a descriptor with `filetable_set`, which asserts
that the value is not `NULL`. Together this leaves `sys_close` right only when it has
to refuse, and then only when slot 0 (or slot 1, for the descriptor -1) exists and is
empty. `filetable_destroy` is right when there is nothing to close.
-/

namespace Os161

open SystemM

variable {φ : Type} (vfs : Vfs φ) {s : System φ} {ft : FileTable} {thread : Thread}

/-! ## `filetable_destroy` -/

/-- The loop in `filetable_destroy`, with `todo` indices left, from the index `i` on. -/
def filetableDestroyLoop : (todo i : Nat) → FileTable → SystemM φ FileTable
  | 0, _, ft => pure ft
  | todo + 1, i, ft => do
      let (_, ft) ← filetableRemove vfs (some ft) i
      filetableDestroyLoop todo (i + 1) ft

/-- `filetable_destroy` with what it does to the vnodes. -/
def filetableDestroyFiles (table : Option FileTable) : SystemM φ Unit := do
  let ft ← onHeap (assertTable table)
  let _ ← filetableDestroyLoop vfs ft.filetableSize 0 ft
  pure ()

/-! ## What closing should do -/

/-- The descriptor has been closed, and no other. -/
structure ClosedOnly (s : System φ) (fd : Int) (file : Filedesc) (r : Return) (s' : System φ) :
    Prop where
  code : r.code = 0
  fs : s'.fs = vfs.vfsClose file.vn s.fs
  closed : s'.opened fd = none
  others : ∀ other, other ≠ fd → s'.opened other = s.opened other
  next : ∀ ft ∈ s'.table, ft.next = ft.leastEmpty

/-- `sys_close` closes its descriptor and no other, and refuses a number without one. -/
def ClosesExactly (s : System φ) (fd ret : Int) : Prop :=
  Prog.Ensures (sysClose vfs fd ret) s (fun _ => False) (fun _ _ => False)
    (fun r s' => match s.opened fd with
      | some file => ClosedOnly vfs s fd file r s'
      | none => r.code = Errno.ebadf.code ∧ s' = s)

/-- The descriptors of a table, in the order of their numbers. -/
def openedFiles (s : System φ) (ft : FileTable) : List Filedesc :=
  ft.handles.toList.filterMap fun handle => handle.bind s.files

/-- `filetable_destroy` closes every descriptor once. -/
def DestroysExactly (s : System φ) (ft : FileTable) : Prop :=
  Prog.Ensures (filetableDestroyFiles vfs (some ft)) s (fun _ => False) (fun _ _ => False)
    (fun _ s' => s'.fs = (openedFiles s ft).foldl (fun fs file => vfs.vfsClose file.vn fs) s.fs ∧
      ∀ i f, ft.lookup i = some f → s'.files f = none)

/-! ## What it does -/

section Remove

variable {vfs}

theorem System.withCurrent_self (running : s.current = some thread) : s.withCurrent thread = s := by
  rcases bind_eq_some_iff.mp running with ⟨cur, isCur, present⟩
  simp only [withCurrent, ThreadSystem.setThread, isCur, Option.getD_some, ← present,
    update_eq_self]
  rw [← isCur]

theorem filetableRemove_empty (wf : ft.handles.WellFormed) {i : Nat} (inside : i < ft.filetableSize)
    (empty : ft.lookup i = none) : filetableRemove vfs (some ft) i s = .ok (.ok (-1, ft), s) := by
  apply eq_ok_of_ensures
  rw [filetableRemove, ensures_bind, ensures_onHeap, assertTable, ensures_pure]
  refine ensures_assert_then (fun wrong => wrong (by omega)) fun _ => ?_
  simp only [ensures_bind, ensures_onHeap, ensures_filetableGet wf (Int.natCast_nonneg i), empty]
  exact ⟨rfl, rfl⟩

theorem filetableRemove_stops (wf : ft.handles.WellFormed) {i : Nat}
    (notEmpty : i < ft.filetableSize → (ft.lookup i).isSome) :
    Ensures (filetableRemove vfs (some ft) i) s (fun _ => True) (fun _ _ => False)
      (fun _ _ => False) := by
  rw [filetableRemove, ensures_bind, ensures_onHeap, assertTable, ensures_pure]
  refine ensures_assert_then (fun _ => trivial) fun inside => ?_
  rcases isSome_iff_exists.mp (notEmpty (by omega)) with ⟨f, found⟩
  simp only [ensures_bind, ensures_onHeap, ensures_filetableGet wf (Int.natCast_nonneg i), found]
  apply ensures_descriptor_of
  · exact fun _ => trivial
  · exact fun _ _ => trivial

/-- The slot at which `sys_close` looks. -/
def closeSlot (fd : Int) : Nat :=
  if fd = -1 then 1 else 0

theorem sysClose_index (fd : Int) : (if fd = -1 then 1 else 0 : Int) = closeSlot fd := by
  simp only [closeSlot]
  split <;> rfl

theorem sysClose_refuses (running : s.current = some thread) (isTable : s.table = some ft)
    (wf : ft.handles.WellFormed) {fd : Int} (inside : closeSlot fd < ft.filetableSize)
    (empty : ft.lookup (closeSlot fd) = none) (ret : Int) :
    sysClose vfs fd ret s =
      .ok (.ok { code := Errno.ebadf.code, ret, outcome := none }, s) := by
  have tableEq : thread.ft = some ft := by rw [← isTable, System.table_eq running]
  have same : s.withCurrent { thread with ft := some ft } = s := by
    rw [← tableEq]
    exact System.withCurrent_self running
  rw [sysClose, bind_of_ok (curthread_apply running), sysClose_index, tableEq,
    bind_of_ok (filetableRemove_empty wf inside empty)]
  have stored : setTable ft s = .ok (.ok (), s) := by
    rw [setTable, updateCurthread_apply running, same]
  exact bind_of_ok stored

theorem sysClose_stops (running : s.current = some thread) (isTable : s.table = some ft)
    (wf : ft.handles.WellFormed) {fd : Int}
    (notEmpty : closeSlot fd < ft.filetableSize → (ft.lookup (closeSlot fd)).isSome) (ret : Int) :
    Ensures (sysClose vfs fd ret) s (fun _ => True) (fun _ _ => False) (fun _ _ => False) := by
  have tableEq : thread.ft = some ft := by rw [← isTable, System.table_eq running]
  rw [sysClose, ensures_bind, ensures_curthread running, sysClose_index, tableEq, ensures_bind]
  apply (filetableRemove_stops wf notEmpty).imp
  exact fun _ _ impossible => impossible.elim

/-- `sys_close` is right exactly when it has to refuse and finds an empty slot. -/
theorem closesExactly_iff (running : s.current = some thread) (isTable : s.table = some ft)
    (fit : ft.FirstFit) (fd ret : Int) :
    ClosesExactly vfs s fd ret ↔ s.opened fd = none ∧ closeSlot fd < ft.filetableSize ∧
      ft.lookup (closeSlot fd) = none := by
  by_cases looks : closeSlot fd < ft.filetableSize ∧ ft.lookup (closeSlot fd) = none
  · rw [ClosesExactly, ensures_of_ok_eq
      (sysClose_refuses running isTable fit.wf looks.1 looks.2 ret)]
    cases isOpen : s.opened fd with
    | none => simp [looks]
    | some file =>
        have refused : Errno.ebadf.code ≠ 0 := by decide
        simpa using fun closed : ClosedOnly .. => refused closed.code
  · have notEmpty : closeSlot fd < ft.filetableSize → (ft.lookup (closeSlot fd)).isSome :=
      fun inside => isSome_iff_ne_none.mpr fun empty => looks ⟨inside, empty⟩
    apply iff_of_false
    · intro exactly
      rcases (exactly.and (sysClose_stops running isTable fit.wf notEmpty ret)).outcomes with
        ⟨_, _, impossible⟩ | ⟨_, _, _, impossible⟩ | ⟨_, _, _, impossible⟩
      · exact impossible.1
      · exact impossible.1
      · exact impossible.2
    · exact fun both => looks both.2

theorem filetableDestroyLoop_empty (wf : ft.handles.WellFormed)
    (empty : ∀ i : Nat, i < ft.filetableSize → ft.lookup i = none) (todo i : Nat)
    (inside : i + todo ≤ ft.filetableSize) :
    filetableDestroyLoop vfs todo i ft s = .ok (.ok ft, s) := by
  induction todo generalizing i with
  | zero => rfl
  | succ todo ih =>
      rw [filetableDestroyLoop,
        bind_of_ok (filetableRemove_empty wf (by omega) (empty i (by omega)))]
      exact ih (i + 1) (by omega)

theorem filetableDestroyLoop_stops (wf : ft.handles.WellFormed) {slot : Nat}
    (occupied : (ft.lookup slot).isSome) (todo i : Nat) (from_i : i ≤ slot)
    (before : slot < i + todo) :
    Ensures (filetableDestroyLoop vfs todo i ft) s (fun _ => True) (fun _ _ => False)
      (fun _ _ => False) := by
  induction todo generalizing i with
  | zero => omega
  | succ todo ih =>
      rw [filetableDestroyLoop, ensures_bind]
      by_cases empty : i < ft.filetableSize ∧ ft.lookup i = none
      · rw [ensures_of_ok_eq (filetableRemove_empty wf empty.1 empty.2)]
        have different : i ≠ slot := by
          rintro rfl
          rw [empty.2] at occupied
          cases occupied
        exact ih (i + 1) (by omega) (by omega)
      · apply (filetableRemove_stops wf _).answers
        · exact fun _ _ failed => failed
        · exact fun _ _ impossible => impossible.elim
        · exact fun inside => isSome_iff_ne_none.mpr fun none => empty ⟨inside, none⟩

theorem openedFiles_empty (empty : ∀ i : Nat, i < ft.filetableSize → ft.lookup i = none) :
    openedFiles s ft = [] := by
  rw [openedFiles, List.filterMap_eq_nil_iff]
  intro handle member
  rcases List.getElem?_of_mem member with ⟨i, found⟩
  have inside : i < ft.filetableSize := by
    rw [FileTable.filetableSize, ← KArray.length_toList]
    exact (List.getElem?_eq_some_iff.mp found).1
  have none := empty i inside
  rw [FileTable.lookup_natCast, found, Option.join_some] at none
  simp [none]

/-- `filetable_destroy` is right exactly when there is nothing to close. -/
theorem destroysExactly_iff (fit : ft.FirstFit) :
    DestroysExactly vfs s ft ↔ ∀ i : Nat, i < ft.filetableSize → ft.lookup i = none := by
  rw [DestroysExactly, filetableDestroyFiles, ensures_bind, ensures_onHeap, assertTable,
    ensures_pure, ensures_bind]
  constructor
  · intro exactly slot inside
    by_contra occupied
    have occupied := isSome_iff_ne_none.mpr occupied
    have stops : Ensures (filetableDestroyLoop vfs ft.filetableSize 0 ft) s _ _ _ :=
      filetableDestroyLoop_stops fit.wf occupied ft.filetableSize 0 (Nat.zero_le _) (by omega)
    rcases (exactly.and stops).outcomes with ⟨_, _, impossible⟩ | ⟨_, _, _, impossible⟩ |
      ⟨_, _, _, impossible⟩
    · exact impossible.1
    · exact impossible.1
    · exact impossible.2
  · intro empty
    apply (ensures_of_ok_eq (filetableDestroyLoop_empty fit.wf empty ft.filetableSize 0
      (by omega))).mpr
    rw [openedFiles_empty empty]
    refine ⟨rfl, fun i f found => ?_⟩
    by_cases negative : i < 0
    · rw [FileTable.lookup, if_pos negative] at found
      cases found
    · obtain ⟨i, rfl⟩ : ∃ k : Nat, i = k := ⟨i.toNat, by omega⟩
      by_cases inside : i < ft.filetableSize
      · rw [empty i inside] at found
        cases found
      · rw [FileTable.lookup_of_le (by omega)] at found
        cases found

end Remove

/-- For every file table that is in order, when `sys_close` and `filetable_destroy` do what they
should: the one when it has to refuse and the slot that it looks at is empty, the other when all
slots are empty. -/
theorem close_exactly_iff (running : s.current = some thread) (isTable : s.table = some ft)
    (fit : ft.FirstFit) :
    (∀ fd ret : Int, ClosesExactly vfs s fd ret ↔ s.opened fd = none ∧
      closeSlot fd < ft.filetableSize ∧ ft.lookup (closeSlot fd) = none) ∧
    (DestroysExactly vfs s ft ↔ ∀ i : Nat, i < ft.filetableSize → ft.lookup i = none) :=
  ⟨closesExactly_iff running isTable fit, destroysExactly_iff fit⟩

def vacatedTable : FileTable :=
  { handles := { num := 1, max := 1, v := some fun _ => none }, next := 0 }

theorem vacatedTable_firstFit : vacatedTable.FirstFit :=
  ⟨⟨le_rfl, fun _ => rfl⟩, by decide, fun _ below => absurd below (Nat.not_lt_zero _),
    fun _ => rfl⟩

def vacated : System OneFile :=
  (alone []).withCurrent
    { ((alone []).current.get (by rfl)) with ft := some vacatedTable }

theorem close_exactly_vacated :
    ClosesExactly OneFile.vfs vacated 5 0 ∧ DestroysExactly OneFile.vfs vacated vacatedTable := by
  have isTable : vacated.table = some vacatedTable := rfl
  have both := close_exactly_iff OneFile.vfs rfl isTable vacatedTable_firstFit
  exact ⟨(both.1 5 0).mpr ⟨rfl, by decide, rfl⟩, both.2.mpr fun _ below => by
    obtain rfl := Nat.lt_one_iff.mp below
    rfl⟩

/-- Closing the only descriptor of a process. -/
theorem close_panics :
    ((aloneWith [⟨1, 0, 2, 2⟩] ⟨[], ⟨true, fun _ => 0, []⟩⟩).opened 0).isSome ∧
      sysClose OneFile.vfs 0 0 (aloneWith [⟨1, 0, 2, 2⟩] ⟨[], ⟨true, fun _ => 0, []⟩⟩) =
        .error .filetableVal :=
  ⟨rfl, rfl⟩

end Os161
