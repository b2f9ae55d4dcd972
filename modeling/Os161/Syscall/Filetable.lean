import Os161.Thread.Ops

/-!
# File tables

`filetable.c`, but for `filetable_remove`, which also closes vnodes. A table is an
array of handles, which are `NULL` or the address of a descriptor, and the index at
which the next one is added. A table that is `NULL` is one that could not be
allocated.
-/

namespace Os161

/-- `filetable_size`. -/
def FileTable.filetableSize (ft : FileTable) : Nat :=
  ft.handles.num

/-- `assert(ft)`. -/
def assertTable : Option FileTable → HeapM FileTable
  | none => halt .filetableNull
  | some ft => pure ft

/-- `filetable_get`; an index that is negative is left to `array_getguy`. -/
def filetableGet (table : Option FileTable) (i : Int) : HeapM (Option Nat) := do
  let ft ← assertTable table
  if (ft.filetableSize : Int) ≤ i then
    pure none
  else if i < 0 then
    halt .arrayIndex
  else
    ft.handles.arrayGetguy i.toNat

/-- `filetable_set`; the code for a `NULL` value is behind the assertion that it is not. -/
def filetableSet (table : Option FileTable) (i : Int) (val : Option Nat) : HeapM FileTable := do
  let ft ← assertTable table
  assert .filetableVal (val.isSome)
  assert .filetableIndex (0 ≤ i ∧ i < ft.filetableSize)
  assert .arrayNum (ft.handles.num ≤ ft.handles.max)
  pure { ft with handles := ft.handles.store i.toNat val }

/-- `for(i = ft->next; i < size && filetable_get(ft, i); i++)` in `filetable_add`. -/
def nextFree (ft : FileTable) : (fuel i : Nat) → HeapM Nat
  | 0, i => pure i
  | fuel + 1, i => do
      if i < ft.filetableSize then
        match ← filetableGet (some ft) i with
        | some _ => nextFree ft fuel (i + 1)
        | none => pure i
      else
        pure i

/-- `filetable_add`; the index, or -1, and the table afterwards. -/
def filetableAdd (table : Option FileTable) (val : Option Nat) : HeapM (Int × FileTable) := do
  let ft ← assertTable table
  assert .filetableVal (val.isSome)
  if ft.next < ft.filetableSize then
    let ft' ← filetableSet (some ft) ft.next val
    let next ← nextFree ft' ft'.filetableSize ft.next
    pure (ft.next, { ft' with next })
  else
    match ← attempt (ft.handles.arrayAdd val) with
    | .error _ => pure (-1, ft)
    | .ok handles => pure (ft.next, { handles, next := handles.num })

/-! ## What they do -/

def FileTable.lookup (ft : FileTable) (i : Int) : Option Nat :=
  if i < 0 then none else ft.handles.toList[i.toNat]?.join

variable {ft : FileTable} {panics : Panic → Prop} {fails : Errno → KHeap → Prop}

theorem filetableGet_eq (wf : ft.handles.WellFormed) (i : Int) (heap : KHeap) :
    filetableGet (some ft) i heap =
      if i < 0 then .error .arrayIndex else .ok (.ok (ft.lookup i), heap) := by
  have start : filetableGet (some ft) i heap = _ := bind_of_ok (Prog.pure_apply ft heap)
  rw [start]
  by_cases negative : i < 0
  · rw [if_neg (by omega), if_pos negative, if_pos negative]
    rfl
  · rw [if_neg negative, if_neg negative, FileTable.lookup, if_neg negative]
    have length := ft.handles.length_toList
    by_cases outside : (ft.filetableSize : Int) ≤ i
    · rw [if_pos outside,
        List.getElem?_eq_none (by simp only [FileTable.filetableSize] at *; omega)]
      rfl
    · have inside : i.toNat < ft.handles.num := by
        simp only [FileTable.filetableSize] at outside
        omega
      rw [if_neg outside, KArray.arrayGetguy_eq wf inside, List.getElem?_eq_getElem (by omega)]
      rfl

variable {heap : KHeap}

theorem ensures_filetableGet (wf : ft.handles.WellFormed) {i : Int} (notNegative : 0 ≤ i)
    {returns : Option Nat → KHeap → Prop} :
    Ensures (filetableGet (some ft) i) heap panics fails returns ↔
      returns (ft.lookup i) heap := by
  apply ensures_of_ok_eq
  rw [filetableGet_eq wf, if_neg (by omega)]

theorem filetableGet_returns (table : Option FileTable) (i : Int) :
    Ensures (filetableGet table i) heap (fun _ => True) fails
      (fun found heap' => heap' = heap ∧ found = table.bind fun ft => ft.lookup i) := by
  cases table with
  | none => trivial
  | some ft =>
      rw [filetableGet, assertTable, ensures_bind, ensures_pure]
      have length := ft.handles.length_toList
      apply ensures_branch
      · intro outside
        refine ⟨rfl, ?_⟩
        simp only [FileTable.filetableSize] at outside
        rw [bind_some, FileTable.lookup, if_neg (by omega), List.getElem?_eq_none (by omega)]
        rfl
      · intro inside
        apply ensures_branch
        · exact fun _ => trivial
        · intro notNegative
          simp only [FileTable.filetableSize] at inside
          rw [KArray.arrayGetguy]
          refine ensures_assert_then (fun _ => trivial) fun _ => ?_
          refine ensures_assert_then (fun _ => trivial) fun small => ?_
          refine ⟨rfl, ?_⟩
          rw [bind_some, FileTable.lookup, if_neg notNegative, List.getElem?_eq_getElem (by omega)]
          simp [KArray.toList]

theorem store_wellFormed {a : KArray (Option Nat)} (wf : a.WellFormed) (index : Nat)
    (guy : Option Nat) : (a.store index guy).WellFormed :=
  ⟨wf.num_le, fun _ => rfl⟩

theorem nextFree_spec (wf : ft.handles.WellFormed) (fuel i : Nat) :
    Ensures (nextFree ft fuel i) heap (fun _ => False) (fun _ _ => False)
      (fun _ heap' => heap' = heap) := by
  induction fuel generalizing i with
  | zero => rfl
  | succ fuel ih =>
      rw [nextFree]
      apply ensures_branch
      · intro _
        rw [ensures_bind, ensures_filetableGet wf (Int.natCast_nonneg i)]
        cases ft.lookup i with
        | none => rfl
        | some file => exact ih (i + 1)
      · intro _
        rfl

/-- The table has to grow and there is no memory for it. -/
def FileTable.Full (ft : FileTable) (heap : KHeap) : Prop :=
  ft.filetableSize ≤ ft.next ∧ ft.handles.num = ft.handles.max ∧ heap 0 = false

instance (ft : FileTable) (heap : KHeap) : Decidable (ft.Full heap) :=
  inferInstanceAs (Decidable (_ ∧ _ ∧ _))

theorem filetableAdd_index (table : Option FileTable) (file : Nat) :
    Ensures (filetableAdd table (some file)) heap (fun _ => True) (fun _ _ => True)
      (fun result _ => result.1 = -1 ↔ ∃ ft ∈ table, ft.Full heap) := by
  cases table with
  | none => trivial
  | some ft =>
      have only : (∃ ft' ∈ some ft, FileTable.Full ft' heap) ↔ ft.Full heap := by simp
      rw [filetableAdd, assertTable, ensures_bind, ensures_pure, only]
      refine ensures_assert_then (fun _ => trivial) fun _ => ?_
      apply ensures_branch
      · intro inside
        refine ensures_bind.mpr (ensures_any fun ft' _ => ?_)
        refine ensures_bind_any fun next _ => ?_
        apply iff_of_false
        · simp only
          omega
        · exact fun full => absurd full.1 (by omega)
      · intro atEnd
        rw [ensures_bind, ensures_attempt]
        apply (KArray.arrayAdd_fails_iff ft.handles (some file)).answers
        · rintro _ _ ⟨full, memory⟩
          exact iff_of_true rfl ⟨by omega, full, memory⟩
        · intro handles _ grown
          apply iff_of_false
          · simp only
            omega
          · exact fun full => grown full.2

theorem filetableAdd_spec (wf : ft.handles.WellFormed) (file : Nat) :
    Ensures (filetableAdd (some ft) (some file)) heap (fun _ => False) (fun _ _ => False)
      (fun result _ => result.2.handles.WellFormed ∧
        if ft.Full heap then result = (-1, ft)
        else result.1 = ft.next ∧ (ft.next = ft.filetableSize →
          result.2.next = result.2.filetableSize ∧
            result.2.handles.toList = ft.handles.toList ++ [some file])) := by
  rw [filetableAdd, assertTable, ensures_bind, ensures_pure]
  refine ensures_assert_then (fun wrong => wrong rfl) fun _ => ?_
  apply ensures_branch
  · intro inside
    have notFull : ¬ft.Full heap := fun full => absurd full.1 (by omega)
    rw [ensures_bind, filetableSet, assertTable, ensures_bind, ensures_pure]
    refine ensures_assert_then (fun wrong => wrong rfl) fun _ => ?_
    refine ensures_assert_then (fun wrong => wrong (by omega)) fun _ => ?_
    refine ensures_assert_then (fun wrong => wrong wf.num_le) fun _ => ?_
    rw [ensures_pure, ensures_bind]
    apply (nextFree_spec (by exact store_wellFormed wf _ _) _ _).imp
    intro next _ _
    rw [ensures_pure, if_neg notFull]
    refine ⟨store_wellFormed wf _ _, rfl, ?_⟩
    intro atEnd
    omega
  · intro atEnd
    rw [ensures_bind, ensures_attempt]
    rcases KArray.arrayAdd_eq wf (some file) heap with ⟨room, handles, outcome, wf', list, _⟩ |
      ⟨full, memory, outcome⟩ | ⟨full, memory, handles, outcome, wf', list, _⟩
    · have notFull : ¬ft.Full heap := fun full => absurd full.2.1 (by omega)
      rw [ensures_of_ok_eq outcome, ensures_pure, if_neg notFull]
      exact ⟨wf', rfl, fun _ => ⟨rfl, list⟩⟩
    · rw [ensures_of_fail_eq outcome, ensures_pure, if_pos ⟨Nat.le_of_not_lt atEnd, full, memory⟩]
      exact ⟨wf, rfl⟩
    · have notFull : ¬ft.Full heap := by
        rintro ⟨_, _, refused⟩
        rw [memory] at refused
        cases refused
      rw [ensures_of_ok_eq outcome, ensures_pure, if_neg notFull]
      exact ⟨wf', rfl, fun _ => ⟨rfl, list⟩⟩

end Os161
