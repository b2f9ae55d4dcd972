import Os161.Syscall.Filetable

/-!
# Where file tables put descriptors

A file table remembers in `next` the first index that is empty. `FileTable.FirstFit`
says so, and `filetable_add` keeps it: it fills that slot and looks for the next empty
one from there on, or makes the table longer.

`filetable_copy` builds the copy by adding the handles of the original one after
another. Since it sets `next` of the copy to that of the original before, and since
`filetable_add` refuses `NULL`, the copy is right for the tables without an empty
slot and for no others.
-/

namespace Os161

open KArray FileTable

variable {ft : FileTable} {heap : KHeap}

/-! ## The first empty slot -/

/-- The first index that is empty, or the size of the table. -/
def FileTable.leastEmpty (ft : FileTable) : Nat :=
  ft.handles.toList.findIdx Option.isNone

/-- `next` is the first index that is empty, or the size of the table. -/
structure FileTable.FirstFit (ft : FileTable) : Prop where
  wf : ft.handles.WellFormed
  next_le : ft.next ≤ ft.filetableSize
  occupied : ∀ i : Nat, i < ft.next → (ft.lookup i).isSome
  empty : ft.next < ft.filetableSize → ft.lookup ft.next = none

theorem FileTable.lookup_natCast (ft : FileTable) (i : Nat) :
    ft.lookup i = ft.handles.toList[i]?.join := by
  rw [lookup, if_neg (by omega), Int.toNat_natCast]

variable {i : Nat} {copy : FileTable}

theorem FileTable.lookup_of_le (outside : ft.filetableSize ≤ i) : ft.lookup i = none := by
  rw [lookup_natCast, List.getElem?_eq_none]
  · rfl
  · rwa [length_toList]

/-- The slots before the first empty one and that one itself. -/
theorem FileTable.leastEmpty_eq {n : Nat} (inside : n ≤ ft.filetableSize)
    (occupied : ∀ i : Nat, i < n → (ft.lookup i).isSome)
    (empty : n < ft.filetableSize → ft.lookup n = none) : ft.leastEmpty = n := by
  have length : ft.handles.toList.length = ft.filetableSize := length_toList _
  rw [leastEmpty]
  by_cases atEnd : n = ft.filetableSize
  · rw [atEnd, ← length, List.findIdx_eq_length]
    intro handle member
    rcases List.getElem_of_mem member with ⟨i, below, rfl⟩
    have some := occupied i (by omega)
    rw [lookup_natCast, List.getElem?_eq_getElem below, Option.join_some] at some
    simpa using some
  · rw [List.findIdx_eq (by omega)]
    constructor
    · have none := empty (by omega)
      rw [lookup_natCast, List.getElem?_eq_getElem (by omega), Option.join_some] at none
      rw [none]
      rfl
    · intro i below
      have some := occupied i below
      rw [lookup_natCast, List.getElem?_eq_getElem (by omega), Option.join_some] at some
      simpa using some

theorem FileTable.FirstFit.next_eq (fit : ft.FirstFit) : ft.leastEmpty = ft.next :=
  leastEmpty_eq fit.next_le fit.occupied fit.empty

theorem FileTable.lookup_store {index : Nat} (inside : index < ft.filetableSize)
    (handle : Option Nat) (next : Nat) (i : Int) :
    lookup { handles := ft.handles.store index handle, next } i =
      if i = index then handle else ft.lookup i := by
  by_cases negative : i < 0
  · rw [lookup, lookup, if_pos negative, if_pos negative, if_neg (by omega)]
  · obtain ⟨i, rfl⟩ : ∃ k : Nat, i = k := ⟨i.toNat, by omega⟩
    have length : ft.handles.toList.length = ft.handles.num := length_toList _
    have length' : (ft.handles.store index handle).toList.length = ft.handles.num :=
      length_toList _
    rw [lookup_natCast, lookup_natCast]
    simp only [Int.natCast_inj]
    by_cases below : i < ft.handles.num
    · rw [List.getElem?_eq_getElem (by omega), List.getElem?_eq_getElem (by omega)]
      by_cases same : i = index
      · simp [same, toList, store, slots]
      · simp [same, toList, store, slots]
    · have different : i ≠ index := by
        simp only [filetableSize] at inside
        omega
      rw [if_neg different, List.getElem?_eq_none (by omega), List.getElem?_eq_none (by omega)]

theorem FileTable.lookup_append {handles : KArray (Option Nat)} {handle : Option Nat}
    (listEq : handles.toList = ft.handles.toList ++ [handle]) (next : Nat) (i : Int) :
    lookup { handles, next } i =
      if i = ft.filetableSize then handle else ft.lookup i := by
  have length : ft.handles.toList.length = ft.filetableSize := length_toList _
  by_cases negative : i < 0
  · rw [lookup, lookup, if_pos negative, if_pos negative, if_neg (by omega)]
  · obtain ⟨i, rfl⟩ : ∃ k : Nat, i = k := ⟨i.toNat, by omega⟩
    rw [lookup_natCast, lookup_natCast]
    simp only [Int.natCast_inj, listEq]
    rcases Nat.lt_trichotomy i ft.filetableSize with below | same | above
    · rw [if_neg (by omega), List.getElem?_append_left (by omega)]
    · rw [if_pos same, same, ← length, List.getElem?_concat_length]
      rfl
    · rw [if_neg (by omega),
        List.getElem?_eq_none (by rw [length_append, List.length_singleton]; omega),
        List.getElem?_eq_none (by omega)]

/-! ## `filetable_add` -/

theorem nextFree_first (wf : ft.handles.WellFormed) (fuel i : Nat)
    (enough : ft.filetableSize ≤ i + fuel) (inside : i ≤ ft.filetableSize) :
    Ensures (nextFree ft fuel i) heap (fun _ => False) (fun _ _ => False)
      (fun n heap' => heap' = heap ∧ i ≤ n ∧ n ≤ ft.filetableSize ∧
        (∀ j : Nat, i ≤ j → j < n → (ft.lookup j).isSome) ∧
        (n < ft.filetableSize → ft.lookup n = none)) := by
  have stop : ∀ i : Nat, ∀ j : Nat, i ≤ j → j < i → (ft.lookup j).isSome :=
    fun _ _ le lt => absurd lt (by omega)
  induction fuel generalizing i with
  | zero => exact ⟨rfl, le_rfl, inside, stop i, fun below => by omega⟩
  | succ fuel ih =>
      rw [nextFree]
      apply ensures_branch
      · intro below
        rw [ensures_bind, ensures_filetableGet wf (Int.natCast_nonneg i)]
        cases found : ft.lookup i with
        | none => exact ⟨rfl, le_rfl, inside, stop i, fun _ => found⟩
        | some file =>
            apply (ih (i + 1) (by omega) below).imp
            rintro n _ ⟨rfl, less, n_le, between, empty⟩
            refine ⟨rfl, by omega, n_le, ?_, empty⟩
            intro j le lt
            by_cases first : j = i
            · rw [first, found]
              rfl
            · exact between j (by omega) lt
      · intro atEnd
        exact ⟨rfl, le_rfl, inside, stop i, fun below => absurd below atEnd⟩

/-- The descriptor is in the first empty slot, and nothing else has changed. -/
structure FileTable.AddedAt (ft : FileTable) (index file : Nat) (ft' : FileTable) : Prop where
  fit : ft'.FirstFit
  size : ft'.filetableSize = max ft.filetableSize (index + 1)
  lookup : ∀ i : Int, ft'.lookup i = if i = index then some file else ft.lookup i

theorem FileTable.FirstFit.fill (fit : ft.FirstFit) (inside : ft.next < ft.filetableSize)
    (file : Nat) :
    Ensures (filetableAdd (some ft) (some file)) heap (fun _ => False) (fun _ _ => False)
      (fun result heap' => heap' = heap ∧ result.1 = ft.next ∧
        ft.AddedAt ft.next file result.2) := by
  rw [filetableAdd, assertTable, ensures_bind, ensures_pure]
  refine ensures_assert_then (fun wrong => wrong rfl) fun _ => ?_
  rw [if_pos inside, ensures_bind, filetableSet, assertTable, ensures_bind, ensures_pure]
  refine ensures_assert_then (fun wrong => wrong rfl) fun _ => ?_
  refine ensures_assert_then (fun wrong => wrong (by omega)) fun _ => ?_
  refine ensures_assert_then (fun wrong => wrong fit.wf.num_le) fun _ => ?_
  rw [ensures_pure, ensures_bind, Int.toNat_natCast]
  have stored := lookup_store inside (some file)
  have wf := store_wellFormed fit.wf ft.next (some file)
  apply (nextFree_first (by exact wf) _ _ (Nat.le_add_left ..) (by exact inside.le)).imp
  rintro n _ ⟨rfl, from_next, n_le, between, empty⟩
  refine ⟨rfl, rfl, ⟨wf, n_le, ?_, ?_⟩, ?_, stored n⟩
  · intro i below
    rw [stored]
    split
    · rfl
    · by_cases before : i < ft.next
      · exact fit.occupied i before
      · have occupied := between i (by omega) below
        rwa [stored, if_neg (by omega)] at occupied
  · intro below
    rw [stored]
    have none := empty below
    rwa [stored] at none
  · exact (Nat.max_eq_left inside).symm

theorem filetableAdd_append (wf : ft.handles.WellFormed) (atEnd : ft.filetableSize ≤ ft.next)
    (file : Nat) :
    Ensures (filetableAdd (some ft) (some file)) heap (fun _ => False) (fun _ _ => False)
      (fun result heap' => ft.Full heap ∧ result = (-1, ft) ∨
        ¬ft.Full heap ∧ result.1 = ft.next ∧ result.2.handles.WellFormed ∧
          result.2.handles.toList = ft.handles.toList ++ [some file] ∧
          result.2.next = result.2.filetableSize ∧ (heap' = heap ∨ heap' = heap.after 1)) := by
  rw [filetableAdd, assertTable, ensures_bind, ensures_pure]
  refine ensures_assert_then (fun wrong => wrong rfl) fun _ => ?_
  rw [if_neg (by omega), ensures_bind, ensures_attempt]
  rcases arrayAdd_eq wf (some file) heap with ⟨room, handles, outcome, wf', list, _⟩ |
    ⟨full, memory, outcome⟩ | ⟨full, memory, handles, outcome, wf', list, _⟩
  · have notFull : ¬ft.Full heap := fun full => absurd full.2.1 (by omega)
    rw [ensures_of_ok_eq outcome, ensures_pure]
    exact Or.inr ⟨notFull, rfl, wf', list, rfl, Or.inl rfl⟩
  · rw [ensures_of_fail_eq outcome, ensures_pure]
    exact Or.inl ⟨⟨atEnd, full, memory⟩, rfl⟩
  · have notFull : ¬ft.Full heap := by
      rintro ⟨_, _, refused⟩
      rw [memory] at refused
      cases refused
    rw [ensures_of_ok_eq outcome, ensures_pure]
    exact Or.inr ⟨notFull, rfl, wf', list, rfl, Or.inr rfl⟩

theorem FileTable.FirstFit.append (fit : ft.FirstFit) (atEnd : ft.next = ft.filetableSize)
    {file : Nat} {ft' : FileTable} (wf : ft'.handles.WellFormed)
    (listEq : ft'.handles.toList = ft.handles.toList ++ [some file])
    (nextEq : ft'.next = ft'.filetableSize) : ft.AddedAt ft.next file ft' := by
  have sizeEq : ft'.filetableSize = ft.filetableSize + 1 := by
    have lengths := congrArg List.length listEq
    rwa [length_append, length_toList, length_toList] at lengths
  have lookup : ∀ i : Int, ft'.lookup i = if i = ft.next then some file else ft.lookup i := by
    intro i
    rw [atEnd]
    exact lookup_append listEq ft'.next i
  refine ⟨⟨wf, nextEq.le, ?_, fun below => by omega⟩, by omega, lookup⟩
  intro i below
  rw [lookup]
  split
  · rfl
  · exact fit.occupied i (by omega)

theorem FileTable.FirstFit.add (fit : ft.FirstFit) (file : Nat) :
    Ensures (filetableAdd (some ft) (some file)) heap (fun _ => False) (fun _ _ => False)
      (fun result _ => ft.Full heap ∧ result = (-1, ft) ∨
        ¬ft.Full heap ∧ result.1 = ft.leastEmpty ∧ ft.AddedAt ft.leastEmpty file result.2) := by
  rw [fit.next_eq]
  by_cases inside : ft.next < ft.filetableSize
  · have notFull : ¬ft.Full heap := fun full => absurd full.1 (by omega)
    apply (fit.fill inside file).imp
    rintro result _ ⟨_, indexEq, added⟩
    exact Or.inr ⟨notFull, indexEq, added⟩
  · apply (filetableAdd_append fit.wf (by omega) file).imp
    rintro result _ (full | ⟨notFull, indexEq, wf, listEq, nextEq, _⟩)
    · exact Or.inl full
    · have atEnd : ft.next = ft.filetableSize := le_antisymm fit.next_le (by omega)
      exact Or.inr ⟨notFull, indexEq, fit.append atEnd wf listEq nextEq⟩

theorem emptyTable_firstFit : FileTable.FirstFit { handles := empty, next := 0 } :=
  ⟨empty_wellFormed, le_rfl, fun _ below => absurd below (Nat.not_lt_zero _),
    fun below => absurd below (Nat.not_lt_zero _)⟩

theorem filetableCreate_table (heap : KHeap) :
    Ensures filetableCreate heap (fun _ => False) (fun _ _ => False)
      (fun table heap' =>
        if heap.Grants 2 then
          table = some { handles := empty, next := 0 } ∧ heap' = heap.after 2
        else table = none) := by
  have grants : heap.Grants 2 ↔ heap 0 = true ∧ heap 1 = true := by
    simp [KHeap.grants_succ, KHeap.grants_zero, KHeap.after]
  rw [filetableCreate, ensures_bind, ensures_kmalloc]
  cases first : heap 0 with
  | false => simp [grants, first]
  | true =>
      rw [if_pos rfl, ensures_bind, arrayCreate, ensures_bind, ensures_kmalloc]
      cases second : heap 1 with
      | false => simp [grants, second, KHeap.after]
      | true => simp [grants, first, second, KHeap.after]; rfl

/-- `filetable_create` makes a table that is in order, and `filetable_add` keeps it so: a
descriptor gets the first empty index and no other is touched, or there is no memory and nothing
changes. -/
theorem filetable_add_first_fit :
    (∀ heap : KHeap, Prog.Ensures filetableCreate heap (fun _ => False) (fun _ _ => False)
      (fun table _ => (heap.Grants 2 → table.isSome) ∧
        ∀ ft ∈ table, ft.FirstFit ∧ ft.filetableSize = 0)) ∧
    ∀ (ft : FileTable) (file : Nat) (heap : KHeap), ft.FirstFit →
      Prog.Ensures (filetableAdd (some ft) (some file)) heap (fun _ => False) (fun _ _ => False)
        (fun result _ => ft.Full heap ∧ result = (-1, ft) ∨
          result.1 = ft.leastEmpty ∧ ft.AddedAt ft.leastEmpty file result.2) := by
  constructor
  · intro heap
    apply (filetableCreate_table heap).imp
    intro table _ created
    split at created
    · rcases created with ⟨rfl, _⟩
      refine ⟨fun _ => rfl, ?_⟩
      rintro _ ⟨⟩
      exact ⟨emptyTable_firstFit, rfl⟩
    · rename_i refused
      subst created
      exact ⟨fun granted => absurd granted refused, fun _ member => nomatch member⟩
  · intro ft file heap fit
    apply (fit.add file).imp
    rintro result _ (full | ⟨_, added⟩)
    · exact Or.inl full
    · exact Or.inr added

/-- A table of three slots of which the middle one is empty. -/
def holedTable : FileTable :=
  { handles :=
      { num := 3, max := 4, v := some fun slot => if slot = 1 then none else some (slot + 5) }
    next := 1 }

theorem holedTable_firstFit : holedTable.FirstFit :=
  ⟨⟨by decide, fun _ => rfl⟩, by decide, by decide, fun _ => rfl⟩

theorem filetable_add_first_fit_holed :
    holedTable.FirstFit ∧
      Prog.Ensures (filetableAdd (some holedTable) (some 8)) enoughMemory (fun _ => False)
        (fun _ _ => False)
        (fun result _ => holedTable.Full enoughMemory ∧ result = (-1, holedTable) ∨
          result.1 = holedTable.leastEmpty ∧
            holedTable.AddedAt holedTable.leastEmpty 8 result.2) :=
  ⟨holedTable_firstFit,
    filetable_add_first_fit.2 holedTable 8 enoughMemory holedTable_firstFit⟩

/-! ## `filetable_copy` -/

/-- The loop in `filetable_copy`, with `todo` handles left, from the index `i` on. -/
def filetableCopyLoop (ft : FileTable) : (todo i : Nat) → FileTable → HeapM FileTable
  | 0, _, copy => pure copy
  | todo + 1, i, copy => do
      let handle ← filetableGet (some ft) i
      let (_, copy) ← filetableAdd (some copy) handle
      filetableCopyLoop ft todo (i + 1) copy

/-- `filetable_copy`. -/
def filetableCopy (table : Option FileTable) : HeapM (Option FileTable) := do
  let ft ← assertTable table
  match ← filetableCreate with
  | none => pure none
  | some copy =>
      let copy ← filetableCopyLoop ft ft.filetableSize 0 { copy with next := ft.next }
      pure (some copy)

/-- The two tables have the same handles at the same indices, and the next descriptor gets the same
index in both. -/
structure FileTable.SameIndices (ft copy : FileTable) : Prop where
  lookup : ∀ i : Int, copy.lookup i = ft.lookup i
  add : ∀ (file : Nat) (heap : KHeap), (∀ call, heap call = true) → ∃ index,
    Prog.Ensures (filetableAdd (some ft) (some file)) heap (fun _ => False) (fun _ _ => False)
      (fun result _ => result.1 = index) ∧
    Prog.Ensures (filetableAdd (some copy) (some file)) heap (fun _ => False) (fun _ _ => False)
      (fun result _ => result.1 = index)

/-- With enough memory the copy has everything at the same index. -/
def FileTable.CopiesIndices (ft : FileTable) : Prop :=
  ∀ heap : KHeap, (∀ call, heap call = true) →
    Prog.Ensures (filetableCopy (some ft)) heap (fun _ => False) (fun _ _ => False)
      (fun copy _ => ∃ copy' ∈ copy, ft.SameIndices copy')

/-- The copy refuses an empty slot, wherever it is. -/
theorem filetableCopyLoop_hole (wf : ft.handles.WellFormed) {hole : Nat}
    (empty : ft.lookup hole = none) (todo i : Nat) (copy : FileTable) (from_i : i ≤ hole)
    (before : hole < i + todo) :
    Ensures (filetableCopyLoop ft todo i copy) heap (fun _ => True) (fun _ _ => True)
      (fun _ _ => False) := by
  induction todo generalizing i copy heap with
  | zero => omega
  | succ todo ih =>
      rw [filetableCopyLoop, ensures_bind, ensures_filetableGet wf (Int.natCast_nonneg i)]
      by_cases here : i = hole
      · rw [here, empty]
        trivial
      · rw [ensures_bind]
        exact ensures_any fun result heap' => ih (i + 1) result.2 (by omega) (by omega)

/-- How far the copy of a table without empty slots has come. -/
structure CopiedTo (ft : FileTable) (i : Nat) (copy : FileTable) : Prop where
  wf : copy.handles.WellFormed
  list : copy.handles.toList = ft.handles.toList.take i
  next : copy.next = if i = 0 then ft.next else i

theorem CopiedTo.size_eq (copied : CopiedTo ft i copy) (inside : i ≤ ft.filetableSize) :
    copy.filetableSize = i := by
  have lengths := congrArg List.length copied.list
  rw [List.length_take, length_toList, length_toList] at lengths
  simp only [filetableSize] at inside ⊢
  omega

theorem CopiedTo.step {file : Nat} (copied : CopiedTo ft i copy) (inside : i < ft.filetableSize)
    (found : ft.lookup i = some file) (memory : ∀ call, heap call = true) :
    Ensures (filetableAdd (some copy) (some file)) heap (fun _ => False) (fun _ _ => False)
      (fun result heap' => CopiedTo ft (i + 1) result.2 ∧ ∀ call, heap' call = true) := by
  have sizeEq := copied.size_eq inside.le
  have atEnd : copy.filetableSize ≤ copy.next := by
    rw [copied.next, sizeEq]
    split <;> omega
  apply (filetableAdd_append copied.wf atEnd file).imp
  rintro ⟨_, copy'⟩ heap' (⟨full, _⟩ | ⟨_, _, wf, listEq, nextEq, heapEq⟩)
  · rw [FileTable.Full, memory 0] at full
    cases full.2.2
  · have handleEq : ft.handles.toList[i]? = some (some file) := by
      rwa [lookup_natCast, Option.join_eq_some_iff] at found
    have list : copy'.handles.toList = ft.handles.toList.take (i + 1) := by
      rw [listEq, copied.list, List.take_add_one, handleEq]
      rfl
    have sizeEq' : copy'.filetableSize = copy.filetableSize + 1 := by
      have lengths := congrArg List.length listEq
      rwa [length_append, length_toList, length_toList] at lengths
    refine ⟨⟨wf, list, ?_⟩, ?_⟩
    · rw [nextEq, if_neg (by omega), sizeEq', sizeEq]
    · intro call
      rcases heapEq with rfl | rfl
      · exact memory call
      · exact memory (call + 1)

theorem filetableCopyLoop_copied (wf : ft.handles.WellFormed)
    (occupied : ∀ i < ft.filetableSize, (ft.lookup i).isSome) (todo i : Nat)
    (copied : CopiedTo ft i copy) (all : i + todo = ft.filetableSize)
    (memory : ∀ call, heap call = true) :
    Ensures (filetableCopyLoop ft todo i copy) heap (fun _ => False) (fun _ _ => False)
      (fun copy' _ => CopiedTo ft ft.filetableSize copy') := by
  induction todo generalizing i copy heap with
  | zero =>
      obtain rfl : i = ft.filetableSize := by omega
      exact copied
  | succ todo ih =>
      rw [filetableCopyLoop, ensures_bind, ensures_filetableGet wf (Int.natCast_nonneg i)]
      rcases isSome_iff_exists.mp (occupied i (by omega)) with ⟨file, found⟩
      rw [found, ensures_bind]
      apply (copied.step (by omega) found memory).imp
      rintro ⟨_, copy'⟩ heap' ⟨copied', memory'⟩
      exact ih (i + 1) copied' (by omega) memory'

/-- A whole copy of a table without empty slots. -/
theorem CopiedTo.sameIndices (fit : ft.FirstFit) (full : ft.next = ft.filetableSize)
    (copied : CopiedTo ft ft.filetableSize copy) : ft.SameIndices copy := by
  have listEq : copy.handles.toList = ft.handles.toList := by
    rw [copied.list, List.take_of_length_le]
    exact (length_toList _).le
  have lookupEq : ∀ i : Int, copy.lookup i = ft.lookup i := by
    intro i
    rw [lookup, lookup, listEq]
  have nextEq : copy.next = ft.next := by
    rw [copied.next, full]
    split <;> omega
  have sizeEq := copied.size_eq le_rfl
  have fit' : copy.FirstFit := by
    refine ⟨copied.wf, by omega, ?_, fun below => by omega⟩
    intro i below
    rw [lookupEq]
    exact fit.occupied i (by omega)
  have notFull : ∀ {table : FileTable} {heap : KHeap}, (∀ call, heap call = true) →
      ¬table.Full heap := by
    intro table heap memory refused
    rw [FileTable.Full, memory 0] at refused
    cases refused.2.2
  refine ⟨lookupEq, fun file heap memory => ⟨ft.leastEmpty, ?_, ?_⟩⟩
  · apply (fit.add file).imp
    rintro result _ (⟨refused, _⟩ | ⟨_, indexEq, _⟩)
    · exact absurd refused (notFull memory)
    · exact indexEq
  · apply (fit'.add file).imp
    rintro result _ (⟨refused, _⟩ | ⟨_, indexEq, _⟩)
    · exact absurd refused (notFull memory)
    · rw [indexEq, fit'.next_eq, fit.next_eq, nextEq]

/-- `filetable_copy` keeps all indices exactly when the table has no empty slot: it hands an empty
slot on to `filetable_add`, which asserts that there is a descriptor. -/
theorem filetable_copy_indices_iff (fit : ft.FirstFit) :
    ft.CopiesIndices ↔ none ∉ ft.handles.toList := by
  have length : ft.handles.toList.length = ft.filetableSize := KArray.length_toList _
  constructor
  · intro copies hole
    rcases List.getElem?_of_mem hole with ⟨i, found⟩
    have below : i < ft.filetableSize := by
      rw [← length]
      exact (List.getElem?_eq_some_iff.mp found).1
    have empty : ft.lookup i = none := by
      rw [FileTable.lookup_natCast, found]
      rfl
    have copied := copies enoughMemory fun _ => rfl
    rw [filetableCopy, assertTable, ensures_bind, ensures_pure,
      ensures_bind] at copied
    have created := filetableCreate_table enoughMemory
    rcases (copied.and created).outcomes with ⟨_, _, impossible⟩ | ⟨_, _, _, impossible⟩ |
      ⟨table, heap, _, after, isTable⟩
    · exact impossible.1
    · exact impossible.1
    rw [if_pos (by decide)] at isTable
    rcases isTable with ⟨rfl, _⟩
    dsimp only at after
    rw [ensures_bind] at after
    have halted : Prog.Ensures (filetableCopyLoop ft ft.filetableSize 0
        { handles := KArray.empty, next := ft.next }) heap _ _ _ :=
      filetableCopyLoop_hole fit.wf empty ft.filetableSize 0 _ (Nat.zero_le _) (by omega)
    rcases (after.and halted).outcomes with ⟨_, _, impossible⟩ | ⟨_, _, _, impossible⟩ |
      ⟨_, _, _, impossible⟩
    · exact impossible.1
    · exact impossible.1
    · exact impossible.2
  · intro noHole heap memory
    have occupied : ∀ i < ft.filetableSize, (ft.lookup (i : Nat)).isSome := by
      intro i below
      rw [Option.isSome_iff_ne_none, FileTable.lookup_natCast,
        List.getElem?_eq_getElem (by omega)]
      exact fun none => noHole (none ▸ List.getElem_mem _)
    have full : ft.next = ft.filetableSize := by
      by_contra different
      have below : ft.next < ft.filetableSize := lt_of_le_of_ne fit.next_le different
      have some := occupied _ below
      rw [fit.empty below] at some
      cases some
    rw [filetableCopy, assertTable, ensures_bind, ensures_pure, ensures_bind]
    apply (filetableCreate_table heap).imp
    intro table heap' created
    have granted : heap.Grants 2 := fun call _ => memory call
    rw [if_pos granted] at created
    rcases created with ⟨rfl, rfl⟩
    have start : CopiedTo ft 0 { handles := KArray.empty, next := ft.next } :=
      ⟨KArray.empty_wellFormed, rfl, rfl⟩
    dsimp only
    rw [ensures_bind]
    apply (filetableCopyLoop_copied fit.wf occupied _ 0 start (by omega)
      fun call => memory (call + 2)).imp
    intro copy _ copied
    exact ⟨copy, rfl, copied.sameIndices fit full⟩

def filledTable : FileTable :=
  { handles := { num := 3, max := 4, v := some fun slot => some (slot + 5) }, next := 3 }

theorem filledTable_firstFit : filledTable.FirstFit :=
  ⟨⟨by decide, fun _ => rfl⟩, by decide, by decide, fun below => absurd below (by decide)⟩

theorem filetable_copy_indices_filled :
    filledTable.FirstFit ∧ filledTable.CopiesIndices :=
  ⟨filledTable_firstFit, (filetable_copy_indices_iff filledTable_firstFit).mpr (by decide)⟩

/-- A table with a closed descriptor cannot be copied. -/
theorem filetable_copy_panics_on_hole :
    holedTable.FirstFit ∧
      filetableCopy (some holedTable) enoughMemory = .error .filetableVal :=
  ⟨holedTable_firstFit, rfl⟩

end Os161
