import Os161.Kern.Base

/-!
# Arrays

The resizeable array of `kern/lib/array.c`: `num` elements in a block of `max`
slots, or no block at all. Slots that were never written hold `default`, which
stands for whatever the memory held. `array_preallocate` always allocates a new
block, also when the old one is large enough; `array_setsize` gives the block
back when the array becomes empty and the block has more than 16 slots.

`KArray.toList` is the content, and the lemmas say what each operation does to it.
-/

namespace Os161

/-- `struct array`; `v` is `NULL` or a block of `max` slots. -/
structure KArray (α : Type) where
  num : Nat
  max : Nat
  v : Option (Nat → α)

namespace KArray

variable {α : Type}

def empty : KArray α :=
  { num := 0, max := 0, v := none }

/-- `array_create`. -/
def arrayCreate : HeapM (Option (KArray α)) := do
  if ← kmalloc then
    pure (some empty)
  else
    pure none

variable [Inhabited α]

/-- The slots behind the pointer `v`. -/
def slots (a : KArray α) : Nat → α :=
  a.v.getD fun _ => default

/-- `array_getguy`. -/
def arrayGetguy (a : KArray α) (index : Nat) : HeapM α := do
  assert .arrayNum (a.num ≤ a.max)
  assert .arrayIndex (index < a.num)
  pure (a.slots index)

/-- `while (nguys > newmax)` in `array_preallocate`. -/
def growMax : (fuel newmax nguys : Nat) → Nat
  | 0, newmax, _ => newmax
  | fuel + 1, newmax, nguys =>
      if newmax < nguys then growMax fuel ((newmax + 1) * 2) nguys else newmax

/-- `array_preallocate`. -/
def arrayPreallocate (a : KArray α) (nguys : Nat) : HeapM (KArray α) := do
  assert .arrayNum (a.num ≤ a.max)
  if ← kmalloc then
    pure { a with
      max := growMax nguys a.max nguys
      v := some fun slot => if slot < a.num then a.slots slot else default }
  else
    fail .enomem

/-- `array_setsize`. -/
def arraySetsize (a : KArray α) (nguys : Nat) : HeapM (KArray α) := do
  assert .arrayNum (a.num ≤ a.max)
  if a.max < nguys then do
    let a ← arrayPreallocate a nguys
    pure { a with num := nguys }
  else if nguys = 0 ∧ 16 < a.max then do
    assert .arrayStorage (a.v.isSome)
    pure { num := nguys, max := 0, v := none }
  else
    pure { a with num := nguys }

/-- The array with `guy` in the slot `index`. -/
def store (a : KArray α) (index : Nat) (guy : α) : KArray α :=
  { a with v := some fun slot => if slot = index then guy else a.slots slot }

/-- `array_setguy`. -/
def arraySetguy (a : KArray α) (index : Nat) (ptr : α) : HeapM (KArray α) := do
  assert .arrayNum (a.num ≤ a.max)
  assert .arrayIndex (index < a.num)
  pure (a.store index ptr)

/-- `array_add`. -/
def arrayAdd (a : KArray α) (guy : α) : HeapM (KArray α) := do
  let grown ← arraySetsize a (a.num + 1)
  pure (grown.store a.num guy)

/-- The array with the elements after `index` moved down by one. -/
def moveDown (a : KArray α) (index : Nat) : KArray α :=
  { a with
    num := a.num - 1
    v := some fun slot =>
      if index ≤ slot ∧ slot + 1 < a.num then a.slots (slot + 1) else a.slots slot }

/-- `array_remove`. -/
def arrayRemove (a : KArray α) (index : Nat) : HeapM (KArray α) := do
  assert .arrayNum (a.num ≤ a.max)
  assert .arrayIndex (index < a.num)
  pure (a.moveDown index)

/-! ## The array as a list -/

/-- The first `num` slots. -/
def toList (a : KArray α) : List α :=
  (List.range a.num).map a.slots

/-- The elements lie inside the block, and there is a block when there are slots. -/
structure WellFormed (a : KArray α) : Prop where
  num_le : a.num ≤ a.max
  block : 0 < a.max → a.v.isSome

@[simp]
theorem length_toList (a : KArray α) : a.toList.length = a.num := by
  simp [toList]

omit [Inhabited α] in
theorem empty_wellFormed : (empty : KArray α).WellFormed :=
  ⟨le_rfl, fun positive => absurd positive (lt_irrefl 0)⟩

@[simp]
theorem empty_toList : (empty : KArray α).toList = [] := rfl

theorem growMax_le (fuel newmax nguys : Nat) : newmax ≤ growMax fuel newmax nguys := by
  induction fuel generalizing newmax with
  | zero => exact le_rfl
  | succ fuel ih =>
      rw [growMax]
      split
      · exact le_trans (by omega) (ih ((newmax + 1) * 2))
      · exact le_rfl

theorem le_growMax {fuel newmax nguys : Nat} (enough : nguys ≤ newmax + fuel) :
    nguys ≤ growMax fuel newmax nguys := by
  induction fuel generalizing newmax with
  | zero => simpa [growMax] using enough
  | succ fuel ih =>
      rw [growMax]
      split
      · apply ih
        omega
      · omega

variable {a : KArray α} {index : Nat}

/-- `array_preallocate` keeps the elements and makes room, or runs out of memory. -/
theorem arrayPreallocate_eq (wf : a.WellFormed) (nguys : Nat) (heap : KHeap) :
    (heap 0 = false ∧
        arrayPreallocate a nguys heap = .ok (.error .enomem, heap.after 1)) ∨
      (heap 0 = true ∧ ∃ a' : KArray α,
        arrayPreallocate a nguys heap = .ok (.ok a', heap.after 1) ∧
        a'.WellFormed ∧ a'.toList = a.toList ∧ nguys ≤ a'.max ∧ a.max ≤ a'.max) := by
  have start : arrayPreallocate a nguys heap = _ :=
    bind_of_ok (assert_of wf.num_le heap)
  rw [start, bind_of_ok (kmalloc_apply heap)]
  cases memory : heap 0 with
  | false => exact Or.inl ⟨rfl, rfl⟩
  | true =>
      refine Or.inr ⟨rfl, _, rfl, ⟨?_, ?_⟩, ?_, ?_, ?_⟩
      · exact le_trans wf.num_le (growMax_le _ _ _)
      · intro _
        rfl
      · apply List.map_congr_left
        intro slot slot_mem
        have slot_lt : slot < a.num := by simpa using slot_mem
        simp [slots, slot_lt]
      · exact le_growMax (by omega)
      · exact growMax_le _ _ _

theorem store_toList (guy : α) :
    ({ a with num := a.num + 1 }.store a.num guy).toList = a.toList ++ [guy] := by
  unfold toList
  simp only [store]
  rw [List.range_succ, List.map_append, List.map_singleton]
  congr 1
  · apply List.map_congr_left
    intro slot slot_mem
    have slot_ne : slot ≠ a.num := by
      have : slot < a.num := by simpa using slot_mem
      omega
    simp [slots, slot_ne]
  · simp [slots]

/-- `array_add` appends, and needs memory only when all slots are taken. -/
theorem arrayAdd_eq (wf : a.WellFormed) (guy : α) (heap : KHeap) :
    (a.num < a.max ∧ ∃ a' : KArray α,
        arrayAdd a guy heap = .ok (.ok a', heap) ∧
        a'.WellFormed ∧ a'.toList = a.toList ++ [guy] ∧ a'.max = a.max) ∨
      (a.num = a.max ∧ heap 0 = false ∧
        arrayAdd a guy heap = .ok (.error .enomem, heap.after 1)) ∨
      (a.num = a.max ∧ heap 0 = true ∧ ∃ a' : KArray α,
        arrayAdd a guy heap = .ok (.ok a', heap.after 1) ∧
        a'.WellFormed ∧ a'.toList = a.toList ++ [guy] ∧ a.max ≤ a'.max) := by
  have num_le := wf.num_le
  have start : arraySetsize a (a.num + 1) heap = _ :=
    bind_of_ok (assert_of wf.num_le heap)
  by_cases free : a.num < a.max
  · left
    have sized : arraySetsize a (a.num + 1) heap = .ok (.ok { a with num := a.num + 1 }, heap) := by
      rw [start, if_neg (by omega), if_neg (by omega)]
      rfl
    refine ⟨free, _, bind_of_ok sized, ⟨?_, ?_⟩, store_toList guy, rfl⟩
    · exact free
    · intro _
      rfl
  · right
    have full : a.num = a.max := by omega
    rw [if_pos (by omega)] at start
    rcases arrayPreallocate_eq wf (a.num + 1) heap with
      ⟨memory, outcome⟩ | ⟨memory, a', outcome, wf', listEq, room, grows⟩
    · refine Or.inl ⟨full, memory, Prog.bind_of_fail ?_⟩
      rw [start, Prog.bind_of_fail outcome]
    · refine Or.inr ⟨full, memory, ?_⟩
      have numEq : a'.num = a.num := by rw [← length_toList, listEq, length_toList]
      have sized : arraySetsize a (a.num + 1) heap =
          .ok (.ok { a' with num := a.num + 1 }, heap.after 1) := by
        rw [start, bind_of_ok outcome]
        rfl
      refine ⟨_, bind_of_ok sized, ⟨room, fun _ => rfl⟩, ?_, grows⟩
      rw [← numEq, store_toList, listEq]

/-- When `array_add` fails, of whatever array. -/
theorem arrayAdd_fails_iff (a : KArray α) (guy : α) {heap : KHeap} :
    Ensures (arrayAdd a guy) heap (fun _ => True) (fun _ _ => a.num = a.max ∧ heap 0 = false)
      (fun _ _ => ¬(a.num = a.max ∧ heap 0 = false)) := by
  rw [arrayAdd, ensures_bind, arraySetsize]
  refine ensures_assert_then (fun _ => trivial) fun num_le => ?_
  apply ensures_branch
  · intro grow
    rw [ensures_bind, arrayPreallocate]
    refine ensures_assert_then (fun _ => trivial) fun _ => ?_
    rw [ensures_bind, ensures_kmalloc]
    cases memory : heap 0 with
    | false => exact ⟨by omega, rfl⟩
    | true => exact fun refused => nomatch refused.2
  · intro room
    apply ensures_branch
    · intro empty
      omega
    · intro _ full
      omega

/-- Setting the size to zero cannot fail; a block of more than 16 slots is given back. -/
theorem arraySetsize_zero (wf : a.WellFormed) (heap : KHeap) :
    ∃ a' : KArray α, arraySetsize a 0 heap = .ok (.ok a', heap) ∧ a'.WellFormed ∧
      a'.toList = [] ∧ a'.max = if 16 < a.max then 0 else a.max := by
  have start : arraySetsize a 0 heap = _ :=
    bind_of_ok (assert_of wf.num_le heap)
  rw [start, if_neg (by omega)]
  by_cases large : 16 < a.max
  · have block : a.v.isSome = true := wf.block (by omega)
    refine ⟨{ num := 0, max := 0, v := none }, ?_, empty_wellFormed, rfl, by simp [large]⟩
    rw [if_pos ⟨rfl, large⟩, bind_of_ok (assert_of block heap)]
    rfl
  · refine ⟨{ a with num := 0 }, ?_, ⟨Nat.zero_le _, wf.block⟩, rfl, by simp [large]⟩
    rw [if_neg (by omega)]
    rfl

theorem arrayGetguy_eq (wf : a.WellFormed) (inside : index < a.num) (heap : KHeap) :
    arrayGetguy a index heap =
      .ok (.ok (a.toList.get ⟨index, by simpa using inside⟩), heap) := by
  have start : arrayGetguy a index heap = _ :=
    bind_of_ok (assert_of wf.num_le heap)
  rw [start, bind_of_ok (assert_of inside heap)]
  simp [toList, Prog.pure_apply]

theorem arraySetguy_eq (wf : a.WellFormed) (inside : index < a.num) (ptr : α) (heap : KHeap) :
    arraySetguy a index ptr heap = .ok (.ok (a.store index ptr), heap) ∧
      (a.store index ptr).WellFormed ∧ (a.store index ptr).toList = a.toList.set index ptr := by
  have start : arraySetguy a index ptr heap = _ :=
    bind_of_ok (assert_of wf.num_le heap)
  refine ⟨?_, ⟨wf.num_le, fun _ => rfl⟩, ?_⟩
  · rw [start, bind_of_ok (assert_of inside heap)]
    rfl
  · apply List.ext_getElem
    · simp [store]
    · intro slot _ _
      by_cases same : slot = index
      · simp [toList, store, slots, same]
      · simp [toList, store, slots, same, Ne.symm same]

/-- `array_setsize` keeps the elements that stay inside the array, or runs out of memory. -/
theorem arraySetsize_spec (wf : a.WellFormed) (nguys : Nat) (heap : KHeap) :
    Ensures (arraySetsize a nguys) heap (fun _ => False) (fun error _ => error = .enomem)
      (fun a' _ => a'.WellFormed ∧ a'.num = nguys ∧
        ∀ slot < a.num, slot < nguys → a'.slots slot = a.slots slot) := by
  rw [arraySetsize]
  refine ensures_assert_then (fun violated => violated wf.num_le) fun _ => ?_
  apply ensures_branch
  · intro larger
    rcases arrayPreallocate_eq wf nguys heap with
      ⟨_, outcome⟩ | ⟨_, a', outcome, wf', listEq, room, _⟩
    · simp [ensures_of_fail_eq outcome]
    · simp only [ensures_bind, ensures_of_ok_eq outcome, ensures_pure]
      refine ⟨⟨room, wf'.block⟩, trivial, ?_⟩
      intro slot inside _
      have numEq : a'.num = a.num := by rw [← length_toList, listEq, length_toList]
      have slotEq := congrArg (fun list : List α => list[slot]?) listEq
      simpa [toList, numEq, inside, slots] using slotEq
  · intro fits
    apply ensures_branch
    · intro released
      refine ensures_assert_then (fun violated => violated (wf.block (by omega))) fun _ => ?_
      simp only [ensures_pure]
      exact ⟨⟨by simp [released.1], by simp⟩, trivial, by omega⟩
    · intro _
      simp only [ensures_pure]
      exact ⟨⟨by simpa using fits, wf.block⟩, trivial, fun _ _ _ => rfl⟩

/-- `array_remove` takes out the element at `index` and keeps the order of the others. -/
theorem arrayRemove_eq (wf : a.WellFormed) (inside : index < a.num) (heap : KHeap) :
    ∃ a' : KArray α, arrayRemove a index heap = .ok (.ok a', heap) ∧ a'.WellFormed ∧
      a'.toList = a.toList.eraseIdx index ∧ a'.max = a.max := by
  have num_le := wf.num_le
  have start : arrayRemove a index heap = _ :=
    bind_of_ok (assert_of wf.num_le heap)
  refine ⟨a.moveDown index, ?_, ⟨?_, fun _ => rfl⟩, ?_, rfl⟩
  · rw [start, bind_of_ok (assert_of inside heap)]
    rfl
  · simp only [moveDown]
    omega
  · apply List.ext_getElem
    · rw [List.length_eraseIdx]
      simp [moveDown, inside]
    · intro slot slot_lt _
      have slot_lt' : slot < a.num - 1 := by simpa [moveDown] using slot_lt
      rw [List.getElem_eraseIdx]
      simp only [toList, List.getElem_map, List.getElem_range]
      by_cases before : slot < index
      · rw [dif_pos before]
        simp [moveDown, slots, Nat.not_le.mpr before]
      · rw [dif_neg before]
        have moved : index ≤ slot ∧ slot + 1 < a.num := by omega
        simp [moveDown, slots, moved]

end KArray

end Os161
