import Os161.Kern.Base

/-!
# Queues

The ring buffer of `kern/lib/queue.c`. A queue of `size` slots holds at most
`size - 1` elements, since `nextwrite == nextread` means that it is empty; when
one more is added it doubles its storage. `q_addtail` calls `q_grow` and `q_grow`
copies the elements with `q_addtail`: the model follows these calls to a given
depth and the lemmas show that the inner calls never grow the queue again.

`Queue.toList` is the content from `nextread` to `nextwrite`, and the lemmas at
the end of the file say what each operation does to it.
-/

namespace Os161

/-- `struct queue`; `data` is the block of `size` slots. -/
structure Queue (α : Type) where
  size : Nat
  nextwrite : Nat
  nextread : Nat
  data : Nat → α

namespace Queue

variable {α : Type}

/-- `while (nsize < targetsize)` in `q_grow`, with the sign check of a 32-bit `int`. -/
def growSize : (fuel nsize targetsize : Nat) → HeapM Nat
  | 0, _, _ => halt .qGrowSize
  | fuel + 1, nsize, targetsize =>
      if nsize < targetsize then do
        assert .qGrowSize (0 < nsize * 2 ∧ nsize * 2 < 2 ^ 31)
        growSize fuel (nsize * 2) targetsize
      else
        pure nsize

/-- `for (i=onr; i!=onw; i = (i+1)%osize)` in `q_grow`. -/
def copyLoop (addtail : Queue α → α → HeapM (Queue α)) (olddata : Nat → α) (onw osize : Nat) :
    (fuel i : Nat) → Queue α → HeapM (Queue α)
  | 0, _, _ => halt .qGrowRecursion
  | fuel + 1, i, q =>
      if i = onw then
        pure q
      else do
        let result ← attempt (addtail q (olddata i))
        match result with
        | .error _ => halt .qGrowResult
        | .ok q => copyLoop addtail olddata onw osize fuel ((i + 1) % osize) q

/-- `q_grow`, with the `q_addtail` it copies by. -/
def qGrowWith [Inhabited α] (addtail : Queue α → α → HeapM (Queue α)) (q : Queue α)
    (targetsize : Nat) : HeapM (Queue α) := do
  let nsize ← growSize 32 q.size targetsize
  if ← kmalloc then
    copyLoop addtail q.data q.nextwrite q.size q.size q.nextread
      { size := nsize, nextwrite := 0, nextread := 0, data := fun _ => default }
  else
    fail .enomem

/-- Store `ptr` in the slot `nextwrite` and go to the next slot. -/
def push (q : Queue α) (ptr : α) : Queue α :=
  { q with
    nextwrite := (q.nextwrite + 1) % q.size
    data := fun slot => if slot = q.nextwrite then ptr else q.data slot }

/-- `q_addtail`, to a depth of `q_grow` calls. -/
def qAddtailAt [Inhabited α] : (depth : Nat) → Queue α → α → HeapM (Queue α)
  | 0, _, _ => halt .qGrowRecursion
  | depth + 1, q, ptr => do
      assert .qSize (0 < q.size)
      if (q.nextwrite + 1) % q.size = q.nextread then do
        let q ← qGrowWith (qAddtailAt depth) q (q.size + 1)
        pure (q.push ptr)
      else
        pure (q.push ptr)

/-- `q_create`. -/
def qCreate [Inhabited α] (size : Nat) : HeapM (Option (Queue α)) := do
  if ← kmalloc then
    if ← kmalloc then
      pure (some { size, nextwrite := 0, nextread := 0, data := fun _ => default })
    else
      pure none
  else
    pure none

/-- `q_grow`. -/
def qGrow [Inhabited α] (q : Queue α) (targetsize : Nat) : HeapM (Queue α) :=
  qGrowWith (qAddtailAt 1) q targetsize

/-- `q_preallocate`. -/
def qPreallocate [Inhabited α] (q : Queue α) (size : Nat) : HeapM (Queue α) := do
  assert .qSize (0 < q.size)
  if q.size < size then
    qGrow q size
  else
    pure q

/-- `q_empty`. -/
def qEmpty (q : Queue α) : Bool :=
  q.nextwrite == q.nextread

/-- `q_addtail`. -/
def qAddtail [Inhabited α] (q : Queue α) (ptr : α) : HeapM (Queue α) :=
  qAddtailAt 2 q ptr

/-- The queue without the element in the slot `nextread`. -/
def pop (q : Queue α) : Queue α :=
  { q with nextread := (q.nextread + 1) % q.size }

/-- `q_remhead`: the element removed and the queue without it. -/
def qRemhead (q : Queue α) : HeapM (α × Queue α) := do
  assert .qSize (0 < q.size)
  assert .qEmpty (¬q.qEmpty)
  pure (q.data q.nextread, q.pop)

/-! ## The queue as a list -/

/-- The indexes are inside the block of slots. -/
structure WellFormed (q : Queue α) : Prop where
  nextread_lt : q.nextread < q.size
  nextwrite_lt : q.nextwrite < q.size

def count (q : Queue α) : Nat :=
  (q.nextwrite + q.size - q.nextread) % q.size

/-- The elements from `nextread` to `nextwrite`. -/
def toList (q : Queue α) : List α :=
  (List.range q.count).map fun i => q.data ((q.nextread + i) % q.size)

@[simp]
theorem length_toList (q : Queue α) : q.toList.length = q.count := by
  simp [toList]

/-- Going `i` slots around a ring from a slot inside it. -/
theorem ring_index {size start i : Nat} (inside : start < size) (short : i ≤ size) :
    (start + i) % size = if start + i < size then start + i else start + i - size := by
  split
  · exact Nat.mod_eq_of_lt ‹_›
  · rw [Nat.mod_eq_sub_mod (by omega)]
    exact Nat.mod_eq_of_lt (by omega)

variable {q : Queue α}

theorem count_eq (wf : q.WellFormed) :
    q.count = if q.nextread ≤ q.nextwrite then q.nextwrite - q.nextread
      else q.nextwrite + q.size - q.nextread := by
  have writeInside := wf.nextwrite_lt
  unfold count
  split
  · rw [show q.nextwrite + q.size - q.nextread = q.nextwrite - q.nextread + q.size by omega,
      Nat.add_mod_right]
    exact Nat.mod_eq_of_lt (by omega)
  · exact Nat.mod_eq_of_lt (by omega)

theorem count_lt (wf : q.WellFormed) : q.count < q.size :=
  Nat.mod_lt _ (Nat.zero_lt_of_lt wf.nextread_lt)

theorem qEmpty_iff (wf : q.WellFormed) : q.qEmpty = true ↔ q.toList = [] := by
  have readInside := wf.nextread_lt
  rw [← List.length_eq_zero_iff, length_toList, count_eq wf]
  simp only [qEmpty, beq_iff_eq]
  split <;> omega

/-- The test of `q_addtail` for a queue without a free slot. -/
theorem next_eq_nextread_iff (wf : q.WellFormed) :
    (q.nextwrite + 1) % q.size = q.nextread ↔ q.count + 1 = q.size := by
  have readInside := wf.nextread_lt
  have writeInside := wf.nextwrite_lt
  rw [ring_index writeInside (by omega), count_eq wf]
  split <;> split <;> omega

theorem push_wellFormed (wf : q.WellFormed) (ptr : α) : (q.push ptr).WellFormed where
  nextread_lt := wf.nextread_lt
  nextwrite_lt := Nat.mod_lt _ (Nat.zero_lt_of_lt wf.nextread_lt)

@[simp]
theorem push_size (q : Queue α) (ptr : α) : (q.push ptr).size = q.size := rfl

theorem push_count (wf : q.WellFormed) (free : q.count + 1 < q.size) (ptr : α) :
    (q.push ptr).count = q.count + 1 := by
  have readInside := wf.nextread_lt
  have writeInside := wf.nextwrite_lt
  have next := ring_index (i := 1) writeInside (by omega)
  rw [count_eq (push_wellFormed wf ptr)]
  rw [count_eq wf] at free ⊢
  simp only [push, next]
  split at free <;> split <;> split <;> omega

theorem push_toList (wf : q.WellFormed) (free : q.count + 1 < q.size) (ptr : α) :
    (q.push ptr).toList = q.toList ++ [ptr] := by
  have readInside := wf.nextread_lt
  have writeInside := wf.nextwrite_lt
  have countEq := count_eq wf
  unfold toList
  rw [push_count wf free, List.range_succ, List.map_append, List.map_singleton]
  congr 1
  · apply List.map_congr_left
    intro i i_mem
    have i_lt : i < q.count := by simpa using i_mem
    simp only [push]
    rw [ring_index readInside (by omega), if_neg]
    split at countEq <;> split <;> omega
  · simp only [push]
    rw [ring_index readInside (by omega), if_pos]
    split at countEq <;> split <;> omega

theorem pop_wellFormed (wf : q.WellFormed) : q.pop.WellFormed where
  nextread_lt := Nat.mod_lt _ (Nat.zero_lt_of_lt wf.nextread_lt)
  nextwrite_lt := wf.nextwrite_lt

theorem pop_count (wf : q.WellFormed) (nonempty : q.qEmpty = false) :
    q.pop.count + 1 = q.count := by
  have readInside := wf.nextread_lt
  have writeInside := wf.nextwrite_lt
  have different : q.nextwrite ≠ q.nextread := by simpa [qEmpty] using nonempty
  have next := ring_index (i := 1) readInside (by omega)
  rw [count_eq (pop_wellFormed wf), count_eq wf]
  simp only [pop, next]
  split <;> split <;> split <;> omega

theorem toList_eq_cons_pop (wf : q.WellFormed) (nonempty : q.qEmpty = false) :
    q.toList = q.data q.nextread :: q.pop.toList := by
  have readInside := wf.nextread_lt
  have countEq := pop_count wf nonempty
  have countLt := count_lt wf
  unfold toList
  rw [← countEq, List.range_succ_eq_map, List.map_cons, List.map_map]
  congr 1
  · simp [Nat.mod_eq_of_lt readInside]
  · apply List.map_congr_left
    intro i i_mem
    have i_lt : i < q.pop.count := by simpa using i_mem
    simp only [Function.comp, pop]
    congr 1
    rw [ring_index readInside (by omega), ring_index readInside (by omega)]
    split <;> split <;> first
      | (rw [Nat.mod_eq_of_lt (by omega)]; omega)
      | (rw [ring_index (by omega) (by omega)]; split <;> omega)

/-! ## What the operations return -/

/-- The doubling ends above the target, and not further above it than needed. -/
theorem growSize_eq {targetsize : Nat} (target_le : targetsize ≤ 2 ^ 30) (heap : KHeap) :
    ∀ (fuel nsize : Nat), 0 < nsize → targetsize ≤ nsize * 2 ^ fuel →
      ∃ grown, growSize (fuel + 1) nsize targetsize heap = .ok (.ok grown, heap) ∧
        targetsize ≤ grown ∧ nsize ≤ grown ∧
        (nsize < targetsize → 2 * nsize ≤ grown ∧ grown < 2 * targetsize) := by
  intro fuel
  induction fuel with
  | zero =>
      intro nsize positive enough
      have notLess : ¬nsize < targetsize := by omega
      exact ⟨nsize, by simp [growSize, notLess, pure], by omega, le_rfl, by omega⟩
  | succ fuel ih =>
      intro nsize positive enough
      by_cases less : nsize < targetsize
      · obtain ⟨grown, outcome, target_le_grown, double_le, tight⟩ :=
          ih (nsize * 2) (by omega) (by rw [Nat.pow_succ] at enough; linarith)
        refine ⟨grown, ?_, target_le_grown, by omega, ?_⟩
        · have fits : 0 < nsize * 2 ∧ nsize * 2 < 2 ^ 31 := by omega
          rw [growSize, if_pos less, bind_of_ok (assert_of fits heap)]
          exact outcome
        · intro _
          by_cases doubleLess : nsize * 2 < targetsize
          · have := tight doubleLess
            omega
          · have same : grown = nsize * 2 := by
              have unchanged : growSize (fuel + 1) (nsize * 2) targetsize heap =
                  .ok (.ok (nsize * 2), heap) := by
                rw [growSize, if_neg doubleLess]
                rfl
              rw [unchanged] at outcome
              simpa using outcome.symm
            omega
      · exact ⟨nsize, by simp [growSize, less, pure], by omega, le_rfl, by omega⟩

variable [Inhabited α]

theorem qAddtailAt_free (wf : q.WellFormed) (free : q.count + 1 < q.size) (depth : Nat) (ptr : α)
    (heap : KHeap) : qAddtailAt (depth + 1) q ptr heap = .ok (.ok (q.push ptr), heap) := by
  have sizePositive : 0 < q.size := Nat.zero_lt_of_lt wf.nextread_lt
  have notFull : ¬(q.nextwrite + 1) % q.size = q.nextread := by
    rw [next_eq_nextread_iff wf]
    omega
  rw [qAddtailAt, bind_of_ok (assert_of sizePositive heap), if_neg notFull]
  rfl

/-- The copying loop of `q_grow` appends the elements that are left, without growing again. -/
theorem copyLoop_eq (depth : Nat) (heap : KHeap) :
    ∀ (fuel : Nat) (source copy : Queue α), source.WellFormed → copy.WellFormed →
      source.count < fuel → copy.count + source.count < copy.size →
      ∃ copy' : Queue α,
        copyLoop (qAddtailAt (depth + 1)) source.data source.nextwrite source.size fuel
          source.nextread copy heap = .ok (.ok copy', heap) ∧
        copy'.WellFormed ∧ copy'.size = copy.size ∧
        copy'.toList = copy.toList ++ source.toList := by
  intro fuel
  induction fuel with
  | zero =>
      intro source copy _ _ enough
      omega
  | succ fuel ih =>
      intro source copy sourceWf copyWf enough room
      by_cases finished : source.qEmpty = true
      · have sourceNil := (qEmpty_iff sourceWf).mp finished
        have atEnd : source.nextread = source.nextwrite := by
          rw [qEmpty, beq_iff_eq] at finished
          exact finished.symm
        refine ⟨copy, ?_, copyWf, rfl, by simp [sourceNil]⟩
        rw [copyLoop, if_pos atEnd]
        rfl
      · have more : source.qEmpty = false := by simpa using finished
        have notAtEnd : ¬source.nextread = source.nextwrite := by
          rw [qEmpty, beq_eq_false_iff_ne] at more
          exact fun same => more same.symm
        have popCount := pop_count sourceWf more
        have free : copy.count + 1 < copy.size := by omega
        obtain ⟨copy', outcome, copyWf', sizeEq, listEq⟩ :=
          ih source.pop (copy.push (source.data source.nextread)) (pop_wellFormed sourceWf)
            (push_wellFormed copyWf _) (by omega)
            (by rw [push_count copyWf free, push_size]; omega)
        refine ⟨copy', ?_, copyWf', by simpa using sizeEq, ?_⟩
        · rw [copyLoop, if_neg notAtEnd, bind_of_ok
            (Prog.attempt_of_ok (qAddtailAt_free copyWf free depth _ heap))]
          exact outcome
        · rw [listEq, push_toList copyWf free, toList_eq_cons_pop sourceWf more]
          simp

/-- `q_grow` keeps the elements and gets to the size asked for, or runs out of memory. -/
theorem qGrowWith_eq (wf : q.WellFormed) {targetsize : Nat} (larger : q.size < targetsize)
    (target_le : targetsize ≤ 2 ^ 30) (depth : Nat) (heap : KHeap) :
    (heap 0 = false ∧ qGrowWith (qAddtailAt (depth + 1)) q targetsize heap =
        .ok (.error .enomem, heap.after 1)) ∨
      (heap 0 = true ∧ ∃ q' : Queue α,
        qGrowWith (qAddtailAt (depth + 1)) q targetsize heap =
          .ok (.ok q', heap.after 1) ∧
        q'.WellFormed ∧ q'.toList = q.toList ∧ targetsize ≤ q'.size ∧
        2 * q.size ≤ q'.size ∧ q'.size < 2 * targetsize) := by
  have sizePositive : 0 < q.size := Nat.zero_lt_of_lt wf.nextread_lt
  have enough : targetsize ≤ q.size * 2 ^ 31 := by
    calc targetsize ≤ 2 ^ 30 := target_le
      _ ≤ 1 * 2 ^ 31 := by norm_num
      _ ≤ q.size * 2 ^ 31 := Nat.mul_le_mul_right _ sizePositive
  obtain ⟨nsize, sizeOutcome, target_le_nsize, _, tight⟩ :=
    growSize_eq target_le heap 31 q.size sizePositive enough
  cases memory : heap 0 with
  | false =>
      left
      refine ⟨rfl, ?_⟩
      rw [qGrowWith, bind_of_ok sizeOutcome, bind_of_ok (kmalloc_apply heap), memory]
      rfl
  | true =>
      right
      let empty : Queue α :=
        { size := nsize, nextwrite := 0, nextread := 0, data := fun _ => default }
      have emptyWf : empty.WellFormed := ⟨by simp [empty]; omega, by simp [empty]; omega⟩
      have emptyCount : empty.count = 0 := by rw [count_eq emptyWf]; simp [empty]
      have countLt := count_lt wf
      obtain ⟨q', outcome, wf', sizeEq, listEq⟩ :=
        copyLoop_eq depth (heap.after 1) q.size q empty wf emptyWf countLt
          (by simp only [emptyCount, empty]; omega)
      refine ⟨rfl, q', ?_, wf', ?_, ?_, ?_, ?_⟩
      · rw [qGrowWith, bind_of_ok sizeOutcome, bind_of_ok (kmalloc_apply heap), memory]
        exact outcome
      · simpa [toList, emptyCount] using listEq
      · rw [sizeEq]; exact target_le_nsize
      · rw [sizeEq]; exact (tight larger).1
      · rw [sizeEq]; exact (tight larger).2

/-- `q_preallocate` needs memory only when the queue is smaller than asked for. -/
theorem qPreallocate_eq (wf : q.WellFormed) {size : Nat} (size_le : size ≤ 2 ^ 30) (heap : KHeap) :
    (size ≤ q.size ∧ qPreallocate q size heap = .ok (.ok q, heap)) ∨
      (q.size < size ∧ heap 0 = false ∧
        qPreallocate q size heap = .ok (.error .enomem, heap.after 1)) ∨
      (q.size < size ∧ heap 0 = true ∧ ∃ q' : Queue α,
        qPreallocate q size heap = .ok (.ok q', heap.after 1) ∧
        q'.WellFormed ∧ q'.toList = q.toList ∧ size ≤ q'.size ∧ q'.size < 2 * size) := by
  have sizePositive : 0 < q.size := Nat.zero_lt_of_lt wf.nextread_lt
  by_cases larger : q.size < size
  · have grows : qPreallocate q size heap = qGrowWith (qAddtailAt 1) q size heap := by
      rw [qPreallocate, bind_of_ok (assert_of sizePositive heap), if_pos larger, qGrow]
    rw [grows]
    right
    rcases qGrowWith_eq wf larger size_le 0 heap with
      ⟨memory, outcome⟩ | ⟨memory, q', outcome, wf', listEq, size_le', _, tight⟩
    · exact Or.inl ⟨larger, memory, outcome⟩
    · exact Or.inr ⟨larger, memory, q', outcome, wf', listEq, size_le', tight⟩
  · left
    refine ⟨by omega, ?_⟩
    rw [qPreallocate, bind_of_ok (assert_of sizePositive heap), if_neg larger]
    rfl

/-- `q_addtail` appends, and needs memory only when there is no free slot. -/
theorem qAddtail_eq (wf : q.WellFormed) (size_le : q.size < 2 ^ 30) (ptr : α) (heap : KHeap) :
    (q.count + 1 < q.size ∧ qAddtail q ptr heap = .ok (.ok (q.push ptr), heap)) ∨
      (q.count + 1 = q.size ∧ heap 0 = false ∧
        qAddtail q ptr heap = .ok (.error .enomem, heap.after 1)) ∨
      (q.count + 1 = q.size ∧ heap 0 = true ∧ ∃ q' : Queue α,
        qAddtail q ptr heap = .ok (.ok q', heap.after 1) ∧
        q'.WellFormed ∧ q'.toList = q.toList ++ [ptr] ∧ 2 * q.size ≤ q'.size ∧
        q'.size < 2 * (q.size + 1)) := by
  have sizePositive : 0 < q.size := Nat.zero_lt_of_lt wf.nextread_lt
  have countLt := count_lt wf
  by_cases free : q.count + 1 < q.size
  · exact Or.inl ⟨free, qAddtailAt_free wf free 1 ptr heap⟩
  · right
    have full : q.count + 1 = q.size := by omega
    have test : (q.nextwrite + 1) % q.size = q.nextread := (next_eq_nextread_iff wf).mpr full
    rcases qGrowWith_eq wf (Nat.lt_succ_self q.size) (by omega) 0 heap with
      ⟨memory, outcome⟩ | ⟨memory, q', outcome, wf', listEq, size_le', double_le, tight⟩
    · left
      refine ⟨full, memory, ?_⟩
      rw [qAddtail, qAddtailAt, bind_of_ok (assert_of sizePositive heap), if_pos test,
        Prog.bind_of_fail outcome]
    · right
      have countEq : q'.count = q.count := by
        rw [← length_toList, listEq, length_toList]
      have free' : q'.count + 1 < q'.size := by omega
      refine ⟨full, memory, q'.push ptr, ?_, push_wellFormed wf' ptr, ?_, ?_, ?_⟩
      · rw [qAddtail, qAddtailAt, bind_of_ok (assert_of sizePositive heap),
          if_pos test, bind_of_ok outcome]
        rfl
      · rw [push_toList wf' free', listEq]
      · exact double_le
      · exact tight

omit [Inhabited α] in
theorem qRemhead_eq (wf : q.WellFormed) (nonempty : q.toList ≠ []) (heap : KHeap) :
    q.toList = q.data q.nextread :: q.pop.toList ∧
      qRemhead q heap = .ok (.ok (q.data q.nextread, q.pop), heap) := by
  have sizePositive : 0 < q.size := Nat.zero_lt_of_lt wf.nextread_lt
  have notEmpty : q.qEmpty = false := by
    cases empty : q.qEmpty with
    | false => rfl
    | true => exact absurd ((qEmpty_iff wf).mp empty) nonempty
  refine ⟨toList_eq_cons_pop wf notEmpty, ?_⟩
  rw [qRemhead, bind_of_ok (assert_of sizePositive heap),
    bind_of_ok (assert_of (by simp [notEmpty]) heap)]
  rfl

omit [Inhabited α] in
theorem qRemhead_nil (wf : q.WellFormed) (empty : q.toList = []) (heap : KHeap) :
    qRemhead q heap = .error .qEmpty := by
  have sizePositive : 0 < q.size := Nat.zero_lt_of_lt wf.nextread_lt
  have isEmpty := (qEmpty_iff wf).mpr empty
  rw [qRemhead, bind_of_ok (assert_of sizePositive heap),
    bind_of_halt (Prog.assert_of_not (by simp [isEmpty]) heap)]

end Queue

end Os161
