import Os161.Kern.Array
import Os161.Lib.Object

/-!
# The array is a list

Any sequence of calls on a new array, with memory refused at any of them, does to
`KArray.toList` what the operations of the same meaning do to a list.

`kmalloc` is asked for `newmax * sizeof(void *)` bytes. As long as the sizes asked for
are below the limit that product is below `2 ^ 32`, so that the block has `max` slots.
-/

namespace Os161

inductive ArrayOp (α : Type) where
  | add (guy : α)
  | setguy (index : Nat) (ptr : α)
  | getguy (index : Nat)
  | remove (index : Nat)
  | preallocate (nguys : Nat)
  | setsize (nguys : Nat)

/-- What a call returns when it does not return an error. -/
inductive ArrayAnswer (α : Type) where
  | done
  | element (guy : α)
deriving DecidableEq

/-- The array as a list: what a call may answer, and the list after it. -/
inductive ListStep {α : Type} : List α → ArrayOp α → Except Errno (ArrayAnswer α) → List α → Prop
  | add (list : List α) (guy : α) : ListStep list (.add guy) (.ok .done) (list ++ [guy])
  | addFails (list : List α) (guy : α) : ListStep list (.add guy) (.error .enomem) list
  | setguy (list : List α) (index : Nat) (ptr : α) :
      ListStep list (.setguy index ptr) (.ok .done) (list.set index ptr)
  | getguy (list : List α) (index : Nat) (guy : α) (found : list[index]? = some guy) :
      ListStep list (.getguy index) (.ok (.element guy)) list
  | remove (list : List α) (index : Nat) :
      ListStep list (.remove index) (.ok .done) (list.eraseIdx index)
  | preallocate (list : List α) (nguys : Nat) :
      ListStep list (.preallocate nguys) (.ok .done) list
  | preallocateFails (list : List α) (nguys : Nat) :
      ListStep list (.preallocate nguys) (.error .enomem) list
  | shrink (list : List α) (nguys : Nat) (smaller : nguys ≤ list.length) :
      ListStep list (.setsize nguys) (.ok .done) (list.take nguys)
  | extend (list more : List α) (nguys : Nat) (larger : list.length + more.length = nguys) :
      ListStep list (.setsize nguys) (.ok .done) (list ++ more)
  | setsizeFails (list : List α) (nguys : Nat) :
      ListStep list (.setsize nguys) (.error .enomem) list

namespace KArray

variable {α : Type} [Inhabited α]

/-- The sizes below which the kernel's arithmetic on them is exact. -/
def sizeLimit : Nat := 2 ^ 29

def sizeofPointer : Nat := 4

/-- A call of a function in `array.c`. -/
def call : ArrayOp α → KArray α → HeapM (ArrayAnswer α × KArray α)
  | .add guy, a => do
      let a ← a.arrayAdd guy
      pure (.done, a)
  | .setguy index ptr, a => do
      let a ← a.arraySetguy index ptr
      pure (.done, a)
  | .getguy index, a => do
      let guy ← a.arrayGetguy index
      pure (.element guy, a)
  | .remove index, a => do
      let a ← a.arrayRemove index
      pure (.done, a)
  | .preallocate nguys, a => do
      let a ← a.arrayPreallocate nguys
      pure (.done, a)
  | .setsize nguys, a => do
      let a ← a.arraySetsize nguys
      pure (.done, a)

omit [Inhabited α] in
def Allowed : ArrayOp α → KArray α → Prop
  | .add _, a => a.num + 1 < sizeLimit
  | .setguy index _, a => index < a.num
  | .getguy index, a => index < a.num
  | .remove index, a => index < a.num
  | .preallocate nguys, _ => nguys < sizeLimit
  | .setsize nguys, _ => nguys < sizeLimit

instance (operation : ArrayOp α) (a : KArray α) : Decidable (Allowed operation a) :=
  match operation with
  | .add _ => inferInstanceAs (Decidable (_ < _))
  | .setguy _ _ => inferInstanceAs (Decidable (_ < _))
  | .getguy _ => inferInstanceAs (Decidable (_ < _))
  | .remove _ => inferInstanceAs (Decidable (_ < _))
  | .preallocate _ => inferInstanceAs (Decidable (_ < _))
  | .setsize _ => inferInstanceAs (Decidable (_ < _))

def object (α : Type) [Inhabited α] : Object Panic (KArray α) KHeap Errno (ArrayOp α)
    (ArrayAnswer α) where
  call := call
  Allowed := Allowed

instance (operation : ArrayOp α) (a : KArray α) : Decidable ((object α).Allowed operation a) :=
  inferInstanceAs (Decidable (Allowed operation a))

/-- What `array_create` has returned. -/
def Created (state : KHeap × KArray α) : Prop :=
  ∃ heap, arrayCreate heap = .ok (.ok (some state.2), state.1)

omit [Inhabited α] in
theorem Created.eq {state : KHeap × KArray α} (created : Created state) : state.2 = empty := by
  rcases created with ⟨heap, outcome⟩
  have ensures : Ensures arrayCreate heap (fun _ => False) (fun _ _ => False)
      (fun a _ => ∀ new : KArray α, a = some new → new = empty) := by
    simp only [arrayCreate, ensures_bind, ensures_kmalloc, ensures_ite, ensures_pure]
    simp
  exact (ensures_of_ok_eq outcome).mp ensures _ rfl

/-- The elements are in the block, and the block has been allocated with `max` slots. -/
structure Sound (a : KArray α) : Prop where
  num_le : a.num ≤ a.max
  block : 0 < a.max → a.v.isSome
  bytes : a.max * sizeofPointer < 2 ^ 32

omit [Inhabited α] in
theorem Sound.wellFormed {a : KArray α} (sound : a.Sound) : a.WellFormed :=
  ⟨sound.num_le, sound.block⟩

/-- What a call does to a sound array. -/
structure Performs (a : KArray α) (operation : ArrayOp α)
    (answer : Except Errno (ArrayAnswer α)) (after : KArray α) : Prop where
  list : ListStep a.toList operation answer after.toList
  sound : after.Sound
  failed : ∀ error, answer = .error error → after = a

/-! ## The number of slots -/

theorem growMax_lt (fuel : Nat) {newmax nguys : Nat} (max_lt : newmax < 2 ^ 30)
    (small : nguys < 2 ^ 29) : growMax fuel newmax nguys < 2 ^ 30 := by
  induction fuel generalizing newmax with
  | zero => exact max_lt
  | succ fuel ih =>
      rw [growMax]
      split
      · apply ih
        omega
      · exact max_lt

theorem arrayPreallocate_max (a : KArray α) (nguys : Nat) (heap : KHeap)
    (max_lt : a.max < 2 ^ 30) (small : nguys < 2 ^ 29) :
    Ensures (arrayPreallocate a nguys) heap (fun _ => True) (fun _ _ => True)
      (fun a' _ => a'.max < 2 ^ 30) := by
  rw [arrayPreallocate]
  refine ensures_assert_then (fun _ => trivial) fun _ => ?_
  simp only [ensures_bind, ensures_kmalloc]
  apply ensures_branch
  · intro _
    exact growMax_lt nguys max_lt small
  · intro _
    trivial

theorem arraySetsize_max (a : KArray α) (nguys : Nat) (heap : KHeap)
    (max_lt : a.max < 2 ^ 30) (small : nguys < 2 ^ 29) :
    Ensures (arraySetsize a nguys) heap (fun _ => True) (fun _ _ => True)
      (fun a' _ => a'.max < 2 ^ 30) := by
  rw [arraySetsize]
  refine ensures_assert_then (fun _ => trivial) fun _ => ?_
  apply ensures_branch
  · intro _
    simpa using arrayPreallocate_max a nguys heap max_lt small
  · intro _
    apply ensures_branch
    · intro _
      refine ensures_assert_then (fun _ => trivial) fun _ => ?_
      simp
    · intro _
      simpa using max_lt

theorem call_max {a : KArray α} (max_lt : a.max < 2 ^ 30) (heap : KHeap)
    {operation : ArrayOp α} (allowed : Allowed operation a) :
    Ensures (call operation a) heap (fun _ => True) (fun _ _ => True)
      (fun result _ => result.2.max < 2 ^ 30) := by
  cases operation with
  | add guy =>
      have small : a.num + 1 < 2 ^ 29 := allowed
      simpa [call, arrayAdd, store] using arraySetsize_max a (a.num + 1) heap max_lt small
  | preallocate nguys =>
      simpa [call] using arrayPreallocate_max a nguys heap max_lt allowed
  | setsize nguys =>
      simpa [call] using arraySetsize_max a nguys heap max_lt allowed
  | getguy index =>
      simp only [call, ensures_bind, ensures_pure]
      exact ensures_any fun _ _ => max_lt
  | setguy index ptr =>
      simp only [call, arraySetguy, ensures_bind, ensures_assert, ensures_pure]
      split_ifs
      all_goals trivial
  | remove index =>
      simp only [call, arrayRemove, ensures_bind, ensures_assert, ensures_pure]
      split_ifs
      all_goals trivial

/-! ## The elements -/

/-- The list of an array of which the first elements are those of another one. -/
theorem listStep_setsize {a a' : KArray α} {nguys : Nat} (numEq : a'.num = nguys)
    (slotEq : ∀ slot < a.num, slot < nguys → a'.slots slot = a.slots slot) :
    ListStep a.toList (.setsize nguys) (.ok .done) a'.toList := by
  have common : a'.toList.take a.num = a.toList.take nguys := by
    simp only [toList, ← List.map_take, List.take_range, numEq, min_comm nguys]
    apply List.map_congr_left
    intro slot inside
    simp only [mem_range, lt_min_iff] at inside
    exact slotEq slot inside.1 inside.2
  rcases le_total nguys a.num with smaller | larger
  · rw [List.take_of_length_le (by simpa [numEq] using smaller)] at common
    rw [common]
    exact .shrink _ _ (by simpa using smaller)
  · rw [List.take_of_length_le (i := nguys) (by simpa using larger)] at common
    rw [← List.take_append_drop a.num a'.toList, common]
    exact .extend _ _ _ (by simp [numEq]; omega)

/-- What a call does to a well-formed array, apart from the number of slots. -/
theorem call_list {a : KArray α} (wf : a.WellFormed) (heap : KHeap) {operation : ArrayOp α}
    (allowed : Allowed operation a) :
    Ensures (call operation a) heap (fun _ => False)
      (fun error _ => ListStep a.toList operation (.error error) a.toList)
      (fun result _ => ListStep a.toList operation (.ok result.1) result.2.toList ∧
        result.2.WellFormed) := by
  cases operation with
  | add guy =>
      rcases arrayAdd_eq wf guy heap with
        ⟨_, a', outcome, wf', listEq, _⟩ | ⟨_, _, outcome⟩ | ⟨_, _, a', outcome, wf', listEq, _⟩
      · simp only [call, ensures_bind, ensures_of_ok_eq outcome, ensures_pure]
        rw [listEq]
        exact ⟨.add _ _, wf'⟩
      · simp only [call, ensures_bind, ensures_of_fail_eq outcome]
        exact .addFails _ _
      · simp only [call, ensures_bind, ensures_of_ok_eq outcome, ensures_pure]
        rw [listEq]
        exact ⟨.add _ _, wf'⟩
  | setguy index ptr =>
      obtain ⟨outcome, wf', listEq⟩ := arraySetguy_eq wf allowed ptr heap
      simp only [call, ensures_bind, ensures_of_ok_eq outcome, ensures_pure]
      rw [listEq]
      exact ⟨.setguy _ _ _, wf'⟩
  | getguy index =>
      have outcome := arrayGetguy_eq wf allowed heap
      simp only [call, ensures_bind, ensures_of_ok_eq outcome, ensures_pure]
      exact ⟨.getguy _ _ _ (by simp), wf⟩
  | remove index =>
      obtain ⟨a', outcome, wf', listEq, _⟩ := arrayRemove_eq wf allowed heap
      simp only [call, ensures_bind, ensures_of_ok_eq outcome, ensures_pure]
      rw [listEq]
      exact ⟨.remove _ _, wf'⟩
  | preallocate nguys =>
      rcases arrayPreallocate_eq wf nguys heap with
        ⟨_, outcome⟩ | ⟨_, a', outcome, wf', listEq, _⟩
      · simp only [call, ensures_bind, ensures_of_fail_eq outcome]
        exact .preallocateFails _ _
      · simp only [call, ensures_bind, ensures_of_ok_eq outcome, ensures_pure]
        rw [listEq]
        exact ⟨.preallocate _ _, wf'⟩
  | setsize nguys =>
      simp only [call, ensures_bind, ensures_pure]
      apply (arraySetsize_spec wf nguys heap).answers
      · intro error _ isEnomem
        rw [isEnomem]
        exact .setsizeFails _ _
      · intro a' _ spec
        exact ⟨listStep_setsize spec.2.1 spec.2.2, spec.1⟩

/-- Every call that is allowed returns, and its answer is one the list gives. -/
theorem call_spec {a : KArray α} (sound : a.Sound) (heap : KHeap) {operation : ArrayOp α}
    (allowed : Allowed operation a) :
    Ensures (call operation a) heap (fun _ => False)
      (fun error _ => Performs a operation (.error error) a)
      (fun result _ => Performs a operation (.ok result.1) result.2) := by
  have max_lt : a.max < 2 ^ 30 := by
    have bytes := sound.bytes
    simp only [sizeofPointer] at bytes
    omega
  apply ((call_list sound.wellFormed heap allowed).and (call_max max_lt heap allowed)).mono
  · exact fun _ panics => panics.1
  · intro error _ step
    exact ⟨step.1, sound, fun _ _ => rfl⟩
  · intro result _ step
    have bytes : result.2.max * sizeofPointer < 2 ^ 32 := by
      simp only [sizeofPointer]
      omega
    exact ⟨step.1.1, ⟨step.1.2.num_le, step.1.2.block, bytes⟩, by simp⟩

theorem sound_of_reachable {state : KHeap × KArray α}
    (reachable : (object α).machine.Reachable Created state) : state.2.Sound := by
  apply Object.reachable_invariant _ _ reachable
  · intro state created
    rw [created.eq]
    exact ⟨le_rfl, by simp [empty], by simp [empty]⟩
  · intro operation a heap allowed sound
    exact (call_spec sound heap allowed).mono (fun _ _ => trivial)
      (fun _ _ _ => trivial) (fun _ _ step => step.sound)

/-- **The resizeable array is a list.** After any run of calls on a new array, the list being
empty at first, the next call returns and does what it does to a list. -/
theorem array_refines_list :
    (∀ state : KHeap × KArray α, Created state → state.2.toList = []) ∧
    ∀ state : KHeap × KArray α, (object α).machine.Reachable Created state →
      state.2.Sound ∧
      ∀ (operation : ArrayOp α) (heap : KHeap), Allowed operation state.2 →
        Prog.Ensures ((object α).invoke operation) (heap, state.2) (fun _ => False)
          (fun error after => Performs state.2 operation (.error error) after.2)
          (fun answer after => Performs state.2 operation (.ok answer) after.2) := by
  refine ⟨fun state created => by simp [created.eq], ?_⟩
  intro state reachable
  have sound := sound_of_reachable reachable
  refine ⟨sound, ?_⟩
  intro operation heap allowed
  simp only [Object.ensures_invoke]
  exact call_spec sound heap allowed

theorem array_refines_list_resized :
    ∃ state : KHeap × KArray Nat, (object Nat).machine.Reachable Created state ∧
      state.2.toList = [7, 9] ∧
      Prog.Ensures ((object Nat).invoke (.remove 0)) (enoughMemory, state.2) (fun _ => False)
        (fun error after => Performs state.2 (.remove 0) (.error error) after.2)
        (fun answer after => Performs state.2 (.remove 0) (.ok answer) after.2) := by
  let new : KHeap × KArray Nat := (enoughMemory, empty)
  let calls : List (ArrayOp Nat × KHeap) :=
    [(.add 7, enoughMemory), (.setsize 40, enoughMemory), (.setsize 0, enoughMemory),
      (.add 7, noMemory), (.add 7, enoughMemory), (.add 8, enoughMemory),
      (.setguy 1 9, noMemory), (.preallocate 20, enoughMemory)]
  have created : Created new := ⟨enoughMemory, rfl⟩
  have computed : (((object Nat).machine.execute new calls).any fun state =>
      decide (state.2.toList = [7, 9] ∧ Allowed (.remove 0) state.2)) = true := by
    decide +kernel
  obtain ⟨state, executed, holds⟩ := (any_eq_true _ _).mp computed
  obtain ⟨listEq, allowed⟩ := of_decide_eq_true holds
  have reachable := (Machine.Reachable.start created).execute executed
  exact ⟨state, reachable, listEq,
    (array_refines_list.2 state reachable).2 (.remove 0) enoughMemory allowed⟩

end KArray

end Os161
