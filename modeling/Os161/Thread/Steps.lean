import Os161.Thread.Fork

/-!
# The steps of the thread system

`Sched.Next` says what each operation can do to the machine on lists, and
`exec_refines` that the code does nothing else. The operations can stop the kernel
only at the places in `Op.MayHalt`; in particular no thread structure is used
after it was destroyed, no current thread is destroyed, and no thread comes back
from the dead.
-/

namespace Os161

open ThreadSystem.StorageGrows Sched ThreadM

variable {s : ThreadSystem} {A : Sched} {t cur : Nat} {thread : Thread}

/-! ## Waking up -/

namespace Sched

/-- The length of a level once the sleepers in `rest` have been woken. -/
def load (A : Sched) (addr : Nat) (rest : List Nat) (p : Nat) : Nat :=
  (A.queue.level p).length + rest.countP fun t => A.sleepsOn addr t && A.queue.prio t == p

theorem load_wake {addr : Nat} (wakes : A.sleepsOn addr t = true) (kept rest : List Nat)
    (p : Nat) :
    ({ A with sleepers := kept ++ rest }.enqueue t).load addr rest p =
      A.load addr (t :: rest) p := by
  have unchanged : (rest.countP fun other =>
      ({ A with sleepers := kept ++ rest }.enqueue t).sleepsOn addr other &&
        ({ A with sleepers := kept ++ rest }.enqueue t).queue.prio other == p) =
      rest.countP fun other => A.sleepsOn addr other && A.queue.prio other == p := rfl
  rw [load, load, unchanged, enqueue_queue, Mlfq.State.level_push, List.countP_cons, wakes]
  simp only [Bool.true_and, beq_iff_eq]
  split
  · rw [length_append, List.length_singleton]
    omega
  · rfl

theorem load_skip {addr : Nat} (asleep : ¬A.sleepsOn addr t = true) (rest : List Nat) (p : Nat) :
    A.load addr rest p = A.load addr (t :: rest) p := by
  simp [load, asleep]

theorem length_level_wakeFrom (addr p : Nat) (rest : List Nat) :
    ∀ (kept : List Nat) (A : Sched),
      ((wakeFrom addr kept rest A).queue.level p).length = A.load addr rest p := by
  induction rest with
  | nil =>
      intro kept A
      rfl
  | cons t rest ih =>
      intro kept A
      rw [wakeFrom]
      split
      · rw [ih, load_wake ‹_›]
      · rw [ih, load_skip ‹_›]

end Sched

/-- The run queues have slots for the threads that wake up. -/
def WakeRoom (s : ThreadSystem) (A : Sched) (addr : Nat) (rest : List Nat) : Prop :=
  ∀ p < numPriorities, A.load addr rest p < (s.runqueue p).size

/-- The loops over the sleepers end behind the last one. -/
theorem sleepers_end {kept : List Nat} (asleep : s.sleepers.toList = kept ++ []) :
    ¬kept.length < s.sleepers.num := by
  rw [← KArray.length_toList, asleep]
  simp

/-- What they read, and what they remove, at the first sleeper that they have not seen. -/
theorem sleepers_next {kept rest : List Nat} (wf : s.sleepers.WellFormed)
    (asleep : s.sleepers.toList = kept ++ t :: rest) :
    kept.length < s.sleepers.num ∧
      s.sleepers.arrayGetguy kept.length s.heap = .ok (.ok t, s.heap) ∧
      ∃ sleepers, s.sleepers.arrayRemove kept.length s.heap = .ok (.ok sleepers, s.heap) ∧
        sleepers.WellFormed ∧ sleepers.toList = kept ++ rest ∧ sleepers.max = s.sleepers.max := by
  have inside : kept.length < s.sleepers.num := by
    rw [← KArray.length_toList, asleep]
    simp
  rcases KArray.arrayRemove_eq wf inside s.heap with ⟨sleepers, removed, wf', listEq, maxEq⟩
  refine ⟨inside, ?_, sleepers, removed, wf', ?_, maxEq⟩
  · rw [KArray.arrayGetguy_eq wf inside]
    simp [asleep]
  · rw [listEq, asleep, List.eraseIdx_append_of_length_le le_rfl, Nat.sub_self,
      List.eraseIdx_cons_zero]

theorem wakeupLoop_refines (addr : Nat) (rest : List Nat) :
    ∀ {s : ThreadSystem} {A : Sched} {kept : List Nat} {fuel : Nat}, Rel s A → A.Valid →
      A.sleepers = kept ++ rest → rest.length ≤ fuel →
      Ensures (wakeupLoop addr fuel kept.length) s
        (fun reason => reason = .wakeupResult ∧ ¬WakeRoom s A addr rest) (fun _ _ => False)
        (fun _ s' => Becomes s (wakeFrom addr kept rest A) s') := by
  induction rest with
  | nil =>
      intro s A kept fuel rel _ asleep _
      have done := sleepers_end ((congrArg sleepers rel.view).trans asleep)
      cases fuel with
      | zero => exact ⟨rel, refl _ _ _⟩
      | succ fuel =>
          rw [wakeupLoop, ensures_bind, ensures_get, if_neg done]
          exact ⟨rel, refl _ _ _⟩
  | cons t rest ih =>
      intro s A kept fuel rel valid asleep enough
      rcases rel.exists_view with ⟨queue, rfl, storage⟩
      rcases sleepers_next storage.sleepers_wf asleep with
        ⟨inside, got, sleepers, removed, sleepersWf, sleepersEq, maxEq⟩
      have member : t ∈ (s.view queue).members .sleeping := by
        simp [members, asleep]
      rcases isSome_iff_exists.mp (valid.placed.of_mem .sleeping member).1 with
        ⟨thread, present⟩
      have found : s.threads t = some thread := present
      rw [wakeFrom]
      cases fuel with
      | zero => simp at enough
      | succ fuel =>
          have enough : rest.length ≤ fuel := by simpa using enough
          simp only [wakeupLoop, ensures_bind, ensures_get, if_pos inside, ensures_onHeap,
            ensures_of_ok_eq got, ensures_deref found, ensures_ite]
          have wakesIff : (s.view queue).sleepsOn addr t = true ↔
              thread.tSleepaddr = some addr := by
            simp [sleepsOn, present]
          by_cases wakes : thread.tSleepaddr = some addr
          · rw [if_pos wakes, if_pos (wakesIff.mpr wakes)]
            have ok := valid.threads t thread present
            have rel₁ : Rel { s with sleepers } { s.view queue with sleepers := kept ++ rest } :=
              ⟨by simp only [ThreadSystem.view, sleepersEq],
                ⟨sleepersWf, storage.zombies_wf, storage.processIds_wf, storage.processIds_size,
                  storage.runqueue_wf, storage.size_le, storage.level⟩⟩
            have grows₁ : s.Grows { s with sleepers } :=
              ⟨fun _ _ => le_rfl, maxEq.ge, fun starved => ⟨starved, fun _ _ => rfl⟩⟩
            have prioInside : thread.priority < numPriorities := by
              rw [← ok.priority]
              exact lt_of_le_of_lt (valid.history.run.prio_le t) (by decide)
            have small : queue.ready.length ≤ maxThreads :=
              valid.ids.length_members_le valid.placed .ready
            simp only [ensures_of_ok_eq removed, ensures_modify, ensures_attempt]
            apply (makeRunnable_refines rel₁ present ok.priority prioInside small).mono
            · exact fun _ halted => halted.elim
            · rintro _ _ ⟨full, _⟩
              refine ⟨rfl, ?_⟩
              intro room
              have load_lt := room thread.priority prioInside
              have count_eq : (s.runqueue thread.priority).count =
                  (queue.level thread.priority).length := by
                rw [← Queue.length_toList, storage.level _ prioInside]
              have prioEq : queue.prio t = thread.priority := ok.priority
              have pushed : (queue.push t).level thread.priority =
                  queue.level thread.priority ++ [t] := by
                rw [Mlfq.State.level_push, if_pos prioEq]
              have queueEq : (s.view queue).queue = queue := rfl
              rw [← load_wake (wakesIff.mpr wakes) kept rest, load, enqueue_queue, queueEq, pushed,
                length_append, List.length_singleton] at load_lt
              simp only [RunqueueFull] at full
              omega
            · rintro ⟨⟩ s₂ ⟨rel₂, grows₂⟩
              have grows := grows₁.trans grows₂
              apply (ih rel₂ (valid.wakeOne asleep) rfl enough).unfailing
              · rintro _ ⟨rfl, noRoom⟩
                refine ⟨rfl, ?_⟩
                intro room
                apply noRoom
                intro p pInside
                rw [load_wake (wakesIff.mpr wakes)]
                exact lt_of_lt_of_le (room p pInside) (grows.size_le p pInside)
              · rintro _ s₃ ⟨rel₃, grows₃⟩
                exact ⟨rel₃, grows.trans grows₃⟩
          · have asleepStill := fun holds => wakes (wakesIff.mp holds)
            rw [if_neg wakes, if_neg asleepStill]
            have asleep' : (s.view queue).sleepers = (kept ++ [t]) ++ rest := by
              rw [asleep, append_assoc, List.singleton_append]
            have next := ih rel valid asleep' enough
            rw [length_append, List.length_singleton] at next
            apply next.unfailing
            · rintro _ ⟨rfl, noRoom⟩
              refine ⟨rfl, ?_⟩
              intro room
              apply noRoom
              intro p pInside
              rw [load_skip asleepStill]
              exact room p pInside
            · exact fun _ _ becomes => becomes

theorem threadWakeup_refines (rel : Rel s A) (valid : A.Valid) (addr : Nat) :
    Ensures (threadWakeup addr) s
      (fun reason => reason = .wakeupResult ∧ ¬WakeRoom s A addr A.sleepers)
      (fun _ _ => False) (fun _ s' => Becomes s (A.wake addr) s') := by
  have numEq : A.sleepers.length ≤ s.sleepers.num := by
    rw [← KArray.length_toList]
    exact (congrArg List.length (congrArg sleepers rel.view)).ge
  rw [threadWakeup, ensures_bind, ensures_get]
  exact wakeupLoop_refines addr A.sleepers rel valid (List.nil_append _).symm numEq

/-! ## Leaving the processor -/

theorem Sched.Valid.current_ok (valid : A.Valid) (running : A.current = some cur) :
    ∃ thread, A.threads cur = some thread ∧ A.ThreadOk cur thread ∧
      thread.priority < numPriorities ∧ A.queue.ready.length ≤ maxThreads := by
  have present := (valid.placed.of_mem .current (Sched.Placed.mem_current running)).1
  rcases isSome_iff_exists.mp present with ⟨thread, present⟩
  have ok := valid.threads cur thread present
  refine ⟨thread, present, ok, ?_, valid.ids.length_members_le valid.placed .ready⟩
  rw [← ok.priority]
  exact lt_of_le_of_lt (valid.history.run.prio_le cur) (by decide)

/-- While the scheduler waits, `thread_yield` does nothing. -/
theorem threadYield_idle (idle : s.curthread = none) : threadYield s = .ok (.ok (), s) := by
  rw [threadYield, miSwitch, bind_of_ok (show get s = .ok (.ok s, s) from rfl), idle]
  rfl

theorem threadYield_refines (rel : Rel s A) (valid : A.Valid) (running : A.current = some cur)
    (present : A.threads cur = some thread) :
    Ensures threadYield s
      (fun reason => reason = .filetableNull ∨ reason = .miSwitchResult ∧
        ListFull s thread.priority .ready ∧ s.heap 0 = false)
      (fun _ _ => False)
      (fun _ s' => ∃ B, (A.park cur thread .ready).Rescheduled cur B ∧ Becomes s B s') := by
  rcases valid.current_ok running with ⟨found, foundPresent, ok, inside, small⟩
  rw [present] at foundPresent
  cases foundPresent
  exact miSwitch_refines (by decide) rel running present ok.priority inside small
    (valid.park running present (Or.inl rfl))

theorem threadSleep_refines (rel : Rel s A) (valid : A.Valid) (running : A.current = some cur)
    (present : A.threads cur = some thread) (addr : Nat) :
    Ensures (threadSleep addr) s
      (fun reason => reason = .filetableNull ∨ reason = .miSwitchResult ∧
        ListFull s thread.priority .sleep ∧ s.heap 0 = false)
      (fun _ _ => False)
      (fun _ s' => ∃ B, ((A.setThread cur (some { thread with tSleepaddr := some addr })).park cur
        { thread with tSleepaddr := some addr } .sleep).Rescheduled cur B ∧ Becomes s B s') := by
  rcases valid.current_ok running with ⟨found, foundPresent, ok, inside, small⟩
  rw [present] at foundPresent
  cases foundPresent
  have changed := valid.setCurrent running present { thread with tSleepaddr := some addr }
    rfl rfl rfl rfl rfl
  have stillPresent : (A.setThread cur (some { thread with tSleepaddr := some addr })).threads cur =
      some { thread with tSleepaddr := some addr } := by simp
  have foundCur : s.curthread = some cur := rel.curthread_eq.trans running
  have foundThread : s.threads cur = some thread := by rw [rel.threads_eq, present]
  rw [threadSleep, ensures_bind, ensures_current foundCur, ensures_bind, ensures_update foundThread]
  exact miSwitch_refines (by decide) (rel.setThread cur _) running stillPresent ok.priority inside
    small (changed.park running stillPresent (Or.inr rfl))

theorem exitCwd_spec (rel : Rel s A) (present : A.threads cur = some thread)
    (counted : ∀ vn, thread.tCwd = some vn → 0 < A.refs vn) :
    Ensures (exitCwd cur) s (fun _ => False) (fun _ _ => False)
      (fun _ s' => s'.heap = s.heap ∧ s'.zombies = s.zombies ∧
        Becomes s { A.setThread cur (some { thread with tCwd := none }) with
          refs := dropRefs A.refs thread.tCwd } s') := by
  rcases rel.exists_view with ⟨queue, rfl, storage⟩
  have found : s.threads cur = some thread := by rw [rel.threads_eq, present]
  rw [exitCwd, ensures_bind, ensures_deref found]
  cases cwd : thread.tCwd with
  | none =>
      refine ⟨rfl, rfl, ?_, refl _ _ _⟩
      have unchanged : (s.view queue).setThread cur (some { thread with tCwd := none }) =
          s.view queue := by
        rw [← cwd, ← present]
        simp only [setThread, update_eq_self]
      rw [unchanged]
      exact rel
  | some vn =>
      have positive : 0 < s.vnRefcount vn := counted vn cwd
      have stillFound : (s.setRefcount vn (s.vnRefcount vn - 1)).threads cur = some thread := found
      simp only [vnodeDecref, ensures_bind, ensures_get, ensures_assert_of positive, ensures_modify]
      rw [ensures_update stillFound]
      exact ⟨rfl, rfl, ⟨rfl, storage⟩, refl _ _ _⟩

theorem threadExit_switches {halts : Panic → Prop} {fails : Errno → ThreadSystem → Prop}
    {returns : Unit → ThreadSystem → Prop} (rel : Rel s A) (valid : A.Valid)
    (running : A.current = some cur) (present : A.threads cur = some thread)
    (switch : ∀ s₁, Rel s₁ (A.retire cur thread) → s₁.heap = s.heap → s₁.zombies = s.zombies →
      s.Grows s₁ → Ensures (miSwitch .zomb) s₁ halts fails returns) :
    Ensures threadExit s halts fails returns := by
  have foundCur : s.curthread = some cur := rel.curthread_eq.trans running
  have foundThread : s.threads cur = some thread := by rw [rel.threads_eq, present]
  have positive : 0 < A.num := by
    rw [valid.placed.num_eq, running]
    simp
  rw [threadExit, ensures_bind, ensures_current foundCur, ensures_bind,
    ensures_update foundThread, ensures_bind]
  have noSpace : (A.setThread cur (some { thread with tVmspace := none })).threads cur =
      some { thread with tVmspace := none } := by simp
  apply (exitCwd_spec (rel.setThread cur _) noSpace
    fun vn cwd => valid.refs.positive valid.placed present cwd).total
  rintro _ s₁ ⟨heapEq, zombiesEq, rel₁, grows₁⟩
  have numEq : s₁.numthreads = A.num := congrArg num rel₁.view
  have positive : 0 < s₁.numthreads := numEq ▸ positive
  simp only [ensures_bind, ensures_get, ensures_assert_of positive, ensures_modify]
  refine switch _ ?_ heapEq zombiesEq grows₁
  have retired := (rel₁.setNum (s₁.numthreads - 1)).record (.exit cur)
  simpa [retire, setThread, numEq] using retired

theorem threadExit_refines (rel : Rel s A) (valid : A.Valid) (running : A.current = some cur)
    (present : A.threads cur = some thread) :
    Ensures threadExit s
      (fun reason => reason = .filetableNull ∨
        reason = .miSwitchResult ∧ ListFull s thread.priority .zomb ∧ s.heap 0 = false)
      (fun _ _ => False)
      (fun _ s' => ∃ B, ((A.retire cur thread).park cur
        { thread with tVmspace := none, tCwd := none } .zomb).Rescheduled cur B ∧
          Becomes s B s') := by
  rcases valid.current_ok running with ⟨found, foundPresent, ok, inside, small⟩
  rw [present] at foundPresent
  cases foundPresent
  have retired : (A.retire cur thread).threads cur =
      some { thread with tVmspace := none, tCwd := none } := by simp [retire]
  apply threadExit_switches rel valid running present
  intro s₁ rel₁ heapEq zombiesEq grows₁
  apply (miSwitch_refines (by decide) rel₁ running retired ok.priority inside small
    (valid.exit running present)).unfailing
  · rintro reason (null | ⟨asserted, full, memory⟩)
    · exact Or.inl null
    · refine Or.inr ⟨asserted, ?_, ?_⟩
      · simpa [ListFull, zombiesEq] using full
      · rwa [← heapEq]
  · rintro _ s₂ ⟨B, rescheduled, rel₂, grows₂⟩
    exact ⟨B, rescheduled, rel₂, grows₁.trans grows₂⟩

/-! ## All operations -/

/-- The places at which an operation can stop the kernel. -/
def Op.MayHalt : Op → Panic → Prop
  | .fork, .qEmpty => True
  | .yield, .filetableNull | .sleep _, .filetableNull | .exit, .filetableNull => True
  | .yield, .miSwitchResult | .sleep _, .miSwitchResult | .exit, .miSwitchResult => True
  | .wakeup _, .wakeupResult => True
  | .resume, .filetableNull => True
  | _, _ => False

namespace Sched

/-- What an operation can do. -/
def Next (A B : Sched) : Op → Prop
  | .fork =>
      B = A ∨ (∃ id rest, A.ids = id :: rest ∧ B = A.refuse rest) ∨
        ∃ child rest, A.ids = child.id :: rest ∧ child.priority = priorityNormal ∧
          child.tPcb = .threadstart ∧ FilesClosed child.ft ∧ B = A.enroll child rest
  | .yield =>
      (A.current = none ∧ B = A) ∨ ∃ cur thread, A.current = some cur ∧
        A.threads cur = some thread ∧ (A.park cur thread .ready).Rescheduled cur B
  | .sleep addr =>
      ∃ cur thread, A.current = some cur ∧ A.threads cur = some thread ∧
        ((A.setThread cur (some { thread with tSleepaddr := some addr })).park cur
          { thread with tSleepaddr := some addr } .sleep).Rescheduled cur B
  | .wakeup addr => B = A.wake addr
  | .exit =>
      ∃ cur thread, A.current = some cur ∧ A.threads cur = some thread ∧
        ((A.retire cur thread).park cur
          { thread with tVmspace := none, tCwd := none } .zomb).Rescheduled cur B
  | .resume =>
      ∃ t thread, A.current = none ∧ A.queue.Picks t ∧ A.threads t = some thread ∧
        B = (A.dispatch t thread).resume t (lowerPriority thread)
  | .setcurdir vn =>
      ∃ cur thread, A.current = some cur ∧ A.threads cur = some thread ∧
        B = A.chdir cur thread vn
  | .setVmspace space =>
      ∃ cur thread, A.current = some cur ∧ A.threads cur = some thread ∧
        B = A.setThread cur (some { thread with tVmspace := some space })

theorem Next.valid {B : Sched} {op : Op} (next : A.Next B op) (valid : A.Valid) : B.Valid := by
  cases op with
  | fork =>
      rcases next with rfl | ⟨id, rest, taken, rfl⟩ |
        ⟨child, rest, taken, normal, started, closed, rfl⟩
      · exact valid
      · exact valid.refuse taken
      · exact valid.enroll taken normal started closed
  | yield =>
      rcases next with ⟨_, rfl⟩ | ⟨cur, thread, running, present, rescheduled⟩
      · exact valid
      · exact (valid.park running present (Or.inl rfl)).rescheduled rfl (by simp [park]) rescheduled
  | sleep addr =>
      rcases next with ⟨cur, thread, running, present, rescheduled⟩
      have changed := valid.setCurrent running present { thread with tSleepaddr := some addr }
        rfl rfl rfl rfl rfl
      exact (changed.park running (by simp) (Or.inr rfl)).rescheduled rfl (by simp [park])
        rescheduled
  | wakeup addr =>
      rw [show B = A.wake addr from next]
      exact valid.wakeFrom rfl
  | exit =>
      rcases next with ⟨cur, thread, running, present, rescheduled⟩
      exact (valid.exit running present).rescheduled rfl (by simp [park]) rescheduled
  | resume =>
      rcases next with ⟨t, thread, waiting, picks, present, rfl⟩
      apply (valid.dispatch waiting picks present).resume rfl
      simp [dispatch, choose]
  | setcurdir vn =>
      rcases next with ⟨cur, thread, running, present, rfl⟩
      exact valid.chdir running present vn
  | setVmspace space =>
      rcases next with ⟨cur, thread, running, present, rfl⟩
      exact valid.setCurrent running present { thread with tVmspace := some space }
        rfl rfl rfl rfl rfl

end Sched

theorem setcurdir_refines (rel : Rel s A) (valid : A.Valid) (running : A.current = some cur)
    (present : A.threads cur = some thread) (vn : Nat) :
    Ensures (Op.setcurdir vn).exec s (fun _ => False) (fun _ _ => False)
      (fun _ s' => Becomes s (A.chdir cur thread vn) s') := by
  rcases rel.exists_view with ⟨queue, rfl, storage⟩
  have found : (s.setRefcount vn (s.vnRefcount vn + 1)).threads cur = some thread := present
  simp only [Op.exec, ensures_bind, ensures_current running, vnodeIncref,
    ensures_modify, ensures_deref found, ensures_update found]
  rw [chdir]
  cases cwd : thread.tCwd with
  | none => exact ⟨⟨rfl, storage⟩, refl _ _ _⟩
  | some old =>
      have positive : 0 < inheritRefs s.vnRefcount (some vn) old := by
        rw [inheritRefs_apply]
        have counted : 0 < s.vnRefcount old := valid.refs.positive valid.placed present cwd
        omega
      simp only [vnodeDecref, ensures_bind, ensures_get, ensures_modify]
      apply (ensures_assert_of positive).mpr
      exact ⟨⟨rfl, storage⟩, refl _ _ _⟩

/-- The code does to its state what `Sched.Next` says, or stops where it may. -/
theorem exec_refines (op : Op) (rel : Rel s A) (valid : A.Valid) (enabled : op.Enabled s) :
    Ensures op.exec s op.MayHalt
      (fun _ s' => ∃ B, A.Next B op ∧ Becomes s B s')
      (fun _ s' => ∃ B, A.Next B op ∧ Becomes s B s') := by
  have currentEq := rel.curthread_eq
  have running : s.curthread.isSome → ∃ cur thread, A.current = some cur ∧
      A.threads cur = some thread := by
    intro isSome
    rcases isSome_iff_exists.mp isSome with ⟨cur, running⟩
    rw [currentEq] at running
    rcases valid.current_ok running with ⟨thread, present, _⟩
    exact ⟨cur, thread, running, present⟩
  cases op with
  | fork =>
      rcases running enabled with ⟨cur, parent, running, present⟩
      rw [Op.exec, ensures_bind]
      apply (threadFork_spec rel valid.forkable running present).mono
      · rintro _ ⟨rfl, _⟩
        trivial
      · rintro _ s' (⟨_, becomes⟩ | ⟨_, _, _, id, rest, taken, becomes⟩)
        · exact ⟨A, Or.inl rfl, becomes⟩
        · exact ⟨_, Or.inr (Or.inl ⟨id, rest, taken, rfl⟩), becomes⟩
      · rintro _ s' ⟨_, _, _, child, rest, taken, normal, started, closed, _, becomes, _⟩
        exact ⟨_, Or.inr (Or.inr ⟨child, rest, taken, normal, started, closed, rfl⟩), becomes⟩
  | yield =>
      cases current : s.curthread with
      | none =>
          rw [Op.exec, ensures_of_ok_eq (threadYield_idle current)]
          exact ⟨A, Or.inl ⟨currentEq ▸ current, rfl⟩, rel, refl _ _ _⟩
      | some _ =>
          rcases running (by simp [current]) with ⟨cur, thread, running, present⟩
          apply (threadYield_refines rel valid running present).unfailing
          · rintro _ (rfl | ⟨rfl, _⟩) <;> trivial
          · rintro _ s' ⟨B, rescheduled, becomes⟩
            exact ⟨B, Or.inr ⟨cur, thread, running, present, rescheduled⟩, becomes⟩
  | sleep addr =>
      rcases running enabled with ⟨cur, thread, running, present⟩
      apply (threadSleep_refines rel valid running present addr).unfailing
      · rintro _ (rfl | ⟨rfl, _⟩) <;> trivial
      · rintro _ s' ⟨B, rescheduled, becomes⟩
        exact ⟨B, ⟨cur, thread, running, present, rescheduled⟩, becomes⟩
  | wakeup addr =>
      apply (threadWakeup_refines rel valid addr).unfailing
      · rintro _ ⟨rfl, _⟩
        trivial
      · exact fun _ s' becomes => ⟨_, rfl, becomes⟩
  | exit =>
      rcases running enabled with ⟨cur, thread, running, present⟩
      apply (threadExit_refines rel valid running present).unfailing
      · rintro _ (rfl | ⟨rfl, _⟩) <;> trivial
      · rintro _ s' ⟨B, rescheduled, becomes⟩
        exact ⟨B, ⟨cur, thread, running, present, rescheduled⟩, becomes⟩
  | resume =>
      rcases enabled with ⟨idle, busy⟩
      rcases isSome_iff_exists.mp idle with ⟨cur, idle⟩
      have idlerEq : A.idling = some cur := (congrArg idling rel.view).symm.trans idle
      rcases valid.placed.idler cur idlerEq with ⟨waiting, present⟩
      simp only [Op.exec, ensures_bind, ensures_get, idle]
      apply (switchTo_refines rel valid waiting busy present).unfailing
      · rintro _ rfl
        trivial
      · rintro _ s' ⟨t, thread, picks, picked, becomes⟩
        exact ⟨_, ⟨t, thread, waiting, picks, picked, rfl⟩, becomes⟩
  | setcurdir vn =>
      rcases running enabled with ⟨cur, thread, running, present⟩
      apply (setcurdir_refines rel valid running present vn).total
      exact fun _ s' becomes => ⟨_, ⟨cur, thread, running, present, rfl⟩, becomes⟩
  | setVmspace space =>
      rcases running enabled with ⟨cur, thread, running, present⟩
      have foundCur : s.curthread = some cur := currentEq.trans running
      have found : s.threads cur = some thread := by rw [rel.threads_eq, present]
      rw [Op.exec, ensures_bind, ensures_current foundCur, ensures_update found]
      exact ⟨_, ⟨cur, thread, running, present, rfl⟩, rel.setThread cur _, refl _ _ _⟩

end Os161
