import Os161.Thread.Sched

/-!
# The transitions of the thread machine keep its invariants

One lemma for each transition and each part of `Sched.Valid`, and from them one
for each transition and `Sched.Valid`.
-/

namespace Os161

open Mlfq.State List
open Function (update)

namespace Sched

variable {A : Sched} {t cur : Nat} {thread : Thread}

/-! ## Places -/

/-- A thread that is in a place exists and is in no other place. -/
theorem Placed.of_mem (placed : A.Placed) (place : Place) (member : t ∈ A.members place) :
    (A.threads t).isSome ∧ ∀ other, other ≠ place → t ∉ A.members other := by
  have once := placed.once t
  have counted := count_pos_iff.mpr member
  cases present : (A.threads t).isSome with
  | true =>
      refine ⟨rfl, ?_⟩
      intro other different
      apply count_eq_zero.mp
      simp only [present, Bool.toNat_true] at once
      cases place <;> cases other <;> simp only [members] at counted ⊢ <;>
        first | omega | exact absurd rfl different
  | false =>
      simp only [present, Bool.toNat_false] at once
      cases place <;> simp only [members] at counted <;> omega

theorem Placed.mem_current (running : A.current = some t) : t ∈ A.members .current := by
  simp [members, running]

theorem Placed.lt_nextThread (placed : A.Placed) (present : (A.threads t).isSome) :
    t < A.nextThread := by
  by_contra beyond
  simp [placed.fresh t (Nat.le_of_not_lt beyond)] at present

theorem Placed.nodup (placed : A.Placed) (place : Place) : (A.members place).Nodup := by
  apply nodup_iff_count_le_one.mpr
  intro t
  have once := placed.once t
  have le_one := Bool.toNat_le (A.threads t).isSome
  cases place <;> simp only [members] <;> omega

theorem Placed.enroll (placed : A.Placed) (thread : Thread) (ids : List Nat) :
    (A.enroll thread ids).Placed where
  once := by
    intro t
    have once := placed.once t
    have absent := placed.fresh A.nextThread le_rfl
    by_cases new : t = A.nextThread
    · subst new
      simp [Sched.enroll, push, absent] at once ⊢
      omega
    · simp [Sched.enroll, push, update_of_ne new, Ne.symm new] at once ⊢
      omega
  num_eq := by
    have num_eq := placed.num_eq
    simp [Sched.enroll, push]
    omega
  fresh := by
    intro t beyond
    simp only [Sched.enroll] at beyond ⊢
    rw [update_of_ne (by omega)]
    exact placed.fresh t (by omega)
  idler := by
    intro t idle
    rcases placed.idler t idle with ⟨noCurrent, present⟩
    refine ⟨noCurrent, ?_⟩
    have earlier := placed.lt_nextThread present
    simp only [Sched.enroll]
    rwa [update_of_ne (by omega)]

theorem Placed.refuse (placed : A.Placed) (ids : List Nat) : (A.refuse ids).Placed where
  once := placed.once
  num_eq := placed.num_eq
  fresh := fun t beyond => placed.fresh t (Nat.le_of_succ_le beyond)
  idler := placed.idler

theorem Placed.setThread (placed : A.Placed) (present : A.threads t = some thread)
    (changed : Thread) : (A.setThread t (some changed)).Placed := by
  have exists_iff : ∀ other,
      ((A.setThread t (some changed)).threads other).isSome = (A.threads other).isSome := by
    intro other
    by_cases same : other = t
    · simp [Sched.setThread, same, present]
    · simp [Sched.setThread, update_of_ne same]
  have earlier : t < A.nextThread := placed.lt_nextThread (by simp [present])
  refine ⟨?_, placed.num_eq, ?_, ?_⟩
  · intro other
    rw [exists_iff]
    exact placed.once other
  · intro other beyond
    have different : other ≠ t := by
      rintro rfl
      exact absurd beyond (Nat.not_le.mpr earlier)
    simp only [Sched.setThread, update_of_ne different]
    exact placed.fresh other beyond
  · intro other idle
    rw [exists_iff]
    exact placed.idler other idle

theorem Placed.idling_none (placed : A.Placed) (running : A.current = some cur) :
    A.idling = none := by
  cases idle : A.idling with
  | none => rfl
  | some t => simp [(placed.idler t idle).1] at running

theorem Placed.park (placed : A.Placed) (running : A.current = some cur)
    (present : A.threads cur = some thread) {nextstate : ThreadState}
    (stays : nextstate = .ready ∨ nextstate = .sleep) : (A.park cur thread nextstate).Placed := by
  have idle := placed.idling_none running
  have changed := placed.setThread present { thread with tPcb := .switched nextstate }
  rcases stays with rfl | rfl
  all_goals
    refine ⟨?_, ?_, changed.fresh, ?_⟩
    · intro t
      have once := changed.once t
      by_cases isCur : t = cur
      · simp [Sched.park, Sched.setThread, Sched.enqueue, push, running, isCur] at once ⊢
        omega
      · simp [Sched.park, Sched.setThread, Sched.enqueue, push, running, isCur,
          Ne.symm isCur] at once ⊢
        omega
    · have num_eq := placed.num_eq
      simp [Sched.park, Sched.setThread, Sched.enqueue, push, running] at num_eq ⊢
      omega
    · intro t idling
      simp [Sched.park, Sched.setThread, Sched.enqueue, idle] at idling

theorem Placed.exit (placed : A.Placed) (running : A.current = some cur)
    (present : A.threads cur = some thread) (ended : Thread) :
    ((A.retire cur thread).park cur ended .zomb).Placed := by
  have idle := placed.idling_none running
  have changed := placed.setThread present { ended with tPcb := .switched .zomb }
  refine ⟨?_, ?_, ?_, ?_⟩
  · intro t
    have once := changed.once t
    by_cases isCur : t = cur
    · simp [Sched.park, Sched.retire, Sched.setThread, running, isCur] at once ⊢
      omega
    · simp [Sched.park, Sched.retire, Sched.setThread, running, isCur, Ne.symm isCur] at once ⊢
      omega
  · have num_eq := placed.num_eq
    simp [Sched.park, Sched.retire, Sched.setThread, running] at num_eq ⊢
    omega
  · intro t beyond
    have absent := changed.fresh t beyond
    simpa [Sched.park, Sched.retire, Sched.setThread] using absent
  · intro t idling
    simp [Sched.park, Sched.retire, Sched.setThread, idle] at idling

theorem Placed.idle (placed : A.Placed) (waiting : A.current = none)
    (present : (A.threads cur).isSome) : ({ A with idling := some cur } : Sched).Placed where
  once := placed.once
  num_eq := placed.num_eq
  fresh := placed.fresh
  idler := by
    intro t idling
    rw [← Option.some.inj idling]
    exact ⟨waiting, present⟩

theorem Placed.dispatch (placed : A.Placed) (waiting : A.current = none)
    (ready : t ∈ A.queue.ready) (present : A.threads t = some thread) :
    (A.dispatch t thread).Placed := by
  have changed := placed.setThread present (lowerPriority thread)
  refine ⟨?_, ?_, changed.fresh, ?_⟩
  · intro other
    have once := changed.once other
    have counted := count_pos_iff.mpr ready
    by_cases same : other = t
    · simp [Sched.dispatch, Sched.choose, Sched.setThread, pick, waiting, same] at once ⊢
      omega
    · simp [Sched.dispatch, Sched.choose, Sched.setThread, pick, waiting, same, Ne.symm same,
        count_erase_of_ne] at once ⊢
      omega
  · have num_eq := placed.num_eq
    have positive := length_pos_of_mem ready
    simp [Sched.dispatch, Sched.choose, pick, waiting, length_erase_of_mem ready] at num_eq ⊢
    omega
  · intro other idling
    simp [Sched.dispatch, Sched.choose] at idling

variable {rest : List Nat} {B : Sched}

theorem Placed.wakeOne (placed : A.Placed) {kept : List Nat}
    (asleep : A.sleepers = kept ++ t :: rest) :
    ({ A with sleepers := kept ++ rest }.enqueue t).Placed where
  once := by
    intro other
    have once := placed.once other
    simp only [asleep, count_append, count_cons] at once
    simp only [Sched.enqueue, push, count_append, count_cons, count_nil]
    rw [← once]
    omega
  num_eq := by
    have num_eq := placed.num_eq
    simp [asleep] at num_eq
    simp [Sched.enqueue, push]
    omega
  fresh := placed.fresh
  idler := placed.idler

theorem Placed.buryOne (placed : A.Placed) (dead : A.zombies = t :: rest)
    (notIdler : A.idling ≠ some t) : ({ A.destroy t with zombies := rest } : Sched).Placed where
  once := by
    intro other
    have once := placed.once other
    by_cases same : other = t
    · have gone := (placed.of_mem .zombie (t := t) (by simp [members, dead])).1
      subst same
      simp [dead, gone] at once
      simp [Sched.destroy]
      omega
    · simp [dead, Ne.symm same] at once
      simp [Sched.destroy, update_of_ne same]
      omega
  num_eq := placed.num_eq
  fresh := by
    intro other beyond
    by_cases same : other = t
    · simp [Sched.destroy, same]
    · simp only [Sched.destroy, update_of_ne same]
      exact placed.fresh other beyond
  idler := by
    intro other idling
    rcases placed.idler other idling with ⟨waiting, present⟩
    have different : other ≠ t := by
      rintro rfl
      exact notIdler idling
    refine ⟨waiting, ?_⟩
    simpa [Sched.destroy, update_of_ne different] using present

/-! ## Process ids -/

theorem IdsValid.congr (valid : A.IdsValid) (held : B.idOf = A.idOf) (free : B.ids = A.ids) :
    B.IdsValid := by
  rcases valid with ⟨exclusive, unheld, nodup, held_lt, free_lt⟩
  constructor <;> simp only [held, free] <;> assumption

theorem idOf_setThread (A : Sched) (t : Nat) (changed : Option Thread) :
    (A.setThread t changed).idOf = update A.idOf t (changed.map Thread.id) := by
  funext other
  by_cases same : other = t
  · simp [idOf, setThread, same]
  · simp [idOf, setThread, update_of_ne same]

theorem idOf_setThread_same (present : A.threads t = some thread) (changed : Thread)
    (sameId : changed.id = thread.id) : (A.setThread t (some changed)).idOf = A.idOf := by
  have held : A.idOf t = some changed.id := by simp [idOf, present, sameId]
  rw [idOf_setThread, map_some, ← held, update_eq_self]

theorem IdsValid.enroll (valid : A.IdsValid) (taken : A.ids = thread.id :: rest) :
    (A.enroll thread rest).IdsValid := by
  have idOfEq : (A.enroll thread rest).idOf =
      update A.idOf A.nextThread (some thread.id) :=
    idOf_setThread A A.nextThread (some thread)
  have nodup := valid.nodup
  rw [taken] at nodup
  have free : ∀ id ∈ thread.id :: rest, id ∈ A.ids := by
    rw [taken]
    exact fun _ member => member
  refine ⟨?_, ?_, ?_, ?_, ?_⟩
  · rw [idOfEq]
    exact valid.exclusive.give (valid.unheld _ (free _ mem_cons_self)) _
  · intro id member
    rw [idOfEq]
    apply (valid.unheld id (free id (mem_cons_of_mem _ member))).give
    rintro rfl
    exact (nodup_cons.mp nodup).1 member
  · exact (nodup_cons.mp nodup).2
  · intro t id held
    rw [idOfEq] at held
    by_cases new : t = A.nextThread
    · simp only [new, update_self, Option.some.injEq] at held
      rw [← held]
      exact valid.free_lt _ (free _ mem_cons_self)
    · rw [update_of_ne new] at held
      exact valid.held_lt t id held
  · intro id member
    exact valid.free_lt id (free id (mem_cons_of_mem _ member))

theorem IdsValid.refuse (valid : A.IdsValid) {id : Nat} (taken : A.ids = id :: rest) :
    (A.refuse rest).IdsValid := by
  have nodup := valid.nodup
  rw [taken] at nodup
  have free : ∀ other ∈ rest, other ∈ A.ids := by
    rw [taken]
    exact fun _ member => mem_cons_of_mem _ member
  refine ⟨valid.exclusive, ?_, (nodup_cons.mp nodup).2, valid.held_lt, ?_⟩
  · intro other member
    exact valid.unheld other (free other member)
  · intro other member
    exact valid.free_lt other (free other member)

theorem IdsValid.destroy (valid : A.IdsValid) (present : A.threads t = some thread) :
    (A.destroy t).IdsValid := by
  have idOfEq : (A.destroy t).idOf = update A.idOf t none := idOf_setThread A t none
  have idsEq : (A.destroy t).ids = A.ids ++ [thread.id] := by simp [Sched.destroy, present]
  have held : A.idOf t = some thread.id := by simp [idOf, present]
  refine ⟨?_, ?_, ?_, ?_, ?_⟩
  · rw [idOfEq]
    exact valid.exclusive.drop t
  · intro id member
    rw [idOfEq]
    rw [idsEq, mem_append, mem_singleton] at member
    rcases member with member | rfl
    · exact (valid.unheld id member).drop t
    · exact valid.exclusive.unheld_drop held
  · rw [idsEq]
    apply valid.nodup.append (nodup_singleton _)
    simp only [disjoint_singleton]
    intro member
    exact valid.unheld _ member t held
  · intro other id otherHolds
    rw [idOfEq] at otherHolds
    by_cases same : other = t
    · simp [same] at otherHolds
    · rw [update_of_ne same] at otherHolds
      exact valid.held_lt other id otherHolds
  · intro id member
    rw [idsEq, mem_append, mem_singleton] at member
    rcases member with member | rfl
    · exact valid.free_lt id member
    · exact valid.held_lt t _ held

/-- There are never more free ids than there are ids. -/
theorem IdsValid.length_le (valid : A.IdsValid) : A.ids.length ≤ maxThreads := by
  have inside : A.ids ⊆ range maxThreads := by
    intro id member
    simpa using valid.free_lt id member
  simpa using (valid.nodup.subperm inside).length_le

/-- There are never more threads in one place than there are ids. -/
theorem IdsValid.length_members_le (valid : A.IdsValid) (placed : A.Placed) (place : Place) :
    (A.members place).length ≤ maxThreads := by
  apply valid.exclusive.length_le (placed.nodup place)
  intro t member
  rcases isSome_iff_exists.mp (placed.of_mem place member).1 with ⟨thread, present⟩
  have held : A.idOf t = some thread.id := by simp [idOf, present]
  exact ⟨thread.id, held, valid.held_lt t _ held⟩

theorem IdsValid.num_le (valid : A.IdsValid) (placed : A.Placed) : A.num ≤ maxThreads := by
  have length_eq : A.num = (A.current.toList ++ A.queue.ready ++ A.sleepers).length := by
    simp [placed.num_eq, Nat.add_assoc]
  rw [length_eq]
  apply valid.exclusive.length_le
  · apply nodup_iff_count_le_one.mpr
    intro t
    have once := placed.once t
    have le_one := Bool.toNat_le (A.threads t).isSome
    simp only [count_append]
    omega
  · intro t member
    have present : (A.threads t).isSome := by
      simp only [mem_append] at member
      rcases member with (member | member) | member
      · exact (placed.of_mem .current member).1
      · exact (placed.of_mem .ready member).1
      · exact (placed.of_mem .sleeping member).1
    rcases isSome_iff_exists.mp present with ⟨thread, present⟩
    have held : A.idOf t = some thread.id := by simp [idOf, present]
    exact ⟨thread.id, held, valid.held_lt t _ held⟩

/-! ## Thread structures -/

theorem ThreadsOk.congr (ok : A.ThreadsOk) (threads : B.threads = A.threads)
    (queue : B.queue = A.queue) (zombies : B.zombies = A.zombies) (log : B.log = A.log) :
    B.ThreadsOk := by
  intro t found present
  rw [threads] at present
  rcases ok t found present with ⟨priority, files, ended, alive⟩
  refine ⟨?_, files, ?_, ?_⟩
  · rwa [queue]
  · rwa [zombies]
  · rwa [zombies, log]

theorem ThreadsOk.enroll (ok : A.ThreadsOk) (placed : A.Placed) (history : A.History)
    (normal : thread.priority = priorityNormal) (started : thread.tPcb = .threadstart)
    (closed : FilesClosed thread.ft) (ids : List Nat) : (A.enroll thread ids).ThreadsOk := by
  intro t found present
  by_cases new : t = A.nextThread
  · subst new
    have absent := placed.fresh A.nextThread le_rfl
    simp only [Sched.enroll, update_self, Option.some.injEq] at present
    subst present
    refine ⟨?_, closed, ?_, ?_⟩
    · simp [Sched.enroll, push, history.normal A.nextThread le_rfl, normal]
    · intro dead
      have exists_new := (placed.of_mem .zombie dead).1
      simp [absent] at exists_new
    · intro _
      refine ⟨by simp [started], ?_⟩
      intro exited
      have earlier := history.exited_lt A.nextThread (by simpa [Sched.enroll] using exited)
      exact absurd earlier (lt_irrefl _)
  · simp only [Sched.enroll, update_of_ne new] at present
    rcases ok t found present with ⟨priority, files, ended, alive⟩
    refine ⟨priority, files, ended, ?_⟩
    intro notDead
    simpa [Sched.enroll] using alive notDead

/-- A change of a living thread's structure that its place allows. -/
theorem ThreadsOk.setThread (ok : A.ThreadsOk) {changed : Thread}
    (priority : A.queue.prio t = changed.priority) (files : FilesClosed changed.ft)
    (ended : t ∈ A.zombies → changed.tVmspace = none ∧ changed.tCwd = none)
    (alive : t ∉ A.zombies → changed.tPcb ≠ .switched .zomb ∧ Event.exit t ∉ A.log) :
    (A.setThread t (some changed)).ThreadsOk := by
  intro other found present
  by_cases same : other = t
  · subst same
    simp only [Sched.setThread, update_self, Option.some.injEq] at present
    subst present
    exact ⟨priority, files, ended, alive⟩
  · simp only [Sched.setThread, update_of_ne same] at present
    rcases ok other found present with ⟨priority, files, ended, alive⟩
    exact ⟨priority, files, ended, alive⟩

theorem ThreadsOk.enqueue (ok : A.ThreadsOk) (t : Nat) : (A.enqueue t).ThreadsOk := by
  intro other found present
  rcases ok other found present with ⟨priority, files, ended, alive⟩
  refine ⟨priority, files, ended, ?_⟩
  intro notDead
  simpa [Sched.enqueue] using alive notDead

theorem ThreadsOk.exit (ok : A.ThreadsOk) (present : A.threads cur = some thread) :
    ((A.retire cur thread).park cur { thread with tVmspace := none, tCwd := none }
      .zomb).ThreadsOk := by
  intro other found foundPresent
  by_cases same : other = cur
  · subst same
    simp only [Sched.park, Sched.retire, Sched.setThread, update_self,
      Option.some.injEq] at foundPresent
    subst foundPresent
    rcases ok other thread present with ⟨priority, files, _, _⟩
    refine ⟨priority, files, fun _ => ⟨rfl, rfl⟩, ?_⟩
    intro notDead
    simp [Sched.park] at notDead
  · simp only [Sched.park, Sched.retire, Sched.setThread, update_of_ne same] at foundPresent
    rcases ok other found foundPresent with ⟨priority, files, ended, alive⟩
    refine ⟨priority, files, ?_, ?_⟩
    · intro dead
      simp only [Sched.park, Sched.retire, Sched.setThread, mem_append, mem_singleton,
        same, or_false] at dead
      exact ended dead
    · intro notDead
      simp only [Sched.park, Sched.retire, Sched.setThread, mem_append, mem_singleton,
        same, or_false] at notDead
      simpa [Sched.park, Sched.retire, Sched.setThread, same] using alive notDead

theorem ThreadsOk.dispatch (ok : A.ThreadsOk) (present : A.threads t = some thread) :
    (A.dispatch t thread).ThreadsOk := by
  intro other found foundPresent
  by_cases same : other = t
  · subst same
    simp only [Sched.dispatch, Sched.choose, update_self, Option.some.injEq] at foundPresent
    subst foundPresent
    rcases ok other thread present with ⟨priority, files, ended, alive⟩
    refine ⟨?_, files, ended, ?_⟩
    · simp only [Sched.dispatch, Sched.choose, pick, lowerPriority, priority, if_true]
      split <;> omega
    · intro notDead
      simpa [Sched.dispatch, Sched.choose, lowerPriority] using alive notDead
  · simp only [Sched.dispatch, Sched.choose, update_of_ne same] at foundPresent
    rcases ok other found foundPresent with ⟨priority, files, ended, alive⟩
    refine ⟨?_, files, ended, ?_⟩
    · simpa [Sched.dispatch, Sched.choose, pick, same] using priority
    · intro notDead
      simpa [Sched.dispatch, Sched.choose] using alive notDead

theorem ThreadsOk.buryOne (ok : A.ThreadsOk) (dead : A.zombies = t :: rest) :
    ({ A.destroy t with zombies := rest } : Sched).ThreadsOk := by
  intro other found present
  have different : other ≠ t := by
    rintro rfl
    simp [Sched.destroy] at present
  simp only [Sched.destroy, update_of_ne different] at present
  rcases ok other found present with ⟨priority, files, ended, alive⟩
  refine ⟨priority, files, ?_, ?_⟩
  · intro stillDead
    apply ended
    rw [dead]
    exact mem_cons_of_mem _ stillDead
  · intro notDead
    have alive := alive (by simpa [dead, different] using notDead)
    simpa [Sched.destroy] using alive

/-! ## The log -/

theorem History.congr (history : A.History) (threads : B.threads = A.threads)
    (queue : B.queue = A.queue) (nextThread : B.nextThread = A.nextThread) (log : B.log = A.log) :
    B.History := by
  rcases history with ⟨run, normal, exited_lt, destroyed, once, final, kept⟩
  constructor <;> simp only [threads, queue, nextThread, log] <;> assumption

theorem History.enqueue (history : A.History) (notReady : t ∉ A.queue.ready) :
    (A.enqueue t).History where
  run := Mlfq.Run.push history.run notReady
  normal := history.normal
  exited_lt := by
    intro other exited
    exact history.exited_lt other (by simpa [Sched.enqueue] using exited)
  destroyed := by
    intro other destroyed
    exact history.destroyed other (by simpa [Sched.enqueue] using destroyed)
  destroyed_once := by
    intro other
    simpa [Sched.enqueue] using history.destroyed_once other
  final := by
    apply List.Pairwise.cons _ history.final
    intro older _ other isDispatch
    cases isDispatch
  kept := by
    intro id
    simpa [Sched.enqueue] using history.kept id

theorem History.enroll (history : A.History) (placed : A.Placed) (thread : Thread)
    (ids : List Nat) : (A.enroll thread ids).History := by
  have absent := placed.fresh A.nextThread le_rfl
  have notReady : A.nextThread ∉ A.queue.ready := by
    intro ready
    have present := (placed.of_mem .ready ready).1
    simp [absent] at present
  rcases history.enqueue notReady with ⟨run, normal, exited_lt, destroyed, once, final, kept⟩
  refine ⟨run, ?_, ?_, ?_, ?_, ?_, ?_⟩
  · intro t beyond
    exact normal t (Nat.le_of_succ_le beyond)
  · intro t exited
    have earlier := exited_lt t (by simpa [Sched.enroll, Sched.enqueue] using exited)
    exact Nat.lt_succ_of_lt earlier
  · intro t isDestroyed
    rcases destroyed t (by simpa [Sched.enroll, Sched.enqueue] using isDestroyed) with
      ⟨gone, earlier⟩
    have different : t ≠ A.nextThread := Nat.ne_of_lt earlier
    refine ⟨?_, Nat.lt_succ_of_lt earlier⟩
    simpa [Sched.enroll, update_of_ne different] using gone
  · intro t
    simpa [Sched.enroll, Sched.enqueue] using once t
  · apply List.Pairwise.cons _ final
    intro older _ other isDispatch
    cases isDispatch
  · intro id
    simpa [Sched.enroll, Sched.enqueue] using kept id

theorem History.refuse (history : A.History) (ids : List Nat) : (A.refuse ids).History where
  run := history.run
  normal := fun t beyond => history.normal t (Nat.le_of_succ_le beyond)
  exited_lt := fun t exited => Nat.lt_succ_of_lt (history.exited_lt t exited)
  destroyed := fun t destroyed =>
    ⟨(history.destroyed t destroyed).1, Nat.lt_succ_of_lt (history.destroyed t destroyed).2⟩
  destroyed_once := history.destroyed_once
  final := history.final
  kept := history.kept

theorem History.setThread (history : A.History) (present : A.threads t = some thread)
    (changed : Thread) : (A.setThread t (some changed)).History where
  run := history.run
  normal := history.normal
  exited_lt := history.exited_lt
  destroyed := by
    intro other isDestroyed
    rcases history.destroyed other isDestroyed with ⟨gone, earlier⟩
    have different : other ≠ t := by
      rintro rfl
      simp [present] at gone
    exact ⟨by simpa [Sched.setThread, update_of_ne different] using gone, earlier⟩
  destroyed_once := history.destroyed_once
  final := history.final
  kept := history.kept

theorem History.retire (history : A.History) (placed : A.Placed)
    (present : A.threads cur = some thread) : (A.retire cur thread).History := by
  have earlier : cur < A.nextThread := placed.lt_nextThread (by simp [present])
  rcases history.setThread present { thread with tVmspace := none, tCwd := none } with
    ⟨run, normal, exited_lt, destroyed, once, final, kept⟩
  refine ⟨run, normal, ?_, ?_, ?_, ?_, ?_⟩
  · intro t exited
    simp only [Sched.retire, mem_cons, Event.exit.injEq] at exited
    rcases exited with rfl | exited
    · exact earlier
    · exact exited_lt t exited
  · intro t isDestroyed
    exact destroyed t (by simpa [Sched.retire] using isDestroyed)
  · intro t
    simpa [Sched.retire] using once t
  · apply List.Pairwise.cons _ final
    intro older _ other isDispatch
    cases isDispatch
  · intro id
    simpa [Sched.retire] using kept id

theorem History.dispatch (history : A.History) (present : A.threads t = some thread)
    (picks : A.queue.Picks t) (earlier : t < A.nextThread) (notExited : Event.exit t ∉ A.log) :
    (A.dispatch t thread).History := by
  rcases history.setThread present (lowerPriority thread) with
    ⟨run, normal, exited_lt, destroyed, once, final, kept⟩
  refine ⟨Mlfq.Run.pick run picks, ?_, ?_, ?_, ?_, ?_, ?_⟩
  · intro other beyond
    have different : other ≠ t := by
      rintro rfl
      exact absurd beyond (Nat.not_le.mpr earlier)
    simpa [Sched.dispatch, Sched.choose, pick, different] using normal other beyond
  · intro other exited
    exact exited_lt other (by simpa [Sched.dispatch, Sched.choose] using exited)
  · intro other isDestroyed
    exact destroyed other (by simpa [Sched.dispatch, Sched.choose] using isDestroyed)
  · intro other
    simpa [Sched.dispatch, Sched.choose] using once other
  · apply List.Pairwise.cons _ final
    rintro older older_mem other isDispatch rfl
    cases isDispatch
    exact notExited older_mem
  · intro id
    simpa [Sched.dispatch, Sched.choose] using kept id

theorem History.destroy (history : A.History) (placed : A.Placed)
    (present : A.threads t = some thread) : (A.destroy t).History := by
  have earlier : t < A.nextThread := placed.lt_nextThread (by simp [present])
  have notDestroyed : Event.destroy t ∉ A.log := by
    intro isDestroyed
    simp [(history.destroyed t isDestroyed).1] at present
  refine ⟨history.run, history.normal, ?_, ?_, ?_, ?_, ?_⟩
  · intro other exited
    exact history.exited_lt other (by simpa [Sched.destroy] using exited)
  · intro other isDestroyed
    by_cases same : other = t
    · exact ⟨by simp [Sched.destroy, same], same ▸ earlier⟩
    · rcases history.destroyed other (by simpa [Sched.destroy, same] using isDestroyed) with
        ⟨gone, otherEarlier⟩
      exact ⟨by simpa [Sched.destroy, update_of_ne same] using gone, otherEarlier⟩
  · intro other
    by_cases same : other = t
    · simp [Sched.destroy, same, count_eq_zero.mpr notDestroyed]
    · simpa [Sched.destroy, Ne.symm same] using history.destroyed_once other
  · apply List.Pairwise.cons _ history.final
    intro older _ other isDispatch
    cases isDispatch
  · intro id
    simpa [Sched.destroy] using history.kept id

/-! ## References to directories -/

theorem RefsOk.congr (refsOk : A.RefsOk) (cwds : B.cwdOf = A.cwdOf)
    (nextThread : B.nextThread = A.nextThread) (refs : B.refs = A.refs) : B.RefsOk := by
  intro vn
  rw [cwds, nextThread, refs]
  exact refsOk vn

theorem cwdOf_setThread (A : Sched) (t : Nat) (changed : Option Thread) :
    (A.setThread t changed).cwdOf = update A.cwdOf t (changed.bind Thread.tCwd) := by
  funext other
  by_cases same : other = t
  · simp [cwdOf, same]
  · simp [cwdOf, update_of_ne same]

theorem cwdOf_setThread_same (present : A.threads t = some thread) (changed : Thread)
    (sameCwd : changed.tCwd = thread.tCwd) : (A.setThread t (some changed)).cwdOf = A.cwdOf := by
  have held : A.cwdOf t = changed.tCwd := by simp [cwdOf, present, sameCwd]
  rw [cwdOf_setThread, bind_some, ← held, update_eq_self]

theorem inheritRefs_apply (refs : Nat → Nat) (cwd : Option Nat) (vn : Nat) :
    inheritRefs refs cwd vn = refs vn + (cwd == some vn).toNat := by
  cases cwd with
  | none => rfl
  | some held =>
      by_cases same : vn = held
      · simp [inheritRefs, same]
      · simp [inheritRefs, update_of_ne same, Ne.symm same]

theorem dropRefs_apply (refs : Nat → Nat) (cwd : Option Nat) (vn : Nat) :
    dropRefs refs cwd vn = refs vn - (cwd == some vn).toNat := by
  cases cwd with
  | none => rfl
  | some held =>
      by_cases same : vn = held
      · simp [dropRefs, same]
      · simp [dropRefs, update_of_ne same, beq_eq_false_iff_ne.mpr (Ne.symm same)]

theorem RefsOk.enroll (refsOk : A.RefsOk) (thread : Thread) (ids : List Nat) :
    (A.enroll thread ids).RefsOk := by
  intro vn
  have cwds : (A.enroll thread ids).cwdOf = update A.cwdOf A.nextThread thread.tCwd :=
    cwdOf_setThread A A.nextThread (some thread)
  have counted := refsOk vn
  rw [show (A.enroll thread ids).nextThread = A.nextThread + 1 from rfl,
    show (A.enroll thread ids).refs = inheritRefs A.refs thread.tCwd from rfl, cwds,
    Ownership.count_succ, Ownership.count_update_of_le le_rfl, update_self, inheritRefs_apply]
  omega

theorem RefsOk.refuse (refsOk : A.RefsOk) (placed : A.Placed) (ids : List Nat) :
    (A.refuse ids).RefsOk := by
  intro vn
  have nothing : A.cwdOf A.nextThread = none := by
    simp [cwdOf, placed.fresh A.nextThread le_rfl]
  have counted := refsOk vn
  rw [show (A.refuse ids).cwdOf = A.cwdOf from rfl,
    show (A.refuse ids).nextThread = A.nextThread + 1 from rfl, Ownership.count_succ, nothing]
  exact counted

theorem RefsOk.trade (refsOk : A.RefsOk) (placed : A.Placed) (present : A.threads t = some thread)
    {c : Option Nat} (cwds : B.cwdOf = update A.cwdOf t c)
    (nextThread : B.nextThread = A.nextThread)
    (refs : B.refs = dropRefs (inheritRefs A.refs c) thread.tCwd) : B.RefsOk := by
  intro vn
  have inside : t < A.nextThread := placed.lt_nextThread (by simp [present])
  have counted := refsOk vn
  have traded := Ownership.count_update A.cwdOf inside c vn
  rw [show A.cwdOf t = thread.tCwd by simp [cwdOf, present]] at traded
  rw [cwds, nextThread, refs, dropRefs_apply, inheritRefs_apply]
  omega

theorem RefsOk.positive (refsOk : A.RefsOk) (placed : A.Placed)
    (present : A.threads t = some thread) {vn : Nat} (cwd : thread.tCwd = some vn) :
    0 < A.refs vn := by
  have inside : t < A.nextThread := placed.lt_nextThread (by simp [present])
  have held : A.cwdOf t = some vn := by simp [cwdOf, present, cwd]
  exact lt_of_lt_of_le (Ownership.count_pos inside held) (refsOk vn)

/-! ## Whole transitions -/

theorem Valid.enroll (valid : A.Valid) (taken : A.ids = thread.id :: rest)
    (normal : thread.priority = priorityNormal) (started : thread.tPcb = .threadstart)
    (closed : FilesClosed thread.ft) : (A.enroll thread rest).Valid where
  placed := valid.placed.enroll thread rest
  ids := valid.ids.enroll taken
  threads := valid.threads.enroll valid.placed valid.history normal started closed rest
  history := valid.history.enroll valid.placed thread rest
  refs := valid.refs.enroll thread rest

theorem Valid.refuse (valid : A.Valid) {id : Nat} (taken : A.ids = id :: rest) :
    (A.refuse rest).Valid where
  placed := valid.placed.refuse rest
  ids := valid.ids.refuse taken
  threads := valid.threads.congr rfl rfl rfl rfl
  history := valid.history.refuse rest
  refs := valid.refs.refuse valid.placed rest

/-- The changes that the current thread makes to its own structure. -/
theorem Valid.setThread (valid : A.Valid) (running : A.current = some cur)
    (present : A.threads cur = some thread) (changed : Thread) (sameId : changed.id = thread.id)
    (sameCwd : changed.tCwd = thread.tCwd) (samePriority : changed.priority = thread.priority)
    (sameFiles : changed.ft = thread.ft) (notZombie : changed.tPcb ≠ .switched .zomb) :
    (A.setThread cur (some changed)).Valid := by
  have ok := valid.threads cur thread present
  have notDead : cur ∉ A.zombies :=
    (valid.placed.of_mem .current (Placed.mem_current running)).2 .zombie (by decide)
  refine ⟨valid.placed.setThread present changed,
    valid.ids.congr (idOf_setThread_same present changed sameId) rfl, ?_,
    valid.history.setThread present changed,
    valid.refs.congr (cwdOf_setThread_same present changed sameCwd) rfl rfl⟩
  apply valid.threads.setThread
  · rw [samePriority]
    exact ok.priority
  · rw [sameFiles]
    exact ok.files
  · intro dead
    exact absurd dead notDead
  · intro _
    exact ⟨notZombie, (ok.alive notDead).2⟩

/-- A change of the current thread's structure that leaves alone what the invariant is about. -/
theorem Valid.setCurrent (valid : A.Valid) (running : A.current = some cur)
    (present : A.threads cur = some thread) (changed : Thread) (sameId : changed.id = thread.id)
    (sameCwd : changed.tCwd = thread.tCwd) (samePriority : changed.priority = thread.priority)
    (sameFiles : changed.ft = thread.ft) (samePcb : changed.tPcb = thread.tPcb) :
    (A.setThread cur (some changed)).Valid := by
  have notDead : cur ∉ A.zombies :=
    (valid.placed.of_mem .current (Placed.mem_current running)).2 .zombie (by decide)
  apply valid.setThread running present changed sameId sameCwd samePriority sameFiles
  rw [samePcb]
  exact ((valid.threads cur thread present).alive notDead).1

theorem Valid.chdir (valid : A.Valid) (running : A.current = some cur)
    (present : A.threads cur = some thread) (vn : Nat) : (A.chdir cur thread vn).Valid := by
  have ok := valid.threads cur thread present
  have placed := valid.placed.setThread present { thread with tCwd := some vn }
  have threads : (A.setThread cur (some { thread with tCwd := some vn })).ThreadsOk := by
    refine valid.threads.setThread ?_ ?_ ?_ ?_
    · exact ok.priority
    · exact ok.files
    · exact fun dead => absurd dead
        ((valid.placed.of_mem .current (Placed.mem_current running)).2 .zombie (by decide))
    · exact ok.alive
  exact ⟨⟨placed.once, placed.num_eq, placed.fresh, placed.idler⟩,
    valid.ids.congr (idOf_setThread_same present _ rfl) rfl, threads.congr rfl rfl rfl rfl,
    (valid.history.setThread present { thread with tCwd := some vn }).congr rfl rfl rfl rfl,
    valid.refs.trade valid.placed present (c := some vn) (cwdOf_setThread A cur (some _))
      rfl rfl⟩

theorem Valid.park (valid : A.Valid) (running : A.current = some cur)
    (present : A.threads cur = some thread) {nextstate : ThreadState}
    (stays : nextstate = .ready ∨ nextstate = .sleep) : (A.park cur thread nextstate).Valid := by
  have notReady : cur ∉ A.queue.ready :=
    (valid.placed.of_mem .current (Placed.mem_current running)).2 .ready (by decide)
  have notZombie : Pcb.switched nextstate ≠ .switched .zomb := by
    rcases stays with rfl | rfl <;> decide
  have changed := valid.setThread running present { thread with tPcb := .switched nextstate }
    rfl rfl rfl rfl notZombie
  have placed := valid.placed.park running present stays
  rcases stays with rfl | rfl
  · exact ⟨placed, changed.ids.congr rfl rfl, (changed.threads.enqueue cur).congr rfl rfl rfl rfl,
      (changed.history.enqueue notReady).congr rfl rfl rfl rfl, changed.refs.congr rfl rfl rfl⟩
  · exact ⟨placed, changed.ids.congr rfl rfl, changed.threads.congr rfl rfl rfl rfl,
      changed.history.congr rfl rfl rfl rfl, changed.refs.congr rfl rfl rfl⟩

theorem Valid.exit (valid : A.Valid) (running : A.current = some cur)
    (present : A.threads cur = some thread) :
    ((A.retire cur thread).park cur { thread with tVmspace := none, tCwd := none }
      .zomb).Valid := by
  have retired : (A.retire cur thread).threads cur =
      some { thread with tVmspace := none, tCwd := none } := by simp [Sched.retire]
  refine ⟨valid.placed.exit running present _, valid.ids.congr ?_ rfl,
    valid.threads.exit present, ?_, ?_⟩
  · have zombieIds := idOf_setThread_same retired
      { thread with tVmspace := none, tCwd := none, tPcb := .switched .zomb } rfl
    exact zombieIds.trans (idOf_setThread_same present _ rfl)
  · have history := valid.history.retire valid.placed present
    exact (history.setThread retired { thread with
      tVmspace := none, tCwd := none, tPcb := .switched .zomb }).congr rfl rfl rfl rfl
  · refine valid.refs.trade valid.placed present (c := none) ?_ rfl rfl
    have zombieCwds := cwdOf_setThread_same retired
      { thread with tVmspace := none, tCwd := none, tPcb := .switched .zomb } rfl
    exact zombieCwds.trans (cwdOf_setThread A cur (some _))

theorem Valid.idle (valid : A.Valid) (waiting : A.current = none)
    (present : (A.threads cur).isSome) : ({ A with idling := some cur } : Sched).Valid where
  placed := valid.placed.idle waiting present
  ids := valid.ids.congr rfl rfl
  threads := valid.threads.congr rfl rfl rfl rfl
  history := valid.history.congr rfl rfl rfl rfl
  refs := valid.refs.congr rfl rfl rfl

theorem Valid.dispatch (valid : A.Valid) (waiting : A.current = none)
    (picks : A.queue.Picks t) (present : A.threads t = some thread) :
    (A.dispatch t thread).Valid := by
  have notDead : t ∉ A.zombies :=
    (valid.placed.of_mem .ready picks.mem).2 .zombie (by decide)
  refine ⟨valid.placed.dispatch waiting picks.mem present, ?_, valid.threads.dispatch present, ?_,
    valid.refs.congr (cwdOf_setThread_same present (lowerPriority thread) rfl) rfl rfl⟩
  · refine valid.ids.congr ?_ rfl
    exact idOf_setThread_same present (lowerPriority thread) rfl
  · apply valid.history.dispatch present picks
    · exact valid.placed.lt_nextThread (by simp [present])
    · exact ((valid.threads t thread present).alive notDead).2

theorem Valid.wakeOne (valid : A.Valid) {kept : List Nat}
    (asleep : A.sleepers = kept ++ t :: rest) :
    ({ A with sleepers := kept ++ rest }.enqueue t).Valid := by
  have member : t ∈ A.members .sleeping := by simp [members, asleep]
  have notReady : t ∉ A.queue.ready := (valid.placed.of_mem .sleeping member).2 .ready (by decide)
  exact ⟨valid.placed.wakeOne asleep, valid.ids.congr rfl rfl,
    (valid.threads.enqueue t).congr rfl rfl rfl rfl,
    (valid.history.enqueue notReady).congr rfl rfl rfl rfl, valid.refs.congr rfl rfl rfl⟩

theorem Valid.wakeFrom {addr : Nat} :
    ∀ {A : Sched} {kept : List Nat}, A.Valid → A.sleepers = kept ++ rest →
      (Sched.wakeFrom addr kept rest A).Valid := by
  induction rest with
  | nil =>
      intro A kept valid _
      exact valid
  | cons t rest ih =>
      intro A kept valid asleep
      rw [Sched.wakeFrom]
      split
      · exact ih (valid.wakeOne asleep) rfl
      · exact ih valid (by simp [asleep])

theorem Valid.buryOne (valid : A.Valid) (dead : A.zombies = t :: rest)
    (notIdler : A.idling ≠ some t) : ({ A.destroy t with zombies := rest } : Sched).Valid := by
  have member : t ∈ A.members .zombie := by simp [members, dead]
  rcases isSome_iff_exists.mp (valid.placed.of_mem .zombie member).1 with ⟨thread, present⟩
  refine ⟨valid.placed.buryOne dead notIdler, (valid.ids.destroy present).congr rfl rfl,
    valid.threads.buryOne dead,
    (valid.history.destroy valid.placed present).congr rfl rfl rfl rfl, ?_⟩
  refine valid.refs.congr ?_ rfl rfl
  have ended : A.cwdOf t = none := by
    simp [cwdOf, present, ((valid.threads t thread present).ended member).2]
  calc (A.setThread t none).cwdOf = update A.cwdOf t none := cwdOf_setThread A t none
    _ = A.cwdOf := by rw [← ended, update_eq_self]

theorem foldl_destroy_zombies (zs zombies : List Nat) :
    ∀ A : Sched, zs.foldl destroy { A with zombies } = { zs.foldl destroy A with zombies } := by
  induction zs with
  | nil =>
      intro A
      rfl
  | cons z zs ih =>
      intro A
      exact ih (A.destroy z)

theorem Valid.bury (valid : A.Valid) (settled : A.idling = none) : A.bury.Valid := by
  suffices ∀ (zs : List Nat) (B : Sched), B.zombies = zs → B.idling = none → B.Valid →
      ({ zs.foldl Sched.destroy B with zombies := [] } : Sched).Valid from
    this A.zombies A rfl settled valid
  intro zs
  induction zs with
  | nil =>
      intro B dead _ valid
      exact ⟨⟨by simpa [dead] using valid.placed.once, valid.placed.num_eq, valid.placed.fresh,
        valid.placed.idler⟩, valid.ids.congr rfl rfl, valid.threads.congr rfl rfl dead.symm rfl,
        valid.history.congr rfl rfl rfl rfl, valid.refs.congr rfl rfl rfl⟩
  | cons z zs ih =>
      intro B dead settled valid
      have next := ih { B.destroy z with zombies := zs } rfl settled
        (valid.buryOne dead (by simp [settled]))
      rw [foldl_destroy_zombies] at next
      exact next

theorem foldl_destroy_frame (zs : List Nat) :
    ∀ A : Sched, (zs.foldl destroy A).current = A.current ∧
      (zs.foldl destroy A).idling = A.idling ∧
      ∀ t, t ∉ zs → (zs.foldl destroy A).threads t = A.threads t := by
  induction zs with
  | nil =>
      intro A
      exact ⟨rfl, rfl, fun _ _ => rfl⟩
  | cons z zs ih =>
      intro A
      rcases ih (A.destroy z) with ⟨current, idling, threads⟩
      refine ⟨current, idling, ?_⟩
      intro t notMem
      rw [mem_cons, not_or] at notMem
      rw [foldl_cons, threads t notMem.2]
      simp [destroy, update_of_ne notMem.1]

theorem Valid.resume (valid : A.Valid) (running : A.current = some t)
    (present : A.threads t = some thread) : (A.resume t thread).Valid := by
  have settled := valid.placed.idling_none running
  have buried := valid.bury settled
  rw [Sched.resume]
  split
  · exact valid
  · have notDead : t ∉ A.zombies :=
      (valid.placed.of_mem .current (Placed.mem_current running)).2 .zombie (by decide)
    rcases foldl_destroy_frame A.zombies A with ⟨current, _, threads⟩
    have stillRunning : A.bury.current = some t := current.trans running
    have stillPresent : A.bury.threads t = some thread := (threads t notDead).trans present
    apply buried.setThread stillRunning stillPresent { thread with tSleepaddr := none } rfl rfl
      rfl rfl
    exact ((valid.threads t thread present).alive notDead).1
  · exact buried

theorem Valid.rescheduled {B : Sched} (valid : A.Valid) (waiting : A.current = none)
    (present : (A.threads cur).isSome) (rescheduled : A.Rescheduled cur B) : B.Valid := by
  rcases rescheduled with ⟨_, rfl⟩ | ⟨t, thread, picks, picked, rfl⟩
  · exact valid.idle waiting present
  · apply (valid.dispatch waiting picks picked).resume rfl
    simp [Sched.dispatch, Sched.choose]

end Sched

end Os161
