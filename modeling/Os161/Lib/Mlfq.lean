import Mathlib.Data.List.Nodup
import Mathlib.Data.List.TakeWhile
import Mathlib.Tactic.Common
import Mathlib.Tactic.Linarith

/-!
# Multilevel feedback queues

The specification of a scheduler with priorities and feedback. Jobs become ready
one after the other, and `ready` lists them in that order. The job to run next is
the one with the highest priority, and the earliest one among several; when it is
picked its priority goes down by one, until zero.

An implementation keeps one queue for each priority. `State.level` is what such a
queue holds, and the lemmas about it say how the queues change when a job becomes
ready or is picked.

A job that waits with priority zero is not passed over for ever. What others can
still be picked before it is in `State.budget`: a job of a higher priority as often as
that priority says, and one of priority zero once, if it became ready earlier.
-/

namespace Mlfq

open List

variable {α : Type}

/-- The ready jobs, longest ready first, and the priority of every job. -/
structure State (α : Type) where
  ready : List α
  prio : α → Nat

/-- A job becomes ready, or is picked. -/
inductive Label (α : Type) where
  | push (job : α)
  | pick (job : α)
  deriving DecidableEq

namespace State

def level (state : State α) (p : Nat) : List α :=
  state.ready.filter fun job => state.prio job == p

/-- The job has the highest priority, and is the earliest of those that have it. -/
def Picks (state : State α) (job : α) : Prop :=
  ∃ before after, state.ready = before ++ job :: after ∧
    (∀ other ∈ before, state.prio other < state.prio job) ∧
    ∀ other ∈ after, state.prio other ≤ state.prio job

def push (state : State α) (job : α) : State α :=
  { state with ready := state.ready ++ [job] }

variable [DecidableEq α]

/-- The job is taken from the ready ones and its priority goes down. -/
def pick (state : State α) (job : α) : State α :=
  { ready := state.ready.erase job
    prio := fun other => if other = job then state.prio job - 1 else state.prio other }

end State

/-- The runs of the queue, latest label first, from the given priorities. -/
inductive Run [DecidableEq α] (start : α → Nat) : List (Label α) → State α → Prop
  | nil : Run start [] { ready := [], prio := start }
  | push {labels : List (Label α)} {state : State α} {job : α} :
      Run start labels state → job ∉ state.ready → Run start (.push job :: labels) (state.push job)
  | pick {labels : List (Label α)} {state : State α} {job : α} :
      Run start labels state → state.Picks job → Run start (.pick job :: labels) (state.pick job)

namespace State

variable {state : State α} {job : α}

theorem mem_level {p : Nat} : job ∈ state.level p ↔ job ∈ state.ready ∧ state.prio job = p := by
  simp [level]

theorem length_level_le (state : State α) (p : Nat) : (state.level p).length ≤ state.ready.length :=
  length_filter_le _ _

/-- All levels below `n`, lowest first. -/
def levels (state : State α) (n : Nat) : List α :=
  (List.range n).flatMap state.level

theorem level_push (state : State α) (job : α) (p : Nat) :
    (state.push job).level p =
      if state.prio job = p then state.level p ++ [job] else state.level p := by
  by_cases atLevel : state.prio job = p <;> simp [level, push, atLevel]

theorem Picks.mem (picks : state.Picks job) : job ∈ state.ready := by
  rcases picks with ⟨before, after, readyEq, _⟩
  simp [readyEq]

theorem picks_of_level {p : Nat} {rest : List α} (first : state.level p = job :: rest)
    (highest : ∀ other ∈ state.ready, state.prio other ≤ p) : state.Picks job := by
  rcases filter_eq_cons_iff.mp first with ⟨before, after, readyEq, lower, atLevel, _⟩
  have prioEq : state.prio job = p := by simpa using atLevel
  refine ⟨before, after, readyEq, ?_, ?_⟩
  · intro other other_mem
    have le := highest other (by simp [readyEq, other_mem])
    have ne : state.prio other ≠ p := by simpa using lower other other_mem
    omega
  · intro other other_mem
    rw [prioEq]
    exact highest other (by simp [readyEq, other_mem])

variable [DecidableEq α]

theorem count_levels (state : State α) (job : α) (n : Nat) :
    (state.levels n).count job = if state.prio job < n then state.ready.count job else 0 := by
  induction n with
  | zero => rfl
  | succ n ih =>
      have split : state.levels (n + 1) = state.levels n ++ state.level n := by
        simp [levels, range_succ]
      rw [split, count_append, ih, level]
      by_cases here : state.prio job = n
      · rw [count_filter (by simp [here]), if_neg (by omega), if_pos (by omega), Nat.zero_add]
      · have absent : (state.ready.filter fun other => state.prio other == n).count job = 0 := by
          apply count_eq_zero.mpr
          simp [here]
        rw [absent, Nat.add_zero]
        by_cases below : state.prio job < n
        · rw [if_pos below, if_pos (by omega)]
        · rw [if_neg below, if_neg (by omega)]

theorem levels_perm {n : Nat} (below : ∀ job, state.prio job < n) :
    (state.levels n).Perm state.ready := by
  apply perm_iff_count.mpr
  intro job
  rw [count_levels, if_pos (below job)]

theorem nodup_pick (nodup : state.ready.Nodup) : (state.pick job).ready.Nodup :=
  nodup.erase job

theorem mem_pick (nodup : state.ready.Nodup) {other : α} :
    other ∈ (state.pick job).ready ↔ other ≠ job ∧ other ∈ state.ready :=
  nodup.mem_erase_iff

/-- Picking the first job of a level leaves the rest of it, and the other levels. -/
theorem level_pick (nodup : state.ready.Nodup) {p : Nat} {rest : List α}
    (first : state.level p = job :: rest) (q : Nat) :
    (state.pick job).level q = if q = p then rest else state.level q := by
  have prioEq : state.prio job = p := (mem_level.mp (by rw [first]; simp)).2
  have kept : (state.pick job).level q =
      (state.ready.erase job).filter fun other => state.prio other == q := by
    apply filter_congr
    intro other other_mem
    have ne : other ≠ job := (nodup.mem_erase_iff.mp other_mem).1
    simp [pick, ne]
  rw [kept, nodup.erase_eq_filter, filter_filter]
  by_cases same : q = p
  · have restEq : rest = (job :: rest).erase job := by simp
    rw [if_pos same, restEq, ← first, level, (nodup.filter _).erase_eq_filter, filter_filter, same]
    apply filter_congr
    intro other _
    exact Bool.and_comm _ _
  · rw [if_neg same]
    apply filter_congr
    intro other _
    by_cases isJob : other = job
    · have ne : state.prio other ≠ q := by
        rw [isJob, prioEq]
        exact fun h => same h.symm
      simp [ne]
    · simp [isJob]

end State

namespace Run

variable [DecidableEq α] {start : α → Nat} {labels : List (Label α)} {state : State α}

theorem nodup_ready (run : Run start labels state) : state.ready.Nodup := by
  induction run with
  | nil => exact nodup_nil
  | push _ absent ih =>
      exact ih.append (nodup_singleton _) (by simpa using absent)
  | pick _ _ ih => exact State.nodup_pick ih

theorem prio_le (run : Run start labels state) (job : α) : state.prio job ≤ start job := by
  induction run with
  | nil => exact le_rfl
  | push _ _ ih => exact ih
  | @pick _ before picked _ _ ih =>
      simp only [State.pick]
      split
      · rename_i same
        rw [same] at ih ⊢
        omega
      · exact ih

/-- Every time a job is picked its priority goes down by one, until zero. -/
theorem prio_eq (run : Run start labels state) (job : α) :
    state.prio job = start job - labels.count (.pick job) := by
  induction run with
  | nil => simp
  | push _ _ ih => simpa [State.push] using ih
  | @pick labels before picked _ _ ih =>
      simp only [State.pick, count_cons]
      by_cases same : job = picked
      · subst same
        simp only [if_true, ih, beq_self_eq_true]
        omega
      · have different : (Label.pick picked == Label.pick job) = false := by
          simpa using Ne.symm same
        simpa [same, different] using ih

end Run

/-! ## Waiting with the lowest priority -/

section Waiting

variable [DecidableEq α]

namespace State

/-- The ready jobs that became ready before the given one. -/
def ahead (state : State α) (job : α) : List α :=
  state.ready.takeWhile fun other => other ≠ job

/-- How often a job can be picked before one that waits with priority zero. -/
def budget (state : State α) (waiting job : α) : Nat :=
  if state.prio job = 0 then (if job ∈ state.ahead waiting then 1 else 0) else state.prio job

variable {state : State α} {job waiting other : α}

theorem budget_le (state : State α) (waiting job : α) :
    state.budget waiting job ≤ max 1 (state.prio job) := by
  rw [budget]
  split_ifs <;> omega

theorem ahead_push (ready : waiting ∈ state.ready) :
    (state.push job).ahead waiting = state.ahead waiting := by
  rw [ahead, ahead, push, takeWhile_append, if_neg]
  intro all
  have none : state.ready.takeWhile (fun other => other ≠ waiting) = state.ready :=
    (List.takeWhile_prefix _).eq_of_length all
  simpa using takeWhile_eq_self_iff.mp none waiting ready

theorem mem_ahead_pick (nodup : state.ready.Nodup) (different : job ≠ waiting) :
    other ∈ (state.pick job).ahead waiting ↔ other ≠ job ∧ other ∈ state.ahead waiting := by
  have stops : (fun entry => !(entry != job) || decide (entry ≠ waiting)) =
      fun entry => decide (entry ≠ waiting) := by
    funext entry
    by_cases same : entry = job
    · simp [same, different]
    · simp [same]
  have aheadEq : (state.pick job).ahead waiting =
      (state.ahead waiting).filter fun entry => entry != job := by
    simp only [ahead, pick, nodup.erase_eq_filter, takeWhile_filter, stops]
  rw [aheadEq, mem_filter]
  simp [and_comm]

/-- A job of priority zero is picked only if it has waited longest. -/
theorem Picks.mem_ahead (picks : state.Picks job) (lowest : state.prio job = 0)
    (different : job ≠ waiting) : job ∈ state.ahead waiting := by
  rcases picks with ⟨before, after, readyEq, lower, _⟩
  have first : before = [] := by
    apply eq_nil_iff_forall_not_mem.mpr
    intro other member
    have below := lower other member
    omega
  simp [ahead, readyEq, first, different]

theorem budget_push (ready : waiting ∈ state.ready) :
    (state.push other).budget waiting job = state.budget waiting job := by
  rw [budget, budget, ahead_push ready]
  rfl

/-- A pick takes one from the budget of the job, and nothing from the others. -/
theorem budget_pick (nodup : state.ready.Nodup) (picks : state.Picks other)
    (different : other ≠ waiting) (job : α) :
    (state.pick other).budget waiting job + (if other = job then 1 else 0) =
      state.budget waiting job := by
  simp only [budget, mem_ahead_pick nodup different]
  by_cases same : other = job
  · subst same
    simp only [pick, if_true]
    by_cases lowest : state.prio other = 0
    · have isAhead := picks.mem_ahead lowest different
      simp [lowest, isAhead]
    · by_cases last : state.prio other - 1 = 0
      · simp [lowest, last]
        omega
      · simp [lowest, last]
        omega
  · have prioEq : (state.pick other).prio job = state.prio job := if_neg (Ne.symm same)
    simp [prioEq, same, Ne.symm same]

end State

namespace Run

variable {start : α → Nat} {labels : List (Label α)} {state state' : State α} {waiting : α}

theorem unique (run : Run start labels state) (run' : Run start labels state') :
    state = state' := by
  induction run generalizing state' with
  | nil =>
      cases run'
      rfl
  | push _ _ ih =>
      cases run' with
      | push before _ => rw [ih before]
  | pick _ _ ih =>
      cases run' with
      | pick before _ => rw [ih before]

theorem tail {label : Label α} (run : Run start (label :: labels) state) :
    ∃ before, Run start labels before := by
  cases run with
  | push before _ => exact ⟨_, before⟩
  | pick before _ => exact ⟨_, before⟩

theorem suffix {newer : List (Label α)} (run : Run start (newer ++ labels) state) :
    ∃ before, Run start labels before := by
  induction newer generalizing state with
  | nil => exact ⟨state, run⟩
  | cons label newer ih =>
      rcases run.tail with ⟨between, run⟩
      exact ih run

/-- While a job waits with priority zero, no other one is picked more often than its budget
allows. -/
theorem bypass (run : Run start labels state) (ready : waiting ∈ state.ready)
    (lowest : state.prio waiting = 0) {newer : List (Label α)}
    (later : Run start (newer ++ labels) state') (notPicked : .pick waiting ∉ newer) :
    waiting ∈ state'.ready ∧ state'.prio waiting = 0 ∧ ∀ job,
      newer.count (.pick job) + state'.budget waiting job = state.budget waiting job := by
  induction newer generalizing state' with
  | nil =>
      rw [run.unique later] at ready lowest ⊢
      exact ⟨ready, lowest, fun job => by simp⟩
  | cons label newer ih =>
      rw [mem_cons, not_or] at notPicked
      cases later with
      | @push _ between pushed before _ =>
          rcases ih before notPicked.2 with ⟨ready, lowest, counts⟩
          refine ⟨mem_append_left _ ready, lowest, ?_⟩
          intro job
          rw [State.budget_push ready, count_cons_of_ne (by simp), counts]
      | @pick _ between picked before picks =>
          rcases ih before notPicked.2 with ⟨ready, lowest, counts⟩
          have different : picked ≠ waiting := by
            rintro rfl
            exact notPicked.1 rfl
          have nodup := before.nodup_ready
          refine ⟨(State.mem_pick nodup).mpr ⟨Ne.symm different, ready⟩, ?_, ?_⟩
          · exact (if_neg (Ne.symm different)).trans lowest
          · intro job
            have spent := State.budget_pick nodup picks different job
            have counted := counts job
            rw [count_cons]
            by_cases same : picked = job
            · simp only [same, beq_self_eq_true, if_true] at spent ⊢
              omega
            · simp only [same, beq_iff_eq, Label.pick.injEq, if_false] at spent ⊢
              omega

end Run

end Waiting

end Mlfq
