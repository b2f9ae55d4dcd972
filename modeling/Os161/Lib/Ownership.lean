import Mathlib.Data.List.Nodup
import Mathlib.Data.List.Perm.Subperm
import Mathlib.Logic.Function.Basic
import Mathlib.Tactic.Common

/-!
# Exclusive ownership

Resources that are handed out to owners: `holds owner` is the resource of an
owner, if it has one, and `Exclusive holds` says that no resource has two owners.
The rules are for the two things that can happen, a resource that nobody has is
given to an owner, and an owner gives its resource up. For resources that are
shared, `count` is the number of owners that hold one.
-/

namespace Ownership

open Function

variable {ι ρ : Type} {holds : ι → Option ρ}

/-- No two owners hold the same resource. -/
def Exclusive (holds : ι → Option ρ) : Prop :=
  ∀ ⦃left right : ι⦄ ⦃resource : ρ⦄,
    holds left = some resource → holds right = some resource → left = right

def Unheld (holds : ι → Option ρ) (resource : ρ) : Prop :=
  ∀ owner, holds owner ≠ some resource

variable [DecidableEq ι]

variable {resource : ρ}

theorem Exclusive.give (exclusive : Exclusive holds) (unheld : Unheld holds resource) (owner : ι) :
    Exclusive (update holds owner (some resource)) := by
  intro left right held leftHolds rightHolds
  by_cases leftOwner : left = owner <;> by_cases rightOwner : right = owner
  · rw [leftOwner, rightOwner]
  · simp only [leftOwner, update_self, Option.some.injEq] at leftHolds
    rw [update_of_ne rightOwner, ← leftHolds] at rightHolds
    exact absurd rightHolds (unheld right)
  · simp only [rightOwner, update_self, Option.some.injEq] at rightHolds
    rw [update_of_ne leftOwner, ← rightHolds] at leftHolds
    exact absurd leftHolds (unheld left)
  · rw [update_of_ne leftOwner] at leftHolds
    rw [update_of_ne rightOwner] at rightHolds
    exact exclusive leftHolds rightHolds

theorem Exclusive.drop (exclusive : Exclusive holds) (owner : ι) :
    Exclusive (update holds owner none) := by
  intro left right held leftHolds rightHolds
  have leftOther : left ≠ owner := by
    rintro rfl
    simp at leftHolds
  have rightOther : right ≠ owner := by
    rintro rfl
    simp at rightHolds
  rw [update_of_ne leftOther] at leftHolds
  rw [update_of_ne rightOther] at rightHolds
  exact exclusive leftHolds rightHolds

theorem Unheld.drop (unheld : Unheld holds resource) (owner : ι) :
    Unheld (update holds owner none) resource := by
  intro other otherHolds
  by_cases same : other = owner
  · simp [same] at otherHolds
  · rw [update_of_ne same] at otherHolds
    exact unheld other otherHolds

/-- What an owner gave up nobody holds any more. -/
theorem Exclusive.unheld_drop (exclusive : Exclusive holds) {owner : ι}
    (held : holds owner = some resource) : Unheld (update holds owner none) resource := by
  intro other otherHolds
  by_cases same : other = owner
  · simp [same] at otherHolds
  · rw [update_of_ne same] at otherHolds
    exact same (exclusive otherHolds held)

theorem Unheld.give {given : ρ} (unheld : Unheld holds resource) (different : resource ≠ given)
    (owner : ι) : Unheld (update holds owner (some given)) resource := by
  intro other otherHolds
  by_cases same : other = owner
  · simp only [same, update_self, Option.some.injEq] at otherHolds
    exact different otherHolds.symm
  · rw [update_of_ne same] at otherHolds
    exact unheld other otherHolds

omit [DecidableEq ι] in
/-- Owners of different resources below a bound are at most as many as the bound. -/
theorem Exclusive.length_le {holds : ι → Option ℕ} (exclusive : Exclusive holds) {bound : ℕ}
    {owners : List ι} (nodup : owners.Nodup)
    (below : ∀ owner ∈ owners, ∃ resource, holds owner = some resource ∧ resource < bound) :
    owners.length ≤ bound := by
  have injective : (owners.map holds).Nodup := by
    apply nodup.map_on
    intro left left_mem right _ same
    rcases below left left_mem with ⟨resource, held, _⟩
    exact exclusive held (same ▸ held)
  have inside : owners.map holds ⊆ (List.range bound).map some := by
    intro held held_mem
    rcases List.mem_map.mp held_mem with ⟨owner, owner_mem, rfl⟩
    rcases below owner owner_mem with ⟨resource, held, lt⟩
    rw [held]
    exact List.mem_map.mpr ⟨resource, by simpa using lt, rfl⟩
  simpa using (injective.subperm inside).length_le

section Counting

variable {ρ : Type} [DecidableEq ρ] {holds : ℕ → Option ρ}

/-- How many owners below `n` hold the resource. -/
def count (holds : ℕ → Option ρ) (n : ℕ) (resource : ρ) : ℕ :=
  (List.range n).countP fun owner => holds owner == some resource

theorem count_succ (holds : ℕ → Option ρ) (n : ℕ) (resource : ρ) :
    count holds (n + 1) resource =
      count holds n resource + (holds n == some resource).toNat := by
  rw [count, List.range_succ, List.countP_append, List.countP_singleton]
  cases holds n == some resource <;> rfl

theorem count_update_of_le {n owner : ℕ} (outside : n ≤ owner) (given : Option ρ) (resource : ρ) :
    count (update holds owner given) n resource = count holds n resource := by
  apply List.countP_congr
  intro other member
  have different : other ≠ owner := by
    have inside := List.mem_range.mp member
    omega
  rw [update_of_ne different]

/-- When one owner changes what it holds, only its own part of the count changes. -/
theorem count_update (holds : ℕ → Option ρ) {n owner : ℕ} (inside : owner < n)
    (given : Option ρ) (resource : ρ) :
    count (update holds owner given) n resource +
        (holds owner == some resource).toNat =
      count holds n resource + (given == some resource).toNat := by
  induction n with
  | zero => exact absurd inside (Nat.not_lt_zero _)
  | succ n ih =>
      rw [count_succ, count_succ]
      by_cases last : owner = n
      · subst last
        rw [count_update_of_le (Nat.le_refl _), update_self]
        omega
      · rw [update_of_ne (Ne.symm last)]
        omega

theorem count_pos {n owner : ℕ} {resource : ρ} (inside : owner < n)
    (held : holds owner = some resource) : 0 < count holds n resource := by
  apply List.countP_pos_iff.mpr
  exact ⟨owner, List.mem_range.mpr inside, by simp [held]⟩

end Counting

end Ownership
