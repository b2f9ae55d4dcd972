import Mathlib.Data.Set.BooleanAlgebra
import Mathlib.Order.CompletePartialOrder
import Mathlib.Order.Interval.Set.Disjoint
import Mathlib.Logic.Function.Basic
import Mathlib.Tactic.Common

/-!
# Regions handed out upwards

A `Region` is a half-open range of addresses. Regions are `Apart` when they have
no address in common. An arena hands its addresses out from the bottom to the
top: `Stacked holds next` says that the regions the owners hold are apart from
each other and lie below `next`, and what is taken from there on is apart from
all of them.
-/

namespace Arena

/-- The addresses from `lo` on that are below `hi`. -/
structure Region where
  lo : ℕ
  hi : ℕ

namespace Region

variable {r r' s : Region}

def addresses (r : Region) : Set ℕ :=
  Set.Ico r.lo r.hi

/-- The regions have no address in common. -/
def Apart (r r' : Region) : Prop :=
  Disjoint r.addresses r'.addresses

theorem mem_addresses {a : ℕ} : a ∈ r.addresses ↔ r.lo ≤ a ∧ a < r.hi :=
  Set.mem_Ico

theorem Apart.symm (apart : r.Apart r') : r'.Apart r :=
  Disjoint.symm apart

theorem apart_of_le (below : r.hi ≤ r'.lo) : r.Apart r' := by
  apply Set.disjoint_left.mpr
  intro a inside inside'
  rw [mem_addresses] at inside inside'
  omega

theorem Apart.mono (apart : r.Apart r') {part part' : Region}
    (inside : r.lo ≤ part.lo ∧ part.hi ≤ r.hi) (inside' : r'.lo ≤ part'.lo ∧ part'.hi ≤ r'.hi) :
    part.Apart part' :=
  Disjoint.mono (Set.Ico_subset_Ico inside.1 inside.2) (Set.Ico_subset_Ico inside'.1 inside'.2)
    apart

theorem Apart.ne {a a' : ℕ} (apart : r.Apart r') (inside : a ∈ r.addresses)
    (inside' : a' ∈ r'.addresses) : a ≠ a' := by
  rintro rfl
  exact Set.disjoint_left.mp apart inside inside'

end Region

variable {ι : Type} {holds holds' : ι → Option Region} {next next' : ℕ}

/-- The regions of different owners are apart, and all of them are below `next`. -/
structure Stacked (holds : ι → Option Region) (next : ℕ) : Prop where
  apart : ∀ ⦃left right : ι⦄ ⦃r r' : Region⦄, holds left = some r → holds right = some r' →
    left ≠ right → r.Apart r'
  below : ∀ ⦃owner : ι⦄ ⦃r : Region⦄, holds owner = some r → r.hi ≤ next

theorem Stacked.empty (next : ℕ) : Stacked (fun _ : ι => none) next :=
  ⟨fun _ _ _ _ held => (nomatch held), fun _ _ held => (nomatch held)⟩

/-- Owners may give their regions up, and addresses may be skipped. -/
theorem Stacked.mono (stacked : Stacked holds next) (above : next ≤ next')
    (kept : ∀ owner r, holds' owner = some r → holds owner = some r) : Stacked holds' next' := by
  constructor
  · intro left right r r' leftHolds rightHolds different
    exact stacked.apart (kept left r leftHolds) (kept right r' rightHolds) different
  · intro owner r held
    exact le_trans (stacked.below (kept owner r held)) above

theorem Stacked.take (stacked : Stacked holds next) (above : next ≤ next') (owner : ι)
    (kept : ∀ other r, holds' other = some r →
      holds other = some r ∨ other = owner ∧ r = ⟨next, next'⟩) : Stacked holds' next' := by
  have fresh : ∀ {other : ι} {r : Region}, holds other = some r →
      r.Apart ⟨next, next'⟩ := fun held => Region.apart_of_le (stacked.below held)
  constructor
  · intro left right r r' leftHolds rightHolds different
    rcases kept left r leftHolds with leftHeld | ⟨rfl, rfl⟩ <;>
      rcases kept right r' rightHolds with rightHeld | ⟨rfl, rfl⟩
    · exact stacked.apart leftHeld rightHeld different
    · exact fresh leftHeld
    · exact (fresh rightHeld).symm
    · exact absurd rfl different
  · intro other r held
    rcases kept other r held with earlier | ⟨rfl, rfl⟩
    · exact le_trans (stacked.below earlier) above
    · exact le_refl _

end Arena
