import Mathlib.Algebra.BigOperators.Group.Finset.Piecewise
import Mathlib.Data.Fintype.BigOperators

/-!
# Counting the parties of a system

Each of finitely many parties is at some place, and `tally` is the number of those
whose place is one of a kind. A step moves one party, and `tally_move` says what that
does to the number. When the number is at most one, as it is for the places that a
semaphore guards, the party that is there is the only one.
-/

/-- How many parties are at a place where `inside` holds. -/
def tally {ι κ : Type} [Fintype ι] (place : ι → κ) (inside : κ → Bool) : Nat :=
  (Finset.univ.filter fun i => inside (place i)).card

variable {ι κ : Type} [Fintype ι] {place : ι → κ} {inside : κ → Bool} {i j : ι}

theorem tally_eq_sum (place : ι → κ) (inside : κ → Bool) :
    tally place inside = ∑ i, (inside (place i)).toNat := by
  rw [tally, Finset.card_filter]
  apply Finset.sum_congr rfl
  intro i _
  cases inside (place i) <;> rfl

theorem tally_move [DecidableEq ι] (place : ι → κ) (inside : κ → Bool) (i : ι) (next : κ) :
    tally (Function.update place i next) inside + (inside (place i)).toNat =
      tally place inside + (inside next).toNat := by
  have moved : (fun k => (inside (Function.update place i next k)).toNat) =
      Function.update (fun k => (inside (place k)).toNat) i (inside next).toNat := by
    funext k
    by_cases here : k = i
    · subst here
      simp
    · simp [here]
  have member : i ∈ Finset.univ := Finset.mem_univ i
  -- the sum without the party that moves is the same before and after
  have before := Finset.sum_update_of_mem member (fun k => (inside (place k)).toNat)
    (inside (place i)).toNat
  rw [Function.update_eq_self i fun k => (inside (place k)).toNat] at before
  simp only [tally_eq_sum, moved]
  rw [Finset.sum_update_of_mem member, before]
  omega

theorem tally_pos (there : inside (place i) = true) : 0 < tally place inside :=
  Finset.card_pos.mpr ⟨i, by simp [there]⟩

theorem tally_le_card (place : ι → κ) (inside : κ → Bool) : tally place inside ≤ Fintype.card ι :=
  Finset.card_filter_le _ _

theorem tally_lt_card (place : ι → κ) (inside : κ → Bool) (i : ι)
    (away : inside (place i) = false) : tally place inside < Fintype.card ι :=
  Finset.card_lt_univ_of_notMem (x := i) (by simp [away])

theorem exists_of_tally_pos (positive : 0 < tally place inside) : ∃ i, inside (place i) = true := by
  rcases Finset.card_pos.mp positive with ⟨i, there⟩
  exact ⟨i, by simpa using there⟩

theorem tally_eq_zero (nobody : ∀ i, inside (place i) = false) : tally place inside = 0 := by
  simp [tally, nobody]

theorem eq_of_tally_le_one (alone : tally place inside ≤ 1) (here : inside (place i) = true)
    (there : inside (place j) = true) : i = j := by
  apply Finset.card_le_one.mp alone
  · simp [here]
  · simp [there]
