import Mathlib.Data.Finset.Card
import Mathlib.Data.Finset.Image
import Mathlib.Tactic.Common

/-!
# Collecting the values of a sequence

A set that takes in the values of a sequence one after the other.  Its size grows by at
most one a turn, so it takes on every size up to that of the set it grows into.

## Main results

* `exists_card_eq_iff` — the sizes that are reached.
-/

namespace Collect

variable {α : Type} [DecidableEq α]

/-- The set after the first `i` values. -/
def after (S : Finset α) (key : ℕ → α) (i : ℕ) : Finset α := S ∪ (Finset.range i).image key

variable {S D : Finset α} {key : ℕ → α}

@[simp] theorem after_zero : after S key 0 = S := by
  simp [after]

theorem after_succ (i : ℕ) : after S key (i + 1) = insert (key i) (after S key i) := by
  simp [after, Finset.range_add_one, Finset.image_insert]

/-- The first value can be taken in beforehand. -/
theorem after_insert (i : ℕ) :
    after (insert (key 0) S) (fun j => key (j + 1)) i = after S key (i + 1) := by
  induction i with
  | zero => simp [after_succ]
  | succ i ih => rw [after_succ, ih, after_succ (i + 1)]

theorem subset_after (i : ℕ) : S ⊆ after S key i := Finset.subset_union_left

theorem after_mono (S : Finset α) (key : ℕ → α) {i j : ℕ} (h : i ≤ j) :
    after S key i ⊆ after S key j := by
  apply Finset.union_subset_union_right
  exact Finset.image_subset_image (Finset.range_subset_range.mpr h)

theorem card_after_succ_le (S : Finset α) (key : ℕ → α) (i : ℕ) :
    (after S key (i + 1)).card ≤ (after S key i).card + 1 := by
  rw [after_succ]
  exact Finset.card_insert_le _ _

/-- A size between two reached sizes is reached. -/
theorem exists_card_eq_of_le {N i : ℕ} (hS : S.card ≤ N) (hi : N ≤ (after S key i).card) :
    ∃ j ≤ i, (after S key j).card = N := by
  induction i with
  | zero =>
      rw [after_zero] at hi
      exact ⟨0, le_refl 0, by rw [after_zero]; omega⟩
  | succ i ih =>
      by_cases h : N ≤ (after S key i).card
      · obtain ⟨j, hj, hcard⟩ := ih h
        exact ⟨j, by omega, hcard⟩
      · have := card_after_succ_le S key i
        exact ⟨i + 1, le_refl _, by omega⟩

/-- Values in `D` keep the set within `S ∪ D`. -/
theorem after_subset (hD : ∀ i, key i ∈ D) (i : ℕ) : after S key i ⊆ S ∪ D := by
  apply Finset.union_subset_union_right
  intro a ha
  obtain ⟨j, -, rfl⟩ := Finset.mem_image.mp ha
  exact hD j

/-- A sequence that meets all of `D` fills the set up. -/
theorem exists_subset_after (hD : ∀ d ∈ D, ∃ i, key i = d) : ∃ i, S ∪ D ⊆ after S key i := by
  induction D using Finset.induction_on with
  | empty => exact ⟨0, by simp⟩
  | insert d D _ ih =>
      obtain ⟨i, hi⟩ := ih fun d hd => hD d (Finset.mem_insert_of_mem hd)
      obtain ⟨j, hj⟩ := hD d (Finset.mem_insert_self d D)
      refine ⟨max i (j + 1), ?_⟩
      have hmem : d ∈ after S key (max i (j + 1)) := by
        rw [after, Finset.mem_union, Finset.mem_image]
        exact Or.inr ⟨j, by simp, hj⟩
      have hrest := hi.trans (after_mono S key (le_max_left i (j + 1)))
      rw [Finset.union_insert]
      exact Finset.insert_subset hmem hrest

/-- **The sizes that are reached** are those up to the size of the full set. -/
theorem exists_card_eq_iff {N : ℕ} (hin : ∀ i, key i ∈ D) (hall : ∀ d ∈ D, ∃ i, key i = d)
    (hS : S.card ≤ N) : (∃ i, (after S key i).card = N) ↔ N ≤ (S ∪ D).card := by
  constructor
  · intro ⟨i, hi⟩
    rw [← hi]
    exact Finset.card_le_card (after_subset hin i)
  · intro hN
    obtain ⟨i, hi⟩ := exists_subset_after (S := S) hall
    obtain ⟨j, -, hj⟩ := exists_card_eq_of_le hS (hN.trans (Finset.card_le_card hi))
    exact ⟨j, hj⟩

end Collect
