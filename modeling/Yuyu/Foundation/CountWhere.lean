import Mathlib.Algebra.BigOperators.Fin
import Mathlib.Algebra.Order.BigOperators.Group.Finset

/-!
# Counting the components with a property

The number of indices whose value satisfies a test, and how it changes when one
value is replaced.
-/

namespace Foundation

universe u v

variable {ι : Type u} {α : Type v} [Fintype ι]

/-- The change of a sum of weights under an update. -/
theorem sum_update_add [DecidableEq ι] (weight : α → Nat) (f : ι → α) (i : ι) (a : α) :
    (∑ j, weight (Function.update f i a j)) + weight (f i) = (∑ j, weight (f j)) + weight a := by
  have hrest : ∑ j ∈ Finset.univ.erase i, weight (Function.update f i a j) =
      ∑ j ∈ Finset.univ.erase i, weight (f j) := by
    refine Finset.sum_congr rfl fun j hj => ?_
    rw [Function.update_of_ne (Finset.ne_of_mem_erase hj)]
  rw [← Finset.add_sum_erase _ _ (Finset.mem_univ i),
    ← Finset.add_sum_erase _ (fun j => weight (f j)) (Finset.mem_univ i), hrest,
    Function.update_self]
  omega

/-- Weights that sum up to at most one leave room for one index only. -/
theorem sole_of_sum_le_one [DecidableEq ι] {weight : ι → Nat} {k : Nat} {i : ι}
    (h : k + ∑ j, weight j ≤ 1) (hi : weight i ≠ 0) :
    k = 0 ∧ weight i = 1 ∧ ∀ j, j ≠ i → weight j = 0 := by
  have hsplit := Finset.add_sum_erase Finset.univ weight (Finset.mem_univ i)
  have hrest : ∑ j ∈ Finset.univ.erase i, weight j = 0 := by omega
  refine ⟨by omega, by omega, fun j hj => ?_⟩
  exact Finset.sum_eq_zero_iff.mp hrest j (Finset.mem_erase.mpr ⟨hj, Finset.mem_univ j⟩)

def countWhere (test : α → Bool) (f : ι → α) : Nat := ∑ i, (test (f i)).toNat

/-- The change of the count under an update. -/
theorem countWhere_update [DecidableEq ι] (test : α → Bool) (f : ι → α) (i : ι) (a : α) :
    countWhere test (Function.update f i a) + (test (f i)).toNat =
      countWhere test f + (test a).toNat := sum_update_add (fun a => (test a).toNat) f i a

/-- The count is zero when no value passes. -/
theorem countWhere_eq_zero {test : α → Bool} {f : ι → α} :
    countWhere test f = 0 ↔ ∀ i, test (f i) = false := by
  simp [countWhere, Finset.sum_eq_zero_iff]

/-- Counts for tests that exclude each other. -/
theorem countWhere_add_le {test test' : α → Bool} {f : ι → α}
    (h : ∀ i, test (f i) = true → test' (f i) = false) :
    countWhere test f + countWhere test' f ≤ Fintype.card ι := by
  rw [countWhere, countWhere, ← Finset.sum_add_distrib, ← Finset.card_univ, Finset.card_eq_sum_ones]
  refine Finset.sum_le_sum fun i _ => ?_
  cases htest : test (f i) with
  | false => simpa using (test' (f i)).toNat_le
  | true => simp [h i htest]

lemma countWhere_le {test : α → Bool} {f : ι → α} : countWhere test f ≤ Fintype.card ι := by
  have hnone : countWhere test f + countWhere (fun _ => false) f ≤ Fintype.card ι :=
    countWhere_add_le fun _ _ => rfl
  omega

end Foundation
