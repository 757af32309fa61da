import Mathlib.Algebra.BigOperators.Fin
import Mathlib.Algebra.Order.Field.Basic
import Mathlib.Tactic.Linarith
import Mathlib.Tactic.Ring

/-!
# Exponentially weighted moving averages

The latest value of a sequence has the weight `α`, and each one before it the weight of its
successor times `1 - α`; the first value has all that is left.
-/

namespace CpuSubsystem

variable {K : Type*} [Field K] {α x : K} {l : List K}

/-- The weight of the value `i` among `n`. -/
def ewmaWeight (α : K) (n i : ℕ) : K := (if i = 0 then 1 else α) * (1 - α) ^ (n - 1 - i)

def ewma (α : K) (l : List K) : K :=
  Finset.sum Finset.univ fun i : Fin l.length => ewmaWeight α l.length i * l.get i

theorem ewma_singleton (α x : K) : ewma α [x] = x := by
  simp [ewma, ewmaWeight]

/-- A value that comes in takes its share from all the others. -/
theorem ewma_snoc (h : l ≠ []) : ewma α (l ++ [x]) = α * x + (1 - α) * ewma α l := by
  have hpos : 0 < l.length := List.length_pos_iff.mpr h
  have hlen : (l ++ [x]).length = l.length + 1 := by simp
  have hsum : ewma α (l ++ [x]) = Finset.sum Finset.univ fun i : Fin (l.length + 1) =>
      ewmaWeight α (l.length + 1) i * (l ++ [x]).get (i.cast hlen.symm) := by
    unfold ewma
    rw [← Equiv.sum_comp (finCongr hlen.symm)]
    simp
  rw [hsum, Fin.sum_univ_castSucc, add_comm, ewma, Finset.mul_sum]
  congr 1
  · simp [ewmaWeight, hpos.ne']
  · refine Finset.sum_congr rfl fun i _ => ?_
    have hexp : l.length + 1 - 1 - (i : ℕ) = l.length - 1 - i + 1 := by
      have hi := i.isLt
      omega
    simp only [Fin.val_castSucc, ewmaWeight, hexp, pow_succ, List.get_eq_getElem, Fin.val_cast]
    rw [List.getElem_append_left i.isLt]
    ring

variable [LinearOrder K] [IsStrictOrderedRing K]

/-- The average of positive values is positive. -/
theorem ewma_pos (hα : 0 < α) (hα1 : α ≤ 1) (h : l ≠ []) (hl : ∀ y ∈ l, 0 < y) : 0 < ewma α l := by
  induction l using List.reverseRecOn with
  | nil => exact absurd rfl h
  | append_singleton l x ih =>
    have hx : 0 < x := hl x (List.mem_append_right _ (List.mem_singleton_self x))
    rcases eq_or_ne l [] with rfl | hne
    · rw [List.nil_append, ewma_singleton]
      exact hx
    · have hprev := ih hne fun y hy => hl y (List.mem_append_left _ hy)
      rw [ewma_snoc hne]
      have hnew : 0 < α * x := mul_pos hα hx
      have hold : 0 ≤ (1 - α) * ewma α l := mul_nonneg (by linarith) hprev.le
      linarith

/-- A value is above the average that it moves, exactly if it was above the one before. -/
theorem ewma_snoc_le (hα1 : α ≤ 1) (h : l ≠ []) :
    ewma α (l ++ [x]) ≤ x ↔ α = 1 ∨ ewma α l ≤ x := by
  have hdiff : x - ewma α (l ++ [x]) = (1 - α) * (x - ewma α l) := by
    rw [ewma_snoc h]
    ring
  rw [← sub_nonneg, hdiff]
  rcases hα1.eq_or_lt with rfl | hlt
  · simp
  · have hpos : 0 < 1 - α := by linarith
    rw [mul_nonneg_iff_of_pos_left hpos, sub_nonneg, or_iff_right hlt.ne]

end CpuSubsystem
