import CpuSubsystem.Lib.Latest
import Mathlib.Data.Nat.Find

/-!
# Endless runs

An endless run is a sequence of events; `upto run n` is the trace of the first `n`.
-/

namespace CpuSubsystem

variable {ε α : Type*} (run : ℕ → ε)

def upto (n : ℕ) : List ε := (List.range n).map run

@[simp] theorem upto_zero : upto run 0 = [] := rfl

theorem upto_succ (n : ℕ) : upto run (n + 1) = upto run n ++ [run n] := by
  rw [upto, List.range_succ, List.map_append]
  rfl

variable {run}

theorem mem_collect_upto {f : List ε → ε → Option α} {n : ℕ} {a : α} :
    a ∈ collect f (upto run n) ↔ ∃ i < n, f (upto run i) (run i) = some a := by
  induction n with
  | zero => simp
  | succ n ih =>
    rw [upto_succ, collect_snoc, List.mem_append, ih, Option.mem_toList]
    constructor
    · rintro (⟨i, hi, ha⟩ | ha)
      · exact ⟨i, by omega, ha⟩
      · exact ⟨n, by omega, ha⟩
    · rintro ⟨i, hi, ha⟩
      by_cases hlast : i = n
      · subst hlast
        exact Or.inr ha
      · exact Or.inl ⟨i, by omega, ha⟩

/-- A value comes up for the first time after `n` exactly when it comes up after `n` and not up to
`n`. -/
theorem exists_first_after {f : List ε → ε → Option α} {n : ℕ} {a : α} :
    (∃ j > n, f (upto run j) (run j) = some a ∧ a ∉ collect f (upto run j)) ↔
      (∃ j > n, f (upto run j) (run j) = some a) ∧ ∀ i ≤ n, f (upto run i) (run i) ≠ some a := by
  classical
  constructor
  · rintro ⟨j, hj, ha, hfresh⟩
    refine ⟨⟨j, hj, ha⟩, ?_⟩
    intro i hi hai
    exact hfresh (mem_collect_upto.mpr ⟨i, by omega, hai⟩)
  · rintro ⟨⟨j, hj, ha⟩, hnone⟩
    have hex : ∃ j, f (upto run j) (run j) = some a := ⟨j, ha⟩
    refine ⟨Nat.find hex, ?_, Nat.find_spec hex, ?_⟩
    · by_contra hle
      exact hnone _ (not_lt.mp hle) (Nat.find_spec hex)
    · intro hmem
      obtain ⟨i, hi, hai⟩ := mem_collect_upto.mp hmem
      exact Nat.find_min hex hi hai

end CpuSubsystem
