import Mathlib.Data.List.Induction
import Mathlib.Tactic.Common

/-!
# Files that are cleared every so many entries

A counter says how many entries were written since the file was cleared.  At `m` the next entry
clears it.
-/

namespace CpuSubsystem

variable {α : Type*} {m : Nat}

/-- One more entry: at the end, or as the only one. -/
def rotate (m : Nat) (s : Nat × List α) (a : α) : Nat × List α :=
  if s.1 < m then (s.1 + 1, s.2 ++ [a]) else (1, [a])

/-- How many of `n` entries are kept. -/
def keptOf (m n : Nat) : Nat := if n = 0 then 0 else (n - 1) % m + 1

theorem keptOf_le (hm : 0 < m) (n : Nat) : keptOf m n ≤ m := by
  unfold keptOf
  split
  · exact Nat.zero_le m
  · exact Nat.mod_lt _ hm

theorem keptOf_le_self (m n : Nat) : keptOf m n ≤ n := by
  unfold keptOf
  split
  · exact Nat.zero_le n
  · have hle := Nat.mod_le (n - 1) m
    omega

theorem keptOf_succ_of_lt {n : Nat} (h : keptOf m n < m) : keptOf m (n + 1) = keptOf m n + 1 := by
  unfold keptOf at h ⊢
  by_cases hn : n = 0
  · subst hn
    simp
  · rw [if_neg hn] at h
    rw [if_neg hn, if_neg (Nat.succ_ne_zero n), Nat.add_sub_cancel]
    have hone : 1 % m = 1 := Nat.mod_eq_of_lt (by omega)
    have hsucc : n = n - 1 + 1 := by omega
    rw [hsucc, Nat.add_sub_cancel, Nat.add_mod, hone, Nat.mod_eq_of_lt h]

theorem keptOf_succ_of_full {n : Nat} (hm : 0 < m) (h : keptOf m n = m) :
    keptOf m (n + 1) = 1 := by
  unfold keptOf at h ⊢
  have hn : n ≠ 0 := by
    rintro rfl
    rw [if_pos rfl] at h
    omega
  rw [if_neg hn] at h
  rw [if_neg (Nat.succ_ne_zero n), Nat.add_sub_cancel]
  have hdiv := Nat.div_add_mod (n - 1) m
  have hmul : n = m * ((n - 1) / m + 1) := by
    rw [Nat.mul_succ]
    omega
  rw [hmul, Nat.mul_mod_right]

theorem keptOf_of_le {n : Nat} (h : n ≤ m) : keptOf m n = n := by
  unfold keptOf
  split
  · exact Eq.symm ‹_›
  · rw [Nat.mod_eq_of_lt (by omega)]
    omega

/-- The file has the last entries, behind what was there before as long as it was not cleared. -/
theorem rotate_spec (hm : 0 < m) (old l : List α) :
    l.foldl (rotate m) (0, old) =
      (keptOf m l.length,
        (if l.length ≤ m then old else []) ++ l.drop (l.length - keptOf m l.length)) := by
  induction l using List.reverseRecOn with
  | nil =>
    rw [List.length_nil, if_pos (Nat.zero_le m), List.drop_nil, List.append_nil]
    rfl
  | append_singleton l a ih =>
    rw [List.foldl_append, List.foldl_cons, List.foldl_nil, ih, rotate, List.length_append,
      List.length_singleton]
    have hself := keptOf_le_self m l.length
    by_cases hlt : keptOf m l.length < m
    · rw [if_pos hlt, keptOf_succ_of_lt hlt, Nat.add_sub_add_right,
        List.drop_append_of_le_length (by omega), List.append_assoc]
      by_cases hle : l.length ≤ m
      · have hlen := keptOf_of_le hle
        rw [if_pos hle, if_pos (by omega)]
      · rw [if_neg hle, if_neg (by omega)]
    · have hfull : keptOf m l.length = m := Nat.le_antisymm (keptOf_le hm _) (Nat.not_lt.mp hlt)
      rw [if_neg hlt, keptOf_succ_of_full hm hfull, Nat.add_sub_cancel, List.drop_left,
        if_neg (by omega)]
      rfl

end CpuSubsystem
