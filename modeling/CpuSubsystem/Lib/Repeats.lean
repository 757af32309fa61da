import Mathlib.Data.List.Count
import Mathlib.Data.List.Induction
import Mathlib.Data.List.Nodup
import Mathlib.Data.List.Range

/-!
# Leaving out repetitions with a bounded table

What comes is shown unless the table has it, and goes into the table as long as there is room.  The
table then has the first `cap` different elements, and only these are never shown again.
-/

namespace CpuSubsystem

variable {α : Type*} [DecidableEq α]

/-- The elements in the order in which they occur for the first time. -/
def firsts (l : List α) : List α :=
  l.foldl (fun seen a => if a ∈ seen then seen else seen ++ [a]) []

/-- The table and what was shown. -/
def shown (cap : ℕ) (l : List α) : List α × List α :=
  l.foldl (fun r a =>
    if a ∈ r.1 then r else (if r.1.length < cap then r.1 ++ [a] else r.1, r.2 ++ [a])) ([], [])

variable {cap : ℕ} {l : List α} {a b : α}

theorem firsts_snoc (l : List α) (a : α) :
    firsts (l ++ [a]) = if a ∈ firsts l then firsts l else firsts l ++ [a] := by
  rw [firsts, List.foldl_append]
  rfl

theorem mem_firsts : a ∈ firsts l ↔ a ∈ l := by
  induction l using List.reverseRecOn with
  | nil => rfl
  | append_singleton l b ih =>
    rw [firsts_snoc, List.mem_append, List.mem_singleton, ← ih]
    split
    · rename_i hb
      refine ⟨Or.inl, ?_⟩
      rintro (h | rfl)
      · exact h
      · exact hb
    · rw [List.mem_append, List.mem_singleton]

theorem firsts_of_nodup (h : l.Nodup) : firsts l = l := by
  induction l using List.reverseRecOn with
  | nil => rfl
  | append_singleton l a ih =>
    obtain ⟨hl, -, hdisj⟩ := List.nodup_append.mp h
    have ha : a ∉ firsts l := by
      rw [mem_firsts]
      exact fun hmem => hdisj a hmem a (List.mem_singleton_self a) rfl
    rw [firsts_snoc, if_neg ha, ih hl]

theorem shown_snoc (cap : ℕ) (l : List α) (a : α) :
    shown cap (l ++ [a]) =
      let r := shown cap l
      if a ∈ r.1 then r else (if r.1.length < cap then r.1 ++ [a] else r.1, r.2 ++ [a]) := by
  rw [shown, List.foldl_append]
  rfl

/-- The table has the first elements that are different. -/
theorem table_eq (cap : ℕ) (l : List α) : (shown cap l).1 = (firsts l).take cap := by
  induction l using List.reverseRecOn with
  | nil => exact List.take_nil.symm
  | append_singleton l a ih =>
    rw [shown_snoc, firsts_snoc]
    simp only [ih]
    by_cases hmem : a ∈ (firsts l).take cap
    · rw [if_pos hmem, if_pos (List.mem_of_mem_take hmem)]
      exact ih
    · rw [if_neg hmem, List.length_take]
      by_cases hroom : (firsts l).length < cap
      · -- a table with room has all that occurred
        have hall : (firsts l).take cap = firsts l := List.take_of_length_le (by omega)
        rw [hall] at hmem ⊢
        rw [if_pos (by omega), if_neg hmem, List.take_of_length_le]
        rw [List.length_append, List.length_singleton]
        omega
      · rw [if_neg (by omega)]
        split
        · rfl
        · exact (List.take_append_of_le_length (by omega)).symm

/-- An element of the table is shown once, another one as often as it comes. -/
theorem shown_count (cap : ℕ) (l : List α) (a : α) :
    (shown cap l).2.count a = if a ∈ (firsts l).take cap then 1 else l.count a := by
  induction l using List.reverseRecOn with
  | nil => simp [shown, firsts]
  | append_singleton l b ih =>
    have htable := table_eq cap l
    have htable' := table_eq cap (l ++ [b])
    rw [shown_snoc] at htable' ⊢
    simp only [htable] at htable' ⊢
    by_cases hmem : b ∈ (firsts l).take cap
    · rw [if_pos hmem] at htable' ⊢
      rw [← htable', htable, ih]
      split
      · rfl
      · rename_i ha
        have hne : a ≠ b := fun heq => ha (heq ▸ hmem)
        rw [List.count_append, List.count_singleton, if_neg (by simpa using hne.symm), Nat.add_zero]
    · rw [if_neg hmem] at htable' ⊢
      rw [← htable', List.count_append, List.count_append, ih]
      by_cases hab : a = b
      · subst hab
        rw [if_neg hmem, List.count_singleton_self]
        by_cases hroom : ((firsts l).take cap).length < cap
        · -- nothing was left out of a table with room
          have hnew : a ∉ l := by
            rw [← mem_firsts]
            rw [List.length_take] at hroom
            rwa [List.take_of_length_le (by omega)] at hmem
          rw [if_pos hroom, if_pos (by simp), List.count_eq_zero.mpr hnew]
        · rw [if_neg hroom, if_neg hmem]
      · have hcount : [b].count a = 0 := by
          rw [List.count_singleton, if_neg (by simpa using Ne.symm hab)]
        rw [hcount, Nat.add_zero, Nat.add_zero]
        congr 1
        split <;> simp [hab]

/-- Nothing is shown twice exactly when whatever finds no room in the table comes once. -/
theorem shown_nodup (cap : ℕ) (l : List α) :
    (shown cap l).2.Nodup ↔ ∀ a, a ∉ (firsts l).take cap → l.count a ≤ 1 := by
  rw [List.nodup_iff_count_le_one]
  refine forall_congr' fun a => ?_
  rw [shown_count]
  split
  · rename_i hmem
    exact ⟨fun _ h => absurd hmem h, fun _ => Nat.le_refl 1⟩
  · rename_i hmem
    exact ⟨fun h _ => h, fun h => h hmem⟩

/-- The element after those that fill the table is shown again. -/
theorem shown_again {f : ℕ → α} (hf : Function.Injective f) (cap : ℕ) :
    ¬ (shown cap ((List.range (cap + 1)).map f ++ [f cap])).2.Nodup := by
  rw [shown_nodup]
  intro h
  have hnodup : ((List.range (cap + 1)).map f).Nodup := List.nodup_range.map hf
  have hmem : f cap ∈ (List.range (cap + 1)).map f :=
    List.mem_map.mpr ⟨cap, List.mem_range.mpr (Nat.lt_succ_self cap), rfl⟩
  have hfirsts : (firsts ((List.range (cap + 1)).map f ++ [f cap])).take cap =
      (List.range cap).map f := by
    rw [firsts_snoc, firsts_of_nodup hnodup, if_pos hmem, ← List.map_take, List.take_range]
    simp
  have hcount := h (f cap) (by
    rw [hfirsts, List.mem_map]
    rintro ⟨n, hn, heq⟩
    rw [hf heq] at hn
    exact absurd (List.mem_range.mp hn) (Nat.lt_irrefl cap))
  have hone := List.count_pos_iff.mpr hmem
  rw [List.count_append, List.count_singleton_self] at hcount
  omega

end CpuSubsystem
