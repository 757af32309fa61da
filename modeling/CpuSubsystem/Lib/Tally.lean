import Mathlib.Algebra.BigOperators.Group.Finset.Piecewise
import Mathlib.Data.UInt
import Mathlib.Tactic.Common

/-!
# Sum, greatest and least of a list of durations

The programs keep three 64-bit words, updated with each duration; a least value of 0 means that
there was none yet.  `Tally l sum max min` says that the words are those of the durations `l`.  A
list that is put together from several ones has the combined tally.
-/

namespace CpuSubsystem

/-- `if (d > max) max = d`. -/
def keepMax (m d : UInt64) : UInt64 := if d > m then d else m

/-- `if (min == 0 || d < min) min = d`. -/
def keepMin (m d : UInt64) : UInt64 := if m == 0 || d < m then d else m

/-- A running extremum is the first value or one of the list. -/
theorem mem_foldl_of_choice {f : UInt64 → UInt64 → UInt64} (hf : ∀ m d, f m d = m ∨ f m d = d)
    (m : UInt64) (l : List UInt64) : l.foldl f m = m ∨ l.foldl f m ∈ l := by
  induction l generalizing m with
  | nil => exact Or.inl rfl
  | cons d l ih =>
    rw [List.foldl_cons]
    rcases ih (f m d) with heq | hmem
    · rw [heq]
      exact (hf m d).imp_right fun hd => by rw [hd]; exact List.mem_cons_self
    · exact Or.inr (List.mem_cons_of_mem d hmem)

theorem keepMax_choice (m d : UInt64) : keepMax m d = m ∨ keepMax m d = d := by
  unfold keepMax
  split
  · exact Or.inr rfl
  · exact Or.inl rfl

theorem keepMin_choice (m d : UInt64) : keepMin m d = m ∨ keepMin m d = d := by
  unfold keepMin
  split
  · exact Or.inr rfl
  · exact Or.inl rfl

/-- The greatest element of `l`, 0 when there is none. -/
def Greatest (l : List UInt64) (m : UInt64) : Prop :=
  (l = [] ∧ m = 0) ∨ (m ∈ l ∧ ∀ d ∈ l, d ≤ m)

/-- The least element of `l`, 0 when there is none. -/
def Least (l : List UInt64) (m : UInt64) : Prop :=
  (l = [] ∧ m = 0) ∨ (m ∈ l ∧ ∀ d ∈ l, m ≤ d)

structure Tally (l : List UInt64) (sum max min : UInt64) : Prop where
  sum_eq : sum = l.sum
  greatest : Greatest l max
  least : Least l min
  pos : ∀ d ∈ l, d ≠ 0

theorem Greatest.le {l : List UInt64} {m d : UInt64} (h : Greatest l m) (hd : d ∈ l) : d ≤ m := by
  rcases h with ⟨rfl, -⟩ | ⟨-, hle⟩
  · cases hd
  · exact hle d hd

theorem Least.le {l : List UInt64} {m d : UInt64} (h : Least l m) (hd : d ∈ l) : m ≤ d := by
  rcases h with ⟨rfl, -⟩ | ⟨-, hle⟩
  · cases hd
  · exact hle d hd

theorem Greatest.add {l : List UInt64} {m : UInt64} (h : Greatest l m) (d : UInt64) :
    Greatest (l ++ [d]) (keepMax m d) := by
  right
  unfold keepMax
  rcases h with ⟨rfl, rfl⟩ | ⟨hm, hle⟩
  · have hmax : (if d > 0 then d else 0) = d := by
      split
      · rfl
      · rename_i hd
        exact UInt64.le_antisymm UInt64.zero_le (UInt64.not_lt.mp hd)
    rw [hmax]
    exact ⟨by simp, List.forall_mem_singleton.mpr (UInt64.le_refl d)⟩
  · by_cases hd : d > m
    · rw [if_pos hd]
      refine ⟨by simp, List.forall_mem_append.mpr ⟨fun x hx => ?_, ?_⟩⟩
      · exact UInt64.le_trans (hle x hx) (UInt64.le_of_lt hd)
      · exact List.forall_mem_singleton.mpr (UInt64.le_refl d)
    · rw [if_neg hd]
      refine ⟨List.mem_append_left _ hm, List.forall_mem_append.mpr ⟨hle, ?_⟩⟩
      exact List.forall_mem_singleton.mpr (UInt64.not_lt.mp hd)

theorem Least.add {l : List UInt64} {m : UInt64} (h : Least l m) (hpos : ∀ d ∈ l, d ≠ 0)
    (d : UInt64) : Least (l ++ [d]) (keepMin m d) := by
  right
  unfold keepMin
  rcases h with ⟨rfl, rfl⟩ | ⟨hm, hle⟩
  · exact ⟨by simp, List.forall_mem_singleton.mpr (UInt64.le_refl d)⟩
  · have hne : (m == 0) = false := beq_eq_false_iff_ne.mpr (hpos m hm)
    rw [hne, Bool.false_or]
    by_cases hd : d < m
    · rw [if_pos (decide_eq_true hd)]
      refine ⟨by simp, List.forall_mem_append.mpr ⟨fun x hx => ?_, ?_⟩⟩
      · exact UInt64.le_trans (UInt64.le_of_lt hd) (hle x hx)
      · exact List.forall_mem_singleton.mpr (UInt64.le_refl d)
    · rw [if_neg (fun hc => hd (of_decide_eq_true hc))]
      refine ⟨List.mem_append_left _ hm, List.forall_mem_append.mpr ⟨hle, ?_⟩⟩
      exact List.forall_mem_singleton.mpr (UInt64.not_lt.mp hd)

theorem tally_nil : Tally [] 0 0 0 where
  sum_eq := rfl
  greatest := Or.inl ⟨rfl, rfl⟩
  least := Or.inl ⟨rfl, rfl⟩
  pos d hd := by cases hd

theorem Tally.add {l : List UInt64} {sum max min : UInt64} (h : Tally l sum max min) {d : UInt64}
    (hd : d ≠ 0) : Tally (l ++ [d]) (sum + d) (keepMax max d) (keepMin min d) where
  sum_eq := by
    rw [h.sum_eq, List.sum_append, List.sum_singleton]
  greatest := h.greatest.add d
  least := h.least.add h.pos d
  pos x hx := by
    rcases List.mem_append.mp hx with hx | hx
    · exact h.pos x hx
    · rw [List.mem_singleton.mp hx]
      exact hd

/-- The wrapping sum is the sum unless it passes the range of the words. -/
theorem sum_toNat_of_lt {l : List UInt64} (h : (l.map UInt64.toNat).sum < 2 ^ 64) :
    l.sum.toNat = (l.map UInt64.toNat).sum := by
  induction l with
  | nil => rfl
  | cons d l ih =>
    rw [List.map_cons, List.sum_cons] at h ⊢
    rw [List.sum_cons, UInt64.toNat_add, ih (by omega)]
    exact Nat.mod_eq_of_lt h

/-- Sums of `s x` between `lo` and `hi` times as large as those of `n x`. -/
theorem sums_between {α : Type*} {l : List α} {n s : α → Nat} {lo hi : Nat}
    (h : ∀ x ∈ l, lo * n x ≤ s x ∧ s x ≤ hi * n x) :
    lo * (l.map n).sum ≤ (l.map s).sum ∧ (l.map s).sum ≤ hi * (l.map n).sum := by
  induction l with
  | nil => simp
  | cons x l ih =>
    obtain ⟨hlo, hhi⟩ := ih fun y hy => h y (List.mem_cons_of_mem x hy)
    obtain ⟨hlo', hhi'⟩ := h x List.mem_cons_self
    rw [List.map_cons, List.map_cons, List.sum_cons, List.sum_cons, Nat.mul_add, Nat.mul_add]
    exact ⟨Nat.add_le_add hlo' hlo, Nat.add_le_add hhi' hhi⟩

/-- An average is between the bounds of what it is the average of. -/
theorem average_between {sum n lo hi : UInt64} (hn : n ≠ 0)
    (hlo : lo.toNat * n.toNat ≤ sum.toNat) (hhi : sum.toNat ≤ hi.toNat * n.toNat) :
    lo ≤ sum / n ∧ sum / n ≤ hi := by
  have hpos : 0 < n.toNat := by
    rw [Nat.pos_iff_ne_zero]
    intro hzero
    exact hn (UInt64.toNat_inj.mp hzero)
  rw [UInt64.le_iff_toNat_le, UInt64.le_iff_toNat_le, UInt64.toNat_div]
  rw [Nat.mul_comm] at hhi
  exact ⟨(Nat.le_div_iff_mul_le hpos).mpr hlo, Nat.div_le_of_le_mul hhi⟩

section Combine

variable {κ : Type*} {K : Finset κ} {all : List UInt64} {part : κ → List UInt64}
  {sum max min : UInt64} {sums maxs mins : κ → UInt64}

theorem mem_of_parts (h : (all : Multiset UInt64) = ∑ k ∈ K, (part k : Multiset UInt64))
    {d : UInt64} : d ∈ all ↔ ∃ k ∈ K, d ∈ part k := by
  rw [← Multiset.mem_coe, h, Multiset.mem_sum]
  simp only [Multiset.mem_coe]

theorem length_of_parts (h : (all : Multiset UInt64) = ∑ k ∈ K, (part k : Multiset UInt64)) :
    all.length = ∑ k ∈ K, (part k).length := by
  rw [← Multiset.coe_card, h, Multiset.card_sum]
  rfl

/-- The tally of the whole from the tallies of the parts. -/
structure Combined (K : Finset κ) (part : κ → List UInt64) (sum max min : UInt64)
    (sums maxs mins : κ → UInt64) : Prop where
  sum_eq : sum = ∑ k ∈ K, sums k
  max_le : ∀ k ∈ K, maxs k ≤ max
  max_mem : max = 0 ∨ ∃ k ∈ K, max = maxs k
  min_le : ∀ k ∈ K, part k ≠ [] → min ≤ mins k
  min_mem : min = 0 ∧ (∀ k ∈ K, part k = []) ∨ ∃ k ∈ K, part k ≠ [] ∧ min = mins k

theorem Tally.combined (h : Tally all sum max min)
    (hparts : ∀ k ∈ K, Tally (part k) (sums k) (maxs k) (mins k))
    (hall : (all : Multiset UInt64) = ∑ k ∈ K, (part k : Multiset UInt64)) :
    Combined K part sum max min sums maxs mins where
  sum_eq := by
    rw [h.sum_eq, ← Multiset.sum_coe, hall, Multiset.sum_sum]
    exact Finset.sum_congr rfl fun k hk => by rw [(hparts k hk).sum_eq, Multiset.sum_coe]
  max_le k hk := by
    rcases (hparts k hk).greatest with ⟨_, h0⟩ | ⟨hm, _⟩
    · rw [h0]
      exact UInt64.zero_le
    -- the greatest of a part is in the whole
    · have hmem := (mem_of_parts hall).mpr ⟨k, hk, hm⟩
      rcases h.greatest with ⟨hnil, _⟩ | ⟨_, hle⟩
      · rw [hnil] at hmem
        cases hmem
      · exact hle _ hmem
  max_mem := by
    rcases h.greatest with ⟨_, h0⟩ | ⟨hm, hle⟩
    · exact Or.inl h0
    · right
      -- the greatest of the whole is in some part, and is the greatest there
      obtain ⟨k, hk, hmk⟩ := (mem_of_parts hall).mp hm
      refine ⟨k, hk, ?_⟩
      rcases (hparts k hk).greatest with ⟨hnil, _⟩ | ⟨hmem, hlek⟩
      · rw [hnil] at hmk
        cases hmk
      · exact UInt64.le_antisymm (hlek _ hmk) (hle _ ((mem_of_parts hall).mpr ⟨k, hk, hmem⟩))
  min_le k hk hne := by
    rcases (hparts k hk).least with ⟨hnil, _⟩ | ⟨hm, _⟩
    · exact absurd hnil hne
    · have hmem := (mem_of_parts hall).mpr ⟨k, hk, hm⟩
      rcases h.least with ⟨hnil, _⟩ | ⟨_, hle⟩
      · rw [hnil] at hmem
        cases hmem
      · exact hle _ hmem
  min_mem := by
    rcases h.least with ⟨hnil, h0⟩ | ⟨hm, hle⟩
    -- a whole without elements has no part with one
    · refine Or.inl ⟨h0, ?_⟩
      intro k hk
      rw [List.eq_nil_iff_forall_not_mem]
      intro d hd
      have hmem := (mem_of_parts hall).mpr ⟨k, hk, hd⟩
      rw [hnil] at hmem
      cases hmem
    · right
      obtain ⟨k, hk, hmk⟩ := (mem_of_parts hall).mp hm
      refine ⟨k, hk, List.ne_nil_of_mem hmk, ?_⟩
      rcases (hparts k hk).least with ⟨hnil, _⟩ | ⟨hmem, hlek⟩
      · rw [hnil] at hmk
        cases hmk
      · exact UInt64.le_antisymm (hle _ ((mem_of_parts hall).mpr ⟨k, hk, hmem⟩)) (hlek _ hmk)

end Combine

end CpuSubsystem
